import KernelLoader.Tge.Commands
import KernelLoader.Lib.Locks

namespace KernelLoader.Tge
open Lib Lib.Async
set_option autoImplicit true
set_option relaxedAutoImplicit false

/-- The mutexes a request holds until its completion. Those of the initialisation are not known from
the request: its callback goes by the counter. -/
def EndFunc.guard : EndFunc → Option (Finset Mutex)
  | .cdvdInitCallback => none
  | .cdResetCallback => some ∅
  | .cdAlignReadBuffer | .cdCallback | .cdGetTocStage2 | .nCmdCallback => some {.cdvdMutexN}
  | .cdDiskReadyCallback | .cdvdreadrtcStage2 | .sCmdStage2 | .cdvdtrayrequestStage2
  | .mmodeStage2 => some {.cdvdMutexS}
  | .iopHeapInitCallback | .iopHeapCallback => some {.iopHeapMutex}

def Request.guard (q : Request) : Option (Finset Mutex) := q.endfunc.guard

section Bodies
variable {guard : Request → Option (Finset Mutex)}

theorem sbiosTryLock_keeps {mutex : Mutex} {k : Int → Code} (hlocked : (k 0).Keeps guard {mutex})
    (hbusy : (k (-2)).Keeps guard ∅) : (sbiosTryLock mutex k).Keeps guard ∅ :=
  ⟨by decide, hlocked, hbusy⟩

theorem sbiosUnlock_keeps {mutex : Mutex} {k : Code} (h : k.Keeps guard ∅) :
    (sbiosUnlock mutex k).Keeps guard {mutex} := by
  refine ⟨Finset.mem_singleton_self mutex, ?_⟩
  rw [Finset.erase_singleton]
  exact h

theorem cdvdLock_keeps {mutex : Mutex} {k : Int → Code} (hlocked : (k 0).Keeps guard {mutex})
    (hfail : (k 1).Keeps guard ∅) : (cdvdLock mutex k).Keeps guard ∅ := by
  refine sbiosTryLock_keeps ?_ hfail
  exact fun _ => .ite (sbiosUnlock_keeps hfail) hlocked

theorem cdvdLockN_keeps {k : Int → Code} (hlocked : (k 0).Keeps guard {.cdvdMutexN})
    (hfail : (k 1).Keeps guard ∅) : (cdvdLockN k).Keeps guard ∅ :=
  cdvdLock_keeps hlocked hfail

theorem cdvdLockS_keeps {k : Int → Code} (hlocked : (k 0).Keeps guard {.cdvdMutexS})
    (hfail : (k 1).Keeps guard ∅) : (cdvdLockS k).Keeps guard ∅ :=
  cdvdLock_keeps hlocked hfail

theorem cdCheckNCmd_keeps {cmd : Nat} {k : Int → Code} (hready : (k 1).Keeps guard {.cdvdMutexN})
    (hfail : (k 0).Keeps guard ∅) : (cdCheckNCmd cmd k).Keeps guard ∅ := by
  refine cdvdLockN_keeps ?_ hfail
  exact fun _ => .ite hready (sbiosUnlock_keeps hfail)

theorem cdCheckSCmd_keeps {cmd : Nat} {k : Int → Code} (hready : (k 1).Keeps guard {.cdvdMutexS})
    (hfail : (k 0).Keeps guard ∅) : (cdCheckSCmd cmd k).Keeps guard ∅ := by
  refine cdvdLockS_keeps ?_ hfail
  exact fun _ => .ite hready (sbiosUnlock_keeps hfail)

theorem request_keeps {mutex : Mutex} {q : Request} (hq : guard q = some {mutex}) (r : Int) :
    (Prog.request (fun _ => q) fun ok =>
      if ok then .ret 0 else sbiosUnlock mutex (.ret r) : Code).Keeps guard {mutex} :=
  ⟨fun _ => hq, rfl, sbiosUnlock_keeps rfl⟩

end Bodies

theorem callNCmd_keeps (cmd : Nat) (fill : List (Vars → Vars)) (ssize rsize : Nat)
    {endfunc : EndFunc} (hend : endfunc.guard = some {.cdvdMutexN}) :
    (callNCmd cmd fill ssize rsize endfunc).Keeps Request.guard ∅ := by
  refine cdCheckNCmd_keeps ?_ fun _ => rfl
  exact (Prog.keeps_acts _ _ _).mpr (request_keeps hend _)

theorem callSCmd_keeps (cmd : Nat) (fill : List (Vars → Vars)) (ssize rsize : Nat)
    {endfunc : EndFunc} (hend : endfunc.guard = some {.cdvdMutexS}) :
    (callSCmd cmd fill ssize rsize endfunc).Keeps Request.guard ∅ := by
  refine cdCheckSCmd_keeps ?_ fun _ => rfl
  exact (Prog.keeps_acts _ _ _).mpr (request_keeps hend _)

theorem sbcallCdvdmmode_keeps (cfg : Config) (media : Nat) :
    (sbcallCdvdmmode cfg media).Keeps Request.guard ∅ := by
  unfold sbcallCdvdmmode
  split_ifs with hnew
  · exact callSCmd_keeps _ _ _ _ rfl
  · exact fun _ => .ite (callSCmd_keeps _ _ _ _ rfl) rfl

theorem sbcallCdvdready_keeps (mode : Nat) : (sbcallCdvdready mode).Keeps Request.guard ∅ := by
  refine cdvdLockS_keeps ?_ rfl
  exact fun _ => .ite (sbiosUnlock_keeps rfl) (request_keeps rfl _)

theorem sbcallIopheapinit_keeps : sbcallIopheapinit.Keeps Request.guard ∅ := by
  exact fun _ => .ite rfl (sbiosTryLock_keeps (request_keeps rfl _) rfl)

theorem callIopHeap_keeps (rpcNumber arg : Nat) :
    (callIopHeap rpcNumber arg).Keeps Request.guard ∅ := by
  exact fun _ => .ite rfl (sbiosTryLock_keeps (request_keeps rfl _) rfl)

theorem Call.body_keeps (cfg : Config) {call : Call} (h : call ≠ .cdvdinit) :
    (call.body cfg).Keeps Request.guard ∅ := by
  cases call with
  | iopheapinit => exact sbcallIopheapinit_keeps
  | iopaheapalloc size => exact callIopHeap_keeps 1 size
  | iopheapfree iopaddr => exact callIopHeap_keeps 2 iopaddr
  | cdvdinit => exact absurd rfl h
  | cdvdreset => exact ⟨fun _ => rfl, rfl, rfl⟩
  | cdvdready mode => exact sbcallCdvdready_keeps mode
  | cdvdread arg => exact callNCmd_keeps _ _ _ _ rfl
  | cdvdreadVideo arg => exact callNCmd_keeps _ _ _ _ rfl
  | cdvdgettoc => exact callNCmd_keeps _ _ _ _ rfl
  | cdvdstop => exact callNCmd_keeps _ _ _ _ rfl
  | cdvdreadrtc => exact callSCmd_keeps _ _ _ _ rfl
  | cdvdwritertc rtc => exact callSCmd_keeps _ _ _ _ rfl
  | cdvdgettype => exact callSCmd_keeps _ _ _ _ rfl
  | cdvdgeterror => exact callSCmd_keeps _ _ _ _ rfl
  | cdvdtrayrequest request => exact callSCmd_keeps _ _ _ _ rfl
  | cdvdmmode media => exact sbcallCdvdmmode_keeps cfg media

theorem endSCmd_keeps (result : Int → Int) :
    (endSCmd result).Keeps Request.guard {.cdvdMutexS} :=
  fun _ => sbiosUnlock_keeps rfl

theorem iopHeapInitCallback_keeps : iopHeapInitCallback.Keeps Request.guard {.iopHeapMutex} := by
  intro server
  refine .ite ?_ (sbiosUnlock_keeps rfl)
  exact (Prog.keeps_acts _ _ _).mpr (sbiosUnlock_keeps rfl)

theorem Request.callback_keeps {q : Request} {o : Finset Mutex} (h : q.guard = some o) :
    q.callback.Keeps Request.guard o := by
  obtain ⟨client, kind, endfunc⟩ := q
  cases endfunc <;> cases h
  case cdResetCallback => exact rfl
  case cdDiskReadyCallback => exact endSCmd_keeps id
  case cdAlignReadBuffer => exact sbiosUnlock_keeps rfl
  case cdCallback => exact sbiosUnlock_keeps rfl
  case cdGetTocStage2 => exact fun _ => sbiosUnlock_keeps rfl
  case nCmdCallback => exact sbiosUnlock_keeps rfl
  case cdvdreadrtcStage2 => exact endSCmd_keeps id
  case sCmdStage2 => exact endSCmd_keeps id
  case cdvdtrayrequestStage2 => exact endSCmd_keeps _
  case mmodeStage2 => exact sbiosUnlock_keeps rfl
  case iopHeapInitCallback => exact iopHeapInitCallback_keeps
  case iopHeapCallback => exact fun _ => sbiosUnlock_keeps rfl

/-- The calls that are not the initialisation of the CD/DVD driver. -/
def isCommand (_ : Sys Vars Mutex Request Call) : Action Call → Bool
  | .start _ .cdvdinit => false
  | _ => true

/-- In every interleaving of commands and completions a mutex is held while exactly one call has it,
as a running context or as a request on its way, and no free mutex is unlocked. The variables may
have any values at the start, so they may be those after the initialisation. -/
theorem commands_lock_discipline (cfg : Config) {s : Sys Vars Mutex Request Call}
    (hr : (driver cfg).Reaches (fun _ => True) isCommand s) :
    (∀ m, s.locks m ≠ 0 ↔ ∃! o, m ∈ s.owned o) ∧
      (∀ m o o', m ∈ s.owned o → m ∈ s.owned o' → o = o') ∧
      ∀ t c m k, s.contexts t = some c → c.prog = .unlock m k → s.locks m ≠ 0 := by
  have hbody : ∀ s t call, isCommand s (.start t call) →
      ((driver cfg).body call).Keeps Request.guard ∅ := by
    intro s t call hcall
    refine Call.body_keeps cfg ?_
    rintro rfl
    exact Bool.noConfusion hcall
  have h : s.Disciplined Request.guard := hr.disciplined hbody fun q o hq => q.callback_keeps hq
  refine ⟨fun m => (h.locks.taken_iff m).trans ⟨?_, ExistsUnique.exists⟩,
    fun m o o' => h.locks.single o o' m, fun t c m k => h.unlock⟩
  rintro ⟨o, ho⟩
  exact ⟨o, ho, fun o' ho' => h.locks.single o' o m ho' ho⟩

/-- A stop command that has sent its request. -/
theorem commands_lock_discipline_stop :
    ∃ s : Sys Vars Mutex Request Call,
      s.locks .cdvdMutexN = -1 ∧ (s.wire 0).isSome ∧ ∃! o, .cdvdMutexN ∈ s.owned o := by
  let run : List (Action Call) := .start 0 .cdvdstop :: List.replicate 5 (.run 0 ⟨0, some 0⟩)
  let cfg : Config := ⟨true, 0, 0, 0⟩
  let vars : Vars := { Vars.init with bindNCmd := 0 }
  obtain ⟨s, hs, hlock, hwire⟩ : ∃ s, (driver cfg).run isCommand (Sys.idle vars) run = some s ∧
      s.locks .cdvdMutexN = -1 ∧ (s.wire 0).isSome := ⟨_, rfl, rfl, rfl⟩
  have hr : (driver cfg).Reaches (fun _ => True) isCommand s := Driver.reaches_run trivial hs
  refine ⟨s, hlock, hwire, ((commands_lock_discipline cfg hr).1 .cdvdMutexN).mp ?_⟩
  rw [hlock]
  decide

end KernelLoader.Tge
