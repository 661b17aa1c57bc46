import KernelLoader.Tge.Commands
import KernelLoader.Tge.MemoryCard
import KernelLoader.Tge.Pad
import KernelLoader.Tge.Sound
import KernelLoader.Lib.Duty

namespace KernelLoader.Tge
open Lib Lib.Async
set_option autoImplicit true
set_option relaxedAutoImplicit false

theorem sifRpceSendp_neg : -sifRpceSendp < 0 := by decide

section Commands
variable {special : Code → Prop} {a b : Bool}

/-- Every completion of these drivers tells the caller. -/
abbrev Meets (special : Code → Prop) (p : Code) (reply owes : Bool) : Prop :=
  p.Meets special (fun _ => True) reply owes

theorem endCall_meets (result : Int) : Meets special (endCall result) true true := .notify .replied

theorem sbiosTryLock_meets {mutex : Mutex} {k : Int → Code} (hlocked : Meets special (k 0) a b)
    (hbusy : Meets special (k (-2)) a b) : Meets special (sbiosTryLock mutex k) a b :=
  .lock hlocked hbusy

theorem cdvdLock_meets {mutex : Mutex} {k : Int → Code} (hlocked : Meets special (k 0) a b)
    (hfail : Meets special (k 1) a b) : Meets special (cdvdLock mutex k) a b :=
  sbiosTryLock_meets (.input fun _ => .ite (.unlock hfail) hlocked) hfail

theorem eagain_meets : Meets special ncmdEagain false true := by
  refine .input fun x => .failed ?_
  split <;> decide

theorem request_meets (mutex : Mutex) (q : Request) :
    Meets special (Prog.request (fun _ => q) fun ok =>
      if ok then .ret 0 else sbiosUnlock mutex (.ret (-sifRpceSendp))) false true :=
  .request (fun _ => trivial) .done (.unlock (.failed sifRpceSendp_neg))

theorem cdCheckNCmd_meets {cmd : Nat} {k : Int → Code} (hready : Meets special (k 1) a b)
    (hfail : Meets special (k 0) a b) : Meets special (cdCheckNCmd cmd k) a b := by
  unfold cdCheckNCmd cdvdLockN
  exact cdvdLock_meets (.act (.read fun _ => .ite hready (.unlock hfail))) hfail

theorem cdCheckSCmd_meets {cmd : Nat} {k : Int → Code} (hready : Meets special (k 1) a b)
    (hfail : Meets special (k 0) a b) : Meets special (cdCheckSCmd cmd k) a b := by
  unfold cdCheckSCmd cdvdLockS
  exact cdvdLock_meets (.act (.read fun _ => .ite hready (.unlock hfail))) hfail

theorem callNCmd_meets (cmd : Nat) (fill : List (Vars → Vars)) (ssize rsize : Nat)
    (endfunc : EndFunc) : Meets special (callNCmd cmd fill ssize rsize endfunc) false true :=
  cdCheckNCmd_meets (.acts fill (request_meets ..)) eagain_meets

theorem callSCmd_meets (cmd : Nat) (fill : List (Vars → Vars)) (ssize rsize : Nat)
    (endfunc : EndFunc) : Meets special (callSCmd cmd fill ssize rsize endfunc) false true :=
  cdCheckSCmd_meets (.acts fill (request_meets ..)) eagain_meets

theorem sbcallCdvdmmode_meets (cfg : Config) (media : Nat) :
    Meets special (sbcallCdvdmmode cfg media) false true := by
  unfold sbcallCdvdmmode
  split_ifs with hnew
  · exact callSCmd_meets ..
  · exact .input fun _ => .ite (callSCmd_meets ..) (.notify .done)

theorem bind_meets (mutex : Mutex) (prepare : List (Vars → Vars)) (q : Request) :
    Meets special (initStage mutex prepare fun k => .request (fun _ => q) k) false true :=
  cdvdLock_meets (.acts prepare (request_meets ..)) (.failed sifRpceSendp_neg)

theorem sbcallCdvdinit_meets : Meets special sbcallCdvdinit false true := by
  refine .read fun counter => ?_
  refine .ite (bind_meets ..) (.ite (bind_meets ..) (.ite (bind_meets ..) ?_))
  exact .ite (bind_meets ..) (.ite (bind_meets ..) (.ite (bind_meets ..) (.notify .done)))

theorem sbcallIopheapinit_meets : Meets special sbcallIopheapinit false true := by
  refine .read fun caps => .ite (.notify .done) ?_
  exact sbiosTryLock_meets (request_meets ..) (.failed (by decide))

theorem callIopHeap_meets (rpcNumber arg : Nat) :
    Meets special (callIopHeap rpcNumber arg) false true := by
  refine .read fun bound => .ite (.failed (by decide)) ?_
  exact sbiosTryLock_meets (.act (request_meets ..)) (.failed (by decide))

/-- What `sbcall_cdvdready` does once it has the mutex and the client is idle. -/
def readyRequest (mode : Nat) : Code :=
  .act (fun s => { s with diskReadyMode := mode }) <|
    .read (·.bindDiskReady) fun b =>
      if b < 0 then cdvdUnlockS (.ret (-1))
      else
        sifCallRpc .clientDiskReady 0 4 4 .cdDiskReadyCallback fun ok =>
          if ok then .ret 0 else cdvdUnlockS (.ret (-sifRpceSendp))

/-- What it does once it has the mutex. -/
def readyCheck (mode : Nat) : Code :=
  sifCheckStatRpc fun busy =>
    if busy ≠ 0 then cdvdUnlockS (.ret cdvdReadyNotready) else readyRequest mode

/-- The two statements of `sbcall_cdvdready` that can end in a positive value. -/
def ReadyPoint (call : Call) (p : Code) : Prop :=
  ∃ mode, call = .cdvdready mode ∧ (p = sbcallCdvdready mode ∨ p = readyCheck mode)

/-- A step of `sbcall_cdvdready` finds the mutex free and the client idle. -/
def readyFree (s : Sys Vars Mutex Request Call) : Action Call → Bool
  | .run t ch =>
    match s.contexts t with
    | some ⟨.lock mutex _ _, .cdvdready _, _, false, _, _⟩ => s.locks mutex == 0
    | some ⟨.input _, .cdvdready _, _, false, _, _⟩ => ch.input == 0
    | _ => true
  | _ => true

theorem readyRequest_meets (mode : Nat) : Meets special (readyRequest mode) false true := by
  refine .act (.read fun bound => .ite (.unlock (.failed (by decide))) ?_)
  exact request_meets ..

theorem Call.body_meets (cfg : Config) (call : Call) :
    Meets (ReadyPoint call) (call.body cfg) false true := by
  cases call with
  | iopheapinit => exact sbcallIopheapinit_meets
  | iopaheapalloc size => exact callIopHeap_meets 1 size
  | iopheapfree iopaddr => exact callIopHeap_meets 2 iopaddr
  | cdvdinit => exact sbcallCdvdinit_meets
  | cdvdreset => exact .act (.request (fun _ => trivial) .done (.failed sifRpceSendp_neg))
  | cdvdready mode => exact .special ⟨mode, rfl, .inl rfl⟩
  | cdvdread arg => exact callNCmd_meets ..
  | cdvdreadVideo arg => exact callNCmd_meets ..
  | cdvdgettoc => exact callNCmd_meets ..
  | cdvdstop => exact callNCmd_meets ..
  | cdvdreadrtc => exact callSCmd_meets ..
  | cdvdwritertc rtc => exact callSCmd_meets ..
  | cdvdgettype => exact callSCmd_meets ..
  | cdvdgeterror => exact callSCmd_meets ..
  | cdvdtrayrequest request => exact callSCmd_meets ..
  | cdvdmmode media => exact sbcallCdvdmmode_meets cfg media

theorem endSCmd_meets (result : Int → Int) : Meets special (endSCmd result) true true :=
  .input fun _ => .unlock (endCall_meets _)

theorem whenBound_meets (cd : Client) (note : Vars → Vars) (stage : Nat) {ok failed : Code}
    (hok : Meets special ok true true) (hfailed : Meets special failed true true) :
    Meets special (whenBound cd note stage ok failed) true true :=
  .read fun _ => .ite (.acts _ hok) hfailed

theorem cdvdInitCallback_meets (stage : Nat) :
    Meets special (cdvdInitCallback stage) true true := by
  have hend : ∀ mutex r, Meets special (sbiosUnlock mutex (endCall r)) true true :=
    fun mutex r => .unlock (endCall_meets r)
  refine .read fun counter => .act ?_
  refine .ite (whenBound_meets _ _ _ (hend _ _) (hend _ _)) (.ite ?_ (.ite ?_ (.ite ?_ ?_)))
  · exact whenBound_meets _ _ _ (hend _ _) (hend _ _)
  · exact whenBound_meets _ _ _ (hend _ _) (hend _ _)
  · exact .act (hend _ _)
  refine .ite (whenBound_meets _ _ _ (hend _ _) (hend _ _)) (.ite ?_ ?_)
  · exact whenBound_meets _ _ _ (hend _ _) (hend _ _)
  · exact .input endCall_meets

theorem Request.callback_meets (q : Request) : Meets special q.callback true true := by
  obtain ⟨client, kind, endfunc⟩ := q
  cases endfunc with
  | cdvdInitCallback => exact cdvdInitCallback_meets _
  | cdResetCallback => exact endCall_meets 0
  | cdDiskReadyCallback => exact endSCmd_meets id
  | cdAlignReadBuffer => exact .unlock (endCall_meets 0)
  | cdCallback => exact .unlock (endCall_meets 0)
  | cdGetTocStage2 => exact .input fun _ => .unlock (endCall_meets _)
  | nCmdCallback => exact .unlock (endCall_meets 0)
  | cdvdreadrtcStage2 => exact endSCmd_meets id
  | sCmdStage2 => exact endSCmd_meets id
  | cdvdtrayrequestStage2 => exact endSCmd_meets _
  | mmodeStage2 => exact .unlock (endCall_meets 1)
  | iopHeapInitCallback =>
    exact .read fun _ => .ite (.acts _ (.unlock (endCall_meets 0))) (.unlock (endCall_meets (-1)))
  | iopHeapCallback => exact .input fun _ => .unlock (endCall_meets _)

/-- With the mutex free and the client idle `sbcall_cdvdready` keeps the contract, too. -/
theorem readyPoint_ready {s : Sys Vars Mutex Request Call} {ch : Choice}
    {c : Context Vars Mutex Request Call} (hok : readyFree s (.run t ch))
    (hc : s.contexts t = some c) (hcall : c.reply = false) (hp : ReadyPoint c.call c.prog) :
    c.prog.Ready (ReadyPoint c.call) (fun _ => True) s ch false true := by
  obtain ⟨prog, call, id, reply, owned, owes⟩ := c
  obtain ⟨mode, rfl, rfl | rfl⟩ := hp
  · cases hcall
    rw [readyFree, hc] at hok
    have hfree : s.locks .cdvdMutexS = 0 := beq_iff_eq.mp hok
    exact .lock (fun _ => .special ⟨mode, rfl, .inr rfl⟩) fun hlocked => absurd hfree hlocked
  · cases hcall
    rw [readyFree, hc] at hok
    have hidle : ch.input = 0 := beq_iff_eq.mp hok
    refine .input ?_
    rw [if_neg (not_not.mpr hidle)]
    exact readyRequest_meets mode

end Commands

namespace Mc
variable {special : Code → Prop}

/-- Every completion tells the caller. -/
abbrev Meets (special : Code → Prop) (p : Code) (reply owes : Bool) : Prop :=
  p.Meets special (fun _ => True) reply owes

theorem transaction_meets {func : Nat} {fill : Code → Code} {column : Nat}
    {packet : Vars → Packet} {ssize : Nat} {endfunc : EndFunc}
    (hfill : ∀ k, Meets special k false true → Meets special (fill k) false true) :
    Meets special (transaction func fill column packet ssize endfunc) false true := by
  refine .read fun counter => .ite (.failed (by decide)) ?_
  refine .lock (hfill _ ?_) (.failed sifRpceSendp_neg)
  exact .request (fun _ => trivial) .done (.unlock (.failed sifRpceSendp_neg))

/-- The statement of `mcInit` that looks at `mcType` after the first stage. -/
def InitPoint (call : Call) (p : Code) : Prop := call = .mcinit ∧ p = mcInitStage 1

/-- Is this that statement? If `mcType` is not `MC_TYPE_XMC` it leads to the end of the call. -/
def atSecondStage : Code → Bool
  | .read _ k =>
    match k mcTypeMc with
    | .ret _ => true
    | _ => false
  | _ => false

/-- `mcInit` finds `MC_TYPE_XMC` after the first stage. -/
def secondStageXmc (s : Sys Vars Lock Request Call) : Action Call → Bool
  | .run t _ =>
    match s.contexts t with
    | some ⟨prog, .mcinit, _, false, _, _⟩ => !atSecondStage prog || s.vars.mcType == mcTypeXmc
    | _ => true
  | _ => true

theorem mcInit_meets : Meets (InitPoint .mcinit) mcInit false true := by
  refine .read fun counter => ?_
  unfold mcInitStage
  split_ifs with h0 h1
  · exact .request (fun _ => trivial) .done (.failed sifRpceSendp_neg)
  · exact .special ⟨rfl, rfl⟩
  · exact .notify .done

theorem Call.body_meets (cfg : Config) (call : Call) :
    Meets (InitPoint call) (call.body cfg) false true := by
  cases call with
  | mcinit =>
    refine .read fun mcType => .ite (.input fun found => .ite ?_ (.failed (by decide))) mcInit_meets
    exact .input fun version => .act mcInit_meets
  | mcgetinfo port slot type free format =>
    rw [Call.body, sbcallMcgetinfo]
    exact transaction_meets fun k hk => .read fun _ => .acts _ (.acts _ hk)
  | _ => exact transaction_meets fun k hk => .acts _ hk

theorem mcInitFinish_meets : Meets special mcInitFinish true true := by
  have hdone : ∀ r, Meets special (mcInitDone r) true true :=
    fun r => .unlock (.act (.notify .replied))
  refine .read fun mcType => .ite (.input fun mcserv => .ite (.notify .replied) ?_) (hdone 1)
  exact .input fun mcman => .ite (.notify .replied) (.input hdone)

theorem mcInitCallback_meets : Meets special mcInitCallback true true := by
  refine .read fun counter => .ite (.read fun server => .ite (.notify .replied) (.act ?_)) ?_
  · exact .read fun mcType => .ite mcInitFinish_meets (.notify .replied)
  · exact .ite mcInitFinish_meets (.input fun _ => .notify .replied)

theorem Request.callback_meets (q : Request) : Meets special q.callback true true := by
  cases q with
  | bind sid => exact mcInitCallback_meets
  | call rpcNumber packet ssize rsize endfunc =>
    cases endfunc with
    | mcInitCallback => exact mcInitCallback_meets
    | mcCallback => exact .unlock (.input fun _ => .notify .replied)
    | mcGetInfoApdx => exact .unlock (.input fun _ => .notify .replied)
    | mcReadFixAlign => exact .unlock (.input fun _ => .notify .replied)

theorem initPoint_ready {s : Sys Vars Lock Request Call} {ch : Choice}
    {c : Context Vars Lock Request Call} (hok : secondStageXmc s (.run t ch))
    (hc : s.contexts t = some c) (hcall : c.reply = false) (hp : InitPoint c.call c.prog) :
    c.prog.Ready (InitPoint c.call) (fun _ => True) s ch false true := by
  obtain ⟨prog, call, id, reply, owned, owes⟩ := c
  obtain ⟨rfl, rfl⟩ := hp
  cases hcall
  rw [secondStageXmc, hc] at hok
  have hxmc : s.vars.mcType = mcTypeXmc := beq_iff_eq.mp hok
  refine .read ?_
  rw [if_pos hxmc]
  exact .request (fun _ => trivial) .done (.failed sifRpceSendp_neg)

end Mc

namespace Pad
variable {special : Code → Prop}

/-- The requests that have a function for their completion. -/
def Request.tells : Request → Prop
  | .call _ .none => False
  | _ => True

abbrev Meets (special : Code → Prop) (p : Code) (reply owes : Bool) : Prop :=
  p.Meets special Request.tells reply owes

/-- The calls with an argument block. -/
def hasBlock (_ : Sys Vars Empty Request Call) : Action Call → Bool
  | .start _ (.padinfomode ..) | .start _ (.padinfoact ..) => false
  | _ => true

theorem command_meets {stores : List (List (Nat × UInt8))} {endfunc : EndFunc} {accepted : Code}
    (hend : ∀ packet, Request.tells (.call packet endfunc))
    (haccepted : Meets special accepted false false) :
    Meets special (command stores endfunc accepted (-sifRpceSendp)) false true :=
  .acts _ (.request (fun _ => hend _) haccepted (.failed sifRpceSendp_neg))

theorem bind_meets (client sid : Nat) : Meets special (bind client sid) false true :=
  .request (fun _ => trivial) .done (.failed sifRpceSendp_neg)

theorem Call.body_meets (cfg : Config) {call : Call} (h : hasBlock s (.start t call)) :
    Meets special (call.body cfg) false true := by
  have hcommand : ∀ stores endfunc, (∀ packet, Request.tells (.call packet endfunc)) →
      Meets special (command stores endfunc (.ret 0) (-sifRpceSendp)) false true :=
    fun stores endfunc hend => command_meets hend .done
  cases call with
  | padinit =>
    refine .read fun counter => .ite (.acts _ (bind_meets ..)) (.ite (bind_meets ..) ?_)
    refine .ite (hcommand _ _ fun _ => trivial) (.ite (hcommand _ _ fun _ => trivial) ?_)
    exact .notify .done
  | padportopen port slot addr =>
    exact .ite (.failed (by decide)) (command_meets (fun _ => trivial) (.acts _ .done))
  | padportclose port slot => exact command_meets (fun _ => trivial) (.act .done)
  | padinfomode port slot term offset => exact Bool.noConfusion h
  | padinfoact port slot actno term => exact Bool.noConfusion h
  | _ => exact hcommand _ _ fun _ => trivial

theorem endCall_meets (result : Int) : Meets special (endCall result) true true := .notify .replied

theorem padInitCallback_meets (cfg : Config) : Meets special (padInitCallback cfg) true true := by
  refine .read fun counter => .ite (.read fun server => ?_) (.ite (.read fun server => ?_) ?_)
  · exact .ite (endCall_meets _) (.act (endCall_meets _))
  · exact .ite (endCall_meets _) (.act (endCall_meets _))
  refine .ite (.read fun version => ?_) (.ite (.act (endCall_meets _)) (endCall_meets _))
  exact .ite (.act (endCall_meets _)) (endCall_meets _)

theorem Request.callback_meets (cfg : Config) {q : Request} (h : q.tells) :
    Meets special (q.callback cfg) true true := by
  cases q with
  | bind client sid => exact padInitCallback_meets cfg
  | call packet endfunc =>
    cases endfunc with
    | none => exact h.elim
    | padInitCallback => exact padInitCallback_meets cfg
    | padEndCallback =>
      exact .read fun ret => .ite (.acts _ (endCall_meets _)) (endCall_meets _)
    | padPortOpenCallback port slot => exact .read fun result => .act (endCall_meets _)
    | _ => exact .read fun x => endCall_meets _

end Pad

namespace Sound
variable {special : Code → Prop}

/-- Every completion tells the caller. -/
abbrev Meets (special : Code → Prop) (p : Code) (reply owes : Bool) : Prop :=
  p.Meets special (fun _ => True) reply owes

theorem command_meets {rpcNumber : Nat} {stores : List (Nat × Nat)} {endfunc : EndFunc} :
    Meets special (command rpcNumber stores endfunc) false true :=
  .acts _ (.request (fun _ => trivial) .done (.failed sifRpceSendp_neg))

theorem whenInitialized_meets {k : Code} (h : Meets special k false true) :
    Meets special (whenInitialized k) false true :=
  .read fun _ => .ite (.failed (by decide)) h

/-- It is used for the completion, and it is called when everything is initialised. -/
theorem soundInitCallback_meets (h : Meets special (.ret 0) a false) :
    Meets special soundInitCallback a true := by
  have hend : ∀ r, Meets special (endCall r) a true := fun _ => .notify h
  refine .read fun counter => .ite (.read fun server => .ite (.acts _ (hend _)) (hend _)) ?_
  refine .ite (.read fun r => .ite (hend _) (.act (hend _))) ?_
  exact .ite (.read fun r => .ite (hend _) (.acts _ (hend _))) (hend _)

theorem Call.body_meets (cfg : Config) (call : Call) :
    Meets special (call.body cfg) false true := by
  cases call with
  | soundinit mode =>
    refine .read fun counter => .ite ?_ (.ite command_meets (.ite command_meets ?_))
    · exact .request (fun _ => trivial) .done (.failed sifRpceSendp_neg)
    · exact soundInitCallback_meets .done
  | soundend =>
    exact .read fun counter => .ite (.failed (by decide)) (.ite command_meets command_meets)
  | soundtranscallback channel transferCb tcbarg =>
    refine whenInitialized_meets (.ite (.acts _ command_meets) ?_)
    exact .ite (.acts _ command_meets) (.failed (by decide))
  | soundremote => exact whenInitialized_meets (.failed (by decide))
  | _ => exact whenInitialized_meets command_meets

theorem Request.callback_meets (q : Request) : Meets special q.callback true true := by
  have hend : ∀ r, Meets special (endCall r) true true := fun _ => .notify .replied
  cases q with
  | bind sid => exact soundInitCallback_meets .replied
  | call rpcNumber packet endfunc =>
    cases endfunc with
    | soundInitCallback => exact soundInitCallback_meets .replied
    | soundEndCallback =>
      refine .read fun counter => .ite (hend _) (.ite (.read fun result => .read fun r => ?_) ?_)
      · exact .ite (.act (hend _)) (hend _)
      · exact .acts _ (hend _)
    | soundCallback => exact .read fun r => hend _
    | soundCallbackOk => exact hend 0

end Sound

/-- In all states of all runs of the four drivers, from any values of their variables: if a call
returned zero, its caller is told exactly once, now or at the completion that is pending; if it
returned something else, that is negative and the caller is never told. For the CD/DVD driver every
`sbcall_cdvdready` must find its mutex free and the client idle; for the memory card library
`mcInit` must not find `MC_TYPE_MC` after its first stage. -/
theorem completion_contract (cfg : Config) (mc : Mc.Config) (pad : Pad.Config)
    (sound : Sound.Config) :
    (∀ s : Sys Vars Mutex Request Call,
      (driver cfg).Reaches (fun _ => True) readyFree s → s.Fulfilled) ∧
    (∀ s : Sys Mc.Vars Mc.Lock Mc.Request Mc.Call,
      (Mc.driver mc).Reaches (fun _ => True) Mc.secondStageXmc s → s.Fulfilled) ∧
    (∀ s : Sys Pad.Vars Empty Pad.Request Pad.Call,
      (Pad.driver pad).Reaches (fun _ => True) Pad.hasBlock s → s.Fulfilled) ∧
    ∀ s : Sys Sound.Vars Empty Sound.Request Sound.Call,
      (Sound.driver sound).Reaches (fun _ => True) (fun _ _ => true) s → s.Fulfilled := by
  refine ⟨fun s hr => ?_, fun s hr => ?_, fun s hr => ?_, fun s hr => ?_⟩
  · exact hr.fulfilled (fun _ _ call _ => call.body_meets cfg) (fun _ q _ => q.callback_meets)
      fun _ _ _ _ => readyPoint_ready
  · exact hr.fulfilled (fun _ _ call _ => call.body_meets mc) (fun _ q _ => q.callback_meets)
      fun _ _ _ _ => Mc.initPoint_ready
  · have hbody : ∀ s t call, Pad.hasBlock s (.start t call) →
        Pad.Meets (fun _ => False) (call.body pad) false true :=
      fun _ _ _ hok => Pad.Call.body_meets pad hok
    exact hr.fulfilled hbody (fun _ _ hq => Pad.Request.callback_meets pad hq)
      fun _ _ _ _ _ _ _ hp => hp.elim
  · have hbody : ∀ call : Sound.Call, Sound.Meets (fun _ => False) (call.body sound) false true :=
      Sound.Call.body_meets sound
    exact hr.fulfilled (fun _ _ call _ => hbody call) (fun _ q _ => q.callback_meets)
      fun _ _ _ _ _ _ _ hp => hp.elim

/-- A disk type is asked for and the answer comes. -/
theorem completion_contract_gettype :
    ∃ s : Sys Vars Mutex Request Call,
      s.outcomes 0 = ⟨some 0, 1⟩ ∧ s.Fulfilled := by
  let cfg : Config := ⟨true, 0, 0, 0⟩
  let run : List (Action Call) :=
    .start 0 .cdvdgettype :: List.replicate 6 (.run 0 ⟨0, some 0⟩) ++
      .complete 1 0 0 :: List.replicate 3 (.run 1 ⟨0, none⟩)
  obtain ⟨s, hs, hout⟩ : ∃ s,
      (driver cfg).run readyFree (Sys.idle { Vars.init with bindSCmd := 0 }) run = some s ∧
        s.outcomes 0 = ⟨some 0, 1⟩ := ⟨_, rfl, rfl⟩
  exact ⟨s, hout,
    (completion_contract cfg ⟨0, 0⟩ ⟨false, 0⟩ ⟨0⟩).1 s (Driver.reaches_run trivial hs)⟩

/-- The state of the disk is asked for while the request for its type is on its way: the call
returns a positive value. -/
theorem cdvdready_positive :
    ∃ (cfg : Config) (s : Sys Vars Mutex Request Call),
      (driver cfg).Reaches (fun _ => True) (fun _ _ => true) s ∧
        (∃ e, s.wire 0 = some e ∧ e.call = .cdvdgettype) ∧ s.outcomes 1 = ⟨some 6, 0⟩ := by
  let cfg : Config := ⟨true, 0, 0, 0⟩
  let run : List (Action Call) :=
    .start 0 .cdvdgettype :: List.replicate 6 (.run 0 ⟨0, some 0⟩) ++
      .start 1 (.cdvdready 0) :: List.replicate 2 (.run 1 ⟨0, none⟩)
  obtain ⟨s, hs, hwire, hout⟩ : ∃ s,
      (driver cfg).run (fun _ _ => true) (Sys.idle { Vars.init with bindSCmd := 0 }) run = some s ∧
        (∃ e, s.wire 0 = some e ∧ e.call = .cdvdgettype) ∧ s.outcomes 1 = ⟨some 6, 0⟩ :=
    ⟨_, rfl, ⟨_, rfl, rfl⟩, rfl⟩
  exact ⟨cfg, s, Driver.reaches_run trivial hs, hwire, hout⟩

end KernelLoader.Tge
