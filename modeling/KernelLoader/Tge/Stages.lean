import KernelLoader.Tge.Commands
import KernelLoader.Lib.Locks

namespace KernelLoader.Tge
open Lib Lib.Async
set_option autoImplicit true
set_option relaxedAutoImplicit false

/-- The mutex a stage of the initialisation takes. -/
def stageMutex (n : Nat) : Mutex := if n = 4 then .cdvdMutexN else .cdvdMutexS

/-- The request that code is going to send if nothing fails on the way. -/
def nextRequest : Code → Option Request
  | .ret _ => none
  | .act _ k => nextRequest k
  | .read _ _ => none
  | .input k => nextRequest (k 0)
  | .lock _ _ k => nextRequest (k true)
  | .unlock _ k => nextRequest k
  | .request q _ => some (q .init)
  | .notify _ k => nextRequest k

/-- What a context has to do with the stages: it holds the mutex of a stage that is not finished, or
of one it has made the counter go past. -/
inductive Phase
  | free
  | holds (n : Nat)
  | passed (n : Nat)

def Phase.owned : Phase → Finset Mutex
  | .free => ∅
  | .holds n => {stageMutex n}
  | .passed n => {stageMutex n}

/-- The statement does not concern the stages. -/
def Harmless (f : Vars → Vars) : Prop :=
  ∀ s, (f s).cdvdInitCounter = s.cdvdInitCounter ∧ (f s).advanced = s.advanced ∧
    (f s).handled = s.handled

/-- Code that, in the given phase, does nothing for another stage. -/
inductive Follows : Phase → Code → Prop
  | ret : Follows .free (.ret r)
  | act : Harmless f → Follows φ k → Follows φ (.act f k)
  | handle : Follows (.holds n) k → Follows (.holds n) (.act (handle n n) k)
  | advance : Follows (.passed n) k → Follows (.holds n) (.act (advance n) k)
  | read : (∀ x, Follows φ (k x)) → Follows φ (.read v k)
  | switch : Follows (.holds n) (k n) → Follows (.holds n) (.read (·.cdvdInitCounter) k)
  | input : (∀ x, Follows φ (k x)) → Follows φ (.input k)
  | lock : nextRequest (.lock (stageMutex q.stage) v k) = some q → q.stage ≤ 5 → v ≠ 0 →
      Follows (.holds q.stage) (k true) → Follows .free (k false) →
      Follows .free (.lock (stageMutex q.stage) v k)
  | unlock : φ.owned = {m} → Follows .free k → Follows φ (.unlock m k)
  | request : (∀ s, (q s).endfunc = .cdvdInitCallback ∧ (q s).stage = n) →
      Follows .free (k true) → Follows (.holds n) (k false) → Follows (.holds n) (.request q k)
  | notify : Follows φ k → Follows φ (.notify r k)

theorem Follows.acts {φ : Phase} {k : Code} {fs : List (Vars → Vars)} (h : ∀ f ∈ fs, Harmless f)
    (hk : Follows φ k) : Follows φ (.acts fs k) := by
  induction fs with
  | nil => exact hk
  | cons f fs ih =>
    exact .act (h f List.mem_cons_self) (ih fun g hg => h g (List.mem_cons_of_mem f hg))

theorem Follows.ite {φ : Phase} {b : Prop} [Decidable b] {p p' : Code} (h : Follows φ p)
    (h' : Follows φ p') : Follows φ (if b then p else p') := by
  split
  · exact h
  · exact h'

section Bodies

theorem initStage_follows {prepare : List (Vars → Vars)} {q : Request}
    (hprepare : ∀ f ∈ prepare, Harmless f) (hend : q.endfunc = .cdvdInitCallback)
    (hlast : q.stage ≤ 5)
    (hnext : nextRequest (initStage (stageMutex q.stage) prepare (.request fun _ => q)) = some q) :
    Follows .free (initStage (stageMutex q.stage) prepare (.request fun _ => q)) := by
  have hsend : Follows (.holds q.stage) (.acts prepare <| .request (fun _ => q) fun ok =>
      if ok then .ret 0 else sbiosUnlock (stageMutex q.stage) (.ret (-sifRpceSendp))) := by
    refine .acts hprepare (.request (fun _ => ⟨hend, rfl⟩) ?_ ?_)
    · exact .ret
    · exact .unlock rfl .ret
  refine .lock hnext hlast (by decide) ?_ .ret
  exact .input fun busy => .ite (.unlock rfl .ret) hsend

theorem cdvdinitStage_follows (counter : Int) : Follows .free (cdvdinitStage counter) := by
  unfold cdvdinitStage
  refine .ite ?_ (.ite ?_ (.ite ?_ (.ite ?_ (.ite ?_ (.ite ?_ (.notify .ret))))))
  · refine initStage_follows (q := ⟨.clientInit, .bind cdServerInit, .cdvdInitCallback⟩) ?_ rfl
      (by decide) rfl
    simp only [List.forall_mem_cons, List.not_mem_nil, false_implies, implies_true, and_true]
    exact ⟨fun _ => ⟨rfl, rfl, rfl⟩, fun _ => ⟨rfl, rfl, rfl⟩, fun _ => ⟨rfl, rfl, rfl⟩,
      fun _ => ⟨rfl, rfl, rfl⟩, fun _ => ⟨rfl, rfl, rfl⟩⟩
  · exact initStage_follows (q := ⟨.clientSearchFile, .bind _, _⟩) (fun _ hf => (nomatch hf)) rfl
      (by decide) rfl
  · exact initStage_follows (q := ⟨.clientDiskReady, .bind _, _⟩) (fun _ hf => (nomatch hf)) rfl
      (by decide) rfl
  · refine initStage_follows (q := ⟨.clientInit, .call 0 4 0, _⟩) ?_ rfl (by decide) rfl
    simp only [List.forall_mem_singleton]
    exact fun _ => ⟨rfl, rfl, rfl⟩
  · exact initStage_follows (q := ⟨.clientNCmd, .bind _, _⟩) (fun _ hf => (nomatch hf)) rfl
      (by decide) rfl
  · exact initStage_follows (q := ⟨.clientSCmd, .bind _, _⟩) (fun _ hf => (nomatch hf)) rfl
      (by decide) rfl

theorem sbcallCdvdinit_follows : Follows .free sbcallCdvdinit := .read cdvdinitStage_follows

theorem endStage_follows {φ : Phase} {mutex : Mutex} (h : φ.owned = {mutex}) (result : Int) :
    Follows φ (sbiosUnlock mutex (endCall result)) :=
  .unlock h (.notify .ret)

theorem whenBound_follows {cd : Client} {note : Vars → Vars} {n : Nat} {ok failed : Code}
    (hnote : Harmless note) (hok : Follows (.passed n) ok) (hfailed : Follows (.holds n) failed) :
    Follows (.holds n) (whenBound cd note n ok failed) :=
  .read fun _ => .ite (.act hnote (.advance hok)) hfailed

theorem cdvdInitCase_follows (hn : n ≤ 5) : Follows (.holds n) (cdvdInitCase n n) := by
  match n, hn with
  | 0, _ =>
    exact whenBound_follows (fun _ => ⟨rfl, rfl, rfl⟩) (endStage_follows rfl _)
      (endStage_follows rfl _)
  | 1, _ =>
    exact whenBound_follows (fun _ => ⟨rfl, rfl, rfl⟩) (endStage_follows rfl _)
      (endStage_follows rfl _)
  | 2, _ =>
    exact whenBound_follows (fun _ => ⟨rfl, rfl, rfl⟩) (endStage_follows rfl _)
      (endStage_follows rfl _)
  | 3, _ => exact .advance (endStage_follows rfl _)
  | 4, _ =>
    exact whenBound_follows (fun _ => ⟨rfl, rfl, rfl⟩) (endStage_follows rfl _)
      (endStage_follows rfl _)
  | 5, _ =>
    exact whenBound_follows (fun _ => ⟨rfl, rfl, rfl⟩) (endStage_follows rfl _)
      (endStage_follows rfl _)

theorem cdvdInitCallback_follows (hn : n ≤ 5) : Follows (.holds n) (cdvdInitCallback n) :=
  .switch (.handle (cdvdInitCase_follows hn))

end Bodies

theorem Follows.permitted {c : Context Vars Mutex Request Call} (h : Follows φ c.prog)
    (ho : c.owned = φ.owned) : c.Permitted := by
  unfold Context.Permitted
  cases hp : c.prog with
  | ret r =>
    rw [hp] at h
    cases h
    exact ho
  | lock m v k =>
    rw [hp] at h
    cases h
    assumption
  | unlock m k =>
    rw [hp] at h
    cases h with
    | unlock hm _ =>
      rw [ho, hm]
      exact Finset.mem_singleton_self m
  | act f k => trivial
  | read v k => trivial
  | input k => trivial
  | request q k => trivial
  | notify r k => trivial

/-- What a statement does to the phase and to the variables of the stages. -/
inductive Moved (s : Vars) : Phase → Phase → Vars → Prop
  | stay {s' : Vars} : s'.cdvdInitCounter = s.cdvdInitCounter → s'.advanced = s.advanced →
      s'.handled = s.handled → Moved s φ φ s'
  | handled : Moved s (.holds n) (.holds n) (handle n n s)
  | advanced : Moved s (.holds n) (.passed n) (advance n s)

theorem Follows.quiet {s : Sys Vars Mutex Request Call} {ch : Choice} {φ : Phase} {p p' : Code}
    {vars : Vars}
    (h : Follows φ p) (hq : Quiet s ch p p' vars)
    (hn : ∀ n, φ = .holds n → s.vars.cdvdInitCounter = n) :
    ∃ φ', Follows φ' p' ∧ Moved s.vars φ φ' vars := by
  cases hq with
  | act =>
    cases h with
    | act hf hk => exact ⟨φ, hk, .stay (hf _).1 (hf _).2.1 (hf _).2.2⟩
    | handle hk => exact ⟨_, hk, .handled⟩
    | advance hk => exact ⟨_, hk, .advanced⟩
  | read =>
    cases h with
    | read hk => exact ⟨φ, hk _, .stay rfl rfl rfl⟩
    | @switch n _ hk =>
      refine ⟨.holds n, ?_, .stay rfl rfl rfl⟩
      simp only [hn n rfl]
      exact hk
  | input =>
    cases h with
    | input hk => exact ⟨φ, hk _, .stay rfl rfl rfl⟩
  | busy _ =>
    cases h with
    | lock _ _ _ _ hk => exact ⟨_, hk, .stay rfl rfl rfl⟩
  | refused =>
    cases h with
    | request _ _ hk => exact ⟨_, hk, .stay rfl rfl rfl⟩

/-- Where a context can be while the initialisation is at stage `i`. -/
def Placed (i : Nat) (c : Context Vars Mutex Request Call) : Prop :=
  ∃ φ, Follows φ c.prog ∧ c.owned = φ.owned ∧ ∀ n, φ = .holds n → n = i ∧ n ≤ 5

/-- A request of the initialisation belongs to the stage it is at. -/
def OfStage (i : Nat) (e : Message Mutex Request Call) : Prop :=
  e.request.endfunc = .cdvdInitCallback ∧ e.request.stage = i ∧ i ≤ 5 ∧ e.owned = {stageMutex i}

/-- The initialisation is at stage `i`. -/
structure Staged (i : Nat) (s : Sys Vars Mutex Request Call) : Prop where
  locks : s.LocksOwned
  code : s.All (Placed i) (OfStage i)
  counter : s.vars.cdvdInitCounter = i
  last : i ≤ 6
  advanced : s.vars.advanced = List.range i
  handled : ∀ p ∈ s.vars.handled, (p.1 : Int) = p.2

/-- Calls of `sbcall_cdvdinit` and completions. -/
def initCalls (_ : Sys Vars Mutex Request Call) : Action Call → Bool
  | .start _ .cdvdinit => true
  | .start .. => false
  | _ => true

/-- When a call takes its mutex, the counter still is the stage of the request it is going to
send. -/
def stageKept (s : Sys Vars Mutex Request Call) (a : Action Call) : Bool :=
  initCalls s a &&
    match a with
    | .run t _ =>
      match (s.contexts t).map Context.prog with
      | some (.lock m v k) =>
        s.locks m ≠ 0 ||
          (nextRequest (.lock m v k)).all fun q => s.vars.cdvdInitCounter == q.stage
      | _ => true
    | _ => true

section Steps
variable {cfg : Config} {s s' : Sys Vars Mutex Request Call} {i : Nat} {ch : Choice}

theorem Request.setServer_harmless (q : Request) (server : Int) :
    Harmless (q.setServer server) := by
  intro s
  unfold Request.setServer
  cases q.kind <;> exact ⟨rfl, rfl, rfl⟩

theorem Staged.keep (h : Staged i s) (hl : s'.LocksOwned) (hcode : s'.All (Placed i) (OfStage i))
    (hcounter : s'.vars.cdvdInitCounter = s.vars.cdvdInitCounter)
    (hadvanced : s'.vars.advanced = s.vars.advanced) (hhandled : s'.vars.handled = s.vars.handled) :
    Staged i s' where
  locks := hl
  code := hcode
  counter := hcounter.trans h.counter
  last := h.last
  advanced := hadvanced.trans h.advanced
  handled := hhandled ▸ h.handled

/-- Only one context or request can be about the stage, as they need its mutex. -/
theorem Staged.others (h : Staged i s) (hc : s.contexts t = some c)
    (ho : c.owned = {stageMutex i}) :
    (∀ u c', u ≠ t → s.contexts u = some c' → ∀ j, Placed j c') ∧ ∀ w, s.wire w = none := by
  have hmine : stageMutex i ∈ s.owned (.context t) := by
    rw [Sys.owned_context hc, ho]
    exact Finset.mem_singleton_self _
  refine ⟨fun u c' hu hc' j => ?_, fun w => ?_⟩
  · obtain ⟨φ, hph, hown, hn⟩ := h.code.running u c' hc'
    refine ⟨φ, hph, hown, fun n hphn => ?_⟩
    have hni : n = i := (hn n hphn).1
    have htheirs : stageMutex i ∈ s.owned (.context u) := by
      rw [Sys.owned_context hc', hown, hphn, hni]
      exact Finset.mem_singleton_self _
    exact absurd (Owner.context.inj (h.locks.single _ _ _ htheirs hmine)) hu
  · cases hw : s.wire w with
    | none => rfl
    | some e =>
      obtain ⟨_, _, _, hown⟩ := h.code.waiting w e hw
      have htheirs : stageMutex i ∈ s.owned (.message w) := by
        rw [Sys.owned_message hw, hown]
        exact Finset.mem_singleton_self _
      exact Owner.noConfusion (h.locks.single _ _ _ htheirs hmine)

theorem Staged.quiet (h : Staged i s) (hc : s.contexts t = some c) {vars : Vars}
    (hq : Quiet s ch c.prog p vars)
    (hl : ({ s with vars := vars }.setContext t (some { c with prog := p })).LocksOwned) :
    ∃ j, Staged j ({ s with vars := vars }.setContext t (some { c with prog := p })) := by
  obtain ⟨φ, hph, hown, hn⟩ := h.code.running t c hc
  have hcounter : ∀ n, φ = .holds n → s.vars.cdvdInitCounter = n := fun n hphn =>
    h.counter.trans (congrArg _ (hn n hphn).1.symm)
  obtain ⟨φ', hph', hmoved⟩ := hph.quiet hq hcounter
  cases hmoved with
  | stay hcount hadv hhandled =>
    refine ⟨i, h.keep hl (h.code.update rfl rfl fun c' hc' => ?_) hcount hadv hhandled⟩
    cases hc'
    exact ⟨φ, hph', hown, hn⟩
  | @handled n =>
    obtain ⟨rfl, hlast⟩ := hn n rfl
    refine ⟨n, hl, h.code.update rfl rfl fun c' hc' => ?_, h.counter, h.last, h.advanced, ?_⟩
    · cases hc'
      exact ⟨_, hph', hown, hn⟩
    · intro pair hpair
      rcases List.mem_append.mp hpair with hold | hnew
      · exact h.handled pair hold
      · rw [List.mem_singleton.mp hnew]
  | @advanced n =>
    obtain ⟨rfl, hlast⟩ := hn n rfl
    obtain ⟨hothers, hwire⟩ := h.others hc hown
    refine ⟨n + 1, hl, .of_update rfl (fun u c' hu hc' => hothers u c' hu hc' _) ?_ ?_, ?_, ?_, ?_,
      h.handled⟩
    · intro c' hc'
      cases hc'
      exact ⟨_, hph', hown, fun m hm => Phase.noConfusion hm⟩
    · intro w e he
      exact (nomatch (hwire w).symm.trans he)
    · change s.vars.cdvdInitCounter + 1 = _
      rw [h.counter]
      rfl
    · omega
    · change s.vars.advanced ++ [n] = _
      rw [h.advanced, List.range_succ]

theorem Staged.ran (h : Staged i s) (hc : s.contexts t = some c)
    (hr : (driver cfg).Ran s t c ch s') (hok : stageKept s (.run t ch)) : ∃ j, Staged j s' := by
  obtain ⟨φ, hph, hown, hn⟩ := h.code.running t c hc
  have hl : s'.LocksOwned := h.locks.ran hc (hph.permitted hown) hr
  cases hr with
  | quiet hq => exact h.quiet hc hq hl
  | ret _ =>
    refine ⟨i, h.keep hl ?_ (by simp [Sys.setContext]) (by simp [Sys.setContext])
      (by simp [Sys.setContext])⟩
    refine h.code.update (by rw [Sys.setContext, Sys.finish_contexts]) (by simp [Sys.setContext])
      fun c' hc' => ?_
    cases hc'
  | lock hp hfree =>
    rw [hp] at hph
    cases hph with
    | @lock _ _ q hnext hlast _ hk _ =>
      have hstage : s.vars.cdvdInitCounter = q.stage := by
        simpa [stageKept, initCalls, hc, hp, hfree, hnext] using hok
      refine ⟨i, h.keep hl (h.code.update rfl rfl fun c' hc' => ?_) rfl rfl rfl⟩
      cases hc'
      refine ⟨_, hk, ?_, fun n hphn => ?_⟩
      · rw [hown]
        rfl
      · cases hphn
        exact ⟨Int.ofNat.inj (hstage.symm.trans h.counter), hlast⟩
  | unlock hp =>
    rw [hp] at hph
    cases hph with
    | unlock hm hk =>
      refine ⟨i, h.keep hl (h.code.update rfl rfl fun c' hc' => ?_) rfl rfl rfl⟩
      cases hc'
      refine ⟨.free, hk, ?_, fun n hphn => Phase.noConfusion hphn⟩
      simp only [hown, hm, Finset.erase_singleton]
      rfl
  | @sent q k w hp hw =>
    rw [hp] at hph
    cases hph with
    | @request _ n _ hq hk _ =>
      obtain ⟨rfl, hlast⟩ := hn n rfl
      have hharmless := Request.setServer_harmless (q s.vars) 0 s.vars
      refine ⟨n, h.keep hl ?_ hharmless.1 hharmless.2.1 hharmless.2.2⟩
      refine h.code.exchange rfl rfl ?_ ?_
      · intro c' hc'
        cases hc'
        exact ⟨.free, hk, rfl, fun m hm => Phase.noConfusion hm⟩
      · intro e he
        cases he
        exact ⟨(hq _).1, (hq _).2, hlast, hown⟩
  | notify hp =>
    rw [hp] at hph
    cases hph with
    | notify hk =>
      refine ⟨i, h.keep hl (h.code.update rfl rfl fun c' hc' => ?_) rfl rfl rfl⟩
      cases hc'
      exact ⟨φ, hk, hown, hn⟩

theorem Staged.step (h : Staged i s) (hok : stageKept s a) (hs : (driver cfg).Stepped s a s') :
    ∃ j, Staged j s' := by
  have hl : s'.LocksOwned := h.locks.step hs fun t c hc => by
    obtain ⟨φ, hph, hown, -⟩ := h.code.running t c hc
    exact hph.permitted hown
  cases hs with
  | @start t call hc =>
    obtain rfl : call = .cdvdinit := by
      cases call <;> first | rfl | cases hok
    refine ⟨i, h.keep hl (h.code.update rfl rfl fun c' hc' => ?_) rfl rfl rfl⟩
    cases hc'
    exact ⟨.free, sbcallCdvdinit_follows, rfl, fun n hn => Phase.noConfusion hn⟩
  | run hc hr => exact h.ran hc hr hok
  | @complete t w e x hc hw =>
    obtain ⟨hend, hstage, hlast, hown⟩ := h.code.waiting w e hw
    have hharmless := Request.setServer_harmless e.request x s.vars
    refine ⟨i, h.keep hl ?_ hharmless.1 hharmless.2.1 hharmless.2.2⟩
    refine h.code.exchange rfl rfl ?_ ?_
    · intro c' hc'
      cases hc'
      have hcallback : e.request.callback = cdvdInitCallback i := by
        rw [Request.callback, hend, hstage]
      refine ⟨.holds i, ?_, hown, ?_⟩
      · simp only [driver, hcallback]
        exact cdvdInitCallback_follows hlast
      · intro n hn
        cases hn
        exact ⟨rfl, hlast⟩
    · intro e' he'
      cases he'

theorem staged_of_reaches (hr : (driver cfg).Reaches (· = Vars.init) stageKept s) :
    ∃ i, Staged i s := by
  refine Reach.invariant (I := fun s => ∃ i, Staged i s) hr ?_ ?_
  · rintro s₀ ⟨vars, rfl, rfl⟩
    exact ⟨0, Sys.idle_locksOwned _, .idle _, rfl, by decide, rfl, fun p hp => (nomatch hp)⟩
  · rintro s a s' ⟨i, h⟩ hok hs
    exact h.step hok (Driver.step_stepped hs)

end Steps

/-- In every run in which no stage is overtaken between the look at the counter and the lock, every
callback finds the stage of its request, only mutexes of the context are unlocked and none is left
over, and the stages succeed in their order, each once. -/
theorem cdvdinit_stages (cfg : Config) {s : Sys Vars Mutex Request Call}
    (hr : (driver cfg).Reaches (· = Vars.init) stageKept s) :
    (∀ p ∈ s.vars.handled, (p.1 : Int) = p.2) ∧
      (∀ t c m k, s.contexts t = some c → c.prog = .unlock m k → c.owned = {m} ∧ s.locks m ≠ 0) ∧
      (∀ m, s.locks m ≠ 0 → ∃ o, m ∈ s.owned o) ∧
      ∃ i : Nat, i ≤ 6 ∧ s.vars.cdvdInitCounter = i ∧ s.vars.advanced = List.range i := by
  obtain ⟨i, h⟩ := staged_of_reaches hr
  refine ⟨h.handled, ?_, fun m => (h.locks.taken_iff m).mp, i, h.last, h.counter, h.advanced⟩
  intro t c m k hc hp
  obtain ⟨φ, hφ, hown, -⟩ := h.code.running t c hc
  rw [hp] at hφ
  cases hφ with
  | unlock hm _ =>
    have hcm : c.owned = {m} := hown.trans hm
    refine ⟨hcm, (h.locks.taken_iff m).mpr ⟨.context t, ?_⟩⟩
    rw [Sys.owned_context hc, hcm]
    exact Finset.mem_singleton_self m

/-- Statements of a context whose requests are accepted as the given message. -/
def go (t w n : Nat) : List (Action Call) := List.replicate n (.run t ⟨0, some w⟩)

/-- The first stage, from the call to the end of its callback. -/
def firstStage : List (Action Call) :=
  .start 0 .cdvdinit :: go 0 0 10 ++ .complete 0 0 1 :: go 0 0 8

theorem cdvdinit_stages_first :
    ∃ s : Sys Vars Mutex Request Call, s.vars.advanced = [0] ∧ s.vars.cdvdInitCounter = 1 ∧
      ∀ p ∈ s.vars.handled, (p.1 : Int) = p.2 := by
  let cfg : Config := ⟨true, 0, 0, 0⟩
  obtain ⟨s, hs, hadvanced, hcounter⟩ : ∃ s,
      (driver cfg).run stageKept (Sys.idle Vars.init) firstStage = some s ∧
      s.vars.advanced = [0] ∧ s.vars.cdvdInitCounter = 1 := ⟨_, rfl, rfl, rfl⟩
  exact ⟨s, hadvanced, hcounter, (cdvdinit_stages cfg (Driver.reaches_run rfl hs)).1⟩

/-- The stages up to the fourth, which context 1 looks at before it has ended and sends again
afterwards. -/
def overtaken : List (Action Call) :=
  firstStage ++
    .start 0 .cdvdinit :: go 0 0 5 ++ .complete 0 0 1 :: go 0 0 8 ++
    .start 0 .cdvdinit :: go 0 0 5 ++ .complete 0 0 1 :: go 0 0 8 ++
    .start 0 .cdvdinit :: go 0 0 6 ++ .start 1 .cdvdinit :: go 1 1 1 ++
    .complete 0 0 0 :: go 0 0 6 ++ go 1 1 5 ++ .complete 0 1 0 :: go 0 0 6

/-- The callback of the second request of the fourth stage runs as that of the fifth: it unlocks the
other mutex, which is free, and the one its request has taken stays locked with nobody left to
unlock it. -/
theorem cdvdinit_overtaken : ∃ s : Sys Vars Mutex Request Call,
    (driver ⟨true, 0, 0, 0⟩).Reaches (· = Vars.init) initCalls s ∧
      s.vars.handled = [(0, 0), (1, 1), (2, 2), (3, 3), (3, 4)] ∧ s.locks .cdvdMutexS ≠ 0 ∧
      [s.contexts 0, s.contexts 1].all Option.isNone ∧ [s.wire 0, s.wire 1].all Option.isNone := by
  have hrun : ((driver ⟨true, 0, 0, 0⟩).run initCalls (Sys.idle Vars.init) overtaken).map
      (fun s => (s.vars.handled, s.locks .cdvdMutexS,
        [s.contexts 0, s.contexts 1].all Option.isNone, [s.wire 0, s.wire 1].all Option.isNone)) =
      some ([(0, 0), (1, 1), (2, 2), (3, 3), (3, 4)], -1, true, true) := by
    decide +kernel
  obtain ⟨s, hs, hvalues⟩ := Option.map_eq_some_iff.mp hrun
  simp only [Prod.mk.injEq] at hvalues
  obtain ⟨hhandled, hlock, hcontexts, hwire⟩ := hvalues
  refine ⟨s, Driver.reaches_run rfl hs, hhandled, ?_, hcontexts, hwire⟩
  rw [hlock]
  decide

end KernelLoader.Tge
