import KernelLoader.Tge.Sound
import KernelLoader.Lib.Atomic

namespace KernelLoader.Tge.Sound
open Lib Lib.Async
set_option autoImplicit true
set_option relaxedAutoImplicit false

/-- The field `type` of the elements of `soundreg`. -/
def soundregType : List Nat :=
  [4, 4, 2, 2, 2, 0, 4, 0, 2, 2, 2, 2, 2, 2, 2, 2, 1, 1, 1, 1, 1, 1, 1, 1, 1, 1, 1, 1]

/-- `sbcall_soundgetreg` and `sbcall_soundsetreg` read or write a register of the device and nothing
else. -/
def accessSoundreg (index : Nat) : Code :=
  whenInitialized <|
    match soundregType[index]? with
    | none => .ret (-1)
    | some type => if 1 ≤ type ∧ type ≤ 4 then .ret 0 else .ret (-1)

/-- All calls of the driver. -/
inductive Sbcall
  | rpc (call : Call)
  | soundgetreg (index : Nat)
  | soundsetreg (index val : Nat)

def Sbcall.body (cfg : Config) : Sbcall → Code
  | .rpc call => call.body cfg
  | .soundgetreg index => accessSoundreg index
  | .soundsetreg index _ => accessSoundreg index

def lifeDriver (cfg : Config) : Driver Vars Empty Request Sbcall where
  body := Sbcall.body cfg
  callback := Request.callback
  accepted := Request.accepted
  answered := Request.answered

/-- The driver between calls. -/
abbrev Life := Whole Vars Request

/-- The state in which the SBIOS is loaded. -/
structure Loaded (s : Life) : Prop where
  counter : s.vars.soundInitCounter = 0
  initialized : s.vars.soundInitialized = 0
  flight : s.flight = none
  registered : s.vars.registered = []

/-- Every sequence of calls and completions, each as one step. -/
abbrev Reachable (cfg : Config) : Life → Prop :=
  Reach Loaded (fun s e t => (lifeDriver cfg).atomic s e = some t) fun _ _ => True

variable {cfg : Config}

theorem atomic_interleaves {s t : Life} {e : Event Sbcall} {sys : Sys Vars Empty Request Sbcall}
    (hst : (lifeDriver cfg).atomic s e = some t) (hs : s.At sys)
    (hidle : ∀ i, sys.contexts i = none) :
    ∃ as sys', (lifeDriver cfg).run (fun _ _ => true) sys as = some sys' ∧ t.At sys' ∧
      ∀ i, sys'.contexts i = none :=
  Driver.atomic_runs hst hs hidle

/-- The stage stays the same, and nothing is registered. -/
def SameStage (s t : Vars) : Prop :=
  t.soundInitCounter = s.soundInitCounter ∧ t.soundInitialized = s.soundInitialized ∧
    t.registered = s.registered

theorem command_sameStage (number : Nat) (stores : List (Nat × Nat)) (endfunc : EndFunc) :
    (command number stores endfunc).Stores SameStage := by
  refine Prog.stores_acts.mpr ⟨fun f hf s => ?_, fun ok => ?_⟩
  · obtain ⟨w, -, rfl⟩ := List.mem_map.mp hf
    exact ⟨rfl, rfl, rfl⟩
  · cases ok <;> trivial

theorem whenInitialized_sameStage {k : Code} (h : k.Stores SameStage) :
    (whenInitialized k).Stores SameStage := by
  intro b
  dsimp only
  split
  · trivial
  · exact h

theorem accessSoundreg_sameStage (index : Nat) : (accessSoundreg index).Stores SameStage := by
  apply whenInitialized_sameStage
  split
  · trivial
  · split <;> trivial

theorem sbcallSoundend_sameStage (cfg : Config) : (sbcallSoundend cfg).Stores SameStage := by
  intro counter
  unfold soundendStage
  split_ifs
  · trivial
  · exact command_sameStage _ _ _
  · exact command_sameStage _ _ _

theorem sbcallSoundtranscallback_sameStage (channel transferCb tcbarg : Nat) :
    (sbcallSoundtranscallback channel transferCb tcbarg).Stores SameStage := by
  apply whenInitialized_sameStage
  split_ifs
  · exact Prog.stores_acts.mpr ⟨by simp [SameStage], command_sameStage _ _ _⟩
  · exact Prog.stores_acts.mpr ⟨by simp [SameStage], command_sameStage _ _ _⟩
  · trivial

theorem Sbcall.body_sameStage (call : Sbcall) (h : ∀ mode, call ≠ .rpc (.soundinit mode)) :
    (call.body cfg).Stores SameStage := by
  cases call with
  | soundgetreg index => exact accessSoundreg_sameStage index
  | soundsetreg index val => exact accessSoundreg_sameStage index
  | rpc call =>
    cases call with
    | soundinit mode => exact absurd rfl (h mode)
    | soundend => exact sbcallSoundend_sameStage cfg
    | soundgcoreattr index => exact whenInitialized_sameStage (command_sameStage _ _ _)
    | soundscoreattr index attr => exact whenInitialized_sameStage (command_sameStage _ _ _)
    | soundtrans channel mode addr size startAddr =>
      exact whenInitialized_sameStage (command_sameStage _ _ _)
    | soundtransstat channel flag => exact whenInitialized_sameStage (command_sameStage _ _ _)
    | soundtranscallback channel transferCb tcbarg =>
      exact sbcallSoundtranscallback_sameStage channel transferCb tcbarg
    | soundremote => exact whenInitialized_sameStage trivial

theorem Request.accepted_sameStage (q : Request) (s : Vars) : SameStage s (q.accepted s) := by
  cases q <;> exact ⟨rfl, rfl, rfl⟩

theorem Request.answered_sameStage (q : Request) (answer : Int) (s : Vars) :
    SameStage s (q.answered answer s) := by
  cases q <;> exact ⟨rfl, rfl, rfl⟩

theorem SameStage.trans (h : SameStage a b) (h' : SameStage b c) : SameStage a c :=
  ⟨h'.1.trans h.1, h'.2.1.trans h.2.1, h'.2.2.trans h.2.2⟩

/-- The stage is the same after a call, and it is that in which a request on its way was sent. -/
def KeepsStage (s t : Whole Vars Request) : Prop :=
  SameStage s.vars t.vars ∧
    (t.flight = s.flight ∨ ∃ f, t.flight = some f ∧ SameStage s.vars f.sent)

theorem keepsStage_of_stores {p : Code} (h : p.Stores SameStage) (accept : Bool) (input : Int)
    (s : Whole Vars Request) : KeepsStage s (p.whole (lifeDriver cfg) accept input s) :=
  h.whole (fun _ => ⟨rfl, rfl, rfl⟩) (fun _ _ _ => SameStage.trans) Request.accepted_sameStage
    accept input s

/-- What `soundInitCallback` does to the variables. -/
def initStage (s : Vars) : Vars :=
  if s.soundInitCounter = 0 then
    if s.server ≠ 0 then
      nextStage (register (.sifRegisterRpc soundServerRpcSid) (register .sifSetRpcQueue s))
    else s
  else if s.soundInitCounter = 1 then if s.result ≠ 0 then s else nextStage s
  else if s.soundInitCounter = 2 then
    if s.result ≠ 0 then s else setInitialized (-1) (nextStage s)
  else s

theorem soundInitCallback_whole (accept : Bool) (input : Int) (s : Whole Vars Request) :
    soundInitCallback.whole (lifeDriver cfg) accept input s =
      { s with vars := initStage s.vars } := by
  unfold soundInitCallback initStage
  rw [Prog.whole]
  unfold soundInitCase
  split_ifs <;> simp_all [Prog.whole, endCall, Prog.acts]

/-- What `soundEndCallback` does to the variables. -/
def endStage (s : Vars) : Vars :=
  if s.soundInitCounter = 0 ∨ s.soundInitCounter = 1 then s
  else if s.soundInitCounter = 2 then if s.result = 0 then lastStage s else s
  else setInitialized 0 (lastStage s)

theorem soundEndCallback_whole (accept : Bool) (input : Int) (s : Whole Vars Request) :
    soundEndCallback.whole (lifeDriver cfg) accept input s =
      { s with vars := endStage s.vars } := by
  unfold soundEndCallback endStage
  rw [Prog.whole]
  unfold soundEndCase
  split_ifs <;> simp_all [Prog.whole, endCall, Prog.acts]

/-- Also `soundinit` keeps the stage; after the last one `soundInitCallback` does nothing. -/
theorem sbcallSoundinit_keepsStage (mode : Nat) (accept : Bool) (input : Int)
    (s : Whole Vars Request) :
    KeepsStage s ((sbcallSoundinit cfg mode).whole (lifeDriver cfg) accept input s) := by
  rw [sbcallSoundinit, Prog.whole]
  unfold soundinitStage
  split_ifs with h0 h1 h2
  · apply keepsStage_of_stores
    intro ok
    cases ok <;> trivial
  · exact keepsStage_of_stores (command_sameStage _ _ _) accept input s
  · exact keepsStage_of_stores (command_sameStage _ _ _) accept input s
  · rw [soundInitCallback_whole, initStage, if_neg h0, if_neg h1, if_neg h2]
    exact ⟨⟨rfl, rfl, rfl⟩, .inl rfl⟩

theorem Sbcall.keepsStage (call : Sbcall) (cfg : Config) (accept : Bool) (input : Int)
    (s : Whole Vars Request) :
    KeepsStage s ((call.body cfg).whole (lifeDriver cfg) accept input s) := by
  by_cases h : ∃ mode, call = .rpc (.soundinit mode)
  · obtain ⟨mode, rfl⟩ := h
    exact sbcallSoundinit_keepsStage mode accept input s
  · exact keepsStage_of_stores (call.body_sameStage fun mode hm => h ⟨mode, hm⟩) accept input s

/-- The stage, with what is registered in it. -/
structure Vars.AtStage (s : Vars) : Prop where
  counter : 0 ≤ s.soundInitCounter ∧ s.soundInitCounter ≤ 3
  initialized : s.soundInitialized ≠ 0 ↔ s.soundInitCounter = 3
  registered : s.registered = if s.soundInitCounter = 0 then []
    else [.sifSetRpcQueue, .sifRegisterRpc soundServerRpcSid]

variable {s t : Vars}

theorem Vars.AtStage.same (h : s.AtStage) (hst : SameStage s t) : t.AtStage := by
  refine ⟨?_, ?_, ?_⟩
  · rw [hst.1]
    exact h.counter
  · rw [hst.1, hst.2.1]
    exact h.initialized
  · rw [hst.1, hst.2.2]
    exact h.registered

/-- The second stage is reached with the registrations, the fourth with the mark. -/
theorem Vars.AtStage.initStage (h : s.AtStage) : (initStage s).AtStage := by
  obtain ⟨hcounter, hinit, hreg⟩ := h
  unfold Sound.initStage
  split_ifs with h0 hserver h1 hresult h2 hresult
  · -- from 0 to 1
    rw [if_pos h0] at hreg
    exact ⟨by simp [nextStage, register, h0], by
      simp [nextStage, register, h0, not_iff_not.mpr hinit],
      by simp [nextStage, register, h0, hreg]⟩
  · exact ⟨hcounter, hinit, hreg⟩
  · exact ⟨hcounter, hinit, hreg⟩
  · -- from 1 to 2
    refine ⟨by simp [nextStage, h1], ?_, ?_⟩
    · rw [h1] at hinit
      simp only [nextStage, h1, hinit]
      decide
    · rw [nextStage, hreg, if_neg h0, if_neg (by simp [h1])]
  · exact ⟨hcounter, hinit, hreg⟩
  · -- from 2 to 3
    refine ⟨by simp [nextStage, setInitialized, h2], by simp [nextStage, setInitialized, h2], ?_⟩
    rw [nextStage, setInitialized, hreg, if_neg h0, if_neg (by simp [h2])]
  · exact ⟨hcounter, hinit, hreg⟩

/-- Backwards the first stage is never reached. -/
theorem Vars.AtStage.endStage (h : s.AtStage) : (endStage s).AtStage := by
  obtain ⟨hcounter, hinit, hreg⟩ := h
  unfold Sound.endStage
  split_ifs with h01 h2 hresult
  · exact ⟨hcounter, hinit, hreg⟩
  · -- from 2 to 1
    rw [h2] at hinit hreg
    refine ⟨by simp [lastStage, h2], ?_, ?_⟩
    · simp only [lastStage, h2, hinit]
      decide
    · rw [lastStage, hreg, if_neg (by decide), if_neg (by simp [h2])]
  · exact ⟨hcounter, hinit, hreg⟩
  · -- from 3 to 2
    have h3 : s.soundInitCounter = 3 := by omega
    refine ⟨by simp [lastStage, setInitialized, h3], by simp [lastStage, setInitialized, h3], ?_⟩
    rw [lastStage, setInitialized, hreg, h3, if_neg (by decide), if_neg (by simp)]

theorem initStage_registered (s : Vars) : s.registered <+: (initStage s).registered := by
  unfold initStage
  split_ifs <;> simp [nextStage, register, setInitialized]

theorem endStage_registered (s : Vars) : (endStage s).registered = s.registered := by
  unfold endStage
  split_ifs <;> rfl

/-- In every state between two steps. -/
structure Ok (s : Life) : Prop where
  stage : s.vars.AtStage
  sent : ∀ f ∈ s.flight, f.sent.soundInitCounter = s.vars.soundInitCounter

theorem Request.callback_atStage (q : Request) (cfg : Config) (h : s.AtStage) (accept : Bool)
    (input : Int) :
    let run := q.callback.whole (lifeDriver cfg) accept input ⟨s, none⟩
    run.vars.AtStage ∧ s.registered <+: run.vars.registered ∧ run.flight = none := by
  cases q with
  | bind sid =>
    simp only [Request.callback, soundInitCallback_whole]
    exact ⟨h.initStage, initStage_registered s, trivial⟩
  | call number packet endfunc =>
    cases endfunc with
    | soundInitCallback =>
      simp only [Request.callback, soundInitCallback_whole]
      exact ⟨h.initStage, initStage_registered s, trivial⟩
    | soundEndCallback =>
      simp only [Request.callback, soundEndCallback_whole]
      exact ⟨h.endStage, (endStage_registered s).symm ▸ List.prefix_rfl, trivial⟩
    | soundCallback => exact ⟨h, List.prefix_rfl, rfl⟩
    | soundCallbackOk => exact ⟨h, List.prefix_rfl, rfl⟩

theorem Ok.step {s t : Life} {e : Event Sbcall} (h : Ok s)
    (hst : (lifeDriver cfg).atomic s e = some t) :
    Ok t ∧ s.vars.registered <+: t.vars.registered := by
  cases e with
  | call call accept input =>
    cases hst
    obtain ⟨hsame, hflight⟩ := call.keepsStage cfg accept input s
    refine ⟨⟨h.stage.same hsame, fun f hf => ?_⟩, hsame.2.2 ▸ List.prefix_rfl⟩
    rcases hflight with hflight | ⟨f', hf', hsent⟩
    · exact (h.sent f (hflight ▸ hf)).trans hsame.1.symm
    · obtain rfl : f' = f := Option.some.inj (hf'.symm.trans hf)
      exact hsent.1.trans hsame.1.symm
  | complete answer accept input =>
    obtain ⟨f, hf, rfl⟩ := Option.map_eq_some_iff.mp hst
    have hsame := f.request.answered_sameStage answer s.vars
    obtain ⟨hstage, hgrows, hflight⟩ :=
      f.request.callback_atStage cfg (h.stage.same hsame) accept input
    refine ⟨⟨hstage, fun f' hf' => ?_⟩, hsame.2.2 ▸ hgrows⟩
    exact nomatch hflight.symm.trans hf'

theorem Reachable.ok {s : Life} (h : Reachable cfg s) : Ok s := by
  refine Reach.invariant h (fun s hs => ?_) fun s e t hs _ hst => (hs.step hst).1
  refine ⟨⟨?_, ?_, ?_⟩, fun f hf => ?_⟩
  · rw [hs.counter]
    decide
  · rw [hs.counter, hs.initialized]
    decide
  · rw [hs.registered, if_pos hs.counter]
  · exact nomatch hs.flight.symm.trans hf

/-- The counter is one of the four stages, the last of which is marked; a completion finds the
counter its request was sent with; and the queue and the server are registered in the step in which
the counter leaves 0, to which it never comes back. -/
theorem sound_life_cycle {s : Life} (hr : Reachable cfg s) :
    (0 ≤ s.vars.soundInitCounter ∧ s.vars.soundInitCounter ≤ 3) ∧
    (s.vars.soundInitialized ≠ 0 ↔ s.vars.soundInitCounter = 3) ∧
    (∀ f answer, s.flight = some f →
      (f.request.answered answer s.vars).soundInitCounter = f.sent.soundInitCounter) ∧
    (s.vars.registered = if s.vars.soundInitCounter = 0 then []
      else [.sifSetRpcQueue, .sifRegisterRpc soundServerRpcSid]) ∧
    ∀ e t, (lifeDriver cfg).atomic s e = some t →
      (t.vars.registered ≠ s.vars.registered ↔
        s.vars.soundInitCounter = 0 ∧ t.vars.soundInitCounter ≠ 0) ∧
      (s.vars.soundInitCounter ≠ 0 → t.vars.soundInitCounter ≠ 0) := by
  have hok := hr.ok
  refine ⟨hok.stage.counter, hok.stage.initialized, fun f answer hf => ?_, hok.stage.registered,
    fun e t hst => ?_⟩
  · rw [(f.request.answered_sameStage answer s.vars).1]
    exact (hok.sent f hf).symm
  · -- both lists are determined by the counters, and nothing is taken back
    have hs := hok.stage.registered
    obtain ⟨hnext, hgrows⟩ := hok.step hst
    have ht := hnext.stage.registered
    rw [hs, ht] at hgrows ⊢
    split_ifs at hgrows ⊢ with h0 h1 h1 <;> simp_all

/-- A bind that is answered with a server. -/
theorem sound_life_cycle_bound :
    ∃ s, Reachable ⟨0⟩ s ∧ s.vars.soundInitCounter = 1 ∧
      s.vars.registered = [.sifSetRpcQueue, .sifRegisterRpc soundServerRpcSid] := by
  let vars : Vars := ⟨0, 0, 0, fun _ => 0, fun _ => 0, 0, 0, 0, 0, []⟩
  have hloaded : Reachable ⟨0⟩ ⟨vars, none⟩ := .start ⟨rfl, rfl, rfl, rfl⟩
  have hcalled := hloaded.next (a := .call (.rpc (.soundinit 0)) true 0) trivial rfl
  have hbound := hcalled.next (a := .complete 1 false 0) trivial rfl
  exact ⟨_, hbound, rfl, (sound_life_cycle hbound).2.2.2.1⟩

end KernelLoader.Tge.Sound
