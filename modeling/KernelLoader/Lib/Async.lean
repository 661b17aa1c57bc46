import KernelLoader.Lib.Reach
import Mathlib.Data.Finset.Basic
import Mathlib.Logic.Function.Basic

namespace Lib.Async
open Lib
set_option autoImplicit true
set_option relaxedAutoImplicit false

/-- The body of a call over shared variables `σ`, locks `μ` and requests `ρ`. Other code may run
between any two of its statements. -/
inductive Prog (σ μ ρ : Type)
  | ret (r : Int)
  | act (f : σ → σ) (k : Prog σ μ ρ)
  /-- go on with a value of the shared variables -/
  | read (v : σ → Int) (k : Int → Prog σ μ ρ)
  /-- go on with a value from outside -/
  | input (k : Int → Prog σ μ ρ)
  /-- store `v` in the lock if it is free -/
  | lock (m : μ) (v : Int) (k : Bool → Prog σ μ ρ)
  | unlock (m : μ) (k : Prog σ μ ρ)
  /-- send a request, which may be refused -/
  | request (q : σ → ρ) (k : Bool → Prog σ μ ρ)
  /-- tell the caller that the call has ended, with its result -/
  | notify (r : Int) (k : Prog σ μ ρ)

/-- Some statements one after the other. -/
def Prog.acts (fs : List (σ → σ)) (k : Prog σ μ ρ) : Prog σ μ ρ := fs.foldr .act k

/-- What is run for a call of `τ`: its body, the code that handles the completion of a request, and
what a request and its answer leave in the variables. -/
structure Driver (σ μ ρ τ : Type) where
  body : τ → Prog σ μ ρ
  callback : ρ → Prog σ μ ρ
  accepted : ρ → σ → σ
  answered : ρ → Int → σ → σ

/-- A context that runs code for a call. The calls are numbered. -/
structure Context (σ μ ρ τ : Type) where
  prog : Prog σ μ ρ
  call : τ
  id : Nat
  /-- whether it handles a completion -/
  reply : Bool
  /-- the locks that the call has taken -/
  owned : Finset μ
  /-- whether it is left to this context to tell the caller -/
  owes : Bool

/-- A request that was accepted and is not completed yet. -/
structure Message (μ ρ τ : Type) where
  request : ρ
  call : τ
  id : Nat
  owned : Finset μ
  owes : Bool

/-- What the caller has got from a call. -/
structure Outcome where
  returned : Option Int
  notified : Nat

structure Sys (σ μ ρ τ : Type) where
  vars : σ
  locks : μ → Int
  contexts : Nat → Option (Context σ μ ρ τ)
  wire : Nat → Option (Message μ ρ τ)
  next : Nat
  outcomes : Nat → Outcome

/-- Nothing was called yet. -/
def Sys.idle (vars : σ) : Sys σ μ ρ τ where
  vars := vars
  locks := fun _ => 0
  contexts := fun _ => none
  wire := fun _ => none
  next := 0
  outcomes := fun _ => ⟨none, 0⟩

def Sys.setContext (s : Sys σ μ ρ τ) (t : Nat) (c : Option (Context σ μ ρ τ)) : Sys σ μ ρ τ :=
  { s with contexts := Function.update s.contexts t c }

def Sys.setMessage (s : Sys σ μ ρ τ) (w : Nat) (e : Option (Message μ ρ τ)) : Sys σ μ ρ τ :=
  { s with wire := Function.update s.wire w e }

def Sys.setOutcome (s : Sys σ μ ρ τ) (i : Nat) (o : Outcome) : Sys σ μ ρ τ :=
  { s with outcomes := Function.update s.outcomes i o }

/-- The context comes to its end. Only a call has a caller that gets the value. -/
def Sys.finish (s : Sys σ μ ρ τ) (c : Context σ μ ρ τ) (r : Int) : Sys σ μ ρ τ :=
  if c.reply then s else s.setOutcome c.id { s.outcomes c.id with returned := some r }

def Sys.tell (s : Sys σ μ ρ τ) (i : Nat) : Sys σ μ ρ τ :=
  s.setOutcome i { s.outcomes i with notified := (s.outcomes i).notified + 1 }

@[simp] theorem Sys.finish_contexts (s : Sys σ μ ρ τ) (c : Context σ μ ρ τ) (r : Int) :
    (s.finish c r).contexts = s.contexts := by
  unfold finish
  split <;> rfl

@[simp] theorem Sys.finish_wire (s : Sys σ μ ρ τ) (c : Context σ μ ρ τ) (r : Int) :
    (s.finish c r).wire = s.wire := by
  unfold finish
  split <;> rfl

@[simp] theorem Sys.finish_locks (s : Sys σ μ ρ τ) (c : Context σ μ ρ τ) (r : Int) :
    (s.finish c r).locks = s.locks := by
  unfold finish
  split <;> rfl

@[simp] theorem Sys.finish_vars (s : Sys σ μ ρ τ) (c : Context σ μ ρ τ) (r : Int) :
    (s.finish c r).vars = s.vars := by
  unfold finish
  split <;> rfl

@[simp] theorem Sys.finish_next (s : Sys σ μ ρ τ) (c : Context σ μ ρ τ) (r : Int) :
    (s.finish c r).next = s.next := by
  unfold finish
  split <;> rfl

/-- How the environment answers a statement: a value from outside, and the number of the message if
a request is accepted. -/
structure Choice where
  input : Int
  accept : Option Nat

inductive Action (τ : Type)
  /-- context `t` begins a call -/
  | start (t : Nat) (call : τ)
  /-- context `t` executes a statement -/
  | run (t : Nat) (ch : Choice)
  /-- context `t` begins to handle the completion of message `w` -/
  | complete (t w : Nat) (answer : Int)

section Step
variable [DecidableEq μ]

/-- One statement of context `t`. -/
def Driver.exec (d : Driver σ μ ρ τ) (s : Sys σ μ ρ τ) (t : Nat) (c : Context σ μ ρ τ)
    (ch : Choice) : Option (Sys σ μ ρ τ) :=
  match c.prog with
  | .ret r => some ((s.finish c r).setContext t none)
  | .act f k => some ({ s with vars := f s.vars }.setContext t (some { c with prog := k }))
  | .read v k => some (s.setContext t (some { c with prog := k (v s.vars) }))
  | .input k => some (s.setContext t (some { c with prog := k ch.input }))
  | .lock m v k =>
    if s.locks m = 0 then
      some ({ s with locks := Function.update s.locks m v }.setContext t
        (some { c with prog := k true, owned := insert m c.owned }))
    else some (s.setContext t (some { c with prog := k false }))
  | .unlock m k =>
    some ({ s with locks := Function.update s.locks m 0 }.setContext t
      (some { c with prog := k, owned := c.owned.erase m }))
  | .request q k =>
    match ch.accept with
    | none => some (s.setContext t (some { c with prog := k false }))
    | some w =>
      if (s.wire w).isSome then none
      else
        some (({ s with vars := d.accepted (q s.vars) s.vars }.setContext t
          (some { c with prog := k true, owned := ∅, owes := false })).setMessage w
            (some ⟨q s.vars, c.call, c.id, c.owned, c.owes⟩))
  | .notify _ k => some ((s.tell c.id).setContext t (some { c with prog := k, owes := false }))

def Driver.step (d : Driver σ μ ρ τ) (s : Sys σ μ ρ τ) : Action τ → Option (Sys σ μ ρ τ)
  | .start t call =>
    match s.contexts t with
    | none =>
      some ({ s with next := s.next + 1 }.setContext t
        (some ⟨d.body call, call, s.next, false, ∅, true⟩))
    | some _ => none
  | .run t ch =>
    match s.contexts t with
    | none => none
    | some c => d.exec s t c ch
  | .complete t w x =>
    match s.contexts t, s.wire w with
    | none, some e =>
      some (({ s with vars := d.answered e.request x s.vars }.setMessage w none).setContext t
        (some ⟨d.callback e.request, e.call, e.id, true, e.owned, e.owes⟩))
    | _, _ => none

/-- A run of the given steps, as long as they are admitted. -/
def Driver.run (d : Driver σ μ ρ τ) (ok : Sys σ μ ρ τ → Action τ → Bool) (s : Sys σ μ ρ τ) :
    List (Action τ) → Option (Sys σ μ ρ τ)
  | [] => some s
  | a :: as => if ok s a then (d.step s a).bind (d.run ok · as) else none

/-- The statements that only concern the variables, and those that have no success. -/
inductive Quiet (s : Sys σ μ ρ τ) (ch : Choice) : Prog σ μ ρ → Prog σ μ ρ → σ → Prop
  | act : Quiet s ch (.act f k) k (f s.vars)
  | read : Quiet s ch (.read v k) (k (v s.vars)) s.vars
  | input : Quiet s ch (.input k) (k ch.input) s.vars
  | busy : s.locks m ≠ 0 → Quiet s ch (.lock m v k) (k false) s.vars
  | refused : Quiet s ch (.request q k) (k false) s.vars

/-- What a statement of context `t` can do. -/
inductive Driver.Ran (d : Driver σ μ ρ τ) (s : Sys σ μ ρ τ) (t : Nat) (c : Context σ μ ρ τ)
    (ch : Choice) : Sys σ μ ρ τ → Prop
  | quiet {vars : σ} : Quiet s ch c.prog p vars →
      Ran d s t c ch ({ s with vars := vars }.setContext t (some { c with prog := p }))
  | ret : c.prog = .ret r → Ran d s t c ch ((s.finish c r).setContext t none)
  | lock : c.prog = .lock m v k → s.locks m = 0 →
      Ran d s t c ch ({ s with locks := Function.update s.locks m v }.setContext t
        (some { c with prog := k true, owned := insert m c.owned }))
  | unlock : c.prog = .unlock m k →
      Ran d s t c ch ({ s with locks := Function.update s.locks m 0 }.setContext t
        (some { c with prog := k, owned := c.owned.erase m }))
  | sent : c.prog = .request q k → s.wire w = none →
      Ran d s t c ch (({ s with vars := d.accepted (q s.vars) s.vars }.setContext t
        (some { c with prog := k true, owned := ∅, owes := false })).setMessage w
          (some ⟨q s.vars, c.call, c.id, c.owned, c.owes⟩))
  | notify : c.prog = .notify r k →
      Ran d s t c ch ((s.tell c.id).setContext t (some { c with prog := k, owes := false }))

theorem Driver.exec_ran {d : Driver σ μ ρ τ} {s s' : Sys σ μ ρ τ} {c : Context σ μ ρ τ}
    {ch : Choice} (h : d.exec s t c ch = some s') : d.Ran s t c ch s' := by
  unfold Driver.exec at h
  split at h
  · cases h
    exact .ret ‹_›
  · next hp =>
    cases h
    refine .quiet ?_
    rw [hp]
    exact .act
  · next hp =>
    cases h
    refine .quiet ?_
    rw [hp]
    exact .read
  · next hp =>
    cases h
    refine .quiet ?_
    rw [hp]
    exact .input
  · next hp =>
    split_ifs at h with hfree
    · cases h
      exact .lock hp hfree
    · cases h
      refine .quiet ?_
      rw [hp]
      exact .busy hfree
  · cases h
    exact .unlock ‹_›
  · next hp =>
    split at h
    · cases h
      refine .quiet ?_
      rw [hp]
      exact .refused
    · split_ifs at h with hw
      cases h
      exact .sent hp (by simpa using hw)
  · cases h
    exact .notify ‹_›

/-- What a step can do. -/
inductive Driver.Stepped (d : Driver σ μ ρ τ) (s : Sys σ μ ρ τ) : Action τ → Sys σ μ ρ τ → Prop
  | start {call : τ} : s.contexts t = none →
      Stepped d s (.start t call) ({ s with next := s.next + 1 }.setContext t
        (some ⟨d.body call, call, s.next, false, ∅, true⟩))
  | run {ch : Choice} : s.contexts t = some c → d.Ran s t c ch s' → Stepped d s (.run t ch) s'
  | complete : s.contexts t = none → s.wire w = some e →
      Stepped d s (.complete t w x)
        (({ s with vars := d.answered e.request x s.vars }.setMessage w none).setContext t
          (some ⟨d.callback e.request, e.call, e.id, true, e.owned, e.owes⟩))

theorem Driver.step_stepped {d : Driver σ μ ρ τ} {s s' : Sys σ μ ρ τ} {a : Action τ}
    (h : d.step s a = some s') : d.Stepped s a s' := by
  unfold Driver.step at h
  split at h
  · split at h
    · cases h
      exact .start ‹_›
    · cases h
  · split at h
    · cases h
    · exact .run ‹_› (exec_ran h)
  · split at h
    · cases h
      exact .complete ‹_› ‹_›
    · cases h

/-- The steps of a driver as a relation. -/
def Driver.Steps (d : Driver σ μ ρ τ) (s : Sys σ μ ρ τ) (a : Action τ) (s' : Sys σ μ ρ τ) : Prop :=
  d.step s a = some s'

/-- The states of the runs whose steps are admitted, from a state in which nothing was called. -/
def Driver.Reaches (d : Driver σ μ ρ τ) (init : σ → Prop) (ok : Sys σ μ ρ τ → Action τ → Bool)
    (s : Sys σ μ ρ τ) : Prop :=
  Reach (fun s => ∃ vars, init vars ∧ s = Sys.idle vars) d.Steps (fun s a => ok s a = true) s

theorem Driver.run_reach {d : Driver σ μ ρ τ} {init : Sys σ μ ρ τ → Prop}
    {ok : Sys σ μ ρ τ → Action τ → Bool} {s s' : Sys σ μ ρ τ} {as : List (Action τ)}
    (hr : Reach init d.Steps (fun s a => ok s a = true) s) (h : d.run ok s as = some s') :
    Reach init d.Steps (fun s a => ok s a = true) s' := by
  induction as generalizing s with
  | nil =>
    cases h
    exact hr
  | cons a as ih =>
    rw [Driver.run] at h
    split_ifs at h with hok
    obtain ⟨s₁, hs₁, hrest⟩ := Option.bind_eq_some_iff.mp h
    exact ih (hr.next hok hs₁) hrest

theorem Driver.reaches_run {d : Driver σ μ ρ τ} {init : σ → Prop}
    {ok : Sys σ μ ρ τ → Action τ → Bool} {vars : σ} {s : Sys σ μ ρ τ} {as : List (Action τ)}
    (hinit : init vars) (h : d.run ok (Sys.idle vars) as = some s) : d.Reaches init ok s :=
  run_reach (.start ⟨vars, hinit, rfl⟩) h

end Step

section Everyone
variable {s s' : Sys σ μ ρ τ}

/-- Something that holds of all contexts and of all requests on their way. -/
structure Sys.All (s : Sys σ μ ρ τ) (P : Context σ μ ρ τ → Prop) (Q : Message μ ρ τ → Prop) :
    Prop where
  running : ∀ t c, s.contexts t = some c → P c
  waiting : ∀ w e, s.wire w = some e → Q e

variable {P : Context σ μ ρ τ → Prop} {Q : Message μ ρ τ → Prop}

theorem Sys.All.idle (vars : σ) : (Sys.idle vars : Sys σ μ ρ τ).All P Q :=
  ⟨fun _ _ h => (nomatch h), fun _ _ h => (nomatch h)⟩

theorem Sys.All.of_update {p : Option (Context σ μ ρ τ)}
    (hc : s'.contexts = Function.update s.contexts t p)
    (hr : ∀ u c, u ≠ t → s.contexts u = some c → P c) (hp : ∀ c, p = some c → P c)
    (hw : ∀ w e, s'.wire w = some e → Q e) : s'.All P Q := by
  refine ⟨fun u c hu => ?_, hw⟩
  rw [hc] at hu
  rcases eq_or_ne u t with rfl | hne
  · rw [Function.update_self] at hu
    exact hp c hu
  · rw [Function.update_of_ne hne] at hu
    exact hr u c hne hu

theorem Sys.All.update (h : s.All P Q) {p : Option (Context σ μ ρ τ)}
    (hc : s'.contexts = Function.update s.contexts t p) (hw : s'.wire = s.wire)
    (hp : ∀ c, p = some c → P c) : s'.All P Q :=
  .of_update hc (fun u c _ => h.running u c) hp fun w e he => h.waiting w e (hw ▸ he)

theorem Sys.All.exchange (h : s.All P Q) {p : Option (Context σ μ ρ τ)}
    {q : Option (Message μ ρ τ)} (hc : s'.contexts = Function.update s.contexts t p)
    (hw : s'.wire = Function.update s.wire w q) (hp : ∀ c, p = some c → P c)
    (hq : ∀ e, q = some e → Q e) : s'.All P Q := by
  refine .of_update hc (fun u c _ => h.running u c) hp fun v e hv => ?_
  rw [hw] at hv
  rcases eq_or_ne v w with rfl | hne
  · rw [Function.update_self] at hv
    exact hq e hv
  · rw [Function.update_of_ne hne] at hv
    exact h.waiting v e hv

end Everyone

end Lib.Async
