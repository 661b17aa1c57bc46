import KernelLoader.Lib.Async

namespace Lib.Async
open Lib
set_option autoImplicit true
set_option relaxedAutoImplicit false

/-- A request on its way, with the variables it was sent in. -/
structure Flight (σ ρ : Type) where
  request : ρ
  sent : σ

/-- The variables between two calls, and the request that is on its way. -/
structure Whole (σ ρ : Type) where
  vars : σ
  flight : Option (Flight σ ρ)

/-- Code without locks that is run as a whole. A request is accepted only if nothing else is on its
way. -/
def Prog.whole (d : Driver σ Empty ρ τ) (accept : Bool) (input : Int) :
    Prog σ Empty ρ → Whole σ ρ → Whole σ ρ
  | .ret _, s => s
  | .act f k, s => k.whole d accept input { s with vars := f s.vars }
  | .read v k, s => (k (v s.vars)).whole d accept input s
  | .input k, s => (k input).whole d accept input s
  | .lock m _ _, _ => nomatch m
  | .unlock m _, _ => nomatch m
  | .request q k, s =>
    if accept && s.flight.isNone then
      (k true).whole d accept input
        ⟨d.accepted (q s.vars) s.vars, some ⟨q s.vars, s.vars⟩⟩
    else (k false).whole d accept input s
  | .notify _ k, s => k.whole d accept input s

/-- A call or the completion of the request on its way, each as one step. -/
inductive Event (τ : Type)
  | call (call : τ) (accept : Bool) (input : Int)
  | complete (answer : Int) (accept : Bool) (input : Int)

def Driver.atomic (d : Driver σ Empty ρ τ) (s : Whole σ ρ) : Event τ → Option (Whole σ ρ)
  | .call call accept input => some ((d.body call).whole d accept input s)
  | .complete answer accept input =>
    s.flight.map fun f =>
      (d.callback f.request).whole d accept input ⟨d.answered f.request answer s.vars, none⟩

/-- Whatever is stored to the variables meets a relation. -/
def Prog.Stores (R : σ → σ → Prop) : Prog σ μ ρ → Prop
  | .ret _ => True
  | .act f k => (∀ s, R s (f s)) ∧ k.Stores R
  | .read _ k => ∀ x, (k x).Stores R
  | .input k => ∀ x, (k x).Stores R
  | .lock _ _ k => ∀ ok, (k ok).Stores R
  | .unlock _ k => k.Stores R
  | .request _ k => ∀ ok, (k ok).Stores R
  | .notify _ k => k.Stores R

theorem Prog.stores_acts {R : σ → σ → Prop} {fs : List (σ → σ)} {k : Prog σ μ ρ} :
    (Prog.acts fs k).Stores R ↔ (∀ f ∈ fs, ∀ s, R s (f s)) ∧ k.Stores R := by
  induction fs with
  | nil => simp [Prog.acts]
  | cons f fs ih =>
    rw [List.forall_mem_cons, and_assoc, ← ih]
    rfl

variable {d : Driver σ Empty ρ τ}

/-- What a whole run leaves: variables that are related to those before, and the same request on its
way or a new one, sent in related variables. -/
theorem Prog.Stores.whole {R : σ → σ → Prop} {p : Prog σ Empty ρ} (h : p.Stores R)
    (hrefl : ∀ s, R s s) (htrans : ∀ a b c, R a b → R b c → R a c)
    (haccepted : ∀ q s, R s (d.accepted q s)) (accept : Bool) (input : Int) (s : Whole σ ρ) :
    R s.vars (p.whole d accept input s).vars ∧
      ((p.whole d accept input s).flight = s.flight ∨
        ∃ f, (p.whole d accept input s).flight = some f ∧ R s.vars f.sent) := by
  induction p generalizing s with
  | ret r => exact ⟨hrefl _, .inl rfl⟩
  | act f k ih =>
    obtain ⟨hstore, hk⟩ := h
    obtain ⟨hvars, hflight⟩ := ih hk { s with vars := f s.vars }
    refine ⟨htrans _ _ _ (hstore s.vars) hvars, hflight.imp_right ?_⟩
    rintro ⟨f', hf, hsent⟩
    exact ⟨f', hf, htrans _ _ _ (hstore s.vars) hsent⟩
  | read v k ih => exact ih _ (h _) s
  | input k ih => exact ih _ (h _) s
  | lock m => exact m.elim
  | unlock m => exact m.elim
  | request q k ih =>
    rw [Prog.whole]
    split
    · obtain ⟨hvars, hflight⟩ := ih true (h true) ⟨d.accepted (q s.vars) s.vars, some ⟨_, s.vars⟩⟩
      refine ⟨htrans _ _ _ (haccepted _ _) hvars, .inr ?_⟩
      rcases hflight with hflight | ⟨f, hf, hsent⟩
      · exact ⟨_, hflight, hrefl _⟩
      · exact ⟨f, hf, htrans _ _ _ (haccepted _ _) hsent⟩
    · exact ih false (h false) s
  | notify r k ih => exact ih h s

/-- The system at rest, with at most the message number 0 on its way. -/
structure Whole.At (w : Whole σ ρ) (s : Sys σ Empty ρ τ) : Prop where
  vars : s.vars = w.vars
  first : (s.wire 0).map (·.request) = w.flight.map (·.request)
  others : ∀ i ≠ 0, s.wire i = none

theorem Prog.whole_runs (p : Prog σ Empty ρ) (accept : Bool) (input : Int) {w : Whole σ ρ}
    {s : Sys σ Empty ρ τ} {c : Context σ Empty ρ τ} (hw : w.At s) (hc : s.contexts t = some c)
    (hp : c.prog = p) :
    ∃ as s', d.run (fun _ _ => true) s as = some s' ∧ (p.whole d accept input w).At s' ∧
      s'.contexts = Function.update s.contexts t none := by
  -- a statement, and then the run of the code that is left
  have hnext {s s₁ : Sys σ Empty ρ τ} {ch : Choice} {w' : Whole σ ρ} {o}
      (hstep : d.step s (.run t ch) = some s₁) (ho : s₁.contexts = Function.update s.contexts t o)
      (h : ∃ as s', d.run (fun _ _ => true) s₁ as = some s' ∧ w'.At s' ∧
        s'.contexts = Function.update s₁.contexts t none) :
      ∃ as s', d.run (fun _ _ => true) s as = some s' ∧ w'.At s' ∧
        s'.contexts = Function.update s.contexts t none := by
    obtain ⟨as, s', hrun, hw', hcontexts⟩ := h
    refine ⟨.run t ch :: as, s', ?_, hw', ?_⟩
    · rw [Driver.run, if_pos rfl, hstep, Option.bind_some, hrun]
    · rw [hcontexts, ho, Function.update_idem]
  induction p generalizing w s c with
  | ret r =>
    refine ⟨[.run t ⟨0, none⟩], (s.finish c r).setContext t none, ?_, ?_, ?_⟩
    · simp [Driver.run, Driver.step, hc, Driver.exec, hp]
    · refine ⟨?_, ?_, ?_⟩
      · simpa [Sys.setContext, Prog.whole] using hw.vars
      · simpa [Sys.setContext, Prog.whole] using hw.first
      · simpa [Sys.setContext] using hw.others
    · simp [Sys.setContext]
  | act f k ih =>
    have hstep : d.step s (.run t ⟨0, none⟩) =
        some ({ s with vars := f s.vars }.setContext t (some { c with prog := k })) := by
      simp [Driver.step, hc, Driver.exec, hp]
    refine hnext hstep rfl (ih (w := { w with vars := f w.vars }) ?_ (Function.update_self ..) rfl)
    exact ⟨congrArg f hw.vars, hw.first, hw.others⟩
  | read v k ih =>
    have hstep : d.step s (.run t ⟨0, none⟩) =
        some (s.setContext t (some { c with prog := k (v s.vars) })) := by
      simp [Driver.step, hc, Driver.exec, hp]
    refine hnext hstep rfl (ih (v w.vars) ?_ (Function.update_self ..) ?_)
    · exact ⟨hw.vars, hw.first, hw.others⟩
    · rw [hw.vars]
  | input k ih =>
    have hstep : d.step s (.run t ⟨input, none⟩) =
        some (s.setContext t (some { c with prog := k input })) := by
      simp [Driver.step, hc, Driver.exec, hp]
    refine hnext hstep rfl (ih input ?_ (Function.update_self ..) rfl)
    exact ⟨hw.vars, hw.first, hw.others⟩
  | lock m => exact m.elim
  | unlock m => exact m.elim
  | request q k ih =>
    rw [Prog.whole]
    split
    · rename_i hok
      have hnone : w.flight = none := Option.isNone_iff_eq_none.mp (Bool.and_eq_true_iff.mp hok).2
      have hfree : s.wire 0 = none := by
        have hfirst := hw.first
        rw [hnone] at hfirst
        exact Option.map_eq_none_iff.mp hfirst
      have hstep : d.step s (.run t ⟨0, some 0⟩) =
          some (({ s with vars := d.accepted (q s.vars) s.vars }.setContext t
            (some { c with prog := k true, owned := ∅, owes := false })).setMessage 0
              (some ⟨q s.vars, c.call, c.id, c.owned, c.owes⟩)) := by
        simp [Driver.step, hc, Driver.exec, hp, hfree]
      refine hnext hstep rfl (ih true ?_ (Function.update_self ..) rfl)
      refine ⟨?_, ?_, fun i hi => ?_⟩
      · rw [← hw.vars]
        rfl
      · rw [← hw.vars]
        simp [Sys.setMessage]
      · simpa [Sys.setContext, Sys.setMessage, hi] using hw.others i hi
    · have hstep : d.step s (.run t ⟨0, none⟩) =
          some (s.setContext t (some { c with prog := k false })) := by
        simp [Driver.step, hc, Driver.exec, hp]
      refine hnext hstep rfl (ih false ?_ (Function.update_self ..) rfl)
      exact ⟨hw.vars, hw.first, hw.others⟩
  | notify r k ih =>
    have hstep : d.step s (.run t ⟨0, none⟩) =
        some ((s.tell c.id).setContext t (some { c with prog := k, owes := false })) := by
      simp [Driver.step, hc, Driver.exec, hp]
    refine hnext hstep rfl (ih ?_ (Function.update_self ..) rfl)
    exact ⟨hw.vars, hw.first, hw.others⟩

/-- What happens in one step can happen statement by statement. -/
theorem Driver.atomic_runs {w w' : Whole σ ρ} {e : Event τ} {s : Sys σ Empty ρ τ}
    (h : d.atomic w e = some w') (hw : w.At s) (hidle : ∀ t, s.contexts t = none) :
    ∃ as s', d.run (fun _ _ => true) s as = some s' ∧ w'.At s' ∧ ∀ t, s'.contexts t = none := by
  -- a step that puts code in context 0, and then the run of the code
  have hcode {p : Prog σ Empty ρ} {a : Action τ} {accept : Bool} {input : Int} {w₁ : Whole σ ρ}
      {s₁ : Sys σ Empty ρ τ} {c : Context σ Empty ρ τ} (hstep : d.step s a = some s₁)
      (hc : s₁.contexts = Function.update s.contexts 0 (some c)) (hp : c.prog = p)
      (hw₁ : w₁.At s₁) :
      ∃ as s', d.run (fun _ _ => true) s as = some s' ∧ (p.whole d accept input w₁).At s' ∧
        ∀ t, s'.contexts t = none := by
    have hc0 : s₁.contexts 0 = some c := by rw [hc, Function.update_self]
    obtain ⟨as, s', hrun, hw', hcontexts⟩ := p.whole_runs accept input (d := d) hw₁ hc0 hp
    refine ⟨a :: as, s', ?_, hw', fun t => ?_⟩
    · rw [Driver.run, if_pos rfl, hstep, Option.bind_some, hrun]
    · rw [hcontexts, hc, Function.update_idem]
      by_cases ht : t = 0
      · rw [ht, Function.update_self]
      · rw [Function.update_of_ne ht, hidle t]
  cases e with
  | call call accept input =>
    cases h
    have hstep : d.step s (.start 0 call) = some ({ s with next := s.next + 1 }.setContext 0
        (some ⟨d.body call, call, s.next, false, ∅, true⟩)) := by
      simp [Driver.step, hidle 0]
    exact hcode hstep rfl rfl ⟨hw.vars, hw.first, hw.others⟩
  | complete answer accept input =>
    obtain ⟨f, hf, rfl⟩ := Option.map_eq_some_iff.mp h
    have hfirst := hw.first
    rw [hf] at hfirst
    obtain ⟨e, he, hrequest⟩ := Option.map_eq_some_iff.mp hfirst
    have hrequest : e.request = f.request := hrequest
    have hstep : d.step s (.complete 0 0 answer) =
        some (({ s with vars := d.answered e.request answer s.vars }.setMessage 0 none).setContext 0
          (some ⟨d.callback e.request, e.call, e.id, true, e.owned, e.owes⟩)) := by
      simp [Driver.step, hidle 0, he]
    refine hcode hstep rfl (congrArg d.callback hrequest) ⟨?_, ?_, fun i hi => ?_⟩
    · rw [← hw.vars, ← hrequest]
      rfl
    · simp [Sys.setContext, Sys.setMessage]
    · simpa [Sys.setContext, Sys.setMessage, hi] using hw.others i hi

end Lib.Async
