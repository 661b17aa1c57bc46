import KernelLoader.Lib.Owned

namespace Lib.Async
open Lib
set_option autoImplicit true
set_option relaxedAutoImplicit false

/-- The locks of everyone. -/
def Sys.owned (s : Sys σ μ ρ τ) : Owner → Finset μ := s.holdings Context.owned Message.owned

/-- A lock is taken exactly while one context or request owns it. -/
def Sys.LocksOwned (s : Sys σ μ ρ τ) : Prop := Owned (fun m => s.locks m ≠ 0) s.owned

theorem Sys.idle_locksOwned (vars : σ) : (Sys.idle vars : Sys σ μ ρ τ).LocksOwned := by
  rw [LocksOwned, owned, holdings_idle]
  exact Owned.empty.congr fun m => by simp [idle]

section Locks
variable {d : Driver σ μ ρ τ} {s s' : Sys σ μ ρ τ} {c : Context σ μ ρ τ} {t : Nat}

theorem Sys.owned_context (hc : s.contexts t = some c) : s.owned (.context t) = c.owned :=
  holdings_context hc

theorem Sys.owned_message (hw : s.wire w = some e) : s.owned (.message w) = e.owned :=
  holdings_message hw

/-- A context may give up only locks it owns, and none is left when it ends. -/
def Context.Permitted (c : Context σ μ ρ τ) : Prop :=
  match c.prog with
  | .ret _ => c.owned = ∅
  | .lock _ v _ => v ≠ 0
  | .unlock m _ => m ∈ c.owned
  | _ => True

variable [DecidableEq μ]

theorem Sys.LocksOwned.ran (h : s.LocksOwned) (hc : s.contexts t = some c) (hp : c.Permitted)
    {ch : Choice} (hr : d.Ran s t c ch s') : s'.LocksOwned := by
  unfold Context.Permitted at hp
  have hown : c.owned = s.owned (.context t) := (Sys.owned_context hc).symm
  cases hr with
  | quiet _ => exact Owned.keep h rfl rfl hown fun _ => Iff.rfl
  | @ret r hprog =>
    rw [hprog] at hp
    have hlocks : ∀ m, ((s.finish c r).setContext t none).locks m ≠ 0 ↔ s.locks m ≠ 0 := by
      simp [Sys.setContext]
    refine Owned.keep h (t := t) (p := none) ?_ ?_ (hp.symm.trans hown) hlocks
    · rw [Sys.setContext, Sys.finish_contexts]
    · rw [Sys.setContext, Sys.finish_wire]
  | @lock m v k hprog hfree =>
    rw [hprog] at hp
    refine Owned.take h (x := m) (not_not.mpr hfree) rfl rfl (congrArg (insert m) hown) fun x => ?_
    rcases eq_or_ne x m with rfl | hne
    · simp [Sys.setContext, hp]
    · simp [Sys.setContext, hne]
  | @unlock m k hprog =>
    rw [hprog] at hp
    have hmine : m ∈ s.owned (.context t) := by
      rw [← hown]
      exact hp
    refine Owned.giveUp h hmine rfl rfl (congrArg (Finset.erase · m) hown) fun x => ?_
    rcases eq_or_ne x m with rfl | hne
    · simp [Sys.setContext]
    · simp [Sys.setContext, hne]
  | sent _ hw => exact Owned.send h hc hw rfl rfl rfl rfl fun _ => Iff.rfl
  | notify _ => exact Owned.keep h rfl rfl hown fun _ => Iff.rfl

theorem Sys.LocksOwned.step (h : s.LocksOwned) {a : Action τ} (hs : d.Stepped s a s')
    (hp : ∀ t c, s.contexts t = some c → c.Permitted) : s'.LocksOwned := by
  cases hs with
  | start hc =>
    have hnone : ∅ = s.owned (.context _) := (Sys.holdings_no_context hc).symm
    exact Owned.keep h rfl rfl hnone fun _ => Iff.rfl
  | run hc hr => exact h.ran hc (hp _ _ hc) hr
  | complete hc hw => exact Owned.receive h hc hw rfl rfl rfl fun _ => Iff.rfl

/-- Code that gives up the locks it has taken and no others: on every path it has none left when it
returns, and a request takes over those of `guard`; without those it may not be sent. -/
def Prog.Keeps (guard : ρ → Option (Finset μ)) : Prog σ μ ρ → Finset μ → Prop
  | .ret _, o => o = ∅
  | .act _ k, o => k.Keeps guard o
  | .read _ k, o => ∀ x, (k x).Keeps guard o
  | .input k, o => ∀ x, (k x).Keeps guard o
  | .lock m v k, o => v ≠ 0 ∧ (k true).Keeps guard (insert m o) ∧ (k false).Keeps guard o
  | .unlock m k, o => m ∈ o ∧ k.Keeps guard (o.erase m)
  | .request q k, o =>
    (∀ s, guard (q s) = some o) ∧ (k true).Keeps guard ∅ ∧ (k false).Keeps guard o
  | .notify _ k, o => k.Keeps guard o

variable {guard : ρ → Option (Finset μ)}

@[simp] theorem Prog.keeps_acts (fs : List (σ → σ)) (k : Prog σ μ ρ) (o : Finset μ) :
    (Prog.acts fs k).Keeps guard o ↔ k.Keeps guard o := by
  induction fs with
  | nil => rfl
  | cons f fs ih => exact ih

theorem Prog.Keeps.ite {b : Prop} [Decidable b] {p p' : Prog σ μ ρ} (h : p.Keeps guard o)
    (h' : p'.Keeps guard o) : (if b then p else p').Keeps guard o := by
  split
  · exact h
  · exact h'

theorem Prog.Keeps.permitted (h : c.prog.Keeps guard c.owned) : c.Permitted := by
  unfold Context.Permitted
  cases hp : c.prog with
  | ret r => rw [hp] at h; exact h
  | lock m v k => rw [hp] at h; exact h.1
  | unlock m k => rw [hp] at h; exact h.1
  | act f k => trivial
  | read v k => trivial
  | input k => trivial
  | request q k => trivial
  | notify r k => trivial

theorem Prog.Keeps.quiet {p p' : Prog σ μ ρ} (h : p.Keeps guard o) {ch : Choice} {vars : σ}
    (hq : Quiet s ch p p' vars) : p'.Keeps guard o := by
  cases hq with
  | act => exact h
  | read => exact h _
  | input => exact h _
  | busy _ => exact h.2.2
  | refused => exact h.2.2

/-- Every context is going to give up its locks, and so is the code that will handle a request. -/
structure Sys.Disciplined (guard : ρ → Option (Finset μ)) (s : Sys σ μ ρ τ) : Prop where
  locks : s.LocksOwned
  code : s.All (fun c => c.prog.Keeps guard c.owned) (fun e => guard e.request = some e.owned)

theorem Sys.Disciplined.idle (vars : σ) : (Sys.idle vars : Sys σ μ ρ τ).Disciplined guard :=
  ⟨Sys.idle_locksOwned vars, .idle vars⟩

theorem Sys.Disciplined.ran (h : s.Disciplined guard) (hc : s.contexts t = some c) {ch : Choice}
    (hr : d.Ran s t c ch s') :
    s'.All (fun c => c.prog.Keeps guard c.owned) (fun e => guard e.request = some e.owned) := by
  have hk : c.prog.Keeps guard c.owned := h.code.running t c hc
  cases hr with
  | quiet hq =>
    refine h.code.update rfl rfl fun c' hc' => ?_
    cases hc'
    exact hk.quiet hq
  | ret _ =>
    refine h.code.update (t := t) (p := none) ?_ ?_ fun c' hc' => (nomatch hc')
    · rw [Sys.setContext, Sys.finish_contexts]
    · rw [Sys.setContext, Sys.finish_wire]
  | lock hp _ =>
    rw [hp] at hk
    refine h.code.update rfl rfl fun c' hc' => ?_
    cases hc'
    exact hk.2.1
  | unlock hp =>
    rw [hp] at hk
    refine h.code.update rfl rfl fun c' hc' => ?_
    cases hc'
    exact hk.2
  | sent hp _ =>
    rw [hp] at hk
    refine h.code.exchange rfl rfl ?_ ?_
    · intro c' hc'
      cases hc'
      exact hk.2.1
    · intro e he
      cases he
      exact hk.1 _
  | notify hp =>
    rw [hp] at hk
    refine h.code.update rfl rfl fun c' hc' => ?_
    cases hc'
    exact hk

theorem Sys.Disciplined.step (h : s.Disciplined guard) {a : Action τ} (hs : d.Stepped s a s')
    (hbody : ∀ t call, a = .start t call → (d.body call).Keeps guard ∅)
    (hback : ∀ q o, guard q = some o → (d.callback q).Keeps guard o) : s'.Disciplined guard := by
  refine ⟨h.locks.step hs fun t c hc => (h.code.running t c hc).permitted, ?_⟩
  cases hs with
  | @start t call hc =>
    refine h.code.update rfl rfl fun c hc' => ?_
    cases hc'
    exact hbody t call rfl
  | run hc hran => exact h.ran hc hran
  | complete hc hw =>
    refine h.code.exchange rfl rfl ?_ ?_
    · intro c' hc'
      cases hc'
      exact hback _ _ (h.code.waiting _ _ hw)
    · intro e he
      cases he

/-- If every call and every completion gives up its locks, the locks are owned in all states. -/
theorem Driver.Reaches.disciplined {init : σ → Prop} {ok : Sys σ μ ρ τ → Action τ → Bool}
    (hr : d.Reaches init ok s)
    (hbody : ∀ s t call, ok s (.start t call) → (d.body call).Keeps guard ∅)
    (hback : ∀ q o, guard q = some o → (d.callback q).Keeps guard o) : s.Disciplined guard := by
  refine Reach.invariant hr ?_ fun s a s' h hok hs => ?_
  · rintro s₀ ⟨vars, -, rfl⟩
    exact .idle vars
  · refine h.step (Driver.step_stepped hs) (fun t call ha => ?_) hback
    subst ha
    exact hbody s t call hok

theorem Sys.Disciplined.unlock (h : s.Disciplined guard) (hc : s.contexts t = some c)
    (hp : c.prog = .unlock m k) : s.locks m ≠ 0 := by
  have hk : c.prog.Keeps guard c.owned := h.code.running t c hc
  rw [hp] at hk
  refine (h.locks.taken_iff m).mpr ⟨.context t, ?_⟩
  rw [Sys.owned_context hc]
  exact hk.1

end Locks

end Lib.Async
