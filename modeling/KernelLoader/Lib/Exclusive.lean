import KernelLoader.Lib.Locks
import Mathlib.Data.List.Basic

namespace Lib.Async
open Lib
set_option autoImplicit true
set_option relaxedAutoImplicit false

/-- Code that changes the variables and sends requests only while it owns the lock `m`, and that
returns `busy` at once if it does not get it. If it owns it, the second argument is the value of the
variables, which nobody else can change. The variables satisfy `I` throughout, and a request that is
sent satisfies `Q`. -/
def Prog.Exclusive (m : μ) (busy : Int) (I : σ → Prop) (Q : σ → ρ → Prop) :
    Prog σ μ ρ → Option σ → Prop
  | .ret _, _ => True
  | .act f k, some s => I (f s) ∧ k.Exclusive m busy I Q (some (f s))
  | .act _ _, none => False
  | .read v k, some s => (k (v s)).Exclusive m busy I Q (some s)
  | .read _ k, none => ∀ x, (k x).Exclusive m busy I Q none
  | .input k, o => ∀ x, (k x).Exclusive m busy I Q o
  | .lock _ _ _, some _ => False
  | .lock m' _ k, none =>
    m' = m ∧ k false = .ret busy ∧ ∀ s, I s → (k true).Exclusive m busy I Q (some s)
  | .unlock m' k, some _ => m' = m ∧ k.Exclusive m busy I Q none
  | .unlock _ _, none => False
  | .request q k, some s =>
    Q s (q s) ∧ (k true).Exclusive m busy I Q none ∧ (k false).Exclusive m busy I Q (some s)
  | .request _ _, none => False
  | .notify _ k, o => k.Exclusive m busy I Q o

section Code
variable {m : μ} {busy : Int} {I : σ → Prop} {Q : σ → ρ → Prop} {s : Sys σ μ ρ τ} {ch : Choice}
variable {p p' : Prog σ μ ρ} {vars : σ}

theorem Prog.Exclusive.ite {b : Prop} [Decidable b] {o : Option σ} (h : p.Exclusive m busy I Q o)
    (h' : p'.Exclusive m busy I Q o) : (if b then p else p').Exclusive m busy I Q o := by
  split
  · exact h
  · exact h'

theorem Prog.exclusive_acts {fs : List (σ → σ)} (hI : fs.Forall fun f => ∀ s, I s → I (f s))
    (hs : I vars)
    (hk : I (fs.foldl (fun s f => f s) vars) →
      p.Exclusive m busy I Q (some (fs.foldl (fun s f => f s) vars))) :
    (Prog.acts fs p).Exclusive m busy I Q (some vars) := by
  induction fs generalizing vars with
  | nil => exact hk hs
  | cons f fs ih =>
    obtain ⟨hf, hfs⟩ := List.forall_cons _ _ _ |>.mp hI
    exact ⟨hf vars hs, ih hfs (hf vars hs) hk⟩

theorem Prog.Exclusive.mono {Q' : σ → ρ → Prop} {o : Option σ} (h : p.Exclusive m busy I Q o)
    (hQ : ∀ s q, Q s q → Q' s q) : p.Exclusive m busy I Q' o := by
  induction p generalizing o with
  | ret r => trivial
  | act f k ih =>
    cases o with
    | none => exact h
    | some vars => exact ⟨h.1, ih h.2⟩
  | read v k ih =>
    cases o with
    | none => exact fun x => ih x (h x)
    | some vars => exact ih _ h
  | input k ih => exact fun x => ih x (h x)
  | lock m' v k ih =>
    cases o with
    | none => exact ⟨h.1, h.2.1, fun vars hvars => ih true (h.2.2 vars hvars)⟩
    | some vars => exact h
  | unlock m' k ih =>
    cases o with
    | none => exact h
    | some vars => exact ⟨h.1, ih h.2⟩
  | request q k ih =>
    cases o with
    | none => exact h
    | some vars => exact ⟨hQ _ _ h.1, ih true h.2.1, ih false h.2.2⟩
  | notify r k ih => exact ih h

theorem Prog.Exclusive.quiet_inside (h : p.Exclusive m busy I Q (some s.vars)) (hI : I s.vars)
    (hq : Quiet s ch p p' vars) : I vars ∧ p'.Exclusive m busy I Q (some vars) := by
  cases hq with
  | act => exact h
  | read => exact ⟨hI, h⟩
  | input => exact ⟨hI, h _⟩
  | busy _ => exact h.elim
  | refused => exact ⟨hI, h.2.2⟩

theorem Prog.Exclusive.quiet_outside (h : p.Exclusive m busy I Q none) (hq : Quiet s ch p p' vars) :
    vars = s.vars ∧ p'.Exclusive m busy I Q none := by
  cases hq with
  | act => exact h.elim
  | read => exact ⟨rfl, h _⟩
  | input => exact ⟨rfl, h _⟩
  | busy _ =>
    rw [h.2.1]
    exact ⟨rfl, trivial⟩
  | refused => exact h.elim

end Code

/-- What a context knows of the variables: their value if it owns the lock. -/
def known [DecidableEq μ] (m : μ) (owned : Finset μ) (vars : σ) : Option σ :=
  if m ∈ owned then some vars else none

section Runs
variable [DecidableEq μ] {m : μ} {busy : Int} {I : σ → Prop} {Q : τ → σ → ρ → Prop}
variable {d : Driver σ μ ρ τ} {s s' : Sys σ μ ρ τ} {c c' : Context σ μ ρ τ} {t : Nat}

/-- Every context respects the lock, and the variables are as the request on its way left them. -/
structure Sys.Exclusive (m : μ) (busy : Int) (I : σ → Prop) (Q : τ → σ → ρ → Prop)
    (s : Sys σ μ ρ τ) : Prop where
  inv : I s.vars
  code : s.All (fun c => c.prog.Exclusive m busy I (Q c.call) (known m c.owned s.vars))
    (fun e => m ∈ e.owned ∧ Q e.call s.vars e.request)

theorem Sys.Exclusive.goOn (h : s.Exclusive m busy I Q) {p : Option (Context σ μ ρ τ)}
    (hc : s'.contexts = Function.update s.contexts t p) (hw : s'.wire = s.wire)
    (hv : s'.vars = s.vars)
    (hp : ∀ c, p = some c → c.prog.Exclusive m busy I (Q c.call) (known m c.owned s.vars)) :
    s'.Exclusive m busy I Q := by
  constructor
  · rw [hv]
    exact h.inv
  · rw [hv]
    exact h.code.update hc hw hp

/-- Only the owner changes the variables, and what the others do does not depend on them. -/
theorem Sys.Exclusive.act (h : s.Exclusive m busy I Q) (hl : s.LocksOwned)
    (hc : s.contexts t = some c) (hm : m ∈ c.owned) {vars : σ} {p : Prog σ μ ρ} (hI : I vars)
    (hk : p.Exclusive m busy I (Q c.call) (some vars)) :
    ({ s with vars := vars }.setContext t (some { c with prog := p })).Exclusive m busy I Q := by
  have hmine : m ∈ s.owned (.context t) := by
    rw [Sys.owned_context hc]
    exact hm
  refine ⟨hI, .of_update rfl (fun u c' hu hc' => ?_) (fun c' hc' => ?_) fun w e he => ?_⟩
  · have hnot : m ∉ c'.owned := fun hm' => by
      have htheirs : m ∈ s.owned (.context u) := by
        rw [Sys.owned_context (s := s) hc']
        exact hm'
      exact hu (Owner.context.inj (hl.single _ _ _ htheirs hmine))
    have hother := h.code.running u c' hc'
    rw [known, if_neg hnot] at hother ⊢
    exact hother
  · cases hc'
    rw [known, if_pos hm]
    exact hk
  · have htheirs : m ∈ s.owned (.message w) := by
      rw [Sys.owned_message (s := s) he]
      exact (h.code.waiting w e he).1
    exact Owner.noConfusion (hl.single _ _ _ htheirs hmine)

theorem Sys.Exclusive.ran (h : s.Exclusive m busy I Q) (hl : s.LocksOwned)
    (hacc : ∀ call vars q, Q call vars q → d.accepted q vars = vars)
    (hc : s.contexts t = some c) {ch : Choice} (hr : d.Ran s t c ch s') :
    s'.Exclusive m busy I Q := by
  have hk : c.prog.Exclusive m busy I (Q c.call) (known m c.owned s.vars) := h.code.running t c hc
  unfold known at hk
  cases hr with
  | quiet hq =>
    by_cases hm : m ∈ c.owned
    · rw [if_pos hm] at hk
      obtain ⟨hI, hp⟩ := hk.quiet_inside h.inv hq
      exact h.act hl hc hm hI hp
    · rw [if_neg hm] at hk
      obtain ⟨rfl, hp⟩ := hk.quiet_outside hq
      refine h.goOn rfl rfl rfl fun c' hc' => ?_
      cases hc'
      rw [known, if_neg hm]
      exact hp
  | ret _ =>
    refine h.goOn (t := t) (p := none) ?_ ?_ ?_ fun c' hc' => (nomatch hc')
    · rw [Sys.setContext, Sys.finish_contexts]
    · rw [Sys.setContext, Sys.finish_wire]
    · rw [Sys.setContext, Sys.finish_vars]
  | @lock m' v k hp hfree =>
    rw [hp] at hk
    split_ifs at hk
    · exact hk.elim
    obtain ⟨rfl, -, hinside⟩ := hk
    refine h.goOn rfl rfl rfl fun c' hc' => ?_
    cases hc'
    rw [known, if_pos (Finset.mem_insert_self m' c.owned)]
    exact hinside _ h.inv
  | @unlock m' k hp =>
    rw [hp] at hk
    split_ifs at hk
    · obtain ⟨rfl, hout⟩ := hk
      refine h.goOn rfl rfl rfl fun c' hc' => ?_
      cases hc'
      rw [known, if_neg (Finset.notMem_erase m' c.owned)]
      exact hout
    · exact hk.elim
  | @sent q k w hp hw =>
    rw [hp] at hk
    split_ifs at hk with hm
    · obtain ⟨hQ, hout, -⟩ := hk
      have hvars : d.accepted (q s.vars) s.vars = s.vars := hacc c.call s.vars _ hQ
      constructor
      · change I (d.accepted (q s.vars) s.vars)
        rw [hvars]
        exact h.inv
      · rw [hvars]
        refine h.code.exchange rfl rfl ?_ ?_
        · intro c' hc'
          cases hc'
          rw [known, if_neg (Finset.notMem_empty m)]
          exact hout
        · intro e he
          cases he
          exact ⟨hm, hQ⟩
    · exact hk.elim
  | notify hp =>
    rw [hp] at hk
    refine h.goOn rfl rfl rfl fun c' hc' => ?_
    cases hc'
    exact hk

theorem Sys.Exclusive.outside (h : s.Exclusive m busy I Q) (hc : s.contexts t = some c)
    (hm : m ∉ c.owned) {ch : Choice} (hs : d.step s (.run t ch) = some s') : s'.vars = s.vars := by
  have hk := h.code.running t c hc
  rw [known, if_neg hm] at hk
  cases Driver.step_stepped hs with
  | run hc' hr =>
    cases hc.symm.trans hc'
    cases hr with
    | quiet hq => exact (hk.quiet_outside hq).1
    | ret _ => exact Sys.finish_vars s c _
    | lock _ _ => rfl
    | unlock _ => rfl
    | sent hp _ =>
      rw [hp] at hk
      exact hk.elim
    | notify _ => rfl

theorem Sys.Exclusive.rejected (h : s.Exclusive m busy I Q) (hc : s.contexts t = some c)
    (hp : c.prog = .lock m' v k) (hm : s.locks m' ≠ 0) {ch : Choice}
    (hs : d.step s (.run t ch) = some s') :
    s'.contexts t = some { c with prog := .ret busy } := by
  have hk := h.code.running t c hc
  have hbusy : k false = .ret busy := by
    rw [hp, known] at hk
    split_ifs at hk
    · exact hk.elim
    · exact hk.2.1
  have hstep : d.step s (.run t ch) = some (s.setContext t (some { c with prog := k false })) := by
    simp [Driver.step, hc, Driver.exec, hp, hm]
  rw [hstep, hbusy] at hs
  cases hs
  exact Function.update_self _ _ _

variable {guard : ρ → Option (Finset μ)}

/-- If all code respects the lock, then in every state the variables satisfy `I`, and a request on
its way satisfies `Q` with them. -/
theorem Driver.Reaches.exclusive {init : σ → Prop} {ok : Sys σ μ ρ τ → Action τ → Bool}
    (hr : d.Reaches init ok s) (hinit : ∀ vars, init vars → I vars)
    (hkeeps : ∀ s t call, ok s (.start t call) → (d.body call).Keeps guard ∅)
    (hbackKeeps : ∀ q o, guard q = some o → (d.callback q).Keeps guard o)
    (hbody : ∀ s t call, ok s (.start t call) → (d.body call).Exclusive m busy I (Q call) none)
    (hback : ∀ call vars q, I vars → Q call vars q →
      (d.callback q).Exclusive m busy I (Q call) (some vars))
    (hacc : ∀ call vars q, Q call vars q → d.accepted q vars = vars)
    (hans : ∀ call vars q x, Q call vars q → d.answered q x vars = vars) :
    s.Disciplined guard ∧ s.Exclusive m busy I Q := by
  refine Reach.invariant (I := fun s => s.Disciplined guard ∧ s.Exclusive m busy I Q) hr ?_ ?_
  · rintro s₀ ⟨vars, hvars, rfl⟩
    exact ⟨.idle vars, hinit vars hvars, .idle vars⟩
  rintro s a s' ⟨hd, he⟩ hok hs
  have hstep : d.Stepped s a s' := Driver.step_stepped hs
  refine ⟨hd.step hstep (fun t call ha => hkeeps s t call (ha ▸ hok)) hbackKeeps, ?_⟩
  cases hstep with
  | @start t call hc =>
    refine he.goOn rfl rfl rfl fun c hc' => ?_
    cases hc'
    rw [known, if_neg (Finset.notMem_empty m)]
    exact hbody s t call hok
  | run hc hran => exact he.ran hd.locks hacc hc hran
  | @complete t w e x hc hw =>
    obtain ⟨hm, hQ⟩ := he.code.waiting w e hw
    have hvars : d.answered e.request x s.vars = s.vars := hans e.call s.vars _ x hQ
    constructor
    · change I (d.answered e.request x s.vars)
      rw [hvars]
      exact he.inv
    · rw [hvars]
      refine he.code.exchange (q := none) rfl rfl ?_ fun e' he' => (nomatch he')
      intro c' hc'
      cases hc'
      rw [known, if_pos hm]
      exact hback e.call s.vars e.request he.inv hQ

end Runs

end Lib.Async
