import KernelLoader.Lib.Async

namespace Lib.Async
open Lib
set_option autoImplicit true
set_option relaxedAutoImplicit false

def Prog.isRequest : Prog σ μ ρ → Bool
  | .request _ _ => true
  | _ => false

/-- Context `t` runs alone to its end, and nothing it asks for is accepted. The flag says whether it
has asked for something. -/
inductive Driver.Solo [DecidableEq μ] (d : Driver σ μ ρ τ) (t : Nat) :
    Sys σ μ ρ τ → Bool → Sys σ μ ρ τ → Prop
  | done : s.contexts t = none → Solo d t s false s
  | step {s s₁ s' : Sys σ μ ρ τ} {c : Context σ μ ρ τ} : s.contexts t = some c →
      d.step s (.run t ⟨x, none⟩) = some s₁ → Solo d t s₁ b s' →
      Solo d t s (c.prog.isRequest || b) s'

/-- At most `n` statements of context `t`, alone and without an input. -/
def Driver.solo [DecidableEq μ] (d : Driver σ μ ρ τ) (t : Nat) :
    Nat → Sys σ μ ρ τ → Option (Bool × Sys σ μ ρ τ)
  | 0, _ => none
  | n + 1, s =>
    match s.contexts t with
    | none => some (false, s)
    | some c =>
      (d.step s (.run t ⟨0, none⟩)).bind fun s₁ =>
        (d.solo t n s₁).map fun (b, s') => (c.prog.isRequest || b, s')

/-- The code comes to its end with the value `r` and the variables `s'`, if nothing it asks for is
accepted. -/
def Prog.Quits : Prog σ μ ρ → σ → Bool → Int → σ → Prop
  | .ret x, s, b, r, s' => b = false ∧ r = x ∧ s' = s
  | .act f k, s, b, r, s' => k.Quits (f s) b r s'
  | .read v k, s, b, r, s' => (k (v s)).Quits s b r s'
  | .input k, s, b, r, s' => ∃ x, (k x).Quits s b r s'
  | .lock _ _ k, s, b, r, s' => ∃ ok, (k ok).Quits s b r s'
  | .unlock _ k, s, b, r, s' => k.Quits s b r s'
  | .request _ k, s, b, r, s' => b = true ∧ ∃ b', (k false).Quits s b' r s'
  | .notify _ k, s, b, r, s' => k.Quits s b r s'

@[simp] theorem Prog.quits_acts {fs : List (σ → σ)} {k : Prog σ μ ρ} {s : σ} :
    (Prog.acts fs k).Quits s b r s' ↔ k.Quits (fs.foldl (fun s f => f s) s) b r s' := by
  induction fs generalizing s with
  | nil => rfl
  | cons f fs ih => exact ih

section Solo
variable [DecidableEq μ] {d : Driver σ μ ρ τ} {s s' : Sys σ μ ρ τ} {c : Context σ μ ρ τ} {t : Nat}

theorem Driver.solo_spec (h : d.solo t n s = some (b, s')) : d.Solo t s b s' := by
  induction n generalizing s b with
  | zero => cases h
  | succ n ih =>
    rw [Driver.solo] at h
    split at h
    · next hc =>
      cases h
      exact .done hc
    · next hc =>
      obtain ⟨s₁, hs, hrest⟩ := Option.bind_eq_some_iff.mp h
      obtain ⟨⟨b₁, s₂⟩, hsolo, heq⟩ := Option.map_eq_some_iff.mp hrest
      cases heq
      exact .step hc hs (ih hsolo)

theorem Driver.Solo.quits (h : d.Solo t s b s') (hc : s.contexts t = some c)
    (hcall : c.reply = false) :
    ∃ r, c.prog.Quits s.vars b r s'.vars ∧ (s'.outcomes c.id).returned = some r := by
  induction h generalizing c with
  | done hnone => exact (nomatch hnone.symm.trans hc)
  | @step x b s s₁ s' c₀ hc₀ hs hrest ih =>
    obtain rfl : c₀ = c := Option.some.inj (hc₀.symm.trans hc)
    simp only [Driver.step, hc, Driver.exec] at hs
    -- after its statement the context is the same call, with the code that is left
    have hnext : ∀ p o ω, s₁.contexts t = some { c₀ with prog := p, owned := o, owes := ω } →
        ∃ r, p.Quits s₁.vars b r s'.vars ∧ (s'.outcomes c₀.id).returned = some r :=
      fun p o ω h₁ => ih h₁ hcall
    cases hp : c₀.prog with
    | ret r =>
      rw [hp] at hs
      cases hs
      cases hrest with
      | done _ =>
        refine ⟨r, ⟨rfl, rfl, Sys.finish_vars s c₀ r⟩, ?_⟩
        simp [Sys.finish, hcall, Sys.setContext, Sys.setOutcome]
      | step hsome _ _ => simp [Sys.setContext] at hsome
    | act f k =>
      rw [hp] at hs
      cases hs
      exact hnext k c₀.owned c₀.owes (Function.update_self _ _ _)
    | read v k =>
      rw [hp] at hs
      cases hs
      exact hnext (k (v s.vars)) c₀.owned c₀.owes (Function.update_self _ _ _)
    | input k =>
      rw [hp] at hs
      cases hs
      obtain ⟨r, hk, hret⟩ := hnext _ c₀.owned c₀.owes (Function.update_self _ _ _)
      exact ⟨r, ⟨x, hk⟩, hret⟩
    | lock m v k =>
      simp only [hp] at hs
      split_ifs at hs
      · cases hs
        obtain ⟨r, hk, hret⟩ := hnext _ _ c₀.owes (Function.update_self _ _ _)
        exact ⟨r, ⟨true, hk⟩, hret⟩
      · cases hs
        obtain ⟨r, hk, hret⟩ := hnext _ c₀.owned c₀.owes (Function.update_self _ _ _)
        exact ⟨r, ⟨false, hk⟩, hret⟩
    | unlock m k =>
      rw [hp] at hs
      cases hs
      exact hnext k _ c₀.owes (Function.update_self _ _ _)
    | request q k =>
      rw [hp] at hs
      cases hs
      obtain ⟨r, hk, hret⟩ := hnext _ c₀.owned c₀.owes (Function.update_self _ _ _)
      exact ⟨r, ⟨rfl, b, hk⟩, hret⟩
    | notify x k =>
      rw [hp] at hs
      cases hs
      exact hnext k c₀.owned false (Function.update_self _ _ _)

theorem Driver.Solo.body {call : τ} (hs : d.step s (.start t call) = some s₁)
    (h : d.Solo t s₁ b s') :
    ∃ r, (d.body call).Quits s.vars b r s'.vars ∧ (s'.outcomes s.next).returned = some r := by
  cases Driver.step_stepped hs with
  | start _ => exact h.quits (Function.update_self _ _ _) rfl

end Solo

/-- A call that context `t` makes alone: the call, and `n` statements. A request is accepted as
message `w`. -/
def Driver.alone [DecidableEq μ] (d : Driver σ μ ρ τ) (s : Sys σ μ ρ τ) (t w : Nat) (call : τ)
    (n : Nat) : Option (Sys σ μ ρ τ) :=
  d.run (fun _ _ => true) s (.start t call :: .replicate n (.run t ⟨0, some w⟩))

section Alone
variable [DecidableEq μ] {d : Driver σ μ ρ τ} {s s' : Sys σ μ ρ τ} {c : Context σ μ ρ τ} {t : Nat}

theorem Driver.run_cons {a : Action τ} {as : List (Action τ)} (h : d.step s a = some s') :
    d.run (fun _ _ => true) s (a :: as) = d.run (fun _ _ => true) s' as := by
  rw [Driver.run, if_pos rfl, h, Option.bind_some]

theorem Driver.run_exec {ch : Choice} {as : List (Action τ)} (hc : s.contexts t = some c)
    (h : d.exec s t c ch = some s') :
    d.run (fun _ _ => true) s (.run t ch :: as) = d.run (fun _ _ => true) s' as := by
  apply run_cons
  rw [Driver.step, hc]
  exact h

theorem Driver.run_read {ch : Choice} {as : List (Action τ)} (hc : s.contexts t = some c)
    (hp : c.prog = .read v k) :
    d.run (fun _ _ => true) s (.run t ch :: as) =
      d.run (fun _ _ => true) (s.setContext t (some { c with prog := k (v s.vars) })) as := by
  apply run_exec hc
  rw [Driver.exec, hp]

theorem Driver.run_lock {ch : Choice} {as : List (Action τ)} (hc : s.contexts t = some c)
    (hp : c.prog = .lock m v k) (hfree : s.locks m = 0) :
    d.run (fun _ _ => true) s (.run t ch :: as) =
      d.run (fun _ _ => true) ({ s with locks := Function.update s.locks m v }.setContext t
        (some { c with prog := k true, owned := insert m c.owned })) as := by
  apply run_exec hc
  rw [Driver.exec, hp]
  exact if_pos hfree

theorem Driver.run_request {as : List (Action τ)} (hc : s.contexts t = some c)
    (hp : c.prog = .request q k) (hw : s.wire w = none) :
    d.run (fun _ _ => true) s (.run t ⟨x, some w⟩ :: as) =
      d.run (fun _ _ => true) (({ s with vars := d.accepted (q s.vars) s.vars }.setContext t
        (some { c with prog := k true, owned := ∅, owes := false })).setMessage w
          (some ⟨q s.vars, c.call, c.id, c.owned, c.owes⟩)) as := by
  apply run_exec hc
  rw [Driver.exec, hp]
  exact if_neg (by simp [hw])

theorem Driver.run_ret {ch : Choice} {as : List (Action τ)} (hc : s.contexts t = some c)
    (hp : c.prog = .ret r) :
    d.run (fun _ _ => true) s (.run t ch :: as) =
      d.run (fun _ _ => true) ((s.finish c r).setContext t none) as := by
  apply run_exec hc
  rw [Driver.exec, hp]

theorem Driver.run_acts {ch : Choice} {fs : List (σ → σ)} {k : Prog σ μ ρ}
    (hc : s.contexts t = some c) (hp : c.prog = .acts fs k) :
    d.run (fun _ _ => true) s (.replicate (fs.length + n) (.run t ch)) =
      d.run (fun _ _ => true)
        ({ s with vars := fs.foldl (fun x (f : σ → σ) => f x) s.vars }.setContext t
          (some { c with prog := k })) (.replicate n (.run t ch)) := by
  induction fs generalizing s c with
  | nil =>
    have hp : c.prog = k := hp
    subst hp
    have hsame : s.setContext t (some c) = s := by
      rw [Sys.setContext, ← hc, Function.update_eq_self]
    rw [List.length_nil, Nat.zero_add]
    exact congrArg (d.run _ · _) hsame.symm
  | cons f fs ih =>
    have hexec : d.exec s t c ch = some ({ s with vars := f s.vars }.setContext t
        (some { c with prog := .acts fs k })) := by
      rw [Driver.exec, hp]
      rfl
    rw [List.length_cons, Nat.add_right_comm, List.replicate_succ, run_exec hc hexec,
      ih (Function.update_self _ _ _) rfl]
    simp [Sys.setContext]

end Alone

end Lib.Async
