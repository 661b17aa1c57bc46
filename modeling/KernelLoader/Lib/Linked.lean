import Mathlib.Logic.Function.Basic
import Mathlib.Data.List.Nodup

namespace Lib
set_option autoImplicit true
set_option relaxedAutoImplicit false

variable {P ι : Type} {null p : P} {node : ι → P} {next next' : ι → P} {i : ι} {l l' : List ι}

/-- The pointer leads along `next` through the nodes of the list to the null pointer. -/
def Linked (null : P) (node : ι → P) (next : ι → P) : P → List ι → Prop
  | p, [] => p = null
  | p, i :: l => p = node i ∧ Linked null node next (next i) l

namespace Linked

theorem congr (h : Linked null node next p l) (he : ∀ i ∈ l, next' i = next i) :
    Linked null node next' p l := by
  induction l generalizing p with
  | nil => exact h
  | cons i l ih =>
    obtain ⟨hp, hrest⟩ := h
    refine ⟨hp, ?_⟩
    rw [he i List.mem_cons_self]
    exact ih hrest fun j hj => he j (List.mem_cons_of_mem i hj)

theorem push (h : Linked null node next p l) (hi : next' i = p) (he : ∀ j ∈ l, next' j = next j) :
    Linked null node next' (node i) (i :: l) := by
  refine ⟨rfl, ?_⟩
  rw [hi]
  exact h.congr he

theorem eq_null_iff (h : Linked null node next p l) (hn : ∀ i ∈ l, node i ≠ null) :
    p = null ↔ l = [] := by
  cases l with
  | nil => exact iff_of_true h rfl
  | cons i l => exact iff_of_false (h.1 ▸ hn i List.mem_cons_self) (List.cons_ne_nil i l)

theorem exists_cons (h : Linked null node next p l) (hp : p ≠ null) :
    ∃ i l', l = i :: l' ∧ p = node i ∧ Linked null node next (next i) l' := by
  cases l with
  | nil => exact absurd h hp
  | cons i l => exact ⟨i, l, rfl, h.1, h.2⟩

theorem range' {node next : Nat → P} (a n : Nat)
    (hnext : ∀ i, a ≤ i → i < a + n → next i = node (i + 1)) (hlast : next (a + n) = null) :
    Linked null node next (node a) (List.range' a (n + 1)) := by
  induction n generalizing a with
  | zero => exact ⟨rfl, hlast⟩
  | succ n ih =>
    rw [List.range'_succ]
    refine ⟨rfl, ?_⟩
    rw [hnext a (Nat.le_refl a) (by omega)]
    apply ih
    · intro i hi hlt
      exact hnext i (by omega) (by omega)
    · have hcomm : a + 1 + n = a + (n + 1) := by omega
      rw [hcomm]
      exact hlast

end Linked

end Lib
