import Mathlib.Data.List.GetD
import Mathlib.Tactic.SplitIfs

namespace Lib
set_option autoImplicit true
set_option relaxedAutoImplicit false

/-- A bit is shifted into a register with feedback. The feedback is added if the bit differs from
the one that is shifted out. -/
def shiftIn (poly c : BitVec w) (b : Bool) : BitVec w :=
  if c.msb != b then (c <<< 1) ^^^ poly else c <<< 1

def shiftAll (poly c : BitVec w) (bits : List Bool) : BitVec w := bits.foldl (shiftIn poly) c

section
variable {w : Nat} {poly c d : BitVec w} {a b : Bool} {bits bits' : List Bool}

theorem shiftIn_eq (poly c : BitVec w) (b : Bool) :
    shiftIn poly c b = (c <<< 1) ^^^ (if c.msb ^^ b then poly else 0#w) := by
  unfold shiftIn
  cases c.msb <;> cases b <;> simp

theorem feedback_xor (poly : BitVec w) (a b : Bool) :
    (if a ^^ b then poly else 0#w) =
      (if a then poly else 0#w) ^^^ (if b then poly else 0#w) := by
  cases a <;> cases b <;> simp

theorem shiftIn_xor (poly c d : BitVec w) (a b : Bool) :
    shiftIn poly (c ^^^ d) (a ^^ b) = shiftIn poly c a ^^^ shiftIn poly d b := by
  have hbits : ((c ^^^ d).msb ^^ (a ^^ b)) = ((c.msb ^^ a) ^^ (d.msb ^^ b)) := by
    rw [BitVec.msb_xor]
    cases c.msb <;> cases d.msb <;> cases a <;> cases b <;> rfl
  rw [shiftIn_eq, shiftIn_eq, shiftIn_eq, hbits, feedback_xor, BitVec.shiftLeft_xor_distrib]
  ac_rfl

theorem shiftAll_xor (poly c d : BitVec w) (h : bits.length = bits'.length) :
    shiftAll poly (c ^^^ d) (List.zipWith xor bits bits') =
      shiftAll poly c bits ^^^ shiftAll poly d bits' := by
  induction bits generalizing c d bits' with
  | nil =>
    obtain rfl := List.length_eq_zero_iff.mp h.symm
    rfl
  | cons a bits ih =>
    cases bits' with
    | nil => cases h
    | cons b bits' =>
      simp only [List.zipWith_cons_cons, shiftAll, List.foldl_cons, shiftIn_xor]
      exact ih _ _ (Nat.succ.inj h)

theorem shiftAll_append (poly c : BitVec w) (bits bits' : List Bool) :
    shiftAll poly c (bits ++ bits') = shiftAll poly (shiftAll poly c bits) bits' :=
  List.foldl_append

theorem shiftIn_zero (poly : BitVec w) : shiftIn poly 0#w false = 0#w := by
  simp [shiftIn_eq]

theorem shiftAll_zero (poly : BitVec w) (h : ∀ b ∈ bits, b = false) :
    shiftAll poly 0#w bits = 0#w := by
  induction bits with
  | nil => rfl
  | cons b bits ih =>
    rw [shiftAll, List.foldl_cons, h b List.mem_cons_self, shiftIn_zero]
    exact ih fun b hb => h b (List.mem_cons_of_mem _ hb)

theorem shiftIn_even (hodd : poly.getLsbD 0 = true) (h : (shiftIn poly c b).getLsbD 0 = false) :
    c.msb = b ∧ shiftIn poly c b = c <<< 1 := by
  rw [shiftIn_eq, BitVec.getLsbD_xor, BitVec.getLsbD_shiftLeft] at h
  cases hb : c.msb ^^ b with
  | true =>
    rw [hb, if_pos rfl, hodd] at h
    simp at h
  | false =>
    refine ⟨by simpa using hb, ?_⟩
    rw [shiftIn_eq, hb]
    simp

theorem shiftAll_eq_zero (hodd : poly.getLsbD 0 = true) (hlen : bits.length ≤ w)
    (h : shiftAll poly c bits = 0#w) : ∀ i < w, c.getMsbD i = bits.getD i false := by
  induction bits generalizing c with
  | nil =>
    intro i hi
    rw [show c = 0#w from h]
    simp
  | cons b bits ih =>
    rw [List.length_cons] at hlen
    have hshifted := ih (by omega) h
    have hlast : (shiftIn poly c b).getLsbD 0 = false := by
      have hend := hshifted (w - 1) (by omega)
      rw [BitVec.getMsbD_eq_getLsbD, List.getD_eq_default _ _ (by omega)] at hend
      simpa [show w - 1 < w by omega] using hend
    obtain ⟨hb, heq⟩ := shiftIn_even hodd hlast
    intro i hi
    cases i with
    | zero => exact hb
    | succ i =>
      have hnext := hshifted i (by omega)
      rw [heq, BitVec.getMsbD_shiftLeft] at hnext
      simpa [hi] using hnext

theorem shiftAll_zeros_inj (hodd : poly.getLsbD 0 = true) (hbits : ∀ b ∈ bits, b = false)
    (h : shiftAll poly c bits = 0#w) : c = 0#w := by
  have hw : 0 < w := BitVec.lt_of_getLsbD hodd
  induction bits generalizing c with
  | nil => exact h
  | cons b bits ih =>
    rw [hbits b List.mem_cons_self, shiftAll, List.foldl_cons] at h
    have hone : shiftAll poly c [false] = 0#w :=
      ih (fun b hb => hbits b (List.mem_cons_of_mem _ hb)) h
    apply BitVec.eq_of_getMsbD_eq
    intro i hi
    rw [shiftAll_eq_zero hodd (show [false].length ≤ w from hw) hone i hi]
    cases i <;> simp

/-- A burst that fits into the register is not lost, whatever zeros come before and behind it. -/
theorem shiftAll_burst {before behind : List Bool} (hodd : poly.getLsbD 0 = true)
    (hlen : bits.length ≤ w) (hbefore : ∀ b ∈ before, b = false)
    (hbehind : ∀ b ∈ behind, b = false)
    (h : shiftAll poly 0#w (before ++ (bits ++ behind)) = 0#w) : ∀ b ∈ bits, b = false := by
  rw [shiftAll_append, shiftAll_zero poly hbefore, shiftAll_append] at h
  have hmid : shiftAll poly 0#w bits = 0#w := shiftAll_zeros_inj hodd hbehind h
  intro b hb
  obtain ⟨i, hi, rfl⟩ := List.getElem_of_mem hb
  have hbit := shiftAll_eq_zero hodd hlen hmid i (by omega)
  rw [List.getD_eq_getElem _ _ hi] at hbit
  rw [← hbit]
  simp

end

end Lib
