import Mathlib.Data.List.Basic
import Mathlib.Data.UInt

namespace Lib
set_option autoImplicit true
set_option relaxedAutoImplicit false

variable {m : Nat → UInt8} {s t : List UInt8}

/-- The bytes from a place on are those of `t`. -/
def Begins : (Nat → UInt8) → List UInt8 → Prop
  | _, [] => True
  | m, c :: t => m 0 = c ∧ Begins (fun i => m (i + 1)) t

instance : ∀ (m : Nat → UInt8) (t : List UInt8), Decidable (Begins m t)
  | _, [] => .isTrue trivial
  | m, _ :: t =>
    have := instDecidableBegins (fun i => m (i + 1)) t
    inferInstanceAs (Decidable (_ ∧ _))

/-- A terminated string stands at a place. -/
structure StringAt (m : Nat → UInt8) (s : List UInt8) : Prop where
  proper : 0 ∉ s
  begins : Begins m s
  terminated : m s.length = 0

/-- The text in a field of `n` bytes, which is filled up with zeros. -/
def field : (Nat → UInt8) → Nat → List UInt8
  | _, 0 => []
  | m, n + 1 => if m 0 = 0 then [] else m 0 :: field (fun i => m (i + 1)) n

theorem begins_congr {m' : Nat → UInt8} (h : ∀ i < t.length, m i = m' i) :
    Begins m t ↔ Begins m' t := by
  induction t generalizing m m' with
  | nil => exact Iff.rfl
  | cons c t ih =>
    have hrest := ih fun i hi => h (i + 1) (Nat.succ_lt_succ hi)
    rw [Begins, Begins, h 0 (Nat.succ_pos _), hrest]

theorem StringAt.tail (h : StringAt m (c :: s)) : StringAt (fun i => m (i + 1)) s :=
  ⟨fun hc => h.proper (List.mem_cons_of_mem c hc), h.begins.2, h.terminated⟩

theorem StringAt.next {a : Nat} (h : StringAt (fun i => m (a + i)) (c :: s)) :
    StringAt (fun i => m (a + 1 + i)) s := by
  have hshift : (fun i => m (a + 1 + i)) = fun i => m (a + (i + 1)) := by
    funext i
    rw [Nat.add_assoc, Nat.add_comm 1 i]
  rw [hshift]
  exact h.tail

theorem StringAt.field_eq (h : StringAt m s) (n : Nat) : field m n = s.take n := by
  induction n generalizing m s with
  | zero => rfl
  | succ n ih =>
    cases s with
    | nil => exact if_pos h.terminated
    | cons c s =>
      have hc : m 0 = c := h.begins.1
      have hne : m 0 ≠ 0 := by
        intro h0
        exact h.proper (List.mem_cons.mpr (.inl (h0.symm.trans hc)))
      rw [field, if_neg hne, ih h.tail, List.take_succ_cons, hc]

theorem StringAt.begins_iff (h : StringAt m s) (ht : 0 ∉ t) : Begins m t ↔ t <+: s := by
  induction t generalizing m s with
  | nil => exact iff_of_true trivial (List.nil_prefix)
  | cons c t ih =>
    obtain ⟨hc, ht⟩ := not_or.mp (mt List.mem_cons.mpr ht)
    cases s with
    | nil =>
      refine iff_of_false (fun hb => hc ?_) (by simp)
      exact h.terminated.symm.trans hb.1
    | cons d s =>
      rw [Begins, h.begins.1, List.cons_prefix_cons, ih h.tail ht]
      exact and_congr_left' eq_comm

theorem StringAt.unique (h : StringAt m s) (h' : StringAt m t) : s = t := by
  have hst : s <+: t := (h'.begins_iff h.proper).mp h.begins
  have hts : t <+: s := (h.begins_iff h'.proper).mp h'.begins
  exact hst.eq_of_length_le hts.length_le

theorem field_eq_iff {n : Nat} (ht : 0 ∉ t) (hn : t.length < n) :
    field m n = t ↔ Begins m t ∧ m t.length = 0 := by
  induction t generalizing m n with
  | nil =>
    cases n with
    | zero => exact absurd hn (Nat.not_lt_zero 0)
    | succ n =>
      rw [field, Begins, true_and]
      split
      · next h0 => exact iff_of_true rfl h0
      · next h0 => exact iff_of_false (List.cons_ne_nil _ _) h0
  | cons c t ih =>
    obtain ⟨hc, ht⟩ := not_or.mp (mt List.mem_cons.mpr ht)
    cases n with
    | zero => exact absurd hn (Nat.not_lt_zero _)
    | succ n =>
      rw [field, Begins]
      split
      · next h0 =>
        refine iff_of_false (List.cons_ne_nil c t).symm fun h => hc ?_
        exact h0.symm.trans h.1.1
      · rw [List.cons.injEq, ih ht (Nat.lt_of_succ_lt_succ hn), and_assoc]
        rfl

/-- The value of a byte read as a signed character. -/
def signedChar (c : UInt8) : Int := c.toInt8.toInt

theorem signedChar_inj {c d : UInt8} : signedChar c = signedChar d ↔ c = d := by
  unfold signedChar
  rw [Int8.toInt_inj]
  constructor
  · intro h
    exact congrArg Int8.toUInt8 h
  · intro h
    rw [h]

/-- Compare `n` bytes. -/
def memcmp : (Nat → UInt8) → (Nat → UInt8) → Nat → Int
  | _, _, 0 => 0
  | a, b, n + 1 =>
    if a 0 = b 0 then memcmp (fun i => a (i + 1)) (fun i => b (i + 1)) n
    else (a 0).toNat - (b 0).toNat

/-- A text as it lies in memory, with its end. -/
def literal (t : List UInt8) : Nat → UInt8 := fun i => t.getD i 0

theorem memcmp_literal (m : Nat → UInt8) (t : List UInt8) :
    memcmp m (literal t) t.length = 0 ↔ Begins m t := by
  induction t generalizing m with
  | nil => exact iff_of_true rfl trivial
  | cons c t ih =>
    rw [List.length_cons, memcmp, Begins]
    have hc : literal (c :: t) 0 = c := rfl
    have ht : (fun i => literal (c :: t) (i + 1)) = literal t := rfl
    rw [hc, ht]
    split
    · next h =>
      rw [ih]
      exact (and_iff_right h).symm
    · next h =>
      refine iff_of_false (fun hd => h ?_) fun hb => h hb.1
      apply UInt8.toNat_inj.mp
      omega

end Lib
