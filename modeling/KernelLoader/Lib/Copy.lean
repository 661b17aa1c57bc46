import KernelLoader.Lib.CString
import KernelLoader.Lib.Memory

namespace Lib
set_option autoImplicit true
set_option relaxedAutoImplicit false

/-- Memory after a store of the `n` low bytes of a number. -/
def storeLe (m : Mem) (a n v : Nat) : Mem :=
  fun b => if a ≤ b ∧ b < a + n then .ofNat (v / 256 ^ (b - a)) else m b

/-- Copy bytes one after the other with rising addresses, each from the memory as it is then. -/
def copyUp (m : Mem) (d s : Nat) : Nat → Mem
  | 0 => m
  | n + 1 => copyUp (Function.update m d (m s)) (d + 1) (s + 1) n

variable {m : Mem}

theorem storeLe_outside (h : b < a ∨ a + n ≤ b) (v : Nat) : storeLe m a n v b = m b := by
  rw [storeLe, if_neg (by omega)]

theorem storeLe_one (m : Mem) (a v : Nat) : storeLe m a 1 v = Function.update m a (.ofNat v) := by
  funext b
  rw [storeLe, Function.update_apply]
  by_cases hb : b = a
  · rw [if_pos (by omega), if_pos hb, hb, Nat.sub_self, Nat.pow_zero, Nat.div_one]
  · rw [if_neg (by omega), if_neg hb]

theorem copyUp_apply (h : d ≤ s ∨ s + n ≤ d) (b : Nat) :
    copyUp m d s n b = if d ≤ b ∧ b < d + n then m (s + (b - d)) else m b := by
  induction n generalizing m d s with
  | zero => rw [copyUp, if_neg (by omega)]
  | succ n ih =>
    rw [copyUp, ih (by omega)]
    by_cases hb : b = d
    · rw [if_neg (by omega), if_pos (by omega), hb, Function.update_self, Nat.sub_self,
        Nat.add_zero]
    · by_cases hin : d ≤ b ∧ b < d + (n + 1)
      · have hsrc : s + 1 + (b - (d + 1)) = s + (b - d) := by omega
        rw [if_pos (by omega), if_pos hin, hsrc, Function.update_of_ne (by omega)]
      · rw [if_neg (by omega), if_neg hin, Function.update_of_ne hb]

theorem copyUp_append (m : Mem) (d s c n : Nat) :
    copyUp m d s (c + n) = copyUp (copyUp m d s c) (d + c) (s + c) n := by
  induction c generalizing m d s with
  | zero => rw [Nat.zero_add, copyUp, Nat.add_zero, Nat.add_zero]
  | succ c ih =>
    rw [Nat.add_right_comm, copyUp, ih, copyUp, Nat.add_assoc, Nat.add_comm 1 c, Nat.add_assoc s,
      Nat.add_comm 1 c]

theorem copyUp_eq_storeLe (h : d ≤ s ∨ s + c ≤ d) : copyUp m d s c = storeLe m d c (le m s c) := by
  funext b
  rw [copyUp_apply h, storeLe]
  by_cases hb : d ≤ b ∧ b < d + c
  · rw [if_pos hb, if_pos hb, ofNat_le_digit m s (by omega)]
  · rw [if_neg hb, if_neg hb]

/-- Pieces that are not longer than the distance of source and destination may be moved at once. -/
theorem copyUp_piece (h : d ≤ s ∨ s + c ≤ d) (n : Nat) :
    copyUp m d s (c + n) = copyUp (storeLe m d c (le m s c)) (d + c) (s + c) n := by
  rw [copyUp_append, copyUp_eq_storeLe h]

/-- Store the bytes of a list with rising addresses. -/
def putBytes (m : Mem) (a : Nat) : List UInt8 → Mem
  | [] => m
  | c :: l => putBytes (Function.update m a c) (a + 1) l

/-- The bytes of a list stand in memory. -/
def BytesAt (m : Mem) (a : Nat) : List UInt8 → Prop
  | [] => True
  | c :: l => m a = c ∧ BytesAt m (a + 1) l

theorem putBytes_append (m : Mem) (a : Nat) (l l' : List UInt8) :
    putBytes m a (l ++ l') = putBytes (putBytes m a l) (a + l.length) l' := by
  induction l generalizing m a with
  | nil => rfl
  | cons c l ih =>
    rw [List.cons_append, putBytes, ih, putBytes, List.length_cons, Nat.add_right_comm,
      Nat.add_assoc]

theorem putBytes_outside (h : b < a ∨ a + l.length ≤ b) : putBytes m a l b = m b := by
  induction l generalizing m a with
  | nil => rfl
  | cons c l ih =>
    rw [List.length_cons] at h
    rw [putBytes, ih (by omega), Function.update_of_ne (by omega)]

theorem bytesAt_append : BytesAt m a (l ++ l') ↔ BytesAt m a l ∧ BytesAt m (a + l.length) l' := by
  induction l generalizing a with
  | nil => simp [BytesAt]
  | cons c l ih =>
    rw [List.cons_append, BytesAt, BytesAt, ih, List.length_cons, Nat.add_right_comm, Nat.add_assoc,
      and_assoc]

theorem BytesAt.congr {m' : Mem} (h : BytesAt m a l) (hm : ∀ i, a ≤ i → m' i = m i) :
    BytesAt m' a l := by
  induction l generalizing a with
  | nil => trivial
  | cons c l ih =>
    exact ⟨(hm a (Nat.le_refl a)).trans h.1, ih h.2 fun i hi => hm i (by omega)⟩

theorem BytesAt.put (h : BytesAt m a l) (hle : d + l'.length ≤ a) : BytesAt (putBytes m d l') a l :=
  h.congr fun i hi => putBytes_outside (by omega)

theorem bytesAt_putBytes (m : Mem) (a : Nat) (l : List UInt8) : BytesAt (putBytes m a l) a l := by
  induction l generalizing m a with
  | nil => trivial
  | cons c l ih =>
    refine ⟨?_, ih _ _⟩
    rw [putBytes, putBytes_outside (by omega), Function.update_self]

theorem forall_byte {p : UInt8 → Prop} (h : ∀ n < 256, p (.ofNat n)) (c : UInt8) : p c := by
  have hc := h c.toNat c.toNat_lt
  rw [UInt8.ofNat_toNat] at hc
  exact hc

end Lib
