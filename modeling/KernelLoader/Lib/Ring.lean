import Mathlib.Data.Finset.Card
import Mathlib.Tactic.SplitIfs

namespace Lib
set_option autoImplicit true
set_option relaxedAutoImplicit false

/-- The slot after `i` in a ring of `n` slots. -/
def ringNext (n i : Nat) : Nat := if i + 1 = n then 0 else i + 1

/-- How many slots `x` lies behind `i`. -/
def ringBack (n i x : Nat) : Nat := if x ≤ i then i - x else i + n - x

/-- The last `k` slots of the ring up to and including `i`. -/
def ringSegment (n i k : Nat) : Finset Nat :=
  (Finset.range n).filter (fun x => ringBack n i x < k)

theorem ringNext_lt (hi : i < n) : ringNext n i < n := by
  unfold ringNext
  split_ifs <;> omega

theorem ringBack_lt (hi : i < n) (hx : x < n) : ringBack n i x < n := by
  unfold ringBack
  split_ifs <;> omega

theorem ringBack_self (n i : Nat) : ringBack n i i = 0 := by
  simp [ringBack]

theorem ringBack_eq_zero (hx : x < n) : ringBack n i x = 0 ↔ x = i := by
  unfold ringBack
  split_ifs <;> omega

theorem ringBack_next (hx : x < n) (hne : x ≠ ringNext n i) :
    ringBack n (ringNext n i) x = ringBack n i x + 1 := by
  unfold ringBack ringNext at *
  split_ifs at * <;> omega

theorem ringBack_inj (hx : x < n) (hy : y < n)
    (h : ringBack n i x = ringBack n i y) : x = y := by
  unfold ringBack at h
  split_ifs at h <;> omega

@[simp] theorem mem_ringSegment : x ∈ ringSegment n i k ↔ x < n ∧ ringBack n i x < k := by
  simp [ringSegment]

@[simp] theorem ringSegment_zero (n i : Nat) : ringSegment n i 0 = ∅ := by
  ext x
  simp

theorem ringSegment_push (hi : i < n) (k : Nat) :
    insert (ringNext n i) (ringSegment n i k) ⊆ ringSegment n (ringNext n i) (k + 1) := by
  intro x hx
  rcases Finset.mem_insert.mp hx with he | hs
  · subst he
    exact mem_ringSegment.mpr ⟨ringNext_lt hi, by rw [ringBack_self]; omega⟩
  · obtain ⟨hx, hb⟩ := mem_ringSegment.mp hs
    refine mem_ringSegment.mpr ⟨hx, ?_⟩
    by_cases he : x = ringNext n i
    · rw [he, ringBack_self]; omega
    · rw [ringBack_next hx he]; omega

theorem ringSegment_push_eq (hi : i < n) (k : Nat) :
    ringSegment n (ringNext n i) (k + 1) = insert (ringNext n i) (ringSegment n i k) := by
  apply Finset.Subset.antisymm _ (ringSegment_push hi k)
  intro x hx
  obtain ⟨hx, hb⟩ := mem_ringSegment.mp hx
  by_cases he : x = ringNext n i
  · exact Finset.mem_insert.mpr (.inl he)
  · rw [ringBack_next hx he] at hb
    exact Finset.mem_insert.mpr (.inr (mem_ringSegment.mpr ⟨hx, by omega⟩))

theorem ringSegment_pop (hx : x < n) (hk : ringBack n i x = k) :
    (ringSegment n i (k + 1)).erase x = ringSegment n i k := by
  ext y
  rw [Finset.mem_erase, mem_ringSegment, mem_ringSegment]
  constructor
  · rintro ⟨hne, hy, hb⟩
    refine ⟨hy, ?_⟩
    by_contra hlt
    have he : ringBack n i y = ringBack n i x := by omega
    exact hne (ringBack_inj hy hx he)
  · rintro ⟨hy, hb⟩
    refine ⟨?_, hy, by omega⟩
    rintro rfl
    omega

theorem not_mem_ringSegment (hk : k ≤ ringBack n i x) : x ∉ ringSegment n i k := by
  rw [mem_ringSegment]
  omega

/-- The slot to be queued next is free as long as the segment does not fill the ring. -/
theorem ringNext_not_mem (hi : i < n) (hk : k < n) : ringNext n i ∉ ringSegment n i k := by
  rw [mem_ringSegment]
  rintro ⟨_, hb⟩
  unfold ringBack ringNext at hb
  split_ifs at hb <;> omega

theorem exists_ringBack (hi : i < n) (hk : k < n) : ∃ x < n, ringBack n i x = k := by
  by_cases h : k ≤ i
  · refine ⟨i - k, by omega, ?_⟩
    unfold ringBack
    split_ifs <;> omega
  · refine ⟨i + n - k, by omega, ?_⟩
    unfold ringBack
    split_ifs <;> omega

theorem card_ringSegment (hi : i < n) (hk : k ≤ n) : (ringSegment n i k).card = k := by
  induction k with
  | zero => simp
  | succ k ih =>
    obtain ⟨x, hx, hb⟩ := exists_ringBack hi (show k < n by omega)
    have hm : x ∈ ringSegment n i (k + 1) := mem_ringSegment.mpr ⟨hx, by omega⟩
    have hc := Finset.card_erase_add_one hm
    rw [ringSegment_pop hx hb, ih (by omega)] at hc
    exact hc.symm

/-- The slot `k` slots after `i`. -/
def ringAhead (n i k : Nat) : Nat := (i + k) % n

theorem ringAhead_lt (hn : 0 < n) (i k : Nat) : ringAhead n i k < n := Nat.mod_lt _ hn

theorem ringAhead_zero (hi : i < n) : ringAhead n i 0 = i := Nat.mod_eq_of_lt hi

theorem ringNext_eq_ahead (hi : i < n) : ringNext n i = ringAhead n i 1 := by
  unfold ringNext ringAhead
  split_ifs with h
  · rw [h, Nat.mod_self]
  · rw [Nat.mod_eq_of_lt (by omega)]

theorem ringAhead_ahead (n i j k : Nat) :
    ringAhead n (ringAhead n i j) k = ringAhead n i (j + k) := by
  unfold ringAhead
  rw [Nat.mod_add_mod, Nat.add_assoc]

theorem ringAhead_ne (hjk : j < k) (hk : k < j + n) (i : Nat) :
    ringAhead n i j ≠ ringAhead n i k := by
  intro h
  have hmod : (i + k - (i + j)) % n = 0 := Nat.sub_mod_eq_zero_of_mod_eq h.symm
  have hle := Nat.le_of_dvd (by omega) (Nat.dvd_of_mod_eq_zero hmod)
  omega

theorem ringBack_ahead (hi : i < n) (hx : x < n) (hk : k ≤ n) :
    ringBack n (ringAhead n i k) x = ringBack n i x + k ∨
      ringBack n (ringAhead n i k) x + n = ringBack n i x + k := by
  have hmod : ringAhead n i k = if i + k < n then i + k else i + k - n := by
    unfold ringAhead
    split_ifs with h
    · exact Nat.mod_eq_of_lt h
    · rw [Nat.mod_eq_sub_mod (by omega)]
      by_cases hlt : i + k - n < n
      · exact Nat.mod_eq_of_lt hlt
      · omega
  rw [hmod]
  unfold ringBack
  split_ifs <;> omega

theorem ringBack_ahead_self (hi : i < n) (hk : k < n) : ringBack n (ringAhead n i k) i = k := by
  have hself := ringBack_self n i
  have hlt := ringBack_lt (ringAhead_lt (by omega) i k) hi
  rcases ringBack_ahead hi hi hk.le with h | h <;> omega

theorem ringBack_ahead_ahead (hn : 0 < n) (hjk : j ≤ k) (hk : k < j + n) (i : Nat) :
    ringBack n (ringAhead n i k) (ringAhead n i j) = k - j := by
  have heq : ringAhead n i k = ringAhead n (ringAhead n i j) (k - j) := by
    rw [ringAhead_ahead, Nat.add_sub_cancel' hjk]
  rw [heq]
  exact ringBack_ahead_self (ringAhead_lt hn i j) (by omega)

/-- The slots from `head` on hold the elements of a queue and the slots behind these hold nothing;
`holds` tells what a slot holds. -/
structure RingHolds (n : Nat) (holds : Nat → Option α → Prop) (head : Nat) (q : List α) :
    Prop where
  length_le : q.length ≤ n
  slot : ∀ k < n, holds (ringAhead n head k) q[k]?

section Queue
variable {holds holds' : Nat → Option α → Prop} {head : Nat} {a : α} {q : List α}

theorem RingHolds.push (h : RingHolds n holds head q) (hlen : q.length < n)
    (hnew : holds' (ringAhead n head q.length) (some a))
    (hold : ∀ i x, i ≠ ringAhead n head q.length → holds i x → holds' i x) :
    RingHolds n holds' head (q ++ [a]) := by
  refine ⟨?_, fun k hk => ?_⟩
  · rw [List.length_append]
    exact hlen
  · rcases Nat.lt_trichotomy k q.length with hlt | rfl | hgt
    · rw [List.getElem?_append_left hlt]
      exact hold _ _ (ringAhead_ne hlt (by omega) head) (h.slot k hk)
    · rw [List.getElem?_concat_length]
      exact hnew
    · have hfree := h.slot k hk
      rw [List.getElem?_eq_none (by omega)] at hfree
      rw [List.getElem?_eq_none (by rw [List.length_append, List.length_singleton]; omega)]
      exact hold _ _ (ringAhead_ne hgt (by omega) head).symm hfree

theorem RingHolds.pop (h : RingHolds n holds head (a :: q)) (hhead : head < n)
    (hnew : holds' head none) (hold : ∀ i x, i ≠ head → holds i x → holds' i x) :
    RingHolds n holds' (ringAhead n head 1) q := by
  have hlen := h.length_le
  rw [List.length_cons] at hlen
  refine ⟨by omega, fun k hk => ?_⟩
  rw [ringAhead_ahead]
  rcases Nat.lt_or_ge (1 + k) n with hlt | hge
  · have hslot := h.slot (1 + k) hlt
    rw [Nat.add_comm 1 k, List.getElem?_cons_succ] at hslot
    rw [Nat.add_comm 1 k]
    refine hold _ _ ?_ hslot
    have hne := ringAhead_ne (n := n) (show 0 < k + 1 by omega) (by omega) head
    rw [ringAhead_zero hhead] at hne
    exact hne.symm
  · -- the cleared slot is the last one now
    have hlast : ringAhead n head (1 + k) = head := by
      rw [show 1 + k = n by omega, ringAhead, Nat.add_mod_right, Nat.mod_eq_of_lt hhead]
    rw [hlast, List.getElem?_eq_none (by omega)]
    exact hnew

end Queue

end Lib
