import Mathlib.Data.List.Basic
import Mathlib.Data.List.Range
import Mathlib.Data.List.Nodup
import Mathlib.Tactic.SplitIfs

namespace Lib.Alloc
set_option autoImplicit true
set_option relaxedAutoImplicit false

/-- Every owner has its own units, and all of them are used. -/
structure Owned {ι α : Type} (used : α → Prop) (own : ι → List α) : Prop where
  nodup : ∀ k, (own k).Nodup
  apart : ∀ k l, k ≠ l → (own k).Disjoint (own l)
  used : ∀ k, ∀ a ∈ own k, used a

section Owned
variable {ι α : Type} {used used' : α → Prop} {own own' : ι → List α} {k : ι} {a : α}
  {freed : List α}

theorem Owned.take (h : Owned used own) (hfree : ¬ used a)
    (hown : (own' k).Perm (a :: own k)) (hother : ∀ l, l ≠ k → own' l = own l)
    (hused : ∀ b, used' b ↔ b = a ∨ used b) : Owned used' own' := by
  have hmem : ∀ b, b ∈ own' k → b = a ∨ b ∈ own k := fun b hb =>
    List.mem_cons.mp (hown.mem_iff.mp hb)
  have hnew : ∀ l, a ∉ own l := fun l hl => hfree (h.used l a hl)
  have hapart : ∀ l, l ≠ k → (own' k).Disjoint (own' l) := by
    intro l hl b hb hbl
    rw [hother l hl] at hbl
    rcases hmem b hb with rfl | hbk
    · exact hnew l hbl
    · exact h.apart k l (Ne.symm hl) hbk hbl
  constructor
  · intro l
    by_cases hl : l = k
    · subst hl
      exact hown.nodup_iff.mpr (List.nodup_cons.mpr ⟨hnew l, h.nodup l⟩)
    · rw [hother l hl]
      exact h.nodup l
  · intro l l' hne
    by_cases hl : l = k
    · subst hl
      exact hapart l' (Ne.symm hne)
    · by_cases hl' : l' = k
      · subst hl'
        exact fun b hb hbk => hapart l hl hbk hb
      · rw [hother l hl, hother l' hl']
        exact h.apart l l' hne
  · intro l b hb
    by_cases hl : l = k
    · subst hl
      exact (hused b).mpr ((hmem b hb).imp_right (h.used l b))
    · rw [hother l hl] at hb
      exact (hused b).mpr (.inr (h.used l b hb))

theorem Owned.release (h : Owned used own) (hown : (own' k ++ freed).Perm (own k))
    (hother : ∀ l, l ≠ k → own' l = own l)
    (hkeep : ∀ b, used b → b ∉ freed → used' b) : Owned used' own' := by
  have hall : (own' k ++ freed).Nodup := hown.nodup_iff.mpr (h.nodup k)
  have hsub : ∀ l, ∀ b ∈ own' l, b ∈ own l ∧ b ∉ freed := by
    intro l b hb
    by_cases hl : l = k
    · subst hl
      exact ⟨hown.mem_iff.mp (List.mem_append_left _ hb),
        fun hf => (List.nodup_append.mp hall).2.2 b hb b hf rfl⟩
    · rw [hother l hl] at hb
      exact ⟨hb, fun hf => h.apart l k hl hb (hown.mem_iff.mp (List.mem_append_right _ hf))⟩
  constructor
  · intro l
    by_cases hl : l = k
    · subst hl
      exact (List.nodup_append.mp hall).1
    · rw [hother l hl]
      exact h.nodup l
  · intro l l' hne b hb hb'
    exact h.apart l l' hne (hsub l b hb).1 (hsub l' b hb').1
  · intro l b hb
    exact hkeep b (h.used l b (hsub l b hb).1) (hsub l b hb).2

/-- A unit that is used and has no owner. -/
def Orphan (used : α → Prop) (own : ι → List α) (a : α) : Prop := used a ∧ ∀ k, a ∉ own k

theorem orphan_congr (hused : used' a ↔ used a) (hown : a ∈ own' k ↔ a ∈ own k)
    (hother : ∀ l, l ≠ k → own' l = own l) : Orphan used' own' a ↔ Orphan used own a := by
  apply and_congr hused
  apply forall_congr'
  intro l
  by_cases hl : l = k
  · rw [hl, hown]
  · rw [hother l hl]

theorem orphan_take (hfree : ¬ used a) (hown : (own' k).Perm (a :: own k))
    (hother : ∀ l, l ≠ k → own' l = own l) (hused : ∀ b, used' b ↔ b = a ∨ used b) (b : α) :
    Orphan used' own' b ↔ Orphan used own b := by
  by_cases hb : b = a
  · subst hb
    exact iff_of_false (fun h => h.2 k (hown.mem_iff.mpr List.mem_cons_self)) fun h => hfree h.1
  · apply orphan_congr ((hused b).trans (or_iff_right hb)) _ hother
    rw [hown.mem_iff, List.mem_cons, or_iff_right hb]

theorem orphan_release (hown : (own' k ++ freed).Perm (own k))
    (hother : ∀ l, l ≠ k → own' l = own l) (hused : ∀ b, used' b ↔ used b ∧ b ∉ freed) (b : α) :
    Orphan used' own' b ↔ Orphan used own b := by
  by_cases hb : b ∈ freed
  · exact iff_of_false (fun h => ((hused b).mp h.1).2 hb)
      fun h => h.2 k (hown.mem_iff.mp (List.mem_append_right _ hb))
  · apply orphan_congr ((hused b).trans (and_iff_left hb)) _ hother
    rw [← hown.mem_iff, List.mem_append, or_iff_left hb]

end Owned

/-- A row of units that follow each other. -/
structure Extent where
  number : Nat
  count : Nat
  deriving DecidableEq, Repr

abbrev Table := Nat → Extent

namespace Table

def set (t : Table) (i : Nat) (e : Extent) : Table := fun j => if j = i then e else t j

/-- The units of the extents from `i` on, up to the first that is empty. -/
def blocks (t : Table) (i : Nat) : Nat → List Nat
  | 0 => []
  | n + 1 =>
    if (t i).count = 0 then []
    else List.range' (t i).number (t i).count ++ blocks t (i + 1) n

/-- What follows an empty extent is empty. -/
def Packed (t : Table) (i n : Nat) : Prop :=
  ∀ j, i ≤ j → j + 1 < i + n → (t j).count = 0 → (t (j + 1)).count = 0

/-- Where a search through a table ends: the extent, and how far from its start. -/
structure Place where
  index : Nat
  rest : Nat
  found : Bool
  deriving DecidableEq, Repr

/-- Look for a place that is counted in parts, `unit` of them to a block. -/
def seek (unit : Nat) (t : Table) (i pos : Nat) : Nat → Place
  | 0 => ⟨i, pos, false⟩
  | n + 1 =>
    if (t i).count = 0 then ⟨i, pos, false⟩
    else if pos < (t i).count * unit then ⟨i, pos, true⟩
    else seek unit t (i + 1) (pos - (t i).count * unit) n

variable {t : Table} {unit i j k n pos : Nat} {e : Extent} {p : Place}

@[simp] theorem set_self : t.set i e i = e := if_pos rfl

theorem set_other (h : j ≠ i) : t.set i e j = t j := if_neg h

theorem blocks_congr {t' : Table} (h : ∀ j, i ≤ j → j < i + n → t' j = t j) :
    t'.blocks i n = t.blocks i n := by
  induction n generalizing i with
  | zero => rfl
  | succ n ih =>
    rw [blocks, blocks, h i (Nat.le_refl i) (by omega)]
    rw [ih fun j hj hlt => h j (by omega) (by omega)]

theorem blocks_empty (h : (t i).count = 0) : t.blocks i n = [] := by
  cases n with
  | zero => rfl
  | succ n => rw [blocks, if_pos h]

theorem Packed.next (h : t.Packed i (n + 1)) : t.Packed (i + 1) n := by
  intro j hj hlt hzero
  exact h j (by omega) (by omega) hzero

theorem seek_found (h : t.seek unit i pos n = p) (hfound : p.found = true) (hunit : 0 < unit) :
    p.index < i + n ∧ p.rest % unit = pos % unit ∧
      (t.blocks i n)[pos / unit]? = some ((t p.index).number + p.rest / unit) := by
  induction n generalizing i pos with
  | zero =>
    subst h
    cases hfound
  | succ n ih =>
    rw [seek] at h
    split at h
    · subst h
      cases hfound
    · next hcount =>
      rw [blocks, if_neg hcount]
      split at h
      · next hpos =>
        subst h
        have hlt : pos / unit < (t i).count := Nat.div_lt_of_lt_mul (Nat.mul_comm _ unit ▸ hpos)
        refine ⟨Nat.lt_add_of_pos_right (Nat.succ_pos n), rfl, ?_⟩
        rw [List.getElem?_append_left (by simpa using hlt)]
        simp [hlt]
      · next hpos =>
        obtain ⟨hindex, hmod, hblock⟩ := ih h
        have hpos := Nat.not_lt.mp hpos
        refine ⟨by omega, ?_, ?_⟩
        · rw [hmod, Nat.mul_comm, Nat.sub_mul_mod (Nat.mul_comm _ unit ▸ hpos)]
        · have hle : (t i).count ≤ pos / unit := (Nat.le_div_iff_mul_le hunit).mpr hpos
          rw [List.getElem?_append_right (by simpa using hle), List.length_range']
          rw [Nat.mul_comm, Nat.sub_mul_div] at hblock
          exact hblock

theorem seek_end (h : t.seek unit i pos n = p) (hfound : p.found = false) :
    i ≤ p.index ∧ p.index ≤ i + n ∧ (t.blocks i n).length * unit + p.rest = pos ∧
      (∀ j, i ≤ j → j < p.index → (t j).count ≠ 0) ∧
      (p.index < i + n → (t p.index).count = 0) := by
  induction n generalizing i pos with
  | zero =>
    subst h
    exact ⟨Nat.le_refl i, Nat.le_refl i, by simp [seek, blocks], fun j hj hlt => by
      exact absurd hlt (Nat.not_lt.mpr hj), fun hlt => absurd hlt (Nat.lt_irrefl i)⟩
  | succ n ih =>
    rw [seek] at h
    split at h
    · next hcount =>
      subst h
      exact ⟨Nat.le_refl i, Nat.le_add_right i _, by simp [blocks, hcount], fun j hj hlt => by
        exact absurd hlt (Nat.not_lt.mpr hj), fun _ => hcount⟩
    · next hcount =>
      split at h
      · subst h
        cases hfound
      · next hpos =>
        obtain ⟨hfirst, hlast, hrest, hbefore, hzero⟩ := ih h
        refine ⟨by omega, by omega, ?_, ?_, fun hlt => hzero (by omega)⟩
        · rw [blocks, if_neg hcount, List.length_append, List.length_range', Nat.add_mul]
          omega
        · intro j hj hlt
          by_cases hi : j = i
          · rw [hi]
            exact hcount
          · exact hbefore j (by omega) hlt

theorem blocks_append (hbefore : ∀ j, i ≤ j → j < k → (t j).count ≠ 0) (hik : i ≤ k)
    (hk : k < i + n) (hzero : (t k).count = 0) (hpacked : t.Packed i n) (b : Nat) :
    (t.set k ⟨b, 1⟩).blocks i n = t.blocks i n ++ [b] := by
  induction n generalizing i with
  | zero => omega
  | succ n ih =>
    by_cases hi : i = k
    · subst hi
      -- the extent behind the new one is empty because the table is packed
      have htail : (t.set i ⟨b, 1⟩).blocks (i + 1) n = [] := by
        cases n with
        | zero => rfl
        | succ n =>
          apply blocks_empty
          rw [set_other (by omega)]
          exact hpacked i (Nat.le_refl i) (by omega) hzero
      rw [blocks, set_self, htail, blocks_empty hzero]
      rfl
    · have hcount := hbefore i (Nat.le_refl i) (by omega)
      rw [blocks, blocks, set_other hi, if_neg hcount, if_neg hcount, List.append_assoc]
      rw [ih (fun j hj hlt => hbefore j (by omega) hlt) (by omega) (by omega) hpacked.next]

theorem blocks_extend (hbefore : ∀ j, i ≤ j → j ≤ k → (t j).count ≠ 0) (hik : i ≤ k)
    (hk : k < i + n) (hzero : k + 1 < i + n → (t (k + 1)).count = 0) :
    (t.set k { t k with count := (t k).count + 1 }).blocks i n =
      t.blocks i n ++ [(t k).number + (t k).count] := by
  induction n generalizing i with
  | zero => omega
  | succ n ih =>
    have hcount := hbefore i (Nat.le_refl i) hik
    by_cases hi : i = k
    · subst hi
      have htail : ∀ t' : Table, (∀ j, i < j → t' j = t j) → t'.blocks (i + 1) n = [] := by
        intro t' ht'
        cases n with
        | zero => rfl
        | succ n =>
          apply blocks_empty
          rw [ht' _ (by omega)]
          exact hzero (by omega)
      rw [blocks, blocks, set_self, if_neg (Nat.succ_ne_zero _), if_neg hcount,
        htail _ fun j hj => set_other (by omega), htail t fun _ _ => rfl]
      simp [List.range'_concat]
    · rw [blocks, blocks, set_other hi, if_neg hcount, if_neg hcount, List.append_assoc]
      rw [ih (fun j hj hlt => hbefore j (by omega) hlt) (by omega) (by omega)
        fun hlt => hzero (by omega)]

theorem mem_blocks (hbefore : ∀ j, i ≤ j → j ≤ k → (t j).count ≠ 0) (hik : i ≤ k) (hk : k < i + n)
    (hj : j < (t k).count) : (t k).number + j ∈ t.blocks i n := by
  induction n generalizing i with
  | zero => omega
  | succ n ih =>
    rw [blocks, if_neg (hbefore i (Nat.le_refl i) hik)]
    by_cases hi : i = k
    · subst hi
      apply List.mem_append_left
      exact List.mem_range'_1.mpr ⟨by omega, by omega⟩
    · apply List.mem_append_right
      exact ih (fun j hj hlt => hbefore j (by omega) hlt) (by omega) (by omega)

theorem Packed.set (h : t.Packed i n) (hbefore : ∀ j, i ≤ j → j < k → (t j).count ≠ 0)
    (he : e.count ≠ 0) : (t.set k e).Packed i n := by
  intro j hj hlt hzero
  by_cases hk : j = k
  · rw [hk, set_self] at hzero
    exact absurd hzero he
  · rw [set_other hk] at hzero
    have hle : k < j := by
      by_contra hge
      exact hbefore j hj (by omega) hzero
    rw [set_other (by omega)]
    exact h j hj hlt hzero

end Table

end Lib.Alloc
