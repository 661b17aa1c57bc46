import KernelLoader.Lib.CString
import KernelLoader.Lib.Memory
import KernelLoader.Lib.Text
import KernelLoader.Lib.Word

namespace KernelLoader.Tge.Printf
open Lib
set_option autoImplicit true
set_option relaxedAutoImplicit false

/-- The documented directives. -/
inductive Kind
  | s | c | x | d | u | X
  deriving DecidableEq, Repr

/-- The directive with a letter. -/
def kindOf (letter : UInt8) : Option Kind :=
  if letter = 115 then some .s
  else if letter = 99 then some .c
  else if letter = 120 then some .x
  else if letter = 100 then some .d
  else if letter = 117 then some .u
  else if letter = 88 then some .X
  else none

/-- The character `%`. -/
def percentSign : UInt8 := 37

/-- The words of the arguments, and memory with the strings they point to. -/
structure Args where
  va : Nat → UInt32
  mem : Mem

def bytes (s : List Char) : List UInt8 := s.map fun c => .ofNat c.toNat

/-- A number of `n` hexadecimal digits, padded with zeros. -/
def hexPadded (n v : Nat) : List UInt8 := bytes ((Nat.toDigits 16 (v % 16 ^ n)).leftpad n '0')

/-- What a directive stands for. -/
def Renders (args : Args) (i : Nat) : Kind → List UInt8 → Prop
  | .s, text => StringAt (fun j => args.mem ((args.va i).toNat + j)) text
  | .c, text => text = [.ofNat (args.va i).toNat]
  | .x, text => text = hexPadded 8 (args.va i).toNat
  | .d, text => text = bytes (printInt (s32 (args.va i).toNat))
  | .u, text => text = bytes (Nat.toDigits 10 (args.va i).toNat)
  | .X, text => text = hexPadded 2 (args.va i).toNat

/-- A part of a format: another character, a `%` that begins no directive, or a directive with its
text. -/
inductive Item
  | plain (c : UInt8)
  | percent
  | directive (k : Kind) (text : List UInt8)

/-- The format reads so, from left to right, with arguments that match. -/
inductive Documented (args : Args) : List UInt8 → Nat → List Item → Prop
  | nil : Documented args [] i []
  | plain : c ≠ percentSign → Documented args s i l → Documented args (c :: s) i (.plain c :: l)
  | percent : (∀ c ∈ s.head?, kindOf c = none) → Documented args s i l →
      Documented args (percentSign :: s) i (.percent :: l)
  | directive : kindOf c = some k → Renders args i k t → Documented args s (i + 1) l →
      Documented args (percentSign :: c :: s) i (.directive k t :: l)

namespace Item

def text : Item → List UInt8
  | plain c => [c]
  | percent => [percentSign]
  | directive _ text => text

/-- What an item takes from the length: the `%` counts, too. -/
def cost : Item → Nat
  | plain _ => 1
  | percent => 2
  | directive _ text => text.length + 1

def isPlain : Item → Bool
  | plain _ => true
  | _ => false

/-- What is written of an item that is cut off with `l` left. -/
def part (l : Nat) : Item → List UInt8
  | plain _ => []
  | percent => []
  | directive .x _ => []
  | directive .X _ => []
  | directive _ text => text.take (l - 1)

theorem cost_pos (it : Item) : 0 < it.cost := by
  cases it <;> exact Nat.succ_pos _

theorem length_text_lt (it : Item) (h : it.isPlain = false) : it.text.length < it.cost := by
  cases it with
  | plain c => cases h
  | percent => decide
  | directive k text => exact Nat.lt_succ_self _

theorem length_text_le (it : Item) : it.text.length ≤ it.cost := by
  cases it with
  | plain c => exact Nat.le_refl 1
  | percent => decide
  | directive k text => exact Nat.le_succ _

theorem cost_le (it : Item) : it.cost ≤ it.text.length + 1 := by
  cases it with
  | plain c => exact Nat.le_succ 1
  | percent => exact Nat.le_refl 2
  | directive k text => exact Nat.le_refl _

theorem part_eq_take (l : Nat) (it : Item) : ∃ n ≤ l - 1, it.part l = it.text.take n := by
  have hnone : ∃ n ≤ l - 1, [] = it.text.take n := ⟨0, Nat.zero_le _, rfl⟩
  cases it with
  | plain c => exact hnone
  | percent => exact hnone
  | directive k text =>
    cases k with
    | x => exact hnone
    | X => exact hnone
    | s => exact ⟨l - 1, Nat.le_refl _, rfl⟩
    | c => exact ⟨l - 1, Nat.le_refl _, rfl⟩
    | d => exact ⟨l - 1, Nat.le_refl _, rfl⟩
    | u => exact ⟨l - 1, Nat.le_refl _, rfl⟩

theorem length_part_le (l : Nat) (it : Item) : (it.part l).length ≤ l - 1 := by
  obtain ⟨n, hn, hpart⟩ := it.part_eq_take l
  rw [hpart]
  exact (List.length_take_le _ _).trans hn

end Item

/-- The documented text. -/
def textOf (items : List Item) : List UInt8 := items.flatMap Item.text

/-- What is written of the text with the length `l`. -/
def cut : List Item → Nat → List UInt8
  | [], _ => []
  | it :: items, l => if it.cost ≤ l then it.text ++ cut items (l - it.cost) else it.part l

/-- The number of characters before the first `%`. -/
def lead (items : List Item) : Nat := (items.takeWhile Item.isPlain).length

/-- What the items take up to the last one with a text. -/
def needed : List Item → Nat
  | [] => 0
  | it :: items =>
    if needed items = 0 then (if it.text = [] then 0 else it.cost) else it.cost + needed items

variable {it : Item} {items : List Item}

theorem textOf_cons (it : Item) (items : List Item) :
    textOf (it :: items) = it.text ++ textOf items := List.flatMap_cons

theorem cut_zero (items : List Item) : cut items 0 = [] := by
  cases items with
  | nil => rfl
  | cons it items =>
    rw [cut, if_neg (Nat.not_le.mpr it.cost_pos)]
    exact List.length_eq_zero_iff.mp (Nat.le_zero.mp (it.length_part_le 0))

theorem cut_begins (items : List Item) (l : Nat) : cut items l <+: textOf items := by
  induction items generalizing l with
  | nil => exact List.prefix_rfl
  | cons it items ih =>
    rw [cut, textOf_cons]
    split
    · exact (List.prefix_append_right_inj _).mpr (ih _)
    · obtain ⟨n, -, hpart⟩ := it.part_eq_take l
      have htake := List.take_prefix n it.text
      rw [hpart]
      exact htake.trans (List.prefix_append _ _)

theorem length_cut_le (items : List Item) (l : Nat) : (cut items l).length ≤ l := by
  induction items generalizing l with
  | nil => exact Nat.zero_le l
  | cons it items ih =>
    rw [cut]
    split
    · have hrest := ih (l - it.cost)
      have hit := it.length_text_le
      rw [List.length_append]
      omega
    · exact (it.length_part_le l).trans (Nat.sub_le l 1)

theorem length_cut_cons_lt (h : it.isPlain = false) (items : List Item) (hl : 0 < l) :
    (cut (it :: items) l).length < l := by
  rw [cut]
  split
  · have hrest := length_cut_le items (l - it.cost)
    have hit := it.length_text_lt h
    rw [List.length_append]
    omega
  · exact Nat.lt_of_le_of_lt (it.length_part_le l) (Nat.sub_lt hl Nat.one_pos)

theorem length_cut_lt_iff (items : List Item) (l : Nat) :
    (cut items l).length < l ↔ lead items < l := by
  induction items generalizing l with
  | nil => exact Iff.rfl
  | cons it items ih =>
    cases hplain : it.isPlain with
    | false =>
      have hlead : lead (it :: items) = 0 := by
        rw [lead, List.takeWhile_cons_of_neg (by simp [hplain])]
        rfl
      rw [hlead]
      exact ⟨Nat.zero_lt_of_lt, length_cut_cons_lt hplain items⟩
    | true =>
      cases it with
      | plain c =>
        have hlead : lead (.plain c :: items) = lead items + 1 := by
          rw [lead, List.takeWhile_cons_of_pos rfl]
          rfl
        have hrest := ih (l - 1)
        rw [hlead, cut, Item.cost]
        split
        · next hl =>
          show (cut items (l - 1)).length + 1 < l ↔ _
          omega
        · next hl => omega
      | percent => cases hplain
      | directive k text => cases hplain

theorem needed_eq_zero_iff : needed items = 0 ↔ textOf items = [] := by
  induction items with
  | nil => exact iff_of_true rfl rfl
  | cons it items ih =>
    have hpos := it.cost_pos
    rw [needed, textOf_cons, List.append_eq_nil_iff, ← ih]
    by_cases hrest : needed items = 0
    · by_cases htext : it.text = []
      · simp [hrest, htext]
      · simp [hrest, htext, Nat.ne_of_gt hpos]
    · simp [hrest]

theorem cut_eq_textOf_iff (items : List Item) (l : Nat) :
    cut items l = textOf items ↔ needed items ≤ l := by
  induction items generalizing l with
  | nil => exact iff_of_true rfl (Nat.zero_le l)
  | cons it items ih =>
    rw [cut, needed, textOf_cons]
    by_cases hl : it.cost ≤ l
    · rw [if_pos hl, List.append_cancel_left_eq, ih]
      by_cases hrest : needed items = 0
      · rw [if_pos hrest]
        refine iff_of_true (by omega) ?_
        split
        · exact Nat.zero_le l
        · exact hl
      · rw [if_neg hrest]
        omega
    · -- the item is cut off, so what is written is shorter than its text
      rw [if_neg hl]
      obtain ⟨n, -, hpart⟩ := it.part_eq_take l
      have hcost := it.cost_le
      have hlen := it.length_part_le l
      by_cases htext : it.text = []
      · rw [hpart, htext, if_pos rfl, List.take_nil, List.nil_append]
        by_cases hrest : needed items = 0
        · rw [if_pos hrest]
          exact iff_of_true (needed_eq_zero_iff.mp hrest).symm (Nat.zero_le l)
        · rw [if_neg hrest]
          exact iff_of_false (fun h => hrest (needed_eq_zero_iff.mpr h.symm)) (by omega)
      · have hpos : 0 < it.text.length := List.length_pos_iff.mpr htext
        refine iff_of_false (fun h => ?_) ?_
        · rw [h, List.length_append] at hlen
          omega
        · rw [if_neg htext]
          split <;> omega

/-- With the length `l` left, an item is no obstacle: a `%` that begins no directive may only be the
last character that is looked at, and a `%c` the last one that is written. -/
def Item.Clear (l : Nat) : Item → Prop
  | .plain _ => True
  | .percent => l ≤ 1
  | .directive k text => k = .c → l ≤ text.length + 1

/-- No obstacle is reached. -/
def Smooth : List Item → Nat → Prop
  | [], _ => True
  | it :: items, l => it.Clear l ∧ (it.cost ≤ l → Smooth items (l - it.cost))

/-- The text may come out right behind an obstacle: a `%` with another one behind it, or a `%c` with
anything behind it. -/
def Item.Unclear (items : List Item) : Item → Prop
  | .plain _ => False
  | .percent => ∃ it ∈ items.head?, it.isPlain = false
  | .directive _ _ => items ≠ []

/-- The first obstacle that is reached is one of those. -/
def Odd : List Item → Nat → Prop
  | [], _ => False
  | it :: items, l =>
    it.Clear l ∧ it.cost ≤ l ∧ Odd items (l - it.cost) ∨ ¬ it.Clear l ∧ it.Unclear items

theorem smooth_zero (items : List Item) : Smooth items 0 := by
  cases items with
  | nil => trivial
  | cons it items =>
    refine ⟨?_, fun h => absurd h (Nat.not_le.mpr it.cost_pos)⟩
    cases it with
    | plain c => trivial
    | percent => exact Nat.zero_le 1
    | directive k text => exact fun _ => Nat.zero_le _

end KernelLoader.Tge.Printf
