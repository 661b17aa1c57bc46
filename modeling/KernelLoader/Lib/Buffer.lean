import Mathlib.Logic.Function.Basic
import Mathlib.Tactic.SplitIfs

namespace Lib
set_option autoImplicit true
set_option relaxedAutoImplicit false

/-- Memory around the start of a character array; the indices outside of it are other variables. -/
abbrev Buffer := Int → Char

variable {b b' : Buffer} {p q i k r : Int} {s t : List Char}

/-- `n` characters from an index on. -/
def chars (b : Buffer) (p : Int) : Nat → List Char
  | 0 => []
  | n + 1 => b p :: chars b (p + 1) n

/-- Characters other than NUL stand from an index on. -/
def Holds (b : Buffer) (p : Int) : List Char → Prop
  | [] => True
  | c :: s => b p = c ∧ c ≠ '\x00' ∧ Holds b (p + 1) s

/-- A C string starts at an index. -/
def HasString (b : Buffer) (p : Int) (s : List Char) : Prop :=
  Holds b p s ∧ b (p + s.length) = '\x00'

theorem length_chars (b : Buffer) (p : Int) (n : Nat) : (chars b p n).length = n := by
  induction n generalizing p with
  | zero => rfl
  | succ n ih => rw [chars, List.length_cons, ih]

theorem chars_add (b : Buffer) (p : Int) (m n : Nat) :
    chars b p (m + n) = chars b p m ++ chars b (p + m) n := by
  induction m generalizing p with
  | zero => simp [chars]
  | succ m ih =>
    have hp : p + 1 + m = p + (m + 1 : Nat) := by omega
    rw [Nat.succ_add, chars, chars, ih, hp]
    rfl

theorem chars_eq_iff : chars b p n = chars b' q n ↔ ∀ i : Nat, i < n → b (p + i) = b' (q + i) := by
  induction n generalizing p q with
  | zero => exact iff_of_true rfl fun i hi => absurd hi (Nat.not_lt_zero i)
  | succ n ih =>
    have hshift (i : Nat) (p : Int) : p + (i + 1 : Nat) = p + 1 + i := by omega
    rw [chars, chars, List.cons.injEq, ih]
    constructor
    · rintro ⟨hfirst, hrest⟩ i hi
      cases i with
      | zero => simpa using hfirst
      | succ i =>
        rw [hshift, hshift]
        exact hrest i (Nat.lt_of_succ_lt_succ hi)
    · intro h
      refine ⟨by simpa using h 0 (Nat.succ_pos n), fun i hi => ?_⟩
      rw [← hshift, ← hshift]
      exact h (i + 1) (Nat.succ_lt_succ hi)

theorem mem_chars (b : Buffer) {i : Nat} (h : i < n) : b (p + i) ∈ chars b p n := by
  induction n generalizing p i with
  | zero => exact absurd h (Nat.not_lt_zero i)
  | succ n ih =>
    rw [chars, List.mem_cons]
    cases i with
    | zero => exact .inl (by simp)
    | succ i =>
      have hp : p + (i + 1 : Nat) = p + 1 + i := by omega
      rw [hp]
      exact .inr (ih (Nat.lt_of_succ_lt_succ h))

theorem Holds.chars_eq (h : Holds b p s) : chars b p s.length = s := by
  induction s generalizing p with
  | nil => rfl
  | cons c s ih => rw [List.length_cons, chars, h.1, ih h.2.2]

theorem holds_append : Holds b p (s ++ t) ↔ Holds b p s ∧ Holds b (p + s.length) t := by
  induction s generalizing p with
  | nil => simp [Holds]
  | cons c s ih =>
    have hp : p + 1 + s.length = p + (s.length + 1 : Nat) := by omega
    rw [List.cons_append, Holds, Holds, ih, hp, List.length_cons, and_assoc, and_assoc]

theorem Holds.moved (h : Holds b p s)
    (hb : ∀ i, p ≤ i → i < p + s.length → b' (i + k) = b i) : Holds b' (p + k) s := by
  induction s generalizing p with
  | nil => trivial
  | cons c s ih =>
    simp only [List.length_cons] at hb
    have hrest : Holds b' (p + 1 + k) s := ih h.2.2 fun i hl hu => hb i (by omega) (by omega)
    refine ⟨(hb p (by omega) (by omega)).trans h.1, h.2.1, ?_⟩
    rwa [Int.add_right_comm]

theorem Holds.congr (h : Holds b p s) (hb : ∀ i, p ≤ i → i < p + s.length → b' i = b i) :
    Holds b' p s := by
  have hmoved : Holds b' (p + 0) s := h.moved fun i hl hu => by
    rw [Int.add_zero]
    exact hb i hl hu
  rwa [Int.add_zero] at hmoved

theorem Holds.update_behind (h : Holds b p s) (hk : p + s.length ≤ k) (c : Char) :
    Holds (Function.update b k c) p s := by
  refine h.congr fun i _ hi => Function.update_of_ne ?_ _ _
  omega

theorem Holds.concat (h : Holds b p s) (hc : c ≠ '\x00') :
    Holds (Function.update b (p + s.length) c) p (s ++ [c]) :=
  holds_append.mpr ⟨h.update_behind (Int.le_refl _) c, Function.update_self .., hc, trivial⟩

theorem Holds.terminate (h : Holds b p s) :
    HasString (Function.update b (p + s.length) '\x00') p s :=
  ⟨h.update_behind (Int.le_refl _) _, Function.update_self ..⟩

theorem HasString.moved (h : HasString b p s)
    (hb : ∀ i, p ≤ i → i ≤ p + s.length → b' (i + k) = b i) : HasString b' (p + k) s := by
  refine ⟨h.1.moved fun i hl hu => hb i hl (Int.le_of_lt hu), ?_⟩
  rw [Int.add_right_comm]
  exact (hb _ (by omega) (by omega)).trans h.2

theorem HasString.congr (h : HasString b p s) (hb : ∀ i, p ≤ i → i ≤ p + s.length → b' i = b i) :
    HasString b' p s :=
  ⟨h.1.congr fun i hl hu => hb i hl (Int.le_of_lt hu), (hb _ (by omega) (by omega)).trans h.2⟩

theorem hasString_append : HasString b p (s ++ t) ↔
    Holds b p s ∧ HasString b (p + s.length) t := by
  rw [HasString, HasString, holds_append, List.length_append, Int.natCast_add,
    Int.add_assoc, and_assoc]

theorem hasString_cons : HasString b p (c :: s) ↔
    b p = c ∧ c ≠ '\x00' ∧ HasString b (p + 1) s := by
  have hp : p + (s.length + 1 : Nat) = p + 1 + s.length := by omega
  rw [HasString, Holds, List.length_cons, hp, HasString, and_assoc, and_assoc]

/-- `strlen`, which looks at `fuel` characters at most. -/
def strlen (b : Buffer) : (fuel : Nat) → Int → Nat
  | 0, _ => 0
  | fuel + 1, p => if b p = '\x00' then 0 else strlen b fuel (p + 1) + 1

theorem HasString.strlen_eq {fuel : Nat} (h : HasString b p s) (hf : s.length < fuel) :
    strlen b fuel p = s.length := by
  induction s generalizing p fuel with
  | nil =>
    obtain ⟨fuel, rfl⟩ := Nat.exists_eq_succ_of_ne_zero (Nat.ne_of_gt hf)
    have hend : b p = '\x00' := by simpa using h.2
    rw [strlen, if_pos hend]
    rfl
  | cons c s ih =>
    obtain ⟨fuel, rfl⟩ := Nat.exists_eq_succ_of_ne_zero (Nat.ne_zero_of_lt hf)
    obtain ⟨hc, hne, hs⟩ := hasString_cons.mp h
    rw [strlen, if_neg (hc ▸ hne), ih hs (Nat.lt_of_succ_lt_succ hf), List.length_cons]

theorem not_mem_chars_strlen (b : Buffer) (fuel : Nat) (p : Int) :
    '\x00' ∉ chars b p (strlen b fuel p) := by
  induction fuel generalizing p with
  | zero => exact List.not_mem_nil
  | succ fuel ih =>
    rw [strlen]
    split
    next => exact List.not_mem_nil
    next hne =>
      rw [chars, List.mem_cons, not_or]
      exact ⟨Ne.symm hne, ih (p + 1)⟩

/-- `strcpy`, with the indices it writes. -/
def strcpy (b : Buffer) (p : Int) : List Char → List Int × Buffer
  | [] => ([p], Function.update b p '\x00')
  | c :: s =>
    let (written, b) := strcpy (Function.update b p c) (p + 1) s
    (p :: written, b)

theorem strcpy_outside (h : k < p ∨ p + s.length < k) : (strcpy b p s).2 k = b k := by
  induction s generalizing b p with
  | nil =>
    have hne : k ≠ p := by
      simp only [List.length_nil] at h
      omega
    exact Function.update_of_ne hne _ _
  | cons c s ih =>
    simp only [List.length_cons] at h
    rw [strcpy]
    refine (ih (by omega)).trans (Function.update_of_ne ?_ _ _)
    omega

theorem strcpy_hasString (b : Buffer) (p : Int) (h : '\x00' ∉ s) :
    HasString (strcpy b p s).2 p s := by
  induction s generalizing b p with
  | nil =>
    refine ⟨trivial, ?_⟩
    simp [strcpy]
  | cons c s ih =>
    rw [List.mem_cons, not_or] at h
    have hfirst : (strcpy (Function.update b p c) (p + 1) s).2 p = c := by
      rw [strcpy_outside (.inl (by omega)), Function.update_self]
    exact hasString_cons.mpr ⟨hfirst, Ne.symm h.1, ih _ _ h.2⟩

theorem mem_strcpy : k ∈ (strcpy b p s).1 ↔ p ≤ k ∧ k ≤ p + s.length := by
  induction s generalizing b p with
  | nil =>
    simp only [strcpy, List.mem_singleton, List.length_nil]
    omega
  | cons c s ih =>
    simp only [strcpy, List.mem_cons, ih, List.length_cons]
    omega

/-- `n` characters are copied from `r` places behind, starting with the first. What is read and
written is listed. -/
def copyDown (r : Int) : Nat → Buffer → Int → List Int × Buffer
  | 0, b, _ => ([], b)
  | n + 1, b, i =>
    let (used, b) := copyDown r n (Function.update b i (b (r + i))) (i + 1)
    ((r + i) :: i :: used, b)

theorem copyDown_apply (hr : 0 < r) :
    (copyDown r n b i).2 k = if i ≤ k ∧ k < i + n then b (r + k) else b k := by
  induction n generalizing b i with
  | zero =>
    rw [if_neg (by omega)]
    rfl
  | succ n ih =>
    rw [copyDown]
    refine ih.trans ?_
    simp only [Function.update_apply]
    by_cases hk : k = i
    · subst hk
      rw [if_neg (by omega), if_pos rfl, if_pos (by omega)]
    · by_cases hin : i + 1 ≤ k ∧ k < i + 1 + n
      · rw [if_pos hin, if_neg (by omega), if_pos (by omega)]
      · rw [if_neg hin, if_neg hk, if_neg (by omega)]

theorem mem_copyDown (h : k ∈ (copyDown r n b i).1) :
    (i ≤ k ∧ k < i + n) ∨ (r + i ≤ k ∧ k < r + i + n) := by
  induction n generalizing b i with
  | zero => cases h
  | succ n ih =>
    simp only [copyDown, List.mem_cons] at h
    rcases h with rfl | rfl | h
    · omega
    · omega
    · rcases ih h with h | h <;> omega

/-- `n` characters are moved one place up, starting with the last at `i`; with the indices that are
written. -/
def moveUp : Nat → Buffer → Int → List Int × Buffer
  | 0, b, _ => ([], b)
  | n + 1, b, i =>
    let (written, b) := moveUp n (Function.update b (i + 1) (b i)) (i - 1)
    ((i + 1) :: written, b)

theorem moveUp_apply :
    (moveUp n b i).2 k = if i - n + 2 ≤ k ∧ k ≤ i + 1 then b (k - 1) else b k := by
  induction n generalizing b i with
  | zero =>
    rw [if_neg (by omega)]
    rfl
  | succ n ih =>
    rw [moveUp]
    refine ih.trans ?_
    simp only [Function.update_apply]
    by_cases hk : k = i + 1
    · subst hk
      rw [if_neg (by omega), if_pos rfl, if_pos (by omega)]
      congr 1
      omega
    · by_cases hin : i - 1 - n + 2 ≤ k ∧ k ≤ i - 1 + 1
      · rw [if_pos hin, if_neg (by omega), if_pos (by omega)]
      · rw [if_neg hin, if_neg hk, if_neg (by omega)]

theorem mem_moveUp : k ∈ (moveUp n b i).1 ↔ i - n + 2 ≤ k ∧ k ≤ i + 1 := by
  induction n generalizing b i with
  | zero =>
    simp only [moveUp, List.not_mem_nil, false_iff]
    omega
  | succ n ih =>
    simp only [moveUp, List.mem_cons, ih]
    omega

/-- Every character is replaced by the next one up to the end of the string; with the indices that
are written. -/
def moveDown : (fuel : Nat) → Buffer → Int → List Int × Buffer
  | 0, b, _ => ([], b)
  | fuel + 1, b, p =>
    if b p = '\x00' then ([], b)
    else
      let (written, b) := moveDown fuel (Function.update b p (b (p + 1))) (p + 1)
      (p :: written, b)

theorem moveDown_nil (fuel : Nat) (h : HasString b p []) : moveDown fuel b p = ([], b) := by
  have hend : b p = '\x00' := by simpa using h.2
  cases fuel with
  | zero => rfl
  | succ fuel => rw [moveDown, if_pos hend]

theorem moveDown_cons {fuel : Nat} (h : HasString b p (c :: s)) (hf : s.length < fuel) :
    HasString (moveDown fuel b p).2 p s ∧ (∀ k < p, (moveDown fuel b p).2 k = b k) ∧
      ∀ k ∈ (moveDown fuel b p).1, p ≤ k ∧ k ≤ p + s.length := by
  induction s generalizing b p c fuel with
  | nil =>
    obtain ⟨fuel, rfl⟩ := Nat.exists_eq_succ_of_ne_zero (Nat.ne_of_gt hf)
    obtain ⟨hc, hne, hs⟩ := hasString_cons.mp h
    have hend : b (p + 1) = '\x00' := by simpa using hs.2
    have hs' : HasString (Function.update b p (b (p + 1))) (p + 1) [] := by
      refine hs.congr fun i hl _ => Function.update_of_ne ?_ _ _
      omega
    rw [moveDown, if_neg (hc ▸ hne), moveDown_nil fuel hs']
    refine ⟨⟨trivial, ?_⟩, fun k hk => ?_, fun k hk => ?_⟩
    · simpa using hend
    · exact Function.update_of_ne (Int.ne_of_lt hk) _ _
    · obtain rfl := List.mem_singleton.mp hk
      simp
  | cons d s ih =>
    obtain ⟨fuel, rfl⟩ := Nat.exists_eq_succ_of_ne_zero (Nat.ne_zero_of_lt hf)
    obtain ⟨hc, hne, hs⟩ := hasString_cons.mp h
    have hs' : HasString (Function.update b p (b (p + 1))) (p + 1) (d :: s) := by
      refine hs.congr fun i hl _ => Function.update_of_ne ?_ _ _
      omega
    -- the rest of the loop removes `d`, which was copied to `p` before
    obtain ⟨hrest, hbelow, hwritten⟩ := ih hs' (Nat.lt_of_succ_lt_succ hf)
    obtain ⟨hd, hdne, -⟩ := hasString_cons.mp hs
    rw [moveDown, if_neg (hc ▸ hne)]
    refine ⟨hasString_cons.mpr ⟨?_, hdne, hrest⟩, fun k hk => ?_, fun k hk => ?_⟩
    · exact (hbelow p (by omega)).trans ((Function.update_self ..).trans hd)
    · exact (hbelow k (by omega)).trans (Function.update_of_ne (Int.ne_of_lt hk) _ _)
    · simp only [List.length_cons]
      rcases List.mem_cons.mp hk with rfl | hk
      · omega
      · have := hwritten k hk
        omega

theorem HasString.erase {k fuel : Nat} (h : HasString b 0 s) (hk : k < s.length)
    (hf : s.length ≤ fuel) : HasString (moveDown fuel b k).2 0 (s.eraseIdx k) ∧
      ∀ i ∈ (moveDown fuel b k).1, 0 ≤ i ∧ i < s.length := by
  have hsplit : s = s.take k ++ s[k] :: s.drop (k + 1) := by
    rw [← List.drop_eq_getElem_cons hk, List.take_append_drop]
  have hfront : (s.take k).length = k := List.length_take_of_le (Nat.le_of_lt hk)
  have hback : (s.drop (k + 1)).length = s.length - (k + 1) := List.length_drop
  rw [hsplit, hasString_append, hfront, Int.zero_add] at h
  have hroom : (s.drop (k + 1)).length < fuel := by omega
  obtain ⟨hrest, hbelow, hwritten⟩ := moveDown_cons h.2 hroom
  rw [List.eraseIdx_eq_take_drop_succ, hasString_append, hfront, Int.zero_add]
  refine ⟨⟨h.1.congr fun i _ hu => hbelow i (by omega), hrest⟩, fun i hi => ?_⟩
  have := hwritten i hi
  omega

/-- A character is inserted into a string; what follows it, and what stands up to `m`, moves up. -/
theorem HasString.insert_moving {k m : Nat} (h : HasString b 0 s) (hk : k ≤ s.length)
    (hm : s.length ≤ m) (hc : c ≠ '\x00') :
    HasString (Function.update (moveUp (m + 1 - k) b m).2 k c) 0 (s.take k ++ c :: s.drop k) := by
  have hfront : (s.take k).length = k := List.length_take_of_le hk
  have hback : (s.drop k).length = s.length - k := List.length_drop
  have happly (i : Int) (hi : i ≠ k) :
      Function.update (moveUp (m + 1 - k) b m).2 k c i =
        if k + 1 ≤ i ∧ i ≤ m + 1 then b (i - 1) else b i := by
    rw [Function.update_of_ne hi, moveUp_apply]
    refine if_congr ?_ rfl rfl
    omega
  rw [← List.take_append_drop k s, hasString_append, hfront, Int.zero_add] at h
  rw [hasString_append, hfront, hasString_cons, Int.zero_add]
  refine ⟨h.1.congr fun i _ hu => ?_, Function.update_self .., hc, h.2.moved fun i hl hu => ?_⟩
  · rw [happly i (by omega), if_neg (by omega)]
  · rw [happly (i + 1) (by omega), if_pos (by omega), Int.add_sub_cancel]

theorem HasString.insert {k : Nat} (h : HasString b 0 s) (hk : k ≤ s.length) (hc : c ≠ '\x00') :
    HasString (Function.update (moveUp (s.length + 2 - k) b (s.length + 1)).2 k c) 0
      (s.take k ++ c :: s.drop k) :=
  h.insert_moving hk (Nat.le_succ _) hc

end Lib
