import Mathlib.Algebra.Group.Nat.Defs
import Mathlib.Data.List.TakeWhile
import Mathlib.Tactic.SplitIfs

namespace Lib
set_option autoImplicit true
set_option relaxedAutoImplicit false

/-- The characters of a C string, which ends at the first NUL. -/
def cString (s : List Char) : List Char := s.takeWhile (· ≠ '\x00')

theorem cString_of_not_mem (h : '\x00' ∉ s) : cString s = s :=
  List.takeWhile_eq_self_iff.mpr fun c hc => by
    have hne : c ≠ '\x00' := fun he => h (he ▸ hc)
    simpa using hne

/-- What stands before and behind the first separator of a text. -/
def splitAt (c : Char) (s : List Char) : Option (List Char × List Char) :=
  if c ∈ s then some (s.takeWhile (· ≠ c), (s.dropWhile (· ≠ c)).tail) else none

theorem splitAt_of_not_mem {c : Char} (h : c ∉ l) (s : List Char) :
    splitAt c (l ++ c :: s) = some (l, s) := by
  have hall : ∀ d ∈ l, (decide (d ≠ c)) = true := fun d hd => by
    have hne : d ≠ c := fun he => h (he ▸ hd)
    simpa using hne
  have htake : (l ++ c :: s).takeWhile (· ≠ c) = l := by
    rw [List.takeWhile_append_of_pos hall]
    simp
  have hdrop : (l ++ c :: s).dropWhile (· ≠ c) = c :: s := by
    rw [List.dropWhile_append_of_pos hall]
    simp
  rw [splitAt, if_pos (by simp), htake, hdrop, List.tail_cons]

theorem splitAt_cases (c : Char) (s : List Char) :
    (c ∉ s ∧ splitAt c s = none) ∨
      ∃ l r, c ∉ l ∧ s = l ++ c :: r ∧ splitAt c s = some (l, r) := by
  by_cases h : c ∈ s
  · obtain ⟨l, r, rfl, hl⟩ := List.eq_append_cons_of_mem h
    exact .inr ⟨l, r, hl, rfl, splitAt_of_not_mem hl r⟩
  · exact .inl ⟨h, if_neg h⟩

/-- What stands before the last separator of a text. -/
def beforeLast (c : Char) (s : List Char) : Option (List Char) :=
  (splitAt c s.reverse).map fun parts => parts.2.reverse

theorem beforeLast_of_not_mem {c : Char} (h : c ∉ r) (s : List Char) :
    beforeLast c (s ++ c :: r) = some s := by
  have hr : c ∉ r.reverse := fun hc => h (List.mem_reverse.mp hc)
  have hrev : (s ++ c :: r).reverse = r.reverse ++ c :: s.reverse := by simp
  rw [beforeLast, hrev, splitAt_of_not_mem hr, Option.map_some, List.reverse_reverse]

/-- At most `n` characters from the front, up to and including the first newline, and what is
left. -/
def takeLine : Nat → List Char → List Char × List Char
  | 0, s => ([], s)
  | _ + 1, [] => ([], [])
  | n + 1, c :: s =>
    if c = '\n' then ([c], s)
    else
      let (line, rest) := takeLine n s
      (c :: line, rest)

/-- What reading with `takeLine` again and again gives, for `fuel` rounds at most. -/
def chunksFuel (n : Nat) : (fuel : Nat) → List Char → List (List Char)
  | 0, _ => []
  | _ + 1, [] => []
  | fuel + 1, c :: s => (takeLine n (c :: s)).1 :: chunksFuel n fuel (takeLine n (c :: s)).2

/-- A file read in pieces of at most `n` characters, none longer than a line. -/
def chunks (n : Nat) (s : List Char) : List (List Char) := chunksFuel n s.length s

theorem takeLine_newline (hl : '\n' ∉ l) (hn : l.length < n) (s : List Char) :
    takeLine n (l ++ '\n' :: s) = (l ++ ['\n'], s) := by
  induction l generalizing n with
  | nil =>
    obtain ⟨n, rfl⟩ := Nat.exists_eq_succ_of_ne_zero (Nat.ne_of_gt hn)
    simp [takeLine]
  | cons c l ih =>
    obtain ⟨n, rfl⟩ := Nat.exists_eq_succ_of_ne_zero (Nat.ne_zero_of_lt hn)
    rw [List.mem_cons, not_or] at hl
    have ihl := ih hl.2 (Nat.lt_of_succ_lt_succ hn)
    simp only [List.cons_append, takeLine, if_neg (Ne.symm hl.1), ihl]

theorem takeLine_end (hl : '\n' ∉ l) (hn : l.length ≤ n) : takeLine n l = (l, []) := by
  induction l generalizing n with
  | nil => cases n <;> rfl
  | cons c l ih =>
    obtain ⟨n, rfl⟩ := Nat.exists_eq_succ_of_ne_zero (Nat.ne_zero_of_lt hn)
    rw [List.mem_cons, not_or] at hl
    simp only [takeLine, if_neg (Ne.symm hl.1), ih hl.2 (Nat.le_of_succ_le_succ hn)]

theorem length_takeLine (n : Nat) (s : List Char) :
    (takeLine n s).1.length + (takeLine n s).2.length = s.length := by
  induction n generalizing s with
  | zero => simp [takeLine]
  | succ n ih =>
    cases s with
    | nil => rfl
    | cons c s =>
      simp only [takeLine]
      split_ifs
      · simp [Nat.add_comm]
      · have := ih s
        simp only [List.length_cons]
        omega

/-- Every round takes a character, so there are rounds enough. -/
theorem chunksFuel_eq {fuel : Nat} (hn : 0 < n) (h : s.length ≤ fuel) :
    chunksFuel n fuel s = chunks n s := by
  obtain ⟨n, rfl⟩ := Nat.exists_eq_succ_of_ne_zero (Nat.ne_of_gt hn)
  unfold chunks
  have hmore (fuel fuel' : Nat) (s : List Char) (h : s.length ≤ fuel) (h' : s.length ≤ fuel') :
      chunksFuel (n + 1) fuel s = chunksFuel (n + 1) fuel' s := by
    induction fuel generalizing fuel' s with
    | zero =>
      obtain rfl : s = [] := List.eq_nil_of_length_eq_zero (Nat.le_zero.mp h)
      cases fuel' <;> rfl
    | succ fuel ih =>
      cases s with
      | nil => cases fuel' <;> rfl
      | cons c s =>
        cases fuel' with
        | zero => simp at h'
        | succ fuel' =>
          -- the round takes at least `c`, so both have fuel left for the rest
          have hpos : 0 < (takeLine (n + 1) (c :: s)).1.length := by
            simp only [takeLine]
            split_ifs <;> simp
          have hlen := length_takeLine (n + 1) (c :: s)
          simp only [List.length_cons] at h h' hlen
          simp only [chunksFuel]
          rw [ih fuel' _ (by omega) (by omega)]
  exact hmore _ _ s h (Nat.le_refl _)

theorem chunks_nil (n : Nat) : chunks n [] = [] := rfl

theorem chunks_newline (hl : '\n' ∉ l) (hn : l.length < n) (s : List Char) :
    chunks n (l ++ '\n' :: s) = (l ++ ['\n']) :: chunks n s := by
  have hpos : 0 < n := Nat.zero_lt_of_lt hn
  obtain ⟨c, t, ht⟩ : ∃ c t, l ++ '\n' :: s = c :: t := by
    cases l with
    | nil => exact ⟨_, _, rfl⟩
    | cons c l => exact ⟨_, _, rfl⟩
  have hline := takeLine_newline hl hn s
  have hlen : (c :: t).length = l.length + s.length + 1 := by
    rw [← ht]
    simp
    omega
  rw [ht] at hline ⊢
  unfold chunks
  rw [hlen]
  simp only [chunksFuel, hline]
  rw [chunksFuel_eq hpos (by omega)]
  rfl

theorem chunks_end (hl : '\n' ∉ l) (hn : l.length ≤ n) (hne : l ≠ []) : chunks n l = [l] := by
  cases l with
  | nil => exact absurd rfl hne
  | cons c l =>
    have hline := takeLine_end hl hn
    simp only [chunks, List.length_cons, chunksFuel, hline]
    cases l.length <;> rfl

theorem takeLine_full (hl : '\n' ∉ l) (s : List Char) : takeLine l.length (l ++ s) = (l, s) := by
  induction l with
  | nil => cases s <;> rfl
  | cons c l ih =>
    rw [List.mem_cons, not_or] at hl
    simp only [List.length_cons, List.cons_append, takeLine, if_neg (Ne.symm hl.1), ih hl.2]

theorem chunks_full (hl : '\n' ∉ l) (hn : l.length = n + 1) (s : List Char) :
    chunks (n + 1) (l ++ s) = l :: chunks (n + 1) s := by
  have hline := takeLine_full hl s
  rw [hn] at hline
  cases l with
  | nil => cases hn
  | cons c l =>
    have hfuel : (c :: l ++ s).length = n + s.length + 1 := by
      rw [List.length_append, hn]
      omega
    have hrest : chunksFuel (n + 1) (n + s.length) s = chunks (n + 1) s :=
      chunksFuel_eq (Nat.succ_pos n) (Nat.le_add_left s.length n)
    rw [chunks, hfuel]
    rw [List.cons_append] at hline ⊢
    rw [chunksFuel, hline, hrest]

/-- The lines of a file that end with a newline, without it, and what stands behind the last one. -/
def splitLines : List Char → List (List Char) × List Char
  | [] => ([], [])
  | c :: s =>
    let (lines, rest) := splitLines s
    if c = '\n' then ([] :: lines, rest)
    else match lines with
      | [] => ([], c :: rest)
      | line :: lines => ((c :: line) :: lines, rest)

theorem splitLines_spec (s : List Char) :
    s = (splitLines s).1.flatMap (· ++ ['\n']) ++ (splitLines s).2 ∧
      (∀ l ∈ (splitLines s).1, '\n' ∉ l) ∧ '\n' ∉ (splitLines s).2 := by
  induction s with
  | nil => simp [splitLines]
  | cons c s ih =>
    obtain ⟨hs, hlines, hrest⟩ := ih
    simp only [splitLines]
    split_ifs with hc
    · subst hc
      refine ⟨?_, ?_, hrest⟩
      · simpa using hs
      · simpa using hlines
    · -- `c` belongs to the first line, or to the rest if there is no newline
      cases hl : (splitLines s).1 with
      | nil =>
        rw [hl] at hs
        refine ⟨by simpa using hs, by simp, ?_⟩
        simpa [Ne.symm hc] using hrest
      | cons l ls =>
        rw [hl] at hs hlines
        refine ⟨by simpa using hs, ?_, hrest⟩
        simp only [List.forall_mem_cons] at hlines ⊢
        refine ⟨?_, hlines.2⟩
        simpa [Ne.symm hc] using hlines.1

theorem chunks_flatMap {ls : List (List Char)} (hls : ∀ l ∈ ls, '\n' ∉ l ∧ l.length < n)
    (s : List Char) :
    chunks n (ls.flatMap (· ++ ['\n']) ++ s) = ls.map (· ++ ['\n']) ++ chunks n s := by
  induction ls with
  | nil => rfl
  | cons l ls ih =>
    rw [List.forall_mem_cons] at hls
    simp only [List.flatMap_cons, List.map_cons, List.append_assoc, List.cons_append,
      List.nil_append]
    rw [chunks_newline hls.1.1 hls.1.2, ih hls.2]

/-- White space as `isspace` of the C locale tells it. -/
def isSpace (c : Char) : Bool := c ∈ [' ', '\t', '\n', '\x0b', '\x0c', '\r']

/-- The integer in front of a text: white space, a sign and digits, all of which may be missing. -/
def leadingInt (s : List Char) : Int :=
  match s.dropWhile isSpace with
  | '-' :: s => -(Nat.ofDigitChars 10 (s.takeWhile Char.isDigit) 0 : Int)
  | '+' :: s => Nat.ofDigitChars 10 (s.takeWhile Char.isDigit) 0
  | s => Nat.ofDigitChars 10 (s.takeWhile Char.isDigit) 0

/-- An integer as `%d` prints it. -/
def printInt (n : Int) : List Char :=
  if n < 0 then '-' :: Nat.toDigits 10 n.natAbs else Nat.toDigits 10 n.natAbs

theorem takeWhile_toDigits (n : Nat) :
    (Nat.toDigits 10 n).takeWhile Char.isDigit = Nat.toDigits 10 n :=
  List.takeWhile_eq_self_iff.mpr fun _ h =>
    Nat.isDigit_of_mem_toDigits (by decide) (by decide) h

theorem ofDigitChars_toDigits (n : Nat) :
    Nat.ofDigitChars 10 ((Nat.toDigits 10 n).takeWhile Char.isDigit) 0 = n := by
  rw [takeWhile_toDigits]
  exact Nat.ofDigitChars_toDigits (by decide) (by decide)

/-- The printed digits start with a digit, so neither white space nor a sign is read. -/
theorem toDigits_head (n : Nat) : ∃ c s, Nat.toDigits 10 n = c :: s ∧ c.isDigit = true := by
  cases h : Nat.toDigits 10 n with
  | nil => exact absurd h Nat.toDigits_ne_nil
  | cons c s =>
    refine ⟨c, s, rfl, Nat.isDigit_of_mem_toDigits (b := 10) (n := n) (by decide) (by decide) ?_⟩
    rw [h]
    exact List.mem_cons_self

theorem not_isSpace_of_isDigit {c : Char} (h : c.isDigit = true) : isSpace c = false := by
  rw [isSpace, decide_eq_false_iff_not]
  intro hm
  simp only [List.mem_cons, List.not_mem_nil, or_false] at hm
  rcases hm with rfl | rfl | rfl | rfl | rfl | rfl <;> revert h <;> decide

theorem leadingInt_digits {c : Char} (hc : c.isDigit = true) (s : List Char) :
    leadingInt (c :: s) = Nat.ofDigitChars 10 ((c :: s).takeWhile Char.isDigit) 0 := by
  have hspace := not_isSpace_of_isDigit hc
  unfold leadingInt
  rw [List.dropWhile_cons_of_neg (by simp [hspace])]
  split
  · rename_i h
    cases h
    exact absurd hc (by decide)
  · rename_i h
    cases h
    exact absurd hc (by decide)
  · rfl

theorem leadingInt_printInt (n : Int) : leadingInt (printInt n) = n := by
  unfold printInt
  split_ifs with hn
  · have hminus : isSpace '-' = false := by decide
    unfold leadingInt
    rw [List.dropWhile_cons_of_neg (by simp [hminus])]
    change -(Nat.ofDigitChars 10 ((Nat.toDigits 10 n.natAbs).takeWhile Char.isDigit) 0 : Int) = n
    rw [ofDigitChars_toDigits]
    omega
  · obtain ⟨c, s, hs, hc⟩ := toDigits_head n.natAbs
    rw [hs, leadingInt_digits hc, ← hs, ofDigitChars_toDigits]
    omega

theorem mem_printInt {c : Char} (h : c ∈ printInt n) : c = '-' ∨ c.isDigit = true := by
  unfold printInt at h
  split_ifs at h
  · rcases List.mem_cons.mp h with rfl | h
    · exact .inl rfl
    · exact .inr (Nat.isDigit_of_mem_toDigits (by decide) (by decide) h)
  · exact .inr (Nat.isDigit_of_mem_toDigits (by decide) (by decide) h)

theorem length_printInt (hk : 0 < k) (h : n.natAbs < 10 ^ k) : (printInt n).length ≤ k + 1 := by
  have hdigits := (Nat.length_toDigits_le_iff (by decide : 1 < 10) hk).mpr h
  unfold printInt
  split_ifs
  · exact Nat.succ_le_succ hdigits
  · exact Nat.le_succ_of_le hdigits

end Lib
