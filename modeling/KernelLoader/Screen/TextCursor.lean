import KernelLoader.Screen.TextBlock

namespace KernelLoader.Screen
open Lib
set_option autoImplicit true
set_option relaxedAutoImplicit false

/-- How many characters of a text without carriage returns are shown in its first line, and how many
are dropped behind them. -/
def firstLine (maxCharsPerLine : Nat) (text : List Char) : Nat × Nat :=
  match (text.take maxCharsPerLine).findIdx? (· = '\n') with
  | some n => (n, 1)
  | none =>
    if text.length < maxCharsPerLine then (text.length, 0)
    else if text[maxCharsPerLine - 1]? = some ' ' then (maxCharsPerLine - 1, 0)
    else
      match (text.take (maxCharsPerLine - 1)).reverse.findIdx? (· = ' ') with
      | some back => (maxCharsPerLine - 2 - back, 1)
      | none => (maxCharsPerLine - 1, 0)

/-- A line with the cursor in it. At the start of a line it is only looked for in the first one. -/
def TextBlock.placeCursor (t : TextBlock) (start : Nat) (line : List Char) : List Char :=
  if (start < t.cursorpos ∧ t.cursorpos ≤ start + line.length) ∨
      ((start : Int) = t.cursorpos ∧ start = 0) then
    line.take (t.cursorpos - start).toNat ++ t.cursorChar :: line.drop (t.cursorpos - start).toNat
  else line

/-- The lines of a text without carriage returns that starts at position `start`. -/
def TextBlock.layout (t : TextBlock) : (fuel start : Nat) → (text : List Char) → List (List Char)
  | 0, _, _ => []
  | fuel + 1, start, text =>
    let (shown, dropped) := firstLine t.maxCharsPerLine text
    t.placeCursor start (text.take shown) ::
      if shown + dropped < text.length then
        t.layout fuel (start + (shown + dropped)) (text.drop (shown + dropped))
      else []

/-- Positions in a text that follow a character its lines drop. -/
def hiddenFrom (maxCharsPerLine : Nat) : (fuel : Nat) → (text : List Char) → List Nat
  | 0, _ => []
  | fuel + 1, text =>
    let (shown, dropped) := firstLine maxCharsPerLine text
    (if dropped = 1 then [shown + 1] else []) ++
      (hiddenFrom maxCharsPerLine fuel (text.drop (shown + dropped))).map (· + (shown + dropped))

def hidden (maxCharsPerLine : Nat) (text : List Char) : List Nat :=
  hiddenFrom maxCharsPerLine (text.length + 1) text

section FirstLine

variable {maxCharsPerLine : Nat} {text seen consumed line gap rest : List Char} {c : Char}

theorem findIdx?_first (hs : ∀ x ∈ seen, f x = false) (hc : f c = true) :
    (seen ++ c :: rest).findIdx? f = some seen.length := by
  induction seen with
  | nil => simp [List.findIdx?_cons, hc]
  | cons x seen ih =>
    rw [List.forall_mem_cons] at hs
    simp [List.findIdx?_cons, hs.1, ih hs.2]

theorem printable_eq_self (h : '\r' ∉ seen) : printable seen = seen := by
  refine List.filter_eq_self.mpr fun x hx => ?_
  have hne : x ≠ '\r' := fun hr => h (hr ▸ hx)
  simpa using hne

theorem isBreak_false (h : isBreak c = false) : decide (c = ' ') = false := by
  have hc : c ≠ ' ' ∧ c ≠ '\r' := by simpa [isBreak] using h
  exact decide_eq_false hc.1

theorem firstLine_finished (hroom : text.length < maxCharsPerLine) (hline : '\n' ∉ text) :
    firstLine maxCharsPerLine text = (text.length, 0) := by
  have hnone : (text.take maxCharsPerLine).findIdx? (· = '\n') = none := by
    rw [List.take_of_length_le (Nat.le_of_lt hroom), List.findIdx?_eq_none_iff]
    intro x hx
    exact decide_eq_false fun h => hline (h ▸ hx)
  rw [firstLine, hnone]
  exact if_pos hroom

theorem firstLine_newline (hroom : seen.length < maxCharsPerLine) (hline : '\n' ∉ seen) :
    firstLine maxCharsPerLine (seen ++ '\n' :: rest) = (seen.length, 1) := by
  have htake : (seen ++ '\n' :: rest).take maxCharsPerLine =
      seen ++ '\n' :: rest.take (maxCharsPerLine - seen.length - 1) := by
    obtain ⟨k, hk⟩ := Nat.exists_eq_add_of_lt hroom
    rw [List.take_append, List.take_of_length_le (Nat.le_of_lt hroom), hk]
    simp [Nat.add_assoc]
  have hsome : ((seen ++ '\n' :: rest).take maxCharsPerLine).findIdx? (· = '\n') =
      some seen.length := by
    rw [htake]
    exact findIdx?_first (fun x hx => decide_eq_false fun h => hline (h ▸ hx)) (by decide)
  rw [firstLine, hsome]

theorem firstLine_full (hfull : seen.length + 1 = maxCharsPerLine) (hline : '\n' ∉ seen)
    (hc : c ≠ '\n') :
    firstLine maxCharsPerLine (seen ++ c :: rest) =
      if c = ' ' then (seen.length, 0)
      else
        match seen.reverse.findIdx? (· = ' ') with
        | some back => (seen.length - 1 - back, 1)
        | none => (seen.length, 0) := by
  subst hfull
  have hnone : ((seen ++ c :: rest).take (seen.length + 1)).findIdx? (· = '\n') = none := by
    rw [List.findIdx?_eq_none_iff, List.take_length_add_append]
    intro x hx
    rcases List.mem_append.mp hx with hx | hx
    · exact decide_eq_false fun h => hline (h ▸ hx)
    · rw [List.take_succ_cons, List.take_zero, List.mem_singleton] at hx
      exact decide_eq_false (hx ▸ hc)
  have hlong : ¬(seen ++ c :: rest).length < seen.length + 1 := by
    rw [List.length_append, List.length_cons]
    omega
  rw [firstLine, hnone]
  simp only [if_neg hlong, Nat.add_sub_cancel, List.getElem?_append_right (Nat.le_refl _),
    Nat.sub_self, List.getElem?_cons_zero, Option.some.injEq, List.take_left]
  rfl

theorem Cut.firstLine_eq (h : Cut maxCharsPerLine text seen consumed line gap)
    (hcr : '\r' ∉ text) : firstLine maxCharsPerLine text = (line.length, gap.length) := by
  have hseen : printable seen = seen :=
    printable_eq_self fun hr => hcr (h.seen_isPrefix.subset hr)
  cases h with
  | finished hroom hline =>
    rw [hseen] at hroom ⊢
    exact firstLine_finished hroom hline
  | newline hroom hline =>
    rw [hseen] at hroom ⊢
    exact firstLine_newline hroom hline
  | blank hfull hline =>
    rw [hseen] at hfull ⊢
    exact firstLine_full hfull hline (by decide)
  | carriage => exact absurd (by simp) hcr
  | @back front back rest b c hfull hline hc hb hback =>
    have hblank : b = ' ' := by
      have hb' : b = ' ' ∨ b = '\r' := by simpa [isBreak] using hb
      refine hb'.resolve_right fun hr => hcr ?_
      simp [hr]
    subst hblank
    have hfront : printable front = front := printable_eq_self fun hr => hcr (by simp [hr])
    -- the last blank of the line is the first one from its end on
    have hlast : (front ++ ' ' :: back).reverse.findIdx? (· = ' ') = some back.length := by
      have hrev : (front ++ ' ' :: back).reverse = back.reverse ++ ' ' :: front.reverse := by simp
      rw [hrev, findIdx?_first ?_ (by decide), List.length_reverse]
      intro x hx
      exact (isBreak_false (hback x (List.mem_reverse.mp hx)))
    rw [hseen] at hfull
    rw [firstLine_full hfull hline hc.1, if_neg (of_decide_eq_false (isBreak_false hc.2)), hlast,
      hfront]
    simp only [List.length_append, List.length_cons]
    rw [show front.length + (back.length + 1) - 1 - back.length = front.length by omega]
    rfl
  | hard hfull hline hc hnone =>
    rw [hseen] at hfull ⊢
    have hlast : seen.reverse.findIdx? (· = ' ') = none := by
      rw [List.findIdx?_eq_none_iff]
      intro x hx
      exact isBreak_false (hnone x (List.mem_reverse.mp hx))
    rw [firstLine_full hfull hline hc.1, if_neg (of_decide_eq_false (isBreak_false hc.2)), hlast]
    rfl

theorem Cut.consumed_eq (h : Cut maxCharsPerLine text seen consumed line gap)
    (hcr : '\r' ∉ text) : consumed = line ++ gap := by
  rw [← h.printable_consumed]
  exact (printable_eq_self fun hr => hcr (h.consumed_isPrefix.subset hr)).symm

theorem Cut.line_isPrefix (h : Cut maxCharsPerLine text seen consumed line gap)
    (hcr : '\r' ∉ text) : line <+: seen := by
  have hseen : printable seen = seen :=
    printable_eq_self fun hr => hcr (h.seen_isPrefix.subset hr)
  have hself : printable seen <+: seen := ⟨[], by rw [List.append_nil, hseen]⟩
  cases h with
  | finished => exact hself
  | newline => exact hself
  | blank => exact hself
  | carriage => exact absurd (by simp) hcr
  | back =>
    rw [printable_append] at hseen
    rw [← hseen]
    exact List.prefix_append _ _
  | hard => exact hself

end FirstLine

section Layout

variable {t : TextBlock} {start fuel maxCharsPerLine : Nat}
  {text seen consumed line gap rest : List Char} {lines : List (List Char)} {c : Nat}

theorem withCursor_eq (hcr : '\r' ∉ seen) (hline : line <+: seen) :
    withCursor t.cursorChar (cursorCol t.cursorpos start seen) line =
      t.placeCursor start line := by
  obtain ⟨behind, rfl⟩ := hline
  have hlength : (line ++ behind).length = line.length + behind.length := List.length_append
  have htake : (printable ((line ++ behind).take (t.cursorpos - start).toNat)).length =
      min (t.cursorpos - start).toNat (line ++ behind).length := by
    rw [printable_eq_self fun hr => hcr (List.mem_of_mem_take hr), List.length_take]
  rw [TextBlock.placeCursor, cursorCol]
  by_cases hin : start < t.cursorpos ∧ t.cursorpos ≤ start + (line ++ behind).length
  · rw [if_pos hin, htake, Nat.min_eq_left (by omega), withCursor]
    refine if_congr ?_ rfl rfl
    omega
  · rw [if_neg hin]
    by_cases hfirst : (start : Int) = t.cursorpos ∧ start = 0
    · have hzero : (t.cursorpos - start).toNat = 0 := by omega
      rw [if_pos hfirst, if_pos (.inr hfirst), hzero]
      rfl
    · rw [if_neg hfirst, if_neg (by omega)]
      rfl

theorem layout_succ (hcut : Cut t.maxCharsPerLine text seen consumed line gap)
    (htext : text = consumed ++ rest) (hcr : '\r' ∉ text) :
    t.layout (fuel + 1) start text = t.placeCursor start line ::
      if rest = [] then [] else t.layout fuel (start + consumed.length) rest := by
  have hall := hcut.consumed_eq hcr
  have hlength : line.length + gap.length = consumed.length := by
    rw [hall, List.length_append]
  have htake : text.take line.length = line := by
    rw [htext, hall, List.append_assoc, List.take_left]
  have hdrop : text.drop consumed.length = rest := by
    rw [htext, List.drop_left]
  have hmore : consumed.length < text.length ↔ rest ≠ [] := by
    rw [htext, List.length_append, Nat.lt_add_right_iff_pos, List.length_pos_iff]
  rw [TextBlock.layout, hcut.firstLine_eq hcr]
  simp only [htake, hlength, hdrop, hmore, ne_eq, ite_not]

theorem mem_hiddenFrom_succ (hcut : Cut maxCharsPerLine text seen consumed line gap)
    (htext : text = consumed ++ rest) (hcr : '\r' ∉ text) :
    c ∈ hiddenFrom maxCharsPerLine (fuel + 1) text ↔
      (gap.length = 1 ∧ c = line.length + 1) ∨
        ∃ k ∈ hiddenFrom maxCharsPerLine fuel rest, k + consumed.length = c := by
  have hlength : line.length + gap.length = consumed.length := by
    rw [hcut.consumed_eq hcr, List.length_append]
  have hdrop : text.drop consumed.length = rest := by
    rw [htext, List.drop_left]
  rw [hiddenFrom, hcut.firstLine_eq hcr]
  simp only [hlength, hdrop, List.mem_append, List.mem_map]
  refine or_congr_left ?_
  by_cases hgap : gap.length = 1 <;> simp [hgap]

theorem Laid.eq_layout (h : Laid t start text lines) (hcr : '\r' ∉ text)
    (hmax : 2 ≤ t.maxCharsPerLine) (hfuel : text.length < fuel) :
    lines = t.layout fuel start text := by
  induction h generalizing fuel with
  | last hcut =>
    obtain ⟨fuel, rfl⟩ := Nat.exists_eq_succ_of_ne_zero (Nat.ne_zero_of_lt hfuel)
    have hseen := fun hr => hcr (hcut.seen_isPrefix.subset hr)
    rw [withCursor_eq hseen (hcut.line_isPrefix hcr),
      layout_succ hcut (List.append_nil _).symm hcr, if_pos rfl]
  | @more start rest seen consumed line gap lines hcut hrest hlaid ih =>
    obtain ⟨fuel, rfl⟩ := Nat.exists_eq_succ_of_ne_zero (Nat.ne_zero_of_lt hfuel)
    have hseen := fun hr => hcr (hcut.seen_isPrefix.subset hr)
    have hprogress := List.length_pos_iff.mpr
      (hcut.consumed_ne_nil hmax (List.append_ne_nil_of_right_ne_nil _ hrest))
    rw [List.length_append] at hfuel
    have hfuel' : rest.length < fuel := by omega
    have hlines := ih (fun hr => hcr (List.mem_append_right _ hr)) hfuel'
    rw [withCursor_eq hseen (hcut.line_isPrefix hcr), layout_succ hcut rfl hcr, if_neg hrest,
      ← hlines]

/-- The cursor is in none of the lines from position `start` on. -/
def TextBlock.Away (t : TextBlock) (start : Nat) : Prop :=
  t.cursorpos < 0 ∨ (t.cursorpos ≤ start ∧ 0 < start)

theorem placeCursor_away (h : t.Away start) (line : List Char) :
    t.placeCursor start line = line := by
  unfold TextBlock.Away at h
  exact if_neg (by omega)

theorem layout_away {t' : TextBlock} (hmax : t.maxCharsPerLine = t'.maxCharsPerLine)
    (h : t.Away start) (h' : t'.Away start) :
    t.layout fuel start text = t'.layout fuel start text := by
  induction fuel generalizing start text with
  | zero => rfl
  | succ fuel ih =>
    have hnext {t : TextBlock} (h : t.Away start) (n : Nat) : t.Away (start + n) := by
      unfold TextBlock.Away at h ⊢
      omega
    rw [TextBlock.layout, TextBlock.layout, hmax]
    dsimp only
    rw [placeCursor_away h, placeCursor_away h', ih (hnext h _) (hnext h' _)]

theorem hiddenFrom_pos (h : k ∈ hiddenFrom maxCharsPerLine fuel text) : 0 < k := by
  induction fuel generalizing text k with
  | zero => cases h
  | succ fuel ih =>
    rw [hiddenFrom, List.mem_append] at h
    rcases h with h | h
    · split at h
      · rw [List.mem_singleton.mp h]
        exact Nat.succ_pos _
      · cases h
    · obtain ⟨k, hk, rfl⟩ := List.mem_map.mp h
      exact Nat.lt_of_lt_of_le (ih hk) (Nat.le_add_right _ _)

theorem not_mem_hiddenFrom (hcut : Cut maxCharsPerLine text seen consumed line gap)
    (htext : text = consumed ++ rest) (hcr : '\r' ∉ text) (hle : c ≤ line.length) :
    c ∉ hiddenFrom maxCharsPerLine (fuel + 1) text := by
  have hlengths := congrArg List.length (hcut.consumed_eq hcr)
  rw [List.length_append] at hlengths
  rw [mem_hiddenFrom_succ hcut htext hcr]
  rintro (⟨-, hc⟩ | ⟨k, hk, hc⟩)
  · omega
  · have := hiddenFrom_pos hk
    omega

theorem mem_hiddenFrom_gap (hcut : Cut maxCharsPerLine text seen consumed line gap)
    (htext : text = consumed ++ rest) (hcr : '\r' ∉ text) (hlt : line.length < c)
    (hle : c ≤ consumed.length) : c ∈ hiddenFrom maxCharsPerLine (fuel + 1) text := by
  have hlengths := congrArg List.length (hcut.consumed_eq hcr)
  rw [List.length_append] at hlengths
  have hgap : gap.length ≤ 1 := by
    rcases hcut.gap_cases with rfl | rfl | rfl <;> decide
  rw [mem_hiddenFrom_succ hcut htext hcr]
  exact .inl (by omega)

theorem mem_hiddenFrom_rest (hcut : Cut maxCharsPerLine text seen consumed line gap)
    (htext : text = consumed ++ rest) (hcr : '\r' ∉ text) (hlt : 0 < c) :
    consumed.length + c ∈ hiddenFrom maxCharsPerLine (fuel + 1) text ↔
      c ∈ hiddenFrom maxCharsPerLine fuel rest := by
  have hlengths := congrArg List.length (hcut.consumed_eq hcr)
  rw [List.length_append] at hlengths
  rw [mem_hiddenFrom_succ hcut htext hcr]
  constructor
  · rintro (⟨hgap, hc⟩ | ⟨k, hk, hc⟩)
    · omega
    · obtain rfl : k = c := by omega
      exact hk
  · intro hc
    exact .inr ⟨c, hc, Nat.add_comm _ _⟩

end Layout

/-- A text is shown in lines; behind each of them a blank or a line feed may be dropped. -/
inductive Spread : (lines : List (List Char)) → (text : List Char) → Prop
  | nil : Spread [] []
  | cons {line gap text : List Char} {lines : List (List Char)}
      (hgap : gap = [] ∨ gap = [' '] ∨ gap = ['\n']) (h : Spread lines text) :
      Spread (line :: lines) (line ++ gap ++ text)

/-- The lines are those without a cursor, but for the cursor. It stands behind the first `c`
characters of the text and before the others. -/
def ShownAt (cursorChar : Char) (text : List Char) (c : Nat) (plain printed : List (List Char)) :
    Prop :=
  ∃ above left right below before, plain = above ++ (left ++ right) :: below ∧
    printed = above ++ (left ++ cursorChar :: right) :: below ∧
    text.take c = before ++ left ∧ Spread above before ∧ Spread (right :: below) (text.drop c)

section Cursor

variable {t t' : TextBlock} {start fuel : Nat}
  {text seen consumed line gap rest : List Char} {plain printed lower : List (List Char)}
  {cursorChar : Char} {c : Nat}

theorem ShownAt.here (hc : c ≤ line.length) (hgap : gap = [] ∨ gap = [' '] ∨ gap = ['\n'])
    (hlower : Spread lower rest) :
    ShownAt cursorChar (line ++ gap ++ rest) c (line :: lower)
      ((line.take c ++ cursorChar :: line.drop c) :: lower) := by
  refine ⟨[], line.take c, line.drop c, lower, [], ?_, rfl, ?_, .nil, ?_⟩
  · rw [List.take_append_drop]
    rfl
  · rw [List.append_assoc, List.take_append_of_le_length hc]
    rfl
  · rw [List.append_assoc, List.drop_append_of_le_length hc, ← List.append_assoc]
    exact .cons hgap hlower

theorem ShownAt.later (h : ShownAt cursorChar rest c plain printed)
    (hgap : gap = [] ∨ gap = [' '] ∨ gap = ['\n']) :
    ShownAt cursorChar (line ++ gap ++ rest) ((line ++ gap).length + c) (line :: plain)
      (line :: printed) := by
  obtain ⟨above, left, right, below, before, rfl, rfl, hbefore, habove, hbelow⟩ := h
  refine ⟨line :: above, left, right, below, line ++ gap ++ before, rfl, rfl, ?_, .cons hgap habove,
    ?_⟩
  · rw [List.take_length_add_append, hbefore, ← List.append_assoc]
  · rw [List.drop_length_add_append]
    exact hbelow

/-- Printing the cursor makes one line longer. -/
theorem ShownAt.ne (h : ShownAt cursorChar text c plain printed) : printed ≠ plain := by
  obtain ⟨above, left, right, below, before, rfl, rfl, -⟩ := h
  intro heq
  have hlength := congrArg (fun lines => lines.flatten.length) heq
  simp at hlength

theorem Laid.spread (h : Laid t start text plain) (hcr : '\r' ∉ text) (hc : t.cursorpos < 0) :
    Spread plain text := by
  induction h with
  | @last start text seen line gap hcut =>
    have hspread : Spread [line] (line ++ gap ++ []) := .cons hcut.gap_cases .nil
    rw [← hcut.consumed_eq hcr, List.append_nil] at hspread
    rw [cursorCol_outside (.inl hc)]
    exact hspread
  | @more start rest seen consumed line gap lines hcut hrest hlaid ih =>
    have hspread : Spread (line :: lines) (line ++ gap ++ rest) :=
      .cons hcut.gap_cases (ih fun hr => hcr (List.mem_append_right _ hr))
    rw [← hcut.consumed_eq hcr] at hspread
    rw [cursorCol_outside (.inl hc)]
    exact hspread

theorem placeCursor_here (hc : t.cursorpos = (start + c : Nat)) (hfirst : 0 < c ∨ start = 0)
    (hle : c ≤ line.length) :
    t.placeCursor start line = line.take c ++ t.cursorChar :: line.drop c := by
  have hcol : (t.cursorpos - start).toNat = c := by omega
  rw [TextBlock.placeCursor, if_pos (by omega), hcol]

theorem placeCursor_behind (hc : t.cursorpos = (start + c : Nat)) (hle : line.length < c) :
    t.placeCursor start line = line :=
  if_neg (by omega)

/-- The cursor is in the first line of a text, or follows the character dropped behind it. -/
theorem cursor_firstLine (hcut : Cut t.maxCharsPerLine text seen consumed line gap)
    (htext : text = consumed ++ rest) (hcr : '\r' ∉ text) (hspread : Spread lower rest)
    (hc : t.cursorpos = (start + c : Nat)) (hfirst : 0 < c ∨ start = 0)
    (hle : c ≤ consumed.length) :
    (c ∈ hiddenFrom t.maxCharsPerLine (fuel + 1) text → t.placeCursor start line = line) ∧
      (c ∉ hiddenFrom t.maxCharsPerLine (fuel + 1) text →
        ShownAt t.cursorChar text c (line :: lower) (t.placeCursor start line :: lower)) := by
  by_cases hshown : c ≤ line.length
  · refine ⟨fun h => absurd h (not_mem_hiddenFrom hcut htext hcr hshown), fun _ => ?_⟩
    rw [placeCursor_here hc hfirst hshown, htext, hcut.consumed_eq hcr]
    exact .here hshown hcut.gap_cases hspread
  · have hlt := Nat.lt_of_not_le hshown
    refine ⟨fun _ => placeCursor_behind hc hlt, fun h => absurd ?_ h⟩
    exact mem_hiddenFrom_gap hcut htext hcr hlt hle

/-- A text that is printed with the cursor, compared with the same text without it. -/
theorem Laid.cursor (h : Laid t' start text plain) (hcr : '\r' ∉ text) (haway : t'.cursorpos < 0)
    (heq : t.maxCharsPerLine = t'.maxCharsPerLine) (hmax : 2 ≤ t'.maxCharsPerLine)
    (hc : t.cursorpos = (start + c : Nat)) (hfirst : 0 < c ∨ start = 0) (hle : c ≤ text.length)
    (hfuel : text.length < fuel) :
    (c ∈ hiddenFrom t.maxCharsPerLine fuel text → t.layout fuel start text = plain) ∧
      (c ∉ hiddenFrom t.maxCharsPerLine fuel text →
        ShownAt t.cursorChar text c plain (t.layout fuel start text)) := by
  induction h generalizing fuel c with
  | @last start text seen line gap hcut =>
    obtain ⟨fuel, rfl⟩ := Nat.exists_eq_succ_of_ne_zero (Nat.ne_zero_of_lt hfuel)
    have htext := (List.append_nil text).symm
    rw [← heq] at hcut
    rw [cursorCol_outside (.inl haway), layout_succ hcut htext hcr, if_pos rfl]
    obtain ⟨hhidden, hvisible⟩ := cursor_firstLine hcut htext hcr .nil hc hfirst hle
    exact ⟨fun h => congrArg (· :: []) (hhidden h), hvisible⟩
  | @more start rest seen consumed line gap lines hcut hrest hlaid ih =>
    obtain ⟨fuel, rfl⟩ := Nat.exists_eq_succ_of_ne_zero (Nat.ne_zero_of_lt hfuel)
    have hrest' : '\r' ∉ rest := fun hr => hcr (List.mem_append_right _ hr)
    have hprogress := List.length_pos_iff.mpr
      (hcut.consumed_ne_nil hmax (List.append_ne_nil_of_right_ne_nil _ hrest))
    have hall := hcut.consumed_eq hcr
    have hlengths := congrArg List.length hall
    rw [List.length_append] at hfuel hle hlengths
    have hfuel' : rest.length < fuel := by omega
    rw [← heq] at hcut
    rw [cursorCol_outside (.inl haway), layout_succ hcut rfl hcr, if_neg hrest]
    by_cases hpassed : c ≤ consumed.length
    · -- behind the cursor the lines are those without it
      have hlower : t.layout fuel (start + consumed.length) rest = lines := by
        rw [hlaid.eq_layout hrest' hmax hfuel']
        exact layout_away heq (.inr (by omega)) (.inl haway)
      rw [hlower]
      obtain ⟨hhidden, hvisible⟩ :=
        cursor_firstLine hcut rfl hcr (hlaid.spread hrest' haway) hc hfirst hpassed
      exact ⟨fun h => congrArg (· :: lines) (hhidden h), hvisible⟩
    · obtain ⟨k, rfl⟩ := Nat.exists_eq_add_of_le (Nat.le_of_not_le hpassed)
      have hk : 0 < k := by omega
      obtain ⟨hhidden, hvisible⟩ := ih (c := k) hrest' (by omega) (.inl hk) (by omega) hfuel'
      rw [mem_hiddenFrom_rest hcut rfl hcr hk, placeCursor_behind hc (by omega)]
      refine ⟨fun h => congrArg (line :: ·) (hhidden h), fun h => ?_⟩
      have hlater : ShownAt t.cursorChar (line ++ gap ++ rest) ((line ++ gap).length + k)
          (line :: lines) (line :: t.layout fuel (start + consumed.length) rest) :=
        (hvisible h).later hcut.gap_cases
      rw [← hall] at hlater
      exact hlater

end Cursor

/-- The texts of the lines that are printed. -/
def TextBlock.shownLines (t : TextBlock) (lineBuffer : Buffer) : Option (List (List Char)) :=
  (t.printTextBlock lineBuffer (t.msg.length + 1)).map fun r => r.2.lines.map Prod.snd

/-- The cursor at position `c` is shown once, between the characters before and behind it. -/
def CursorShown (t : TextBlock) (lineBuffer : Buffer) (c : Nat) : Prop :=
  ∃ plain printed, { t with cursorpos := -1 }.shownLines lineBuffer = some plain ∧
    t.shownLines lineBuffer = some printed ∧ ShownAt t.cursorChar t.msg c plain printed

theorem shownLines_laid {t : TextBlock} (lineBuffer : Buffer) (hnul : '\x00' ∉ t.msg)
    (hmax : 2 ≤ t.maxCharsPerLine) (hkey : t.KeyOk) (hscroll : t.scrollPos = 0)
    (hheight : t.y + 30 * (t.msg.length + 1) ≤ t.maxY - 30) :
    ∃ lines, t.shownLines lineBuffer = some lines ∧ Laid t 0 t.msg lines := by
  obtain ⟨ret, r, hr, hlaid, -⟩ :=
    printTextBlock_laid lineBuffer hnul hmax hkey hscroll hheight
  exact ⟨_, by rw [TextBlock.shownLines, hr, Option.map_some], hlaid⟩

theorem printLines_plain {t : TextBlock} {fuel : Nat} {p r : Printing}
    (hp : ∀ line ∈ p.lines, '\x00' ∉ line.2) (h : t.printLines fuel p = some r) :
    ∀ line ∈ r.lines, '\x00' ∉ line.2 := by
  induction fuel generalizing p with
  | zero => cases h
  | succ fuel ih =>
    have hprint : ∀ line ∈ (t.printLine (t.layLine p)).lines, '\x00' ∉ line.2 := by
      intro line hline
      rcases List.mem_append.mp hline with hline | hline
      · exact hp line hline
      · rw [List.mem_singleton.mp hline]
        exact not_mem_chars_strlen _ _ _
    have hnext : ∀ line ∈ (if decide (t.scrollPos ≤ (t.layLine p).lineNo) then
        t.printLine (t.layLine p) else t.layLine p).lines, '\x00' ∉ line.2 := by
      split
      · exact hprint
      · exact hp
    rw [TextBlock.printLines] at h
    dsimp only at h
    generalize (if decide (t.scrollPos ≤ (t.layLine p).lineNo) then
      t.printLine (t.layLine p) else t.layLine p) = q at h hnext
    split at h
    · cases h
      exact hnext
    · split at h
      · exact ih (p := { q with lineNo := q.lineNo + 1 }) hnext h
      · cases h
        exact hnext

theorem shownLines_plain {t : TextBlock} {lineBuffer : Buffer} {lines : List (List Char)}
    (h : t.shownLines lineBuffer = some lines) : ∀ line ∈ lines, '\x00' ∉ line := by
  rw [TextBlock.shownLines, TextBlock.printTextBlock, Option.map_map, Option.map_eq_some_iff] at h
  obtain ⟨r, hr, rfl⟩ := h
  intro line hline
  obtain ⟨shown, hshown, rfl⟩ := List.mem_map.mp hline
  exact printLines_plain (fun _ h => absurd h List.not_mem_nil) hr shown hshown

/-- The cursor is shown unless it follows a line feed, or the blank at which its line is broken. -/
theorem cursorShown_iff (t : TextBlock) (lineBuffer : Buffer) (c : Nat) (hc : t.cursorpos = c)
    (hle : c ≤ t.msg.length) (hnul : '\x00' ∉ t.msg) (hcr : '\r' ∉ t.msg)
    (hmax : 2 ≤ t.maxCharsPerLine) (hscroll : t.scrollPos = 0)
    (hheight : t.y + 30 * (t.msg.length + 1) ≤ t.maxY - 30) :
    CursorShown t lineBuffer c ↔
      t.cursorChar ≠ '\x00' ∧ c ∉ hidden t.maxCharsPerLine t.msg := by
  by_cases hkey : t.cursorChar = '\x00'
  · refine iff_of_false ?_ fun h => h.1 hkey
    rintro ⟨plain, printed, -, hprinted, above, left, right, lower, before, -, rfl, -⟩
    have hplain := shownLines_plain hprinted (left ++ t.cursorChar :: right) (by simp)
    exact hplain (by simp [hkey])
  have haway : (-1 : Int) < 0 := by decide
  obtain ⟨printed, hprinted, hlaid⟩ :=
    shownLines_laid lineBuffer hnul hmax (.inr hkey) hscroll hheight
  obtain ⟨plain, hplain, hlaid'⟩ :=
    shownLines_laid (t := { t with cursorpos := -1 }) lineBuffer hnul hmax (.inl (.inl haway))
      hscroll hheight
  have hlayout : printed = t.layout (t.msg.length + 1) 0 t.msg :=
    hlaid.eq_layout hcr hmax (Nat.lt_succ_self _)
  obtain ⟨hhidden, hvisible⟩ := hlaid'.cursor (t := t) hcr haway rfl hmax
    (by rw [hc, Nat.zero_add]) (.inr rfl) hle (Nat.lt_succ_self _)
  rw [← hlayout] at hhidden hvisible
  constructor
  · rintro ⟨plain', printed', hplain', hprinted', hshown⟩
    obtain rfl := Option.some.inj (hplain.symm.trans hplain')
    obtain rfl := Option.some.inj (hprinted.symm.trans hprinted')
    exact ⟨hkey, fun hmem => hshown.ne (hhidden hmem)⟩
  · intro hnot
    exact ⟨plain, printed, hplain, hprinted, hvisible hnot.2⟩

/-- The block of `graphic_paint` that shows the text that is edited. -/
def inputBlock (y maxY : Int) (inputBuffer : List Char) (inputScrollPos : Int) (writeable : Bool)
    (cursorpos : Int) (cursorCounter modeFrequenzy : Nat) (emulatedKey : Char) : TextBlock where
  y := y
  maxCharsPerLine := 26
  maxY := maxY
  msg := inputBuffer
  scrollPos := inputScrollPos
  cursorpos := if writeable then cursorpos else -1
  cursor := writeable && decide (cursorCounter < modeFrequenzy / 2)
  emulatedKey := emulatedKey

theorem cursorShown_word :
    CursorShown (inputBlock 170 600 "ro\nramdisk".toList 0 true 6 0 60 ' ') (fun _ => ' ') 6 :=
  (cursorShown_iff (inputBlock 170 600 "ro\nramdisk".toList 0 true 6 0 60 ' ') (fun _ => ' ') 6 rfl
    (by decide) (by decide) (by decide) (by decide) rfl (by decide)).mpr (by decide)

/-- Behind a line feed, and behind the blank at which a long line is broken, the lines are the same
with and without the cursor. -/
theorem cursor_hidden_between_lines :
    ¬CursorShown (inputBlock 170 600 "ro\nramdisk".toList 0 true 3 0 60 ' ') (fun _ => ' ') 3 ∧
      ¬CursorShown (inputBlock 170 600 "crtmode=pal1 ramdisk_size=16384".toList 0 true 13 0 60 ' ')
        (fun _ => ' ') 13 := by
  constructor
  · rintro ⟨plain, printed, hplain, hprinted, hshown⟩
    have hplain' : plain = ["ro".toList, "ramdisk".toList] := (Option.some.inj hplain).symm
    have hprinted' : printed = ["ro".toList, "ramdisk".toList] := (Option.some.inj hprinted).symm
    exact hshown.ne (hprinted'.trans hplain'.symm)
  · rintro ⟨plain, printed, hplain, hprinted, hshown⟩
    have hplain' : plain = ["crtmode=pal1".toList, "ramdisk_size=16384".toList] :=
      (Option.some.inj hplain).symm
    have hprinted' : printed = ["crtmode=pal1".toList, "ramdisk_size=16384".toList] :=
      (Option.some.inj hprinted).symm
    exact hshown.ne (hprinted'.trans hplain'.symm)

end KernelLoader.Screen
