import KernelLoader.Lib.Buffer

namespace KernelLoader.Screen
open Lib
set_option autoImplicit true
set_option relaxedAutoImplicit false

/-- The arguments of `printTextBlock`, without the column and the depth, and the key that is shown
when the cursor is not. -/
structure TextBlock where
  y : Int
  maxCharsPerLine : Nat
  maxY : Int
  msg : List Char
  scrollPos : Int
  cursorpos : Int
  cursor : Bool
  emulatedKey : Char

def TextBlock.cursorChar (t : TextBlock) : Char := if t.cursor then '_' else t.emulatedKey

/-- The variables of the inner loop. `none` stands for -1. The indices used with `lineBuffer` are
listed. -/
structure LineScan where
  lineBuffer : Buffer
  used : List Int
  i : Nat
  pos : Nat
  lastSpace : Option Nat
  lastSpacePos : Nat
  insertCursorPos : Option Nat

namespace LineScan

def store (k : Nat) (c : Char) (s : LineScan) : LineScan :=
  { s with lineBuffer := Function.update s.lineBuffer k c, used := s.used ++ [(k : Int)] }

/-- The line may end before column `i`, and the next one starts at `p`. -/
def breakAt (p : Nat) (s : LineScan) : LineScan :=
  { s with lastSpace := some s.i, lastSpacePos := p }

def next (cursorpos : Int) (width : Nat) (s : LineScan) : LineScan :=
  { s with
    i := s.i + width
    pos := s.pos + 1
    insertCursorPos :=
      if ((s.pos + 1 : Nat) : Int) = cursorpos then some (s.i + width) else s.insertCursorPos }

/-- Column of the NUL that ends the line. -/
def cutCol (s : LineScan) : Nat := s.lastSpace.getD s.i

def nextPos (s : LineScan) : Nat := if s.lastSpace = none then s.pos else s.lastSpacePos

/-- What is done with the line behind the inner loop. -/
def finish (cursorChar : Char) (s : LineScan) : LineScan :=
  let t := s.store s.cutCol '\x00'
  match s.insertCursorPos with
  | none => t
  | some k =>
    if k ≤ s.cutCol then
      let moved := moveUp (s.cutCol + 1 - k) t.lineBuffer s.cutCol
      { t with
        lineBuffer := moved.2
        used := t.used ++ moved.1.map (· - 1) ++ moved.1 }.store k cursorChar
    else t

end LineScan

/-- The inner loop. The list holds the characters of the text from `pos` on. -/
def scanLine (maxCharsPerLine : Nat) (cursorpos : Int) : List Char → LineScan → LineScan
  | [], s => if s.i < maxCharsPerLine then (s.store s.i '\x00').breakAt s.pos else s
  | c :: rest, s =>
    if s.i < maxCharsPerLine then
      let s := s.store s.i c
      let s := if c = '\r' then (s.store s.i '\x00').breakAt (s.pos + 1) else s
      if c = '\n' then { (s.store s.i '\x00').breakAt (s.pos + 1) with pos := s.pos + 1 }
      else if s.i + 1 ≥ maxCharsPerLine then
        -- a blank in the last column is shown at the beginning of the next line
        if c = ' ' then s.breakAt s.pos else s
      else
        let s := if c = ' ' then s.breakAt (s.pos + 1) else s
        scanLine maxCharsPerLine cursorpos rest (s.next cursorpos (if c = '\r' then 0 else 1))
    else s

/-- The variables of the outer loop, and the lines that were printed with their height. -/
structure Printing where
  lineBuffer : Buffer
  used : List Int
  pos : Nat
  lineNo : Nat
  y : Int
  lines : List (Int × List Char)

namespace TextBlock

def beginLine (t : TextBlock) (p : Printing) : LineScan where
  lineBuffer := p.lineBuffer
  used := p.used
  i := 0
  pos := p.pos
  lastSpace := none
  lastSpacePos := 0
  insertCursorPos := if (p.pos : Int) = t.cursorpos ∧ p.pos = 0 then some 0 else none

def layLine (t : TextBlock) (p : Printing) : Printing :=
  let s := scanLine t.maxCharsPerLine t.cursorpos (t.msg.drop p.pos) (t.beginLine p)
  let f := s.finish t.cursorChar
  { p with lineBuffer := f.lineBuffer, used := f.used, pos := s.nextPos }

/-- `gsKit_fontm_print_scaled` reads the line up to its NUL. -/
def printLine (t : TextBlock) (p : Printing) : Printing :=
  let length := strlen p.lineBuffer (t.maxCharsPerLine + 2) 0
  { p with
    used := p.used ++ (List.range (length + 1)).map Int.ofNat
    lines := p.lines ++ [(p.y, chars p.lineBuffer 0 length)]
    y := p.y + 30 }

def printLines (t : TextBlock) : (fuel : Nat) → Printing → Option Printing
  | 0, _ => none
  | fuel + 1, p =>
    let p := t.layLine p
    let shown := decide (t.scrollPos ≤ p.lineNo)
    let p := if shown then t.printLine p else p
    if shown = true ∧ p.y > t.maxY - 30 then some p
    else
      let p := { p with lineNo := p.lineNo + 1 }
      if p.pos < t.msg.length then t.printLines fuel p else some p

/-- The value that is returned, and the state of the outer loop at its end. -/
def printTextBlock (t : TextBlock) (lineBuffer : Buffer) (fuel : Nat) : Option (Int × Printing) :=
  (t.printLines fuel ⟨lineBuffer, [], 0, 0, t.y, []⟩).map fun p =>
    (if (p.lineNo : Int) < t.scrollPos then p.lineNo else t.scrollPos, p)

end TextBlock

/-- What a text leaves in a line: everything but carriage returns. -/
def printable (text : List Char) : List Char := text.filter (· ≠ '\r')

/-- At these characters a line that gets too long is broken. -/
def isBreak (c : Char) : Bool := c = ' ' ∨ c = '\r'

/-- The first line of a text. `seen` is looked at, `line` is shown, `consumed` does not belong to
the next line, and `gap` is the character that is neither shown nor left. -/
inductive Cut (maxCharsPerLine : Nat) : (text seen consumed line gap : List Char) → Prop
  | finished {text : List Char} (hroom : (printable text).length < maxCharsPerLine)
      (hline : '\n' ∉ text) : Cut maxCharsPerLine text text text (printable text) []
  | newline {seen rest : List Char} (hroom : (printable seen).length < maxCharsPerLine)
      (hline : '\n' ∉ seen) :
      Cut maxCharsPerLine (seen ++ '\n' :: rest) seen (seen ++ ['\n']) (printable seen) ['\n']
  | blank {seen rest : List Char} (hfull : (printable seen).length + 1 = maxCharsPerLine)
      (hline : '\n' ∉ seen) :
      Cut maxCharsPerLine (seen ++ ' ' :: rest) seen seen (printable seen) []
  | carriage {seen rest : List Char} (hfull : (printable seen).length + 1 = maxCharsPerLine)
      (hline : '\n' ∉ seen) :
      Cut maxCharsPerLine (seen ++ '\r' :: rest) seen (seen ++ ['\r']) (printable seen) []
  | back {front back rest : List Char} {b c : Char}
      (hfull : (printable (front ++ b :: back)).length + 1 = maxCharsPerLine)
      (hline : '\n' ∉ front ++ b :: back) (hc : c ≠ '\n' ∧ isBreak c = false)
      (hb : isBreak b = true) (hback : ∀ x ∈ back, isBreak x = false) :
      Cut maxCharsPerLine (front ++ b :: back ++ c :: rest) (front ++ b :: back) (front ++ [b])
        (printable front) (printable [b])
  | hard {seen rest : List Char} {c : Char}
      (hfull : (printable seen).length + 1 = maxCharsPerLine)
      (hline : '\n' ∉ seen) (hc : c ≠ '\n' ∧ isBreak c = false)
      (hseen : ∀ x ∈ seen, isBreak x = false) :
      Cut maxCharsPerLine (seen ++ c :: rest) seen seen (printable seen) []

section Cuts

variable {maxCharsPerLine : Nat} {text seen consumed line gap front back : List Char}

theorem printable_append (s t : List Char) : printable (s ++ t) = printable s ++ printable t :=
  List.filter_append ..

theorem printable_concat (h : c ≠ '\r') : printable (s ++ [c]) = printable s ++ [c] := by
  rw [printable_append]
  simp [printable, h]

theorem printable_concat_return (s : List Char) : printable (s ++ ['\r']) = printable s := by
  rw [printable_append]
  simp [printable]

theorem printable_break (h : isBreak b = true) : printable [b] = [] ∨ printable [b] = [' '] := by
  simp only [isBreak, Bool.decide_or, Bool.or_eq_true, decide_eq_true_eq] at h
  rcases h with rfl | rfl
  · exact .inr rfl
  · exact .inl rfl

theorem Cut.length_line (h : Cut maxCharsPerLine text seen consumed line gap) :
    line.length < maxCharsPerLine := by
  cases h with
  | finished hroom => exact hroom
  | newline hroom => exact hroom
  | blank hfull => omega
  | carriage hfull => omega
  | back hfull =>
    rw [printable_append, List.length_append] at hfull
    omega
  | hard hfull => omega

theorem Cut.consumed_isPrefix (h : Cut maxCharsPerLine text seen consumed line gap) :
    consumed <+: text := by
  cases h with
  | finished => exact List.prefix_refl _
  | newline => exact ⟨_, List.append_assoc ..⟩
  | blank => exact List.prefix_append _ _
  | carriage => exact ⟨_, List.append_assoc ..⟩
  | @back front back rest b c => exact ⟨back ++ c :: rest, by simp⟩
  | hard => exact List.prefix_append _ _

theorem Cut.seen_isPrefix (h : Cut maxCharsPerLine text seen consumed line gap) :
    seen <+: text := by
  cases h with
  | finished => exact List.prefix_refl _
  | newline => exact List.prefix_append _ _
  | blank => exact List.prefix_append _ _
  | carriage => exact List.prefix_append _ _
  | back => exact List.prefix_append _ _
  | hard => exact List.prefix_append _ _

theorem Cut.printable_consumed (h : Cut maxCharsPerLine text seen consumed line gap) :
    printable consumed = line ++ gap := by
  cases h with
  | finished => rw [List.append_nil]
  | newline => exact printable_concat (by decide)
  | blank => rw [List.append_nil]
  | carriage => rw [printable_concat_return, List.append_nil]
  | back => exact printable_append _ _
  | hard => rw [List.append_nil]

theorem Cut.gap_cases (h : Cut maxCharsPerLine text seen consumed line gap) :
    gap = [] ∨ gap = [' '] ∨ gap = ['\n'] := by
  cases h with
  | finished => exact .inl rfl
  | newline => exact .inr (.inr rfl)
  | blank => exact .inl rfl
  | carriage => exact .inl rfl
  | back _ _ _ hb =>
    rcases printable_break hb with h | h
    · exact .inl h
    · exact .inr (.inl h)
  | hard => exact .inl rfl

theorem Cut.consumed_ne_nil (h : Cut maxCharsPerLine text seen consumed line gap)
    (hmax : 2 ≤ maxCharsPerLine) (htext : text ≠ []) : consumed ≠ [] := by
  have hseen (hfull : (printable seen).length + 1 = maxCharsPerLine) : seen ≠ [] := by
    rintro rfl
    rw [printable, List.filter_nil, List.length_nil] at hfull
    omega
  cases h with
  | finished => exact htext
  | newline => simp
  | blank hfull => exact hseen hfull
  | carriage => simp
  | back => simp
  | hard hfull => exact hseen hfull

end Cuts

/-- Column of the cursor when `seen` was looked at from position `start` on. -/
def cursorCol (cursorpos : Int) (start : Nat) (seen : List Char) : Option Nat :=
  if start < cursorpos ∧ cursorpos ≤ start + seen.length then
    some (printable (seen.take (cursorpos - start).toNat)).length
  else if (start : Int) = cursorpos ∧ start = 0 then some 0 else none

theorem cursorCol_outside {cursorpos : Int} {start : Nat} {seen : List Char}
    (h : cursorpos < 0 ∨ start + seen.length < cursorpos) :
    cursorCol cursorpos start seen = none := by
  rw [cursorCol, if_neg (by omega), if_neg (by omega)]

theorem cursorCol_concat (cursorpos : Int) (start : Nat) (seen : List Char) (c : Char) :
    cursorCol cursorpos start (seen ++ [c]) =
      if ((start + seen.length + 1 : Nat) : Int) = cursorpos then
        some (printable (seen ++ [c])).length
      else cursorCol cursorpos start seen := by
  have hlength : ((seen ++ [c]).length : Int) = seen.length + 1 := by simp
  by_cases hhere : ((start + seen.length + 1 : Nat) : Int) = cursorpos
  · have htake : (seen ++ [c]).take (cursorpos - start).toNat = seen ++ [c] :=
      List.take_of_length_le (by omega)
    rw [if_pos hhere, cursorCol, if_pos (by omega), htake]
  · rw [if_neg hhere, cursorCol, cursorCol, hlength]
    by_cases hin : start < cursorpos ∧ cursorpos ≤ start + seen.length
    · rw [if_pos (by omega), if_pos hin, List.take_append_of_le_length (by omega)]
    · rw [if_neg (by omega), if_neg hin]

/-- The last place where the line may be broken. -/
def BreakKnown (start : Nat) (seen : List Char) (s : LineScan) : Prop :=
  match s.lastSpace with
  | none => ∀ x ∈ seen, isBreak x = false
  | some col => ∃ front b back, seen = front ++ b :: back ∧ isBreak b = true ∧
      (∀ x ∈ back, isBreak x = false) ∧ col = (printable front).length ∧
      s.lastSpacePos = start + front.length + 1

/-- The inner loop has looked at `seen`, which starts at position `start` of the text. -/
structure Scanned (t : TextBlock) (start : Nat) (seen : List Char) (s : LineScan) : Prop where
  pos : s.pos = start + seen.length
  col : s.i = (printable seen).length
  room : s.i < t.maxCharsPerLine
  holds : Holds s.lineBuffer 0 (printable seen)
  line : '\n' ∉ seen
  known : BreakKnown start seen s
  cursor : s.insertCursorPos = cursorCol t.cursorpos start seen
  used : ∀ k ∈ s.used, 0 ≤ k ∧ k ≤ t.maxCharsPerLine

/-- The inner loop has come to the end of a line. -/
structure Ended (t : TextBlock) (start : Nat) (seen consumed line : List Char) (s : LineScan) :
    Prop where
  pos : s.nextPos = start + consumed.length
  col : s.cutCol = line.length
  holds : Holds s.lineBuffer 0 line
  cursor : s.insertCursorPos = cursorCol t.cursorpos start seen
  used : ∀ k ∈ s.used, 0 ≤ k ∧ k ≤ t.maxCharsPerLine

section Scan

variable {t : TextBlock} {start maxCharsPerLine : Nat} {cursorpos : Int} {seen rest : List Char}
  {s : LineScan} {c : Char}

theorem mem_concat {used : List Int} {i max : Nat} (h : ∀ k ∈ used, 0 ≤ k ∧ k ≤ (max : Int))
    (hi : i ≤ max) : ∀ k ∈ used ++ [(i : Int)], 0 ≤ k ∧ k ≤ (max : Int) := by
  intro k hk
  rcases List.mem_append.mp hk with hk | hk
  · exact h k hk
  · rw [List.mem_singleton.mp hk]
    omega

theorem Scanned.used_store (h : Scanned t start seen s) (c : Char) :
    ∀ k ∈ (s.store s.i c).used, 0 ≤ k ∧ k ≤ t.maxCharsPerLine :=
  mem_concat h.used (Nat.le_of_lt h.room)

theorem Scanned.holds_store (h : Scanned t start seen s) (c : Char) :
    Holds (s.store s.i c).lineBuffer 0 (printable seen) :=
  h.holds.update_behind (by rw [h.col]; omega) c

theorem Scanned.holds_concat (h : Scanned t start seen s) (hc : c ≠ '\x00') (hr : c ≠ '\r') :
    Holds (s.store s.i c).lineBuffer 0 (printable (seen ++ [c])) := by
  have hconcat := h.holds.concat hc
  rw [Int.zero_add, ← h.col] at hconcat
  rw [printable_concat hr]
  exact hconcat

theorem Scanned.next (h : Scanned t start seen s) {s' : LineScan} {width : Nat}
    (hpos : s'.pos = s.pos) (hcursor : s'.insertCursorPos = s.insertCursorPos)
    (hcol : s'.i + width = (printable (seen ++ [c])).length)
    (hroom : s'.i + width < t.maxCharsPerLine)
    (hholds : Holds s'.lineBuffer 0 (printable (seen ++ [c]))) (hline : c ≠ '\n')
    (hknown : BreakKnown start (seen ++ [c]) s')
    (hused : ∀ k ∈ s'.used, 0 ≤ k ∧ k ≤ t.maxCharsPerLine) :
    Scanned t start (seen ++ [c]) (s'.next t.cursorpos width) where
  pos := by
    rw [List.length_append, List.length_singleton, ← Nat.add_assoc, ← h.pos, ← hpos]
    rfl
  col := hcol
  room := hroom
  holds := hholds
  line := by
    rw [List.mem_append, List.mem_singleton]
    rintro (hmem | hmem)
    · exact h.line hmem
    · exact hline hmem.symm
  known := hknown
  cursor := by
    rw [cursorCol_concat, ← h.pos, ← hpos, ← hcol, ← h.cursor, ← hcursor]
    rfl
  used := hused

theorem Scanned.other (h : Scanned t start seen s) (hroom : s.i + 1 < t.maxCharsPerLine)
    (hnul : c ≠ '\x00') (hc : c ≠ '\n' ∧ isBreak c = false) :
    Scanned t start (seen ++ [c]) ((s.store s.i c).next t.cursorpos 1) := by
  have hr : c ≠ '\r' := by
    rintro rfl
    cases hc.2
  refine h.next rfl rfl ?_ hroom (h.holds_concat hnul hr) hc.1 ?_ (h.used_store c)
  · rw [printable_concat hr, List.length_append, ← h.col]
    rfl
  · -- the last break is where it was
    have hknown := h.known
    unfold BreakKnown at hknown ⊢
    change match s.lastSpace with | none => _ | some col => _
    cases hlast : s.lastSpace with
    | none =>
      rw [hlast] at hknown
      intro x hx
      rcases List.mem_append.mp hx with hx | hx
      · exact hknown x hx
      · rw [List.mem_singleton.mp hx]
        exact hc.2
    | some col =>
      rw [hlast] at hknown
      obtain ⟨front, b, back, rfl, hb, hback, hcol, hpos⟩ := hknown
      refine ⟨front, b, back ++ [c], by simp, hb, fun x hx => ?_, hcol, hpos⟩
      rcases List.mem_append.mp hx with hx | hx
      · exact hback x hx
      · rw [List.mem_singleton.mp hx]
        exact hc.2

theorem Scanned.known_breakAt (h : Scanned t start seen s) (hb : isBreak c = true) (s' : LineScan)
    (hcol : s'.i = s.i) (hpos : s'.pos = s.pos) :
    BreakKnown start (seen ++ [c]) (s'.breakAt (s'.pos + 1)) := by
  refine ⟨seen, c, [], rfl, hb, fun x hx => absurd hx List.not_mem_nil, hcol.trans h.col, ?_⟩
  change s'.pos + 1 = _
  rw [hpos, h.pos]

theorem Scanned.blank (h : Scanned t start seen s) (hroom : s.i + 1 < t.maxCharsPerLine) :
    Scanned t start (seen ++ [' '])
      (((s.store s.i ' ').breakAt (s.pos + 1)).next t.cursorpos 1) := by
  refine h.next rfl rfl ?_ hroom (h.holds_concat (by decide) (by decide)) (by decide)
    (h.known_breakAt rfl (s.store s.i ' ') rfl rfl) (h.used_store ' ')
  rw [printable_concat (by decide), List.length_append, ← h.col]
  rfl

theorem Scanned.carriage (h : Scanned t start seen s) :
    Scanned t start (seen ++ ['\r'])
      ((((s.store s.i '\r').store s.i '\x00').breakAt (s.pos + 1)).next t.cursorpos 0) := by
  have hholds : Holds ((s.store s.i '\r').store s.i '\x00').lineBuffer 0
      (printable (seen ++ ['\r'])) := by
    rw [printable_concat_return]
    exact (h.holds_store '\r').update_behind (by rw [h.col]; omega) _
  refine h.next rfl rfl ?_ h.room hholds (by decide)
    (h.known_breakAt rfl ((s.store s.i '\r').store s.i '\x00') rfl rfl)
    (mem_concat (h.used_store '\r') (Nat.le_of_lt h.room))
  rw [printable_concat_return, ← h.col]
  rfl

theorem Scanned.ended (h : Scanned t start seen s) {s' : LineScan} {consumed : List Char}
    (hlast : s'.lastSpace = some s.i) (hpos : s'.lastSpacePos = start + consumed.length)
    (hholds : Holds s'.lineBuffer 0 (printable seen))
    (hcursor : s'.insertCursorPos = s.insertCursorPos)
    (hused : ∀ k ∈ s'.used, 0 ≤ k ∧ k ≤ t.maxCharsPerLine) :
    Ended t start seen consumed (printable seen) s' where
  pos := by rw [LineScan.nextPos, hlast, if_neg (Option.some_ne_none _), hpos]
  col := by rw [LineScan.cutCol, hlast, Option.getD_some, h.col]
  holds := hholds
  cursor := hcursor.trans h.cursor
  used := hused

/-- The line is full, and the next character is one it is not broken at. -/
theorem Scanned.full (h : Scanned t start seen s) (hfull : s.i + 1 = t.maxCharsPerLine)
    (hc : c ≠ '\n' ∧ isBreak c = false) :
    ∃ consumed line gap, Cut t.maxCharsPerLine (seen ++ c :: rest) seen consumed line gap ∧
      Ended t start seen consumed line (s.store s.i c) := by
  have hknown := h.known
  unfold BreakKnown at hknown
  rw [h.col] at hfull
  cases hlast : s.lastSpace with
  | none =>
    rw [hlast] at hknown
    refine ⟨seen, printable seen, [], .hard hfull h.line hc hknown, ?_, ?_, h.holds_store c,
      h.cursor, h.used_store c⟩
    · change (if s.lastSpace = none then s.pos else s.lastSpacePos) = _
      rw [if_pos hlast, h.pos]
    · change s.lastSpace.getD s.i = _
      rw [hlast, Option.getD_none, h.col]
  | some col =>
    rw [hlast] at hknown
    obtain ⟨front, b, back, rfl, hb, hback, hcol, hpos⟩ := hknown
    refine ⟨front ++ [b], printable front, printable [b], .back hfull h.line hc hb hback,
      ?_, ?_, ?_, h.cursor, h.used_store c⟩
    · change (if s.lastSpace = none then s.pos else s.lastSpacePos) = _
      rw [if_neg (by rw [hlast]; exact Option.some_ne_none _), hpos, List.length_append,
        List.length_singleton, Nat.add_assoc]
    · change s.lastSpace.getD s.i = _
      rw [hlast, Option.getD_some, hcol]
    · have hholds := h.holds_store c
      rw [printable_append] at hholds
      exact (holds_append.mp hholds).1

theorem scanLine_newline (h : s.i < maxCharsPerLine) :
    scanLine maxCharsPerLine cursorpos ('\n' :: rest) s =
      { ((s.store s.i '\n').store s.i '\x00').breakAt (s.pos + 1) with pos := s.pos + 1 } := by
  rw [scanLine, if_pos h]
  rfl

theorem scanLine_carriage (h : s.i < maxCharsPerLine) :
    scanLine maxCharsPerLine cursorpos ('\r' :: rest) s =
      if s.i + 1 ≥ maxCharsPerLine then
        ((s.store s.i '\r').store s.i '\x00').breakAt (s.pos + 1)
      else scanLine maxCharsPerLine cursorpos rest
        ((((s.store s.i '\r').store s.i '\x00').breakAt (s.pos + 1)).next cursorpos 0) := by
  rw [scanLine, if_pos h]
  rfl

theorem scanLine_blank (h : s.i < maxCharsPerLine) :
    scanLine maxCharsPerLine cursorpos (' ' :: rest) s =
      if s.i + 1 ≥ maxCharsPerLine then (s.store s.i ' ').breakAt s.pos
      else scanLine maxCharsPerLine cursorpos rest
        (((s.store s.i ' ').breakAt (s.pos + 1)).next cursorpos 1) := by
  rw [scanLine, if_pos h]
  rfl

theorem scanLine_other (h : s.i < maxCharsPerLine) (hc : c ≠ '\n' ∧ isBreak c = false) :
    scanLine maxCharsPerLine cursorpos (c :: rest) s =
      if s.i + 1 ≥ maxCharsPerLine then s.store s.i c
      else scanLine maxCharsPerLine cursorpos rest ((s.store s.i c).next cursorpos 1) := by
  have hbreak : c ≠ ' ' ∧ c ≠ '\r' := by simpa [isBreak] using hc.2
  rw [scanLine, if_pos h]
  simp only [if_neg hc.1, if_neg hbreak.1, if_neg hbreak.2]
  rfl

theorem char_cases (c : Char) :
    c = '\n' ∨ c = '\r' ∨ c = ' ' ∨ (c ≠ '\n' ∧ isBreak c = false) := by
  by_cases hnewline : c = '\n'
  · exact .inl hnewline
  by_cases hreturn : c = '\r'
  · exact .inr (.inl hreturn)
  by_cases hblank : c = ' '
  · exact .inr (.inr (.inl hblank))
  · exact .inr (.inr (.inr ⟨hnewline, by simp [isBreak, hblank, hreturn]⟩))

theorem scanLine_ended (h : Scanned t start seen s) (hnul : '\x00' ∉ rest) :
    ∃ looked consumed line gap, Cut t.maxCharsPerLine (seen ++ rest) looked consumed line gap ∧
      Ended t start looked consumed line (scanLine t.maxCharsPerLine t.cursorpos rest s) := by
  induction rest generalizing seen s with
  | nil =>
    rw [scanLine, if_pos h.room, List.append_nil]
    refine ⟨seen, seen, _, [], .finished (h.col ▸ h.room) h.line, ?_⟩
    exact h.ended rfl h.pos (h.holds_store '\x00') rfl (h.used_store '\x00')
  | cons c rest ih =>
    rw [List.mem_cons, not_or] at hnul
    have hroom := h.room
    have hlength (c : Char) : s.pos + 1 = start + (seen ++ [c]).length := by
      rw [h.pos, List.length_append, List.length_singleton, Nat.add_assoc]
    -- a NUL that was stored over the character stands behind the line
    have hholds (c : Char) :
        Holds ((s.store s.i c).store s.i '\x00').lineBuffer 0 (printable seen) :=
      (h.holds_store c).update_behind (by rw [h.col]; omega) '\x00'
    have hused (c : Char) := mem_concat (h.used_store c) (Nat.le_of_lt hroom)
    have hfull (hlast : s.i + 1 ≥ t.maxCharsPerLine) :
        (printable seen).length + 1 = t.maxCharsPerLine := by
      have := h.col
      omega
    -- the rest of the line follows from the state behind the character
    have hrest {s' : LineScan} (h' : Scanned t start (seen ++ [c]) s') := ih h' hnul.2
    rw [List.append_assoc, List.singleton_append] at hrest
    rcases char_cases c with rfl | rfl | rfl | hc
    · rw [scanLine_newline hroom]
      refine ⟨seen, seen ++ ['\n'], _, ['\n'], .newline (h.col ▸ hroom) h.line, ?_⟩
      exact h.ended rfl (hlength '\n') (hholds '\n') rfl (hused '\n')
    · rw [scanLine_carriage hroom]
      split
      next hlast =>
        refine ⟨seen, seen ++ ['\r'], _, [], .carriage (hfull hlast) h.line, ?_⟩
        exact h.ended rfl (hlength '\r') (hholds '\r') rfl (hused '\r')
      next => exact hrest h.carriage
    · rw [scanLine_blank hroom]
      split
      next hlast =>
        refine ⟨seen, seen, _, [], .blank (hfull hlast) h.line, ?_⟩
        exact h.ended rfl h.pos (h.holds_store ' ') rfl (h.used_store ' ')
      next hlast => exact hrest (h.blank (Nat.lt_of_not_le hlast))
    · rw [scanLine_other hroom hc]
      split
      next hlast =>
        have hlast' : s.i + 1 = t.maxCharsPerLine := by omega
        exact ⟨seen, h.full hlast' hc⟩
      next hlast => exact hrest (h.other (Nat.lt_of_not_le hlast) (Ne.symm hnul.1) hc)

end Scan

/-- A line with the cursor in it. -/
def withCursor (cursorChar : Char) (col : Option Nat) (line : List Char) : List Char :=
  match col with
  | none => line
  | some k => if k ≤ line.length then line.take k ++ cursorChar :: line.drop k else line

/-- The lines that are shown of a text that starts at position `start` of the message. -/
inductive Laid (t : TextBlock) : (start : Nat) → (text : List Char) → List (List Char) → Prop
  | last {start : Nat} {text seen line gap : List Char}
      (hcut : Cut t.maxCharsPerLine text seen text line gap) :
      Laid t start text [withCursor t.cursorChar (cursorCol t.cursorpos start seen) line]
  | more {start : Nat} {rest seen consumed line gap : List Char} {lines : List (List Char)}
      (hcut : Cut t.maxCharsPerLine (consumed ++ rest) seen consumed line gap) (hrest : rest ≠ [])
      (hlaid : Laid t (start + consumed.length) rest lines) :
      Laid t start (consumed ++ rest)
        (withCursor t.cursorChar (cursorCol t.cursorpos start seen) line :: lines)

section Lines

variable {t : TextBlock} {start : Nat} {seen consumed line : List Char} {s : LineScan}
  {p : Printing}

theorem length_withCursor (cursorChar : Char) (col : Option Nat) (line : List Char) :
    (withCursor cursorChar col line).length ≤ line.length + 1 := by
  unfold withCursor
  split
  · exact Nat.le_succ _
  · split
    next hk =>
      rw [List.length_append, List.length_cons, List.length_take_of_le hk, List.length_drop]
      omega
    next => exact Nat.le_succ _

theorem Ended.finish (h : Ended t start seen consumed line s)
    (hline : line.length < t.maxCharsPerLine)
    (hkey : s.insertCursorPos = none ∨ t.cursorChar ≠ '\x00') :
    HasString (s.finish t.cursorChar).lineBuffer 0
        (withCursor t.cursorChar s.insertCursorPos line) ∧
      ∀ k ∈ (s.finish t.cursorChar).used, 0 ≤ k ∧ k ≤ t.maxCharsPerLine := by
  have hcut : HasString (s.store s.cutCol '\x00').lineBuffer 0 line := by
    have hend := h.holds.terminate
    rw [Int.zero_add, ← h.col] at hend
    exact hend
  have hused : ∀ k ∈ (s.store s.cutCol '\x00').used, 0 ≤ k ∧ k ≤ (t.maxCharsPerLine : Int) :=
    mem_concat h.used (by rw [h.col]; exact Nat.le_of_lt hline)
  unfold LineScan.finish withCursor
  cases hcursor : s.insertCursorPos with
  | none => exact ⟨hcut, hused⟩
  | some k =>
    have hchar : t.cursorChar ≠ '\x00' := hkey.resolve_left (by rw [hcursor]; simp)
    dsimp only
    rw [h.col]
    rw [h.col] at hcut hused
    by_cases hk : k ≤ line.length
    · rw [if_pos hk, if_pos hk]
      refine ⟨hcut.insert_moving hk (Nat.le_refl _) hchar, mem_concat ?_ (by omega)⟩
      -- each round of the loop reads one character and writes it one place up
      intro j hj
      rw [List.mem_append, List.mem_append, List.mem_map] at hj
      rcases hj with (hj | ⟨j, hj, rfl⟩) | hj
      · exact hused j hj
      · rw [mem_moveUp] at hj
        omega
      · rw [mem_moveUp] at hj
        omega
    · rw [if_neg hk, if_neg hk]
      exact ⟨hcut, hused⟩

theorem beginLine_scanned (hmax : 0 < t.maxCharsPerLine)
    (hused : ∀ k ∈ p.used, 0 ≤ k ∧ k ≤ t.maxCharsPerLine) :
    Scanned t p.pos [] (t.beginLine p) where
  pos := rfl
  col := rfl
  room := hmax
  holds := trivial
  line := List.not_mem_nil
  known := fun x hx => absurd hx List.not_mem_nil
  cursor := by
    rw [cursorCol, if_neg (by simp only [List.length_nil]; omega)]
    rfl
  used := hused

/-- The cursor is nowhere in the text, or it can be seen. -/
def TextBlock.KeyOk (t : TextBlock) : Prop :=
  (t.cursorpos < 0 ∨ t.msg.length < t.cursorpos) ∨ t.cursorChar ≠ '\x00'

theorem layLine_spec (hnul : '\x00' ∉ t.msg) (hmax : 0 < t.maxCharsPerLine) (hkey : t.KeyOk)
    (hpos : p.pos ≤ t.msg.length) (hused : ∀ k ∈ p.used, 0 ≤ k ∧ k ≤ t.maxCharsPerLine) :
    ∃ seen consumed line gap,
      Cut t.maxCharsPerLine (t.msg.drop p.pos) seen consumed line gap ∧
      (t.layLine p).pos = p.pos + consumed.length ∧
      HasString (t.layLine p).lineBuffer 0
        (withCursor t.cursorChar (cursorCol t.cursorpos p.pos seen) line) ∧
      ∀ k ∈ (t.layLine p).used, 0 ≤ k ∧ k ≤ t.maxCharsPerLine := by
  have hnul' : '\x00' ∉ t.msg.drop p.pos := fun h => hnul (List.mem_of_mem_drop h)
  obtain ⟨seen, consumed, line, gap, hcut, hended⟩ :=
    scanLine_ended (beginLine_scanned hmax hused) hnul'
  have hseen : seen.length ≤ (t.msg.drop p.pos).length := hcut.seen_isPrefix.length_le
  rw [List.length_drop] at hseen
  have hkey' := hkey.imp_left fun h => hended.cursor.trans (cursorCol_outside (by omega))
  obtain ⟨hstring, hused'⟩ := hended.finish hcut.length_line hkey'
  rw [hended.cursor] at hstring
  exact ⟨seen, consumed, line, gap, hcut, hended.pos, hstring, hused'⟩

theorem printLine_spec (hline : line.length ≤ t.maxCharsPerLine)
    (h : HasString p.lineBuffer 0 line) (hused : ∀ k ∈ p.used, 0 ≤ k ∧ k ≤ t.maxCharsPerLine) :
    (t.printLine p).lines = p.lines ++ [(p.y, line)] ∧
      ∀ k ∈ (t.printLine p).used, 0 ≤ k ∧ k ≤ t.maxCharsPerLine := by
  have hlength : strlen p.lineBuffer (t.maxCharsPerLine + 2) 0 = line.length :=
    h.strlen_eq (by omega)
  simp only [TextBlock.printLine, hlength, h.1.chars_eq]
  refine ⟨trivial, fun k hk => ?_⟩
  rcases List.mem_append.mp hk with hk | hk
  · exact hused k hk
  · obtain ⟨j, hj, rfl⟩ := List.mem_map.mp hk
    rw [List.mem_range] at hj
    simp only [Int.ofNat_eq_natCast]
    omega

/-- The state behind a line that was printed and did not reach the end of the screen. -/
def TextBlock.nextLine (t : TextBlock) (p : Printing) : Printing :=
  { t.printLine (t.layLine p) with lineNo := p.lineNo + 1 }

theorem printLines_succ {fuel : Nat} (hscroll : t.scrollPos = 0)
    (hroom : p.y + 30 ≤ t.maxY - 30) :
    t.printLines (fuel + 1) p =
      if (t.nextLine p).pos < t.msg.length then t.printLines fuel (t.nextLine p)
      else some (t.nextLine p) := by
  have hshown : t.scrollPos ≤ (t.layLine p).lineNo := by
    rw [hscroll]
    exact Int.natCast_nonneg _
  have hroom' : ¬(t.printLine (t.layLine p)).y > t.maxY - 30 := Int.not_lt.mpr hroom
  rw [TextBlock.printLines]
  simp only [hshown, decide_true, if_true, true_and, if_neg hroom']
  rfl

theorem nextLine_spec (hnul : '\x00' ∉ t.msg) (hmax : 0 < t.maxCharsPerLine) (hkey : t.KeyOk)
    (hpos : p.pos ≤ t.msg.length) (hused : ∀ k ∈ p.used, 0 ≤ k ∧ k ≤ t.maxCharsPerLine) :
    ∃ seen consumed line gap,
      Cut t.maxCharsPerLine (consumed ++ t.msg.drop (t.nextLine p).pos) seen consumed line gap ∧
      t.msg.drop p.pos = consumed ++ t.msg.drop (t.nextLine p).pos ∧
      (t.nextLine p).pos = p.pos + consumed.length ∧
      (t.nextLine p).lines.map Prod.snd = p.lines.map Prod.snd ++
        [withCursor t.cursorChar (cursorCol t.cursorpos p.pos seen) line] ∧
      ∀ k ∈ (t.nextLine p).used, 0 ≤ k ∧ k ≤ t.maxCharsPerLine := by
  obtain ⟨seen, consumed, line, gap, hcut, hnext, hstring, hused'⟩ :=
    layLine_spec hnul hmax hkey hpos hused
  have hlength := length_withCursor t.cursorChar (cursorCol t.cursorpos p.pos seen) line
  have hline := hcut.length_line
  obtain ⟨hlines, hused''⟩ := printLine_spec (by omega) hstring hused'
  have hpos' : (t.nextLine p).pos = p.pos + consumed.length := hnext
  have hsplit : t.msg.drop p.pos = consumed ++ t.msg.drop (t.nextLine p).pos := by
    obtain ⟨rest, htext⟩ := hcut.consumed_isPrefix
    rw [hpos', ← List.drop_drop, ← htext, List.drop_left]
  refine ⟨seen, consumed, line, gap, hsplit ▸ hcut, hsplit, hpos', ?_, hused''⟩
  change (t.printLine (t.layLine p)).lines.map Prod.snd = _
  rw [hlines, List.map_append]
  rfl

theorem printLines_laid {fuel : Nat} (hnul : '\x00' ∉ t.msg) (hmax : 2 ≤ t.maxCharsPerLine)
    (hkey : t.KeyOk) (hscroll : t.scrollPos = 0) (hpos : p.pos ≤ t.msg.length)
    (hused : ∀ k ∈ p.used, 0 ≤ k ∧ k ≤ t.maxCharsPerLine)
    (hheight : p.y + 30 * ((t.msg.length - p.pos : Nat) + 1) ≤ t.maxY - 30)
    (hfuel : t.msg.length - p.pos < fuel) :
    ∃ r lines, t.printLines fuel p = some r ∧
      r.lines.map Prod.snd = p.lines.map Prod.snd ++ lines ∧
      Laid t p.pos (t.msg.drop p.pos) lines ∧
      ∀ k ∈ r.used, 0 ≤ k ∧ k ≤ t.maxCharsPerLine := by
  induction fuel generalizing p with
  | zero => exact absurd hfuel (Nat.not_lt_zero _)
  | succ fuel ih =>
    obtain ⟨seen, consumed, line, gap, hcut, hsplit, hpos', hlines, hused'⟩ :=
      nextLine_spec hnul (by omega) hkey hpos hused
    have hlengths := congrArg List.length hsplit
    rw [List.length_append, List.length_drop, List.length_drop] at hlengths
    rw [printLines_succ hscroll (by omega), hsplit]
    by_cases hmore : (t.nextLine p).pos < t.msg.length
    · have hrest : t.msg.drop (t.nextLine p).pos ≠ [] := by
        rw [Ne, List.drop_eq_nil_iff]
        omega
      -- every line takes a character, so the rest of the text is shorter
      have hprogress : consumed ≠ [] :=
        hcut.consumed_ne_nil hmax (List.append_ne_nil_of_right_ne_nil _ hrest)
      have hshorter := List.length_pos_iff.mpr hprogress
      have hheight' : (t.nextLine p).y = p.y + 30 := rfl
      obtain ⟨r, lines, hr, hlines', hlaid, hused''⟩ :=
        ih (Nat.le_of_lt hmore) hused' (by omega) (by omega)
      rw [if_pos hmore]
      refine ⟨r, _ :: lines, hr, ?_, .more hcut hrest (hpos' ▸ hlaid), hused''⟩
      rw [hlines', hlines, List.append_assoc]
      rfl
    · have hnil : t.msg.drop (t.nextLine p).pos = [] := List.drop_of_length_le (by omega)
      rw [if_neg hmore]
      rw [hnil, List.append_nil] at hcut ⊢
      exact ⟨_, _, rfl, hlines, .last hcut, hused'⟩

theorem printTextBlock_laid (lineBuffer : Buffer) (hnul : '\x00' ∉ t.msg)
    (hmax : 2 ≤ t.maxCharsPerLine) (hkey : t.KeyOk) (hscroll : t.scrollPos = 0)
    (hheight : t.y + 30 * (t.msg.length + 1) ≤ t.maxY - 30) :
    ∃ ret r, t.printTextBlock lineBuffer (t.msg.length + 1) = some (ret, r) ∧
      Laid t 0 t.msg (r.lines.map Prod.snd) ∧
      ∀ k ∈ r.used, 0 ≤ k ∧ k ≤ t.maxCharsPerLine := by
  obtain ⟨r, lines, hr, hlines, hlaid, hused⟩ :=
    printLines_laid (p := ⟨lineBuffer, [], 0, 0, t.y, []⟩) hnul hmax hkey hscroll (Nat.zero_le _)
      (fun k hk => absurd hk List.not_mem_nil) hheight (Nat.lt_succ_self t.msg.length)
  refine ⟨_, r, by rw [TextBlock.printTextBlock, hr, Option.map_some], ?_, hused⟩
  rw [hlines]
  exact hlaid

/-- The characters that are neither blank nor the end of a line. -/
def visible (text : List Char) : List Char := text.filter (fun c => c ≠ ' ' ∧ c ≠ '\r' ∧ c ≠ '\n')

theorem visible_append (s t : List Char) : visible (s ++ t) = visible s ++ visible t :=
  List.filter_append ..

theorem visible_printable (s : List Char) : visible (printable s) = visible s := by
  rw [visible, visible, printable, List.filter_filter]
  refine List.filter_congr fun c _ => ?_
  by_cases hc : c = '\r' <;> simp [hc]

theorem Cut.visible_consumed {maxCharsPerLine : Nat} {text gap : List Char}
    (h : Cut maxCharsPerLine text seen consumed line gap) : visible consumed = visible line := by
  have hgap : visible gap = [] := by
    rcases h.gap_cases with rfl | rfl | rfl
    · rfl
    · rfl
    · rfl
  rw [← visible_printable, h.printable_consumed, visible_append, hgap, List.append_nil]

/-- Without a cursor nothing is lost, moved or shown twice when the lines are cut. -/
theorem Laid.visible_eq {text : List Char} {lines : List (List Char)} (h : Laid t start text lines)
    (hcursor : t.cursorpos < 0 ∨ start + text.length < t.cursorpos) :
    visible lines.flatten = visible text ∧ ∀ line ∈ lines, line.length < t.maxCharsPerLine := by
  induction h with
  | @last start text seen line gap hcut =>
    have hseen := hcut.seen_isPrefix.length_le
    rw [cursorCol_outside (by omega), List.flatten_singleton]
    refine ⟨hcut.visible_consumed.symm, fun l hl => ?_⟩
    rw [List.mem_singleton.mp hl]
    exact hcut.length_line
  | @more start rest seen consumed line gap lines hcut hrest hlaid ih =>
    have hseen := hcut.seen_isPrefix.length_le
    rw [List.length_append] at hseen hcursor
    obtain ⟨hvisible, hlines⟩ := ih (by omega)
    rw [cursorCol_outside (by omega), List.flatten_cons]
    refine ⟨?_, fun l hl => ?_⟩
    · rw [visible_append, visible_append, hvisible, hcut.visible_consumed]
      rfl
    · rcases List.mem_cons.mp hl with rfl | hl
      · exact hcut.length_line
      · exact hlines l hl

/-- Without a cursor, a text that is shown from its beginning on a screen that is high enough is
shown completely, in lines that fit. -/
theorem printTextBlock_complete (t : TextBlock) (lineBuffer : Buffer) (hnul : '\x00' ∉ t.msg)
    (hmax : 2 ≤ t.maxCharsPerLine) (hcursor : t.cursorpos < 0 ∨ t.msg.length < t.cursorpos)
    (hscroll : t.scrollPos = 0) (hheight : t.y + 30 * (t.msg.length + 1) ≤ t.maxY - 30) :
    ∃ fuel ret r, t.printTextBlock lineBuffer fuel = some (ret, r) ∧
      (∀ k ∈ r.used, 0 ≤ k ∧ k ≤ t.maxCharsPerLine) ∧
      (∀ line ∈ r.lines.map Prod.snd, line.length < t.maxCharsPerLine) ∧
      visible (r.lines.map Prod.snd).flatten = visible t.msg := by
  obtain ⟨ret, r, hr, hlaid, hused⟩ :=
    printTextBlock_laid lineBuffer hnul hmax (.inl hcursor) hscroll hheight
  obtain ⟨hvisible, hlines⟩ := hlaid.visible_eq (by omega)
  exact ⟨_, ret, r, hr, hused, hlines, hvisible⟩

/-- A text with a line feed, a carriage return and a word that does not fit. -/
def sampleBlock : TextBlock where
  y := 170
  maxCharsPerLine := 6
  maxY := 2000
  msg := "ab cde\nf\r ghijklmn o".toList
  scrollPos := 0
  cursorpos := -1
  cursor := false
  emulatedKey := ' '

theorem printTextBlock_complete_sample : ∃ fuel ret r,
    sampleBlock.printTextBlock (fun _ => ' ') fuel = some (ret, r) ∧
      (∀ k ∈ r.used, 0 ≤ k ∧ k ≤ 6) ∧
      (∀ line ∈ r.lines.map Prod.snd, line.length < 6) ∧
      visible (r.lines.map Prod.snd).flatten = "abcdefghijklmno".toList :=
  printTextBlock_complete sampleBlock (fun _ => ' ') (by decide) (by decide) (by decide) rfl
    (by decide)

end Lines

end KernelLoader.Screen
