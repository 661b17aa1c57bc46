import KernelLoader.Config.Items
import KernelLoader.Lib.Buffer
import KernelLoader.Lib.Logged

namespace KernelLoader.Screen
open Lib
open Config (maxInputLen)
set_option autoImplicit true
set_option relaxedAutoImplicit false

/-- The buttons of the pad the editor looks at. -/
inductive Button
  | up
  | down
  | left
  | right
  | cross
  | triangle
  | square
  | circle
  | r1
  | l1
  | start
  | select
  deriving DecidableEq, Repr

/-- What one round of the main loop finds: the buttons pressed since the last one, the character
from the keyboard with the one behind it (which is read after an escape), and whether an error
message or the info buffer is in front of the text. -/
structure Event where
  pad : List Button
  keyboard : Option (Char × Option Char)
  hidden : Bool
  deriving DecidableEq, Repr

def keyDelete : Nat := 38
def keyHome : Nat := 36
def keyEnd : Nat := 39
def keyRight : Nat := 41
def keyLeft : Nat := 42
def keyDown : Nat := 43
def keyUp : Nat := 44

/-- `new_pad`, `key` and `functionKey` after the keyboard has been read. -/
structure Input where
  pad : List Button
  key : Char
  functionKey : Option Nat
  deriving DecidableEq, Repr

def arrowButton (functionKey : Nat) : List Button :=
  if functionKey = keyRight then [.right]
  else if functionKey = keyLeft then [.left]
  else if functionKey = keyDown then [.down]
  else if functionKey = keyUp then [.up]
  else []

def Event.input (e : Event) : Input :=
  match e.keyboard with
  | none => ⟨e.pad, '\x00', none⟩
  | some (key, next) =>
    if key.toNat = 27 then
      match next with
      | some functionKey =>
        ⟨e.pad ++ arrowButton functionKey.toNat, '\x00', some functionKey.toNat⟩
      | none => ⟨e.pad, '\x00', none⟩
    else if key.toNat = 10 then ⟨e.pad ++ [.cross], key, none⟩
    else ⟨e.pad, key, none⟩

/-- What is done with the cursor before the text is changed. -/
inductive Move
  | left
  | right
  | stay
  deriving DecidableEq, Repr

/-- Scrolling comes first. -/
def Input.move (inp : Input) : Move :=
  if .down ∈ inp.pad ∨ .up ∈ inp.pad then .stay
  else if .left ∈ inp.pad then .left
  else if .right ∈ inp.pad then .right
  else .stay

inductive Edit
  | deleteLeft
  | deleteRight
  | home
  | toEnd
  | insert (key : Char)
  | none
  deriving DecidableEq, Repr

/-- The character of the keyboard, or the one that was chosen with the pad. -/
def Input.typed (inp : Input) (emulatedKey : Int) : Char :=
  if .triangle ∈ inp.pad then Char.ofNat emulatedKey.toNat else inp.key

def Input.edit (inp : Input) (emulatedKey : Int) : Edit :=
  if .square ∈ inp.pad ∨ (inp.typed emulatedKey).toNat = 7 then .deleteLeft
  else if inp.functionKey = some keyDelete then .deleteRight
  else if inp.functionKey = some keyHome ∨ .start ∈ inp.pad then .home
  else if inp.functionKey = some keyEnd ∨ .select ∈ inp.pad then .toEnd
  else if inp.typed emulatedKey ≠ '\x00' then .insert (inp.typed emulatedKey)
  else .none

def Input.emulate (inp : Input) (emulatedKey : Int) : Int :=
  if .triangle ∈ inp.pad then emulatedKey
  else if .r1 ∈ inp.pad then
    if emulatedKey + 1 > 0x7E then 0x20 else emulatedKey + 1
  else if .l1 ∈ inp.pad then
    if emulatedKey - 1 < 0x20 then 0x7E else emulatedKey - 1
  else if .circle ∈ inp.pad then
    if emulatedKey + 0x10 > 0x7E then emulatedKey + 0x10 - (0x7E - 0x20) else emulatedKey + 0x10
  else emulatedKey

/-- The text that is edited. It is `active` until the input buffer is taken away. -/
structure Editor where
  buffer : Buffer
  cursorpos : Int
  emulatedKey : Int
  active : Bool

def Editor.length (ed : Editor) : Nat := strlen ed.buffer maxInputLen 0

def setInputBuffer (buffer : Buffer) (emulatedKey : Int) : Editor :=
  ⟨buffer, strlen buffer maxInputLen 0, emulatedKey, true⟩

def Editor.incCursorPos (ed : Editor) : Editor :=
  if ed.cursorpos < ed.length then { ed with cursorpos := ed.cursorpos + 1 } else ed

def Editor.decCursorPos (ed : Editor) : Editor :=
  if ed.cursorpos > 0 then { ed with cursorpos := ed.cursorpos - 1 } else ed

def Editor.move (ed : Editor) : Move → Editor
  | .left => ed.decCursorPos
  | .right => ed.incCursorPos
  | .stay => ed

/-- What is written, and the editor afterwards. -/
def Editor.edit (ed : Editor) : Edit → List Int × Editor
  | .deleteLeft =>
    if ed.cursorpos > 0 then
      let (written, buffer) := moveDown maxInputLen ed.buffer (ed.cursorpos - 1)
      (written, { ed with buffer }.decCursorPos)
    else ([], ed)
  | .deleteRight =>
    if ed.cursorpos ≥ 0 then
      let (written, buffer) := moveDown maxInputLen ed.buffer ed.cursorpos
      (written, { ed with buffer })
    else ([], ed)
  | .home => ([], { ed with cursorpos := 0 })
  | .toEnd => ([], { ed with cursorpos := ed.length })
  | .insert key =>
    if ed.length < maxInputLen - 1 then
      let (written, buffer) :=
        moveUp (ed.length + 2 - ed.cursorpos).toNat ed.buffer (ed.length + 1)
      (written ++ [ed.cursorpos],
        { ed with buffer := Function.update buffer ed.cursorpos key }.incCursorPos)
    else ([], ed)
  | .none => ([], ed)

def Editor.step (ed : Editor) (e : Event) : List Int × Editor :=
  if ed.active = false ∨ e.hidden = true then ([], ed)
  else if .cross ∈ e.input.pad then ([], { ed.move e.input.move with active := false })
  else
    { ed.move e.input.move with emulatedKey := e.input.emulate ed.emulatedKey }.edit
      (e.input.edit ed.emulatedKey)

/-- A list with a cursor, as long as the buffer allows. -/
structure Line where
  text : List Char
  cursor : Nat
  cursor_le : cursor ≤ text.length
  length_le : text.length ≤ 1023

def Line.move (l : Line) : Move → Line
  | .left => { l with cursor := l.cursor - 1, cursor_le := by have := l.cursor_le; omega }
  | .right =>
    { l with cursor := min (l.cursor + 1) l.text.length, cursor_le := Nat.min_le_right .. }
  | .stay => l

def Line.erase (l : Line) (i : Nat) (h : i ≤ l.cursor) : Line where
  text := l.text.eraseIdx i
  cursor := i
  cursor_le := by
    have := l.cursor_le
    rw [List.length_eraseIdx]
    split_ifs <;> omega
  length_le := Nat.le_trans (List.length_eraseIdx_le ..) l.length_le

def Line.insert (l : Line) (key : Char) (h : l.text.length < 1023) : Line where
  text := l.text.take l.cursor ++ key :: l.text.drop l.cursor
  cursor := l.cursor + 1
  cursor_le := by
    have := l.cursor_le
    simp only [List.length_append, List.length_take, List.length_cons, List.length_drop]
    omega
  length_le := by
    have := l.cursor_le
    simp only [List.length_append, List.length_take, List.length_cons, List.length_drop]
    omega

def Line.edit (l : Line) : Edit → Line
  | .deleteLeft => if l.cursor > 0 then l.erase (l.cursor - 1) (Nat.sub_le ..) else l
  | .deleteRight => l.erase l.cursor (Nat.le_refl _)
  | .home => { l with cursor := 0, cursor_le := Nat.zero_le _ }
  | .toEnd => { l with cursor := l.text.length, cursor_le := Nat.le_refl _ }
  | .insert key => if h : l.text.length < 1023 then l.insert key h else l
  | .none => l

/-- The same events on a list. -/
structure Draft where
  line : Line
  emulatedKey : Int
  active : Bool

def Draft.step (d : Draft) (e : Event) : Draft :=
  if d.active = false ∨ e.hidden = true then d
  else if .cross ∈ e.input.pad then { d with line := d.line.move e.input.move, active := false }
  else
    { d with
      line := (d.line.move e.input.move).edit (e.input.edit d.emulatedKey)
      emulatedKey := e.input.emulate d.emulatedKey }

/-- The buffer holds the text of the list, and the cursor is where it is in the list. -/
structure Matches (ed : Editor) (l : Line) : Prop where
  text : HasString ed.buffer 0 l.text
  cursor : ed.cursorpos = l.cursor

structure Refines (ed : Editor) (d : Draft) : Prop where
  line : Matches ed d.line
  emulatedKey : ed.emulatedKey = d.emulatedKey
  active : ed.active = d.active

variable {ed : Editor} {l : Line} {d : Draft}

theorem Matches.length_eq (h : Matches ed l) : ed.length = l.text.length :=
  h.text.strlen_eq (Nat.lt_succ_of_le l.length_le)

theorem Matches.decCursorPos (h : Matches ed l) : Matches ed.decCursorPos (l.move .left) := by
  have hcursor := h.cursor
  unfold Editor.decCursorPos
  split_ifs with hpos
  · refine ⟨h.text, ?_⟩
    change ed.cursorpos - 1 = ((l.cursor - 1 : Nat) : Int)
    omega
  · refine ⟨h.text, ?_⟩
    change ed.cursorpos = ((l.cursor - 1 : Nat) : Int)
    omega

theorem Matches.incCursorPos (h : Matches ed l) : Matches ed.incCursorPos (l.move .right) := by
  have hcursor := h.cursor
  have hlength := h.length_eq
  have hle := l.cursor_le
  unfold Editor.incCursorPos
  split_ifs with hpos
  · refine ⟨h.text, ?_⟩
    change ed.cursorpos + 1 = ((min (l.cursor + 1) l.text.length : Nat) : Int)
    omega
  · refine ⟨h.text, ?_⟩
    change ed.cursorpos = ((min (l.cursor + 1) l.text.length : Nat) : Int)
    omega

theorem Matches.move (h : Matches ed l) (m : Move) : Matches (ed.move m) (l.move m) := by
  cases m with
  | left => exact h.decCursorPos
  | right => exact h.incCursorPos
  | stay => exact h

theorem incCursorPos_fields (ed : Editor) : ed.incCursorPos.emulatedKey = ed.emulatedKey ∧
    ed.incCursorPos.active = ed.active := by
  unfold Editor.incCursorPos
  split_ifs <;> exact ⟨rfl, rfl⟩

theorem decCursorPos_fields (ed : Editor) : ed.decCursorPos.emulatedKey = ed.emulatedKey ∧
    ed.decCursorPos.active = ed.active := by
  unfold Editor.decCursorPos
  split_ifs <;> exact ⟨rfl, rfl⟩

theorem move_fields (ed : Editor) (m : Move) : (ed.move m).emulatedKey = ed.emulatedKey ∧
    (ed.move m).active = ed.active := by
  cases m with
  | left => exact decCursorPos_fields ed
  | right => exact incCursorPos_fields ed
  | stay => exact ⟨rfl, rfl⟩

theorem edit_fields (ed : Editor) (e : Edit) : (ed.edit e).2.emulatedKey = ed.emulatedKey ∧
    (ed.edit e).2.active = ed.active := by
  cases e with
  | deleteLeft =>
    simp only [Editor.edit]
    split_ifs
    · exact decCursorPos_fields _
    · exact ⟨rfl, rfl⟩
  | deleteRight =>
    simp only [Editor.edit]
    split_ifs <;> exact ⟨rfl, rfl⟩
  | insert key =>
    simp only [Editor.edit]
    split_ifs
    · exact incCursorPos_fields _
    · exact ⟨rfl, rfl⟩
  | home | toEnd | none => exact ⟨rfl, rfl⟩

def InBuffer (i : Int) : Prop := 0 ≤ i ∧ i < maxInputLen

theorem Matches.erase (h : Matches ed l) {i : Nat} (hi : i < l.text.length) :
    HasString (moveDown maxInputLen ed.buffer i).2 0 (l.text.eraseIdx i) ∧
      ∀ k ∈ (moveDown maxInputLen ed.buffer i).1, InBuffer k := by
  have hmax : (maxInputLen : Int) = 1024 := rfl
  have hlength := l.length_le
  obtain ⟨hstring, hwritten⟩ := h.text.erase hi (Nat.le_succ_of_le l.length_le)
  refine ⟨hstring, fun k hk => ?_⟩
  have := hwritten k hk
  exact ⟨this.1, by omega⟩

theorem Matches.deleteLeft (h : Matches ed l) :
    Matches (ed.edit .deleteLeft).2 (l.edit .deleteLeft) ∧
      ∀ k ∈ (ed.edit .deleteLeft).1, InBuffer k := by
  have hcursor := h.cursor
  have hle := l.cursor_le
  by_cases hpos : l.cursor > 0
  · have hpos' : ed.cursorpos > 0 := by omega
    have hindex : ed.cursorpos - 1 = ((l.cursor - 1 : Nat) : Int) := by omega
    have hi : l.cursor - 1 < l.text.length := by omega
    obtain ⟨hstring, hwritten⟩ := h.erase hi
    simp only [Editor.edit, Line.edit, if_pos hpos, if_pos hpos', hindex, Editor.decCursorPos]
    exact ⟨⟨hstring, rfl⟩, hwritten⟩
  · have hpos' : ¬ed.cursorpos > 0 := by omega
    simp only [Editor.edit, Line.edit, if_neg hpos, if_neg hpos']
    exact ⟨h, List.forall_mem_nil _⟩

theorem Matches.deleteRight (h : Matches ed l) :
    Matches (ed.edit .deleteRight).2 (l.edit .deleteRight) ∧
      ∀ k ∈ (ed.edit .deleteRight).1, InBuffer k := by
  have hpos : ed.cursorpos ≥ 0 := by
    rw [h.cursor]
    omega
  simp only [Editor.edit, Line.edit, if_pos hpos]
  rw [h.cursor]
  by_cases hi : l.cursor < l.text.length
  · obtain ⟨hstring, hwritten⟩ := h.erase hi
    exact ⟨⟨hstring, rfl⟩, hwritten⟩
  · -- At the end of the text there is nothing to be removed.
    have hend : l.cursor = l.text.length := Nat.le_antisymm l.cursor_le (Nat.not_lt.mp hi)
    have hstop : HasString ed.buffer l.cursor [] := by
      refine ⟨trivial, ?_⟩
      have hnul := h.text.2
      rw [Int.zero_add, ← hend] at hnul
      simpa using hnul
    have htext : l.text.eraseIdx l.cursor = l.text := List.eraseIdx_of_length_le (Nat.not_lt.mp hi)
    rw [moveDown_nil _ hstop]
    refine ⟨⟨?_, rfl⟩, List.forall_mem_nil _⟩
    change HasString ed.buffer 0 (l.text.eraseIdx l.cursor)
    rw [htext]
    exact h.text

theorem Matches.inserted (h : Matches ed l) {key : Char} (hroom : l.text.length < 1023)
    {b : Buffer} (hb : HasString b 0 (l.insert key hroom).text) :
    Matches { ed with buffer := b }.incCursorPos (l.insert key hroom) := by
  have hle := l.cursor_le
  have hlength : (l.insert key hroom).text.length = l.text.length + 1 := by
    simp only [Line.insert, List.length_append, List.length_take, List.length_cons,
      List.length_drop]
    omega
  have hbefore : Matches { ed with buffer := b }
      { l.insert key hroom with cursor := l.cursor, cursor_le := by omega } := ⟨hb, h.cursor⟩
  have hafter := hbefore.incCursorPos
  refine ⟨hafter.text, hafter.cursor.trans ?_⟩
  change ((min (l.cursor + 1) (l.insert key hroom).text.length : Nat) : Int) = (l.cursor + 1 : Nat)
  omega

theorem Matches.insert (h : Matches ed l) {key : Char} (hkey : key ≠ '\x00') :
    Matches (ed.edit (.insert key)).2 (l.edit (.insert key)) ∧
      ((∀ k ∈ (ed.edit (.insert key)).1, InBuffer k) ↔ l.text.length ≠ 1022) := by
  have hmax : (maxInputLen : Int) = 1024 := rfl
  have hle := l.cursor_le
  have hlength := h.length_eq
  by_cases hroom : l.text.length < 1023
  · have hroom' : l.text.length < maxInputLen - 1 := hroom
    have hcount : ((l.text.length : Int) + 2 - l.cursor).toNat = l.text.length + 2 - l.cursor := by
      omega
    simp only [Editor.edit, Line.edit, hlength, if_pos hroom', dif_pos hroom, h.cursor, hcount]
    have hinserted := h.inserted hroom (h.text.insert hle hkey)
    rw [h.cursor] at hinserted
    refine ⟨hinserted, ?_⟩
    rw [List.forall_mem_append, List.forall_mem_singleton]
    constructor
    · -- the loop moves one character more than the string and its end
      rintro ⟨hmoved, -⟩ he
      have hlast := hmoved (l.text.length + 2) (mem_moveUp.mpr (by omega))
      have := hlast.2
      omega
    · intro hne
      refine ⟨fun k hk => ?_, by omega, by omega⟩
      have := mem_moveUp.mp hk
      exact ⟨by omega, by omega⟩
  · have hroom' : ¬l.text.length < maxInputLen - 1 := hroom
    simp only [Editor.edit, Line.edit, hlength, if_neg hroom', dif_neg hroom]
    exact ⟨h, iff_of_true (List.forall_mem_nil _) (by omega)⟩

/-- Every change is that of the list, and stays in the buffer unless a character is inserted into a
text of 1022. -/
theorem Matches.edit (h : Matches ed l) {e : Edit} (hkey : ∀ key, e = .insert key → key ≠ '\x00') :
    Matches (ed.edit e).2 (l.edit e) ∧ ((∀ k ∈ (ed.edit e).1, InBuffer k) ↔
      ∀ key, e = .insert key → l.text.length ≠ 1022) := by
  cases e with
  | deleteLeft => exact ⟨h.deleteLeft.1, iff_of_true h.deleteLeft.2 fun _ he => nomatch he⟩
  | deleteRight => exact ⟨h.deleteRight.1, iff_of_true h.deleteRight.2 fun _ he => nomatch he⟩
  | home => exact ⟨⟨h.text, rfl⟩, iff_of_true (List.forall_mem_nil _) fun _ he => nomatch he⟩
  | toEnd =>
    refine ⟨⟨h.text, ?_⟩, iff_of_true (List.forall_mem_nil _) fun _ he => nomatch he⟩
    exact congrArg Int.ofNat h.length_eq
  | none => exact ⟨h, iff_of_true (List.forall_mem_nil _) fun _ he => nomatch he⟩
  | insert key =>
    obtain ⟨hmatches, hiff⟩ := h.insert (hkey key rfl)
    refine ⟨hmatches, hiff.trans ⟨fun hne _ _ => hne, fun hall => hall key rfl⟩⟩

theorem edit_key_ne (inp : Input) (emulatedKey : Int) :
    ∀ key, inp.edit emulatedKey = .insert key → key ≠ '\x00' := by
  intro key
  unfold Input.edit
  split_ifs with hsquare hdelete hhome hend hkey
  all_goals intro he; cases he
  exact hkey

theorem text_move (l : Line) (m : Move) : (l.move m).text = l.text := by
  cases m <;> rfl

/-- The event inserts a character. -/
def Inserts (d : Draft) (e : Event) : Prop :=
  d.active = true ∧ e.hidden = false ∧ .cross ∉ e.input.pad ∧
    ∃ key, e.input.edit d.emulatedKey = .insert key

/-- The editor takes the step of the list, and its writes stay in the buffer unless a character is
inserted into a text of 1022. -/
theorem Refines.step (h : Refines ed d) (e : Event) : Refines (ed.step e).2 (d.step e) ∧
    ((∀ k ∈ (ed.step e).1, InBuffer k) ↔ ¬(Inserts d e ∧ d.line.text.length = 1022)) := by
  have hmoved := h.line.move e.input.move
  obtain ⟨-, hactive⟩ := move_fields ed e.input.move
  unfold Editor.step Draft.step
  rw [h.active, h.emulatedKey]
  by_cases hoff : d.active = false ∨ e.hidden = true
  · rw [if_pos hoff, if_pos hoff]
    refine ⟨h, iff_of_true (List.forall_mem_nil _) fun hins => ?_⟩
    -- no text is edited, or something else is on the screen
    rcases hoff with hoff | hoff
    · exact absurd (hoff.symm.trans hins.1.1) (by decide)
    · exact absurd (hoff.symm.trans hins.1.2.1) (by decide)
  · rw [if_neg hoff, if_neg hoff]
    by_cases hcross : .cross ∈ e.input.pad
    · -- CROSS takes the buffer away before a key is looked at
      rw [if_pos hcross, if_pos hcross]
      refine ⟨⟨⟨hmoved.text, hmoved.cursor⟩, ?_, rfl⟩, iff_of_true (List.forall_mem_nil _) ?_⟩
      · exact (move_fields ed e.input.move).1.trans h.emulatedKey
      · exact fun hins => hins.1.2.2.1 hcross
    · rw [if_neg hcross, if_neg hcross]
      have hready : Matches { ed.move e.input.move with
          emulatedKey := e.input.emulate d.emulatedKey } (d.line.move e.input.move) :=
        ⟨hmoved.text, hmoved.cursor⟩
      obtain ⟨hedit, hwritten⟩ := hready.edit (edit_key_ne e.input d.emulatedKey)
      obtain ⟨hkey, hon⟩ := edit_fields { ed.move e.input.move with
          emulatedKey := e.input.emulate d.emulatedKey } (e.input.edit d.emulatedKey)
      rw [text_move] at hwritten
      refine ⟨⟨hedit, hkey, hon.trans (hactive.trans h.active)⟩, hwritten.trans ?_⟩
      rw [not_or, Bool.not_eq_false, Bool.not_eq_true] at hoff
      constructor
      · rintro hall ⟨⟨-, -, -, key, hk⟩, hlength⟩
        exact hall key hk hlength
      · intro hnot key hk hlength
        exact hnot ⟨⟨hoff.1, hoff.2, hcross, key, hk⟩, hlength⟩

/-- Both together. -/
def editStep (s : Editor × Draft) (e : Event) : List Int × Editor × Draft :=
  ((s.1.step e).1, (s.1.step e).2, s.2.step e)

/-- The cursor starts behind the text. -/
def startDraft (text : List Char) (h : text.length ≤ 1023) (emulatedKey : Int) : Draft :=
  ⟨⟨text, text.length, Nat.le_refl _, h⟩, emulatedKey, true⟩

theorem setInputBuffer_refines {b : Buffer} {text : List Char} (htext : HasString b 0 text)
    (hlength : text.length ≤ 1023) (emulatedKey : Int) :
    Refines (setInputBuffer b emulatedKey) (startDraft text hlength emulatedKey) := by
  refine ⟨⟨htext, ?_⟩, rfl, rfl⟩
  exact congrArg Int.ofNat (htext.strlen_eq (Nat.lt_succ_of_le hlength))

/-- In every sequence of events, the editor does what is done to the list and writes to its buffer
only, exactly if no character is inserted into a text of 1022. -/
theorem editor_refines_line (b : Buffer) (text : List Char) (htext : HasString b 0 text)
    (hlength : text.length ≤ 1023) (emulatedKey : Int) (events : List Event) :
    Along editStep (fun s e => (∀ k ∈ (editStep s e).1, InBuffer k) ∧
        Refines (editStep s e).2.1 (editStep s e).2.2)
        (setInputBuffer b emulatedKey, startDraft text hlength emulatedKey) events ↔
      Along editStep (fun s e => ¬(Inserts s.2 e ∧ s.2.line.text.length = 1022))
        (setInputBuffer b emulatedKey, startDraft text hlength emulatedKey) events := by
  refine along_iff (I := fun s => Refines s.1 s.2) (fun s e h => ?_) (fun s e h _ => (h.step e).1)
    (setInputBuffer_refines htext hlength emulatedKey)
  exact (and_iff_left (h.step e).1).trans (h.step e).2

def emptyBuffer : Buffer := fun _ => '\x00'

theorem editor_refines_line_typing :
    HasString (strcpy emptyBuffer 0 ['a', 'b']).2 0 ['a', 'b'] ∧
      (Along editStep (fun s e => (∀ k ∈ (editStep s e).1, InBuffer k) ∧
          Refines (editStep s e).2.1 (editStep s e).2.2)
        (setInputBuffer (strcpy emptyBuffer 0 ['a', 'b']).2 32,
          startDraft ['a', 'b'] (by decide) 32)
        [⟨[], some ('x', none), false⟩, ⟨[.left], none, false⟩, ⟨[.square], none, false⟩] ↔
      Along editStep (fun s e => ¬(Inserts s.2 e ∧ s.2.line.text.length = 1022))
        (setInputBuffer (strcpy emptyBuffer 0 ['a', 'b']).2 32,
          startDraft ['a', 'b'] (by decide) 32)
        [⟨[], some ('x', none), false⟩, ⟨[.left], none, false⟩, ⟨[.square], none, false⟩]) :=
  ⟨strcpy_hasString emptyBuffer 0 (by decide),
    editor_refines_line _ _ (strcpy_hasString emptyBuffer 0 (by decide)) (by decide) 32 _⟩

theorem typing_overflows {b : Buffer} {text : List Char} (htext : HasString b 0 text)
    (hle : text.length ≤ 1023) (hlength : text.length = 1022) :
    ¬Along editStep (fun s e => (∀ k ∈ (editStep s e).1, InBuffer k) ∧
        Refines (editStep s e).2.1 (editStep s e).2.2)
      (setInputBuffer b 32, startDraft text hle 32) [⟨[], some ('x', none), false⟩] := by
  rintro ⟨⟨hwritten, -⟩, -⟩
  have hstart := setInputBuffer_refines htext hle 32
  have htyped : (⟨[], some ('x', none), false⟩ : Event).input.edit 32 = .insert 'x' := by decide
  exact (hstart.step _).2.mp hwritten ⟨⟨rfl, rfl, by decide, 'x', htyped⟩, hlength⟩

def longText : List Char := List.replicate 1022 'a'

theorem length_longText : longText.length = 1022 := List.length_replicate

theorem editor_overflows :
    ¬Along editStep (fun s e => (∀ k ∈ (editStep s e).1, InBuffer k) ∧
        Refines (editStep s e).2.1 (editStep s e).2.2)
      (setInputBuffer (strcpy emptyBuffer 0 longText).2 32,
        startDraft longText (by rw [length_longText]; decide) 32)
      [⟨[], some ('x', none), false⟩] := by
  have hplain : '\x00' ∉ longText := fun h => absurd (List.eq_of_mem_replicate h) (by decide)
  exact typing_overflows (strcpy_hasString emptyBuffer 0 hplain) _ length_longText

end KernelLoader.Screen
