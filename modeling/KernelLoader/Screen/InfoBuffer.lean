import KernelLoader.Lib.Buffer
import KernelLoader.Lib.Logged
import KernelLoader.Lib.Text

namespace KernelLoader.Screen
open Lib
set_option autoImplicit true
set_option relaxedAutoImplicit false

def maxInfoBuffer : Nat := 4096

structure Info where
  infoBuffer : Buffer
  infoBufferPos : Int

/-- The search for a newline in `fuel` characters from `i` on, with the indices that are read. -/
def findNewLine (b : Buffer) : (fuel : Nat) → Int → List Int × Int
  | 0, i => ([], i)
  | fuel + 1, i =>
    if b i = '\n' then ([i], i + 1)
    else
      let (read, j) := findNewLine b fuel (i + 1)
      (i :: read, j)

/-- Room for a text is made when `required` characters are missing. The position is set back twice,
the second time after the buffer has been moved or given up. What is read and written is listed. -/
def Info.scroll (s : Info) (required : Int) : List Int × Info :=
  let (read, i) := findNewLine s.infoBuffer (maxInfoBuffer - required).toNat required
  if i ≥ maxInfoBuffer then (read, ⟨s.infoBuffer, 0 - required⟩)
  else
    let (moved, b) := copyDown required (s.infoBufferPos - required).toNat s.infoBuffer 0
    (read ++ moved, ⟨b, s.infoBufferPos - required - required⟩)

/-- The text is written at the position. -/
def Info.append (s : Info) (text : List Char) : List Int × Info :=
  let (written, b) := strcpy s.infoBuffer s.infoBufferPos text
  (written, ⟨b, s.infoBufferPos + text.length⟩)

def Info.infoPrints (s : Info) (text : List Char) : List Int × Info :=
  let text := cString text
  let len : Int := text.length + 1
  if len > maxInfoBuffer then ([], s)
  else
    let remaining := maxInfoBuffer - s.infoBufferPos
    let (used, s) := if len > remaining then s.scroll (len - remaining) else ([], s)
    let (written, s) := s.append text
    (used ++ written, s)

def Info.clearInfoBuffer (s : Info) : List Int × Info :=
  ([0], ⟨Function.update s.infoBuffer 0 '\x00', 0⟩)

inductive InfoCall
  | infoPrints (text : List Char)
  | clearInfoBuffer
  deriving DecidableEq, Repr

/-- The buffer together with the texts that were accepted since it was cleared. -/
structure Session where
  info : Info
  texts : List (List Char)

def Session.step (s : Session) : InfoCall → List Int × Session
  | .infoPrints text =>
    ((s.info.infoPrints text).1, ⟨(s.info.infoPrints text).2,
      if (cString text).length + 1 > maxInfoBuffer then s.texts else s.texts ++ [cString text]⟩)
  | .clearInfoBuffer => (s.info.clearInfoBuffer.1, ⟨s.info.clearInfoBuffer.2, []⟩)

/-- The array is zero at first. -/
def startSession (outside : Buffer) : Session :=
  ⟨⟨fun i => if 0 ≤ i ∧ i < maxInfoBuffer then '\x00' else outside i, 0⟩, []⟩

def Info.content (s : Info) : List Char := chars s.infoBuffer 0 s.infoBufferPos.toNat

def Inside (i : Int) : Prop := 0 ≤ i ∧ i < maxInfoBuffer

structure Session.Ok (s : Session) : Prop where
  low : 0 ≤ s.info.infoBufferPos
  high : s.info.infoBufferPos ≤ 4095
  string : HasString s.info.infoBuffer 0 s.info.content
  suffix : s.info.content <:+ s.texts.flatten
  newest : s.texts.getLast?.getD [] <:+ s.info.content

/-- How much is missing for a text. -/
def Info.required (s : Info) (text : List Char) : Int :=
  (cString text).length + 1 - (maxInfoBuffer - s.infoBufferPos)

/-- A text that is too long for the rest of the buffer does no harm if the part that is lost twice
is not missed: there is a newline to be found, enough is left, and what is kept is repeated by what
gets lost. -/
def Info.Lucky (s : Info) (required : Int) : Prop :=
  2 * required ≤ s.infoBufferPos ∧
    (∃ i, required ≤ i ∧ i < maxInfoBuffer - 1 ∧ s.infoBuffer i = '\n') ∧
    ∀ i, required ≤ i → i < s.infoBufferPos - required →
      s.infoBuffer i = s.infoBuffer (i + required)

def CallOk (s : Session) : InfoCall → Prop
  | .infoPrints text => (cString text).length + 1 > maxInfoBuffer ∨ s.info.required text ≤ 0 ∨
      s.info.Lucky (s.info.required text)
  | .clearInfoBuffer => True

variable {s : Session} {info : Info} {b : Buffer} {text : List Char} {required : Int} {fuel : Nat}

theorem mem_findNewLine (h : k ∈ (findNewLine b fuel i).1) : i ≤ k ∧ k < i + fuel := by
  induction fuel generalizing i with
  | zero => cases h
  | succ fuel ih =>
    rw [findNewLine] at h
    split_ifs at h
    · obtain rfl := List.mem_singleton.mp h
      omega
    · rcases List.mem_cons.mp h with rfl | h
      · omega
      · have := ih h
        omega

/-- A newline counts unless it is the last character of the buffer. -/
theorem findNewLine_lt : (findNewLine b fuel i).2 < i + fuel ↔
    ∃ k, i ≤ k ∧ k + 1 < i + fuel ∧ b k = '\n' := by
  induction fuel generalizing i with
  | zero =>
    refine iff_of_false (by simp [findNewLine]) ?_
    rintro ⟨k, hl, hu, -⟩
    omega
  | succ fuel ih =>
    rw [findNewLine]
    split_ifs with hi
    · refine ⟨fun h => ⟨i, Int.le_refl i, h, hi⟩, ?_⟩
      rintro ⟨k, hl, hu, -⟩
      change i + 1 < _
      omega
    · have hshift : i + (fuel + 1 : Nat) = i + 1 + fuel := by omega
      rw [hshift]
      refine ih.trans ⟨?_, ?_⟩
      · rintro ⟨k, hl, hu, hk⟩
        exact ⟨k, by omega, hu, hk⟩
      · rintro ⟨k, hl, hu, hk⟩
        have hne : k ≠ i := fun he => hi (he ▸ hk)
        exact ⟨k, by omega, hu, hk⟩

theorem infoPrints_rejected (h : (cString text).length + 1 > maxInfoBuffer) :
    info.infoPrints text = ([], info) := by
  have hlen : ((cString text).length + 1 : Int) > maxInfoBuffer := by omega
  exact if_pos hlen

theorem infoPrints_fits (h : (cString text).length + 1 ≤ maxInfoBuffer)
    (hfit : info.required text ≤ 0) : info.infoPrints text = info.append (cString text) := by
  have hlen : ¬((cString text).length + 1 : Int) > maxInfoBuffer := by omega
  have hroom : ¬((cString text).length + 1 : Int) > maxInfoBuffer - info.infoBufferPos := by
    unfold Info.required at hfit
    omega
  simp only [Info.infoPrints, if_neg hlen, if_neg hroom, List.nil_append]

theorem infoPrints_scrolls (h : (cString text).length + 1 ≤ maxInfoBuffer)
    (hfull : 0 < info.required text) : info.infoPrints text =
      ((info.scroll (info.required text)).1 ++
        ((info.scroll (info.required text)).2.append (cString text)).1,
        ((info.scroll (info.required text)).2.append (cString text)).2) := by
  have hlen : ¬((cString text).length + 1 : Int) > maxInfoBuffer := by omega
  have hroom : ((cString text).length + 1 : Int) > maxInfoBuffer - info.infoBufferPos := by
    unfold Info.required at hfull
    omega
  simp only [Info.infoPrints, if_neg hlen, if_pos hroom]
  rfl

theorem cString_plain (text : List Char) : '\x00' ∉ cString text := by
  intro h
  simpa using List.mem_takeWhile_imp h

theorem content_eq {c : List Char} (hpos : info.infoBufferPos = c.length)
    (h : Holds info.infoBuffer 0 c) : info.content = c := by
  rw [Info.content, hpos, Int.toNat_natCast]
  exact h.chars_eq

theorem append_string {c : List Char} (hpos : info.infoBufferPos = c.length)
    (hc : Holds info.infoBuffer 0 c) (ht : '\x00' ∉ text) :
    (info.append text).2.content = c ++ text ∧
      HasString (info.append text).2.infoBuffer 0 (c ++ text) := by
  have hstring : HasString (info.append text).2.infoBuffer 0 (c ++ text) := by
    rw [hasString_append, Int.zero_add, ← hpos]
    refine ⟨hc.congr fun i hl hu => strcpy_outside (.inl ?_), strcpy_hasString _ _ ht⟩
    omega
  refine ⟨content_eq ?_ hstring.1, hstring⟩
  rw [List.length_append, Int.natCast_add, ← hpos]
  rfl

theorem append_inside : (∀ k ∈ (info.append text).1, Inside k) ↔
    0 ≤ info.infoBufferPos ∧ info.infoBufferPos + text.length < maxInfoBuffer := by
  have hmem (k : Int) : k ∈ (info.append text).1 ↔
      info.infoBufferPos ≤ k ∧ k ≤ info.infoBufferPos + text.length := mem_strcpy
  constructor
  · intro h
    have hfirst := h info.infoBufferPos ((hmem _).mpr (by omega))
    have hlast := h (info.infoBufferPos + text.length) ((hmem _).mpr (by omega))
    exact ⟨hfirst.1, hlast.2⟩
  · intro h k hk
    have hrange := (hmem k).mp hk
    exact ⟨by omega, by omega⟩

theorem append_ok_iff {c : List Char} {texts : List (List Char)}
    (hpos : info.infoBufferPos = c.length) (hc : Holds info.infoBuffer 0 c) (ht : '\x00' ∉ text)
    (hroom : c.length + text.length ≤ 4095) :
    Session.Ok ⟨(info.append text).2, texts ++ [text]⟩ ↔ c <:+ texts.flatten := by
  obtain ⟨hcontent, hstring⟩ := append_string hpos hc ht
  have hflatten : (texts ++ [text]).flatten = texts.flatten ++ text := by simp
  have hend : (info.append text).2.infoBufferPos = c.length + text.length :=
    congrArg (· + (text.length : Int)) hpos
  constructor
  · intro h
    obtain ⟨front, hfront⟩ := h.suffix
    rw [hcontent, hflatten, ← List.append_assoc] at hfront
    exact ⟨front, List.append_cancel_right hfront⟩
  · rintro ⟨front, hfront⟩
    refine ⟨?_, ?_, ?_, ?_, ?_⟩
    · rw [hend]
      omega
    · rw [hend]
      omega
    · rw [hcontent]
      exact hstring
    · rw [hcontent, hflatten, ← hfront, List.append_assoc]
      exact List.suffix_append _ _
    · rw [hcontent]
      simp

theorem Session.Ok.length_content (h : s.Ok) :
    (s.info.content.length : Int) = s.info.infoBufferPos := by
  rw [Info.content, length_chars]
  exact Int.toNat_of_nonneg h.low

theorem scroll_inside (hr : 0 < required) (hle : required ≤ info.infoBufferPos)
    (hpos : info.infoBufferPos ≤ 4095) : ∀ k ∈ (info.scroll required).1, Inside k := by
  have hmax : (maxInfoBuffer : Int) = 4096 := rfl
  have hread : ∀ k ∈ (findNewLine info.infoBuffer (maxInfoBuffer - required).toNat required).1,
      Inside k := by
    intro k hk
    have := mem_findNewLine hk
    exact ⟨by omega, by omega⟩
  intro k hk
  simp only [Info.scroll] at hk
  split_ifs at hk
  · exact hread k hk
  · rcases List.mem_append.mp hk with hk | hk
    · exact hread k hk
    · rcases mem_copyDown hk with h | h <;> exact ⟨by omega, by omega⟩

theorem search_lt_iff (hr : required ≤ maxInfoBuffer) :
    (findNewLine b (maxInfoBuffer - required).toNat required).2 < maxInfoBuffer ↔
      ∃ i, required ≤ i ∧ i < maxInfoBuffer - 1 ∧ b i = '\n' := by
  obtain ⟨n, hn⟩ : ∃ n, (maxInfoBuffer - required).toNat = n := ⟨_, rfl⟩
  have hend : (maxInfoBuffer : Int) = required + n := by omega
  rw [hn, hend, findNewLine_lt]
  refine exists_congr fun k => and_congr_right fun _ => and_congr_left fun _ => ?_
  omega

/-- Without a newline the position becomes negative. -/
theorem scroll_none (hr : required ≤ maxInfoBuffer) (h : ¬∃ i, required ≤ i ∧
      i < maxInfoBuffer - 1 ∧ info.infoBuffer i = '\n') :
    (info.scroll required).2.infoBufferPos = -required := by
  have hend := Int.not_lt.mp (mt (search_lt_iff hr).mp h)
  simp only [Info.scroll, if_pos hend]
  omega

theorem scroll_some (hr : required ≤ maxInfoBuffer) (h : ∃ i, required ≤ i ∧
      i < maxInfoBuffer - 1 ∧ info.infoBuffer i = '\n') : (info.scroll required).2 =
      ⟨(copyDown required (info.infoBufferPos - required).toNat info.infoBuffer 0).2,
        info.infoBufferPos - required - required⟩ := by
  have hfound := Int.not_le.mpr ((search_lt_iff hr).mpr h)
  simp only [Info.scroll, if_neg hfound]

theorem content_parts {m n : Nat} (hpos : info.infoBufferPos = m + n + m) :
    info.content = chars info.infoBuffer 0 m ++ chars info.infoBuffer m n ++
      chars info.infoBuffer (m + n : Nat) m := by
  have hnat : info.infoBufferPos.toNat = m + n + m := by omega
  rw [Info.content, hnat, chars_add, chars_add, Int.zero_add, Int.zero_add]

theorem scroll_kept {m n : Nat} (hm : 0 < m) (hpos : info.infoBufferPos = m + n + m)
    (h : Holds info.infoBuffer 0 info.content) :
    Holds (copyDown m (info.infoBufferPos - m).toNat info.infoBuffer 0).2 0
      (chars info.infoBuffer m n) := by
  rw [content_parts hpos, holds_append, holds_append, length_chars, Int.zero_add] at h
  have hmoved : Holds (copyDown m (info.infoBufferPos - m).toNat info.infoBuffer 0).2 (m + -m)
      (chars info.infoBuffer m n) := h.1.2.moved fun i hl hu => by
    rw [length_chars] at hu
    rw [copyDown_apply (by omega), if_pos (by omega)]
    congr 1
    omega
  rwa [Int.add_right_neg] at hmoved

/-- The kept characters are the end of all texts exactly if those that get lost repeat them. -/
theorem kept_suffix_iff {m n : Nat} (h : s.Ok) (hpos : s.info.infoBufferPos = m + n + m) :
    chars s.info.infoBuffer m n <:+ s.texts.flatten ↔
      ∀ i : Int, m ≤ i → i < s.info.infoBufferPos - m →
        s.info.infoBuffer i = s.info.infoBuffer (i + m) := by
  -- the last `n` characters of the buffer are the end of the texts in any case
  have hend : chars s.info.infoBuffer (m + m : Nat) n <:+ s.texts.flatten := by
    refine List.IsSuffix.trans ?_ h.suffix
    have hnat : s.info.infoBufferPos.toNat = m + m + n := by omega
    rw [Info.content, hnat, chars_add, Int.zero_add]
    exact List.suffix_append _ _
  have hsame : chars s.info.infoBuffer m n <:+ s.texts.flatten ↔
      chars s.info.infoBuffer m n = chars s.info.infoBuffer (m + m : Nat) n := by
    refine ⟨fun hkept => ?_, fun he => he ▸ hend⟩
    have hlength : (chars s.info.infoBuffer m n).length =
        (chars s.info.infoBuffer (m + m : Nat) n).length := by
      rw [length_chars, length_chars]
    exact (List.suffix_of_suffix_length_le hkept hend (Nat.le_of_eq hlength)).eq_of_length hlength
  rw [hsame, chars_eq_iff]
  constructor
  · intro hrep i hl hu
    have hi := hrep (i - m).toNat (by omega)
    have hfirst : (m : Int) + (i - m).toNat = i := by omega
    have hsecond : ((m + m : Nat) : Int) + (i - m).toNat = i + m := by omega
    rwa [hfirst, hsecond] at hi
  · intro hrep i hi
    have hsecond : ((m + m : Nat) : Int) + i = m + i + m := by omega
    rw [hsecond]
    exact hrep (m + i) (by omega) (by omega)

theorem scroll_ok_iff (h : s.Ok) (hlen : (cString text).length + 1 ≤ maxInfoBuffer)
    (hr : 0 < s.info.required text) :
    ((∀ k ∈ (s.info.infoPrints text).1, Inside k) ∧
      Session.Ok ⟨(s.info.infoPrints text).2, s.texts ++ [cString text]⟩) ↔
      s.info.Lucky (s.info.required text) := by
  have hmax : (maxInfoBuffer : Int) = 4096 := rfl
  have hlow := h.low
  have hhigh := h.high
  have hdef : s.info.required text =
      (cString text).length + 1 - (maxInfoBuffer - s.info.infoBufferPos) := rfl
  have hinside : ∀ k ∈ (s.info.scroll (s.info.required text)).1, Inside k :=
    scroll_inside hr (by omega) hhigh
  rw [infoPrints_scrolls hlen hr, List.forall_mem_append, and_iff_right hinside, append_inside,
    Info.Lucky]
  by_cases hline : ∃ i, s.info.required text ≤ i ∧ i < maxInfoBuffer - 1 ∧
      s.info.infoBuffer i = '\n'
  · rw [and_iff_right hline]
    by_cases htwice : 2 * s.info.required text ≤ s.info.infoBufferPos
    · rw [and_iff_right htwice, scroll_some (by omega) hline]
      obtain ⟨m, hm⟩ := Int.eq_ofNat_of_zero_le (Int.le_of_lt hr)
      obtain ⟨n, hn⟩ := Int.eq_ofNat_of_zero_le (Int.sub_nonneg_of_le htwice)
      rw [hm] at hr hdef hn ⊢
      have hpos : s.info.infoBufferPos = m + n + m := by omega
      have hkept := scroll_kept (by omega) hpos h.string.1
      have hback : s.info.infoBufferPos - m - m = (chars s.info.infoBuffer m n).length := by
        rw [length_chars]
        omega
      rw [append_ok_iff hback hkept (cString_plain text) (by rw [length_chars]; omega),
        kept_suffix_iff h hpos]
      refine and_iff_right ⟨?_, ?_⟩
      · simp only
        omega
      · simp only
        omega
    · -- the position is moved back twice, and becomes negative
      refine iff_of_false (fun hall => ?_) fun hlucky => htwice hlucky.1
      rw [scroll_some (by omega) hline] at hall
      have hneg := hall.1.1
      simp only at hneg
      omega
  · -- no newline is found: the buffer is given up, and the position lies before it
    refine iff_of_false (fun hall => ?_) fun hlucky => hline hlucky.2.1
    have hneg := hall.1.1
    rw [scroll_none (by omega) hline] at hneg
    omega

theorem fits_ok (h : s.Ok) (hlen : (cString text).length + 1 ≤ maxInfoBuffer)
    (hfit : s.info.required text ≤ 0) :
    (∀ k ∈ (s.info.infoPrints text).1, Inside k) ∧
      Session.Ok ⟨(s.info.infoPrints text).2, s.texts ++ [cString text]⟩ := by
  have hmax : (maxInfoBuffer : Int) = 4096 := rfl
  have hlow := h.low
  have hlength := h.length_content
  unfold Info.required at hfit
  rw [infoPrints_fits hlen hfit, append_inside,
    append_ok_iff hlength.symm h.string.1 (cString_plain text) (by omega)]
  exact ⟨⟨hlow, by omega⟩, h.suffix⟩

theorem clear_ok (s : Session) : (∀ k ∈ s.info.clearInfoBuffer.1, Inside k) ∧
    Session.Ok ⟨s.info.clearInfoBuffer.2, []⟩ := by
  have hend : Function.update s.info.infoBuffer 0 '\x00' 0 = '\x00' := Function.update_self ..
  have hmax : (0 : Int) ≤ 4095 := by decide
  refine ⟨List.forall_mem_singleton.mpr ⟨by decide, by decide⟩, ?_⟩
  exact ⟨Int.le_refl 0, hmax, ⟨trivial, hend⟩, List.nil_suffix, List.nil_suffix⟩

theorem step_ok_iff (h : s.Ok) (call : InfoCall) :
    ((∀ k ∈ (s.step call).1, Inside k) ∧ (s.step call).2.Ok) ↔ CallOk s call := by
  cases call with
  | clearInfoBuffer => exact iff_of_true (clear_ok s) trivial
  | infoPrints text =>
    simp only [Session.step, CallOk]
    by_cases hlen : (cString text).length + 1 > maxInfoBuffer
    · rw [if_pos hlen, infoPrints_rejected hlen]
      exact iff_of_true ⟨List.forall_mem_nil _, h⟩ (.inl hlen)
    · rw [if_neg hlen, or_iff_right hlen]
      by_cases hfit : s.info.required text ≤ 0
      · exact iff_of_true (fits_ok h (Nat.not_lt.mp hlen) hfit) (.inl hfit)
      · rw [or_iff_right hfit]
        exact scroll_ok_iff h (Nat.not_lt.mp hlen) (Int.not_le.mp hfit)

theorem step_info (s : Session) (text : List Char) :
    (s.step (.infoPrints text)).2.info = (s.info.infoPrints text).2 := rfl

theorem startSession_ok (outside : Buffer) : (startSession outside).Ok := by
  have hend : (startSession outside).info.infoBuffer 0 = '\x00' := by
    simp [startSession, maxInfoBuffer]
  have hmax : (0 : Int) ≤ 4095 := by decide
  exact ⟨Int.le_refl 0, hmax, ⟨trivial, hend⟩, List.nil_suffix, List.nil_suffix⟩

/-- In every sequence of calls: after each of them everything is in order exactly if each of them
meets the condition in the state it finds. -/
theorem infoBuffer_in_order (outside : Buffer) (calls : List InfoCall) :
    Along Session.step (fun s call =>
        (∀ k ∈ (s.step call).1, Inside k) ∧ (s.step call).2.Ok) (startSession outside) calls ↔
      Along Session.step CallOk (startSession outside) calls :=
  along_iff (fun _ call h => step_ok_iff h call)
    (fun _ call h hok => ((step_ok_iff h call).mpr hok).2) (startSession_ok outside)

theorem first_printed (outside : Buffer) (hplain : '\x00' ∉ text) (hlength : text.length ≤ 4095) :
    ((startSession outside).info.infoPrints text).2.infoBufferPos = text.length ∧
      ((startSession outside).info.infoPrints text).2.content = text := by
  have hmax : maxInfoBuffer = 4096 := rfl
  have hzero : (startSession outside).info.infoBufferPos = ([] : List Char).length := rfl
  have hprint : (startSession outside).info.infoPrints text =
      (startSession outside).info.append text := by
    have htext := cString_of_not_mem hplain
    have hfit : (startSession outside).info.required text ≤ 0 := by
      rw [Info.required, htext, hzero, List.length_nil]
      omega
    rw [infoPrints_fits (by rw [htext]; omega) hfit, htext]
  rw [hprint]
  refine ⟨?_, (append_string hzero trivial hplain).1⟩
  exact Int.zero_add _

/-- A text that fills the buffer and has no newline. -/
def fullLine : List Char := List.replicate 4095 'a'

/-- One more character is written in front of the buffer. -/
theorem infoBuffer_underflows :
    ¬Along Session.step (fun s call =>
        (∀ k ∈ (s.step call).1, Inside k) ∧ (s.step call).2.Ok)
      (startSession fun _ => '\x00') [.infoPrints fullLine, .infoPrints ['b']] := by
  rintro ⟨⟨-, hok⟩, hsecond, -⟩
  have hplain : '\x00' ∉ fullLine := fun h => absurd (List.eq_of_mem_replicate h) (by decide)
  have hlength : fullLine.length = 4095 := List.length_replicate
  obtain ⟨hpos, hcontent⟩ := first_printed (fun _ => '\x00') hplain (Nat.le_of_eq hlength)
  obtain ⟨s, hs⟩ : ∃ s, ((startSession fun _ => '\x00').step (.infoPrints fullLine)).2 = s :=
    ⟨_, rfl⟩
  have hinfo : ((startSession fun _ => '\x00').info.infoPrints fullLine).2 = s.info := by
    rw [← hs, step_info]
  rw [hinfo, hlength] at hpos
  rw [hinfo] at hcontent
  have hrequired : s.info.required ['b'] = 1 := by
    rw [Info.required, hpos]
    decide
  rw [hs] at hok hsecond
  rcases (step_ok_iff hok _).mp hsecond with hlong | hroom | hlucky
  · revert hlong
    decide
  · rw [hrequired] at hroom
    exact absurd hroom (by decide)
  · rw [hrequired] at hlucky
    obtain ⟨i, hlow, hhigh, hline⟩ := hlucky.2.1
    have hmax : (maxInfoBuffer : Int) = 4096 := rfl
    have hmem : s.info.infoBuffer (0 + i.toNat) ∈ s.info.content := mem_chars _ (by omega)
    have hi : 0 + (i.toNat : Int) = i := by omega
    rw [hi, hline, hcontent] at hmem
    exact absurd (List.eq_of_mem_replicate hmem) (by decide)

end KernelLoader.Screen
