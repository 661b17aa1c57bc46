import KernelLoader.Lib.Ring
import KernelLoader.Lib.Text

namespace KernelLoader.Screen
open Lib
set_option autoImplicit true
set_option relaxedAutoImplicit false

def maxMessages : Nat := 10
def maxBuffer : Nat := 128

/-- A text in one of the buffers of `error_printf`, or somewhere else. -/
inductive TextPtr
  | buffer (i : Nat)
  | text (s : List Char)
  deriving DecidableEq, Repr

/-- The ring of error messages, the buffers of `error_printf`, what was sent to the serial port or
the console, and the error messages that were painted by `error_printf`. -/
structure ErrorQueue where
  errorMessage : Nat → Option TextPtr
  readMsgPos : Nat
  writeMsgPos : Nat
  buffer : Nat → List Char
  console : List (List Char)
  painted : List (Option TextPtr)

def ErrorQueue.start : ErrorQueue := ⟨fun _ => none, 0, 0, fun _ => [], [], []⟩

def TextPtr.read (s : ErrorQueue) : TextPtr → List Char
  | .buffer i => s.buffer i
  | .text t => t

def ErrorQueue.kprintf (line : List Char) (s : ErrorQueue) : ErrorQueue :=
  { s with console := s.console ++ [line] }

def ErrorQueue.setErrorMessage (text : TextPtr) (s : ErrorQueue) : ErrorQueue :=
  if s.errorMessage s.writeMsgPos = none then
    { s with
      errorMessage := Function.update s.errorMessage s.writeMsgPos (some text)
      writeMsgPos := (s.writeMsgPos + 1) % maxMessages }
  else
    (s.kprintf "Error message queue is full at error:\n".toList).kprintf (text.read s ++ ['\n'])

def ErrorQueue.goToNextErrorMessage (s : ErrorQueue) : ErrorQueue :=
  if s.errorMessage s.readMsgPos ≠ none then
    { s with
      errorMessage := Function.update s.errorMessage s.readMsgPos none
      readMsgPos := (s.readMsgPos + 1) % maxMessages }
  else s

def ErrorQueue.getErrorMessage (s : ErrorQueue) : Option TextPtr := s.errorMessage s.readMsgPos

/-- What `vsnprintf` leaves in a buffer, and what it returns. -/
def vsnprintf (size : Nat) (text : List Char) : List Char × Int :=
  (cString (text.take (size - 1)), text.length)

def ErrorQueue.graphicPaint (s : ErrorQueue) : ErrorQueue :=
  { s with painted := s.painted ++ [s.getErrorMessage] }

/-- Print to the buffer that belongs to the slot that is written next. -/
def ErrorQueue.printLine (line : List Char) (s : ErrorQueue) : ErrorQueue :=
  { s with buffer := Function.update s.buffer s.writeMsgPos line }

/-- `text` is the format with its arguments filled in. The positions are compared after the message
was posted. -/
def ErrorQueue.errorPrintf (graphicInitialized : Bool) (format text : List Char) (s : ErrorQueue) :
    Int × ErrorQueue :=
  if s.errorMessage s.writeMsgPos = none then
    let line := vsnprintf maxBuffer text
    let posted := ((s.printLine line.1).kprintf line.1).setErrorMessage (.buffer s.writeMsgPos)
    (line.2, if graphicInitialized && posted.readMsgPos == posted.writeMsgPos
      then posted.graphicPaint else posted)
  else (-1, s.kprintf ("error_printf loosing message: ".toList ++ format ++ ['\n']))

inductive MessageCall
  | errorPrintf (graphicInitialized : Bool) (format text : List Char)
  | setErrorMessage (text : TextPtr)
  | getErrorMessage
  | goToNextErrorMessage

def ErrorQueue.call (s : ErrorQueue) : MessageCall → ErrorQueue
  | .errorPrintf graphic format text => (s.errorPrintf graphic format text).2
  | .setErrorMessage text => s.setErrorMessage text
  | .getErrorMessage => s
  | .goToNextErrorMessage => s.goToNextErrorMessage

/-- A message: a text that was printed, or a pointer that was passed. -/
inductive Message
  | printed (line : List Char)
  | passed (text : TextPtr)
  deriving DecidableEq, Repr

/-- The message of a call that posts one. -/
def MessageCall.message : MessageCall → Option Message
  | .errorPrintf _ _ text => some (.printed (vsnprintf maxBuffer text).1)
  | .setErrorMessage text => some (.passed text)
  | .getErrorMessage => none
  | .goToNextErrorMessage => none

/-- Messages in the order they were posted: those acknowledged, those waiting to be, and those that
were lost. -/
structure Inbox where
  acknowledged : List Message
  pending : List Message
  lost : List Message

def Inbox.post (m : Message) (q : Inbox) : Inbox :=
  if q.pending.length = maxMessages then { q with lost := q.lost ++ [m] }
  else { q with pending := q.pending ++ [m] }

def Inbox.acknowledge (q : Inbox) : Inbox :=
  { q with
    acknowledged := q.acknowledged ++ q.pending.head?.toList
    pending := q.pending.tail }

def Inbox.call (q : Inbox) : MessageCall → Inbox
  | .goToNextErrorMessage => q.acknowledge
  | c => match c.message with
    | some m => q.post m
    | none => q

def runMessages (calls : List MessageCall) : ErrorQueue := calls.foldl ErrorQueue.call .start

def runInbox (calls : List MessageCall) : Inbox := calls.foldl Inbox.call ⟨[], [], []⟩

/-- What a slot of the ring holds. The text of a printed message is in the buffer with the same
number. -/
def ErrorQueue.Slot (s : ErrorQueue) (i : Nat) : Option Message → Prop
  | none => s.errorMessage i = none
  | some (.printed line) => s.errorMessage i = some (.buffer i) ∧ s.buffer i = line
  | some (.passed text) => s.errorMessage i = some text

/-- The ring holds the pending messages. -/
structure ErrorQueue.Represents (s : ErrorQueue) (q : List Message) : Prop where
  read_lt : s.readMsgPos < maxMessages
  write_eq : s.writeMsgPos = ringAhead maxMessages s.readMsgPos q.length
  ring : RingHolds maxMessages s.Slot s.readMsgPos q

variable {s s' : ErrorQueue} {q : List Message} {m : Message} {i : Nat}

theorem ErrorQueue.Slot.isSome (h : s.Slot i (some m)) : s.errorMessage i ≠ none := by
  cases m with
  | printed line =>
    rw [h.1]
    exact Option.some_ne_none _
  | passed text =>
    rw [show s.errorMessage i = some text from h]
    exact Option.some_ne_none _

theorem ErrorQueue.Slot.congr {x : Option Message} (h : s.Slot i x)
    (hm : s'.errorMessage i = s.errorMessage i) (hb : s'.buffer i = s.buffer i) : s'.Slot i x := by
  cases x with
  | none => exact hm.trans h
  | some m =>
    cases m with
    | printed line => exact ⟨hm.trans h.1, hb.trans h.2⟩
    | passed text => exact hm.trans h

theorem ErrorQueue.represents_start : ErrorQueue.start.Represents [] :=
  ⟨by decide, rfl, Nat.zero_le _, fun _ _ => rfl⟩

theorem ErrorQueue.Represents.head (h : s.Represents q) : s.Slot s.readMsgPos q.head? := by
  have hslot := h.ring.slot 0 (by decide)
  rw [ringAhead_zero h.read_lt, ← List.head?_eq_getElem?] at hslot
  exact hslot

theorem ErrorQueue.Represents.write_free (h : s.Represents q) :
    s.errorMessage s.writeMsgPos = none ↔ q.length ≠ maxMessages := by
  have hlen := h.ring.length_le
  constructor
  · intro hnone hfull
    have hfirst := h.head
    have hwrite : s.writeMsgPos = s.readMsgPos := by
      rw [h.write_eq, hfull, ringAhead, Nat.add_mod_right, Nat.mod_eq_of_lt h.read_lt]
    cases q with
    | nil => cases hfull
    | cons m q =>
      rw [hwrite] at hnone
      exact hfirst.isSome hnone
  · intro hne
    have hslot := h.ring.slot q.length (by omega)
    rw [List.getElem?_eq_none (Nat.le_refl _), ← h.write_eq] at hslot
    exact hslot

theorem ErrorQueue.Represents.congr (h : s.Represents q) (hm : s'.errorMessage = s.errorMessage)
    (hr : s'.readMsgPos = s.readMsgPos) (hw : s'.writeMsgPos = s.writeMsgPos)
    (hb : s'.buffer = s.buffer) : s'.Represents q := by
  refine ⟨hr ▸ h.read_lt, by rw [hw, hr, h.write_eq], h.ring.length_le, fun k hk => ?_⟩
  rw [hr]
  exact (h.ring.slot k hk).congr (by rw [hm]) (by rw [hb])

theorem ErrorQueue.Represents.post (h : s.Represents q) (hlen : q.length ≠ maxMessages)
    (hnew : s'.Slot s.writeMsgPos (some m))
    (hold : ∀ i, i ≠ s.writeMsgPos →
      s'.errorMessage i = s.errorMessage i ∧ s'.buffer i = s.buffer i)
    (hr : s'.readMsgPos = s.readMsgPos)
    (hw : s'.writeMsgPos = (s.writeMsgPos + 1) % maxMessages) : s'.Represents (q ++ [m]) := by
  have hle := h.ring.length_le
  refine ⟨hr ▸ h.read_lt, ?_, ?_⟩
  · rw [hw, hr, h.write_eq, List.length_append, List.length_singleton, ← ringAhead_ahead]
    rfl
  · rw [hr]
    refine h.ring.push (by omega) (h.write_eq ▸ hnew) fun i x hi hx => ?_
    rw [← h.write_eq] at hi
    exact hx.congr (hold i hi).1 (hold i hi).2

theorem ErrorQueue.Represents.goToNextErrorMessage (h : s.Represents q) :
    s.goToNextErrorMessage.Represents q.tail := by
  have hfirst := h.head
  unfold ErrorQueue.goToNextErrorMessage
  cases q with
  | nil =>
    rw [if_neg (not_not.mpr (show s.errorMessage s.readMsgPos = none from hfirst))]
    exact h
  | cons m q =>
    rw [if_pos hfirst.isSome]
    refine ⟨Nat.mod_lt _ (by decide), ?_, ?_⟩
    · change s.writeMsgPos = ringAhead maxMessages (ringAhead maxMessages s.readMsgPos 1) q.length
      rw [ringAhead_ahead, h.write_eq, List.length_cons, Nat.add_comm 1]
    · refine h.ring.pop h.read_lt (Function.update_self ..) fun i x hi hx => ?_
      exact hx.congr (Function.update_of_ne hi _ _) rfl

theorem ErrorQueue.setErrorMessage_free (text : TextPtr) (h : s.errorMessage s.writeMsgPos = none) :
    s.setErrorMessage text = { s with
      errorMessage := Function.update s.errorMessage s.writeMsgPos (some text)
      writeMsgPos := (s.writeMsgPos + 1) % maxMessages } :=
  if_pos h

theorem ErrorQueue.Represents.setErrorMessage (h : s.Represents q) (text : TextPtr) :
    (s.setErrorMessage text).Represents
      (if q.length = maxMessages then q else q ++ [.passed text]) := by
  unfold ErrorQueue.setErrorMessage
  split_ifs with hnone hfull hfull
  · exact absurd hfull (h.write_free.mp hnone)
  · refine h.post hfull (Function.update_self ..) (fun i hi => ?_) rfl rfl
    exact ⟨Function.update_of_ne hi _ _, rfl⟩
  · exact h.congr rfl rfl rfl rfl
  · exact absurd (h.write_free.mpr hfull) hnone

theorem ErrorQueue.Represents.graphicPaint (h : s.Represents q) : s.graphicPaint.Represents q :=
  h.congr rfl rfl rfl rfl

/-- The text is written to the buffer that belongs to the free slot, so no pending text is lost. -/
theorem ErrorQueue.Represents.errorPrintf (h : s.Represents q) (graphic : Bool)
    (format text : List Char) :
    (s.errorPrintf graphic format text).2.Represents
      (if q.length = maxMessages then q else q ++ [.printed (vsnprintf maxBuffer text).1]) := by
  unfold ErrorQueue.errorPrintf
  by_cases hnone : s.errorMessage s.writeMsgPos = none
  · have hlen := h.write_free.mp hnone
    rw [if_pos hnone, if_neg hlen]
    dsimp only
    generalize (vsnprintf maxBuffer text).1 = line
    have hposted : (((s.printLine line).kprintf line).setErrorMessage
        (.buffer s.writeMsgPos)).Represents (q ++ [.printed line]) := by
      have hfree : ((s.printLine line).kprintf line).errorMessage
          ((s.printLine line).kprintf line).writeMsgPos = none := hnone
      rw [ErrorQueue.setErrorMessage_free _ hfree]
      refine h.post hlen ⟨Function.update_self .., Function.update_self ..⟩ (fun i hi => ?_) rfl rfl
      exact ⟨Function.update_of_ne hi _ _, Function.update_of_ne hi _ _⟩
    split_ifs
    · exact hposted.graphicPaint
    · exact hposted
  · rw [if_neg hnone, if_pos (not_not.mp (mt h.write_free.mpr hnone))]
    exact h.congr rfl rfl rfl rfl

theorem ErrorQueue.Represents.call {inbox : Inbox} (h : s.Represents inbox.pending)
    (c : MessageCall) : (s.call c).Represents (inbox.call c).pending := by
  cases c with
  | errorPrintf graphic format text =>
    have hnext := h.errorPrintf graphic format text
    simp only [Inbox.call, MessageCall.message, Inbox.post]
    split_ifs at hnext ⊢
    · exact hnext
    · exact hnext
  | setErrorMessage text =>
    have hnext := h.setErrorMessage text
    simp only [Inbox.call, MessageCall.message, Inbox.post]
    split_ifs at hnext ⊢
    · exact hnext
    · exact hnext
  | getErrorMessage => exact h
  | goToNextErrorMessage => exact h.goToNextErrorMessage

theorem runMessages_represents (calls : List MessageCall) :
    (runMessages calls).Represents (runInbox calls).pending := by
  have hrun (calls : List MessageCall) (s : ErrorQueue) (inbox : Inbox)
      (h : s.Represents inbox.pending) :
      (calls.foldl ErrorQueue.call s).Represents (calls.foldl Inbox.call inbox).pending := by
    induction calls generalizing s inbox with
    | nil => exact h
    | cons c calls ih => exact ih _ _ (h.call c)
  exact hrun calls _ _ ErrorQueue.represents_start

/-- No message but the lost ones is missing, and the order is kept. -/
structure Inbox.Keeps (inbox : Inbox) (posted : List Message) : Prop where
  order : (inbox.acknowledged ++ inbox.pending).Sublist posted
  count : inbox.acknowledged.length + inbox.pending.length + inbox.lost.length = posted.length

theorem Inbox.Keeps.post {inbox : Inbox} {posted : List Message} (h : inbox.Keeps posted)
    (m : Message) : (inbox.post m).Keeps (posted ++ [m]) := by
  obtain ⟨horder, hcount⟩ := h
  unfold Inbox.post
  split_ifs
  · refine ⟨horder.trans (List.sublist_append_left _ _), ?_⟩
    simp only [List.length_append, List.length_singleton]
    omega
  · refine ⟨?_, ?_⟩
    · rw [← List.append_assoc]
      exact horder.append (List.Sublist.refl [m])
    · simp only [List.length_append, List.length_singleton]
      omega

theorem Inbox.Keeps.acknowledge {inbox : Inbox} {posted : List Message} (h : inbox.Keeps posted) :
    inbox.acknowledge.Keeps posted := by
  obtain ⟨acknowledged, pending, lost⟩ := inbox
  cases pending with
  | nil =>
    unfold Inbox.acknowledge
    simpa using h
  | cons m pending =>
    obtain ⟨horder, hcount⟩ := h
    refine ⟨?_, ?_⟩
    · simpa [Inbox.acknowledge] using horder
    · simp only [Inbox.acknowledge, List.head?_cons, Option.toList_some, List.length_append,
        List.tail_cons, List.length_cons, List.length_nil] at hcount ⊢
      omega

theorem Inbox.Keeps.call {inbox : Inbox} {posted : List Message} (h : inbox.Keeps posted)
    (c : MessageCall) : (inbox.call c).Keeps (posted ++ c.message.toList) := by
  cases c with
  | errorPrintf graphic format text => exact h.post _
  | setErrorMessage text => exact h.post _
  | getErrorMessage =>
    rw [MessageCall.message, Option.toList_none, List.append_nil]
    exact h
  | goToNextErrorMessage =>
    rw [MessageCall.message, Option.toList_none, List.append_nil]
    exact h.acknowledge

theorem runInbox_keeps (calls : List MessageCall) :
    (runInbox calls).Keeps (calls.filterMap MessageCall.message) := by
  have hrun (calls : List MessageCall) (inbox : Inbox) (posted : List Message)
      (h : inbox.Keeps posted) :
      (calls.foldl Inbox.call inbox).Keeps (posted ++ calls.filterMap MessageCall.message) := by
    induction calls generalizing inbox posted with
    | nil =>
      rw [List.filterMap_nil, List.append_nil]
      exact h
    | cons c calls ih =>
      have hnext := ih _ _ (h.call c)
      rw [List.append_assoc] at hnext
      cases hm : c.message with
      | none =>
        rw [List.filterMap_cons_none hm]
        rw [hm] at hnext
        exact hnext
      | some m =>
        rw [List.filterMap_cons_some hm]
        rw [hm] at hnext
        exact hnext
  exact hrun calls _ [] ⟨List.Sublist.refl [], rfl⟩

/-- What `getErrorMessage` shows. -/
def ErrorQueue.Shows (s : ErrorQueue) : Option Message → Prop
  | none => s.getErrorMessage = none
  | some (.printed line) => ∃ p, s.getErrorMessage = some p ∧ p.read s = line
  | some (.passed text) => s.getErrorMessage = some text

theorem ErrorQueue.Represents.shows (h : s.Represents q) : s.Shows q.head? := by
  have hfirst := h.head
  cases q with
  | nil => exact hfirst
  | cons m q =>
    cases m with
    | printed line => exact ⟨_, hfirst.1, hfirst.2⟩
    | passed text => exact hfirst

theorem Inbox.call_head {inbox : Inbox} {c : MessageCall} (hc : c ≠ .goToNextErrorMessage)
    (hm : inbox.pending.head? = some m) : (inbox.call c).pending.head? = some m := by
  have hpost (m' : Message) : (inbox.post m').pending.head? = some m := by
    unfold Inbox.post
    split_ifs
    · exact hm
    · rw [List.head?_append, hm]
      rfl
  cases c with
  | errorPrintf graphic format text => exact hpost _
  | setErrorMessage text => exact hpost _
  | getErrorMessage => exact hm
  | goToNextErrorMessage => exact absurd rfl hc

/-- A call that posts a message fills the slot to be written, if it is free. -/
theorem ErrorQueue.call_errorMessage (s : ErrorQueue) {c : MessageCall} (hc : c.message = some m) :
    ∃ p, (s.call c).errorMessage = if s.errorMessage s.writeMsgPos = none
      then Function.update s.errorMessage s.writeMsgPos (some p) else s.errorMessage := by
  cases c with
  | errorPrintf graphic format text =>
    refine ⟨.buffer s.writeMsgPos, ?_⟩
    rw [ErrorQueue.call, ErrorQueue.errorPrintf]
    by_cases hnone : s.errorMessage s.writeMsgPos = none
    · rw [if_pos hnone, if_pos hnone]
      dsimp only
      generalize (vsnprintf maxBuffer text).1 = line
      have hfree : ((s.printLine line).kprintf line).errorMessage
          ((s.printLine line).kprintf line).writeMsgPos = none := hnone
      rw [ErrorQueue.setErrorMessage_free _ hfree]
      split_ifs
      · rfl
      · rfl
    · rw [if_neg hnone, if_neg hnone]
      rfl
  | setErrorMessage text =>
    refine ⟨text, ?_⟩
    rw [ErrorQueue.call, ErrorQueue.setErrorMessage]
    split_ifs
    · rfl
    · rfl
  | getErrorMessage => cases hc
  | goToNextErrorMessage => cases hc

/-- The ring is left as it is exactly if ten messages are pending. -/
theorem ErrorQueue.Represents.lost_iff (h : s.Represents q) {c : MessageCall}
    (hc : c.message = some m) :
    (s.call c).errorMessage = s.errorMessage ↔ q.length = maxMessages := by
  obtain ⟨p, hp⟩ := s.call_errorMessage hc
  rw [hp]
  by_cases hnone : s.errorMessage s.writeMsgPos = none
  · rw [if_pos hnone]
    refine iff_of_false (fun heq => ?_) (h.write_free.mp hnone)
    have hslot := congrFun heq s.writeMsgPos
    rw [Function.update_self, hnone] at hslot
    cases hslot
  · rw [if_neg hnone]
    exact iff_of_true rfl (not_not.mp (mt h.write_free.mpr hnone))

/-- In every state reached by a sequence of calls the oldest message that was not acknowledged is
shown, and stays so until it is; the texts printed and not acknowledged are in their buffers; the
messages acknowledged and pending are the posted ones in their order, less those that were lost; and
a message is lost exactly if ten are pending. -/
theorem errorMessages_fifo (calls : List MessageCall) :
    let s := runMessages calls
    let inbox := runInbox calls
    s.Shows inbox.pending.head? ∧
      (∀ c, c ≠ .goToNextErrorMessage → ∀ m, inbox.pending.head? = some m →
        (s.call c).Shows (some m)) ∧
      (∀ k line, inbox.pending[k]? = some (.printed line) →
        s.buffer (ringAhead maxMessages s.readMsgPos k) = line) ∧
      inbox.Keeps (calls.filterMap MessageCall.message) ∧
      ∀ c m, c.message = some m →
        ((s.call c).errorMessage = s.errorMessage ↔ inbox.pending.length = maxMessages) := by
  intro s inbox
  have h : s.Represents inbox.pending := runMessages_represents calls
  refine ⟨h.shows, fun c hc m hm => ?_, fun k line hk => ?_, runInbox_keeps calls,
    fun c m hc => h.lost_iff hc⟩
  · have hnext := (h.call c).shows
    rw [Inbox.call_head hc hm] at hnext
    exact hnext
  · have hlt := (List.getElem?_eq_some_iff.mp hk).1
    have hslot := h.ring.slot k (hlt.trans_le h.ring.length_le)
    rw [hk] at hslot
    exact hslot.2

end KernelLoader.Screen
