import KernelLoader.Boot.Extract
import KernelLoader.Boot.Sbios

namespace KernelLoader.Boot
open Lib
set_option autoImplicit true
set_option relaxedAutoImplicit false

/-- What `real_copyRTESBIOS` meets: does the executable open, its size, is there memory for it and
where, can it be read, the bytes in memory, the registers before anything is stored to them, can the
output file be created at once or in a new directory, and can it be written. -/
structure RteElf where
  opens : Bool
  size : Nat
  allocates : Bool
  buffer : Nat
  reads : Bool
  bytes : Mem
  regs : Nat → Nat
  creates : Bool
  createsAgain : Bool
  writes : Bool
  placed : allocates = true → 0 < buffer ∧ buffer % 4 = 0 ∧ buffer + size + 4 ≤ 2 ^ 32

/-- The array `regs`, which of its elements were stored to, and what was read: spans of memory, and
elements nothing had been stored to. -/
structure RegScan where
  regs : Nat → Nat
  assigned : Nat → Bool
  spans : List (Nat × Nat)
  uninitialised : List Nat

def RegScan.start (regs : Nat → Nat) : RegScan := ⟨regs, fun _ => false, [], []⟩

/-- The word at `a` is read. -/
def RegScan.word (a : Nat) (s : RegScan) : RegScan := { s with spans := s.spans ++ [(a, 4)] }

def RegScan.use (r : Nat) (s : RegScan) : RegScan :=
  if s.assigned r then s else { s with uninitialised := r :: s.uninitialised }

def RegScan.setReg (r v : Nat) (s : RegScan) : RegScan :=
  { s with
    regs := Function.update s.regs r (u32 v)
    assigned := Function.update s.assigned r true }

/-- One instruction. The scan ends with the size at the `jal` that copies the SBIOS. -/
def rteInstr (search v : Nat) (s : RegScan) : Option Nat × RegScan :=
  if opOf v = 9 then
    (none, (s.use (rsOf v)).setReg (rtOf v) (s.regs (rsOf v) + immidiateOf v))
  else if opOf v = 15 then
    (none, if rsOf v = 0 then s.setReg (rtOf v) (immidiateOf v <<< 16) else s)
  else if opOf v = 0 then
    if functOf v = 35 then
      (none, ((s.use (rtOf v)).use (rsOf v)).setReg (rdOf v)
        (sub32 (s.regs (rsOf v)) (s.regs (rtOf v))))
    else (none, s)
  else if opOf v = 3 then
    if s.regs 5 = search then (some (s.regs 6), (s.use 5).use 6) else (none, s.use 5)
  else (none, s)

/-- The word with number `i` from the start of the buffer on. -/
def RteElf.wordAt (elf : RteElf) (i : Nat) : Nat := le elf.bytes (elf.buffer + 4 * i) 4

/-- How often a pointer is moved on by 4 until it is not below `endaddr`. -/
def RteElf.rounds (elf : RteElf) : Nat := (elf.size + 3) / 4

/-- The loop that looks for the magic. -/
def findSbios (elf : RteElf) : Option Nat × RegScan :=
  forEach (fun i s => (if elf.wordAt i = magicCheck then some i else none,
    s.word (elf.buffer + 4 * i))) (List.range' 0 elf.rounds) (.start elf.regs)

/-- The loop that looks for the size. -/
def scanSbios (elf : RteElf) (search : Nat) (s : RegScan) : Option Nat × RegScan :=
  forEach (fun i s => rteInstr search (elf.wordAt i) (s.word (elf.buffer + 4 * i)))
    (List.range' 0 elf.rounds) s

/-- The value returned and the message shown, what was read, the bytes that were to be written to
the output file once it was there, and what is in it if it was not removed again. -/
structure SbiosCopy where
  code : Int
  message : Option String
  scan : RegScan
  written : Option (Nat × Nat)
  output : Option (List UInt8)

def writeSbios (elf : RteElf) (addr sbiosSize : Nat) (s : RegScan) : SbiosCopy :=
  if !(elf.creates || elf.createsAgain) then
    ⟨-4, some "Failed to open sbios.bin", s, none, none⟩
  else if !elf.writes || sbiosSize == 0 then
    ⟨-5, some "Failed to write sbios.bin", s, some (addr, sbiosSize), none⟩
  else ⟨0, none, s, some (addr, sbiosSize), some (slice elf.bytes addr sbiosSize)⟩

/-- The executable is in the buffer. The word where the search ended is looked at again, and the
SBIOS starts one word before it. -/
def extractSbios (elf : RteElf) (offset : Nat) : SbiosCopy :=
  let found := findSbios elf
  let i := found.1.getD elf.rounds
  let s := found.2.word (elf.buffer + 4 * i)
  if elf.wordAt i = magicCheck then
    let addr := sub32 (elf.buffer + 4 * i) 4
    let search := u32 (sub32 addr elf.buffer + offset)
    let scan := if offset ≠ 0 then scanSbios elf search s else (none, s)
    writeSbios elf addr (scan.1.getD 0xf000) scan.2
  else ⟨-6, some "Can't find sbios.", s, none, none⟩

/-- `rteElfOffset` is what `atoi` returned, stored to an unsigned word. `fread` of an empty file
reads no object. -/
def realCopyRteSbios (elf : RteElf) (rteElfOffset : Int) : SbiosCopy :=
  let s := RegScan.start elf.regs
  if !elf.opens then ⟨0, some "Failed to open file \"%s\"", s, none, none⟩
  else if !elf.allocates then ⟨-2, some "out of memory", s, none, none⟩
  else if !elf.reads || elf.size == 0 then ⟨-3, some "Can't read file.", s, none, none⟩
  else extractSbios elf (rteElfOffset % 2 ^ 32).toNat

/-- Only the buffer is read, no register is used before it was stored to, and what is written lies
in the buffer. -/
structure SbiosCopy.Safe (elf : RteElf) (r : SbiosCopy) : Prop where
  inside : ∀ span ∈ r.scan.spans, SpanIn elf.buffer (elf.buffer + elf.size) span
  initialised : r.scan.uninitialised = []
  written : ∀ span ∈ r.written, SpanIn elf.buffer (elf.buffer + elf.size) span

/-- The registers an instruction reads. -/
def operandsOf (v : Nat) : List Nat :=
  if opOf v = 9 then [rsOf v]
  else if opOf v = 0 ∧ functOf v = 35 then [rsOf v, rtOf v]
  else if opOf v = 3 then [5]
  else []

/-- The registers whose values are known after an instruction, if `known` are before it. -/
def knownAfter (v : Nat) (known : Nat → Option Nat) : Nat → Option Nat :=
  if opOf v = 9 then
    Function.update known (rtOf v) ((known (rsOf v)).map fun a => u32 (a + immidiateOf v))
  else if opOf v = 15 ∧ rsOf v = 0 then
    Function.update known (rtOf v) (some (u32 (immidiateOf v <<< 16)))
  else if opOf v = 0 ∧ functOf v = 35 then
    Function.update known (rdOf v)
      ((known (rsOf v)).bind fun a => (known (rtOf v)).map fun b => u32 (sub32 a b))
  else known

/-- The values that the instructions before the one with number `i` give to the registers. -/
def RteElf.known (elf : RteElf) : Nat → Nat → Option Nat
  | 0 => fun _ => none
  | i + 1 => knownAfter (elf.wordAt i) (elf.known i)

/-- At this `jal` register a1 is known to hold `search`. -/
def RteElf.Copies (elf : RteElf) (search i : Nat) : Prop :=
  opOf (elf.wordAt i) = 3 ∧ elf.known i 5 = some search

/-- The code can be followed from the instruction with number `i` on: it lies in the file, its
operands are known, and so on until the SBIOS is copied, with a known size, or the file ends. -/
inductive RteElf.Followed (elf : RteElf) (search : Nat) : Nat → Option Nat → Prop
  | stop : i < elf.size / 4 → elf.Copies search i → elf.known i 6 = some v →
      Followed elf search i (some v)
  | next : i < elf.size / 4 → (∀ r ∈ operandsOf (elf.wordAt i), elf.known i r ≠ none) →
      ¬ elf.Copies search i → Followed elf search (i + 1) o → Followed elf search i o
  | done : 4 * i = elf.size → Followed elf search i none

/-- The first magic in the file is the word with number `k`. -/
def RteElf.FirstMagic (elf : RteElf) (k : Nat) : Prop :=
  k < elf.size / 4 ∧ elf.wordAt k = magicCheck ∧ ∀ j < k, elf.wordAt j ≠ magicCheck

/-- The file holds a magic, the code can be followed unless there is no offset, and the SBIOS lies
in the file if it is written. -/
def RteElf.Extractable (elf : RteElf) (offset : Nat) : Prop :=
  ∃ k o, elf.FirstMagic k ∧
    (if offset = 0 then o = none else elf.Followed (u32 (sub32 (4 * k) 4 + offset)) 0 o) ∧
    (elf.creates || elf.createsAgain →
      o.getD 0xf000 = 0 ∨ 0 < k ∧ 4 * k - 4 + o.getD 0xf000 ≤ elf.size)

variable {elf : RteElf} {s : RegScan} {search : Nat} {known : Nat → Option Nat} {o : Option Nat}

/-- The registers that were stored to are the known ones. -/
def RegScan.Knows (s : RegScan) (known : Nat → Option Nat) : Prop :=
  ∀ r, known r = if s.assigned r then some (s.regs r) else none

theorem RegScan.Knows.use (h : s.Knows known) (hr : known r ≠ none) : s.use r = s := by
  rw [h r] at hr
  rw [RegScan.use]
  split at hr
  · rename_i ha
    rw [if_pos ha]
  · exact absurd rfl hr

theorem RegScan.Knows.use_unknown (h : s.Knows known) (hr : known r = none) :
    (s.use r).uninitialised ≠ [] := by
  rw [h r] at hr
  rw [RegScan.use]
  split at hr
  · cases hr
  · rename_i ha
    rw [if_neg ha]
    exact List.cons_ne_nil _ _

theorem RegScan.Knows.regs (h : s.Knows known) (hr : known r = some v) : s.regs r = v := by
  rw [h r] at hr
  split at hr
  · exact Option.some.inj hr
  · cases hr

theorem RegScan.Knows.regs_of_ne_none (h : s.Knows known) (hr : known r ≠ none) :
    known r = some (s.regs r) := by
  obtain ⟨v, hv⟩ := Option.ne_none_iff_exists'.mp hr
  rw [hv, h.regs hv]

theorem RegScan.Knows.setReg (h : s.Knows known) (r v : Nat) :
    (s.setReg r v).Knows (Function.update known r (some (u32 v))) := by
  intro x
  by_cases hx : x = r
  · subst hx
    simp only [RegScan.setReg, Function.update_self, if_true]
  · simp only [RegScan.setReg, Function.update_of_ne hx, h x]

theorem RegScan.use_keeps (h : s.uninitialised ≠ []) (r : Nat) : (s.use r).uninitialised ≠ [] := by
  rw [RegScan.use]
  split
  · exact h
  · exact List.cons_ne_nil _ _

theorem RegScan.use_spans (r : Nat) (s : RegScan) : (s.use r).spans = s.spans := by
  rw [RegScan.use]
  split <;> rfl

theorem rteInstr_next (hs : s.Knows known) (hknown : ∀ r ∈ operandsOf v, known r ≠ none)
    (hcopies : ¬ (opOf v = 3 ∧ known 5 = some search)) :
    ∃ s', rteInstr search v s = (none, s') ∧ s'.Knows (knownAfter v known) ∧
      s'.spans = s.spans ∧ s'.uninitialised = s.uninitialised := by
  unfold operandsOf at hknown
  unfold rteInstr knownAfter
  by_cases haddiu : opOf v = 9
  · rw [if_pos haddiu] at hknown
    have hrs := hknown (rsOf v) List.mem_cons_self
    rw [if_pos haddiu, if_pos haddiu, hs.use hrs, hs.regs_of_ne_none hrs]
    exact ⟨_, rfl, hs.setReg _ _, rfl, rfl⟩
  by_cases hlui : opOf v = 15
  · rw [if_neg haddiu, if_neg haddiu, if_pos hlui]
    by_cases hrs : rsOf v = 0
    · rw [if_pos hrs, if_pos ⟨hlui, hrs⟩]
      exact ⟨_, rfl, hs.setReg _ _, rfl, rfl⟩
    · rw [if_neg hrs, if_neg (not_and_of_not_right _ hrs), if_neg (by omega)]
      exact ⟨s, rfl, hs, rfl, rfl⟩
  rw [if_neg haddiu, if_neg haddiu, if_neg hlui, if_neg (not_and_of_not_left (rsOf v = 0) hlui)]
  rw [if_neg haddiu] at hknown
  by_cases hspecial : opOf v = 0
  · rw [if_pos hspecial]
    by_cases hsubu : functOf v = 35
    · rw [if_pos ⟨hspecial, hsubu⟩] at hknown
      have hrs := hknown (rsOf v) List.mem_cons_self
      have hrt := hknown (rtOf v) (List.mem_cons_of_mem _ List.mem_cons_self)
      rw [if_pos hsubu, if_pos ⟨hspecial, hsubu⟩, hs.use hrt, hs.use hrs, hs.regs_of_ne_none hrs,
        hs.regs_of_ne_none hrt]
      exact ⟨_, rfl, hs.setReg _ _, rfl, rfl⟩
    · rw [if_neg hsubu, if_neg (not_and_of_not_right _ hsubu)]
      exact ⟨s, rfl, hs, rfl, rfl⟩
  have hnotsubu : ¬ (opOf v = 0 ∧ functOf v = 35) := not_and_of_not_left _ hspecial
  rw [if_neg hspecial, if_neg hnotsubu]
  rw [if_neg hnotsubu] at hknown
  by_cases hjal : opOf v = 3
  · rw [if_pos hjal] at hknown
    have h5 := hknown 5 List.mem_cons_self
    have hne : s.regs 5 ≠ search := fun h => hcopies ⟨hjal, h ▸ hs.regs_of_ne_none h5⟩
    rw [if_pos hjal, if_neg hne, hs.use h5]
    exact ⟨s, rfl, hs, rfl, rfl⟩
  · rw [if_neg hjal]
    exact ⟨s, rfl, hs, rfl, rfl⟩

theorem rteInstr_copies (hs : s.Knows known) (hjal : opOf v = 3) (h5 : known 5 = some search) :
    rteInstr search v s = (some (s.regs 6), s.use 6) := by
  have huse : s.use 5 = s := hs.use (h5 ▸ Option.some_ne_none _)
  unfold rteInstr
  rw [if_neg (by omega), if_neg (by omega), if_neg (by omega), if_pos hjal, if_pos (hs.regs h5),
    huse]

/-- An operand that is not known is a use of a register nothing was stored to. -/
theorem rteInstr_unknown (hs : s.Knows known) (hr : r ∈ operandsOf v) (hnone : known r = none) :
    (rteInstr search v s).2.uninitialised ≠ [] := by
  have huse := hs.use_unknown hnone
  unfold operandsOf at hr
  unfold rteInstr
  split at hr
  · rename_i haddiu
    rw [if_pos haddiu]
    rw [List.mem_singleton.mp hr] at huse
    exact huse
  rename_i haddiu
  split at hr
  · rename_i hsubu
    rw [if_neg haddiu, if_neg (by omega), if_pos hsubu.1, if_pos hsubu.2]
    show ((s.use (rtOf v)).use (rsOf v)).uninitialised ≠ []
    rcases List.mem_cons.mp hr with rfl | hr
    · by_cases hrt : known (rtOf v) = none
      · exact RegScan.use_keeps (hs.use_unknown hrt) _
      · rw [hs.use hrt]
        exact huse
    · rw [List.mem_singleton.mp hr] at huse
      exact RegScan.use_keeps huse _
  split at hr
  · rename_i hjal
    rw [if_neg haddiu, if_neg (by omega), if_neg (by omega), if_pos hjal]
    rw [List.mem_singleton.mp hr] at huse
    split
    · exact RegScan.use_keeps huse 6
    · exact huse
  · cases hr

theorem rteInstr_spans (search v : Nat) (s : RegScan) :
    (rteInstr search v s).2.spans = s.spans := by
  unfold rteInstr
  split_ifs <;> simp only [RegScan.setReg, RegScan.use_spans]

theorem rteInstr_keeps (h : s.uninitialised ≠ []) :
    (rteInstr search v s).2.uninitialised ≠ [] := by
  unfold rteInstr
  split_ifs
  · exact RegScan.use_keeps h _
  · exact h
  · exact h
  · exact RegScan.use_keeps (RegScan.use_keeps h _) _
  · exact h
  · exact RegScan.use_keeps (RegScan.use_keeps h _) _
  · exact RegScan.use_keeps h _
  · exact h

/-- Before the instruction with number `i`: everything so far was as it should be. -/
structure RteElf.Reached (elf : RteElf) (i : Nat) (s : RegScan) : Prop where
  within : 4 * i ≤ elf.size
  knows : s.Knows (elf.known i)
  initialised : s.uninitialised = []
  inside : ∀ span ∈ s.spans, SpanIn elf.buffer (elf.buffer + elf.size) span

/-- What can't be made good any more. -/
def RegScan.Spoilt (elf : RteElf) (s : RegScan) : Prop :=
  s.uninitialised ≠ [] ∨ ∃ span ∈ s.spans, ¬ SpanIn elf.buffer (elf.buffer + elf.size) span

theorem RteElf.spanIn_word (elf : RteElf) (i : Nat) :
    SpanIn elf.buffer (elf.buffer + elf.size) (elf.buffer + 4 * i, 4) ↔ i < elf.size / 4 := by
  rw [spanIn_iff]
  omega

theorem RegScan.Spoilt.word (h : s.Spoilt elf) (a : Nat) : (s.word a).Spoilt elf := by
  refine h.imp_right fun ⟨span, hspan, hout⟩ => ?_
  exact ⟨span, List.mem_append_left _ hspan, hout⟩

theorem RegScan.Spoilt.rteInstr (h : s.Spoilt elf) (search v : Nat) :
    (rteInstr search v s).2.Spoilt elf := by
  refine h.imp rteInstr_keeps fun hspan => ?_
  rw [rteInstr_spans]
  exact hspan

theorem RteElf.Reached.word (h : elf.Reached i s) (hi : j < elf.size / 4) :
    elf.Reached i (s.word (elf.buffer + 4 * j)) := by
  refine ⟨h.within, h.knows, h.initialised, fun span hspan => ?_⟩
  rcases List.mem_append.mp hspan with hspan | hspan
  · exact h.inside span hspan
  · rw [List.mem_singleton.mp hspan]
    exact (elf.spanIn_word j).mpr hi

theorem RteElf.Reached.not_spoilt (h : elf.Reached i s) : ¬ s.Spoilt elf := by
  rintro (hused | ⟨span, hspan, hout⟩)
  · exact hused h.initialised
  · exact hout (h.inside span hspan)

/-- The scan from the instruction with number `i` on. -/
def scanFrom (elf : RteElf) (search i : Nat) (s : RegScan) : Option Nat × RegScan :=
  forEach (fun i s => rteInstr search (elf.wordAt i) (s.word (elf.buffer + 4 * i)))
    (List.range' i (elf.rounds - i)) s

theorem scanSbios_eq (elf : RteElf) (search : Nat) (s : RegScan) :
    scanSbios elf search s = scanFrom elf search 0 s := rfl

theorem scanFrom_next (hi : i < elf.rounds)
    (h : rteInstr search (elf.wordAt i) (s.word (elf.buffer + 4 * i)) = (none, s')) :
    scanFrom elf search i s = scanFrom elf search (i + 1) s' := by
  have hrounds : elf.rounds - i = elf.rounds - (i + 1) + 1 := by omega
  rw [scanFrom, hrounds, List.range'_succ, forEach, h, scanFrom]

theorem scanFrom_stop (hi : i < elf.rounds)
    (h : rteInstr search (elf.wordAt i) (s.word (elf.buffer + 4 * i)) = (some v, s')) :
    scanFrom elf search i s = (some v, s') := by
  have hrounds : elf.rounds - i = elf.rounds - (i + 1) + 1 := by omega
  rw [scanFrom, hrounds, List.range'_succ, forEach, h]

theorem RegScan.Spoilt.scan (h : s.Spoilt elf) (search i : Nat) :
    (scanFrom elf search i s).2.Spoilt elf :=
  forEach_keeps (fun _ _ hs => (hs.word _).rteInstr _ _) _ h

theorem scanFrom_spoilt (hi : i < elf.rounds)
    (h : (rteInstr search (elf.wordAt i) (s.word (elf.buffer + 4 * i))).2.Spoilt elf) :
    (scanFrom elf search i s).2.Spoilt elf := by
  cases hinstr : rteInstr search (elf.wordAt i) (s.word (elf.buffer + 4 * i)) with
  | mk r s' =>
    rw [hinstr] at h
    cases r with
    | none =>
      rw [scanFrom_next hi hinstr]
      exact h.scan search (i + 1)
    | some v =>
      rw [scanFrom_stop hi hinstr]
      exact h

theorem RteElf.lt_rounds (hi : i < elf.size / 4) : i < elf.rounds := by
  rw [RteElf.rounds]
  omega

theorem RteElf.Followed.scan (h : elf.Followed search i o) (hs : elf.Reached i s) :
    (scanFrom elf search i s).1 = o ∧ ¬ (scanFrom elf search i s).2.Spoilt elf := by
  induction h generalizing s with
  | @stop i v hi hcopies hsize =>
    have hword := hs.word hi
    have huse := hword.knows.use (hsize ▸ Option.some_ne_none _)
    have hinstr := rteInstr_copies hword.knows hcopies.1 hcopies.2
    rw [scanFrom_stop (RteElf.lt_rounds hi) hinstr, huse]
    exact ⟨congrArg some (hword.knows.regs hsize), hword.not_spoilt⟩
  | @next i o hi hknown hcopies _ ih =>
    have hword := hs.word hi
    obtain ⟨s', hinstr, hknows, hspans, hused⟩ := rteInstr_next hword.knows hknown hcopies
    rw [scanFrom_next (RteElf.lt_rounds hi) hinstr]
    apply ih
    exact ⟨by omega, hknows, hused.trans hword.initialised, hspans ▸ hword.inside⟩
  | @done i hi =>
    have hrounds : elf.rounds - i = 0 := by
      rw [RteElf.rounds]
      omega
    rw [scanFrom, hrounds]
    exact ⟨rfl, hs.not_spoilt⟩

theorem RteElf.Reached.followed (hs : elf.Reached i s)
    (h : ¬ (scanFrom elf search i s).2.Spoilt elf) : ∃ o, elf.Followed search i o := by
  induction hn : elf.rounds - i generalizing i s with
  | zero =>
    have hwithin := hs.within
    rw [RteElf.rounds] at hn
    exact ⟨none, .done (by omega)⟩
  | succ n ih =>
    have hend : i < elf.rounds := by omega
    have hi : i < elf.size / 4 := by
      by_contra hi
      have hspoilt : (s.word (elf.buffer + 4 * i)).Spoilt elf :=
        .inr ⟨_, List.mem_append_right _ List.mem_cons_self, mt (elf.spanIn_word i).mp hi⟩
      exact h (scanFrom_spoilt hend (hspoilt.rteInstr search (elf.wordAt i)))
    have hword := hs.word hi
    have hknown : ∀ r ∈ operandsOf (elf.wordAt i), elf.known i r ≠ none := by
      intro r hr hnone
      exact h (scanFrom_spoilt hend (.inl (rteInstr_unknown hword.knows hr hnone)))
    by_cases hcopies : elf.Copies search i
    · have hinstr := rteInstr_copies hword.knows hcopies.1 hcopies.2
      cases h6 : elf.known i 6 with
      | none =>
        rw [scanFrom_stop hend hinstr] at h
        exact absurd (.inl (hword.knows.use_unknown h6)) h
      | some v => exact ⟨some v, .stop hi hcopies h6⟩
    · obtain ⟨s', hinstr, hknows, hspans, hused⟩ := rteInstr_next hword.knows hknown hcopies
      rw [scanFrom_next hend hinstr] at h
      have hnext : elf.Reached (i + 1) s' :=
        ⟨by omega, hknows, hused.trans hword.initialised, hspans ▸ hword.inside⟩
      obtain ⟨o, ho⟩ := ih hnext h (by omega)
      exact ⟨o, .next hi hknown hcopies ho⟩

/-- A word that is the magic ends the search. -/
def RteElf.magicAt (elf : RteElf) (i : Nat) : Option Nat :=
  if elf.wordAt i = magicCheck then some i else none

theorem RteElf.magicAt_eq_none : elf.magicAt i = none ↔ elf.wordAt i ≠ magicCheck := by
  unfold RteElf.magicAt
  split <;> simp [*]

theorem foldl_word (a : Nat → Nat) (is : List Nat) (s : RegScan) :
    is.foldl (fun s i => s.word (a i)) s =
      { s with spans := s.spans ++ is.map fun i => (a i, 4) } := by
  induction is generalizing s with
  | nil => rw [List.map_nil, List.append_nil, List.foldl_nil]
  | cons i is ih =>
    rw [List.foldl_cons, ih, List.map_cons]
    simp only [RegScan.word, List.append_assoc, List.singleton_append]

theorem findSbios_eq (elf : RteElf) : findSbios elf =
    ((List.range' 0 elf.rounds).findSome? elf.magicAt,
      { RegScan.start elf.regs with
        spans := (upToFirst elf.magicAt (List.range' 0 elf.rounds)).map
          fun i => (elf.buffer + 4 * i, 4) }) := by
  have hloop := forEach_uniform (I := fun _ => True) elf.magicAt
    (fun i s => s.word (elf.buffer + 4 * i)) (fun _ _ _ => rfl) (fun _ _ _ => trivial)
    (List.range' 0 elf.rounds) (s := RegScan.start elf.regs) trivial
  rw [foldl_word] at hloop
  exact hloop

theorem RteElf.FirstMagic.find (h : elf.FirstMagic k) :
    (findSbios elf).1 = some k ∧ elf.Reached 0 (findSbios elf).2 := by
  obtain ⟨hk, hmagic, hfirst⟩ := h
  have hat : elf.magicAt k = some k := if_pos hmagic
  rw [findSbios_eq]
  constructor
  · apply findSome?_range'.mpr
    refine ⟨k, Nat.zero_le k, ?_, hat, fun j _ hj => RteElf.magicAt_eq_none.mpr (hfirst j hj)⟩
    rw [Nat.zero_add]
    exact RteElf.lt_rounds hk
  · refine ⟨Nat.zero_le _, fun _ => rfl, rfl, fun span hspan => ?_⟩
    obtain ⟨i, hi, rfl⟩ := List.mem_map.mp hspan
    obtain ⟨-, -, hbefore⟩ := mem_upToFirst_range'.mp hi
    have hle : i ≤ k := by
      by_contra hlt
      rw [hbefore k (Nat.zero_le k) (by omega)] at hat
      cases hat
    exact (elf.spanIn_word i).mpr (by omega)

theorem RteElf.firstMagic_of_find (hlt : (findSbios elf).1.getD elf.rounds < elf.size / 4) :
    elf.FirstMagic ((findSbios elf).1.getD elf.rounds) := by
  rw [findSbios_eq] at hlt ⊢
  cases hfind : (List.range' 0 elf.rounds).findSome? elf.magicAt with
  | none =>
    rw [hfind] at hlt
    exact absurd (RteElf.lt_rounds hlt) (Nat.lt_irrefl _)
  | some k =>
    rw [hfind] at hlt
    obtain ⟨j, -, -, hat, hbefore⟩ := findSome?_range'.mp hfind
    have hmagic : elf.wordAt j = magicCheck := by
      by_contra hne
      rw [RteElf.magicAt_eq_none.mpr hne] at hat
      cases hat
    obtain rfl : j = k := Option.some.inj ((if_pos hmagic).symm.trans hat)
    exact ⟨hlt, hmagic, fun i hi => RteElf.magicAt_eq_none.mp (hbefore i (Nat.zero_le i) hi)⟩

theorem RegScan.not_spoilt_iff : ¬ s.Spoilt elf ↔
    (∀ span ∈ s.spans, SpanIn elf.buffer (elf.buffer + elf.size) span) ∧ s.uninitialised = [] := by
  unfold RegScan.Spoilt
  push Not
  exact and_comm

theorem SbiosCopy.safe_iff (r : SbiosCopy) : r.Safe elf ↔ ¬ r.scan.Spoilt elf ∧
    ∀ span ∈ r.written, SpanIn elf.buffer (elf.buffer + elf.size) span := by
  rw [RegScan.not_spoilt_iff]
  exact ⟨fun h => ⟨⟨h.inside, h.initialised⟩, h.written⟩, fun h => ⟨h.1.1, h.1.2, h.2⟩⟩

theorem writeSbios_safe_iff (elf : RteElf) (addr n : Nat) (s : RegScan) :
    (writeSbios elf addr n s).Safe elf ↔ ¬ s.Spoilt elf ∧ (elf.creates || elf.createsAgain →
      SpanIn elf.buffer (elf.buffer + elf.size) (addr, n)) := by
  rw [SbiosCopy.safe_iff]
  unfold writeSbios
  cases hcreates : elf.creates || elf.createsAgain with
  | false => simp
  | true => split_ifs <;> simp_all

/-- The SBIOS starts before the buffer if the magic is the first word. -/
theorem RteElf.spanIn_sbios (hplaced : 0 < elf.buffer ∧ elf.buffer % 4 = 0 ∧
    elf.buffer + elf.size + 4 ≤ 2 ^ 32) (hk : k < elf.size / 4) (n : Nat) :
    SpanIn elf.buffer (elf.buffer + elf.size) (sub32 (elf.buffer + 4 * k) 4, n) ↔
      n = 0 ∨ 0 < k ∧ 4 * k - 4 + n ≤ elf.size := by
  rw [sub32_of_le (by omega) (by omega), spanIn_iff]
  omega

theorem RteElf.sub32_buffer (elf : RteElf) (k : Nat) :
    sub32 (sub32 (elf.buffer + 4 * k) 4) elf.buffer = sub32 (4 * k) 4 := by
  unfold sub32
  omega

theorem RteElf.FirstMagic.unique (hj : elf.FirstMagic j) (hk : elf.FirstMagic k) : j = k := by
  rcases Nat.lt_trichotomy j k with hlt | heq | hlt
  · exact absurd hj.2.1 (hk.2.2 j hlt)
  · exact heq
  · exact absurd hk.2.1 (hj.2.2 k hlt)

theorem RteElf.FirstMagic.extractable_iff (hfirst : elf.FirstMagic k) (offset : Nat) :
    elf.Extractable offset ↔ ∃ o,
      (if offset = 0 then o = none else elf.Followed (u32 (sub32 (4 * k) 4 + offset)) 0 o) ∧
      (elf.creates || elf.createsAgain →
        o.getD 0xf000 = 0 ∨ 0 < k ∧ 4 * k - 4 + o.getD 0xf000 ≤ elf.size) := by
  constructor
  · rintro ⟨j, o, hj, h⟩
    rw [← hj.unique hfirst]
    exact ⟨o, h⟩
  · rintro ⟨o, h⟩
    exact ⟨k, o, hfirst, h⟩

/-- Without a magic the word after the search is read, and it does not lie in the file. -/
theorem extractSbios_not_safe (hlt : ¬ (findSbios elf).1.getD elf.rounds < elf.size / 4)
    (offset : Nat) : ¬ (extractSbios elf offset).Safe elf := by
  have hspoilt : ((findSbios elf).2.word
      (elf.buffer + 4 * (findSbios elf).1.getD elf.rounds)).Spoilt elf :=
    .inr ⟨_, List.mem_append_right _ List.mem_cons_self, mt (elf.spanIn_word _).mp hlt⟩
  unfold extractSbios
  dsimp only
  split
  · rw [writeSbios_safe_iff]
    refine fun h => h.1 ?_
    split
    · exact hspoilt.scan _ 0
    · exact hspoilt
  · rw [SbiosCopy.safe_iff]
    exact fun h => h.1 hspoilt

theorem extractSbios_safe_iff (hplaced : 0 < elf.buffer ∧ elf.buffer % 4 = 0 ∧
    elf.buffer + elf.size + 4 ≤ 2 ^ 32) (offset : Nat) :
    (extractSbios elf offset).Safe elf ↔ elf.Extractable offset := by
  by_cases hlt : (findSbios elf).1.getD elf.rounds < elf.size / 4
  · have hfirst := RteElf.firstMagic_of_find hlt
    have hreached := hfirst.find.2.word hlt
    unfold extractSbios
    dsimp only
    generalize (findSbios elf).1.getD elf.rounds = k at *
    rw [if_pos hfirst.2.1, hfirst.extractable_iff, writeSbios_safe_iff,
      RteElf.spanIn_sbios hplaced hlt, RteElf.sub32_buffer]
    by_cases hoffset : offset = 0
    · rw [if_neg (not_not.mpr hoffset)]
      simp only [if_pos hoffset, exists_eq_left]
      exact and_iff_right hreached.not_spoilt
    · simp only [if_pos (show offset ≠ 0 from hoffset), if_neg hoffset, scanSbios_eq]
      constructor
      · rintro ⟨hspoilt, hwritten⟩
        obtain ⟨o, ho⟩ := hreached.followed hspoilt
        rw [(ho.scan hreached).1] at hwritten
        exact ⟨o, ho, hwritten⟩
      · rintro ⟨o, ho, hwritten⟩
        obtain ⟨hresult, hspoilt⟩ := ho.scan hreached
        rw [hresult]
        exact ⟨hspoilt, hwritten⟩
  · apply iff_of_false (extractSbios_not_safe hlt offset)
    rintro ⟨k, o, hfirst, -⟩
    rw [hfirst.find.1] at hlt
    exact hlt hfirst.1

/-- `real_copyRTESBIOS` is safe exactly on the executables it is meant for. -/
theorem realCopyRteSbios_safe_iff (elf : RteElf) (rteElfOffset : Int) :
    (realCopyRteSbios elf rteElfOffset).Safe elf ↔
      (elf.opens → elf.allocates → elf.reads → 0 < elf.size →
        elf.Extractable (rteElfOffset % 2 ^ 32).toNat) := by
  have hearly (code : Int) (message : Option String) :
      (SbiosCopy.mk code message (.start elf.regs) none none).Safe elf :=
    ⟨fun _ h => (nomatch h), rfl, fun _ h => (nomatch h)⟩
  unfold realCopyRteSbios
  dsimp only
  split_ifs with hopens hallocates hreads
  · exact iff_of_true (hearly _ _) fun h => absurd h (by simpa using hopens)
  · exact iff_of_true (hearly _ _) fun _ h => absurd h (by simpa using hallocates)
  · exact iff_of_true (hearly _ _) fun _ _ h h0 => absurd hreads (by simp [h]; omega)
  · simp only [Bool.not_eq_true', Bool.not_eq_false] at hopens hallocates
    rw [extractSbios_safe_iff (elf.placed hallocates)]
    have hread : elf.reads = true ∧ 0 < elf.size := by
      simp at hreads
      exact ⟨hreads.1, Nat.pos_of_ne_zero hreads.2⟩
    exact ⟨fun h _ _ _ _ => h, fun h => h hopens hallocates hread.1 hread.2⟩

/-- An executable of two words. -/
def twoWords (first second : Nat) : RteElf where
  opens := true
  size := 8
  allocates := true
  buffer := 0x100000
  reads := true
  bytes a := .ofNat ((if a < 0x100004 then first else second) / 256 ^ (a % 4))
  regs _ := 0
  creates := true
  createsAgain := false
  writes := true
  placed _ := by decide

/-- Without a magic the word behind the buffer is read. With `addiu a1, a1, 0` before the magic
register a1 is used uninitialised. Without an offset more than the file is written. -/
theorem realCopyRteSbios_two_words :
    ¬ (realCopyRteSbios (twoWords 0 0) 16773120).Safe (twoWords 0 0) ∧
      ¬ (realCopyRteSbios (twoWords 0x24a50000 magicCheck) 16773120).Safe
        (twoWords 0x24a50000 magicCheck) ∧
      ¬ (realCopyRteSbios (twoWords 0 magicCheck) 0).Safe (twoWords 0 magicCheck) := by
  refine ⟨fun h => ?_, fun h => ?_, fun h => ?_⟩
  · exact absurd (h.inside (0x100008, 4) (by decide)) (by decide)
  · exact absurd h.initialised (by decide)
  · exact absurd (h.written (0x100000, 0xf000) (by decide)) (by decide)

end KernelLoader.Boot
