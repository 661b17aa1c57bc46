import KernelLoader.Lib.Logged
import KernelLoader.Lib.Stream
import Mathlib.Data.UInt

namespace KernelLoader.Boot
open Lib
set_option autoImplicit true
set_option relaxedAutoImplicit false

/-- A file that is part of the loader. The bytes are those from `start` on; there are none if it is
NULL. -/
structure RomEntry where
  filename : String
  start : Option (Nat → UInt8)
  size : Int32

/-- The host has streams of its own. -/
structure HostIo (F : Type) where
  fopen : String → String → Option F
  fread : F → Nat → List UInt8 × F
  fseek : F → Int32 → Int32 → Int32 × F
  ftell : F → Int32
  feof : F → Int32

structure RomFd (F : Type) where
  file : Option RomEntry
  fin : Option F
  pos : Int32

def seekSet : Int32 := 0
def seekCur : Int32 := 1
def seekEnd : Int32 := 2

/-- The list ends with an entry without contents. -/
def romGetFile (romFiles : List RomEntry) (filename : String) : Option RomEntry :=
  (romFiles.takeWhile fun e => e.start.isSome).find? fun e => e.filename == filename

def romMaxFilename : Nat := 200

/-- Is there memory for a stream, and what is left in its `pos` if it is one of the host? -/
def romOpen (host : HostIo F) (romFiles : List RomEntry) (allocates : Bool) (garbage : Int32)
    (filename mode : String) : Option (RomFd F) :=
  match romGetFile romFiles filename with
  | some file => if allocates then some ⟨some file, none, 0⟩ else none
  | none =>
    let hostfilename := (("host:" ++ filename).take (romMaxFilename - 1)).toString
    match host.fopen hostfilename mode with
    | some fin => if allocates then some ⟨none, some fin, garbage⟩ else none
    | none => none

def memcpy (buffer src : Nat → UInt8) (size : Nat) : Nat → UInt8 := fun i =>
  if i < size then src i else buffer i

/-- The value returned, the buffer and the stream. -/
def romRead (host : HostIo F) (fd : RomFd F) (buffer : Nat → UInt8) (size : Int32) :
    Int32 × (Nat → UInt8) × RomFd F :=
  match fd.fin, fd.file with
  | some fin, _ =>
    let (bytes, fin) := host.fread fin size.toUInt32.toNat
    (.ofNat bytes.length, memcpy buffer (bytes.getD · 0) bytes.length, { fd with fin := some fin })
  | none, some file =>
    if fd.pos ≥ file.size then (-1, buffer, fd)
    else if size ≤ 0 then (size, buffer, fd)
    else
      let remaining := file.size - fd.pos
      let size := if size > remaining then remaining else size
      match file.start with
      | none => (-2, buffer, fd)
      | some start =>
        if file.size < 0 then (-2, buffer, fd)
        else
          (size, memcpy buffer (fun i => start (fd.pos.toInt.toNat + i)) size.toInt.toNat,
            { fd with pos := fd.pos + size })
  | none, none => (-1, buffer, fd)

def romSeek (host : HostIo F) (fd : RomFd F) (offset whence : Int32) : Int32 × RomFd F :=
  match fd.fin, fd.file with
  | some fin, _ =>
    let (value, fin) := host.fseek fin offset whence
    (value, { fd with fin := some fin })
  | none, some file =>
    let newpos :=
      if whence = seekSet then some offset
      else if whence = seekEnd then some (file.size + offset)
      else if whence = seekCur then some (fd.pos + offset)
      else none
    match newpos with
    | none => (-1, fd)
    | some newpos =>
      if newpos < 0 then (-1, fd)
      else if newpos > file.size then (-1, fd)
      else (0, { fd with pos := newpos })
  | none, none => (-1, fd)

def romTell (host : HostIo F) (fd : RomFd F) : Int32 :=
  match fd.fin, fd.file with
  | some fin, _ => host.ftell fin
  | none, some _ => fd.pos
  | none, none => -1

def romEof (host : HostIo F) (fd : RomFd F) : Int32 :=
  match fd.fin, fd.file with
  | _, some file => if fd.pos ≥ file.size then 1 else 0
  | some fin, none => host.feof fin
  | none, none => -1

/-- The calls on a stream, with their arguments. -/
inductive RomCall
  | read (buffer : Nat → UInt8) (size : Int32)
  | seek (offset whence : Int32)
  | tell
  | eof

/-- The value returned, and the buffer after a read. -/
inductive RomAnswer
  | read (value : Int32) (buffer : Nat → UInt8)
  | value (value : Int32)

def romStep (host : HostIo F) (fd : RomFd F) : RomCall → RomAnswer × RomFd F
  | .read buffer size =>
    let (value, buffer, fd) := romRead host fd buffer size
    (.read value buffer, fd)
  | .seek offset whence =>
    let (value, fd) := romSeek host fd offset whence
    (.value value, fd)
  | .tell => (.value (romTell host fd), fd)
  | .eof => (.value (romEof host fd), fd)

theorem toInt_add_cases (a b : Int32) :
    (a + b).toInt = a.toInt + b.toInt ∨
      2 ^ 31 ≤ a.toInt + b.toInt ∧ (a + b).toInt < 0 ∨
      a.toInt + b.toInt < -2 ^ 31 ∧ 0 ≤ (a + b).toInt := by
  have ha := a.toInt_lt
  have ha' := a.le_toInt
  have hb := b.toInt_lt
  have hb' := b.le_toInt
  rw [Int32.toInt_add, Int.bmod_def]
  split <;> omega

theorem toInt_add_of_bounds {a b : Int32} (h : 0 ≤ a.toInt + b.toInt)
    (h' : a.toInt + b.toInt < 2 ^ 31) : (a + b).toInt = a.toInt + b.toInt := by
  rcases toInt_add_cases a b with hadd | hadd | hadd
  · exact hadd
  · omega
  · omega

theorem toInt_sub_of_le {a b : Int32} (h : 0 ≤ b.toInt) (h' : b.toInt ≤ a.toInt) :
    (a - b).toInt = a.toInt - b.toInt := by
  have ha := a.toInt_lt
  rw [Int32.toInt_sub, Int.bmod_def]
  split <;> omega

section Refinement

/-- A file with contents. -/
structure RomFile where
  entry : RomEntry
  start : Nat → UInt8
  starts : entry.start = some start
  sized : 0 ≤ entry.size.toInt

def RomFile.bytes (f : RomFile) : List UInt8 :=
  (List.range f.entry.size.toInt.toNat).map f.start

theorem RomFile.length_bytes (f : RomFile) : (f.bytes.length : Int) = f.entry.size.toInt := by
  rw [bytes, List.length_map, List.length_range]
  exact Int.toNat_of_nonneg f.sized

theorem RomFile.getElem?_bytes (f : RomFile) (h : i < f.bytes.length) :
    f.bytes[i]? = some (f.start i) := by
  rw [bytes, List.length_map, List.length_range] at h
  rw [bytes, List.getElem?_map, List.getElem?_range h]
  rfl

/-- Where a seek is to go, if `whence` is one of the three. -/
def seekTarget (s : Stream UInt8) (offset whence : Int32) : Option Int :=
  if whence = seekSet then some offset.toInt
  else if whence = seekEnd then some (s.bytes.length + offset.toInt)
  else if whence = seekCur then some (s.pos + offset.toInt)
  else none

/-- What a stream of bytes with a position does. -/
inductive RomSpec (s : Stream UInt8) : RomCall → RomAnswer → Stream UInt8 → Prop
  | read {buffer buffer' : Nat → UInt8} {size value : Int32} : ¬ s.AtEnd → 0 < size.toInt →
      value.toInt = min size.toInt (s.bytes.length - s.pos) →
      (∀ i, buffer' i = (s.upcoming size.toInt.toNat).getD i (buffer i)) →
      RomSpec s (.read buffer size) (.read value buffer') (s.advance size.toInt.toNat)
  | readNothing {buffer : Nat → UInt8} {size : Int32} : ¬ s.AtEnd → size.toInt ≤ 0 →
      RomSpec s (.read buffer size) (.read size buffer) s
  | readAtEnd {buffer : Nat → UInt8} {size : Int32} : s.AtEnd →
      RomSpec s (.read buffer size) (.read (-1) buffer) s
  | seek {offset whence : Int32} {target : Nat} : seekTarget s offset whence = some (target : Int) →
      (h : target ≤ s.bytes.length) →
      RomSpec s (.seek offset whence) (.value 0) (s.moveTo target h)
  | seekFails {offset whence : Int32} :
      (∀ target : Nat, seekTarget s offset whence = some (target : Int) →
        ¬ target ≤ s.bytes.length) →
      RomSpec s (.seek offset whence) (.value (-1)) s
  | tell {value : Int32} : value.toInt = s.pos → RomSpec s .tell (.value value) s
  | eof : RomSpec s .eof (.value (if s.AtEnd then 1 else 0)) s

/-- A stream of a file of the loader stands for the bytes of the file and a position in them. -/
structure RomFile.Represents (f : RomFile) (fd : RomFd F) (s : Stream UInt8) : Prop where
  file : fd.file = some f.entry
  fin : fd.fin = none
  bytes : s.bytes = f.bytes
  pos : fd.pos.toInt = s.pos

variable {f : RomFile} {fd : RomFd F} {s : Stream UInt8}

theorem RomFile.Represents.size (h : f.Represents fd s) :
    f.entry.size.toInt = s.bytes.length := by
  rw [h.bytes, f.length_bytes]

theorem RomFile.Represents.atEnd_iff (h : f.Represents fd s) :
    fd.pos ≥ f.entry.size ↔ s.AtEnd := by
  have hle := s.le
  rw [ge_iff_le, Int32.le_iff_toInt_le, h.size, h.pos, Stream.AtEnd]
  omega

theorem RomFile.Represents.memcpy_upcoming (h : f.Represents fd s) (buffer : Nat → UInt8) {n : Nat}
    {count : Int32} (hcount : count.toInt = min (n : Int) (s.bytes.length - s.pos)) (i : Nat) :
    memcpy buffer (fun i => f.start (fd.pos.toInt.toNat + i)) count.toInt.toNat i =
      (s.upcoming n).getD i (buffer i) := by
  have hlen := s.length_upcoming n
  have hle := s.le
  have hpos : fd.pos.toInt.toNat = s.pos := by rw [h.pos, Int.toNat_natCast]
  rw [memcpy, hpos, List.getD_eq_getElem?_getD]
  split
  · next hi =>
    rw [Stream.getElem?_upcoming s (by omega), h.bytes]
    rw [f.getElem?_bytes (by rw [← h.bytes]; omega)]
    rfl
  · next hi =>
    rw [List.getElem?_eq_none (by omega)]
    rfl

theorem RomFile.Represents.count (h : f.Represents fd s) (size : Int32) :
    (if size > f.entry.size - fd.pos then f.entry.size - fd.pos else size).toInt =
      min size.toInt (s.bytes.length - s.pos) := by
  have hle := s.le
  have hsize := h.size
  have hpos := h.pos
  have hrem : (f.entry.size - fd.pos).toInt = s.bytes.length - s.pos := by
    rw [toInt_sub_of_le (by omega) (by omega)]
    omega
  split
  · next hgt =>
    rw [gt_iff_lt, Int32.lt_iff_toInt_lt, hrem] at hgt
    omega
  · next hgt =>
    rw [gt_iff_lt, Int32.lt_iff_toInt_lt, hrem] at hgt
    omega

theorem romRead_refines (host : HostIo F) (h : f.Represents fd s) (buffer : Nat → UInt8)
    (size : Int32) :
    ∃ s', RomSpec s (.read buffer size) (romStep host fd (.read buffer size)).1 s' ∧
      f.Represents (romStep host fd (.read buffer size)).2 s' := by
  have hle := s.le
  have hmax := f.entry.size.toInt_lt
  have hsize := h.size
  have hpos := h.pos
  simp only [romStep, romRead, h.fin, h.file, f.starts]
  by_cases hend : s.AtEnd
  · rw [if_pos (h.atEnd_iff.mpr hend)]
    exact ⟨s, .readAtEnd hend, h⟩
  rw [if_neg (mt h.atEnd_iff.mp hend)]
  have hlt := Stream.pos_lt_of_not_atEnd hend
  by_cases hnone : size ≤ 0
  · rw [if_pos hnone]
    rw [Int32.le_iff_toInt_le, Int32.toInt_zero] at hnone
    exact ⟨s, .readNothing hend hnone, h⟩
  rw [if_neg hnone]
  rw [Int32.le_iff_toInt_le, Int32.toInt_zero] at hnone
  have hneg : ¬ f.entry.size < 0 := by
    rw [Int32.lt_iff_toInt_lt, Int32.toInt_zero]
    omega
  simp only [hneg, if_false]
  have hcount := h.count size
  generalize (if size > f.entry.size - fd.pos then f.entry.size - fd.pos else size) = count at *
  refine ⟨s.advance size.toInt.toNat, .read hend (by omega) hcount ?_, ?_⟩
  · apply h.memcpy_upcoming buffer
    rw [hcount]
    omega
  · refine ⟨rfl, rfl, h.bytes, ?_⟩
    show (fd.pos + count).toInt = _
    rw [toInt_add_of_bounds (by omega) (by omega)]
    simp only [Stream.advance]
    omega

/-- The target in the arithmetic of words and the mathematical one are in the file together. -/
theorem target_in_file {target : Int} {newpos : Int32} (h : f.Represents fd s)
    (hpos : newpos.toInt = target ∨ 2 ^ 31 ≤ target ∧ newpos.toInt < 0) :
    (¬ newpos < 0 ∧ ¬ newpos > f.entry.size) ↔ 0 ≤ target ∧ target ≤ s.bytes.length := by
  have hmax := f.entry.size.toInt_lt
  have hsize := h.size
  rw [gt_iff_lt, Int32.lt_iff_toInt_lt, Int32.lt_iff_toInt_lt, Int32.toInt_zero]
  omega

/-- The three places a target is counted from are in the file, so that a sum can only be too
large. -/
theorem seekTarget_newpos (h : f.Represents fd s) (offset whence : Int32) :
    seekTarget s offset whence = none ∧ whence ≠ seekSet ∧ whence ≠ seekEnd ∧ whence ≠ seekCur ∨
      ∃ target newpos, seekTarget s offset whence = some target ∧
        (if whence = seekSet then some offset
          else if whence = seekEnd then some (f.entry.size + offset)
          else if whence = seekCur then some (fd.pos + offset) else none) = some newpos ∧
        (newpos.toInt = target ∨ 2 ^ 31 ≤ target ∧ newpos.toInt < 0) := by
  have hsum (base : Int32) (hbase : 0 ≤ base.toInt) :
      (base + offset).toInt = base.toInt + offset.toInt ∨
        2 ^ 31 ≤ base.toInt + offset.toInt ∧ (base + offset).toInt < 0 := by
    have hoff := offset.le_toInt
    rcases toInt_add_cases base offset with hadd | hadd | hadd
    · exact .inl hadd
    · exact .inr hadd
    · omega
  unfold seekTarget
  by_cases hset : whence = seekSet
  · simp only [if_pos hset]
    exact .inr ⟨offset.toInt, offset, rfl, rfl, .inl rfl⟩
  simp only [if_neg hset]
  by_cases hend : whence = seekEnd
  · simp only [if_pos hend]
    refine .inr ⟨_, f.entry.size + offset, rfl, rfl, ?_⟩
    rw [← h.size]
    exact hsum f.entry.size f.sized
  simp only [if_neg hend]
  by_cases hcur : whence = seekCur
  · simp only [if_pos hcur]
    refine .inr ⟨_, fd.pos + offset, rfl, rfl, ?_⟩
    rw [← h.pos]
    exact hsum fd.pos (by rw [h.pos]; exact Int.natCast_nonneg _)
  simp only [if_neg hcur]
  exact .inl ⟨trivial, hset, hend, hcur⟩

theorem romSeek_refines (host : HostIo F) (h : f.Represents fd s) (offset whence : Int32) :
    ∃ s', RomSpec s (.seek offset whence) (romStep host fd (.seek offset whence)).1 s' ∧
      f.Represents (romStep host fd (.seek offset whence)).2 s' := by
  simp only [romStep, romSeek, h.fin, h.file]
  rcases seekTarget_newpos h offset whence with
    ⟨hnone, hset, hend, hcur⟩ | ⟨target, newpos, ht, hn, hpos⟩
  · rw [if_neg hset, if_neg hend, if_neg hcur]
    refine ⟨s, .seekFails fun target ht => ?_, h⟩
    rw [hnone] at ht
    cases ht
  rw [hn]
  dsimp only
  have hiff := target_in_file h hpos
  by_cases hin : 0 ≤ target ∧ target ≤ s.bytes.length
  · obtain ⟨hlow, hhigh⟩ := hiff.mpr hin
    simp only [hlow, hhigh, if_false]
    have hcast : (target.toNat : Int) = target := Int.toNat_of_nonneg hin.1
    have hle : target.toNat ≤ s.bytes.length := by omega
    refine ⟨s.moveTo target.toNat hle, .seek (by rw [ht, hcast]) hle, rfl, rfl, h.bytes, ?_⟩
    show newpos.toInt = _
    have hmax := f.entry.size.toInt_lt
    have hsize := h.size
    simp only [Stream.moveTo]
    omega
  · have hfails : RomSpec s (.seek offset whence) (.value (-1)) s := by
      refine .seekFails fun target' ht' hle => hin ?_
      obtain rfl : target = target' := Option.some.inj (ht.symm.trans ht')
      omega
    by_cases hlow : newpos < 0
    · rw [if_pos hlow]
      exact ⟨s, hfails, h⟩
    · have hhigh : newpos > f.entry.size := not_not.mp fun hhigh => hin (hiff.mp ⟨hlow, hhigh⟩)
      rw [if_neg hlow, if_pos hhigh]
      exact ⟨s, hfails, h⟩

theorem romStep_refines (host : HostIo F) (h : f.Represents fd s) (call : RomCall) :
    ∃ s', RomSpec s call (romStep host fd call).1 s' ∧
      f.Represents (romStep host fd call).2 s' := by
  cases call with
  | read buffer size => exact romRead_refines host h buffer size
  | seek offset whence => exact romSeek_refines host h offset whence
  | tell =>
    refine ⟨s, ?_, h⟩
    simp only [romStep, romTell, h.fin, h.file]
    exact .tell h.pos
  | eof =>
    refine ⟨s, ?_, h⟩
    simp only [romStep, romEof, h.fin, h.file, h.atEnd_iff]
    exact .eof

theorem romOpen_represents (host : HostIo F) (romFiles : List RomEntry) (garbage : Int32)
    (filename mode : String) (hfile : romGetFile romFiles filename = some f.entry) :
    ∃ fd, romOpen host romFiles true garbage filename mode = some fd ∧
      f.Represents fd (.start f.bytes) := by
  refine ⟨⟨some f.entry, none, 0⟩, ?_, rfl, rfl, rfl, rfl⟩
  simp only [romOpen, hfile, if_true]

/-- A file of the loader is opened at its start, and every sequence of calls on a stream of it is
answered as by the bytes of the file and a position in them. -/
theorem romStream_refines (host : HostIo F) (f : RomFile) :
    (∀ romFiles garbage filename mode, romGetFile romFiles filename = some f.entry →
      ∃ fd, romOpen host romFiles true garbage filename mode = some fd ∧
        f.Represents fd (.start f.bytes)) ∧
    ∀ fd s, f.Represents fd s → ∀ calls : List RomCall,
      ∃ s', Traces RomSpec s calls (answers (romStep host) fd calls).1 s' ∧
        f.Represents (answers (romStep host) fd calls).2 s' := by
  constructor
  · intro romFiles garbage filename mode hfile
    exact romOpen_represents host romFiles garbage filename mode hfile
  · intro fd s h calls
    apply traces_answers _ h
    intro fd s call h
    exact romStep_refines host h call

/-- A host without files. -/
def noHost : HostIo Empty where
  fopen := fun _ _ => none
  fread := fun fin _ => nomatch fin
  fseek := fun fin _ _ => nomatch fin
  ftell := fun fin => nomatch fin
  feof := fun fin => nomatch fin

/-- A file of three bytes. -/
def threeBytes : RomFile where
  entry := ⟨"abc.txt", some fun i => .ofNat (97 + i), 3⟩
  start := fun i => .ofNat (97 + i)
  starts := rfl
  sized := by decide

/-- Read two bytes, go one on, where the end is, and try to read. -/
theorem romStream_refines_three :
    ∃ s', Traces RomSpec (.start threeBytes.bytes)
        [.read (fun _ => 0) 2, .seek 1 seekCur, .eof, .read (fun _ => 0) 1]
        (answers (romStep noHost) ⟨some threeBytes.entry, none, 0⟩
          [.read (fun _ => 0) 2, .seek 1 seekCur, .eof, .read (fun _ => 0) 1]).1 s' ∧
      threeBytes.Represents (answers (romStep noHost) ⟨some threeBytes.entry, none, 0⟩
        [.read (fun _ => 0) 2, .seek 1 seekCur, .eof, .read (fun _ => 0) 1]).2 s' :=
  (romStream_refines noHost threeBytes).2 _ _ ⟨rfl, rfl, rfl, rfl⟩ _

end Refinement

end KernelLoader.Boot
