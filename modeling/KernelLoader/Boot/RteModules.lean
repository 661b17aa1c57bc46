import KernelLoader.Lib.Ledger
import KernelLoader.Lib.Loop
import KernelLoader.Lib.Word
import Mathlib.Data.UInt

namespace KernelLoader.Boot
open Lib
set_option autoImplicit true
set_option relaxedAutoImplicit false

def moduleList : List String :=
  ["iopintr.irx", "dmarelay.irx", "libsd.irx", "mcman.irx", "mcserv.irx", "padman.irx",
    "sdrdrv.irx", "sio2man.irx"]

def configDir : String := "mc0:kloader"
def sizeofCopybuffer : Nat := 1024

/-- What `fread` and `fwrite` return in a round: no more is read than there is, and no more written
than was read. The end of the file may be noticed when it is reached. -/
structure Round where
  count : Nat
  eof : Bool
  written : Nat

/-- What happens to the files of a module: can the source be opened, its bytes, can the output file
be created at once or in a new directory, and the rounds. Nothing is read after the last one. -/
structure ModuleIo where
  opens : Bool
  source : List UInt8
  creates : Bool
  createsAgain : Bool
  rounds : List Round

/-- The streams, the numbers that were divided by, the output files with what is in them if they
were not removed, and the messages. -/
structure Copier where
  handles : Handles
  divisors : List Int
  outputs : List (String × Option (List UInt8))
  messages : List String

def Copier.start : Copier := ⟨.start, [], [], []⟩

def Copier.fopen (s : Copier) : Copier := { s with handles := s.handles.opened }

/-- A call of the library on a stream. -/
def Copier.use (i : Nat) (s : Copier) : Copier := { s with handles := s.handles.use i }

def Copier.fclose (i : Nat) (s : Copier) : Copier := { s with handles := s.handles.close i }

def Copier.divideBy (n : Int) (s : Copier) : Copier := { s with divisors := n :: s.divisors }

def Copier.errorPrintf (text : String) (s : Copier) : Copier :=
  { s with messages := s.messages ++ [text] }

/-- The loop that copies: what the output file holds after it, nothing if it was removed. -/
def copyLoop (outPath : String) (fin fout : Nat) (filesize : Int) :
    List Round → Bool → List UInt8 → List UInt8 → Copier → Option (List UInt8) × Copier
  | [], eof, _, out, s =>
    let s := s.use fin
    if eof then (some out, s) else (some out, s.use fin)
  | r :: rounds, eof, rest, out, s =>
    let s := s.use fin
    if eof then (some out, s)
    else
      let s := s.use fin
      let size := min r.count (min sizeofCopybuffer rest.length)
      if size > 0 then
        let s := s.use fout
        if min r.written size ≠ size then
          (none, ((s.fclose fout).fclose fin).errorPrintf
            ("Failed to write file " ++ outPath ++ " (MC0 full?)."))
        else
          copyLoop outPath fin fout filesize rounds (r.eof && size == rest.length) (rest.drop size)
            (out ++ rest.take size) (s.divideBy filesize)
      else (some out, s)

/-- One module. The loop over the list is left if a file can't be opened. -/
def copyModule (rtePath : String) (io : String → ModuleIo) (filename : String) (s : Copier) :
    Option Unit × Copier :=
  let inPath := ((rtePath ++ "/" ++ filename).take 1023).toString
  let outPath := configDir ++ "/" ++ filename
  if (io filename).opens then
    let fin := s.handles.fresh
    -- the position is set to the end, asked for and set back
    let s := ((s.fopen.use fin).use fin).use fin
    let filesize := s32 (io filename).source.length
    if (io filename).creates || (io filename).createsAgain then
      let fout := s.handles.fresh
      let copy := copyLoop outPath fin fout filesize (io filename).rounds false (io filename).source
        [] s.fopen
      let s := copy.2.fclose fout
      (none, { s.fclose fin with outputs := s.outputs ++ [(filename, copy.1)] })
    else
      (some (), (s.fclose fin).errorPrintf ("Failed to open file " ++ outPath ++ " for writing."))
  else (some (), s.errorPrintf ("Failed to open file " ++ inPath ++ " for reading."))

/-- The value returned is 0 in every case. -/
def realCopyRteModules (rtePath : String) (io : String → ModuleIo) : Copier :=
  (forEach (copyModule rtePath io) moduleList .start).2

/-- Every stream was closed exactly once and none used after that, there was no division by zero,
and every output file was removed or holds the bytes of its source. -/
structure Copier.Clean (io : String → ModuleIo) (s : Copier) : Prop where
  settled : s.handles.Live []
  divided : ∀ n ∈ s.divisors, n ≠ 0
  copied : ∀ o ∈ s.outputs, o.2 = none ∨ o.2 = some (io o.1).source

/-- Everything is copied, with `left` bytes still to come: until the end is reached every read
returns something, and what it returns is written as a whole. -/
def Complete : List Round → Nat → Prop
  | [], left => left = 0
  | r :: rounds, left =>
    left = 0 ∨ 0 < r.count ∧ min r.count (min sizeofCopybuffer left) ≤ r.written ∧
      Complete rounds (left - min r.count (min sizeofCopybuffer left))

variable {outPath : String} {fin fout : Nat} {filesize : Int} {rounds : List Round} {eof : Bool}
  {rest out : List UInt8} {s : Copier}

theorem Copier.use_live {live : List Nat} (h : s.handles.Live live) (hi : i ∈ live) :
    s.use i = s := by
  rw [use, h.use hi]

section Live
variable (outPath : String) (filesize : Int) (out : List UInt8)
  (hl : s.handles.Live [fout, fin])
include hl

theorem copyLoop_nil (eof : Bool) (rest : List UInt8) :
    copyLoop outPath fin fout filesize [] eof rest out s = (some out, s) := by
  simp only [copyLoop, Copier.use_live hl (i := fin) (by simp), ite_self]

theorem copyLoop_eof (r : Round) (rounds : List Round) (rest : List UInt8) :
    copyLoop outPath fin fout filesize (r :: rounds) true rest out s = (some out, s) := by
  simp only [copyLoop, Copier.use_live hl (i := fin) (by simp), if_true]

theorem copyLoop_read_none (rounds : List Round)
    (hn : min r.count (min sizeofCopybuffer rest.length) = 0) :
    copyLoop outPath fin fout filesize (r :: rounds) false rest out s = (some out, s) := by
  simp only [copyLoop, Copier.use_live hl (i := fin) (by simp), hn, Bool.false_eq_true, if_false,
    gt_iff_lt, Nat.lt_irrefl]

theorem copyLoop_write_failed (rounds : List Round)
    (hn : min r.count (min sizeofCopybuffer rest.length) = n) (hw : r.written < n) :
    ∃ s', copyLoop outPath fin fout filesize (r :: rounds) false rest out s = (none, s') ∧
      fout ∈ s'.handles.ledger.released := by
  have hpos : n > 0 := Nat.zero_lt_of_lt hw
  have hshort : min r.written n ≠ n := by omega
  simp only [copyLoop, Copier.use_live hl (i := fin) (by simp),
    Copier.use_live hl (i := fout) (by simp), hn, Bool.false_eq_true, if_false]
  rw [if_pos hpos, if_pos hshort]
  refine ⟨_, rfl, ?_⟩
  show fout ∈ ((s.handles.close fout).close fin).ledger.released
  rw [Handles.released_close, Handles.released_close]
  exact List.mem_cons_of_mem _ List.mem_cons_self

theorem copyLoop_written (rounds : List Round)
    (hn : min r.count (min sizeofCopybuffer rest.length) = n) (hpos : 0 < n)
    (hw : n ≤ r.written) :
    copyLoop outPath fin fout filesize (r :: rounds) false rest out s =
      copyLoop outPath fin fout filesize rounds (r.eof && n == rest.length) (rest.drop n)
        (out ++ rest.take n) (s.divideBy filesize) := by
  simp only [copyLoop, Copier.use_live hl (i := fin) (by simp),
    Copier.use_live hl (i := fout) (by simp), hn, Bool.false_eq_true, if_false]
  rw [if_pos hpos, if_neg (not_not.mpr (Nat.min_eq_right hw))]

end Live

/-- The end of the file is noticed only when it is reached. -/
theorem drop_of_eof {more : Bool} (h : (more && n == rest.length) = true) : rest.drop n = [] := by
  have hall : n = rest.length := eq_of_beq (Bool.and_eq_true_iff.mp h).2
  rw [hall, List.drop_length]

theorem copyLoop_complete (outPath : String) (out : List UInt8)
    (hl : s.handles.Live [fout, fin]) (heof : eof = true → rest = [])
    (hsize : rest = [] ∨ filesize ≠ 0) (h : Complete rounds rest.length) :
    ∃ divisors, copyLoop outPath fin fout filesize rounds eof rest out s =
        (some (out ++ rest), { s with divisors := divisors }) ∧
      ((∀ n ∈ s.divisors, n ≠ 0) → ∀ n ∈ divisors, n ≠ 0) := by
  induction rounds generalizing eof rest out s with
  | nil =>
    have hnil : rest = [] := List.eq_nil_of_length_eq_zero h
    refine ⟨s.divisors, ?_, id⟩
    rw [copyLoop_nil outPath filesize out hl, hnil, List.append_nil]
  | cons r rounds ih =>
    cases eof with
    | true =>
      refine ⟨s.divisors, ?_, id⟩
      rw [copyLoop_eof outPath filesize out hl, heof rfl, List.append_nil]
    | false =>
      rcases h with hnil | ⟨hcount, hwritten, hrest⟩
      · -- the end was not noticed before, so nothing is read
        have hnone : min r.count (min sizeofCopybuffer rest.length) = 0 := by omega
        refine ⟨s.divisors, ?_, id⟩
        rw [copyLoop_read_none outPath filesize out hl rounds hnone,
          List.eq_nil_of_length_eq_zero hnil, List.append_nil]
      · generalize hn : min r.count (min sizeofCopybuffer rest.length) = n at *
        by_cases hpos : 0 < n
        · have hlive : (s.divideBy filesize).handles.Live [fout, fin] := hl
          have hdrop : (rest.drop n).length = rest.length - n := List.length_drop
          have hne : filesize ≠ 0 := by
            refine hsize.resolve_left fun hnil => ?_
            rw [hnil] at hn
            exact absurd hn (by simp; omega)
          obtain ⟨divisors, hloop, hdiv⟩ := ih (out ++ rest.take n) hlive drop_of_eof (.inr hne)
            (hdrop.symm ▸ hrest)
          rw [copyLoop_written outPath filesize out hl rounds hn hpos hwritten, hloop,
            List.append_assoc, List.take_append_drop]
          refine ⟨divisors, rfl, fun h0 => hdiv ?_⟩
          exact List.forall_mem_cons.mpr ⟨hne, h0⟩
        · have hzero : n = 0 := Nat.eq_zero_of_not_pos hpos
          have hnil : rest.length = 0 := by
            rw [sizeofCopybuffer] at hn
            omega
          refine ⟨s.divisors, ?_, id⟩
          rw [copyLoop_read_none outPath filesize out hl rounds (hn.trans hzero),
            List.eq_nil_of_length_eq_zero hnil, List.append_nil]

theorem copyLoop_incomplete (outPath : String) (filesize : Int) (out : List UInt8)
    (hl : s.handles.Live [fout, fin]) (heof : eof = true → rest = [])
    (h : ¬ Complete rounds rest.length) :
    (∃ part s', copyLoop outPath fin fout filesize rounds eof rest out s = (some part, s') ∧
      part.length < out.length + rest.length) ∨
    ∃ s', copyLoop outPath fin fout filesize rounds eof rest out s = (none, s') ∧
      fout ∈ s'.handles.ledger.released := by
  induction rounds generalizing eof rest out s with
  | nil =>
    have hpos : rest.length ≠ 0 := h
    exact .inl ⟨out, s, copyLoop_nil outPath filesize out hl eof rest, by omega⟩
  | cons r rounds ih =>
    obtain ⟨hpos, hrounds⟩ := not_or.mp h
    cases eof with
    | true => exact absurd (congrArg List.length (heof rfl)) hpos
    | false =>
      generalize hn : min r.count (min sizeofCopybuffer rest.length) = n at *
      by_cases hread : 0 < n
      · by_cases hwritten : n ≤ r.written
        · have hlive : (s.divideBy filesize).handles.Live [fout, fin] := hl
          have hdrop : (rest.drop n).length = rest.length - n := List.length_drop
          have hleft : ¬ Complete rounds (rest.drop n).length := by
            rw [hdrop]
            exact fun hc => hrounds ⟨by omega, hwritten, hc⟩
          have hlength : (out ++ rest.take n).length + (rest.drop n).length =
              out.length + rest.length := by
            rw [List.length_append, Nat.add_assoc, ← List.length_append, List.take_append_drop]
          rw [copyLoop_written outPath filesize out hl rounds hn hread hwritten, ← hlength]
          exact ih (out ++ rest.take n) hlive drop_of_eof hleft
        · have hfailed := Nat.lt_of_not_le hwritten
          exact .inr (copyLoop_write_failed outPath filesize out hl rounds hn hfailed)
      · have hzero := hn.trans (Nat.eq_zero_of_not_pos hread)
        exact .inl ⟨out, s, copyLoop_read_none outPath filesize out hl rounds hzero, by omega⟩

theorem copyLoop_frame (s : Copier) :
    let s' := (copyLoop outPath fin fout filesize rounds eof rest out s).2
    s'.outputs = s.outputs ∧ (s.handles.late ≠ [] → s'.handles.late ≠ []) ∧
      s.divisors ⊆ s'.divisors := by
  induction rounds generalizing eof rest out s with
  | nil =>
    rw [copyLoop]
    cases eof with
    | true => exact ⟨rfl, fun h => Handles.late_use_of_late h fin, List.Subset.refl _⟩
    | false =>
      refine ⟨rfl, fun h => ?_, List.Subset.refl _⟩
      exact Handles.late_use_of_late (Handles.late_use_of_late h fin) fin
  | cons r rounds ih =>
    rw [copyLoop]
    cases eof with
    | true => exact ⟨rfl, fun h => Handles.late_use_of_late h fin, List.Subset.refl _⟩
    | false =>
      simp only [Bool.false_eq_true, if_false]
      have htwice (h : s.handles.late ≠ []) : ((s.handles.use fin).use fin).late ≠ [] :=
        Handles.late_use_of_late (Handles.late_use_of_late h fin) fin
      split
      · split
        · refine ⟨rfl, fun h => ?_, List.Subset.refl _⟩
          apply Handles.late_use_of_late
          apply Handles.late_use_of_late
          exact Handles.late_use_of_late (htwice h) fout
        · obtain ⟨houtputs, hlate, hsub⟩ := ih ((((s.use fin).use fin).use fout).divideBy filesize)
          refine ⟨houtputs, fun h => hlate (Handles.late_use_of_late (htwice h) fout), ?_⟩
          exact fun n hn => hsub (List.mem_cons_of_mem _ hn)
      · exact ⟨rfl, htwice, List.Subset.refl _⟩

/-- The first round of a copy divides by the size. -/
theorem copyLoop_divides (hrest : rest ≠ []) (h : Complete rounds rest.length) :
    filesize ∈ (copyLoop outPath fin fout filesize rounds false rest out s).2.divisors := by
  have hpos : rest.length ≠ 0 := fun h0 => hrest (List.eq_nil_of_length_eq_zero h0)
  cases rounds with
  | nil => exact absurd h hpos
  | cons r rounds =>
    obtain ⟨hcount, hwritten, -⟩ := h.resolve_left hpos
    rw [copyLoop]
    have hread : min r.count (min sizeofCopybuffer rest.length) > 0 := by
      rw [sizeofCopybuffer]
      omega
    simp only [Bool.false_eq_true, if_false]
    rw [if_pos hread, if_neg (not_not.mpr (Nat.min_eq_right hwritten))]
    exact (copyLoop_frame _).2.2 List.mem_cons_self

/-- A module is copied as a whole if it is copied at all. The size is kept in an `int`. -/
def CopiesWhole (io : ModuleIo) : Prop :=
  io.opens → (io.creates || io.createsAgain) →
    Complete io.rounds io.source.length ∧ (io.source = [] ∨ io.source.length % 2 ^ 32 ≠ 0)

/-- What can't be made good any more. -/
def Copier.Broken (io : String → ModuleIo) (s : Copier) : Prop :=
  s.handles.late ≠ [] ∨ 0 ∈ s.divisors ∨ ∃ o ∈ s.outputs, o.2 ≠ none ∧ o.2 ≠ some (io o.1).source

variable {io : String → ModuleIo} {rtePath filename : String}

theorem Copier.Broken.not_clean (h : s.Broken io) : ¬ s.Clean io := by
  intro hclean
  rcases h with hlate | hzero | ⟨o, ho, hnone, hsome⟩
  · exact hlate hclean.settled.late
  · exact hclean.divided 0 hzero rfl
  · exact (hclean.copied o ho).elim hnone hsome

theorem s32_eq_zero_iff (n : Nat) : s32 n = 0 ↔ n % 2 ^ 32 = 0 := by
  unfold s32
  split <;> omega

theorem Copier.Clean.streams_open (h : s.Clean io) :
    s.fopen.fopen.handles.Live [s.fopen.handles.fresh, s.handles.fresh] :=
  h.settled.opened.opened

theorem copyModule_clean (hs : s.Clean io) (h : CopiesWhole (io filename)) :
    (copyModule rtePath io filename s).2.Clean io := by
  have hopened : s.fopen.handles.Live [s.handles.fresh] := hs.settled.opened
  have huse : s.fopen.use s.handles.fresh = s.fopen := Copier.use_live hopened (by simp)
  unfold copyModule
  simp only [huse]
  split
  · rename_i hopens
    split
    · rename_i hcreates
      obtain ⟨hcomplete, hsize⟩ := h hopens hcreates
      have hsize : (io filename).source = [] ∨ s32 (io filename).source.length ≠ 0 :=
        hsize.imp_right (mt (s32_eq_zero_iff _).mp)
      obtain ⟨divisors, hloop, hdiv⟩ := copyLoop_complete (configDir ++ "/" ++ filename) []
        hs.streams_open (fun h : false = true => nomatch h) hsize hcomplete
      rw [hloop]
      refine ⟨hs.streams_open.close.close, hdiv hs.divided, fun o ho => ?_⟩
      rcases List.mem_append.mp ho with ho | ho
      · exact hs.copied o ho
      · rw [List.mem_singleton.mp ho]
        exact .inr rfl
    · exact ⟨hopened.close, hs.divided, hs.copied⟩
  · exact ⟨hs.settled, hs.divided, hs.copied⟩

theorem copyModule_broken (hs : s.Clean io) (h : ¬ CopiesWhole (io filename)) :
    (copyModule rtePath io filename s).2.Broken io := by
  have hopened : s.fopen.handles.Live [s.handles.fresh] := hs.settled.opened
  have huse : s.fopen.use s.handles.fresh = s.fopen := Copier.use_live hopened (by simp)
  obtain ⟨hopens, h⟩ := Classical.not_imp.mp h
  obtain ⟨hcreates, h⟩ := Classical.not_imp.mp h
  unfold copyModule
  simp only [huse, hopens, hcreates, if_true]
  by_cases hcomplete : Complete (io filename).rounds (io filename).source.length
  · have hsize := not_or.mp fun hsize => h ⟨hcomplete, hsize⟩
    have hzero : s32 (io filename).source.length = 0 :=
      (s32_eq_zero_iff _).mpr (not_not.mp hsize.2)
    rw [hzero]
    exact .inr (.inl (copyLoop_divides hsize.1 hcomplete))
  · rcases copyLoop_incomplete (configDir ++ "/" ++ filename)
      (s32 (io filename).source.length) [] hs.streams_open (fun h : false = true => nomatch h)
      hcomplete with ⟨part, s', hloop, hlength⟩ | ⟨s', hloop, hreleased⟩
    · rw [hloop]
      refine .inr (.inr ⟨_, List.mem_append_right _ List.mem_cons_self, Option.some_ne_none _, ?_⟩)
      intro heq
      rw [Option.some.inj heq] at hlength
      exact absurd hlength (by simp)
    · -- both streams are closed once more
      have hlate : (s'.handles.close s.fopen.handles.fresh).late ≠ [] :=
        Handles.late_use hreleased
      rw [hloop]
      exact .inl (Handles.late_use_of_late hlate _)

theorem Copier.Broken.mono {t : Copier} (hs : s.Broken io)
    (hlate : s.handles.late ≠ [] → t.handles.late ≠ []) (hdivisors : s.divisors ⊆ t.divisors)
    (houtputs : s.outputs ⊆ t.outputs) : t.Broken io := by
  rcases hs with h | hzero | ⟨o, ho, hne⟩
  · exact .inl (hlate h)
  · exact .inr (.inl (hdivisors hzero))
  · exact .inr (.inr ⟨o, houtputs ho, hne⟩)

theorem Copier.late_opened (h : s.handles.late ≠ []) (i : Nat) :
    (((s.fopen.use i).use i).use i).handles.late ≠ [] := by
  have hopened : s.handles.opened.late ≠ [] := h
  apply Handles.late_use_of_late
  apply Handles.late_use_of_late
  exact Handles.late_use_of_late hopened i

theorem copyModule_keeps (hs : s.Broken io) : (copyModule rtePath io filename s).2.Broken io := by
  have hsame {α : Type} (l : List α) : l ⊆ l := List.Subset.refl l
  unfold copyModule
  dsimp only
  generalize hopened : ((s.fopen.use s.handles.fresh).use s.handles.fresh).use s.handles.fresh = t
  have hlate (h : s.handles.late ≠ []) : t.handles.late ≠ [] :=
    hopened ▸ Copier.late_opened h s.handles.fresh
  have hdivisors : t.divisors = s.divisors := hopened ▸ rfl
  have houtputs : t.outputs = s.outputs := hopened ▸ rfl
  split
  · split
    · generalize hloop : copyLoop _ _ _ _ _ _ _ _ t.fopen = copy
      obtain ⟨hother, hlater, hsub⟩ := hloop ▸ copyLoop_frame t.fopen
      refine hs.mono (fun h => ?_) (hdivisors ▸ hsub) ?_
      · apply Handles.late_use_of_late
        apply Handles.late_use_of_late
        exact hlater (hlate h)
      · rw [← houtputs]
        exact fun o ho => List.mem_append_left _ (hother.symm ▸ ho)
    · refine hs.mono (fun h => ?_) (hdivisors ▸ hsame _) (houtputs ▸ hsame _)
      exact Handles.late_use_of_late (hlate h) s.handles.fresh
  · exact hs.mono id (hsame _) (hsame _)

/-- The loop over the list is left. -/
def ModuleIo.stops (io : ModuleIo) : Option Unit :=
  if io.opens && (io.creates || io.createsAgain) then none else some ()

theorem copyModule_stops (rtePath : String) (io : String → ModuleIo) (filename : String)
    (s : Copier) : (copyModule rtePath io filename s).1 = (io filename).stops := by
  unfold copyModule ModuleIo.stops
  cases (io filename).opens <;> cases (io filename).creates <;>
    cases (io filename).createsAgain <;> rfl

/-- The modules up to the first with a file that can't be opened. -/
def reached (io : String → ModuleIo) : List String :=
  upToFirst (fun name => (io name).stops) moduleList

theorem realCopyRteModules_clean_iff (rtePath : String) (io : String → ModuleIo) :
    (realCopyRteModules rtePath io).Clean io ↔ ∀ name ∈ reached io, CopiesWhole (io name) := by
  have hloop := forEach_uniform (I := fun _ => True) (fun name => (io name).stops)
    (fun name s => (copyModule rtePath io name s).2)
    (fun name s _ => Prod.ext (copyModule_stops rtePath io name s) rfl) (fun _ _ _ => trivial)
    moduleList (s := Copier.start) trivial
  have hstart : Copier.start.Clean io :=
    ⟨Handles.Live.start, fun _ hn => (nomatch hn), fun _ ho => (nomatch ho)⟩
  unfold realCopyRteModules reached
  rw [hloop]
  apply foldl_invariant_iff (I := Copier.Clean io) (B := Copier.Broken io) _ _ _ _ _ hstart
  · exact fun _ _ => copyModule_clean
  · exact fun _ _ => copyModule_broken
  · exact fun _ _ => copyModule_keeps
  · exact fun _ => Copier.Broken.not_clean

/-- The memory card is full after one of two bytes, or the second byte can't be read. Two streams
are closed twice, and a file with one byte is left. -/
theorem realCopyRteModules_fails_midway :
    let full : ModuleIo := ⟨true, [1, 2], true, false, [⟨2, true, 1⟩]⟩
    let unreadable : ModuleIo := ⟨true, [1, 2], true, false, [⟨1, false, 1⟩, ⟨0, false, 0⟩]⟩
    ¬ (realCopyRteModules "cdrom0:" fun _ => full).Clean (fun _ => full) ∧
      ¬ (realCopyRteModules "cdrom0:" fun _ => unreadable).Clean (fun _ => unreadable) := by
  refine ⟨fun h => ?_, fun h => ?_⟩
  · exact absurd h.settled.late (by decide)
  · exact absurd (h.copied ("iopintr.irx", some [1]) List.mem_cons_self) (by decide)

end KernelLoader.Boot
