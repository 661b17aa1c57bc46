import KernelLoader.Boot.Resources

namespace KernelLoader.Boot
open Lib Elf
set_option autoImplicit true
set_option relaxedAutoImplicit false

variable {b b' b'' : Loader} {data : Mem} {p n k : Nat}

/-- `b'` comes from `b` by storing the first `n` bytes of `data` from `p` on and nothing else. -/
structure Loader.Delivered (p : Nat) (data : Mem) (n : Nat) (b b' : Loader) : Prop where
  spans : ∃ spans, b'.stores = b.stores ++ spans ∧
    ∀ a, (∃ span ∈ spans, span.1 ≤ a ∧ a < span.1 + span.2) ↔ phys p ≤ a ∧ a < phys p + n
  bytes : ∀ i < n, b'.mem (phys p + i) = data i
  outside : ∀ a, ¬(phys p ≤ a ∧ a < phys p + n) → b'.mem a = b.mem a

theorem phys_add_of_lt (h : phys p + k < 2 ^ 29) : phys (p + k) = phys p + k := by
  unfold phys at *
  omega

theorem Loader.Delivered.zero (p : Nat) (data : Mem) (b : Loader) : b.Delivered p data 0 b := by
  refine ⟨⟨[], (List.append_nil _).symm, fun a => ?_⟩, fun i hi => ?_, fun _ _ => rfl⟩
  · simp only [List.not_mem_nil, false_and, exists_false, false_iff]
    omega
  · exact absurd hi (Nat.not_lt_zero i)

theorem Loader.Delivered.congr (h : b.Delivered p data n b') (hm : b''.mem = b'.mem)
    (hs : b''.stores = b'.stores) : b.Delivered p data n b'' := by
  obtain ⟨hspans, hbytes, hout⟩ := h
  exact ⟨hs ▸ hspans, hm ▸ hbytes, hm ▸ hout⟩

theorem Loader.Delivered.of_start {b₀ : Loader} (h : b.Delivered p data n b')
    (hm : b.mem = b₀.mem) (hs : b.stores = b₀.stores) : b₀.Delivered p data n b' := by
  obtain ⟨hspans, hbytes, hout⟩ := h
  exact ⟨hs ▸ hspans, hbytes, hm ▸ hout⟩

theorem Loader.Delivered.store (h : b.Delivered p data n b') (hp : phys p + (n + k) ≤ 2 ^ 29)
    (hk : 0 < k) : b.Delivered p data (n + k) (b'.store (p + n) data n k) := by
  have hphys : phys (p + n) = phys p + n := phys_add_of_lt (by omega)
  have hmem : (b'.store (p + n) data n k).mem = (b'.store (phys p + n) data n k).mem := by
    unfold Loader.store
    have haddr : (fun i => phys (p + n + i)) = fun i => phys (phys p + n + i) := by
      funext i
      unfold phys
      omega
    rw [haddr]
  obtain ⟨spans, hstores, hcover⟩ := h.spans
  refine ⟨⟨spans ++ [(phys (p + n), k)], ?_, fun a => ?_⟩, fun i hi => ?_, fun a ha => ?_⟩
  · rw [← List.append_assoc, ← hstores]
    rfl
  · have hold := hcover a
    simp only [List.mem_append, List.mem_singleton, hphys]
    constructor
    · rintro ⟨span, hspan | rfl, hin⟩
      · have := hold.mp ⟨span, hspan, hin⟩
        omega
      · simp only at hin
        omega
    · intro ha
      rcases Nat.lt_or_ge a (phys p + n) with hlt | hge
      · obtain ⟨span, hspan, hin⟩ := hold.mpr ⟨ha.1, hlt⟩
        exact ⟨span, .inl hspan, hin⟩
      · exact ⟨_, .inr rfl, hge, by simp only; omega⟩
  · rw [hmem]
    rcases Nat.lt_or_ge i n with hlt | hge
    · rw [Loader.store_mem_outside data n b' (by omega) (by omega)]
      exact h.bytes i hlt
    · obtain ⟨j, rfl⟩ := Nat.exists_eq_add_of_le hge
      rw [← Nat.add_assoc]
      exact Loader.store_mem_inside data n b' (by omega) (by omega)
  · rw [hmem, Loader.store_mem_outside data n b' (by omega) (by omega)]
    exact h.outside a (by omega)

theorem Loader.Delivered.length_unique (h : b.Delivered p data n b')
    (h' : b.Delivered p data k b') : n = k := by
  obtain ⟨xs, hx, hxs⟩ := h.spans
  obtain ⟨ys, hy, hys⟩ := h'.spans
  obtain rfl : xs = ys := List.append_cancel_left (hx.symm.trans hy)
  have hsame (a : Nat) : phys p ≤ a ∧ a < phys p + n ↔ phys p ≤ a ∧ a < phys p + k :=
    (hxs a).symm.trans (hys a)
  have hn := hsame (phys p + n)
  have hk := hsame (phys p + k)
  omega

theorem Loader.Stored.of_same (hmem : b'.mem = b.mem) (hstores : b'.stores = b.stores)
    (lo hi : Nat) : b.Stored lo hi b' :=
  ⟨⟨[], by rw [hstores, List.append_nil], fun _ h => absurd h List.not_mem_nil⟩,
    fun _ _ => by rw [hmem]⟩

theorem Loader.Delivered.stored (h : b.Delivered p data n b') (hn : n ≤ k) :
    b.Stored (phys p) (phys p + k) b' := by
  obtain ⟨spans, hstores, hcover⟩ := h.spans
  refine ⟨⟨spans, hstores, fun span hspan i hi => ?_⟩, fun a ha => ?_⟩
  · have := (hcover (span.1 + i)).mp ⟨span, hspan, by omega, by omega⟩
    omega
  · exact h.outside a (by omega)

section File
variable {file : FileInput} {last size : Nat} {addr : Option Nat}

/-- The bytes that calls of `fread` give before the first one that gives nothing, each being asked
for at most 10000. -/
def offered (reads : List Nat) : Nat := ((reads.takeWhile (0 < ·)).map (min 10000)).sum

theorem offered_cons (reads : List Nat) {r : Nat} (hr : 0 < r) :
    offered (r :: reads) = min 10000 r + offered reads := by
  rw [offered, List.takeWhile_cons_of_pos (by simpa using hr), List.map_cons, List.sum_cons,
    offered]

theorem offered_zero_cons (reads : List Nat) : offered (0 :: reads) = 0 := rfl

theorem min_next {rest rest' next : Nat} (hrest : rest' ≤ rest)
    (h : min next rest = min 10000 rest) : min (min rest' next) rest' = min 10000 rest' := by
  omega

theorem min_offered {size pos r next : Nat} (hpos : pos ≤ size) :
    min size (pos + min r (min 10000 (size - pos)) + next) =
      min size (pos + (min 10000 r + next)) := by
  omega

theorem freadLoop_delivers {buffer : Nat} (hfit : phys buffer + file.size ≤ 2 ^ 29)
    (reads : List Nat) {pos next : Nat} (h : b.Delivered buffer file.data pos b')
    (hpos : pos ≤ file.size) (hnext : min next (file.size - pos) = min 10000 (file.size - pos)) :
    ∃ n, b.Delivered buffer file.data n (freadLoop file buffer reads pos next b').2 ∧
      n ≤ file.size ∧ ((freadLoop file buffer reads pos next b').1 ≠ none →
        n = min file.size (pos + offered reads)) := by
  induction reads generalizing pos next b' with
  | nil => exact ⟨pos, h, hpos, fun _ => (Nat.min_eq_right hpos).symm⟩
  | cons r reads ih =>
    rw [freadLoop]
    simp only [hnext]
    cases r with
    | zero =>
      rw [if_pos (Nat.zero_min _), offered_zero_cons]
      exact ⟨pos, h, hpos, fun _ => (Nat.min_eq_right hpos).symm⟩
    | succ r =>
      rw [offered_cons reads (Nat.succ_pos r)]
      have hchunk : 0 < min (r + 1) (min 10000 (file.size - pos)) →
          b.Delivered buffer file.data (pos + min (r + 1) (min 10000 (file.size - pos)))
            (b'.store (buffer + pos) file.data pos (min (r + 1) (min 10000 (file.size - pos)))) :=
        fun hpos => h.store (by omega) hpos
      generalize hk : min (r + 1) (min 10000 (file.size - pos)) = k at hchunk ⊢
      split_ifs with h0 h1 h2
      · exact ⟨pos, h, hpos, fun _ => by omega⟩
      · exact ⟨_, hchunk (by omega), by omega, fun _ => by omega⟩
      · exact ⟨_, hchunk (by omega), by omega, fun hn => absurd rfl hn⟩
      · have hnext' : min (min (file.size - (pos + k)) next) (file.size - (pos + k)) =
            min 10000 (file.size - (pos + k)) := min_next (by omega) hnext
        obtain ⟨n, hn, hle, hall⟩ := ih (hchunk (by omega)) (by omega) hnext'
        refine ⟨n, hn, hle, fun hne => ?_⟩
        rw [hall hne, ← hk]
        exact min_offered hpos

/-- `load_file` opens the file and gets to the loop, with this buffer. -/
def FileInput.Attempted (file : FileInput) (last : Nat) (addr : Option Nat) (size p : Nat) :
    Prop :=
  file.opens = true ∧ file.destination addr size = some p ∧ (addr = none → last ≤ p)

/-- What becomes of a file: nothing is read, or the loop around `fread` decides. -/
theorem loadFile_attempts (last : Nat) (file : FileInput) (size : Nat) (addr : Option Nat)
    (b : Loader) :
    (∃ n, (loadFile last file size addr b).1 = some ⟨none, n⟩ ∧
        (loadFile last file size addr b).2.mem = b.mem ∧
        (loadFile last file size addr b).2.stores = b.stores ∧
        ∀ p, ¬file.Attempted last addr size p) ∨
      ∃ p b₀, file.Attempted last addr size p ∧ b₀.mem = b.mem ∧ b₀.stores = b.stores ∧
        (loadFile last file size addr b).1 =
          (freadLoop file p file.reads 0 10000 b₀).1.map (fun _ => ⟨some p, file.size⟩) ∧
        (loadFile last file size addr b).2.mem = (freadLoop file p file.reads 0 10000 b₀).2.mem ∧
        (loadFile last file size addr b).2.stores =
          (freadLoop file p file.reads 0 10000 b₀).2.stores := by
  unfold loadFile FileInput.Attempted
  cases ho : file.opens with
  | false => exact .inl ⟨size, rfl, rfl, rfl, fun p hp => Bool.false_ne_true hp.1⟩
  | true =>
    simp only [Bool.not_true, Bool.false_eq_true, if_false]
    cases hd : file.destination addr size with
    | none =>
      refine .inl ⟨file.size, rfl, ?_, ?_, fun p hp => Option.some_ne_none p hp.2.1.symm⟩
      · split_ifs <;> rfl
      · split_ifs <;> rfl
    | some p =>
      simp only
      split_ifs with hlow hnone hnone
      · refine .inl ⟨file.size, rfl, rfl, rfl, fun q hq => ?_⟩
        have hle := hq.2.2 (Option.isNone_iff_eq_none.mp hlow.1)
        cases hq.2.1
        omega
      · exact absurd hlow.1 hnone
      · refine .inr ⟨p, b.fopen.memalign (some p), ⟨trivial, rfl, fun _ => ?_⟩, rfl, rfl, ?_⟩
        · exact Nat.le_of_not_lt fun hlt => hlow ⟨hnone, hlt⟩
        · split <;> rename_i heq <;> rw [heq] <;> exact ⟨rfl, rfl, rfl⟩
      · refine .inr ⟨p, b.fopen, ⟨trivial, rfl, fun hn => ?_⟩, rfl, rfl, ?_⟩
        · exact absurd (Option.isNone_iff_eq_none.mpr hn) hnone
        · split <;> rename_i heq <;> rw [heq] <;> exact ⟨rfl, rfl, rfl⟩

/-- A file is loaded right: no division by zero, only the first bytes of the destination are
written, and a buffer that is returned with a size holds so many bytes of the file. -/
structure FileInput.Loads (file : FileInput) (dest : Option Nat) (b : Loader)
    (r : Option Loaded × Loader) : Prop where
  divides : r.1 ≠ none
  refused : dest = none → b.Stored 0 0 r.2
  writes : ∀ p, dest = some p → b.Stored (phys p) (phys p + file.size) r.2
  holds : ∀ p n, r.1 = some ⟨some p, n⟩ → b.Delivered p file.data n r.2

/-- A file is loaded right exactly if it is not read at all or if it is delivered completely, and
at once if it has less than 100 bytes. -/
theorem loadFile_loads_iff (last : Nat) (file : FileInput) (size : Nat) (addr : Option Nat)
    (b : Loader)
    (hfit : ∀ p, file.destination addr size = some p → phys p + file.size ≤ 2 ^ 29) :
    file.Loads (file.destination addr size) b (loadFile last file size addr b) ↔
      ∀ p, file.Attempted last addr size p → ¬file.Stalls ∧ file.size ≤ offered file.reads := by
  rcases loadFile_attempts last file size addr b with
    ⟨m, hr, hmem, hstores, hno⟩ | ⟨p, b₀, hatt, hm, hs, hr, hmem, hstores⟩
  · have hsame := Loader.Stored.of_same hmem hstores
    refine iff_of_true ⟨?_, fun _ => hsame 0 0, fun p _ => hsame _ _, fun p n hp => ?_⟩
      fun p hp => absurd hp (hno p)
    · rw [hr]
      exact Option.some_ne_none _
    · rw [hr] at hp
      cases hp
  · have hnext : min 10000 (file.size - 0) = min 10000 (file.size - 0) := rfl
    obtain ⟨n, hdel, hle, hall⟩ := freadLoop_delivers (hfit p hatt.2.1) file.reads
      (Loader.Delivered.zero p file.data b₀) (Nat.zero_le _) hnext
    have hdone : b.Delivered p file.data n (loadFile last file size addr b).2 :=
      (hdel.of_start hm hs).congr hmem hstores
    have hstall := freadLoop_none file p b₀
    constructor
    · intro hright q _
      have hsome : (freadLoop file p file.reads 0 10000 b₀).1 ≠ none := by
        intro hnone
        apply hright.divides
        rw [hr, hnone]
        rfl
      refine ⟨mt hstall.mpr hsome, ?_⟩
      obtain ⟨x, hx⟩ := Option.ne_none_iff_exists'.mp hsome
      have hsize : n = file.size := by
        apply hdone.length_unique
        apply hright.holds
        rw [hr, hx]
        rfl
      have := hall hsome
      omega
    · intro hcond
      obtain ⟨hno, hoffer⟩ := hcond p hatt
      have hsome : (freadLoop file p file.reads 0 10000 b₀).1 ≠ none := mt hstall.mp hno
      have hn : n = file.size := by
        have := hall hsome
        omega
      obtain ⟨x, hx⟩ := Option.ne_none_iff_exists'.mp hsome
      rw [hx] at hr
      refine ⟨?_, fun hd => ?_, fun q hq => ?_, fun q m hq => ?_⟩
      · rw [hr]
        exact Option.some_ne_none _
      · rw [hatt.2.1] at hd
        cases hd
      · rw [hatt.2.1] at hq
        cases hq
        exact hdone.stored hle
      · rw [hr] at hq
        cases hq
        exact hn ▸ hdone

theorem loadFile_loads_halves :
    let file : FileInput := ⟨true, 150, some 0x200000, [100, 50], 0⟩
    file.Loads (some 0x200000) (.start 0) (loadFile 0x100000 file 0 none (.start 0)) := by
  intro file
  refine (loadFile_loads_iff 0x100000 file 0 none (.start 0) ?_).mpr fun p _ => ?_
  · intro p hp
    cases hp
    decide
  · exact ⟨by decide, by decide⟩

/-- A file of 50 bytes that comes in two pieces makes the loader divide by zero. A file that ends
early is returned with the size that was expected. -/
theorem loadFile_small_or_cut :
    let small : FileInput := ⟨true, 50, some 0x200000, [20, 30], 0⟩
    let cut : FileInput := ⟨true, 150, some 0x200000, [100, 0], 0⟩
    (loadFile 0x100000 small 0 none (.start 0)).1 = none ∧
      (loadFile 0x100000 cut 0 none (.start 0)).1 = some ⟨some 0x200000, 150⟩ ∧
      (loadFile 0x100000 cut 0 none (.start 0)).2.stores = [(0x200000, 100)] := by
  refine ⟨?_, ?_, ?_⟩ <;> decide +kernel

end File

section Stream
variable {file : GzInput} {last size maxsize : Nat} {results : List Int}

/-- The stream with what the calls of `gzread` return, -1 for an error. -/
def GzInput.reading (results : List Int) (file : GzInput) : GzInput :=
  { file with reads := results.map Int.toNat }

/-- The bytes delivered until the first result that is not positive. -/
def streamTotal (results : List Int) : Nat := ((results.takeWhile (0 < ·)).map Int.toNat).sum

theorem streamTotal_cons_pos (results : List Int) {r : Int} (hr : 0 < r) :
    streamTotal (r :: results) = r.toNat + streamTotal results := by
  rw [streamTotal, List.takeWhile_cons_of_pos (by simpa using hr), List.map_cons, List.sum_cons,
    streamTotal]

theorem streamTotal_cons_nonpos (results : List Int) {r : Int} (hr : ¬0 < r) :
    streamTotal (r :: results) = 0 := by
  rw [streamTotal, List.takeWhile_cons_of_neg (by simpa using hr), List.map_nil, List.sum_nil]

/-- The loop around `gzread` stores the stream, unless it comes too close to the end of the block.
It does not matter how the stream is cut. -/
theorem gzreadLoop_delivers {buffer : Nat} (hfit : phys buffer + maxsize ≤ 2 ^ 29)
    (hres : ∀ r ∈ results, r ≤ 10 * 1024) {pos : Nat} (h : b.Delivered buffer data pos b')
    (hpos : pos + 10 * 1024 ≤ maxsize) :
    ∃ n ≤ maxsize,
      b.Delivered buffer data n (gzreadLoop data buffer maxsize (results.map Int.toNat) pos b').2 ∧
      (pos + streamTotal results + 10 * 1024 ≤ maxsize ∧ n = pos + streamTotal results ∧
          (gzreadLoop data buffer maxsize (results.map Int.toNat) pos b').1 = some n ∨
        ¬pos + streamTotal results + 10 * 1024 ≤ maxsize ∧
          (gzreadLoop data buffer maxsize (results.map Int.toNat) pos b').1 = none) := by
  induction results generalizing pos b' with
  | nil => exact ⟨pos, by omega, h, .inl ⟨hpos, rfl, rfl⟩⟩
  | cons r results ih =>
    have hr := hres r List.mem_cons_self
    rw [List.map_cons, gzreadLoop]
    have hmin : min r.toNat (10 * 1024) = r.toNat := by omega
    simp only [hmin]
    by_cases hpositive : 0 < r
    · rw [if_neg (by omega), streamTotal_cons_pos results hpositive, ← Nat.add_assoc]
      have hchunk := h.store (k := r.toNat) (by omega) (by omega)
      split_ifs with hbig
      · exact ⟨_, by omega, hchunk, .inr ⟨by omega, rfl⟩⟩
      · obtain ⟨n, hn, hdel, hor⟩ := ih (fun r hr => hres r (List.mem_cons_of_mem _ hr)) hchunk
          (by omega)
        exact ⟨n, hn, hdel, hor⟩
    · rw [if_pos (by omega), streamTotal_cons_nonpos results hpositive]
      exact ⟨pos, by omega, h, .inl ⟨hpos, rfl, rfl⟩⟩

theorem shrinkingAlign_block {block : Nat → Option Nat} {fuel : Nat}
    (h : shrinkingAlign block fuel n = some (p, maxsize)) : block maxsize = some p := by
  induction fuel generalizing n with
  | zero => cases h
  | succ fuel ih =>
    rw [shrinkingAlign] at h
    cases hb : block n with
    | some q =>
      rw [hb] at h
      cases h
      exact hb
    | none =>
      rw [hb] at h
      simp only at h
      split_ifs at h
      exact ih h

/-- The block `load_kernel_file` gets, with its size. -/
def GzInput.allocated (file : GzInput) : Option (Nat × Nat) :=
  if file.opens then shrinkingAlign file.block 10 (6 * megabyte) else none

theorem GzInput.allocated_room (file : GzInput)
    (hblock : ∀ n p, file.block n = some p → last ≤ p ∧ phys p + n ≤ 2 ^ 29)
    (h : file.allocated = some (p, maxsize)) :
    10 * 1024 ≤ maxsize ∧ phys p + maxsize ≤ 2 ^ 29 := by
  unfold GzInput.allocated at h
  split_ifs at h
  have hlarge := shrinkingAlign_large (by decide) h
  unfold megabyte at hlarge
  exact ⟨by omega, (hblock maxsize p (shrinkingAlign_block h)).2⟩

/-- There is room for the stream and for one more chunk. -/
def GzInput.Fits (file : GzInput) (total : Nat) : Prop :=
  ∃ p maxsize, file.allocated = some (p, maxsize) ∧ total ≤ maxsize - 10 * 1024

theorem GzInput.fits_iff {file : GzInput} {p maxsize total : Nat}
    (h : file.allocated = some (p, maxsize)) (hroom : 10 * 1024 ≤ maxsize) :
    file.Fits total ↔ total + 10 * 1024 ≤ maxsize := by
  constructor
  · rintro ⟨q, m, hq, hle⟩
    cases h.symm.trans hq
    omega
  · exact fun hle => ⟨p, maxsize, h, by omega⟩

theorem Loader.realloc_mem (ptr size : Nat) (b : Loader) : (b.realloc ptr size).2.mem = b.mem := by
  unfold Loader.realloc
  split_ifs <;> rfl

theorem Loader.realloc_stores (ptr size : Nat) (b : Loader) :
    (b.realloc ptr size).2.stores = b.stores := by
  unfold Loader.realloc
  split_ifs <;> rfl

theorem Loader.realloc_pos (ptr : Nat) (b : Loader) (h : 0 < n) :
    b.realloc ptr n = (some ptr, b) :=
  if_neg (Nat.ne_of_gt h)

theorem loadKernelFile_attempts (last size : Nat) (file : GzInput) (b : Loader)
    (hblock : ∀ n p, file.block n = some p → last ≤ p) :
    file.allocated = none ∧ (loadKernelFile last file size b).1.buffer = none ∧
        (loadKernelFile last file size b).2.mem = b.mem ∧
        (loadKernelFile last file size b).2.stores = b.stores ∨
      ∃ p maxsize b₀, file.allocated = some (p, maxsize) ∧ b₀.mem = b.mem ∧
        b₀.stores = b.stores ∧
        (loadKernelFile last file size b).2.mem =
          (gzreadLoop file.data p maxsize file.reads 0 b₀).2.mem ∧
        (loadKernelFile last file size b).2.stores =
          (gzreadLoop file.data p maxsize file.reads 0 b₀).2.stores ∧
        ((gzreadLoop file.data p maxsize file.reads 0 b₀).1 = none →
          (loadKernelFile last file size b).1.buffer = none) ∧
        ∀ n, 0 < n → (gzreadLoop file.data p maxsize file.reads 0 b₀).1 = some n →
          (loadKernelFile last file size b).1 = ⟨some p, n⟩ := by
  unfold loadKernelFile GzInput.allocated
  cases ho : file.opens with
  | false => exact .inl ⟨rfl, rfl, rfl, rfl⟩
  | true =>
    simp only [Bool.not_true, Bool.false_eq_true, if_false, if_true]
    cases ha : shrinkingAlign file.block 10 (6 * megabyte) with
    | none => exact .inl ⟨rfl, rfl, rfl, rfl⟩
    | some q =>
      obtain ⟨p, maxsize⟩ := q
      have hle := hblock maxsize p (shrinkingAlign_block ha)
      simp only [Nat.not_lt.mpr hle, if_false]
      refine .inr ⟨p, maxsize, b.fopen.memalign (some p), rfl, rfl, rfl, ?_⟩
      cases hl : gzreadLoop file.data p maxsize file.reads 0 (b.fopen.memalign (some p)) with
      | mk x b₁ =>
        cases x with
        | none => exact ⟨rfl, rfl, fun _ => rfl, fun n _ hn => by cases hn⟩
        | some pos =>
          refine ⟨?_, ?_, fun hn => (by cases hn), fun n hn hx => ?_⟩
          · exact Loader.realloc_mem p pos (b₁.fclose b.handle)
          · exact Loader.realloc_stores p pos (b₁.fclose b.handle)
          · cases hx
            dsimp only
            rw [Loader.realloc_pos p _ hn]

theorem loadKernelFile_owes_none {last size : Nat} {file : GzInput} {fs hs : List Nat}
    (hblock : ∀ n p, file.block n = some p → last ≤ p)
    (hnone : (loadKernelFile last file size b).1.buffer = none) (h : b.Owes fs hs) :
    (loadKernelFile last file size b).2.Owes fs hs := by
  rcases loadKernelFile_owes h (Prod.mk.eta (p := loadKernelFile last file size b)).symm with
    ⟨-, ho⟩ | ⟨⟨-, q, hq, hlt⟩, -⟩
  · rw [hnone] at ho
    exact ho
  · have := hblock q.2 q.1 (shrinkingAlign_block hq)
    omega

/-- The kernel is returned exactly if there is a block with room for it and for one more chunk, and
then completely. Otherwise nothing is kept. -/
theorem loadKernelFile_delivers (last size : Nat) (file : GzInput) (results : List Int)
    (b : Loader)
    (hblock : ∀ n p, file.block n = some p → last ≤ p ∧ phys p + n ≤ 2 ^ 29)
    (hres : ∀ r ∈ results, -1 ≤ r ∧ r ≤ 10 * 1024) (htotal : 0 < streamTotal results) :
    let r := loadKernelFile last (file.reading results) size b
    (file.allocated = none → b.Stored 0 0 r.2) ∧
      (∀ p maxsize, file.allocated = some (p, maxsize) →
        b.Stored (phys p) (phys p + maxsize) r.2) ∧
      ((∃ p, r.1 = ⟨some p, streamTotal results⟩ ∧
          b.Delivered p file.data (streamTotal results) r.2) ↔ file.Fits (streamTotal results)) ∧
      (¬file.Fits (streamTotal results) →
        r.1.buffer = none ∧ ∀ fs hs, b.Owes fs hs → r.2.Owes fs hs) := by
  intro r
  have howes (hnone : r.1.buffer = none) (fs hs : List Nat) (h : b.Owes fs hs) :
      r.2.Owes fs hs :=
    loadKernelFile_owes_none (fun n p hp => (hblock n p hp).1) hnone h
  rcases loadKernelFile_attempts last size (file.reading results) b
      fun n p hp => (hblock n p hp).1 with
    ⟨ha, hnone, hmem, hstores⟩ | ⟨p, maxsize, b₀, ha, hm, hs, hmem, hstores, hnone, hsome⟩
  · have hno : ¬file.Fits (streamTotal results) := by
      rintro ⟨p, maxsize, hp, -⟩
      exact Option.some_ne_none _ (hp.symm.trans ha)
    refine ⟨fun _ => ?_, fun p maxsize hp => ?_, ?_, fun _ => ⟨hnone, howes hnone⟩⟩
    · exact .of_same hmem hstores 0 0
    · exact absurd (hp.symm.trans ha) (Option.some_ne_none _)
    · refine iff_of_false ?_ hno
      rintro ⟨p, hp, -⟩
      rw [hp] at hnone
      cases hnone
  · have halloc : file.allocated = some (p, maxsize) := ha
    have hroom := file.allocated_room hblock halloc
    obtain ⟨n, hn, hdel, hcase⟩ := gzreadLoop_delivers hroom.2 (fun r hr => (hres r hr).2)
      (Loader.Delivered.zero p file.data b₀) (by omega)
    have hdone : b.Delivered p file.data n r.2 := (hdel.of_start hm hs).congr hmem hstores
    have hfits : file.Fits (streamTotal results) ↔ streamTotal results + 10 * 1024 ≤ maxsize :=
      GzInput.fits_iff halloc (by omega)
    refine ⟨fun hn => ?_, fun q m hq => ?_, ?_, fun hno => ?_⟩
    · exact absurd (halloc.symm.trans hn) (Option.some_ne_none _)
    · cases halloc.symm.trans hq
      exact hdone.stored hn
    · rw [hfits]
      rcases hcase with ⟨hle, rfl, hr⟩ | ⟨hgt, hr⟩
      · rw [Nat.zero_add] at *
        exact iff_of_true ⟨p, hsome _ htotal hr, hdone⟩ hle
      · rw [Nat.zero_add] at hgt
        refine iff_of_false ?_ hgt
        rintro ⟨q, hq, -⟩
        have hbuffer := hnone hr
        rw [show (loadKernelFile last (file.reading results) size b).1 = _ from hq] at hbuffer
        cases hbuffer
    · rcases hcase with ⟨hle, -, -⟩ | ⟨-, hr⟩
      · rw [Nat.zero_add] at hle
        exact absurd (hfits.mpr hle) hno
      · exact ⟨hnone hr, howes (hnone hr)⟩

/-- Two chunks and an error, after the blocks of more than 2 MByte were refused. -/
theorem loadKernelFile_delivers_chunks :
    let file : GzInput := ⟨true, fun n => if n ≤ 2 * megabyte then some 0x200000 else none, [], 0⟩
    let r := loadKernelFile 0x100000 (file.reading [10240, 5, -1]) 0 (.start 0)
    ∃ p, r.1 = ⟨some p, 10245⟩ ∧ (Loader.start 0).Delivered p 0 10245 r.2 := by
  intro file
  refine (loadKernelFile_delivers 0x100000 0 file [10240, 5, -1] (.start 0) ?_ (by decide)
    (by decide)).2.2.1.mpr ⟨0x200000, 2 * megabyte, by decide, by decide⟩
  intro n p hp
  have hn : n ≤ 2 * megabyte ∧ p = 0x200000 := by
    simp only [file] at hp
    split_ifs at hp with hn
    exact ⟨hn, (Option.some.inj hp).symm⟩
  obtain ⟨hn, rfl⟩ := hn
  unfold megabyte at hn
  exact ⟨by decide, by unfold phys; omega⟩

end Stream

end KernelLoader.Boot
