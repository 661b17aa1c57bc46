import KernelLoader.Lib.Alloc
import KernelLoader.Ps2fs.Bitmap

namespace KernelLoader.Ps2fs
open Lib.Alloc Lib.Bitmap
set_option autoImplicit true
set_option relaxedAutoImplicit false

/-- `struct inode` with the block table of its raw inode. The table has 113 entries; what stands
behind them are the other fields of the raw inode. -/
structure Inode where
  ino : Nat
  size : Nat
  data : Table

def entries : Nat := 113

/-- The blocks of a file in their order. -/
def Inode.blocks (f : Inode) : List Nat := f.data.blocks 0 entries

/-- A number of 32 bits as a `long` -/
def long (n : Nat) : Int := (BitVec.ofNat 32 n).toInt

theorem long_eq {n : Nat} (h : n < 2 ^ 31) : long n = n := by
  have hnat : (BitVec.ofNat 32 n).toNat = n := by
    rw [BitVec.toNat_ofNat, Nat.mod_eq_of_lt (by omega)]
  rw [long, BitVec.toInt_eq_toNat_of_lt (by omega), hnat]

namespace Super
variable (sb : Super)

/-- `ps2fs_new_inode`; `memory` says whether the two structures could be allocated. -/
def newInode (io : Io) (d : Disk) (memory : Bool) : Except Errno Inode × Disk :=
  if !memory then (.error .enomem, d)
  else
    match sb.getNewBlock io d 0 with
    | (.error e, d') => (.error e, d')
    | (.ok block, d') => (.ok ⟨block, 0, fun _ => ⟨0, 0⟩⟩, d')

/-- The branch of `ps2fs_get_block` for a block that does not exist; entry `i` is free. -/
def addBlock (io : Io) (d : Disk) (f : Inode) (i iblock : Nat) : Except Errno Nat × Inode × Disk :=
  if iblock ≠ 0 then (.error .eio, f, d)
  else
    let last := f.data (i - 1)
    let nextblock := if i > 0 ∧ last.count < 0x7FFF then long (last.number + last.count) else -1
    let result :=
      if i = entries then sb.getNewBlock io d (makeInum nextblock (subpart f.ino))
      else sb.getNewBlock io d 0
    match result with
    | (.error e, d') => (.error e, f, d')
    | (.ok block, d') =>
      let data :=
        if i > 0 ∧ (block : Int) = nextblock then
          f.data.set (i - 1) { last with count := last.count + 1 }
        else f.data.set i ⟨block, 1⟩
      (.ok (sb.firstSector (subpart f.ino) + block * 2 ^ sb.blockShift), { f with data }, d')

/-- `ps2fs_get_block` returns the sector of a part of a file. -/
def getBlock (io : Io) (d : Disk) (f : Inode) (iblock : Int) (create : Bool) :
    Except Errno Nat × Inode × Disk :=
  if iblock < 0 then (.error .einval, f, d)
  else
    let place := f.data.seek (2 ^ sb.blockShift) 0 iblock.toNat entries
    if place.found then
      (.ok (sb.firstSector (subpart f.ino) + (f.data place.index).number * 2 ^ sb.blockShift +
        place.rest), f, d)
    else if create then sb.addBlock io d f place.index place.rest
    else (.error .eio, f, d)

/-- Free `n` blocks from `block` on; errors are not looked at. -/
def freeBlocks (io : Io) (d : Disk) (block : Nat) : Nat → Disk
  | 0 => d
  | n + 1 => freeBlocks io (sb.freeBlock io d (long block)).2 (block + 1) n

/-- The loop of `ps2fs_truncate` over the entries from `i` on. -/
def truncateFrom (io : Io) (d : Disk) (data : Table) (i blocks : Nat) : Nat → Table × Disk
  | 0 => (data, d)
  | n + 1 =>
    let first := (data i).number
    let count := (data i).count
    if count = 0 then (data, d)
    else if blocks < count then
      let d' := sb.freeBlocks io d (first + blocks) (count - blocks)
      let entry := if blocks ≠ 0 then { data i with count := blocks } else ⟨0, 0⟩
      truncateFrom io d' (data.set i entry) (i + 1) 0 n
    else truncateFrom io d data (i + 1) (blocks - count) n

/-- The number of blocks for a size in bytes. -/
def blocksFor (size : Nat) : Nat :=
  (size + (sb.blocksize * 2 ^ sb.blockShift - 1)) / (sb.blocksize * 2 ^ sb.blockShift)

/-- `ps2fs_truncate` to the size of the inode -/
def truncate (io : Io) (d : Disk) (f : Inode) : Inode × Disk :=
  let r := sb.truncateFrom io d f.data 0 (sb.blocksFor f.size) entries
  ({ f with data := r.1 }, r.2)

/-- `ps2fs_delete_inode` -/
def deleteInode (io : Io) (d : Disk) (f : Inode) : Disk :=
  let r := sb.truncate io d { f with size := 0 }
  (sb.freeBlock io r.2 (long f.ino)).2

/-- Bits of the first part may have been cleared, those of the blocks `l` and no others. They all
are when there is no error. -/
structure Freed (io : Io) (l : List Nat) (d d' : Disk) : Prop where
  keep : ∀ m, m ∉ l → sb.used d' 0 m = sb.used d 0 m
  clear : ∀ m, sb.used d' 0 m = true → sb.used d 0 m = true
  works : (∀ s, io.read s = true ∧ io.write s = true) → ∀ m ∈ l, sb.used d' 0 m = false
  rest : ∀ s o, (∀ n ∈ l, s ≠ sb.start 0 + n / sb.bitsPerBlock) → d' s o = d s o

variable {sb} {io : Io} {d d' d'' : Disk} {f f' : Inode} {data : Table} {i j k n : Nat}
  {l l' : List Nat}

theorem Freed.refl (sb : Super) (io : Io) (d : Disk) : sb.Freed io [] d d :=
  ⟨fun _ _ => rfl, fun _ h => h, fun _ _ hm => absurd hm List.not_mem_nil, fun _ _ _ => rfl⟩

theorem Freed.trans (h : sb.Freed io l d d') (h' : sb.Freed io l' d' d'') :
    sb.Freed io (l ++ l') d d'' := by
  constructor
  · intro m hm
    rw [List.mem_append, not_or] at hm
    rw [h'.keep m hm.2, h.keep m hm.1]
  · intro m hm
    exact h.clear m (h'.clear m hm)
  · intro hio m hm
    rcases List.mem_append.mp hm with hm | hm
    · by_contra hused
      have hbefore := h'.clear m (by simpa using hused)
      rw [h.works hio m hm] at hbefore
      cases hbefore
    · exact h'.works hio m hm
  · intro s o hs
    rw [h'.rest s o fun n hn => hs n (List.mem_append_right l hn),
      h.rest s o fun n hn => hs n (List.mem_append_left l' hn)]

theorem freeBlock_works {block : Int} (hio : ∀ s, io.read s = true ∧ io.write s = true)
    (hblock : 0 ≤ block) (hpart : subpart block.toNat < sb.nSubparts) :
    (sb.freeBlock io d block).1 = .ok () := by
  simp only [freeBlock, Io.put, (hio _).1, (hio _).2, Int.not_lt.mpr hblock,
    Nat.not_le.mpr hpart, if_false, if_true, Bool.not_true, Bool.false_eq_true]
  split <;> rfl

theorem freeBlock_freed (hparts : 0 < sb.nSubparts) (hn : n < 2 ^ 24) :
    sb.Freed io [n] d (sb.freeBlock io d (long n)).2 := by
  have hlong : long n = n := long_eq (by omega)
  have hpart : subpart n = 0 := Nat.div_eq_of_lt hn
  have hbnum : bnum n = n := Nat.mod_eq_of_lt hn
  cases h : sb.freeBlock io d (long n) with
  | mk r d' =>
    cases r with
    | ok =>
      have hmarks := freeBlock_ok h
      rw [hlong, Int.toNat_natCast, hpart, hbnum] at hmarks
      constructor
      · intro m hm
        rw [hmarks.used, if_neg fun he => hm (List.mem_singleton.mpr he)]
      · intro m hm
        rw [hmarks.used] at hm
        split at hm
        · cases hm
        · exact hm
      · intro _ m hm
        rw [hmarks.used, if_pos (List.mem_singleton.mp hm)]
      · intro s o hs
        exact hmarks.rest s o fun h => hs n (List.mem_singleton_self n) h.1
    | error e =>
      cases freeBlock_error h
      refine ⟨fun _ _ => rfl, fun _ h => h, fun hio => ?_, fun _ _ _ => rfl⟩
      have hok : (sb.freeBlock io d (long n)).1 = .ok () := freeBlock_works hio (by omega)
        (by rw [hlong, Int.toNat_natCast, hpart]; exact hparts)
      rw [h] at hok
      cases hok

theorem freeBlocks_freed (hparts : 0 < sb.nSubparts) (h : i + n ≤ 2 ^ 24) :
    sb.Freed io (List.range' i n) d (sb.freeBlocks io d i n) := by
  induction n generalizing i d with
  | zero => exact .refl sb io d
  | succ n ih =>
    rw [freeBlocks, List.range'_succ]
    exact (freeBlock_freed hparts (by omega)).trans (ih (by omega))

theorem truncateFrom_other (h : j < i ∨ i + n ≤ j) :
    (sb.truncateFrom io d data i k n).1 j = data j := by
  induction n generalizing i k d data with
  | zero => rfl
  | succ n ih =>
    simp only [truncateFrom]
    split
    · rfl
    · split
      · rw [ih (by omega), Table.set_other (by omega)]
      · exact ih (by omega)

theorem truncateFrom_blocks (sb : Super) (io : Io) (d : Disk) (data : Table) (i k n : Nat) :
    (sb.truncateFrom io d data i k n).1.blocks i n = (data.blocks i n).take k := by
  induction n generalizing i k d data with
  | zero => simp [Table.blocks]
  | succ n ih =>
    simp only [truncateFrom]
    split
    · next hcount => simp [Table.blocks_empty hcount]
    · next hcount =>
      split
      · next hlt =>
        have htail : ∀ e : Extent, (data.set i e).blocks (i + 1) n = data.blocks (i + 1) n :=
          fun e => Table.blocks_congr fun j hj _ => Table.set_other (by omega)
        rw [Table.blocks, truncateFrom_other (by omega), Table.set_self, ih, htail, Table.blocks,
          if_neg hcount, List.take_zero, List.append_nil,
          List.take_append_of_le_length (by simp; omega)]
        by_cases hk : k = 0
        · simp [hk]
        · rw [if_pos hk, if_neg hk, List.take_range'_of_length_ge (by omega)]
      · next hlt =>
        rw [Table.blocks, truncateFrom_other (by omega), if_neg hcount, ih, Table.blocks,
          if_neg hcount, List.take_append, List.length_range',
          List.take_range'_of_length_le (by omega)]

theorem truncateFrom_freed (hparts : 0 < sb.nSubparts)
    (hdata : ∀ b ∈ data.blocks i n, b < 2 ^ 24) :
    sb.Freed io ((data.blocks i n).drop k) d (sb.truncateFrom io d data i k n).2 := by
  induction n generalizing i k d data with
  | zero =>
    rw [Table.blocks, List.drop_nil]
    exact .refl sb io d
  | succ n ih =>
    simp only [truncateFrom]
    split
    · next hcount =>
      rw [Table.blocks_empty hcount, List.drop_nil]
      exact .refl sb io d
    · next hcount =>
      rw [Table.blocks, if_neg hcount] at hdata ⊢
      have hnext : ∀ b ∈ data.blocks (i + 1) n, b < 2 ^ 24 := fun b hb =>
        hdata b (List.mem_append_right _ hb)
      split
      · next hlt =>
        have hend : (data i).number + (data i).count ≤ 2 ^ 24 := by
          have hlast := hdata ((data i).number + ((data i).count - 1))
            (List.mem_append_left _ (List.mem_range'_1.mpr ⟨by omega, by omega⟩))
          omega
        have htail : ∀ e : Extent, (data.set i e).blocks (i + 1) n = data.blocks (i + 1) n :=
          fun e => Table.blocks_congr fun j hj _ => Table.set_other (by omega)
        rw [List.drop_append_of_le_length (by simp; omega), List.drop_range', Nat.mul_one]
        apply Freed.trans (freeBlocks_freed hparts (by omega))
        generalize (if k ≠ 0 then _ else _ : Extent) = e
        rw [← htail e, ← List.drop_zero (l := (data.set i e).blocks (i + 1) n)]
        apply ih
        rw [htail]
        exact hnext
      · next hlt =>
        rw [List.drop_append, List.drop_of_length_le (by simp; omega), List.nil_append,
          List.length_range']
        exact ih hnext

theorem truncateFrom_none (sb : Super) (io : Io) (d : Disk) (data : Table) (i n : Nat) :
    ((sb.truncateFrom io d data i 0 (n + 1)).1 i).count = 0 := by
  simp only [truncateFrom]
  split
  · next hcount => exact hcount
  · next hcount =>
    rw [if_pos (Nat.pos_of_ne_zero hcount), truncateFrom_other (by omega), Table.set_self]
    rfl

theorem truncateFrom_packed (h : data.Packed i n) :
    (sb.truncateFrom io d data i k n).1.Packed i n := by
  induction n generalizing i k d data with
  | zero =>
    intro j hj hlt
    omega
  | succ n ih =>
    simp only [truncateFrom]
    split
    · exact h
    · next hcount =>
      split
      · intro j hj hlt hzero
        have hset : ∀ e : Extent, (data.set i e).Packed (i + 1) n := by
          intro e j hj hlt
          rw [Table.set_other (by omega), Table.set_other (by omega)]
          exact h j (by omega) (by omega)
        by_cases hi : j = i
        · subst hi
          obtain ⟨n, rfl⟩ : ∃ n', n = n' + 1 := ⟨n - 1, by omega⟩
          exact truncateFrom_none sb io _ _ _ n
        · exact ih (hset _) j (by omega) (by omega) hzero
      · intro j hj hlt hzero
        by_cases hi : j = i
        · subst hi
          rw [truncateFrom_other (by omega)] at hzero
          exact absurd hzero hcount
        · exact ih h.next j (by omega) (by omega) hzero

variable (sb io d f) in
theorem getBlock_sector {iblock b : Nat} (create : Bool)
    (h : f.blocks[iblock / 2 ^ sb.blockShift]? = some b) :
    sb.getBlock io d f iblock create = (.ok (sb.firstSector (subpart f.ino) +
      b * 2 ^ sb.blockShift + iblock % 2 ^ sb.blockShift), f, d) := by
  have hunit : 0 < 2 ^ sb.blockShift := Nat.two_pow_pos _
  simp only [getBlock, Int.not_lt.mpr (Int.natCast_nonneg iblock), if_false, Int.toNat_natCast]
  cases hfound : (f.data.seek (2 ^ sb.blockShift) 0 iblock entries).found with
  | true =>
    obtain ⟨-, hmod, hblock⟩ := Table.seek_found rfl hfound hunit
    rw [if_pos rfl, ← hmod]
    cases Option.some.inj (h.symm.trans hblock)
    have hsplit := Nat.div_add_mod' (f.data.seek (2 ^ sb.blockShift) 0 iblock entries).rest
      (2 ^ sb.blockShift)
    rw [Nat.add_mul, Nat.add_assoc, Nat.add_assoc, Nat.add_assoc, hsplit]
  | false =>
    -- the search went past all blocks, so the block is not one of the file
    obtain ⟨-, -, hrest, -⟩ := Table.seek_end rfl hfound
    have hlen := (List.getElem?_eq_some_iff.mp h).1
    have hpast : f.blocks.length ≤ iblock / 2 ^ sb.blockShift := by
      apply (Nat.le_div_iff_mul_le hunit).mpr
      rw [← hrest]
      exact Nat.le_add_right _ _
    omega

/-- Where a part of a file is, by the list of its blocks. -/
def sectorOf (sb : Super) (f : Inode) (iblock : Nat) : Except Errno Nat :=
  match f.blocks[iblock / 2 ^ sb.blockShift]? with
  | some b =>
    .ok (sb.firstSector (subpart f.ino) + b * 2 ^ sb.blockShift + iblock % 2 ^ sb.blockShift)
  | none => .error .eio

theorem getBlock_read (sb : Super) (io : Io) (d : Disk) (f : Inode) (iblock : Nat) :
    sb.getBlock io d f iblock false = (sb.sectorOf f iblock, f, d) := by
  have hunit : 0 < 2 ^ sb.blockShift := Nat.two_pow_pos _
  cases hblock : f.blocks[iblock / 2 ^ sb.blockShift]? with
  | some b => rw [getBlock_sector sb io d f false hblock, sectorOf, hblock]
  | none =>
    rw [sectorOf, hblock]
    simp only [getBlock, Int.not_lt.mpr (Int.natCast_nonneg iblock), if_false, Int.toNat_natCast]
    cases hfound : (f.data.seek (2 ^ sb.blockShift) 0 iblock entries).found with
    | true =>
      have hfound := (Table.seek_found rfl hfound hunit).2.2
      rw [Inode.blocks] at hblock
      rw [hblock] at hfound
      cases hfound
    | false => rfl

theorem makeInum_minus (part : Nat) : makeInum (-1) part = -1 := by
  rw [makeInum]
  have hones : BitVec.ofInt 32 (-1) = BitVec.allOnes 32 := rfl
  rw [hones, BitVec.allOnes_or]
  rfl

end Super

/-- The table of a file in the first part ends where it should, and its blocks have numbers that
can follow each other. -/
structure Inode.Sound (f : Inode) : Prop where
  packed : f.data.Packed 0 entries
  small : ∀ b ∈ f.blocks, b + 1 < 2 ^ 24
  ino : f.ino < 2 ^ 24

namespace Super

/-- What an attempt to add a block leaves: on success a block that was free stands at the end of the
file, and only the table and the bit of that block have changed. -/
inductive Added (sb : Super) (f : Inode) (d : Disk) : Except Errno Nat × Inode × Disk → Prop
  | error (e : Errno) : Added sb f d (.error e, f, d)
  | ok (new : Nat) (f' : Inode) (d' : Disk) (free : sb.used d 0 new = false)
      (marks : sb.Marks 0 new true d d')
      (source : new < sb.capacity 0 ∨ 0 < new ∧ new - 1 ∈ f.blocks)
      (blocks : f'.blocks = f.blocks ++ [new]) (packed : f'.data.Packed 0 entries)
      (behind : ∀ j, entries ≤ j → f'.data j = f.data j) (ino : f'.ino = f.ino) :
      Added sb f d (.ok (sb.firstSector 0 + new * 2 ^ sb.blockShift), f', d')

variable {sb : Super} {io : Io} {d d' : Disk} {f f' : Inode} {i iblock new sector : Nat}
  {desired : Int}

/-- The entries of the table before `i` are in use, and entry `i` is not. -/
structure Ends (f : Inode) (i : Nat) : Prop where
  le : i ≤ entries
  before : ∀ j, j < i → (f.data j).count ≠ 0
  empty : i < entries → (f.data i).count = 0

theorem Ends.last_mem (h : Ends f i) (hi : 0 < i) :
    (f.data (i - 1)).number + ((f.data (i - 1)).count - 1) ∈ f.blocks := by
  have hcount := h.before (i - 1) (by omega)
  have hle := h.le
  exact Table.mem_blocks (fun j _ hj => h.before j (by omega)) (Nat.zero_le _) (by omega) (by omega)

theorem Ends.extend (h : Ends f i) (hf : f.Sound) (hi : 0 < i)
    (hget : sb.getNewBlock io d desired = (.ok new, d')) (hpart : subpart desired.toNat = 0)
    (hnew : new = (f.data (i - 1)).number + (f.data (i - 1)).count) :
    sb.Added f d (.ok (sb.firstSector 0 + new * 2 ^ sb.blockShift),
      { f with
        data := f.data.set (i - 1) { f.data (i - 1) with count := (f.data (i - 1)).count + 1 } },
      d') := by
  obtain ⟨-, hfree, hmarks, -⟩ := getNewBlock_ok hget
  rw [hpart] at hfree hmarks
  have hcount := h.before (i - 1) (by omega)
  have hle := h.le
  apply Added.ok new _ d' hfree hmarks
  · have hlast := h.last_mem hi
    rw [← Nat.add_sub_assoc (by omega), ← hnew] at hlast
    exact .inr ⟨by omega, hlast⟩
  · rw [hnew]
    apply Table.blocks_extend (fun j _ hj => h.before j (by omega)) (Nat.zero_le _) (by omega)
    intro hlt
    rw [Nat.sub_add_cancel hi] at hlt ⊢
    exact h.empty (by omega)
  · exact hf.packed.set (fun j _ hj => h.before j (by omega)) (Nat.succ_ne_zero _)
  · intro j hj
    exact Table.set_other (by omega)
  · rfl

theorem Ends.append (h : Ends f i) (hf : f.Sound) (hi : i < entries)
    (hget : sb.getNewBlock io d 0 = (.ok new, d')) :
    sb.Added f d (.ok (sb.firstSector 0 + new * 2 ^ sb.blockShift),
      { f with data := f.data.set i ⟨new, 1⟩ }, d') := by
  obtain ⟨-, hfree, hmarks, -, hleast⟩ := getNewBlock_ok hget
  apply Added.ok new _ d' hfree hmarks
  · exact .inl (hleast rfl).1
  · exact Table.blocks_append (fun j _ hj => h.before j hj) (Nat.zero_le _) (by omega)
      (h.empty hi) hf.packed new
  · exact hf.packed.set (fun j _ hj => h.before j hj) (Nat.succ_ne_zero 0)
  · intro j hj
    exact Table.set_other (by omega)
  · rfl

theorem addBlock_added (h : Ends f i) (hf : f.Sound) :
    sb.Added f d (sb.addBlock io d f i iblock) := by
  have hpart : subpart f.ino = 0 := Nat.div_eq_of_lt hf.ino
  have hnext : 0 < i → (f.data (i - 1)).number + (f.data (i - 1)).count < 2 ^ 24 := by
    intro hi
    have hlast := hf.small _ (h.last_mem hi)
    have hcount := h.before (i - 1) (by omega)
    omega
  simp only [addBlock, hpart]
  split
  · exact .error _
  · by_cases hi : i = entries
    · -- the table is full: only the block behind the last one will do
      subst hi
      have hcount := h.before (entries - 1) (by decide)
      have hnext := hnext (by decide)
      rw [if_pos rfl]
      by_cases hfull : (f.data (entries - 1)).count < 0x7FFF
      · rw [if_pos ⟨by decide, hfull⟩, long_eq (by omega), makeInum_eq hnext (by decide)]
        split
        · next hget =>
          cases getNewBlock_error hget
          exact .error _
        · next new d' hget =>
          have hwant := (getNewBlock_ok hget).2.2.2.1
          rw [Int.toNat_natCast, bnum_inum hnext] at hwant
          have hnew := hwant (by omega)
          rw [if_pos ⟨by decide, by rw [hnew]⟩]
          exact h.extend hf (by decide) hget
            (by rw [Int.toNat_natCast, subpart_inum hnext]) hnew
      · rw [if_neg fun hlt => hfull hlt.2, makeInum_minus]
        exact .error _
    · have hlt : i < entries := Nat.lt_of_le_of_ne h.le hi
      rw [if_neg hi]
      split
      · next hget =>
        cases getNewBlock_error hget
        exact .error _
      · next new d' hget =>
        split
        · next hroom =>
          rw [long_eq (by have := hnext hroom.1; omega)]
          split
          · next hsame => exact h.extend hf hroom.1 hget rfl (Int.ofNat.inj hsame.2)
          · exact h.append hf hlt hget
        · rw [if_neg fun hsame => by omega]
          exact h.append hf hlt hget

/-- A part of a file that does not exist is added at the end of the file or not at all, and never
behind a hole. -/
theorem getBlock_added (hf : f.Sound) (hpast : f.blocks.length * 2 ^ sb.blockShift ≤ iblock)
    (create : Bool) :
    sb.Added f d (sb.getBlock io d f iblock create) ∧
      (iblock ≠ f.blocks.length * 2 ^ sb.blockShift →
        (sb.getBlock io d f iblock create).1 = .error .eio) := by
  have hunit : 0 < 2 ^ sb.blockShift := Nat.two_pow_pos _
  simp only [getBlock, Int.not_lt.mpr (Int.natCast_nonneg iblock), if_false, Int.toNat_natCast]
  cases hfound : (f.data.seek (2 ^ sb.blockShift) 0 iblock entries).found with
  | true =>
    obtain ⟨-, -, hblock⟩ := Table.seek_found rfl hfound hunit
    have hlen := (List.getElem?_eq_some_iff.mp hblock).1
    have hle := (Nat.le_div_iff_mul_le hunit).mpr hpast
    exact absurd (Nat.lt_of_lt_of_le hlen hle) (Nat.lt_irrefl _)
  | false =>
    obtain ⟨-, hle, hrest, hbefore, hempty⟩ := Table.seek_end rfl hfound
    rw [Nat.zero_add] at hle hempty
    cases create with
    | true =>
      refine ⟨addBlock_added ⟨hle, fun j hj => hbefore j (Nat.zero_le j) hj, hempty⟩ hf, ?_⟩
      intro hhole
      have hne : (f.data.seek (2 ^ sb.blockShift) 0 iblock entries).rest ≠ 0 := by
        intro hzero
        rw [hzero] at hrest
        exact hhole hrest.symm
      simp [addBlock, hne]
    | false => exact ⟨.error _, fun _ => rfl⟩

/-- A part that was added is then found where it was put, the parts before it are where they were,
and the block was free before. -/
theorem getBlock_grows (hf : f.Sound) (hpast : f.blocks.length * 2 ^ sb.blockShift ≤ iblock)
    (h : sb.getBlock io d f iblock true = (.ok sector, f', d')) (io' : Io) :
    iblock = f.blocks.length * 2 ^ sb.blockShift ∧
      sb.getBlock io' d' f' iblock false = (.ok sector, f', d') ∧
      (∀ i : Nat, i < iblock → (sb.getBlock io' d' f' i false).1 = (sb.getBlock io d f i false).1) ∧
      (∀ j, entries ≤ j → f'.data j = f.data j) ∧
      ∃ new, f'.blocks = f.blocks ++ [new] ∧ sb.used d 0 new = false ∧
        sb.Marks 0 new true d d' := by
  have hunit : 0 < 2 ^ sb.blockShift := Nat.two_pow_pos _
  obtain ⟨hadded, hhole⟩ : sb.Added f d (sb.getBlock io d f iblock true) ∧ _ :=
    getBlock_added hf hpast true
  rw [h] at hadded hhole
  have hend : iblock = f.blocks.length * 2 ^ sb.blockShift := by
    by_contra hne
    cases hhole hne
  cases hadded with
  | ok new _ _ hfree hmarks hsource hblocks hpacked hbehind hino =>
    have hpart : subpart f'.ino = 0 := by rw [hino]; exact Nat.div_eq_of_lt hf.ino
    refine ⟨hend, ?_, ?_, hbehind, new, hblocks, hfree, hmarks⟩
    · rw [getBlock_read, sectorOf, hend, Nat.mul_div_cancel _ hunit, hblocks,
        List.getElem?_concat_length, Nat.mul_mod_left, hpart]
      rfl
    · intro i hi
      have hlt : i / 2 ^ sb.blockShift < f.blocks.length :=
        Nat.div_lt_of_lt_mul (by rw [Nat.mul_comm, ← hend]; exact hi)
      rw [getBlock_read, getBlock_read, sectorOf, sectorOf, hblocks,
        List.getElem?_append_left hlt, hino]

/-- A file of one block. -/
def oneBlock : Inode := ⟨3, 1, fun i => if i = 0 then ⟨4, 1⟩ else ⟨0, 0⟩⟩

theorem oneBlock_blocks : oneBlock.blocks = [4] := by decide

theorem oneBlock_sound : oneBlock.Sound := by
  refine ⟨fun j hj hlt hzero => by simp [oneBlock], fun b hb => ?_, by decide⟩
  rw [oneBlock_blocks, List.mem_singleton] at hb
  subst hb
  decide

theorem getBlock_grows_oneBlock :
    (1 : Nat) = oneBlock.blocks.length * 2 ^ tiny.blockShift ∧
      tiny.getBlock .works (tiny.getBlock .works (fun _ _ => 0x1F) oneBlock 1 true).2.2
          (tiny.getBlock .works (fun _ _ => 0x1F) oneBlock 1 true).2.1 1 false =
        (.ok 5, (tiny.getBlock .works (fun _ _ => 0x1F) oneBlock 1 true).2) := by
  have hadd : tiny.getBlock .works (fun _ _ => 0x1F) oneBlock (1 : Nat) true =
      (.ok 5, (tiny.getBlock .works (fun _ _ => 0x1F) oneBlock 1 true).2) := rfl
  obtain ⟨hend, hread, -⟩ := getBlock_grows oneBlock_sound (by decide) hadd .works
  exact ⟨hend, hread⟩

theorem blocksFor_zero (sb : Super) : sb.blocksFor 0 = 0 := by
  have hpos : 0 < sb.blocksize * 2 ^ sb.blockShift :=
    Nat.mul_pos sb.blocksize_pos (Nat.two_pow_pos _)
  exact Nat.div_eq_of_lt (by omega)

theorem truncate_blocks (sb : Super) (io : Io) (d : Disk) (f : Inode) :
    (sb.truncate io d f).1.blocks = f.blocks.take (sb.blocksFor f.size) :=
  truncateFrom_blocks sb io d f.data 0 _ entries

theorem truncate_freed (hparts : 0 < sb.nSubparts) (hsmall : ∀ b ∈ f.blocks, b + 1 < 2 ^ 24) :
    sb.Freed io (f.blocks.drop (sb.blocksFor f.size)) d (sb.truncate io d f).2 :=
  truncateFrom_freed hparts fun b hb => Nat.lt_of_succ_lt (hsmall b hb)

/-- After a file was cut the parts before the cut are where they were and those behind it are gone.
The blocks behind the cut are given back, all of them if there is no error, and no others. -/
theorem truncate_cuts (hparts : 0 < sb.nSubparts) (hf : f.Sound) (hnodup : f.blocks.Nodup)
    (io' : Io) (d' : Disk) (hused : ∀ b ∈ f.blocks, sb.used d 0 b = true) :
    (∀ iblock : Nat, (sb.getBlock io' d' (sb.truncate io d f).1 iblock false).1 =
      if iblock / 2 ^ sb.blockShift < sb.blocksFor f.size
      then (sb.getBlock io' d' f iblock false).1 else .error .eio) ∧
    (∀ b ∈ (sb.truncate io d f).1.blocks, sb.used (sb.truncate io d f).2 0 b = true) ∧
    ((∀ s, io.read s = true ∧ io.write s = true) → ∀ b, b ∈ f.blocks →
      b ∉ (sb.truncate io d f).1.blocks → sb.used (sb.truncate io d f).2 0 b = false) ∧
    ∀ b, b ∉ f.blocks → sb.used (sb.truncate io d f).2 0 b = sb.used d 0 b := by
  have hfreed : sb.Freed io _ d (sb.truncate io d f).2 := truncate_freed hparts hf.small
  have hsplit := List.take_append_drop (sb.blocksFor f.size) f.blocks
  rw [← hsplit] at hnodup
  rw [truncate_blocks]
  refine ⟨fun iblock => ?_, fun b hb => ?_, fun hio b hb hgone => ?_, fun b hb => ?_⟩
  · rw [getBlock_read, getBlock_read, sectorOf, sectorOf, truncate_blocks, List.getElem?_take]
    by_cases hlt : iblock / 2 ^ sb.blockShift < sb.blocksFor f.size
    · rw [if_pos hlt, if_pos hlt]
      rfl
    · rw [if_neg hlt, if_neg hlt]
  · rw [hfreed.keep b fun hdrop => (List.nodup_append.mp hnodup).2.2 b hb b hdrop rfl]
    exact hused b (List.mem_of_mem_take hb)
  · rw [← hsplit] at hb
    exact hfreed.works hio b ((List.mem_append.mp hb).resolve_left hgone)
  · exact hfreed.keep b fun hdrop => hb (List.mem_of_mem_drop hdrop)

theorem truncate_cuts_oneBlock :
    (∀ b ∈ (tiny.truncate .works (fun _ _ => 0x1F) oneBlock).1.blocks,
      tiny.used (tiny.truncate .works (fun _ _ => 0x1F) oneBlock).2 0 b = true) ∧
    ∀ iblock : Nat, (tiny.getBlock .works (fun _ _ => 0x1F)
        (tiny.truncate .works (fun _ _ => 0x1F) oneBlock).1 iblock false).1 =
      if iblock / 2 ^ tiny.blockShift < tiny.blocksFor oneBlock.size
      then (tiny.getBlock .works (fun _ _ => 0x1F) oneBlock iblock false).1 else .error .eio := by
  have hused : ∀ b ∈ oneBlock.blocks, tiny.used (fun _ _ => 0x1F) 0 b = true := by
    intro b hb
    rw [oneBlock_blocks, List.mem_singleton] at hb
    subst hb
    rfl
  obtain ⟨hread, hkept, -⟩ := @truncate_cuts tiny .works (fun _ _ => 0x1F) oneBlock (by decide)
    oneBlock_sound (by rw [oneBlock_blocks]; exact List.nodup_singleton 4) .works
    (fun _ _ => 0x1F) hused
  exact ⟨hkept, hread⟩

end Super

end KernelLoader.Ps2fs
