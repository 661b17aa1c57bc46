import KernelLoader.Lib.Bitmap

namespace KernelLoader.Ps2fs
open Lib.Bitmap
set_option autoImplicit true
set_option relaxedAutoImplicit false

/-- The errors that functions return as negative numbers. -/
inductive Errno
  | enospc | eio | einval | enomem
  deriving DecidableEq, Repr

/-- `struct ps2fs_sb_info` and the size of the hardware blocks. -/
structure Super where
  blocksize : Nat
  blockShift : Nat
  nSubparts : Nat
  firstSector : Nat → Nat
  size : Nat → Nat
  blocksize_pos : 0 < blocksize

/-- Which sectors can be read, and which can be written; what could not be written is as before. -/
structure Io where
  read : Nat → Bool
  write : Nat → Bool

def Io.works : Io := ⟨fun _ => true, fun _ => true⟩

/-- Store a byte of a sector and write the sector. -/
def Io.put (io : Io) (d : Disk) (sector off : Nat) (b : BitVec 8) : Option Disk :=
  if io.write sector then some (setByte d sector off b) else none

/-- `PS2FS_SUBPART` -/
def subpart (inode : Nat) : Nat := inode / 2 ^ 24

/-- `PS2FS_BNUM` -/
def bnum (inode : Nat) : Nat := inode % 2 ^ 24

/-- `PS2FS_MAKE_INUM`, a `long` of 32 bits -/
def makeInum (inode : Int) (subpart : Nat) : Int :=
  (BitVec.ofInt 32 inode ||| BitVec.ofNat 32 (subpart <<< 24)).toInt

theorem makeInum_eq {n part : Nat} (hn : n < 2 ^ 24) (hpart : part < 2 ^ 7) :
    makeInum n part = (part * 2 ^ 24 + n : Nat) := by
  have hor : BitVec.ofInt 32 n ||| BitVec.ofNat 32 (part <<< 24) =
      BitVec.ofNat 32 (part * 2 ^ 24 + n) := by
    rw [BitVec.ofInt_natCast, BitVec.or_comm, ← BitVec.ofNat_or, ← Nat.shiftLeft_add_eq_or_of_lt hn,
      Nat.shiftLeft_eq]
  have hnat : (BitVec.ofNat 32 (part * 2 ^ 24 + n)).toNat = part * 2 ^ 24 + n := by
    rw [BitVec.toNat_ofNat, Nat.mod_eq_of_lt (by omega)]
  rw [makeInum, hor, BitVec.toInt_eq_toNat_of_lt (by omega), hnat]

theorem subpart_inum {n part : Nat} (hn : n < 2 ^ 24) : subpart (part * 2 ^ 24 + n) = part := by
  rw [subpart]
  omega

theorem bnum_inum {n part : Nat} (hn : n < 2 ^ 24) : bnum (part * 2 ^ 24 + n) = n := by
  rw [bnum]
  omega

namespace Super
variable (sb : Super)

def bitsPerBlock : Nat := 8 * sb.blocksize

/-- The sector the bitmap of a part begins with. -/
def start (part : Nat) : Nat :=
  ((if part = 0 then 0x400000 else 0) + sb.blocksize * 2 ^ sb.blockShift) / sb.blocksize +
    sb.firstSector part

/-- The number of the sectors of a bitmap. -/
def nblocks (part : Nat) : Nat :=
  (sb.size part / 2 ^ sb.blockShift + sb.bitsPerBlock - 1) / sb.bitsPerBlock

/-- The number of the blocks the bitmap of a part has bits for. -/
def capacity (part : Nat) : Nat := sb.nblocks part * sb.bitsPerBlock

/-- A block is marked in the bitmap of its part. -/
def used (d : Disk) (part n : Nat) : Bool := bit d (sb.start part) sb.blocksize n

/-- The loop over the sectors of a bitmap from sector `i` on. -/
def findFree (io : Io) (d : Disk) (part i : Nat) : Nat → Except Errno Nat × Disk
  | 0 => (.error .enospc, d)
  | n + 1 =>
    if !io.read (sb.start part + i) then (.error .eio, d)
    else
      match firstFree (d (sb.start part + i)) 0 sb.blocksize with
      | none => findFree io d part (i + 1) n
      | some off =>
        let val := d (sb.start part + i) off
        let bit := trailingOnes 8 val.toNat
        if bit > 7 then (.error .eio, d)
        else
          match io.put d (sb.start part + i) off (val ||| BitVec.twoPow 8 bit) with
          | none => (.error .eio, d)
          | some d' => (.ok (i * sb.bitsPerBlock + off * 8 + bit), d')

/-- The branch for a block that is asked for. -/
def takeBlock (io : Io) (d : Disk) (part desired : Nat) : Except Errno Nat × Disk :=
  let sector := sb.start part + desired / sb.bitsPerBlock
  if !io.read sector then (.error .eio, d)
  else
    let off := desired % sb.bitsPerBlock / 8
    let i := BitVec.twoPow 8 (desired % 8)
    if d sector off &&& i ≠ 0 then (.error .enospc, d)
    else
      match io.put d sector off (d sector off ||| i) with
      | none => (.error .eio, d)
      | some d' => (.ok desired, d')

/-- `get_new_block` -/
def getNewBlock (io : Io) (d : Disk) (desired : Int) : Except Errno Nat × Disk :=
  if desired < 0 then (.error .enospc, d)
  else
    let part := subpart desired.toNat
    let desired := bnum desired.toNat
    if part ≥ sb.nSubparts then (.error .enospc, d)
    else if desired ≠ 0 then sb.takeBlock io d part desired
    else sb.findFree io d part 0 (sb.nblocks part)

/-- `free_block` -/
def freeBlock (io : Io) (d : Disk) (block : Int) : Except Errno Unit × Disk :=
  if block < 0 then (.error .eio, d)
  else
    let part := subpart block.toNat
    let block := bnum block.toNat
    if part ≥ sb.nSubparts then (.error .eio, d)
    else
      let sector := sb.start part + block / sb.bitsPerBlock
      if !io.read sector then (.error .eio, d)
      else
        let off := block % sb.bitsPerBlock / 8
        let i := BitVec.twoPow 8 (block % 8)
        if d sector off &&& i ≠ 0 then
          match io.put d sector off (d sector off &&& ~~~i) with
          | none => (.error .eio, d)
          | some d' => (.ok (), d')
        else (.ok (), d)

/-- Nothing but the bit of a block in the bitmap of a part changes. -/
structure Marks (part n : Nat) (v : Bool) (d d' : Disk) : Prop where
  used : ∀ m, sb.used d' part m = if m = n then v else sb.used d part m
  rest : ∀ s o, ¬ (s = sb.start part + n / sb.bitsPerBlock ∧ o = n % sb.bitsPerBlock / 8) →
    d' s o = d s o

variable {sb} {io : Io} {d d' d'' : Disk} {part i off k m n new : Nat} {v : Bool} {b : BitVec 8}
  {desired : Int}

theorem marks_put (hput : io.put d (sb.start part + i) off b = some d') (hoff : off < sb.blocksize)
    (hk : k < 8)
    (hb : ∀ j < 8, b.getLsbD j = if j = k then v else (d (sb.start part + i) off).getLsbD j) :
    sb.Marks part (i * sb.bitsPerBlock + off * 8 + k) v d d' := by
  rw [Io.put] at hput
  split at hput
  · cases hput
    constructor
    · intro m
      exact bit_setByte hoff hk hb m
    · intro s o hs
      have hplace := (place_eq_iff (i := i) hoff hk).mp rfl
      rw [bitsPerBlock, hplace.1, hplace.2.1] at hs
      exact if_neg hs
  · cases hput

theorem used_eq (sb : Super) (d : Disk) (part n : Nat) : sb.used d part n =
    (d (sb.start part + n / sb.bitsPerBlock) (n % sb.bitsPerBlock / 8)).getLsbD (n % 8) := rfl

theorem place_self (sb : Super) (n : Nat) :
    n / sb.bitsPerBlock * sb.bitsPerBlock + n % sb.bitsPerBlock / 8 * 8 + n % 8 = n ∧
      n % sb.bitsPerBlock / 8 < sb.blocksize := by
  have hpos := sb.blocksize_pos
  have hoff : n % sb.bitsPerBlock / 8 < sb.blocksize := by
    have hlt : n % (8 * sb.blocksize) < 8 * sb.blocksize := Nat.mod_lt n (by omega)
    rw [bitsPerBlock]
    omega
  exact ⟨((place_eq_iff hoff (Nat.mod_lt n (by decide))).mpr ⟨rfl, rfl, rfl⟩).symm, hoff⟩

theorem used_full (hfull : firstFree (d (sb.start part + i)) 0 sb.blocksize = none)
    (hm : m / sb.bitsPerBlock = i) : sb.used d part m = true := by
  have hbyte := firstFree_none hfull (m % sb.bitsPerBlock / 8) (Nat.zero_le _)
    (by rw [Nat.zero_add]; exact (place_self sb m).2)
  rw [used_eq, hm, hbyte]
  exact getLsbD_full _ (Nat.mod_lt m (by decide))

theorem used_before (hfree : firstFree (d (sb.start part + i)) 0 sb.blocksize = some off)
    (hm : i * sb.bitsPerBlock ≤ m)
    (hlt : m < i * sb.bitsPerBlock + off * 8 +
      trailingOnes 8 (d (sb.start part + i) off).toNat) : sb.used d part m = true := by
  obtain ⟨-, hoff, hbyte, hbefore⟩ := firstFree_some hfree
  obtain ⟨hk, -, hones⟩ := trailingOnes_byte hbyte
  have hsector : m / sb.bitsPerBlock = i := by
    apply Nat.div_eq_of_lt_le hm
    rw [Nat.succ_mul, bitsPerBlock] at *
    omega
  have hplace := (place_self sb m).1
  rw [hsector] at hplace
  have hbit : m % 8 < 8 := Nat.mod_lt m (by decide)
  rw [used_eq, hsector]
  by_cases heq : m % sb.bitsPerBlock / 8 = off
  · rw [heq]
    exact hones _ (by omega)
  · rw [hbefore _ (Nat.zero_le _) (by omega)]
    exact getLsbD_full _ hbit

theorem findFree_ok (h : sb.findFree io d part i n = (.ok new, d')) :
    new < (i + n) * sb.bitsPerBlock ∧ sb.used d part new = false ∧
      (∀ m, i * sb.bitsPerBlock ≤ m → m < new → sb.used d part m = true) ∧
      sb.Marks part new true d d' := by
  induction n generalizing i with
  | zero => cases h
  | succ n ih =>
    rw [findFree] at h
    split at h
    · cases h
    · split at h
      · next hfull =>
        obtain ⟨hlt, hfree, hbefore, hmarks⟩ := ih h
        refine ⟨by rw [Nat.add_comm n, ← Nat.add_assoc]; exact hlt, hfree, ?_, hmarks⟩
        intro m hm hnew
        by_cases hnext : (i + 1) * sb.bitsPerBlock ≤ m
        · exact hbefore m hnext hnew
        · exact used_full hfull (Nat.div_eq_of_lt_le hm (by omega))
      · next off hfree =>
        obtain ⟨-, hoff, hbyte, -⟩ := firstFree_some hfree
        obtain ⟨hk, hclear, -⟩ := trailingOnes_byte hbyte
        rw [Nat.zero_add] at hoff
        simp only [gt_iff_lt, Nat.not_lt.mpr (Nat.le_of_lt_succ hk), if_false] at h
        split at h
        · cases h
        · next hput =>
          cases h
          have hplace := (place_eq_iff (i := i) hoff hk).mp rfl
          refine ⟨?_, ?_, fun m => used_before hfree,
            marks_put hput hoff hk (getLsbD_or_twoPow _ hk)⟩
          · rw [Nat.add_mul, Nat.add_mul, Nat.one_mul]
            have hbits : sb.bitsPerBlock = 8 * sb.blocksize := rfl
            omega
          · rw [used, bit, bitsPerBlock, hplace.1, hplace.2.1, hplace.2.2]
            exact hclear

theorem findFree_error (h : sb.findFree io d part i n = (.error e, d')) : d' = d := by
  induction n generalizing i with
  | zero =>
    cases h
    rfl
  | succ n ih =>
    rw [findFree] at h
    split at h
    · cases h
      rfl
    · split at h
      · exact ih h
      · dsimp only at h
        split at h
        · cases h
          rfl
        · split at h
          · cases h
            rfl
          · cases h

/-- The search fails for want of space only when every block is used. -/
theorem findFree_enospc (h : sb.findFree io d part i n = (.error .enospc, d')) :
    ∀ m, i * sb.bitsPerBlock ≤ m → m < (i + n) * sb.bitsPerBlock → sb.used d part m = true := by
  induction n generalizing i with
  | zero =>
    intro m hm hlt
    rw [Nat.add_zero] at hlt
    omega
  | succ n ih =>
    rw [findFree] at h
    split at h
    · cases h
    · split at h
      · next hfull =>
        intro m hm hlt
        by_cases hnext : (i + 1) * sb.bitsPerBlock ≤ m
        · apply ih h m hnext
          rw [Nat.add_right_comm, Nat.add_assoc]
          exact hlt
        · exact used_full hfull (Nat.div_eq_of_lt_le hm (by omega))
      · dsimp only at h
        split at h
        · cases h
        · split at h <;> cases h

/-- It fails for another reason only when a sector of the bitmap cannot be read or written. -/
theorem findFree_eio (h : sb.findFree io d part i n = (.error e, d')) (he : e ≠ .enospc) :
    e = .eio ∧ ∃ j, i ≤ j ∧ j < i + n ∧
      (io.read (sb.start part + j) = false ∨ io.write (sb.start part + j) = false) := by
  induction n generalizing i with
  | zero =>
    cases h
    exact absurd rfl he
  | succ n ih =>
    rw [findFree] at h
    split at h
    · next hread =>
      cases h
      exact ⟨rfl, i, Nat.le_refl i, by omega, .inl (by simpa using hread)⟩
    · split at h
      · obtain ⟨heio, j, hle, hlt, hfail⟩ := ih h
        exact ⟨heio, j, by omega, by omega, hfail⟩
      · next off hfree =>
        have hk := (trailingOnes_byte (firstFree_some hfree).2.2.1).1
        simp only [gt_iff_lt, Nat.not_lt.mpr (Nat.le_of_lt_succ hk), if_false] at h
        split at h
        · next hput =>
          cases h
          refine ⟨rfl, i, Nat.le_refl i, by omega, .inr ?_⟩
          rw [Io.put] at hput
          split at hput
          · cases hput
          · next hwrite => simpa using hwrite
        · cases h

theorem takeBlock_ok (h : sb.takeBlock io d part n = (.ok new, d')) :
    new = n ∧ sb.used d part n = false ∧ sb.Marks part n true d d' := by
  obtain ⟨hplace, hoff⟩ := place_self sb n
  have hk : n % 8 < 8 := Nat.mod_lt n (by decide)
  simp only [takeBlock] at h
  split at h
  · cases h
  · split at h
    · cases h
    · next hclear =>
      split at h
      · cases h
      · next hput =>
        cases h
        refine ⟨rfl, (and_twoPow_eq_zero _ hk).mp (not_not.mp hclear), ?_⟩
        have hmarks := marks_put hput hoff hk (getLsbD_or_twoPow _ hk)
        rw [hplace] at hmarks
        exact hmarks

theorem takeBlock_error (h : sb.takeBlock io d part n = (.error e, d')) : d' = d := by
  simp only [takeBlock] at h
  split at h
  · cases h
    rfl
  · split at h
    · cases h
      rfl
    · split at h
      · cases h
        rfl
      · cases h

theorem getNewBlock_ok (h : sb.getNewBlock io d desired = (.ok new, d')) :
    subpart desired.toNat < sb.nSubparts ∧ sb.used d (subpart desired.toNat) new = false ∧
      sb.Marks (subpart desired.toNat) new true d d' ∧
      (bnum desired.toNat ≠ 0 → new = bnum desired.toNat) ∧
      (bnum desired.toNat = 0 →
        new < sb.capacity (subpart desired.toNat) ∧
          ∀ m < new, sb.used d (subpart desired.toNat) m = true) := by
  simp only [getNewBlock] at h
  split at h
  · cases h
  · split at h
    · cases h
    · next hpart =>
      split at h
      · next hwant =>
        obtain ⟨rfl, hfree, hmarks⟩ := takeBlock_ok h
        exact ⟨by omega, hfree, hmarks, fun _ => rfl, fun hzero => absurd hzero hwant⟩
      · next hwant =>
        obtain ⟨hlt, hfree, hbefore, hmarks⟩ := findFree_ok h
        rw [Nat.zero_add] at hlt
        refine ⟨by omega, hfree, hmarks, fun hne => absurd hne hwant, fun _ => ⟨hlt, ?_⟩⟩
        intro m hm
        exact hbefore m (by omega) hm

theorem getNewBlock_error (h : sb.getNewBlock io d desired = (.error e, d')) : d' = d := by
  simp only [getNewBlock] at h
  split at h
  · cases h
    rfl
  · split at h
    · cases h
      rfl
    · split at h
      · exact takeBlock_error h
      · exact findFree_error h

theorem freeBlock_ok {block : Int} (h : sb.freeBlock io d block = (.ok (), d')) :
    sb.Marks (subpart block.toNat) (bnum block.toNat) false d d' := by
  obtain ⟨hplace, hoff⟩ := place_self sb (bnum block.toNat)
  have hk : bnum block.toNat % 8 < 8 := Nat.mod_lt _ (by decide)
  simp only [freeBlock] at h
  split at h
  · cases h
  · split at h
    · cases h
    · split at h
      · cases h
      · split at h
        · split at h
          · cases h
          · next hput =>
            cases h
            have hmarks := marks_put hput hoff hk (getLsbD_and_not_twoPow _ hk)
            rw [hplace] at hmarks
            exact hmarks
        · next hclear =>
          cases h
          have hfree := (and_twoPow_eq_zero _ hk).mp (not_not.mp hclear)
          refine ⟨fun m => ?_, fun s o _ => rfl⟩
          split
          · next hm =>
            rw [hm, used_eq]
            exact hfree
          · rfl

theorem freeBlock_error {block : Int} (h : sb.freeBlock io d block = (.error e, d')) : d' = d := by
  simp only [freeBlock] at h
  repeat' split at h
  all_goals cases h
  all_goals rfl

theorem Marks.undo (hset : sb.Marks part n true d d') (hclear : sb.Marks part n false d' d'')
    (hfree : sb.used d part n = false) : d'' = d := by
  have hused : ∀ m, sb.used d'' part m = sb.used d part m := by
    intro m
    rw [hclear.used, hset.used]
    split
    · next hm => rw [hm, hfree]
    · rfl
  funext s o
  by_cases hplace : s = sb.start part + n / sb.bitsPerBlock ∧ o = n % sb.bitsPerBlock / 8
  · obtain ⟨rfl, rfl⟩ := hplace
    apply BitVec.eq_of_getLsbD_eq
    intro j hj
    -- the bit is that of the block `j` places into the byte
    have hbit := hused (n / sb.bitsPerBlock * sb.bitsPerBlock + n % sb.bitsPerBlock / 8 * 8 + j)
    have hat := (place_eq_iff (i := n / sb.bitsPerBlock) (place_self sb n).2 hj).mp rfl
    simp only [used_eq, bitsPerBlock] at hbit hat ⊢
    rw [hat.1, hat.2.1, hat.2.2] at hbit
    exact hbit
  · rw [hclear.rest s o hplace, hset.rest s o hplace]

variable (sb io d)

/-- Without a wish the first block that is not used is taken; the disk is full only when all blocks
are used, and nothing changes when there is an error. -/
theorem getNewBlock_first_fit (hparts : 0 < sb.nSubparts) :
    (∃ new d', sb.getNewBlock io d 0 = (.ok new, d') ∧ new < sb.capacity 0 ∧
      sb.used d 0 new = false ∧ (∀ m < new, sb.used d 0 m = true) ∧ sb.Marks 0 new true d d') ∨
    (sb.getNewBlock io d 0 = (.error .enospc, d) ∧ ∀ m < sb.capacity 0, sb.used d 0 m = true) ∨
    (sb.getNewBlock io d 0 = (.error .eio, d) ∧ ∃ i < sb.nblocks 0,
      io.read (sb.start 0 + i) = false ∨ io.write (sb.start 0 + i) = false) := by
  have hnew : sb.getNewBlock io d 0 = sb.findFree io d 0 0 (sb.nblocks 0) := by
    simp [getNewBlock, subpart, bnum, Nat.not_le.mpr hparts]
  cases h : sb.getNewBlock io d 0 with
  | mk r d' =>
    cases r with
    | ok new =>
      obtain ⟨-, hfree, hmarks, -, hleast⟩ := getNewBlock_ok h
      exact .inl ⟨new, d', rfl, (hleast rfl).1, hfree, (hleast rfl).2, hmarks⟩
    | error e =>
      cases getNewBlock_error h
      rw [hnew] at h
      by_cases he : e = .enospc
      · subst he
        refine .inr (.inl ⟨rfl, fun m hm => ?_⟩)
        exact findFree_enospc h m (by omega) (by rw [Nat.zero_add]; exact hm)
      · obtain ⟨rfl, j, -, hlt, hfail⟩ := findFree_eio h he
        exact .inr (.inr ⟨rfl, j, by omega, hfail⟩)

/-- A part with one sector of one byte for its bitmap. -/
def tiny : Super where
  blocksize := 1
  blockShift := 0
  nSubparts := 1
  firstSector := fun _ => 0
  size := fun _ => 8
  blocksize_pos := by decide

theorem getNewBlock_first_fit_tiny :
    (∃ new d', tiny.getNewBlock .works (fun _ _ => 0x37) 0 = (.ok new, d') ∧
      new < tiny.capacity 0 ∧ tiny.used (fun _ _ => 0x37) 0 new = false ∧
      (∀ m < new, tiny.used (fun _ _ => 0x37) 0 m = true) ∧
      tiny.Marks 0 new true (fun _ _ => 0x37) d') ∨
    (tiny.getNewBlock .works (fun _ _ => 0x37) 0 = (.error .enospc, fun _ _ => 0x37) ∧
      ∀ m < tiny.capacity 0, tiny.used (fun _ _ => 0x37) 0 m = true) ∨
    (tiny.getNewBlock .works (fun _ _ => 0x37) 0 = (.error .eio, fun _ _ => 0x37) ∧
      ∃ i < tiny.nblocks 0, Io.works.read (tiny.start 0 + i) = false ∨
        Io.works.write (tiny.start 0 + i) = false) :=
  getNewBlock_first_fit tiny .works (fun _ _ => 0x37) (by decide)

example : (tiny.getNewBlock .works (fun _ _ => 0x37) 0).1 = .ok 3 := by
  decide

variable {sb io d}

/-- To free a block that was just taken restores the disk to the byte. -/
theorem freeBlock_undoes {io' : Io} (h : sb.getNewBlock io d desired = (.ok new, d'))
    (hnew : new < 2 ^ 24) (hlong : desired < 2 ^ 31)
    (hfreed : sb.freeBlock io' d' (makeInum new (subpart desired.toNat)) = (.ok (), d'')) :
    d'' = d := by
  obtain ⟨-, hfree, hmarks, -⟩ := getNewBlock_ok h
  have hpart : subpart desired.toNat < 2 ^ 7 := by
    rw [subpart]
    omega
  have hclear := freeBlock_ok hfreed
  rw [makeInum_eq hnew hpart, Int.toNat_natCast, subpart_inum hnew, bnum_inum hnew] at hclear
  exact hmarks.undo hclear hfree

theorem freeBlock_undoes_tiny :
    (tiny.freeBlock .works (tiny.getNewBlock .works (fun _ _ => 0x37) 0).2 (makeInum 3 0)).2 =
      fun _ _ => 0x37 := by
  have htaken : tiny.getNewBlock .works (fun _ _ => 0x37) 0 =
      (.ok 3, (tiny.getNewBlock .works (fun _ _ => 0x37) 0).2) := rfl
  have hfreed : tiny.freeBlock .works (tiny.getNewBlock .works (fun _ _ => 0x37) 0).2
      (makeInum (3 : Nat) (subpart (0 : Int).toNat)) = (.ok (), (tiny.freeBlock .works
        (tiny.getNewBlock .works (fun _ _ => 0x37) 0).2 (makeInum 3 0)).2) := rfl
  exact freeBlock_undoes htaken (by decide) (by decide) hfreed

end Super

end KernelLoader.Ps2fs
