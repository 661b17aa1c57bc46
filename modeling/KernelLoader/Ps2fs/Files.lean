import KernelLoader.Ps2fs.Inode

namespace KernelLoader.Ps2fs
open Lib.Alloc Lib.Bitmap
set_option autoImplicit true
set_option relaxedAutoImplicit false

/-- The disk and the inodes of a mounted file system. -/
structure Files where
  disk : Disk
  files : Nat → Option Inode

/-- What can be asked of the file system. -/
inductive Op
  | newInode (k : Nat) (memory : Bool)
  | getBlock (k : Nat) (iblock : Int) (create : Bool)
  | truncate (k size : Nat)
  | deleteInode (k : Nat)

namespace Files

def put (s : Files) (k : Nat) (f : Option Inode) (d : Disk) : Files :=
  ⟨d, fun j => if j = k then f else s.files j⟩

def step (sb : Super) (io : Io) (s : Files) : Op → Files
  | .newInode k memory =>
    match s.files k with
    | some _ => s
    | none =>
      match sb.newInode io s.disk memory with
      | (.ok f, d) => s.put k (some f) d
      | (.error _, d) => s.put k none d
  | .getBlock k iblock create =>
    match s.files k with
    | none => s
    | some f => s.put k (some (sb.getBlock io s.disk f iblock create).2.1)
        (sb.getBlock io s.disk f iblock create).2.2
  | .truncate k size =>
    match s.files k with
    | none => s
    | some f => s.put k (some (sb.truncate io s.disk { f with size }).1)
        (sb.truncate io s.disk { f with size }).2
  | .deleteInode k =>
    match s.files k with
    | none => s
    | some f => s.put k none (sb.deleteInode io s.disk f)

/-- A run in which each operation has reads and writes of its own that fail. -/
def run (sb : Super) (s : Files) (ops : List (Io × Op)) : Files :=
  ops.foldl (fun s op => s.step sb op.1 op.2) s

/-- The blocks of a file with that of its inode -/
def own (s : Files) (k : Nat) : List Nat :=
  match s.files k with
  | none => []
  | some f => f.ino :: f.blocks

/-- A block of the first part that the bitmap marks -/
def Marked (sb : Super) (d : Disk) (n : Nat) : Prop :=
  sb.used d 0 n = true ∧ n < sb.capacity 0

/-- Every file has its own blocks, and they are marked. The bit behind the bitmap is set, because
the bitmap's end is not looked at when a block is asked for. -/
structure Inv (sb : Super) (s : Files) : Prop where
  owned : Owned (Marked sb s.disk) s.own
  packed : ∀ k f, s.files k = some f → f.data.Packed 0 entries
  guard : sb.used s.disk 0 (sb.capacity 0) = true

variable {sb : Super} {io : Io} {s : Files} {k n : Nat} {f f' : Inode} {d d' : Disk}
  {l : List Nat} {memory : Bool}

theorem own_put_other {o : Option Inode} (h : j ≠ k) : (s.put k o d).own j = s.own j := by
  simp [own, put, h]

theorem own_put_none : (s.put k none d).own k = [] := by
  simp [own, put]

theorem Inv.sound (h : s.Inv sb) (hcap : sb.capacity 0 < 2 ^ 24) (hk : s.files k = some f) :
    f.Sound := by
  have hown : s.own k = f.ino :: f.blocks := by rw [own, hk]
  have hused := h.owned.used k
  rw [hown] at hused
  constructor
  · exact h.packed k f hk
  · intro b hb
    have hlt := (hused b (List.mem_cons_of_mem _ hb)).2
    omega
  · have hlt := (hused f.ino List.mem_cons_self).2
    omega

/-- Nothing outside the bitmap of the first part changes. -/
def Inside (sb : Super) (d d' : Disk) : Prop :=
  ∀ x, x < sb.start 0 ∨ sb.start 0 + sb.nblocks 0 ≤ x → d' x = d x

/-- What every operation keeps; no block is lost unless a read or a write fails. -/
structure Kept (sb : Super) (io : Io) (s s' : Files) : Prop where
  inv : s'.Inv sb
  inside : Inside sb s.disk s'.disk
  orphans : (∀ x, io.read x = true ∧ io.write x = true) →
    ∀ n, Orphan (Marked sb s'.disk) s'.own n ↔ Orphan (Marked sb s.disk) s.own n

theorem Inv.kept (h : s.Inv sb) : Kept sb io s s := ⟨h, fun _ _ => rfl, fun _ _ => Iff.rfl⟩

theorem sector_inside (hn : n < sb.capacity 0)
    (hx : x < sb.start 0 ∨ sb.start 0 + sb.nblocks 0 ≤ x) :
    x ≠ sb.start 0 + n / sb.bitsPerBlock := by
  have hlt : n / sb.bitsPerBlock < sb.nblocks 0 :=
    Nat.div_lt_of_lt_mul (Nat.mul_comm _ sb.bitsPerBlock ▸ hn)
  generalize n / sb.bitsPerBlock = q at *
  omega

theorem Inv.same (h : s.Inv sb) (hk : s.files k = o) : Kept sb io s (s.put k o s.disk) := by
  have hput : s.put k o s.disk = s := by
    rw [put]
    congr
    funext j
    split
    · next hj => rw [hj, hk]
    · rfl
  rw [hput]
  exact h.kept

theorem Inv.packed_put {o : Option Inode} (h : s.Inv sb)
    (hpacked : ∀ f, o = some f → f.data.Packed 0 entries) (j : Nat) (g : Inode)
    (hj : (s.put k o d).files j = some g) : g.data.Packed 0 entries := by
  by_cases hjk : j = k
  · simp only [put, hjk, if_true] at hj
    exact hpacked g hj
  · simp only [put, hjk, if_false] at hj
    exact h.packed j g hj

theorem Inv.take (h : s.Inv sb) (hfree : sb.used s.disk 0 n = false) (hn : n < sb.capacity 0)
    (hmarks : sb.Marks 0 n true s.disk d) (hown : (f.ino :: f.blocks).Perm (n :: s.own k))
    (hpacked : f.data.Packed 0 entries) : Kept sb io s (s.put k (some f) d) := by
  have hiff : ∀ m, sb.used d 0 m = true ↔ m = n ∨ sb.used s.disk 0 m = true := by
    intro m
    rw [hmarks.used]
    split
    · next hm => exact iff_of_true rfl (.inl hm)
    · next hm => exact (or_iff_right hm).symm
  have hused : ∀ m, Marked sb d m ↔ m = n ∨ Marked sb s.disk m := by
    intro m
    rw [Marked, Marked, hiff, or_and_right]
    exact or_congr_left (and_iff_left_of_imp fun hm => hm ▸ hn)
  have hunused : ¬ Marked sb s.disk n := by
    intro hm
    rw [hm.1] at hfree
    cases hfree
  have hown' : ((s.put k (some f) d).own k).Perm (n :: s.own k) := by
    simpa [own, put] using hown
  refine ⟨⟨?_, ?_, (hiff _).mpr (.inr h.guard)⟩, ?_,
    fun _ => orphan_take hunused hown' (fun l hl => own_put_other hl) hused⟩
  · exact h.owned.take hunused hown' (fun l hl => own_put_other hl) hused
  · apply h.packed_put
    rintro g ⟨⟩
    exact hpacked
  · intro x hx
    funext o
    exact hmarks.rest x o fun hplace => sector_inside hn hx hplace.1

theorem Inv.release {o : Option Inode} (h : s.Inv sb) (hfreed : sb.Freed io l s.disk d)
    (hown : ((s.put k o d).own k ++ l).Perm (s.own k))
    (hpacked : ∀ f, o = some f → f.data.Packed 0 entries) : Kept sb io s (s.put k o d) := by
  have hused : ∀ m ∈ l, Marked sb s.disk m := fun m hm =>
    h.owned.used k m (hown.mem_iff.mp (List.mem_append_right _ hm))
  refine ⟨⟨?_, ?_, ?_⟩, ?_, fun hio => orphan_release hown (fun l hl => own_put_other hl) ?_⟩
  · apply h.owned.release hown
    · exact fun l hl => own_put_other hl
    · intro b hb hl
      exact ⟨(hfreed.keep b hl).trans hb.1, hb.2⟩
  · exact h.packed_put hpacked
  · change sb.used d 0 _ = true
    rw [hfreed.keep _ fun hl => Nat.lt_irrefl _ (hused _ hl).2]
    exact h.guard
  · intro x hx
    funext o
    exact hfreed.rest x o fun n hn => sector_inside (hused n hn).2 hx
  · intro m
    by_cases hm : m ∈ l
    · have hclear : sb.used d 0 m = false := hfreed.works hio m hm
      exact iff_of_false (fun hmark => absurd (hclear.symm.trans hmark.1) nofun) fun h => h.2 hm
    · have hkeep : sb.used d 0 m = sb.used s.disk 0 m := hfreed.keep m hm
      rw [and_iff_left hm]
      exact and_congr_left' (iff_of_eq (congrArg (· = true) hkeep))

theorem newInode_kept (h : s.Inv sb) (hk : s.files k = none)
    (hnew : sb.newInode io s.disk memory = (.ok f, d)) : Kept sb io s (s.put k (some f) d) := by
  rw [Super.newInode] at hnew
  split at hnew
  · cases hnew
  · split at hnew
    · cases hnew
    · next hget =>
      cases hnew
      obtain ⟨-, hfree, hmarks, -, hleast⟩ := Super.getNewBlock_ok hget
      apply h.take hfree (hleast rfl).1 hmarks
      · simp [own, hk, Inode.blocks, entries, Table.blocks]
      · exact fun j _ _ _ => rfl

theorem newInode_error (hnew : sb.newInode io d memory = (.error e, d')) : d' = d := by
  rw [Super.newInode] at hnew
  split at hnew
  · cases hnew
    rfl
  · split at hnew
    · next hget =>
      cases hnew
      exact Super.getNewBlock_error hget
    · cases hnew

/-- A block that was added is one of the bitmap: it was free, and the bit behind the bitmap is
set. -/
theorem added_kept (h : s.Inv sb) (hk : s.files k = some f)
    (hadded : sb.Added f s.disk (r, f', d)) : Kept sb io s (s.put k (some f') d) := by
  have hown : s.own k = f.ino :: f.blocks := by rw [own, hk]
  cases hadded with
  | error e => exact h.same hk
  | ok new _ _ hfree hmarks hsource hblocks hpacked hbehind hino =>
    have hlt : new < sb.capacity 0 := by
      rcases hsource with hlt | ⟨hpos, hbefore⟩
      · exact hlt
      · have hused := h.owned.used k (new - 1)
          (by rw [hown]; exact List.mem_cons_of_mem _ hbefore)
        have hguard : new ≠ sb.capacity 0 := by
          intro heq
          rw [heq, h.guard] at hfree
          cases hfree
        have hle := hused.2
        omega
    apply h.take hfree hlt hmarks _ hpacked
    rw [hown, hblocks, hino, ← List.cons_append]
    exact List.perm_append_singleton new _

theorem getBlock_kept (h : s.Inv sb) (hcap : sb.capacity 0 < 2 ^ 24) (hk : s.files k = some f)
    (iblock : Int) (create : Bool) :
    Kept sb io s (s.put k (some (sb.getBlock io s.disk f iblock create).2.1)
      (sb.getBlock io s.disk f iblock create).2.2) := by
  have hunit : 0 < 2 ^ sb.blockShift := Nat.two_pow_pos _
  cases iblock with
  | ofNat iblock =>
    cases hblock : f.blocks[iblock / 2 ^ sb.blockShift]? with
    | some b =>
      rw [Int.ofNat_eq_natCast, Super.getBlock_sector sb io s.disk f create hblock]
      exact h.same hk
    | none =>
      have hpast := (Nat.le_div_iff_mul_le hunit).mp (List.getElem?_eq_none_iff.mp hblock)
      exact added_kept h hk (Super.getBlock_added (h.sound hcap hk) hpast create).1
  | negSucc n =>
    rw [Super.getBlock, if_pos (Int.negSucc_lt_zero n)]
    exact h.same hk

theorem truncate_kept (h : s.Inv sb) (hcap : sb.capacity 0 < 2 ^ 24) (hparts : 0 < sb.nSubparts)
    (hk : s.files k = some f) (size : Nat) :
    Kept sb io s (s.put k (some (sb.truncate io s.disk { f with size }).1)
      (sb.truncate io s.disk { f with size }).2) := by
  have hown : s.own k = f.ino :: f.blocks := by rw [own, hk]
  have hsound := h.sound hcap hk
  have hsmall : ∀ b ∈ ({ f with size } : Inode).blocks, b + 1 < 2 ^ 24 := hsound.small
  apply h.release (Super.truncate_freed hparts hsmall)
  · have hcut : (s.put k (some (sb.truncate io s.disk { f with size }).1)
        (sb.truncate io s.disk { f with size }).2).own k =
        f.ino :: f.blocks.take (sb.blocksFor size) := by
      simp only [own, put, if_true, Super.truncate_blocks]
      rfl
    rw [hown, hcut, List.cons_append]
    exact .of_eq (congrArg (f.ino :: ·) (List.take_append_drop (sb.blocksFor size) f.blocks))
  · intro g hg
    cases hg
    exact Super.truncateFrom_packed hsound.packed

theorem deleteInode_kept (h : s.Inv sb) (hcap : sb.capacity 0 < 2 ^ 24) (hparts : 0 < sb.nSubparts)
    (hk : s.files k = some f) :
    Kept sb io s (s.put k none (sb.deleteInode io s.disk f)) := by
  have hown : s.own k = f.ino :: f.blocks := by rw [own, hk]
  have hsound := h.sound hcap hk
  have hsmall : ∀ b ∈ ({ f with size := 0 } : Inode).blocks, b + 1 < 2 ^ 24 := hsound.small
  have hdata : sb.Freed io (f.blocks.drop (sb.blocksFor 0)) s.disk
      (sb.truncate io s.disk { f with size := 0 }).2 := Super.truncate_freed hparts hsmall
  rw [Super.blocksFor_zero, List.drop_zero] at hdata
  apply h.release (hdata.trans (Super.freeBlock_freed hparts hsound.ino))
  · rw [hown, own_put_none, List.nil_append]
    exact List.perm_append_singleton f.ino f.blocks
  · intro g hg
    cases hg

theorem step_kept (h : s.Inv sb) (hcap : sb.capacity 0 < 2 ^ 24) (hparts : 0 < sb.nSubparts)
    (io : Io) (op : Op) : Kept sb io s (s.step sb io op) := by
  cases op with
  | newInode k memory =>
    simp only [step]
    split
    · exact h.kept
    · next hk =>
      split
      · next hnew => exact newInode_kept h hk hnew
      · next hnew =>
        cases newInode_error hnew
        exact h.same hk
  | getBlock k iblock create =>
    simp only [step]
    split
    · exact h.kept
    · next hk => exact getBlock_kept h hcap hk iblock create
  | truncate k size =>
    simp only [step]
    split
    · exact h.kept
    · next hk => exact truncate_kept h hcap hparts hk size
  | deleteInode k =>
    simp only [step]
    split
    · exact h.kept
    · next hk => exact deleteInode_kept h hcap hparts hk

/-- Whatever is done and whatever fails, no block comes to belong to two files or twice to one, no
block of a file becomes free, and nothing outside the bitmap is written. -/
theorem run_owned (h : s.Inv sb) (hcap : sb.capacity 0 < 2 ^ 24) (hparts : 0 < sb.nSubparts)
    (ops : List (Io × Op)) :
    (s.run sb ops).Inv sb ∧ Inside sb s.disk (s.run sb ops).disk := by
  induction ops generalizing s with
  | nil => exact ⟨h, fun _ _ => rfl⟩
  | cons op ops ih =>
    have hstep := step_kept h hcap hparts op.1 op.2
    obtain ⟨hinv, hinside⟩ := ih hstep.inv
    exact ⟨hinv, fun x hx => (hinside x hx).trans (hstep.inside x hx)⟩

/-- A disk with no files whose bytes all have their lowest bit set -/
def blank : Files := ⟨fun _ _ => 1, fun _ => none⟩

theorem blank_inv : blank.Inv .tiny :=
  ⟨⟨fun _ => List.nodup_nil, fun _ _ _ _ h => absurd h List.not_mem_nil,
    fun _ _ h => absurd h List.not_mem_nil⟩, fun _ _ h => (nomatch h), rfl⟩

/-- A file that gets a block and is deleted -/
def briefly : List (Io × Op) :=
  [(.works, .newInode 0 true), (.works, .getBlock 0 0 true), (.works, .deleteInode 0)]

theorem run_owned_blank : (blank.run .tiny briefly).Inv .tiny ∧
    Inside .tiny blank.disk (blank.run .tiny briefly).disk := by
  apply run_owned blank_inv
  · decide
  · decide

/-- As long as reads and writes work no block is lost: the blocks that are marked and belong to no
file are the same after any run. -/
theorem run_loses_nothing (h : s.Inv sb) (hcap : sb.capacity 0 < 2 ^ 24) (hparts : 0 < sb.nSubparts)
    (ops : List (Io × Op)) (hio : ∀ op ∈ ops, ∀ x, op.1.read x = true ∧ op.1.write x = true)
    (n : Nat) : Orphan (Marked sb (s.run sb ops).disk) (s.run sb ops).own n ↔
      Orphan (Marked sb s.disk) s.own n := by
  induction ops generalizing s with
  | nil => exact Iff.rfl
  | cons op ops ih =>
    have hstep := step_kept h hcap hparts op.1 op.2
    have hrest := ih hstep.inv fun o ho => hio o (List.mem_cons_of_mem op ho)
    exact hrest.trans (hstep.orphans (hio op List.mem_cons_self) n)

theorem run_loses_nothing_blank :
    Orphan (Marked .tiny (blank.run .tiny briefly).disk) (blank.run .tiny briefly).own 1 ↔
      Orphan (Marked .tiny blank.disk) blank.own 1 := by
  apply run_loses_nothing blank_inv
  · decide
  · decide
  · simp [briefly, Io.works]

end Files

end KernelLoader.Ps2fs
