import KernelLoader.Lib.Linked
import Mathlib.Data.BitVec
import Mathlib.Tactic.SplitIfs

namespace KernelLoader.Kernel.Sema
open Lib
set_option autoImplicit true
set_option relaxedAutoImplicit false

/-- The memory of the kernel, by the addresses of its words. -/
abbrev Words := BitVec 32 → BitVec 32

def Words.store (m : Words) (a v : BitVec 32) : Words := Function.update m a v

/-- The members of `kernel_sema_t`. -/
inductive Field
  | count | maxCount | initCount | waitThreads | attr | option | next | index | free
  deriving DecidableEq

def Field.offset : Field → BitVec 32
  | count => 0
  | maxCount => 4
  | initCount => 8
  | waitThreads => 12
  | attr => 16
  | option => 20
  | next => 24
  | index => 28
  | free => 32

/-- The address of a member of the structure at an address. -/
def member (s : BitVec 32) (f : Field) : BitVec 32 := s + f.offset

def numberOfSemaphores : Nat := 32

/-- Where the linker puts the array of 32 structures of 36 bytes and the head of the list. -/
structure Layout where
  semaphoreArray : BitVec 32
  semaphoreListHead : BitVec 32
  not_null : 0 < semaphoreArray.toNat
  fits : semaphoreArray.toNat + 1152 ≤ 2 ^ 32
  apart : semaphoreListHead.toNat < semaphoreArray.toNat ∨
    semaphoreArray.toNat + 1152 ≤ semaphoreListHead.toNat

/-- `&semaphoreArray[sid]` -/
def Layout.entry (L : Layout) (sid : BitVec 32) : BitVec 32 := L.semaphoreArray + sid * 36

/-- The argument of `syscallCreateSema`. -/
structure EeSema where
  maxCount : BitVec 32
  initCount : BitVec 32
  waitThreads : BitVec 32
  attr : BitVec 32
  option : BitVec 32

def syscallCreateSema (L : Layout) (sema : EeSema) (m : Words) : BitVec 32 × Words :=
  if sema.initCount.toInt < 0 then (-1, m)
  else
    let s := m L.semaphoreListHead
    if s = 0 then (-1, m)
    else
      let m := m.store L.semaphoreListHead (m (member s .next))
      let m := m.store (member s .count) sema.initCount
      let m := m.store (member s .maxCount) sema.maxCount
      let m := m.store (member s .waitThreads) sema.waitThreads
      let m := m.store (member s .attr) sema.attr
      let m := m.store (member s .option) sema.option
      let m := m.store (member s .free) 0
      let m := m.store (member s .next) 0
      (m (member s .index), m)

def iDeleteSema (L : Layout) (semaId : BitVec 32) (m : Words) : BitVec 32 × Words :=
  if numberOfSemaphores ≤ semaId.toInt then (-1, m)
  else if semaId.toInt < 0 then (-1, m)
  else
    let s := L.entry semaId
    if m (member s .free) ≠ 0 then (-1, m)
    else
      let m := m.store (member s .next) (m L.semaphoreListHead)
      let m := m.store L.semaphoreListHead s
      let m := m.store (member s .free) (-1)
      (semaId, m)

def iWaitSema (L : Layout) (sid : BitVec 32) (m : Words) : BitVec 32 × Words :=
  let count := member (L.entry sid) .count
  if numberOfSemaphores ≤ sid.toNat ∨ (m count).toInt < 0 then (-1, m)
  else if 0 < (m count).toInt then (sid, m.store count (m count - 1))
  else (-2, m)

def iSignalSema (L : Layout) (sid : BitVec 32) (m : Words) : BitVec 32 × Words :=
  let count := member (L.entry sid) .count
  if numberOfSemaphores ≤ sid.toInt ∨ (m count).toInt < 0 then (-1, m)
  else (0, m.store count (m count + 1))

/-- A round of the loop of `init_semaphores`. -/
def initSemaphore (L : Layout) (m : Words) (i : Nat) : Words :=
  let s := L.entry (BitVec.ofNat 32 i)
  let m := m.store (member s .next) (L.entry (BitVec.ofNat 32 (i + 1)))
  let m := m.store (member s .index) (BitVec.ofNat 32 i)
  m.store (member s .free) (-1)

def initSemaphores (L : Layout) (m : Words) : Words :=
  let m := m.store L.semaphoreListHead (L.entry 0)
  let m := (List.range (numberOfSemaphores - 1)).foldl (initSemaphore L) m
  let s := L.entry (BitVec.ofNat 32 (numberOfSemaphores - 1))
  let m := m.store (member s .next) 0
  let m := m.store (member s .index) (BitVec.ofNat 32 (numberOfSemaphores - 1))
  m.store (member s .free) (-1)

/-- A wait is a call of `iWaitSema`: `WaitSema` makes such calls until one does not return -2. -/
inductive Call
  | create (sema : EeSema)
  | delete (semaId : BitVec 32)
  | wait (sid : BitVec 32)
  | signal (sid : BitVec 32)

def exec (L : Layout) : Call → Words → BitVec 32 × Words
  | .create sema => syscallCreateSema L sema
  | .delete semaId => iDeleteSema L semaId
  | .wait sid => iWaitSema L sid
  | .signal sid => iSignalSema L sid

/-- The memory after some calls. -/
def memAfter (L : Layout) (calls : List Call) (m : Words) : Words :=
  calls.foldl (fun m call => (exec L call m).2) m

/-- `WaitSema` with the calls that are made while it has interrupts enabled, once after each
attempt; it has not returned if it still waits in the end. -/
def waitSema (L : Layout) (sid : BitVec 32) : List (List Call) → Words → Option (BitVec 32) × Words
  | [], m =>
    let r := iWaitSema L sid m
    (if r.1 = -2 then none else some r.1, r.2)
  | calls :: between, m =>
    let r := iWaitSema L sid m
    if r.1 = -2 then waitSema L sid between (memAfter L calls r.2) else (some r.1, r.2)

/-- What the callers know of a semaphore that was created and not deleted since. -/
structure Account where
  id : BitVec 32
  initCount : BitVec 32
  maxCount : BitVec 32
  signals : Nat
  waits : Nat

/-- The accounts after a call, by the value that it returned. -/
def record (call : Call) (ret : BitVec 32) (accounts : List Account) : List Account :=
  match call with
  | .create sema =>
    if ret = -1 then accounts else ⟨ret, sema.initCount, sema.maxCount, 0, 0⟩ :: accounts
  | .delete semaId => if ret = -1 then accounts else accounts.filter fun a => a.id ≠ semaId
  | .wait sid =>
    if ret = -1 ∨ ret = -2 then accounts
    else accounts.map fun a => if a.id = sid then { a with waits := a.waits + 1 } else a
  | .signal sid =>
    if ret = -1 then accounts
    else accounts.map fun a => if a.id = sid then { a with signals := a.signals + 1 } else a

structure Sys where
  mem : Words
  accounts : List Account

def Sys.step (L : Layout) (s : Sys) (call : Call) : Sys :=
  let r := exec L call s.mem
  ⟨r.2, record call r.1 s.accounts⟩

def Sys.run (L : Layout) (m : Words) (calls : List Call) : Sys :=
  calls.foldl (Sys.step L) ⟨initSemaphores L m, []⟩

/-- The address of an element of the array. -/
def Layout.node (L : Layout) (i : Nat) : BitVec 32 := L.entry (BitVec.ofNat 32 i)

/-- A member of an element of the array. -/
def Layout.cell (L : Layout) (i : Nat) (f : Field) : BitVec 32 := member (L.node i) f

/-- The list of free entries, the identifiers handed out, and what the next call does. -/
structure Allocated (L : Layout) (s : Sys) : Prop where
  free : ∃ l, Linked 0 L.node (fun i => s.mem (L.cell i .next)) (s.mem L.semaphoreListHead) l ∧
    l.Nodup ∧ ∀ i, i ∈ l ↔ i < 32 ∧ s.mem (L.cell i .free) ≠ 0
  distinct : (s.accounts.map Account.id).Nodup
  create : ∀ sema, (exec L (.create sema) s.mem).1 = -1 ↔
    sema.initCount.toInt < 0 ∨ ∀ i < 32, s.mem (L.cell i .free) = 0
  delete : ∀ id, (exec L (.delete id) s.mem).1 ≠ -1 ↔ id ∈ s.accounts.map Account.id

section Addresses
variable {L : Layout} {m : Words} {f g : Field} {v : BitVec 32}

theorem Field.offset_le (f : Field) : f.offset.toNat ≤ 32 := by
  cases f <;> decide

theorem Field.offset_inj {f g : Field} (h : f.offset.toNat = g.offset.toNat) : f = g := by
  cases f <;> cases g <;> first | rfl | exact absurd h (by decide)

theorem toNat_node (L : Layout) (hi : i < 32) :
    (L.node i).toNat = L.semaphoreArray.toNat + 36 * i := by
  have hfits := L.fits
  rw [Layout.node, Layout.entry, BitVec.toNat_add, BitVec.toNat_mul, BitVec.toNat_ofNat]
  change (L.semaphoreArray.toNat + i % 2 ^ 32 * 36 % 2 ^ 32) % 2 ^ 32 = _
  omega

theorem toNat_cell (L : Layout) (hi : i < 32) (f : Field) :
    (L.cell i f).toNat = L.semaphoreArray.toNat + 36 * i + f.offset.toNat := by
  have hfits := L.fits
  have hoff := f.offset_le
  rw [Layout.cell, member, BitVec.toNat_add, toNat_node L hi]
  omega

theorem cell_inj (hi : i < 32) (hj : j < 32) :
    L.cell i f = L.cell j g ↔ i = j ∧ f = g := by
  constructor
  · intro h
    have hf := f.offset_le
    have hg := g.offset_le
    have hnat := congrArg BitVec.toNat h
    rw [toNat_cell L hi, toNat_cell L hj] at hnat
    have hij : i = j := by omega
    exact ⟨hij, Field.offset_inj (by omega)⟩
  · rintro ⟨rfl, rfl⟩
    rfl

theorem head_ne_cell (hi : i < 32) (f : Field) : L.semaphoreListHead ≠ L.cell i f := by
  intro h
  have hf := f.offset_le
  have hapart := L.apart
  have hnat := congrArg BitVec.toNat h
  rw [toNat_cell L hi] at hnat
  omega

theorem node_ne_null (hi : i < 32) : L.node i ≠ 0 := by
  intro h
  have hpos := L.not_null
  have hnat := congrArg BitVec.toNat h
  rw [toNat_node L hi] at hnat
  change _ = 0 at hnat
  omega

theorem store_cell (hi : i < 32) (hj : j < 32) :
    (m.store (L.cell i f) v) (L.cell j g) = if j = i ∧ g = f then v else m (L.cell j g) := by
  rw [Words.store, Function.update_apply, if_congr (cell_inj hj hi) rfl rfl]

theorem store_cell_head (hi : i < 32) :
    (m.store (L.cell i f) v) L.semaphoreListHead = m L.semaphoreListHead := by
  rw [Words.store, Function.update_of_ne (head_ne_cell hi f)]

theorem store_head_cell (hi : i < 32) :
    (m.store L.semaphoreListHead v) (L.cell i f) = m (L.cell i f) := by
  rw [Words.store, Function.update_of_ne (head_ne_cell hi f).symm]

theorem store_head : (m.store L.semaphoreListHead v) L.semaphoreListHead = v := by
  rw [Words.store, Function.update_self]

theorem entry_eq_node (L : Layout) (sid : BitVec 32) : L.entry sid = L.node sid.toNat := by
  rw [Layout.node, BitVec.ofNat_toNat, BitVec.setWidth_eq]

theorem toNat_lt_iff (sid : BitVec 32) : sid.toNat < 32 ↔ 0 ≤ sid.toInt ∧ sid.toInt < 32 := by
  have hlt := sid.isLt
  rw [BitVec.toInt_eq_toNat_cond]
  split_ifs with h
  · omega
  · omega

end Addresses

section Calls
variable {L : Layout} {m : Words} {sema : EeSema} {id : BitVec 32}

/-- The members of a semaphore that is created. -/
def created (sema : EeSema) (old : Field → BitVec 32) : Field → BitVec 32
  | .count => sema.initCount
  | .maxCount => sema.maxCount
  | .waitThreads => sema.waitThreads
  | .attr => sema.attr
  | .option => sema.option
  | .next => 0
  | .free => 0
  | .initCount => old .initCount
  | .index => old .index

theorem create_failed (h : sema.initCount.toInt < 0 ∨ m L.semaphoreListHead = 0) :
    syscallCreateSema L sema m = (-1, m) := by
  rw [syscallCreateSema]
  cases h with
  | inl h => rw [if_pos h]
  | inr h =>
    rw [if_pos h]
    split_ifs <;> rfl

theorem create_done (hi : i < 32) (hs : m L.semaphoreListHead = L.node i)
    (h0 : ¬ sema.initCount.toInt < 0) :
    (syscallCreateSema L sema m).1 = m (L.cell i .index) ∧
    (syscallCreateSema L sema m).2 L.semaphoreListHead = m (L.cell i .next) ∧
    ∀ j < 32, ∀ f, (syscallCreateSema L sema m).2 (L.cell j f) =
      if j = i then created sema (fun f => m (L.cell i f)) f else m (L.cell j f) := by
  have hcell (f : Field) : member (L.node i) f = L.cell i f := rfl
  rw [syscallCreateSema, if_neg h0, hs, if_neg (node_ne_null hi)]
  simp only [hcell]
  refine ⟨?_, ?_, ?_⟩
  · simp [store_cell hi hi, store_head_cell hi]
  · simp [store_cell_head hi, store_head]
  · intro j hj f
    by_cases hji : j = i
    · subst hji
      cases f <;> simp [store_cell hi hi, store_head_cell hi, created]
    · simp [store_cell hi hj, store_head_cell hj, hji]

/-- The members of a semaphore that is deleted. -/
def deleted (head : BitVec 32) (old : Field → BitVec 32) : Field → BitVec 32
  | .next => head
  | .free => -1
  | f => old f

theorem delete_failed (h : ¬ (id.toNat < 32 ∧ m (L.cell id.toNat .free) = 0)) :
    iDeleteSema L id m = (-1, m) := by
  have hcell : member (L.entry id) .free = L.cell id.toNat .free := by
    rw [entry_eq_node, Layout.cell]
  have hrange := toNat_lt_iff id
  simp only [iDeleteSema, hcell]
  split_ifs with h1 h2 h3
  · rfl
  · rfl
  · rfl
  · rw [numberOfSemaphores] at h1
    exact absurd ⟨hrange.mpr (by omega), not_not.mp h3⟩ h

theorem delete_done (hi : id.toNat < 32) (h0 : m (L.cell id.toNat .free) = 0) :
    (iDeleteSema L id m).1 = id ∧
    (iDeleteSema L id m).2 L.semaphoreListHead = L.node id.toNat ∧
    ∀ j < 32, ∀ f, (iDeleteSema L id m).2 (L.cell j f) =
      if j = id.toNat then deleted (m L.semaphoreListHead) (fun f => m (L.cell id.toNat f)) f
      else m (L.cell j f) := by
  have hcell (f : Field) : member (L.node id.toNat) f = L.cell id.toNat f := rfl
  obtain ⟨hlo, hhi⟩ := (toNat_lt_iff id).mp hi
  rw [iDeleteSema, numberOfSemaphores, if_neg (by omega), if_neg (by omega), entry_eq_node]
  simp only [hcell]
  rw [if_neg (not_not_intro h0)]
  refine ⟨rfl, ?_, ?_⟩
  · simp [store_cell_head hi, store_head]
  · intro j hj f
    by_cases hji : j = id.toNat
    · subst hji
      cases f <;> simp [store_cell hi hi, store_head_cell hi, deleted]
    · simp [store_cell hi hj, store_head_cell hj, hji]

theorem wait_mem (L : Layout) (sid : BitVec 32) (m : Words) :
    (iWaitSema L sid m).2 = m ∨ sid.toNat < 32 ∧
      ∃ v, (iWaitSema L sid m).2 = m.store (L.cell sid.toNat .count) v := by
  have hcell : member (L.entry sid) .count = L.cell sid.toNat .count := by
    rw [entry_eq_node, Layout.cell]
  rw [iWaitSema, hcell]
  split_ifs with h1 h2
  · exact .inl rfl
  · rw [numberOfSemaphores] at h1
    exact .inr ⟨by omega, _, rfl⟩
  · exact .inl rfl

theorem signal_mem (L : Layout) (sid : BitVec 32) (m : Words) :
    (iSignalSema L sid m).2 = m ∨
      ∃ v, (iSignalSema L sid m).2 = m.store (L.cell sid.toNat .count) v := by
  have hcell : member (L.entry sid) .count = L.cell sid.toNat .count := by
    rw [entry_eq_node, Layout.cell]
  rw [iSignalSema, hcell]
  split_ifs with h1
  · exact .inl rfl
  · exact .inr ⟨_, rfl⟩

end Calls

theorem initSemaphore_eq (L : Layout) (m : Words) (i : Nat) : initSemaphore L m i =
    ((m.store (L.cell i .next) (L.node (i + 1))).store (L.cell i .index) (BitVec.ofNat 32 i)).store
      (L.cell i .free) (-1) := rfl

theorem foldl_initSemaphore (L : Layout) (m : Words) (hn : n ≤ 31) :
    let m' := (List.range n).foldl (initSemaphore L) m
    m' L.semaphoreListHead = m L.semaphoreListHead ∧
    ∀ i < n, m' (L.cell i .next) = L.node (i + 1) ∧
      m' (L.cell i .index) = BitVec.ofNat 32 i ∧ m' (L.cell i .free) = -1 := by
  induction n with
  | zero => exact ⟨rfl, fun i hi => absurd hi (Nat.not_lt_zero i)⟩
  | succ n ih =>
    obtain ⟨hhead, hcells⟩ := ih (by omega)
    have hn : n < 32 := by omega
    rw [List.range_succ, List.foldl_concat, initSemaphore_eq]
    refine ⟨?_, ?_⟩
    · simp only [store_cell_head hn]
      exact hhead
    · intro i hi
      have hi32 : i < 32 := by omega
      by_cases hin : i = n
      · subst hin
        simp [store_cell hn hn]
      · simp only [store_cell hn hi32, hin, false_and, if_false]
        exact hcells i (by omega)

theorem initSemaphores_eq (L : Layout) (m : Words) : initSemaphores L m =
    ((((List.range 31).foldl (initSemaphore L) (m.store L.semaphoreListHead (L.node 0))).store
      (L.cell 31 .next) 0).store (L.cell 31 .index) (BitVec.ofNat 32 31)).store
        (L.cell 31 .free) (-1) := rfl

theorem initSemaphores_head (L : Layout) (m : Words) :
    initSemaphores L m L.semaphoreListHead = L.node 0 := by
  have h31 : 31 < 32 := by decide
  have hhead := (foldl_initSemaphore L (m.store L.semaphoreListHead (L.node 0)) (Nat.le_refl 31)).1
  rw [initSemaphores_eq, store_cell_head h31, store_cell_head h31, store_cell_head h31, hhead,
    store_head]

theorem initSemaphores_cell (L : Layout) (m : Words) (hi : i < 32) :
    initSemaphores L m (L.cell i .next) = (if i < 31 then L.node (i + 1) else 0) ∧
    initSemaphores L m (L.cell i .index) = BitVec.ofNat 32 i ∧
    initSemaphores L m (L.cell i .free) = -1 := by
  have h31 : 31 < 32 := by decide
  have hcells := (foldl_initSemaphore L (m.store L.semaphoreListHead (L.node 0)) (Nat.le_refl 31)).2
  rw [initSemaphores_eq]
  by_cases hlast : i = 31
  · subst hlast
    simp [store_cell h31 h31]
  · have hlt : i < 31 := by omega
    simp only [store_cell h31 hi, hlast, false_and, if_false, if_pos hlt]
    exact hcells i hlt

/-- The list of free entries and the accounts of the others. -/
structure Sound (L : Layout) (s : Sys) : Prop where
  free : ∃ l, Linked 0 L.node (fun i => s.mem (L.cell i .next)) (s.mem L.semaphoreListHead) l ∧
    l.Nodup ∧ ∀ i, i ∈ l ↔ i < 32 ∧ s.mem (L.cell i .free) ≠ 0
  index : ∀ i < 32, s.mem (L.cell i .index) = BitVec.ofNat 32 i
  distinct : (s.accounts.map Account.id).Nodup
  allocated : ∀ id, id ∈ s.accounts.map Account.id ↔
    id.toNat < 32 ∧ s.mem (L.cell id.toNat .free) = 0

section Invariant
variable {L : Layout} {s s' : Sys} {sema : EeSema} {id sid : BitVec 32}

theorem sound_init {m : Words} (hmem : s.mem = initSemaphores L m) (hacc : s.accounts = []) :
    Sound L s := by
  have hcell {i : Nat} (hi : i < 32) := initSemaphores_cell L m hi
  constructor
  · rw [hmem, initSemaphores_head]
    refine ⟨List.range' 0 32, ?_, List.nodup_range', ?_⟩
    · apply Linked.range' 0 31
      · intro i _ hi
        rw [(hcell (by omega)).1, if_pos (by omega)]
      · exact (hcell (by decide)).1
    · intro i
      rw [List.mem_range'_1]
      constructor
      · intro hi
        have hlt : i < 32 := by omega
        refine ⟨hlt, ?_⟩
        rw [(hcell hlt).2.2]
        decide
      · intro hi
        omega
  · intro i hi
    rw [hmem]
    exact (hcell hi).2.1
  · rw [hacc]
    exact List.nodup_nil
  · intro id
    rw [hacc, hmem]
    refine iff_of_false List.not_mem_nil ?_
    rintro ⟨hi, hfree⟩
    rw [(hcell hi).2.2] at hfree
    exact absurd hfree (by decide)

theorem Sound.frame (h : Sound L s)
    (hhead : s'.mem L.semaphoreListHead = s.mem L.semaphoreListHead)
    (hcell : ∀ i < 32, ∀ f ≠ .count, s'.mem (L.cell i f) = s.mem (L.cell i f))
    (hids : s'.accounts.map Account.id = s.accounts.map Account.id) : Sound L s' := by
  obtain ⟨l, hlinked, hnodup, hmem⟩ := h.free
  constructor
  · refine ⟨l, ?_, hnodup, ?_⟩
    · rw [hhead]
      apply hlinked.congr
      intro i hi
      exact hcell i ((hmem i).mp hi).1 .next (by decide)
    · intro i
      rw [hmem]
      apply and_congr_right
      intro hi
      rw [hcell i hi .free (by decide)]
  · intro i hi
    rw [hcell i hi .index (by decide), h.index i hi]
  · rw [hids]
    exact h.distinct
  · intro id
    rw [hids, h.allocated]
    apply and_congr_right
    intro hi
    rw [hcell _ hi .free (by decide)]

/-- One entry has new members. It is in the list or among the identifiers, as it is marked, and the
others are where they were. -/
theorem Sound.update (h : Sound L s) {new : Field → BitVec 32} {l : List Nat}
    (hcell : ∀ j < 32, ∀ f, s'.mem (L.cell j f) = if j = i then new f else s.mem (L.cell j f))
    (hi : i < 32) (hindex : new .index = s.mem (L.cell i .index))
    (hlinked : Linked 0 L.node (fun j => s'.mem (L.cell j .next)) (s'.mem L.semaphoreListHead) l)
    (hnodup : l.Nodup)
    (hmem : ∀ j, j ∈ l ↔ if j = i then new .free ≠ 0 else j < 32 ∧ s.mem (L.cell j .free) ≠ 0)
    (hdistinct : (s'.accounts.map Account.id).Nodup)
    (hids : ∀ id, id ∈ s'.accounts.map Account.id ↔
      if id.toNat = i then new .free = 0 else id ∈ s.accounts.map Account.id) : Sound L s' := by
  have hnew (f : Field) : s'.mem (L.cell i f) = new f := by
    rw [hcell i hi, if_pos rfl]
  have hold (j : Nat) (hj : j < 32) (hne : j ≠ i) (f : Field) :
      s'.mem (L.cell j f) = s.mem (L.cell j f) := by
    rw [hcell j hj, if_neg hne]
  refine ⟨⟨l, hlinked, hnodup, ?_⟩, ?_, hdistinct, ?_⟩
  · intro j
    rw [hmem]
    by_cases hj : j = i
    · rw [if_pos hj, hj, hnew, and_iff_right hi]
    · rw [if_neg hj]
      apply and_congr_right
      intro hlt
      rw [hold j hlt hj]
  · intro j hj
    by_cases hji : j = i
    · rw [hji, hnew, hindex, h.index i hi]
    · rw [hold j hj hji, h.index j hj]
  · intro id
    rw [hids]
    by_cases hid : id.toNat = i
    · rw [if_pos hid, hid, hnew, and_iff_right hi]
    · rw [if_neg hid, h.allocated]
      apply and_congr_right
      intro hlt
      rw [hold _ hlt hid]

theorem Sound.free_iff_null (h : Sound L s) :
    s.mem L.semaphoreListHead = 0 ↔ ∀ i < 32, s.mem (L.cell i .free) = 0 := by
  obtain ⟨l, hlinked, _, hmem⟩ := h.free
  rw [hlinked.eq_null_iff fun i hi => node_ne_null ((hmem i).mp hi).1,
    List.eq_nil_iff_forall_not_mem]
  apply forall_congr'
  intro i
  rw [hmem]
  simp

theorem Sound.exists_node (h : Sound L s) (hhead : s.mem L.semaphoreListHead ≠ 0) :
    ∃ i l, i < 32 ∧ s.mem L.semaphoreListHead = L.node i ∧ s.mem (L.cell i .free) ≠ 0 ∧
      Linked 0 L.node (fun i => s.mem (L.cell i .next)) (s.mem (L.cell i .next)) l ∧ i ∉ l ∧
      l.Nodup ∧ ∀ j, j ∈ l ↔ j ≠ i ∧ j < 32 ∧ s.mem (L.cell j .free) ≠ 0 := by
  obtain ⟨l, hlinked, hnodup, hmem⟩ := h.free
  obtain ⟨i, l, rfl, hnode, hrest⟩ := hlinked.exists_cons hhead
  obtain ⟨hnot, hnodup⟩ := List.nodup_cons.mp hnodup
  obtain ⟨hi, hfree⟩ := (hmem i).mp List.mem_cons_self
  refine ⟨i, l, hi, hnode, hfree, hrest, hnot, hnodup, ?_⟩
  intro j
  rw [← hmem, List.mem_cons]
  constructor
  · intro hj
    exact ⟨fun he => hnot (he ▸ hj), .inr hj⟩
  · rintro ⟨hne, he | hj⟩
    · exact absurd he hne
    · exact hj

theorem step_create (L : Layout) (s : Sys) (sema : EeSema) : s.step L (.create sema) =
    ⟨(syscallCreateSema L sema s.mem).2,
      record (.create sema) (syscallCreateSema L sema s.mem).1 s.accounts⟩ := rfl

theorem step_create_failed (h : sema.initCount.toInt < 0 ∨ s.mem L.semaphoreListHead = 0) :
    s.step L (.create sema) = s := by
  rw [step_create, create_failed h]
  rfl

theorem ofNat_ne_error (hi : i < 32) : BitVec.ofNat 32 i ≠ -1 := by
  intro h
  have hnat := congrArg BitVec.toNat h
  rw [BitVec.toNat_ofNat] at hnat
  change i % 2 ^ 32 = 2 ^ 32 - 1 at hnat
  omega

theorem toNat_ofNat_lt (hi : i < 32) : (BitVec.ofNat 32 i).toNat = i := by
  rw [BitVec.toNat_ofNat]
  omega

theorem Sound.create (h : Sound L s) (sema : EeSema) : Sound L (s.step L (.create sema)) := by
  by_cases hfail : sema.initCount.toInt < 0 ∨ s.mem L.semaphoreListHead = 0
  · rw [step_create_failed hfail]
    exact h
  obtain ⟨h0, hhead⟩ := not_or.mp hfail
  obtain ⟨i, l, hi, hnode, hfree, hlinked, hnot, hnodup, hmem⟩ := h.exists_node hhead
  obtain ⟨hret, hhead', hcell⟩ := create_done hi hnode h0
  have hid : (BitVec.ofNat 32 i).toNat = i := toNat_ofNat_lt hi
  rw [step_create, hret, h.index i hi, record, if_neg (ofNat_ne_error hi)]
  apply h.update hcell hi rfl (l := l)
  · show Linked 0 L.node _ ((syscallCreateSema L sema s.mem).2 L.semaphoreListHead) l
    rw [hhead']
    apply hlinked.congr
    intro j hj
    obtain ⟨hne, hj32, _⟩ := (hmem j).mp hj
    exact (hcell j hj32 .next).trans (if_neg hne)
  · exact hnodup
  · intro j
    rw [hmem]
    by_cases hj : j = i
    · simp [hj, created]
    · simp [hj]
  · rw [List.map_cons, List.nodup_cons, h.allocated, hid]
    refine ⟨?_, h.distinct⟩
    rintro ⟨_, hzero⟩
    exact hfree hzero
  · intro id
    rw [List.map_cons, List.mem_cons]
    by_cases hidi : id.toNat = i
    · rw [if_pos hidi]
      exact iff_of_true (.inl (BitVec.eq_of_toNat_eq (hidi.trans hid.symm))) rfl
    · have hne : id ≠ BitVec.ofNat 32 i := fun he => hidi (he ▸ hid)
      rw [if_neg hidi, or_iff_right hne]

theorem step_delete (L : Layout) (s : Sys) (id : BitVec 32) : s.step L (.delete id) =
    ⟨(iDeleteSema L id s.mem).2, record (.delete id) (iDeleteSema L id s.mem).1 s.accounts⟩ := rfl

theorem ne_error_of_lt (hi : id.toNat < 32) : id ≠ -1 := by
  intro h
  rw [h] at hi
  exact absurd hi (by decide)

theorem mem_ids_filter (id id' : BitVec 32) (accounts : List Account) :
    id' ∈ (accounts.filter fun a => a.id ≠ id).map Account.id ↔
      id' ≠ id ∧ id' ∈ accounts.map Account.id := by
  simp only [List.mem_map, List.mem_filter, decide_eq_true_eq]
  constructor
  · rintro ⟨a, ⟨ha, hne⟩, rfl⟩
    exact ⟨hne, a, ha, rfl⟩
  · rintro ⟨hne, a, ha, rfl⟩
    exact ⟨a, ⟨ha, hne⟩, rfl⟩

theorem Sound.delete (h : Sound L s) (id : BitVec 32) : Sound L (s.step L (.delete id)) := by
  by_cases hok : id.toNat < 32 ∧ s.mem (L.cell id.toNat .free) = 0
  · obtain ⟨hi, hzero⟩ := hok
    obtain ⟨l, hlinked, hnodup, hmem⟩ := h.free
    obtain ⟨hret, hhead, hcell⟩ := delete_done hi hzero
    have hnot : id.toNat ∉ l := fun hl => ((hmem _).mp hl).2 hzero
    have hmarked : (-1 : BitVec 32) ≠ 0 := by decide
    rw [step_delete, hret, record, if_neg (ne_error_of_lt hi)]
    apply h.update hcell hi rfl (l := id.toNat :: l)
    · show Linked 0 L.node _ ((iDeleteSema L id s.mem).2 L.semaphoreListHead) _
      rw [hhead]
      apply hlinked.push
      · exact (hcell _ hi .next).trans (if_pos rfl)
      · intro j hj
        have hne : j ≠ id.toNat := fun he => hnot (he ▸ hj)
        exact (hcell j ((hmem j).mp hj).1 .next).trans (if_neg hne)
    · exact List.nodup_cons.mpr ⟨hnot, hnodup⟩
    · intro j
      rw [List.mem_cons, hmem]
      by_cases hj : j = id.toNat
      · rw [if_pos hj]
        exact iff_of_true (.inl hj) hmarked
      · rw [if_neg hj, or_iff_right hj]
    · exact h.distinct.sublist (List.filter_sublist.map Account.id)
    · intro id'
      rw [mem_ids_filter]
      by_cases hid : id'.toNat = id.toNat
      · rw [if_pos hid]
        exact iff_of_false (fun hc => hc.1 (BitVec.eq_of_toNat_eq hid)) hmarked
      · rw [if_neg hid]
        exact and_iff_right fun he => hid (congrArg BitVec.toNat he)
  · rw [step_delete, delete_failed hok]
    exact h

theorem ids_map_of_eq (f : Account → Account) (hf : ∀ a, (f a).id = a.id)
    (accounts : List Account) : (accounts.map f).map Account.id = accounts.map Account.id := by
  rw [List.map_map]
  apply List.map_congr_left
  intro a _
  exact hf a

theorem ids_record_wait (sid ret : BitVec 32) (accounts : List Account) :
    (record (.wait sid) ret accounts).map Account.id = accounts.map Account.id := by
  rw [record]
  split_ifs
  · rfl
  · apply ids_map_of_eq
    intro a
    split_ifs <;> rfl

theorem ids_record_signal (sid ret : BitVec 32) (accounts : List Account) :
    (record (.signal sid) ret accounts).map Account.id = accounts.map Account.id := by
  rw [record]
  split_ifs
  · rfl
  · apply ids_map_of_eq
    intro a
    split_ifs <;> rfl

theorem Sound.store_count (h : Sound L s) (hi : i < 32) {v : BitVec 32}
    (hmem : s'.mem = s.mem.store (L.cell i .count) v)
    (hids : s'.accounts.map Account.id = s.accounts.map Account.id) : Sound L s' := by
  apply h.frame
  · rw [hmem, store_cell_head hi]
  · intro j hj f hf
    rw [hmem, store_cell hi hj, if_neg fun he => hf he.2]
  · exact hids

theorem Sound.same_mem (h : Sound L s) (hmem : s'.mem = s.mem)
    (hids : s'.accounts.map Account.id = s.accounts.map Account.id) : Sound L s' := by
  apply h.frame
  · rw [hmem]
  · intro j _ f _
    rw [hmem]
  · exact hids

theorem Sound.wait (h : Sound L s) (sid : BitVec 32) : Sound L (s.step L (.wait sid)) := by
  have hids := ids_record_wait sid (iWaitSema L sid s.mem).1 s.accounts
  cases wait_mem L sid s.mem with
  | inl hsame => exact h.same_mem hsame hids
  | inr hstore =>
    obtain ⟨hi, v, hv⟩ := hstore
    exact h.store_count hi hv hids

theorem Sound.signal (h : Sound L s)
    (hok : sid.toNat < 32 ∨ (iSignalSema L sid s.mem).2 = s.mem) :
    Sound L (s.step L (.signal sid)) := by
  have hids := ids_record_signal sid (iSignalSema L sid s.mem).1 s.accounts
  cases hok with
  | inl hi =>
    cases signal_mem L sid s.mem with
    | inl hsame => exact h.same_mem hsame hids
    | inr hstore =>
      obtain ⟨v, hv⟩ := hstore
      exact h.store_count hi hv hids
  | inr hsame => exact h.same_mem hsame hids

theorem Sound.toAllocated (h : Sound L s) : Allocated L s := by
  refine ⟨h.free, h.distinct, ?_, ?_⟩
  · intro sema
    rw [← h.free_iff_null]
    constructor
    · intro hret
      by_contra hok
      obtain ⟨h0, hhead⟩ := not_or.mp hok
      obtain ⟨i, l, hi, hnode, _⟩ := h.exists_node hhead
      have hindex : (exec L (.create sema) s.mem).1 = s.mem (L.cell i .index) :=
        (create_done hi hnode h0).1
      rw [hindex, h.index i hi] at hret
      exact ofNat_ne_error hi hret
    · intro hfail
      show (syscallCreateSema L sema s.mem).1 = -1
      rw [create_failed hfail]
  · intro id
    show (iDeleteSema L id s.mem).1 ≠ -1 ↔ _
    rw [h.allocated]
    constructor
    · intro hret
      by_contra hno
      rw [delete_failed hno] at hret
      exact hret rfl
    · rintro ⟨hi, hzero⟩
      rw [(delete_done hi hzero).1]
      exact ne_error_of_lt hi

end Invariant

/-- The identifiers of waits and signals are numbers of the array. -/
def Call.InRange : Call → Prop
  | .create _ => True
  | .delete _ => True
  | .wait sid => sid.toNat < 32
  | .signal sid => sid.toNat < 32

theorem Sound.step {L : Layout} {s : Sys} {call : Call} (h : Sound L s) (hcall : call.InRange) :
    Sound L (s.step L call) := by
  cases call with
  | create sema => exact h.create sema
  | delete id => exact h.delete id
  | wait sid => exact h.wait sid
  | signal sid => exact h.signal (.inl hcall)

theorem run_concat (L : Layout) (m : Words) (calls : List Call) (call : Call) :
    Sys.run L m (calls ++ [call]) = (Sys.run L m calls).step L call := by
  rw [Sys.run, List.foldl_concat]
  rfl

/-- The attempts of `WaitSema` are calls among the others. -/
theorem waitSema_calls (L : Layout) (sid : BitVec 32) (between : List (List Call)) (m : Words) :
    ∃ calls, (waitSema L sid between m).2 = memAfter L calls m ∧
      ∀ call ∈ calls, call = .wait sid ∨ call ∈ between.flatten := by
  induction between generalizing m with
  | nil => exact ⟨[.wait sid], rfl, fun call hc => .inl (List.mem_singleton.mp hc)⟩
  | cons here between ih =>
    rw [waitSema]
    split_ifs with hret
    · obtain ⟨calls, hmem, hcalls⟩ := ih (memAfter L here (iWaitSema L sid m).2)
      refine ⟨.wait sid :: (here ++ calls), ?_, ?_⟩
      · rw [hmem, memAfter, memAfter, memAfter, List.foldl_cons, List.foldl_append]
        rfl
      · intro call hc
        rw [List.mem_cons, List.mem_append] at hc
        rw [List.flatten_cons, List.mem_append]
        obtain rfl | hc | hc := hc
        · exact .inl rfl
        · exact .inr (.inl hc)
        · exact (hcalls call hc).imp_right .inr
    · exact ⟨[.wait sid], rfl, fun call hc => .inl (List.mem_singleton.mp hc)⟩

/-- Creating and deleting keep the list of free entries, whatever is done to the counts. -/
theorem semaphores_allocated (L : Layout) (m : Words) (calls : List Call)
    (h : ∀ call ∈ calls, call.InRange) : Allocated L (Sys.run L m calls) := by
  apply Sound.toAllocated
  induction calls using List.reverseRecOn with
  | nil => exact sound_init rfl rfl
  | append_singleton calls call ih =>
    rw [run_concat]
    apply Sound.step
    · exact ih fun c hc => h c (List.mem_append_left _ hc)
    · exact h call (List.mem_append_right _ List.mem_cons_self)

/-- A place of the variables. -/
def layout : Layout := ⟨0x80010000, 0x80010480, by decide, by decide, by decide⟩

theorem semaphores_allocated_some :
    Allocated layout (Sys.run layout (fun _ => 0)
      [.create ⟨1, 1, 0, 0, 0⟩, .delete 0, .delete (-5), .signal 31, .wait 0]) := by
  apply semaphores_allocated
  simp [Call.InRange]


end KernelLoader.Kernel.Sema
