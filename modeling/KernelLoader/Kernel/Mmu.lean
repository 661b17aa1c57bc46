import KernelLoader.Lib.Tlb
import Mathlib.Logic.Function.Basic

namespace KernelLoader.Kernel
open Lib
set_option autoImplicit true
set_option relaxedAutoImplicit false

def kseg0 : BitVec 32 := 0x80000000

def pageCacheable : BitVec 32 := 3 <<< 3
def pageUncacheable : BitVec 32 := 2 <<< 3
def pageUncacheableAccelerated : BitVec 32 := 7 <<< 3
def pageDirty : BitVec 32 := 1 <<< 2
def pageValid : BitVec 32 := 1 <<< 1
def pageGlobal : BitVec 32 := 1 <<< 0
def pageSpram : BitVec 32 := 1 <<< 31

def page4K : BitVec 32 := 0 <<< 13
def page16K : BitVec 32 := 0x03 <<< 13
def page64K : BitVec 32 := 0x0f <<< 13
def page256K : BitVec 32 := 0x3f <<< 13
def page1M : BitVec 32 := 0xff <<< 13
def page4M : BitVec 32 := 0x3ff <<< 13
def page16M : BitVec 32 := 0xfff <<< 13

/-- Mapped at the end of the memory, for the exception handler. -/
def zeroRegAddress : BitVec 32 := 0x78000

/-- The registers of coprocessor 0 that `tlbwi` reads, and the TLB. -/
structure Cp0 where
  index : Nat
  pageMask : BitVec 32
  entryLo0 : BitVec 32
  entryLo1 : BitVec 32
  entryHi : BitVec 32
  tlb : Nat → Tlb.Entry

def Cp0.tlbwi (c : Cp0) : Cp0 :=
  { c with tlb := Function.update c.tlb c.index ⟨c.pageMask, c.entryHi, c.entryLo0, c.entryLo1⟩ }

def mapMemory (index : Nat) (vaddr paddr1 flags1 paddr2 flags2 pagesize : BitVec 32) (c : Cp0) :
    Cp0 :=
  let pagemask := ~~~((pagesize ||| 0x1fff#32) >>> 1)
  let asid := 0#32
  { c with
    pageMask := pagesize
    index := index
    entryLo0 := (paddr1 &&& pagemask) >>> 6 ||| flags1
    entryLo1 := (paddr2 &&& pagemask) >>> 6 ||| flags2
    entryHi := vaddr &&& (pagemask <<< 1) ||| asid }.tlbwi

def flushTlb (c : Cp0) (entry : Nat) : Cp0 :=
  let pagesize := (page16M ||| 0x1fff#32) + 1#32
  { c with entryHi := kseg0 + BitVec.ofNat 32 entry * pagesize, index := entry }.tlbwi

def flushTlbs (c : Cp0) : Cp0 :=
  (List.range 48).foldl flushTlb { c with pageMask := page16M, entryLo0 := 0, entryLo1 := 0 }

/-- The arguments of a call of `mapMemory`. -/
structure Mapping where
  index : Nat
  vaddr : BitVec 32
  paddr1 : BitVec 32
  flags1 : BitVec 32
  paddr2 : BitVec 32
  flags2 : BitVec 32
  pagesize : BitVec 32

def Mapping.map (c : Cp0) (m : Mapping) : Cp0 :=
  mapMemory m.index m.vaddr m.paddr1 m.flags1 m.paddr2 m.flags2 m.pagesize c

def cached : BitVec 32 := pageCacheable ||| pageDirty ||| pageValid ||| pageGlobal
def uncached : BitVec 32 := pageUncacheable ||| pageDirty ||| pageValid ||| pageGlobal
def accelerated : BitVec 32 := pageUncacheableAccelerated ||| pageDirty ||| pageValid ||| pageGlobal

def spram : Mapping :=
  ⟨0, 0x70000000, 0x0, uncached ||| pageSpram, 0x0, uncached, page4K⟩

/-- The calls of `mmu_init_module` after the first one: the page of the exception handler, the
hardware registers, and the user memory cached, uncached and uncached accelerated. -/
def mappings : List Mapping :=
  [⟨1, 0xffff8000, zeroRegAddress, cached, zeroRegAddress + 0x4000, cached, page16K⟩,
   ⟨2, 0x10000000, 0x10000000, uncached, 0x10001000, pageUncacheable ||| pageValid ||| pageGlobal,
    page4K⟩,
   ⟨3, 0x10002000, 0x10002000, uncached, 0x10003000, uncached, page4K⟩,
   ⟨4, 0x10004000, 0x10004000, uncached, 0x10005000, uncached, page4K⟩,
   ⟨5, 0x10006000, 0x10006000, uncached, 0x10007000, uncached, page4K⟩,
   ⟨6, 0x10008000, 0x10008000, uncached, 0x10009000, uncached, page4K⟩,
   ⟨7, 0x1000a000, 0x1000a000, uncached, 0x1000b000, uncached, page4K⟩,
   ⟨8, 0x1000c000, 0x1000c000, pageUncacheable ||| pageValid ||| pageGlobal, 0x1000d000, uncached,
    page4K⟩,
   ⟨9, 0x1000e000, 0x1000e000, uncached, 0x1000f000, uncached, page4K⟩,
   ⟨10, 0x11000000, 0x11000000, uncached, 0x11010000, pageUncacheable ||| pageDirty ||| pageGlobal,
    page64K⟩,
   ⟨11, 0x12000000, 0x12000000, uncached, 0x12010000, pageUncacheable ||| pageDirty ||| pageGlobal,
    page64K⟩,
   ⟨12, 0x1e000000, 0x1e000000, uncached, 0x1f000000, uncached, page16M⟩,
   ⟨13, 0x80000, 0x80000, cached, 0xc0000, cached, page256K⟩,
   ⟨14, 0x100000, 0x100000, cached, 0x140000, cached, page256K⟩,
   ⟨15, 0x180000, 0x180000, cached, 0x180000, cached, page256K⟩,
   ⟨16, 0x200000, 0x200000, cached, 0x300000, cached, page1M⟩,
   ⟨17, 0x400000, 0x400000, cached, 0x500000, cached, page1M⟩,
   ⟨18, 0x600000, 0x600000, cached, 0x700000, cached, page1M⟩,
   ⟨19, 0x800000, 0x800000, cached, 0xc00000, cached, page4M⟩,
   ⟨20, 0x1000000, 0x1000000, cached, 0x1400000, cached, page4M⟩,
   ⟨21, 0x1800000, 0x1800000, cached, 0x1c00000, cached, page4M⟩,
   ⟨22, 0x20080000, 0x80000, uncached, 0xc0000, uncached, page256K⟩,
   ⟨23, 0x20100000, 0x100000, uncached, 0x140000, uncached, page256K⟩,
   ⟨24, 0x20180000, 0x180000, uncached, 0x180000, uncached, page256K⟩,
   ⟨25, 0x20200000, 0x200000, uncached, 0x300000, uncached, page1M⟩,
   ⟨26, 0x20400000, 0x400000, uncached, 0x500000, uncached, page1M⟩,
   ⟨27, 0x20600000, 0x600000, uncached, 0x700000, uncached, page1M⟩,
   ⟨28, 0x20800000, 0x800000, uncached, 0xc00000, uncached, page4M⟩,
   ⟨29, 0x21000000, 0x1000000, uncached, 0x1400000, uncached, page4M⟩,
   ⟨30, 0x21800000, 0x1800000, uncached, 0x1c00000, uncached, page4M⟩,
   ⟨31, 0x30100000, 0x100000, accelerated, 0x140000, accelerated, page256K⟩,
   ⟨32, 0x30180000, 0x180000, accelerated, 0x1c0000, accelerated, page256K⟩,
   ⟨33, 0x30200000, 0x200000, accelerated, 0x300000, accelerated, page1M⟩,
   ⟨34, 0x30400000, 0x400000, accelerated, 0x500000, accelerated, page1M⟩,
   ⟨35, 0x30600000, 0x600000, accelerated, 0x700000, accelerated, page1M⟩,
   ⟨36, 0x30800000, 0x800000, accelerated, 0xc00000, accelerated, page4M⟩,
   ⟨37, 0x31000000, 0x1000000, accelerated, 0x1400000, accelerated, page4M⟩,
   ⟨38, 0x31800000, 0x1800000, accelerated, 0x1c00000, accelerated, page4M⟩]

/-- The kernel stops in `panic` if its image ends too late. -/
def mmuInitModule (imageEnd : BitVec 32) (c : Cp0) : Option Cp0 :=
  let c := Mapping.map (flushTlbs c) spram
  if kseg0 + zeroRegAddress < imageEnd then none else some (mappings.foldl Mapping.map c)

/-- A part of the address space in which user memory is seen, and how. -/
structure Window where
  first : Nat
  last : Nat
  offset : Nat
  caching : BitVec 3

def windows : List Window :=
  [⟨0x80000, 0x1ffffff, 0, 3⟩, ⟨0x20080000, 0x21ffffff, 0x20000000, 2⟩,
   ⟨0x30100000, 0x31ffffff, 0x30000000, 7⟩]

/-- The address is translated as the windows say, and by one entry only. -/
structure Translated (tlb : Nat → Tlb.Entry) (asid : BitVec 8) (a : BitVec 32) : Prop where
  window : ∀ w ∈ windows, w.first ≤ a.toNat → a.toNat ≤ w.last →
    Tlb.translate 48 tlb asid a = some (.memory (a - BitVec.ofNat 32 w.offset) w.caching true)
  unique : ∀ i < 48, ∀ j < 48, (tlb i).Matches asid a → (tlb j).Matches asid a → i = j

def Mapping.entry (m : Mapping) : Tlb.Entry :=
  let pagemask := ~~~((m.pagesize ||| 0x1fff#32) >>> 1)
  ⟨m.pagesize, m.vaddr &&& (pagemask <<< 1), (m.paddr1 &&& pagemask) >>> 6 ||| m.flags1,
    (m.paddr2 &&& pagemask) >>> 6 ||| m.flags2⟩

namespace Mmu

def flushed (i : Nat) : Tlb.Entry :=
  ⟨page16M, kseg0 + BitVec.ofNat 32 i * ((page16M ||| 0x1fff#32) + 1#32), 0, 0⟩

/-- The entries that are left in the end. -/
def entryAt (i : Nat) : Tlb.Entry :=
  match (spram :: mappings).reverse.find? fun m => m.index = i with
  | some m => m.entry
  | none => flushed i

theorem sized_entryAt : ∀ i < 48, ∃ k < 31, (entryAt i).Sized k := by decide +kernel

theorem disjoint_entryAt : Tlb.Disjoint 48 entryAt := by
  unfold Tlb.Disjoint
  decide +kernel

theorem map_tlb (c : Cp0) (m : Mapping) :
    (Mapping.map c m).tlb = Function.update c.tlb m.index m.entry := by
  simp only [Mapping.map, mapMemory, Cp0.tlbwi, Mapping.entry, BitVec.or_zero]

theorem foldl_map_tlb (ms : List Mapping) (c : Cp0) (i : Nat) :
    (ms.foldl Mapping.map c).tlb i = match ms.reverse.find? fun m => m.index = i with
      | some m => m.entry
      | none => c.tlb i := by
  induction ms using List.reverseRecOn with
  | nil => rfl
  | append_singleton ms m ih =>
    rw [List.foldl_concat, map_tlb, Function.update_apply, List.reverse_concat, List.find?_cons]
    by_cases hm : m.index = i
    · simp [hm]
    · rw [if_neg (Ne.symm hm), ih]
      simp [hm]

theorem foldl_flushTlb (c : Cp0) (hm : c.pageMask = page16M) (h0 : c.entryLo0 = 0)
    (h1 : c.entryLo1 = 0) (n : Nat) :
    let c' := (List.range n).foldl flushTlb c
    (c'.pageMask = page16M ∧ c'.entryLo0 = 0 ∧ c'.entryLo1 = 0) ∧
      ∀ i < n, c'.tlb i = flushed i := by
  induction n with
  | zero => exact ⟨⟨hm, h0, h1⟩, fun i hi => absurd hi (Nat.not_lt_zero i)⟩
  | succ n ih =>
    obtain ⟨⟨hm, h0, h1⟩, ih⟩ := ih
    rw [List.range_succ, List.foldl_concat]
    refine ⟨⟨hm, h0, h1⟩, ?_⟩
    intro i hi
    simp only [flushTlb, Cp0.tlbwi, Function.update_apply]
    by_cases hn : i = n
    · rw [if_pos hn, hm, h0, h1, hn]
      rfl
    · rw [if_neg hn]
      exact ih i (by omega)

theorem tlb_init {imageEnd : BitVec 32} {c c' : Cp0} (h : mmuInitModule imageEnd c = some c') :
    ∀ i < 48, c'.tlb i = entryAt i := by
  intro i hi
  rw [mmuInitModule] at h
  split at h
  · cases h
  · cases h
    have hflush := (foldl_flushTlb
      { c with pageMask := page16M, entryLo0 := 0, entryLo1 := 0 } rfl rfl rfl 48).2 i hi
    have hall := foldl_map_tlb (spram :: mappings) (flushTlbs c) i
    rw [List.foldl_cons, flushTlbs, hflush] at hall
    exact hall

/-- The pages of some entries, one after the other. -/
def pagesOf (entries : List Nat) : List Tlb.Page := entries.flatMap fun i => (entryAt i).pages

/-- The pages of 256 KB that are mapped to the frame before theirs. -/
def wrongPages : List Nat := [0x1c0000, 0x201c0000]

/-- The entries map a window with the right flags, to the right frames up to the wrong pages. -/
structure Covers (w : Window) (entries : List Nat) : Prop where
  small : ∀ i ∈ entries, i < 48 ∧ (entryAt i).spram = false ∧ (entryAt i).global = true
  contiguous : Tlb.Contiguous w.first (pagesOf entries) (w.last + 1)
  flags : ∀ p ∈ pagesOf entries, p.lo.getLsbD 1 = true ∧ p.lo.getLsbD 2 = true ∧
    p.lo.extractLsb' 3 3 = w.caching ∧ p.frame % p.size = 0
  offset : ∀ p ∈ pagesOf entries, w.offset ≤ p.start
  frames : ∀ p ∈ pagesOf entries,
    (p.frame + w.offset = p.start ∧
      ∀ s ∈ wrongPages, p.start + p.size ≤ s ∨ s + 0x40000 ≤ p.start) ∨
    (p.frame + w.offset ≠ p.start ∧ p.start ∈ wrongPages ∧ p.size = 0x40000)

theorem covers_cached : Covers ⟨0x80000, 0x1ffffff, 0, 3⟩ (List.range' 13 9) := by
  constructor <;> decide +kernel

theorem covers_uncached : Covers ⟨0x20080000, 0x21ffffff, 0x20000000, 2⟩ (List.range' 22 9) := by
  constructor <;> decide +kernel

theorem covers_accelerated :
    Covers ⟨0x30100000, 0x31ffffff, 0x30000000, 7⟩ (List.range' 31 8) := by
  constructor <;> decide +kernel

theorem exists_covers (hw : w ∈ windows) : ∃ entries, Covers w entries := by
  rw [windows, List.mem_cons, List.mem_pair] at hw
  rcases hw with rfl | rfl | rfl
  · exact ⟨_, covers_cached⟩
  · exact ⟨_, covers_uncached⟩
  · exact ⟨_, covers_accelerated⟩

section Translation
variable {tlb : Nat → Tlb.Entry} {asid : BitVec 8} {a : BitVec 32} {w : Window}
  {entries : List Nat}

theorem unique_of_eq (htlb : ∀ i < 48, tlb i = entryAt i) (asid : BitVec 8) (a : BitVec 32) :
    ∀ i < 48, ∀ j < 48, (tlb i).Matches asid a → (tlb j).Matches asid a → i = j := by
  intro i hi j hj hmi hmj
  rw [htlb i hi] at hmi
  rw [htlb j hj] at hmj
  exact disjoint_entryAt.unique sized_entryAt hi hj hmi hmj

theorem Covers.translate (h : Covers w entries) (htlb : ∀ i < 48, tlb i = entryAt i)
    (asid : BitVec 8) (hfirst : w.first ≤ a.toNat) (hlast : a.toNat ≤ w.last) :
    ∃ p ∈ pagesOf entries, p.Holds a.toNat ∧ ∃ x : BitVec 32,
      Tlb.translate 48 tlb asid a = some (.memory x w.caching true) ∧
        x.toNat = p.frame + (a.toNat - p.start) := by
  obtain ⟨p, hp, ha⟩ := h.contiguous.exists_holds hfirst (Nat.lt_succ_of_le hlast)
  obtain ⟨i, hi, hpi⟩ := List.mem_flatMap.mp hp
  obtain ⟨hlt, hspram, hglobal⟩ := h.small i hi
  obtain ⟨hvalid, hdirty, hcaching, hframe⟩ := h.flags p hp
  obtain ⟨k, _, hk⟩ := sized_entryAt i hlt
  obtain ⟨x, htarget, hx⟩ := hk.target_of_holds hpi ha hspram hvalid hframe
  refine ⟨p, hp, ha, x, ?_, hx⟩
  have hm : (tlb i).Matches asid a := by
    rw [htlb i hlt]
    exact hk.matches_iff.mpr ⟨Tlb.Entry.holds_of_mem_pages hpi ha, .inl hglobal⟩
  rw [Tlb.translate_of_unique hlt hm fun j hj hmj => unique_of_eq htlb asid a j hj i hlt hmj hm,
    htlb i hlt, htarget, hcaching, hdirty]

theorem toNat_sub_ofNat {d : Nat} (h : d ≤ a.toNat) :
    (a - BitVec.ofNat 32 d).toNat = a.toNat - d := by
  have hlt := a.isLt
  rw [BitVec.toNat_sub, BitVec.toNat_ofNat]
  omega

theorem Covers.right_iff (h : Covers w entries) (htlb : ∀ i < 48, tlb i = entryAt i)
    (asid : BitVec 8) (hfirst : w.first ≤ a.toNat) (hlast : a.toNat ≤ w.last) :
    Tlb.translate 48 tlb asid a = some (.memory (a - BitVec.ofNat 32 w.offset) w.caching true) ↔
      ∀ s ∈ wrongPages, ¬ (s ≤ a.toNat ∧ a.toNat < s + 0x40000) := by
  obtain ⟨p, hp, ⟨hstart, hsize⟩, x, htrans, hx⟩ := h.translate htlb asid hfirst hlast
  have hoff := h.offset p hp
  have hsub := toNat_sub_ofNat (hoff.trans hstart)
  have hright : Tlb.translate 48 tlb asid a =
      some (.memory (a - BitVec.ofNat 32 w.offset) w.caching true) ↔
        p.frame + w.offset = p.start := by
    rw [htrans, Option.some.injEq, Tlb.Target.memory.injEq]
    constructor
    · rintro ⟨he, _⟩
      have hnat := congrArg BitVec.toNat he
      omega
    · intro he
      refine ⟨BitVec.eq_of_toNat_eq ?_, rfl, rfl⟩
      omega
  rw [hright]
  cases h.frames p hp with
  | inl hgood =>
    refine iff_of_true hgood.1 ?_
    rintro t ht ⟨hlo, hhi⟩
    have := hgood.2 t ht
    omega
  | inr hbad =>
    obtain ⟨hne, hmem, hpage⟩ := hbad
    refine iff_of_false hne ?_
    intro hall
    exact hall p.start hmem ⟨hstart, hpage ▸ hsize⟩

theorem wrong_in_window (hs : t ∈ wrongPages) :
    ∃ w ∈ windows, w.first ≤ t ∧ t + 0x40000 ≤ w.last + 1 := by
  rw [wrongPages, List.mem_pair] at hs
  rcases hs with rfl | rfl
  · exact ⟨⟨0x80000, 0x1ffffff, 0, 3⟩, .head _, by decide, by decide⟩
  · exact ⟨⟨0x20080000, 0x21ffffff, 0x20000000, 2⟩, .tail _ (.head _), by decide, by decide⟩

theorem translated_iff (htlb : ∀ i < 48, tlb i = entryAt i) (asid : BitVec 8) (a : BitVec 32) :
    Translated tlb asid a ↔ ∀ s ∈ wrongPages, ¬ (s ≤ a.toNat ∧ a.toNat < s + 0x40000) := by
  constructor
  · rintro h t ht ⟨hlo, hhi⟩
    obtain ⟨w, hw, hfirst, hlast⟩ := wrong_in_window ht
    obtain ⟨entries, hcov⟩ := exists_covers hw
    have hfirst := hfirst.trans hlo
    have hlast : a.toNat ≤ w.last := by omega
    have hright := (hcov.right_iff htlb asid hfirst hlast).mp (h.window w hw hfirst hlast)
    exact hright t ht ⟨hlo, hhi⟩
  · intro h
    refine ⟨?_, unique_of_eq htlb asid a⟩
    intro w hw hfirst hlast
    obtain ⟨entries, hcov⟩ := exists_covers hw
    exact (hcov.right_iff htlb asid hfirst hlast).mpr h

end Translation

/-- Two pages of user memory are seen twice, and the ones behind them not at all. -/
theorem mmu_translated_iff (imageEnd : BitVec 32) (c : Cp0)
    (hend : imageEnd ≤ kseg0 + zeroRegAddress) :
    ∃ c', mmuInitModule imageEnd c = some c' ∧ ∀ (asid : BitVec 8) (a : BitVec 32),
      Translated c'.tlb asid a ↔ ¬ (0x1c0000 ≤ a.toNat ∧ a.toNat ≤ 0x1fffff) ∧
        ¬ (0x201c0000 ≤ a.toNat ∧ a.toNat ≤ 0x201fffff) := by
  have hinit : mmuInitModule imageEnd c = some _ := if_neg (BitVec.not_lt.mpr hend)
  refine ⟨_, hinit, ?_⟩
  intro asid a
  have hpages (P : Nat → Prop) : (∀ s ∈ wrongPages, P s) ↔ P 0x1c0000 ∧ P 0x201c0000 := by
    simp [wrongPages]
  rw [translated_iff (tlb_init hinit), hpages]
  omega

theorem mmu_translated_iff_image :
    ∃ c', mmuInitModule 0x80020000 ⟨0, 0, 0, 0, 0, flushed⟩ = some c' ∧
      ∀ (asid : BitVec 8) (a : BitVec 32), Translated c'.tlb asid a ↔
      ¬ (0x1c0000 ≤ a.toNat ∧ a.toNat ≤ 0x1fffff) ∧
        ¬ (0x201c0000 ≤ a.toNat ∧ a.toNat ≤ 0x201fffff) :=
  mmu_translated_iff 0x80020000 ⟨0, 0, 0, 0, 0, flushed⟩ (by decide)

/-- The last 256 KB of the second megabyte are translated to those before. -/
theorem mmu_page_twice :
    ((mmuInitModule 0x80020000 ⟨0, 0, 0, 0, 0, flushed⟩).map fun c =>
      (Tlb.translate 48 c.tlb 0 0x1c0010, Tlb.translate 48 c.tlb 0 0x201c0010)) =
        some (some (.memory 0x180010 3 true), some (.memory 0x180010 2 true)) := by
  decide +kernel

end Mmu

end KernelLoader.Kernel
