import KernelLoader.Lib.Mask

namespace Lib.Tlb
set_option autoImplicit true
set_option relaxedAutoImplicit false

/-- An entry of a TLB of pairs of pages, in the format of the registers it is written from. -/
structure Entry where
  pageMask : BitVec 32
  entryHi : BitVec 32
  entryLo0 : BitVec 32
  entryLo1 : BitVec 32

/-- What an access to a virtual address is done to. -/
inductive Target
  | memory (address : BitVec 32) (caching : BitVec 3) (writable : Bool)
  | scratchpad (address : BitVec 32) (writable : Bool)
  deriving DecidableEq

namespace Entry

def spram (e : Entry) : Bool := e.entryLo0.getLsbD 31

/-- The bits of an address that are not compared. The scratchpad has 16 KB. -/
def offset (e : Entry) : BitVec 32 := if e.spram then 0x3fff#32 else e.pageMask ||| 0x1fff#32

def global (e : Entry) : Bool := e.entryLo0.getLsbD 0 && e.entryLo1.getLsbD 0

def Matches (e : Entry) (asid : BitVec 8) (a : BitVec 32) : Prop :=
  a &&& ~~~e.offset = e.entryHi &&& ~~~e.offset ∧ (e.global = true ∨ e.entryHi.setWidth 8 = asid)

instance (e : Entry) (asid : BitVec 8) (a : BitVec 32) : Decidable (e.Matches asid a) :=
  inferInstanceAs (Decidable (_ ∧ _))

/-- The even or the odd page. -/
def lo (e : Entry) (a : BitVec 32) : BitVec 32 :=
  if a &&& ((e.offset >>> 1) + 1#32) = 0#32 then e.entryLo0 else e.entryLo1

/-- The page frame number stands in bits 6 to 25, and starts at bit 12 of an address. -/
def target (e : Entry) (a : BitVec 32) : Option Target :=
  let lo := e.lo a
  let page := e.offset >>> 1
  if lo.getLsbD 1 then
    if e.spram then some (.scratchpad (a &&& e.offset) (lo.getLsbD 2))
    else some (.memory (((lo &&& 0x3ffffc0#32) <<< 6) &&& ~~~page ||| a &&& page)
      (lo.extractLsb' 3 3) (lo.getLsbD 2))
  else none

end Entry

/-- The access to an address of a mapped segment, by the first of the `n` entries that match. -/
def translate (n : Nat) (tlb : Nat → Entry) (asid : BitVec 8) (a : BitVec 32) : Option Target :=
  ((List.range n).find? fun i => (tlb i).Matches asid a).bind fun i => (tlb i).target a

/-- A page that an entry maps. -/
structure Page where
  start : Nat
  size : Nat
  lo : BitVec 32

namespace Page

def Holds (p : Page) (a : Nat) : Prop := p.start ≤ a ∧ a < p.start + p.size

/-- The physical address of the page. -/
def frame (p : Page) : Nat := ((p.lo &&& 0x3ffffc0#32) <<< 6).toNat

theorem Holds.div_eq {p : Page} (ha : p.Holds x) (hstart : p.start = 2 ^ k * r)
    (hsize : p.size = 2 ^ k) : x / 2 ^ k = r := by
  rw [Holds, hstart, hsize] at ha
  rw [Nat.div_eq_iff (Nat.two_pow_pos k), Nat.mul_comm r]
  exact ⟨ha.1, Nat.le_sub_one_of_lt ha.2⟩

end Page

namespace Entry
variable {e : Entry} {p : Page} {a : BitVec 32} {asid : BitVec 8}

def start (e : Entry) : Nat := e.entryHi.toNat

def size (e : Entry) : Nat := e.offset.toNat + 1

def pages (e : Entry) : List Page :=
  [⟨e.start, e.size / 2, e.entryLo0⟩, ⟨e.start + e.size / 2, e.size / 2, e.entryLo1⟩]

/-- The mask is one of a pair of pages of `2 ^ k` bytes, and the pair is aligned. -/
def Sized (e : Entry) (k : Nat) : Prop :=
  k < 31 ∧ e.offset = lowMask 32 (k + 1) ∧ e.start % 2 ^ (k + 1) = 0

instance (e : Entry) (k : Nat) : Decidable (e.Sized k) := inferInstanceAs (Decidable (_ ∧ _))

theorem Sized.size_eq (h : e.Sized k) : e.size = 2 * 2 ^ k := by
  rw [size, h.2.1, toNat_lowMask (Nat.le_succ_of_le h.1), Nat.sub_add_cancel (Nat.two_pow_pos _),
    Nat.pow_succ, Nat.mul_comm]

theorem Sized.half_eq (h : e.Sized k) : e.size / 2 = 2 ^ k := by
  rw [h.size_eq, Nat.mul_div_cancel_left _ (by decide)]

theorem Sized.matches_iff (h : e.Sized k) : e.Matches asid a ↔
    (e.start ≤ a.toNat ∧ a.toNat < e.start + e.size) ∧
      (e.global = true ∨ e.entryHi.setWidth 8 = asid) := by
  have hpos : 0 < 2 ^ (k + 1) := Nat.two_pow_pos _
  have hdiv := Nat.div_mul_cancel (Nat.dvd_of_mod_eq_zero h.2.2)
  have hsize : e.size = 2 ^ (k + 1) := by rw [h.size_eq, Nat.pow_succ, Nat.mul_comm]
  rw [Matches, h.2.1, and_not_lowMask_eq_iff, ← start, Nat.div_eq_iff hpos, hdiv, hsize]
  apply and_congr_left
  intro _
  omega

theorem Sized.lo_eq (h : e.Sized k) (a : BitVec 32) :
    e.lo a = if a.toNat / 2 ^ k % 2 = 1 then e.entryLo1 else e.entryLo0 := by
  have hk : k < 32 := Nat.lt_succ_of_lt h.1
  have hne : BitVec.twoPow 32 k ≠ 0#32 := by
    intro hz
    have hbit := congrArg (BitVec.getLsbD · k) hz
    simp [hk] at hbit
  rw [lo, h.2.1, lowMask_shiftRight hk, lowMask_add_one hk, BitVec.and_twoPow, BitVec.getLsbD,
    Nat.testBit_eq_decide_div_mod_eq]
  by_cases hodd : a.toNat / 2 ^ k % 2 = 1
  · simp [hodd, hne]
  · simp [hodd]

theorem Sized.number (h : e.Sized k) (hp : p ∈ e.pages) : ∃ r, p.start = 2 ^ k * r ∧
    p.size = 2 ^ k ∧ p.lo = if r % 2 = 1 then e.entryLo1 else e.entryLo0 := by
  obtain ⟨q, hq⟩ := Nat.dvd_of_mod_eq_zero h.2.2
  have hstart : e.start = 2 ^ k * (2 * q) := by rw [hq, Nat.pow_succ, Nat.mul_assoc]
  rw [pages, h.half_eq, hstart, List.mem_pair] at hp
  cases hp with
  | inl hp =>
    refine ⟨2 * q, ?_, ?_, ?_⟩
    · rw [hp]
    · rw [hp]
    · rw [hp, if_neg (by omega)]
  | inr hp =>
    refine ⟨2 * q + 1, ?_, ?_, ?_⟩
    · rw [hp, Nat.mul_add, Nat.mul_one]
    · rw [hp]
    · rw [hp, if_pos (by omega)]

theorem Sized.lo_of_holds (h : e.Sized k) (hp : p ∈ e.pages) (ha : p.Holds a.toNat) :
    e.lo a = p.lo := by
  obtain ⟨r, hstart, hsize, hlo⟩ := h.number hp
  rw [h.lo_eq, ha.div_eq hstart hsize, hlo]

theorem Sized.mod_of_holds (h : e.Sized k) (hp : p ∈ e.pages) (ha : p.Holds a.toNat) :
    a.toNat % 2 ^ k = a.toNat - p.start := by
  obtain ⟨r, hstart, hsize, _⟩ := h.number hp
  rw [Nat.mod_eq_sub_mul_div, ha.div_eq hstart hsize, hstart]

theorem Sized.target_of_holds (h : e.Sized k) (hp : p ∈ e.pages) (ha : p.Holds a.toNat)
    (hs : e.spram = false) (hv : p.lo.getLsbD 1 = true) (hf : p.frame % p.size = 0) :
    ∃ x : BitVec 32, e.target a = some (.memory x (p.lo.extractLsb' 3 3) (p.lo.getLsbD 2)) ∧
      x.toNat = p.frame + (a.toNat - p.start) := by
  have hk : k < 32 := Nat.lt_succ_of_lt h.1
  have hlo := h.lo_of_holds hp ha
  obtain ⟨_, _, hsize, _⟩ := h.number hp
  refine ⟨((p.lo &&& 0x3ffffc0#32) <<< 6) &&& ~~~lowMask 32 k ||| a &&& lowMask 32 k, ?_, ?_⟩
  · rw [target, hlo, if_pos hv, if_neg (by simp [hs]), h.2.1, lowMask_shiftRight hk]
  · rw [toNat_splice, ← Page.frame, h.mod_of_holds hp ha,
      Nat.mul_div_cancel' (Nat.dvd_of_mod_eq_zero (hsize ▸ hf))]

theorem holds_of_mem_pages (hp : p ∈ e.pages) (ha : p.Holds x) :
    e.start ≤ x ∧ x < e.start + e.size := by
  obtain ⟨hlo, hhi⟩ := ha
  rw [pages, List.mem_pair] at hp
  cases hp with
  | inl hp =>
    subst hp
    simp only at hlo hhi
    omega
  | inr hp =>
    subst hp
    simp only at hlo hhi
    omega

end Entry

section Translation
variable {tlb : Nat → Entry} {asid : BitVec 8} {a : BitVec 32}

/-- No two of the entries overlap. -/
def Disjoint (n : Nat) (tlb : Nat → Entry) : Prop :=
  ∀ i < n, ∀ j < n, i ≠ j → (tlb i).start + (tlb i).size ≤ (tlb j).start ∨
    (tlb j).start + (tlb j).size ≤ (tlb i).start

theorem Disjoint.unique (h : Disjoint n tlb) (hs : ∀ i < n, ∃ k < 31, (tlb i).Sized k)
    (hi : i < n) (hj : j < n) (hmi : (tlb i).Matches asid a) (hmj : (tlb j).Matches asid a) :
    i = j := by
  obtain ⟨k, _, hk⟩ := hs i hi
  obtain ⟨l, _, hl⟩ := hs j hj
  have hai := (hk.matches_iff.mp hmi).1
  have haj := (hl.matches_iff.mp hmj).1
  by_contra hne
  have := h i hi j hj hne
  omega

theorem translate_of_unique (hi : i < n) (hm : (tlb i).Matches asid a)
    (hu : ∀ j < n, (tlb j).Matches asid a → j = i) :
    translate n tlb asid a = (tlb i).target a := by
  have hfind : (List.range n).find? (fun i => (tlb i).Matches asid a) = some i := by
    cases hf : (List.range n).find? (fun i => (tlb i).Matches asid a) with
    | none =>
      have hno := List.find?_eq_none.mp hf i (List.mem_range.mpr hi)
      exact absurd (decide_eq_true hm) hno
    | some j =>
      have hj := List.mem_range.mp (List.mem_of_find?_eq_some hf)
      have hmj := List.find?_some hf
      rw [hu j hj (of_decide_eq_true hmj)]
  rw [translate, hfind, Option.bind_some]

end Translation

/-- Pages that follow one another from one address to another. -/
def Contiguous : Nat → List Page → Nat → Prop
  | lo, [], hi => lo = hi
  | lo, p :: ps, hi => p.start = lo ∧ Contiguous (lo + p.size) ps hi

instance : (lo : Nat) → (ps : List Page) → (hi : Nat) → Decidable (Contiguous lo ps hi)
  | lo, [], hi => inferInstanceAs (Decidable (lo = hi))
  | lo, p :: ps, hi =>
    have := instDecidableContiguous (lo + p.size) ps hi
    inferInstanceAs (Decidable (p.start = lo ∧ Contiguous (lo + p.size) ps hi))

theorem Contiguous.exists_holds {lo hi : Nat} {ps : List Page} (h : Contiguous lo ps hi)
    (hlo : lo ≤ x) (hhi : x < hi) : ∃ p ∈ ps, p.Holds x := by
  induction ps generalizing lo with
  | nil =>
    rw [Contiguous] at h
    omega
  | cons p ps ih =>
    obtain ⟨hstart, hrest⟩ := h
    by_cases hx : x < lo + p.size
    · refine ⟨p, List.mem_cons_self, ?_⟩
      rw [Page.Holds, hstart]
      exact ⟨hlo, hx⟩
    · obtain ⟨q, hq, hholds⟩ := ih hrest (Nat.le_of_not_lt hx)
      exact ⟨q, List.mem_cons_of_mem p hq, hholds⟩

end Lib.Tlb
