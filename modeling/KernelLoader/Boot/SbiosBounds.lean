import KernelLoader.Boot.CallTable
import KernelLoader.Elf.Containment

namespace KernelLoader.Boot
open Lib Elf
set_option autoImplicit true
set_option relaxedAutoImplicit false

/-- The words the loop over the instructions looks at. -/
def scanReads (m : Mem) : Nat → Nat → Scan → List Nat
  | 0, _, _ => []
  | n + 1, code, s =>
    code :: match scanInstr (word m code) s with
      | (some _, _) => []
      | (none, s) => scanReads m n (u32 (code + 4)) s

/-- The words `getSBIOSCallTable` looks at. -/
def callTableReads (m : Mem) (addr : Nat) : List Nat :=
  addr :: (addr + 4) ::
    if word m (addr + 4) ≠ magicCheck then []
    else
      let entrypoint := relocate (word m addr) addr
      if Scannable entrypoint then scanReads m numberOfInstructionsChecked entrypoint .start else []

/-- The words one round of the search looks at. -/
def roundReads (m : Mem) (sbiosbin i : Nat) : List Nat :=
  (sbiosbin + 4 * i) ::
    if word m (sbiosbin + 4 * i) ≠ magicCheck then []
    else callTableReads m (sbiosbin + 4 * (i - 1))

/-- The table found in a round of the search, which does not depend on the rounds before. -/
def tableAt (m : Mem) (sbiosbin i : Nat) : Option Nat := (searchWord m sbiosbin i ⟨false, 0, []⟩).1

/-- The words the search for the call table looks at. -/
def searchReads (m : Mem) (sbiosbin size : Nat) : List Nat :=
  (upToFirst (tableAt m sbiosbin) (List.range' 1 (size / 4 - 1))).flatMap (roundReads m sbiosbin)

/-- The words `disableSBIOSCalls` writes. -/
def disabledEntries (enabled : Nat → Bool) (table : Nat) : List Nat :=
  ((List.range numberOfSbiosCalls).filter fun i => !enabled i).map fun i => u32 (table + 4 * i)

theorem searchWord_table (m : Mem) (sbiosbin i : Nat) (s : Search) :
    (searchWord m sbiosbin i s).1 = tableAt m sbiosbin i := by
  unfold tableAt searchWord
  split_ifs <;> rfl

theorem searchTable_eq (m : Mem) (sbiosbin size : Nat) : (searchTable m sbiosbin size).1 =
    (List.range' 1 (size / 4 - 1)).findSome? (tableAt m sbiosbin) := by
  unfold searchTable
  rw [forEach_uniform (I := fun _ => True) (tableAt m sbiosbin)
    (fun i s => (searchWord m sbiosbin i s).2)
    (fun i s _ => Prod.ext (searchWord_table m sbiosbin i s) rfl) (fun _ _ _ => trivial) _ trivial]

section Footprint
variable {m m' : Mem}

theorem scanCode_congr {fuel code : Nat} {s : Scan}
    (h : ∀ a ∈ scanReads m fuel code s, word m' a = word m a) :
    scanCode m' fuel code s = scanCode m fuel code s := by
  induction fuel generalizing code s with
  | zero => rfl
  | succ fuel ih =>
    rw [scanReads] at h
    rw [scanCode, scanCode, h code List.mem_cons_self]
    cases hs : scanInstr (word m code) s with
    | mk r s' =>
      cases r with
      | some jumpBase => rfl
      | none =>
        rw [hs] at h
        exact ih fun a ha => h a (List.mem_cons_of_mem _ ha)

theorem getSBIOSCallTable_congr {addr : Nat}
    (h : ∀ a ∈ callTableReads m addr, word m' a = word m a) :
    getSBIOSCallTable m' addr = getSBIOSCallTable m addr := by
  have hentry : word m' addr = word m addr := h addr (by simp [callTableReads])
  have hmagic : word m' (addr + 4) = word m (addr + 4) := h _ (by simp [callTableReads])
  rw [getSBIOSCallTable, getSBIOSCallTable, hentry, hmagic]
  by_cases hm : word m (addr + 4) = magicCheck
  · rw [if_neg (not_not.mpr hm), if_neg (not_not.mpr hm)]
    by_cases hs : Scannable (relocate (word m addr) addr)
    · have hscan : scanCode m' numberOfInstructionsChecked (relocate (word m addr) addr) .start =
          scanCode m numberOfInstructionsChecked (relocate (word m addr) addr) .start :=
        scanCode_congr fun a ha => h a (by simp [callTableReads, hm, hs, ha])
      simp only [jumpBaseOf, if_pos hs, hscan]
    · simp only [jumpBaseOf, if_neg hs]
  · rw [if_pos hm, if_pos hm]

theorem searchWord_congr {bin i : Nat} (h : ∀ a ∈ roundReads m bin i, word m' a = word m a)
    (s : Search) : searchWord m' bin i s = searchWord m bin i s := by
  have hmagic : word m' (bin + 4 * i) = word m (bin + 4 * i) := h _ (by simp [roundReads])
  rw [searchWord, searchWord, hmagic]
  by_cases hm : word m (bin + 4 * i) = magicCheck
  · rw [if_neg (not_not.mpr hm), if_neg (not_not.mpr hm),
      getSBIOSCallTable_congr fun a ha => h a (by simp [roundReads, hm, ha])]
  · rw [if_pos hm, if_pos hm]

theorem searchTable_congr {bin size : Nat}
    (h : ∀ a ∈ searchReads m bin size, word m' a = word m a) :
    searchTable m' bin size = searchTable m bin size := by
  have hround : ∀ i ∈ upToFirst (tableAt m bin) (List.range' 1 (size / 4 - 1)), ∀ s,
      searchWord m' bin i s = searchWord m bin i s := fun i hi s =>
    searchWord_congr (fun a ha => h a (List.mem_flatMap.mpr ⟨i, hi, ha⟩)) s
  exact forEach_congr (searchWord_table m bin) hround _

theorem cleared_iff {enabled : Nat → Bool} {table a : Nat} : Cleared enabled table a ↔
    ∃ p ∈ disabledEntries enabled table, ∃ i < 4, phys (p + i) = a := by
  simp [Cleared, disabledEntries, and_assoc]

end Footprint

/-- The word lies in the static buffer. -/
def SbiosEnv.InBuffer (env : SbiosEnv) (a : Nat) : Prop :=
  env.sbiosbin ≤ phys a ∧ phys a + 4 ≤ env.sbiosbin + maxSbiosSize
  deriving Decidable

/-- The word of the SBIOS at `x` lies in the area that is copied to the buffer. -/
def InImage (x : Nat) : Prop :=
  phys sbiosStartAddress ≤ phys x ∧ phys x + 4 ≤ phys sbiosStartAddress + maxSbiosSize
  deriving Decidable

theorem inBuffer_relocate {env : SbiosEnv}
    (hbin : 0x1000 ≤ env.sbiosbin ∧ env.sbiosbin + maxSbiosSize ≤ 2 ^ 29) (x k o : Nat) :
    env.InBuffer (relocate x (env.sbiosbin + k) + o) ↔ InImage (x + k + o) := by
  unfold SbiosEnv.InBuffer InImage relocate sub32 u32 phys sbiosStartAddress maxSbiosSize at *
  omega

/-- The instruction that ends the scan. -/
def EndsScan (v : Nat) : Prop := opOf v = 0 ∧ functOf v = 9 ∧ rtOf v = 0
  deriving Decidable

theorem scanInstr_ends {v : Nat} (h : EndsScan v) (s : Scan) :
    scanInstr v s = (some (s.load (rsOf v)), s) := by
  obtain ⟨h1, h2, h3⟩ := h
  unfold scanInstr
  rw [h1, h2, h3]
  rfl

theorem scanInstr_goes_on {v : Nat} (h : ¬EndsScan v) (s : Scan) :
    scanInstr v s = (none, (scanInstr v s).2) := by
  refine Prod.ext ?_ rfl
  unfold EndsScan at h
  unfold scanInstr
  split_ifs with h1 h2 h3 h4 h5 h6 h7
  · rfl
  · rfl
  · rfl
  · rfl
  · rfl
  · exact absurd ⟨h4, h7.1, h7.2⟩ h
  · rfl
  · rfl
  · rfl

/-- The scan of the code at `code` comes to its instruction `j`. -/
def Reaches (m : Mem) (code j : Nat) : Prop :=
  Scannable code ∧ j < numberOfInstructionsChecked ∧ ∀ k < j, ¬EndsScan (word m (code + 4 * k))

/-- What is known of the registers after `j` instructions. -/
def scanned (m : Mem) (code j : Nat) (s : Scan) : Scan :=
  (List.range j).foldl (fun s k => (scanInstr (word m (code + 4 * k)) s).2) s

/-- The register of the first `jalr` was loaded from `ea`. -/
def JumpsFrom (m : Mem) (code ea : Nat) : Prop :=
  ∃ j, Reaches m code j ∧ EndsScan (word m (code + 4 * j)) ∧
    (scanned m code j .start).load (rsOf (word m (code + 4 * j))) = ea

theorem scanned_succ (m : Mem) (code j : Nat) (s : Scan) : scanned m code (j + 1) s =
    scanned m (code + 4) j (scanInstr (word m code) s).2 := by
  unfold scanned
  rw [List.range_succ_eq_map, List.foldl_cons, List.foldl_map]
  simp only [Nat.mul_zero, Nat.add_zero, Nat.succ_eq_add_one, Nat.mul_add, Nat.mul_one,
    Nat.add_assoc, Nat.add_comm 4]

theorem mem_scanReads {m : Mem} {fuel code a : Nat} (hc : code + 4 * fuel < 2 ^ 32) (s : Scan) :
    a ∈ scanReads m fuel code s ↔
      ∃ j < fuel, (∀ k < j, ¬EndsScan (word m (code + 4 * k))) ∧ a = code + 4 * j := by
  induction fuel generalizing code s with
  | zero => simp [scanReads]
  | succ fuel ih =>
    rw [scanReads, List.mem_cons]
    have hnext : u32 (code + 4) = code + 4 := u32_of_lt (by omega)
    have hshift (k : Nat) : code + 4 * (k + 1) = code + 4 + 4 * k := by omega
    by_cases he : EndsScan (word m code)
    · rw [scanInstr_ends he]
      constructor
      · rintro (rfl | ha)
        · exact ⟨0, Nat.succ_pos fuel, fun k hk => absurd hk (Nat.not_lt_zero k), rfl⟩
        · exact absurd ha List.not_mem_nil
      · rintro ⟨j, hj, hk, rfl⟩
        cases j with
        | zero => exact .inl rfl
        | succ j => exact absurd he (hk 0 (Nat.succ_pos j))
    · rw [scanInstr_goes_on he, hnext, ih (by omega)]
      constructor
      · rintro (rfl | ⟨j, hj, hk, rfl⟩)
        · exact ⟨0, Nat.succ_pos fuel, fun k hk => absurd hk (Nat.not_lt_zero k), rfl⟩
        · refine ⟨j + 1, Nat.succ_lt_succ hj, Nat.forall_lt_succ_left.mpr ⟨he, ?_⟩, by omega⟩
          intro k hkj
          rw [hshift]
          exact hk k hkj
      · rintro ⟨j, hj, hk, rfl⟩
        cases j with
        | zero => exact .inl rfl
        | succ j =>
          refine .inr ⟨j, Nat.lt_of_succ_lt_succ hj, fun k hkj => ?_, by omega⟩
          rw [← hshift]
          exact hk (k + 1) (Nat.succ_lt_succ hkj)

theorem scanCode_iff {m : Mem} {fuel code ea : Nat} (hc : code + 4 * fuel < 2 ^ 32) (hea : ea ≠ 0)
    (s : Scan) : scanCode m fuel code s = ea ↔
      ∃ j < fuel, (∀ k < j, ¬EndsScan (word m (code + 4 * k))) ∧ EndsScan (word m (code + 4 * j)) ∧
        (scanned m code j s).load (rsOf (word m (code + 4 * j))) = ea := by
  induction fuel generalizing code s with
  | zero =>
    constructor
    · rintro rfl
      exact absurd rfl hea
    · rintro ⟨j, hj, -⟩
      exact absurd hj (Nat.not_lt_zero j)
  | succ fuel ih =>
    rw [scanCode]
    have hnext : u32 (code + 4) = code + 4 := u32_of_lt (by omega)
    have hshift (k : Nat) : code + 4 * (k + 1) = code + 4 + 4 * k := by omega
    by_cases he : EndsScan (word m code)
    · rw [scanInstr_ends he]
      constructor
      · intro h
        exact ⟨0, Nat.succ_pos fuel, fun k hk => absurd hk (Nat.not_lt_zero k), he, h⟩
      · rintro ⟨j, hj, hk, hend, h⟩
        cases j with
        | zero => exact h
        | succ j => exact absurd he (hk 0 (Nat.succ_pos j))
    · rw [scanInstr_goes_on he, hnext, ih (by omega)]
      constructor
      · rintro ⟨j, hj, hk, hend, h⟩
        refine ⟨j + 1, Nat.succ_lt_succ hj, Nat.forall_lt_succ_left.mpr ⟨he, ?_⟩, ?_, ?_⟩
        · intro k hkj
          rw [hshift]
          exact hk k hkj
        · rw [hshift]
          exact hend
        · rw [hshift, scanned_succ]
          exact h
      · rintro ⟨j, hj, hk, hend, h⟩
        cases j with
        | zero => exact absurd hend he
        | succ j =>
          rw [hshift] at hend h
          rw [scanned_succ] at h
          refine ⟨j, Nat.lt_of_succ_lt_succ hj, fun k hkj => ?_, hend, h⟩
          rw [← hshift]
          exact hk (k + 1) (Nat.succ_lt_succ hkj)

section Search
variable {m : Mem}

theorem jumpBaseOf_iff {code ea : Nat} (hea : ea ≠ 0) :
    jumpBaseOf m code = ea ↔ JumpsFrom m code ea := by
  unfold jumpBaseOf
  by_cases hs : Scannable code
  · have hc : code + 4 * numberOfInstructionsChecked < 2 ^ 32 := hs
    rw [if_pos hs, scanCode_iff hc hea]
    constructor
    · rintro ⟨j, hj, hk, hend, hload⟩
      exact ⟨j, ⟨hs, hj, hk⟩, hend, hload⟩
    · rintro ⟨j, ⟨-, hj, hk⟩, hend, hload⟩
      exact ⟨j, hj, hk, hend, hload⟩
  · rw [if_neg hs]
    constructor
    · rintro rfl
      exact absurd rfl hea
    · rintro ⟨j, ⟨hs', -⟩, -⟩
      exact absurd hs' hs

/-- The entry code the magic in word `i` of the buffer belongs to. -/
def entryAt (m : Mem) (sbiosbin i : Nat) : Nat :=
  relocate (word m (sbiosbin + 4 * (i - 1))) (sbiosbin + 4 * (i - 1))

theorem getSBIOSCallTable_found {addr : Nat} (hm : word m (addr + 4) = magicCheck)
    (h0 : jumpBaseOf m (relocate (word m addr) addr) ≠ 0) : getSBIOSCallTable m addr =
      (relocate (jumpBaseOf m (relocate (word m addr) addr)) addr, []) := by
  rw [getSBIOSCallTable, if_neg (not_not.mpr hm)]
  exact if_pos h0

theorem getSBIOSCallTable_not_found {addr : Nat} (hm : word m (addr + 4) = magicCheck)
    (h0 : jumpBaseOf m (relocate (word m addr) addr) = 0) :
    getSBIOSCallTable m addr = (0, ["SBIOS call table not found."]) := by
  rw [getSBIOSCallTable, if_neg (not_not.mpr hm)]
  exact if_neg (not_not.mpr h0)

theorem getSBIOSCallTable_iff {addr table : Nat} (hm : word m (addr + 4) = magicCheck)
    (ht : table ≠ 0) : (getSBIOSCallTable m addr).1 = table ↔
      ∃ ea, JumpsFrom m (relocate (word m addr) addr) ea ∧ ea ≠ 0 ∧ relocate ea addr = table := by
  by_cases h0 : jumpBaseOf m (relocate (word m addr) addr) = 0
  · rw [getSBIOSCallTable_not_found hm h0]
    constructor
    · intro h
      exact absurd h.symm ht
    · rintro ⟨ea, hj, hea, -⟩
      exact absurd (((jumpBaseOf_iff hea).mpr hj).symm.trans h0) hea
  · rw [getSBIOSCallTable_found hm h0]
    constructor
    · intro h
      exact ⟨_, (jumpBaseOf_iff h0).mp rfl, h0, h⟩
    · rintro ⟨ea, hj, hea, h⟩
      rw [(jumpBaseOf_iff hea).mpr hj]
      exact h

/-- The table found for the magic in word `i`. -/
def TableFrom (m : Mem) (sbiosbin i ea : Nat) : Prop :=
  JumpsFrom m (entryAt m sbiosbin i) ea ∧ ea ≠ 0 ∧ relocate ea (sbiosbin + 4 * (i - 1)) ≠ 0

theorem tableAt_eq_some {bin i table : Nat} (hi : 1 ≤ i) : tableAt m bin i = some table ↔
    word m (bin + 4 * i) = magicCheck ∧
      ∃ ea, TableFrom m bin i ea ∧ relocate ea (bin + 4 * (i - 1)) = table := by
  have hword : bin + 4 * (i - 1) + 4 = bin + 4 * i := by omega
  unfold tableAt searchWord
  by_cases hm : word m (bin + 4 * i) = magicCheck
  · rw [if_neg (not_not.mpr hm)]
    rw [← hword] at hm
    simp only
    constructor
    · intro h
      split_ifs at h with h0
      obtain ⟨ea, hj, hea, ht⟩ := (getSBIOSCallTable_iff hm h0).mp rfl
      refine ⟨hword ▸ hm, ea, ⟨hj, hea, ht ▸ h0⟩, ?_⟩
      rw [ht]
      exact Option.some.inj h
    · rintro ⟨-, ea, ⟨hj, hea, h0⟩, rfl⟩
      rw [(getSBIOSCallTable_iff hm h0).mpr ⟨ea, hj, hea, rfl⟩, if_pos h0]
  · rw [if_pos hm]
    constructor
    · intro h
      cases h
    · rintro ⟨hm', -⟩
      exact absurd hm' hm

theorem tableAt_eq_none {bin i : Nat} (hi : 1 ≤ i) : tableAt m bin i = none ↔
    (word m (bin + 4 * i) = magicCheck → ∀ ea, ¬TableFrom m bin i ea) := by
  rw [Option.eq_none_iff_forall_ne_some]
  constructor
  · intro h hm ea ht
    exact h _ ((tableAt_eq_some hi).mpr ⟨hm, ea, ht, rfl⟩)
  · intro h table ht
    obtain ⟨hm, ea, hea, -⟩ := (tableAt_eq_some hi).mp ht
    exact h hm ea hea

/-- The search looks at the entry code for the magic in word `i`. -/
structure Tried (m : Mem) (sbiosbin size i : Nat) : Prop where
  pos : 1 ≤ i
  lt : i < size / 4
  magic : word m (sbiosbin + 4 * i) = magicCheck
  first : ∀ k, 1 ≤ k → k < i → word m (sbiosbin + 4 * k) = magicCheck →
    ∀ ea, ¬TableFrom m sbiosbin k ea

theorem mem_rounds {bin size i : Nat} :
    i ∈ upToFirst (tableAt m bin) (List.range' 1 (size / 4 - 1)) ↔
      1 ≤ i ∧ i < size / 4 ∧ ∀ k, 1 ≤ k → k < i → word m (bin + 4 * k) = magicCheck →
        ∀ ea, ¬TableFrom m bin k ea := by
  rw [mem_upToFirst_range']
  constructor
  · rintro ⟨h1, h2, h3⟩
    exact ⟨h1, by omega, fun k hk hki => (tableAt_eq_none hk).mp (h3 k hk hki)⟩
  · rintro ⟨h1, h2, h3⟩
    exact ⟨h1, by omega, fun k hk hki => (tableAt_eq_none hk).mpr (h3 k hk hki)⟩

theorem mem_callTableReads {addr a : Nat} (hm : word m (addr + 4) = magicCheck) :
    a ∈ callTableReads m addr ↔ a = addr ∨ a = addr + 4 ∨
      ∃ j, Reaches m (relocate (word m addr) addr) j ∧
        a = relocate (word m addr) addr + 4 * j := by
  rw [callTableReads, if_neg (not_not.mpr hm), List.mem_cons, List.mem_cons]
  simp only
  refine or_congr_right (or_congr_right ?_)
  by_cases hs : Scannable (relocate (word m addr) addr)
  · rw [if_pos hs, mem_scanReads hs]
    constructor
    · rintro ⟨j, hj, hk, rfl⟩
      exact ⟨j, ⟨hs, hj, hk⟩, rfl⟩
    · rintro ⟨j, ⟨-, hj, hk⟩, rfl⟩
      exact ⟨j, hj, hk, rfl⟩
  · rw [if_neg hs]
    constructor
    · intro h
      exact absurd h List.not_mem_nil
    · rintro ⟨j, ⟨hs', -⟩, -⟩
      exact absurd hs' hs

theorem searchTable_eq_some {bin size table : Nat} :
    (searchTable m bin size).1 = some table ↔
      ∃ i ea, Tried m bin size i ∧ TableFrom m bin i ea ∧
        relocate ea (bin + 4 * (i - 1)) = table := by
  rw [searchTable_eq, findSome?_range']
  constructor
  · rintro ⟨i, hi, hlt, hsome, hnone⟩
    obtain ⟨hm, ea, ht, he⟩ := (tableAt_eq_some hi).mp hsome
    exact ⟨i, ea, ⟨hi, by omega, hm, fun k hk hki => (tableAt_eq_none hk).mp (hnone k hk hki)⟩,
      ht, he⟩
  · rintro ⟨i, ea, h, ht, he⟩
    have hlt := h.lt
    exact ⟨i, h.pos, by omega, (tableAt_eq_some h.pos).mpr ⟨h.magic, ea, ht, he⟩,
      fun k hk hki => (tableAt_eq_none hk).mpr (h.first k hk hki)⟩

end Search

/-- Everything `load_sbios` reads of the image and everything `disableSBIOSCalls` writes lies in
the buffer. -/
def Contained (env : SbiosEnv) (m : Mem) (size : Nat) : Prop :=
  (∀ a ∈ searchReads m env.sbiosbin size, env.InBuffer a) ∧
    ∀ table, (searchTable m env.sbiosbin size).1 = some table →
      ∀ a ∈ disabledEntries env.enabled table, env.InBuffer a

/-- The entry code up to its first `jalr` and the disabled entries of the call table have addresses
in the image, for every magic the search comes to. -/
structure EntriesInside (env : SbiosEnv) (m : Mem) (size : Nat) : Prop where
  code : ∀ i j, Tried m env.sbiosbin size i → Reaches m (entryAt m env.sbiosbin i) j →
    InImage (word m (env.sbiosbin + 4 * (i - 1)) + 4 * (i - 1) + 4 * j)
  table : ∀ i ea n, Tried m env.sbiosbin size i → TableFrom m env.sbiosbin i ea →
    n < numberOfSbiosCalls → env.enabled n = false → InImage (ea + 4 * (i - 1) + 4 * n)

theorem copySbios_size {env : SbiosEnv} {sbios n size : Nat} {buffer : Option Nat} {b b' : Loader}
    (h : copySbios env sbios n buffer b = (some size, b')) : size < maxSbiosSize := by
  unfold copySbios at h
  split_ifs at h with hb hs
  · split at h
    · cases h
    · rename_i s hc
      have hacc := (checkSections_accepts _ _ _).mp (congrArg Prod.fst hc)
      have hhigh := hacc.highest (.fresh b.mem)
      rw [hc] at hhigh
      obtain ⟨hlo, hhi⟩ := hacc.imageEnd_bounds
      obtain ⟨rfl, -⟩ := Prod.mk.inj h |>.imp_left Option.some.inj
      simp only at hhigh
      rw [hhigh]
      simp only [SbiosEnv.checkArgs, CheckArgs.phys, physAddr_eq, sbiosStartAddress] at hlo hhi ⊢
      unfold sub32 maxSbiosSize at *
      omega
  · cases h
  · obtain ⟨hsize, -⟩ := Prod.mk.inj h
    obtain rfl := Option.some.inj hsize
    omega

theorem SbiosImage.size_lt {last size : Nat} {env : SbiosEnv} {b b' : Loader}
    (h : SbiosImage last env b size b') : size < maxSbiosSize := by
  obtain ⟨sbios, n, b1, -, hc⟩ := h
  exact copySbios_size hc

section Containment
variable {env : SbiosEnv} {m : Mem} {size : Nat}

theorem SbiosEnv.inBuffer_word (hbin : env.sbiosbin + maxSbiosSize ≤ 2 ^ 29)
    (hsize : size < maxSbiosSize) {i : Nat} (hi : i < size / 4) :
    env.InBuffer (env.sbiosbin + 4 * i) := by
  unfold InBuffer phys
  omega

theorem searchReads_inBuffer
    (hbin : 0x1000 ≤ env.sbiosbin ∧ env.sbiosbin + maxSbiosSize ≤ 2 ^ 29)
    (hsize : size < maxSbiosSize) :
    (∀ a ∈ searchReads m env.sbiosbin size, env.InBuffer a) ↔
      ∀ i j, Tried m env.sbiosbin size i → Reaches m (entryAt m env.sbiosbin i) j →
        InImage (word m (env.sbiosbin + 4 * (i - 1)) + 4 * (i - 1) + 4 * j) := by
  have hcode (i j : Nat) := inBuffer_relocate hbin (word m (env.sbiosbin + 4 * (i - 1)))
    (4 * (i - 1)) (4 * j)
  constructor
  · intro h i j hi hj
    have hword : env.sbiosbin + 4 * (i - 1) + 4 = env.sbiosbin + 4 * i := by
      have := hi.pos
      omega
    have hround : entryAt m env.sbiosbin i + 4 * j ∈ roundReads m env.sbiosbin i := by
      rw [roundReads, if_neg (not_not.mpr hi.magic)]
      exact List.mem_cons_of_mem _
        ((mem_callTableReads (hword ▸ hi.magic)).mpr (.inr (.inr ⟨j, hj, rfl⟩)))
    have hrounds := mem_rounds.mpr ⟨hi.pos, hi.lt, hi.first⟩
    exact (hcode i j).mp (h _ (List.mem_flatMap.mpr ⟨i, hrounds, hround⟩))
  · intro h a ha
    obtain ⟨i, hi, hround⟩ := List.mem_flatMap.mp ha
    obtain ⟨hpos, hlt, hfirst⟩ := mem_rounds.mp hi
    have hword : env.sbiosbin + 4 * (i - 1) + 4 = env.sbiosbin + 4 * i := by omega
    rw [roundReads] at hround
    by_cases hm : word m (env.sbiosbin + 4 * i) = magicCheck
    · rw [if_neg (not_not.mpr hm), List.mem_cons, mem_callTableReads (hword ▸ hm)] at hround
      rcases hround with rfl | rfl | rfl | ⟨j, hj, rfl⟩
      · exact SbiosEnv.inBuffer_word hbin.2 hsize hlt
      · exact SbiosEnv.inBuffer_word hbin.2 hsize (by omega)
      · rw [hword]
        exact SbiosEnv.inBuffer_word hbin.2 hsize hlt
      · exact (hcode i j).mpr (h i j ⟨hpos, hlt, hm, hfirst⟩ hj)
    · rw [if_pos hm, List.mem_singleton] at hround
      subst hround
      exact SbiosEnv.inBuffer_word hbin.2 hsize hlt

theorem SbiosEnv.inBuffer_u32 (a : Nat) : env.InBuffer (u32 a) ↔ env.InBuffer a := by
  unfold InBuffer phys u32
  omega

theorem disabledEntries_inBuffer
    (hbin : 0x1000 ≤ env.sbiosbin ∧ env.sbiosbin + maxSbiosSize ≤ 2 ^ 29) (ea k : Nat) :
    (∀ a ∈ disabledEntries env.enabled (relocate ea (env.sbiosbin + k)), env.InBuffer a) ↔
      ∀ n < numberOfSbiosCalls, env.enabled n = false → InImage (ea + k + 4 * n) := by
  have hentry (n : Nat) := inBuffer_relocate hbin ea k (4 * n)
  constructor
  · intro h n hn he
    refine (hentry n).mp ((SbiosEnv.inBuffer_u32 _).mp (h _ (List.mem_map.mpr ⟨n, ?_, rfl⟩)))
    exact List.mem_filter.mpr ⟨List.mem_range.mpr hn, by rw [he, Bool.not_false]⟩
  · intro h a ha
    obtain ⟨n, hn, rfl⟩ := List.mem_map.mp ha
    obtain ⟨hlt, he⟩ := List.mem_filter.mp hn
    exact (SbiosEnv.inBuffer_u32 _).mpr ((hentry n).mpr
      (h n (List.mem_range.mp hlt) (by simpa using he)))

theorem contained_iff
    (hbin : 0x1000 ≤ env.sbiosbin ∧ env.sbiosbin + maxSbiosSize ≤ 2 ^ 29)
    (hsize : size < maxSbiosSize) : Contained env m size ↔ EntriesInside env m size := by
  have hreads := searchReads_inBuffer (m := m) hbin hsize
  have hwrites (ea k : Nat) := disabledEntries_inBuffer hbin ea k
  constructor
  · rintro ⟨hr, hw⟩
    refine ⟨hreads.mp hr, fun i ea n hi ht hn he => ?_⟩
    have htable := searchTable_eq_some.mpr ⟨i, ea, hi, ht, rfl⟩
    exact (hwrites ea _).mp (hw _ htable) n hn he
  · rintro ⟨hcode, htable⟩
    refine ⟨hreads.mpr hcode, fun table ht => ?_⟩
    obtain ⟨i, ea, hi, hfrom, rfl⟩ := searchTable_eq_some.mp ht
    exact (hwrites ea _).mpr fun n hn he => htable i ea n hi hfrom hn he

/-- `load_sbios` stays in its buffer exactly when the entry code of the image up to its first
`jalr`, and the entries of disabled calls, have addresses in the image. The search depends on no
other words than those listed as read, and exactly those listed as written become zero. -/
theorem loadSbios_contained (last : Nat) (env : SbiosEnv) (b : Loader) (size : Nat) (b' : Loader)
    (hbin : 0x1000 ≤ env.sbiosbin ∧ env.sbiosbin + maxSbiosSize ≤ 2 ^ 29)
    (himage : SbiosImage last env b size b') :
    (Contained env b'.mem size ↔ EntriesInside env b'.mem size) ∧
      (∀ m, (∀ a ∈ searchReads b'.mem env.sbiosbin size, word m a = word b'.mem a) →
        searchTable m env.sbiosbin size = searchTable b'.mem env.sbiosbin size) ∧
      ∀ table m a,
        ((∃ p ∈ disabledEntries env.enabled table, ∃ i < 4, phys (p + i) = a) →
          disableSBIOSCalls env.enabled table m a = 0) ∧
        ((¬∃ p ∈ disabledEntries env.enabled table, ∃ i < 4, phys (p + i) = a) →
          disableSBIOSCalls env.enabled table m a = m a) := by
  refine ⟨contained_iff hbin himage.size_lt, fun m => searchTable_congr, fun table m a => ?_⟩
  rw [← cleared_iff]
  exact disableSBIOSCalls_clears env.enabled table m a

end Containment

theorem smallSbios_tried {i : Nat} (h : Tried smallSbiosEnv.image.mem 0x300000 24 i) : i = 1 := by
  have hall : ∀ i < 6, 1 ≤ i → word smallSbiosEnv.image.mem (0x300000 + 4 * i) = magicCheck →
      i = 1 := by decide +kernel
  exact hall i h.lt h.pos h.magic

theorem smallSbios_ends :
    entryAt smallSbiosEnv.image.mem smallSbiosEnv.sbiosbin 1 = 0x300008 ∧
      EndsScan (word smallSbiosEnv.image.mem (0x300008 + 4 * 2)) := by
  decide +kernel

theorem smallSbios_reaches {j : Nat} (h : Reaches smallSbiosEnv.image.mem 0x300008 j) : j ≤ 2 := by
  by_contra hj
  exact h.2.2 2 (by omega) smallSbios_ends.2

theorem loadSbios_contained_small :
    Contained smallSbiosEnv smallSbiosEnv.image.mem 24 := by
  have himage : SbiosImage 0x500000 smallSbiosEnv (.start 0) 24 smallSbiosEnv.image :=
    ⟨0x580000, 24, _, Prod.ext (by decide +kernel) rfl, Prod.ext (by decide +kernel) rfl⟩
  refine (loadSbios_contained 0x500000 smallSbiosEnv (.start 0) 24 _ (by decide) himage).1.mpr
    ⟨?_, ?_⟩
  · intro i j hi hj
    obtain rfl := smallSbios_tried hi
    have hcode : ∀ j ≤ 2, InImage (word smallSbiosEnv.image.mem 0x300000 + 4 * 0 + 4 * j) := by
      decide +kernel
    exact hcode j (smallSbios_reaches (smallSbios_ends.1 ▸ hj))
  · rintro i ea n hi ⟨⟨j, hj, hend, hload⟩, -, -⟩ hn he
    obtain rfl := smallSbios_tried hi
    rw [smallSbios_ends.1] at hj hend hload
    have hend' : ∀ j ≤ 2, EndsScan (word smallSbiosEnv.image.mem (0x300008 + 4 * j)) → j = 2 := by
      decide +kernel
    obtain rfl := hend' j (smallSbios_reaches hj) hend
    have hsource : (scanned smallSbiosEnv.image.mem 0x300008 2 .start).load
        (rsOf (word smallSbiosEnv.image.mem (0x300008 + 4 * 2))) = 0x80001014 := by decide +kernel
    obtain rfl := hsource.symm.trans hload
    have hentry : ∀ n < numberOfSbiosCalls, smallSbiosEnv.enabled n = false →
        InImage (0x80001014 + 4 * 0 + 4 * n) := by decide +kernel
    exact hentry n hn he

/-- The entry point is behind the buffer. -/
def farCodeEnv : SbiosEnv := sampleEnv 8 (wordsOf [0x80020000, magicCheck])

/-- The call table is behind the buffer. -/
def farTableEnv : SbiosEnv :=
  sampleEnv 20 (wordsOf [0x80001008, magicCheck, 0x3c038001, 0x8c620000, 0x0040f809])

/-- Two images that are accepted: code is read behind the buffer, and a word behind the buffer is
set to zero. -/
theorem loadSbios_leaves_buffer :
    (SbiosImage 0x500000 farCodeEnv (.start 0) 8 farCodeEnv.image ∧
        ¬Contained farCodeEnv farCodeEnv.image.mem 8) ∧
      SbiosImage 0x500000 farTableEnv (.start 0) 20 farTableEnv.image ∧
        ¬Contained farTableEnv farTableEnv.image.mem 20 := by
  refine ⟨⟨?_, ?_⟩, ?_, ?_⟩
  · exact ⟨0x580000, 8, _, Prod.ext (by decide +kernel) rfl, Prod.ext (by decide +kernel) rfl⟩
  · intro h
    have hbin : 0x1000 ≤ farCodeEnv.sbiosbin ∧ farCodeEnv.sbiosbin + maxSbiosSize ≤ 2 ^ 29 := by
      decide
    have hcode := (searchReads_inBuffer hbin (by decide)).mp h.1
    have htried : Tried farCodeEnv.image.mem 0x300000 8 1 :=
      ⟨by decide, by decide, by decide +kernel, fun k hk hk' => by omega⟩
    have hentry : Scannable (entryAt farCodeEnv.image.mem 0x300000 1) ∧
        ¬InImage (word farCodeEnv.image.mem 0x300000 + 4 * 0 + 4 * 0) := by decide +kernel
    exact hentry.2 (hcode 1 0 htried
      ⟨hentry.1, by decide, fun k hk => absurd hk (Nat.not_lt_zero k)⟩)
  · exact ⟨0x580000, 20, _, Prod.ext (by decide +kernel) rfl, Prod.ext (by decide +kernel) rfl⟩
  · intro h
    have htable : (searchTable farTableEnv.image.mem 0x300000 20).1 = some 0x30f000 := by
      decide +kernel
    have hentry : 0x30f000 ∈ disabledEntries farTableEnv.enabled 0x30f000 := by decide +kernel
    exact absurd (h.2 _ htable _ hentry) (by decide)

end KernelLoader.Boot
