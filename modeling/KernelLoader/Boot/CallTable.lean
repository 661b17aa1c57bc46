import KernelLoader.Boot.Loading
import KernelLoader.Boot.Sbios
import KernelLoader.Lib.Mips

namespace KernelLoader.Boot
open Lib Elf
open Lib.Mips (Instr Machine Along)
set_option autoImplicit true
set_option relaxedAutoImplicit false

theorem opOf_eq (v : Nat) : opOf v = Mips.op v := Nat.shiftRight_eq_div_pow v 26

theorem rsOf_eq (v : Nat) : rsOf v = Mips.rs v := by
  rw [rsOf, show 0x1f = 2 ^ 5 - 1 from rfl, and_mask, Nat.shiftRight_eq_div_pow, Mips.rs]

theorem rtOf_eq (v : Nat) : rtOf v = Mips.rt v := by
  rw [rtOf, show 0x1f = 2 ^ 5 - 1 from rfl, and_mask, Nat.shiftRight_eq_div_pow, Mips.rt]

theorem rdOf_eq (v : Nat) : rdOf v = Mips.rd v := by
  rw [rdOf, show 0x1f = 2 ^ 5 - 1 from rfl, and_mask, Nat.shiftRight_eq_div_pow, Mips.rd]

theorem functOf_eq (v : Nat) : functOf v = Mips.funct v := by
  rw [functOf, show 0x3f = 2 ^ 6 - 1 from rfl, and_mask, Mips.funct]

theorem immidiateOf_eq (v : Nat) : immidiateOf v = Mips.signExtend (Mips.imm v) := by
  rw [immidiateOf, show 0xffff = 2 ^ 16 - 1 from rfl, and_mask]
  rfl

/-- What the scan makes of an instruction: a load only notes its address. -/
def Scan.exec (s : Scan) (i : Instr) : Scan :=
  if i.isLoad then s.setLoad i.dest (i.value s.regs) else s.setReg i.dest (i.value s.regs)

theorem u32_u32 (x : Nat) : u32 (u32 x) = u32 x := u32_of_lt (u32_lt x)

theorem Scan.setReg_u32 (s : Scan) (r v : Nat) : s.setReg r (u32 v) = s.setReg r v := by
  rw [setReg, setReg, u32_u32]

theorem Scan.setLoad_u32 (s : Scan) (r v : Nat) : s.setLoad r (u32 v) = s.setLoad r v := by
  rw [setLoad, setLoad, u32_u32]

theorem u32_signExtend_shift (v : Nat) :
    u32 (Mips.signExtend (Mips.imm v) <<< 16) = u32 (Mips.imm v * 2 ^ 16) := by
  rw [Nat.shiftLeft_eq]
  unfold Mips.signExtend u32
  split_ifs <;> omega

theorem scanInstr_decode {v : Nat} {i : Instr} (h : Mips.decode v = some i) (s : Scan) :
    scanInstr v s = (none, s.exec i) := by
  unfold Mips.decode at h
  unfold scanInstr
  rw [opOf_eq, rsOf_eq, rtOf_eq, rdOf_eq, functOf_eq, immidiateOf_eq]
  split_ifs at h with h1 h2 h3 h4 h5 <;> obtain rfl := Option.some.inj h
  · rw [if_pos h1, ← Scan.setReg_u32]
    rfl
  · rw [if_neg h1, if_pos h2.1, if_pos h2.2, ← Scan.setReg_u32, u32_signExtend_shift]
    rfl
  · rw [if_neg h1, if_neg (by omega), if_pos h3.1, if_neg (by omega), if_pos h3.2.2,
      ← Scan.setReg_u32]
    rfl
  · rw [if_neg h1, if_neg (by omega), if_pos h4.1, if_pos h4.2.2]
    rfl
  · rw [if_neg h1, if_neg (by omega), if_neg (by omega), if_pos h5, ← Scan.setLoad_u32]
    rfl

theorem scanInstr_jalr {v r : Nat} (h : Mips.IsJalr v r) (s : Scan) :
    scanInstr v s = (some (s.load r), s) := by
  obtain ⟨h1, h2, h3, rfl⟩ := h
  unfold scanInstr
  rw [opOf_eq, rsOf_eq, rtOf_eq, functOf_eq, h1, h2, h3]
  rfl

/-- The scan knows what the machine knows without memory. -/
structure Scan.Follows (s : Scan) (t : Machine) : Prop where
  zero : t.regs 0 = 0 ∧ t.known 0 = true ∧ t.source 0 = none
  regs : ∀ r, t.known r = true → s.regs r = t.regs r
  load : ∀ r ea, t.source r = some ea → s.load r = ea ∧ ea < 2 ^ 32

theorem Scan.follows_start : Scan.start.Follows .start :=
  ⟨⟨rfl, rfl, rfl⟩, fun _ _ => rfl, fun _ _ h => (nomatch h)⟩

theorem Scan.Follows.value {s : Scan} {t : Machine} (h : s.Follows t) {i : Instr}
    (hk : ∀ r ∈ i.operands, t.known r = true) : i.value s.regs = i.value t.regs :=
  i.value_congr fun r hr => h.regs r (hk r hr)

/-- The instructions the scan treats as the machine does. -/
def Followed (t : Machine) (i : Instr) : Prop := Mips.AddressKnown t i ∧ Mips.ZeroKept t i

theorem Scan.exec_regs (s : Scan) (i : Instr) (r : Nat) : (s.exec i).regs r =
    if i.isLoad = false ∧ r = i.dest then i.value s.regs else s.regs r := by
  unfold exec
  cases hl : i.isLoad with
  | true => simp [setLoad]
  | false => simp [setReg, Function.update_apply, u32_of_lt (i.value_lt _)]

theorem Scan.exec_load (s : Scan) (i : Instr) (r : Nat) : (s.exec i).load r =
    if i.isLoad = true ∧ r = i.dest then i.value s.regs else s.load r := by
  unfold exec
  cases hl : i.isLoad with
  | true => simp [setLoad, Function.update_apply, u32_of_lt (i.value_lt _)]
  | false => simp [setReg]

theorem Scan.Follows.step {s : Scan} {t : Machine} (ld : Nat → Nat) (h : s.Follows t) (i : Instr)
    (hi : Followed t i) : (s.exec i).Follows (t.step ld i) := by
  obtain ⟨haddr, hzero⟩ := hi
  refine ⟨?_, fun r hr => ?_, fun r ea hs => ?_⟩
  · rw [Machine.step_regs, Machine.step_known, Machine.step_source, if_neg (by omega),
      if_neg (by omega), if_neg (by omega)]
    exact h.zero
  · rw [Scan.exec_regs, Machine.step_regs]
    rw [Machine.step_known] at hr
    by_cases hd : r = i.dest
    · cases hl : i.isLoad with
      | true =>
        -- a loaded register is not known, so this is a load to register 0
        have h0 : i.dest = 0 := by
          by_contra hne
          simp [hne, hd, hl] at hr
        simp only [h0, ne_eq, not_true_eq_false, false_and, if_false] at hr
        rw [if_neg (by simp), if_neg (by simp [h0])]
        exact h.regs r hr
      | false =>
        rw [if_pos ⟨rfl, hd⟩]
        by_cases h0 : i.dest = 0
        · obtain ⟨hval, hk⟩ := hzero h0 hl
          rw [if_neg (by simp [h0]), hd, h0, h.zero.1, h.value hk, hval]
        · rw [if_pos ⟨h0, hd⟩, if_neg (by simp)]
          rw [if_pos ⟨h0, hd⟩, hl, Bool.not_false, Bool.true_and, List.all_eq_true] at hr
          exact h.value hr
    · rw [if_neg fun hc => hd hc.2, if_neg fun hc => hd hc.2]
      rw [if_neg fun hc => hd hc.2] at hr
      exact h.regs r hr
  · rw [Scan.exec_load]
    rw [Machine.step_source] at hs
    by_cases hd : i.dest ≠ 0 ∧ r = i.dest
    · rw [if_pos hd] at hs
      split_ifs at hs with hl
      rw [if_pos ⟨hl, hd.2⟩, h.value (haddr hl), ← Option.some.inj hs]
      exact ⟨rfl, i.value_lt _⟩
    · rw [if_neg hd] at hs
      have hr : r ≠ 0 := by
        rintro rfl
        rw [h.zero.2.2] at hs
        cases hs
      rw [if_neg fun hc => hd ⟨by omega, hc.2⟩]
      exact h.load r ea hs

/-- The code at `code`, in the addresses of the loader: instructions, then a `jalr`. -/
def CodeAt (m : Mem) (r : Nat) : Nat → List Instr → Prop
  | code, [] => Mips.IsJalr (word m code) r
  | code, i :: is => Mips.decode (word m code) = some i ∧ CodeAt m r (u32 (code + 4)) is

instance instDecidableCodeAt (m : Mem) (r : Nat) :
    ∀ (code : Nat) (is : List Instr), Decidable (CodeAt m r code is)
  | code, [] => inferInstanceAs (Decidable (Mips.IsJalr (word m code) r))
  | code, _ :: is =>
    have := instDecidableCodeAt m r (u32 (code + 4)) is
    inferInstanceAs (Decidable (_ ∧ _))

theorem scanCode_eq {m : Mem} {r code fuel : Nat} {is : List Instr} (h : CodeAt m r code is)
    (hlen : is.length < fuel) (s : Scan) :
    scanCode m fuel code s = (is.foldl Scan.exec s).load r := by
  induction is generalizing code fuel s with
  | nil =>
    cases fuel with
    | zero => exact absurd hlen (Nat.not_lt_zero _)
    | succ fuel => rw [scanCode, scanInstr_jalr h, List.foldl_nil]
  | cons i is ih =>
    cases fuel with
    | zero => exact absurd hlen (Nat.not_lt_zero _)
    | succ fuel =>
      rw [scanCode, scanInstr_decode h.1, List.foldl_cons]
      exact ih h.2 (Nat.lt_of_succ_lt_succ hlen) _

theorem foldl_exec_load {r : Nat} {is : List Instr} (s : Scan)
    (h : ∀ i ∈ is, ¬(i.isLoad = true ∧ i.dest = r)) : (is.foldl Scan.exec s).load r = s.load r := by
  induction is generalizing s with
  | nil => rfl
  | cons i is ih =>
    rw [List.foldl_cons, ih _ fun j hj => h j (List.mem_cons_of_mem i hj), Scan.exec_load,
      if_neg fun hc => h i List.mem_cons_self ⟨hc.1, hc.2.symm⟩]

/-- `load_sbios` has put an image of `size` bytes into its buffer. -/
def SbiosImage (last : Nat) (env : SbiosEnv) (b : Loader) (size : Nat) (b' : Loader) : Prop :=
  ∃ sbios n b1, openSbios last env (env.cleared b) = (some ⟨some sbios, n⟩, b1) ∧
    copySbios env sbios n (if env.rom.isSome then none else some sbios) b1 = (some size, b')

theorem SbiosImage.loadSbios_eq {last size : Nat} {env : SbiosEnv} {b b' : Loader}
    (h : SbiosImage last env b size b') :
    loadSbios last env b = (some (setupSbios env size b').1, (setupSbios env size b').2) := by
  obtain ⟨sbios, n, b1, ho, hc⟩ := h
  rw [loadSbios, ho]
  simp only [installSbios, hc]

/-- The image has its magic in word `k`; the word before is the address of its entry code, which
ends in a `jalr` to register `r`. -/
structure EntryCode (m : Mem) (sbiosbin k r : Nat) (is : List Instr) : Prop where
  magic : word m (sbiosbin + 4 * k) = magicCheck
  code : CodeAt m r (relocate (word m (sbiosbin + 4 * (k - 1))) sbiosbin) is
  short : is.length < numberOfInstructionsChecked

/-- The SBIOS address belongs to the entry of a disabled call of the table at `ea`. -/
def DisabledEntry (enabled : Nat → Bool) (ea x : Nat) : Prop :=
  ∃ n < numberOfSbiosCalls, enabled n = false ∧ ea + 4 * n ≤ x ∧ x < ea + 4 * n + 4

/-- Of the bytes of the buffer, those that will be entries of disabled calls are zero now; no other
byte has changed. -/
def TableDisabled (env : SbiosEnv) (ea : Nat) (m m' : Mem) : Prop :=
  (∀ o < maxSbiosSize, DisabledEntry env.enabled ea (sbiosStartAddress + o) →
      m' (env.sbiosbin + o) = 0) ∧
    ∀ a, (∀ o < maxSbiosSize, a = env.sbiosbin + o →
      ¬DisabledEntry env.enabled ea (sbiosStartAddress + o)) → m' a = m a

/-- The byte belongs to the entry of a disabled call in a table of the loader. -/
def Cleared (enabled : Nat → Bool) (table a : Nat) : Prop :=
  ∃ n < numberOfSbiosCalls, enabled n = false ∧ ∃ i < 4, phys (u32 (table + 4 * n) + i) = a

theorem foldl_clearWord (enabled : Nat → Bool) (ptr : Nat → Nat) (ns : List Nat) (m : Mem)
    (a : Nat) :
    ((∃ n ∈ ns, enabled n = false ∧ ∃ i < 4, phys (ptr n + i) = a) →
        ns.foldl (fun m n => if enabled n then m else clearWord (ptr n) m) m a = 0) ∧
      ((¬∃ n ∈ ns, enabled n = false ∧ ∃ i < 4, phys (ptr n + i) = a) →
        ns.foldl (fun m n => if enabled n then m else clearWord (ptr n) m) m a = m a) := by
  induction ns generalizing m with
  | nil => exact ⟨fun ⟨n, hn, _⟩ => absurd hn List.not_mem_nil, fun _ => rfl⟩
  | cons n ns ih =>
    obtain ⟨hin, hout⟩ := ih (if enabled n then m else clearWord (ptr n) m)
    rw [List.foldl_cons, List.exists_mem_cons_iff]
    refine ⟨fun hex => ?_, fun hall => ?_⟩
    · by_cases hlater : ∃ n ∈ ns, enabled n = false ∧ ∃ i < 4, phys (ptr n + i) = a
      · exact hin hlater
      · obtain ⟨he, i, hi, rfl⟩ := hex.resolve_right hlater
        rw [hout hlater, if_neg (by simp [he])]
        exact fillBytes_inside (fun i => phys (ptr n + i)) m hi
    · obtain ⟨hnow, hlater⟩ := not_or.mp hall
      rw [hout hlater]
      cases he : enabled n with
      | true => rfl
      | false =>
        rw [if_neg Bool.false_ne_true]
        exact fillBytes_outside m fun i hi ha => hnow ⟨he, i, hi, ha⟩

theorem disableSBIOSCalls_clears (enabled : Nat → Bool) (table : Nat) (m : Mem) (a : Nat) :
    (Cleared enabled table a → disableSBIOSCalls enabled table m a = 0) ∧
      (¬Cleared enabled table a → disableSBIOSCalls enabled table m a = m a) := by
  have hfold := foldl_clearWord enabled (fun n => u32 (table + 4 * n))
    (List.range numberOfSbiosCalls) m a
  simp only [List.mem_range] at hfold
  exact hfold

theorem relocate_entry {ea bin n : Nat} (hea : ea < 2 ^ 32) (hbin : bin + maxSbiosSize ≤ 2 ^ 29)
    (hlo : sbiosStartAddress ≤ ea + 4 * n)
    (hhi : ea + 4 * n + 4 ≤ sbiosStartAddress + maxSbiosSize) :
    u32 (relocate ea bin + 4 * n) = bin + (ea + 4 * n - sbiosStartAddress) := by
  unfold relocate sub32 u32 sbiosStartAddress maxSbiosSize at *
  omega

/-- The entries of disabled calls lie in the image, which has a place in the loader. -/
structure TableInside (env : SbiosEnv) (ea : Nat) : Prop where
  aligned : 4 ∣ ea
  inside : ∀ n < numberOfSbiosCalls, env.enabled n = false →
    sbiosStartAddress ≤ ea + 4 * n ∧ ea + 4 * n + 4 ≤ sbiosStartAddress + maxSbiosSize

theorem disableSBIOSCalls_table {env : SbiosEnv} {ea : Nat} (h : TableInside env ea)
    (hea : ea < 2 ^ 32) (hbin : env.sbiosbin + maxSbiosSize ≤ 2 ^ 29) (m : Mem) :
    TableDisabled env ea m (disableSBIOSCalls env.enabled (relocate ea env.sbiosbin) m) := by
  have hptr (n : Nat) (hn : n < numberOfSbiosCalls) (he : env.enabled n = false) (i : Nat)
      (hi : i < 4) : phys (u32 (relocate ea env.sbiosbin + 4 * n) + i) =
        env.sbiosbin + (ea + 4 * n - sbiosStartAddress) + i := by
    have hin := h.inside n hn he
    rw [relocate_entry hea hbin hin.1 hin.2]
    exact phys_of_lt (by omega)
  refine ⟨fun o ho => ?_, fun a ha => ?_⟩
  · rintro ⟨n, hn, he, hlo, hhi⟩
    have hin := h.inside n hn he
    apply (disableSBIOSCalls_clears _ _ m _).1
    refine ⟨n, hn, he, sbiosStartAddress + o - (ea + 4 * n), by omega, ?_⟩
    rw [hptr n hn he _ (by omega)]
    omega
  · apply (disableSBIOSCalls_clears _ _ m a).2
    rintro ⟨n, hn, he, i, hi, rfl⟩
    have hin := h.inside n hn he
    rw [hptr n hn he i hi] at ha
    exact ha (ea + 4 * n - sbiosStartAddress + i) (by omega) (by omega)
      ⟨n, hn, he, by omega, by omega⟩

theorem TableInside.relocate_ne_zero {env : SbiosEnv} {ea : Nat} (h : TableInside env ea)
    (hbin : 0x1000 ≤ env.sbiosbin ∧ env.sbiosbin + maxSbiosSize ≤ 2 ^ 29) (hea : ea < 2 ^ 32)
    (hdis : ∃ n < numberOfSbiosCalls, env.enabled n = false) :
    ea ≠ 0 ∧ relocate ea env.sbiosbin ≠ 0 := by
  obtain ⟨n, hn, he⟩ := hdis
  obtain ⟨hlo, hhi⟩ := h.inside n hn he
  unfold relocate sub32 u32
  unfold sbiosStartAddress maxSbiosSize numberOfSbiosCalls at *
  omega

theorem disableSBIOSCalls_none {enabled : Nat → Bool}
    (h : ∀ n < numberOfSbiosCalls, enabled n = true) (table : Nat) (m : Mem) :
    disableSBIOSCalls enabled table m = m := by
  unfold disableSBIOSCalls
  refine List.foldlRecOn (motive := (· = m)) _ _ rfl fun m' hm' n hn => ?_
  rw [h n (List.mem_range.mp hn), if_pos rfl, hm']

theorem getSBIOSCallTable_eq {m : Mem} {bin r : Nat} {is : List Instr}
    (h : EntryCode m bin 1 r is) (hscan : Scannable (relocate (word m bin) bin)) :
    (getSBIOSCallTable m bin).1 =
      if (is.foldl Scan.exec .start).load r ≠ 0 then
        relocate ((is.foldl Scan.exec .start).load r) bin else 0 := by
  have hcode := scanCode_eq h.code h.short .start
  rw [Nat.sub_self, Nat.mul_zero, Nat.add_zero] at hcode
  rw [getSBIOSCallTable, if_neg (not_not.mpr h.magic)]
  simp only [jumpBaseOf, if_pos hscan, hcode]
  split_ifs
  · rfl
  · rfl

theorem searchTable_first {m : Mem} {bin size table : Nat} (hm : word m (bin + 4 * 1) = magicCheck)
    (ht : (getSBIOSCallTable m bin).1 = table) (h0 : table ≠ 0) :
    (searchTable m bin size).1 = some table ∨ (searchTable m bin size).1 = none := by
  unfold searchTable
  cases hn : size / 4 - 1 with
  | zero => exact .inr rfl
  | succ n =>
    rw [List.range'_succ, forEach, searchWord, if_neg (not_not.mpr hm), Nat.sub_self, Nat.mul_zero,
      Nat.add_zero]
    simp only [ht, h0, ne_eq, not_false_eq_true, if_true]
    exact .inl trivial

theorem searchTable_none {m : Mem} {bin size : Nat} (ht : (getSBIOSCallTable m bin).1 = 0)
    (ho : ∀ i, 1 < i → i < size / 4 → word m (bin + 4 * i) ≠ magicCheck) :
    (searchTable m bin size).1 = none := by
  refine forEach_none (fun i hi s => ?_) _
  rw [List.mem_range'_1] at hi
  rw [searchWord]
  rcases Nat.eq_or_lt_of_le hi.1 with rfl | hlt
  · split_ifs
    · rfl
    · rw [Nat.sub_self, Nat.mul_zero, Nat.add_zero]
      simp [ht]
  · rw [if_pos (ho i hlt (by omega))]

/-- What the disabling of calls relies on: the magic is in word 1, the entry code is not at the end
of the address space, register 0 stays zero, the table is in the image, and if there is none the
register of `jalr` was not loaded before and the magic does not occur again. -/
structure RegularSbios (env : SbiosEnv) (m : Mem) (size : Nat) (ld : Nat → Nat) (k r : Nat)
    (is : List Instr) : Prop where
  first : k = 1
  scanned : Scannable (relocate (word m env.sbiosbin) env.sbiosbin)
  zero : Along ld Mips.ZeroKept .start is
  inside : ∀ ea, (Machine.start.run ld is).source r = some ea → TableInside env ea
  fresh : (Machine.start.run ld is).source r = none → ∀ i ∈ is, ¬(i.isLoad = true ∧ i.dest = r)
  single : (Machine.start.run ld is).source r = none →
    ∀ i, 1 < i → i < size / 4 → word m (env.sbiosbin + 4 * i) ≠ magicCheck

theorem setupSbios_mem {env : SbiosEnv} {size base : Nat} {b b' : Loader}
    (h : setupSbios env size b = (some base, b')) :
    ∃ table, (searchTable b.mem env.sbiosbin size).1 = some table ∧
      b'.mem = disableSBIOSCalls env.enabled table b.mem := by
  unfold setupSbios at h
  split at h
  · rename_i table s hs
    cases h
    exact ⟨table, by rw [hs], rfl⟩
  · cases h

theorem setupSbios_none {env : SbiosEnv} {size : Nat} {b : Loader}
    (h : (searchTable b.mem env.sbiosbin size).1 = none) : (setupSbios env size b).1 = none := by
  unfold setupSbios
  split
  · rename_i table s hs
    rw [hs] at h
    cases h
  · rfl

/-- Disabling calls hits the table at the address the register of `jalr` was last loaded from; if it
was not, the SBIOS is refused. -/
def CallsDisabled (last : Nat) (env : SbiosEnv) (b b' : Loader) (source : Option Nat) : Prop :=
  (∀ ea, source = some ea → ∀ base b'', loadSbios last env b = (some (some base), b'') →
      TableDisabled env ea b'.mem b''.mem) ∧
    (source = none → (loadSbios last env b).1 = some none)

/-- Disabling calls hits the call table of the SBIOS: the one its entry code loads the address for
`jalr` from. Without such a load the SBIOS is refused. -/
theorem loadSbios_disables_table (last : Nat) (env : SbiosEnv) (b : Loader) (size : Nat)
    (b' : Loader) (ld : Nat → Nat) (k r : Nat) (is : List Instr)
    (hbin : 0x1000 ≤ env.sbiosbin ∧ env.sbiosbin + maxSbiosSize ≤ 2 ^ 29)
    (himage : SbiosImage last env b size b') (hcode : EntryCode b'.mem env.sbiosbin k r is)
    (hknown : Along ld Mips.AddressKnown .start is)
    (h : RegularSbios env b'.mem size ld k r is) :
    CallsDisabled last env b b' ((Machine.start.run ld is).source r) := by
  obtain rfl := h.first
  have hfollow : (is.foldl Scan.exec .start).Follows (Machine.start.run ld is) :=
    (hknown.and h.zero).simulate Scan.exec (fun s t i hs hi => hs.step ld i hi) Scan.follows_start
  have htable := getSBIOSCallTable_eq hcode h.scanned
  rw [CallsDisabled, himage.loadSbios_eq]
  refine ⟨fun ea hea base b'' hr => ?_, fun hnone => ?_⟩
  · obtain ⟨hload, hlt⟩ := hfollow.load r ea hea
    have hin := h.inside ea hea
    obtain ⟨hbase, hb⟩ := Prod.mk.inj hr
    have hset : setupSbios env size b' = (some base, b'') := Prod.ext (Option.some.inj hbase) hb
    obtain ⟨table, hsearch, hmem⟩ := setupSbios_mem hset
    rw [hmem]
    by_cases hdis : ∃ n < numberOfSbiosCalls, env.enabled n = false
    · have hne := hin.relocate_ne_zero hbin hlt hdis
      rw [hload, if_pos hne.1] at htable
      rcases searchTable_first hcode.magic htable hne.2 with hs | hs
      · rw [hsearch] at hs
        obtain rfl := Option.some.inj hs
        exact disableSBIOSCalls_table hin hlt hbin.2 b'.mem
      · rw [hsearch] at hs
        cases hs
    · push Not at hdis
      have hall : ∀ n < numberOfSbiosCalls, env.enabled n = true :=
        fun n hn => Bool.eq_true_of_not_eq_false (hdis n hn)
      rw [disableSBIOSCalls_none hall]
      exact ⟨fun o _ ⟨n, hn, he, _⟩ => absurd he (hdis n hn), fun _ _ => rfl⟩
  · have hzero : (is.foldl Scan.exec .start).load r = 0 :=
      foldl_exec_load .start (h.fresh hnone)
    rw [hzero] at htable
    rw [setupSbios_none (searchTable_none htable (h.single hnone))]

/-- An SBIOS that is loaded from a file. Its first call is disabled. -/
def sampleEnv (size : Nat) (data : Mem) : SbiosEnv where
  sbiosbin := 0x300000
  rom := none
  file := ⟨true, size, some 0x580000, [size], data⟩
  enabled := fun n => n != 0

/-- The loader when the image has been copied to the buffer. -/
def SbiosEnv.image (env : SbiosEnv) : Loader :=
  (copySbios env 0x580000 env.file.size (some 0x580000)
    (openSbios 0x500000 env (env.cleared (.start 0))).2).2

def smallSbiosEnv : SbiosEnv := sampleEnv 24 (wordsOf smallSbios)

theorem loadSbios_disables_table_small :
    EntryCode smallSbiosEnv.image.mem 0x300000 1 2 [.lui 3 0x8000, .lw 2 3 0x1014] ∧
      CallsDisabled 0x500000 smallSbiosEnv (.start 0) smallSbiosEnv.image (some 0x80001014) := by
  have himage : SbiosImage 0x500000 smallSbiosEnv (.start 0) 24 smallSbiosEnv.image :=
    ⟨0x580000, 24, _, Prod.ext (by decide +kernel) rfl, Prod.ext (by decide +kernel) rfl⟩
  have hcode : EntryCode smallSbiosEnv.image.mem 0x300000 1 2 [.lui 3 0x8000, .lw 2 3 0x1014] :=
    ⟨by decide +kernel, by decide +kernel, by decide⟩
  have hsource : (Machine.start.run (fun _ => 0) [.lui 3 0x8000, .lw 2 3 0x1014]).source 2 =
      some 0x80001014 := by decide
  have hinside : TableInside smallSbiosEnv 0x80001014 := ⟨by decide, by decide +kernel⟩
  have h := loadSbios_disables_table 0x500000 smallSbiosEnv (.start 0) 24 smallSbiosEnv.image
    (fun _ => 0) 1 2 [.lui 3 0x8000, .lw 2 3 0x1014] (by decide) himage hcode (by decide)
    ⟨rfl, by decide +kernel, by decide,
      fun ea hea => Option.some.inj (hsource.symm.trans hea) ▸ hinside,
      fun hn => absurd (hsource.symm.trans hn) (by decide),
      fun hn => absurd (hsource.symm.trans hn) (by decide)⟩
  rw [hsource] at h
  exact ⟨hcode, h⟩

/-- An image in ELF format with the magic in word 2. -/
def shiftedSbios : List Nat :=
  [0, 0x8000100c, magicCheck, 0x3c038000, 0x8c621020, 0x0040f809, 0, 0, 0x80001028, 0x80001028]

def shiftedEnv : SbiosEnv :=
  sampleEnv 0x80 fun i => if i < 0x54 then
    elf32.file 1 0x8000100c [⟨1, 0x54, 0, 0x80001000, 40, 40⟩] i
  else wordsOf shiftedSbios (i - 0x54)

/-- The entry code writes to register 0. -/
def zeroWriteEnv : SbiosEnv :=
  sampleEnv 40 (wordsOf [0x80001008, magicCheck, 0x3c038000, 0x24000004, 0x00602021, 0x8c821020,
    0x0040f809, 0, 0x80001028, 0x80001028])

/-- The register of `jalr` is loaded, but written again. -/
def staleLoadEnv : SbiosEnv :=
  sampleEnv 28 (wordsOf [0x80001008, magicCheck, 0x3c038000, 0x8c621018, 0x3c021234, 0x0040f809,
    0x80001020])

theorem not_callsDisabled (base : Nat) {last o : Nat} {env : SbiosEnv} {b b' : Loader}
    (hl : (loadSbios last env b).1 = some (some base)) (he : env.enabled 0 = false)
    (ho : o < maxSbiosSize) (hm : (loadSbios last env b).2.mem (env.sbiosbin + o) ≠ 0) :
    ¬CallsDisabled last env b b' (some (sbiosStartAddress + o)) := by
  intro h
  have hzero := h.1 _ rfl base _ (Prod.ext hl rfl)
  exact hm (hzero.1 o ho ⟨0, by decide, he, by omega, by omega⟩)

/-- The image is loaded and its entry code is straight, but not the table of the SBIOS is hit. -/
def Misses (env : SbiosEnv) (size k r : Nat) (is : List Instr) : Prop :=
  SbiosImage 0x500000 env (.start 0) size env.image ∧ EntryCode env.image.mem env.sbiosbin k r is ∧
    Along (fun _ => 0) Mips.AddressKnown .start is ∧
      ¬CallsDisabled 0x500000 env (.start 0) env.image
        ((Machine.start.run (fun _ => 0) is).source r)

/-- Three images that are accepted: with the magic in word 2 the code is looked for 4 bytes too far
and another word is cleared; after a write to register 0 another word is cleared; and a register
that was written after its load is taken for loaded. -/
theorem loadSbios_misses_table :
    Misses shiftedEnv 40 2 2 [.lui 3 0x8000, .lw 2 3 0x1020] ∧
      Misses zeroWriteEnv 40 1 2 [.lui 3 0x8000, .addiu 0 0 4, .addu 4 3 0, .lw 2 4 0x1020] ∧
      Misses staleLoadEnv 28 1 2 [.lui 3 0x8000, .lw 2 3 0x1018, .lui 2 0x1234] := by
  refine ⟨⟨?_, ?_, by decide, ?_⟩, ⟨?_, ?_, by decide, ?_⟩, ⟨?_, ?_, by decide, ?_⟩⟩
  · exact ⟨0x580000, 0x80, _, Prod.ext (by decide +kernel) rfl, Prod.ext (by decide +kernel) rfl⟩
  · exact ⟨by decide +kernel, by decide +kernel, by decide⟩
  · exact not_callsDisabled 0x80001004 (o := 0x20) (by decide +kernel) rfl (by decide)
      (by decide +kernel)
  · exact ⟨0x580000, 40, _, Prod.ext (by decide +kernel) rfl, Prod.ext (by decide +kernel) rfl⟩
  · exact ⟨by decide +kernel, by decide +kernel, by decide⟩
  · exact not_callsDisabled 0x80001000 (o := 0x20) (by decide +kernel) rfl (by decide)
      (by decide +kernel)
  · exact ⟨0x580000, 28, _, Prod.ext (by decide +kernel) rfl, Prod.ext (by decide +kernel) rfl⟩
  · exact ⟨by decide +kernel, by decide +kernel, by decide⟩
  · intro h
    have hfail := h.2 (by decide)
    have hdone : (loadSbios 0x500000 staleLoadEnv (.start 0)).1 = some (some 0x80001000) := by
      decide +kernel
    rw [hdone] at hfail
    cases hfail

end KernelLoader.Boot
