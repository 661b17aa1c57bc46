import KernelLoader.Lib.Mask

namespace KernelLoader.Kernel
open Lib
set_option autoImplicit true
set_option relaxedAutoImplicit false

/-- The saved mask and `D_STAT`, which has the status in its lower and the mask in its upper half.
A one that is written clears a bit of the status and toggles one of the mask. -/
structure Dmac where
  savedDmacMask : BitVec 64
  dStat : BitVec 32

namespace Dmac

def write (v : BitVec 64) (s : Dmac) : Dmac :=
  let v := v.setWidth 32
  { s with dStat := (s.dStat &&& ~~~(v &&& 0xffff#32)) ^^^ (v &&& 0xffff0000#32) }

def read (s : Dmac) : BitVec 64 := s.dStat.setWidth 64

def cis0 : Nat := 0
def cim0 : Nat := 16

end Dmac

def dmacEnableIrq (irqNr : Nat) (s : Dmac) : Dmac :=
  let irqNr := irqNr + Dmac.cim0
  if s.savedDmacMask &&& bit64 irqNr = 0 then
    { s with savedDmacMask := s.savedDmacMask ||| bit64 irqNr }.write (bit64 irqNr)
  else s

def dmacDisableIrq (irqNr : Nat) (s : Dmac) : Dmac :=
  let irqNr := irqNr + Dmac.cim0
  if s.savedDmacMask &&& bit64 irqNr = 0 then s
  else { s with savedDmacMask := s.savedDmacMask &&& ~~~bit64 irqNr }.write (bit64 irqNr)

def dmacInitModule (s : Dmac) : Dmac :=
  let s := { s with savedDmacMask := 0 }
  let s := s.write s.read
  s.write s.read

def syscallEnableDmac (channel : Nat) (s : Dmac) : Int × Dmac :=
  let irqNr := channel + Dmac.cis0
  if s.savedDmacMask &&& bit64 irqNr = 0 then (0, s) else (1, dmacEnableIrq irqNr s)

def syscallDisableDmac (channel : Nat) (s : Dmac) : Int × Dmac :=
  let irqNr := channel + Dmac.cis0
  if s.savedDmacMask &&& bit64 irqNr = 0 then (1, dmacDisableIrq irqNr s) else (0, s)

namespace Dmac

/-- The four functions, and the hardware, which sets bits of the status. -/
inductive Call
  | enableIrq (channel : Fin 10)
  | disableIrq (channel : Fin 10)
  | enableDmac (channel : Fin 10)
  | disableDmac (channel : Fin 10)
  | raised (status : BitVec 16)
  deriving DecidableEq

/-- The value returned, for a system call, and the state. -/
def step (s : Dmac) : Call → Option Int × Dmac
  | .enableIrq channel => (none, dmacEnableIrq channel s)
  | .disableIrq channel => (none, dmacDisableIrq channel s)
  | .enableDmac channel =>
    let r := syscallEnableDmac channel s
    (some r.1, r.2)
  | .disableDmac channel =>
    let r := syscallDisableDmac channel s
    (some r.1, r.2)
  | .raised status => (none, { s with dStat := s.dStat ||| status.setWidth 32 })

def run (s : Dmac) (calls : List Call) : Dmac :=
  calls.foldl (fun s call => (s.step call).2) (dmacInitModule s)

def Enabled (s : Dmac) (channel : Nat) : Prop := s.dStat.getLsbD (channel + cim0) = true

namespace Call

/-- The channel of a function. -/
def channel : Call → Option (Fin 10)
  | enableIrq c => some c
  | disableIrq c => some c
  | enableDmac c => some c
  | disableDmac c => some c
  | raised _ => none

def enables : Call → Bool
  | enableIrq _ => true
  | enableDmac _ => true
  | _ => false

end Call

/-- The last of the calls for a channel. -/
def lastFor (c : Fin 10) (calls : List Call) : Option Call :=
  (calls.filter fun call => call.channel = some c).getLast?

/-- The masks agree, a channel is enabled if this was asked for last, and the system calls tell
whether they changed it. -/
structure Right (s : Dmac) (calls : List Call) : Prop where
  mirrored : (s.run calls).dStat.setWidth 64 &&& 0xffff0000#64 = (s.run calls).savedDmacMask
  enabled : ∀ c : Fin 10, (s.run calls).Enabled c ↔ ∃ call ∈ lastFor c calls, call.enables = true
  told : ∀ before call after ret, calls = before ++ call :: after →
    ((s.run before).step call).1 = some ret → ∀ c ∈ call.channel,
      (ret = 1 ↔ ¬ (((s.run before).step call).2.Enabled c ↔ (s.run before).Enabled c))

/-- The calls that have an effect: the system call that enables a channel has none. -/
def effective (calls : List Call) : List Call :=
  calls.filter fun call => match call with
    | .enableDmac _ => false
    | _ => true

/-- The kernel's own function enabled the channel, and nothing has disabled it since. -/
def EnabledByKernel (c : Fin 10) (calls : List Call) : Prop :=
  lastFor c (effective calls) = some (.enableIrq c)

section Registers
variable {s : Dmac} {c d : Fin 10}

theorem status_eq : (0xffff#32) = lowMask 32 16 := rfl

theorem mask_eq : (0xffff0000#32) = ~~~lowMask 32 16 := rfl

theorem getLsbD_write (s : Dmac) (v : BitVec 64) (i : Nat) :
    (s.write v).dStat.getLsbD i =
      if i < 16 then s.dStat.getLsbD i && !v.getLsbD i
      else s.dStat.getLsbD i ^^ (decide (i < 32) && v.getLsbD i) := by
  rw [write, BitVec.getLsbD_xor, BitVec.getLsbD_and, BitVec.getLsbD_not, BitVec.getLsbD_and,
    BitVec.getLsbD_and, BitVec.getLsbD_setWidth, mask_eq, status_eq, getLsbD_lowMask,
    getLsbD_not_lowMask]
  by_cases hi : i < 16
  · have h32 : i < 32 := by omega
    simp [hi, h32, Nat.not_le.mpr hi]
  · by_cases h32 : i < 32
    · simp [hi, h32, Nat.le_of_not_lt hi]
    · simp [hi, h32, BitVec.getLsbD_of_ge s.dStat i (Nat.le_of_not_lt h32)]

/-- The saved mask is the one of the register. -/
def Mirrored (s : Dmac) : Prop :=
  ∀ i, s.savedDmacMask.getLsbD i = (decide (16 ≤ i) && s.dStat.getLsbD i)

theorem Mirrored.eq (h : s.Mirrored) : s.dStat.setWidth 64 &&& 0xffff0000#64 = s.savedDmacMask := by
  have hmask : (0xffff0000#64) = (0xffff0000#32).setWidth 64 := by decide
  apply BitVec.eq_of_getLsbD_eq
  intro i hi
  rw [h i, hmask, BitVec.getLsbD_and, BitVec.getLsbD_setWidth, BitVec.getLsbD_setWidth, mask_eq,
    getLsbD_not_lowMask]
  by_cases h32 : i < 32
  · simp [hi, h32, Bool.and_comm]
  · simp [h32, BitVec.getLsbD_of_ge s.dStat i (Nat.le_of_not_lt h32)]

theorem getLsbD_write_read (s : Dmac) (i : Nat) : (s.write s.read).dStat.getLsbD i = false := by
  rw [getLsbD_write, read, BitVec.getLsbD_setWidth]
  by_cases h32 : i < 32
  · have h64 : i < 64 := Nat.lt_trans h32 (by decide)
    simp [h32, h64]
  · simp [h32, BitVec.getLsbD_of_ge s.dStat i (Nat.le_of_not_lt h32)]

theorem getLsbD_init (s : Dmac) (i : Nat) : (dmacInitModule s).dStat.getLsbD i = false :=
  getLsbD_write_read _ i

theorem mirrored_init (s : Dmac) : (dmacInitModule s).Mirrored := by
  intro i
  rw [getLsbD_init, Bool.and_false]
  exact BitVec.getLsbD_zero

theorem getLsbD_write_bit64 (s : Dmac) (hn : 16 ≤ n) (hn' : n < 31) (i : Nat) :
    (s.write (bit64 n)).dStat.getLsbD i =
      if i = n then !s.dStat.getLsbD i else s.dStat.getLsbD i := by
  rw [getLsbD_write, getLsbD_bit64 hn']
  by_cases hi : i = n
  · have h16 : ¬ i < 16 := by omega
    have h32 : i < 32 := by omega
    simp [hi, hi ▸ h16, hi ▸ h32]
  · simp [hi]

theorem Mirrored.toggle (h : s.Mirrored) (hn : 16 ≤ n) (hn' : n < 31) {m : BitVec 64}
    (hm : ∀ i, m.getLsbD i =
      if i = n then !s.savedDmacMask.getLsbD i else s.savedDmacMask.getLsbD i) :
    ({ s with savedDmacMask := m }.write (bit64 n)).Mirrored := by
  intro i
  rw [getLsbD_write_bit64 _ hn hn']
  show m.getLsbD i = _
  rw [hm, h i]
  by_cases hi : i = n
  · have h16 : 16 ≤ i := hi ▸ hn
    simp [hi, hi ▸ h16]
  · simp [hi]

/-- The bits that are saved are those of the mask. -/
theorem Mirrored.off_iff (h : s.Mirrored) (hn : n < 31) :
    s.savedDmacMask &&& bit64 n = 0 ↔ ¬ (16 ≤ n ∧ s.dStat.getLsbD n = true) := by
  rw [and_bit64_eq_zero hn, h n]
  by_cases h16 : 16 ≤ n
  · simp [h16]
  · simp [h16]

theorem cim0_bounds (c : Fin 10) : 16 ≤ (c : Nat) + cim0 ∧ (c : Nat) + cim0 < 31 := by
  have hc := c.isLt
  rw [cim0]
  omega

theorem enabled_write (m : BitVec 64) (s : Dmac) (c d : Fin 10) :
    ({ s with savedDmacMask := m }.write (bit64 (c + cim0))).Enabled d ↔
      if d = c then ¬ s.Enabled d else s.Enabled d := by
  obtain ⟨h16, h31⟩ := cim0_bounds c
  have hdc : (d : Nat) + cim0 = c + cim0 ↔ d = c := Nat.add_right_cancel_iff.trans Fin.ext_iff.symm
  rw [Enabled, getLsbD_write_bit64 _ h16 h31, if_congr hdc rfl rfl]
  by_cases hd : d = c
  · simp [hd, Enabled]
  · simp [hd, Enabled]

theorem Mirrored.off_iff_not_enabled (h : s.Mirrored) (c : Fin 10) :
    s.savedDmacMask &&& bit64 (c + cim0) = 0 ↔ ¬ s.Enabled c := by
  obtain ⟨h16, h31⟩ := cim0_bounds c
  rw [h.off_iff h31, Enabled]
  simp [h16]

theorem Mirrored.enableIrq (h : s.Mirrored) (c : Fin 10) : (dmacEnableIrq c s).Mirrored ∧
    ∀ d : Fin 10, (dmacEnableIrq c s).Enabled d ↔ d = c ∨ s.Enabled d := by
  obtain ⟨h16, h31⟩ := cim0_bounds c
  have hoff := h.off_iff_not_enabled c
  rw [dmacEnableIrq]
  by_cases hon : s.Enabled c
  · rw [if_neg (mt hoff.mp (not_not_intro hon))]
    refine ⟨h, fun d => ⟨.inr, ?_⟩⟩
    intro hd
    cases hd with
    | inl hd => exact hd ▸ hon
    | inr hd => exact hd
  · rw [if_pos (hoff.mpr hon)]
    have hbit := (and_bit64_eq_zero h31).mp (hoff.mpr hon)
    constructor
    · apply h.toggle h16 h31
      intro i
      rw [getLsbD_or_bit64 h31]
      by_cases hi : i = c + cim0
      · simp [hi, hbit]
      · simp [hi]
    · intro d
      rw [enabled_write]
      by_cases hd : d = c
      · simp [hd, hon]
      · simp [hd]

theorem Mirrored.disableIrq (h : s.Mirrored) (c : Fin 10) : (dmacDisableIrq c s).Mirrored ∧
    ∀ d : Fin 10, (dmacDisableIrq c s).Enabled d ↔ d ≠ c ∧ s.Enabled d := by
  obtain ⟨h16, h31⟩ := cim0_bounds c
  have hoff := h.off_iff_not_enabled c
  rw [dmacDisableIrq]
  by_cases hon : s.Enabled c
  · have hne := mt hoff.mp (not_not_intro hon)
    rw [if_neg hne]
    have hbit := getLsbD_of_and_bit64_ne_zero h31 hne
    constructor
    · apply h.toggle h16 h31
      intro i
      rw [getLsbD_and_not_bit64 h31]
      by_cases hi : i = c + cim0
      · simp [hi, hbit]
      · simp [hi]
    · intro d
      rw [enabled_write]
      by_cases hd : d = c
      · simp [hd, hon]
      · simp [hd]
  · rw [if_pos (hoff.mpr hon)]
    refine ⟨h, fun d => ⟨fun hd => ⟨?_, hd⟩, And.right⟩⟩
    intro he
    exact hon (he ▸ hd)

/-- The bit that the system calls test belongs to the status, which is not saved. -/
theorem Mirrored.status_off (h : s.Mirrored) (c : Fin 10) :
    s.savedDmacMask &&& bit64 (c + cis0) = 0 := by
  have hc : (c : Nat) + cis0 < 16 := Nat.lt_trans c.isLt (by decide)
  apply (h.off_iff (Nat.lt_trans hc (by decide))).mpr
  intro hon
  exact absurd hon.1 (Nat.not_le.mpr hc)

theorem Mirrored.enableDmac (h : s.Mirrored) (c : Fin 10) : syscallEnableDmac c s = (0, s) :=
  if_pos (h.status_off c)

theorem Mirrored.disableDmac (h : s.Mirrored) (c : Fin 10) :
    syscallDisableDmac c s = (1, dmacDisableIrq c s) :=
  if_pos (h.status_off c)

theorem Mirrored.raised (h : s.Mirrored) (status : BitVec 16) :
    Mirrored { s with dStat := s.dStat ||| status.setWidth 32 } ∧
      ∀ d : Fin 10, Enabled { s with dStat := s.dStat ||| status.setWidth 32 } d ↔ s.Enabled d := by
  have hbit (i : Nat) (hi : 16 ≤ i) :
      (s.dStat ||| status.setWidth 32).getLsbD i = s.dStat.getLsbD i := by
    rw [BitVec.getLsbD_or, BitVec.getLsbD_setWidth, BitVec.getLsbD_of_ge status i hi,
      Bool.and_false, Bool.or_false]
  constructor
  · intro i
    by_cases hi : 16 ≤ i
    · rw [hbit i hi]
      exact h i
    · rw [h i]
      simp [hi]
  · intro d
    rw [Enabled, hbit _ (cim0_bounds d).1]
    rfl

theorem Mirrored.step (h : s.Mirrored) (call : Call) : (s.step call).2.Mirrored := by
  cases call with
  | enableIrq c => exact (h.enableIrq c).1
  | disableIrq c => exact (h.disableIrq c).1
  | enableDmac c =>
    show (syscallEnableDmac c s).2.Mirrored
    rw [h.enableDmac]
    exact h
  | disableDmac c =>
    show (syscallDisableDmac c s).2.Mirrored
    rw [h.disableDmac]
    exact (h.disableIrq c).1
  | raised status => exact (h.raised status).1

end Registers

section Runs
variable {s : Dmac} {calls : List Call} {call : Call} {c d : Fin 10}

theorem run_concat (s : Dmac) (calls : List Call) (call : Call) :
    s.run (calls ++ [call]) = ((s.run calls).step call).2 := by
  rw [run, List.foldl_concat]
  rfl

theorem mirrored_run (s : Dmac) (calls : List Call) : (s.run calls).Mirrored := by
  induction calls using List.reverseRecOn with
  | nil => exact mirrored_init s
  | append_singleton calls call ih =>
    rw [run_concat]
    exact ih.step call

theorem lastFor_concat (c : Fin 10) (calls : List Call) (call : Call) :
    lastFor c (calls ++ [call]) = if call.channel = some c then some call else lastFor c calls := by
  rw [lastFor, List.filter_append]
  by_cases hc : call.channel = some c
  · simp [hc]
  · simp [hc, lastFor]

theorem effective_concat (calls : List Call) (call : Call) :
    effective (calls ++ [call]) = effective calls ++ effective [call] := List.filter_append ..

/-- What the last call does to a channel. -/
def switched (c : Fin 10) (before : Prop) : Call → Prop
  | .enableIrq d => c = d ∨ before
  | .disableIrq d => c ≠ d ∧ before
  | .enableDmac _ => before
  | .disableDmac d => c ≠ d ∧ before
  | .raised _ => before

theorem enabledByKernel_concat (c : Fin 10) (calls : List Call) (call : Call) :
    EnabledByKernel c (calls ++ [call]) ↔ switched c (EnabledByKernel c calls) call := by
  rw [EnabledByKernel, effective_concat]
  cases call with
  | enableIrq d =>
    show lastFor c (effective calls ++ [.enableIrq d]) = _ ↔ c = d ∨ EnabledByKernel c calls
    rw [lastFor_concat]
    by_cases hc : c = d
    · simp [hc, Call.channel]
    · simp [hc, Ne.symm hc, Call.channel, EnabledByKernel]
  | disableIrq d =>
    show lastFor c (effective calls ++ [.disableIrq d]) = _ ↔ c ≠ d ∧ EnabledByKernel c calls
    rw [lastFor_concat]
    by_cases hc : c = d
    · simp [hc, Call.channel]
    · simp [hc, Ne.symm hc, Call.channel, EnabledByKernel]
  | enableDmac d =>
    show lastFor c (effective calls ++ []) = _ ↔ EnabledByKernel c calls
    rw [List.append_nil]
    exact Iff.rfl
  | disableDmac d =>
    show lastFor c (effective calls ++ [.disableDmac d]) = _ ↔ c ≠ d ∧ EnabledByKernel c calls
    rw [lastFor_concat]
    by_cases hc : c = d
    · simp [hc, Call.channel]
    · simp [hc, Ne.symm hc, Call.channel, EnabledByKernel]
  | raised status =>
    show lastFor c (effective calls ++ [.raised status]) = _ ↔ EnabledByKernel c calls
    rw [lastFor_concat]
    simp [Call.channel, EnabledByKernel]

theorem Mirrored.enabled_step (h : s.Mirrored) (call : Call) (c : Fin 10) :
    (s.step call).2.Enabled c ↔ switched c (s.Enabled c) call := by
  cases call with
  | enableIrq d => exact (h.enableIrq d).2 c
  | disableIrq d => exact (h.disableIrq d).2 c
  | enableDmac d =>
    show (syscallEnableDmac d s).2.Enabled c ↔ _
    rw [h.enableDmac]
    exact Iff.rfl
  | disableDmac d =>
    show (syscallDisableDmac d s).2.Enabled c ↔ _
    rw [h.disableDmac]
    exact (h.disableIrq d).2 c
  | raised status => exact (h.raised status).2 c

theorem enabled_run (s : Dmac) (calls : List Call) (c : Fin 10) :
    (s.run calls).Enabled c ↔ EnabledByKernel c calls := by
  induction calls using List.reverseRecOn with
  | nil =>
    have hoff := getLsbD_init s (c + cim0)
    constructor
    · intro hon
      exact absurd (hoff.symm.trans hon) Bool.false_ne_true
    · intro hlast
      exact absurd hlast (by simp [EnabledByKernel, lastFor, effective])
  | append_singleton calls call ih =>
    rw [run_concat, enabledByKernel_concat, (mirrored_run s calls).enabled_step, propext ih]

theorem switched_of_channel_ne {before : Prop} (hc : call.channel ≠ some c) :
    switched c before call ↔ before := by
  cases call with
  | enableIrq d => exact or_iff_right fun he => hc (he ▸ rfl)
  | disableIrq d => exact and_iff_right fun he => hc (he ▸ rfl)
  | enableDmac d => exact Iff.rfl
  | disableDmac d => exact and_iff_right fun he => hc (he ▸ rfl)
  | raised status => exact Iff.rfl

/-- Apart from the system call that enables a channel, the last call decides. -/
theorem enabledByKernel_iff (c : Fin 10) (calls : List Call)
    (h : lastFor c calls ≠ some (.enableDmac c)) :
    EnabledByKernel c calls ↔ ∃ call ∈ lastFor c calls, call.enables = true := by
  induction calls using List.reverseRecOn with
  | nil => simp [EnabledByKernel, lastFor, effective]
  | append_singleton calls call ih =>
    rw [lastFor_concat] at h ⊢
    rw [enabledByKernel_concat]
    by_cases hc : call.channel = some c
    · rw [if_pos hc] at h ⊢
      cases call with
      | enableIrq d => simp_all [switched, Call.channel, Call.enables]
      | disableIrq d => simp_all [switched, Call.channel, Call.enables]
      | enableDmac d => simp_all [Call.channel]
      | disableDmac d => simp_all [switched, Call.channel, Call.enables]
      | raised status => simp_all [Call.channel]
    · rw [if_neg hc] at h ⊢
      rw [switched_of_channel_ne hc, ih h]

theorem told_enableDmac (s : Dmac) (calls : List Call) (c : Fin 10) :
    (s.run calls).step (.enableDmac c) = (some 0, s.run calls) := by
  rw [step, (mirrored_run s calls).enableDmac]

theorem told_disableDmac (s : Dmac) (calls : List Call) (c : Fin 10) :
    ((s.run calls).step (.disableDmac c)).1 = some 1 := by
  rw [step, (mirrored_run s calls).disableDmac]

/-- Enabling a channel by the system call does nothing, and disabling one always tells of a
change. -/
theorem dmac_right_iff (s : Dmac) (calls : List Call) : Right s calls ↔
    (∀ c, lastFor c calls = some (.enableDmac c) → EnabledByKernel c calls) ∧
    ∀ before c after, calls = before ++ .disableDmac c :: after → EnabledByKernel c before := by
  constructor
  · intro h
    constructor
    · intro c hlast
      apply (enabled_run s calls c).mp
      apply (h.enabled c).mpr
      exact ⟨_, hlast, rfl⟩
    · intro before c after hcalls
      have hone := told_disableDmac s before c
      have htold := h.told before (.disableDmac c) after 1 hcalls hone c rfl
      rw [(mirrored_run s before).enabled_step] at htold
      apply (enabled_run s before c).mp
      by_contra hoff
      apply htold.mp rfl
      simp [switched, hoff]
  · rintro ⟨hlast, hdis⟩
    refine ⟨(mirrored_run s calls).eq, ?_, ?_⟩
    · intro c
      rw [enabled_run]
      by_cases hc : lastFor c calls = some (.enableDmac c)
      · have hon := hlast c hc
        simp [hon, hc, Call.enables]
      · exact enabledByKernel_iff c calls hc
    · intro before call after ret hcalls hret c hc
      cases call with
      | enableIrq d => exact absurd hret (by simp [step])
      | disableIrq d => exact absurd hret (by simp [step])
      | enableDmac d =>
        rw [told_enableDmac] at hret ⊢
        have hzero : ret = 0 := (Option.some.inj hret).symm
        simp [hzero]
      | disableDmac d =>
        have hdc : d = c := Option.some.inj hc
        subst hdc
        have hon := (enabled_run s before d).mpr (hdis before d after hcalls)
        have hone : ret = 1 := by
          rw [told_disableDmac] at hret
          exact (Option.some.inj hret).symm
        rw [(mirrored_run s before).enabled_step]
        simp [hone, switched, hon]
      | raised status => exact absurd hret (by simp [step])

/-- From a cleared register, channel 5 stays off when it is to be enabled, and a change is told
when it is disabled without being on. -/
theorem dmac_syscalls_wrong :
    let s : Dmac := ⟨0, 0⟩
    (s.run [.enableDmac 5]).dStat = 0 ∧ ¬ s.Right [.enableDmac 5] ∧
    (s.run [.disableDmac 5]).dStat = 0 ∧ ¬ s.Right [.disableDmac 5] := by
  refine ⟨by decide, ?_, by decide, ?_⟩
  · intro h
    have hon := (h.enabled 5).mpr ⟨.enableDmac 5, by decide, rfl⟩
    exact absurd hon (by unfold Enabled; decide)
  · intro h
    have htold := h.told [] (.disableDmac 5) [] 1 rfl (by decide) 5 rfl
    exact htold.mp rfl (by unfold Enabled; decide)

end Runs

end Dmac

end KernelLoader.Kernel
