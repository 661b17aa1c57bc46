import KernelLoader.Lib.R5900

namespace KernelLoader.Kernel.Interrupt
open Lib Lib.R5900
set_option autoImplicit true
set_option relaxedAutoImplicit false

def stackOverhead : Nat := 16
def stackAlign : Nat := 16

/-- `(((32 * 16 + 8 * 32 + 9 * 4) + STACK_ALIGN - 1) & ~(STACK_ALIGN - 1))` -/
def contextSize : Nat := (32 * 16 + 8 * 32 + 9 * 4 + stackAlign - 1) / stackAlign * stackAlign

def fpuOffset : Nat := 32 * 16
def statusOffset : Nat := fpuOffset + 32 * 8

def a0 : Nat := 4
def t0 : Nat := 8
def t1 : Nat := 9
def t2 : Nat := 10
def t3 : Nat := 11
def t4 : Nat := 12
def t5 : Nat := 13
def t6 : Nat := 14
def t9 : Nat := 25
def k0 : Nat := 26
def k1 : Nat := 27
def gp : Nat := 28
def sp : Nat := 29

def saveReg (r : Nat) : Instr := .sq r (BitVec.ofNat 32 (16 * r)) sp
def restoreReg (r : Nat) : Instr := .lq r (BitVec.ofNat 32 (16 * r)) sp
def saveFpu (r : Nat) : Instr := .swc1 r (BitVec.ofNat 32 (fpuOffset + 8 * r)) sp
def restoreFpu (r : Nat) : Instr := .lwc1 r (BitVec.ofNat 32 (fpuOffset + 8 * r)) sp

/-- The value of `exceptionKernelStack`: `KSEG0 + ZERO_REG_ADDRESS - STACK_OVERHEAD` -/
def kernelStack : BitVec 32 := 0x80000000 + 0x78000 - BitVec.ofNat 32 stackOverhead

/-- The variant of the kernel that is built, and the addresses that the linker gives to symbols. -/
structure Layout where
  ps2Ee : Bool
  exceptionKernelStack : BitVec 32
  irqInterrupt : BitVec 32
  gp : BitVec 32
  aligned : exceptionKernelStack.toNat % 4 = 0

def loadStack (L : Layout) : List Instr :=
  if L.ps2Ee then
    [.lui sp (hi16 L.exceptionKernelStack), .lw sp (lo16 L.exceptionKernelStack) sp]
  else
    [.lui sp (hi16 L.exceptionKernelStack), .addiu sp sp (lo16 L.exceptionKernelStack),
     .lw sp 0#32 sp]

/-- The registers that are saved and restored one by one: all but the stack pointer. -/
def regs : List Nat := List.range 29 ++ [30, 31]

def saveEpc : Slot := ⟨.narrow .epc, t5, statusOffset + 4 * 8⟩
def saveFcr31 : Slot := ⟨.narrow .fcr31, t6, statusOffset + 4 * 7⟩
def restoreFcr31 : Slot := ⟨.narrow .fcr31, t5, statusOffset + 4 * 7⟩
def restoreEpc : Slot := ⟨.narrow .epc, t6, statusOffset + 4 * 8⟩

/-- The registers of multiplication and division, and the one of the shift amount. -/
def multiply : List Slot :=
  [⟨.wide .hi, t0, statusOffset + 4 * 2⟩, ⟨.wide .lo, t1, statusOffset + 4 * 3⟩,
   ⟨.wide .hi1, t2, statusOffset + 4 * 4⟩, ⟨.wide .lo1, t3, statusOffset + 4 * 5⟩,
   ⟨.narrow .sa, t4, statusOffset + 4 * 6⟩]

/-- The code from `reuseStack` on. -/
def reuseStack : List Instr :=
  [.addiu sp sp (-BitVec.ofNat 32 stackOverhead), .addiu sp sp (-BitVec.ofNat 32 contextSize)]

def saveContext : List Instr :=
  [.sq k0 (BitVec.ofNat 32 (16 * 29)) sp] ++
  regs.map saveReg ++
  [saveEpc, saveFcr31].flatMap (Slot.save sp) ++
  (List.range 32).map saveFpu ++
  [.mtc1 0 0, .msub 0 0 0, .swc1 0 (BitVec.ofNat 32 statusOffset) sp] ++
  multiply.flatMap (Slot.save sp)

def callIrqInterrupt (L : Layout) : List Instr :=
  (if L.ps2Ee then [] else [.lui gp (hi16 L.gp), .addiu gp gp (lo16 L.gp)]) ++
  [.move a0 sp, .addiu sp sp (-BitVec.ofNat 32 stackOverhead)] ++
  (if L.ps2Ee then [] else [.lui t9 (hi16 L.irqInterrupt), .addiu t9 t9 (lo16 L.irqInterrupt)])

/-- The code up to the jump to `irq_interrupt`. -/
def save (L : Layout) : List Instr := saveContext ++ callIrqInterrupt L

/-- The code from the return of `irq_interrupt` to `eret`. -/
def restore : List Instr :=
  [.addiu sp sp (BitVec.ofNat 32 stackOverhead)] ++
  multiply.flatMap (Slot.restore sp) ++
  [.lwc1 0 (BitVec.ofNat 32 statusOffset) sp, .mtc1 0 1, .suba 0 1] ++
  (List.range 32).map restoreFpu ++
  [restoreFcr31, restoreEpc].flatMap (Slot.restore sp) ++
  regs.map restoreReg ++
  [restoreReg sp]

/-- What `irq_interrupt` does, from the jump to its return. It keeps the stack pointer and the
context above it, and may change everything else. -/
structure Irq where
  call : Machine → Machine
  keeps_sp : ∀ m, (call m).word sp = m.word sp
  keeps_frame : ∀ m w, (m.word sp).toNat + stackOverhead ≤ 4 * w →
    4 * w < (m.word sp).toNat + stackOverhead + contextSize → (call m).mem w = m.mem w

/-- The branch skips the load of the stack pointer if the address is one of the kernel. -/
def interruptExceptionHandler (L : Layout) (f : Fpu) (irq : Irq) (m : Machine) : Option Machine :=
  (run f [.addiu k0 sp 0#32] m).bind fun m =>
  (run f (if (m.low k0).msb then [] else loadStack L) m).bind fun m =>
  (run f reuseStack m).bind fun m =>
  (run f (save L) m).bind fun m => run f restore (irq.call m)

/-- A machine that is interrupted. -/
structure Interrupted (L : Layout) where
  machine : Machine
  stack : machine.mem (L.exceptionKernelStack.toNat / 4) = kernelStack

/-- The interrupt cannot be noticed in the registers. -/
structure Unnoticed (before after : Machine) : Prop where
  gpr : ∀ r < 32, r ≠ k0 → r ≠ k1 → after.reg r = before.reg r
  fpr : ∀ r < 32, after.fpr r = before.fpr r
  wide : ∀ x, after.wide x = before.wide x
  narrow : ∀ x, after.narrow x = before.narrow x

section Entry
variable {L : Layout} {f : Fpu} {m : Machine}

theorem run_loadStack (L : Layout) (f : Fpu) (m : Machine) : run f (loadStack L) m =
    some (m.setLow sp ((m.mem (L.exceptionKernelStack.toNat / 4)).signExtend 64)) := by
  have h0 : sp ≠ 0 := by decide
  cases hee : L.ps2Ee with
  | true =>
    simp only [loadStack, hee, if_true, run, exec, Option.bind_some, Machine.address,
      word_setLow h0, hi16_add_lo16, L.aligned, setLow_setLow h0]
    rfl
  | false =>
    simp only [loadStack, hee, Bool.false_eq_true, if_false, run, exec, Option.bind_some,
      Machine.address, word_setLow h0, hi16_add_lo16, BitVec.add_zero, L.aligned, if_true,
      setLow_setLow h0]
    rfl

theorem run_reuseStack (f : Fpu) (m : Machine) :
    run f reuseStack m = some (m.setLow sp ((m.word sp - 832#32).signExtend 64)) := by
  have h0 : sp ≠ 0 := by decide
  have hsum : -BitVec.ofNat 32 stackOverhead + -BitVec.ofNat 32 contextSize = -832#32 := by decide
  simp only [reuseStack, run, exec, Option.bind_some, word_setLow h0, setLow_setLow h0,
    BitVec.add_assoc, hsum, BitVec.sub_eq_add_neg]

/-- The stack that is used: the one of the kernel, unless the address is one of the kernel. -/
def usedStack (m : Machine) : BitVec 32 := if (m.word sp).msb then m.word sp else kernelStack

/-- The machine when the context is to be saved. -/
def entered (m : Machine) : Machine :=
  (m.setLow k0 ((m.word sp).signExtend 64)).setLow sp ((usedStack m - 832#32).signExtend 64)

theorem handler_eq (L : Layout) (f : Fpu) (irq : Irq) (s : Interrupted L) :
    interruptExceptionHandler L f irq s.machine =
      (run f (save L) (entered s.machine)).bind fun m => run f restore (irq.call m) := by
  have h0 : sp ≠ 0 := by decide
  have hk : k0 ≠ 0 := by decide
  have hne : sp ≠ k0 := by decide
  have hmsb : ((s.machine.word sp).signExtend 64).msb = (s.machine.word sp).msb := by
    simp [BitVec.msb_signExtend]
  have hfirst : run f [.addiu k0 sp 0#32] s.machine =
      some (s.machine.setLow k0 ((s.machine.word sp).signExtend 64)) := by
    simp only [run, exec, Option.bind_some, BitVec.add_zero]
  rw [interruptExceptionHandler, hfirst, Option.bind_some, low_setLow hk, hmsb]
  by_cases hneg : (s.machine.word sp).msb = true
  · have hused : usedStack s.machine = s.machine.word sp := if_pos hneg
    rw [if_pos hneg, run_nil, Option.bind_some, run_reuseStack, word_setLow_of_ne hk hne, entered,
      hused, Option.bind_some]
  · have hused : usedStack s.machine = kernelStack := if_neg hneg
    have hstack : (s.machine.setLow k0 ((s.machine.word sp).signExtend 64)).mem
        (L.exceptionKernelStack.toNat / 4) = kernelStack := s.stack
    rw [if_neg hneg, run_loadStack, hstack, Option.bind_some, run_reuseStack, word_setLow h0,
      setLow_setLow h0, entered, hused, Option.bind_some]

end Entry

/-- Where a special register is kept in the context. -/
def place : Special → Nat
  | .wide .hi => 776
  | .wide .lo => 780
  | .wide .hi1 => 784
  | .wide .lo1 => 788
  | .narrow .sa => 792
  | .narrow .fcr31 => 796
  | .narrow .epc => 800

/-- The context at an address has the registers of a machine, with the copy of the stack pointer
for the stack pointer. -/
structure Saved (s : Machine) (b : Nat) (mem : Nat → BitVec 32) : Prop where
  gpr : ∀ r ∈ regs, r ≠ 0 → quadAt mem (b / 16 + r) = s.reg r
  stack : quadAt mem (b / 16 + sp) = s.reg k0
  fpr : ∀ r < 32, mem ((b + (fpuOffset + 8 * r)) / 4) = s.fpr r
  special : ∀ x, mem ((b + place x) / 4) = (s.special x).setWidth 32

/-- What a machine whose context was saved has after it is restored. -/
structure Restored (s after : Machine) : Prop where
  gpr : ∀ r ∈ regs, after.reg r = s.reg r
  stack : after.reg sp = s.reg k0
  fpr : ∀ r < 32, after.fpr r = s.fpr r
  special : ∀ x, after.special x = ((s.special x).setWidth 32).signExtend 64

/-- The context and what is called below it are in the address space. -/
structure Frame (b : Nat) : Prop where
  below : stackOverhead ≤ b
  above : b + 832 < 2 ^ 32

section Context
variable {L : Layout} {f : Fpu} {m s : Machine}

theorem mem_regs_lt : ∀ r ∈ regs, r < 32 ∧ r ≠ sp := by decide

theorem multiply_slots : ∀ p ∈ multiply, 776 ≤ p.offset ∧ p.offset ≤ 792 ∧ p.offset % 4 = 0 ∧
    p.temp ≠ 0 ∧ sp ≠ p.temp ∧ p.offset = place p.special ∧ p.special ≠ .narrow .fcr31 := by
  decide

theorem status_slots : ∀ p ∈ [saveEpc, saveFcr31] ++ [restoreFcr31, restoreEpc],
    796 ≤ p.offset ∧ p.offset ≤ 800 ∧ p.offset % 4 = 0 ∧ p.temp ≠ 0 ∧ sp ≠ p.temp ∧
      p.offset = place p.special := by
  decide

theorem place_bounds (x : Special) : 776 ≤ place x ∧ place x ≤ 800 ∧ place x % 4 = 0 := by
  cases x with
  | wide x => cases x <;> decide
  | narrow x => cases x <;> decide

theorem multiply_not_status : ∀ p ∈ multiply, ∀ q ∈ [restoreFcr31, restoreEpc],
    p.special ≠ q.special := by
  decide

theorem special_cases (x : Special) : (∃ p ∈ multiply, p.special = x) ∨
    (∃ p ∈ [saveEpc, saveFcr31], p.special = x) ∧
      ∃ p ∈ [restoreFcr31, restoreEpc], p.special = x := by
  cases x with
  | wide x => cases x <;> exact .inl (by decide)
  | narrow x =>
    cases x with
    | sa => exact .inl (by decide)
    | epc => exact .inr (by decide)
    | fcr31 => exact .inr (by decide)

theorem Frame.fits_multiply (h : Frame b) : ∀ p ∈ multiply, p.Fits b sp := by
  intro p hp
  obtain ⟨_, hle, haligned, hzero, hne, _⟩ := multiply_slots p hp
  have := h.above
  exact ⟨⟨hzero, hne⟩, haligned, by omega⟩

theorem Frame.fits_status (h : Frame b) :
    ∀ p ∈ [saveEpc, saveFcr31] ++ [restoreFcr31, restoreEpc], p.Fits b sp := by
  intro p hp
  obtain ⟨_, hle, haligned, hzero, hne, _⟩ := status_slots p hp
  have := h.above
  exact ⟨⟨hzero, hne⟩, haligned, by omega⟩

theorem Frame.fits_regs (h : Frame b) : ∀ r ∈ regs, b + 16 * r < 2 ^ 32 := by
  intro r hr
  have := (mem_regs_lt r hr).1
  have := h.above
  omega

theorem Frame.fits_fpu (h : Frame b) :
    ∀ r ∈ List.range 32, b + (fpuOffset + 8 * r) < 2 ^ 32 := by
  intro r hr
  have := List.mem_range.mp hr
  have := h.above
  rw [fpuOffset]
  omega

theorem run_saveRegs (hb : (m.word sp).toNat = b) (h : Frame b) :
    ∃ mem', run f ([.sq k0 (BitVec.ofNat 32 (16 * 29)) sp] ++ regs.map saveReg) m =
        some { m with mem := mem' } ∧
      (∀ r ∈ regs, quadAt mem' (b / 16 + r) = m.reg r) ∧
      quadAt mem' (b / 16 + sp) = m.reg k0 := by
  have haddr : m.address (BitVec.ofNat 32 (16 * 29)) sp = b + 16 * 29 :=
    address_eq hb (by have := h.above; omega)
  have hquad : (b + 16 * 29) / 16 = b / 16 + sp := by
    rw [sp]
    omega
  obtain ⟨mem', hrun, hregs, hrest⟩ := run_sq (f := f)
    (m := { m with mem := storeQuad m.mem (b / 16 + sp) (m.reg k0) }) regs hb h.fits_regs
  refine ⟨mem', ?_, hregs, ?_⟩
  · rw [List.singleton_append, run, exec, haddr, hquad, Option.bind_some]
    exact hrun
  · rw [quadAt_congr fun w hw => hrest w fun r hr he => (mem_regs_lt r hr).2 (by omega)]
    exact quadAt_storeQuad m.mem (b / 16 + sp) (m.reg k0)

/-- The accumulator is stored through a register that was saved, and the flags change. -/
theorem run_saveAcc (hb : (m.word sp).toNat = b) (h : Frame b) (hb4 : b % 4 = 0) :
    ∃ m', run f [.mtc1 0 0, .msub 0 0 0, .swc1 0 (BitVec.ofNat 32 statusOffset) sp] m = some m' ∧
      m'.word sp = m.word sp ∧ (∀ x, x ≠ .narrow .fcr31 → m'.special x = m.special x) ∧
      ∀ w, w ≠ (b + statusOffset) / 4 → m'.mem w = m.mem w := by
  have habove := h.above
  have hoffset : statusOffset = 768 := rfl
  let zero : Machine := { m with fpr := Function.update m.fpr 0 (m.word 0) }
  let r := f.msub zero.acc (zero.fpr 0) (zero.fpr 0) (zero.narrow .fcr31)
  let sum : Machine := { zero with
    fpr := Function.update zero.fpr 0 r.1
    narrow := Function.update zero.narrow .fcr31 r.2 }
  have haligned : statusOffset % 4 = 0 := by decide
  obtain ⟨mem', hrun, _, hrest⟩ := run_swc1 (f := f) (m := sum) [0] hb hb4 haligned fun r hr => by
    rw [List.mem_singleton.mp hr]
    omega
  simp only [List.map_cons, List.map_nil, List.mem_singleton, forall_eq, Nat.mul_zero,
    Nat.add_zero] at hrun hrest
  refine ⟨{ sum with mem := mem' }, ?_, rfl, ?_, hrest⟩
  · rw [run, exec, Option.bind_some, run, exec, Option.bind_some]
    exact hrun
  · intro x hx
    cases x with
    | wide x => rfl
    | narrow x =>
      have hx : x ≠ .fcr31 := fun he => hx (congrArg Special.narrow he)
      exact congrArg (BitVec.signExtend 64) (Function.update_of_ne hx ..)

theorem run_callIrqInterrupt (L : Layout) (f : Fpu) (m : Machine) :
    ∃ m', run f (callIrqInterrupt L) m = some m' ∧
      m'.word sp = m.word sp - BitVec.ofNat 32 stackOverhead ∧ m'.mem = m.mem := by
  have hsp : sp ≠ 0 := by decide
  have ha0 : a0 ≠ 0 ∧ sp ≠ a0 := by decide
  have hgp : gp ≠ 0 ∧ sp ≠ gp := by decide
  have ht9 : t9 ≠ 0 ∧ sp ≠ t9 := by decide
  cases hee : L.ps2Ee with
  | true =>
    simp only [callIrqInterrupt, hee, if_true, List.nil_append, List.append_nil, run, exec,
      Option.bind_some, Option.some.injEq, exists_eq_left']
    rw [word_setLow hsp, word_setLow_of_ne ha0.1 ha0.2, BitVec.sub_eq_add_neg]
    exact ⟨rfl, rfl⟩
  | false =>
    simp only [callIrqInterrupt, hee, Bool.false_eq_true, if_false, List.cons_append,
      List.nil_append, run, exec, Option.bind_some, Option.some.injEq, exists_eq_left']
    rw [word_setLow_of_ne ht9.1 ht9.2, word_setLow_of_ne ht9.1 ht9.2, word_setLow hsp,
      word_setLow_of_ne ha0.1 ha0.2, word_setLow_of_ne hgp.1 hgp.2, word_setLow_of_ne hgp.1 hgp.2,
      BitVec.sub_eq_add_neg]
    exact ⟨rfl, rfl⟩

theorem run_saveSpecials (hb : (m.word sp).toNat = b) (h : Frame b) (hb4 : b % 4 = 0) :
    ∃ m', run f ([saveEpc, saveFcr31].flatMap (Slot.save sp) ++ (List.range 32).map saveFpu ++
        [.mtc1 0 0, .msub 0 0 0, .swc1 0 (BitVec.ofNat 32 statusOffset) sp] ++
        multiply.flatMap (Slot.save sp)) m = some m' ∧
      m'.word sp = m.word sp ∧
      (∀ r < 32, m'.mem ((b + (fpuOffset + 8 * r)) / 4) = m.fpr r) ∧
      (∀ x, m'.mem ((b + place x) / 4) = (m.special x).setWidth 32) ∧
      ∀ w, w < (b + fpuOffset) / 4 → m'.mem w = m.mem w := by
  have hfpu : fpuOffset = 512 := rfl
  have hstatus : statusOffset = 768 := rfl
  have hstatusSlots := fun p (hp : p ∈ [saveEpc, saveFcr31]) =>
    status_slots p (List.mem_append_left [restoreFcr31, restoreEpc] hp)
  obtain ⟨m1, hrun1, hsp1, hspecial1, hfpr1, hslots1, hrest1⟩ := run_saves (f := f) (m := m)
    [saveEpc, saveFcr31] hb hb4 (fun p hp => h.fits_status p (List.mem_append_left _ hp))
    (by decide)
  have hb1 : (m1.word sp).toNat = b := (congrArg BitVec.toNat hsp1).trans hb
  obtain ⟨mem2, hrun2, hfpr2, hrest2⟩ := run_swc1 (f := f) (m := m1) (List.range 32) hb1 hb4
    (show fpuOffset % 4 = 0 from rfl) h.fits_fpu
  have hrun2 : run f ((List.range 32).map saveFpu) m1 = some { m1 with mem := mem2 } := hrun2
  obtain ⟨m3, hrun3, hsp3, hspecial3, hrest3⟩ := run_saveAcc (f := f)
    (m := { m1 with mem := mem2 }) hb1 h hb4
  have hb3 : (m3.word sp).toNat = b := (congrArg BitVec.toNat hsp3).trans hb1
  obtain ⟨m4, hrun4, hsp4, _, _, hslots4, hrest4⟩ := run_saves (f := f) (m := m3) multiply hb3 hb4
    h.fits_multiply (by decide)
  -- the accumulator and the registers of multiplication have the words from `statusOffset` to `sa`
  have hrest (w : Nat) (hw : w < (b + statusOffset) / 4 ∨ (b + 796) / 4 ≤ w) :
      m4.mem w = mem2 w := by
    rw [hrest4 w fun p hp => by have := multiply_slots p hp; omega]
    exact hrest3 w (by omega)
  refine ⟨m4, ?_, hsp4.trans (hsp3.trans hsp1), ?_, ?_, ?_⟩
  · rw [run_append, run_append, run_append, hrun1, Option.bind_some, hrun2, Option.bind_some, hrun3,
      Option.bind_some, hrun4]
  · intro r hr
    rw [hrest _ (by omega), hfpr2 r (List.mem_range.mpr hr), hfpr1]
  · intro x
    cases special_cases x with
    | inl hx =>
      obtain ⟨p, hp, rfl⟩ := hx
      obtain ⟨_, _, _, _, _, hplace, hne⟩ := multiply_slots p hp
      rw [← hplace, hslots4 p hp, hspecial3 p.special hne]
      exact congrArg (BitVec.setWidth 32) (congrFun hspecial1 p.special)
    | inr hx =>
      obtain ⟨p, hp, rfl⟩ := hx.1
      obtain ⟨hlow, _, _, _, _, hplace⟩ := hstatusSlots p hp
      rw [← hplace, hrest _ (by omega), hrest2 _ fun r hr => by
        have := List.mem_range.mp hr
        omega]
      exact hslots1 p hp
  · intro w hw
    rw [hrest w (by omega), hrest2 w fun r _ => by omega]
    exact hrest1 w fun p hp => by
      have := (hstatusSlots p hp).1
      omega

theorem run_saveContext (hb : (m.word sp).toNat = b) (h : Frame b) (hb4 : b % 4 = 0) :
    ∃ m', run f saveContext m = some m' ∧ m'.word sp = m.word sp ∧ Saved m b m'.mem := by
  have hfpu : fpuOffset = 512 := rfl
  obtain ⟨mem1, hrun1, hregs, hstack⟩ := run_saveRegs (f := f) hb h
  obtain ⟨m2, hrun2, hsp2, hfpr, hspecial, hrest⟩ := run_saveSpecials (f := f)
    (m := { m with mem := mem1 }) hb h hb4
  have hquad (r : Nat) (hr : r < 32) : quadAt m2.mem (b / 16 + r) = quadAt mem1 (b / 16 + r) := by
    apply quadAt_congr
    intro w hw
    exact hrest w (by omega)
  refine ⟨m2, ?_, hsp2, ?_, ?_, hfpr, hspecial⟩
  · rw [run_append, run_append, run_append] at hrun2
    rw [saveContext, run_append, run_append, run_append, run_append, hrun1, Option.bind_some, hrun2]
  · intro r hr _
    rw [hquad r (mem_regs_lt r hr).1, hregs r hr]
  · rw [hquad sp (by decide), hstack]

/-- The first word that is stored is at a wrong address. -/
theorem run_saveContext_misaligned (hb : (m.word sp).toNat = b) (h : Frame b) (hb4 : b % 4 ≠ 0) :
    run f saveContext m = none := by
  obtain ⟨mem1, hrun1, _⟩ := run_saveRegs (f := f) hb h
  have hfits := h.fits_status saveEpc (List.mem_append_left _ List.mem_cons_self)
  have hfirst := hfits.run_save_misaligned (f := f) (m := { m with mem := mem1 }) hb hb4
  rw [saveContext, run_append, run_append, run_append, run_append, hrun1, Option.bind_some,
    List.flatMap_cons, run_append, hfirst]
  rfl

theorem Saved.congr {mem mem' : Nat → BitVec 32} (h : Saved s b mem) (hb4 : b % 4 = 0)
    (hsame : ∀ w, b ≤ 4 * w → 4 * w < b + contextSize → mem' w = mem w) : Saved s b mem' := by
  have hsize : contextSize = 816 := rfl
  refine ⟨?_, ?_, ?_, ?_⟩
  · intro r hr h0
    have hlt := (mem_regs_lt r hr).1
    rw [← h.gpr r hr h0]
    exact quadAt_congr fun w hw => hsame w (by omega) (by omega)
  · rw [← h.stack]
    exact quadAt_congr fun w hw => hsame w (by rw [sp] at hw; omega) (by rw [sp] at hw; omega)
  · intro r hr
    rw [← h.fpr r hr]
    exact hsame _ (by rw [fpuOffset]; omega) (by rw [fpuOffset]; omega)
  · intro x
    have hplace := place_bounds x
    rw [← h.special x]
    exact hsame _ (by omega) (by omega)

theorem run_restoreAcc (hb : (m.word sp).toNat = b) (h : Frame b) (hb4 : b % 4 = 0) :
    ∃ m', run f [.lwc1 0 (BitVec.ofNat 32 statusOffset) sp, .mtc1 0 1, .suba 0 1] m = some m' ∧
      m'.word sp = m.word sp ∧ m'.mem = m.mem ∧
      ∀ x, x ≠ .narrow .fcr31 → m'.special x = m.special x := by
  have habove := h.above
  have hoffset : statusOffset = 768 := rfl
  have haddr : m.address (BitVec.ofNat 32 statusOffset) sp = b + statusOffset :=
    address_eq hb (by omega)
  have haligned : (b + statusOffset) % 4 = 0 := by omega
  simp only [run, exec, haddr, if_pos haligned, Option.bind_some, Option.some.injEq,
    exists_eq_left']
  refine ⟨rfl, trivial, ?_⟩
  intro x hx
  cases x with
  | wide x => rfl
  | narrow x =>
    have hx : x ≠ .fcr31 := fun he => hx (congrArg Special.narrow he)
    exact congrArg (BitVec.signExtend 64) (Function.update_of_ne hx ..)

theorem run_restoreSpecials (hb : (m.word sp).toNat = b) (h : Frame b) (hb4 : b % 4 = 0)
    (hs : Saved s b m.mem) :
    ∃ m', run f (multiply.flatMap (Slot.restore sp) ++
        [.lwc1 0 (BitVec.ofNat 32 statusOffset) sp, .mtc1 0 1, .suba 0 1] ++
        (List.range 32).map restoreFpu ++
        [restoreFcr31, restoreEpc].flatMap (Slot.restore sp)) m = some m' ∧
      m'.word sp = m.word sp ∧ m'.mem = m.mem ∧ (∀ r < 32, m'.fpr r = s.fpr r) ∧
      ∀ x, m'.special x = ((s.special x).setWidth 32).signExtend 64 := by
  obtain ⟨m1, hrun1, hsp1, hmem1, _, hslots1, _⟩ := run_restores (f := f) (m := m) multiply hb hb4
    h.fits_multiply (by decide)
  have hb1 : (m1.word sp).toNat = b := (congrArg BitVec.toNat hsp1).trans hb
  obtain ⟨m2, hrun2, hsp2, hmem2, hspecial2⟩ := run_restoreAcc (f := f) hb1 h hb4
  have hb2 : (m2.word sp).toNat = b := (congrArg BitVec.toNat hsp2).trans hb1
  obtain ⟨fpr3, hrun3, hfpr3⟩ := run_lwc1 (f := f) (m := m2) (List.range 32) hb2 hb4
    (show fpuOffset % 4 = 0 from rfl) h.fits_fpu
  have hrun3 : run f ((List.range 32).map restoreFpu) m2 = some { m2 with fpr := fpr3 } := hrun3
  obtain ⟨m4, hrun4, hsp4, hmem4, hfpr4, hslots4, hrest4⟩ := run_restores (f := f)
    (m := { m2 with fpr := fpr3 }) [restoreFcr31, restoreEpc] hb2 hb4
    (fun p hp => h.fits_status p (List.mem_append_right _ hp)) (by decide)
  have hmem : m2.mem = m.mem := hmem2.trans hmem1
  refine ⟨m4, ?_, hsp4.trans (hsp2.trans hsp1), hmem4.trans hmem, ?_, ?_⟩
  · rw [run_append, run_append, run_append, hrun1, Option.bind_some, hrun2, Option.bind_some, hrun3,
      Option.bind_some, hrun4]
  · intro r hr
    rw [hfpr4]
    show fpr3 r = _
    rw [hfpr3, if_pos (List.mem_range.mpr hr), hmem]
    exact hs.fpr r hr
  · intro x
    cases special_cases x with
    | inl hx =>
      obtain ⟨p, hp, rfl⟩ := hx
      obtain ⟨_, _, _, _, _, hplace, hne⟩ := multiply_slots p hp
      rw [hrest4 _ (multiply_not_status p hp)]
      show m2.special p.special = _
      rw [hspecial2 _ hne, hslots1 p hp, hplace, hs.special]
    | inr hx =>
      obtain ⟨p, hp, rfl⟩ := hx.2
      obtain ⟨_, _, _, _, _, hplace⟩ := status_slots p (List.mem_append_right _ hp)
      rw [hslots4 p hp, hplace]
      show (m2.mem _).signExtend 64 = _
      rw [hmem, hs.special]

/-- The stack pointer comes last, as the others are found with it. -/
theorem run_restoreRegs (hb : (m.word sp).toNat = b) (h : Frame b) (hs : Saved s b m.mem) :
    ∃ m', run f (regs.map restoreReg ++ [restoreReg sp]) m = some m' ∧
      (∀ r ∈ regs, m'.reg r = s.reg r) ∧ m'.reg sp = s.reg k0 ∧
      m'.fpr = m.fpr ∧ m'.special = m.special := by
  have habove := h.above
  have hsp0 : sp ≠ 0 := by decide
  obtain ⟨m1, hrun1, hreg1, hmem1, hwide1, hnarrow1, hfpr1⟩ := run_lq (f := f) (m := m) regs hb
    (by decide) h.fits_regs
  have hrun1 : run f (regs.map restoreReg) m = some m1 := hrun1
  have hb1 : (m1.word sp).toNat = b := by
    rw [Machine.word, hreg1, if_neg (by decide)]
    exact hb
  have haddr : m1.address (BitVec.ofNat 32 (16 * sp)) sp = b + 16 * sp :=
    address_eq hb1 (by rw [sp]; omega)
  have hquad : (b + 16 * sp) / 16 = b / 16 + sp := by omega
  refine ⟨m1.setQuad sp (quadAt m.mem (b / 16 + sp)), ?_, ?_, ?_, hfpr1, ?_⟩
  · rw [run_append, hrun1, Option.bind_some, run, restoreReg, exec, haddr, hquad, hmem1,
      Option.bind_some, run]
  · intro r hr
    rw [reg_setQuad, if_neg fun h => (mem_regs_lt r hr).2 h.1, hreg1]
    by_cases h0 : r = 0
    · rw [h0]
      rfl
    · rw [if_pos ⟨hr, h0⟩, hs.gpr r hr h0]
  · rw [reg_setQuad, if_pos ⟨rfl, hsp0⟩, hs.stack]
  · funext x
    cases x with
    | wide x => exact congrFun hwide1 x
    | narrow x => exact congrArg (BitVec.signExtend 64) (congrFun hnarrow1 x)

theorem run_restore (hb : (m.word sp).toNat + stackOverhead = b) (h : Frame b) (hb4 : b % 4 = 0)
    (hs : Saved s b m.mem) : ∃ m', run f restore m = some m' ∧ Restored s m' := by
  have habove := h.above
  let m1 := m.setLow sp ((m.word sp + BitVec.ofNat 32 stackOverhead).signExtend 64)
  have hrun1 : run f [.addiu sp sp (BitVec.ofNat 32 stackOverhead)] m = some m1 := by
    rw [run, exec, Option.bind_some, run]
  have hb1 : (m1.word sp).toNat = b := by
    rw [word_setLow (by decide), BitVec.toNat_add, BitVec.toNat_ofNat]
    omega
  obtain ⟨m2, hrun2, hsp2, hmem2, hfpr2, hspecial2⟩ := run_restoreSpecials (f := f) hb1 h hb4 hs
  have hb2 : (m2.word sp).toNat = b := (congrArg BitVec.toNat hsp2).trans hb1
  obtain ⟨m3, hrun3, hgpr, hstack, hfpr3, hspecial3⟩ := run_restoreRegs (f := f) hb2 h
    (hmem2.symm ▸ hs : Saved s b m2.mem)
  refine ⟨m3, ?_, hgpr, hstack, ?_, ?_⟩
  · rw [run_append, run_append, run_append] at hrun2
    rw [run_append] at hrun3
    rw [restore, run_append, run_append, run_append, run_append, run_append, run_append, hrun1,
      Option.bind_some, hrun2, Option.bind_some, hrun3]
  · intro r hr
    rw [hfpr3, hfpr2 r hr]
  · intro x
    rw [hspecial3, hspecial2]

end Context

section Handler
variable {L : Layout} {m : Machine}

theorem reg_entered (hk : r ≠ k0) (hs : r ≠ sp) : (entered m).reg r = m.reg r := by
  rw [entered, reg_setLow_of_ne (by decide) hs, reg_setLow_of_ne (by decide) hk]

theorem reg_entered_k0 (m : Machine) :
    (entered m).reg k0 = m.high k0 ++ (m.word sp).signExtend 64 := by
  rw [entered, reg_setLow_of_ne (by decide) (by decide), reg_setLow (by decide), if_pos rfl]

theorem word_entered (m : Machine) : (entered m).word sp = usedStack m - 832#32 :=
  word_setLow (by decide) _

theorem special_entered (m : Machine) : (entered m).special = m.special := by
  rw [entered, special_setLow, special_setLow]

theorem le_usedStack (m : Machine) : 2 ^ 31 ≤ (usedStack m).toNat := by
  rw [usedStack]
  by_cases h : (m.word sp).msb = true
  · rw [if_pos h]
    exact BitVec.le_toNat_of_msb_true h
  · rw [if_neg h]
    decide

theorem toNat_entered (m : Machine) : ((entered m).word sp).toNat + 832 = (usedStack m).toNat := by
  have hle := le_usedStack m
  have hlt := (usedStack m).isLt
  have hconst : (832#32).toNat = 832 := rfl
  rw [word_entered, BitVec.toNat_sub, hconst]
  omega

theorem frame_entered (m : Machine) : Frame ((entered m).word sp).toNat := by
  have hsum := toNat_entered m
  have hle := le_usedStack m
  have hlt := (usedStack m).isLt
  have hoverhead : stackOverhead = 16 := rfl
  exact ⟨by omega, by omega⟩

variable {s : Interrupted L}

theorem handler_restored (f : Fpu) (irq : Irq) (hal : (usedStack s.machine).toNat % 4 = 0) :
    ∃ m', interruptExceptionHandler L f irq s.machine = some m' ∧
      Restored (entered s.machine) m' := by
  have hsum := toNat_entered s.machine
  have hframe := frame_entered s.machine
  have hbelow := hframe.below
  have hb4 : ((entered s.machine).word sp).toNat % 4 = 0 := by omega
  obtain ⟨m1, hrun1, hsp1, hsaved⟩ := run_saveContext (f := f) rfl hframe hb4
  obtain ⟨m2, hrun2, hsp2, hmem2⟩ := run_callIrqInterrupt L f m1
  have hb2 : (m2.word sp).toNat + stackOverhead = ((entered s.machine).word sp).toNat := by
    have hlt := ((entered s.machine).word sp).isLt
    have hoverhead : (BitVec.ofNat 32 stackOverhead).toNat = stackOverhead := rfl
    have hsize : stackOverhead = 16 := rfl
    rw [hsp2, hsp1, BitVec.toNat_sub, hoverhead]
    omega
  -- the context is above the stack pointer of the call
  have hkept : Saved (entered s.machine) ((entered s.machine).word sp).toNat (irq.call m2).mem := by
    apply hsaved.congr hb4
    intro w hlow hhigh
    rw [irq.keeps_frame m2 w (by omega) (by omega), hmem2]
  have hb : ((irq.call m2).word sp).toNat + stackOverhead =
      ((entered s.machine).word sp).toNat := by
    rw [irq.keeps_sp, hb2]
  obtain ⟨m', hrun, hrestored⟩ := run_restore (f := f) hb hframe hb4 hkept
  refine ⟨m', ?_, hrestored⟩
  rw [handler_eq, save, run_append, hrun1, Option.bind_some, hrun2, Option.bind_some, hrun]

theorem handler_misaligned (f : Fpu) (irq : Irq) (hal : (usedStack s.machine).toNat % 4 ≠ 0) :
    interruptExceptionHandler L f irq s.machine = none := by
  have hsum := toNat_entered s.machine
  have hb4 : ((entered s.machine).word sp).toNat % 4 ≠ 0 := by omega
  have hrun := run_saveContext_misaligned (f := f) rfl (frame_entered s.machine) hb4
  rw [handler_eq, save, run_append, hrun]
  rfl

theorem mem_regs : ∀ r < 32, r ≠ sp → r ∈ regs := by decide

/-- What the saved context can hold of the registers: words of those of multiplication, and the
stack pointer as the copy in `k0` has it. -/
structure Restorable (m : Machine) : Prop where
  wide : ∀ x, ((m.wide x).setWidth 32).signExtend 64 = m.wide x
  upper : m.high sp = m.high k0
  lower : m.low sp = (m.word sp).signExtend 64
  aligned : (m.word sp).msb = true → (m.word sp).toNat % 4 = 0

theorem usedStack_aligned_iff (m : Machine) : (usedStack m).toNat % 4 = 0 ↔
    ((m.word sp).msb = true → (m.word sp).toNat % 4 = 0) := by
  by_cases h : (m.word sp).msb = true
  · rw [usedStack, if_pos h]
    exact ⟨fun hal _ => hal, fun hal => hal h⟩
  · rw [usedStack, if_neg h]
    exact ⟨fun _ hmsb => absurd hmsb h, fun _ => by decide⟩

theorem Restored.wide {m' : Machine} (h : Restored (entered m) m') (x : Wide) :
    m'.wide x = ((m.wide x).setWidth 32).signExtend 64 := by
  have hx := h.special (.wide x)
  rw [special_entered] at hx
  exact hx

theorem Restored.narrow {m' : Machine} (h : Restored (entered m) m') (x : Narrow) :
    m'.narrow x = m.narrow x := by
  have hx := congrArg (BitVec.setWidth 32) (h.special (.narrow x))
  rw [special_entered, setWidth_signExtend] at hx
  have hword : ((m'.narrow x).signExtend 64).setWidth 32 =
      ((m.narrow x).signExtend 64).setWidth 32 := hx
  rw [setWidth_signExtend, setWidth_signExtend] at hword
  exact hword

theorem Restored.reg_sp {m' : Machine} (h : Restored (entered m) m') :
    m'.reg sp = m.high k0 ++ (m.word sp).signExtend 64 := by
  rw [h.stack, reg_entered_k0]

theorem interrupt_unnoticed_iff (L : Layout) (f : Fpu) (irq : Irq) (s : Interrupted L) :
    (∃ m', interruptExceptionHandler L f irq s.machine = some m' ∧ Unnoticed s.machine m') ↔
      Restorable s.machine := by
  constructor
  · intro ⟨m', hm', hsame⟩
    -- the handler would not return from a stack that is not aligned
    have hal : (usedStack s.machine).toNat % 4 = 0 := by
      by_contra hal
      rw [handler_misaligned f irq hal] at hm'
      cases hm'
    obtain ⟨m'', hm'', hrestored⟩ := handler_restored f irq hal
    obtain rfl : m'' = m' := Option.some.inj (hm''.symm.trans hm')
    have hsp := hsame.gpr sp (by decide) (by decide) (by decide)
    rw [hrestored.reg_sp, reg_eq s.machine sp, append_inj_iff] at hsp
    refine ⟨?_, hsp.1.symm, hsp.2.symm, (usedStack_aligned_iff s.machine).mp hal⟩
    intro x
    rw [← hrestored.wide x, hsame.wide x]
  · intro h
    obtain ⟨m', hm', hrestored⟩ := handler_restored f irq
      ((usedStack_aligned_iff s.machine).mpr h.aligned)
    refine ⟨m', hm', ?_, hrestored.fpr, ?_, hrestored.narrow⟩
    · intro r hr hk0 _
      by_cases hsp : r = sp
      · rw [hsp, hrestored.reg_sp, reg_eq s.machine sp, h.upper, h.lower]
      · rw [hrestored.gpr r (mem_regs r hr hsp), reg_entered hk0 hsp]
    · intro x
      rw [hrestored.wide x, h.wide x]

def image : Layout := ⟨true, 0x80015000#32, 0x80011000#32, 0x8001c000#32, rfl⟩

def exactFpu : Fpu := ⟨fun acc _ _ fcr31 => (acc, fcr31), fun fs _ fcr31 => (fs, fcr31)⟩

/-- An `irq_interrupt` that changes nothing. -/
def noIrq : Irq := ⟨id, fun _ => rfl, fun _ _ _ _ => rfl⟩

/-- A program that has a product of 64 bits and uses the upper half of the stack pointer. -/
def wideProgram : Interrupted image where
  machine := {
    gpr := fun r => if r = sp then 1#64 ++ 0x1fff0#64 else 0
    wide := fun _ => 0x100000002#64
    narrow := fun _ => 0
    fpr := fun _ => 0
    acc := 0
    mem := fun _ => kernelStack }
  stack := rfl

theorem interrupt_loses_halves :
    ∃ m', interruptExceptionHandler image exactFpu noIrq wideProgram.machine = some m' ∧
      wideProgram.machine.wide .hi = 0x100000002#64 ∧ m'.wide .hi = 2#64 ∧
      wideProgram.machine.reg sp = 1#64 ++ 0x1fff0#64 ∧ m'.reg sp = 0#64 ++ 0x1fff0#64 := by
  obtain ⟨m', hm', hrestored⟩ := handler_restored (s := wideProgram) exactFpu noIrq (by decide)
  refine ⟨m', hm', rfl, ?_, rfl, ?_⟩
  · rw [hrestored.wide]
    decide
  · rw [hrestored.reg_sp]
    decide

end Handler

end KernelLoader.Kernel.Interrupt
