import KernelLoader.Kernel.Exceptions

namespace KernelLoader.Kernel.Syscall
open Lib Lib.R5900 Interrupt Exceptions
set_option autoImplicit true
set_option relaxedAutoImplicit false

def v1 : Nat := 3

/-- The functions of system calls, by the addresses that the linker gives to them. -/
structure SyscallLayout extends ErrorLayout where
  syscallTable : BitVec 32
  unknownSyscall : BitVec 32
  tableAligned : syscallTable.toNat % 4 = 0
  tableFits : syscallTable.toNat + 4 * 130 < 2 ^ 32

/-- The labels of `commonExceptionHandler`. -/
inductive Label
  | entry | error | callSyscallHandler | negativeSyscall | lookup | call | undefinedSyscall
  | commonExceptionHandlerExit

/-- The register that takes the address of a function. -/
def SyscallLayout.target (L : SyscallLayout) : Nat := if L.ps2Ee then k0 else t9

def store (r offset : Nat) : Op := .base (.sw r (BitVec.ofNat 32 (stackOverhead + offset)) sp)
def load (r offset : Nat) : Op := .base (.lw r (BitVec.ofNat 32 (stackOverhead + offset)) sp)

def commonExceptionHandler (L : SyscallLayout) : Flow.Code Op Test Label
  | .entry =>
    ⟨[.sync, .mfcause k0, .srl k0 k0 2, .andi k0 k0 0x1f, .base (.addiu k1 0 8#32)],
      .branch (.eq k0 k1) .nop .callSyscallHandler .error⟩
  | .error => ⟨commonError L.toErrorLayout, .ret .nop⟩
  | .callSyscallHandler =>
    ⟨[], .likely (.ltz v1) (.negu v1 v1) .negativeSyscall .negativeSyscall⟩
  | .negativeSyscall =>
    ⟨[.base (.addiu sp sp (-BitVec.ofNat 32 (stackOverhead + 16))), store ra 0, store gp 8,
       store t9 12] ++ loadGp L.toErrorLayout ++
      [.sync, .base (.mf k0 (.narrow .epc)), .base (.addiu k0 k0 4), store k0 4,
       .base (.mt k0 (.narrow .epc)), .sync, .sltiu k0 v1 130],
      .branch (.lez k0) .nop .undefinedSyscall .lookup⟩
  | .lookup =>
    ⟨la k0 L.syscallTable ++
      [.sll k1 v1 2, .addu k0 k0 k1, .base (.lw L.target 0#32 k0)],
      .branch (.eq L.target 0) .nop .undefinedSyscall .call⟩
  | .call => ⟨[.jalr L.target], .jump .nop .commonExceptionHandlerExit⟩
  | .undefinedSyscall =>
    ⟨[.base (.move a0 v1)] ++ callFn L.toErrorLayout L.unknownSyscall,
      .fall .commonExceptionHandlerExit⟩
  | .commonExceptionHandlerExit =>
    ⟨[load k0 4, load ra 0, load gp 8, load t9 12,
      .base (.addiu sp sp (BitVec.ofNat 32 (16 + stackOverhead))), .base (.mt k0 (.narrow .epc)),
      .sync, .sync], .ret .nop⟩

/-- What a function that is called keeps: the stack pointer and the frame of the caller. -/
structure Abi (b : Nat) (before after : Machine) : Prop where
  sp : after.word sp = before.word sp
  frame : ∀ w, b + 16 ≤ 4 * w → 4 * w < b + 32 → after.mem w = before.mem w

/-- The registers in the frame and their places in it. -/
def slots : List (Nat × Nat) := [(ra, 0), (gp, 2), (t9, 3)]

/-- The words that the handler keeps in its frame. -/
structure Kept (s : Machine) (b : Nat) (mem : Nat → BitVec 32) : Prop where
  words : ∀ p ∈ slots, mem ((b + 16) / 4 + p.2) = s.word p.1
  epc : mem ((b + 16) / 4 + 1) = s.narrow .epc + 4

/-- How a system call looks to its caller: it goes on behind the instruction with the stack where it
was, and the registers of the kernel are as they were. Of the others only `k0` has changed since
the function returned. -/
structure Returned (s r t : Machine) : Prop where
  epc : t.narrow .epc = s.narrow .epc + 4
  words : ∀ x ∈ [sp, ra, gp, t9], t.low x = (s.word x).signExtend 64
  regs : ∀ x, x ∉ [k0, sp, ra, gp, t9] → t.reg x = r.reg x
  mem : t.mem = r.mem

variable {L : SyscallLayout} {w : World} {s m r c : Machine} {b : Nat} {a : BitVec 64}

theorem setSpecial_epc (m : Machine) (x : Nat) :
    m.setSpecial x (.narrow .epc) = m.setEpc (m.word x) := rfl

theorem exit_ends (hb : (r.word sp).toNat = b) (hsp : r.word sp + 32 = s.word sp)
    (hb4 : b % 4 = 0) (hfit : b + 32 < 2 ^ 32) (hkept : Kept s b r.mem) :
    w.isa.Ends (commonExceptionHandler L) .commonExceptionHandlerExit r (Returned s r) := by
  have hload (m : Machine) (hm : m.word sp = r.word sp) (x offset : Nat) (ho : offset % 4 = 0)
      (hlt : offset < 16) : execOp w (load x offset) m =
        some (m.setLow x ((m.mem ((b + 16) / 4 + offset / 4)).signExtend 64)) := by
    have hplace : (b + (16 + offset)) / 4 = (b + 16) / 4 + offset / 4 := by omega
    rw [load, stackOverhead, exec_lw w m (by rw [hm]; exact hb) hb4 (by omega) (by omega), hplace]
  apply Flow.Isa.Ends.block
  refine ⟨_, hload _ rfl k0 4 rfl (by decide), _, hload _ ?_ ra 0 rfl (by decide), _,
    hload _ ?_ gp 8 rfl (by decide), _, hload _ ?_ t9 12 rfl (by decide), _, rfl, _, rfl, _, rfl,
    _, rfl, _, rfl, ?_⟩
  · simp [Machine.word_setLow_eq, k0, sp]
  · simp [Machine.word_setLow_eq, k0, sp, ra]
  · simp [Machine.word_setLow_eq, k0, sp, ra, gp]
  · rw [setSpecial_epc]
    constructor
    · simp -implicitDefEqProofs [Machine.word_setLow_eq, k0, sp, ra, gp, t9, setWidth_signExtend,
        hkept.epc]
    · intro x hx
      rw [Machine.low_setEpc]
      simp only [List.mem_cons, List.not_mem_nil, or_false] at hx
      rcases hx with rfl | rfl | rfl | rfl
      · rw [← hsp]
        simp -implicitDefEqProofs [Machine.word_setLow_eq, Machine.low_setLow_eq, k0, sp, ra, gp,
          t9]
        rfl
      · simp -implicitDefEqProofs [Machine.low_setLow_eq, k0, sp, ra, gp, t9]
        exact congrArg _ (hkept.words (ra, 0) (by decide))
      · simp -implicitDefEqProofs [Machine.low_setLow_eq, k0, sp, ra, gp, t9]
        exact congrArg _ (hkept.words (gp, 2) (by decide))
      · simp -implicitDefEqProofs [Machine.low_setLow_eq, k0, sp, ra, gp, t9]
        exact congrArg _ (hkept.words (t9, 3) (by decide))
    · intro x hx
      simp only [List.mem_cons, List.not_mem_nil, or_false, not_or] at hx
      obtain ⟨hk0, hsp, hra, hgp, ht9⟩ := hx
      rw [Machine.reg_setEpc, reg_setLow_of_ne (by decide) hsp, reg_setLow_of_ne (by decide) ht9,
        reg_setLow_of_ne (by decide) hgp, reg_setLow_of_ne (by decide) hra,
        reg_setLow_of_ne (by decide) hk0]
    · rfl

/-- The machine behind the instructions that make the frame: `m` is the machine before, and `a` the
first argument. -/
structure Framed (L : SyscallLayout) (b : Nat) (a : BitVec 64) (m c : Machine) : Prop where
  sp : (c.word sp).toNat = b ∧ c.word sp + 32 = m.word sp
  kept : Kept m b c.mem
  mem : ∀ w, ¬ (b + 16 ≤ 4 * w ∧ 4 * w < b + 32) → c.mem w = m.mem w
  arg : c.low a0 = a
  regs : ∀ x, x ∉ [a0, k0, k1, Interrupt.gp, t9, Interrupt.sp, ra] → c.reg x = m.reg x
  gp : L.ps2Ee = false → c.word gp = L.gp
  epc : c.narrow .epc = m.narrow .epc + 4

theorem Framed.set {a' v : BitVec 64} (h : Framed L b a m c) (hx : x ∈ [a0, k0, k1, t9, ra])
    (ha : (c.setLow x v).low a0 = a') : Framed L b a' m (c.setLow x v) := by
  have hx0 : x ≠ 0 ∧ Interrupt.sp ≠ x ∧ Interrupt.gp ≠ x ∧
      x ∈ [a0, k0, k1, Interrupt.gp, t9, Interrupt.sp, ra] := by
    clear ha
    revert x
    decide
  obtain ⟨hzero, hsp, hgp, hmem⟩ := hx0
  refine ⟨?_, h.kept, h.mem, ha, ?_, ?_, h.epc⟩
  · rw [word_setLow_of_ne hzero hsp]
    exact h.sp
  · intro y hy
    have hne : y ≠ x := by
      rintro rfl
      exact hy hmem
    rw [reg_setLow_of_ne hzero hne]
    exact h.regs y hy
  · intro hee
    rw [word_setLow_of_ne hzero hgp]
    exact h.gp hee

theorem Framed.setLow (h : Framed L b a m c) (hx : x ∈ [k0, k1, t9, ra]) (v : BitVec 64) :
    Framed L b a m (c.setLow x v) := by
  have hx0 : x ≠ 0 ∧ a0 ≠ x := by
    revert x
    decide
  apply h.set (List.mem_cons_of_mem a0 hx)
  rw [Machine.low_setLow_eq hx0.1, if_neg hx0.2]
  exact h.arg

/-- The memory with the registers of the caller. -/
def savedMem (m : Machine) (k : Nat) : Nat → BitVec 32 :=
  Function.update (Function.update (Function.update m.mem k (m.word ra)) (k + 2) (m.word gp))
    (k + 3) (m.word t9)

/-- The memory with the frame of a system call. -/
def frameMem (m : Machine) (k : Nat) : Nat → BitVec 32 :=
  Function.update (savedMem m k) (k + 1) (m.narrow .epc + 4)

theorem frameMem_kept (m : Machine) (b : Nat) : Kept m b (frameMem m ((b + 16) / 4)) := by
  constructor
  · intro p hp
    simp only [slots, List.mem_cons, List.not_mem_nil, or_false] at hp
    rcases hp with rfl | rfl | rfl <;> simp [frameMem, savedMem]
  · simp [frameMem]

theorem frameMem_other (hb4 : b % 4 = 0) (hw : ¬ (b + 16 ≤ 4 * i ∧ 4 * i < b + 32)) :
    frameMem m ((b + 16) / 4) i = m.mem i := by
  rw [frameMem, savedMem, Function.update_of_ne (by omega), Function.update_of_ne (by omega),
    Function.update_of_ne (by omega), Function.update_of_ne (by omega)]

/-- The machine behind the instructions that make the frame. -/
def framed (L : SyscallLayout) (b : Nat) (p : BitVec 32) (m : Machine) : Machine :=
  ((((loaded L.toErrorLayout gp L.gp (m.setLow sp (p.signExtend 64))).setLow k0
    ((m.narrow .epc + 4).signExtend 64)).setMem (frameMem m ((b + 16) / 4))).setEpc
      (m.narrow .epc + 4)).setLow k0
      (if m.low v1 < 130 then 1 else 0)

theorem reg_framed {p : BitVec 32} (hx : x ∉ [k0, Interrupt.gp, Interrupt.sp]) :
    (framed L b p m).reg x = m.reg x := by
  simp only [List.mem_cons, List.not_mem_nil, or_false, not_or] at hx
  obtain ⟨hk0, hgp, hsp⟩ := hx
  rw [framed, reg_setLow_of_ne (by decide) hk0, Machine.reg_setEpc, Machine.reg_setMem,
    reg_setLow_of_ne (by decide) hk0, reg_loaded (by decide) hgp,
    reg_setLow_of_ne (by decide) hsp]

theorem word_sp_framed (L : SyscallLayout) (b : Nat) (p : BitVec 32) (m : Machine) :
    (framed L b p m).word sp = p := by
  rw [framed, word_setLow_of_ne (by decide) (by decide), Machine.word_setEpc, Machine.word_setMem,
    word_setLow_of_ne (by decide) (by decide), Machine.word, reg_loaded (by decide) (by decide)]
  exact word_setLow (by decide) p

theorem framed_spec {p : BitVec 32} (hp : p.toNat = b) (hsp : p + 32 = m.word sp)
    (hb4 : b % 4 = 0) : Framed L b (m.low a0) m (framed L b p m) := by
  constructor
  · rw [word_sp_framed]
    exact ⟨hp, hsp⟩
  · exact frameMem_kept m b
  · intro i hi
    exact frameMem_other hb4 hi
  · rw [Machine.low, reg_framed (by decide), Machine.low]
  · intro x hx
    simp only [List.mem_cons, List.not_mem_nil, or_false, not_or] at hx
    obtain ⟨_, hk0, _, hgp, _, hsp, _⟩ := hx
    apply reg_framed
    simp [hk0, hgp, hsp]
  · intro hee
    rw [framed, word_setLow_of_ne (by decide) (by decide), Machine.word_setEpc,
      Machine.word_setMem, word_setLow_of_ne (by decide) (by decide), loaded, hee]
    exact word_setLow (by decide) _
  · rw [framed, Machine.narrow_setLow, Machine.epc_setEpc]

theorem exec_mt_epc (w : World) (m : Machine) (x : Nat) :
    execOp w (.base (.mt x (.narrow .epc))) m = some (m.setEpc (m.word x)) := rfl

section Frame
variable {p : BitVec 32} {mem : Nat → BitVec 32} {P : Machine → Prop}

theorem exec_store (w : World) (mem : Nat → BitVec 32) (hp : p.toNat = b) (hb4 : b % 4 = 0)
    (hfit : b + 32 < 2 ^ 32) (hm : m.word sp = p) (x : Nat) {offset : Nat} (ho : offset % 4 = 0)
    (hlt : offset < 16) :
    execOp w (store x offset) (m.setMem mem) =
      some (m.setMem (Function.update mem ((b + 16) / 4 + offset / 4) (m.word x))) := by
  have hplace : (b + (16 + offset)) / 4 = (b + 16) / 4 + offset / 4 := by omega
  rw [store, stackOverhead, exec_sw w _ (by rw [Machine.word_setMem, hm]; exact hp) hb4 (by omega)
    (by omega), hplace]
  rfl

theorem after_push (hp : p.toNat = b) (hb4 : b % 4 = 0) (hfit : b + 32 < 2 ^ 32)
    (hpush : m.word sp + -BitVec.ofNat 32 (stackOverhead + 16) = p)
    (h : P ((m.setLow sp (p.signExtend 64)).setMem (savedMem m ((b + 16) / 4)))) :
    w.isa.After [.base (.addiu sp sp (-BitVec.ofNat 32 (stackOverhead + 16))), store ra 0,
      store gp 8, store t9 12] m P := by
  have hm : (m.setLow sp (p.signExtend 64)).word sp = p := word_setLow (by decide) p
  have haddiu : execOp w (.base (.addiu sp sp (-BitVec.ofNat 32 (stackOverhead + 16)))) m =
      some (m.setLow sp (p.signExtend 64)) := by
    rw [← hpush]
    rfl
  refine ⟨_, haddiu, _, exec_store w _ hp hb4 hfit hm ra rfl (by decide), _,
    exec_store w _ hp hb4 hfit hm gp rfl (by decide), _,
    exec_store w _ hp hb4 hfit hm t9 rfl (by decide), ?_⟩
  rw [word_setLow_of_ne (by decide) (by decide), word_setLow_of_ne (by decide) (by decide),
    word_setLow_of_ne (by decide) (by decide)]
  exact h

theorem after_skip (hp : p.toNat = b) (hb4 : b % 4 = 0) (hfit : b + 32 < 2 ^ 32)
    (hm : m.word sp = p)
    (h : P ((((m.setLow k0 ((m.narrow .epc + 4).signExtend 64)).setMem
      (Function.update mem ((b + 16) / 4 + 1) (m.narrow .epc + 4))).setEpc
        (m.narrow .epc + 4)).setLow k0 (if m.low v1 < 130 then 1 else 0))) :
    w.isa.After [.sync, .base (.mf k0 (.narrow .epc)), .base (.addiu k0 k0 4), store k0 4,
      .base (.mt k0 (.narrow .epc)), .sync, .sltiu k0 v1 130] (m.setMem mem) P := by
  have hword : (m.setLow k0 ((m.narrow .epc + 4).signExtend 64)).word k0 = m.narrow .epc + 4 :=
    word_setLow (by decide) _
  have haddiu : execOp w (.base (.addiu k0 k0 4))
      ((m.setLow k0 ((m.narrow .epc).signExtend 64)).setMem mem) =
        some ((m.setLow k0 ((m.narrow .epc + 4).signExtend 64)).setMem mem) := by
    rw [← setLow_setLow (by decide) ((m.narrow .epc + 4).signExtend 64)]
    nth_rewrite 2 [← word_setLow (m := m) (by decide : k0 ≠ 0) (m.narrow .epc)]
    rfl
  have hstore : execOp w (store k0 4)
      ((m.setLow k0 ((m.narrow .epc + 4).signExtend 64)).setMem mem) = _ :=
    exec_store w mem hp hb4 hfit (by rw [word_setLow_of_ne (by decide) (by decide), hm]) k0 rfl
      (by decide)
  rw [hword] at hstore
  have hmt : execOp w (.base (.mt k0 (.narrow .epc)))
      ((m.setLow k0 ((m.narrow .epc + 4).signExtend 64)).setMem
        (Function.update mem ((b + 16) / 4 + 1) (m.narrow .epc + 4))) = some
      (((m.setLow k0 ((m.narrow .epc + 4).signExtend 64)).setMem
        (Function.update mem ((b + 16) / 4 + 1) (m.narrow .epc + 4))).setEpc
          (m.narrow .epc + 4)) := by
    rw [exec_mt_epc, Machine.word_setMem, hword]
  have hlow : (m.setLow k0 ((m.narrow .epc + 4).signExtend 64)).low v1 = m.low v1 := by
    rw [Machine.low_setLow_eq (by decide), if_neg (by decide)]
  rw [← hlow] at h
  exact ⟨_, rfl, _, rfl, _, haddiu, _, hstore, _, hmt, _, rfl, _, rfl, h⟩

theorem negative_ends {Q : Machine → Prop} (hb : (m.word sp).toNat = b + 32) (hb4 : b % 4 = 0)
    (h : ∀ c, Framed L b (m.low a0) m c →
      w.isa.Ends (commonExceptionHandler L)
        (if m.low v1 < 130 then .lookup else .undefinedSyscall) c Q) :
    w.isa.Ends (commonExceptionHandler L) .negativeSyscall m Q := by
  have hfit := (m.word sp).isLt
  rw [hb] at hfit
  have hsp : m.word sp + -BitVec.ofNat 32 (stackOverhead + 16) + 32 = m.word sp := by
    rw [stackOverhead, BitVec.add_assoc]
    exact BitVec.add_zero _
  have hp : (m.word sp + -BitVec.ofNat 32 (stackOverhead + 16)).toNat = b := by
    have hnat := congrArg BitVec.toNat hsp
    rw [BitVec.toNat_add, hb] at hnat
    have h32 : (32 : BitVec 32).toNat = 32 := rfl
    omega
  obtain ⟨p, hpush⟩ : ∃ p, m.word sp + -BitVec.ofNat 32 (stackOverhead + 16) = p := ⟨_, rfl⟩
  rw [hpush] at hsp hp
  have hm : (loaded L.toErrorLayout gp L.gp (m.setLow sp (p.signExtend 64))).word sp = p := by
    rw [Machine.word, reg_loaded (by decide) (by decide)]
    exact word_setLow (by decide) p
  have hv1 : (loaded L.toErrorLayout gp L.gp (m.setLow sp (p.signExtend 64))).low v1 =
      m.low v1 := by
    rw [Machine.low, reg_loaded (by decide) (by decide),
      reg_setLow_of_ne (by decide) (by decide)]
    rfl
  apply Flow.Isa.Ends.block
  rw [commonExceptionHandler, List.append_assoc, Flow.Isa.after_append]
  apply after_push hp hb4 hfit hpush
  rw [Flow.Isa.after_append, after_loadGp, loaded_setMem]
  apply after_skip hp hb4 hfit hm
  rw [hv1, narrow_loaded, Machine.narrow_setLow]
  refine ⟨_, rfl, ?_⟩
  change w.isa.Ends (commonExceptionHandler L) (if Test.holds (framed L b p m) (.lez k0) = true
    then .undefinedSyscall else .lookup) (framed L b p m) Q
  have hlow : (framed L b p m).low k0 = if m.low v1 < 130 then 1 else 0 := low_setLow (by decide)
  have hc := h _ (framed_spec hp hsp hb4)
  rw [Test.holds, hlow]
  by_cases hn : m.low v1 < 130
  · rw [if_pos hn] at hc
    rw [if_pos hn]
    exact hc
  · rw [if_neg hn] at hc
    rw [if_neg hn]
    exact hc

end Frame

/-- Whether a system call is implemented. -/
def Known (table : Nat → BitVec 32) (n : BitVec 64) : Prop := n < 130 ∧ table n.toNat ≠ 0

instance (table : Nat → BitVec 32) (n : BitVec 64) : Decidable (Known table n) :=
  inferInstanceAs (Decidable (_ ∧ _))

/-- The function for a system call. -/
def handler (L : SyscallLayout) (table : Nat → BitVec 32) (n : BitVec 64) : BitVec 32 :=
  if Known table n then table n.toNat else L.unknownSyscall

/-- The first argument of the function: the number, if the system call is unknown. -/
def firstArg (table : Nat → BitVec 32) (m : Machine) : BitVec 64 :=
  if Known table (m.low v1) then m.low a0 else m.low v1

/-- `table` is in memory, and the frame of the system call is elsewhere. -/
structure TableAt (L : SyscallLayout) (b : Nat) (table : Nat → BitVec 32) (m : Machine) : Prop where
  entries : ∀ n < 130, m.mem (L.syscallTable.toNat / 4 + n) = table n
  apart : ∀ n < 130, ¬ (b + 16 ≤ 4 * (L.syscallTable.toNat / 4 + n) ∧
    4 * (L.syscallTable.toNat / 4 + n) < b + 32)

/-- How the system call ends: its function was called with the frame on the stack, and the caller
goes on. -/
def Done (L : SyscallLayout) (w : World) (b : Nat) (table : Nat → BitVec 32) (m t : Machine) :
    Prop :=
  ∃ c, Framed L b (firstArg table m) m c ∧
    Returned m (w.fn (handler L table (m.low v1)) c) t

section Call
variable {table : Nat → BitVec 32} {fn : BitVec 32}

theorem Kept.abi (h : Kept m b c.mem) (hb4 : b % 4 = 0) (habi : Abi b c r) : Kept m b r.mem := by
  have hlast : ∀ p ∈ slots, p.2 < 4 := by decide
  constructor
  · intro p hp
    have := hlast p hp
    rw [habi.frame _ (by omega) (by omega), h.words p hp]
  · rw [habi.frame _ (by omega) (by omega), h.epc]

theorem Framed.returns (h : Framed L b a m c) (hb4 : b % 4 = 0) (hfit : b + 32 < 2 ^ 32)
    (habi : Abi b c (w.fn fn c)) :
    w.isa.Ends (commonExceptionHandler L) .commonExceptionHandlerExit (w.fn fn c)
      (Returned m (w.fn fn c)) := by
  apply exit_ends (b := b)
  · rw [habi.sp]
    exact h.sp.1
  · rw [habi.sp]
    exact h.sp.2
  · exact hb4
  · exact hfit
  · exact h.kept.abi hb4 habi

theorem undefined_ends (h : Framed L b a m c) (hb4 : b % 4 = 0) (hfit : b + 32 < 2 ^ 32)
    (habi : ∀ a c, (c.word sp).toNat = b → Abi b c (w.fn a c))
    (hn : ¬ Known table (m.low v1)) :
    w.isa.Ends (commonExceptionHandler L) .undefinedSyscall c (Done L w b table m) := by
  have hv1 : c.low v1 = m.low v1 := by
    rw [Machine.low, h.regs v1 (by decide), Machine.low]
  have hcall : Framed L b (m.low v1) m
      (called L.toErrorLayout w L.unknownSyscall (c.setLow a0 (m.low v1))) := by
    have harg := h.set (v := m.low v1) (by decide) (low_setLow (by decide))
    rw [called, loaded]
    split
    · exact harg.setLow (by decide) _
    · exact (harg.setLow (by decide) _).setLow (by decide) _
  apply Flow.Isa.Ends.block
  rw [commonExceptionHandler, Flow.Isa.after_append]
  refine ⟨_, rfl, ?_⟩
  rw [hv1, Flow.Isa.After, after_callFn]
  apply (hcall.returns hb4 hfit (habi _ _ hcall.sp.1)).mono
  intro t ht
  rw [Done, firstArg, handler, if_neg hn, if_neg hn]
  exact ⟨_, hcall, ht⟩

theorem call_ends (h : Framed L b (m.low a0) m c) (hb4 : b % 4 = 0) (hfit : b + 32 < 2 ^ 32)
    (habi : ∀ a c, (c.word sp).toNat = b → Abi b c (w.fn a c))
    (hn : Known table (m.low v1)) (htarget : c.word L.target = table (m.low v1).toNat) :
    w.isa.Ends (commonExceptionHandler L) .call c (Done L w b table m) := by
  have hcall : Framed L b (m.low a0) m (c.setLow ra (w.link.signExtend 64)) :=
    h.setLow (by decide) _
  apply Flow.Isa.Ends.block
  refine ⟨_, rfl, _, rfl, ?_⟩
  rw [htarget]
  apply (hcall.returns hb4 hfit (habi _ _ hcall.sp.1)).mono
  intro t ht
  rw [Done, firstArg, handler, if_pos hn, if_pos hn]
  exact ⟨_, hcall, ht⟩

theorem lookup_ends (h : Framed L b (m.low a0) m c) (hb4 : b % 4 = 0) (hfit : b + 32 < 2 ^ 32)
    (habi : ∀ a c, (c.word sp).toNat = b → Abi b c (w.fn a c)) (htable : TableAt L b table m)
    (hn : m.low v1 < 130) :
    w.isa.Ends (commonExceptionHandler L) .lookup c (Done L w b table m) := by
  have hnat : (m.low v1).toNat < 130 := hn
  have hword : (c.word v1).toNat = (m.low v1).toNat := by
    rw [Machine.word, h.regs v1 (by decide), ← Machine.word, word_eq, BitVec.toNat_setWidth]
    omega
  have hfits := L.tableFits
  have haligned := L.tableAligned
  have hsum : (L.syscallTable + c.word v1 <<< 2).toNat =
      L.syscallTable.toNat + 4 * (m.low v1).toNat := by
    rw [BitVec.toNat_add, BitVec.toNat_shiftLeft, hword, Nat.shiftLeft_eq]
    omega
  let c1 := c.setLow k0 (L.syscallTable.signExtend 64)
  let c2 := c1.setLow k1 ((c1.word v1 <<< 2).signExtend 64)
  let c3 := c2.setLow k0 ((c2.word k0 + c2.word k1).signExtend 64)
  have hc3 : Framed L b (m.low a0) m c3 :=
    ((h.setLow (by decide) _).setLow (by decide) _).setLow (by decide) _
  have hk0 : c3.word k0 = L.syscallTable + c.word v1 <<< 2 := by
    rw [word_setLow (by decide), word_setLow (by decide), word_setLow_of_ne (by decide) (by decide),
      word_setLow (by decide), word_setLow_of_ne (by decide) (by decide)]
  have hentry : c3.mem ((L.syscallTable.toNat + 4 * (m.low v1).toNat + 0) / 4) =
      table (m.low v1).toNat := by
    have hplace : (L.syscallTable.toNat + 4 * (m.low v1).toNat + 0) / 4 =
        L.syscallTable.toNat / 4 + (m.low v1).toNat := by omega
    rw [hplace, hc3.mem _ (htable.apart _ hnat), htable.entries _ hnat]
  have hlw : execOp w (.base (.lw L.target 0#32 k0)) c3 =
      some (c3.setLow L.target ((table (m.low v1).toNat).signExtend 64)) := by
    rw [← hentry]
    exact exec_lw w c3 (by rw [hk0]; exact hsum) (by omega) (Nat.zero_mod 4) (by omega) L.target
  have htarget : L.target ∈ [k0, k1, t9, ra] ∧ L.target ≠ 0 := by
    rw [SyscallLayout.target]
    split <;> decide
  have hc4 := hc3.setLow htarget.1 ((table (m.low v1).toNat).signExtend 64)
  apply Flow.Isa.Ends.block
  rw [commonExceptionHandler, Flow.Isa.after_append, after_la w c (by decide)]
  refine ⟨_, rfl, _, rfl, _, hlw, _, rfl, ?_⟩
  by_cases hzero : table (m.low v1).toNat = 0
  · have htest : w.isa.test (.eq L.target 0)
        (c3.setLow L.target ((table (m.low v1).toNat).signExtend 64)) = true := by
      apply beq_iff_eq.mpr
      rw [low_setLow htarget.2, hzero]
      rfl
    rw [htest]
    exact undefined_ends hc4 hb4 hfit habi fun hk => hk.2 hzero
  · have hword := word_setLow (m := c3) htarget.2 (table (m.low v1).toNat)
    have htest : w.isa.test (.eq L.target 0)
        (c3.setLow L.target ((table (m.low v1).toNat).signExtend 64)) = false := by
      apply beq_eq_false_iff_ne.mpr
      intro he
      apply hzero
      rw [← hword, word_eq, he]
      rfl
    rw [htest]
    exact call_ends hc4 hb4 hfit habi ⟨hn, hzero⟩ hword

/-- The machine with the number of the system call without its sign. -/
def positive (s : Machine) : Machine :=
  if (s.low v1).msb then s.setLow v1 ((-s.word v1).signExtend 64) else s

theorem negativeSyscall_ends (hb : (m.word sp).toNat = b + 32) (hb4 : b % 4 = 0)
    (habi : ∀ a c, (c.word sp).toNat = b → Abi b c (w.fn a c)) (htable : TableAt L b table m) :
    w.isa.Ends (commonExceptionHandler L) .negativeSyscall m (Done L w b table m) := by
  have hfit := (m.word sp).isLt
  rw [hb] at hfit
  apply negative_ends hb hb4
  intro c hc
  by_cases hn : m.low v1 < 130
  · rw [if_pos hn]
    exact lookup_ends hc hb4 hfit habi htable hn
  · rw [if_neg hn]
    exact undefined_ends hc hb4 hfit habi fun hk => hn hk.1

theorem TableAt.positive (h : TableAt L b table m) : TableAt L b table (positive m) := by
  rw [Syscall.positive]
  split
  · exact ⟨h.entries, h.apart⟩
  · exact h

end Call

/-- Machines whose callers have the same frame. -/
structure SameFrame (m m' : Machine) : Prop where
  words : ∀ x ∈ [sp, ra, gp, t9], m.word x = m'.word x
  narrow : m.narrow = m'.narrow

/-- Machines that differ in the registers for exceptions only. -/
structure Same (m m' : Machine) : Prop where
  regs : ∀ x, x ∉ [k0, k1] → m.reg x = m'.reg x
  mem : m.mem = m'.mem
  narrow : m.narrow = m'.narrow

section Same
variable {m' t : Machine} {table : Nat → BitVec 32}

theorem Returned.congr (hr : Returned m r t) (h : SameFrame m m') : Returned m' r t := by
  refine ⟨?_, ?_, hr.regs, hr.mem⟩
  · rw [hr.epc, h.narrow]
  · intro x hx
    rw [hr.words x hx, h.words x hx]

theorem Same.word (h : Same m m') (hx : x ∉ [k0, k1]) : m.word x = m'.word x := by
  rw [Machine.word, h.regs x hx, Machine.word]

theorem Same.low (h : Same m m') (hx : x ∉ [k0, k1]) : m.low x = m'.low x := by
  rw [Machine.low, h.regs x hx, Machine.low]

theorem Same.frame (h : Same m m') : SameFrame m m' := by
  have hout : ∀ x ∈ [sp, ra, gp, t9], x ∉ [k0, k1] := by decide
  exact ⟨fun x hx => h.word (hout x hx), h.narrow⟩

theorem sameFrame_positive (m : Machine) : SameFrame (positive m) m := by
  rw [positive]
  split
  · have hne : ∀ x ∈ [sp, ra, gp, t9], x ≠ v1 := by decide
    exact ⟨fun x hx => word_setLow_of_ne (by decide) (hne x hx), rfl⟩
  · exact ⟨fun _ _ => rfl, rfl⟩

theorem Same.positive (h : Same m m') : Same (positive m) (positive m') := by
  rw [Syscall.positive, Syscall.positive, h.low (by decide), h.word (by decide)]
  split
  · refine ⟨?_, h.mem, h.narrow⟩
    intro x hx
    rw [reg_setLow (by decide), reg_setLow (by decide), h.regs x hx, Machine.high, Machine.high,
      h.regs v1 (by decide)]
  · exact h

theorem Same.framed (h : Same m m') (hf : Framed L b a m c) : Framed L b a m' c := by
  have hin : ∀ p ∈ slots, p.1 ∈ [Interrupt.sp, ra, Interrupt.gp, t9] := by decide
  refine ⟨?_, ⟨?_, ?_⟩, ?_, hf.arg, ?_, hf.gp, ?_⟩
  · rw [← h.word (by decide)]
    exact hf.sp
  · intro p hp
    rw [hf.kept.words p hp, h.frame.words p.1 (hin p hp)]
  · rw [hf.kept.epc, h.narrow]
  · intro i hi
    rw [hf.mem i hi, h.mem]
  · intro x hx
    rw [hf.regs x hx]
    simp only [List.mem_cons, List.not_mem_nil, or_false, not_or] at hx
    exact h.regs x (by simp [hx])
  · rw [hf.epc, h.narrow]

theorem Same.done (h : Same m m') (hd : Done L w b table m t) : Done L w b table m' t := by
  obtain ⟨c, hc, hr⟩ := hd
  rw [firstArg, h.low (by decide), h.low (by decide)] at hc
  rw [h.low (by decide)] at hr
  exact ⟨c, h.framed hc, hr.congr h.frame⟩

theorem callSyscallHandler_ends (hb : (m.word sp).toNat = b + 32) (hb4 : b % 4 = 0)
    (habi : ∀ a c, (c.word sp).toNat = b → Abi b c (w.fn a c)) (htable : TableAt L b table m) :
    w.isa.Ends (commonExceptionHandler L) .callSyscallHandler m
      (Done L w b table (positive m)) := by
  have hends := negativeSyscall_ends (m := positive m)
    (by rw [(sameFrame_positive m).words sp (by decide)]; exact hb) hb4 habi htable.positive
  rw [positive] at hends ⊢
  apply Flow.Isa.Ends.block
  change if w.isa.test (.ltz v1) m then _ else _
  have htest : w.isa.test (.ltz v1) m = (m.low v1).msb := rfl
  rw [htest]
  split
  · next hneg =>
    rw [if_pos hneg] at hends
    exact ⟨_, rfl, hends⟩
  · next hneg =>
    rw [if_neg hneg] at hends
    exact hends

end Same

/-- The code of the exception in the register of its cause. -/
def exceptionCode (w : World) : BitVec 32 := w.cause >>> 2 &&& 0x1f

/-- The machine when the cause is known. -/
def caused (w : World) (s : Machine) : Machine :=
  (s.setLow k0 ((w.cause >>> 2).signExtend 64 &&& 0x1f)).setLow k1 8

theorem same_caused (w : World) (s : Machine) : Same (caused w s) s := by
  refine ⟨?_, rfl, rfl⟩
  intro x hx
  simp only [List.mem_cons, List.not_mem_nil, or_false, not_or] at hx
  rw [caused, reg_setLow_of_ne (by decide) hx.2, reg_setLow_of_ne (by decide) hx.1]

theorem code_eq_iff (cause : BitVec 32) :
    (cause >>> 2).signExtend 64 &&& 0x1f = (8 : BitVec 64) ↔ cause >>> 2 &&& 0x1f = 8 := by
  have hmsb : (cause >>> 2).msb = false := by
    rw [BitVec.msb_eq_decide, BitVec.toNat_ushiftRight, Nat.shiftRight_eq_div_pow]
    have := cause.isLt
    apply decide_eq_false
    omega
  rw [BitVec.signExtend_eq_setWidth_of_msb_false hmsb, ← BitVec.toNat_inj, ← BitVec.toNat_inj,
    BitVec.toNat_and, BitVec.toNat_and, BitVec.toNat_setWidth_of_le (by decide)]
  rfl

theorem entry_ends {Q : Machine → Prop}
    (h : w.isa.Ends (commonExceptionHandler L)
      (if exceptionCode w = 8 then .callSyscallHandler else .error) (caused w s) Q) :
    w.isa.Ends (commonExceptionHandler L) .entry s Q := by
  have hsrl : execOp w (.srl k0 k0 2) (s.setLow k0 (w.cause.signExtend 64)) =
      some (s.setLow k0 ((w.cause >>> 2).signExtend 64)) := by
    rw [execOp, word_setLow (by decide), setLow_setLow (by decide)]
  have handi : execOp w (.andi k0 k0 0x1f) (s.setLow k0 ((w.cause >>> 2).signExtend 64)) =
      some (s.setLow k0 ((w.cause >>> 2).signExtend 64 &&& 0x1f)) := by
    rw [execOp, low_setLow (by decide), setLow_setLow (by decide)]
  have htest : w.isa.test (.eq k0 k1) (caused w s) = true ↔ exceptionCode w = 8 := by
    have hk0 : (caused w s).low k0 = (w.cause >>> 2).signExtend 64 &&& 0x1f := by
      rw [caused, Machine.low_setLow_eq (by decide), if_neg (by decide), low_setLow (by decide)]
    have hk1 : (caused w s).low k1 = 8 := low_setLow (by decide)
    rw [exceptionCode, ← code_eq_iff, ← hk0, ← hk1]
    exact beq_iff_eq
  apply Flow.Isa.Ends.block
  refine ⟨_, rfl, _, rfl, _, hsrl, _, handi, _, rfl, _, rfl, ?_⟩
  change w.isa.Ends (commonExceptionHandler L)
    (if w.isa.test (.eq k0 k1) (caused w s) = true then .callSyscallHandler else .error)
    (caused w s) Q
  simp only [htest]
  exact h

section Results
variable {table : Nat → BitVec 32}

/-- A system call, from the exception to the return. The function from the table gets the arguments
of the caller, and `unknownSyscall` gets the number if there is none. The caller goes on behind the
instruction, whatever the function does to the registers that the kernel saves. -/
theorem syscall_returns (hcause : exceptionCode w = 8) (hb : (s.word sp).toNat = b + 32)
    (hb4 : b % 4 = 0) (habi : ∀ a c, (c.word sp).toNat = b → Abi b c (w.fn a c))
    (htable : TableAt L b table s) :
    w.isa.Ends (commonExceptionHandler L) .entry s fun t =>
      ∃ c, Framed L b (firstArg table (positive s)) (positive s) c ∧
        Returned s (w.fn (handler L table ((positive s).low v1)) c) t := by
  have hsame := same_caused w s
  have hsp : ((caused w s).word sp).toNat = b + 32 := by
    rw [hsame.word (by decide)]
    exact hb
  have hat : TableAt L b table (caused w s) := ⟨htable.entries, htable.apart⟩
  apply entry_ends
  rw [if_pos hcause]
  apply (callSyscallHandler_ends hsp hb4 habi hat).mono
  intro t ht
  obtain ⟨c, hc, hr⟩ := hsame.positive.done ht
  exact ⟨c, hc, hr.congr (sameFrame_positive s)⟩

def oneCall : SyscallLayout := ⟨blankLayout, 0x80011000, 0x80013000, by decide, by decide⟩

/-- The system calls of a kernel that has one of them. -/
def oneTable (n : Nat) : BitVec 32 := if n = 5 then 0x80012000 else 0

/-- A program that makes the system call with a negative number. -/
def negativeCaller : Machine where
  gpr := fun r => if r = sp then 0x1020 else if r = v1 then 0xfffffffffffffffb else 0
  wide := fun _ => 0
  narrow := fun _ => 0
  fpr := fun _ => 0
  acc := 0
  mem := fun i => oneTable (i - 0x80011000 / 4)

def calling : World := ⟨exactFpu, 0x20, fun _ m => m, 0⟩

theorem syscall_returns_negative :
    handler oneCall oneTable ((positive negativeCaller).low v1) = 0x80012000 ∧
      calling.isa.Ends (commonExceptionHandler oneCall) .entry negativeCaller fun t => ∃ c,
        Framed oneCall 0x1000 (firstArg oneTable (positive negativeCaller))
          (positive negativeCaller) c ∧ Returned negativeCaller c t := by
  refine ⟨by decide, ?_⟩
  apply syscall_returns (w := calling)
  · decide
  · decide
  · decide
  · intro a c _
    exact ⟨rfl, fun _ _ _ => rfl⟩
  · refine ⟨?_, ?_⟩
    · intro n hn
      simp [oneCall, negativeCaller]
    · intro n hn
      have htable : oneCall.syscallTable.toNat = 0x80011000 := rfl
      omega

/-- Every other exception: the context that is shown has the registers of the program with its stack
pointer, and if the function returns then the program has its stack again. -/
theorem error_returns (hcause : exceptionCode w ≠ 8)
    (hstack : s.mem (L.exceptionKernelStack.toNat / 4) = kernelStack)
    (hfn : ∀ a c, c.word sp = context → Keeps c (w.fn a c)) :
    w.isa.Ends (commonExceptionHandler L) .entry s fun t => ∃ c,
      c.word a0 = context ∧
      (∀ r < 32, r ∉ [k0, k1, sp] → quadAt c.mem (context.toNat / 16 + r) = s.reg r) ∧
      (quadAt c.mem (context.toNat / 16 + sp)).setWidth 64 = (s.word sp).signExtend 64 ∧
      t.low sp = (s.word sp).signExtend 64 ∧ t.reg gp = s.reg gp ∧ t.reg t9 = s.reg t9 ∧
      ∀ x, x ∉ [sp, gp, t9] → t.reg x = (w.fn L.errorHandler c).reg x := by
  let m := (caused w s).setLow k0 ((s.word sp).signExtend 64)
  have hreg (x : Nat) (hx : x ∉ [k0, k1]) : m.reg x = s.reg x := by
    have hne : x ≠ k0 := by
      rintro rfl
      exact hx List.mem_cons_self
    rw [reg_setLow_of_ne (by decide) hne, (same_caused w s).regs x hx]
  have hcopy : execOp w (.base (.addiu k0 sp 0#32)) (caused w s) = some m := by
    rw [execOp, exec, BitVec.add_zero, (same_caused w s).word (by decide)]
  have hk0 : (m.reg k0).setWidth 64 = (s.word sp).signExtend 64 := low_setLow (by decide)
  apply entry_ends
  rw [if_neg hcause]
  apply Flow.Isa.Ends.block
  refine ⟨m, hcopy, ?_⟩
  apply (after_reportError (L := L.toErrorLayout) (m := m) hstack (hfn L.errorHandler)).mono
  rintro t ⟨c, hc, ht⟩
  refine ⟨t, rfl, c, hc.arg, ?_, ?_, ?_, ?_, ?_, ?_⟩
  · intro x hx hmem
    simp only [List.mem_cons, List.not_mem_nil, or_false, not_or] at hmem
    rw [hc.gpr x (mem_regs x hx hmem.2.2), hreg x (by simp [hmem])]
  · rw [hc.stack, hk0]
  · rw [Machine.low, ht.sp, hk0]
  · rw [ht.gp, hreg gp (by decide)]
  · rw [ht.t9, hreg t9 (by decide)]
  · intro x hx
    simp only [List.mem_cons, List.not_mem_nil, or_false, not_or] at hx
    exact ht.regs x (by simp [hx])

theorem error_returns_stack : stackProgram.reg sp = 0x1000 ∧
    idle.isa.Ends (commonExceptionHandler oneCall) .entry stackProgram fun t =>
      t.low sp = 0x1000 := by
  refine ⟨rfl, ?_⟩
  apply (error_returns (w := idle) (s := stackProgram) (L := oneCall) (by decide) rfl
    (fun a c _ => ⟨rfl, fun _ _ _ => rfl⟩)).mono
  rintro t ⟨c, _, _, _, hsp, _⟩
  rw [hsp]
  decide

end Results

end KernelLoader.Kernel.Syscall
