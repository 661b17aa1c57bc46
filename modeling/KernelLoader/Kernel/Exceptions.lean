import KernelLoader.Kernel.Interrupt
import KernelLoader.Lib.Trap

namespace KernelLoader.Kernel.Exceptions
open Lib Lib.R5900 Interrupt
set_option autoImplicit true
set_option relaxedAutoImplicit false

/-- The functions that are called for exceptions, by the addresses that the linker gives to them. -/
structure ErrorLayout extends Layout where
  errorHandler : BitVec 32
  tlbRefillError : BitVec 32
  counterError : BitVec 32
  debugError : BitVec 32

def loadGp (L : ErrorLayout) : List Op := if L.ps2Ee then [] else la gp L.gp

/-- A call, through the register that position independent code expects. -/
def callFn (L : ErrorLayout) (target : BitVec 32) : List Op :=
  if L.ps2Ee then [.jal target] else la t9 target ++ [.jalr t9]

def saveAll : List Instr := [.sq k0 (BitVec.ofNat 32 (16 * 29)) sp] ++ regs.map saveReg

/-- The code that the handlers of errors share. Before the call `gp` loses its lower half again. -/
def reportError (L : ErrorLayout) (error : BitVec 32) : List Op :=
  (loadStack L.toLayout ++ reuseStack ++ saveAll).map .base ++ loadGp L ++
  [.base (.addiu a0 sp 0#32)] ++ (if L.ps2Ee then [] else [.base (.lui gp (hi16 L.gp))]) ++
  callFn L error ++
  ([25, 28].map restoreReg ++ [restoreReg sp]).map .base

def tlbRefillExceptionHandler (L : ErrorLayout) : List Op := reportError L L.tlbRefillError
def counterExceptionHandler (L : ErrorLayout) : List Op := reportError L L.counterError
def debugExceptionHandler (L : ErrorLayout) : List Op := reportError L L.debugError

/-- The part of `commonExceptionHandler` for all but system calls. -/
def commonError (L : ErrorLayout) : List Op :=
  [.base (.addiu k0 sp 0#32)] ++ reportError L L.errorHandler

/-- Where the registers are saved. -/
def context : BitVec 32 := kernelStack - 832#32

/-- The machine when the function for an error is called: its argument is the context, and the
context has the registers of `m`. -/
structure Reported (m c : Machine) : Prop where
  sp : c.word sp = context
  arg : c.word a0 = context
  gpr : ∀ r ∈ regs, quadAt c.mem (context.toNat / 16 + r) = m.reg r
  stack : quadAt c.mem (context.toNat / 16 + Interrupt.sp) = m.reg k0
  regs : ∀ x, x ∉ [a0, Interrupt.sp, gp, t9, ra] → c.reg x = m.reg x

/-- What the function for an error keeps. -/
structure Keeps (before after : Machine) : Prop where
  sp : after.word sp = before.word sp
  context : ∀ w, w / 4 < context.toNat / 16 + 32 → context.toNat / 16 ≤ w / 4 →
    after.mem w = before.mem w

/-- The machine `t` when the handler returns to a program that was at `m`, after the function has
left `r`. -/
structure Resumed (m r t : Machine) : Prop where
  sp : t.reg sp = m.reg k0
  t9 : t.reg t9 = m.reg t9
  gp : t.reg gp = m.reg gp
  regs : ∀ x, x ∉ [Interrupt.sp, Interrupt.t9, Interrupt.gp] → t.reg x = r.reg x
  mem : t.mem = r.mem

section Call
variable {L : ErrorLayout} {w : World} {m : Machine} {v target : BitVec 32} {P : Machine → Prop}

/-- A register that position independent code loads, and the other variant does not. -/
def loaded (L : ErrorLayout) (r : Nat) (v : BitVec 32) (m : Machine) : Machine :=
  if L.ps2Ee then m else m.setLow r (v.signExtend 64)

theorem reg_loaded (hr : r ≠ 0) (hx : x ≠ r) : (loaded L r v m).reg x = m.reg x := by
  rw [loaded]
  split
  · rfl
  · exact reg_setLow_of_ne hr hx

@[simp] theorem mem_loaded : (loaded L r v m).mem = m.mem := by
  rw [loaded]
  split <;> rfl

@[simp] theorem narrow_loaded : (loaded L r v m).narrow = m.narrow := by
  rw [loaded]
  split <;> rfl

theorem loaded_setMem (mem : Nat → BitVec 32) :
    loaded L r v (m.setMem mem) = (loaded L r v m).setMem mem := by
  rw [loaded, loaded]
  split <;> rfl

theorem after_loadGp : w.isa.After (loadGp L) m P ↔ P (loaded L gp L.gp m) := by
  rw [loadGp, loaded]
  split
  · exact Iff.rfl
  · exact after_la w m (by decide)

theorem after_lui : w.isa.After (if L.ps2Ee then [] else [.base (.lui gp (hi16 L.gp))]) m P ↔
    P (loaded L gp (hi16 L.gp <<< 16) m) := by
  rw [loaded]
  split
  · exact Iff.rfl
  · simp [World.isa, execOp, exec]

/-- The machine at the entry of a function. -/
def called (L : ErrorLayout) (w : World) (target : BitVec 32) (m : Machine) : Machine :=
  (loaded L t9 target m).setLow ra (w.link.signExtend 64)

theorem after_callFn :
    w.isa.After (callFn L target) m P ↔ P (w.fn target (called L w target m)) := by
  rw [callFn, called, loaded]
  split
  · simp [World.isa, execOp, World.call]
  · rw [Flow.Isa.after_append, after_la w m (by decide)]
    simp [World.isa, execOp, World.call, word_setLow (by decide : t9 ≠ 0)]

end Call

section Report
variable {L : ErrorLayout} {w : World} {f : Fpu} {m s r : Machine} {error : BitVec 32}

theorem run_resume (hb : r.word sp = context)
    (hregs : ∀ x ∈ [25, 28], quadAt r.mem (context.toNat / 16 + x) = m.reg x)
    (hsp : quadAt r.mem (context.toNat / 16 + sp) = m.reg k0) :
    ∃ t, run f ([25, 28].map restoreReg ++ [restoreReg sp]) r = some t ∧ Resumed m r t := by
  have hb : (r.word sp).toNat = context.toNat := congrArg BitVec.toNat hb
  obtain ⟨u, hrun, hreg, hmem, _⟩ := run_lq (f := f) (m := r) [25, 28] hb (by decide) (by decide)
  have hrun : run f ([25, 28].map restoreReg) r = some u := hrun
  have hbu : (u.word sp).toNat = context.toNat := by
    rw [Machine.word, hreg, if_neg (by decide)]
    exact hb
  have haddr : u.address (BitVec.ofNat 32 (16 * sp)) sp = context.toNat + 16 * sp :=
    address_eq hbu (by decide)
  have hquad : (context.toNat + 16 * sp) / 16 = context.toNat / 16 + sp := by omega
  refine ⟨u.setQuad sp (quadAt r.mem (context.toNat / 16 + sp)), ?_, ?_, ?_, ?_, ?_, hmem⟩
  · rw [run_append, hrun, Option.bind_some, run, restoreReg, exec, haddr, hquad, hmem,
      Option.bind_some, run]
  · rw [reg_setQuad, if_pos ⟨rfl, by decide⟩, hsp]
  · rw [reg_setQuad, if_neg (by decide), hreg, if_pos (by decide)]
    exact hregs t9 (by decide)
  · rw [reg_setQuad, if_neg (by decide), hreg, if_pos (by decide)]
    exact hregs gp (by decide)
  · intro x hx
    simp only [List.mem_cons, List.not_mem_nil, or_false, not_or] at hx
    rw [reg_setQuad, if_neg fun h => hx.1 h.1, hreg, if_neg]
    rintro ⟨hmem, _⟩
    simp only [List.mem_cons, List.not_mem_nil, or_false] at hmem
    exact hmem.elim hx.2.1 hx.2.2

/-- The machine at the entry of the function for an error. -/
def reported (L : ErrorLayout) (w : World) (error : BitVec 32) (m : Machine)
    (mem : Nat → BitVec 32) : Machine :=
  called L w error (loaded L gp (hi16 L.gp <<< 16) ((loaded L gp L.gp
    ((m.setLow sp (context.signExtend 64)).setMem mem)).setLow a0 (context.signExtend 64)))

theorem reg_reported {mem : Nat → BitVec 32} (hx : x ∉ [a0, gp, t9, ra]) :
    (reported L w error m mem).reg x = (m.setLow sp (context.signExtend 64)).reg x := by
  simp only [List.mem_cons, List.not_mem_nil, or_false, not_or] at hx
  obtain ⟨ha0, hgp, ht9, hra⟩ := hx
  rw [reported, called, reg_setLow_of_ne (by decide) hra, reg_loaded (by decide) ht9,
    reg_loaded (by decide) hgp, reg_setLow_of_ne (by decide) ha0, reg_loaded (by decide) hgp,
    Machine.reg_setMem]

theorem reported_spec {mem : Nat → BitVec 32}
    (hregs : ∀ r ∈ regs, quadAt mem (context.toNat / 16 + r) = m.reg r)
    (hk0 : quadAt mem (context.toNat / 16 + sp) = m.reg k0) :
    Reported m (reported L w error m mem) := by
  have hmem : (reported L w error m mem).mem = mem := by
    rw [reported, called, Machine.mem_setLow, mem_loaded, mem_loaded, Machine.mem_setLow,
      mem_loaded, Machine.mem_setMem]
  constructor
  · rw [Machine.word, reg_reported (by decide)]
    exact word_setLow (by decide) context
  · rw [reported, called, word_setLow_of_ne (by decide) (by decide), Machine.word,
      reg_loaded (by decide) (by decide), reg_loaded (by decide) (by decide)]
    exact word_setLow (by decide) context
  · rw [hmem]
    exact hregs
  · rw [hmem]
    exact hk0
  · intro x hx
    simp only [List.mem_cons, List.not_mem_nil, or_false, not_or] at hx
    rw [reg_reported (by simp [hx]), reg_setLow_of_ne (by decide) hx.2.1]

theorem after_reportError (hstack : m.mem (L.exceptionKernelStack.toNat / 4) = kernelStack)
    (hfn : ∀ c, c.word sp = context → Keeps c (w.fn error c)) :
    w.isa.After (reportError L error) m fun t =>
      ∃ c, Reported m c ∧ Resumed m (w.fn error c) t := by
  let m1 := m.setLow sp (context.signExtend 64)
  have hsp : m1.word sp = context := word_setLow (by decide) context
  obtain ⟨mem, hsave, hregs, hk0⟩ := run_saveRegs (f := w.fpu) (congrArg BitVec.toNat hsp)
    ⟨by decide, by decide⟩
  have henter : run w.fpu (loadStack L.toLayout ++ reuseStack ++ saveAll) m =
      some (m1.setMem mem) := by
    rw [run_append, run_append, run_loadStack, hstack, Option.bind_some, run_reuseStack,
      word_setLow (by decide), setLow_setLow (by decide), Option.bind_some]
    exact hsave
  have haddiu : execOp w (.base (.addiu a0 sp 0#32)) (loaded L gp L.gp (m1.setMem mem)) =
      some ((loaded L gp L.gp (m1.setMem mem)).setLow a0 (context.signExtend 64)) := by
    rw [execOp, exec, BitVec.add_zero, Machine.word, reg_loaded (by decide) (by decide),
      ← Machine.word, Machine.word_setMem, hsp]
  have hreport : Reported m (reported L w error m mem) := by
    apply reported_spec
    · intro x hx
      rw [hregs x hx, reg_setLow_of_ne (by decide) (mem_regs_lt x hx).2]
    · rw [hk0, reg_setLow_of_ne (by decide) (by decide)]
  have hkeeps := hfn _ hreport.sp
  have hquad (x : Nat) (hx : x < 32) :
      quadAt (w.fn error (reported L w error m mem)).mem (context.toNat / 16 + x) =
        quadAt (reported L w error m mem).mem (context.toNat / 16 + x) := by
    apply quadAt_congr
    intro i hi
    exact hkeeps.context i (by omega) (by omega)
  obtain ⟨t, hresume, ht⟩ := run_resume (f := w.fpu) (m := m) (hkeeps.sp.trans hreport.sp)
    (fun x hx => by
      have hx32 : x < 32 ∧ x ∈ regs := by
        revert x
        decide
      rw [hquad x hx32.1, hreport.gpr x hx32.2])
    (by rw [hquad sp (by decide), hreport.stack])
  rw [reportError, Flow.Isa.after_append, Flow.Isa.after_append, Flow.Isa.after_append,
    Flow.Isa.after_append, Flow.Isa.after_append]
  apply after_base w m henter
  rw [after_loadGp]
  refine ⟨_, haddiu, ?_⟩
  rw [Flow.Isa.After, after_lui, after_callFn]
  exact after_base w _ hresume ⟨_, hreport, ht⟩

theorem reportError_cons (L : ErrorLayout) (error : BitVec 32) : ∃ rest, reportError L error =
    .base (.lui sp (hi16 L.exceptionKernelStack)) :: rest := by
  cases hee : L.ps2Ee with
  | true => exact ⟨_, by rw [reportError, loadStack, hee]; rfl⟩
  | false => exact ⟨_, by rw [reportError, loadStack, hee]; rfl⟩

theorem reportError_forgets (w : World) (L : ErrorLayout) (error : BitVec 32) (m : Machine)
    (v : BitVec 64) : w.isa.runList (reportError L error) (m.setLow sp v) =
      w.isa.runList (reportError L error) m := by
  obtain ⟨rest, hrest⟩ := reportError_cons L error
  have hfirst : execOp w (.base (.lui sp (hi16 L.exceptionKernelStack))) (m.setLow sp v) =
      execOp w (.base (.lui sp (hi16 L.exceptionKernelStack))) m := by
    simp only [execOp, exec, setLow_setLow (by decide : sp ≠ 0)]
  rw [hrest]
  exact congrArg (Option.bind · (w.isa.runList rest)) hfirst

/-- The handlers that do not copy the stack pointer first lose it: what they do does not depend on
it, and they return with what was in `k0` in its place. -/
theorem handlers_forget_stack (hstack : m.mem (L.exceptionKernelStack.toNat / 4) = kernelStack)
    (hfn : ∀ a c, c.word sp = context → Keeps c (w.fn a c)) :
    ∀ handler ∈ [tlbRefillExceptionHandler, counterExceptionHandler, debugExceptionHandler],
      (∀ v, w.isa.runList (handler L) (m.setLow sp v) = w.isa.runList (handler L) m) ∧
      ∃ t, w.isa.runList (handler L) m = some t ∧ t.reg sp = m.reg k0 ∧ t.reg gp = m.reg gp ∧
        t.reg t9 = m.reg t9 := by
  intro handler hmem
  obtain ⟨error, he⟩ : ∃ error, handler L = reportError L error := by
    simp only [List.mem_cons, List.not_mem_nil, or_false] at hmem
    rcases hmem with h | h | h
    · exact ⟨_, congrFun h L⟩
    · exact ⟨_, congrFun h L⟩
    · exact ⟨_, congrFun h L⟩
  rw [he]
  refine ⟨reportError_forgets w L error m, ?_⟩
  obtain ⟨t, ht, c, _, hresumed⟩ := (after_reportError hstack (hfn error)).run
  exact ⟨t, ht, hresumed.sp, hresumed.gp, hresumed.t9⟩

end Report

/-- A kernel whose functions do nothing. -/
def idle : World := ⟨exactFpu, 0, fun _ m => m, 0⟩

def blankLayout : ErrorLayout := ⟨image, 0, 0, 0, 0⟩

/-- A program with a stack, and with another address in `k0`. -/
def stackProgram : Machine where
  gpr := fun r => if r = sp then 0x1000 else if r = k0 then 0x2000 else 0
  wide := fun _ => 0
  narrow := fun _ => 0
  fpr := fun _ => 0
  acc := 0
  mem := fun _ => kernelStack

theorem handlers_forget_stack_idle :
    stackProgram.reg sp = 0x1000 ∧
      ∃ t, idle.isa.runList (debugExceptionHandler blankLayout) stackProgram = some t ∧
        t.reg sp = 0x2000 := by
  refine ⟨rfl, ?_⟩
  obtain ⟨_, t, ht, hsp, _⟩ := handlers_forget_stack (L := blankLayout) (w := idle)
    (m := stackProgram) rfl (fun a c _ => ⟨rfl, fun _ _ _ => rfl⟩) debugExceptionHandler
    (List.mem_cons_of_mem _ (List.mem_cons_of_mem _ List.mem_cons_self))
  exact ⟨t, ht, hsp⟩

end KernelLoader.Kernel.Exceptions
