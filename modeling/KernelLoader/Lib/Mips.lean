import KernelLoader.Lib.Word
import Mathlib.Logic.Function.Basic

namespace Lib.Mips
set_option autoImplicit true
set_option relaxedAutoImplicit false

/-- The fields of an instruction word. -/
def op (w : Nat) : Nat := w / 2 ^ 26
def rs (w : Nat) : Nat := w / 2 ^ 21 % 2 ^ 5
def rt (w : Nat) : Nat := w / 2 ^ 16 % 2 ^ 5
def rd (w : Nat) : Nat := w / 2 ^ 11 % 2 ^ 5
def sa (w : Nat) : Nat := w / 2 ^ 6 % 2 ^ 5
def funct (w : Nat) : Nat := w % 2 ^ 6
def imm (w : Nat) : Nat := w % 2 ^ 16

/-- Extend a halfword to a word with its sign. -/
def signExtend (x : Nat) : Nat := if x < 2 ^ 15 then x else x + (2 ^ 32 - 2 ^ 16)

/-- The instructions of straight-line code that computes addresses and loads words. -/
inductive Instr where
  | addiu (rt rs imm : Nat)
  | lui (rt imm : Nat)
  | addu (rd rs rt : Nat)
  | subu (rd rs rt : Nat)
  | lw (rt rs imm : Nat)
  deriving DecidableEq, Repr

def decode (w : Nat) : Option Instr :=
  if op w = 9 then some (.addiu (rt w) (rs w) (signExtend (imm w)))
  else if op w = 15 ∧ rs w = 0 then some (.lui (rt w) (imm w))
  else if op w = 0 ∧ sa w = 0 ∧ funct w = 33 then some (.addu (rd w) (rs w) (rt w))
  else if op w = 0 ∧ sa w = 0 ∧ funct w = 35 then some (.subu (rd w) (rs w) (rt w))
  else if op w = 35 then some (.lw (rt w) (rs w) (signExtend (imm w)))
  else none

/-- The word is a `jalr` to the address in register `r`. -/
def IsJalr (w r : Nat) : Prop := op w = 0 ∧ funct w = 9 ∧ rt w = 0 ∧ rs w = r

instance (w r : Nat) : Decidable (IsJalr w r) := inferInstanceAs (Decidable (_ ∧ _))

namespace Instr

def dest : Instr → Nat
  | addiu rt _ _ => rt
  | lui rt _ => rt
  | addu rd _ _ => rd
  | subu rd _ _ => rd
  | lw rt _ _ => rt

/-- The registers the result is computed from, or the address of a load. -/
def operands : Instr → List Nat
  | addiu _ rs _ => [rs]
  | lui _ _ => []
  | addu _ rs rt => [rs, rt]
  | subu _ rs rt => [rs, rt]
  | lw _ rs _ => [rs]

/-- The result, or the address of a load. -/
def value (g : Nat → Nat) : Instr → Nat
  | addiu _ rs imm => u32 (g rs + imm)
  | lui _ imm => u32 (imm * 2 ^ 16)
  | addu _ rs rt => u32 (g rs + g rt)
  | subu _ rs rt => sub32 (g rs) (g rt)
  | lw _ rs imm => u32 (g rs + imm)

def isLoad : Instr → Bool
  | lw _ _ _ => true
  | _ => false

theorem value_congr {g g' : Nat → Nat} (i : Instr) (h : ∀ r ∈ i.operands, g r = g' r) :
    i.value g = i.value g' := by
  cases i <;> simp_all [operands, value]

theorem value_lt (i : Instr) (g : Nat → Nat) : i.value g < 2 ^ 32 := by
  cases i with
  | subu rd rs rt => exact sub32_lt _ _
  | _ => exact u32_lt _

end Instr

/-- The registers, which of them do not depend on loaded values, and the address a register was
loaded from if a load was the last to write it. -/
structure Machine where
  regs : Nat → Nat
  known : Nat → Bool
  source : Nat → Option Nat

/-- All registers are zero. -/
def Machine.start : Machine := ⟨fun _ => 0, fun _ => true, fun _ => none⟩

/-- Execute an instruction, `ld` being the memory. Register 0 is constant zero. -/
def Machine.step (ld : Nat → Nat) (s : Machine) (i : Instr) : Machine :=
  if i.dest = 0 then s
  else
    { regs := Function.update s.regs i.dest
        (if i.isLoad then ld (i.value s.regs) else i.value s.regs)
      known := Function.update s.known i.dest (!i.isLoad && i.operands.all s.known)
      source := Function.update s.source i.dest (if i.isLoad then some (i.value s.regs) else none) }

theorem Machine.step_regs (ld : Nat → Nat) (s : Machine) (i : Instr) (r : Nat) :
    (s.step ld i).regs r = if i.dest ≠ 0 ∧ r = i.dest then
      if i.isLoad then ld (i.value s.regs) else i.value s.regs else s.regs r := by
  unfold step
  by_cases hd : i.dest = 0
  · simp [hd]
  · simp [hd, Function.update_apply]

theorem Machine.step_known (ld : Nat → Nat) (s : Machine) (i : Instr) (r : Nat) :
    (s.step ld i).known r = if i.dest ≠ 0 ∧ r = i.dest then
      !i.isLoad && i.operands.all s.known else s.known r := by
  unfold step
  by_cases hd : i.dest = 0
  · simp [hd]
  · simp [hd, Function.update_apply]

theorem Machine.step_source (ld : Nat → Nat) (s : Machine) (i : Instr) (r : Nat) :
    (s.step ld i).source r = if i.dest ≠ 0 ∧ r = i.dest then
      if i.isLoad then some (i.value s.regs) else none else s.source r := by
  unfold step
  by_cases hd : i.dest = 0
  · simp [hd]
  · simp [hd, Function.update_apply]

def Machine.run (ld : Nat → Nat) (s : Machine) (is : List Instr) : Machine := is.foldl (step ld) s

/-- A condition holds of every instruction and the state it is executed in. -/
def Along (ld : Nat → Nat) (C : Machine → Instr → Prop) : Machine → List Instr → Prop
  | _, [] => True
  | s, i :: is => C s i ∧ Along ld C (s.step ld i) is

/-- The rule for a program that executes the same instructions in its own way. -/
theorem Along.simulate {R : σ → Machine → Prop} {C : Machine → Instr → Prop} {ld : Nat → Nat}
    (exec : σ → Instr → σ)
    (hstep : ∀ s t i, R s t → C t i → R (exec s i) (t.step ld i)) {is : List Instr}
    (hC : Along ld C t is) (h : R s t) : R (is.foldl exec s) (t.run ld is) := by
  induction is generalizing s t with
  | nil => exact h
  | cons i is ih => exact ih hC.2 (hstep s t i h hC.1)

theorem Along.and {C C' : Machine → Instr → Prop} {ld : Nat → Nat} {is : List Instr}
    (h : Along ld C t is) (h' : Along ld C' t is) : Along ld (fun s i => C s i ∧ C' s i) t is := by
  induction is generalizing t with
  | nil => trivial
  | cons i is ih => exact ⟨⟨h.1, h'.1⟩, ih h.2 h'.2⟩

/-- Addresses of loads are not computed from loaded values. -/
def AddressKnown (s : Machine) (i : Instr) : Prop :=
  i.isLoad = true → ∀ r ∈ i.operands, s.known r = true

/-- Nothing but a zero that does not depend on loaded values is written to register 0, unless by a
load. -/
def ZeroKept (s : Machine) (i : Instr) : Prop :=
  i.dest = 0 → i.isLoad = false → i.value s.regs = 0 ∧ ∀ r ∈ i.operands, s.known r = true

instance (ld : Nat → Nat) (C : Machine → Instr → Prop) [∀ s i, Decidable (C s i)] :
    ∀ (s : Machine) (is : List Instr), Decidable (Along ld C s is)
  | _, [] => .isTrue trivial
  | s, i :: is =>
    have := instDecidableAlong ld C (s.step ld i) is
    inferInstanceAs (Decidable (_ ∧ _))

instance (s : Machine) (i : Instr) : Decidable (AddressKnown s i) :=
  inferInstanceAs (Decidable (_ → _))

instance (s : Machine) (i : Instr) : Decidable (ZeroKept s i) :=
  inferInstanceAs (Decidable (_ → _ → _))

end Lib.Mips
