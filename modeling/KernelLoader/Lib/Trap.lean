import KernelLoader.Lib.Flow
import KernelLoader.Lib.R5900

namespace Lib.R5900
set_option autoImplicit true
set_option relaxedAutoImplicit false

/-- The instructions of handlers with branches and calls; barriers do nothing here. -/
inductive Op
  | base (i : Instr)
  | nop
  | sync
  | negu (rd rt : Nat)
  | addu (rd rs rt : Nat)
  | sll (rd rt sa : Nat)
  | srl (rd rt sa : Nat)
  | andi (rt rs : Nat) (imm : BitVec 64)
  | sltiu (rt rs : Nat) (imm : BitVec 64)
  | mfcause (rt : Nat)
  | jal (target : BitVec 32)
  | jalr (rs : Nat)

/-- Conditions of branches. -/
inductive Test
  | eq (rs rt : Nat)
  | lez (rs : Nat)
  | ltz (rs : Nat)

/-- What handlers depend on: the cause of the exception, the functions by their addresses, and what
a call leaves in the link register. -/
structure World where
  fpu : Fpu
  cause : BitVec 32
  fn : BitVec 32 → Machine → Machine
  link : BitVec 32

def ra : Nat := 31

def World.call (w : World) (target : BitVec 32) (m : Machine) : Machine :=
  w.fn target (m.setLow ra (w.link.signExtend 64))

def execOp (w : World) (op : Op) (m : Machine) : Option Machine :=
  match op with
  | .base i => exec w.fpu m i
  | .nop => some m
  | .sync => some m
  | .negu rd rt => some (m.setLow rd ((-m.word rt).signExtend 64))
  | .addu rd rs rt => some (m.setLow rd ((m.word rs + m.word rt).signExtend 64))
  | .sll rd rt sa => some (m.setLow rd ((m.word rt <<< sa).signExtend 64))
  | .srl rd rt sa => some (m.setLow rd ((m.word rt >>> sa).signExtend 64))
  | .andi rt rs imm => some (m.setLow rt (m.low rs &&& imm))
  | .sltiu rt rs imm => some (m.setLow rt (if m.low rs < imm then 1 else 0))
  | .mfcause rt => some (m.setLow rt (w.cause.signExtend 64))
  | .jal target => some (w.call target m)
  | .jalr rs => some (w.call (m.word rs) m)

def Test.holds (m : Machine) : Test → Bool
  | .eq rs rt => m.low rs == m.low rt
  | .lez rs => decide ((m.low rs).toInt ≤ 0)
  | .ltz rs => (m.low rs).msb

def World.isa (w : World) : Flow.Isa Op Test Machine := ⟨execOp w, fun t m => t.holds m⟩

/-- The address of a symbol in a register. -/
def la (r : Nat) (a : BitVec 32) : List Op :=
  [.base (.lui r (hi16 a)), .base (.addiu r r (lo16 a))]

namespace Machine
variable {m : Machine} {v : BitVec 64}

def setMem (m : Machine) (mem : Nat → BitVec 32) : Machine := { m with mem }

def setEpc (m : Machine) (v : BitVec 32) : Machine :=
  { m with narrow := Function.update m.narrow .epc v }

@[simp] theorem reg_setMem (m : Machine) (mem : Nat → BitVec 32) (r : Nat) :
    (m.setMem mem).reg r = m.reg r := rfl

@[simp] theorem reg_setEpc (m : Machine) (v : BitVec 32) (r : Nat) :
    (m.setEpc v).reg r = m.reg r := rfl

@[simp] theorem word_setMem (m : Machine) (mem : Nat → BitVec 32) (r : Nat) :
    (m.setMem mem).word r = m.word r := rfl

@[simp] theorem word_setEpc (m : Machine) (v : BitVec 32) (r : Nat) :
    (m.setEpc v).word r = m.word r := rfl

@[simp] theorem low_setEpc (m : Machine) (v : BitVec 32) (r : Nat) :
    (m.setEpc v).low r = m.low r := rfl

@[simp] theorem mem_setMem (m : Machine) (mem : Nat → BitVec 32) : (m.setMem mem).mem = mem := rfl

@[simp] theorem mem_setLow (m : Machine) (r : Nat) (v : BitVec 64) : (m.setLow r v).mem = m.mem :=
  rfl

@[simp] theorem narrow_setLow (m : Machine) (r : Nat) (v : BitVec 64) :
    (m.setLow r v).narrow = m.narrow := rfl

@[simp] theorem epc_setEpc (m : Machine) (v : BitVec 32) : (m.setEpc v).narrow .epc = v := by
  simp [setEpc]

theorem word_setLow_eq (hr : r ≠ 0) (x : Nat) :
    (m.setLow r v).word x = if x = r then v.setWidth 32 else m.word x := by
  rw [word, reg_setLow hr]
  split
  · next hx =>
    rw [← setWidth_append (m.high r) v, BitVec.setWidth_setWidth_of_le _ (by decide),
      setWidth_append]
  · rfl

theorem low_setLow_eq (hr : r ≠ 0) (x : Nat) :
    (m.setLow r v).low x = if x = r then v else m.low x := by
  rw [low, reg_setLow hr]
  split
  · exact setWidth_append _ _
  · rfl

end Machine

section Exec
variable (w : World) (m : Machine) {b base off r : Nat}

theorem exec_sw (hb : (m.word base).toNat = b) (hb4 : b % 4 = 0) (hoff : off % 4 = 0)
    (hfit : b + off < 2 ^ 32) (rt : Nat) :
    execOp w (.base (.sw rt (BitVec.ofNat 32 off) base)) m =
      some (m.setMem (Function.update m.mem ((b + off) / 4) (m.word rt))) := by
  simp only [execOp, exec, address_eq hb hfit]
  rw [if_pos (by omega)]
  rfl

theorem exec_lw (hb : (m.word base).toNat = b) (hb4 : b % 4 = 0) (hoff : off % 4 = 0)
    (hfit : b + off < 2 ^ 32) (rt : Nat) :
    execOp w (.base (.lw rt (BitVec.ofNat 32 off) base)) m =
      some (m.setLow rt ((m.mem ((b + off) / 4)).signExtend 64)) := by
  simp only [execOp, exec, address_eq hb hfit]
  rw [if_pos (by omega)]

theorem after_la (hr : r ≠ 0) {a : BitVec 32} {P : Machine → Prop} :
    w.isa.After (la r a) m P ↔ P (m.setLow r (a.signExtend 64)) := by
  have hlui : execOp w (.base (.lui r (hi16 a))) m =
      some (m.setLow r ((hi16 a <<< 16).signExtend 64)) := rfl
  have haddiu : execOp w (.base (.addiu r r (lo16 a)))
      (m.setLow r ((hi16 a <<< 16).signExtend 64)) = some (m.setLow r (a.signExtend 64)) := by
    simp only [execOp, exec, word_setLow hr, setLow_setLow hr, hi16_add_lo16]
  constructor
  · rintro ⟨t, ht, u, hu, hP⟩
    cases hlui.symm.trans ht
    cases haddiu.symm.trans hu
    exact hP
  · intro h
    exact ⟨_, hlui, _, haddiu, h⟩

theorem after_base {is : List Instr} {t : Machine} {P : Machine → Prop}
    (hrun : run w.fpu is m = some t) (h : P t) : w.isa.After (is.map Op.base) m P := by
  induction is generalizing m with
  | nil =>
    cases hrun
    exact h
  | cons i is ih =>
    obtain ⟨u, hu, hrest⟩ := Option.bind_eq_some_iff.mp hrun
    exact ⟨u, hu, ih u hrest⟩

end Exec

end Lib.R5900
