import Mathlib.Data.BitVec
import Mathlib.Logic.Function.Basic
import Mathlib.Tactic.SplitIfs

namespace Lib.R5900
set_option autoImplicit true
set_option relaxedAutoImplicit false

/-- The registers of multiplication and division. -/
inductive Wide
  | hi | lo | hi1 | lo1
  deriving DecidableEq

/-- Special registers of 32 bits. -/
inductive Narrow
  | sa | epc | fcr31
  deriving DecidableEq

inductive Special
  | wide (x : Wide)
  | narrow (x : Narrow)
  deriving DecidableEq

/-- The registers, and the memory by the numbers of its words. -/
structure Machine where
  gpr : Nat → BitVec 128
  wide : Wide → BitVec 64
  narrow : Narrow → BitVec 32
  fpr : Nat → BitVec 32
  acc : BitVec 32
  mem : Nat → BitVec 32

/-- The arithmetic of the floating point unit: a result and the control register. -/
structure Fpu where
  msub : (acc fs ft fcr31 : BitVec 32) → BitVec 32 × BitVec 32
  suba : (fs ft fcr31 : BitVec 32) → BitVec 32 × BitVec 32

inductive Instr
  | addiu (rt rs : Nat) (imm : BitVec 32)
  | lui (rt : Nat) (imm : BitVec 32)
  | move (rd rs : Nat)
  | lw (rt : Nat) (offset : BitVec 32) (base : Nat)
  | sw (rt : Nat) (offset : BitVec 32) (base : Nat)
  | lq (rt : Nat) (offset : BitVec 32) (base : Nat)
  | sq (rt : Nat) (offset : BitVec 32) (base : Nat)
  | lwc1 (ft : Nat) (offset : BitVec 32) (base : Nat)
  | swc1 (ft : Nat) (offset : BitVec 32) (base : Nat)
  | mf (rt : Nat) (x : Special)
  | mt (rt : Nat) (x : Special)
  | mtc1 (rt fs : Nat)
  | msub (fd fs ft : Nat)
  | suba (fs ft : Nat)

/-- The quadword of four words, the first one lowest. -/
def quadAt (mem : Nat → BitVec 32) (k : Nat) : BitVec 128 :=
  mem (4 * k + 3) ++ mem (4 * k + 2) ++ mem (4 * k + 1) ++ mem (4 * k)

def storeQuad (mem : Nat → BitVec 32) (k : Nat) (v : BitVec 128) : Nat → BitVec 32 :=
  fun w => if w / 4 = k then v.extractLsb' (32 * (w % 4)) 32 else mem w

namespace Machine

/-- Register 0 is zero. -/
def reg (m : Machine) (r : Nat) : BitVec 128 := if r = 0 then 0 else m.gpr r

def low (m : Machine) (r : Nat) : BitVec 64 := (m.reg r).setWidth 64

def high (m : Machine) (r : Nat) : BitVec 64 := (m.reg r).extractLsb' 64 64

def word (m : Machine) (r : Nat) : BitVec 32 := (m.reg r).setWidth 32

/-- Most instructions leave the upper half of a register. -/
def setLow (m : Machine) (r : Nat) (v : BitVec 64) : Machine :=
  { m with gpr := Function.update m.gpr r (m.high r ++ v) }

def setQuad (m : Machine) (r : Nat) (v : BitVec 128) : Machine :=
  { m with gpr := Function.update m.gpr r v }

/-- The value of a special register as it is moved to a general one. -/
def special (m : Machine) : Special → BitVec 64
  | .wide x => m.wide x
  | .narrow x => (m.narrow x).signExtend 64

def setSpecial (m : Machine) (r : Nat) : Special → Machine
  | .wide x => { m with wide := Function.update m.wide x (m.low r) }
  | .narrow x => { m with narrow := Function.update m.narrow x (m.word r) }

def address (m : Machine) (offset : BitVec 32) (base : Nat) : Nat := (m.word base + offset).toNat

end Machine

/-- An instruction, if it does not end in an address error. Quadwords are found at the address
rounded down. -/
def exec (f : Fpu) (m : Machine) : Instr → Option Machine
  | .addiu rt rs imm => some (m.setLow rt ((m.word rs + imm).signExtend 64))
  | .lui rt imm => some (m.setLow rt ((imm <<< 16).signExtend 64))
  | .move rd rs => some (m.setLow rd (m.low rs))
  | .lw rt offset base =>
    let a := m.address offset base
    if a % 4 = 0 then some (m.setLow rt ((m.mem (a / 4)).signExtend 64)) else none
  | .sw rt offset base =>
    let a := m.address offset base
    if a % 4 = 0 then some { m with mem := Function.update m.mem (a / 4) (m.word rt) } else none
  | .lq rt offset base => some (m.setQuad rt (quadAt m.mem (m.address offset base / 16)))
  | .sq rt offset base =>
    some { m with mem := storeQuad m.mem (m.address offset base / 16) (m.reg rt) }
  | .lwc1 ft offset base =>
    let a := m.address offset base
    if a % 4 = 0 then some { m with fpr := Function.update m.fpr ft (m.mem (a / 4)) } else none
  | .swc1 ft offset base =>
    let a := m.address offset base
    if a % 4 = 0 then some { m with mem := Function.update m.mem (a / 4) (m.fpr ft) } else none
  | .mf rt x => some (m.setLow rt (m.special x))
  | .mt rt x => some (m.setSpecial rt x)
  | .mtc1 rt fs => some { m with fpr := Function.update m.fpr fs (m.word rt) }
  | .msub fd fs ft =>
    let r := f.msub m.acc (m.fpr fs) (m.fpr ft) (m.narrow .fcr31)
    some { m with
      fpr := Function.update m.fpr fd r.1
      narrow := Function.update m.narrow .fcr31 r.2 }
  | .suba fs ft =>
    let r := f.suba (m.fpr fs) (m.fpr ft) (m.narrow .fcr31)
    some { m with acc := r.1, narrow := Function.update m.narrow .fcr31 r.2 }

/-- The parts of an address for `lui` and for the sign-extended offset that follows. -/
def hi16 (a : BitVec 32) : BitVec 32 := (a + 0x8000#32) >>> 16

def lo16 (a : BitVec 32) : BitVec 32 := (a.setWidth 16).signExtend 32

def run (f : Fpu) : List Instr → Machine → Option Machine
  | [], m => some m
  | i :: is, m => (exec f m i).bind (run f is)

theorem run_nil (f : Fpu) (m : Machine) : run f [] m = some m := rfl

theorem run_append (f : Fpu) (is js : List Instr) (m : Machine) :
    run f (is ++ js) m = (run f is m).bind (run f js) := by
  induction is generalizing m with
  | nil => rfl
  | cons i is ih =>
    rw [List.cons_append, run, run, Option.bind_assoc]
    apply congrArg
    funext m
    exact ih m

section Halves
variable {x x' y y' : BitVec 64}

theorem setWidth_append (x y : BitVec 64) : (x ++ y).setWidth 64 = y := by
  apply BitVec.eq_of_getLsbD_eq
  intro i hi
  rw [BitVec.getLsbD_setWidth, BitVec.getLsbD_append, if_pos hi]
  simp [hi]

theorem append_inj_iff : x ++ y = x' ++ y' ↔ x = x' ∧ y = y' := by
  constructor
  · intro h
    have hhigh := congrArg (BitVec.extractLsb' 64 64) h
    have hlow := congrArg (BitVec.setWidth 64) h
    rw [BitVec.extractLsb'_append_eq_left, BitVec.extractLsb'_append_eq_left] at hhigh
    rw [setWidth_append, setWidth_append] at hlow
    exact ⟨hhigh, hlow⟩
  · rintro ⟨rfl, rfl⟩
    rfl

theorem high_append_low (q : BitVec 128) : q.extractLsb' 64 64 ++ q.setWidth 64 = q := by
  apply BitVec.eq_of_getLsbD_eq
  intro i hi
  rw [BitVec.getLsbD_append]
  by_cases h64 : i < 64
  · simp [h64]
  · have hback : 64 + (i - 64) = i := by omega
    have hlt : i - 64 < 64 := by omega
    simp [h64, hback, hlt]

theorem setWidth_signExtend (w : BitVec 32) : (w.signExtend 64).setWidth 32 = w := by
  apply BitVec.eq_of_getLsbD_eq
  intro i hi
  have h64 : i < 64 := Nat.lt_trans hi (by decide)
  rw [BitVec.getLsbD_setWidth, BitVec.getLsbD_signExtend, if_pos hi]
  simp [hi, h64]

end Halves

theorem hi16_add_lo16 (a : BitVec 32) : hi16 a <<< 16 + lo16 a = a := by
  have ha := a.isLt
  have hhigh : (0x8000#32).toNat = 0x8000 := rfl
  apply BitVec.eq_of_toNat_eq
  rw [hi16, lo16, BitVec.toNat_add, BitVec.toNat_shiftLeft, BitVec.toNat_ushiftRight,
    BitVec.toNat_add, BitVec.toNat_signExtend, BitVec.msb_eq_decide, hhigh,
    BitVec.toNat_setWidth, BitVec.toNat_setWidth, Nat.shiftLeft_eq, Nat.shiftRight_eq_div_pow]
  by_cases hmsb : 2 ^ 15 ≤ a.toNat % 2 ^ 16
  · simp only [hmsb, decide_true, if_true]
    omega
  · simp only [hmsb, decide_false, Bool.false_eq_true, if_false]
    omega

section Quadwords
variable {mem mem' : Nat → BitVec 32} {v : BitVec 128}

theorem quadAt_congr (h : ∀ w, w / 4 = k → mem' w = mem w) : quadAt mem' k = quadAt mem k := by
  rw [quadAt, quadAt, h (4 * k + 3) (by omega), h (4 * k + 2) (by omega), h (4 * k + 1) (by omega),
    h (4 * k) (by omega)]

theorem append_words (v : BitVec 128) : v.extractLsb' (32 * 3) 32 ++ v.extractLsb' (32 * 2) 32 ++
    v.extractLsb' (32 * 1) 32 ++ v.extractLsb' (32 * 0) 32 = v := by
  apply BitVec.eq_of_getLsbD_eq
  intro i hi
  simp only [BitVec.getLsbD_append, BitVec.getLsbD_extractLsb']
  split_ifs with h0 h1 h2
  · simp [h0]
  · have hback : 32 + (i - 32) = i := by omega
    simp [h1, hback]
  · have hback : 64 + (i - 32 - 32) = i := by omega
    simp [h2, hback]
  · have hback : 96 + (i - 32 - 32 - 32) = i := by omega
    have hlt : i - 32 - 32 - 32 < 32 := by omega
    simp [hlt, hback]

theorem quadAt_storeQuad (mem : Nat → BitVec 32) (k : Nat) (v : BitVec 128) :
    quadAt (storeQuad mem k v) k = v := by
  have hword (j : Nat) (hj : j < 4) :
      storeQuad mem k v (4 * k + j) = v.extractLsb' (32 * j) 32 := by
    have hdiv : (4 * k + j) / 4 = k := by omega
    have hmod : (4 * k + j) % 4 = j := by omega
    rw [storeQuad, if_pos hdiv, hmod]
  have h0 := hword 0 (by decide)
  rw [Nat.add_zero] at h0
  rw [quadAt, hword 3 (by decide), hword 2 (by decide), hword 1 (by decide), h0, append_words]

theorem storeQuad_of_ne (h : w / 4 ≠ k) : storeQuad mem k v w = mem w := if_neg h

end Quadwords

section Registers
variable {m : Machine} {v : BitVec 64}

theorem reg_setLow (hr : r ≠ 0) (x : Nat) :
    (m.setLow r v).reg x = if x = r then m.high r ++ v else m.reg x := by
  by_cases hx : x = r
  · simp [Machine.reg, Machine.setLow, hx, hr]
  · simp [Machine.reg, Machine.setLow, hx]

theorem reg_setQuad (m : Machine) (r : Nat) (q : BitVec 128) (x : Nat) :
    (m.setQuad r q).reg x = if x = r ∧ x ≠ 0 then q else m.reg x := by
  by_cases hx : x = r
  · by_cases h0 : x = 0
    · simp [Machine.reg, h0]
    · simp [Machine.reg, Machine.setQuad, hx, hx ▸ h0]
  · simp [Machine.reg, Machine.setQuad, hx]

theorem reg_eq (m : Machine) (r : Nat) : m.reg r = m.high r ++ m.low r :=
  (high_append_low (m.reg r)).symm

theorem word_eq (m : Machine) (r : Nat) : m.word r = (m.low r).setWidth 32 := by
  rw [Machine.word, Machine.low, BitVec.setWidth_setWidth_of_le _ (by decide)]

theorem low_setLow (hr : r ≠ 0) : (m.setLow r v).low r = v := by
  rw [Machine.low, reg_setLow hr, if_pos rfl, setWidth_append]

theorem high_setLow (hr : r ≠ 0) : (m.setLow r v).high r = m.high r := by
  rw [Machine.high, reg_setLow hr, if_pos rfl, BitVec.extractLsb'_append_eq_left]

theorem setLow_setLow (hr : r ≠ 0) (v' : BitVec 64) :
    (m.setLow r v).setLow r v' = m.setLow r v' := by
  rw [Machine.setLow, high_setLow hr]
  simp only [Machine.setLow, Function.update_idem]

theorem reg_setLow_of_ne (hr : r ≠ 0) (h : x ≠ r) : (m.setLow r v).reg x = m.reg x := by
  rw [reg_setLow hr, if_neg h]

theorem word_setLow (hr : r ≠ 0) (w : BitVec 32) : (m.setLow r (w.signExtend 64)).word r = w := by
  rw [word_eq, low_setLow hr, setWidth_signExtend]

theorem word_setLow_of_ne (hr : r ≠ 0) (h : x ≠ r) : (m.setLow r v).word x = m.word x := by
  rw [Machine.word, reg_setLow_of_ne hr h, Machine.word]

theorem address_eq {base off : Nat} (hb : (m.word base).toNat = b) (h : b + off < 2 ^ 32) :
    m.address (BitVec.ofNat 32 off) base = b + off := by
  rw [Machine.address, BitVec.toNat_add, hb, BitVec.toNat_ofNat]
  omega

end Registers

section Blocks
variable {f : Fpu} {m : Machine} {base off : Nat}

theorem run_sq (rs : List Nat) (hb : (m.word base).toNat = b)
    (hfit : ∀ r ∈ rs, b + 16 * r < 2 ^ 32) :
    ∃ mem', run f (rs.map fun r => .sq r (BitVec.ofNat 32 (16 * r)) base) m =
        some { m with mem := mem' } ∧
      (∀ r ∈ rs, quadAt mem' (b / 16 + r) = m.reg r) ∧
      ∀ w, (∀ r ∈ rs, w / 4 ≠ b / 16 + r) → mem' w = m.mem w := by
  induction rs generalizing m with
  | nil => exact ⟨m.mem, rfl, fun r hr => (nomatch hr), fun w _ => rfl⟩
  | cons r rs ih =>
    have haddr := address_eq hb (hfit r List.mem_cons_self)
    have hquad : (b + 16 * r) / 16 = b / 16 + r := by omega
    obtain ⟨mem', hrun, hregs, hrest⟩ := ih
      (m := { m with mem := storeQuad m.mem (b / 16 + r) (m.reg r) }) hb
      fun x hx => hfit x (List.mem_cons_of_mem r hx)
    refine ⟨mem', ?_, ?_, ?_⟩
    · rw [List.map_cons, run, exec, haddr, hquad, Option.bind_some]
      exact hrun
    · intro x hx
      by_cases hmem : x ∈ rs
      · exact hregs x hmem
      · -- the quadword stored first is not touched again
        obtain rfl : x = r := (List.mem_cons.mp hx).resolve_right hmem
        rw [quadAt_congr fun w hw => hrest w fun y hy he => hmem (by
          obtain rfl : x = y := by omega
          exact hy)]
        exact quadAt_storeQuad m.mem (b / 16 + x) (m.reg x)
    · intro w hw
      rw [hrest w fun x hx => hw x (List.mem_cons_of_mem r hx)]
      exact storeQuad_of_ne (hw r List.mem_cons_self)

theorem run_swc1 (fs : List Nat) (hb : (m.word base).toNat = b) (hb4 : b % 4 = 0)
    (hoff : off % 4 = 0) (hfit : ∀ r ∈ fs, b + (off + 8 * r) < 2 ^ 32) :
    ∃ mem', run f (fs.map fun r => .swc1 r (BitVec.ofNat 32 (off + 8 * r)) base) m =
        some { m with mem := mem' } ∧
      (∀ r ∈ fs, mem' ((b + (off + 8 * r)) / 4) = m.fpr r) ∧
      ∀ w, (∀ r ∈ fs, w ≠ (b + (off + 8 * r)) / 4) → mem' w = m.mem w := by
  induction fs generalizing m with
  | nil => exact ⟨m.mem, rfl, fun r hr => (nomatch hr), fun w _ => rfl⟩
  | cons r fs ih =>
    have haddr := address_eq hb (hfit r List.mem_cons_self)
    have haligned : (b + (off + 8 * r)) % 4 = 0 := by omega
    obtain ⟨mem', hrun, hregs, hrest⟩ := ih
      (m := { m with mem := Function.update m.mem ((b + (off + 8 * r)) / 4) (m.fpr r) }) hb
      fun x hx => hfit x (List.mem_cons_of_mem r hx)
    refine ⟨mem', ?_, ?_, ?_⟩
    · simp only [List.map_cons, run, exec, haddr, if_pos haligned, Option.bind_some]
      exact hrun
    · intro x hx
      by_cases hmem : x ∈ fs
      · exact hregs x hmem
      · obtain rfl : x = r := (List.mem_cons.mp hx).resolve_right hmem
        rw [hrest _ fun y hy he => hmem (by
          obtain rfl : x = y := by omega
          exact hy)]
        exact Function.update_self ..
    · intro w hw
      rw [hrest w fun x hx => hw x (List.mem_cons_of_mem r hx)]
      exact Function.update_of_ne (hw r List.mem_cons_self) ..

theorem run_lq (rs : List Nat) (hb : (m.word base).toNat = b) (hbase : base ∉ rs)
    (hfit : ∀ r ∈ rs, b + 16 * r < 2 ^ 32) :
    ∃ m', run f (rs.map fun r => .lq r (BitVec.ofNat 32 (16 * r)) base) m = some m' ∧
      (∀ r, m'.reg r = if r ∈ rs ∧ r ≠ 0 then quadAt m.mem (b / 16 + r) else m.reg r) ∧
      m'.mem = m.mem ∧ m'.wide = m.wide ∧ m'.narrow = m.narrow ∧ m'.fpr = m.fpr := by
  induction rs generalizing m with
  | nil => exact ⟨m, rfl, fun r => by simp, rfl, rfl, rfl, rfl⟩
  | cons r rs ih =>
    obtain ⟨hne, hbase⟩ := not_or.mp (mt List.mem_cons.mpr hbase)
    have haddr := address_eq hb (hfit r List.mem_cons_self)
    have hquad : (b + 16 * r) / 16 = b / 16 + r := by omega
    have hword : (m.setQuad r (quadAt m.mem (b / 16 + r))).word base = m.word base := by
      rw [Machine.word, reg_setQuad, if_neg fun h => hne h.1, Machine.word]
    obtain ⟨m', hrun, hregs, hmem, hwide, hnarrow, hfpr⟩ := ih
      (m := m.setQuad r (quadAt m.mem (b / 16 + r))) (hword ▸ hb) hbase
      fun x hx => hfit x (List.mem_cons_of_mem r hx)
    refine ⟨m', ?_, ?_, hmem, hwide, hnarrow, hfpr⟩
    · rw [List.map_cons, run, exec, haddr, hquad, Option.bind_some]
      exact hrun
    · intro x
      rw [hregs, reg_setQuad]
      show (if x ∈ rs ∧ x ≠ 0 then quadAt m.mem (b / 16 + x) else _) = _
      by_cases h0 : x = 0
      · simp [h0]
      by_cases hx : x ∈ rs
      · simp [hx, h0]
      by_cases hxr : x = r
      · subst hxr
        simp [hx, h0]
      · simp [hx, hxr]

theorem run_lwc1 (fs : List Nat) (hb : (m.word base).toNat = b) (hb4 : b % 4 = 0)
    (hoff : off % 4 = 0) (hfit : ∀ r ∈ fs, b + (off + 8 * r) < 2 ^ 32) :
    ∃ fpr', run f (fs.map fun r => .lwc1 r (BitVec.ofNat 32 (off + 8 * r)) base) m =
        some { m with fpr := fpr' } ∧
      ∀ r, fpr' r = if r ∈ fs then m.mem ((b + (off + 8 * r)) / 4) else m.fpr r := by
  induction fs generalizing m with
  | nil => exact ⟨m.fpr, rfl, fun r => by simp⟩
  | cons r fs ih =>
    have haddr := address_eq hb (hfit r List.mem_cons_self)
    have haligned : (b + (off + 8 * r)) % 4 = 0 := by omega
    obtain ⟨fpr', hrun, hregs⟩ := ih
      (m := { m with fpr := Function.update m.fpr r (m.mem ((b + (off + 8 * r)) / 4)) }) hb
      fun x hx => hfit x (List.mem_cons_of_mem r hx)
    refine ⟨fpr', ?_, ?_⟩
    · simp only [List.map_cons, run, exec, haddr, if_pos haligned, Option.bind_some]
      exact hrun
    · intro x
      simp only [hregs, Function.update_apply]
      by_cases hx : x ∈ fs
      · simp [hx]
      · by_cases hxr : x = r
        · simp [hxr]
        · simp [hx, hxr]

/-- A special register, the general one it is moved through and its place. -/
structure Slot where
  special : Special
  temp : Nat
  offset : Nat

/-- The slot can be used with the address in a register. -/
structure Slot.Fits (b base : Nat) (p : Slot) : Prop where
  temp : p.temp ≠ 0 ∧ base ≠ p.temp
  aligned : p.offset % 4 = 0
  fits : b + p.offset < 2 ^ 32

def Slot.save (base : Nat) (p : Slot) : List Instr :=
  [.mf p.temp p.special, .sw p.temp (BitVec.ofNat 32 p.offset) base]

def Slot.restore (base : Nat) (p : Slot) : List Instr :=
  [.lw p.temp (BitVec.ofNat 32 p.offset) base, .mt p.temp p.special]

theorem special_setLow (m : Machine) (r : Nat) (v : BitVec 64) :
    (m.setLow r v).special = m.special := by
  funext x
  cases x <;> rfl

theorem special_setSpecial {w : BitVec 32} (h : m.low r = w.signExtend 64) (x y : Special) :
    (m.setSpecial r x).special y = if y = x then w.signExtend 64 else m.special y := by
  have hword : m.word r = w := by rw [word_eq, h, setWidth_signExtend]
  cases x with
  | wide x =>
    cases y with
    | wide y =>
      by_cases hxy : y = x
      · simp [Machine.setSpecial, Machine.special, hxy, h]
      · simp [Machine.setSpecial, Machine.special, hxy]
    | narrow y => simp [Machine.setSpecial, Machine.special]
  | narrow x =>
    cases y with
    | wide y => simp [Machine.setSpecial, Machine.special]
    | narrow y =>
      by_cases hxy : y = x
      · simp [Machine.setSpecial, Machine.special, hxy, hword]
      · simp [Machine.setSpecial, Machine.special, hxy]

theorem reg_setSpecial (m : Machine) (r : Nat) (x : Special) : (m.setSpecial r x).reg = m.reg := by
  cases x <;> rfl

theorem mem_setSpecial (m : Machine) (r : Nat) (x : Special) : (m.setSpecial r x).mem = m.mem := by
  cases x <;> rfl

theorem fpr_setSpecial (m : Machine) (r : Nat) (x : Special) : (m.setSpecial r x).fpr = m.fpr := by
  cases x <;> rfl

theorem Slot.Fits.run_save {p : Slot} (h : p.Fits b base) (hb : (m.word base).toNat = b)
    (hb4 : b % 4 = 0) : run f (p.save base) m = some { m.setLow p.temp (m.special p.special) with
      mem := Function.update m.mem ((b + p.offset) / 4) ((m.special p.special).setWidth 32) } := by
  have hword : ((m.setLow p.temp (m.special p.special)).word base).toNat = b := by
    rw [word_setLow_of_ne h.temp.1 h.temp.2, hb]
  have haligned : (b + p.offset) % 4 = 0 := by
    have := h.aligned
    omega
  have hvalue : (m.setLow p.temp (m.special p.special)).word p.temp =
      (m.special p.special).setWidth 32 := by
    rw [word_eq, low_setLow h.temp.1]
  simp only [Slot.save, run, exec, Option.bind_some, address_eq hword h.fits, if_pos haligned,
    hvalue]
  rfl

theorem Slot.Fits.run_save_misaligned {p : Slot} (h : p.Fits b base) (hb : (m.word base).toNat = b)
    (hb4 : b % 4 ≠ 0) : run f (p.save base) m = none := by
  have hword : ((m.setLow p.temp (m.special p.special)).word base).toNat = b := by
    rw [word_setLow_of_ne h.temp.1 h.temp.2, hb]
  have haligned : (b + p.offset) % 4 ≠ 0 := by
    have := h.aligned
    omega
  simp only [Slot.save, run, exec, Option.bind_some, address_eq hword h.fits, if_neg haligned]
  rfl

theorem run_saves (ps : List Slot) (hb : (m.word base).toNat = b) (hb4 : b % 4 = 0)
    (hps : ∀ p ∈ ps, p.Fits b base) (hne : ps.Pairwise fun p q => p.offset ≠ q.offset) :
    ∃ m', run f (ps.flatMap (Slot.save base)) m = some m' ∧
      m'.word base = m.word base ∧ m'.special = m.special ∧ m'.fpr = m.fpr ∧
      (∀ p ∈ ps, m'.mem ((b + p.offset) / 4) = (m.special p.special).setWidth 32) ∧
      ∀ w, (∀ p ∈ ps, w ≠ (b + p.offset) / 4) → m'.mem w = m.mem w := by
  induction ps generalizing m with
  | nil => exact ⟨m, rfl, rfl, rfl, rfl, fun p hp => (nomatch hp), fun w _ => rfl⟩
  | cons p ps ih =>
    have hp := hps p List.mem_cons_self
    obtain ⟨hfirst, hne⟩ := List.pairwise_cons.mp hne
    have hword : (m.setLow p.temp (m.special p.special)).word base = m.word base :=
      word_setLow_of_ne hp.temp.1 hp.temp.2
    have hspecial := special_setLow m p.temp (m.special p.special)
    obtain ⟨m', hrun, hbase, hsame, hfpr, hslots, hrest⟩ := ih
      (m := { m.setLow p.temp (m.special p.special) with
        mem := Function.update m.mem ((b + p.offset) / 4) ((m.special p.special).setWidth 32) })
      ((congrArg BitVec.toNat hword).trans hb) (fun q hq => hps q (List.mem_cons_of_mem p hq)) hne
    refine ⟨m', ?_, hbase.trans hword, hsame.trans hspecial, hfpr, ?_, ?_⟩
    · rw [List.flatMap_cons, run_append, hp.run_save hb hb4, Option.bind_some]
      exact hrun
    · intro q hq
      cases List.mem_cons.mp hq with
      | inl hq =>
        rw [hq, hrest _ fun x hx he => hfirst x hx (by
          have := hp.aligned
          have := (hps x (List.mem_cons_of_mem p hx)).aligned
          omega)]
        exact Function.update_self ..
      | inr hq =>
        rw [hslots q hq]
        exact congrArg (fun g => (g q.special).setWidth 32) hspecial
    · intro w hw
      rw [hrest w fun x hx => hw x (List.mem_cons_of_mem p hx)]
      exact Function.update_of_ne (hw p List.mem_cons_self) ..

theorem Slot.Fits.run_restore {p : Slot} (h : p.Fits b base) (hb : (m.word base).toNat = b)
    (hb4 : b % 4 = 0) : run f (p.restore base) m =
      some ((m.setLow p.temp ((m.mem ((b + p.offset) / 4)).signExtend 64)).setSpecial p.temp
        p.special) := by
  have haligned : (b + p.offset) % 4 = 0 := by
    have := h.aligned
    omega
  simp only [Slot.restore, run, exec, Option.bind_some, address_eq hb h.fits, if_pos haligned]

theorem run_restores (ps : List Slot) (hb : (m.word base).toNat = b) (hb4 : b % 4 = 0)
    (hps : ∀ p ∈ ps, p.Fits b base) (hne : ps.Pairwise fun p q => p.special ≠ q.special) :
    ∃ m', run f (ps.flatMap (Slot.restore base)) m = some m' ∧
      m'.word base = m.word base ∧ m'.mem = m.mem ∧ m'.fpr = m.fpr ∧
      (∀ p ∈ ps, m'.special p.special = (m.mem ((b + p.offset) / 4)).signExtend 64) ∧
      ∀ x, (∀ p ∈ ps, x ≠ p.special) → m'.special x = m.special x := by
  induction ps generalizing m with
  | nil => exact ⟨m, rfl, rfl, rfl, rfl, fun p hp => (nomatch hp), fun w _ => rfl⟩
  | cons p ps ih =>
    have hp := hps p List.mem_cons_self
    obtain ⟨hfirst, hne⟩ := List.pairwise_cons.mp hne
    have hlow := low_setLow (m := m) (v := (m.mem ((b + p.offset) / 4)).signExtend 64) hp.temp.1
    have hspecial := special_setSpecial hlow p.special
    rw [special_setLow] at hspecial
    have hword : ((m.setLow p.temp ((m.mem ((b + p.offset) / 4)).signExtend 64)).setSpecial p.temp
        p.special).word base = m.word base := by
      rw [Machine.word, reg_setSpecial, ← Machine.word, word_setLow_of_ne hp.temp.1 hp.temp.2]
    obtain ⟨m', hrun, hbase, hmem, hfpr, hslots, hrest⟩ := ih
      (m := (m.setLow p.temp ((m.mem ((b + p.offset) / 4)).signExtend 64)).setSpecial p.temp
        p.special)
      ((congrArg BitVec.toNat hword).trans hb) (fun q hq => hps q (List.mem_cons_of_mem p hq)) hne
    rw [mem_setSpecial] at hmem hslots
    rw [fpr_setSpecial] at hfpr
    refine ⟨m', ?_, hbase.trans hword, hmem, hfpr, ?_, ?_⟩
    · rw [List.flatMap_cons, run_append, hp.run_restore hb hb4, Option.bind_some]
      exact hrun
    · intro q hq
      cases List.mem_cons.mp hq with
      | inl hq => rw [hq, hrest _ fun x hx => hfirst x hx, hspecial, if_pos rfl]
      | inr hq => exact hslots q hq
    · intro x hx
      rw [hrest x fun q hq => hx q (List.mem_cons_of_mem p hq), hspecial,
        if_neg (hx p List.mem_cons_self)]

end Blocks

end Lib.R5900
