import KernelLoader.Lib.CString
import KernelLoader.Lib.Copy
import KernelLoader.Lib.Flow
import KernelLoader.Lib.Mask
import KernelLoader.Lib.R5900

namespace Lib.Mmi
set_option autoImplicit true
set_option relaxedAutoImplicit false

/-- The general registers of 128 bits and the memory by the numbers of its bytes. -/
structure State where
  gpr : Nat → BitVec 128
  mem : Mem

/-- A 32-bit integer as a register holds it, extended by its sign. -/
def word (x : Int) : BitVec 64 := (BitVec.ofInt 32 x).signExtend 64

/-- Addition of words. -/
def addw (v w : BitVec 64) : BitVec 64 := (v.setWidth 32 + w.setWidth 32).signExtend 64

def subw (v w : BitVec 64) : BitVec 64 := (v.setWidth 32 - w.setWidth 32).signExtend 64

def sllw (v : BitVec 64) (sa : Nat) : BitVec 64 := (v.setWidth 32 <<< sa).signExtend 64

def srlw (v : BitVec 64) (sa : Nat) : BitVec 64 := (v.setWidth 32 >>> sa).signExtend 64

/-- The integer in the lower half of a register. -/
def signed (v : BitVec 64) : Int := (v.setWidth 32).toInt

/-- The address in a register. -/
def addr (v : BitVec 64) : Nat := (v.setWidth 32).toNat

/-- The low bits of the address of a quadword are ignored. -/
def quadAddr (a : Nat) : Nat := a / 16 * 16

/-- The result of a comparison. -/
def flag (b : Bool) : BitVec 64 := if b then 1 else 0

def byte (v : BitVec w) (i : Nat) : UInt8 := .ofNat (v.toNat / 256 ^ i)

/-- Bytes are subtracted each for itself. -/
def psubb (v w : BitVec 128) : BitVec 128 := .ofNat 128 (le (fun i => byte v i - byte w i) 0 16)

def high (v : BitVec 128) : BitVec 64 := v.extractLsb' 64 64

def low (v : BitVec 128) : BitVec 64 := v.setWidth 64

def pnor (v w : BitVec 128) : BitVec 128 := ~~~(v ||| w)

def pand (v w : BitVec 128) : BitVec 128 := v &&& w

namespace State

/-- Register 0 is zero. -/
def quad (s : State) (r : Nat) : BitVec 128 := if r = 0 then 0 else s.gpr r

def dword (s : State) (r : Nat) : BitVec 64 := low (s.quad r)

def setQuad (s : State) (r : Nat) (v : BitVec 128) : State :=
  { s with gpr := Function.update s.gpr r v }

/-- Results of 64 bits leave the upper half of a register. -/
def setDword (s : State) (r : Nat) (v : BitVec 64) : State :=
  s.setQuad r (high (s.quad r) ++ v)

def address (s : State) (base : Nat) (offset : Int) : Nat :=
  addr (addw (s.dword base) (word offset))

def store (s : State) (a n v : Nat) : State := { s with mem := storeLe s.mem a n v }

end State

/-- The instructions by the names the assembler has for them; constants that stand in place of a
register make `addiu` of `addu` and `sltiu` of `sltu`. -/
inductive Instr
  | nop
  | li (rt : Nat) (imm : Int)
  | dli (rt : Nat) (imm : BitVec 64)
  | lui (rt imm : Nat)
  | move (rd rs : Nat)
  | addi (rt rs : Nat) (imm : Int)
  | addiu (rt rs : Nat) (imm : Int)
  | addu (rd rs rt : Nat)
  | daddu (rd rs rt : Nat)
  | subu (rd rs rt : Nat)
  | dsubu (rd rs rt : Nat)
  | sltiu (rt rs : Nat) (imm : Int)
  | sltu (rd rs rt : Nat)
  | slti (rt rs : Nat) (imm : Int)
  | andi (rt rs : Nat) (imm : BitVec 64)
  | ori (rt rs : Nat) (imm : BitVec 64)
  | or (rd rs rt : Nat)
  | and (rd rs rt : Nat)
  | nor (rd rs rt : Nat)
  | sll (rd rt : Nat) (sa : Nat)
  | srl (rd rt : Nat) (sa : Nat)
  | lb (rt : Nat) (offset : Int) (base : Nat)
  | lbu (rt : Nat) (offset : Int) (base : Nat)
  | sb (rt : Nat) (offset : Int) (base : Nat)
  | ld (rt : Nat) (offset : Int) (base : Nat)
  | sd (rt : Nat) (offset : Int) (base : Nat)
  | lq (rt : Nat) (offset : Int) (base : Nat)
  | sq (rt : Nat) (offset : Int) (base : Nat)
  | pcpyld (rd rs rt : Nat)
  | pcpyud (rd rs rt : Nat)
  | psubb (rd rs rt : Nat)
  | pnor (rd rs rt : Nat)
  | pand (rd rs rt : Nat)

/-- Conditions of branches. -/
inductive Cond
  | eq (rs rt : Nat)
  | ne (rs rt : Nat)
  | gtz (rs : Nat)
  | lez (rs : Nat)

/-- An access to a doubleword that is not aligned traps, and so does an overflow of `addi`. -/
def exec (i : Instr) (s : State) : Option State :=
  match i with
  | .nop => some s
  | .li rt imm => some (s.setDword rt (word imm))
  | .dli rt imm => some (s.setDword rt imm)
  | .lui rt imm => some (s.setDword rt (word (imm * 65536 : Nat)))
  | .move rd rs => some (s.setDword rd (s.dword rs))
  | .addi rt rs imm =>
    if -2 ^ 31 ≤ signed (s.dword rs) + imm ∧ signed (s.dword rs) + imm < 2 ^ 31 then
      some (s.setDword rt (addw (s.dword rs) (word imm)))
    else none
  | .addiu rt rs imm => some (s.setDword rt (addw (s.dword rs) (word imm)))
  | .addu rd rs rt => some (s.setDword rd (addw (s.dword rs) (s.dword rt)))
  | .daddu rd rs rt => some (s.setDword rd (s.dword rs + s.dword rt))
  | .subu rd rs rt => some (s.setDword rd (subw (s.dword rs) (s.dword rt)))
  | .dsubu rd rs rt => some (s.setDword rd (s.dword rs - s.dword rt))
  | .sltiu rt rs imm => some (s.setDword rt (flag ((s.dword rs).ult (word imm))))
  | .sltu rd rs rt => some (s.setDword rd (flag ((s.dword rs).ult (s.dword rt))))
  | .slti rt rs imm => some (s.setDword rt (flag ((s.dword rs).slt (word imm))))
  | .andi rt rs imm => some (s.setDword rt (s.dword rs &&& imm))
  | .ori rt rs imm => some (s.setDword rt (s.dword rs ||| imm))
  | .or rd rs rt => some (s.setDword rd (s.dword rs ||| s.dword rt))
  | .and rd rs rt => some (s.setDword rd (s.dword rs &&& s.dword rt))
  | .nor rd rs rt => some (s.setDword rd (~~~(s.dword rs ||| s.dword rt)))
  | .sll rd rt sa => some (s.setDword rd (sllw (s.dword rt) sa))
  | .srl rd rt sa => some (s.setDword rd (srlw (s.dword rt) sa))
  | .lb rt offset base =>
    some (s.setDword rt (word (signedChar (s.mem (s.address base offset)))))
  | .lbu rt offset base =>
    some (s.setDword rt (word (s.mem (s.address base offset)).toNat))
  | .sb rt offset base => some (s.store (s.address base offset) 1 (s.dword rt).toNat)
  | .ld rt offset base =>
    if s.address base offset % 8 = 0 then
      some (s.setDword rt (.ofNat 64 (le s.mem (s.address base offset) 8)))
    else none
  | .sd rt offset base =>
    if s.address base offset % 8 = 0 then
      some (s.store (s.address base offset) 8 (s.dword rt).toNat)
    else none
  | .lq rt offset base =>
    some (s.setQuad rt (.ofNat 128 (le s.mem (quadAddr (s.address base offset)) 16)))
  | .sq rt offset base =>
    some (s.store (quadAddr (s.address base offset)) 16 (s.quad rt).toNat)
  | .pcpyld rd rs rt => some (s.setQuad rd (s.dword rs ++ s.dword rt))
  | .pcpyud rd rs rt => some (s.setQuad rd (high (s.quad rt) ++ high (s.quad rs)))
  | .psubb rd rs rt => some (s.setQuad rd (psubb (s.quad rs) (s.quad rt)))
  | .pnor rd rs rt => some (s.setQuad rd (pnor (s.quad rs) (s.quad rt)))
  | .pand rd rs rt => some (s.setQuad rd (pand (s.quad rs) (s.quad rt)))

def test (c : Cond) (s : State) : Bool :=
  match c with
  | .eq rs rt => s.dword rs == s.dword rt
  | .ne rs rt => s.dword rs != s.dword rt
  | .gtz rs => (0 : BitVec 64).slt (s.dword rs)
  | .lez rs => (s.dword rs).sle 0

def isa : Flow.Isa Instr Cond State := ⟨exec, test⟩

/-- The blocks of a function. -/
abbrev Code := Flow.Code Instr Cond

attribute [simp] exec test State.address

@[simp] theorem isa_exec (i : Instr) (s : State) : isa.exec i s = exec i s := rfl

@[simp] theorem isa_test (c : Cond) (s : State) : isa.test c s = test c s := rfl

/-- The register an instruction writes; stores and `nop` write none. -/
def Instr.dest : Instr → Nat
  | .nop | .sb .. | .sd .. | .sq .. => 0
  | .li r _ | .dli r _ | .lui r _ | .move r _ | .addi r _ _ | .addiu r _ _ | .addu r _ _
  | .daddu r _ _ | .subu r _ _ | .dsubu r _ _ | .sltiu r _ _ | .sltu r _ _ | .slti r _ _
  | .andi r _ _ | .ori r _ _ | .or r _ _ | .and r _ _ | .nor r _ _ | .sll r _ _ | .srl r _ _
  | .lb r _ _ | .lbu r _ _ | .ld r _ _ | .lq r _ _ | .pcpyld r _ _ | .pcpyud r _ _ | .psubb r _ _
  | .pnor r _ _ | .pand r _ _ => r

section Registers
variable {s : State} {r q : Nat}

@[simp] theorem low_append (v w : BitVec 64) : low (v ++ w) = w := BitVec.setWidth_append_eq_right

@[simp] theorem high_append (v w : BitVec 64) : high (v ++ w) = v :=
  BitVec.extractLsb'_append_eq_left

@[simp] theorem quad_zero : s.quad 0 = 0#128 := rfl

@[simp] theorem dword_zero : s.dword 0 = 0#64 := rfl

theorem gpr_setQuad (v : BitVec 128) : (s.setQuad r v).gpr = Function.update s.gpr r v := rfl

@[simp] theorem quad_setQuad (hr : r ≠ 0) (v : BitVec 128) : (s.setQuad r v).quad r = v := by
  rw [State.quad, if_neg hr]
  exact Function.update_self r v s.gpr

@[simp] theorem quad_setQuad_of_ne (h : q ≠ r) (v : BitVec 128) :
    (s.setQuad r v).quad q = s.quad q := by
  rw [State.quad, State.quad, gpr_setQuad, Function.update_of_ne h]

@[simp] theorem quad_setDword (hr : r ≠ 0) (v : BitVec 64) :
    (s.setDword r v).quad r = high (s.quad r) ++ v := quad_setQuad hr _

@[simp] theorem quad_setDword_of_ne (h : q ≠ r) (v : BitVec 64) :
    (s.setDword r v).quad q = s.quad q := quad_setQuad_of_ne h _

@[simp] theorem dword_setQuad (hr : r ≠ 0) (v : BitVec 128) :
    (s.setQuad r v).dword r = low v := by
  rw [State.dword, quad_setQuad hr]

@[simp] theorem dword_setQuad_of_ne (h : q ≠ r) (v : BitVec 128) :
    (s.setQuad r v).dword q = s.dword q := by
  rw [State.dword, quad_setQuad_of_ne h, State.dword]

@[simp] theorem dword_setDword (hr : r ≠ 0) (v : BitVec 64) : (s.setDword r v).dword r = v := by
  rw [State.setDword, dword_setQuad hr, low_append]

@[simp] theorem dword_setDword_of_ne (h : q ≠ r) (v : BitVec 64) :
    (s.setDword r v).dword q = s.dword q := dword_setQuad_of_ne h _

@[simp] theorem mem_setQuad (v : BitVec 128) : (s.setQuad r v).mem = s.mem := rfl

@[simp] theorem mem_setDword (v : BitVec 64) : (s.setDword r v).mem = s.mem := rfl

@[simp] theorem quad_store (a n v : Nat) : (s.store a n v).quad r = s.quad r := rfl

@[simp] theorem dword_store (a n v : Nat) : (s.store a n v).dword r = s.dword r := rfl

@[simp] theorem mem_store (a n v : Nat) : (s.store a n v).mem = storeLe s.mem a n v := rfl

theorem exec_keeps {i : Instr} (h : i.dest ≠ r) (he : exec i s = some t) : t.quad r = s.quad r := by
  have hr : r ≠ i.dest := h.symm
  cases i <;> simp only [exec, Option.some.injEq, Option.ite_none_right_eq_some] at he <;>
    simp only [Instr.dest] at hr
  all_goals first
    | (subst he; simp only [quad_setDword_of_ne hr, quad_setQuad_of_ne hr, quad_store])
    | (obtain ⟨-, rfl⟩ := he; simp only [quad_setDword_of_ne hr, quad_store])

theorem ends_keeps {L : Type} {code : Code L} {l : L} {Q : State → Prop} {k : Nat}
    (h : isa.Ends code l s Q) (hk : ∀ l, ∀ i ∈ (code l).instrs, i.dest < k) :
    isa.Ends code l s fun t => Q t ∧ ∀ r, k ≤ r → t.quad r = s.quad r := by
  let f (s : State) (r : Nat) : BitVec 128 := s.quad (r + k)
  have hf : ∀ l, ∀ i ∈ (code l).instrs, ∀ s t, isa.exec i s = some t → f t = f s := by
    intro l i hi s t he
    funext r
    have hlt := hk l i hi
    exact exec_keeps (by omega) he
  apply (h.keeps hf).mono
  intro t ht
  refine ⟨ht.1, fun r hr => ?_⟩
  have hr' := congrFun ht.2 (r - k)
  simpa only [f, Nat.sub_add_cancel hr] using hr'

end Registers

section Words
variable {a b : Int}

theorem setWidth_word (a : Int) : (word a).setWidth 32 = BitVec.ofInt 32 a :=
  R5900.setWidth_signExtend _

@[simp] theorem addw_word (a b : Int) : addw (word a) (word b) = word (a + b) := by
  rw [addw, setWidth_word, setWidth_word, ← BitVec.ofInt_add, word]

@[simp] theorem word_zero : word 0 = 0#64 := by decide

@[simp] theorem addw_word_zero (a : Int) : addw (word a) 0#64 = word a := by
  rw [← word_zero, addw_word, Int.add_zero]

@[simp] theorem subw_word (a b : Int) : subw (word a) (word b) = word (a - b) := by
  have hsub : BitVec.ofInt 32 a - BitVec.ofInt 32 b = BitVec.ofInt 32 (a - b) := by
    rw [Int.sub_eq_add_neg, BitVec.ofInt_add, BitVec.ofInt_neg, BitVec.sub_eq_add_neg]
  rw [subw, setWidth_word, setWidth_word, hsub, word]

theorem addr_word (h0 : 0 ≤ a) (h : a < 2 ^ 32) : addr (word a) = a.toNat := by
  rw [addr, setWidth_word, BitVec.toNat_ofInt]
  omega

theorem addr_word_natCast (h : n < 2 ^ 32) : addr (word (n : Nat)) = n := by
  rw [addr_word (Int.natCast_nonneg n) (by omega), Int.toNat_natCast]

theorem word_inj : word a = word b ↔ a % 2 ^ 32 = b % 2 ^ 32 := by
  have hnat (x : Int) : (BitVec.ofInt 32 x).toNat = (x % 2 ^ 32).toNat := BitVec.toNat_ofInt x
  constructor
  · intro h
    have hlow := congrArg (fun v => (BitVec.setWidth 32 v).toNat) h
    simp only [setWidth_word, hnat] at hlow
    omega
  · intro h
    have hlow : BitVec.ofInt 32 a = BitVec.ofInt 32 b := by
      apply BitVec.eq_of_toNat_eq
      rw [hnat, hnat, h]
    rw [word, word, hlow]

theorem word_eq_zero (h : n < 2 ^ 32) : word (n : Nat) = 0#64 ↔ n = 0 := by
  rw [← word_zero, word_inj]
  omega

theorem toNat_word (h0 : 0 ≤ a) (h : a < 2 ^ 32) :
    (word a).toNat = if a < 2 ^ 31 then a.toNat else a.toNat + (2 ^ 64 - 2 ^ 32) := by
  have hn : (BitVec.ofInt 32 a).toNat = a.toNat := by
    rw [BitVec.toNat_ofInt]
    omega
  have hmsb : (BitVec.ofInt 32 a).msb = decide (2 ^ 31 ≤ a.toNat) := by
    rw [BitVec.msb_eq_decide, hn]
  rw [word, BitVec.toNat_signExtend, hmsb, BitVec.toNat_setWidth, hn]
  by_cases hlt : a < 2 ^ 31
  · rw [if_pos hlt, decide_eq_false (by omega)]
    simp
    omega
  · rw [if_neg hlt, decide_eq_true (by omega)]
    simp
    omega

theorem ult_word (ha0 : 0 ≤ a) (ha : a < 2 ^ 32) (hb0 : 0 ≤ b) (hb : b < 2 ^ 32) :
    (word a).ult (word b) = decide (a < b) := by
  rw [BitVec.ult, toNat_word ha0 ha, toNat_word hb0 hb]
  congr 1
  split_ifs <;> simp only [eq_iff_iff] <;> omega

@[simp] theorem toNat_word_byte (x : UInt8) : (word x.toNat).toNat = x.toNat := by
  have hlt := x.toNat_lt
  rw [toNat_word (by omega) (by omega), if_pos (by omega), Int.toNat_natCast]

@[simp] theorem word_signedChar_eq_zero {x : UInt8} : word (signedChar x) = 0#64 ↔ x = 0 := by
  have hlow : -128 ≤ signedChar x := Int8.le_toInt x.toInt8
  have hhigh : signedChar x < 128 := Int8.toInt_lt x.toInt8
  have hchar : signedChar x = 0 ↔ x = 0 := signedChar_inj (d := 0)
  rw [← word_zero, word_inj, ← hchar]
  omega

@[simp] theorem sllw_byte_eq_zero {x : UInt8} : sllw (word x.toNat) 24 = 0#64 ↔ x = 0 := by
  have hlt := x.toNat_lt
  have hnat : ((word x.toNat).setWidth 32 <<< 24).toNat = x.toNat * 2 ^ 24 := by
    rw [BitVec.toNat_shiftLeft, BitVec.toNat_setWidth, toNat_word_byte, Nat.shiftLeft_eq]
    omega
  constructor
  · intro h
    have hlow := congrArg (fun v => (BitVec.setWidth 32 v).toNat) h
    simp only [sllw, R5900.setWidth_signExtend, hnat] at hlow
    apply UInt8.toNat_inj.mp
    simp at hlow
    exact hlow
  · intro h
    rw [h]
    decide

theorem ult_word_natCast (hn : n < 2 ^ 32) (hk : k < 2 ^ 32) :
    (word (n : Nat)).ult (word (k : Nat)) = decide (n < k) := by
  rw [ult_word (by omega) (by omega) (by omega) (by omega)]
  exact decide_eq_decide.mpr Int.ofNat_lt

@[simp] theorem flag_eq_zero {c : Bool} : flag c = 0#64 ↔ c = false := by
  cases c <;> decide

theorem toNat_word_mod (a : Int) (hk : k ≤ 32) : (word a).toNat % 2 ^ k = (a % 2 ^ k).toNat := by
  have h32 : (word a).toNat % 2 ^ 32 = (a % 2 ^ 32).toNat := by
    have h := congrArg BitVec.toNat (setWidth_word a)
    rw [BitVec.toNat_setWidth, BitVec.toNat_ofInt] at h
    exact h
  have hdvd : 2 ^ k ∣ 2 ^ 32 := Nat.pow_dvd_pow 2 hk
  have hint : (2 : Int) ^ k ∣ 2 ^ 32 := by exact_mod_cast hdvd
  have hpos : 0 ≤ a % 2 ^ 32 := Int.emod_nonneg a (by decide)
  rw [← Nat.mod_mod_of_dvd _ hdvd, h32, ← Int.emod_emod_of_dvd a hint,
    Int.toNat_emod hpos (Int.le_of_lt (Int.pow_pos (by decide)))]
  congr 1

theorem and_lowMask_eq_zero (v : BitVec 64) (hk : k ≤ 64) :
    v &&& lowMask 64 k = 0 ↔ v.toNat % 2 ^ k = 0 := by
  rw [← BitVec.toNat_inj, BitVec.toNat_and, toNat_lowMask hk, Nat.and_two_pow_sub_one_eq_mod]
  exact Iff.rfl

theorem word_and_lowMask (n : Nat) (hk : k ≤ 32) :
    word n &&& lowMask 64 k = 0 ↔ n % 2 ^ k = 0 := by
  rw [and_lowMask_eq_zero _ (by omega), toNat_word_mod _ hk]
  norm_cast

theorem word_or_and_lowMask (n p : Nat) (hk : k ≤ 32) :
    (word n ||| word p) &&& lowMask 64 k = 0 ↔ n % 2 ^ k = 0 ∧ p % 2 ^ k = 0 := by
  have hor (v w : BitVec 64) : v ||| w = 0 ↔ v = 0 ∧ w = 0 := BitVec.or_eq_zero_iff
  rw [BitVec.and_comm, BitVec.and_or_distrib_left, hor, BitVec.and_comm, word_and_lowMask n hk,
    BitVec.and_comm, word_and_lowMask p hk]

theorem signed_word (h : -2 ^ 31 ≤ a) (h' : a < 2 ^ 31) : signed (word a) = a := by
  rw [signed, setWidth_word, BitVec.toInt_ofInt]
  exact Int.bmod_eq_of_le (by omega) (by omega)

theorem toInt_word (h : -2 ^ 31 ≤ a) (h' : a < 2 ^ 31) : (word a).toInt = a := by
  rw [word, BitVec.toInt_signExtend_of_le (by decide), BitVec.toInt_ofInt]
  exact Int.bmod_eq_of_le (by omega) (by omega)

theorem slt_word (ha : -2 ^ 31 ≤ a) (ha' : a < 2 ^ 31) (hb : -2 ^ 31 ≤ b) (hb' : b < 2 ^ 31) :
    (word a).slt (word b) = decide (a < b) := by
  rw [BitVec.slt, toInt_word ha ha', toInt_word hb hb']

theorem gtz_word (h : -2 ^ 31 ≤ a) (h' : a < 2 ^ 31) : (0#64).slt (word a) = decide (0 < a) := by
  rw [← word_zero]
  exact slt_word (by decide) (by decide) h h'

theorem lez_word (h : -2 ^ 31 ≤ a) (h' : a < 2 ^ 31) : (word a).sle 0#64 = decide (a ≤ 0) := by
  rw [BitVec.sle, toInt_word h h', BitVec.toInt_zero]

theorem srlw_word (hn : n < 2 ^ 32) (k : Nat) :
    srlw (word (n : Nat)) k = word (n / 2 ^ k : Nat) := by
  have hshift : BitVec.ofInt 32 n >>> k = BitVec.ofInt 32 (n / 2 ^ k : Nat) := by
    apply BitVec.eq_of_toNat_eq
    have hle : n / 2 ^ k ≤ n := Nat.div_le_self n _
    rw [BitVec.toNat_ushiftRight, BitVec.ofInt_natCast, BitVec.ofInt_natCast, BitVec.toNat_ofNat,
      BitVec.toNat_ofNat, Nat.mod_eq_of_lt hn, Nat.mod_eq_of_lt (by omega),
      Nat.shiftRight_eq_div_pow]
  rw [srlw, setWidth_word, hshift, word]

theorem word_and_lowMask_eq (n : Nat) (hk : k ≤ 31) :
    word n &&& lowMask 64 k = word (n % 2 ^ k : Nat) := by
  have hlt : n % 2 ^ k < 2 ^ k := Nat.mod_lt _ (Nat.two_pow_pos k)
  have hpow : 2 ^ k ≤ 2 ^ 31 := Nat.pow_le_pow_right (by decide) hk
  have hnat : (word n).toNat % 2 ^ k = n % 2 ^ k := by
    rw [toNat_word_mod _ (by omega)]
    norm_cast
  apply BitVec.eq_of_toNat_eq
  rw [BitVec.toNat_and, toNat_lowMask (by omega), Nat.and_two_pow_sub_one_eq_mod, hnat,
    toNat_word (Int.natCast_nonneg _) (by omega), if_pos (by omega), Int.toNat_natCast]

theorem getLsbD_word (n i : Nat) :
    (word n).getLsbD i = (decide (i < 64) && n.testBit (min i 31)) := by
  rw [word, BitVec.ofInt_natCast, BitVec.getLsbD_signExtend, BitVec.msb_eq_getLsbD_last,
    BitVec.getLsbD_ofNat, BitVec.getLsbD_ofNat]
  by_cases hi : i < 32
  · have hmin : min i 31 = i := by omega
    simp [hi, hmin]
  · have hmin : min i 31 = 31 := by omega
    simp [hi, hmin]

theorem word_and_not_lowMask (n : Nat) (hk : k ≤ 31) :
    word n &&& ~~~lowMask 64 k = word (n / 2 ^ k * 2 ^ k : Nat) := by
  apply BitVec.eq_of_getLsbD_eq
  intro i hi
  rw [BitVec.getLsbD_and, getLsbD_not_lowMask, getLsbD_word, getLsbD_word, Nat.testBit_mul_two_pow,
    Nat.testBit_div_two_pow]
  by_cases hki : k ≤ i
  · have hmin : min i 31 - k + k = min i 31 := by omega
    have hle : k ≤ min i 31 := by omega
    simp [hi, hki, hle, hmin]
  · have hle : ¬ k ≤ min i 31 := by omega
    simp [hki, hle]

end Words

section Bytes

@[simp] theorem quadAddr_of_aligned (h : a % 16 = 0) : quadAddr a = a := by
  rw [quadAddr]
  omega

@[simp] theorem le_mod_dword (m : Mem) (a : Nat) : le m a 8 % 18446744073709551616 = le m a 8 :=
  Nat.mod_eq_of_lt (le_lt m a 8)

@[simp] theorem le_mod_quad (m : Mem) (a : Nat) :
    le m a 16 % 340282366920938463463374607431768211456 = le m a 16 :=
  Nat.mod_eq_of_lt (le_lt m a 16)

theorem toNat_le_load (hw : 256 ^ n = 2 ^ w) (m : Mem) (a : Nat) :
    (BitVec.ofNat w (le m a n)).toNat = le m a n := by
  rw [BitVec.toNat_ofNat, ← hw, Nat.mod_eq_of_lt (le_lt m a n)]

theorem byte_load (hw : 256 ^ n = 2 ^ w) (m : Mem) (a : Nat) (hi : i < n) :
    byte (BitVec.ofNat w (le m a n)) i = m (a + i) := by
  rw [byte, toNat_le_load hw, ofNat_le_digit m a hi]

theorem high_or_low_eq_zero (v : BitVec 128) : high v ||| low v = 0#64 ↔ v = 0 := by
  have hsplit : high v ++ low v = v := R5900.high_append_low v
  rw [BitVec.or_eq_zero_iff]
  constructor
  · intro h
    rw [← hsplit, h.1, h.2]
    rfl
  · intro h
    rw [h]
    exact ⟨rfl, rfl⟩

end Bytes

end Lib.Mmi
