import KernelLoader.Tge.Pad

namespace KernelLoader.Tge.Pad.Dma
open Lib
set_option autoImplicit true
set_option relaxedAutoImplicit false

/-- What the queries look at: memory with the pad data areas, which the IOP writes, and the field
`padData` of the elements of `PadState` (with indices that are not valid, what is found there). The
answer is the word at 20 that `padman` of the ROM gives, if the request was accepted. -/
structure Env where
  mem : Mem
  padData : Int32 → Int32 → Nat
  answer : Option Int

/-- An index into `PadState`, `modeTable` or `actData`, or the number of bytes copied. -/
inductive Index
  | padState (port slot : Int)
  | modeTable (i : Int)
  | actData (i : Int)
  | buttons (n : Nat)
  deriving DecidableEq, Repr

/-- The declared sizes. -/
def Index.Within : Index → Prop
  | padState port slot => (0 ≤ port ∧ port < 2) ∧ 0 ≤ slot ∧ slot < 8
  | modeTable i => 0 ≤ i ∧ i < 4
  | actData i => 0 ≤ i ∧ i < 32
  | buttons n => n ≤ 32

instance (i : Index) : Decidable i.Within :=
  match i with
  | .padState _ _ => inferInstanceAs (Decidable ((_ ∧ _) ∧ _ ∧ _))
  | .modeTable _ => inferInstanceAs (Decidable (_ ∧ _))
  | .actData _ => inferInstanceAs (Decidable (_ ∧ _))
  | .buttons _ => inferInstanceAs (Decidable (_ ≤ _))

/-- The value returned, the bytes stored at `data` of the caller, memory, and the indices used. -/
structure Outcome where
  result : Int
  buttons : List UInt8
  mem : Mem
  used : List Index

def padStateExeccmd : Nat := 5
def padStateStable : Nat := 6
def padRstatBusy : Nat := 2

-- the terms of `padinfomode`
def padModecurid : Int32 := 1
def padModecurexid : Int32 := 2
def padModecuroffs : Int32 := 3
def padModetable : Int32 := 4

section Fields
variable (cfg : Config) (m : Mem) (pdata : Nat)

/-- The size of `struct pad_data`. -/
def sizeofPadData : Nat := if cfg.romPadman then 64 else 128

/-- The fields that both variants have. -/
def frame : Nat := le m (pdata + if cfg.romPadman then 0 else 88) 4
def length : Nat := le m (pdata + if cfg.romPadman then 40 else 96) 4
def state : Nat := le m (pdata + if cfg.romPadman then 4 else 112) 1
def reqStateAt : Nat := pdata + if cfg.romPadman then 5 else 113
def reqState : Nat := le m (reqStateAt cfg pdata) 1
def dataAt : Nat := pdata + if cfg.romPadman then 8 else 0

-- those that only the newer one has
def actData (i : Int) : Nat := le m ((pdata + 48 : Int) + i).toNat 1
def modeTable (i : Int) : Nat := le m ((pdata + 80 : Int) + 2 * i).toNat 2
def modeConfig : Nat := le m (pdata + 100) 1
def modeCurId : Nat := le m (pdata + 101) 1
def nrOfModes : Nat := le m (pdata + 104) 1
def modeCurOffs : Nat := le m (pdata + 105) 1
def nrOfActuators : Nat := le m (pdata + 106) 1
def currentTask : Nat := le m (pdata + 114) 1

end Fields

section Calls
variable (cfg : Config) (env : Env)

/-- The newer one of the two areas of a pad. -/
def padGetDmaStr (port slot : Int32) : Nat :=
  let pdata := env.padData port slot
  if frame cfg env.mem pdata < frame cfg env.mem (pdata + sizeofPadData cfg) then
    pdata + sizeofPadData cfg
  else pdata

/-- The index of the element of `PadState`. -/
def padIndex (port slot : Int32) : Index := .padState port.toInt slot.toInt

def padGetReqState (port slot : Int32) : Nat :=
  reqState cfg env.mem (padGetDmaStr cfg env port slot)

def padSetReqState (port slot : Int32) (state : UInt8) : Mem :=
  Function.update env.mem (reqStateAt cfg (padGetDmaStr cfg env port slot)) state

def sbcallPadread (port slot : Int32) : Outcome :=
  let pdata := padGetDmaStr cfg env port slot
  let n := length cfg env.mem pdata
  ⟨s32 n, (List.range n).map fun i => env.mem (dataAt cfg pdata + i), env.mem,
    [padIndex port slot, .buttons n]⟩

def sbcallPadgetstate (port slot : Int32) : Outcome :=
  let state := state cfg env.mem (padGetDmaStr cfg env port slot)
  if state = padStateStable then
    let used := [padIndex port slot, padIndex port slot]
    if padGetReqState cfg env port slot = padRstatBusy then ⟨padStateExeccmd, [], env.mem, used⟩
    else ⟨state, [], env.mem, used⟩
  else ⟨state, [], env.mem, [padIndex port slot]⟩

def sbcallPadgetreqstate (port slot : Int32) : Outcome :=
  ⟨padGetReqState cfg env port slot, [], env.mem, [padIndex port slot]⟩

/-- With the module of the ROM the two calls below only pass the question on. -/
def askPadman (port slot : Int32) : Outcome :=
  match env.answer with
  | none => ⟨0, [], env.mem, []⟩
  | some v =>
    if v = 1 then ⟨v, [], padSetReqState cfg env port slot 2, [padIndex port slot]⟩
    else ⟨v, [], env.mem, []⟩

def sbcallPadinfomode (port slot term offset : Int32) : Outcome :=
  if cfg.romPadman then askPadman cfg env port slot
  else
    let pdata := padGetDmaStr cfg env port slot
    let answer (v : Int) (used : List Index) : Outcome :=
      ⟨v, [], env.mem, padIndex port slot :: used⟩
    if currentTask env.mem pdata ≠ 1 then answer 0 []
    else if reqState cfg env.mem pdata = padRstatBusy then answer 0 []
    else if term = padModecurid then
      if modeCurId env.mem pdata = 0xf3 then answer 0 []
      else answer (modeCurId env.mem pdata >>> 4 : Nat) []
    else if term = padModecurexid then
      if modeConfig env.mem pdata = currentTask env.mem pdata then answer 0 []
      else
        let i := modeCurOffs env.mem pdata
        answer (modeTable env.mem pdata i) [.modeTable i]
    else if term = padModecuroffs then
      if modeConfig env.mem pdata ≠ 0 then answer (modeCurOffs env.mem pdata) [] else answer 0 []
    else if term = padModetable then
      if modeConfig env.mem pdata ≠ 0 then
        if offset = -1 then answer (nrOfModes env.mem pdata) []
        else if offset.toInt < nrOfModes env.mem pdata then
          answer (modeTable env.mem pdata offset.toInt) [.modeTable offset.toInt]
        else answer 0 []
      else answer 0 []
    else answer 0 []

def sbcallPadinfoact (port slot actno term : Int32) : Outcome :=
  if cfg.romPadman then askPadman cfg env port slot
  else
    let pdata := padGetDmaStr cfg env port slot
    let answer (v : Int) (used : List Index) : Outcome :=
      ⟨v, [], env.mem, padIndex port slot :: used⟩
    if currentTask env.mem pdata ≠ 1 then answer 0 []
    else if modeConfig env.mem pdata < 2 then answer 0 []
    else if actno.toInt ≥ nrOfActuators env.mem pdata then answer 0 []
    else if actno = -1 then answer (nrOfActuators env.mem pdata) []
    else if term.toInt ≥ 4 then answer 0 []
    else
      let i := (actno * 4 + term).toInt
      answer (actData env.mem pdata i) [.actData i]

/-- The calls that read the state, the mode, the buttons or the actuators of a pad. -/
inductive Query
  | padread (port slot : Int32)
  | padgetstate (port slot : Int32)
  | padgetreqstate (port slot : Int32)
  | padinfomode (port slot term offset : Int32)
  | padinfoact (port slot actno term : Int32)

def Query.run : Query → Outcome
  | padread port slot => sbcallPadread cfg env port slot
  | padgetstate port slot => sbcallPadgetstate cfg env port slot
  | padgetreqstate port slot => sbcallPadgetreqstate cfg env port slot
  | padinfomode port slot term offset => sbcallPadinfomode cfg env port slot term offset
  | padinfoact port slot actno term => sbcallPadinfoact cfg env port slot actno term

end Calls

section Bounds
variable (cfg : Config) (env : Env)

/-- There is such a pad. -/
def IsPad (port slot : Int32) : Prop := (padIndex port slot).Within

/-- The pad is in the right mode for a question about its table, and does not lead out of it. -/
def ModeFits (pdata : Nat) (term offset : Int32) : Prop :=
  currentTask env.mem pdata = 1 → reqState cfg env.mem pdata ≠ padRstatBusy →
    (term = padModecurexid → modeConfig env.mem pdata ≠ 1 → modeCurOffs env.mem pdata < 4) ∧
    (term = padModetable → modeConfig env.mem pdata ≠ 0 → offset ≠ -1 →
      offset.toInt < nrOfModes env.mem pdata → 0 ≤ offset.toInt ∧ offset.toInt < 4)

/-- The same for the actuators. -/
def ActFits (pdata : Nat) (actno term : Int32) : Prop :=
  currentTask env.mem pdata = 1 → 2 ≤ modeConfig env.mem pdata →
    actno.toInt < nrOfActuators env.mem pdata → actno ≠ -1 → term.toInt < 4 →
      0 ≤ (actno * 4 + term).toInt ∧ (actno * 4 + term).toInt < 32

def Query.Fits : Query → Prop
  | padread port slot =>
    IsPad port slot ∧ length cfg env.mem (padGetDmaStr cfg env port slot) ≤ 32
  | padgetstate port slot => IsPad port slot
  | padgetreqstate port slot => IsPad port slot
  | padinfomode port slot term offset =>
    if cfg.romPadman then env.answer = some 1 → IsPad port slot
    else IsPad port slot ∧ ModeFits cfg env (padGetDmaStr cfg env port slot) term offset
  | padinfoact port slot actno term =>
    if cfg.romPadman then env.answer = some 1 → IsPad port slot
    else IsPad port slot ∧ ActFits env (padGetDmaStr cfg env port slot) actno term

@[simp] theorem within_padIndex (port slot : Int32) :
    (padIndex port slot).Within ↔ IsPad port slot := Iff.rfl

@[simp] theorem within_modeTable (i : Int) : (Index.modeTable i).Within ↔ 0 ≤ i ∧ i < 4 := Iff.rfl

@[simp] theorem within_actData (i : Int) : (Index.actData i).Within ↔ 0 ≤ i ∧ i < 32 := Iff.rfl

@[simp] theorem within_buttons (n : Nat) : (Index.buttons n).Within ↔ n ≤ 32 := Iff.rfl

/-- The only index of a question to `padman` of the ROM comes with the answer 1. -/
theorem askPadman_within (port slot : Int32) :
    (∀ i ∈ (askPadman cfg env port slot).used, i.Within) ↔
      (env.answer = some 1 → IsPad port slot) := by
  unfold askPadman
  cases env.answer with
  | none => simp
  | some v =>
    by_cases hv : v = 1
    · simp [hv]
    · simp [hv]

theorem sbcallPadinfomode_within (hnew : cfg.romPadman = false) (port slot term offset : Int32) :
    (∀ i ∈ (sbcallPadinfomode cfg env port slot term offset).used, i.Within) ↔
      IsPad port slot ∧ ModeFits cfg env (padGetDmaStr cfg env port slot) term offset := by
  unfold sbcallPadinfomode ModeFits
  generalize padGetDmaStr cfg env port slot = pdata
  simp only [hnew, Bool.false_eq_true, if_false]
  by_cases htask : currentTask env.mem pdata = 1
  · by_cases hbusy : reqState cfg env.mem pdata = padRstatBusy
    · simp [htask, hbusy]
    · simp only [htask, hbusy, ne_eq, not_true, not_false_eq_true, if_false, true_implies]
      by_cases hexid : term = padModecurexid
      · -- the index is a field of the area
        subst hexid
        rw [if_neg (by decide), if_pos rfl]
        have htable : ¬ (padModecurexid = padModetable) := by decide
        by_cases hconfig : modeConfig env.mem pdata = 1
        · simp [hconfig, htable]
        · have hcast : (modeCurOffs env.mem pdata : Int) < 4 ↔ modeCurOffs env.mem pdata < 4 :=
            Int.ofNat_lt
          simp [hconfig, htable, hcast]
      · by_cases htable : term = padModetable
        · -- the index is an argument
          subst htable
          rw [if_neg (by decide), if_neg (by decide), if_neg (by decide), if_pos rfl]
          split_ifs <;> simp_all
        · split_ifs <;> simp [hexid, htable]
  · simp [htask]

theorem sbcallPadinfoact_within (hnew : cfg.romPadman = false) (port slot actno term : Int32) :
    (∀ i ∈ (sbcallPadinfoact cfg env port slot actno term).used, i.Within) ↔
      IsPad port slot ∧ ActFits env (padGetDmaStr cfg env port slot) actno term := by
  unfold sbcallPadinfoact ActFits
  generalize padGetDmaStr cfg env port slot = pdata
  generalize (actno * 4 + term).toInt = index
  simp only [hnew, Bool.false_eq_true, if_false]
  by_cases htask : currentTask env.mem pdata = 1
  · rw [if_neg (not_not.mpr htask)]
    by_cases hmode : 2 ≤ modeConfig env.mem pdata
    · rw [if_neg (Nat.not_lt.mpr hmode)]
      by_cases hact : actno.toInt < nrOfActuators env.mem pdata
      · rw [if_neg (Int.not_le.mpr hact)]
        by_cases hno : actno = -1
        · simp [hno]
        · rw [if_neg hno]
          by_cases hterm : term.toInt < 4
          · rw [if_neg (Int.not_le.mpr hterm)]
            simp [htask, hmode, hact, hno, hterm]
          · simp [hterm, Int.not_lt.mp hterm]
      · simp [hact, Int.not_lt.mp hact]
    · simp [hmode, Nat.not_le.mp hmode]
  · simp [htask]

/-- Exactly then all indices are those of elements, and at most 32 bytes are copied. -/
theorem query_within_iff (q : Query) :
    (∀ i ∈ (q.run cfg env).used, i.Within) ↔ q.Fits cfg env := by
  cases q with
  | padread port slot => simp [Query.run, sbcallPadread, Query.Fits]
  | padgetstate port slot =>
    rw [Query.run, sbcallPadgetstate, Query.Fits]
    split_ifs <;> simp
  | padgetreqstate port slot => simp [Query.run, sbcallPadgetreqstate, Query.Fits]
  | padinfomode port slot term offset =>
    rw [Query.run, Query.Fits]
    cases hrom : cfg.romPadman with
    | true =>
      rw [if_pos rfl, sbcallPadinfomode, if_pos hrom]
      exact askPadman_within cfg env port slot
    | false => exact sbcallPadinfomode_within cfg env hrom port slot term offset
  | padinfoact port slot actno term =>
    rw [Query.run, Query.Fits]
    cases hrom : cfg.romPadman with
    | true =>
      rw [if_pos rfl, sbcallPadinfoact, if_pos hrom]
      exact askPadman_within cfg env port slot
    | false => exact sbcallPadinfoact_within cfg env hrom port slot actno term

end Bounds

/-- A pad data area with 33 bytes of button data, a current mode and a number of modes beyond the
table, and 9 actuators. -/
def badArea : Env where
  mem a :=
    if a = 96 then 33 else if a = 100 then 2 else if a = 104 then 5 else if a = 105 then 4
    else if a = 106 then 9 else if a = 114 then 1 else 0
  padData _ _ := 0
  answer := none

/-- A copy of 33 bytes, `modeTable[4]`, `modeTable[-2]`, `actData[32]` and `PadState[2][0]`. -/
theorem query_outside :
    let within (q : Query) : Prop := ∀ i ∈ (q.run ⟨false, 0⟩ badArea).used, i.Within
    ¬ within (.padread 0 0) ∧ ¬ within (.padinfomode 0 0 padModecurexid 0) ∧
      ¬ within (.padinfomode 0 0 padModetable (-2)) ∧ ¬ within (.padinfoact 0 0 8 0) ∧
      ¬ within (.padgetstate 2 0) := by
  refine ⟨?_, ?_, ?_, ?_, ?_⟩ <;> decide

end KernelLoader.Tge.Pad.Dma
