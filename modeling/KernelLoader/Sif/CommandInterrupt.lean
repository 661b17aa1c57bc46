import KernelLoader.Lib.Logged
import KernelLoader.Lib.Word
import Mathlib.Data.BitVec
import Mathlib.Logic.Function.Basic

namespace KernelLoader.Sif.Command
open Lib
set_option autoImplicit true
set_option relaxedAutoImplicit false

def cmdHandlerMax : Nat := 32

/-- Quadwords in the receive buffer and in the aligned copy on the stack. -/
def packetQuads : Nat := 8

def systemCmd : BitVec 32 := 0x80000000#32

def sifCmdSetSreg : BitVec 32 := systemCmd ||| 1#32

/-- The two handlers of the driver, and the ones added from outside by their address. -/
inductive Handler
  | changeAddr
  | setSreg
  | added (entry : Nat)
  deriving DecidableEq, Repr

/-- The argument of a handler: the data of the driver, or whatever was added with it. -/
inductive Harg
  | null
  | cmdData
  | added (harg : Nat)
  deriving DecidableEq, Repr

/-- `sifCmdHandler_t`. -/
structure CmdHandler where
  handler : Option Handler
  harg : Harg
  deriving DecidableEq, Repr

/-- `cmd_data_t`. A table that is not there is `none`. -/
structure CmdData where
  iopbuf : BitVec 32
  sysCmdHandlers : Option (Nat → CmdHandler)
  nrSysHandlers : Nat
  usrCmdHandlers : Option (Nat → CmdHandler)
  nrUsrHandlers : Nat
  sregs : Nat → BitVec 32

/-- The accesses whose place depends on a size or an index: quadwords of the two buffers, the
entry of a handler table of `nr` entries, and a software register of the data that `set_sreg` was
given. -/
inductive Access
  | readPktbuf (quad : Nat)
  | writePacket (quad : Nat)
  | dispatch (index nr : Nat)
  | setHandler (index nr : Nat)
  | setSreg (harg : Harg) (index : Nat)
  deriving DecidableEq, Repr

def Access.InBounds : Access → Prop
  | .readPktbuf quad => quad < packetQuads
  | .writePacket quad => quad < packetQuads
  | .dispatch index nr => index < nr
  | .setHandler index nr => index < nr
  | .setSreg harg index => harg = .cmdData ∧ index < 32

/-- The registers of the SIF0 channel. -/
structure Sif0 where
  chcr : Nat
  qwc : Nat
  deriving DecidableEq, Repr

/-- The bit of CHCR that is set while the channel runs. -/
def Sif0.running (r : Sif0) : Prop := r.chcr &&& 0x0100 ≠ 0

instance (r : Sif0) : Decidable r.running := inferInstanceAs (Decidable (_ ≠ _))

def sbcallSifsetdchain (_ : Sif0) : Sif0 := ⟨0x184, 0⟩

/-- The tables as `SifInitCmd` sets them up. -/
def sifInitCmd (iopaddr : BitVec 32) : CmdData where
  iopbuf := iopaddr
  sysCmdHandlers := some fun i =>
    if i = 0 then ⟨some .changeAddr, .cmdData⟩
    else if i = 1 then ⟨some .setSreg, .cmdData⟩
    else ⟨none, .null⟩
  nrSysHandlers := cmdHandlerMax
  usrCmdHandlers := none
  nrUsrHandlers := 0
  sregs := fun _ => 0

/-- The entry of a command in its table. -/
def cmdIndex (fid : BitVec 32) : Nat := (fid &&& 0x7fffffff#32).toNat

/-- Change the entry a command id stands for. A table that is missing is reported on the
console. -/
def setCmdHandler (fid : BitVec 32) (f : CmdHandler → CmdHandler) (d : CmdData) :
    List Access × CmdData :=
  if fid &&& systemCmd ≠ 0#32 then
    match d.sysCmdHandlers with
    | some table =>
      ([.setHandler (cmdIndex fid) d.nrSysHandlers], { d with
        sysCmdHandlers := some (Function.update table (cmdIndex fid) (f (table (cmdIndex fid)))) })
    | none => ([], d)
  else
    match d.usrCmdHandlers with
    | some table =>
      ([.setHandler fid.toNat d.nrUsrHandlers], { d with
        usrCmdHandlers := some (Function.update table fid.toNat (f (table fid.toNat))) })
    | none => ([], d)

def sifAddCmdHandler (fid : BitVec 32) (handler : Option Nat) (harg : Nat) (d : CmdData) :
    List Access × CmdData :=
  setCmdHandler fid (fun _ => ⟨handler.map .added, .added harg⟩) d

def sifCmdDelHandler (fid : BitVec 32) (d : CmdData) : List Access × CmdData :=
  setCmdHandler fid (fun e => { e with handler := none }) d

/-- Set the table of the user commands. The caller's buffer has some content; the old one is
returned. -/
def sifCmdSetBuffer (buf : Option (Nat → CmdHandler)) (size : BitVec 32) (d : CmdData) :
    Option (Nat → CmdHandler) × CmdData :=
  (d.usrCmdHandlers, { d with usrCmdHandlers := buf, nrUsrHandlers := size.toNat })

def sifCmdSetSysBuffer (buf : Option (Nat → CmdHandler)) (size : BitVec 32) (d : CmdData) :
    Option (Nat → CmdHandler) × CmdData :=
  (d.sysCmdHandlers, { d with sysCmdHandlers := buf, nrSysHandlers := size.toNat })

/-- The calls that change the handler tables. -/
inductive CmdCall
  | add (fid : BitVec 32) (handler : Option Nat) (harg : Nat)
  | del (fid : BitVec 32)
  | setBuffer (buf : Option (Nat → CmdHandler)) (size : BitVec 32)
  | setSysBuffer (buf : Option (Nat → CmdHandler)) (size : BitVec 32)

def cmdStep (d : CmdData) : CmdCall → List Access × CmdData
  | .add fid handler harg => sifAddCmdHandler fid handler harg d
  | .del fid => sifCmdDelHandler fid d
  | .setBuffer buf size => ([], (sifCmdSetBuffer buf size d).2)
  | .setSysBuffer buf size => ([], (sifCmdSetSysBuffer buf size d).2)

def cmdRun (calls : List CmdCall) (d : CmdData) : List Access × CmdData := runLog cmdStep d calls

/-- What an interrupt finds: the words of the receive buffer, the words the stack had where the
copy goes, and the channel. -/
structure Received where
  pktbuf : Nat → BitVec 32
  stack : Nat → BitVec 32
  sif0 : Sif0

/-- `packet[i] = pktbuf[i]` for the next `n` quadwords. -/
def copyQuads (pktbuf : Nat → BitVec 32) :
    (n i : Nat) → (packet : Nat → BitVec 32) → List Access × (Nat → BitVec 32)
  | 0, _, packet => ([], packet)
  | n + 1, i, packet =>
    let (accesses, packet) :=
      copyQuads pktbuf n (i + 1) (fun j => if j / 4 = i then pktbuf j else packet j)
    (.readPktbuf i :: .writePacket i :: accesses, packet)

/-- `((cmd_data_t *)harg)->sregs[pkt->sreg] = pkt->val`. -/
def setSreg (packet : Nat → BitVec 32) (harg : Harg) (d : CmdData) : List Access × CmdData :=
  ([.setSreg harg (packet 4).toNat],
    if harg = .cmdData then { d with sregs := Function.update d.sregs (packet 4).toNat (packet 5) }
    else d)

def changeAddr (packet : Nat → BitVec 32) (harg : Harg) (d : CmdData) : List Access × CmdData :=
  ([], if harg = .cmdData then { d with iopbuf := packet 4 } else d)

/-- What a handler added from outside does is not part of the driver. -/
def runHandler (packet : Nat → BitVec 32) (d : CmdData) (harg : Harg) :
    Handler → List Access × CmdData
  | .changeAddr => changeAddr packet harg d
  | .setSreg => setSreg packet harg d
  | .added _ => ([], d)

/-- The table to dispatch from and its size. -/
def cmdHandlers (fid : BitVec 32) (d : CmdData) : Option (Nat → CmdHandler) × Nat :=
  if fid &&& systemCmd ≠ 0#32 then
    (if cmdIndex fid < d.nrSysHandlers then d.sysCmdHandlers else none, d.nrSysHandlers)
  else (if cmdIndex fid < d.nrUsrHandlers then d.usrCmdHandlers else none, d.nrUsrHandlers)

def dispatch (packet : Nat → BitVec 32) (d : CmdData) : List Access × CmdData :=
  let id := cmdIndex (packet 2)
  match cmdHandlers (packet 2) d with
  | (some table, nr) =>
    match (table id).handler with
    | some handler =>
      let (accesses, d) := runHandler packet d (table id).harg handler
      (.dispatch id nr :: accesses, d)
    | none => ([.dispatch id nr], d)
  | (none, _) => ([], d)

/-- The size of the packet from the header in front. -/
def receivedSize (r : Received) : Nat := (r.pktbuf 0 &&& 0xff#32).toNat

/-- `header->size = 0` before the packet is copied. -/
def copyPacket (r : Received) : List Access × (Nat → BitVec 32) :=
  copyQuads (Function.update r.pktbuf 0 0) ((receivedSize r + 30) >>> 4) 0 r.stack

/-- What an interrupt has touched, and the channel and the data afterwards. -/
structure Handled where
  accesses : List Access
  sif0 : Sif0
  data : CmdData

def sifCmdInterrupt (r : Received) (d : CmdData) : Handled :=
  if r.sif0.running then ⟨[], r.sif0, d⟩
  else if receivedSize r = 0 then ⟨[], r.sif0, d⟩
  else
    let (copied, packet) := copyPacket r
    -- The DMA buffer has been copied, so the channel is started again before the handler runs.
    let (handled, d) := dispatch packet d
    ⟨copied ++ handled, sbcallSifsetdchain r.sif0, d⟩

theorem and_systemCmd (fid : BitVec 32) : fid &&& systemCmd ≠ 0#32 ↔ 2 ^ 31 ≤ fid.toNat := by
  have hlt : fid.toNat < 2 ^ (31 + 1) := fid.isLt
  have hmask : (fid &&& systemCmd).toNat = fid.toNat / 2 ^ 31 * 2 ^ 31 := by
    rw [BitVec.toNat_and, ← and_high_mask fid.toNat 31 1 hlt]
    rfl
  rw [ne_eq, ← BitVec.toNat_inj, hmask, BitVec.toNat_zero]
  omega

theorem cmdIndex_eq (fid : BitVec 32) : cmdIndex fid = fid.toNat % 2 ^ 31 := by
  rw [← and_mask, cmdIndex, BitVec.toNat_and]
  rfl

theorem toNat_eq_cmdIndex {fid : BitVec 32} (h : ¬fid &&& systemCmd ≠ 0#32) :
    fid.toNat = cmdIndex fid := by
  rw [and_systemCmd] at h
  rw [cmdIndex_eq]
  omega

theorem fid_eq_iff (fid fid' : BitVec 32) : fid = fid' ↔
    (fid &&& systemCmd ≠ 0#32 ↔ fid' &&& systemCmd ≠ 0#32) ∧ cmdIndex fid = cmdIndex fid' := by
  have hlt := fid.isLt
  have hlt' := fid'.isLt
  rw [and_systemCmd, and_systemCmd, cmdIndex_eq, cmdIndex_eq, ← BitVec.toNat_inj]
  omega

/-- How many entries the two tables have, as far as they are there. -/
structure Sizes where
  sys : Option Nat
  usr : Option Nat

def Sizes.of (s : Sizes) (fid : BitVec 32) : Option Nat :=
  if fid &&& systemCmd ≠ 0#32 then s.sys else s.usr

def Sizes.after (s : Sizes) : CmdCall → Sizes
  | .setBuffer buf size => { s with usr := buf.map fun _ => size.toNat }
  | .setSysBuffer buf size => { s with sys := buf.map fun _ => size.toNat }
  | _ => s

/-- The sizes that `SifInitCmd` and some calls leave. -/
def sizesAfter (calls : List CmdCall) : Sizes := calls.foldl Sizes.after ⟨some cmdHandlerMax, none⟩

/-- A command that is added or removed has its entry in the table, if there is one. -/
def CmdCall.Fits (s : Sizes) : CmdCall → Prop
  | .add fid _ _ => ∀ nr ∈ s.of fid, cmdIndex fid < nr
  | .del fid => ∀ nr ∈ s.of fid, cmdIndex fid < nr
  | _ => True

instance (s : Sizes) : (c : CmdCall) → Decidable (c.Fits s)
  | .add fid _ _ => inferInstanceAs (Decidable (∀ nr ∈ s.of fid, cmdIndex fid < nr))
  | .del fid => inferInstanceAs (Decidable (∀ nr ∈ s.of fid, cmdIndex fid < nr))
  | .setBuffer _ _ => isTrue trivial
  | .setSysBuffer _ _ => isTrue trivial

/-- The argument of `set_sreg`, if this is the handler in an entry. -/
def CmdHandler.sregArg (e : CmdHandler) : Option Harg :=
  if e.handler = some .setSreg then some e.harg else none

/-- The entry of a table, if the table has it. -/
def entryOf (buf : Option (Nat → CmdHandler)) (nr index : Nat) : Option CmdHandler :=
  if index < nr then buf.map fun table => table index else none

/-- Follow what is in the entry of a command: the argument of `set_sreg`, or anything else. -/
def sregAfter (fid : BitVec 32) (harg : Option Harg) : CmdCall → Option Harg
  | .add fid' _ _ => if fid = fid' then none else harg
  | .del fid' => if fid = fid' then none else harg
  | .setBuffer buf size =>
    if fid &&& systemCmd ≠ 0#32 then harg
    else (entryOf buf size.toNat (cmdIndex fid)).bind CmdHandler.sregArg
  | .setSysBuffer buf size =>
    if fid &&& systemCmd ≠ 0#32 then (entryOf buf size.toNat (cmdIndex fid)).bind CmdHandler.sregArg
    else harg

/-- What `SifInitCmd` and some calls leave in the entry of a command. -/
def sregArgAfter (calls : List CmdCall) (fid : BitVec 32) : Option Harg :=
  calls.foldl (sregAfter fid) (if fid = sifCmdSetSreg then some .cmdData else none)

def CmdData.sizes (d : CmdData) : Sizes :=
  ⟨d.sysCmdHandlers.map fun _ => d.nrSysHandlers, d.usrCmdHandlers.map fun _ => d.nrUsrHandlers⟩

def CmdData.entry (d : CmdData) (fid : BitVec 32) : Option CmdHandler :=
  if fid &&& systemCmd ≠ 0#32 then entryOf d.sysCmdHandlers d.nrSysHandlers (cmdIndex fid)
  else entryOf d.usrCmdHandlers d.nrUsrHandlers (cmdIndex fid)

/-- The handler of the entry as far as `set_sreg` goes. -/
def CmdData.sregArg (d : CmdData) (fid : BitVec 32) : Option Harg :=
  (d.entry fid).bind CmdHandler.sregArg

theorem entryOf_update (table : Nat → CmdHandler) (f : CmdHandler → CmdHandler) (nr i j : Nat) :
    entryOf (some (Function.update table i (f (table i)))) nr j =
      if j = i then (entryOf (some table) nr j).map f else entryOf (some table) nr j := by
  unfold entryOf
  by_cases hj : j = i
  · subst hj
    rw [if_pos rfl]
    split
    · simp
    · rfl
  · simp [hj]

section Tables

variable (d : CmdData) (fid fid' : BitVec 32) (f : CmdHandler → CmdHandler)

theorem sizes_setCmdHandler : (setCmdHandler fid f d).2.sizes = d.sizes := by
  unfold setCmdHandler
  split
  · cases h : d.sysCmdHandlers with
    | none => rfl
    | some table => simp [CmdData.sizes, h]
  · cases h : d.usrCmdHandlers with
    | none => rfl
    | some table => simp [CmdData.sizes, h]

theorem entry_setCmdHandler : (setCmdHandler fid f d).2.entry fid' =
    if fid' = fid then (d.entry fid').map f else d.entry fid' := by
  have heq := fid_eq_iff fid' fid
  unfold setCmdHandler
  by_cases hsys : fid &&& systemCmd ≠ 0#32
  · rw [if_pos hsys]
    by_cases hsys' : fid' &&& systemCmd ≠ 0#32
    · have hiff : fid' = fid ↔ cmdIndex fid' = cmdIndex fid := by simpa [hsys, hsys'] using heq
      cases htable : d.sysCmdHandlers with
      | none => simp [CmdData.entry, hsys', htable, entryOf]
      | some table =>
        simp only [CmdData.entry, if_pos hsys', htable, entryOf_update, hiff]
    · have hne : fid' ≠ fid := fun h => hsys' (h ▸ hsys)
      rw [if_neg hne]
      cases d.sysCmdHandlers <;> simp [CmdData.entry, hsys']
  · rw [if_neg hsys]
    have hindex := toNat_eq_cmdIndex hsys
    by_cases hsys' : fid' &&& systemCmd ≠ 0#32
    · have hne : fid' ≠ fid := fun h => hsys (h ▸ hsys')
      rw [if_neg hne]
      cases d.usrCmdHandlers <;> simp [CmdData.entry, hsys']
    · have hiff : fid' = fid ↔ cmdIndex fid' = cmdIndex fid := by simpa [hsys, hsys'] using heq
      cases htable : d.usrCmdHandlers with
      | none => simp [CmdData.entry, hsys', htable, entryOf]
      | some table =>
        simp only [CmdData.entry, if_neg hsys', htable, hindex, entryOf_update, hiff]

/-- A call with a number that does not fit writes past the table. -/
theorem setCmdHandler_inBounds : (∀ a ∈ (setCmdHandler fid f d).1, a.InBounds) ↔
    ∀ nr ∈ d.sizes.of fid, cmdIndex fid < nr := by
  unfold setCmdHandler Sizes.of CmdData.sizes
  by_cases hsys : fid &&& systemCmd ≠ 0#32
  · rw [if_pos hsys, if_pos hsys]
    cases d.sysCmdHandlers with
    | none => simp
    | some table => simp [Access.InBounds]
  · rw [if_neg hsys, if_neg hsys]
    have hindex := toNat_eq_cmdIndex hsys
    cases d.usrCmdHandlers with
    | none => simp
    | some table => simp [Access.InBounds, hindex]

theorem sregArg_setCmdHandler (hf : ∀ e, (f e).sregArg = none) :
    (setCmdHandler fid f d).2.sregArg fid' = if fid' = fid then none else d.sregArg fid' := by
  rw [CmdData.sregArg, entry_setCmdHandler]
  split
  · cases d.entry fid' with
    | none => rfl
    | some e => exact hf e
  · rfl

end Tables

theorem cmdStep_sizes (d : CmdData) (c : CmdCall) : (cmdStep d c).2.sizes = d.sizes.after c := by
  cases c with
  | add fid handler harg => exact sizes_setCmdHandler d fid _
  | del fid => exact sizes_setCmdHandler d fid _
  | setBuffer buf size => rfl
  | setSysBuffer buf size => rfl

theorem cmdStep_inBounds (d : CmdData) (c : CmdCall) :
    (∀ a ∈ (cmdStep d c).1, a.InBounds) ↔ c.Fits d.sizes := by
  cases c with
  | add fid handler harg => exact setCmdHandler_inBounds d fid _
  | del fid => exact setCmdHandler_inBounds d fid _
  | setBuffer buf size => simp [cmdStep, CmdCall.Fits]
  | setSysBuffer buf size => simp [cmdStep, CmdCall.Fits]

theorem cmdStep_sregArg (fid : BitVec 32) (d : CmdData) (c : CmdCall) :
    (cmdStep d c).2.sregArg fid = sregAfter fid (d.sregArg fid) c := by
  cases c with
  | add fid' handler harg =>
    refine sregArg_setCmdHandler d fid' fid _ fun e => ?_
    cases handler <;> simp [CmdHandler.sregArg]
  | del fid' => exact sregArg_setCmdHandler d fid' fid _ fun e => by simp [CmdHandler.sregArg]
  | setBuffer buf size =>
    unfold CmdData.sregArg CmdData.entry sregAfter
    split <;> rfl
  | setSysBuffer buf size =>
    unfold CmdData.sregArg CmdData.entry sregAfter
    split <;> rfl

theorem sregArg_init (iopaddr fid : BitVec 32) : (sifInitCmd iopaddr).sregArg fid =
    if fid = sifCmdSetSreg then some .cmdData else none := by
  have heq := fid_eq_iff fid sifCmdSetSreg
  have hval : cmdIndex sifCmdSetSreg = 1 := by decide
  rw [iff_true_right (show sifCmdSetSreg &&& systemCmd ≠ 0#32 by decide), hval] at heq
  by_cases hsys : fid &&& systemCmd ≠ 0#32
  · rw [and_iff_right hsys] at heq
    simp only [CmdData.sregArg, CmdData.entry, if_pos hsys, sifInitCmd, entryOf, heq]
    by_cases h1 : cmdIndex fid = 1
    · simp [h1, cmdHandlerMax, CmdHandler.sregArg]
    · by_cases h0 : cmdIndex fid = 0
      · simp [h0, cmdHandlerMax, CmdHandler.sregArg]
      · by_cases hlt : cmdIndex fid < cmdHandlerMax
        · simp [h0, h1, hlt, CmdHandler.sregArg]
        · simp [h1, hlt]
  · rw [if_neg fun h => hsys (heq.mp h).1]
    simp [CmdData.sregArg, CmdData.entry, hsys, sifInitCmd, entryOf]

theorem cmdRun_inBounds (calls : List CmdCall) (iopaddr : BitVec 32) :
    (∀ a ∈ (cmdRun calls (sifInitCmd iopaddr)).1, a.InBounds) ↔
      ∀ i (hi : i < calls.length), calls[i].Fits (sizesAfter (calls.take i)) :=
  runLog_iff_view CmdData.sizes cmdStep_sizes cmdStep_inBounds calls (sifInitCmd iopaddr)

theorem cmdRun_sregArg (calls : List CmdCall) (iopaddr fid : BitVec 32) :
    (cmdRun calls (sifInitCmd iopaddr)).2.sregArg fid = sregArgAfter calls fid := by
  have hview := runLog_view (CmdData.sregArg · fid) (cmdStep_sregArg fid) calls (sifInitCmd iopaddr)
  rw [sregArg_init] at hview
  exact hview

theorem copyQuads_inBounds (pktbuf : Nat → BitVec 32) (n i : Nat) (packet : Nat → BitVec 32) :
    (∀ a ∈ (copyQuads pktbuf n i packet).1, a.InBounds) ↔ n = 0 ∨ i + n ≤ packetQuads := by
  induction n generalizing i packet with
  | zero => simp [copyQuads]
  | succ n ih =>
    have hsucc : (copyQuads pktbuf (n + 1) i packet).1 = .readPktbuf i :: .writePacket i ::
        (copyQuads pktbuf n (i + 1) fun j => if j / 4 = i then pktbuf j else packet j).1 := rfl
    rw [hsucc, List.forall_mem_cons, List.forall_mem_cons, ih]
    change i < packetQuads ∧ i < packetQuads ∧ _ ↔ _
    omega

theorem copyQuads_packet (pktbuf : Nat → BitVec 32) (n i : Nat) (packet : Nat → BitVec 32)
    (j : Nat) : (copyQuads pktbuf n i packet).2 j =
      if i ≤ j / 4 ∧ j / 4 < i + n then pktbuf j else packet j := by
  induction n generalizing i packet with
  | zero => exact (if_neg (by omega)).symm
  | succ n ih =>
    simp only [copyQuads, ih]
    split_ifs <;> first | rfl | omega

/-- With a size of 1 only the first quadword is copied, and the register number is whatever
was on the stack. -/
def sregWord (r : Received) : BitVec 32 := if 2 ≤ receivedSize r then r.pktbuf 4 else r.stack 4

theorem copyPacket_inBounds (r : Received) (hsize : 1 ≤ receivedSize r) :
    (∀ a ∈ (copyPacket r).1, a.InBounds) ↔ receivedSize r ≤ 113 := by
  rw [copyPacket, copyQuads_inBounds, Nat.shiftRight_eq_div_pow, packetQuads]
  omega

theorem copyPacket_fid (r : Received) (hsize : 1 ≤ receivedSize r) :
    (copyPacket r).2 2 = r.pktbuf 2 := by
  rw [copyPacket, copyQuads_packet, Nat.shiftRight_eq_div_pow, if_pos (by omega)]
  rfl

theorem copyPacket_sreg (r : Received) (hsize : 1 ≤ receivedSize r) :
    (copyPacket r).2 4 = sregWord r := by
  rw [copyPacket, copyQuads_packet, Nat.shiftRight_eq_div_pow, sregWord]
  exact if_congr (by omega) rfl rfl

theorem runHandler_inBounds (packet : Nat → BitVec 32) (d : CmdData) (harg : Harg)
    (handler : Handler) : (∀ a ∈ (runHandler packet d harg handler).1, a.InBounds) ↔
      (handler = .setSreg → harg = .cmdData ∧ (packet 4).toNat < 32) := by
  cases handler <;> simp [runHandler, changeAddr, setSreg, Access.InBounds]

theorem dispatch_entry (packet : Nat → BitVec 32) (d : CmdData) :
    (dispatch packet d).1 = (d.entry (packet 2)).elim [] fun e =>
      .dispatch (cmdIndex (packet 2)) (cmdHandlers (packet 2) d).2 ::
        e.handler.elim [] fun f => (runHandler packet d e.harg f).1 := by
  have hentry : d.entry (packet 2) =
      (cmdHandlers (packet 2) d).1.map fun table => table (cmdIndex (packet 2)) := by
    unfold CmdData.entry cmdHandlers entryOf
    split_ifs <;> rfl
  unfold dispatch
  rw [hentry]
  rcases cmdHandlers (packet 2) d with ⟨_ | table, nr⟩
  · rfl
  · cases hh : (table (cmdIndex (packet 2))).handler with
    | none => simp [hh]
    | some f => simp [hh]

theorem lt_of_entry {fid : BitVec 32} {e : CmdHandler} (h : d.entry fid = some e) :
    cmdIndex fid < (cmdHandlers fid d).2 := by
  unfold CmdData.entry entryOf at h
  unfold cmdHandlers
  split_ifs at h ⊢ <;> assumption

/-- Of the accesses of a dispatch only the one of `set_sreg` may go wrong. -/
theorem dispatch_inBounds (packet : Nat → BitVec 32) (d : CmdData) :
    (∀ a ∈ (dispatch packet d).1, a.InBounds) ↔
      ∀ harg ∈ d.sregArg (packet 2), harg = .cmdData ∧ (packet 4).toNat < 32 := by
  rw [dispatch_entry, CmdData.sregArg]
  cases hentry : d.entry (packet 2) with
  | none => simp
  | some e =>
    have hin : (Access.dispatch (cmdIndex (packet 2)) (cmdHandlers (packet 2) d).2).InBounds :=
      lt_of_entry hentry
    rw [Option.elim_some, List.forall_mem_cons, and_iff_right hin, Option.bind_some,
      CmdHandler.sregArg]
    cases hh : e.handler with
    | none => simp
    | some f =>
      rw [Option.elim_some, runHandler_inBounds]
      by_cases hf : f = .setSreg
      · simp [hf]
      · simp [hf]

/-- After any calls that change the handler tables, an interrupt keeps to the buffers, the tables
and the registers and starts the channel again if and only if: every command that was added or
removed has its entry in the table that was set last, if there is one, the packet has a size from 1
to 113, and if its command has `set_sreg` in its entry, then with the data of the driver, and the
packet is about one of the 32 registers. -/
theorem sifCmdInterrupt_robust (calls : List CmdCall) (iopaddr : BitVec 32) (r : Received)
    (hdone : ¬r.sif0.running) :
    ((∀ a ∈ (cmdRun calls (sifInitCmd iopaddr)).1, a.InBounds) ∧
      (∀ a ∈ (sifCmdInterrupt r (cmdRun calls (sifInitCmd iopaddr)).2).accesses, a.InBounds) ∧
      (sifCmdInterrupt r (cmdRun calls (sifInitCmd iopaddr)).2).sif0.running) ↔
      (∀ i (hi : i < calls.length), calls[i].Fits (sizesAfter (calls.take i))) ∧
        1 ≤ receivedSize r ∧ receivedSize r ≤ 113 ∧
        ∀ harg ∈ sregArgAfter calls (r.pktbuf 2), harg = .cmdData ∧ (sregWord r).toNat < 32 := by
  rw [cmdRun_inBounds]
  refine and_congr_right fun _ => ?_
  unfold sifCmdInterrupt
  rw [if_neg hdone]
  by_cases hsize : receivedSize r = 0
  · -- The channel is not started again.
    rw [if_pos hsize]
    exact iff_of_false (fun h => hdone h.2) fun h => by omega
  · have hpos : 1 ≤ receivedSize r := Nat.pos_of_ne_zero hsize
    rw [if_neg hsize]
    have harmed : (sbcallSifsetdchain r.sif0).running := by
      change 0x184 &&& 0x0100 ≠ 0
      decide
    change (∀ a ∈ (copyPacket r).1 ++ (dispatch (copyPacket r).2 _).1, a.InBounds) ∧
      (sbcallSifsetdchain r.sif0).running ↔ _
    rw [List.forall_mem_append, copyPacket_inBounds r hpos, dispatch_inBounds,
      copyPacket_fid r hpos, copyPacket_sreg r hpos, cmdRun_sregArg]
    simp only [harmed, hpos, true_and, and_true]

/-- A packet given by its first words, over a stack of zeros, with the channel stopped. -/
def receivedWords (words : List (BitVec 32)) : Received :=
  ⟨fun i => words.getD i 0, fun _ => 0, ⟨0, 0⟩⟩

/-- A table of the kernel for its own commands, with nothing in it. -/
def emptyTable : Nat → CmdHandler := fun _ => ⟨none, .null⟩

theorem sifCmdInterrupt_robust_end :
    let calls := [CmdCall.add 0x80000008#32 (some 0x80002000) 0x80009000,
      .setBuffer (some emptyTable) 4#32, .add 3#32 (some 0x80003000) 0]
    let r := receivedWords [64, 0, 3, 0]
    (∀ a ∈ (cmdRun calls (sifInitCmd 0x1e000)).1, a.InBounds) ∧
      (∀ a ∈ (sifCmdInterrupt r (cmdRun calls (sifInitCmd 0x1e000)).2).accesses, a.InBounds) ∧
      (sifCmdInterrupt r (cmdRun calls (sifInitCmd 0x1e000)).2).sif0.running :=
  (sifCmdInterrupt_robust _ _ _ (by decide)).mpr (by decide)

/-- A packet of size 0 leaves the channel stopped, one of size 114 is copied from and to a ninth
quadword, register 32 is written on command, command 32 is added behind the table, and so is user
command 4 behind a table of four entries. -/
theorem sifCmdInterrupt_breaks :
    ¬(sifCmdInterrupt (receivedWords []) (sifInitCmd 0)).sif0.running ∧
      .writePacket 8 ∈ (sifCmdInterrupt (receivedWords [114]) (sifInitCmd 0)).accesses ∧
      .setSreg .cmdData 32 ∈ (sifCmdInterrupt (receivedWords [24, 0, 0x80000001, 0, 32])
        (sifInitCmd 0)).accesses ∧
      .setHandler 32 32 ∈ (cmdRun [.add 0x80000020#32 none 0] (sifInitCmd 0)).1 ∧
      .setHandler 4 4 ∈ (cmdRun [.setBuffer (some emptyTable) 4#32, .add 4#32 none 0]
        (sifInitCmd 0)).1 := by
  decide

end KernelLoader.Sif.Command
