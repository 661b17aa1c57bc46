import KernelLoader.Lib.Word
import KernelLoader.Lib.Ring

namespace KernelLoader.Sif
open Lib
set_option autoImplicit true
set_option relaxedAutoImplicit false

/-- Values of the ID field of a DMA tag, in the order of the source's enumeration. -/
inductive DmatagId
  | refe | cnt | next | ref | refs | call | ret | end_
  deriving DecidableEq, Repr

def DmatagId.code : DmatagId → Nat
  | .refe => 0
  | .cnt => 1
  | .next => 2
  | .ref => 3
  | .refs => 4
  | .call => 5
  | .ret => 6
  | .end_ => 7

/-- A DMA tag as the DMAC reads it; the unused upper half is left out. -/
structure EeDmatag where
  idQwc : Nat
  addr : Nat
  deriving DecidableEq, Repr

/-- The tag accepted by the IOP, with up to seven quadwords of data behind it. -/
structure IopDmatag where
  addr : Nat
  size : Nat
  data : Nat → BitVec 128

/-- One entry of the list passed to `SifSetDma`. -/
structure Transfer where
  src : Nat
  dest : Nat
  size : Nat
  attr : Nat
  deriving DecidableEq, Repr

def qwcSize : Nat := 16
def qwcPayloadFirstPkt : Nat := 7
def attrIntI : Nat := 0x02
def attrIntO : Nat := 0x04
def attrDmatag : Nat := 0x20
def attrErt : Nat := 0x40
def dmatagIrq : Nat := 2 ^ 31

def physAddr (addr : Nat) : Nat := addr &&& 0x1fffffff
def kseg1Addr (addr : Nat) : Nat := physAddr addr ||| 0xa0000000
def eeDmatagId (id : DmatagId) : Nat := id.code <<< 28
def eeDmatagIdQwc (id : DmatagId) (qwc : Nat) : Nat := eeDmatagId id ||| qwc

/-- Where the linker placed the two tag tables, and what the CPU loads from an address. -/
structure DmaEnv where
  dmatags : Nat
  iopDmatags : Nat
  lq : Nat → BitVec 128
  dmatags_phys : dmatags + 32 * 16 ≤ 2 ^ 29
  iop_phys : iopDmatags + 32 * 128 ≤ 2 ^ 29

/-- The software state of the SIF1 ring, the registers of the channel and three observations:
the slot whose tag is in the channel, the slots that are queued or being transferred, and
whether such a slot was ever allocated again. -/
structure SifDma where
  index : Nat
  count : Nat
  tags : Nat → EeDmatag
  iopTags : Nat → IopDmatag
  tadr : Nat
  madr : Nat
  qwc : Nat
  str : Bool
  ended : Bool
  loaded : Nat
  pending : Finset Nat
  clobbered : Bool

/-- Static storage before `sif_dma_init`. -/
def SifDma.zero : SifDma where
  index := 0
  count := 0
  tags := fun _ => ⟨0, 0⟩
  iopTags := fun _ => ⟨0, 0, fun _ => 0⟩
  tadr := 0
  madr := 0
  qwc := 0
  str := false
  ended := false
  loaded := 31
  pending := ∅
  clobbered := false

def setTag (s : SifDma) (i : Nat) (t : EeDmatag) : SifDma :=
  { s with tags := Function.update s.tags i t }

def setIopTag (s : SifDma) (i : Nat) (t : IopDmatag) : SifDma :=
  { s with iopTags := Function.update s.iopTags i t }

def sifDmaInit (env : DmaEnv) (s : SifDma) : SifDma :=
  { setTag s 31 ⟨eeDmatagId .next, env.dmatags⟩ with
    count := 0xffff, index := 30, qwc := 0, tadr := env.dmatags }

/-- `SET_NEXT_DMATAG`: tag 31 cannot be used. -/
def setNextDmatag (s : SifDma) : SifDma :=
  let index := (s.index + 1) % 2 ^ 8
  { s with
    index := if index = 31 then 0 else index
    count := if index = 31 then (s.count + 1) % 2 ^ 16 else s.count }

/-- Fill the tag at the current index, which from now on belongs to an accepted transfer. -/
def putTag (s : SifDma) (t : EeDmatag) : SifDma :=
  { setTag s s.index t with
    pending := insert s.index s.pending
    clobbered := s.clobbered || decide (s.index ∈ s.pending) }

/-- Copy the first `n` quadwords behind the IOP tag. -/
def copyPayload (env : DmaEnv) (src : Nat) (n : Nat) (data : Nat → BitVec 128) :
    Nat → BitVec 128 :=
  fun i => if i < n then env.lq (kseg1Addr src + i * qwcSize) else data i

def irqBit (attr : Nat) : Nat := if attr &&& attrIntI ≠ 0 then dmatagIrq else 0

/-- The IOP destination word of `dtag->addr`. -/
def iopAddr (dest attr : Nat) : Nat :=
  (dest &&& 0x00ffffff) ||| (if attr &&& attrIntO ≠ 0 then 0x40000000 else 0) |||
    (if attr &&& attrErt ≠ 0 then 0x80000000 else 0)

def quadwords (size : Nat) : Nat := u32 (size + qwcSize - 1) / qwcSize

/-- `&iop_dmatags[i]` as a physical address. -/
def iopDmatagAddr (env : DmaEnv) (i : Nat) : Nat := physAddr (env.iopDmatags + i * 128)

def sifDmaTransfer (env : DmaEnv) (t : Transfer) (id : DmatagId) (s : SifDma) : SifDma :=
  let qwc := quadwords t.size
  let s := setNextDmatag s
  let d := s.index
  if t.attr &&& attrDmatag ≠ 0 then
    let s := putTag s ⟨eeDmatagIdQwc id qwc ||| irqBit t.attr, iopDmatagAddr env d⟩
    setIopTag s d { s.iopTags d with size := u32 (sub32 qwc 1 * 4), addr := iopAddr t.dest t.attr }
  else if 8 ≤ qwc then
    -- Split the data if it's more than 7 qwords.
    let s := putTag s ⟨eeDmatagIdQwc .ref 8, iopDmatagAddr env d⟩
    let s := setNextDmatag s
    let s := putTag s ⟨eeDmatagIdQwc id (qwc - qwcPayloadFirstPkt) ||| irqBit t.attr,
      physAddr (u32 (t.src + qwcPayloadFirstPkt * qwcSize))⟩
    setIopTag s d ⟨iopAddr t.dest t.attr, u32 (qwc * 4),
      copyPayload env t.src qwcPayloadFirstPkt (s.iopTags d).data⟩
  else
    let s := putTag s ⟨eeDmatagIdQwc id (qwc + 1) ||| irqBit t.attr, iopDmatagAddr env d⟩
    setIopTag s d ⟨iopAddr t.dest t.attr, u32 (qwc * 4),
      copyPayload env t.src qwc (s.iopTags d).data⟩

/-- The hardware tag index: the tag to be loaded next. -/
def hwNext (env : DmaEnv) (s : SifDma) : Nat := sub32 s.tadr env.dmatags / 16

/-- `sif_dma_get_hw_index`: the tag before the one to be loaded next. -/
def sifDmaGetHwIndex (env : DmaEnv) (s : SifDma) : Nat :=
  if 0 < hwNext env s then hwNext env s - 1 else 30

def sifGetNumberOfFreeDmaTags (env : DmaEnv) (s : SifDma) : Nat :=
  let hw := sifDmaGetHwIndex env s
  if hw = s.index then (if s.qwc ≠ 0 then 30 else 31)
  else if hw < s.index then u32 (sub32 hw s.index + 30)
  else sub32 (sub32 hw s.index) 1

def sifDmaSetupTag (env : DmaEnv) (freetags : Nat) (s : SifDma) : SifDma :=
  if freetags = 31 then s
  else
    let tag := s.tags s.index
    if freetags = 30 then
      -- The only entry is being processed: rebuild its tag from the registers and reload it.
      { setTag s s.index
          ⟨(tag.idQwc &&& 0x8c000000) ||| eeDmatagId .ref ||| s.qwc, s.madr⟩ with
        qwc := 0, tadr := physAddr (env.dmatags + s.index * 16) }
    else
      setTag s s.index ⟨tag.idQwc ||| eeDmatagId .ref, tag.addr⟩

/-- The tags counted for one entry before it is accepted. -/
def entryTags (t : Transfer) : Nat :=
  if t.attr &&& attrDmatag ≠ 0 ∨ t.size ≤ qwcPayloadFirstPkt * qwcSize then 1 else 2

def countTags (ts : List Transfer) : Nat := (ts.map entryTags).sum

/-- All entries but the last chain on to the next tag; the last one ends the transfer. -/
def transferAll (env : DmaEnv) : List Transfer → SifDma → SifDma
  | [], s => s
  | [t], s => sifDmaTransfer env t .refe s
  | t :: u :: ts, s => transferAll env (u :: ts) (sifDmaTransfer env t .ref s)

def stopChannel (s : SifDma) : SifDma := { s with str := false }

/-- With nothing left of the loaded tag the channel reads a new one when it is started. -/
def restart (s : SifDma) : SifDma :=
  { s with str := true, ended := s.ended && decide (s.qwc ≠ 0) }

def transferId (s : SifDma) (ntags : Nat) : Nat :=
  let start := (s.index + 1) % 31 &&& 0xff
  let count := if start ≠ 0 then s.count else s.count + 1
  u32 (count <<< 16) ||| start <<< 8 ||| (ntags &&& 0xff)

def sifSetDma (env : DmaEnv) (ts : List Transfer) (s : SifDma) : Nat × SifDma :=
  let s := stopChannel s
  let freetags := sifGetNumberOfFreeDmaTags env s
  let ntags := countTags ts
  if ntags ≤ freetags then
    (transferId s ntags, restart (transferAll env ts (sifDmaSetupTag env freetags s)))
  else (0, restart s)

/-- The ID field of a tag. -/
def tagId (t : EeDmatag) : Nat := t.idQwc >>> 28 &&& 7

/-- The DMAC reads the quadword count from the low half. -/
def tagQwc (t : EeDmatag) : Nat := t.idQwc % 2 ^ 16

/-- The slot is done once nothing of its tag is left in the channel. -/
def settle (s : SifDma) : SifDma :=
  if s.qwc = 0 then { s with pending := s.pending.erase s.loaded } else s

/-- The channel registers after tag `i` has been read. -/
def latch (s : SifDma) (i madr tadr : Nat) (ended : Bool) : SifDma :=
  { s with madr := madr, qwc := tagQwc (s.tags i), tadr := tadr, ended := ended, loaded := i }

/-- The DMAC loads the tag at TADR. Only the three kinds of tags the driver writes occur. -/
def dmacLoad (env : DmaEnv) (s : SifDma) : Option SifDma :=
  let i := hwNext env s
  let tag := s.tags i
  if tagId tag = DmatagId.code .refe then some (settle (latch s i tag.addr (s.tadr + 16) true))
  else if tagId tag = DmatagId.code .ref then
    some (settle (latch s i tag.addr (s.tadr + 16) false))
  else if tagId tag = DmatagId.code .next then
    some (settle (latch s i (s.tadr + 16) tag.addr false))
  else none

/-- One quadword of the loaded tag is transferred. -/
def dmacMove (s : SifDma) : SifDma :=
  settle { s with madr := s.madr + 16, qwc := s.qwc - 1 }

/-- What can happen to the ring: a call, or a step of the hardware. -/
inductive DmaAction
  | setDma (ts : List Transfer)
  | load
  | move
  | stop

/-- One step. The channel must stop after a REFE tag; it may stop after any other tag too,
as an IRQ bit or a tag field cleared by the last call makes it do. -/
def dmaStep (env : DmaEnv) (s : SifDma) : DmaAction → Option SifDma
  | .setDma ts => if ts = [] then none else some (sifSetDma env ts s).2
  | .load => if s.str ∧ s.qwc = 0 ∧ !s.ended then dmacLoad env s else none
  | .move => if s.str ∧ s.qwc ≠ 0 then some (dmacMove s) else none
  | .stop => if s.str ∧ s.qwc = 0 then some (stopChannel s) else none

/-- What a step does, action by action. -/
inductive DmaStepped (env : DmaEnv) (s : SifDma) : DmaAction → SifDma → Prop
  | setDma {ts : List Transfer} (hne : ts ≠ []) :
    DmaStepped env s (.setDma ts) (sifSetDma env ts s).2
  | load (hstr : s.str = true) (hqwc : s.qwc = 0) (he : s.ended = false)
    (hload : dmacLoad env s = some t) : DmaStepped env s .load t
  | move (hstr : s.str = true) (hqwc : s.qwc ≠ 0) : DmaStepped env s .move (dmacMove s)
  | stop (hstr : s.str = true) (hqwc : s.qwc = 0) : DmaStepped env s .stop (stopChannel s)

theorem dmaStep_stepped {env : DmaEnv} {s t : SifDma} {a : DmaAction}
    (hs : dmaStep env s a = some t) : DmaStepped env s a t := by
  cases a with
  | setDma ts =>
    simp only [dmaStep] at hs
    split_ifs at hs with hne
    cases hs
    exact .setDma hne
  | load =>
    simp only [dmaStep] at hs
    split_ifs at hs with hg
    exact .load hg.1 hg.2.1 (by simpa using hg.2.2) hs
  | move =>
    simp only [dmaStep] at hs
    split_ifs at hs with hg
    cases hs
    exact .move hg.1 hg.2
  | stop =>
    simp only [dmaStep] at hs
    split_ifs at hs with hg
    cases hs
    exact .stop hg.1 hg.2

end KernelLoader.Sif
