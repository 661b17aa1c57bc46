import KernelLoader.Sif.DmaRing

namespace KernelLoader.Sif.Command
open Lib
set_option autoImplicit true
set_option relaxedAutoImplicit false

/-- Maximum packet data size when calling `sif_cmd_send`. -/
def cmdPacketDataMax : Nat := 112

def eLibInvalidArg : Nat := 0xd606

/-- `tge_sifcmd_header_t`: the packet size is in the low 8 bits of `size`, the size of the
additional data in the other 24. -/
structure CmdHeader where
  size : Nat
  dest : Nat
  fid : Nat
  option : Nat
  deriving DecidableEq, Repr

/-- The arguments of `sif_cmd_send`. -/
structure SendArgs where
  fid : Nat
  flags : Nat
  packet : Nat
  packetSize : Nat
  src : Nat
  dest : Nat
  size : Nat
  deriving DecidableEq, Repr

/-- What a call returns and leaves behind: the header in front of the packet, the ranges that
were written back to memory and the ring. -/
structure Sending where
  ret : Nat
  header : CmdHeader
  writtenBack : List (Nat × Nat)
  ring : SifDma

def fillHeader (a : SendArgs) (h : CmdHeader) : CmdHeader :=
  if 0 < a.size then
    { h with fid := a.fid, dest := a.dest, size := a.packetSize ||| u32 (a.size <<< 8) }
  else { fid := a.fid, dest := 0, size := a.packetSize, option := 0 }

/-- The additional data, when there is some, goes in front of the packet. -/
def sendTransfers (iopbuf : Nat) (a : SendArgs) : List Transfer :=
  (if 0 < a.size then [⟨a.src, a.dest, a.size, 0⟩] else []) ++
    [⟨a.packet, iopbuf, a.packetSize, attrErt ||| attrIntO⟩]

def sendWriteBacks (a : SendArgs) : List (Nat × Nat) :=
  (if 0 < a.size ∧ a.flags &&& 4 ≠ 0 then [(a.src, a.size)] else []) ++
    [(a.packet, a.packetSize)]

def sifCmdSend (env : DmaEnv) (iopbuf : Nat) (a : SendArgs) (h : CmdHeader) (s : SifDma) :
    Sending :=
  if cmdPacketDataMax < a.packetSize then ⟨sub32 0 eLibInvalidArg, h, [], s⟩
  else
    let sent := sifSetDma env (sendTransfers iopbuf a) s
    ⟨sent.1, fillHeader a h, sendWriteBacks a, sent.2⟩

def sifSendCmd (env : DmaEnv) (iopbuf fid packet packetSize src dest size : Nat) (h : CmdHeader)
    (s : SifDma) : Sending :=
  sifCmdSend env iopbuf ⟨fid, 0, packet, packetSize, src, dest, size⟩ h s

/-- The IOP gets something of a call once the index of the ring has moved. -/
def Sending.Queued (r : Sending) (s : SifDma) : Prop := r.ring.index ≠ s.index

theorem fillHeader_size (a : SendArgs) (h : CmdHeader) (hp : a.packetSize < 2 ^ 8) :
    (fillHeader a h).size = a.size % 2 ^ 24 * 2 ^ 8 + a.packetSize := by
  unfold fillHeader
  split_ifs with hs
  · change a.packetSize ||| u32 (a.size <<< 8) = _
    rw [u32_shiftLeft _ _ (by decide), or_shiftLeft_of_lt hp]
  · have hz : a.size = 0 := Nat.eq_zero_of_not_pos hs
    simp [hz]

theorem fillHeader_decodes (a : SendArgs) (h : CmdHeader) (hp : a.packetSize < 2 ^ 8) :
    (fillHeader a h).size &&& 0xff = a.packetSize ∧
      ((fillHeader a h).size >>> 8 = a.size ↔ a.size < 2 ^ 24) := by
  rw [show (fillHeader a h).size &&& 0xff = (fillHeader a h).size % 2 ^ 8 from and_mask _ 8,
    fillHeader_size a h hp, Nat.shiftRight_eq_div_pow]
  omega

/-- The next index as `SET_NEXT_DMATAG` computes it, from whatever value the index has. -/
def nextIndex (i : Nat) : Nat := if (i + 1) % 2 ^ 8 = 31 then 0 else (i + 1) % 2 ^ 8

theorem sifDmaTransfer_index (env : DmaEnv) (t : Transfer) (id : DmatagId) (s : SifDma) :
    (sifDmaTransfer env t id s).index = nextIndex s.index ∨
      (sifDmaTransfer env t id s).index = nextIndex (nextIndex s.index) := by
  cases sifDmaTransfer_cases env t id s with
  | inl hone =>
    obtain ⟨_, tag, data, _, heq⟩ := hone
    rw [heq]
    exact Or.inl rfl
  | inr htwo =>
    obtain ⟨_, tag, tag', data, _, _, heq⟩ := htwo
    rw [heq]
    exact Or.inr rfl

theorem nextIndex_ne (i : Nat) : nextIndex i ≠ i ∧ nextIndex (nextIndex i) ≠ i ∧
    nextIndex (nextIndex (nextIndex i)) ≠ i ∧
    nextIndex (nextIndex (nextIndex (nextIndex i))) ≠ i := by
  unfold nextIndex
  refine ⟨?_, ?_, ?_, ?_⟩ <;> split_ifs <;> omega

theorem transfer_index_ne (env : DmaEnv) (t : Transfer) (id : DmatagId) (s : SifDma) :
    (sifDmaTransfer env t id s).index ≠ s.index := by
  obtain ⟨h1, h2, -⟩ := nextIndex_ne s.index
  rcases sifDmaTransfer_index env t id s with ht | ht
  · rw [ht]
    exact h1
  · rw [ht]
    exact h2

theorem transfer_transfer_index_ne (env : DmaEnv) (t u : Transfer) (id id' : DmatagId)
    (s : SifDma) : (sifDmaTransfer env u id' (sifDmaTransfer env t id s)).index ≠ s.index := by
  obtain ⟨-, h2, h3, h4⟩ := nextIndex_ne s.index
  rcases sifDmaTransfer_index env u id' (sifDmaTransfer env t id s) with hu | hu <;>
    rcases sifDmaTransfer_index env t id s with ht | ht <;> rw [hu, ht]
  · exact h2
  · exact h3
  · exact h3
  · exact h4

theorem transferAll_send_index (env : DmaEnv) (iopbuf : Nat) (a : SendArgs) (s : SifDma) :
    (transferAll env (sendTransfers iopbuf a) s).index ≠ s.index := by
  unfold sendTransfers
  split_ifs
  · exact transfer_transfer_index_ne env _ _ .ref .refe s
  · exact transfer_index_ne env _ .refe s

theorem countTags_send (iopbuf : Nat) (a : SendArgs) :
    1 ≤ countTags (sendTransfers iopbuf a) ∧ countTags (sendTransfers iopbuf a) ≤ 4 := by
  have hentry (t : Transfer) : 1 ≤ entryTags t ∧ entryTags t ≤ 2 := by
    unfold entryTags
    split_ifs <;> omega
  have hd := hentry ⟨a.src, a.dest, a.size, 0⟩
  have hp := hentry ⟨a.packet, iopbuf, a.packetSize, attrErt ||| attrIntO⟩
  unfold sendTransfers countTags
  split_ifs
  · simp only [List.cons_append, List.nil_append, List.map_cons, List.map_nil, List.sum_cons,
      List.sum_nil]
    omega
  · simp only [List.nil_append, List.map_cons, List.map_nil, List.sum_cons, List.sum_nil]
    omega

theorem transferId_ne_zero (s : SifDma) (hn : 1 ≤ n) (hlt : n < 2 ^ 8) : transferId s n ≠ 0 := by
  intro h
  have hlow : n &&& 0xff = 0 := (Nat.or_eq_zero_iff.mp h).2
  rw [show n &&& 0xff = n % 2 ^ 8 from and_mask n 8, Nat.mod_eq_of_lt hlt] at hlow
  omega

/-- The ring has room for everything the call is going to queue. -/
def Fits (env : DmaEnv) (iopbuf : Nat) (a : SendArgs) (s : SifDma) : Prop :=
  countTags (sendTransfers iopbuf a) ≤ sifGetNumberOfFreeDmaTags env s

theorem sifSetDma_send (env : DmaEnv) (iopbuf : Nat) (a : SendArgs) (s : SifDma) :
    ((sifSetDma env (sendTransfers iopbuf a) s).1 ≠ 0 ↔ Fits env iopbuf a s) ∧
      ((sifSetDma env (sendTransfers iopbuf a) s).2.index ≠ s.index ↔ Fits env iopbuf a s) := by
  obtain ⟨hpos, hle⟩ := countTags_send iopbuf a
  by_cases hf : countTags (sendTransfers iopbuf a) ≤ sifGetNumberOfFreeDmaTags env s
  · have hid : (sifSetDma env (sendTransfers iopbuf a) s).1 ≠ 0 := by
      rw [show (sifSetDma env (sendTransfers iopbuf a) s).1 = transferId (stopChannel s)
        (countTags (sendTransfers iopbuf a)) from congrArg Prod.fst (if_pos hf)]
      exact transferId_ne_zero _ hpos (by omega)
    have hmoved : (sifSetDma env (sendTransfers iopbuf a) s).2.index ≠ s.index := by
      rw [sifSetDma_accepted hf]
      change (transferAll env (sendTransfers iopbuf a) _).index ≠ s.index
      obtain ⟨hsetup, -⟩ := sifDmaSetupTag_index env (sifGetNumberOfFreeDmaTags env (stopChannel s))
        (stopChannel s)
      exact fun h => transferAll_send_index env iopbuf a _ (h.trans hsetup.symm)
    exact ⟨iff_of_true hid hf, iff_of_true hmoved hf⟩
  · have hid : (sifSetDma env (sendTransfers iopbuf a) s).1 = 0 := congrArg Prod.fst (if_neg hf)
    have hstill : (sifSetDma env (sendTransfers iopbuf a) s).2.index = s.index := by
      rw [sifSetDma_refused hf]
      rfl
    exact ⟨iff_of_false (fun h => h hid) hf, iff_of_false (fun h => h hstill) hf⟩

theorem sifCmdSend_result (env : DmaEnv) (iopbuf : Nat) (a : SendArgs) (h : CmdHeader) (s : SifDma)
    (hp : a.packetSize ≤ cmdPacketDataMax) :
    ((sifCmdSend env iopbuf a h s).ret ≠ 0 ↔ Fits env iopbuf a s) ∧
      ((sifCmdSend env iopbuf a h s).Queued s ↔ Fits env iopbuf a s) ∧
      (sifCmdSend env iopbuf a h s).header = fillHeader a h := by
  unfold sifCmdSend Sending.Queued
  rw [if_neg (Nat.not_lt.mpr hp)]
  exact ⟨(sifSetDma_send env iopbuf a s).1, (sifSetDma_send env iopbuf a s).2, rfl⟩

/-- The result is 0 exactly when nothing was queued, and the header of what was queued gives both
sizes back, if and only if the packet is not too large and the additional data, when the ring has
room for it, is smaller than 16 MByte. -/
theorem sifCmdSend_contract (env : DmaEnv) (iopbuf : Nat) (a : SendArgs) (h : CmdHeader)
    (s : SifDma) :
    (((sifCmdSend env iopbuf a h s).ret = 0 ↔ ¬(sifCmdSend env iopbuf a h s).Queued s) ∧
      ((sifCmdSend env iopbuf a h s).Queued s →
        (sifCmdSend env iopbuf a h s).header.size &&& 0xff = a.packetSize ∧
          (sifCmdSend env iopbuf a h s).header.size >>> 8 = a.size)) ↔
      a.packetSize ≤ cmdPacketDataMax ∧ (Fits env iopbuf a s → a.size < 2 ^ 24) := by
  by_cases hp : a.packetSize ≤ cmdPacketDataMax
  · obtain ⟨hret, hq, hheader⟩ := sifCmdSend_result env iopbuf a h s hp
    have hbyte : a.packetSize < 2 ^ 8 := Nat.lt_of_le_of_lt hp (by decide)
    obtain ⟨hlow, hhigh⟩ := fillHeader_decodes a h hbyte
    have hresult : (sifCmdSend env iopbuf a h s).ret = 0 ↔ ¬Fits env iopbuf a s := by
      rw [← hret, not_not]
    rw [hheader, hq, hhigh]
    exact ⟨fun hc => ⟨hp, fun hf => (hc.2 hf).2⟩, fun hc => ⟨hresult, fun hf => ⟨hlow, hc.2 hf⟩⟩⟩
  · -- The error code of the argument check is not 0, although nothing was queued.
    have hsend : sifCmdSend env iopbuf a h s = ⟨sub32 0 eLibInvalidArg, h, [], s⟩ :=
      if_pos (Nat.lt_of_not_le hp)
    rw [hsend]
    refine iff_of_false (fun hc => ?_) (fun hc => hp hc.1)
    have herr : sub32 0 eLibInvalidArg ≠ 0 := by decide
    exact herr (hc.1.mpr fun hmoved => hmoved rfl)

/-- A packet of 113 bytes: the result is not 0, and nothing was queued. With 16 MByte of
additional data the packet is queued, and the header says that there is none. -/
theorem sifCmdSend_breaks :
    let s := sifDmaInit lowEnv .zero
    let r := sifCmdSend lowEnv 0x1e000 ⟨0x80000009, 0, 0x8000, 113, 0, 0, 0⟩ ⟨0, 0, 0, 0⟩ s
    let t := sifCmdSend lowEnv 0x1e000 ⟨0x80000009, 0, 0x8000, 64, 0x100000, 0x2000, 2 ^ 24⟩
      ⟨0, 0, 0, 0⟩ s
    (r.ret = 0xffff29fa ∧ r.ring.index = s.index) ∧
      t.ret ≠ 0 ∧ t.ring.index = 2 ∧ s.index = 30 ∧ t.header.size >>> 8 = 0 := by
  decide +kernel

end KernelLoader.Sif.Command
