import KernelLoader.Sif.Command
import KernelLoader.Sif.RpcServer

namespace KernelLoader.Sif
open Lib
set_option autoImplicit true
set_option relaxedAutoImplicit false

def rpcPacketSize : Nat := 64

/-- `sizeof(rdata_table) / RPC_PACKET_SIZE`. -/
def rdataTableLen : Nat := 2048 / rpcPacketSize

/-- `sizeof(client_table) / RPC_PACKET_SIZE`. -/
def clientTableLen : Nat := 2048 / rpcPacketSize

/-- Where a packet for an answer is: the table and the offset from its start. -/
inductive FPacket
  | rdata (offset : Int)
  | client (offset : Int)
  deriving DecidableEq, Repr

def FPacket.offset : FPacket → Int
  | .rdata offset => offset
  | .client offset => offset

/-- Both tables have 2048 bytes. -/
def FPacket.InTable (p : FPacket) : Prop := 0 ≤ p.offset ∧ p.offset + rpcPacketSize ≤ 2048

instance (p : FPacket) : Decidable p.InTable := inferInstanceAs (Decidable (_ ∧ _))

/-- A `SifRpcRendPkt_t`, with its command header in front. -/
structure RendPkt extends Command.CmdHeader where
  recId : Nat
  rpcId : Nat
  client : Nat
  cid : Nat
  deriving DecidableEq, Repr

/-- What a transfer reads: a packet, or what the function of the server returned. -/
inductive Payload
  | packet (p : FPacket) (contents : RendPkt)
  | result (rec : Nat)
  deriving DecidableEq, Repr

/-- A transfer to the IOP that `SifSetDma` has accepted. -/
structure Sent where
  src : Payload
  dest : Nat
  size : Nat
  attr : Nat
  deriving DecidableEq, Repr

/-- The packets and their addresses, the transfers so far, and what `SifSetDma` is going to
answer. -/
structure Replies where
  place : FPacket → Nat
  rdataTableIdx : Nat
  packets : FPacket → RendPkt
  iopbuf : Nat
  answers : List Bool
  sent : List Sent

def Replies.setPacket (s : Replies) (p : FPacket) (f : RendPkt → RendPkt) : Replies :=
  { s with packets := Function.update s.packets p (f (s.packets p)) }

def rpcGetFpacket (s : Replies) : FPacket × Replies :=
  let index := s.rdataTableIdx % rdataTableLen
  (.rdata (index * rpcPacketSize), { s with rdataTableIdx := index + 1 })

def rpcGetFpacket2 (rid : Int) (s : Replies) : FPacket × Replies :=
  if rid < 0 ∨ rid < clientTableLen then rpcGetFpacket s
  else (.client (rid * rpcPacketSize), s)

/-- The packet for the answer. -/
def replyPacket (sd : ServerData) (s : Replies) : FPacket × Replies :=
  if sd.rid &&& 4 ≠ 0 then rpcGetFpacket2 (sd.rid >>> 16 &&& 0xffff : Nat) s else rpcGetFpacket s

/-- One call of `SifSetDma`; nothing if it is not known what it answers. -/
def Replies.setDma (ts : List Sent) (s : Replies) : Option (Bool × Replies) :=
  match s.answers with
  | [] => none
  | true :: answers => some (true, { s with answers := answers, sent := s.sent ++ ts })
  | false :: answers => some (false, { s with answers := answers })

/-- The loop that waits until the transfer is accepted. -/
def Replies.untilDma (ts : List Sent) (s : Replies) : List Bool → Option Replies
  | [] => none
  | true :: answers => some { s with answers := answers, sent := s.sent ++ ts }
  | false :: answers => s.untilDma ts answers

/-- The arguments that `SifSendCmd` gives to `sif_cmd_send` for a packet of `RPC_PACKET_SIZE`. -/
def Replies.sendArgs (s : Replies) (fid : Nat) (rend : FPacket) (rec dest size : Nat) :
    Command.SendArgs :=
  ⟨fid, 0, s.place rend, rpcPacketSize, rec, dest, size⟩

def RendPkt.fill (a : Command.SendArgs) (p : RendPkt) : RendPkt :=
  { p with toCmdHeader := Command.fillHeader a p.toCmdHeader }

/-- The transfers of `sif_cmd_send`, each with what it reads. -/
def cmdSent (iopbuf : Nat) (a : Command.SendArgs) (packet : Payload) : List Sent :=
  (Command.sendTransfers iopbuf a).zipWith (fun t src => ⟨src, t.dest, t.size, t.attr⟩)
    ((if 0 < a.size then [.result a.src] else []) ++ [packet])

/-- `sif_cmd_send` for a packet that is not too large. -/
def Replies.cmdSend (rend : FPacket) (a : Command.SendArgs) (s : Replies) :
    Option (Bool × Replies) :=
  let s := s.setPacket rend (RendPkt.fill a)
  s.setDma (cmdSent s.iopbuf a (.packet rend (s.packets rend)))

def sifSendCmd (fid : Nat) (rend : FPacket) (rec dest size : Nat) (s : Replies) :
    Option (Bool × Replies) :=
  s.cmdSend rend (s.sendArgs fid rend rec dest size)

/-- The packet is filled for the client. -/
def fillReply (sd : ServerData) (s : Replies) : Replies :=
  (replyPacket sd s).2.setPacket (replyPacket sd s).1 fun p =>
    { p with client := sd.client, cid := 0x8000000a, rpcId := 0 }

/-- The last transfer of `SifExecRequest`. -/
def lastTransfer (rec : Nat) (sd : ServerData) (rend : FPacket) (p : RendPkt) : Sent :=
  if sd.rsize ≠ 0 then ⟨.result rec, sd.receive, sd.rsize, 0⟩
  else ⟨.packet rend p, sd.pktAddr, 64, 0⟩

/-- The end of `SifExecRequest`, with or without a command before it. -/
def finishReply (rec : Nat) (sd : ServerData) (rend : FPacket) (s : Replies) : Option Replies :=
  let s := s.setPacket rend fun p => { p with recId := 0 }
  s.untilDma [lastTransfer rec sd rend (s.packets rend)] s.answers

/-- `SifExecRequest` after the function of the server has returned `rec`. -/
def sifExecRequest (rec : Nat) (sd : ServerData) (s : Replies) : Option Replies :=
  let rend := (replyPacket sd s).1
  let s := fillReply sd s
  if sd.rmode ≠ 0 then
    match sifSendCmd 0x80000008 rend rec sd.receive sd.rsize s with
    | none => none
    | some (false, s) => some s
    | some (true, s) => finishReply rec sd rend s
  else finishReply rec sd rend s

/-- The command that ends the call of a client: it comes with an interrupt. -/
def Sent.isEnd (sd : ServerData) (t : Sent) : Bool :=
  match t.src with
  | .packet _ p =>
    t.attr &&& attrIntO ≠ 0 ∧ p.fid = 0x80000008 ∧ p.cid = 0x8000000a ∧ p.client = sd.client
  | .result _ => false

/-- The packet of the client is overwritten with one that has the record id 0. -/
def Sent.isOverwrite (sd : ServerData) (t : Sent) : Bool :=
  match t.src with
  | .packet _ p => t.attr &&& attrIntO = 0 ∧ t.dest = sd.pktAddr ∧ t.size = 64 ∧ p.recId = 0
  | .result _ => false

/-- The result goes to the buffer of the client. -/
def Sent.isResult (rec : Nat) (sd : ServerData) (t : Sent) : Bool :=
  t.src = .result rec ∧ t.dest = sd.receive ∧ t.size = sd.rsize

/-- What is sent for a request: one completion, of the kind that was asked for, and the result if
there is one. -/
structure Complete (rec : Nat) (sd : ServerData) (ts : List Sent) : Prop where
  ends : ts.countP (·.isEnd sd) = if sd.rmode ≠ 0 then 1 else 0
  overwrites : ts.countP (·.isOverwrite sd) = if sd.rmode ≠ 0 then 0 else 1
  results : ts.countP (·.isResult rec sd) = if sd.rsize ≠ 0 then 1 else 0

/-- The request is answered completely, with a packet of one of the tables. -/
def Answers (rec : Nat) (sd : ServerData) (s : Replies) : Prop :=
  (replyPacket sd s).1.InTable ∧
    ∃ s' ts, sifExecRequest rec sd s = some s' ∧ s'.sent = s.sent ++ ts ∧ Complete rec sd ts

section Reply
variable {s s' : Replies} {sd : ServerData} {rec : Nat} {ts : List Sent}

theorem fillReply_frame (sd : ServerData) (s : Replies) :
    (fillReply sd s).sent = s.sent ∧ (fillReply sd s).answers = s.answers := by
  rw [fillReply, replyPacket, rpcGetFpacket2]
  split_ifs <;> exact ⟨rfl, rfl⟩

theorem rpcGetFpacket_inTable (s : Replies) : (rpcGetFpacket s).1.InTable := by
  have h : s.rdataTableIdx % rdataTableLen < rdataTableLen := Nat.mod_lt _ (by decide)
  simp only [rpcGetFpacket, FPacket.InTable, FPacket.offset, rdataTableLen, rpcPacketSize] at h ⊢
  omega

/-- The client table is only used for numbers it has no packet for. -/
theorem replyPacket_inTable_iff :
    (replyPacket sd s).1.InTable ↔ (sd.rid &&& 4 ≠ 0 → sd.rid >>> 16 &&& 0xffff < 32) := by
  rw [replyPacket]
  split_ifs with hrid
  · generalize sd.rid >>> 16 &&& 0xffff = rid
    rw [rpcGetFpacket2]
    split_ifs with hlen
    · simp only [clientTableLen, rpcPacketSize] at hlen
      exact ⟨fun _ _ => by omega, fun _ => rpcGetFpacket_inTable s⟩
    · simp only [clientTableLen, rpcPacketSize, FPacket.InTable, FPacket.offset] at hlen ⊢
      exact ⟨fun h _ => by omega, fun h => absurd (h hrid) (by omega)⟩
  · exact ⟨fun _ h => absurd h hrid, fun _ => rpcGetFpacket_inTable s⟩

theorem untilDma_sent {answers : List Bool} (h : s.untilDma ts answers = some s') :
    s'.sent = s.sent ++ ts ∧ true ∈ answers := by
  induction answers with
  | nil => cases h
  | cons a answers ih =>
    cases a with
    | true =>
      cases h
      exact ⟨rfl, List.mem_cons_self⟩
    | false => exact ⟨(ih h).1, List.mem_cons_of_mem _ (ih h).2⟩

theorem untilDma_of_mem {answers : List Bool} (h : true ∈ answers) :
    ∃ s', s.untilDma ts answers = some s' := by
  induction answers with
  | nil => cases h
  | cons a answers ih =>
    cases a with
    | true => exact ⟨_, rfl⟩
    | false => exact ih (by simpa using h)

theorem finishReply_of_mem {rend : FPacket} (h : true ∈ s.answers) :
    ∃ s', finishReply rec sd rend s = some s' :=
  untilDma_of_mem h

theorem finishReply_sent {rend : FPacket} (h : finishReply rec sd rend s = some s') :
    (∃ p, p.recId = 0 ∧ s'.sent = s.sent ++ [lastTransfer rec sd rend p]) ∧ true ∈ s.answers := by
  obtain ⟨hsent, hmem⟩ := untilDma_sent h
  exact ⟨⟨_, by simp [Replies.setPacket], hsent⟩, hmem⟩

theorem cmdSent_eq (iopbuf : Nat) (a : Command.SendArgs) (packet : Payload) :
    cmdSent iopbuf a packet = (if 0 < a.size then [⟨.result a.src, a.dest, a.size, 0⟩] else []) ++
      [⟨packet, iopbuf, a.packetSize, attrErt ||| attrIntO⟩] := by
  rw [cmdSent, Command.sendTransfers]
  split_ifs <;> rfl

theorem setDma_refused (h : s.setDma ts = some (false, s')) : s'.sent = s.sent := by
  rw [Replies.setDma] at h
  split at h <;> cases h
  rfl

theorem setDma_accepted (h : s.setDma ts = some (true, s')) : s'.sent = s.sent ++ ts := by
  rw [Replies.setDma] at h
  split at h <;> cases h
  rfl

/-- The call of `sif_cmd_send` that is modelled with the ring: if `SifSetDma` answers as the ring
does, the result and the header of the packet are the same. -/
theorem sifSendCmd_result {env : DmaEnv} {ring : SifDma} {fid dest size : Nat} {rend : FPacket}
    {accepted : Bool} {answers : List Bool} (hnext : s.answers = accepted :: answers)
    (hring : accepted = true ↔
      Command.Fits env s.iopbuf (s.sendArgs fid rend rec dest size) ring) :
    ∃ s', sifSendCmd fid rend rec dest size s = some (accepted, s') ∧
      (accepted = true ↔ (Command.sifSendCmd env s.iopbuf fid (s.place rend) rpcPacketSize rec dest
        size (s.packets rend).toCmdHeader ring).ret ≠ 0) ∧
      (s'.packets rend).toCmdHeader = (Command.sifSendCmd env s.iopbuf fid (s.place rend)
        rpcPacketSize rec dest size (s.packets rend).toCmdHeader ring).header := by
  obtain ⟨hret, -, hheader⟩ := Command.sifCmdSend_result env s.iopbuf
    (s.sendArgs fid rend rec dest size) (s.packets rend).toCmdHeader ring
    (show rpcPacketSize ≤ Command.cmdPacketDataMax by decide)
  have hfilled : ((s.setPacket rend (RendPkt.fill (s.sendArgs fid rend rec dest size))).packets
      rend).toCmdHeader = Command.fillHeader (s.sendArgs fid rend rec dest size)
        (s.packets rend).toCmdHeader := by
    simp [Replies.setPacket, RendPkt.fill]
  have hanswers : (s.setPacket rend (RendPkt.fill (s.sendArgs fid rend rec dest size))).answers =
      accepted :: answers := hnext
  rw [sifSendCmd, Replies.cmdSend, Replies.setDma, hanswers]
  cases accepted with
  | true => exact ⟨_, rfl, hring.trans hret.symm, hfilled.trans hheader.symm⟩
  | false => exact ⟨_, rfl, hring.trans hret.symm, hfilled.trans hheader.symm⟩

/-- With an answer by command the last transfer comes after the command and the result it takes
with it, or nothing is sent at all. -/
theorem sifExecRequest_loud (h : sd.rmode ≠ 0) (hexec : sifExecRequest rec sd s = some s') :
    s'.sent = s.sent ∨ ∃ command p, p.recId = 0 ∧
      s'.sent = s.sent ++
        ((if 0 < sd.rsize then [⟨.result rec, sd.receive, sd.rsize, 0⟩] else []) ++ [command]) ++
        [lastTransfer rec sd (replyPacket sd s).1 p] := by
  rw [sifExecRequest, if_pos h] at hexec
  split at hexec
  · cases hexec
  · next hsend =>
    cases hexec
    left
    rw [setDma_refused hsend]
    exact (fillReply_frame sd s).1
  · next hsend =>
    right
    obtain ⟨⟨p, hp, hsent⟩, -⟩ := finishReply_sent hexec
    rw [setDma_accepted hsend, cmdSent_eq] at hsent
    rw [← (fillReply_frame sd s).1]
    exact ⟨_, p, hp, hsent⟩

/-- Either the result is sent twice or there are two completions, if there is one at all. -/
theorem not_complete_of_loud (h : sd.rmode ≠ 0) (hexec : sifExecRequest rec sd s = some s')
    (hts : s'.sent = s.sent ++ ts) : ¬ Complete rec sd ts := by
  intro hc
  obtain hnone | ⟨command, p, hp, hsent⟩ := sifExecRequest_loud h hexec
  · have hnil : ts = [] := by simpa [hnone] using hts.symm
    have hends := hc.ends
    rw [hnil, if_pos h] at hends
    cases hends
  · rw [hts, List.append_assoc, List.append_cancel_left_eq] at hsent
    by_cases hsize : sd.rsize = 0
    · have hover := hc.overwrites
      rw [hsent, if_pos h] at hover
      simp [lastTransfer, hsize, Sent.isOverwrite, hp] at hover
    · have hresults := hc.results
      rw [hsent, if_pos hsize] at hresults
      simp [lastTransfer, hsize, Sent.isResult, Nat.pos_of_ne_zero hsize,
        List.countP_cons] at hresults

theorem complete_quiet_iff {rend : FPacket} {p : RendPkt} (h : sd.rmode = 0) (hp : p.recId = 0) :
    Complete rec sd [lastTransfer rec sd rend p] ↔ sd.rsize = 0 := by
  constructor
  · intro hc
    by_contra hsize
    have hover := hc.overwrites
    simp [lastTransfer, hsize, Sent.isOverwrite, h] at hover
  · intro hsize
    constructor <;>
      simp [lastTransfer, hsize, h, hp, Sent.isEnd, Sent.isOverwrite, Sent.isResult]

/-- A request is answered completely if and only if neither an answer by command nor a result is
asked for, its packet is none of the client table, and the transfer is accepted at last. -/
theorem sifExecRequest_answers :
    Answers rec sd s ↔ sd.rmode = 0 ∧ sd.rsize = 0 ∧
      (sd.rid &&& 4 ≠ 0 → sd.rid >>> 16 &&& 0xffff < 32) ∧ true ∈ s.answers := by
  obtain ⟨hsent, hanswers⟩ := fillReply_frame sd s
  rw [Answers, replyPacket_inTable_iff]
  constructor
  · rintro ⟨hin, s', ts, hexec, hts, hc⟩
    by_cases hmode : sd.rmode = 0
    · rw [sifExecRequest, if_neg (not_not.2 hmode)] at hexec
      obtain ⟨⟨p, hp, hlast⟩, hmem⟩ := finishReply_sent hexec
      rw [hts, hsent, List.append_cancel_left_eq] at hlast
      rw [hlast, complete_quiet_iff hmode hp] at hc
      exact ⟨hmode, hc, hin, hanswers ▸ hmem⟩
    · exact absurd hc (not_complete_of_loud hmode hexec hts)
  · rintro ⟨hmode, hsize, hin, hmem⟩
    obtain ⟨s', hexec⟩ : ∃ s', finishReply rec sd (replyPacket sd s).1 (fillReply sd s) = some s' :=
      finishReply_of_mem (hanswers.symm ▸ hmem)
    obtain ⟨⟨p, hp, hlast⟩, -⟩ := finishReply_sent hexec
    refine ⟨hin, s', _, ?_, hsent ▸ hlast, (complete_quiet_iff hmode hp).2 hsize⟩
    rw [sifExecRequest, if_neg (not_not.2 hmode)]
    exact hexec

end Reply

/-- A call that asks for an answer by command: after the command the packet of the client is
overwritten as well, and if the command cannot be sent, nothing comes back. -/
theorem sifExecRequest_not_once :
    (sifExecRequest 0 ⟨1, 0, 0, 0, 0, 0, 4, 3, 0, 5, 0, 1, 0, none, none, some 10⟩
        ⟨fun _ => 0, 0, fun _ => ⟨⟨0, 0, 0, 0⟩, 0, 0, 0, 0⟩, 0x1000, [true, true], []⟩).map
      (fun s => s.sent.map fun t => (t.dest, t.attr)) = some [(0x1000, 0x44), (3, 0)] ∧
    (sifExecRequest 0 ⟨1, 0, 0, 0, 0, 0, 4, 3, 0, 5, 0, 1, 0, none, none, some 10⟩
        ⟨fun _ => 0, 0, fun _ => ⟨⟨0, 0, 0, 0⟩, 0, 0, 0, 0⟩, 0x1000, [false, true], []⟩).map
      (fun s => s.sent) = some [] ∧
    ¬ Answers 0 ⟨1, 0, 0, 0, 0, 0, 4, 3, 0, 5, 0, 1, 0, none, none, some 10⟩
        ⟨fun _ => 0, 0, fun _ => ⟨⟨0, 0, 0, 0⟩, 0, 0, 0, 0⟩, 0x1000, [false, true], []⟩ := by
  refine ⟨rfl, rfl, ?_⟩
  rintro ⟨-, s', ts, hexec, hts, hc⟩
  cases hexec
  obtain rfl : ts = [] := hts.symm
  cases hc.ends

end KernelLoader.Sif
