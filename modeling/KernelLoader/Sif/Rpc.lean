import KernelLoader.Lib.Word
import Mathlib.Logic.Function.Basic

namespace KernelLoader.Sif
open Lib
set_option autoImplicit true
set_option relaxedAutoImplicit false

def packetFAlloc : Nat := 0x01
def sifRpcMNowait : Nat := 0x01

/-- `sizeof(pkt_table) / RPC_PACKET_SIZE`. -/
def pktTableLen : Nat := 2048 / 64

/-- The ways a request can be turned down. -/
inductive RpcError
  | unaligned | noPacket | bindInUse | callInUse | notSent
  deriving DecidableEq, Repr

def RpcError.ret : RpcError → Int
  | .unaligned => -0xd606
  | .noPacket => -0xd610
  | .bindInUse => -0xd610
  | .callInUse => -0xd610
  | .notSent => -0xd611

/-- What distinguishes `SifBindRpc` from `SifCallRpc`. -/
inductive RpcOp
  | bind (sid : Nat)
  | call (rpcNumber sendbuf ssize recvbuf rsize : Nat)
  deriving DecidableEq, Repr

/-- The command number the request is sent with. -/
def RpcOp.cid : RpcOp → Nat
  | .bind .. => 0x80000009
  | .call .. => 0x8000000a

def RpcOp.inUse : RpcOp → RpcError
  | .bind .. => .bindInUse
  | .call .. => .callInUse

/-- The receive buffer of a call must be aligned. -/
def RpcOp.aligned : RpcOp → Bool
  | .bind .. => true
  | .call _ _ _ recvbuf _ => recvbuf &&& 0x0f == 0

/-- The arguments of one call of `SifBindRpc` or `SifCallRpc`. -/
structure RpcArgs where
  cd : Nat
  op : RpcOp
  mode : Nat
  endfunc : Option Nat
  efarg : Nat
  deriving DecidableEq, Repr

/-- A bind is always answered; a call is not if nobody waits and there is no end function. -/
def RpcArgs.rmode (a : RpcArgs) : Nat :=
  match a.op with
  | .bind .. => 1
  | .call .. => if a.mode &&& sifRpcMNowait ≠ 0 ∧ a.endfunc = none then 0 else 1

/-- A packet of `pkt_table`; packets are named by their index. -/
structure RpcPacket where
  recId : Nat
  pktAddr : Option Nat
  rpcId : Nat
  client : Option Nat
  op : Option RpcOp
  rmode : Nat
  server : Option Nat

def RpcPacket.zero : RpcPacket := ⟨0, none, 0, none, none, 0, none⟩

/-- A `SifRpcClientData_t`. -/
structure RpcClient where
  pktAddr : Option Nat
  rpcId : Nat
  semaId : Nat
  command : Nat
  buff : Option Nat
  cbuff : Option Nat
  endFunction : Option Nat
  endParam : Nat
  server : Option Nat

def RpcClient.zero : RpcClient := ⟨none, 0, 0, 0, none, none, none, 0, none⟩

/-- A request on its way to the IOP, until it is answered. -/
structure RpcMessage where
  cid : Nat
  packet : Nat
  client : Nat
  rmode : Nat
  deriving DecidableEq, Repr

/-- What the IOP puts into the answer. -/
structure RpcRend where
  server : Option Nat
  buff : Option Nat
  cbuff : Option Nat

/-- Where a context of the EE stands, at the points where interrupts are enabled. -/
inductive Activity
  /-- nothing running; the value the last request returned -/
  | idle (ret : Int)
  /-- `_rpc_get_packet` done, client not checked -/
  | fetched (a : RpcArgs) (p : Nat)
  /-- the client points to the packet, nothing sent yet -/
  | claimed (a : RpcArgs) (p : Nat)
  /-- about to free the packet and to return the error -/
  | dropping (p : Nat) (e : RpcError)
  /-- waiting for the answer -/
  | waiting (cd : Nat)
  /-- `_request_end` running the end function, the packet not yet freed -/
  | ending (pktAddr : Option Nat) (endFunction : Option Nat)
  deriving DecidableEq, Repr

structure Rpc where
  pid : Nat
  packets : Nat → RpcPacket
  clients : Nat → RpcClient
  acts : Nat → Activity
  wire : Nat → Option RpcMessage

def Rpc.init : Rpc where
  pid := 1
  packets := fun _ => .zero
  clients := fun _ => .zero
  acts := fun _ => .idle 0
  wire := fun _ => none

def Rpc.allocated (s : Rpc) (p : Nat) : Bool := (s.packets p).recId &&& packetFAlloc != 0

def Rpc.setAct (s : Rpc) (t : Nat) (a : Activity) : Rpc :=
  { s with acts := Function.update s.acts t a }

def Rpc.setClient (s : Rpc) (c : Nat) (v : RpcClient) : Rpc :=
  { s with clients := Function.update s.clients c v }

def Rpc.setPacket (s : Rpc) (p : Nat) (v : RpcPacket) : Rpc :=
  { s with packets := Function.update s.packets p v }

/-- The search loop of `_rpc_get_packet`. -/
def findPacket (s : Rpc) (rid : Nat) : Nat → Option Nat
  | 0 => none
  | n + 1 => if s.allocated rid then findPacket s (rid + 1) n else some rid

/-- The id of the next packet and the new counter. -/
def nextPid (pid : Nat) : Nat × Nat :=
  if pid ≠ 0 then (u32 (pid + 1), u32 (pid + 1)) else (1, u32 (pid + 2))

def rpcGetPacket (s : Rpc) : Option (Nat × Rpc) :=
  match findPacket s 0 pktTableLen with
  | none => none
  | some rid =>
    some (rid, { s with pid := (nextPid s.pid).2 }.setPacket rid
      { s.packets rid with
        recId := rid <<< 16 ||| 0x04 ||| packetFAlloc
        rpcId := (nextPid s.pid).1
        pktAddr := some rid })

def rpcPacketFree (s : Rpc) (p : Nat) : Rpc :=
  s.setPacket p { s.packets p with rpcId := 0, recId := (s.packets p).recId &&& 0xfffffffe }

/-- The start of both requests, up to the packet. -/
def beginRequest (s : Rpc) (t : Nat) (a : RpcArgs) : Rpc :=
  if !a.op.aligned then s.setAct t (.idle RpcError.unaligned.ret)
  else match rpcGetPacket s with
    | none => s.setAct t (.idle RpcError.noPacket.ret)
    | some (p, s) => s.setAct t (.fetched a p)

/-- What a request leaves in its client. A bind also resets the server. -/
def claimedClient (cd : RpcClient) (a : RpcArgs) (p rpcId : Nat) : RpcClient :=
  let cd := { cd with
    endFunction := a.endfunc, endParam := a.efarg, pktAddr := some p, rpcId := rpcId, semaId := 0 }
  match a.op with
  | .bind .. => { cd with command := 0, server := none }
  | .call .. => cd

/-- The in-use check and the assignments to the client, with interrupts disabled. -/
def claimClient (s : Rpc) (t : Nat) (a : RpcArgs) (p : Nat) : Rpc :=
  if (s.clients a.cd).pktAddr ≠ none then s.setAct t (.dropping p a.op.inUse)
  else (s.setClient a.cd (claimedClient (s.clients a.cd) a p (s.packets p).rpcId)).setAct t
    (.claimed a p)

/-- Fill the rest of the packet and call `SifSendCmd`. The packet is given up if that fails; the
client is left as it is. -/
def sendRequest (s : Rpc) (t : Nat) (a : RpcArgs) (p m : Nat) (sent : Bool) : Rpc :=
  let s := s.setPacket p { s.packets p with
    op := some a.op, rmode := a.rmode, pktAddr := some p, client := some a.cd,
    server := (s.clients a.cd).server }
  if !sent then s.setAct t (.dropping p .notSent)
  else
    { s with wire := Function.update s.wire m (some ⟨a.op.cid, p, a.cd, a.rmode⟩) }.setAct t
      (if a.mode &&& sifRpcMNowait ≠ 0 then .idle 0 else .waiting a.cd)

/-- The first half of `_request_end`. The packet is the one the client points to. -/
def requestEnd (s : Rpc) (t : Nat) (msg : RpcMessage) (r : RpcRend) : Rpc :=
  let c := s.clients msg.client
  let bound := { c with server := r.server, buff := r.buff, cbuff := r.cbuff }
  let answered := if msg.cid = 0x80000009 then bound else c
  let endFunction := if msg.cid = 0x8000000a ∨ msg.cid = 0x80000009 then c.endFunction else none
  (s.setClient msg.client { answered with pktAddr := none, semaId := u32 (c.semaId + 1) }).setAct t
    (.ending c.pktAddr endFunction)

/-- The second half of `_request_end`. A NULL packet is written through as well, outside of the
table. -/
def requestFree (s : Rpc) (t : Nat) : Option Nat → Rpc
  | none => s.setAct t (.idle 0)
  | some p => (rpcPacketFree s p).setAct t (.idle 0)

inductive RpcAction
  /-- context `t` calls `SifBindRpc` or `SifCallRpc` -/
  | start (t : Nat) (a : RpcArgs)
  | claim (t : Nat)
  /-- `SifSendCmd` returns, with message number `m` queued if it succeeds -/
  | send (t m : Nat) (sent : Bool)
  | drop (t : Nat)
  | wake (t : Nat)
  /-- command 0x80000008 for message `m` is handled in context `t` -/
  | answer (t m : Nat) (r : RpcRend)
  | finish (t : Nat)
  /-- the IOP clears the allocated flag for message `m`, which asked for no answer -/
  | clear (m : Nat)

def rpcStep (s : Rpc) : RpcAction → Option Rpc
  | .start t a =>
    match s.acts t with
    | .idle _ => some (beginRequest s t a)
    | _ => none
  | .claim t =>
    match s.acts t with
    | .fetched a p => some (claimClient s t a p)
    | _ => none
  | .send t m sent =>
    match s.acts t, s.wire m with
    | .claimed a p, none => some (sendRequest s t a p m sent)
    | _, _ => none
  | .drop t =>
    match s.acts t with
    | .dropping p e => some ((rpcPacketFree s p).setAct t (.idle e.ret))
    | _ => none
  | .wake t =>
    match s.acts t with
    | .waiting cd =>
      if (s.clients cd).semaId = 0 then none
      else some ((s.setClient cd
        { s.clients cd with semaId := (s.clients cd).semaId - 1 }).setAct t (.idle 0))
    | _ => none
  | .answer t m r =>
    match s.acts t, s.wire m with
    | .idle _, some msg =>
      if msg.rmode = 0 then none
      else some (requestEnd { s with wire := Function.update s.wire m none } t msg r)
    | _, _ => none
  | .finish t =>
    match s.acts t with
    | .ending p _ => some (requestFree s t p)
    | _ => none
  | .clear m =>
    match s.wire m with
    | some msg =>
      if msg.rmode = 0 then
        some ({ s with wire := Function.update s.wire m none }.setPacket msg.packet
          { s.packets msg.packet with recId := (s.packets msg.packet).recId &&& 0xfffffffe })
      else none
    | none => none

/-- What a step is taken for and what it leaves, action by action. -/
inductive RpcStepped (s : Rpc) : RpcAction → Rpc → Prop
  | start (ht : s.acts t = .idle e) : RpcStepped s (.start t a) (beginRequest s t a)
  | claim (ht : s.acts t = .fetched a p) : RpcStepped s (.claim t) (claimClient s t a p)
  | send {sent : Bool} (ht : s.acts t = .claimed a p) (hm : s.wire m = none) :
    RpcStepped s (.send t m sent) (sendRequest s t a p m sent)
  | drop (ht : s.acts t = .dropping p e) :
    RpcStepped s (.drop t) ((rpcPacketFree s p).setAct t (.idle e.ret))
  | wake {cd : Nat} (ht : s.acts t = .waiting cd) (hsema : (s.clients cd).semaId ≠ 0) :
    RpcStepped s (.wake t) ((s.setClient cd
      { s.clients cd with semaId := (s.clients cd).semaId - 1 }).setAct t (.idle 0))
  | answer {msg : RpcMessage} (ht : s.acts t = .idle e) (hm : s.wire m = some msg)
      (hr : msg.rmode ≠ 0) :
    RpcStepped s (.answer t m r)
      (requestEnd { s with wire := Function.update s.wire m none } t msg r)
  | finish (ht : s.acts t = .ending p f) : RpcStepped s (.finish t) (requestFree s t p)
  | clear {msg : RpcMessage} (hm : s.wire m = some msg) (hr : msg.rmode = 0) :
    RpcStepped s (.clear m) ({ s with wire := Function.update s.wire m none }.setPacket msg.packet
      { s.packets msg.packet with recId := (s.packets msg.packet).recId &&& 0xfffffffe })

theorem rpcStep_stepped {s s' : Rpc} {b : RpcAction} (hs : rpcStep s b = some s') :
    RpcStepped s b s' := by
  cases b with
  | start t a =>
    simp only [rpcStep] at hs
    split at hs <;> cases hs
    exact .start ‹_›
  | claim t =>
    simp only [rpcStep] at hs
    split at hs <;> cases hs
    exact .claim ‹_›
  | send t m sent =>
    simp only [rpcStep] at hs
    split at hs <;> cases hs
    exact .send ‹_› ‹_›
  | drop t =>
    simp only [rpcStep] at hs
    split at hs <;> cases hs
    exact .drop ‹_›
  | wake t =>
    simp only [rpcStep] at hs
    split at hs
    · split_ifs at hs with hsema
      cases hs
      exact .wake ‹_› hsema
    · cases hs
  | answer t m r =>
    simp only [rpcStep] at hs
    split at hs
    · split_ifs at hs with hr
      cases hs
      exact .answer ‹_› ‹_› hr
    · cases hs
  | finish t =>
    simp only [rpcStep] at hs
    split at hs <;> cases hs
    exact .finish ‹_›
  | clear m =>
    simp only [rpcStep] at hs
    split at hs
    · split_ifs at hs with hr
      cases hs
      exact .clear ‹_› hr
    · cases hs

/-- A run of the given steps. -/
def rpcRun (s : Rpc) : List RpcAction → Option Rpc
  | [] => some s
  | a :: as => (rpcStep s a).bind (rpcRun · as)

end KernelLoader.Sif
