import KernelLoader.Lib.Loop
import Mathlib.Logic.Function.Basic

namespace KernelLoader.Sif
open Lib
set_option autoImplicit true
set_option relaxedAutoImplicit false

/-- A request to call a server. -/
structure CallPkt where
  server : Nat
  pktAddr : Nat
  client : Nat
  rpcNumber : Nat
  sendSize : Nat
  receive : Nat
  recvSize : Nat
  rmode : Nat
  recId : Nat
  deriving DecidableEq, Repr

/-- What a server is registered with. -/
structure ServerArgs where
  sid : Nat
  func : Nat
  buff : Nat
  cfunc : Nat
  cbuff : Nat
  deriving DecidableEq, Repr

/-- A `SifRpcServerData_t`. Servers and queues are named by numbers; a pointer may be null. -/
structure ServerData where
  sid : Nat
  func : Nat
  buff : Nat
  size : Nat
  cfunc : Nat
  cbuff : Nat
  client : Nat
  pktAddr : Nat
  rpcNumber : Nat
  receive : Nat
  rsize : Nat
  rmode : Nat
  rid : Nat
  link : Option Nat
  next : Option Nat
  base : Option Nat

/-- A `SifRpcDataQueue_t`. -/
structure DataQueue where
  active : Nat
  link : Option Nat
  (start end' : Option Nat)
  next : Option Nat

/-- The servers, the queues and `_sif_rpc_data.active_queue`, with the answers to binds and the
requests that were executed so far. -/
structure RpcServers where
  servers : Nat → ServerData
  queues : Nat → DataQueue
  activeQueue : Option Nat
  replies : List (Nat × Option Nat)
  executed : List CallPkt

def RpcServers.init : RpcServers where
  servers := fun _ => ⟨0, 0, 0, 0, 0, 0, 0, 0, 0, 0, 0, 0, 0, none, none, none⟩
  queues := fun _ => ⟨0, none, none, none, none⟩
  activeQueue := none
  replies := []
  executed := []

def RpcServers.setServer (s : RpcServers) (sd : Nat) (f : ServerData → ServerData) : RpcServers :=
  { s with servers := Function.update s.servers sd (f (s.servers sd)) }

def RpcServers.setQueue (s : RpcServers) (qd : Nat) (f : DataQueue → DataQueue) : RpcServers :=
  { s with queues := Function.update s.queues qd (f (s.queues qd)) }

section Setters
variable (s : RpcServers) (sd qd : Nat) (f : ServerData → ServerData) (f' : DataQueue → DataQueue)

@[simp, grind =] theorem RpcServers.setServer_servers (p : Nat) :
    (s.setServer sd f).servers p = if p = sd then f (s.servers sd) else s.servers p :=
  Function.update_apply _ _ _ _

@[simp, grind =] theorem RpcServers.setServer_queues (q : Nat) :
    (s.setServer sd f).queues q = s.queues q := rfl

@[simp, grind =] theorem RpcServers.setServer_activeQueue :
    (s.setServer sd f).activeQueue = s.activeQueue := rfl

@[simp, grind =] theorem RpcServers.setServer_executed :
    (s.setServer sd f).executed = s.executed := rfl

@[simp, grind =] theorem RpcServers.setQueue_queues (q : Nat) :
    (s.setQueue qd f').queues q = if q = qd then f' (s.queues qd) else s.queues q :=
  Function.update_apply _ _ _ _

@[simp, grind =] theorem RpcServers.setQueue_servers (p : Nat) :
    (s.setQueue qd f').servers p = s.servers p := rfl

@[simp, grind =] theorem RpcServers.setQueue_activeQueue :
    (s.setQueue qd f').activeQueue = s.activeQueue := rfl

@[simp, grind =] theorem RpcServers.setQueue_executed :
    (s.setQueue qd f').executed = s.executed := rfl

end Setters

section Functions
variable (fuel : Nat)

/-- The loop over the queues from `queue` on. -/
def searchQueues (sid : Nat) (s : RpcServers) : Nat → Option Nat → Option (Option Nat)
  | _, none => some none
  | 0, some _ => none
  | n + 1, some queue =>
    match findLinked (fun p => (s.servers p).link) (fun p => (s.servers p).sid == sid) fuel
        (s.queues queue).link with
    | some none => searchQueues sid s n (s.queues queue).next
    | r => r

def searchSvdata (sid : Nat) (s : RpcServers) : Option (Option Nat) :=
  searchQueues fuel sid s fuel s.activeQueue

def sifSetRpcQueue (qd : Nat) (s : RpcServers) : Option RpcServers :=
  let s := s.setQueue qd fun _ => ⟨0, none, none, none, none⟩
  match s.activeQueue with
  | none => some { s with activeQueue := some qd }
  | some queue =>
    match skipLinked (fun q => (s.queues q).next) fuel queue with
    | some (some queue) => some (s.setQueue queue fun q => { q with next := some qd })
    -- the loop does not end, or the null pointer is written through
    | _ => none

def sifRegisterRpc (sd : Nat) (a : ServerArgs) (qd : Nat) (s : RpcServers) : Option RpcServers :=
  let s := s.setServer sd fun d =>
    { d with
      link := none
      next := none
      sid := a.sid
      func := a.func
      buff := a.buff
      cfunc := a.cfunc
      cbuff := a.cbuff
      base := some qd }
  match (s.queues qd).link with
  | none => some (s.setQueue qd fun q => { q with link := some sd })
  | some server =>
    match skipLinked (fun p => (s.servers p).next) fuel server with
    | some (some server) => some (s.setServer server fun d => { d with next := some sd })
    | _ => none

def sifGetNextRequest (qd : Nat) (s : RpcServers) : Option Nat × RpcServers :=
  match (s.queues qd).start with
  | none => (none, s.setQueue qd fun q => { q with active := 1 })
  | some server =>
    (some server, s.setQueue qd fun q => { q with active := 0, start := (s.servers server).next })

/-- What the fields of a server say about its request. -/
def ServerData.request (d : ServerData) (server : Nat) : CallPkt :=
  ⟨server, d.pktAddr, d.client, d.rpcNumber, d.size, d.receive, d.rsize, d.rmode, d.rid⟩

/-- `SifExecRequest` as far as it matters here: the request is executed. -/
def RpcServers.exec (s : RpcServers) (server : Nat) : RpcServers :=
  { s with executed := s.executed ++ [(s.servers server).request server] }

def setRequest (r : CallPkt) (s : RpcServers) : RpcServers :=
  s.setServer r.server fun d =>
    { d with
      pktAddr := r.pktAddr
      client := r.client
      rpcNumber := r.rpcNumber
      size := r.sendSize
      receive := r.receive
      rsize := r.recvSize
      rmode := r.rmode
      rid := r.recId }

/-- Put the server at the end of the queue of requests. -/
def enqueue (server base : Nat) (s : RpcServers) : Option RpcServers :=
  match (s.queues base).start, (s.queues base).end' with
  | none, _ => some (s.setQueue base fun q => { q with start := some server })
  | some _, some last => some (s.setServer last fun d => { d with link := some server })
  | some _, none => none

def requestCall (r : CallPkt) (s : RpcServers) : Option RpcServers := do
  let base ← (s.servers r.server).base
  let s ← enqueue r.server base s
  let s := setRequest r (s.setQueue base fun q => { q with end' := some r.server })
  match sifGetNextRequest base s with
  | (none, s) => some s
  | (some server, s) => some (s.exec server)

def requestBind (sid : Nat) (s : RpcServers) : Option RpcServers := do
  let server ← searchSvdata fuel sid s
  some { s with replies := s.replies ++ [(sid, server)] }

end Functions

/-- What happens one after the other: the calls of the library, and the requests of the IOP. -/
inductive ServerOp
  | setRpcQueue (qd : Nat)
  | registerRpc (sd : Nat) (a : ServerArgs) (qd : Nat)
  | bind (sid : Nat)
  | call (r : CallPkt)

def RpcServers.step (fuel : Nat) (s : RpcServers) : ServerOp → Option RpcServers
  | .setRpcQueue qd => sifSetRpcQueue fuel qd s
  | .registerRpc sd a qd => sifRegisterRpc fuel sd a qd s
  | .bind sid => requestBind fuel sid s
  | .call r => requestCall r s

/-- Nothing if a pointer that is null is used, or if a loop does not end. -/
def RpcServers.run (fuel : Nat) (s : RpcServers) : List ServerOp → Option RpcServers
  | [] => some s
  | op :: ops => (s.step fuel op).bind fun s => s.run fuel ops

/-- What the registry is for: the queues that are set, the servers with the queues they were
registered on, those among them that are to be found under their number, the queues that have got a
server since they were set, and the requests that have arrived. -/
structure Registry where
  queues : List Nat
  servers : List (Nat × Nat)
  sids : List Nat
  known : List (Nat × Nat)
  occupied : List Nat
  arrived : List CallPkt

def Registry.init : Registry := ⟨[], [], [], [], [], []⟩

def Registry.step (g : Registry) : ServerOp → Registry
  | .setRpcQueue qd =>
    { g with queues := g.queues ++ [qd], occupied := g.occupied.filter (· ≠ qd) }
  | .registerRpc sd a qd =>
    { g with
      servers := g.servers ++ [(sd, qd)]
      sids := g.sids ++ [a.sid]
      known := if qd ∈ g.queues then g.known ++ [(a.sid, sd)] else g.known
      occupied := qd :: g.occupied }
  | .bind _ => g
  | .call r => { g with arrived := g.arrived ++ [r] }

def Registry.run (g : Registry) (ops : List ServerOp) : Registry := ops.foldl Registry.step g

/-- The objects and the numbers are different, and only servers that are registered are called. -/
def Registry.valid (g : Registry) : ServerOp → Bool
  | .setRpcQueue qd => qd ∉ g.queues
  | .registerRpc sd a _ => sd ∉ g.servers.map Prod.fst ∧ a.sid ∉ g.sids
  | .bind _ => true
  | .call r => r.server ∈ g.servers.map Prod.fst

/-- Something that holds of every operation when it comes. -/
def Registry.along (ok : Registry → ServerOp → Bool) (g : Registry) : List ServerOp → Bool
  | [] => true
  | op :: ops => ok g op && (g.step op).along ok ops

/-- There is one queue, and no queue gets a second server. -/
def Registry.single (g : Registry) : ServerOp → Bool
  | .setRpcQueue _ => g.queues.isEmpty
  | .registerRpc _ _ qd => qd ∉ g.occupied
  | _ => true

/-- The servers do what the registry is for: exactly those that were registered on a queue that was
set are found, and the requests to the servers of a queue are executed once each, in the order of
their arrival. -/
def RpcServers.Serves (fuel : Nat) (s : RpcServers) (g : Registry) : Prop :=
  (∀ sid, (searchSvdata fuel sid s).isSome) ∧
    (∀ sid sd, searchSvdata fuel sid s = some (some sd) ↔ (sid, sd) ∈ g.known) ∧
    ∀ qd, s.executed.filter (fun r => (r.server, qd) ∈ g.servers) =
      g.arrived.filter fun r => (r.server, qd) ∈ g.servers

/-- How the pointers stand for the registry, as long as no list has more than one element. -/
structure Refines (s : RpcServers) (g : Registry) : Prop where
  active : s.activeQueue = g.queues.head?
  one : g.queues.length ≤ 1
  queueNext : ∀ q, (s.queues q).next = none
  start : ∀ q, (s.queues q).start = none
  serverLink : ∀ p, (s.servers p).link = none
  serverNext : ∀ p, (s.servers p).next = none
  base : ∀ sd qd, (sd, qd) ∈ g.servers → (s.servers sd).base = some qd
  linked : ∀ q, (s.queues q).link.isSome ↔ q ∈ g.occupied
  member : ∀ q sd, (s.queues q).link = some sd → sd ∈ g.servers.map Prod.fst
  known : g.known = ((g.queues.head?.bind fun q => (s.queues q).link).map fun sd =>
    ((s.servers sd).sid, sd)).toList
  executed : s.executed = g.arrived

section Refines
variable {s s' : RpcServers} {g : Registry} {fuel : Nat}

theorem Refines.init : Refines .init .init where
  active := rfl
  one := by decide
  queueNext := fun _ => rfl
  start := fun _ => rfl
  serverLink := fun _ => rfl
  serverNext := fun _ => rfl
  base := fun _ _ h => (nomatch h)
  linked := fun _ => by simp [RpcServers.init, Registry.init]
  member := fun _ _ h => (nomatch h)
  known := rfl
  executed := rfl

theorem Refines.search (h : Refines s g) (sid : Nat) :
    searchSvdata (fuel + 1) sid s = some ((g.queues.head?.bind fun q => (s.queues q).link).filter
      fun p => (s.servers p).sid == sid) := by
  rw [searchSvdata, h.active]
  cases g.queues.head? with
  | none => rfl
  | some q =>
    rw [searchQueues, findLinked_single h.serverLink, Option.bind_some]
    split
    · next heq => rw [h.queueNext, searchQueues, heq]
    · rfl

theorem Refines.serves (h : Refines s g) : s.Serves (fuel + 1) g := by
  refine ⟨fun sid => ?_, fun sid sd => ?_, fun qd => ?_⟩
  · rw [h.search]
    rfl
  · rw [h.search, h.known]
    cases g.queues.head?.bind fun q => (s.queues q).link with
    | none => simp
    | some p =>
      simp only [Option.filter_some, beq_iff_eq, Option.map_some, Option.toList_some,
        List.mem_singleton, Prod.mk.injEq]
      constructor
      · intro heq
        split_ifs at heq with hsid
        · cases heq
          exact ⟨hsid.symm, rfl⟩
        · cases heq
      · rintro ⟨rfl, rfl⟩
        rw [if_pos rfl]
  · rw [h.executed]

theorem Refines.link_none (h : Refines s g) (hq : q ∉ g.occupied) : (s.queues q).link = none := by
  rw [← h.linked] at hq
  exact Option.not_isSome_iff_eq_none.1 hq

theorem Refines.setRpcQueue (h : Refines s g) (hone : g.queues = []) (qd : Nat) :
    ∃ s', sifSetRpcQueue fuel qd s = some s' ∧ Refines s' (g.step (.setRpcQueue qd)) := by
  have hactive : s.activeQueue = none := by
    rw [h.active, hone]
    rfl
  have hknown : g.known = [] := by
    rw [h.known, hone]
    rfl
  refine ⟨{ s.setQueue qd fun _ => ⟨0, none, none, none, none⟩ with activeQueue := some qd },
    ?_, ?_⟩
  · simp [sifSetRpcQueue, hactive]
  exact
    { h with
      active := by simp [Registry.step, hone]
      one := by simp [Registry.step, hone]
      queueNext := by grind [h.queueNext]
      start := by grind [h.start]
      linked := by grind [h.linked, Registry.step]
      member := by grind [h.member, Registry.step]
      known := by simp [Registry.step, hone, hknown] }

theorem Refines.registerRpc {sd qd : Nat} (h : Refines s g) (hsd : sd ∉ g.servers.map Prod.fst)
    (hqd : qd ∉ g.occupied) (a : ServerArgs) :
    ∃ s', sifRegisterRpc fuel sd a qd s = some s' ∧ Refines s' (g.step (.registerRpc sd a qd)) := by
  have hnone := h.link_none hqd
  rw [sifRegisterRpc]
  simp only [RpcServers.setServer_queues, hnone]
  have hhead : qd ∈ g.queues → g.queues.head? = some qd := by
    intro hmem
    have hone := h.one
    match hq : g.queues, hmem, hone with
    | [q], hmem, _ => simp_all
  refine ⟨_, rfl,
    { h with
      queueNext := by grind [h.queueNext]
      start := by grind [h.start]
      serverLink := by grind [h.serverLink]
      serverNext := by grind [h.serverNext]
      base := by grind [h.base, Registry.step]
      linked := by grind [h.linked, Registry.step]
      member := by grind [h.member, Registry.step]
      known := ?known }⟩
  rw [Registry.step]
  by_cases hmem : qd ∈ g.queues
  · -- the server is the only one of the queue that is searched
    simp [hmem, h.known, hhead hmem, hnone]
  · cases hq : g.queues.head? with
    | none => simp [hmem, h.known, hq]
    | some q =>
      have hne : q ≠ qd := by
        rintro rfl
        exact hmem (List.mem_of_head? hq)
      cases hl : (s.queues q).link with
      | none => simp [hmem, h.known, hq, hne, hl]
      | some p =>
        have hp : p ≠ sd := by
          rintro rfl
          exact hsd (h.member q p hl)
        simp [hmem, h.known, hq, hne, hl, hp]

@[grind =] theorem exec_servers (p sd : Nat) : (s.exec sd).servers p = s.servers p := rfl

@[grind =] theorem exec_queues (q sd : Nat) : (s.exec sd).queues q = s.queues q := rfl

theorem executed_setRequest (r : CallPkt) :
    ((setRequest r s).exec r.server).executed = s.executed ++ [r] := by
  simp [setRequest, RpcServers.exec, ServerData.request]

/-- A queue with no request whose only request is taken from it again. -/
def RpcServers.pass (s : RpcServers) (qd sd : Nat) : RpcServers :=
  s.setQueue qd fun q => { q with active := 0, start := (s.servers sd).next, end' := some sd }

theorem requestCall_idle {r : CallPkt} {qd : Nat} (hbase : (s.servers r.server).base = some qd)
    (hstart : (s.queues qd).start = none) :
    requestCall r s = some ((setRequest r (s.pass qd r.server)).exec r.server) := by
  simp [requestCall, hbase, enqueue, hstart, sifGetNextRequest, setRequest, RpcServers.exec,
    RpcServers.setServer, RpcServers.setQueue, RpcServers.pass]

/-- The request is the only one in its queue, and is executed at once. -/
theorem Refines.call {r : CallPkt} (h : Refines s g) (hr : r.server ∈ g.servers.map Prod.fst) :
    ∃ s', requestCall r s = some s' ∧ Refines s' (g.step (.call r)) := by
  obtain ⟨⟨sd, qd⟩, hmem, hsd⟩ := List.mem_map.1 hr
  have hbase : (s.servers r.server).base = some qd := hsd ▸ h.base sd qd hmem
  have hnext := h.serverNext r.server
  obtain ⟨s', hs'⟩ : ∃ s', s' = (setRequest r (s.pass qd r.server)).exec r.server := ⟨_, rfl⟩
  have hlink : ∀ q, (s'.queues q).link = (s.queues q).link := by
    grind [setRequest, RpcServers.pass]
  have hsid : ∀ p, (s'.servers p).sid = (s.servers p).sid := by
    grind [setRequest, RpcServers.pass]
  refine ⟨s', hs' ▸ requestCall_idle hbase (h.start qd), ?_⟩
  exact
    { h with
      active := by rw [hs']; exact h.active
      queueNext := by grind [h.queueNext, setRequest, RpcServers.pass]
      start := by grind [h.start, setRequest, RpcServers.pass]
      serverLink := by grind [h.serverLink, setRequest, RpcServers.pass]
      serverNext := by grind [h.serverNext, setRequest, RpcServers.pass]
      base := by grind [h.base, Registry.step, setRequest, RpcServers.pass]
      linked := fun q => by rw [hlink]; exact h.linked q
      member := fun q => by rw [hlink]; exact h.member q
      known := by simpa only [Registry.step, hlink, hsid] using h.known
      executed := by
        rw [hs', executed_setRequest, Registry.step, ← h.executed]
        rfl }

theorem Refines.step {op : ServerOp} (h : Refines s g) (hv : g.valid op = true)
    (hs : g.single op = true) :
    ∃ s', s.step (fuel + 1) op = some s' ∧ Refines s' (g.step op) := by
  cases op with
  | setRpcQueue qd => exact h.setRpcQueue (List.isEmpty_iff.1 hs) qd
  | registerRpc sd a qd =>
    exact h.registerRpc (of_decide_eq_true hv).1 (of_decide_eq_true hs) a
  | bind sid =>
    rw [RpcServers.step, requestBind, h.search]
    exact ⟨_, rfl, { h with }⟩
  | call r => exact h.call (of_decide_eq_true hv)

/-- A second element of a list is linked through the null pointer. -/
theorem Refines.not_single {op : ServerOp} (h : Refines s g) (hs : g.single op = false) :
    s.step fuel op = none := by
  cases op with
  | setRpcQueue qd =>
    cases hq : g.queues with
    | nil => simp [Registry.single, hq] at hs
    | cons q qs =>
      have hactive : s.activeQueue = some q := by rw [h.active, hq]; rfl
      simp only [RpcServers.step, sifSetRpcQueue, RpcServers.setQueue_activeQueue, hactive]
      split
      · next heq => cases skipLinked_null _ heq
      · rfl
  | registerRpc sd a qd =>
    have hmem : qd ∈ g.occupied := by simpa [Registry.single] using hs
    obtain ⟨p, hp⟩ := Option.isSome_iff_exists.1 ((h.linked qd).2 hmem)
    simp only [RpcServers.step, sifRegisterRpc, RpcServers.setServer_queues, hp]
    split
    · next heq => cases skipLinked_null _ heq
    · rfl
  | bind sid => cases hs
  | call r => cases hs

theorem Refines.run_iff {ops : List ServerOp} (h : Refines s g)
    (hv : g.along Registry.valid ops = true) :
    (∃ s', s.run (fuel + 1) ops = some s' ∧ s'.Serves (fuel + 1) (g.run ops)) ↔
      g.along Registry.single ops = true := by
  induction ops generalizing s g with
  | nil => exact ⟨fun _ => rfl, fun _ => ⟨s, rfl, h.serves⟩⟩
  | cons op ops ih =>
    rw [Registry.along, Bool.and_eq_true] at hv ⊢
    cases hs : g.single op with
    | false => simp [RpcServers.run, h.not_single hs]
    | true =>
      obtain ⟨s', hstep, h'⟩ : ∃ s', s.step (fuel + 1) op = some s' ∧ Refines s' (g.step op) :=
        h.step hv.1 hs
      simpa [RpcServers.run, Registry.run, hstep] using ih h' hv.2

end Refines

/-- However queues are set, servers registered and requests come, nothing is written through the
null pointer and the servers serve if and only if there is at most one queue and no queue gets a
second server. -/
theorem rpc_servers {fuel : Nat} {ops : List ServerOp} (hfuel : 0 < fuel)
    (hv : Registry.init.along Registry.valid ops = true) :
    (∃ s, RpcServers.init.run fuel ops = some s ∧ s.Serves fuel (Registry.init.run ops)) ↔
      Registry.init.along Registry.single ops = true := by
  obtain ⟨fuel, rfl⟩ := Nat.exists_eq_add_one.2 hfuel
  exact Refines.init.run_iff hv

/-- The queue and the server of the sound driver, with a call that comes back to it. -/
theorem rpc_servers_sound :
    ∃ s, RpcServers.init.run 1
        [.setRpcQueue 10, .registerRpc 20 ⟨0x80000704, 1, 2, 0, 0⟩ 10, .bind 0x80000704,
          .call ⟨20, 3, 4, 0, 64, 5, 0, 1, 0⟩] = some s ∧
      s.Serves 1 ⟨[10], [(20, 10)], [0x80000704], [(0x80000704, 20)], [10],
        [⟨20, 3, 4, 0, 64, 5, 0, 1, 0⟩]⟩ :=
  (rpc_servers (by decide) (by decide)).2 (by decide)

/-- After one server the loop for the next one ends with the null pointer, which is then written
through. -/
theorem second_server_lost :
    Registry.init.along Registry.valid
        [.setRpcQueue 10, .registerRpc 20 ⟨1, 0, 0, 0, 0⟩ 10, .registerRpc 21 ⟨2, 0, 0, 0, 0⟩ 10] =
      true ∧
    (RpcServers.init.run 4 [.setRpcQueue 10, .registerRpc 20 ⟨1, 0, 0, 0, 0⟩ 10]).map
        (fun s => ((s.queues 10).link, skipLinked (fun p => (s.servers p).next) 4 20)) =
      some (some 20, some none) ∧
    RpcServers.init.run 4
        [.setRpcQueue 10, .registerRpc 20 ⟨1, 0, 0, 0, 0⟩ 10, .registerRpc 21 ⟨2, 0, 0, 0, 0⟩ 10] =
      none := by
  exact ⟨by decide, rfl, rfl⟩

end KernelLoader.Sif
