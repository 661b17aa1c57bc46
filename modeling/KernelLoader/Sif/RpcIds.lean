import KernelLoader.Sif.RpcOwnership

namespace KernelLoader.Sif
open Lib
set_option autoImplicit true
set_option relaxedAutoImplicit false

def sifCheckStatRpc (s : Rpc) (c : Nat) : Int :=
  match (s.clients c).pktAddr with
  | none => 0
  | some p =>
    if (s.clients c).rpcId ≠ (s.packets p).rpcId then 0
    else if !s.allocated p then 0
    else 1

/-- The packet for which the query answers 1. -/
def Rpc.current (s : Rpc) (c : Nat) : Option Nat :=
  if sifCheckStatRpc s c = 1 then (s.clients c).pktAddr else none

/-- The packet a context has to free and the client it is for. Until the packet of a request that
could not be sent is freed, it is still for its client. -/
def Activity.charge (packets : Nat → RpcPacket) : Activity → Option (Nat × Option Nat)
  | .dropping p .notSent => some (p, (packets p).client)
  | a => a.held

def Rpc.charge (s : Rpc) : Holder → Option (Nat × Option Nat)
  | .context t => (s.acts t).charge s.packets
  | .message m => (s.wire m).map RpcMessage.held

variable {s s' : Rpc} {a : RpcArgs} {msg : RpcMessage}

theorem sifCheckStatRpc_eq_one (s : Rpc) (c : Nat) :
    sifCheckStatRpc s c = 1 ↔ ∃ p, (s.clients c).pktAddr = some p ∧
      (s.clients c).rpcId = (s.packets p).rpcId ∧ s.allocated p = true := by
  unfold sifCheckStatRpc
  cases (s.clients c).pktAddr with
  | none => simp
  | some p => simp [ite_eq_iff]

theorem current_eq_some : s.current c = some p ↔ (s.clients c).pktAddr = some p ∧
    (s.clients c).rpcId = (s.packets p).rpcId ∧ s.allocated p = true := by
  unfold Rpc.current
  rw [Option.ite_none_right_eq_some, sifCheckStatRpc_eq_one]
  constructor
  · rintro ⟨⟨q, hq, hid⟩, hp⟩
    rw [hq] at hp
    cases hp
    exact ⟨hq, hid⟩
  · rintro ⟨hp, hid⟩
    exact ⟨⟨p, hp, hid⟩, hp⟩

theorem sifCheckStatRpc_iff (s : Rpc) (c : Nat) :
    sifCheckStatRpc s c = 1 ↔ ∃ p, s.current c = some p := by
  rw [sifCheckStatRpc_eq_one]
  exact exists_congr fun p => current_eq_some.symm

theorem current_congr (s s' : Rpc) (hc : s'.clients = s.clients)
    (hp : ∀ c p, (s.clients c).pktAddr = some p →
      ((s.clients c).rpcId = (s'.packets p).rpcId ∧ s'.allocated p = true ↔
        (s.clients c).rpcId = (s.packets p).rpcId ∧ s.allocated p = true)) (c : Nat) :
    s'.current c = s.current c := by
  apply Option.ext
  intro p
  rw [current_eq_some, current_eq_some, hc]
  exact and_congr_right fun h => hp c p h

theorem charge_setAct (s : Rpc) (t : Nat) (a : Activity) :
    (s.setAct t a).charge = Function.update s.charge (.context t) (a.charge s.packets) := by
  funext h
  cases h with
  | context u =>
    simp only [Rpc.charge, Rpc.setAct, Function.update_apply, Holder.context.injEq]
    split_ifs <;> rfl
  | message m => rfl

theorem charge_setClient (s : Rpc) (c : Nat) (v : RpcClient) :
    (s.setClient c v).charge = s.charge := by
  funext h
  cases h <;> rfl

theorem charge_wire (s : Rpc) (m : Nat) (v : Option RpcMessage) :
    ({ s with wire := Function.update s.wire m v } : Rpc).charge =
      Function.update s.charge (.message m) (v.map RpcMessage.held) := by
  funext h
  cases h with
  | context u => rfl
  | message k =>
    simp only [Rpc.charge, Function.update_apply, Holder.message.injEq]
    split_ifs <;> rfl

/-- What is in charge changes with a packet only if its client changes while it is dropped. -/
theorem charge_setPacket (s : Rpc) (p : Nat) (v : RpcPacket)
    (hv : v.client = (s.packets p).client ∨ ∀ t e, s.acts t ≠ .dropping p e) :
    (s.setPacket p v).charge = s.charge := by
  funext h
  cases h with
  | message m => rfl
  | context t =>
    simp only [Rpc.charge, Rpc.setPacket]
    cases hact : s.acts t with
    | dropping q e =>
      cases e with
      | notSent =>
        simp only [Activity.charge, Function.update_apply]
        split_ifs with hq
        · subst hq
          rw [hv.resolve_right fun hno => hno t _ hact]
        · rfl
      | _ => rfl
    | _ => rfl

/-- Ids in use are between 2 and the counter, each for one packet; clients know no later ones. -/
structure Rpc.IdsOk (s : Rpc) : Prop where
  pid_pos : 1 ≤ s.pid
  pid_lt : s.pid < 2 ^ 32
  bounds : ∀ p, s.live p → 2 ≤ (s.packets p).rpcId ∧ (s.packets p).rpcId ≤ s.pid
  distinct : ∀ p q, s.live p → s.live q → (s.packets p).rpcId = (s.packets q).rpcId → p = q
  known : ∀ c, (s.clients c).rpcId ≤ s.pid

theorem Rpc.IdsOk.shrink (h : s.IdsOk) (hpid : s'.pid = s.pid)
    (hl : ∀ p, s'.live p → s.live p ∧ (s'.packets p).rpcId = (s.packets p).rpcId)
    (hc : ∀ c, (s'.clients c).rpcId ≤ s.pid) : s'.IdsOk := by
  refine ⟨hpid ▸ h.pid_pos, hpid ▸ h.pid_lt, fun p hp => ?_, fun p q hp hq he => ?_, hpid ▸ hc⟩
  · obtain ⟨hlive, hid⟩ := hl p hp
    rw [hid, hpid]
    exact h.bounds p hlive
  · obtain ⟨hp', hidp⟩ := hl p hp
    obtain ⟨hq', hidq⟩ := hl q hq
    rw [hidp, hidq] at he
    exact h.distinct p q hp' hq' he

structure Rpc.IdInv (s : Rpc) : Prop where
  custody : Custody s.charge s.live s.current
  ids : s.IdsOk

theorem Rpc.IdInv.init : Rpc.init.IdInv := by
  have hlive (p : Nat) : ¬Rpc.init.live p := by
    simp [Rpc.live, Rpc.allocated, Rpc.init, RpcPacket.zero]
  refine ⟨Custody.empty.congr (fun h => ?_) (fun p => iff_of_false (hlive p) id) fun _ => rfl, ?_⟩
  · cases h <;> rfl
  · exact ⟨by decide, by decide, fun p hp => absurd hp (hlive p),
      fun p _ hp => absurd hp (hlive p), fun _ => Nat.zero_le _⟩

theorem Rpc.IdInv.not_dropping (h : s.IdInv) (hp : ¬s.live p) (t : Nat) (e : RpcError) :
    s.acts t ≠ .dropping p e := by
  intro hact
  refine hp ((h.custody.live_iff p).mpr ⟨.context t, ?_⟩)
  simp only [Rpc.charge, hact]
  cases e <;> exact ⟨_, rfl⟩

theorem Rpc.IdInv.setAct (h : s.IdInv) {b : Activity}
    (ht : s.charge (.context t) = b.charge s.packets) : (s.setAct t b).IdInv := by
  refine ⟨?_, h.ids.shrink rfl (fun p hp => ⟨hp, rfl⟩) h.ids.known⟩
  rw [charge_setAct, Function.update_eq_self_iff.mpr ht.symm]
  exact h.custody

theorem Rpc.IdInv.setClient (h : s.IdInv) {v : RpcClient}
    (hv : v.pktAddr = (s.clients c).pktAddr) (hid : v.rpcId = (s.clients c).rpcId) :
    (s.setClient c v).IdInv := by
  have hclients (k : Nat) : ((s.setClient c v).clients k).pktAddr = (s.clients k).pktAddr ∧
      ((s.setClient c v).clients k).rpcId = (s.clients k).rpcId := by
    simp only [Rpc.setClient, Function.update_apply]
    split_ifs with hk
    · subst hk
      exact ⟨hv, hid⟩
    · exact ⟨rfl, rfl⟩
  refine ⟨h.custody.congr (fun x => congrFun (charge_setClient s c v) x) (fun _ => Iff.rfl)
    fun k => ?_, h.ids.shrink rfl (fun p hp => ⟨hp, rfl⟩) fun k => ?_⟩
  · apply Option.ext
    intro p
    rw [current_eq_some, current_eq_some, (hclients k).1, (hclients k).2]
    rfl
  · rw [(hclients k).2]
    exact h.ids.known k

theorem rpcGetPacket_numbers (h : rpcGetPacket s = some (p, s')) :
    p < pktTableLen ∧ s.allocated p = false ∧ s'.allocated p = true ∧
      s'.pid = (nextPid s.pid).2 ∧ (s'.packets p).rpcId = (nextPid s.pid).1 ∧
      (∀ q ≠ p, s'.packets q = s.packets q) ∧ s'.clients = s.clients ∧
      ((∀ t e, s.acts t ≠ .dropping p e) → s'.charge = s.charge) := by
  unfold rpcGetPacket at h
  split at h
  · cases h
  · rename_i rid hf
    obtain ⟨-, hlt, hfree⟩ := findPacket_some hf
    cases h
    refine ⟨by omega, hfree, ?_, rfl, ?_, fun q hq => Function.update_of_ne hq _ _, rfl,
      fun hno => ?_⟩
    · rw [allocated_setPacket, if_pos rfl, bne_iff_ne]
      exact alloc_flag_set p
    · simp [Rpc.setPacket]
    · exact (charge_setPacket { s with pid := (nextPid s.pid).2 } p _ (.inr hno)).trans rfl

theorem nextPid_eq (h0 : 1 ≤ n) (h1 : n < 2 ^ 32) (h2 : n ≠ 2 ^ 32 - 1) :
    nextPid n = (n + 1, n + 1) := by
  rw [nextPid, if_pos (by omega), u32_of_lt (by omega)]

theorem Rpc.IdInv.getPacket (h : s.IdInv) (hpid : s.pid ≠ 2 ^ 32 - 1)
    (hget : rpcGetPacket s = some (p, s')) (ht : s.charge (.context t) = none) (a : RpcArgs) :
    (s'.setAct t (.fetched a p)).IdInv := by
  obtain ⟨hnot, hlive, -⟩ := rpcGetPacket_spec hget
  obtain ⟨-, hfree, -, hnext, hid, hother, hclients, hcharge⟩ := rpcGetPacket_numbers hget
  rw [nextPid_eq h.ids.pid_pos h.ids.pid_lt hpid] at hnext hid
  have hle := h.ids.pid_lt
  have hold (q : Nat) (hq : s'.live q) (hne : q ≠ p) :
      s.live q ∧ (s'.packets q).rpcId = (s.packets q).rpcId :=
    ⟨((hlive q).mp hq).resolve_left hne, by rw [hother q hne]⟩
  refine ⟨?_, ⟨?_, ?_, fun q hq => ?_, fun q r hq hr he => ?_, fun c => ?_⟩⟩
  · rw [charge_setAct, hcharge (h.not_dropping hnot)]
    refine (h.custody.acquire ht hnot).congr (fun _ => rfl) hlive fun c => ?_
    refine current_congr s s' hclients (fun k q _ => ?_) c
    by_cases hq : q = p
    · -- A client that still points to the packet knows a smaller id.
      have hk := h.ids.known k
      subst hq
      rw [hid, hfree]
      exact iff_of_false (fun hc => by have := hc.1; omega) fun hc => Bool.false_ne_true hc.2
    · rw [Rpc.allocated, hother q hq]
      rfl
  · change 1 ≤ s'.pid
    omega
  · change s'.pid < 2 ^ 32
    omega
  · change 2 ≤ (s'.packets q).rpcId ∧ (s'.packets q).rpcId ≤ s'.pid
    by_cases hqp : q = p
    · subst hqp
      have hpos := h.ids.pid_pos
      omega
    · obtain ⟨hq', hidq⟩ := hold q hq hqp
      have hb := h.ids.bounds q hq'
      omega
  · change (s'.packets q).rpcId = (s'.packets r).rpcId at he
    by_cases hqp : q = p <;> by_cases hrp : r = p
    · rw [hqp, hrp]
    · obtain ⟨hr', hidr⟩ := hold r hr hrp
      have hb := h.ids.bounds r hr'
      subst hqp
      omega
    · obtain ⟨hq', hidq⟩ := hold q hq hqp
      have hb := h.ids.bounds q hq'
      subst hrp
      omega
    · obtain ⟨hq', hidq⟩ := hold q hq hqp
      obtain ⟨hr', hidr⟩ := hold r hr hrp
      exact h.ids.distinct q r hq' hr' (by omega)
  · change (s'.clients c).rpcId ≤ s'.pid
    have hk := h.ids.known c
    rw [hclients]
    omega

/-- No packet is handed out once the counter is at its end. -/
def IdOk (s : Rpc) : RpcAction → Prop
  | .start _ a => s.pid = 2 ^ 32 - 1 → a.op.aligned = true → ∀ p < pktTableLen, s.allocated p = true
  | _ => True

theorem Rpc.IdInv.begin {a : RpcArgs} (h : s.IdInv) (hok : IdOk s (.start t a))
    (ht : s.acts t = .idle r) : (beginRequest s t a).IdInv := by
  have hidle : s.charge (.context t) = none := by
    simp only [Rpc.charge, ht]
    rfl
  unfold beginRequest
  split_ifs with hal
  · exact h.setAct hidle
  · split
    · exact h.setAct hidle
    · rename_i p s' hget
      refine h.getPacket (fun hpid => ?_) hget hidle a
      obtain ⟨hlt, hfree, -⟩ := rpcGetPacket_numbers hget
      have hfull := hok hpid (by simpa using hal) p hlt
      rw [hfree] at hfull
      cases hfull

theorem Rpc.IdInv.claim (h : s.IdInv) (ht : s.acts t = .fetched a p) :
    (claimClient s t a p).IdInv := by
  have hheld : s.charge (.context t) = some (p, none) := by
    simp only [Rpc.charge, ht]
    rfl
  have hlive : s.live p := (h.custody.live_iff p).mpr ⟨_, _, hheld⟩
  unfold claimClient
  split_ifs with hfree
  · refine h.setAct (hheld.trans ?_)
    cases a.op <;> rfl
  · have hnone : s.current a.cd = none := by
      rw [Rpc.current, not_not.mp hfree, ite_self]
    have hptr : (claimedClient (s.clients a.cd) a p (s.packets p).rpcId).pktAddr = some p ∧
        (claimedClient (s.clients a.cd) a p (s.packets p).rpcId).rpcId = (s.packets p).rpcId := by
      unfold claimedClient
      cases a.op <;> exact ⟨rfl, rfl⟩
    refine ⟨?_, h.ids.shrink rfl (fun q hq => ⟨hq, rfl⟩) fun c => ?_⟩
    · rw [charge_setAct, charge_setClient]
      refine (h.custody.name hheld hnone).congr (fun _ => rfl) (fun _ => Iff.rfl) fun c => ?_
      apply Option.ext
      intro q
      rw [current_eq_some, Function.update_apply]
      simp only [Rpc.setAct, Rpc.setClient, Function.update_apply]
      split_ifs with hc
      · rw [hptr.1, hptr.2]
        constructor
        · exact fun hq => hq.1
        · intro hq
          cases hq
          exact ⟨rfl, rfl, hlive.2⟩
      · rw [current_eq_some]
        rfl
    · simp only [Rpc.setAct, Rpc.setClient, Function.update_apply]
      split_ifs
      · rw [hptr.2]
        exact (h.ids.bounds p hlive).2
      · exact h.ids.known c

theorem current_setPacket (s : Rpc) (p : Nat) (v : RpcPacket) (hid : v.rpcId = (s.packets p).rpcId)
    (hrec : v.recId = (s.packets p).recId) (c : Nat) :
    (s.setPacket p v).current c = s.current c := by
  refine current_congr s (s.setPacket p v) rfl (fun k q _ => ?_) c
  simp only [Rpc.allocated, Rpc.setPacket, Function.update_apply]
  split_ifs with hq
  · rw [hid, hrec, hq]
  · rfl

theorem Rpc.IdInv.fillPacket (h : s.IdInv) {v : RpcPacket}
    (hid : v.rpcId = (s.packets p).rpcId) (hrec : v.recId = (s.packets p).recId)
    (hno : ∀ t e, s.acts t ≠ .dropping p e) : (s.setPacket p v).IdInv := by
  have hlive (q : Nat) : (s.setPacket p v).live q ↔ s.live q := by
    simp only [Rpc.live, allocated_setPacket, hrec]
    split_ifs with hq
    · rw [hq]
      rfl
    · rfl
  refine ⟨h.custody.congr (fun x => congrFun (charge_setPacket s p v (.inr hno)) x) hlive
    (current_setPacket s p v hid hrec),
    h.ids.shrink rfl (fun q hq => ⟨(hlive q).mp hq, ?_⟩) h.ids.known⟩
  simp only [Rpc.setPacket, Function.update_apply]
  split_ifs with hq
  · rw [hid, hq]
  · rfl

theorem Rpc.IdInv.send (h : s.IdInv) (ht : s.acts t = .claimed a p) (hm : s.wire m = none)
    (sent : Bool) : (sendRequest s t a p m sent).IdInv := by
  have hctx : s.charge (.context t) = some (p, some a.cd) := by
    simp only [Rpc.charge, ht]
    rfl
  have hmsg : s.charge (.message m) = none := congrArg (Option.map RpcMessage.held) hm
  have hno (u : Nat) (e : RpcError) : s.acts u ≠ .dropping p e := by
    intro hu
    have hheld : ∃ c, s.charge (.context u) = some (p, c) := by
      simp only [Rpc.charge, hu]
      cases e <;> exact ⟨_, rfl⟩
    obtain ⟨c, hc⟩ := hheld
    cases h.custody.unique _ _ p _ _ hc hctx
    rw [ht] at hu
    cases hu
  have hf := h.fillPacket (p := p) (v := { s.packets p with
    op := some a.op, rmode := a.rmode, pktAddr := some p, client := some a.cd,
    server := (s.clients a.cd).server }) rfl rfl hno
  unfold sendRequest
  cases sent with
  | false =>
    -- The packet is given up for its client.
    refine hf.setAct ?_
    rw [charge_setPacket _ _ _ (.inr hno), hctx]
    simp [Activity.charge, Rpc.setPacket]
  | true =>
    have hidle (packets : Nat → RpcPacket) :
        (if a.mode &&& sifRpcMNowait ≠ 0 then Activity.idle 0 else .waiting a.cd).charge packets =
          none := by
      split_ifs <;> rfl
    refine ⟨?_, hf.ids.shrink rfl (fun q hq => ⟨hq, rfl⟩) hf.ids.known⟩
    simp only [Bool.not_true, Bool.false_eq_true, if_false]
    rw [charge_setAct, hidle, charge_wire, Function.update_comm (by simp)]
    refine hf.custody.move ?_ ?_
    · rw [charge_setPacket _ _ _ (.inr hno)]
      exact hctx
    · rw [charge_setPacket _ _ _ (.inr hno)]
      exact hmsg

theorem current_cleared (s : Rpc) (p : Nat) (v : RpcPacket)
    (hv : v.recId = (s.packets p).recId &&& 0xfffffffe) (c : Nat) :
    (s.setPacket p v).current c = if s.current c = some p then none else s.current c := by
  apply Option.ext
  intro q
  rw [current_eq_some, allocated_setPacket, hv, alloc_flag_cleared]
  by_cases hq : q = p
  · subst hq
    simp only [if_true]
    split_ifs with hc
    · simp
    · simp [hc]
  · have hpk : (s.setPacket p v).packets q = s.packets q := Function.update_of_ne hq _ _
    rw [if_neg hq, hpk]
    change (s.clients c).pktAddr = some q ∧ (s.clients c).rpcId = (s.packets q).rpcId ∧
      s.allocated q = true ↔ _
    rw [← current_eq_some]
    split_ifs with hc
    · rw [hc]
      simpa using fun he : p = q => hq he.symm
    · rfl

theorem Rpc.IdInv.clear (h : s.IdInv) {x : Holder} (hx : s.charge x = some (p, c)) {v : RpcPacket}
    (hv : v.recId = (s.packets p).recId &&& 0xfffffffe) (hc : v.client = (s.packets p).client)
    (hw : s'.charge = Function.update (s.setPacket p v).charge x none)
    (hpk : s'.packets = (s.setPacket p v).packets) (hcl : s'.clients = s.clients)
    (hpid : s'.pid = s.pid) : s'.IdInv := by
  have hlive (q : Nat) : s'.live q ↔ q ≠ p ∧ s.live q := by
    rw [← live_cleared s p v hv, Rpc.live, Rpc.allocated, hpk]
    rfl
  have hcurrent (k : Nat) : s'.current k = (s.setPacket p v).current k :=
    current_congr (s.setPacket p v) s' hcl (fun k q _ => by rw [Rpc.allocated, hpk]; rfl) k
  refine ⟨(h.custody.discard hx).congr (fun y => ?_) hlive fun k => ?_,
    h.ids.shrink hpid (fun q hq => ?_) fun k => hcl ▸ h.ids.known k⟩
  · rw [hw, charge_setPacket s p v (.inl hc)]
  · rw [hcurrent, current_cleared s p v hv]
  · obtain ⟨hne, hq⟩ := (hlive q).mp hq
    refine ⟨hq, ?_⟩
    rw [hpk]
    exact congrArg RpcPacket.rpcId (Function.update_of_ne hne _ _)

theorem Rpc.IdInv.free (h : s.IdInv) (ht : s.charge (.context t) = some (p, c)) (r : Int) :
    ((rpcPacketFree s p).setAct t (.idle r)).IdInv :=
  h.clear ht (v := { s.packets p with rpcId := 0, recId := (s.packets p).recId &&& 0xfffffffe })
    rfl rfl (charge_setAct _ _ _) rfl rfl rfl

theorem Rpc.IdInv.requestEnd (h : s.IdInv) (ht : s.acts t = .idle r) (hm : s.wire m = some msg)
    (v : RpcRend) :
    (requestEnd { s with wire := Function.update s.wire m none } t msg v).IdInv := by
  have hmsg : s.charge (.message m) = some (msg.packet, some msg.client) :=
    congrArg (Option.map RpcMessage.held) hm
  have hidle : s.charge (.context t) = none := by
    simp only [Rpc.charge, ht]
    rfl
  have hptr : (s.clients msg.client).pktAddr = some msg.packet :=
    (current_eq_some.mp ((h.custody.named_iff _ _).mpr ⟨_, hmsg⟩)).1
  refine ⟨?_, h.ids.shrink rfl (fun q hq => ⟨hq, rfl⟩) fun k => ?_⟩
  · unfold Sif.requestEnd
    simp only [hptr]
    rw [charge_setAct, charge_setClient, charge_wire]
    have hmoved := h.custody.move hmsg hidle
    refine (hmoved.unname (a := .context t) (Function.update_self ..)).congr (fun x => ?_)
      (fun _ => Iff.rfl) (fun k => ?_)
    · rw [Function.update_idem]
      rfl
    · by_cases hk : k = msg.client
      · rw [hk, Function.update_self, Rpc.current]
        simp [Rpc.setAct, Rpc.setClient]
      · rw [Function.update_of_ne hk]
        simp only [Rpc.current, sifCheckStatRpc, Rpc.setAct, Rpc.setClient,
          Function.update_of_ne hk]
        rfl
  · simp only [Sif.requestEnd, Rpc.setAct, Rpc.setClient, Function.update_apply]
    split_ifs with hk hb
    · exact h.ids.known _
    · exact h.ids.known _
    · exact h.ids.known k

theorem Rpc.IdInv.step {b : RpcAction} (h : s.IdInv) (hok : IdOk s b)
    (hs : rpcStep s b = some s') : s'.IdInv := by
  cases rpcStep_stepped hs with
  | start ht => exact h.begin hok ht
  | claim ht => exact h.claim ht
  | send ht hm => exact h.send ht hm _
  | @drop t p e ht =>
    have hheld : ∃ c, s.charge (.context t) = some (p, c) := by
      simp only [Rpc.charge, ht]
      cases e <;> exact ⟨_, rfl⟩
    obtain ⟨c, hc⟩ := hheld
    exact h.free hc _
  | @wake t cd ht hsema =>
    have hc := h.setClient (c := cd)
      (v := { s.clients cd with semaId := (s.clients cd).semaId - 1 }) rfl rfl
    refine hc.setAct ?_
    rw [charge_setClient]
    simp only [Rpc.charge, ht]
    rfl
  | answer ht hm hr => exact h.requestEnd ht hm _
  | @finish t p f ht =>
    cases p with
    | none =>
      refine h.setAct ?_
      simp only [Rpc.charge, ht]
      rfl
    | some p =>
      refine h.free (c := none) ?_ 0
      simp only [Rpc.charge, ht]
      rfl
  | @clear m msg hm hr =>
    have hmsg : s.charge (.message m) = some (msg.packet, some msg.client) :=
      congrArg (Option.map RpcMessage.held) hm
    refine h.clear hmsg (v := { s.packets msg.packet with
      recId := (s.packets msg.packet).recId &&& 0xfffffffe }) rfl rfl ?_ rfl rfl rfl
    exact charge_wire (s.setPacket msg.packet _) m none

/-- Any interleaving of calls and answers, in which no packet is handed out with the counter at
its end. -/
abbrev Rpc.Numbered : Rpc → Prop :=
  Reach (fun s => s = Rpc.init) (fun s a t => rpcStep s a = some t) IdOk

theorem Rpc.Numbered.inv (h : s.Numbered) : s.IdInv :=
  Reach.invariant h (fun _ hs => hs ▸ Rpc.IdInv.init) fun _ _ _ hi hok hs => hi.step hok hs

/-- A call of client `c` has taken the client but not sent its request, or failed to send it and not
freed the packet. -/
def Rpc.Unsent (s : Rpc) (c : Nat) : Prop :=
  (∃ p, s.Sending c p) ∨ ∃ t p, s.acts t = .dropping p .notSent ∧ (s.packets p).client = some c

theorem unsent_iff (s : Rpc) (c : Nat) :
    s.Unsent c ↔ ∃ t p, s.charge (.context t) = some (p, some c) := by
  constructor
  · rintro (⟨p, t, a, ht, rfl⟩ | ⟨t, p, ht, hc⟩)
    · refine ⟨t, p, ?_⟩
      simp only [Rpc.charge, ht]
      rfl
    · refine ⟨t, p, ?_⟩
      simp only [Rpc.charge, ht, Activity.charge, hc]
  · rintro ⟨t, p, hp⟩
    simp only [Rpc.charge] at hp
    cases hact : s.acts t with
    | claimed a q =>
      rw [hact] at hp
      cases hp
      exact .inl ⟨p, t, a, hact, rfl⟩
    | dropping q e =>
      rw [hact] at hp
      cases e with
      | notSent =>
        simp only [Activity.charge, Option.some.injEq, Prod.mk.injEq] at hp
        exact .inr ⟨t, q, hact, hp.2⟩
      | _ => cases hp
    | ending q f =>
      rw [hact] at hp
      cases q <;> cases hp
    | _ =>
      rw [hact] at hp
      cases hp

theorem inFlight_iff (s : Rpc) (c p : Nat) :
    s.InFlight c p ↔ ∃ m, s.charge (.message m) = some (p, some c) := by
  constructor
  · rintro ⟨m, msg, hm, rfl, rfl⟩
    exact ⟨m, congrArg (Option.map RpcMessage.held) hm⟩
  · rintro ⟨m, hm⟩
    obtain ⟨msg, hw, he⟩ := Option.map_eq_some_iff.mp hm
    cases he
    exact ⟨m, msg, hw, rfl, rfl⟩

theorem Rpc.IdInv.status (h : s.IdInv) (c : Nat) :
    sifCheckStatRpc s c = 1 ↔ (∃ p, s.InFlight c p) ∨ s.Unsent c := by
  simp only [sifCheckStatRpc_iff, h.custody.named_iff, unsent_iff, inFlight_iff]
  constructor
  · rintro ⟨p, x, hx⟩
    cases x with
    | context t => exact .inr ⟨t, p, hx⟩
    | message m => exact .inl ⟨p, m, hx⟩
  · rintro (⟨p, m, hm⟩ | ⟨t, p, ht⟩)
    · exact ⟨p, _, hm⟩
    · exact ⟨p, _, ht⟩

/-- Both at once cannot be: the client names one packet, and one holder is in charge of it. -/
theorem Rpc.IdInv.not_both (h : s.IdInv) (hf : s.InFlight c p) (hu : s.Unsent c) : False := by
  obtain ⟨m, hm⟩ := (inFlight_iff s c p).mp hf
  obtain ⟨t, q, ht⟩ := (unsent_iff s c).mp hu
  have hp : s.current c = some p := (h.custody.named_iff c p).mpr ⟨_, hm⟩
  have hq : s.current c = some q := (h.custody.named_iff c q).mpr ⟨_, ht⟩
  rw [hp] at hq
  cases hq
  cases h.custody.unique _ _ p _ _ hm ht

theorem start_at_end {t : Nat} (hs : rpcStep s (.start t a) = some s')
    (hno : ¬IdOk s (.start t a)) :
    ∃ p < pktTableLen, s'.allocated p = true ∧ (s'.packets p).rpcId = 0 := by
  simp only [IdOk, Classical.not_imp, not_forall] at hno
  obtain ⟨hpid, hal, q, hq, hfree⟩ := hno
  obtain ⟨p, s1, hget, -⟩ := rpcGetPacket_free hq (Bool.eq_false_iff.mpr hfree)
  obtain ⟨hlt, -, hset, -, hid, -⟩ := rpcGetPacket_numbers hget
  simp only [rpcStep] at hs
  split at hs <;> cases hs
  unfold beginRequest
  rw [hal, hget]
  refine ⟨p, hlt, hset, hid.trans ?_⟩
  rw [hpid]
  rfl

/-- As long as no packet is handed out with the counter at its end, packets in use have distinct ids
other than 0, and the query tells whether a request of the client is on its way, except within the
call that is going to send it. The packet handed out with the counter at its end has id 0. -/
theorem rpc_ids_and_status {s : Rpc} (h : s.Numbered) :
    (∀ p < pktTableLen, s.allocated p = true → (s.packets p).rpcId ≠ 0 ∧
      ∀ q < pktTableLen, s.allocated q = true → (s.packets p).rpcId = (s.packets q).rpcId → p = q) ∧
      (∀ c, (sifCheckStatRpc s c = 1 ↔ ∃ p, s.InFlight c p) ↔ ¬s.Unsent c) ∧
      (∀ t a s', rpcStep s (.start t a) = some s' → ¬IdOk s (.start t a) →
        ∃ p < pktTableLen, s'.allocated p = true ∧ (s'.packets p).rpcId = 0) := by
  have hi := h.inv
  refine ⟨fun p hp ha => ⟨fun hz => ?_, fun q hq hb => ?_⟩, fun c => ?_, fun t a s' => start_at_end⟩
  · have hb := (hi.ids.bounds p ⟨hp, ha⟩).1
    omega
  · exact hi.ids.distinct p q ⟨hp, ha⟩ ⟨hq, hb⟩
  · rw [hi.status]
    constructor
    · intro hc hu
      obtain ⟨p, hf⟩ := hc.mp (.inr hu)
      exact hi.not_both hf hu
    · exact fun hu => or_iff_left hu

theorem rpc_ids_and_status_bind :
    ∃ s, rpcRun .init [.start 0 bindSeven, .claim 0, .send 0 0 false] = some s ∧
      (s.packets 0).rpcId ≠ 0 ∧ sifCheckStatRpc s 7 = 1 ∧ s.Unsent 7 := by
  have hr (s : Rpc) (hs : rpcRun .init [.start 0 bindSeven, .claim 0, .send 0 0 false] = some s) :
      s.Numbered := by
    simp only [rpcRun, Option.bind_eq_some_iff] at hs
    obtain ⟨s1, h1, s2, h2, s3, h3, he⟩ := hs
    cases he
    have r1 : s1.Numbered :=
      .next (.start rfl) (a := RpcAction.start 0 bindSeven) (fun h => absurd h (by decide)) h1
    have r2 : s2.Numbered := .next r1 (a := RpcAction.claim 0) trivial h2
    exact .next r2 (a := RpcAction.send 0 0 false) trivial h3
  refine ⟨_, rfl, ((rpc_ids_and_status (hr _ rfl)).1 0 (by decide) rfl).1, rfl, ?_⟩
  exact .inr ⟨0, 0, rfl, rfl⟩

/-- All runs, however long. -/
abbrev Rpc.Ran : Rpc → Prop :=
  Reach (fun s => s = Rpc.init) (fun s a t => rpcStep s a = some t) fun _ _ => True

theorem Rpc.Ran.run (h : s.Ran) {as : List RpcAction} (hr : rpcRun s as = some s') : s'.Ran := by
  induction as generalizing s with
  | nil =>
    cases hr
    exact h
  | cons b bs ih =>
    obtain ⟨s1, h1, h2⟩ := Option.bind_eq_some_iff.mp hr
    exact ih (.next h (a := b) trivial h1) h2

/-- Client 7 is stuck after a failed send, context 0 is idle and packet 0 is free. -/
structure Rpc.Stuck (s : Rpc) : Prop where
  client : ∃ p, (s.clients 7).pktAddr = some p
  idle : ∃ r, s.acts 0 = .idle r
  free : s.allocated 0 = false

/-- Every further call of the client takes a packet and frees it again. -/
theorem Rpc.Stuck.again (h : s.Stuck) (h0 : s.pid ≠ 0) :
    ∃ s', rpcRun s [.start 0 bindSeven, .claim 0, .drop 0] = some s' ∧ s'.Stuck ∧
      s'.pid = u32 (s.pid + 1) := by
  obtain ⟨r, hr⟩ := h.idle
  obtain ⟨q, s1, hget, hcl, -⟩ := rpcGetPacket_free (by decide : 0 < pktTableLen) h.free
  obtain ⟨-, -, -, hpid, -, hother, -, -⟩ := rpcGetPacket_numbers hget
  have h1 : rpcStep s (.start 0 bindSeven) = some (s1.setAct 0 (.fetched bindSeven q)) := by
    simp only [rpcStep, hr, beginRequest, hget]
    rfl
  have h2 : rpcStep (s1.setAct 0 (.fetched bindSeven q)) (.claim 0) =
      some ((s1.setAct 0 (.fetched bindSeven q)).setAct 0 (.dropping q .bindInUse)) := by
    have hc : (s1.clients bindSeven.cd).pktAddr ≠ none := by
      rw [hcl]
      exact Option.ne_none_iff_exists'.mpr h.client
    have hact : (s1.setAct 0 (.fetched bindSeven q)).acts 0 = .fetched bindSeven q := by
      simp [Rpc.setAct]
    simp only [rpcStep, hact]
    exact congrArg some (if_pos hc)
  have h3 : rpcStep ((s1.setAct 0 (.fetched bindSeven q)).setAct 0 (.dropping q .bindInUse))
      (.drop 0) = some ((rpcPacketFree ((s1.setAct 0 (.fetched bindSeven q)).setAct 0
        (.dropping q .bindInUse)) q).setAct 0 (.idle RpcError.bindInUse.ret)) := by
    simp only [rpcStep, Rpc.setAct, Function.update_self]
  refine ⟨_, ((rpcRun_cons h1).trans (rpcRun_cons h2)).trans (rpcRun_cons h3),
    ⟨(congrFun hcl 7).symm ▸ h.client, ⟨RpcError.bindInUse.ret, by simp [Rpc.setAct]⟩, ?_⟩, ?_⟩
  · change (rpcPacketFree s1 q).allocated 0 = false
    rw [rpcPacketFree, allocated_setPacket]
    split_ifs with hq
    · rw [alloc_flag_cleared]
      rfl
    · rw [Rpc.allocated, hother 0 hq]
      exact h.free
  · refine hpid.trans ?_
    rw [nextPid, if_pos h0]

theorem exists_stuck (n : Nat) (hn : n < 2 ^ 32 - 2) :
    ∃ s : Rpc, s.Ran ∧ s.Stuck ∧ s.pid = n + 2 := by
  induction n with
  | zero =>
    have hrun : ∃ s, rpcRun .init [.start 0 bindSeven, .claim 0, .send 0 0 false, .drop 0] =
        some s ∧ s.Stuck ∧ s.pid = 2 :=
      ⟨_, rfl, ⟨⟨_, rfl⟩, ⟨_, rfl⟩, rfl⟩, rfl⟩
    obtain ⟨s, hs, hstuck, hpid⟩ := hrun
    exact ⟨s, Rpc.Ran.run (.start rfl) hs, hstuck, hpid⟩
  | succ n ih =>
    obtain ⟨s, hr, hstuck, hpid⟩ := ih (by omega)
    obtain ⟨s', hrun, hstuck', hpid'⟩ := hstuck.again (by omega)
    refine ⟨s', hr.run hrun, hstuck', ?_⟩
    rw [hpid', hpid, u32_of_lt (by omega)]

/-- After 2^32 - 1 packets the next one gets the id 0. -/
theorem rpc_id_becomes_zero :
    ∃ s : Rpc, s.Ran ∧ ∃ p < pktTableLen, s.allocated p = true ∧ (s.packets p).rpcId = 0 := by
  obtain ⟨s, hr, hstuck, hpid⟩ := exists_stuck (2 ^ 32 - 3) (by decide)
  obtain ⟨r, hact⟩ := hstuck.idle
  have hs : rpcStep s (.start 0 bindSeven) = some (beginRequest s 0 bindSeven) := by
    simp only [rpcStep, hact]
  have hno : ¬IdOk s (.start 0 bindSeven) := by
    intro hok
    have hfull := hok hpid rfl 0 (by decide)
    rw [hstuck.free] at hfull
    cases hfull
  exact ⟨_, .next hr (a := RpcAction.start 0 bindSeven) trivial hs, start_at_end hs hno⟩

end KernelLoader.Sif
