import KernelLoader.Lib.Custody
import KernelLoader.Lib.Reach
import KernelLoader.Sif.Rpc

namespace KernelLoader.Sif
open Lib
set_option autoImplicit true
set_option relaxedAutoImplicit false

/-- Who can be responsible for a packet: a context of the EE, or a request on its way. -/
inductive Holder
  | context (t : Nat)
  | message (m : Nat)
  deriving DecidableEq

/-- The packet a context answers for, and the client in whose name it is allocated. -/
def Activity.held : Activity → Option (Nat × Option Nat)
  | .idle _ => none
  | .fetched _ p => some (p, none)
  | .claimed a p => some (p, some a.cd)
  | .dropping p _ => some (p, none)
  | .waiting _ => none
  | .ending p _ => p.map fun p => (p, none)

def RpcMessage.held (msg : RpcMessage) : Nat × Option Nat := (msg.packet, some msg.client)

def Rpc.held (s : Rpc) : Holder → Option (Nat × Option Nat)
  | .context t => (s.acts t).held
  | .message m => (s.wire m).map RpcMessage.held

def Rpc.live (s : Rpc) (p : Nat) : Prop := p < pktTableLen ∧ s.allocated p = true

def Rpc.named (s : Rpc) (c : Nat) : Option Nat := (s.clients c).pktAddr

/-- Packets are in custody, and every request on its way is one that will be answered. -/
structure Rpc.Inv (s : Rpc) : Prop where
  custody : Custody s.held s.live s.named
  asked : ∀ m msg, s.wire m = some msg → msg.rmode ≠ 0

variable {s s' : Rpc} {a : RpcArgs} {msg : RpcMessage}

@[simp] theorem held_setAct (s : Rpc) (t : Nat) (a : Activity) :
    (s.setAct t a).held = Function.update s.held (.context t) a.held := by
  funext h
  cases h with
  | context u =>
    simp only [Rpc.held, Rpc.setAct, Function.update_apply, Holder.context.injEq]
    split_ifs <;> rfl
  | message m => rfl

@[simp] theorem held_setClient (s : Rpc) (c : Nat) (v : RpcClient) :
    (s.setClient c v).held = s.held := by
  funext h
  cases h <;> rfl

@[simp] theorem held_setPacket (s : Rpc) (p : Nat) (v : RpcPacket) :
    (s.setPacket p v).held = s.held := by
  funext h
  cases h <;> rfl

theorem held_wire (s : Rpc) (m : Nat) (v : Option RpcMessage) :
    ({ s with wire := Function.update s.wire m v } : Rpc).held =
      Function.update s.held (.message m) (v.map RpcMessage.held) := by
  funext h
  cases h with
  | context u => rfl
  | message k =>
    simp only [Rpc.held, Function.update_apply, Holder.message.injEq]
    split_ifs <;> rfl

@[simp] theorem live_setAct (s : Rpc) (t : Nat) (a : Activity) : (s.setAct t a).live = s.live :=
  rfl

@[simp] theorem live_setClient (s : Rpc) (c : Nat) (v : RpcClient) :
    (s.setClient c v).live = s.live :=
  rfl

@[simp] theorem named_setAct (s : Rpc) (t : Nat) (a : Activity) :
    (s.setAct t a).named = s.named :=
  rfl

@[simp] theorem named_setPacket (s : Rpc) (p : Nat) (v : RpcPacket) :
    (s.setPacket p v).named = s.named :=
  rfl

@[simp] theorem named_setClient (s : Rpc) (c : Nat) (v : RpcClient) :
    (s.setClient c v).named = Function.update s.named c v.pktAddr := by
  funext k
  simp only [Rpc.named, Rpc.setClient, Function.update_apply]
  split_ifs <;> rfl

theorem allocated_setPacket (s : Rpc) (p q : Nat) (v : RpcPacket) :
    (s.setPacket p v).allocated q =
      if q = p then v.recId &&& packetFAlloc != 0 else s.allocated q := by
  simp only [Rpc.allocated, Rpc.setPacket, Function.update_apply]
  split_ifs <;> rfl

theorem alloc_flag_set (rid : Nat) :
    (rid <<< 16 ||| 0x04 ||| packetFAlloc) &&& packetFAlloc ≠ 0 := by
  have h : (rid <<< 16 ||| 0x04 ||| packetFAlloc).testBit 0 = true := by
    rw [Nat.testBit_or]
    exact Bool.or_true _
  rw [packetFAlloc, Nat.and_one_is_mod]
  rw [Nat.testBit_zero, packetFAlloc] at h
  simp only [decide_eq_true_eq] at h
  omega

theorem alloc_flag_cleared (r : Nat) : (r &&& 0xfffffffe) &&& packetFAlloc = 0 := by
  rw [Nat.and_assoc]
  exact Nat.and_zero r

theorem live_cleared (s : Rpc) (p : Nat) (v : RpcPacket)
    (hv : v.recId = (s.packets p).recId &&& 0xfffffffe) (q : Nat) :
    (s.setPacket p v).live q ↔ q ≠ p ∧ s.live q := by
  simp only [Rpc.live, allocated_setPacket, hv, alloc_flag_cleared]
  split_ifs with h <;> simp [h]

theorem findPacket_some {rid : Nat} (h : findPacket s rid n = some p) :
    rid ≤ p ∧ p < rid + n ∧ s.allocated p = false := by
  induction n generalizing rid with
  | zero => cases h
  | succ n ih =>
    unfold findPacket at h
    split_ifs at h with ha
    · obtain ⟨h1, h2, h3⟩ := ih h
      exact ⟨by omega, by omega, h3⟩
    · cases h
      exact ⟨Nat.le_refl _, by omega, by simpa using ha⟩

theorem findPacket_free {rid : Nat} (hp : rid ≤ p) (hp' : p < rid + n)
    (hf : s.allocated p = false) : ∃ q, findPacket s rid n = some q := by
  induction n generalizing rid with
  | zero => omega
  | succ n ih =>
    unfold findPacket
    split_ifs with ha
    · apply ih
      · rcases Nat.lt_or_eq_of_le hp with h | rfl
        · exact h
        · rw [hf] at ha
          cases ha
      · omega
    · exact ⟨rid, rfl⟩

theorem rpcGetPacket_spec (h : rpcGetPacket s = some (p, s')) :
    ¬s.live p ∧ (∀ q, s'.live q ↔ q = p ∨ s.live q) ∧ s'.held = s.held ∧ s'.named = s.named ∧
      s'.wire = s.wire ∧ s'.acts = s.acts := by
  unfold rpcGetPacket at h
  split at h
  · cases h
  · rename_i rid hf
    obtain ⟨-, hlt, hfree⟩ := findPacket_some hf
    simp only [Option.some.injEq, Prod.mk.injEq] at h
    obtain ⟨rfl, rfl⟩ := h
    refine ⟨?_, fun q => ?_, ?_, rfl, rfl, rfl⟩
    · rw [Rpc.live, hfree]
      simp
    · simp only [Rpc.live, allocated_setPacket]
      split_ifs with hq
      · subst hq
        simp only [true_or, iff_true, bne_iff_ne]
        exact ⟨by omega, alloc_flag_set q⟩
      · simp only [hq, false_or]
        rfl
    · rw [held_setPacket]
      funext h
      cases h <;> rfl

theorem Rpc.Inv.setAct_none (h : s.Inv) (ht : s.held (.context t) = none) {a : Activity}
    (ha : a.held = none) : (s.setAct t a).Inv := by
  refine ⟨?_, h.asked⟩
  rw [held_setAct, ha, Function.update_eq_self_iff.mpr ht.symm]
  exact h.custody

theorem Rpc.Inv.setClient (h : s.Inv) {v : RpcClient} (hv : v.pktAddr = (s.clients c).pktAddr) :
    (s.setClient c v).Inv := by
  refine ⟨?_, h.asked⟩
  rw [held_setClient, named_setClient, Function.update_eq_self_iff.mpr hv]
  exact h.custody

theorem Rpc.Inv.fillPacket (h : s.Inv) {v : RpcPacket} (hv : v.recId = (s.packets p).recId) :
    (s.setPacket p v).Inv := by
  refine ⟨h.custody.congr (fun x => ?_) (fun q => ?_) (fun _ => rfl), h.asked⟩
  · rw [held_setPacket]
  · simp only [Rpc.live, allocated_setPacket, hv]
    split_ifs with hq
    · rw [hq]
      rfl
    · rfl

theorem Rpc.Inv.begin (h : s.Inv) (ht : s.held (.context t) = none) (a : RpcArgs) :
    (beginRequest s t a).Inv := by
  unfold beginRequest
  split_ifs
  · exact h.setAct_none ht rfl
  · split
    · exact h.setAct_none ht rfl
    · rename_i p s' hget
      obtain ⟨hfree, hlive, hheld, hnamed, hwire, hacts⟩ := rpcGetPacket_spec hget
      refine ⟨?_, fun m msg hm => h.asked m msg (hwire ▸ hm)⟩
      rw [held_setAct, hheld, named_setAct, hnamed]
      exact (h.custody.acquire ht hfree).congr (fun _ => rfl) hlive (fun _ => rfl)

theorem Rpc.Inv.claim (h : s.Inv) (ht : s.acts t = .fetched a p) : (claimClient s t a p).Inv := by
  have hheld : s.held (.context t) = some (p, none) := congrArg Activity.held ht
  refine ⟨?_, fun m msg hm => h.asked m msg ?_⟩
  · unfold claimClient
    split_ifs with hfree
    · rw [held_setAct]
      exact h.custody.congr
        (fun x => congrFun (Function.update_eq_self_iff.mpr hheld.symm) x)
        (fun _ => Iff.rfl) (fun _ => rfl)
    · have hnone : s.named a.cd = none := not_not.mp hfree
      have hptr : (claimedClient (s.clients a.cd) a p (s.packets p).rpcId).pktAddr = some p := by
        unfold claimedClient
        cases a.op <;> rfl
      rw [held_setAct, held_setClient, live_setAct, live_setClient, named_setAct, named_setClient,
        hptr]
      exact h.custody.name hheld hnone
  · unfold claimClient at hm
    split_ifs at hm <;> exact hm

theorem Rpc.Inv.send (h : s.Inv) (ht : s.acts t = .claimed a p) (hm : s.wire m = none)
    (ha : a.rmode ≠ 0) : (sendRequest s t a p m true).Inv := by
  have hf := h.fillPacket (p := p) (v := { s.packets p with
    op := some a.op, rmode := a.rmode, pktAddr := some p, client := some a.cd,
    server := (s.clients a.cd).server }) rfl
  have hctx : s.held (.context t) = some (p, some a.cd) := congrArg Activity.held ht
  have hmsg : s.held (.message m) = none := congrArg (Option.map RpcMessage.held) hm
  have hidle : (if a.mode &&& sifRpcMNowait ≠ 0 then Activity.idle 0 else .waiting a.cd).held =
      none := by
    split_ifs <;> rfl
  unfold sendRequest
  simp only [Bool.not_true, Bool.false_eq_true, if_false]
  refine ⟨?_, fun k msg hk => ?_⟩
  · rw [held_setAct, hidle, held_wire, Function.update_comm (by simp)]
    exact hf.custody.move (by rw [held_setPacket]; exact hctx) (by rw [held_setPacket]; exact hmsg)
  · simp only [Rpc.setAct, Function.update_apply] at hk
    split_ifs at hk
    · cases hk
      exact ha
    · exact h.asked k msg hk

theorem Rpc.Inv.free (h : s.Inv) (ht : s.held (.context t) = some (p, none)) {a : Activity}
    (ha : a.held = none) : ((rpcPacketFree s p).setAct t a).Inv := by
  refine ⟨?_, h.asked⟩
  rw [held_setAct, ha, rpcPacketFree, held_setPacket]
  exact (h.custody.release ht).congr (fun _ => rfl) (live_cleared s p _ rfl) (fun _ => rfl)

/-- The context of `_request_end` takes the packet over from the request, and the client is free
before the end function runs. -/
theorem Rpc.Inv.requestEnd (h : s.Inv) (ht : s.held (.context t) = none) (hm : s.wire m = some msg)
    (r : RpcRend) :
    (requestEnd { s with wire := Function.update s.wire m none } t msg r).Inv := by
  have hmsg : s.held (.message m) = some (msg.packet, some msg.client) :=
    congrArg (Option.map RpcMessage.held) hm
  have hptr : (s.clients msg.client).pktAddr = some msg.packet :=
    (h.custody.named_iff _ _).mpr ⟨_, hmsg⟩
  refine ⟨?_, fun k v hk => ?_⟩
  · unfold Sif.requestEnd
    simp only [hptr]
    rw [held_setAct, held_setClient, held_wire, named_setAct, named_setClient]
    have hmoved := h.custody.move hmsg ht
    refine (hmoved.unname (a := .context t) (Function.update_self ..)).congr (fun x => ?_)
      (fun _ => Iff.rfl) (fun _ => rfl)
    rw [Function.update_idem]
    rfl
  · simp only [Sif.requestEnd, Rpc.setAct, Rpc.setClient, Function.update_apply] at hk
    split_ifs at hk
    exact h.asked k v hk

/-- Nothing is sent in vain: `SifSendCmd` succeeds, and the request asks for an answer. -/
def SendOk (s : Rpc) : RpcAction → Prop
  | .send t _ sent => sent = true ∧ ∀ a p, s.acts t = .claimed a p → a.rmode ≠ 0
  | _ => True

theorem Rpc.Inv.init : Rpc.init.Inv := by
  refine ⟨Custody.empty.congr ?_ ?_ (fun _ => rfl), fun _ _ hm => by cases hm⟩
  · intro h
    cases h <;> rfl
  · exact fun x => ⟨fun hl => by simp [Rpc.live, Rpc.allocated, Rpc.init, RpcPacket.zero] at hl,
      False.elim⟩

theorem Rpc.Inv.step {a : RpcAction} (h : s.Inv) (hok : SendOk s a) (hs : rpcStep s a = some s') :
    s'.Inv := by
  cases rpcStep_stepped hs with
  | start ht => exact h.begin (by simp [ht, Rpc.held, Activity.held]) _
  | claim ht => exact h.claim ht
  | send ht hm =>
    obtain ⟨rfl, hasked⟩ := hok
    exact h.send ht hm (hasked _ _ ht)
  | drop ht => exact h.free (by simp [ht, Rpc.held, Activity.held]) rfl
  | @wake t cd ht hsema =>
    have hc := h.setClient (c := cd)
      (v := { s.clients cd with semaId := (s.clients cd).semaId - 1 }) rfl
    refine hc.setAct_none ?_ rfl
    exact (congrFun (held_setClient ..) _).trans (congrArg Activity.held ht)
  | answer ht hm hr => exact h.requestEnd (by simp [ht, Rpc.held, Activity.held]) hm _
  | @finish t p f ht =>
    cases p with
    | none => exact h.setAct_none (by simp [ht, Rpc.held, Activity.held]) rfl
    | some p => exact h.free (by simp [ht, Rpc.held, Activity.held]) rfl
  | clear hm hr =>
    -- every request asks for an answer
    exact absurd hr (h.asked _ _ hm)

/-- Any interleaving of calls and answers from the initial state, with every request sent. -/
abbrev Rpc.Reachable : Rpc → Prop :=
  Reach (fun s => s = Rpc.init) (fun s a t => rpcStep s a = some t) SendOk

theorem Rpc.Reachable.inv (h : s.Reachable) : s.Inv :=
  Reach.invariant h (fun _ hs => hs ▸ Rpc.Inv.init) (fun _ _ _ hi hok hs => hi.step hok hs)

/-- A request of a call that has its packet but is not recorded in the client. -/
def Rpc.Underway (s : Rpc) (p : Nat) : Prop :=
  ∃ t, (∃ a, s.acts t = .fetched a p) ∨ ∃ e, s.acts t = .dropping p e

/-- A request of client `c` with packet `p` that is still to be answered. -/
def Rpc.InFlight (s : Rpc) (c p : Nat) : Prop :=
  ∃ m msg, s.wire m = some msg ∧ msg.client = c ∧ msg.packet = p

/-- A call of client `c` that is about to send packet `p`. -/
def Rpc.Sending (s : Rpc) (c p : Nat) : Prop := ∃ t a, s.acts t = .claimed a p ∧ a.cd = c

theorem held_named_iff (s : Rpc) (c p : Nat) :
    (∃ h, s.held h = some (p, some c)) ↔ s.InFlight c p ∨ s.Sending c p := by
  constructor
  · rintro ⟨h | h, hh⟩
    · right
      revert hh
      simp only [Rpc.held]
      cases hact : s.acts h with
      | claimed a q =>
        intro hh
        cases hh
        exact ⟨h, a, hact, rfl⟩
      | ending q f => cases q <;> simp [Activity.held]
      | _ => simp [Activity.held]
    · obtain ⟨msg, hm, he⟩ := Option.map_eq_some_iff.mp hh
      cases he
      exact .inl ⟨h, msg, hm, rfl, rfl⟩
  · rintro (⟨m, msg, hm, rfl, rfl⟩ | ⟨t, a, ht, rfl⟩)
    · exact ⟨.message m, congrArg (Option.map RpcMessage.held) hm⟩
    · exact ⟨.context t, congrArg Activity.held ht⟩

theorem held_unnamed (hh : s.held h = some (p, none)) :
    s.Underway p ∨ ∃ t f, s.acts t = .ending (some p) f := by
  cases h with
  | context t =>
    revert hh
    simp only [Rpc.held]
    cases hact : s.acts t with
    | fetched a q =>
      intro hh
      cases hh
      exact .inl ⟨t, .inl ⟨a, hact⟩⟩
    | dropping q e =>
      intro hh
      cases hh
      exact .inl ⟨t, .inr ⟨e, hact⟩⟩
    | ending q f =>
      cases q with
      | none => simp [Activity.held]
      | some q =>
        intro hh
        cases hh
        exact .inr ⟨t, f, hact⟩
    | _ => simp [Activity.held]
  | message m =>
    obtain ⟨msg, -, he⟩ := Option.map_eq_some_iff.mp hh
    cases he

theorem Rpc.Inv.owner (h : s.Inv) (hl : s.live p) :
    (∃! c, (s.clients c).pktAddr = some p) ∨
      (∀ c, (s.clients c).pktAddr ≠ some p) ∧
        ((∃ t f, s.acts t = .ending (some p) f) ∨ s.Underway p) := by
  obtain ⟨x, o, hx⟩ := (h.custody.live_iff p).mp hl
  cases o with
  | some c =>
    have hc : s.named c = some p := (h.custody.named_iff c p).mpr ⟨x, hx⟩
    exact .inl ⟨c, hc, fun c' hc' => h.custody.named_unique hc' hc⟩
  | none => exact .inr ⟨h.custody.not_named hx, (held_unnamed hx).symm⟩

theorem Rpc.Inv.pointer (h : s.Inv) (hc : (s.clients c).pktAddr = some p) :
    s.live p ∧ (s.InFlight c p ∨ s.Sending c p) :=
  ⟨h.custody.named_live (k := c) hc, (held_named_iff s c p).mp ((h.custody.named_iff c p).mp hc)⟩

theorem Rpc.Inv.idle_client (h : s.Inv) (hf : ∀ p, ¬s.InFlight c p) (hs : ∀ p, ¬s.Sending c p) :
    (s.clients c).pktAddr = none := by
  by_contra hne
  obtain ⟨p, hp⟩ := Option.ne_none_iff_exists'.mp hne
  rcases (h.pointer hp).2 with hi | hi
  · exact hf p hi
  · exact hs p hi

theorem rpcGetPacket_free (hp : p < pktTableLen) (hf : s.allocated p = false) :
    ∃ q s', rpcGetPacket s = some (q, s') ∧ s'.clients = s.clients ∧ s'.wire = s.wire := by
  obtain ⟨q, hq⟩ := findPacket_free (Nat.zero_le p) (by omega : p < 0 + pktTableLen) hf
  unfold rpcGetPacket
  rw [hq]
  exact ⟨q, _, rfl, rfl, rfl⟩

theorem rpcRun_cons {b : RpcAction} {bs : List RpcAction} (h : rpcStep s b = some s') :
    rpcRun s (b :: bs) = rpcRun s' bs := by
  simp only [rpcRun, h, Option.bind_some]

theorem request_goes_out (hc : (s.clients a.cd).pktAddr = none) (hp : p < pktTableLen)
    (hf : s.allocated p = false) (ha : a.op.aligned = true)
    (hw : a.mode &&& sifRpcMNowait ≠ 0) (ht : s.acts t = .idle r) (hm : s.wire m = none) :
    ∃ s' q, rpcRun s [.start t a, .claim t, .send t m true] = some s' ∧ s'.acts t = .idle 0 ∧
      s'.wire m = some ⟨a.op.cid, q, a.cd, a.rmode⟩ := by
  obtain ⟨q, s1, hget, hcl, hwi⟩ := rpcGetPacket_free hp hf
  have h1 : rpcStep s (.start t a) = some (s1.setAct t (.fetched a q)) := by
    simp [rpcStep, ht, beginRequest, ha, hget]
  have h2 : rpcStep (s1.setAct t (.fetched a q)) (.claim t) =
      some (claimClient (s1.setAct t (.fetched a q)) t a q) := by
    simp [rpcStep, Rpc.setAct]
  have hacts : (claimClient (s1.setAct t (.fetched a q)) t a q).acts t = .claimed a q := by
    simp [claimClient, Rpc.setAct, Rpc.setClient, hcl, hc]
  have hwire : (claimClient (s1.setAct t (.fetched a q)) t a q).wire m = none := by
    simp [claimClient, Rpc.setAct, Rpc.setClient, hcl, hc, hwi, hm]
  have h3 : rpcStep (claimClient (s1.setAct t (.fetched a q)) t a q) (.send t m true) =
      some (sendRequest (claimClient (s1.setAct t (.fetched a q)) t a q) t a q m true) := by
    simp [rpcStep, hacts, hwire]
  refine ⟨sendRequest (claimClient (s1.setAct t (.fetched a q)) t a q) t a q m true, q, ?_, ?_, ?_⟩
  · rw [rpcRun_cons h1, rpcRun_cons h2, rpcRun_cons h3]
    rfl
  · simp [sendRequest, Rpc.setAct, hw]
  · simp [sendRequest, Rpc.setAct]

/-- A request that cannot be sent, or that asks for no answer, leaves its client behind. -/
theorem client_left_behind (hp : (s.clients c).pktAddr = some p) (v : RpcPacket)
    (hv : v.recId = (s.packets p).recId &&& 0xfffffffe) :
    ((s.setPacket p v).clients c).pktAddr = some p ∧ (s.setPacket p v).allocated p = false := by
  refine ⟨hp, ?_⟩
  rw [allocated_setPacket, if_pos rfl, hv, alloc_flag_cleared]
  rfl

theorem send_failure_strands (hi : s.Inv) (ht : s.acts t = .claimed a p) (hm : s.wire m = none) :
    ∃ s', rpcRun s [.send t m false, .drop t] = some s' ∧ (s'.clients a.cd).pktAddr = some p ∧
      s'.allocated p = false := by
  have hp : (s.clients a.cd).pktAddr = some p :=
    (hi.custody.named_iff a.cd p).mpr ⟨.context t, congrArg Activity.held ht⟩
  have h1 : rpcStep s (.send t m false) = some (sendRequest s t a p m false) := by
    simp [rpcStep, ht, hm]
  have h2 : rpcStep (sendRequest s t a p m false) (.drop t) =
      some ((rpcPacketFree (sendRequest s t a p m false) p).setAct t
        (.idle RpcError.notSent.ret)) := by
    simp [rpcStep, sendRequest, Rpc.setAct]
  refine ⟨_, (rpcRun_cons h1).trans (rpcRun_cons h2), ?_⟩
  exact client_left_behind (s := sendRequest s t a p m false) hp _ rfl

theorem unanswered_strands (hi : s.Inv) (ht : s.acts t = .claimed a p) (hm : s.wire m = none)
    (ha : a.rmode = 0) :
    ∃ s', rpcRun s [.send t m true, .clear m] = some s' ∧ (s'.clients a.cd).pktAddr = some p ∧
      s'.allocated p = false := by
  have hp : (s.clients a.cd).pktAddr = some p :=
    (hi.custody.named_iff a.cd p).mpr ⟨.context t, congrArg Activity.held ht⟩
  have h1 : rpcStep s (.send t m true) = some (sendRequest s t a p m true) := by
    simp [rpcStep, ht, hm]
  have hw : (sendRequest s t a p m true).wire m = some ⟨a.op.cid, p, a.cd, a.rmode⟩ := by
    simp [sendRequest, Rpc.setAct]
  let s1 : Rpc := { sendRequest s t a p m true with
    wire := Function.update (sendRequest s t a p m true).wire m none }
  have h2 : rpcStep (sendRequest s t a p m true) (.clear m) = some (s1.setPacket p
      { s1.packets p with recId := (s1.packets p).recId &&& 0xfffffffe }) := by
    simp only [rpcStep, hw, ha, if_true]
    rfl
  exact ⟨_, (rpcRun_cons h1).trans (rpcRun_cons h2), client_left_behind (s := s1) hp _ rfl⟩

/-- In every run in which no request is sent in vain, each allocated packet has one owner and
each client points to a packet whose request is to be answered, so a client without a request
can issue one. A request sent in vain leaves its client pointing to a free packet. -/
theorem rpc_packets_owned {s : Rpc} (h : s.Reachable) :
    (∀ p < pktTableLen, s.allocated p = true →
      (∃! c, (s.clients c).pktAddr = some p) ∨
        (∀ c, (s.clients c).pktAddr ≠ some p) ∧
          ((∃ t f, s.acts t = .ending (some p) f) ∨ s.Underway p)) ∧
      (∀ c p, (s.clients c).pktAddr = some p →
        p < pktTableLen ∧ s.allocated p = true ∧ (s.InFlight c p ∨ s.Sending c p)) ∧
      (∀ (a : RpcArgs) (t m p : Nat) (r : Int), (∀ q, ¬s.InFlight a.cd q) →
        (∀ q, ¬s.Sending a.cd q) → p < pktTableLen → s.allocated p = false →
        a.op.aligned = true → a.mode &&& sifRpcMNowait ≠ 0 → s.acts t = .idle r →
        s.wire m = none →
        ∃ s' q, rpcRun s [.start t a, .claim t, .send t m true] = some s' ∧ s'.acts t = .idle 0 ∧
          s'.wire m = some ⟨a.op.cid, q, a.cd, a.rmode⟩) ∧
      (∀ (a : RpcArgs) (t m p : Nat), s.acts t = .claimed a p → s.wire m = none →
        (∃ s', rpcRun s [.send t m false, .drop t] = some s' ∧
          (s'.clients a.cd).pktAddr = some p ∧ s'.allocated p = false) ∧
        (a.rmode = 0 → ∃ s', rpcRun s [.send t m true, .clear m] = some s' ∧
          (s'.clients a.cd).pktAddr = some p ∧ s'.allocated p = false)) := by
  have hi := h.inv
  refine ⟨fun p hp ha => hi.owner ⟨hp, ha⟩, ?_, ?_, ?_⟩
  · intro c p hc
    obtain ⟨⟨hp, ha⟩, hreq⟩ := hi.pointer hc
    exact ⟨hp, ha, hreq⟩
  · intro a t m p r hf hs hp hfree hal hw ht hm
    exact request_goes_out (hi.idle_client hf hs) hp hfree hal hw ht hm
  · intro a t m p ht hm
    exact ⟨send_failure_strands hi ht hm, unanswered_strands hi ht hm⟩

/-- A bind of client 7 without waiting. -/
def bindSeven : RpcArgs := ⟨7, .bind 0x80000592, sifRpcMNowait, some 0x1000, 0⟩

theorem rpc_packets_owned_after_bind :
    ∃ s, rpcRun .init [.start 0 bindSeven, .claim 0, .send 0 0 true] = some s ∧
      (s.clients 7).pktAddr = some 0 ∧ (s.InFlight 7 0 ∨ s.Sending 7 0) := by
  have hr (s : Rpc) (hs : rpcRun .init [.start 0 bindSeven, .claim 0, .send 0 0 true] = some s) :
      s.Reachable := by
    simp only [rpcRun, Option.bind_eq_some_iff] at hs
    obtain ⟨s1, h1, s2, h2, s3, h3, he⟩ := hs
    cases he
    have r1 : s1.Reachable := .next (.start rfl) (a := RpcAction.start 0 bindSeven) trivial h1
    have r2 : s2.Reachable := .next r1 (a := RpcAction.claim 0) trivial h2
    refine .next r2 (a := RpcAction.send 0 0 true) ⟨rfl, ?_⟩ h3
    cases h1
    cases h2
    rintro a p ⟨⟩
    decide
  exact ⟨_, rfl, rfl, ((rpc_packets_owned (hr _ rfl)).2.1 7 0 rfl).2.2⟩

/-- The send fails: client 7 keeps pointing to the packet that was freed, and is refused from
then on although a packet is free. -/
theorem rpc_client_stuck_after_failed_send :
    ∃ s, rpcRun .init [.start 0 bindSeven, .claim 0, .send 0 0 false, .drop 0] = some s ∧
      (s.clients 7).pktAddr = some 0 ∧ s.allocated 0 = false ∧ s.wire 0 = none ∧
      ∃ s', rpcRun s [.start 0 bindSeven, .claim 0, .drop 0] = some s' ∧
        s'.acts 0 = .idle RpcError.bindInUse.ret :=
  ⟨_, rfl, rfl, rfl, rfl, _, rfl, rfl⟩

end KernelLoader.Sif
