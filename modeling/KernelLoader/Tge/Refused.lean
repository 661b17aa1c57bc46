import KernelLoader.Tge.Pad
import KernelLoader.Tge.Sound
import KernelLoader.Lib.Solo

namespace KernelLoader.Tge
open Lib Lib.Async
set_option autoImplicit true
set_option relaxedAutoImplicit false

namespace Pad

/-- What a refused request must leave as it was. -/
def Vars.Frame (s s' : Vars) : Prop := s'.buffer = s.buffer ∧ s'.padState = s.padState

/-- The bytes are in the buffer already. -/
def Vars.Holds (s : Vars) (stores : List (List (Nat × UInt8))) : Prop :=
  ∀ w ∈ stores.flatten, s.buffer w.1 = w.2

/-- What a call stores before its request is there already. -/
def Call.Stored (cfg : Config) (s : Vars) : Call → Prop
  | .padinit =>
    if s.padInitialiseCounter = 0 then
      ∀ port < 2, ∀ slot < 8, (s.padState port slot).clear = s.padState port slot
    else if s.padInitialiseCounter = 1 then True
    else if s.padInitialiseCounter = 2 then s.Holds [word 0 padRpccmdGetModver]
    else s.Holds [word 0 padRpccmdInit, word 16 cfg.openSlot]
  | .padend => s.Holds [word 0 (padRpccmdEnd cfg)]
  | .padportopen port slot addr =>
    s.Holds [word 0 (padRpccmdOpen cfg), word 4 port, word 8 slot, word 16 addr]
  | .padportclose port slot =>
    s.Holds [word 0 (padRpccmdClose cfg), word 4 port, word 8 slot, word 16 1]
  | .padsetmainmode port slot offset lock =>
    s.Holds
      [word 0 (padRpccmdSetMmode cfg), word 4 port, word 8 slot, word 12 offset, word 16 lock]
  | .padinfopressmode port slot =>
    s.Holds [word 0 (padRpccmdGetBtnmask cfg), word 4 port, word 8 slot]
  | .padenterpressmode port slot =>
    s.Holds [word 0 (padRpccmdSetBtninfo cfg), word 4 port, word 8 slot, word 12 0xfff]
  | .padexitpressmode port slot =>
    s.Holds [word 0 (padRpccmdSetBtninfo cfg), word 4 port, word 8 slot, word 12 0]
  | .padsetactalign port slot data =>
    s.Holds ([word 0 (padRpccmdSetActalign cfg), word 4 port, word 8 slot] ++ actBytes data)
  | .padsetactdirect port slot data =>
    s.Holds ([word 0 (padRpccmdSetActdir cfg), word 4 port, word 8 slot] ++ actBytes data)
  | .padinfomode port slot term offset =>
    s.Holds [word 0 padRpccmdInfoMode, word 4 port, word 8 slot, word 12 term, word 16 offset]
  | .padinfoact port slot actno term =>
    s.Holds [word 0 padRpccmdInfoAct, word 4 port, word 8 slot, word 12 actno, word 16 term]

section Code
variable {s s' : Vars} {b : Bool} {r : Int}

theorem foldl_store (stores : List (List (Nat × UInt8))) (s : Vars) :
    (stores.map store).foldl (fun s f => f s) s =
      { s with buffer := storeAll s.buffer stores.flatten } := by
  induction stores generalizing s with
  | nil => rfl
  | cons bytes stores ih =>
    rw [List.map_cons, List.foldl_cons, ih, List.flatten_cons, storeAll_append]
    rfl

theorem command_frame {stores : List (List (Nat × UInt8))} {endfunc : EndFunc} {accepted : Code}
    {refused : Int} (hd : (stores.flatten.map Prod.fst).Nodup)
    (h : (command stores endfunc accepted refused).Quits s b r s') :
    s.Frame s' ↔ s.Holds stores := by
  obtain ⟨-, b', -, -, rfl⟩ := Prog.quits_acts.mp h
  rw [foldl_store]
  exact (and_iff_left rfl).trans (storeAll_eq_self_iff hd)

theorem foldl_clearSlot (n : Nat) (s : Vars) :
    ((List.range n).map clearSlot).foldl (fun s f => f s) s =
      { s with
        padState := fun p q =>
          if p < 2 ∧ q < n then (s.padState p q).clear else s.padState p q } := by
  induction n with
  | zero => simp
  | succ n ih =>
    rw [List.range_succ, List.map_append, List.foldl_append, ih]
    simp only [List.map_cons, List.map_nil, List.foldl_cons, List.foldl_nil, clearSlot, setPadState]
    congr 1
    funext p q
    split_ifs <;> first | rfl | omega

/-- A refused bind of the first stage has cleared the state of all ports. -/
theorem padinit_frame {client sid : Nat}
    (h : (Prog.acts ([setServer 0 0, setServer 1 0] ++ (List.range 8).map clearSlot)
      (bind client sid)).Quits s b r s') :
    s.Frame s' ↔ ∀ port < 2, ∀ slot < 8, (s.padState port slot).clear = s.padState port slot := by
  obtain ⟨-, b', -, -, rfl⟩ := Prog.quits_acts.mp h
  rw [List.foldl_append, foldl_clearSlot]
  refine (and_iff_right rfl).trans (funext_iff.trans (forall_congr' fun port => ?_))
  rw [funext_iff]
  constructor
  · intro heq hport slot hslot
    exact (if_pos ⟨hport, hslot⟩).symm.trans (heq slot)
  · intro heq slot
    by_cases hin : port < 2 ∧ slot < 8
    · exact (if_pos hin).trans (heq hin.1 slot hin.2)
    · exact if_neg hin

theorem padinitStage_frame (cfg : Config)
    (h : (padinitStage cfg s.padInitialiseCounter).Quits s true r s') :
    s.Frame s' ↔ Call.padinit.Stored cfg s := by
  unfold padinitStage at h
  unfold Call.Stored
  by_cases h0 : s.padInitialiseCounter = 0
  · rw [if_pos h0] at h ⊢
    exact padinit_frame h
  rw [if_neg h0] at h ⊢
  by_cases h1 : s.padInitialiseCounter = 1
  · rw [if_pos h1] at h ⊢
    obtain ⟨-, b', -, -, rfl⟩ := h
    exact iff_of_true ⟨rfl, rfl⟩ trivial
  rw [if_neg h1] at h ⊢
  split_ifs at h with h2 h3
  · rw [if_pos h2.2]
    exact command_frame (by decide : (List.range 4).Nodup) h
  · have hne : s.padInitialiseCounter ≠ 2 := by omega
    rw [if_neg hne]
    exact command_frame (by decide : (List.range 4 ++ List.range' 16 4).Nodup) h
  · exact Bool.noConfusion h.1

/-- A call that is refused leaves the buffer and the state of the ports as they were exactly if what
it stores was there already. -/
theorem Call.refused_frame (cfg : Config) {call : Call} (h : (call.body cfg).Quits s true r s') :
    s.Frame s' ↔ call.Stored cfg s := by
  cases call with
  | padinit => exact padinitStage_frame cfg h
  | padend =>
    exact command_frame (by decide : (List.range 4).Nodup) h
  | padportopen port slot addr =>
    rw [Call.body, sbcallPadportopen] at h
    split_ifs at h
    · exact Bool.noConfusion h.1
    · exact command_frame (by decide : (List.range 12 ++ List.range' 16 4).Nodup) h
  | padportclose port slot =>
    exact command_frame (by decide : (List.range 12 ++ List.range' 16 4).Nodup) h
  | padsetmainmode port slot offset lock =>
    exact command_frame (by decide : (List.range 20).Nodup) h
  | padinfopressmode port slot => exact command_frame (by decide : (List.range 12).Nodup) h
  | padenterpressmode port slot => exact command_frame (by decide : (List.range 16).Nodup) h
  | padexitpressmode port slot => exact command_frame (by decide : (List.range 16).Nodup) h
  | padsetactalign port slot data => exact command_frame (by decide : (List.range 18).Nodup) h
  | padsetactdirect port slot data => exact command_frame (by decide : (List.range 18).Nodup) h
  | padinfomode port slot term offset =>
    rw [Call.body, sbcallPadinfomode, query] at h
    split_ifs at h
    · exact command_frame (by decide : (List.range 20).Nodup) h
    · obtain ⟨x, hb, -⟩ := h
      exact Bool.noConfusion hb
  | padinfoact port slot actno term =>
    rw [Call.body, sbcallPadinfoact, query] at h
    split_ifs at h
    · exact command_frame (by decide : (List.range 20).Nodup) h
    · obtain ⟨x, hb, -⟩ := h
      exact Bool.noConfusion hb

end Code

end Pad

namespace Sound

/-- What a refused request must leave as it was. -/
def Vars.Frame (s s' : Vars) : Prop :=
  s'.rpcBuffer = s.rpcBuffer ∧ s'.rpcResultBuffer = s.rpcResultBuffer ∧
    s'.callback1 = s.callback1 ∧ s'.callback1Arg = s.callback1Arg ∧
    s'.callback2 = s.callback2 ∧ s'.callback2Arg = s.callback2Arg

/-- The words are in the buffer already. -/
def Vars.Holds (s : Vars) (stores : List (Nat × Nat)) : Prop := ∀ w ∈ stores, s.rpcBuffer w.1 = w.2

/-- What a call stores before its request is there already. -/
def Call.Stored (cfg : Config) (s : Vars) : Call → Prop
  | .soundinit mode =>
    s.soundInitCounter = 1 → s.Holds [(0, cfg.rpcResultBuffer), (1, mode)]
  | .soundend =>
    s.soundInitCounter = 2 → s.Holds [(0, cfg.rpcResultBuffer), (1, soundinitModeHot)]
  | .soundgcoreattr index => s.Holds [(1, index)]
  | .soundscoreattr index attr => s.Holds [(1, index), (2, attr)]
  | .soundtrans channel mode addr size startAddr =>
    s.Holds [(1, channel), (2, mode), (3, addr), (4, size), (5, startAddr)]
  | .soundtransstat channel flag => s.Holds [(1, channel), (2, flag)]
  | .soundtranscallback channel transferCb tcbarg =>
    s.Holds [(1, channel)] ∧
      if channel = 0 then s.callback1 = transferCb ∧ s.callback1Arg = tcbarg
      else s.callback2 = transferCb ∧ s.callback2Arg = tcbarg
  | .soundremote => True

section Code
variable {s s' : Vars} {b : Bool} {r : Int}

theorem foldl_store (stores : List (Nat × Nat)) (s : Vars) :
    (stores.map store).foldl (fun s f => f s) s =
      { s with rpcBuffer := storeAll s.rpcBuffer stores } := by
  induction stores generalizing s with
  | nil => rfl
  | cons w stores ih =>
    rw [List.map_cons, List.foldl_cons, ih]
    rfl

theorem command_quits {rpcNumber : Nat} {stores : List (Nat × Nat)} {endfunc : EndFunc}
    (h : (command rpcNumber stores endfunc).Quits s b r s') :
    s' = { s with rpcBuffer := storeAll s.rpcBuffer stores } := by
  obtain ⟨-, b', -, -, rfl⟩ := Prog.quits_acts.mp h
  exact foldl_store stores s

theorem command_frame {rpcNumber : Nat} {stores : List (Nat × Nat)} {endfunc : EndFunc}
    (hd : (stores.map Prod.fst).Nodup) (h : (command rpcNumber stores endfunc).Quits s b r s') :
    s.Frame s' ↔ s.Holds stores := by
  rw [command_quits h, Vars.Frame]
  exact (and_iff_left ⟨rfl, rfl, rfl, rfl, rfl⟩).trans (storeAll_eq_self_iff hd)

theorem whenInitialized_quits {k : Code} (h : (whenInitialized k).Quits s true r s') :
    k.Quits s true r s' := by
  change (if s.soundInitialized = 0 then (.ret (-1) : Code) else k).Quits s true r s' at h
  split_ifs at h
  · exact Bool.noConfusion h.1
  · exact h

theorem ite_quits {p : Prop} [Decidable p] {k k' : Code} (h : ¬ k.Quits s b r s')
    (h' : ¬ k'.Quits s b r s') : ¬ (if p then k else k').Quits s b r s' := by
  split
  · exact h
  · exact h'

theorem soundInitCallback_quits : ¬ soundInitCallback.Quits s true r s' := by
  refine ite_quits ?_ (ite_quits ?_ (ite_quits ?_ ?_))
  · exact ite_quits (fun h => Bool.noConfusion h.1) fun h => Bool.noConfusion h.1
  · exact ite_quits (fun h => Bool.noConfusion h.1) fun h => Bool.noConfusion h.1
  · exact ite_quits (fun h => Bool.noConfusion h.1) fun h => Bool.noConfusion h.1
  · exact fun h => Bool.noConfusion h.1

theorem storeAll_frame (stores : List (Nat × Nat)) (hd : (stores.map Prod.fst).Nodup)
    (callback1 callback1Arg callback2 callback2Arg : Nat) :
    s.Frame { s with
        rpcBuffer := storeAll s.rpcBuffer stores
        callback1, callback1Arg, callback2, callback2Arg } ↔
      s.Holds stores ∧ callback1 = s.callback1 ∧ callback1Arg = s.callback1Arg ∧
        callback2 = s.callback2 ∧ callback2Arg = s.callback2Arg := by
  rw [Vars.Frame, storeAll_eq_self_iff hd, Vars.Holds]
  exact and_congr_right fun _ => and_iff_right rfl

theorem Call.refused_frame (cfg : Config) {call : Call} (h : (call.body cfg).Quits s true r s') :
    s.Frame s' ↔ call.Stored cfg s := by
  cases call with
  | soundinit mode =>
    change (soundinitStage cfg mode s.soundInitCounter).Quits s true r s' at h
    unfold soundinitStage at h
    rw [Call.Stored]
    split_ifs at h with h0 h1 h2
    · obtain ⟨-, b', -, -, rfl⟩ := h
      exact iff_of_true ⟨rfl, rfl, rfl, rfl, rfl, rfl⟩ fun h1 => by omega
    · rw [forall_prop_of_true h1]
      exact command_frame (by decide : [0, 1].Nodup) h
    · rw [command_quits h]
      exact iff_of_true ⟨rfl, rfl, rfl, rfl, rfl, rfl⟩ fun h1 => by omega
    · exact absurd h soundInitCallback_quits
  | soundend =>
    change (soundendStage cfg s.soundInitCounter).Quits s true r s' at h
    unfold soundendStage at h
    rw [Call.Stored]
    split_ifs at h with h1 h2
    · exact Bool.noConfusion h.1
    · rw [forall_prop_of_true h2]
      exact command_frame (by decide : [0, 1].Nodup) h
    · rw [command_quits h]
      exact iff_of_true ⟨rfl, rfl, rfl, rfl, rfl, rfl⟩ fun h2' => absurd h2' h2
  | soundgcoreattr index =>
    exact command_frame (by decide : [1].Nodup) (whenInitialized_quits h)
  | soundscoreattr index attr =>
    exact command_frame (by decide : [1, 2].Nodup) (whenInitialized_quits h)
  | soundtrans channel mode addr size startAddr =>
    exact command_frame (by decide : [1, 2, 3, 4, 5].Nodup) (whenInitialized_quits h)
  | soundtransstat channel flag =>
    exact command_frame (by decide : [1, 2].Nodup) (whenInitialized_quits h)
  | soundtranscallback channel transferCb tcbarg =>
    have hk := whenInitialized_quits h
    rw [Call.Stored]
    split_ifs at hk ⊢ with h0 h1
    · rw [command_quits (Prog.quits_acts.mp hk)]
      refine (storeAll_frame [(1, channel)] (by decide : [1].Nodup) transferCb tcbarg s.callback2
        s.callback2Arg).trans ?_
      simp [eq_comm]
    · rw [command_quits (Prog.quits_acts.mp hk)]
      refine (storeAll_frame [(1, channel)] (by decide : [1].Nodup) s.callback1 s.callback1Arg
        transferCb tcbarg).trans ?_
      simp [eq_comm]
    · exact Bool.noConfusion hk.1
  | soundremote => exact Bool.noConfusion (whenInitialized_quits h).1

end Code

end Sound

/-- A call of the pad library or of the sound driver is started in any state, with or without a
request on its way, and its own request is refused. It has no effect on the shared buffers, on the
state of the ports and on the registered callbacks exactly if what it stores before it asks was
there already. -/
theorem refused_requests (pad : Pad.Config) (sound : Sound.Config) :
    (∀ (s s₁ s' : Sys Pad.Vars Empty Pad.Request Pad.Call) (t : Nat) (call : Pad.Call),
      (Pad.driver pad).step s (.start t call) = some s₁ → (Pad.driver pad).Solo t s₁ true s' →
      (s.vars.Frame s'.vars ↔ call.Stored pad s.vars)) ∧
    ∀ (s s₁ s' : Sys Sound.Vars Empty Sound.Request Sound.Call) (t : Nat) (call : Sound.Call),
      (Sound.driver sound).step s (.start t call) = some s₁ →
      (Sound.driver sound).Solo t s₁ true s' →
      (s.vars.Frame s'.vars ↔ call.Stored sound s.vars) := by
  constructor
  · intro s s₁ s' t call hs h
    obtain ⟨r, hq, -⟩ := h.body hs
    exact Pad.Call.refused_frame pad hq
  · intro s s₁ s' t call hs h
    obtain ⟨r, hq, -⟩ := h.body hs
    exact Sound.Call.refused_frame sound hq

namespace Pad

/-- The library is initialised. -/
def Vars.initialised : Vars where
  padInitialiseCounter := 4
  server := fun _ => 1
  buffer := fun _ => 0
  padState := fun _ _ => ⟨0, 0, 0, 0, 0⟩

/-- The communication is being ended: the request is on its way. -/
def ending : List (Action Call) := .start 0 .padend :: List.replicate 2 (.run 0 ⟨0, some 0⟩)

end Pad

/-- The same call again is refused, and the buffer stays as it was. -/
theorem refused_requests_end :
    ∃ s s' : Sys Pad.Vars Empty Pad.Request Pad.Call,
      (Pad.driver ⟨false, 0⟩).run (fun _ _ => true) (Sys.idle .initialised) Pad.ending = some s ∧
        (s.wire 0).isSome ∧ (s'.outcomes 1).returned = some (-2) ∧ s.vars.Frame s'.vars := by
  let d := Pad.driver ⟨false, 0⟩
  obtain ⟨s, hs, hwire, s₁, hstart, s', hsolo, hreturned, hstored⟩ : ∃ s,
      d.run (fun _ _ => true) (Sys.idle .initialised) Pad.ending = some s ∧ (s.wire 0).isSome ∧
        ∃ s₁, d.step s (.start 1 .padend) = some s₁ ∧
        ∃ s', d.solo 1 4 s₁ = some (true, s') ∧ (s'.outcomes 1).returned = some (-2) ∧
        ∀ w ∈ [Pad.word 0 0x0f].flatten, s.vars.buffer w.1 = w.2 :=
    ⟨_, rfl, rfl, _, rfl, _, rfl, rfl, by decide⟩
  have hiff := (refused_requests ⟨false, 0⟩ ⟨0⟩).1 s s₁ s' 1 .padend hstart (Driver.solo_spec hsolo)
  exact ⟨s, s', hs, hwire, hreturned, hiff.mpr hstored⟩

/-- While the request that ends the communication is on its way, a refused question for the buttons
overwrites it. -/
theorem padinfopressmode_overwrites :
    ∃ s s₁ s' : Sys Pad.Vars Empty Pad.Request Pad.Call,
      (Pad.driver ⟨false, 0⟩).Reaches (· = .initialised) (fun _ _ => true) s ∧
        (∃ e packet, s.wire 0 = some e ∧ e.request = .call packet .padEndCallback ∧
          packet 0 = 0x0f) ∧
        (Pad.driver ⟨false, 0⟩).step s (.start 1 (.padinfopressmode 0 0)) = some s₁ ∧
        (Pad.driver ⟨false, 0⟩).Solo 1 s₁ true s' ∧ (s'.outcomes 1).returned = some (-2) ∧
        s.vars.buffer 0 = 0x0f ∧ s'.vars.buffer 0 = 0x09 := by
  let d := Pad.driver ⟨false, 0⟩
  obtain ⟨s, hs, hwire, s₁, hstart, s', hsolo, hreturned, hbefore, hafter⟩ : ∃ s,
      d.run (fun _ _ => true) (Sys.idle .initialised) Pad.ending = some s ∧
        (∃ e packet, s.wire 0 = some e ∧ e.request = .call packet .padEndCallback ∧
          packet 0 = 0x0f) ∧
        ∃ s₁, d.step s (.start 1 (.padinfopressmode 0 0)) = some s₁ ∧
        ∃ s', d.solo 1 6 s₁ = some (true, s') ∧ (s'.outcomes 1).returned = some (-2) ∧
        s.vars.buffer 0 = 0x0f ∧ s'.vars.buffer 0 = 0x09 :=
    ⟨_, rfl, ⟨_, _, rfl, rfl, rfl⟩, _, rfl, _, rfl, rfl, rfl, rfl⟩
  exact ⟨s, s₁, s', Driver.reaches_run rfl hs, hwire, hstart, Driver.solo_spec hsolo, hreturned,
    hbefore, hafter⟩

end KernelLoader.Tge
