import KernelLoader.Sif.DmaPayload

namespace KernelLoader.Sif
open Lib
set_option autoImplicit true
set_option relaxedAutoImplicit false

variable {env : DmaEnv} {ts : List Transfer} {s : SifDma}

/-- `id >> 16` for an `int`, as an unsigned word. -/
def signedHigh (id : Nat) : Nat := if id < 2 ^ 31 then id >>> 16 else id >>> 16 + 0xffff0000

/-- What `sif_dma_stat` returns, and whether interrupts are enabled afterwards if they were before
according to `ie`. The status is restored on one of the three ways out only. -/
def sifDmaStat (env : DmaEnv) (id : Nat) (s : SifDma) (ie : Bool) : Int × Bool :=
  if !s.str then (-1, ie)
  else
    let ntags := id &&& 0xff
    let starttag := id >>> 8 &&& 0xff
    let lasttag := sub32 (starttag + ntags) 1 % 31
    let count := if lasttag ≠ 0 then signedHigh id else u32 (signedHigh id + 1)
    let index := sifDmaGetHwIndex env s
    let dmaCount := if s.index < index then sub32 s.count 1 else s.count
    if (dmaCount = id >>> 16 ∨ dmaCount = count) ∧ starttag ≤ index ∧ index ≤ lasttag then
      (0, false)
    else (-1, ie)

/-- The ring with what is known about one transfer: the tags queued after it, and the slots of its
tags that are not completed. -/
structure Tracked where
  state : SifDma
  since : Nat
  left : Finset Nat

/-- The tags a step queues. -/
def queuedBy (env : DmaEnv) (s : SifDma) : DmaAction → Nat
  | .setDma ts => if countTags ts ≤ sifGetNumberOfFreeDmaTags env s then slotsUsed ts else 0
  | _ => 0

/-- Right after the call that has queued the transfer. -/
def Tracked.start (env : DmaEnv) (ts : List Transfer) (s : SifDma) : Tracked where
  state := (sifSetDma env ts s).2
  since := 0
  left := (Finset.range (slotsUsed ts)).image fun j => ringAhead 31 s.index (j + 1)

/-- A slot that is completed does not belong to the transfer any more, whoever takes it next. -/
def Tracked.step (env : DmaEnv) (x : Tracked) (a : DmaAction) : Option Tracked :=
  (dmaStep env x.state a).map fun s =>
    ⟨s, x.since + queuedBy env x.state a, x.left.filter (· ∈ s.pending)⟩

/-- The later states, as long as no call fills the ring at once. -/
abbrev Tracked.Later (env : DmaEnv) (ts : List Transfer) (s : SifDma) : Tracked → Prop :=
  Reach (fun x => x = .start env ts s) (fun x a y => x.step env a = some y)
    fun x a => CallOk env x.state a

/-- A call that is accepted in such a run. -/
structure Accepted (env : DmaEnv) (ts : List Transfer) (s : SifDma) : Prop where
  reachable : SifDma.Reachable env s
  nonempty : ts ≠ []
  fits : countTags ts ≤ sifGetNumberOfFreeDmaTags env s
  callOk : CallOk env s (.setDma ts)

/-- How many slots the hardware index lies behind the software index. -/
def SifDma.gap (env : DmaEnv) (s : SifDma) : Nat := ringBack 31 s.index (sifDmaGetHwIndex env s)

/-- The hardware index is on one of the tags that were counted for the transfer, and these do not
go round the end of the ring. -/
def OnTransfer (env : DmaEnv) (ts : List Transfer) (s : SifDma) (x : Tracked) : Prop :=
  ringAhead 31 s.index 1 + countTags ts ≤ 31 ∧ x.state.gap env < x.since + slotsUsed ts ∧
    x.since + slotsUsed ts ≤ x.state.gap env + countTags ts

/-- The transfer has a single tag, in slot 0, and the hardware index is there again one round later.
The sum with the round of the id is right only for the positive ones and for the last one. -/
def RoundLater (env : DmaEnv) (ts : List Transfer) (s : SifDma) (x : Tracked) : Prop :=
  ringAhead 31 s.index 1 = 0 ∧ countTags ts = 1 ∧ x.since = x.state.gap env + 31 ∧
    ((s.count + 1) % 2 ^ 16 < 0x8000 ∨ (s.count + 1) % 2 ^ 16 = 0xffff)

instance (env : DmaEnv) (ts : List Transfer) (s : SifDma) (x : Tracked) :
    Decidable (OnTransfer env ts s x) := inferInstanceAs (Decidable (_ ∧ _))

instance (env : DmaEnv) (ts : List Transfer) (s : SifDma) (x : Tracked) :
    Decidable (RoundLater env ts s x) := inferInstanceAs (Decidable (_ ∧ _))

theorem fields_eq (c : Nat) (hb : b < 2 ^ 8) (hn : n < 2 ^ 8) :
    c <<< 16 ||| b <<< 8 ||| n = c * 2 ^ 16 + b * 2 ^ 8 + n := by
  have hb' : b <<< 8 < 2 ^ 16 := by
    rw [Nat.shiftLeft_eq]
    omega
  have hhigh : c <<< 16 ||| b <<< 8 = (c * 2 ^ 8 + b) <<< 8 := by
    rw [← Nat.shiftLeft_add_eq_or_of_lt hb', Nat.shiftLeft_eq, Nat.shiftLeft_eq, Nat.shiftLeft_eq]
    omega
  rw [hhigh, ← Nat.shiftLeft_add_eq_or_of_lt hn, Nat.shiftLeft_eq]
  omega

theorem transferId_eq (hi : s.index < 31) (hn : n < 2 ^ 8) :
    transferId s n = (s.count + (s.index + 1) / 31) % 2 ^ 16 * 2 ^ 16 +
      ringAhead 31 s.index 1 * 2 ^ 8 + n := by
  have hstart : (s.index + 1) % 31 &&& 0xff = ringAhead 31 s.index 1 := by
    rw [show (s.index + 1) % 31 &&& 0xff = (s.index + 1) % 31 % 2 ^ 8 from and_mask _ 8, ringAhead]
    omega
  have hlt : ringAhead 31 s.index 1 < 2 ^ 8 := (ringAhead_lt (by decide) _ _).trans (by decide)
  have hmask : n &&& 0xff = n := by
    rw [show n &&& 0xff = n % 2 ^ 8 from and_mask n 8, Nat.mod_eq_of_lt hn]
  have hcount : (if ringAhead 31 s.index 1 ≠ 0 then s.count else s.count + 1) =
      s.count + (s.index + 1) / 31 := by
    unfold ringAhead
    split_ifs <;> omega
  have hhigh (c : Nat) : u32 (c <<< 16) = (c % 2 ^ 16) <<< 16 := by
    rw [Nat.shiftLeft_eq, Nat.shiftLeft_eq, u32]
    omega
  unfold transferId
  simp only [hstart, hcount, hmask, hhigh]
  exact fields_eq _ hlt hn

section Decode
variable {r b n : Nat}

theorem id_low (hn : n < 2 ^ 8) (r b : Nat) : (r * 2 ^ 16 + b * 2 ^ 8 + n) &&& 0xff = n := by
  rw [show (r * 2 ^ 16 + b * 2 ^ 8 + n) &&& 0xff = (r * 2 ^ 16 + b * 2 ^ 8 + n) % 2 ^ 8 from
    and_mask _ 8]
  omega

theorem id_mid (hb : b < 2 ^ 8) (hn : n < 2 ^ 8) (r : Nat) :
    (r * 2 ^ 16 + b * 2 ^ 8 + n) >>> 8 &&& 0xff = b := by
  rw [show (r * 2 ^ 16 + b * 2 ^ 8 + n) >>> 8 &&& 0xff =
    (r * 2 ^ 16 + b * 2 ^ 8 + n) >>> 8 % 2 ^ 8 from and_mask _ 8, Nat.shiftRight_eq_div_pow]
  omega

theorem id_high (hb : b < 2 ^ 8) (hn : n < 2 ^ 8) (r : Nat) :
    (r * 2 ^ 16 + b * 2 ^ 8 + n) >>> 16 = r := by
  rw [Nat.shiftRight_eq_div_pow]
  omega

theorem id_signedHigh (hr : r < 2 ^ 16) (hb : b < 2 ^ 8) (hn : n < 2 ^ 8) :
    signedHigh (r * 2 ^ 16 + b * 2 ^ 8 + n) = if r < 0x8000 then r else r + 0xffff0000 := by
  unfold signedHigh
  rw [id_high hb hn]
  by_cases h : r < 0x8000
  · rw [if_pos h, if_pos (by omega)]
  · rw [if_neg h, if_neg (by omega)]

end Decode

theorem sifDmaStat_fields (hr : r < 2 ^ 16) (hb : b < 2 ^ 8) (hn : n < 2 ^ 8) (h1 : 1 ≤ n)
    (ie : Bool) : sifDmaStat env (r * 2 ^ 16 + b * 2 ^ 8 + n) s ie =
      if s.str = true ∧
        ((if s.index < sifDmaGetHwIndex env s then sub32 s.count 1 else s.count) = r ∨
          (if s.index < sifDmaGetHwIndex env s then sub32 s.count 1 else s.count) =
            if (b + n - 1) % 31 ≠ 0 then (if r < 0x8000 then r else r + 0xffff0000)
            else u32 ((if r < 0x8000 then r else r + 0xffff0000) + 1)) ∧
        b ≤ sifDmaGetHwIndex env s ∧ sifDmaGetHwIndex env s ≤ (b + n - 1) % 31 then (0, false)
      else (-1, ie) := by
  have hlast : sub32 (b + n) 1 = b + n - 1 := sub32_of_le (by omega) (by omega)
  rw [sifDmaStat]
  dsimp only
  rw [id_low hn, id_mid hb hn, id_high hb hn, id_signedHigh hr hb hn, hlast]
  by_cases hstr : s.str = true
  · rw [if_neg (by rw [hstr]; exact Bool.false_ne_true)]
    exact if_congr (iff_and_self.2 fun _ => hstr |>.trans rfl) rfl rfl
  · rw [if_pos (by simpa using hstr), if_neg fun h => hstr h.1]

section Window
variable {r b c u a count index hw : Nat}

/-- The round of the hardware index is `r`, however the subtraction wraps, if and only if the
position of the hardware index lies in that round. -/
theorem round_iff (hr : r < 2 ^ 16) (hi : index < 31) (hhw : hw < 31) (hcount : count < 2 ^ 16)
    (hb : b ≤ hw) (hu : 1 ≤ u) (hperiod : a + u ≤ 31 * 2 ^ 16)
    (hpos : 31 * r + b + u - 1 + a = 31 * count + index ∨
      31 * r + b + u - 1 + a = 31 * count + index + 31 * 2 ^ 16) :
    ((if index < hw then sub32 count 1 else count) = r ∨
        (if index < hw then sub32 count 1 else count) =
          if r < 0x8000 then r else r + 0xffff0000) ↔
      b + a + u = hw + ringBack 31 index hw + 1 := by
  unfold ringBack
  by_cases hlt : index < hw
  · rw [if_pos hlt, if_neg (not_le.2 hlt)]
    by_cases h0 : count = 0
    · have hsub : sub32 count 1 = 0xffffffff := by rw [h0]; rfl
      rw [hsub]
      split_ifs <;> omega
    · rw [sub32_of_le (by omega) (by omega)]
      split_ifs <;> omega
  · rw [if_neg hlt, if_pos (not_lt.1 hlt)]
    split_ifs <;> omega

/-- A transfer that goes round the end of the ring is never found. -/
theorem window_wrapped (h : 31 < b + c) (hc : c ≤ 31) (hb : b < 31) :
    ¬ (b ≤ hw ∧ hw ≤ (b + c - 1) % 31) := by
  omega

/-- A single tag in slot 0 is also found one round later. -/
theorem window_zero (hr : r < 2 ^ 16) (hi : index < 31) (hhw : hw < 31) (hcount : count < 2 ^ 16)
    (hperiod : a + 1 ≤ 31 * 2 ^ 16)
    (hpos : 31 * r + a = 31 * count + index ∨ 31 * r + a = 31 * count + index + 31 * 2 ^ 16) :
    (((if index < hw then sub32 count 1 else count) = r ∨
        (if index < hw then sub32 count 1 else count) =
          u32 ((if r < 0x8000 then r else r + 0xffff0000) + 1)) ∧ hw = 0) ↔
      a = ringBack 31 index hw ∨
        (a = ringBack 31 index hw + 31 ∧ (r < 0x8000 ∨ r = 0xffff)) := by
  by_cases h0 : hw = 0
  · subst h0
    unfold ringBack u32
    rw [if_neg (Nat.not_lt_zero _), if_pos (Nat.zero_le _)]
    split_ifs <;> omega
  · have hne : a ≠ ringBack 31 index hw ∧ a ≠ ringBack 31 index hw + 31 := by
      unfold ringBack
      split_ifs <;> omega
    simp [h0, hne]

/-- The test of `sif_dma_stat` in terms of the queue: `a` tags were queued after a transfer that
took `u` tags of the `c` that were counted, from slot `b` of round `r` on. -/
theorem window_iff (hr : r < 2 ^ 16) (hb : b < 31) (hu : 1 ≤ u) (huc : u ≤ c) (hc : c ≤ 31)
    (hperiod : a + u ≤ 31 * 2 ^ 16) (hcount : count < 2 ^ 16) (hi : index < 31) (hhw : hw < 31)
    (hpos : 31 * r + b + u - 1 + a = 31 * count + index ∨
      31 * r + b + u - 1 + a = 31 * count + index + 31 * 2 ^ 16) :
    (((if index < hw then sub32 count 1 else count) = r ∨
        (if index < hw then sub32 count 1 else count) =
          if (b + c - 1) % 31 ≠ 0 then (if r < 0x8000 then r else r + 0xffff0000)
          else u32 ((if r < 0x8000 then r else r + 0xffff0000) + 1)) ∧
      b ≤ hw ∧ hw ≤ (b + c - 1) % 31) ↔
    (b + c ≤ 31 ∧ ringBack 31 index hw < a + u ∧ a + u ≤ ringBack 31 index hw + c) ∨
      (b = 0 ∧ c = 1 ∧ a = ringBack 31 index hw + 31 ∧ (r < 0x8000 ∨ r = 0xffff)) := by
  by_cases hwrap : 31 < b + c
  · refine ⟨fun h => absurd h.2 (window_wrapped hwrap hc hb), ?_⟩
    rintro (h | h) <;> omega
  have hlast : (b + c - 1) % 31 = b + c - 1 := Nat.mod_eq_of_lt (by omega)
  rw [hlast]
  by_cases hzero : b + c - 1 = 0
  · obtain rfl : b = 0 := by omega
    obtain rfl : c = 1 := by omega
    obtain rfl : u = 1 := by omega
    have h := window_zero hr hi hhw hcount hperiod (by omega)
    simp only [hzero, ne_eq, not_true_eq_false, if_false, Nat.zero_le, true_and, Nat.le_zero] at h ⊢
    rw [h]
    omega
  · rw [if_pos hzero]
    constructor
    · rintro ⟨hround, hlo, hhi⟩
      rw [round_iff hr hi hhw hcount hlo hu hperiod hpos] at hround
      omega
    · rintro (⟨hroom, hlo, hhi⟩ | h)
      · -- the slot of the hardware index follows from the position modulo 31
        have heq : b + a + u = hw + ringBack 31 index hw + 1 := by
          unfold ringBack at *
          split_ifs at * <;> omega
        have hbw : b ≤ hw := by omega
        exact ⟨(round_iff hr hi hhw hcount hbw hu hperiod hpos).2 heq, hbw, by omega⟩
      · omega

end Window

theorem SifDma.Reachable.placed (h : SifDma.Reachable env s) : Placed env s :=
  SifDma.Ran.placed (h.weaken fun _ _ _ => trivial)

theorem Placed.call_index (h : Placed env s)
    (hn : countTags ts ≤ sifGetNumberOfFreeDmaTags env s) :
    (sifSetDma env ts s).2.index = ringAhead 31 s.index (slotsUsed ts) ∧
      (sifSetDma env ts s).2.count =
        (s.count + (s.index + slotsUsed ts) / 31) % 2 ^ 16 := by
  obtain ⟨hi, hc⟩ := sifDmaSetupTag_index env (sifGetNumberOfFreeDmaTags env (stopChannel s))
    (stopChannel s)
  have ht : Touches _ (transferAll env ts (sifDmaSetupTag env
      (sifGetNumberOfFreeDmaTags env (stopChannel s)) (stopChannel s))) (slotsUsed ts) :=
    .transfers (hi ▸ h.index_lt) (hc ▸ h.count_lt) ts
  rw [sifSetDma_accepted hn]
  refine ⟨ht.index.trans (by rw [hi]; rfl), ht.count.trans (by rw [hi, hc]; rfl)⟩

/-- The position of the software index, over all rounds. -/
def SifDma.position (s : SifDma) : Nat := 31 * s.count + s.index

theorem Placed.call_position (h : Placed env s)
    (hn : countTags ts ≤ sifGetNumberOfFreeDmaTags env s) :
    (sifSetDma env ts s).2.position % (31 * 2 ^ 16) =
      (s.position + slotsUsed ts) % (31 * 2 ^ 16) := by
  obtain ⟨hi, hc⟩ := h.call_index hn
  unfold SifDma.position
  rw [hi, hc, ringAhead]
  omega

theorem settle_frame (s : SifDma) : (settle s).index = s.index ∧ (settle s).count = s.count ∧
    (settle s).pending ⊆ s.pending := by
  unfold settle
  split_ifs
  · exact ⟨rfl, rfl, Finset.erase_subset _ _⟩
  · exact ⟨rfl, rfl, Finset.Subset.refl _⟩

theorem dmaStep_hardware {a : DmaAction} {t : SifDma} (h : dmaStep env s a = some t)
    (ha : ∀ ts, a ≠ .setDma ts) :
    t.index = s.index ∧ t.count = s.count ∧ t.pending ⊆ s.pending := by
  cases dmaStep_stepped h with
  | setDma hne => exact absurd rfl (ha _)
  | load hstr hqwc he hload =>
    simp only [dmacLoad] at hload
    split_ifs at hload <;> cases hload <;> exact settle_frame _
  | move hstr hqwc => exact settle_frame _
  | stop hstr hqwc => exact ⟨rfl, rfl, Finset.Subset.refl _⟩

/-- What ties the later states to the transfer: the positions, and the slots that are left. -/
structure Follows (env : DmaEnv) (ts : List Transfer) (s : SifDma) (x : Tracked) : Prop where
  reachable : SifDma.Reachable env x.state
  position : x.state.position % (31 * 2 ^ 16) =
    (s.position + slotsUsed ts + x.since) % (31 * 2 ^ 16)
  left : ∀ i, i ∈ x.left ↔ i ∈ x.state.pending ∧ x.since ≤ ringBack 31 x.state.index i ∧
    ringBack 31 x.state.index i < x.since + slotsUsed ts

theorem Accepted.follows (h : Accepted env ts s) : Follows env ts s (.start env ts s) := by
  have hplaced := h.reachable.placed
  obtain ⟨k, d, hok, hk⟩ := h.reachable.ringInv
  obtain ⟨e, hok', -, -⟩ := hok.accept hk h.fits
  have hroom : k + slotsUsed ts ≤ 31 := by
    have hle := hok.add_free_le hk
    have hslots := slotsUsed_le ts
    have hfits := h.fits
    omega
  have hindex := (hplaced.call_index h.fits).1
  refine ⟨.next h.reachable h.callOk (if_neg h.nonempty), hplaced.call_position h.fits, ?_⟩
  intro i
  change i ∈ (Finset.range (slotsUsed ts)).image _ ↔ i ∈ (sifSetDma env ts s).2.pending ∧ _
  rw [hok'.pending, mem_ringSegment, Finset.mem_image]
  constructor
  · rintro ⟨j, hj, rfl⟩
    have hj' := Finset.mem_range.1 hj
    have hback := ringBack_ahead_ahead (by decide : 0 < 31) (show j + 1 ≤ slotsUsed ts by omega)
      (by omega) s.index
    have hlt := ringAhead_lt (by decide : 0 < 31) s.index (j + 1)
    simp only [Tracked.start, hindex, hback]
    omega
  · rintro ⟨⟨hlt, -⟩, -, hback⟩
    simp only [Tracked.start, hindex, Nat.zero_add] at hback
    refine ⟨slotsUsed ts - 1 - ringBack 31 (ringAhead 31 s.index (slotsUsed ts)) i,
      Finset.mem_range.2 (by omega), ?_⟩
    apply ringBack_inj (i := ringAhead 31 s.index (slotsUsed ts)) (ringAhead_lt (by decide) _ _) hlt
    rw [ringBack_ahead_ahead (by decide) (by omega) (by omega)]
    omega

theorem Follows.call {x : Tracked} {us : List Transfer} (h : Follows env ts s x) (hne : us ≠ [])
    (hc : CallOk env x.state (.setDma us))
    (hn : countTags us ≤ sifGetNumberOfFreeDmaTags env x.state) :
    Follows env ts s ⟨(sifSetDma env us x.state).2, x.since + slotsUsed us,
      x.left.filter (· ∈ (sifSetDma env us x.state).2.pending)⟩ := by
  have hplaced := h.reachable.placed
  obtain ⟨k, d, hok, hk⟩ := h.reachable.ringInv
  obtain ⟨e, hok', -, -⟩ := hok.accept hk hn
  have hroom : k + slotsUsed us ≤ 31 := by
    have hle := hok.add_free_le hk
    have hslots := slotsUsed_le us
    omega
  have hindex := (hplaced.call_index hn).1
  refine ⟨.next h.reachable hc (if_neg hne), ?_, ?_⟩
  · have hpos := h.position
    have hcall := hplaced.call_position hn
    simp only at hcall ⊢
    omega
  · intro i
    rw [Finset.mem_filter, h.left, hok'.pending, hok.pending, mem_ringSegment, mem_ringSegment,
      hindex]
    dsimp only
    by_cases hi : i < 31
    · have hback := ringBack_ahead hok.index_lt hi (show slotsUsed us ≤ 31 by omega)
      have hlt := ringBack_lt (ringAhead_lt (by decide : 0 < 31) x.state.index (slotsUsed us)) hi
      have hlt' := ringBack_lt hok.index_lt hi
      omega
    · omega

theorem Follows.step {x y : Tracked} {a : DmaAction} (h : Follows env ts s x)
    (hc : CallOk env x.state a) (hs : x.step env a = some y) : Follows env ts s y := by
  obtain ⟨t, ht, rfl⟩ := Option.map_eq_some_iff.1 hs
  have hreach : SifDma.Reachable env t := .next h.reachable hc ht
  have hframe (hi : t.index = x.state.index) (hcount : t.count = x.state.count)
      (hp : t.pending ⊆ x.state.pending) :
      Follows env ts s ⟨t, x.since + 0, x.left.filter (· ∈ t.pending)⟩ := by
    refine ⟨hreach, ?_, fun i => ?_⟩
    · rw [SifDma.position, hi, hcount]
      exact h.position
    · rw [Finset.mem_filter, h.left, hi]
      constructor
      · rintro ⟨⟨-, hback⟩, hmem⟩
        exact ⟨hmem, hback⟩
      · rintro ⟨hmem, hback⟩
        exact ⟨⟨hp hmem, hback⟩, hmem⟩
  cases dmaStep_stepped ht with
  | setDma hne =>
    rw [queuedBy]
    split_ifs with hn
    · exact h.call hne hc hn
    · -- a refused call leaves the ring as it was
      rw [sifSetDma_refused hn] at hframe ⊢
      exact hframe rfl rfl (Finset.Subset.refl _)
  | load =>
    obtain ⟨hi, hcount, hp⟩ := dmaStep_hardware ht (fun _ h => by cases h)
    exact hframe hi hcount hp
  | move =>
    obtain ⟨hi, hcount, hp⟩ := dmaStep_hardware ht (fun _ h => by cases h)
    exact hframe hi hcount hp
  | stop =>
    obtain ⟨hi, hcount, hp⟩ := dmaStep_hardware ht (fun _ h => by cases h)
    exact hframe hi hcount hp

theorem Tracked.Later.follows {x : Tracked} (hx : Tracked.Later env ts s x)
    (h : Accepted env ts s) : Follows env ts s x :=
  hx.invariant (fun _ hs => hs ▸ h.follows) (fun _ _ _ hf hc hs => hf.step hc hs)

/-- A tag of the transfer is left if and only if fewer tags were queued since than are open. -/
theorem Follows.left_nonempty {x : Tracked} (h : Follows env ts s x) (hu : 1 ≤ slotsUsed ts) :
    x.left.Nonempty ↔ x.since < x.state.pending.card := by
  obtain ⟨k, d, hok, hk⟩ := h.reachable.ringInv
  have hle := hok.add_free_le hk
  have hcard : x.state.pending.card = k := by
    rw [hok.pending]
    exact card_ringSegment hok.index_lt (by omega)
  rw [hcard]
  constructor
  · rintro ⟨i, hi⟩
    have hi' := (h.left i).1 hi
    rw [hok.pending, mem_ringSegment] at hi'
    omega
  · intro hlt
    obtain ⟨i, hi, hback⟩ := exists_ringBack hok.index_lt (show x.since < 31 by omega)
    refine ⟨i, (h.left i).2 ?_⟩
    rw [hok.pending, mem_ringSegment]
    omega

theorem Follows.stat_eq {x : Tracked} (h : Follows env ts s x) (ha : Accepted env ts s)
    (hperiod : x.since + slotsUsed ts ≤ 31 * 2 ^ 16) (ie : Bool) :
    sifDmaStat env (sifSetDma env ts s).1 x.state ie =
      if x.state.str = true ∧ (OnTransfer env ts s x ∨ RoundLater env ts s x) then (0, false)
      else (-1, ie) := by
  have hs := ha.reachable.placed
  have hx := h.reachable.placed
  obtain ⟨k, d, hok, -⟩ := h.reachable.ringInv
  have hu := slotsUsed_pos ha.nonempty
  have huc := slotsUsed_le ts
  have hc : countTags ts ≤ 31 := ha.fits.trans hs.free_le
  have hb := ringAhead_lt (by decide : 0 < 31) s.index 1
  have hid : (sifSetDma env ts s).1 = transferId s (countTags ts) :=
    congrArg Prod.fst (if_pos ha.fits)
  have hr : (s.count + (s.index + 1) / 31) % 2 ^ 16 < 2 ^ 16 := Nat.mod_lt _ (by decide)
  have hpos : 31 * ((s.count + (s.index + 1) / 31) % 2 ^ 16) + ringAhead 31 s.index 1 +
        slotsUsed ts - 1 + x.since = 31 * x.state.count + x.state.index ∨
      31 * ((s.count + (s.index + 1) / 31) % 2 ^ 16) + ringAhead 31 s.index 1 +
        slotsUsed ts - 1 + x.since = 31 * x.state.count + x.state.index + 31 * 2 ^ 16 := by
    have hp := h.position
    have h1 := hx.index_lt
    have h2 := hx.count_lt
    unfold SifDma.position at hp
    unfold ringAhead at hb ⊢
    omega
  have hwindow := window_iff hr hb hu huc hc hperiod hx.count_lt hx.index_lt hok.hw_lt hpos
  -- the tag in slot 0 is the first one of the next round
  have hzero : ringAhead 31 s.index 1 = 0 → (s.index + 1) / 31 = 1 := by
    have hi := hs.index_lt
    unfold ringAhead
    omega
  have hcond := hwindow.trans (or_congr_right (and_congr_right fun h0 => by rw [hzero h0]))
  rw [hid, transferId_eq hs.index_lt (by omega),
    sifDmaStat_fields hr (by omega) (by omega) (by omega)]
  exact if_congr (and_congr_right fun _ => hcond) rfl rfl

/-- In every later state, `sif_dma_stat` tells whether the transfer is done and leaves interrupts as
they were if and only if: while a tag is left, the hardware is in the transfer, which does not go
round the end of the ring, and interrupts were disabled anyway; afterwards, the channel has stopped
or the hardware index is no longer on the slots of the transfer. -/
theorem sifDmaStat_iff {x : Tracked} {ie : Bool} (ha : Accepted env ts s)
    (hx : Tracked.Later env ts s x) (hperiod : x.since + slotsUsed ts ≤ 31 * 2 ^ 16) :
    ((0 ≤ (sifDmaStat env (sifSetDma env ts s).1 x.state ie).1 ↔ x.left.Nonempty) ∧
        (sifDmaStat env (sifSetDma env ts s).1 x.state ie).2 = ie) ↔
      (x.since < x.state.pending.card ∧ x.state.str = true ∧ OnTransfer env ts s x ∧ ie = false) ∨
        (x.state.pending.card ≤ x.since ∧
          ¬ (x.state.str = true ∧ (OnTransfer env ts s x ∨ RoundLater env ts s x))) := by
  have hf := hx.follows ha
  have hu := slotsUsed_pos ha.nonempty
  have hlater : RoundLater env ts s x → x.state.pending.card ≤ x.since := by
    rintro ⟨-, -, hsince, -⟩
    have hle := hf.reachable.ringInv.card_add_free.2
    omega
  rw [hf.stat_eq ha hperiod, hf.left_nonempty hu]
  by_cases hfound : x.state.str = true ∧ (OnTransfer env ts s x ∨ RoundLater env ts s x)
  · -- found in the ring: interrupts are left disabled
    rw [if_pos hfound]
    constructor
    · rintro ⟨hiff, hie⟩
      have hlt := hiff.1 (le_refl 0)
      have hon := hfound.2.resolve_right fun h => absurd (hlater h) (not_le.2 hlt)
      exact .inl ⟨hlt, hfound.1, hon, hie.symm⟩
    · rintro (⟨hlt, -, -, hie⟩ | ⟨-, hn⟩)
      · exact ⟨⟨fun _ => hlt, fun _ => le_refl 0⟩, hie.symm⟩
      · exact absurd hfound hn
  · have hneg : ¬ (0 : Int) ≤ -1 := by decide
    rw [if_neg hfound]
    constructor
    · rintro ⟨hiff, -⟩
      have hge : x.state.pending.card ≤ x.since :=
        not_lt.1 fun hlt => absurd (hiff.2 hlt) hneg
      exact .inr ⟨hge, hfound⟩
    · rintro (⟨-, hstr, hon, -⟩ | ⟨hge, -⟩)
      · exact absurd ⟨hstr, .inl hon⟩ hfound
      · exact ⟨⟨fun h => absurd h hneg, fun h => absurd h (not_lt.2 hge)⟩, rfl⟩

theorem accepted_oneQuad : Accepted lowEnv [oneQuad] (sifDmaInit lowEnv .zero) :=
  ⟨.start rfl, List.cons_ne_nil _ _, by decide, by decide⟩

/-- One quadword whose tag the hardware has just loaded. -/
def loadedQuad : Option Tracked :=
  (Tracked.start lowEnv [oneQuad] (sifDmaInit lowEnv .zero)).step lowEnv .load

theorem loadedQuad_isSome : loadedQuad.isSome = true := by decide +kernel

theorem loadedQuad_later : Tracked.Later lowEnv [oneQuad] (sifDmaInit lowEnv .zero)
    (loadedQuad.get loadedQuad_isSome) := by
  have hok : CallOk lowEnv (Tracked.start lowEnv [oneQuad] (sifDmaInit lowEnv .zero)).state .load :=
    trivial
  exact Reach.next (Reach.start rfl) hok (Option.some_get loadedQuad_isSome).symm

theorem loadedQuad_on :
    (loadedQuad.get loadedQuad_isSome).since <
        (loadedQuad.get loadedQuad_isSome).state.pending.card ∧
      (loadedQuad.get loadedQuad_isSome).state.str = true ∧
      OnTransfer lowEnv [oneQuad] (sifDmaInit lowEnv .zero) (loadedQuad.get loadedQuad_isSome) := by
  decide +kernel

/-- It is still there, as `sif_dma_stat` says if interrupts are disabled anyway. -/
theorem sifDmaStat_iff_loaded :
    (0 ≤ (sifDmaStat lowEnv (sifSetDma lowEnv [oneQuad] (sifDmaInit lowEnv .zero)).1
        (loadedQuad.get loadedQuad_isSome).state false).1 ↔
      (loadedQuad.get loadedQuad_isSome).left.Nonempty) ∧
    (sifDmaStat lowEnv (sifSetDma lowEnv [oneQuad] (sifDmaInit lowEnv .zero)).1
      (loadedQuad.get loadedQuad_isSome).state false).2 = false := by
  have hperiod : (loadedQuad.get loadedQuad_isSome).since + slotsUsed [oneQuad] ≤ 31 * 2 ^ 16 := by
    decide +kernel
  obtain ⟨hleft, hstr, hon⟩ := loadedQuad_on
  exact (sifDmaStat_iff accepted_oneQuad loadedQuad_later hperiod).2 (.inl ⟨hleft, hstr, hon, rfl⟩)

/-- The same transfer before its tag is loaded counts as done, and asking while it is in the channel
leaves interrupts disabled. -/
theorem sifDmaStat_wrong :
    let x := Tracked.start lowEnv [oneQuad] (sifDmaInit lowEnv .zero)
    let id := (sifSetDma lowEnv [oneQuad] (sifDmaInit lowEnv .zero)).1
    (sifDmaStat lowEnv id x.state true = (-1, true) ∧ x.left = {0}) ∧
      (x.step lowEnv .load).map (fun y => (sifDmaStat lowEnv id y.state true, y.left)) =
        some ((0, false), {0}) := by
  decide +kernel

end KernelLoader.Sif
