import KernelLoader.Lib.Reach
import KernelLoader.Sif.Dma

namespace KernelLoader.Sif
open Lib
set_option autoImplicit true
set_option relaxedAutoImplicit false

variable {env : DmaEnv} {ts : List Transfer}

/-- The tags one entry really takes. Near the top of the size range it is fewer than counted. -/
def entrySlots (t : Transfer) : Nat :=
  if t.attr &&& attrDmatag = 0 ∧ 8 ≤ quadwords t.size then 2 else 1

def slotsUsed (ts : List Transfer) : Nat := (ts.map entrySlots).sum

theorem quadwords_lt (size : Nat) : quadwords size < 2 ^ 28 := by
  have h := u32_lt (size + qwcSize - 1)
  unfold quadwords qwcSize at *
  omega

theorem entrySlots_le (t : Transfer) : entrySlots t ≤ entryTags t := by
  unfold entrySlots entryTags
  split_ifs with h1 h2 h2 <;> try omega
  rcases h2 with h2 | h2
  · exact absurd h1.1 h2
  · have hq := h1.2
    unfold quadwords qwcSize qwcPayloadFirstPkt u32 at *
    omega

theorem slotsUsed_le (ts : List Transfer) : slotsUsed ts ≤ countTags ts := by
  induction ts with
  | nil => exact Nat.le_refl _
  | cons t ts ih =>
    simp only [slotsUsed, countTags, List.map_cons, List.sum_cons] at *
    exact Nat.add_le_add (entrySlots_le t) ih

theorem one_le_entrySlots (t : Transfer) : 1 ≤ entrySlots t := by
  unfold entrySlots
  split_ifs <;> omega

/-- The ids of the tags the driver queues. -/
def Queueable (t : EeDmatag) : Prop := tagId t = 0 ∨ tagId t = 3

theorem tagId_idQwc (id : DmatagId) {qwc : Nat} (h : qwc < 2 ^ 28) (attr addr : Nat) :
    tagId ⟨eeDmatagIdQwc id qwc ||| irqBit attr, addr⟩ = id.code &&& 7 := by
  have hi : irqBit attr >>> 28 &&& 7 = 0 := by
    unfold irqBit dmatagIrq
    split_ifs <;> decide
  have hq : qwc >>> 28 = 0 := by
    rw [Nat.shiftRight_eq_div_pow]
    exact Nat.div_eq_of_lt h
  unfold tagId eeDmatagIdQwc eeDmatagId
  rw [Nat.shiftRight_or_distrib, Nat.shiftRight_or_distrib, Nat.shiftLeft_shiftRight, hq,
    Nat.or_zero, Nat.and_or_distrib_right, hi, Nat.or_zero]

theorem queueable_idQwc {id : DmatagId} {qwc : Nat} (hid : id = .refe ∨ id = .ref)
    (h : qwc < 2 ^ 28) (attr addr : Nat) :
    Queueable ⟨eeDmatagIdQwc id qwc ||| irqBit attr, addr⟩ := by
  unfold Queueable
  rw [tagId_idQwc id h]
  rcases hid with rfl | rfl
  · exact .inl rfl
  · exact .inr rfl

theorem queueable_split (addr : Nat) : Queueable ⟨eeDmatagIdQwc .ref 8, addr⟩ := by
  right
  change eeDmatagIdQwc .ref 8 >>> 28 &&& 7 = 3
  decide

theorem tagId_relink (x a b : Nat) :
    tagId ⟨x ||| eeDmatagId .ref, a⟩ = tagId ⟨x, b⟩ ||| 3 := by
  unfold tagId eeDmatagId
  rw [Nat.shiftRight_or_distrib, Nat.shiftLeft_shiftRight, Nat.and_or_distrib_right,
    show DmatagId.ref.code &&& 7 = 3 from rfl]

theorem Queueable.relink (h : Queueable ⟨x, a⟩) (b : Nat) :
    Queueable ⟨x ||| eeDmatagId .ref, b⟩ := by
  unfold Queueable
  rw [tagId_relink x b a]
  rcases h with h | h <;> rw [h] <;> exact .inr rfl

theorem tagQwc_relink (x addr : Nat) : tagQwc ⟨x ||| eeDmatagId .ref, addr⟩ = x % 2 ^ 16 := by
  unfold tagQwc
  rw [Nat.or_mod_two_pow]
  exact Nat.or_zero _

theorem tagQwc_rebuild (h : q < 2 ^ 16) (x addr : Nat) :
    tagQwc ⟨(x &&& 0x8c000000) ||| eeDmatagId .ref ||| q, addr⟩ = q := by
  unfold tagQwc
  rw [Nat.or_mod_two_pow, Nat.or_mod_two_pow, Nat.and_mod_two_pow, Nat.mod_eq_of_lt h]
  have h0 : x % 2 ^ 16 &&& 0x8c000000 % 2 ^ 16 = 0 := by
    rw [show 0x8c000000 % 2 ^ 16 = 0 from rfl, Nat.and_zero]
  rw [h0]
  exact Nat.zero_or _

theorem queueable_rebuild (h : q < 2 ^ 16) (x addr : Nat) :
    Queueable ⟨(x &&& 0x8c000000) ||| eeDmatagId .ref ||| q, addr⟩ := by
  have hq : q >>> 28 = 0 := by
    rw [Nat.shiftRight_eq_div_pow]
    exact Nat.div_eq_of_lt (Nat.lt_trans h (by decide))
  have hx : (x &&& 0x8c000000) >>> 28 &&& 7 = 0 := by
    rw [Nat.shiftRight_and_distrib, Nat.and_assoc, show 0x8c000000 >>> 28 &&& 7 = 0 from rfl,
      Nat.and_zero]
  right
  unfold tagId eeDmatagId
  rw [Nat.shiftRight_or_distrib, hq, Nat.or_zero, Nat.shiftRight_or_distrib,
    Nat.shiftLeft_shiftRight, Nat.and_or_distrib_right, hx, Nat.zero_or]
  rfl

theorem setNextDmatag_index (h : s.index < 31) :
    (setNextDmatag s).index = ringNext 31 s.index := by
  have hm : (s.index + 1) % 2 ^ 8 = s.index + 1 := Nat.mod_eq_of_lt (by omega)
  simp only [setNextDmatag, ringNext, hm]

theorem hwNext_eq (hi : i ≤ 31) (h : s.tadr = env.dmatags + 16 * i) : hwNext env s = i := by
  have hp := env.dmatags_phys
  unfold hwNext
  rw [h, sub32_of_le (by omega) (by omega)]
  omega

theorem sifDmaGetHwIndex_eq (hi : i ≤ 31) (h : s.tadr = env.dmatags + 16 * i) :
    sifDmaGetHwIndex env s = if 0 < i then i - 1 else 30 := by
  unfold sifDmaGetHwIndex
  rw [hwNext_eq hi h]

/-- The shape of the ring: `d` tags are queued behind the one loaded last, and the `k` newest
slots are not completed. -/
structure RingOk (env : DmaEnv) (k d : Nat) (s : SifDma) : Prop where
  index_lt : s.index < 31
  queueable : ∀ i < 31, Queueable (s.tags i)
  loop : s.tags 31 = ⟨eeDmatagId .next, env.dmatags⟩
  tadr : ∃ i ≤ 31, s.tadr = env.dmatags + 16 * i
  qwc_lt : s.qwc < 2 ^ 16
  gap : ringBack 31 s.index (sifDmaGetHwIndex env s) = d
  pending : s.pending = ringSegment 31 s.index k
  clean : s.clobbered = false
  loaded : s.qwc ≠ 0 → s.loaded = sifDmaGetHwIndex env s

theorem RingOk.hw_lt (h : RingOk env k d s) : sifDmaGetHwIndex env s < 31 := by
  obtain ⟨i, hi, he⟩ := h.tadr
  rw [sifDmaGetHwIndex_eq hi he]
  split_ifs <;> omega

theorem RingOk.gap_lt (h : RingOk env k d s) : d < 31 := by
  rw [← h.gap]
  exact ringBack_lt h.index_lt h.hw_lt

theorem RingOk.freetags (h : RingOk env k d s) :
    sifGetNumberOfFreeDmaTags env s =
      if d = 0 then (if s.qwc ≠ 0 then 30 else 31) else 30 - d := by
  have hg := h.gap
  have hi := h.index_lt
  have hw := h.hw_lt
  unfold sifGetNumberOfFreeDmaTags
  simp only
  by_cases he : sifDmaGetHwIndex env s = s.index
  · rw [he, ringBack_self] at hg
    rw [if_pos he, if_pos hg.symm]
  · have hd : d ≠ 0 := fun h0 => he ((ringBack_eq_zero hw).mp (hg.trans h0))
    rw [if_neg he, if_neg hd]
    unfold ringBack at hg
    by_cases hlt : sifDmaGetHwIndex env s < s.index
    · rw [if_pos (Nat.le_of_lt hlt)] at hg
      rw [if_pos hlt, sub32_of_lt hlt (by omega)]
      unfold u32
      omega
    · rw [if_neg (by omega)] at hg
      have hs : sub32 (sifDmaGetHwIndex env s) s.index = sifDmaGetHwIndex env s - s.index :=
        sub32_of_le (by omega) (by omega)
      rw [if_neg hlt, hs, sub32_of_le (by omega) (by omega)]
      omega

/-- What queueing leaves alone: the channel, and every slot that is not completed. -/
structure Extends (s t : SifDma) : Prop where
  tadr : t.tadr = s.tadr
  madr : t.madr = s.madr
  qwc : t.qwc = s.qwc
  loaded : t.loaded = s.loaded
  pending : s.pending ⊆ t.pending
  tags : ∀ i ∈ s.pending, t.tags i = s.tags i
  iopTags : ∀ i ∈ s.pending, t.iopTags i = s.iopTags i

theorem Extends.refl (s : SifDma) : Extends s s :=
  ⟨rfl, rfl, rfl, rfl, Finset.Subset.refl _, fun _ _ => rfl, fun _ _ => rfl⟩

theorem Extends.trans (h : Extends s t) (h' : Extends t u) : Extends s u where
  tadr := h'.tadr.trans h.tadr
  madr := h'.madr.trans h.madr
  qwc := h'.qwc.trans h.qwc
  loaded := h'.loaded.trans h.loaded
  pending := h.pending.trans h'.pending
  tags i hi := (h'.tags i (h.pending hi)).trans (h.tags i hi)
  iopTags i hi := (h'.iopTags i (h.pending hi)).trans (h.iopTags i hi)

/-- Allocating the next slot. With 30 tags queued already the ring closes and looks empty. -/
theorem RingOk.alloc (h : RingOk env k d s) (hk : k < 31) (hq : Queueable t) :
    RingOk env (k + 1) ((d + 1) % 31) (putTag (setNextDmatag s) t) := by
  have hi : (setNextDmatag s).index = ringNext 31 s.index := setNextDmatag_index h.index_lt
  have hn := ringNext_lt h.index_lt
  have hfree : (setNextDmatag s).index ∉ s.pending := by
    rw [hi, h.pending]
    exact ringNext_not_mem h.index_lt hk
  constructor
  case index_lt => exact hi ▸ hn
  case queueable =>
    intro i hlt
    simp only [putTag, setTag, Function.update_apply]
    split_ifs
    · exact hq
    · exact h.queueable i hlt
  case loop =>
    simp only [putTag, setTag, Function.update_apply]
    rw [if_neg (by omega)]
    exact h.loop
  case tadr => exact h.tadr
  case qwc_lt => exact h.qwc_lt
  case gap =>
    change ringBack 31 (setNextDmatag s).index (sifDmaGetHwIndex env s) = (d + 1) % 31
    have h31 := h.index_lt
    have hw := h.hw_lt
    have hg := h.gap
    rw [hi]
    unfold ringBack ringNext at *
    split_ifs at * <;> omega
  case pending =>
    change insert (setNextDmatag s).index s.pending = ringSegment 31 (setNextDmatag s).index _
    rw [hi, ringSegment_push_eq h.index_lt, h.pending]
  case clean =>
    change (s.clobbered || decide ((setNextDmatag s).index ∈ s.pending)) = false
    rw [h.clean, decide_eq_false hfree]
    rfl
  case loaded => exact h.loaded

theorem RingOk.alloc_fresh (h : RingOk env k d s) (hk : k < 31) :
    (setNextDmatag s).index ∉ s.pending := by
  rw [setNextDmatag_index h.index_lt, h.pending]
  exact ringNext_not_mem h.index_lt hk

theorem RingOk.alloc_extends (h : RingOk env k d s) (hk : k < 31) (t : EeDmatag) :
    Extends s (putTag (setNextDmatag s) t) := by
  have hfree := h.alloc_fresh hk
  constructor
  case tadr => rfl
  case madr => rfl
  case qwc => rfl
  case loaded => rfl
  case pending => exact Finset.subset_insert _ _
  case tags =>
    intro i hp
    simp only [putTag, setTag, Function.update_apply]
    exact if_neg (fun he => hfree (by rw [← he]; exact hp))
  case iopTags => exact fun _ _ => rfl

theorem RingOk.setIopTag (h : RingOk env k d s) (i : Nat) (t : IopDmatag) :
    RingOk env k d (setIopTag s i t) :=
  ⟨h.index_lt, h.queueable, h.loop, h.tadr, h.qwc_lt, h.gap, h.pending, h.clean, h.loaded⟩

theorem Extends.setIopTag (h : Extends s t) (hi : i ∉ s.pending) (v : IopDmatag) :
    Extends s (setIopTag t i v) := by
  refine ⟨h.tadr, h.madr, h.qwc, h.loaded, h.pending, h.tags, ?_⟩
  intro j hj
  simp only [Sif.setIopTag, Function.update_apply]
  rw [if_neg (fun he => hi (by rw [← he]; exact hj))]
  exact h.iopTags j hj

theorem sifDmaTransfer_cases (env : DmaEnv) (t : Transfer) (id : DmatagId) (s : SifDma) :
    (entrySlots t = 1 ∧ ∃ tag data, (id = .refe ∨ id = .ref → Queueable tag) ∧
      sifDmaTransfer env t id s =
        setIopTag (putTag (setNextDmatag s) tag) (setNextDmatag s).index data) ∨
    (entrySlots t = 2 ∧ ∃ tag tag' data, Queueable tag ∧
      (id = .refe ∨ id = .ref → Queueable tag') ∧ sifDmaTransfer env t id s =
        setIopTag (putTag (setNextDmatag (putTag (setNextDmatag s) tag)) tag')
          (setNextDmatag s).index data) := by
  have hq := quadwords_lt t.size
  rw [sifDmaTransfer]
  by_cases ha : t.attr &&& attrDmatag ≠ 0
  · have he : entrySlots t = 1 := if_neg (fun hc => ha hc.1)
    rw [if_pos ha]
    exact .inl ⟨he, _, _, fun hid => queueable_idQwc hid hq _ _, rfl⟩
  · rw [if_neg ha]
    by_cases h8 : 8 ≤ quadwords t.size
    · have he : entrySlots t = 2 := if_pos ⟨not_not.mp ha, h8⟩
      have hq7 : quadwords t.size - qwcPayloadFirstPkt < 2 ^ 28 := by omega
      rw [if_pos h8]
      exact .inr ⟨he, _, _, _, queueable_split _, fun hid => queueable_idQwc hid hq7 _ _, rfl⟩
    · have he : entrySlots t = 1 := if_neg (fun hc => h8 hc.2)
      have hq1 : quadwords t.size + 1 < 2 ^ 28 := by omega
      rw [if_neg h8]
      exact .inl ⟨he, _, _, fun hid => queueable_idQwc hid hq1 _ _, rfl⟩

theorem RingOk.entry {id : DmatagId} (h : RingOk env k d s)
    (hid : id = .refe ∨ id = .ref) (t : Transfer) (hk : k + entrySlots t ≤ 31) :
    RingOk env (k + entrySlots t) ((d + entrySlots t) % 31) (sifDmaTransfer env t id s) ∧
      Extends s (sifDmaTransfer env t id s) := by
  cases sifDmaTransfer_cases env t id s with
  | inl hone =>
    obtain ⟨he, tag, data, hq, heq⟩ := hone
    have hfresh := h.alloc_fresh (show k < 31 by omega)
    rw [heq, he]
    exact ⟨(h.alloc (by omega) (hq hid)).setIopTag _ _,
      (h.alloc_extends (by omega) _).setIopTag hfresh _⟩
  | inr htwo =>
    obtain ⟨he, tag, tag', data, hq, hq', heq⟩ := htwo
    have hfresh := h.alloc_fresh (show k < 31 by omega)
    have hfst := h.alloc (show k < 31 by omega) hq
    have hsnd := hfst.alloc (show k + 1 < 31 by omega) (hq' hid)
    rw [show ((d + 1) % 31 + 1) % 31 = (d + 2) % 31 by omega] at hsnd
    rw [heq, he]
    refine ⟨hsnd.setIopTag _ _, Extends.setIopTag ?_ hfresh _⟩
    exact (h.alloc_extends (by omega) _).trans (hfst.alloc_extends (by omega) _)

theorem RingOk.transfers (h : RingOk env k d s) (ts : List Transfer)
    (hk : k + slotsUsed ts ≤ 31) :
    RingOk env (k + slotsUsed ts) ((d + slotsUsed ts) % 31) (transferAll env ts s) ∧
      Extends s (transferAll env ts s) := by
  induction ts generalizing k d s with
  | nil =>
    have hd := h.gap_lt
    simp only [slotsUsed, List.map_nil, List.sum_nil, Nat.add_zero]
    rw [Nat.mod_eq_of_lt hd]
    exact ⟨h, .refl s⟩
  | cons t ts ih =>
    simp only [slotsUsed, List.map_cons, List.sum_cons] at hk ⊢
    cases ts with
    | nil =>
      simp only [List.map_nil, List.sum_nil, Nat.add_zero] at hk ⊢
      exact h.entry (.inl rfl) t hk
    | cons u ts =>
      obtain ⟨hok, hext⟩ := h.entry (.inr rfl) t
        (show k + entrySlots t ≤ 31 by omega)
      obtain ⟨hok', hext'⟩ := ih hok (by unfold slotsUsed; omega)
      unfold slotsUsed at hok'
      rw [Nat.add_assoc, show ((d + entrySlots t) % 31 + ((u :: ts).map entrySlots).sum) % 31 =
        (d + (entrySlots t + ((u :: ts).map entrySlots).sum)) % 31 by omega] at hok'
      exact ⟨hok', hext.trans hext'⟩

theorem RingOk.stopChannel (h : RingOk env k d s) : RingOk env k d (stopChannel s) :=
  ⟨h.index_lt, h.queueable, h.loop, h.tadr, h.qwc_lt, h.gap, h.pending, h.clean, h.loaded⟩

theorem RingOk.restart (h : RingOk env k d s) : RingOk env k d (restart s) :=
  ⟨h.index_lt, h.queueable, h.loop, h.tadr, h.qwc_lt, h.gap, h.pending, h.clean, h.loaded⟩

theorem Extends.restart (h : Extends s t) : Extends s (restart t) :=
  ⟨h.tadr, h.madr, h.qwc, h.loaded, h.pending, h.tags, h.iopTags⟩

/-- What is left to transfer for a slot: the start address and the number of quadwords. -/
def remaining (s : SifDma) (i : Nat) : Nat × Nat :=
  if s.qwc ≠ 0 ∧ i = s.loaded then (s.madr, s.qwc)
  else ((s.tags i).addr, tagQwc (s.tags i))

theorem Extends.remaining_eq (h : Extends s t) (hi : i ∈ s.pending) :
    remaining t i = remaining s i := by
  unfold remaining
  rw [h.qwc, h.loaded, h.madr, h.tags i hi]

theorem physAddr_eq_mod (x : Nat) : physAddr x = x % 2 ^ 29 := and_mask x 29

theorem sifDmaSetupTag_index (env : DmaEnv) (f : Nat) (s : SifDma) :
    (sifDmaSetupTag env f s).index = s.index ∧ (sifDmaSetupTag env f s).count = s.count := by
  unfold sifDmaSetupTag
  split_ifs <;> exact ⟨rfl, rfl⟩

theorem sifDmaSetupTag_pending (env : DmaEnv) (f : Nat) (s : SifDma) :
    (sifDmaSetupTag env f s).pending = s.pending := by
  unfold sifDmaSetupTag
  split_ifs <;> rfl

theorem sifDmaSetupTag_iopTags (env : DmaEnv) (f : Nat) (s : SifDma) :
    (sifDmaSetupTag env f s).iopTags = s.iopTags := by
  unfold sifDmaSetupTag
  split_ifs <;> rfl

theorem sifDmaSetupTag_tags (env : DmaEnv) (f : Nat) (s : SifDma) (hi : i ≠ s.index) :
    (sifDmaSetupTag env f s).tags i = s.tags i := by
  unfold sifDmaSetupTag
  split_ifs
  · rfl
  · exact Function.update_of_ne hi _ _
  · exact Function.update_of_ne hi _ _

theorem RingOk.relink (h : RingOk env k d s) :
    RingOk env k d (setTag s s.index
      ⟨(s.tags s.index).idQwc ||| eeDmatagId .ref, (s.tags s.index).addr⟩) := by
  have hi := h.index_lt
  refine ⟨hi, ?_, ?_, h.tadr, h.qwc_lt, h.gap, h.pending, h.clean, h.loaded⟩
  · intro i hlt
    simp only [setTag, Function.update_apply]
    split_ifs
    · exact (h.queueable s.index hi).relink _
    · exact h.queueable i hlt
  · simp only [setTag, Function.update_apply]
    rw [if_neg (by omega)]
    exact h.loop

theorem RingOk.rebuild (h : RingOk env k 0 s) :
    RingOk env k 1 { setTag s s.index
        ⟨((s.tags s.index).idQwc &&& 0x8c000000) ||| eeDmatagId .ref ||| s.qwc, s.madr⟩ with
      qwc := 0, tadr := physAddr (env.dmatags + s.index * 16) } := by
  have hi := h.index_lt
  have hp := env.dmatags_phys
  have ht : physAddr (env.dmatags + s.index * 16) = env.dmatags + 16 * s.index := by
    rw [physAddr_eq_mod, Nat.mod_eq_of_lt (by omega)]
    omega
  constructor
  case index_lt => exact hi
  case queueable =>
    intro i hlt
    simp only [setTag, Function.update_apply]
    split_ifs
    · exact queueable_rebuild h.qwc_lt _ _
    · exact h.queueable i hlt
  case loop =>
    simp only [setTag, Function.update_apply]
    rw [if_neg (by omega)]
    exact h.loop
  case tadr => exact ⟨s.index, by omega, ht⟩
  case qwc_lt => exact Nat.two_pow_pos 16
  case gap =>
    rw [sifDmaGetHwIndex_eq (i := s.index) (by omega) ht]
    unfold ringBack
    simp only [setTag]
    split_ifs <;> omega
  case pending => exact h.pending
  case clean => exact h.clean
  case loaded => exact fun hz => absurd rfl hz

/-- The three ways a call can find the ring. In the last one the tag in the channel, if any,
keeps its slot. -/
theorem RingOk.setup (h : RingOk env k d s) (hk : k ≤ d + if s.qwc = 0 then 0 else 1) :
    ∃ d', RingOk env k d' (sifDmaSetupTag env (sifGetNumberOfFreeDmaTags env s) s) ∧
      (sifGetNumberOfFreeDmaTags env s = 31 ∧ d' = 0 ∧ k = 0 ∧
          (sifDmaSetupTag env (sifGetNumberOfFreeDmaTags env s) s).qwc = 0 ∨
        sifGetNumberOfFreeDmaTags env s = 30 ∧ d' = 1 ∧ k ≤ 1 ∧
          (sifDmaSetupTag env (sifGetNumberOfFreeDmaTags env s) s).qwc = 0 ∨
        sifGetNumberOfFreeDmaTags env s + d' = 30 ∧ 1 ≤ d' ∧
          k ≤ d' + if (sifDmaSetupTag env (sifGetNumberOfFreeDmaTags env s) s).qwc = 0
            then 0 else 1) := by
  have hd := h.gap_lt
  rw [h.freetags]
  by_cases h0 : d = 0
  · subst h0
    by_cases hq : s.qwc = 0
    · have h31 : (if 0 = 0 then (if s.qwc ≠ 0 then 30 else 31) else 30 - 0) = 31 := by
        rw [if_pos rfl, if_neg (not_not.mpr hq)]
      rw [if_pos hq] at hk
      rw [h31]
      exact ⟨0, h, .inl ⟨rfl, rfl, by omega, hq⟩⟩
    · have h30 : (if 0 = 0 then (if s.qwc ≠ 0 then 30 else 31) else 30 - 0) = 30 := by
        rw [if_pos rfl, if_pos hq]
      rw [if_neg hq] at hk
      rw [h30]
      exact ⟨1, h.rebuild, .inr (.inl ⟨rfl, rfl, by omega, rfl⟩)⟩
  · rw [if_neg h0]
    have hs : sifDmaSetupTag env (30 - d) s = setTag s s.index
        ⟨(s.tags s.index).idQwc ||| eeDmatagId .ref, (s.tags s.index).addr⟩ := by
      unfold sifDmaSetupTag
      rw [if_neg (by omega), if_neg (by omega)]
    rw [hs]
    exact ⟨d, h.relink, .inr (.inr ⟨by omega, by omega, hk⟩)⟩

theorem RingOk.setup_remaining (h : RingOk env k d s) (hi : i ∈ s.pending)
    (hk : k ≤ d + if s.qwc = 0 then 0 else 1) :
    remaining (sifDmaSetupTag env (sifGetNumberOfFreeDmaTags env s) s) i = remaining s i := by
  have hd := h.gap_lt
  rw [h.freetags]
  unfold sifDmaSetupTag
  by_cases h0 : d = 0
  · by_cases hq : s.qwc = 0
    · rw [if_pos h0, if_neg (not_not.mpr hq), if_pos rfl]
    · -- Only the newest slot can be open here, and its tag is the one in the channel.
      have hidx : i = s.index := by
        rw [h.pending, mem_ringSegment] at hi
        rw [if_neg hq, h0] at hk
        exact (ringBack_eq_zero hi.1).mp (by omega)
      have hl : s.loaded = s.index := by
        rw [h.loaded hq]
        exact (ringBack_eq_zero h.hw_lt).mp (h.gap.trans h0)
      rw [if_pos h0, if_pos hq, if_neg (by decide), if_pos rfl, hidx]
      unfold remaining
      rw [if_neg (fun hc => hc.1 rfl), if_pos ⟨hq, hl.symm⟩]
      simp only [setTag, Function.update_self, tagQwc_rebuild h.qwc_lt]
  · rw [if_neg h0, if_neg (by omega), if_neg (by omega)]
    unfold remaining
    simp only [setTag, Function.update_apply]
    split_ifs with h1 h2
    · rfl
    · rw [tagQwc_relink, h2]
      rfl
    · rfl

/-- The slots that are not completed are the newest ones, and no more than the queued tags and
the one in the channel. -/
def RingInv (env : DmaEnv) (s : SifDma) : Prop :=
  ∃ k d, RingOk env k d s ∧ k ≤ d + if s.qwc = 0 then 0 else 1

/-- The slots a call finds when no tag waits behind the one in the channel. -/
def SifDma.room (s : SifDma) : Nat := if s.qwc ≠ 0 then 30 else 31

/-- A call must not fill the ring when no tag waits behind the one in the channel. -/
def CallOk (env : DmaEnv) (s : SifDma) : DmaAction → Prop
  | .setDma ts => sifDmaGetHwIndex env s = s.index → countTags ts ≤ s.room → slotsUsed ts < s.room
  | _ => True

instance (env : DmaEnv) (s : SifDma) (a : DmaAction) : Decidable (CallOk env s a) := by
  cases a <;> unfold CallOk <;> infer_instance

theorem ringInv_init (env : DmaEnv) : RingInv env (sifDmaInit env .zero) := by
  have ht : (sifDmaInit env .zero).tadr = env.dmatags + 16 * 0 := rfl
  refine ⟨0, 0, ?_, Nat.zero_le _⟩
  constructor
  case index_lt => exact (by decide : 30 < 31)
  case queueable =>
    intro i hi
    left
    simp only [sifDmaInit, setTag, Function.update_apply]
    rw [if_neg (by omega)]
    simp [SifDma.zero, tagId]
  case loop => rfl
  case tadr => exact ⟨0, by omega, ht⟩
  case qwc_lt => exact Nat.two_pow_pos 16
  case gap =>
    rw [sifDmaGetHwIndex_eq (by omega) ht]
    rfl
  case pending => exact (ringSegment_zero _ _).symm
  case clean => rfl
  case loaded => exact fun hz => absurd rfl hz

theorem RingOk.add_free_le (h : RingOk env k d s) (hk : k ≤ d + if s.qwc = 0 then 0 else 1) :
    k + sifGetNumberOfFreeDmaTags env s ≤ 31 := by
  have hd := h.gap_lt
  rw [h.freetags]
  split_ifs at * <;> omega

theorem RingInv.card_add_free (h : RingInv env s) :
    s.pending = ringSegment 31 s.index s.pending.card ∧
      s.pending.card + sifGetNumberOfFreeDmaTags env s ≤ 31 := by
  obtain ⟨k, d, hok, hk⟩ := h
  have hle := hok.add_free_le hk
  have hc : s.pending.card = k := by
    rw [hok.pending]
    exact card_ringSegment hok.index_lt (by omega)
  rw [hc]
  exact ⟨hok.pending, hle⟩

theorem sifSetDma_accepted (h : countTags ts ≤ sifGetNumberOfFreeDmaTags env s) :
    (sifSetDma env ts s).2 = restart (transferAll env ts
      (sifDmaSetupTag env (sifGetNumberOfFreeDmaTags env (stopChannel s)) (stopChannel s))) :=
  congrArg Prod.snd (if_pos h)

theorem sifSetDma_refused (h : ¬countTags ts ≤ sifGetNumberOfFreeDmaTags env s) :
    (sifSetDma env ts s).2 = restart (stopChannel s) :=
  congrArg Prod.snd (if_neg h)

theorem RingOk.callOk_iff (h : RingOk env k d s) :
    CallOk env s (.setDma ts) ↔ (countTags ts ≤ sifGetNumberOfFreeDmaTags env s →
      30 ≤ sifGetNumberOfFreeDmaTags env s → slotsUsed ts < sifGetNumberOfFreeDmaTags env s) := by
  have hgap := h.gap
  have hd := h.gap_lt
  rw [h.freetags]
  unfold CallOk SifDma.room
  by_cases h0 : d = 0
  · have he : sifDmaGetHwIndex env s = s.index :=
      (ringBack_eq_zero h.hw_lt).mp (hgap.trans h0)
    simp only [he, h0, if_true, true_imp_iff]
    split_ifs <;> simp
  · have he : sifDmaGetHwIndex env s ≠ s.index := by
      intro he
      rw [he, ringBack_self] at hgap
      exact h0 hgap.symm
    rw [if_neg h0]
    exact ⟨fun _ _ h30 => by omega, fun _ hc => absurd hc he⟩

/-- A call that is accepted extends the queue. It closes the ring exactly if it is not `CallOk`. -/
theorem RingOk.accept (h : RingOk env k d s) (hk : k ≤ d + if s.qwc = 0 then 0 else 1)
    (hn : countTags ts ≤ sifGetNumberOfFreeDmaTags env s) :
    ∃ e, RingOk env (k + slotsUsed ts) e (sifSetDma env ts s).2 ∧
      (CallOk env s (.setDma ts) →
        k + slotsUsed ts ≤ e + if (sifSetDma env ts s).2.qwc = 0 then 0 else 1) ∧
      (¬CallOk env s (.setDma ts) →
        e = 0 ∧ (sifSetDma env ts s).2.qwc = 0 ∧ 30 ≤ slotsUsed ts ∧ k + slotsUsed ts ≤ 31) := by
  have hw := slotsUsed_le ts
  obtain ⟨e, hok, hcase⟩ := h.stopChannel.setup hk
  have hf : sifGetNumberOfFreeDmaTags env (Sif.stopChannel s) =
    sifGetNumberOfFreeDmaTags env s := rfl
  have hle := h.add_free_le hk
  have hroom : k + slotsUsed ts ≤ 31 := by omega
  obtain ⟨hok', hext⟩ := hok.transfers ts hroom
  have hq : (sifSetDma env ts s).2.qwc = _ := (congrArg SifDma.qwc (sifSetDma_accepted hn)).trans
    hext.qwc
  refine ⟨(e + slotsUsed ts) % 31, sifSetDma_accepted hn ▸ hok'.restart, ?_, ?_⟩
  · intro hc
    have hc' := h.callOk_iff.mp hc hn
    rw [hq]
    rcases hcase with ⟨hf', he, hk', _⟩ | ⟨hf', he, hk', _⟩ | ⟨hf', he, hk'⟩
    · have hlt := hc' (by omega)
      omega
    · have hlt := hc' (by omega)
      omega
    · rw [Nat.mod_eq_of_lt (by omega)]
      split_ifs at * <;> omega
  · intro hc
    simp only [h.callOk_iff, not_forall] at hc
    obtain ⟨_, h30, hlt⟩ := hc
    rw [hq]
    rcases hcase with ⟨hf', he, _, hq0⟩ | ⟨hf', he, _, hq0⟩ | ⟨hf', he, _⟩
    · exact ⟨by omega, hq0, by omega, hroom⟩
    · exact ⟨by omega, hq0, by omega, hroom⟩
    · omega

/-- No call touches the data or the rest of a transfer that is not completed; of its tags only
the newest one is written, to link it on. -/
theorem RingInv.call_keeps (h : RingInv env s) (ts : List Transfer) (hi : i ∈ s.pending) :
    (sifSetDma env ts s).2.iopTags i = s.iopTags i ∧
      remaining (sifSetDma env ts s).2 i = remaining s i ∧
      (i ≠ s.index → (sifSetDma env ts s).2.tags i = s.tags i) := by
  obtain ⟨k, d, hok, hk⟩ := h
  by_cases hn : countTags ts ≤ sifGetNumberOfFreeDmaTags env s
  · have hw := slotsUsed_le ts
    obtain ⟨e, hok', _⟩ := hok.stopChannel.setup hk
    have hle := hok.add_free_le hk
    have hext := (hok'.transfers ts (by omega)).2.restart
    have hp : i ∈ (sifDmaSetupTag env (sifGetNumberOfFreeDmaTags env (stopChannel s))
        (stopChannel s)).pending := by
      rw [sifDmaSetupTag_pending]
      exact hi
    rw [sifSetDma_accepted hn]
    refine ⟨?_, ?_, ?_⟩
    · rw [hext.iopTags i hp, sifDmaSetupTag_iopTags]
      rfl
    · rw [hext.remaining_eq hp, hok.stopChannel.setup_remaining hi hk]
      rfl
    · intro hne
      exact (hext.tags i hp).trans (sifDmaSetupTag_tags env _ (stopChannel s) hne)
  · rw [sifSetDma_refused hn]
    exact ⟨rfl, rfl, fun _ => rfl⟩

theorem RingInv.call (h : RingInv env s) (hc : CallOk env s (.setDma ts)) :
    RingInv env (sifSetDma env ts s).2 := by
  obtain ⟨k, d, hok, hk⟩ := h
  by_cases hn : countTags ts ≤ sifGetNumberOfFreeDmaTags env s
  · obtain ⟨e, hok', hle, _⟩ := hok.accept hk hn
    exact ⟨_, e, hok', hle hc⟩
  · rw [sifSetDma_refused hn]
    exact ⟨k, d, hok.stopChannel.restart, hk⟩

/-- After a call that closes the ring the free count no longer shows what is queued. -/
theorem RingInv.call_closes (h : RingInv env s) (hc : ¬CallOk env s (.setDma ts)) :
    31 < (sifSetDma env ts s).2.pending.card +
      sifGetNumberOfFreeDmaTags env (sifSetDma env ts s).2 := by
  obtain ⟨k, d, hok, hk⟩ := h
  have hn : countTags ts ≤ sifGetNumberOfFreeDmaTags env s := by
    by_contra hn
    exact hc (hok.callOk_iff.mpr fun h => absurd h hn)
  obtain ⟨e, hok', _, hcl⟩ := hok.accept hk hn
  obtain ⟨he, hq, h30, h31⟩ := hcl hc
  rw [hok'.freetags, hok'.pending, card_ringSegment hok'.index_lt h31, if_pos he,
    if_neg (not_not.mpr hq)]
  omega

theorem RingOk.load_slot (h : RingOk env k d s) (hi : i < 31)
    (ht : s.tadr = env.dmatags + 16 * i) (hk : k ≤ d) (m : Nat) (b : Bool) :
    RingInv env (settle (latch s i m (s.tadr + 16) b)) := by
  have h31 := h.index_lt
  have hg := h.gap
  rw [sifDmaGetHwIndex_eq (by omega) ht] at hg
  -- The next hardware index: one slot nearer, unless the queue was empty.
  have hback : ringBack 31 s.index i = if d = 0 then 30 else d - 1 := by
    unfold ringBack at *
    split_ifs at * <;> omega
  have ht' : (latch s i m (s.tadr + 16) b).tadr = env.dmatags + 16 * (i + 1) := by
    simp only [latch]
    omega
  have hhw : sifDmaGetHwIndex env (latch s i m (s.tadr + 16) b) = i := by
    rw [sifDmaGetHwIndex_eq (by omega) ht', if_pos (by omega)]
    omega
  have hshape (p : Finset Nat) (l : Nat) (hp : p = ringSegment 31 s.index l) :
      RingOk env l (if d = 0 then 30 else d - 1)
        { latch s i m (s.tadr + 16) b with pending := p } :=
    ⟨h31, h.queueable, h.loop, ⟨i + 1, by omega, ht'⟩, Nat.mod_lt _ (by decide),
      (congrArg _ hhw).trans hback, hp, h.clean, fun _ => hhw.symm⟩
  unfold settle
  by_cases hz : (latch s i m (s.tadr + 16) b).qwc = 0
  · rw [if_pos hz]
    by_cases hkd : k = d ∧ d ≠ 0
    · refine ⟨k - 1, _, hshape _ _ ?_, ?_⟩
      · change s.pending.erase i = _
        rw [h.pending, show k = k - 1 + 1 by omega]
        exact ringSegment_pop hi (by rw [hback, if_neg hkd.2]; omega)
      · rw [if_neg hkd.2]
        omega
    · refine ⟨k, _, hshape _ _ ?_, ?_⟩
      · change s.pending.erase i = _
        rw [h.pending]
        apply Finset.erase_eq_of_notMem
        apply not_mem_ringSegment
        rw [hback]
        split_ifs <;> omega
      · split_ifs <;> omega
  · rw [if_neg hz]
    refine ⟨k, _, hshape _ _ h.pending, ?_⟩
    rw [if_neg hz]
    split_ifs <;> omega

theorem tagId_loop (a : Nat) : tagId ⟨eeDmatagId .next, a⟩ = DmatagId.code .next := by
  change (2 <<< 28 >>> 28 &&& 7 : Nat) = 2
  decide

theorem tagQwc_loop (a : Nat) : tagQwc ⟨eeDmatagId .next, a⟩ = 0 := by
  change (2 <<< 28 % 2 ^ 16 : Nat) = 0
  decide

/-- Tag 31 leads back to tag 0 and leaves the hardware index as it is. -/
theorem RingOk.load_loop (h : RingOk env k d s)
    (ht : s.tadr = env.dmatags + 16 * 31) (hk : k ≤ d) (m : Nat) :
    RingInv env (settle (latch s 31 m (s.tags 31).addr false)) := by
  have ht' : (latch s 31 m (s.tags 31).addr false).tadr = env.dmatags + 16 * 0 :=
    congrArg EeDmatag.addr h.loop
  have hhw : sifDmaGetHwIndex env (latch s 31 m (s.tags 31).addr false) =
      sifDmaGetHwIndex env s := by
    rw [sifDmaGetHwIndex_eq (by omega) ht', sifDmaGetHwIndex_eq (by omega) ht]
    rfl
  have hz : (latch s 31 m (s.tags 31).addr false).qwc = 0 := by
    simp only [latch, h.loop]
    exact tagQwc_loop _
  have hp : s.pending.erase 31 = ringSegment 31 s.index k := by
    rw [h.pending]
    apply Finset.erase_eq_of_notMem
    rw [mem_ringSegment]
    omega
  unfold settle
  rw [if_pos hz]
  refine ⟨k, d, ⟨h.index_lt, h.queueable, h.loop, ⟨0, by omega, ht'⟩, ?_, ?_, hp, h.clean, ?_⟩, ?_⟩
  · exact hz ▸ Nat.two_pow_pos 16
  · exact (congrArg _ hhw).trans h.gap
  · exact fun hne => absurd hz hne
  · exact Nat.le_trans hk (Nat.le_add_right _ _)

theorem RingInv.load (h : RingInv env s) (hq : s.qwc = 0) (hl : dmacLoad env s = some t) :
    RingInv env t := by
  obtain ⟨k, d, hok, hk⟩ := h
  rw [if_pos hq, Nat.add_zero] at hk
  obtain ⟨i, hi, ht⟩ := hok.tadr
  unfold dmacLoad at hl
  simp only [hwNext_eq hi ht] at hl
  by_cases h31 : i = 31
  · subst h31
    have hid : tagId (s.tags 31) = DmatagId.code .next := by
      rw [hok.loop]
      exact tagId_loop _
    rw [hid] at hl
    simp only [DmatagId.code, OfNat.ofNat_ne_zero, ↓reduceIte] at hl
    cases hl
    exact hok.load_loop ht hk _
  · split_ifs at hl with h1 h2 h3
    · cases hl
      exact hok.load_slot (by omega) ht hk _ _
    · cases hl
      exact hok.load_slot (by omega) ht hk _ _
    · have hqe := hok.queueable i (by omega)
      rw [Queueable, h3] at hqe
      simp [DmatagId.code] at hqe

theorem RingInv.move (h : RingInv env s) (hq : s.qwc ≠ 0) : RingInv env (dmacMove s) := by
  obtain ⟨k, d, hok, hk⟩ := h
  rw [if_neg hq] at hk
  have hshape (p : Finset Nat) (l : Nat) (hp : p = ringSegment 31 s.index l) :
      RingOk env l d { s with madr := s.madr + 16, qwc := s.qwc - 1, pending := p } :=
    ⟨hok.index_lt, hok.queueable, hok.loop, hok.tadr,
      Nat.lt_of_le_of_lt (Nat.sub_le _ _) hok.qwc_lt, hok.gap, hp, hok.clean,
      fun _ => hok.loaded hq⟩
  unfold dmacMove settle
  simp only
  by_cases hz : s.qwc - 1 = 0
  · rw [if_pos hz]
    -- The last quadword of the tag in the channel: its slot is the oldest of a full segment.
    by_cases hkd : k = d + 1
    · refine ⟨d, d, hshape _ _ ?_, Nat.le_add_right _ _⟩
      rw [hok.loaded hq, hok.pending, hkd]
      exact ringSegment_pop hok.hw_lt hok.gap
    · refine ⟨k, d, hshape _ _ ?_, ?_⟩
      · rw [hok.loaded hq, hok.pending]
        exact Finset.erase_eq_of_notMem (not_mem_ringSegment (by rw [hok.gap]; omega))
      · exact Nat.le_trans (by omega) (Nat.le_add_right d _)
  · rw [if_neg hz]
    refine ⟨k, d, hshape _ _ hok.pending, ?_⟩
    simp only [if_neg hz]
    exact hk

theorem RingInv.step {a : DmaAction} (h : RingInv env s) (hc : CallOk env s a)
    (hs : dmaStep env s a = some t) : RingInv env t := by
  cases dmaStep_stepped hs with
  | setDma hne => exact h.call hc
  | load hstr hqwc he hload => exact h.load hqwc hload
  | move hstr hqwc => exact h.move hqwc
  | stop hstr hqwc =>
    obtain ⟨k, d, hok, hk⟩ := h
    exact ⟨k, d, hok.stopChannel, hk⟩

/-- Calls and hardware steps from `sif_dma_init` on, in any order, whose calls are `CallOk`. -/
abbrev SifDma.Reachable (env : DmaEnv) : SifDma → Prop :=
  Reach (fun s => s = sifDmaInit env .zero) (fun s a t => dmaStep env s a = some t) (CallOk env)

theorem SifDma.Reachable.ringInv (h : SifDma.Reachable env s) : RingInv env s :=
  h.invariant (fun _ hs => hs ▸ ringInv_init env) (fun _ _ _ hi hc hs => hi.step hc hs)

/-- In every run whose calls do not fill the ring at once, the slots that are not completed are
the newest ones, the free count leaves them out, and no call touches them. A call that does fill
it at once breaks the bound in the very next state. -/
theorem sifSetDma_ring_safe {s : SifDma} (h : SifDma.Reachable env s) :
    s.clobbered = false ∧ s.pending = ringSegment 31 s.index s.pending.card ∧
      s.pending.card + sifGetNumberOfFreeDmaTags env s ≤ 31 ∧
      (∀ ts, ∀ i ∈ s.pending, (sifSetDma env ts s).2.iopTags i = s.iopTags i ∧
        remaining (sifSetDma env ts s).2 i = remaining s i ∧
        (i ≠ s.index → (sifSetDma env ts s).2.tags i = s.tags i)) ∧
      (∀ ts, (sifSetDma env ts s).2.pending.card +
        sifGetNumberOfFreeDmaTags env (sifSetDma env ts s).2 ≤ 31 ↔ CallOk env s (.setDma ts)) := by
  have hinv := h.ringInv
  obtain ⟨hseg, hle⟩ := hinv.card_add_free
  obtain ⟨k, d, hok, -⟩ := hinv
  refine ⟨hok.clean, hseg, hle, fun ts i hi => h.ringInv.call_keeps ts hi, fun ts => ⟨?_, ?_⟩⟩
  · intro hb
    by_contra hc
    have := h.ringInv.call_closes hc
    omega
  · intro hc
    exact (h.ringInv.call hc).card_add_free.2

/-- A machine with the tables at the start of memory, for the runs below. -/
def lowEnv : DmaEnv where
  dmatags := 0
  iopDmatags := 4096
  lq := fun _ => 0
  dmatags_phys := by decide
  iop_phys := by decide

/-- One quadword for the IOP. -/
def oneQuad : Transfer := ⟨0x1000, 0x2000, 16, 0⟩

theorem sifSetDma_ring_safe_after_call :
    (sifSetDma lowEnv [oneQuad] (sifDmaInit lowEnv .zero)).2.clobbered = false ∧
      (sifSetDma lowEnv [oneQuad] (sifDmaInit lowEnv .zero)).2.pending = {0} := by
  have hr : SifDma.Reachable lowEnv (sifSetDma lowEnv [oneQuad] (sifDmaInit lowEnv .zero)).2 :=
    .next (.start rfl) (a := .setDma [oneQuad]) (by decide) rfl
  exact ⟨(sifSetDma_ring_safe hr).1, by decide⟩

/-- 31 tags fill the empty ring, which then looks empty: the next call takes a queued slot. -/
theorem sifSetDma_overwrites_full_ring :
    let s := (sifSetDma lowEnv (List.replicate 31 oneQuad) (sifDmaInit lowEnv .zero)).2
    s.pending.card = 31 ∧ sifGetNumberOfFreeDmaTags lowEnv s = 31 ∧
      0 ∈ s.pending ∧ (sifSetDma lowEnv [⟨0x3000, 0x4000, 16, 0⟩] s).2.clobbered = true ∧
      ((sifSetDma lowEnv [⟨0x3000, 0x4000, 16, 0⟩] s).2.iopTags 0).addr ≠ (s.iopTags 0).addr := by
  decide +kernel

end KernelLoader.Sif
