import KernelLoader.Sif.DmaRing

namespace KernelLoader.Sif
open Lib
set_option autoImplicit true
set_option relaxedAutoImplicit false

variable {env : DmaEnv} {ts : List Transfer}

/-- The software part of the ring after `n` more tags: only their slots have changed. -/
structure Touches (s s' : SifDma) (n : Nat) : Prop where
  index : s'.index = ringAhead 31 s.index n
  count : s'.count = (s.count + (s.index + n) / 31) % 2 ^ 16
  tags : ∀ i, (∀ j < n, i ≠ ringAhead 31 s.index (j + 1)) → s'.tags i = s.tags i
  iopTags : ∀ i, (∀ j < n, i ≠ ringAhead 31 s.index (j + 1)) → s'.iopTags i = s.iopTags i

theorem Touches.trans (h : Touches s t m) (h' : Touches t u n) : Touches s u (m + n) := by
  have hslot (j : Nat) : ringAhead 31 t.index (j + 1) = ringAhead 31 s.index (m + j + 1) := by
    rw [h.index, ringAhead_ahead, Nat.add_assoc]
  constructor
  case index => rw [h'.index, h.index, ringAhead_ahead]
  case count =>
    rw [h'.count, h.count, h.index, ringAhead]
    omega
  case tags =>
    intro i hi
    rw [h'.tags i, h.tags i fun j hj => hi j (by omega)]
    intro j hj
    rw [hslot]
    exact hi (m + j) (by omega)
  case iopTags =>
    intro i hi
    rw [h'.iopTags i, h.iopTags i fun j hj => hi j (by omega)]
    intro j hj
    rw [hslot]
    exact hi (m + j) (by omega)

theorem Touches.next (hi : s.index < 31) (hc : s.count < 2 ^ 16) (t : EeDmatag) :
    Touches s (putTag (setNextDmatag s) t) 1 := by
  have hidx : (setNextDmatag s).index = ringAhead 31 s.index 1 := by
    rw [setNextDmatag_index hi, ringNext_eq_ahead hi]
  constructor
  case index => exact hidx
  case count =>
    simp only [putTag, setTag, setNextDmatag]
    split_ifs <;> omega
  case tags =>
    intro i hne
    refine Function.update_of_ne ?_ _ _
    rw [hidx]
    exact hne 0 Nat.one_pos
  case iopTags => exact fun i _ => rfl

theorem Touches.setIopTag (h : Touches s t n) (hi : i = ringAhead 31 s.index (j + 1)) (hj : j < n)
    (v : IopDmatag) : Touches s (setIopTag t i v) n := by
  refine ⟨h.index, h.count, h.tags, ?_⟩
  intro k hk
  simp only [Sif.setIopTag, Function.update_apply]
  rw [if_neg (hi ▸ hk j hj)]
  exact h.iopTags k hk

theorem Touches.entry (hi : s.index < 31) (hc : s.count < 2 ^ 16) (t : Transfer) (id : DmatagId) :
    Touches s (sifDmaTransfer env t id s) (entrySlots t) := by
  have hidx : (setNextDmatag s).index = ringAhead 31 s.index (0 + 1) := by
    rw [setNextDmatag_index hi, ringNext_eq_ahead hi]
  cases sifDmaTransfer_cases env t id s with
  | inl hone =>
    obtain ⟨he, tag, data, _, heq⟩ := hone
    rw [heq, he]
    exact (Touches.next hi hc tag).setIopTag hidx Nat.one_pos data
  | inr htwo =>
    obtain ⟨he, tag, tag', data, _, _, heq⟩ := htwo
    have hfst := Touches.next hi hc tag
    have hsnd := hfst.trans (Touches.next (hfst.index ▸ ringAhead_lt (by decide) _ _)
      (hfst.count ▸ Nat.mod_lt _ (by decide)) tag')
    rw [heq, he]
    exact hsnd.setIopTag hidx Nat.two_pos data

theorem Touches.refl (hi : s.index < 31) (hc : s.count < 2 ^ 16) : Touches s s 0 := by
  refine ⟨(ringAhead_zero hi).symm, ?_, fun _ _ => rfl, fun _ _ => rfl⟩
  rw [Nat.add_zero, Nat.div_eq_of_lt hi, Nat.add_zero, Nat.mod_eq_of_lt hc]

theorem Touches.transfers (hi : s.index < 31) (hc : s.count < 2 ^ 16) (ts : List Transfer) :
    Touches s (transferAll env ts s) (slotsUsed ts) := by
  induction ts generalizing s with
  | nil => exact .refl hi hc
  | cons t ts ih =>
    cases ts with
    | nil => exact .entry hi hc t .refe
    | cons u ts =>
      have hfst : Touches s (sifDmaTransfer env t .ref s) (entrySlots t) := .entry hi hc t .ref
      exact hfst.trans (ih (hfst.index ▸ ringAhead_lt (by decide) _ _)
        (hfst.count ▸ Nat.mod_lt _ (by decide)))

/-- What holds of the ring in every run, also of those that fill it at once. -/
structure Placed (env : DmaEnv) (s : SifDma) : Prop where
  index_lt : s.index < 31
  count_lt : s.count < 2 ^ 16
  queueable : ∀ i < 31, Queueable (s.tags i)
  loop : s.tags 31 = ⟨eeDmatagId .next, env.dmatags⟩
  tadr : ∃ i ≤ 31, s.tadr = env.dmatags + 16 * i
  qwc_lt : s.qwc < 2 ^ 16

theorem Placed.init (env : DmaEnv) : Placed env (sifDmaInit env .zero) := by
  obtain ⟨k, d, hok, -⟩ := ringInv_init env
  exact ⟨hok.index_lt, (by decide : 0xffff < 2 ^ 16), hok.queueable, hok.loop, hok.tadr, hok.qwc_lt⟩

theorem Placed.setTag (h : Placed env s) (hi : i < 31) (hq : Queueable t) :
    Placed env (setTag s i t) := by
  refine ⟨h.index_lt, h.count_lt, ?_, ?_, h.tadr, h.qwc_lt⟩
  · intro j hj
    simp only [Sif.setTag, Function.update_apply]
    split_ifs
    · exact hq
    · exact h.queueable j hj
  · simp only [Sif.setTag, Function.update_apply]
    rw [if_neg (by omega)]
    exact h.loop

theorem Placed.next (h : Placed env s) (hq : Queueable t) :
    Placed env (putTag (setNextDmatag s) t) := by
  have htouch := Touches.next h.index_lt h.count_lt t
  have hlt : (setNextDmatag s).index < 31 := htouch.index ▸ ringAhead_lt (by decide) _ _
  have hcount : (setNextDmatag s).count < 2 ^ 16 := htouch.count ▸ Nat.mod_lt _ (by decide)
  have hset : Placed env (Sif.setTag (setNextDmatag s) (setNextDmatag s).index t) :=
    Placed.setTag ⟨hlt, hcount, h.queueable, h.loop, h.tadr, h.qwc_lt⟩ hlt hq
  exact ⟨hlt, hcount, hset.queueable, hset.loop, h.tadr, h.qwc_lt⟩

theorem Placed.setIopTag (h : Placed env s) (i : Nat) (t : IopDmatag) :
    Placed env (setIopTag s i t) :=
  ⟨h.index_lt, h.count_lt, h.queueable, h.loop, h.tadr, h.qwc_lt⟩

theorem Placed.entry {id : DmatagId} (h : Placed env s) (hid : id = .refe ∨ id = .ref)
    (t : Transfer) : Placed env (sifDmaTransfer env t id s) := by
  cases sifDmaTransfer_cases env t id s with
  | inl hone =>
    obtain ⟨_, tag, data, hq, heq⟩ := hone
    rw [heq]
    exact (h.next (hq hid)).setIopTag _ data
  | inr htwo =>
    obtain ⟨_, tag, tag', data, hq, hq', heq⟩ := htwo
    rw [heq]
    exact ((h.next hq).next (hq' hid)).setIopTag _ data

theorem Placed.transfers (h : Placed env s) (ts : List Transfer) :
    Placed env (transferAll env ts s) := by
  induction ts generalizing s with
  | nil => exact h
  | cons t ts ih =>
    cases ts with
    | nil => exact h.entry (.inl rfl) t
    | cons u ts => exact ih (h.entry (.inr rfl) t)

theorem Placed.setup (h : Placed env s) (f : Nat) : Placed env (sifDmaSetupTag env f s) := by
  have hi := h.index_lt
  have hp := env.dmatags_phys
  unfold sifDmaSetupTag
  split_ifs
  · exact h
  · have hset := h.setTag hi (queueable_rebuild h.qwc_lt (s.tags s.index).idQwc s.madr)
    refine { hset with tadr := ⟨s.index, by omega, ?_⟩, qwc_lt := Nat.two_pow_pos 16 }
    change physAddr _ = _
    rw [physAddr_eq_mod, Nat.mod_eq_of_lt (by omega)]
    omega
  · exact h.setTag hi ((h.queueable s.index hi).relink _)

theorem Placed.call (h : Placed env s) (ts : List Transfer) :
    Placed env (sifSetDma env ts s).2 := by
  have hstop : Placed env (stopChannel s) := { h with }
  by_cases hn : countTags ts ≤ sifGetNumberOfFreeDmaTags env s
  · rw [sifSetDma_accepted hn]
    exact { (hstop.setup _).transfers ts with }
  · rw [sifSetDma_refused hn]
    exact { h with }

theorem Placed.latch (h : Placed env s) (i m : Nat) (b : Bool)
    (ht : ∃ j ≤ 31, a = env.dmatags + 16 * j) : Placed env (settle (latch s i m a b)) := by
  have hlatch : Placed env (Sif.latch s i m a b) :=
    { h with tadr := ht, qwc_lt := Nat.mod_lt _ (by decide) }
  unfold settle
  split_ifs
  · exact { hlatch with }
  · exact hlatch

theorem Placed.load (h : Placed env s) (hl : dmacLoad env s = some t) : Placed env t := by
  obtain ⟨i, hi, ht⟩ := h.tadr
  unfold dmacLoad at hl
  simp only [hwNext_eq hi ht] at hl
  by_cases h31 : i = 31
  · subst h31
    rw [h.loop, tagId_loop] at hl
    simp only [DmatagId.code, OfNat.ofNat_ne_zero, ↓reduceIte] at hl
    cases hl
    exact h.latch _ _ _ ⟨0, by omega, rfl⟩
  · have hnext : ∃ j ≤ 31, s.tadr + 16 = env.dmatags + 16 * j := ⟨i + 1, by omega, by omega⟩
    split_ifs at hl with h1 h2 h3
    · cases hl
      exact h.latch _ _ _ hnext
    · cases hl
      exact h.latch _ _ _ hnext
    · have hqe := h.queueable i (by omega)
      rw [Queueable, h3] at hqe
      simp [DmatagId.code] at hqe

theorem Placed.move (h : Placed env s) : Placed env (dmacMove s) := by
  have hlt : s.qwc - 1 < 2 ^ 16 := Nat.lt_of_le_of_lt (Nat.sub_le _ _) h.qwc_lt
  unfold dmacMove settle
  split_ifs
  · exact { h with qwc_lt := hlt }
  · exact { h with qwc_lt := hlt }

theorem Placed.step {a : DmaAction} (h : Placed env s) (hs : dmaStep env s a = some t) :
    Placed env t := by
  cases dmaStep_stepped hs with
  | setDma hne => exact h.call _
  | load hstr hqwc he hload => exact h.load hload
  | move hstr hqwc => exact h.move
  | stop hstr hqwc => exact { h with }

/-- Calls and hardware steps from `sif_dma_init` on, in any order. -/
abbrev SifDma.Ran (env : DmaEnv) : SifDma → Prop :=
  Reach (fun s => s = sifDmaInit env .zero) (fun s a t => dmaStep env s a = some t) fun _ _ => True

theorem SifDma.Ran.placed (h : SifDma.Ran env s) : Placed env s :=
  h.invariant (fun _ hs => hs ▸ .init env) (fun _ _ _ hi _ hs => hi.step hs)

theorem Placed.free_le (h : Placed env s) : sifGetNumberOfFreeDmaTags env s ≤ 31 := by
  obtain ⟨i, hi, ht⟩ := h.tadr
  have hidx := h.index_lt
  have hhw : sifDmaGetHwIndex env s < 31 := by
    rw [sifDmaGetHwIndex_eq hi ht]
    split_ifs <;> omega
  unfold sifGetNumberOfFreeDmaTags
  simp only
  split_ifs with h1 h2 h3
  · omega
  · omega
  · rw [sub32_of_lt h3 (by omega)]
    unfold u32
    omega
  · rw [sub32_of_le (show s.index ≤ sifDmaGetHwIndex env s by omega) (by omega),
      sub32_of_le (by omega) (by omega)]
    omega

/-- The quadwords of an entry, rounded up. -/
def Transfer.quads (t : Transfer) : Nat := (t.size + 15) / 16

/-- What one tag stands for: an IOP tag with the first quadwords of an entry behind it, or the
quadwords that do not fit there. -/
inductive Part
  | head (t : Transfer)
  | tail (t : Transfer)

def Transfer.parts (t : Transfer) : List Part :=
  if t.quads ≤ 7 then [.head t] else [.head t, .tail t]

def parts (ts : List Transfer) : List Part := ts.flatMap Transfer.parts

/-- A tag with these values, which asks for an interrupt only if the entry does. -/
structure TagOk (tag : EeDmatag) (addr qwc : Nat) (id : DmatagId) (attr : Nat) : Prop where
  addr : tag.addr = addr
  qwc : tagQwc tag = qwc
  id : tagId tag = id.code
  irq : tag.idQwc.testBit 31 = true → attr &&& attrIntI ≠ 0

/-- The IOP tag is addressed to the destination, counts all words of the entry and has its first
quadwords behind it. -/
structure IopOk (env : DmaEnv) (t : Transfer) (d : IopDmatag) : Prop where
  dest : d.addr % 2 ^ 24 = t.dest
  size : d.size = 4 * t.quads
  data : ∀ i < min 7 t.quads, d.data i = env.lq (kseg1Addr t.src + i * qwcSize)

/-- The tag in slot `i` describes this part. -/
def Part.Ok (env : DmaEnv) (s : SifDma) (i : Nat) (id : DmatagId) : Part → Prop
  | .head t =>
    TagOk (s.tags i) (iopDmatagAddr env i) (min 7 t.quads + 1) id t.attr ∧ IopOk env t (s.iopTags i)
  | .tail t =>
    TagOk (s.tags i) (physAddr t.src + qwcPayloadFirstPkt * qwcSize) (t.quads - 7) id t.attr

/-- The tags after slot `i` describe the parts one after the other. All of them chain on but the
last, which has the given id. -/
def Describes (env : DmaEnv) (s : SifDma) (id : DmatagId) : Nat → List Part → Prop
  | _, [] => True
  | i, p :: ps =>
    p.Ok env s (ringAhead 31 i 1) (if ps.isEmpty then id else .ref) ∧
      Describes env s id (ringAhead 31 i 1) ps

/-- The entries for which the words of the tags are wide enough: the quadword count has 16 bits, an
address of the IOP 24, and the physical address space ends at 512 MByte. -/
structure Transfer.Exact (t : Transfer) : Prop where
  quads : t.quads ≤ 0xffff + 7
  dest : t.dest < 2 ^ 24
  src : 7 < t.quads → physAddr t.src + qwcPayloadFirstPkt * qwcSize < 2 ^ 29

theorem describes_append {qs : List Part} (s : SifDma) (id : DmatagId) (hi : i < 31)
    (ps : List Part) (hq : qs ≠ []) : Describes env s id i (ps ++ qs) ↔
      Describes env s .ref i ps ∧ Describes env s id (ringAhead 31 i ps.length) qs := by
  induction ps generalizing i with
  | nil =>
    rw [List.nil_append, List.length_nil, ringAhead_zero hi]
    exact ⟨fun h => ⟨trivial, h⟩, fun h => h.2⟩
  | cons p ps ih =>
    have hempty : (ps ++ qs).isEmpty = false := by
      cases ps with
      | nil => simpa using hq
      | cons => rfl
    rw [List.cons_append, Describes, ih (ringAhead_lt (by decide) _ _), Describes, hempty,
      ringAhead_ahead, List.length_cons, Nat.add_comm 1, ite_self, and_assoc]
    rfl

/-- The quadword count is packed without a mask: only its low bits are read. -/
theorem tagQwc_idQwc (id : DmatagId) (q attr addr : Nat) :
    tagQwc ⟨eeDmatagIdQwc id q ||| irqBit attr, addr⟩ = q % 2 ^ 16 := by
  have hid : id.code <<< 28 % 2 ^ 16 = 0 := by cases id <;> rfl
  have hirq : irqBit attr % 2 ^ 16 = 0 := by
    unfold irqBit dmatagIrq
    split_ifs <;> rfl
  unfold tagQwc eeDmatagIdQwc eeDmatagId
  rw [Nat.or_mod_two_pow, Nat.or_mod_two_pow, hid, hirq, Nat.zero_or, Nat.or_zero]

theorem irq_idQwc (id : DmatagId) {q : Nat} (h : q < 2 ^ 28) (attr : Nat) :
    (eeDmatagIdQwc id q ||| irqBit attr).testBit 31 = (irqBit attr).testBit 31 := by
  have hid : (id.code <<< 28).testBit 31 = false := by cases id <;> rfl
  have hq : q.testBit 31 = false := Nat.testBit_lt_two_pow (h.trans (by decide))
  unfold eeDmatagIdQwc eeDmatagId
  rw [Nat.testBit_or, Nat.testBit_or, hid, hq, Bool.false_or, Bool.false_or]

theorem irqBit_requested (attr : Nat) (h : (irqBit attr).testBit 31 = true) :
    attr &&& attrIntI ≠ 0 := by
  unfold irqBit at h
  split_ifs at h with ha
  · exact ha
  · simp at h

theorem tagOk_iff {id : DmatagId} {q : Nat} (hq : q < 2 ^ 28) (a addr n attr : Nat) :
    TagOk ⟨eeDmatagIdQwc id q ||| irqBit attr, a⟩ addr n id attr ↔ a = addr ∧ q % 2 ^ 16 = n := by
  constructor
  · intro h
    exact ⟨h.addr, tagQwc_idQwc id q attr a ▸ h.qwc⟩
  · rintro ⟨rfl, rfl⟩
    refine ⟨rfl, tagQwc_idQwc id q attr a, ?_, fun h => irqBit_requested attr ?_⟩
    · rw [tagId_idQwc id hq]
      cases id <;> rfl
    · rwa [irq_idQwc id hq] at h

theorem tagOk_split (addr attr : Nat) : TagOk ⟨eeDmatagIdQwc .ref 8, addr⟩ addr 8 .ref attr := by
  have hqwc : eeDmatagIdQwc .ref 8 % 2 ^ 16 = 8 := by decide
  have hid : eeDmatagIdQwc .ref 8 >>> 28 &&& 7 = 3 := by decide
  have hirq : (eeDmatagIdQwc .ref 8).testBit 31 = false := by decide
  exact ⟨rfl, hqwc, hid, fun h => absurd h (hirq ▸ Bool.false_ne_true)⟩

/-- The quadwords are counted with 32 bits, which is too few near the top of the sizes. -/
theorem quadwords_eq_iff (t : Transfer) : quadwords t.size = t.quads ↔ t.quads < 2 ^ 28 := by
  unfold quadwords Transfer.quads qwcSize u32
  omega

theorem iopAddr_mod (dest attr : Nat) : iopAddr dest attr % 2 ^ 24 = dest % 2 ^ 24 := by
  have hout : (if attr &&& attrIntO ≠ 0 then 0x40000000 else 0) % 2 ^ 24 = 0 := by
    split_ifs <;> rfl
  have hert : (if attr &&& attrErt ≠ 0 then 0x80000000 else 0) % 2 ^ 24 = 0 := by
    split_ifs <;> rfl
  unfold iopAddr
  rw [Nat.or_mod_two_pow, Nat.or_mod_two_pow, hout, hert, Nat.or_zero, Nat.or_zero,
    show dest &&& 0x00ffffff = dest % 2 ^ 24 from and_mask dest 24, Nat.mod_mod]

theorem iopOk_iff (t : Transfer) (data : Nat → BitVec 128) (hn : n = min 7 (quadwords t.size)) :
    IopOk env t ⟨iopAddr t.dest t.attr, u32 (quadwords t.size * 4), copyPayload env t.src n data⟩ ↔
      t.dest < 2 ^ 24 ∧ t.quads < 2 ^ 28 := by
  have hlt := quadwords_lt t.size
  have hsize : u32 (quadwords t.size * 4) = 4 * t.quads ↔ t.quads < 2 ^ 28 := by
    rw [u32_of_lt (by omega), ← quadwords_eq_iff]
    omega
  constructor
  · intro h
    have hd := h.dest
    rw [iopAddr_mod] at hd
    exact ⟨hd ▸ Nat.mod_lt _ (by decide), hsize.1 h.size⟩
  · rintro ⟨hd, hq⟩
    refine ⟨?_, hsize.2 hq, ?_⟩
    · rw [iopAddr_mod, Nat.mod_eq_of_lt hd]
    · intro i hi
      rw [← (quadwords_eq_iff t).2 hq, ← hn] at hi
      exact if_pos hi

theorem putTag_tags (s : SifDma) (tag : EeDmatag) (i : Nat) :
    (putTag s tag).tags i = if i = s.index then tag else s.tags i :=
  Function.update_apply _ _ _ _

theorem setNextDmatag_tags (s : SifDma) : (setNextDmatag s).tags = s.tags := rfl

theorem sifDmaTransfer_short (env : DmaEnv) (hi : s.index < 31) (ha : t.attr &&& attrDmatag = 0)
    (h8 : quadwords t.size < 8) (id : DmatagId) :
    ((sifDmaTransfer env t id s).tags (ringAhead 31 s.index 1) =
      ⟨eeDmatagIdQwc id (quadwords t.size + 1) ||| irqBit t.attr,
        iopDmatagAddr env (ringAhead 31 s.index 1)⟩) ∧
    ∃ data, (sifDmaTransfer env t id s).iopTags (ringAhead 31 s.index 1) =
      ⟨iopAddr t.dest t.attr, u32 (quadwords t.size * 4),
        copyPayload env t.src (quadwords t.size) data⟩ := by
  have hidx : (setNextDmatag s).index = ringAhead 31 s.index 1 := by
    rw [setNextDmatag_index hi, ringNext_eq_ahead hi]
  simp only [sifDmaTransfer, if_neg (not_not.2 ha), if_neg (not_le.2 h8), ← hidx]
  exact ⟨Function.update_self _ _ _, _, Function.update_self _ _ _⟩

theorem sifDmaTransfer_long (env : DmaEnv) (hi : s.index < 31) (ha : t.attr &&& attrDmatag = 0)
    (h8 : 8 ≤ quadwords t.size) (id : DmatagId) :
    ((sifDmaTransfer env t id s).tags (ringAhead 31 s.index 1) =
      ⟨eeDmatagIdQwc .ref 8, iopDmatagAddr env (ringAhead 31 s.index 1)⟩) ∧
    ((sifDmaTransfer env t id s).tags (ringAhead 31 s.index 2) =
      ⟨eeDmatagIdQwc id (quadwords t.size - 7) ||| irqBit t.attr,
        physAddr (u32 (t.src + qwcPayloadFirstPkt * qwcSize))⟩) ∧
    ∃ data, (sifDmaTransfer env t id s).iopTags (ringAhead 31 s.index 1) =
      ⟨iopAddr t.dest t.attr, u32 (quadwords t.size * 4), copyPayload env t.src 7 data⟩ := by
  have hidx : (setNextDmatag s).index = ringAhead 31 s.index 1 := by
    rw [setNextDmatag_index hi, ringNext_eq_ahead hi]
  have hlt : ringAhead 31 s.index 1 < 31 := ringAhead_lt (by decide) _ _
  have hidx2 (tag : EeDmatag) : (setNextDmatag (putTag (setNextDmatag s) tag)).index =
      ringAhead 31 s.index 2 := by
    have hput : (putTag (setNextDmatag s) tag).index = ringAhead 31 s.index 1 := hidx
    rw [setNextDmatag_index (hput ▸ hlt), hput, ringNext_eq_ahead hlt, ringAhead_ahead]
  have hne : ringAhead 31 s.index 1 ≠ ringAhead 31 s.index 2 :=
    ringAhead_ne (by decide) (by decide) _
  simp only [sifDmaTransfer, if_neg (not_not.2 ha), if_pos h8]
  refine ⟨?_, ?_, ?_⟩
  · simp only [setIopTag, putTag_tags, hidx2, if_neg hne, setNextDmatag_tags, hidx, if_true]
  · simp only [setIopTag, putTag_tags, hidx2, if_true]
    rfl
  · rw [← hidx]
    exact ⟨_, Function.update_self _ _ _⟩

theorem physAddr_tail_iff (src : Nat) :
    physAddr (u32 (src + qwcPayloadFirstPkt * qwcSize)) =
        physAddr src + qwcPayloadFirstPkt * qwcSize ↔
      physAddr src + qwcPayloadFirstPkt * qwcSize < 2 ^ 29 := by
  rw [physAddr_eq_mod, physAddr_eq_mod]
  unfold u32 qwcPayloadFirstPkt qwcSize
  omega

theorem short_describes {t : Transfer} {id : DmatagId} {s : SifDma} {data : Nat → BitVec 128}
    (hq : t.quads < 8)
    (htag : s.tags (ringAhead 31 i 1) = ⟨eeDmatagIdQwc id (quadwords t.size + 1) ||| irqBit t.attr,
      iopDmatagAddr env (ringAhead 31 i 1)⟩)
    (hiop : s.iopTags (ringAhead 31 i 1) = ⟨iopAddr t.dest t.attr, u32 (quadwords t.size * 4),
      copyPayload env t.src (quadwords t.size) data⟩) :
    Describes env s id i t.parts ↔ t.Exact := by
  have heq : quadwords t.size = t.quads := (quadwords_eq_iff t).2 (by omega)
  have hmin : quadwords t.size = min 7 (quadwords t.size) := by omega
  rw [Transfer.parts, if_pos (by omega)]
  simp only [Describes, Part.Ok, List.isEmpty_nil, if_true, and_true]
  rw [htag, hiop, tagOk_iff (by omega), iopOk_iff t data hmin, heq]
  constructor
  · rintro ⟨-, hdest, -⟩
    exact ⟨by omega, hdest, fun h => by omega⟩
  · intro h
    exact ⟨⟨rfl, by omega⟩, h.dest, by omega⟩

theorem long_describes {t : Transfer} {id : DmatagId} {s : SifDma} {data : Nat → BitVec 128}
    (hq : t.quads < 2 ^ 28) (h8 : 8 ≤ t.quads)
    (htag : s.tags (ringAhead 31 i 1) =
      ⟨eeDmatagIdQwc .ref 8, iopDmatagAddr env (ringAhead 31 i 1)⟩)
    (htag' : s.tags (ringAhead 31 i 2) =
      ⟨eeDmatagIdQwc id (quadwords t.size - 7) ||| irqBit t.attr,
        physAddr (u32 (t.src + qwcPayloadFirstPkt * qwcSize))⟩)
    (hiop : s.iopTags (ringAhead 31 i 1) = ⟨iopAddr t.dest t.attr, u32 (quadwords t.size * 4),
      copyPayload env t.src 7 data⟩) :
    Describes env s id i t.parts ↔ t.Exact := by
  have heq : quadwords t.size = t.quads := (quadwords_eq_iff t).2 hq
  have hmin : 7 = min 7 (quadwords t.size) := by omega
  have hmin' : min 7 t.quads + 1 = 8 := by omega
  rw [Transfer.parts, if_neg (by omega)]
  simp only [Describes, Part.Ok, List.isEmpty_nil, List.isEmpty_cons, if_true, and_true,
    Bool.false_eq_true, if_false, ringAhead_ahead]
  rw [htag, htag', hiop, hmin', tagOk_iff (by omega), iopOk_iff t data hmin, physAddr_tail_iff, heq]
  constructor
  · rintro ⟨⟨-, hdest, -⟩, hsrc, hqwc⟩
    exact ⟨by omega, hdest, fun _ => hsrc⟩
  · intro h
    have hle := h.quads
    exact ⟨⟨tagOk_split _ _, h.dest, hq⟩, h.src (by omega), by omega⟩

theorem describes_size {t : Transfer} {id : DmatagId} {s : SifDma}
    (hsize : (s.iopTags (ringAhead 31 i 1)).size = u32 (quadwords t.size * 4))
    (h : Describes env s id i t.parts) : t.quads < 2 ^ 28 := by
  have hlt := quadwords_lt t.size
  have hhead : IopOk env t (s.iopTags (ringAhead 31 i 1)) := by
    unfold Transfer.parts at h
    split_ifs at h
    · exact h.1.2
    · exact h.1.2
  have heq := hhead.size
  rw [hsize, u32_of_lt (by omega)] at heq
  omega

/-- The tags of one entry are right if and only if the entry is exact. Later entries may have
followed: they leave its slots alone. -/
theorem entry_describes {t : Transfer} {id : DmatagId} {s s' : SifDma} (hi : s.index < 31)
    (ha : t.attr &&& attrDmatag = 0)
    (htags : ∀ j < entrySlots t, s'.tags (ringAhead 31 s.index (j + 1)) =
      (sifDmaTransfer env t id s).tags (ringAhead 31 s.index (j + 1)))
    (hiop : s'.iopTags (ringAhead 31 s.index 1) =
      (sifDmaTransfer env t id s).iopTags (ringAhead 31 s.index 1)) :
    Describes env s' id s.index t.parts ↔ t.Exact := by
  have hfst := htags 0 (one_le_entrySlots t)
  have huncounted (hq : ¬ t.quads < 2 ^ 28) (hsize : (s'.iopTags (ringAhead 31 s.index 1)).size =
      u32 (quadwords t.size * 4)) : Describes env s' id s.index t.parts ↔ t.Exact := by
    refine ⟨fun h => absurd (describes_size hsize h) hq, fun h => absurd h.quads (by omega)⟩
  by_cases h8 : 8 ≤ quadwords t.size
  · have he : entrySlots t = 2 := if_pos ⟨ha, h8⟩
    obtain ⟨htag, htag', data, hdata⟩ := sifDmaTransfer_long env hi ha h8 id
    by_cases hq : t.quads < 2 ^ 28
    · exact long_describes hq ((quadwords_eq_iff t).2 hq ▸ h8) (hfst.trans htag)
        ((htags 1 (by omega)).trans htag') (hiop.trans hdata)
    · exact huncounted hq (by rw [hiop, hdata])
  · obtain ⟨htag, data, hdata⟩ := sifDmaTransfer_short env hi ha (not_le.1 h8) id
    by_cases hq : t.quads < 2 ^ 28
    · exact short_describes ((quadwords_eq_iff t).2 hq ▸ not_le.1 h8) (hfst.trans htag)
        (hiop.trans hdata)
    · exact huncounted hq (by rw [hiop, hdata])

theorem Transfer.Exact.length_parts {t : Transfer} (h : t.Exact) (ha : t.attr &&& attrDmatag = 0) :
    t.parts.length = entrySlots t := by
  have hle := h.quads
  have heq := (quadwords_eq_iff t).2 (by omega)
  unfold Transfer.parts entrySlots
  rw [heq]
  split_ifs with h1 h2 h2
  · omega
  · rfl
  · rfl
  · exact absurd ⟨ha, by omega⟩ h2

theorem parts_cons (t : Transfer) (ts : List Transfer) :
    parts (t :: ts) = t.parts ++ parts ts := List.flatMap_cons

theorem parts_ne_nil (t : Transfer) (ts : List Transfer) : parts (t :: ts) ≠ [] := by
  rw [parts_cons]
  unfold Transfer.parts
  split_ifs <;> exact List.cons_ne_nil _ _

theorem transfers_describe (env : DmaEnv) {s : SifDma} (hi : s.index < 31) (hc : s.count < 2 ^ 16)
    (ha : ∀ t ∈ ts, t.attr &&& attrDmatag = 0) (hroom : slotsUsed ts ≤ 31) (hne : ts ≠ []) :
    Describes env (transferAll env ts s) .refe s.index (parts ts) ↔ ∀ t ∈ ts, t.Exact := by
  induction ts generalizing s with
  | nil => exact absurd rfl hne
  | cons t ts ih =>
    have hat := ha t List.mem_cons_self
    cases ts with
    | nil =>
      rw [List.forall_mem_singleton, parts, List.flatMap_singleton]
      exact entry_describes hi hat (fun _ _ => rfl) rfl
    | cons u ts =>
      have hslots : slotsUsed (t :: u :: ts) = entrySlots t + slotsUsed (u :: ts) := rfl
      have hfst : Touches s (sifDmaTransfer env t .ref s) (entrySlots t) := .entry hi hc t .ref
      have hi' : (sifDmaTransfer env t .ref s).index < 31 :=
        hfst.index ▸ ringAhead_lt (by decide) _ _
      have hc' : (sifDmaTransfer env t .ref s).count < 2 ^ 16 :=
        hfst.count ▸ Nat.mod_lt _ (by decide)
      have hrest : Touches (sifDmaTransfer env t .ref s) (transferAll env (t :: u :: ts) s)
        (slotsUsed (u :: ts)) := .transfers hi' hc' _
      -- the entries that follow do not come round to the slots of this one
      have hfree : ∀ j < entrySlots t, ∀ k < slotsUsed (u :: ts),
          ringAhead 31 s.index (j + 1) ≠
            ringAhead 31 (sifDmaTransfer env t .ref s).index (k + 1) := by
        intro j hj k hk
        rw [hfst.index, ringAhead_ahead]
        exact ringAhead_ne (by omega) (by omega) _
      have hentry : Describes env (transferAll env (t :: u :: ts) s) .ref s.index t.parts ↔
          t.Exact :=
        entry_describes hi hat (fun j hj => hrest.tags _ (hfree j hj))
          (hrest.iopTags _ (hfree 0 (one_le_entrySlots t)))
      rw [List.forall_mem_cons, parts_cons,
        describes_append _ _ hi _ (parts_ne_nil u ts), hentry]
      refine and_congr_right fun hexact => ?_
      rw [hexact.length_parts hat, ← hfst.index]
      exact ih hi' hc' (fun v hv => ha v (List.mem_cons_of_mem _ hv)) (by omega)
        (List.cons_ne_nil _ _)

/-- The first entries of an array. -/
def entries (transfer : Nat → Transfer) (n : Nat) : List Transfer := (List.range n).map transfer

/-- `SifSetDma` with the array and the number of its entries. The last entry is put into the ring
after a loop over the `tcount - 1` entries before it, a number without sign. -/
def sifSetDmaArray (env : DmaEnv) (transfer : Nat → Transfer) (tcount : Nat) (s : SifDma) :
    Nat × SifDma :=
  let s := stopChannel s
  let freetags := sifGetNumberOfFreeDmaTags env s
  let ntags := countTags (entries transfer tcount)
  if ntags ≤ freetags then
    (transferId s ntags, restart (transferAll env (entries transfer (sub32 tcount 1 + 1))
      (sifDmaSetupTag env freetags s)))
  else (0, restart s)

theorem sifSetDmaArray_eq {tcount : Nat} (h0 : 0 < tcount) (h : tcount < 2 ^ 32)
    (transfer : Nat → Transfer) (s : SifDma) :
    sifSetDmaArray env transfer tcount s = sifSetDma env (entries transfer tcount) s := by
  have hcount : sub32 tcount 1 + 1 = tcount := by
    rw [sub32_of_le h0 h]
    omega
  unfold sifSetDmaArray sifSetDma
  rw [hcount]

/-- What a call that was accepted has written for the entries: their tags are right, and it has
used as many as were counted. -/
structure Written (env : DmaEnv) (s s' : SifDma) (ts walked : List Transfer) : Prop where
  describes : Describes env s' .refe s.index (parts ts)
  consumed : slotsUsed walked = countTags ts

theorem describes_restart (s : SifDma) (id : DmatagId) (i : Nat) (ps : List Part) :
    Describes env (restart s) id i ps ↔ Describes env s id i ps := by
  induction ps generalizing i with
  | nil => exact Iff.rfl
  | cons p ps ih =>
    rw [Describes, Describes, ih]
    cases p <;> rfl

theorem Transfer.Exact.entryTags {t : Transfer} (h : t.Exact) (ha : t.attr &&& attrDmatag = 0) :
    entrySlots t = entryTags t := by
  have hle := h.quads
  have heq := (quadwords_eq_iff t).2 (by omega)
  unfold entrySlots Sif.entryTags
  rw [heq]
  simp only [ha, true_and, ne_eq, not_true_eq_false, false_or]
  unfold Transfer.quads qwcPayloadFirstPkt qwcSize
  split_ifs <;> omega

theorem slotsUsed_eq_countTags (h : ∀ t ∈ ts, t.Exact ∧ t.attr &&& attrDmatag = 0) :
    slotsUsed ts = countTags ts := by
  unfold slotsUsed countTags
  rw [List.map_congr_left fun t ht => (h t ht).1.entryTags (h t ht).2]

theorem length_le_slotsUsed (ts : List Transfer) : ts.length ≤ slotsUsed ts := by
  induction ts with
  | nil => exact Nat.le_refl _
  | cons t ts ih =>
    have h1 := one_le_entrySlots t
    simp only [slotsUsed, List.map_cons, List.sum_cons, List.length_cons] at ih ⊢
    omega

theorem slotsUsed_pos (hne : ts ≠ []) : 1 ≤ slotsUsed ts :=
  (List.length_pos_iff.2 hne).trans_le (length_le_slotsUsed ts)

/-- In every state of every run, what an accepted call has written is right if and only if there is
an entry and all entries are exact. -/
theorem sifSetDma_payload {s : SifDma} {transfer : Nat → Transfer} {tcount : Nat}
    (hs : SifDma.Ran env s) (htcount : tcount < 2 ^ 31)
    (hattr : ∀ i < tcount, (transfer i).attr &&& attrDmatag = 0)
    (haccept : countTags (entries transfer tcount) ≤ sifGetNumberOfFreeDmaTags env s) :
    Written env s (sifSetDmaArray env transfer tcount s).2 (entries transfer tcount)
        (entries transfer (sub32 tcount 1 + 1)) ↔
      0 < tcount ∧ ∀ i < tcount, (transfer i).Exact := by
  have hplaced := hs.placed
  have hroom := haccept.trans hplaced.free_le
  rcases Nat.eq_zero_or_pos tcount with rfl | h0
  · -- the loop goes through 2^32 - 1 entries
    refine ⟨fun h => ?_, fun h => absurd h.1 (Nat.lt_irrefl 0)⟩
    have hlen := length_le_slotsUsed (entries transfer (sub32 0 1 + 1))
    have hzero : countTags (entries transfer 0) = 0 := rfl
    rw [h.consumed, hzero, entries, List.length_map, List.length_range] at hlen
    exact absurd hlen (by omega)
  have hcount : sub32 tcount 1 + 1 = tcount := by
    rw [sub32_of_le h0 (by omega)]
    omega
  have hmem : (∀ t ∈ entries transfer tcount, t.Exact) ↔ ∀ i < tcount, (transfer i).Exact := by
    simp [entries]
  have hattr' : ∀ t ∈ entries transfer tcount, t.attr &&& attrDmatag = 0 := by
    simpa [entries] using hattr
  have hne : entries transfer tcount ≠ [] := by
    simpa [entries] using h0.ne'
  obtain ⟨hindex, hcounter⟩ := sifDmaSetupTag_index env
    (sifGetNumberOfFreeDmaTags env (stopChannel s)) (stopChannel s)
  have hdesc : Describes env (transferAll env (entries transfer tcount)
      (sifDmaSetupTag env (sifGetNumberOfFreeDmaTags env (stopChannel s)) (stopChannel s))) .refe
        s.index (parts (entries transfer tcount)) ↔ ∀ t ∈ entries transfer tcount, t.Exact := by
    have hdesc' := transfers_describe env (hindex ▸ hplaced.index_lt)
      (hcounter ▸ hplaced.count_lt) hattr' ((slotsUsed_le _).trans hroom) hne
    rw [hindex] at hdesc'
    exact hdesc'
  rw [sifSetDmaArray_eq h0 (by omega), sifSetDma_accepted haccept, hcount]
  constructor
  · intro h
    have h' := (describes_restart _ _ _ _).1 h.describes
    exact ⟨h0, hmem.1 (hdesc.1 h')⟩
  · rintro ⟨-, h⟩
    have hexact := hmem.2 h
    exact ⟨(describes_restart _ _ _ _).2 (hdesc.2 hexact),
      slotsUsed_eq_countTags fun t ht => ⟨hexact t ht, hattr' t ht⟩⟩

/-- A transfer of one quadword and one that is split, right after `sif_dma_init`. -/
theorem sifSetDma_payload_twoEntries :
    let split : Transfer := ⟨0x100000, 0x3000, 256, attrIntO⟩
    Written lowEnv (sifDmaInit lowEnv .zero)
      (sifSetDmaArray lowEnv (fun i => if i = 0 then oneQuad else split) 2
        (sifDmaInit lowEnv .zero)).2 [oneQuad, split] [oneQuad, split] := by
  refine (sifSetDma_payload (.start rfl) (by decide) (by decide) (by decide)).2
    ⟨Nat.two_pos, fun i hi => ?_⟩
  obtain rfl | rfl : i = 0 ∨ i = 1 := by omega
  · exact ⟨by decide, by decide, fun h => absurd h (by decide)⟩
  · exact ⟨by decide, by decide, fun _ => by decide⟩

/-- One MByte and 112 bytes: 65536 quadwords are left for the second tag, whose count is 0. -/
theorem sifSetDma_payload_overflow :
    let t : Transfer := ⟨0x100000, 0x2000, 0x100070, 0⟩
    let s := (sifSetDma lowEnv [t] (sifDmaInit lowEnv .zero)).2
    t.quads - 7 = 0x10000 ∧ tagQwc (s.tags 1) = 0 ∧ (s.iopTags 0).size = 4 * t.quads := by
  decide +kernel

end KernelLoader.Sif
