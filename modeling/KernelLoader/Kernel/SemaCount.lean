import KernelLoader.Kernel.Semaphore

namespace KernelLoader.Kernel.Sema
open Lib
set_option autoImplicit true
set_option relaxedAutoImplicit false

/-- The count of a semaphore is what its callers expect, and in its bounds. -/
def Account.Balanced (L : Layout) (m : Words) (a : Account) : Prop :=
  let count := (m (L.cell a.id.toNat .count)).toInt
  count = a.initCount.toInt + a.signals - a.waits ∧ 0 ≤ count ∧ count ≤ a.maxCount.toInt

instance (L : Layout) (m : Words) (a : Account) : Decidable (a.Balanced L m) :=
  inferInstanceAs (Decidable (_ ∧ _ ∧ _))

def Counted (L : Layout) (s : Sys) : Prop := ∀ a ∈ s.accounts, a.Balanced L s.mem

instance (L : Layout) (s : Sys) : Decidable (Counted L s) :=
  inferInstanceAs (Decidable (∀ a ∈ s.accounts, a.Balanced L s.mem))

/-- The identifier belongs to a semaphore that was created and not deleted since. -/
def Sys.Live (s : Sys) (sid : BitVec 32) : Prop := sid ∈ s.accounts.map Account.id

/-- A wait or a signal of anything else than a semaphore fails and does nothing. -/
def Refused (L : Layout) (s : Sys) : Call → Prop
  | .create _ => True
  | .delete _ => True
  | .wait sid => ¬ (sid.toNat < 32 ∧ s.Live sid) → exec L (.wait sid) s.mem = (-1, s.mem)
  | .signal sid => ¬ (sid.toNat < 32 ∧ s.Live sid) → exec L (.signal sid) s.mem = (-1, s.mem)

/-- Along the calls the counts are right, and what is no semaphore is refused. -/
def Right (L : Layout) (m : Words) (calls : List Call) : Prop :=
  ∀ before call after, calls = before ++ call :: after →
    Refused L (Sys.run L m before) call ∧ Counted L (Sys.run L m (before ++ [call]))

/-- What has to be true before a call. -/
def Proper (L : Layout) (s : Sys) : Call → Prop
  | .create sema => 0 ≤ sema.initCount.toInt → (∃ i < 32, s.mem (L.cell i .free) ≠ 0) →
    sema.initCount.toInt ≤ sema.maxCount.toInt
  | .delete _ => True
  | .wait sid => sid.toNat < 32 → ¬ s.Live sid → (s.mem (member (L.entry sid) .count)).toInt < 0
  | .signal sid => sid.toInt < 32 →
    (∀ a ∈ s.accounts, a.id = sid →
      (s.mem (member (L.entry sid) .count)).toInt < a.maxCount.toInt) ∧
    (¬ s.Live sid → (s.mem (member (L.entry sid) .count)).toInt < 0)

section Arithmetic
variable {x : BitVec 32}

theorem toInt_sub_one (h : 0 < x.toInt) : (x - 1).toInt = x.toInt - 1 := by
  have hone : (1 : BitVec 32).toNat = 1 := rfl
  have hlt := x.isLt
  rw [BitVec.toInt_eq_toNat_cond] at h ⊢
  rw [BitVec.toInt_eq_toNat_cond, BitVec.toNat_sub, hone]
  split_ifs at h ⊢ <;> omega

theorem toInt_add_one (x : BitVec 32) :
    (x + 1).toInt = if x.toInt = 2 ^ 31 - 1 then -2 ^ 31 else x.toInt + 1 := by
  have hone : (1 : BitVec 32).toNat = 1 := rfl
  have hlt := x.isLt
  rw [BitVec.toInt_eq_toNat_cond, BitVec.toInt_eq_toNat_cond, BitVec.toNat_add, hone]
  split_ifs <;> omega

theorem toInt_le_max (x : BitVec 32) : x.toInt ≤ 2 ^ 31 - 1 := by
  have hlt := x.isLt
  rw [BitVec.toInt_eq_toNat_cond]
  split_ifs <;> omega

end Arithmetic

section Step
variable {L : Layout} {s : Sys} {call : Call} {sid : BitVec 32}

theorem count_eq_cell (L : Layout) (sid : BitVec 32) :
    member (L.entry sid) .count = L.cell sid.toNat .count := by
  rw [entry_eq_node, Layout.cell]

theorem counted_mk (L : Layout) (m : Words) (accounts : List Account) :
    Counted L ⟨m, accounts⟩ ↔ ∀ a ∈ accounts, a.Balanced L m := Iff.rfl

theorem Account.Balanced.congr {m m' : Words} {a : Account} (h : a.Balanced L m)
    (he : m' (L.cell a.id.toNat .count) = m (L.cell a.id.toNat .count)) : a.Balanced L m' := by
  rw [Balanced, he]
  exact h

theorem Sound.live_iff (h : Sound L s) (sid : BitVec 32) :
    s.Live sid ↔ sid.toNat < 32 ∧ s.mem (L.cell sid.toNat .free) = 0 := h.allocated sid

theorem counted_create (h : Sound L s) (hc : Counted L s) (sema : EeSema) :
    Counted L (s.step L (.create sema)) ↔ Proper L s (.create sema) := by
  by_cases hfail : sema.initCount.toInt < 0 ∨ s.mem L.semaphoreListHead = 0
  · rw [step_create_failed hfail]
    refine iff_of_true hc ?_
    rintro h0 ⟨i, hi, hfree⟩
    rw [h.free_iff_null] at hfail
    cases hfail with
    | inl hneg => omega
    | inr hnone => exact absurd (hnone i hi) hfree
  obtain ⟨h0, hhead⟩ := not_or.mp hfail
  obtain ⟨i, l, hi, hnode, hfree, _⟩ := h.exists_node hhead
  obtain ⟨hret, _, hcell⟩ := create_done hi hnode h0
  have hid : (BitVec.ofNat 32 i).toNat = i := toNat_ofNat_lt hi
  rw [step_create, hret, h.index i hi, record, if_neg (ofNat_ne_error hi), counted_mk]
  constructor
  · intro hcount _ _
    obtain ⟨_, _, hmax⟩ := hcount _ List.mem_cons_self
    simp only [hid, hcell i hi, if_pos, created] at hmax
    exact hmax
  · intro hp a ha
    cases List.mem_cons.mp ha with
    | inl ha =>
      subst ha
      have hle := hp (by omega) ⟨i, hi, hfree⟩
      simp only [Account.Balanced, hid, hcell i hi, if_pos, created]
      omega
    | inr ha =>
      obtain ⟨hlt, hzero⟩ := (h.live_iff a.id).mp (List.mem_map_of_mem ha)
      apply (hc a ha).congr
      rw [hcell _ hlt, if_neg]
      intro he
      exact hfree (he ▸ hzero)

theorem counted_delete (h : Sound L s) (hc : Counted L s) (id : BitVec 32) :
    Counted L (s.step L (.delete id)) := by
  by_cases hok : id.toNat < 32 ∧ s.mem (L.cell id.toNat .free) = 0
  · obtain ⟨hi, hzero⟩ := hok
    obtain ⟨hret, _, hcell⟩ := delete_done hi hzero
    rw [step_delete, hret, record, if_neg (ne_error_of_lt hi), counted_mk]
    intro a ha
    obtain ⟨ha, _⟩ := List.mem_filter.mp ha
    obtain ⟨hlt, _⟩ := (h.live_iff a.id).mp (List.mem_map_of_mem ha)
    apply (hc a ha).congr
    rw [hcell _ hlt]
    split_ifs with he
    · rw [he]
      rfl
    · rfl
  · rw [step_delete, delete_failed hok]
    exact hc

theorem balanced_map {v : BitVec 32} (h : Sound L s) (hc : Counted L s)
    (hi : sid.toNat < 32) (f : Account → Account) (hf : ∀ a ∈ s.accounts, a.id = sid →
      (f a).Balanced L (s.mem.store (L.cell sid.toNat .count) v)) :
    ∀ a ∈ s.accounts.map fun a => if a.id = sid then f a else a,
      a.Balanced L (s.mem.store (L.cell sid.toNat .count) v) := by
  intro a ha
  obtain ⟨b, hb, rfl⟩ := List.mem_map.mp ha
  by_cases hid : b.id = sid
  · rw [if_pos hid]
    exact hf b hb hid
  · have hne : b.id.toNat ≠ sid.toNat := fun he => hid (BitVec.eq_of_toNat_eq he)
    obtain ⟨hlt, _⟩ := (h.live_iff b.id).mp (List.mem_map_of_mem hb)
    rw [if_neg hid]
    apply (hc b hb).congr
    rw [store_cell hi hlt, if_neg fun he => hne he.1]

theorem store_count_self {m : Words} {v : BitVec 32} (hi : i < 32) :
    (m.store (L.cell i .count) v) (L.cell i .count) = v := by
  rw [store_cell hi hi, if_pos ⟨rfl, rfl⟩]

theorem step_wait (L : Layout) (s : Sys) (sid : BitVec 32) : s.step L (.wait sid) =
    ⟨(iWaitSema L sid s.mem).2, record (.wait sid) (iWaitSema L sid s.mem).1 s.accounts⟩ := rfl

theorem ne_busy_of_lt (hi : sid.toNat < 32) : sid ≠ -2 := by
  intro h
  rw [h] at hi
  exact absurd hi (by decide)

theorem counted_wait_live (h : Sound L s) (hc : Counted L s) (hlive : s.Live sid) :
    Counted L (s.step L (.wait sid)) := by
  obtain ⟨b, hb, rfl⟩ := List.mem_map.mp hlive
  obtain ⟨hi, _⟩ := (h.live_iff b.id).mp hlive
  obtain ⟨_, hpos, _⟩ := hc b hb
  have hno : ¬ (numberOfSemaphores ≤ b.id.toNat ∨
      (s.mem (L.cell b.id.toNat .count)).toInt < 0) := by
    rw [numberOfSemaphores]
    omega
  rw [step_wait, iWaitSema, count_eq_cell]
  simp only [if_neg hno]
  by_cases hcount : 0 < (s.mem (L.cell b.id.toNat .count)).toInt
  · have hne : ¬ (b.id = -1 ∨ b.id = -2) := not_or.mpr ⟨ne_error_of_lt hi, ne_busy_of_lt hi⟩
    rw [if_pos hcount, record, if_neg hne, counted_mk]
    apply balanced_map h hc hi
    intro a ha hid
    obtain ⟨hsum, _, hmax⟩ := hc a ha
    simp only [Account.Balanced, hid, store_count_self hi, toInt_sub_one hcount] at hsum hmax ⊢
    omega
  · rw [if_neg hcount]
    exact hc

theorem wait_eq_iff (hi : sid.toNat < 32) : iWaitSema L sid s.mem = (-1, s.mem) ↔
    (s.mem (member (L.entry sid) .count)).toInt < 0 := by
  rw [iWaitSema]
  split_ifs with hno hpos
  · refine iff_of_true rfl ?_
    rw [numberOfSemaphores] at hno
    exact hno.resolve_left (by omega)
  · refine iff_of_false ?_ (by omega)
    intro he
    exact ne_error_of_lt hi (congrArg Prod.fst he)
  · refine iff_of_false ?_ (fun hneg => hno (.inr hneg))
    intro he
    have hret : (-2 : BitVec 32) = -1 := congrArg Prod.fst he
    exact absurd hret (by decide)

theorem step_refused {call : Call} (hwait : ∀ sema, call ≠ .create sema)
    (he : exec L call s.mem = (-1, s.mem)) : s.step L call = s := by
  cases call with
  | create sema => exact absurd rfl (hwait sema)
  | delete id => rw [Sys.step, he, record, if_pos rfl]
  | wait sid => rw [Sys.step, he, record, if_pos (.inl rfl)]
  | signal sid => rw [Sys.step, he, record, if_pos rfl]

theorem Counted.refused (hc : Counted L s) (hwait : ∀ sema, call ≠ .create sema)
    (he : exec L call s.mem = (-1, s.mem)) : Counted L (s.step L call) := by
  rw [step_refused hwait he]
  exact hc

theorem proper_wait_iff (h : Sound L s) (hc : Counted L s) (sid : BitVec 32) :
    Proper L s (.wait sid) ↔ Refused L s (.wait sid) ∧ Counted L (s.step L (.wait sid)) := by
  by_cases hlive : s.Live sid
  · obtain ⟨hi, _⟩ := (h.live_iff sid).mp hlive
    refine iff_of_true (fun _ hn => absurd hlive hn) ⟨?_, counted_wait_live h hc hlive⟩
    intro hn
    exact absurd ⟨hi, hlive⟩ hn
  · by_cases hi : sid.toNat < 32
    · have hrefused : Refused L s (.wait sid) ↔
          (s.mem (member (L.entry sid) .count)).toInt < 0 := by
        rw [← wait_eq_iff hi]
        exact forall_prop_of_true fun hn => hlive hn.2
      have hproper : Proper L s (.wait sid) ↔ (s.mem (member (L.entry sid) .count)).toInt < 0 :=
        (forall_prop_of_true hi).trans (forall_prop_of_true hlive)
      rw [hproper, hrefused, iff_self_and]
      intro hneg
      have he : exec L (.wait sid) s.mem = (-1, s.mem) := (wait_eq_iff hi).mpr hneg
      exact hc.refused (fun _ => Call.noConfusion) he
    · have he : exec L (.wait sid) s.mem = (-1, s.mem) :=
        if_pos (.inl (Nat.le_of_not_lt hi))
      refine iff_of_true (fun hlt => absurd hlt hi) ⟨fun _ => he, ?_⟩
      exact hc.refused (fun _ => Call.noConfusion) he

theorem step_signal (L : Layout) (s : Sys) (sid : BitVec 32) : s.step L (.signal sid) =
    ⟨(iSignalSema L sid s.mem).2, record (.signal sid) (iSignalSema L sid s.mem).1 s.accounts⟩ :=
  rfl

theorem signal_eq_iff (hi : sid.toInt < 32) : iSignalSema L sid s.mem = (-1, s.mem) ↔
    (s.mem (member (L.entry sid) .count)).toInt < 0 := by
  rw [iSignalSema]
  split_ifs with hno
  · refine iff_of_true rfl ?_
    rw [numberOfSemaphores] at hno
    exact hno.resolve_left (by omega)
  · refine iff_of_false ?_ (fun hneg => hno (.inr hneg))
    intro he
    have hret : (0 : BitVec 32) = -1 := congrArg Prod.fst he
    exact absurd hret (by decide)

/-- A signal of a semaphore adds one, also beyond the largest count. -/
theorem counted_signal_live (h : Sound L s) (hc : Counted L s) (hlive : s.Live sid) :
    Counted L (s.step L (.signal sid)) ↔ ∀ a ∈ s.accounts, a.id = sid →
      (s.mem (member (L.entry sid) .count)).toInt < a.maxCount.toInt := by
  obtain ⟨b, hb, rfl⟩ := List.mem_map.mp hlive
  obtain ⟨hi, _⟩ := (h.live_iff b.id).mp hlive
  obtain ⟨hlo, hhi⟩ := (toNat_lt_iff b.id).mp hi
  obtain ⟨_, hpos, _⟩ := hc b hb
  have hno : ¬ (numberOfSemaphores ≤ b.id.toInt ∨
      (s.mem (L.cell b.id.toNat .count)).toInt < 0) := by
    rw [numberOfSemaphores]
    omega
  have hsucc := toInt_add_one (s.mem (L.cell b.id.toNat .count))
  rw [step_signal, iSignalSema, count_eq_cell]
  simp only [if_neg hno]
  rw [record, if_neg (by decide), counted_mk]
  constructor
  · intro hcount a ha hid
    have hmem : { a with signals := a.signals + 1 } ∈ s.accounts.map fun a =>
        if a.id = b.id then { a with signals := a.signals + 1 } else a :=
      List.mem_map.mpr ⟨a, ha, if_pos hid⟩
    obtain ⟨_, hnonneg, hmax⟩ := hcount _ hmem
    simp only [hid, store_count_self hi, hsucc] at hnonneg hmax
    split_ifs at hnonneg hmax
    · omega
    · omega
  · intro hlt
    apply balanced_map h hc hi
    intro a ha hid
    have hbelow := hlt a ha hid
    have hmax := toInt_le_max a.maxCount
    obtain ⟨hsum, _, _⟩ := hc a ha
    rw [if_neg (by omega)] at hsucc
    simp only [Account.Balanced, hid, store_count_self hi, hsucc] at hsum ⊢
    omega

theorem proper_signal_iff (h : Sound L s) (hc : Counted L s) (sid : BitVec 32) :
    Proper L s (.signal sid) ↔ Refused L s (.signal sid) ∧ Counted L (s.step L (.signal sid)) := by
  by_cases hlive : s.Live sid
  · obtain ⟨hi, _⟩ := (h.live_iff sid).mp hlive
    obtain ⟨_, hhi⟩ := (toNat_lt_iff sid).mp hi
    have hrefused : Refused L s (.signal sid) := fun hn => absurd ⟨hi, hlive⟩ hn
    rw [and_iff_right hrefused, counted_signal_live h hc hlive]
    constructor
    · intro hp
      exact (hp hhi).1
    · intro hlt _
      exact ⟨hlt, fun hn => absurd hlive hn⟩
  · have hnone (a : Account) (ha : a ∈ s.accounts) : a.id ≠ sid :=
      fun hid => hlive (hid ▸ List.mem_map_of_mem ha)
    by_cases hi : sid.toInt < 32
    · have hrefused : Refused L s (.signal sid) ↔
          (s.mem (member (L.entry sid) .count)).toInt < 0 := by
        rw [← signal_eq_iff hi]
        exact forall_prop_of_true fun hn => hlive hn.2
      have hproper : Proper L s (.signal sid) ↔
          (s.mem (member (L.entry sid) .count)).toInt < 0 := by
        constructor
        · intro hp
          exact (hp hi).2 hlive
        · intro hneg _
          exact ⟨fun a ha hid => absurd hid (hnone a ha), fun _ => hneg⟩
      rw [hproper, hrefused, iff_self_and]
      intro hneg
      have he : exec L (.signal sid) s.mem = (-1, s.mem) := (signal_eq_iff hi).mpr hneg
      exact hc.refused (fun _ => Call.noConfusion) he
    · have he : exec L (.signal sid) s.mem = (-1, s.mem) := if_pos (.inl (Int.not_lt.mp hi))
      refine iff_of_true (fun hlt => absurd hlt hi) ⟨fun _ => he, ?_⟩
      exact hc.refused (fun _ => Call.noConfusion) he

theorem proper_iff (h : Sound L s) (hc : Counted L s) (call : Call) :
    Proper L s call ↔ Refused L s call ∧ Counted L (s.step L call) := by
  cases call with
  | create sema =>
    rw [counted_create h hc]
    exact (and_iff_right trivial).symm
  | delete id => exact iff_of_true trivial ⟨trivial, counted_delete h hc id⟩
  | wait sid => exact proper_wait_iff h hc sid
  | signal sid => exact proper_signal_iff h hc sid

theorem Sound.step_of_refused (h : Sound L s) (hr : Refused L s call) :
    Sound L (s.step L call) := by
  cases call with
  | create sema => exact h.create sema
  | delete id => exact h.delete id
  | wait sid => exact h.wait sid
  | signal sid =>
    apply h.signal
    by_cases hi : sid.toNat < 32
    · exact .inl hi
    · have he : iSignalSema L sid s.mem = (-1, s.mem) := hr fun hn => hi hn.1
      rw [he]
      exact .inr rfl

end Step

theorem forall_split_concat {Q : List Call → Call → Prop} (calls : List Call) (call : Call) :
    (∀ before c after, calls ++ [call] = before ++ c :: after → Q before c) ↔
      (∀ before c after, calls = before ++ c :: after → Q before c) ∧ Q calls call := by
  constructor
  · intro h
    refine ⟨?_, h calls call [] rfl⟩
    intro before c after he
    apply h before c (after ++ [call])
    rw [he, List.append_assoc]
    rfl
  · rintro ⟨h, hlast⟩ before c after he
    cases after using List.reverseRecOn with
    | nil =>
      obtain ⟨rfl, hc⟩ := List.append_inj' he rfl
      cases hc
      exact hlast
    | append_singleton after last =>
      have hsplit : calls ++ [call] = before ++ c :: after ++ [last] := by
        rw [he, List.append_assoc]
        rfl
      exact h before c after (List.append_inj' hsplit rfl).1

theorem right_concat (L : Layout) (m : Words) (calls : List Call) (call : Call) :
    Right L m (calls ++ [call]) ↔ Right L m calls ∧
      (Refused L (Sys.run L m calls) call ∧ Counted L ((Sys.run L m calls).step L call)) := by
  rw [Right, forall_split_concat, run_concat]
  rfl

theorem Right.sound {L : Layout} {m : Words} {calls : List Call} (h : Right L m calls) :
    Sound L (Sys.run L m calls) ∧ Counted L (Sys.run L m calls) := by
  induction calls using List.reverseRecOn with
  | nil => exact ⟨sound_init rfl rfl, fun a ha => absurd ha List.not_mem_nil⟩
  | append_singleton calls call ih =>
    obtain ⟨hbefore, hrefused, hcounted⟩ := (right_concat L m calls call).mp h
    rw [run_concat]
    exact ⟨(ih hbefore).1.step_of_refused hrefused, hcounted⟩

/-- The counts are right exactly along calls that keep to the bounds and find the counts of free
entries negative. -/
theorem semaphores_right_iff (L : Layout) (m : Words) (calls : List Call) : Right L m calls ↔
    ∀ before call after, calls = before ++ call :: after →
      Proper L (Sys.run L m before) call := by
  induction calls using List.reverseRecOn with
  | nil =>
    refine iff_of_true ?_ ?_
    · intro before call after he
      exact absurd he (by simp)
    · intro before call after he
      exact absurd he (by simp)
  | append_singleton calls call ih =>
    rw [right_concat, forall_split_concat, ← ih]
    apply and_congr_right
    intro hright
    obtain ⟨hsound, hcounted⟩ := hright.sound
    exact (proper_iff hsound hcounted call).symm

/-- A semaphore with one resource is signalled twice; one is created with more than it may have;
a wait finds an entry that was never created; a signal with a negative identifier changes the word
before the array. -/
theorem semaphores_wrong :
    ¬ Right layout (fun _ => 0) [.create ⟨1, 1, 0, 0, 0⟩, .signal 0] ∧
    ¬ Right layout (fun _ => 0) [.create ⟨1, 2, 0, 0, 0⟩] ∧
    ¬ Right layout (fun _ => 0) [.wait 3] ∧
    ¬ Right layout (fun _ => 0) [.signal (-1)] := by
  refine ⟨?_, ?_, ?_, ?_⟩
  · intro h
    have hcounted := (h [.create ⟨1, 1, 0, 0, 0⟩] (.signal 0) [] rfl).2
    exact absurd hcounted (by decide +kernel)
  · intro h
    have hcounted := (h [] (.create ⟨1, 2, 0, 0, 0⟩) [] rfl).2
    exact absurd hcounted (by decide +kernel)
  · intro h
    have hrefused := (h [] (.wait 3) [] rfl).1 (fun hn => absurd hn.2 List.not_mem_nil)
    exact absurd (congrArg Prod.fst hrefused) (by decide +kernel)
  · intro h
    have hrefused := (h [] (.signal (-1)) [] rfl).1 (fun hn => absurd hn.2 List.not_mem_nil)
    exact absurd (congrArg Prod.fst hrefused) (by decide +kernel)

end KernelLoader.Kernel.Sema
