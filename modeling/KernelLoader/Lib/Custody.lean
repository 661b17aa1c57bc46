import Mathlib.Logic.Equiv.Basic
import Mathlib.Tactic.SplitIfs

namespace Lib
set_option autoImplicit true
set_option relaxedAutoImplicit false

/-- Holders hold tokens, some of them in the name of a client. Every live token has one holder,
and a client points to a token exactly while it is held in its name. -/
structure Custody (held : η → Option (τ × Option κ)) (live : τ → Prop) (named : κ → Option τ) :
    Prop where
  live_iff : ∀ x, live x ↔ ∃ h c, held h = some (x, c)
  unique : ∀ h h' x c c', held h = some (x, c) → held h' = some (x, c') → h = h'
  named_iff : ∀ k x, named k = some x ↔ ∃ h, held h = some (x, some k)

variable {held : η → Option (τ × Option κ)} {live : τ → Prop} {named : κ → Option τ}

theorem Custody.empty : Custody (fun _ : η => none) (fun _ : τ => False) (fun _ : κ => none) := by
  refine ⟨fun x => ?_, fun _ _ _ _ _ h => ?_, fun k x => ?_⟩ <;> simp_all

theorem Custody.congr {held' : η → Option (τ × Option κ)} {live' : τ → Prop}
    {named' : κ → Option τ} (h : Custody held live named) (hh : ∀ x, held' x = held x)
    (hl : ∀ x, live' x ↔ live x) (hn : ∀ k, named' k = named k) : Custody held' live' named' := by
  obtain rfl : held' = held := funext hh
  obtain rfl : named' = named := funext hn
  exact ⟨fun x => (hl x).trans (h.live_iff x), h.unique, h.named_iff⟩

theorem Custody.named_unique (h : Custody held live named) (hk : named k = some x)
    (hk' : named k' = some x) : k = k' := by
  obtain ⟨a, ha⟩ := (h.named_iff k x).mp hk
  obtain ⟨b, hb⟩ := (h.named_iff k' x).mp hk'
  obtain rfl := h.unique a b x _ _ ha hb
  rw [ha] at hb
  cases hb
  rfl

theorem Custody.named_live (h : Custody held live named) (hk : named k = some x) : live x := by
  obtain ⟨a, ha⟩ := (h.named_iff k x).mp hk
  exact (h.live_iff x).mpr ⟨a, _, ha⟩

theorem Custody.not_named (h : Custody held live named) (ha : held a = some (x, none)) (k : κ) :
    named k ≠ some x := by
  intro hk
  obtain ⟨b, hb⟩ := (h.named_iff k x).mp hk
  obtain rfl := h.unique a b x _ _ ha hb
  rw [ha] at hb
  cases hb

section Update
variable [DecidableEq η]

theorem Custody.acquire (h : Custody held live named) (ha : held a = none) (hx : ¬live x) :
    Custody (Function.update held a (some (x, none))) (fun y => y = x ∨ live y) named := by
  have hother : ∀ b y c, held b = some (y, c) → b ≠ a ∧ y ≠ x := by
    intro b y c hb
    refine ⟨fun he => ?_, fun he => hx ((h.live_iff x).mpr ⟨b, c, he ▸ hb⟩)⟩
    rw [he, ha] at hb
    cases hb
  refine ⟨fun y => ⟨?_, ?_⟩, ?_, fun k y => (h.named_iff k y).trans ⟨?_, ?_⟩⟩
  · rintro (rfl | hy)
    · exact ⟨a, none, Function.update_self ..⟩
    · obtain ⟨b, c, hb⟩ := (h.live_iff y).mp hy
      exact ⟨b, c, by rw [Function.update_of_ne (hother b y c hb).1]; exact hb⟩
  · rintro ⟨b, c, hb⟩
    by_cases he : b = a
    · rw [he, Function.update_self] at hb
      cases hb
      exact .inl rfl
    · rw [Function.update_of_ne he] at hb
      exact .inr ((h.live_iff y).mpr ⟨b, c, hb⟩)
  · intro b b' y c c' hb hb'
    rw [Function.update_apply] at hb hb'
    split_ifs at hb hb' with e e' e'
    · exact e.trans e'.symm
    · cases hb
      exact absurd rfl (hother b' x c' hb').2
    · cases hb'
      exact absurd rfl (hother b x c hb).2
    · exact h.unique b b' y c c' hb hb'
  · rintro ⟨b, hb⟩
    exact ⟨b, by rw [Function.update_of_ne (hother b y _ hb).1]; exact hb⟩
  · rintro ⟨b, hb⟩
    rw [Function.update_apply] at hb
    split_ifs at hb
    · cases hb
    · exact ⟨b, hb⟩

theorem Custody.update_other {v w : τ × Option κ} (ha : held a = some v) (hb : held b = some w)
    (hne : w ≠ v) (u : Option (τ × Option κ)) : Function.update held a u b = some w := by
  rw [Function.update_of_ne]
  · exact hb
  · rintro rfl
    exact hne (Option.some.inj (hb.symm.trans ha))

theorem Custody.release (h : Custody held live named) (ha : held a = some (x, none)) :
    Custody (Function.update held a none) (fun y => y ≠ x ∧ live y) named := by
  have hother : ∀ b y c, held b = some (y, c) → y ≠ x → b ≠ a := by
    rintro b y c hb hne rfl
    rw [ha] at hb
    cases hb
    exact hne rfl
  have hsome : ∀ b y c, Function.update held a none b = some (y, c) →
      b ≠ a ∧ held b = some (y, c) := by
    intro b y c hb
    rw [Function.update_apply] at hb
    split_ifs at hb with e
    exact ⟨e, hb⟩
  refine ⟨fun y => ⟨?_, ?_⟩, ?_, fun k y => (h.named_iff k y).trans ⟨?_, ?_⟩⟩
  · rintro ⟨hne, hy⟩
    obtain ⟨b, c, hb⟩ := (h.live_iff y).mp hy
    exact ⟨b, c, by rw [Function.update_of_ne (hother b y c hb hne)]; exact hb⟩
  · rintro ⟨b, c, hb⟩
    obtain ⟨hba, hb⟩ := hsome b y c hb
    refine ⟨?_, (h.live_iff y).mpr ⟨b, c, hb⟩⟩
    rintro rfl
    exact hba (h.unique b a y _ _ hb ha)
  · intro b b' y c c' hb hb'
    exact h.unique b b' y c c' (hsome b y c hb).2 (hsome b' y c' hb').2
  · rintro ⟨b, hb⟩
    have hne : (y, some k) ≠ (x, none) := by simp
    exact ⟨b, Custody.update_other ha hb hne none⟩
  · rintro ⟨b, hb⟩
    exact ⟨b, (hsome b y _ hb).2⟩

theorem Custody.move (h : Custody held live named) (ha : held a = some (x, c))
    (hb : held b = none) :
    Custody (Function.update (Function.update held a none) b (some (x, c))) live named := by
  have hab : a ≠ b := by
    rintro rfl
    rw [ha] at hb
    cases hb
  -- The new holders are the old ones with `a` and `b` exchanged.
  have hswap : ∀ e, Function.update (Function.update held a none) b (some (x, c)) e =
      held (Equiv.swap a b e) := by
    intro e
    rcases eq_or_ne e b with rfl | he
    · rw [Function.update_self, Equiv.swap_apply_right, ha]
    · rw [Function.update_of_ne he]
      rcases eq_or_ne e a with rfl | he'
      · rw [Function.update_self, Equiv.swap_apply_left, hb]
      · rw [Function.update_of_ne he', Equiv.swap_apply_of_ne_of_ne he' he]
  refine ⟨fun y => (h.live_iff y).trans ?_, ?_, fun k y => (h.named_iff k y).trans ?_⟩
  · rw [(Equiv.swap a b).surjective.exists]
    simp only [hswap]
  · intro d e y k k' hd he
    rw [hswap] at hd he
    exact (Equiv.swap a b).injective (h.unique _ _ y k k' hd he)
  · rw [(Equiv.swap a b).surjective.exists]
    simp only [hswap]

theorem Custody.update_holds (ha : held a = some (x, c)) (c' : Option κ) (b : η) (y : τ) :
    (∃ d, Function.update held a (some (x, c')) b = some (y, d)) ↔ ∃ d, held b = some (y, d) := by
  rcases eq_or_ne b a with rfl | hne
  · rw [Function.update_self, ha]
    simp
  · rw [Function.update_of_ne hne]

theorem Custody.retag {named' : κ → Option τ} (h : Custody held live named)
    (ha : held a = some (x, c)) (c' : Option κ)
    (hn : ∀ k y, named' k = some y ↔
      ∃ b, Function.update held a (some (x, c')) b = some (y, some k)) :
    Custody (Function.update held a (some (x, c'))) live named' := by
  refine ⟨fun y => (h.live_iff y).trans ?_, ?_, hn⟩
  · exact exists_congr fun b => (update_holds ha c' b y).symm
  · intro b b' y d d' hb hb'
    obtain ⟨e, he⟩ := (update_holds ha c' b y).mp ⟨d, hb⟩
    obtain ⟨e', he'⟩ := (update_holds ha c' b' y).mp ⟨d', hb'⟩
    exact h.unique b b' y e e' he he'

theorem Custody.name [DecidableEq κ] (h : Custody held live named) (ha : held a = some (x, none))
    (hk : named k = none) :
    Custody (Function.update held a (some (x, some k))) live
      (Function.update named k (some x)) := by
  refine h.retag ha (some k) fun l y => ⟨?_, ?_⟩
  · intro hl
    rw [Function.update_apply] at hl
    split_ifs at hl with e
    · cases hl
      exact ⟨a, by rw [e, Function.update_self]⟩
    · obtain ⟨b, hb⟩ := (h.named_iff l y).mp hl
      have hne : (y, some l) ≠ (x, none) := by simp
      exact ⟨b, Custody.update_other ha hb hne _⟩
  · rintro ⟨b, hb⟩
    rw [Function.update_apply] at hb
    split_ifs at hb with e
    · cases hb
      exact Function.update_self ..
    · have hl := (h.named_iff l y).mpr ⟨b, hb⟩
      rw [Function.update_of_ne]
      · exact hl
      · rintro rfl
        rw [hk] at hl
        cases hl

theorem Custody.unname [DecidableEq κ] (h : Custody held live named)
    (ha : held a = some (x, some k)) :
    Custody (Function.update held a (some (x, none))) live (Function.update named k none) := by
  have hkx : named k = some x := (h.named_iff k x).mpr ⟨a, ha⟩
  refine h.retag ha none fun l y => ⟨?_, ?_⟩
  · intro hl
    rw [Function.update_apply] at hl
    split_ifs at hl with e
    obtain ⟨b, hb⟩ := (h.named_iff l y).mp hl
    have hne : (y, some l) ≠ (x, some k) := by simp [e]
    exact ⟨b, Custody.update_other ha hb hne _⟩
  · rintro ⟨b, hb⟩
    rw [Function.update_apply] at hb
    split_ifs at hb with e
    · cases hb
    · have hl := (h.named_iff l y).mpr ⟨b, hb⟩
      rw [Function.update_of_ne]
      · exact hl
      · rintro rfl
        rw [hkx] at hl
        cases hl
        exact e (h.unique b a x _ _ hb ha)

theorem Custody.discard [DecidableEq κ] [DecidableEq τ] (h : Custody held live named)
    (ha : held a = some (x, c)) :
    Custody (Function.update held a none) (fun y => y ≠ x ∧ live y)
      (fun k => if named k = some x then none else named k) := by
  cases c with
  | none =>
    refine (h.release ha).congr (fun _ => rfl) (fun _ => Iff.rfl) fun k => ?_
    exact if_neg (h.not_named ha k)
  | some k =>
    have hk : named k = some x := (h.named_iff k x).mpr ⟨a, ha⟩
    refine ((h.unname ha).release (Function.update_self ..)).congr (fun b => ?_)
      (fun _ => Iff.rfl) fun l => ?_
    · rw [Function.update_idem]
    · rw [Function.update_apply]
      by_cases hl : l = k
      · rw [if_pos hl, hl, if_pos hk]
      · rw [if_neg hl, if_neg fun hx => hl (h.named_unique hx hk)]

end Update

end Lib
