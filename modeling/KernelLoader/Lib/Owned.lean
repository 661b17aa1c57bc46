import KernelLoader.Lib.Async

namespace Lib.Async
open Lib
set_option autoImplicit true
set_option relaxedAutoImplicit false

/-- Who can own something: a running context, or a request on its way. -/
inductive Owner
  | context (t : Nat)
  | message (w : Nat)
  deriving DecidableEq

/-- What everyone owns, if `f` tells it of a context and `g` of a request. -/
def Sys.holdings (f : Context σ μ ρ τ → Finset η) (g : Message μ ρ τ → Finset η)
    (s : Sys σ μ ρ τ) : Owner → Finset η
  | .context t => ((s.contexts t).map f).getD ∅
  | .message w => ((s.wire w).map g).getD ∅

section Holdings
variable {f : Context σ μ ρ τ → Finset η} {g : Message μ ρ τ → Finset η} {s s' : Sys σ μ ρ τ}

theorem Sys.holdings_context (hc : s.contexts t = some c) :
    s.holdings f g (.context t) = f c := by
  simp [holdings, hc]

theorem Sys.holdings_message (hw : s.wire w = some e) : s.holdings f g (.message w) = g e := by
  simp [holdings, hw]

theorem Sys.holdings_no_context (hc : s.contexts t = none) :
    s.holdings f g (.context t) = ∅ := by
  simp [holdings, hc]

theorem Sys.holdings_no_message (hw : s.wire w = none) : s.holdings f g (.message w) = ∅ := by
  simp [holdings, hw]

theorem Sys.holdings_idle (vars : σ) :
    (Sys.idle vars : Sys σ μ ρ τ).holdings f g = fun _ => ∅ := by
  funext o
  cases o <;> rfl

theorem Sys.holdings_update {p : Option (Context σ μ ρ τ)}
    (hc : s'.contexts = Function.update s.contexts t p) (hw : s'.wire = s.wire) :
    s'.holdings f g = Function.update (s.holdings f g) (.context t) ((p.map f).getD ∅) := by
  funext o
  cases o with
  | context u =>
    rcases eq_or_ne u t with rfl | hne
    · simp [holdings, hc]
    · rw [Function.update_of_ne (fun h => hne (Owner.context.inj h))]
      simp [holdings, hc, hne]
  | message w =>
    rw [Function.update_of_ne (fun h => Owner.noConfusion h)]
    simp [holdings, hw]

theorem Sys.holdings_exchange {p : Option (Context σ μ ρ τ)} {q : Option (Message μ ρ τ)}
    (hc : s'.contexts = Function.update s.contexts t p)
    (hw : s'.wire = Function.update s.wire w q) :
    s'.holdings f g = Function.update (Function.update (s.holdings f g) (.context t)
      ((p.map f).getD ∅)) (.message w) ((q.map g).getD ∅) := by
  funext o
  cases o with
  | context u =>
    rw [Function.update_of_ne (fun h => Owner.noConfusion h)]
    rcases eq_or_ne u t with rfl | hne
    · simp [holdings, hc]
    · rw [Function.update_of_ne (fun h => hne (Owner.context.inj h))]
      simp [holdings, hc, hne]
  | message v =>
    rcases eq_or_ne v w with rfl | hne
    · simp [holdings, hw]
    · rw [Function.update_of_ne (fun h => hne (Owner.message.inj h)),
        Function.update_of_ne (fun h => Owner.noConfusion h)]
      simp [holdings, hw, hne]

end Holdings

/-- Everything that is taken has one owner. -/
structure Owned (taken : μ → Prop) (own : η → Finset μ) : Prop where
  taken_iff : ∀ m, taken m ↔ ∃ o, m ∈ own o
  single : ∀ o o' m, m ∈ own o → m ∈ own o' → o = o'

section Owned
variable {taken taken' : μ → Prop} {own : η → Finset μ}

theorem Owned.congr (h : Owned taken own) (ht : ∀ m, taken' m ↔ taken m) : Owned taken' own :=
  ⟨fun m => (ht m).trans (h.taken_iff m), h.single⟩

theorem Owned.empty : Owned (fun _ : μ => False) (fun _ : η => ∅) := by
  refine ⟨fun m => ?_, fun o o' m hm => ?_⟩
  · simp
  · exact absurd hm (Finset.notMem_empty m)

variable [DecidableEq η]

theorem Owned.acquire [DecidableEq μ] (h : Owned taken own) (hm : ¬taken m) (o : η) :
    Owned (fun x => x = m ∨ taken x) (Function.update own o (insert m (own o))) := by
  have hfree : ∀ o', m ∉ own o' := fun o' ho' => hm ((h.taken_iff m).mpr ⟨o', ho'⟩)
  have hmem : ∀ o' x, x ∈ Function.update own o (insert m (own o)) o' ↔
      (o' = o ∧ x = m) ∨ x ∈ own o' := by
    intro o' x
    rcases eq_or_ne o' o with rfl | hne
    · simp
    · simp [hne]
  refine ⟨fun x => ?_, fun a b x ha hb => ?_⟩
  · constructor
    · rintro (rfl | hx)
      · exact ⟨o, (hmem o x).mpr (.inl ⟨rfl, rfl⟩)⟩
      · obtain ⟨o', ho'⟩ := (h.taken_iff x).mp hx
        exact ⟨o', (hmem o' x).mpr (.inr ho')⟩
    · rintro ⟨o', ho'⟩
      rcases (hmem o' x).mp ho' with ⟨-, rfl⟩ | hx
      · exact .inl rfl
      · exact .inr ((h.taken_iff x).mpr ⟨o', hx⟩)
  · rcases (hmem a x).mp ha with ⟨hao, hxm⟩ | ha'
    · rcases (hmem b x).mp hb with ⟨hbo, -⟩ | hb'
      · exact hao.trans hbo.symm
      · exact absurd (hxm ▸ hb') (hfree b)
    · rcases (hmem b x).mp hb with ⟨-, hxm⟩ | hb'
      · exact absurd (hxm ▸ ha') (hfree a)
      · exact h.single a b x ha' hb'

theorem Owned.release [DecidableEq μ] (h : Owned taken own) (o : η) (hm : m ∈ own o) :
    Owned (fun x => x ≠ m ∧ taken x) (Function.update own o ((own o).erase m)) := by
  have hmem : ∀ o' x, x ∈ Function.update own o ((own o).erase m) o' ↔ x ≠ m ∧ x ∈ own o' := by
    intro o' x
    rcases eq_or_ne o' o with rfl | hne
    · simp
    · rw [Function.update_of_ne hne]
      constructor
      · intro hx
        refine ⟨?_, hx⟩
        rintro rfl
        exact hne (h.single o' o x hx hm)
      · rintro ⟨-, hx⟩
        exact hx
  refine ⟨fun x => ?_, fun a b x ha hb => ?_⟩
  · constructor
    · rintro ⟨hne, hx⟩
      obtain ⟨o', ho'⟩ := (h.taken_iff x).mp hx
      exact ⟨o', (hmem o' x).mpr ⟨hne, ho'⟩⟩
    · rintro ⟨o', ho'⟩
      obtain ⟨hne, hx⟩ := (hmem o' x).mp ho'
      exact ⟨hne, (h.taken_iff x).mpr ⟨o', hx⟩⟩
  · exact h.single a b x ((hmem a x).mp ha).2 ((hmem b x).mp hb).2

theorem Owned.hand_over (h : Owned taken own) (ho : own b = ∅) :
    Owned taken (Function.update (Function.update own a ∅) b (own a)) := by
  have hmem : ∀ o x, x ∈ Function.update (Function.update own a ∅) b (own a) o ↔
      (o = b ∧ x ∈ own a) ∨ (o ≠ b ∧ o ≠ a ∧ x ∈ own o) := by
    intro o x
    rcases eq_or_ne o b with rfl | hb
    · simp
    · rcases eq_or_ne o a with rfl | ha
      · simp [hb]
      · simp [hb, ha]
  refine ⟨fun x => (h.taken_iff x).trans ?_, fun o o' x hx hx' => ?_⟩
  · constructor
    · rintro ⟨o, hx⟩
      by_cases ha : o = a
      · exact ⟨b, (hmem b x).mpr (.inl ⟨rfl, ha ▸ hx⟩)⟩
      · refine ⟨o, (hmem o x).mpr (.inr ⟨?_, ha, hx⟩)⟩
        rintro rfl
        rw [ho] at hx
        exact absurd hx (Finset.notMem_empty x)
    · rintro ⟨o, hx⟩
      rcases (hmem o x).mp hx with ⟨-, hx⟩ | ⟨-, -, hx⟩
      · exact ⟨a, hx⟩
      · exact ⟨o, hx⟩
  · rcases (hmem o x).mp hx with ⟨hob, hxa⟩ | ⟨-, hoa, hxo⟩
    · rcases (hmem o' x).mp hx' with ⟨hob', -⟩ | ⟨-, hoa', hxo'⟩
      · exact hob.trans hob'.symm
      · exact absurd (h.single _ _ x hxo' hxa) hoa'
    · rcases (hmem o' x).mp hx' with ⟨-, hxa'⟩ | ⟨-, -, hxo'⟩
      · exact absurd (h.single _ _ x hxo hxa') hoa
      · exact h.single o o' x hxo hxo'

end Owned

section Transfer
variable {f : Context σ μ ρ τ → Finset η} {g : Message μ ρ τ → Finset η} {s s' : Sys σ μ ρ τ}
variable {taken taken' : η → Prop}

theorem Owned.keep (h : Owned taken (s.holdings f g)) {p : Option (Context σ μ ρ τ)}
    (hc : s'.contexts = Function.update s.contexts t p) (hw : s'.wire = s.wire)
    (hp : (p.map f).getD ∅ = s.holdings f g (.context t)) (ht : ∀ x, taken' x ↔ taken x) :
    Owned taken' (s'.holdings f g) := by
  rw [Sys.holdings_update hc hw, hp, Function.update_eq_self]
  exact h.congr ht

theorem Owned.keep_both (h : Owned taken (s.holdings f g)) {p : Option (Context σ μ ρ τ)}
    {q : Option (Message μ ρ τ)} (hc : s'.contexts = Function.update s.contexts t p)
    (hw : s'.wire = Function.update s.wire w q)
    (hp : (p.map f).getD ∅ = s.holdings f g (.context t))
    (hq : (q.map g).getD ∅ = s.holdings f g (.message w)) (ht : ∀ x, taken' x ↔ taken x) :
    Owned taken' (s'.holdings f g) := by
  rw [Sys.holdings_exchange hc hw, hp, hq, Function.update_eq_self, Function.update_eq_self]
  exact h.congr ht

theorem Owned.send (h : Owned taken (s.holdings f g)) (hold : s.contexts t = some c)
    (hfree : s.wire w = none) (hc : s'.contexts = Function.update s.contexts t (some c'))
    (hw : s'.wire = Function.update s.wire w (some e)) (hc' : f c' = ∅) (he : g e = f c)
    (ht : ∀ x, taken' x ↔ taken x) : Owned taken' (s'.holdings f g) := by
  have hmine : f c = s.holdings f g (.context t) := (Sys.holdings_context hold).symm
  rw [Sys.holdings_exchange hc hw, Option.map_some, Option.getD_some, Option.map_some,
    Option.getD_some, hc', he, hmine]
  exact (h.hand_over (Sys.holdings_no_message hfree)).congr ht

theorem Owned.receive (h : Owned taken (s.holdings f g)) (hold : s.contexts t = none)
    (he : s.wire w = some e) (hc : s'.contexts = Function.update s.contexts t (some c))
    (hw : s'.wire = Function.update s.wire w none) (hce : f c = g e)
    (ht : ∀ x, taken' x ↔ taken x) : Owned taken' (s'.holdings f g) := by
  have hmine : g e = s.holdings f g (.message w) := (Sys.holdings_message he).symm
  have hswap :
      Function.update (Function.update (s.holdings f g) (.context t) (g e)) (.message w) ∅ =
      Function.update (Function.update (s.holdings f g) (.message w) ∅) (.context t) (g e) :=
    Function.update_comm (fun h => Owner.noConfusion h) _ _ _
  rw [Sys.holdings_exchange hc hw, Option.map_some, Option.getD_some, Option.map_none,
    Option.getD_none, hce, hswap, hmine]
  exact (h.hand_over (Sys.holdings_no_context hold)).congr ht

theorem Owned.take [DecidableEq η] (h : Owned taken (s.holdings f g)) (hx : ¬taken x)
    (hc : s'.contexts = Function.update s.contexts t (some c)) (hw : s'.wire = s.wire)
    (hcx : f c = insert x (s.holdings f g (.context t))) (ht : ∀ y, taken' y ↔ y = x ∨ taken y) :
    Owned taken' (s'.holdings f g) := by
  rw [Sys.holdings_update hc hw, Option.map_some, Option.getD_some, hcx]
  exact (h.acquire hx (.context t)).congr ht

theorem Owned.giveUp [DecidableEq η] (h : Owned taken (s.holdings f g))
    (hx : x ∈ s.holdings f g (.context t)) {p : Option (Context σ μ ρ τ)}
    (hc : s'.contexts = Function.update s.contexts t p) (hw : s'.wire = s.wire)
    (hp : (p.map f).getD ∅ = (s.holdings f g (.context t)).erase x)
    (ht : ∀ y, taken' y ↔ y ≠ x ∧ taken y) : Owned taken' (s'.holdings f g) := by
  rw [Sys.holdings_update hc hw, hp]
  exact (h.release (.context t) hx).congr ht

end Transfer

end Lib.Async
