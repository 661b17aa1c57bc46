import Mathlib.Data.List.Basic
import Mathlib.Tactic.SplitIfs

namespace Lib.Flow
set_option autoImplicit true
set_option relaxedAutoImplicit false

/-- What the instructions of a machine do and when its branches are taken. An instruction that
traps has no next state. -/
structure Isa (ι κ σ : Type) where
  exec : ι → σ → Option σ
  test : κ → σ → Bool

/-- The end of a block of instructions. The instruction in the slot behind a branch is executed
before control goes elsewhere, after the condition was tested; behind a `likely` branch it is
executed only if the branch is taken. -/
inductive Exit (ι κ L : Type)
  | branch (cond : κ) (slot : ι) (target next : L)
  | likely (cond : κ) (slot : ι) (target next : L)
  | jump (slot : ι) (target : L)
  | fall (next : L)
  | ret (slot : ι)

structure Block (ι κ L : Type) where
  body : List ι
  exit : Exit ι κ L

/-- The blocks of a function by their labels. -/
abbrev Code (ι κ L : Type) := L → Block ι κ L

def Exit.slots : Exit ι κ L → List ι
  | .branch _ slot _ _ | .likely _ slot _ _ | .jump slot _ | .ret slot => [slot]
  | .fall _ => []

def Block.instrs (b : Block ι κ L) : List ι := b.body ++ b.exit.slots

variable {ι κ L σ : Type} (isa : Isa ι κ σ) (code : Code ι κ L)

def Isa.runList : List ι → σ → Option σ
  | [], s => some s
  | i :: is, s => (isa.exec i s).bind (runList is)

/-- Where control goes at the end of a block; nowhere if the function returns. -/
def Isa.leave : Exit ι κ L → σ → Option (Option L × σ)
  | .branch cond slot target next, s =>
    (isa.exec slot s).map fun t => (some (if isa.test cond s then target else next), t)
  | .likely cond slot target next, s =>
    if isa.test cond s then (isa.exec slot s).map fun t => (some target, t)
    else some (some next, s)
  | .jump slot target, s => (isa.exec slot s).map fun t => (some target, t)
  | .fall next, s => some (some next, s)
  | .ret slot, s => (isa.exec slot s).map fun t => (none, t)

def Isa.step (l : L) (s : σ) : Option (Option L × σ) :=
  (isa.runList (code l).body s).bind (isa.leave (code l).exit)

/-- The state in which the function returns, if it does within `fuel` blocks and without a trap. -/
def Isa.runFrom : Nat → L → σ → Option σ
  | 0, _, _ => none
  | fuel + 1, l, s =>
    match isa.step code l s with
    | none => none
    | some (none, t) => some t
    | some (some l', t) => runFrom fuel l' t

/-- Started at a label the function returns, in a state with the property `Q`. -/
def Isa.Ends (l : L) (s : σ) (Q : σ → Prop) : Prop :=
  ∃ fuel t, isa.runFrom code fuel l s = some t ∧ Q t

/-- The instructions run without a trap to a state with the property `P`. -/
def Isa.After : List ι → σ → (σ → Prop) → Prop
  | [], s, P => P s
  | i :: is, s, P => ∃ t, isa.exec i s = some t ∧ After is t P

/-- What a block has to establish at its exit for the function to end well. -/
def Isa.Leaves (Q : σ → Prop) : Exit ι κ L → σ → Prop
  | .branch cond slot target next, s =>
    ∃ t, isa.exec slot s = some t ∧
      isa.Ends code (if isa.test cond s then target else next) t Q
  | .likely cond slot target next, s =>
    if isa.test cond s then ∃ t, isa.exec slot s = some t ∧ isa.Ends code target t Q
    else isa.Ends code next s Q
  | .jump slot target, s => ∃ t, isa.exec slot s = some t ∧ isa.Ends code target t Q
  | .fall next, s => isa.Ends code next s Q
  | .ret slot, s => ∃ t, isa.exec slot s = some t ∧ Q t

attribute [simp] Isa.After Isa.Leaves

variable {isa code} {P Q : σ → Prop}

theorem Isa.After.run {is : List ι} (h : isa.After is s P) :
    ∃ t, isa.runList is s = some t ∧ P t := by
  induction is generalizing s with
  | nil => exact ⟨s, rfl, h⟩
  | cons i is ih =>
    obtain ⟨t, hi, hrest⟩ := h
    obtain ⟨u, hu, hP⟩ := ih hrest
    refine ⟨u, ?_, hP⟩
    rw [runList, hi]
    exact hu

theorem Isa.After.mono {is : List ι} (h : isa.After is s P) (hPQ : ∀ t, P t → Q t) :
    isa.After is s Q := by
  induction is generalizing s with
  | nil => exact hPQ s h
  | cons i is ih =>
    obtain ⟨t, ht, hrest⟩ := h
    exact ⟨t, ht, ih hrest⟩

theorem Isa.after_append {is js : List ι} :
    isa.After (is ++ js) s P ↔ isa.After is s fun t => isa.After js t P := by
  induction is generalizing s with
  | nil => exact Iff.rfl
  | cons i is ih =>
    rw [List.cons_append, After, After]
    exact exists_congr fun t => and_congr_right fun _ => ih

theorem Isa.Ends.go (hs : isa.step code l s = some (some l', t)) (h : isa.Ends code l' t Q) :
    isa.Ends code l s Q := by
  obtain ⟨fuel, u, hu, hQ⟩ := h
  refine ⟨fuel + 1, u, ?_, hQ⟩
  rw [runFrom, hs]
  exact hu

theorem Isa.Ends.done (hs : isa.step code l s = some (none, t)) (h : Q t) :
    isa.Ends code l s Q := by
  refine ⟨1, t, ?_, h⟩
  rw [runFrom, hs]

theorem Isa.Leaves.ends {e : Exit ι κ L} (he : (code l).exit = e)
    (hrun : isa.runList (code l).body s = some t) (h : isa.Leaves code Q e t) :
    isa.Ends code l s Q := by
  have hstep : isa.step code l s = isa.leave e t := by
    rw [step, hrun, he]
    rfl
  cases e with
  | branch cond slot target next =>
    obtain ⟨u, hu, hends⟩ := h
    exact .go (by rw [hstep, leave, hu, Option.map_some]) hends
  | likely cond slot target next =>
    rw [Leaves] at h
    rw [leave] at hstep
    split_ifs at h hstep with hc
    · obtain ⟨u, hu, hends⟩ := h
      exact .go (by rw [hstep, hu, Option.map_some]) hends
    · exact .go hstep h
  | jump slot target =>
    obtain ⟨u, hu, hends⟩ := h
    exact .go (by rw [hstep, leave, hu, Option.map_some]) hends
  | fall next => exact .go hstep h
  | ret slot =>
    obtain ⟨u, hu, hQ⟩ := h
    exact .done (by rw [hstep, leave, hu, Option.map_some]) hQ

theorem Isa.Ends.block (h : isa.After (code l).body s (isa.Leaves code Q (code l).exit)) :
    isa.Ends code l s Q := by
  obtain ⟨t, ht, hleave⟩ := h.run
  exact hleave.ends rfl ht

theorem Isa.Ends.mono {Q' : σ → Prop} (h : isa.Ends code l s Q) (hQ : ∀ t, Q t → Q' t) :
    isa.Ends code l s Q' := by
  obtain ⟨fuel, t, ht, hq⟩ := h
  exact ⟨fuel, t, ht, hQ t hq⟩

section Kept
variable {β : Type} {f : σ → β} {fuel : Nat}

theorem Isa.runList_keeps {is : List ι}
    (h : ∀ i ∈ is, ∀ s t, isa.exec i s = some t → f t = f s)
    (hrun : isa.runList is s = some t) : f t = f s := by
  induction is generalizing s with
  | nil =>
    cases hrun
    rfl
  | cons i is ih =>
    obtain ⟨u, hu, hrest⟩ := Option.bind_eq_some_iff.mp hrun
    have htail := ih (fun j hj => h j (List.mem_cons_of_mem i hj)) hrest
    exact htail.trans (h i List.mem_cons_self s u hu)

theorem Isa.leave_keeps {e : Exit ι κ L}
    (h : ∀ i ∈ e.slots, ∀ s t, isa.exec i s = some t → f t = f s)
    (hl : isa.leave e s = some (o, t)) : f t = f s := by
  have slot {i : ι} (hi : i ∈ e.slots) {o' : Option L}
      (hm : ((isa.exec i s).map fun t => (o', t)) = some (o, t)) : f t = f s := by
    obtain ⟨u, hu, he⟩ := Option.map_eq_some_iff.mp hm
    cases he
    exact h i hi s _ hu
  cases e with
  | branch cond i target next => exact slot List.mem_cons_self hl
  | likely cond i target next =>
    rw [leave] at hl
    split_ifs at hl
    · exact slot List.mem_cons_self hl
    · cases hl
      rfl
  | jump i target => exact slot List.mem_cons_self hl
  | fall next =>
    cases hl
    rfl
  | ret i => exact slot List.mem_cons_self hl

/-- What none of the instructions of a function changes is the same when it returns. -/
theorem Isa.runFrom_keeps (h : ∀ l, ∀ i ∈ (code l).instrs, ∀ s t, isa.exec i s = some t → f t = f s)
    (hrun : isa.runFrom code fuel l s = some t) : f t = f s := by
  induction fuel generalizing l s with
  | zero => cases hrun
  | succ fuel ih =>
    have step {o : Option L} {u : σ} (hs : isa.step code l s = some (o, u)) : f u = f s := by
      obtain ⟨v, hv, hleave⟩ := Option.bind_eq_some_iff.mp hs
      have hbody := runList_keeps (fun i hi => h l i (List.mem_append_left _ hi)) hv
      exact (leave_keeps (fun i hi => h l i (List.mem_append_right _ hi)) hleave).trans hbody
    rw [runFrom] at hrun
    split at hrun
    · cases hrun
    · next u hs =>
      cases hrun
      exact step hs
    · next l' u hs => exact (ih hrun).trans (step hs)

theorem Isa.Ends.keeps (h : isa.Ends code l s Q)
    (hf : ∀ l, ∀ i ∈ (code l).instrs, ∀ s t, isa.exec i s = some t → f t = f s) :
    isa.Ends code l s fun t => Q t ∧ f t = f s := by
  obtain ⟨fuel, t, ht, hQ⟩ := h
  exact ⟨fuel, t, ht, hQ, runFrom_keeps hf ht⟩

end Kept

end Lib.Flow
