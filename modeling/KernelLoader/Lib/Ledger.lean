import Mathlib.Data.List.Perm.Basic

namespace Lib
set_option autoImplicit true
set_option relaxedAutoImplicit false

/-- What was acquired and what was released, one entry each time. -/
structure Ledger (α : Type) where
  acquired : List α
  released : List α

namespace Ledger
variable {α : Type} {l : Ledger α} {x : α} {xs ys : List α}

def start : Ledger α := ⟨[], []⟩

def acquire (x : α) (l : Ledger α) : Ledger α := { l with acquired := x :: l.acquired }

def release (x : α) (l : Ledger α) : Ledger α := { l with released := x :: l.released }

/-- Everything acquired was released exactly once, and nothing else was released. -/
def Settled (l : Ledger α) : Prop := l.released.Perm l.acquired

/-- What is left to be released. -/
def Owes (l : Ledger α) (xs : List α) : Prop := (l.released ++ xs).Perm l.acquired

instance [DecidableEq α] (l : Ledger α) : Decidable l.Settled :=
  inferInstanceAs (Decidable (l.released.Perm l.acquired))

theorem owes_start : (start : Ledger α).Owes [] := List.Perm.refl []

theorem Owes.acquire (h : l.Owes xs) (x : α) : (l.acquire x).Owes (x :: xs) := by
  have hmid : (l.released ++ x :: xs).Perm (x :: (l.released ++ xs)) := List.perm_middle
  exact hmid.trans (h.cons x)

theorem Owes.release (h : l.Owes (x :: xs)) : (l.release x).Owes xs := by
  have hmid : (l.released ++ x :: xs).Perm (x :: (l.released ++ xs)) := List.perm_middle
  exact hmid.symm.trans h

theorem Owes.settled_iff (h : l.Owes xs) : l.Settled ↔ xs = [] := by
  constructor
  · intro hs
    have hlen := h.length_eq
    rw [List.length_append, hs.length_eq] at hlen
    exact List.eq_nil_of_length_eq_zero (by omega)
  · rintro rfl
    rw [Owes, List.append_nil] at h
    exact h

end Ledger

/-- Things that are opened and closed, numbered in the order they are opened, and those that were
used after they had been closed. -/
structure Handles where
  ledger : Ledger Nat
  late : List Nat

namespace Handles
variable {h : Handles} {live : List Nat}

def start : Handles := ⟨.start, []⟩

/-- The number of the next one. -/
def fresh (h : Handles) : Nat := h.ledger.acquired.length

def opened (h : Handles) : Handles := { h with ledger := h.ledger.acquire h.fresh }

def use (i : Nat) (h : Handles) : Handles :=
  if i ∈ h.ledger.released then { h with late := i :: h.late } else h

def close (i : Nat) (h : Handles) : Handles :=
  { h.use i with ledger := (h.use i).ledger.release i }

/-- Exactly the given ones are open, and none was used after it had been closed. -/
structure Live (h : Handles) (live : List Nat) : Prop where
  owes : h.ledger.Owes live
  late : h.late = []
  nodup : h.ledger.acquired.Nodup
  numbered : ∀ i ∈ h.ledger.acquired, i < h.fresh

theorem Live.start : start.Live [] :=
  ⟨Ledger.owes_start, rfl, List.nodup_nil, fun _ hi => (nomatch hi)⟩

theorem Live.opened (hl : h.Live live) : h.opened.Live (h.fresh :: live) := by
  have hfresh : h.fresh ∉ h.ledger.acquired := fun hi => Nat.lt_irrefl _ (hl.numbered _ hi)
  refine ⟨hl.owes.acquire _, hl.late, List.nodup_cons.mpr ⟨hfresh, hl.nodup⟩, fun i hi => ?_⟩
  show i < h.ledger.acquired.length + 1
  rcases List.mem_cons.mp hi with rfl | hi
  · exact Nat.lt_succ_self _
  · exact Nat.lt_succ_of_lt (hl.numbered i hi)

theorem Live.not_released (hl : h.Live live) (hi : i ∈ live) : i ∉ h.ledger.released := by
  have hnodup : (h.ledger.released ++ live).Nodup := hl.owes.nodup_iff.mpr hl.nodup
  exact fun hr => (List.nodup_append.mp hnodup).2.2 i hr i hi rfl

theorem Live.use (hl : h.Live live) (hi : i ∈ live) : h.use i = h :=
  if_neg (hl.not_released hi)

theorem Live.close (hl : h.Live (i :: live)) : (h.close i).Live live := by
  rw [Handles.close, hl.use List.mem_cons_self]
  exact ⟨hl.owes.release, hl.late, hl.nodup, hl.numbered⟩

theorem late_use (hi : i ∈ h.ledger.released) : (h.use i).late ≠ [] := by
  rw [use, if_pos hi]
  exact List.cons_ne_nil _ _

theorem late_use_of_late (hl : h.late ≠ []) (i : Nat) : (h.use i).late ≠ [] := by
  unfold use
  split
  · exact List.cons_ne_nil _ _
  · exact hl

theorem released_close (i : Nat) (h : Handles) :
    (h.close i).ledger.released = i :: h.ledger.released := by
  unfold close use
  split <;> rfl

end Handles

end Lib
