import Mathlib.Data.List.Basic

namespace Lib
set_option autoImplicit true
set_option relaxedAutoImplicit false

/-- The contents of a file and a position in it, which may be behind the last byte. -/
structure Stream (α : Type) where
  bytes : List α
  pos : Nat
  le : pos ≤ bytes.length

namespace Stream
variable {α : Type} {s : Stream α}

def start (bytes : List α) : Stream α := ⟨bytes, 0, Nat.zero_le _⟩

def AtEnd (s : Stream α) : Prop := s.pos = s.bytes.length

instance (s : Stream α) : Decidable s.AtEnd := inferInstanceAs (Decidable (_ = _))

/-- The next `n` bytes, or as many as there are. -/
def upcoming (s : Stream α) (n : Nat) : List α := (s.bytes.drop s.pos).take n

def advance (s : Stream α) (n : Nat) : Stream α :=
  ⟨s.bytes, min (s.pos + n) s.bytes.length, Nat.min_le_right _ _⟩

def moveTo (s : Stream α) (target : Nat) (h : target ≤ s.bytes.length) : Stream α :=
  ⟨s.bytes, target, h⟩

theorem length_upcoming (s : Stream α) (n : Nat) :
    (s.upcoming n).length = min n (s.bytes.length - s.pos) := by
  rw [upcoming, List.length_take, List.length_drop]

theorem getElem?_upcoming (s : Stream α) {i n : Nat} (h : i < n) :
    (s.upcoming n)[i]? = s.bytes[s.pos + i]? := by
  rw [upcoming, List.getElem?_take_of_lt h, List.getElem?_drop]

theorem pos_lt_of_not_atEnd (h : ¬ s.AtEnd) : s.pos < s.bytes.length :=
  Nat.lt_of_le_of_ne s.le h

end Stream

end Lib
