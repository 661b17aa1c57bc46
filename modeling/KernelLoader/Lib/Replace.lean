import Mathlib.Tactic.SplitIfs

namespace Lib
set_option autoImplicit true
set_option relaxedAutoImplicit false

/-- The `n` elements of a pattern stand from position `i` on; `addr` tells where a position is. -/
def OccursAt (addr : Nat → β) (n : Nat) (pat : Nat → α) (m : β → α) (i : Nat) : Prop :=
  ∀ k < n, m (addr (i + k)) = pat k

/-- No end of the first pattern is a start of the second one. -/
def NoOverlap (n : Nat) (pat pat' : Nat → α) : Prop :=
  ∀ d < n, 0 < d → ∃ k < n - d, pat (k + d) ≠ pat' k

instance [DecidableEq α] (n : Nat) (pat pat' : Nat → α) : Decidable (NoOverlap n pat pat') :=
  inferInstanceAs (Decidable (∀ d < n, 0 < d → ∃ k < n - d, pat (k + d) ≠ pat' k))

/-- The occurrences before position `j` were replaced and nothing else was changed. -/
structure Replaced (addr : Nat → β) (n : Nat) (old new : Nat → α) (j : Nat) (m m' : β → α) :
    Prop where
  inside : ∀ i < j, OccursAt addr n old m i → OccursAt addr n new m' i
  outside : ∀ a, (∀ i < j, OccursAt addr n old m i → ∀ k < n, addr (i + k) ≠ a) → m' a = m a

section
variable {addr : Nat → β} {n size : Nat} {pat old new : Nat → α} {m m' m'' : β → α} {i j : Nat}

theorem OccursAt.apart (hi : OccursAt addr n pat m i) (hj : OccursAt addr n old m j)
    (hno : NoOverlap n pat old) (hlt : i < j) : i + n ≤ j := by
  apply Nat.le_of_not_lt
  intro hover
  obtain ⟨k, hk, hne⟩ := hno (j - i) (by omega) (by omega)
  apply hne
  rw [← hi (k + (j - i)) (by omega), ← hj k (by omega)]
  congr 2
  omega

theorem Replaced.zero (addr : Nat → β) (n : Nat) (old new : Nat → α) (m : β → α) :
    Replaced addr n old new 0 m m :=
  ⟨fun i hi => absurd hi (Nat.not_lt_zero i), fun _ _ => rfl⟩

theorem Replaced.same (h : Replaced addr n old new j m m')
    (hinj : ∀ x < size, ∀ y < size, addr x = addr y → x = y) (hj : j + n ≤ size)
    (hfree : ∀ i < j, OccursAt addr n old m i → i + n ≤ j) (hk : k < n) :
    m' (addr (j + k)) = m (addr (j + k)) := by
  apply h.outside
  intro i hi hocc l hl he
  have hle := hfree i hi hocc
  have := hinj (i + l) (by omega) (j + k) (by omega) he
  omega

/-- A position that was not looked at yet shows the pattern exactly if it did at first: the earlier
occurrences do not reach it, and what they were replaced by does not give a new one. -/
theorem Replaced.occursAt_iff (h : Replaced addr n old new j m m')
    (hinj : ∀ x < size, ∀ y < size, addr x = addr y → x = y) (hj : j + n ≤ size)
    (hold : NoOverlap n old old) (hnew : NoOverlap n new old) :
    OccursAt addr n old m' j ↔ OccursAt addr n old m j := by
  constructor
  · intro hocc k hk
    rw [← h.same hinj hj (fun i hi ho => (h.inside i hi ho).apart hocc hnew hi) hk]
    exact hocc k hk
  · intro hocc k hk
    rw [h.same hinj hj (fun i hi ho => ho.apart hocc hold hi) hk]
    exact hocc k hk

theorem Replaced.skip (h : Replaced addr n old new j m m') (hno : ¬OccursAt addr n old m j) :
    Replaced addr n old new (j + 1) m m' := by
  refine ⟨fun i hi hocc => ?_, fun a ha => ?_⟩
  · rcases Nat.lt_succ_iff_lt_or_eq.mp hi with hlt | rfl
    · exact h.inside i hlt hocc
    · exact absurd hocc hno
  · exact h.outside a fun i hi => ha i (by omega)

theorem Replaced.patch (h : Replaced addr n old new j m m')
    (hinj : ∀ x < size, ∀ y < size, addr x = addr y → x = y) (hj : j + n ≤ size)
    (hold : NoOverlap n old old) (hocc : OccursAt addr n old m j)
    (hin : ∀ k < n, m'' (addr (j + k)) = new k)
    (hout : ∀ a, (∀ k < n, addr (j + k) ≠ a) → m'' a = m' a) :
    Replaced addr n old new (j + 1) m m'' := by
  refine ⟨fun i hi ho => ?_, fun a ha => ?_⟩
  · rcases Nat.lt_succ_iff_lt_or_eq.mp hi with hlt | rfl
    · intro k hk
      have hle := ho.apart hocc hold hlt
      rw [hout _ fun l hl he => by
        have := hinj (j + l) (by omega) (i + k) (by omega) he
        omega]
      exact h.inside i hlt ho k hk
    · exact hin
  · rw [hout a (ha j (Nat.lt_succ_self j) hocc)]
    exact h.outside a fun i hi => ha i (by omega)

end

end Lib
