import Mathlib.Data.UInt
import Mathlib.Logic.Function.Basic
import Mathlib.Tactic.SplitIfs

namespace Lib
set_option autoImplicit true
set_option relaxedAutoImplicit false

/-- Byte-addressed memory, or the contents of a file. -/
abbrev Mem := Nat → UInt8

/-- The little-endian number in the `n` bytes from `a` on. -/
def le (f : Mem) (a : Nat) : Nat → Nat
  | 0 => 0
  | n + 1 => (f a).toNat + 256 * le f (a + 1) n

theorem le_lt (f : Mem) (a n : Nat) : le f a n < 256 ^ n := by
  induction n generalizing a with
  | zero => exact Nat.one_pos
  | succ n ih =>
    have hb := (f a).toNat_lt
    have ht := ih (a + 1)
    rw [le, Nat.pow_succ]
    omega

theorem le_eq_le {f g : Mem} (h : ∀ i < n, f (a + i) = g (b + i)) : le f a n = le g b n := by
  induction n generalizing a b with
  | zero => rfl
  | succ n ih =>
    have hrec : ∀ i < n, f (a + 1 + i) = g (b + 1 + i) := by
      intro i hi
      rw [Nat.add_right_comm, Nat.add_right_comm b]
      exact h (i + 1) (by omega)
    rw [le, le, ih hrec, ← Nat.add_zero a, ← Nat.add_zero b, h 0 (by omega)]

theorem le_congr {f g : Mem} (h : ∀ i, a ≤ i → i < a + n → f i = g i) : le f a n = le g a n :=
  le_eq_le fun i hi => h (a + i) (by omega) (by omega)

theorem le_of_digits {f : Mem} (h : ∀ i < n, f (a + i) = .ofNat (v / 256 ^ i)) :
    le f a n = v % 256 ^ n := by
  induction n generalizing a v with
  | zero => rw [le, Nat.pow_zero, Nat.mod_one]
  | succ n ih =>
    have hrec : ∀ i < n, f (a + 1 + i) = .ofNat (v / 256 / 256 ^ i) := by
      intro i hi
      rw [Nat.div_div_eq_div_mul, ← Nat.pow_succ', Nat.add_assoc, Nat.add_comm 1]
      exact h (i + 1) (by omega)
    have hfirst : f a = .ofNat v := by simpa using h 0 (by omega)
    have hdigit : (UInt8.ofNat v).toNat = v % 256 := UInt8.toNat_ofNat'
    rw [le, ih hrec, hfirst, hdigit, Nat.pow_succ', Nat.mod_mul]

theorem ofNat_le_digit (f : Mem) (a : Nat) (hi : i < n) :
    UInt8.ofNat (le f a n / 256 ^ i) = f (a + i) := by
  induction n generalizing a i with
  | zero => exact absurd hi (Nat.not_lt_zero i)
  | succ n ih =>
    cases i with
    | zero =>
      have hlt := (f a).toNat_lt
      apply UInt8.toNat_inj.mp
      rw [Nat.pow_zero, Nat.div_one, UInt8.toNat_ofNat', le]
      simp only [Nat.add_zero]
      omega
    | succ i =>
      have hlt := (f a).toNat_lt
      have hdiv : le f a (n + 1) / 256 = le f (a + 1) n := by
        rw [le]
        omega
      rw [Nat.pow_succ', ← Nat.div_div_eq_div_mul, hdiv, ih (a + 1) (Nat.lt_of_succ_lt_succ hi),
        Nat.add_assoc, Nat.add_comm 1]

/-- A span of `n` bytes from `a` on lies in `[lo, hi)`. -/
def SpanIn (lo hi : Nat) (span : Nat × Nat) : Prop :=
  ∀ i < span.2, lo ≤ span.1 + i ∧ span.1 + i < hi

theorem spanIn_iff {lo hi a n : Nat} : SpanIn lo hi (a, n) ↔ n = 0 ∨ lo ≤ a ∧ a + n ≤ hi := by
  unfold SpanIn
  constructor
  · intro h
    rcases Nat.eq_zero_or_pos n with h0 | hpos
    · exact .inl h0
    · have h1 := h 0 hpos
      have h2 := h (n - 1) (by simp only; omega)
      simp only at h1 h2
      exact .inr ⟨by omega, by omega⟩
  · rintro (rfl | h) i hi
    · exact absurd hi (Nat.not_lt_zero i)
    · simp only at hi ⊢
      omega

instance (lo hi : Nat) (span : Nat × Nat) : Decidable (SpanIn lo hi span) :=
  decidable_of_iff _ (spanIn_iff (a := span.1) (n := span.2)).symm

/-- Copy `n` bytes one after the other, the source being read from the memory as it is then. -/
def copyBytes (src : Mem → Nat → UInt8) (addr : Nat → Nat) (off : Nat) : Nat → Mem → Mem
  | 0, m => m
  | n + 1, m =>
    let m := copyBytes src addr off n m
    Function.update m (addr n) (src m (off + n))

def fillBytes (addr : Nat → Nat) (v : UInt8) : Nat → Mem → Mem
  | 0, m => m
  | n + 1, m => Function.update (fillBytes addr v n m) (addr n) v

variable {addr : Nat → Nat} {src : Mem → Nat → UInt8} {off : Nat}

theorem copyBytes_outside (m : Mem) (h : ∀ i < n, addr i ≠ a) :
    copyBytes src addr off n m a = m a := by
  induction n with
  | zero => rfl
  | succ n ih =>
    rw [copyBytes, Function.update_of_ne (h n (by omega)).symm]
    exact ih fun i hi => h i (by omega)

theorem copyBytes_inside (addr : Nat → Nat) {b : Nat → UInt8} (m : Mem)
    (hinj : ∀ i < n, ∀ j < n, addr i = addr j → i = j)
    (hsrc : ∀ m' : Mem, (∀ a, (∀ j < n, addr j ≠ a) → m' a = m a) → ∀ i < n, src m' (off + i) = b i)
    (hi : i < n) : copyBytes src addr off n m (addr i) = b i := by
  induction n with
  | zero => exact absurd hi (Nat.not_lt_zero i)
  | succ n ih =>
    rw [copyBytes]
    rcases Nat.lt_succ_iff_lt_or_eq.mp hi with hlt | rfl
    · rw [Function.update_of_ne]
      · refine ih (fun i hi j hj => hinj i (by omega) j (by omega)) ?_ hlt
        intro m' hm' i hi
        exact hsrc m' (fun a ha => hm' a fun j hj => ha j (by omega)) i (by omega)
      · intro he
        have := hinj i (by omega) n (by omega) he
        omega
    · rw [Function.update_self]
      apply hsrc _ _ i (by omega)
      intro a ha
      exact copyBytes_outside m fun j hj => ha j (by omega)

theorem copyBytes_same {src' : Mem → Nat → UInt8} {off' : Nat} (m : Mem)
    (h : ∀ i < n, ∀ m', src m' (off + i) = src' m' (off' + i)) :
    copyBytes src addr off n m = copyBytes src' addr off' n m := by
  induction n with
  | zero => rfl
  | succ n ih =>
    rw [copyBytes, copyBytes, ih fun i hi => h i (by omega)]
    simp only [h n (Nat.lt_succ_self n)]

theorem fillBytes_outside (m : Mem) (h : ∀ i < n, addr i ≠ a) : fillBytes addr v n m a = m a := by
  induction n with
  | zero => rfl
  | succ n ih =>
    rw [fillBytes, Function.update_of_ne (h n (by omega)).symm]
    exact ih fun i hi => h i (by omega)

theorem fillBytes_inside (addr : Nat → Nat) (m : Mem) (hi : i < n) :
    fillBytes addr v n m (addr i) = v := by
  induction n with
  | zero => exact absurd hi (Nat.not_lt_zero i)
  | succ n ih =>
    rw [fillBytes, Function.update_apply]
    split_ifs with he
    · rfl
    · exact ih (by rcases Nat.lt_succ_iff_lt_or_eq.mp hi with h | rfl; exacts [h, absurd rfl he])

section Stores
variable [DecidableEq α] {b : α → β} {l l' : List (α × β)}

/-- Stores one after the other. -/
def storeAll (b : α → β) (l : List (α × β)) : α → β :=
  l.foldl (fun b w => Function.update b w.1 w.2) b

theorem storeAll_append : storeAll b (l ++ l') = storeAll (storeAll b l) l' := List.foldl_append

theorem storeAll_outside (h : i ∉ l.map Prod.fst) : storeAll b l i = b i := by
  induction l generalizing b with
  | nil => rfl
  | cons w l ih =>
    obtain ⟨hw, hl⟩ := not_or.mp (mt List.mem_cons.mpr h)
    exact (ih hl).trans (Function.update_of_ne hw _ _)

theorem storeAll_eq_self_iff (h : (l.map Prod.fst).Nodup) :
    storeAll b l = b ↔ ∀ w ∈ l, b w.1 = w.2 := by
  induction l generalizing b with
  | nil => exact iff_of_true rfl fun _ hw => (nomatch hw)
  | cons w l ih =>
    obtain ⟨hw, hl⟩ := List.nodup_cons.mp h
    rw [List.forall_mem_cons]
    constructor
    · intro heq
      have hfirst : b w.1 = w.2 := by
        have hout : storeAll (Function.update b w.1 w.2) l w.1 = w.2 := by
          rw [storeAll_outside hw, Function.update_self]
        rw [← hout]
        exact (congrFun heq w.1).symm
      have hsame : Function.update b w.1 w.2 = b := by
        rw [← hfirst, Function.update_eq_self]
      refine ⟨hfirst, (ih hl).mp ?_⟩
      rw [storeAll, List.foldl_cons, hsame] at heq
      exact heq
    · rintro ⟨hfirst, hrest⟩
      have hsame : Function.update b w.1 w.2 = b := by
        rw [← hfirst, Function.update_eq_self]
      rw [storeAll, List.foldl_cons, hsame]
      exact (ih hl).mpr hrest

end Stores

end Lib
