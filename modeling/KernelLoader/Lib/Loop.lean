import Mathlib.Data.List.Basic
import Mathlib.Tactic.SplitIfs

namespace Lib
set_option autoImplicit true
set_option relaxedAutoImplicit false

/-- Do `body` for each element until it fails. The state is kept in either case. -/
def forEach (body : α → σ → Option ε × σ) : List α → σ → Option ε × σ
  | [], s => (none, s)
  | a :: as, s =>
    match body a s with
    | (none, s) => forEach body as s
    | (some e, s) => (some e, s)

/-- A counting loop whose bound is evaluated again before every round. -/
def forUpTo (bound : σ → Nat) (body : Nat → σ → Option ε × σ) : Nat → Nat → σ → Option ε × σ
  | 0, _, s => (none, s)
  | fuel + 1, i, s =>
    if i < bound s then
      match body i s with
      | (none, s) => forUpTo bound body fuel (i + 1) s
      | (some e, s) => (some e, s)
    else (none, s)

variable {bound : σ → Nat} {body : Nat → σ → Option ε × σ}

theorem forUpTo_eq_forEach {fuel : Nat} (hb : ∀ s, bound s = n) (hf : n ≤ fuel + i) (s : σ) :
    forUpTo bound body fuel i s = forEach body (List.range' i (n - i)) s := by
  induction fuel generalizing i s with
  | zero =>
    rw [show n - i = 0 by omega]
    rfl
  | succ fuel ih =>
    rw [forUpTo, hb]
    split_ifs with hi
    · rw [show n - i = n - (i + 1) + 1 by omega, List.range'_succ, forEach]
      split
      · rw [ih (by omega)]
      · rfl
    · rw [show n - i = 0 by omega]
      rfl

/-- The rule for a loop whose rounds do not fail and keep an invariant that fixes the bound. -/
theorem forUpTo_invariant (bound : σ → Nat) (body : Nat → σ → Option ε × σ) (fuel : Nat)
    {I : Nat → σ → Prop} (hb : ∀ i s, I i s → bound s = n)
    (hs : ∀ i s, i < n → I i s → ∃ s', body i s = (none, s') ∧ I (i + 1) s')
    (hf : n ≤ fuel + i) (hi : i ≤ n) (h : I i s) :
    ∃ s', forUpTo bound body fuel i s = (none, s') ∧ I n s' := by
  induction fuel generalizing i s with
  | zero =>
    obtain rfl : i = n := by omega
    exact ⟨s, rfl, h⟩
  | succ fuel ih =>
    rw [forUpTo, hb i s h]
    split_ifs with hlt
    · obtain ⟨s', he, h'⟩ := hs i s hlt h
      rw [he]
      exact ih (by omega) (by omega) h'
    · obtain rfl : i = n := by omega
      exact ⟨s, rfl, h⟩

theorem forEach_none {each : α → σ → Option ε × σ} {as : List α}
    (h : ∀ a ∈ as, ∀ s, (each a s).1 = none) (s : σ) : (forEach each as s).1 = none := by
  induction as generalizing s with
  | nil => rfl
  | cons a as ih =>
    rw [forEach, show each a s = (none, (each a s).2) from Prod.ext (h a List.mem_cons_self s) rfl]
    exact ih (fun b hb => h b (List.mem_cons_of_mem a hb)) _

theorem forEach_keeps {each : α → σ → Option ε × σ} {P : σ → Prop}
    (h : ∀ a s, P s → P (each a s).2) (as : List α) (hs : P s) : P (forEach each as s).2 := by
  induction as generalizing s with
  | nil => exact hs
  | cons a as ih =>
    have hnext := h a s hs
    rw [forEach]
    cases hr : each a s with
    | mk r s' =>
      rw [hr] at hnext
      cases r with
      | none => exact ih hnext
      | some e => exact hnext

/-- Two loops whose rounds decide alike and keep a relation between the two states. -/
theorem forEach_related {R : σ → τ → Prop} {each : α → σ → Option ε × σ}
    {each' : α → τ → Option ε × τ} {as : List α}
    (h : ∀ a ∈ as, ∀ s t, R s t → (each a s).1 = (each' a t).1 ∧ R (each a s).2 (each' a t).2)
    {t : τ} (hR : R s t) : (forEach each as s).1 = (forEach each' as t).1 ∧
      R (forEach each as s).2 (forEach each' as t).2 := by
  induction as generalizing s t with
  | nil => exact ⟨rfl, hR⟩
  | cons a as ih =>
    obtain ⟨he, hnext⟩ := h a List.mem_cons_self s t hR
    rw [forEach, forEach]
    cases hs : each a s with
    | mk r s' =>
      cases ht : each' a t with
      | mk r' t' =>
        rw [hs, ht] at he hnext
        cases he
        cases r with
        | none => exact ih (fun b hb => h b (List.mem_cons_of_mem a hb)) hnext
        | some e => exact ⟨rfl, hnext⟩

/-- The elements a loop gets to: those up to the first that fails. -/
def upToFirst (err : α → Option ε) : List α → List α
  | [] => []
  | a :: as => if err a = none then a :: upToFirst err as else [a]

section Uniform
variable {each : α → σ → Option ε × σ} {err : α → Option ε}

theorem forEach_uniform (err : α → Option ε) (upd : α → σ → σ) {I : σ → Prop}
    (h : ∀ a s, I s → each a s = (err a, upd a s))
    (hI : ∀ a s, I s → I (upd a s)) (as : List α) (hs : I s) :
    forEach each as s =
      (as.findSome? err, (upToFirst err as).foldl (fun s a => upd a s) s) := by
  induction as generalizing s with
  | nil => rfl
  | cons a as ih =>
    rw [forEach, h a s hs, upToFirst, List.findSome?_cons]
    cases he : err a with
    | none =>
      simp only [if_true, List.foldl_cons]
      exact ih (hI a s hs)
    | some e => rfl

theorem forEach_congr {each' : α → σ → Option ε × σ} {as : List α}
    (he : ∀ a s, (each a s).1 = err a) (h : ∀ a ∈ upToFirst err as, ∀ s, each' a s = each a s)
    (s : σ) : forEach each' as s = forEach each as s := by
  induction as generalizing s with
  | nil => rfl
  | cons a as ih =>
    rw [upToFirst] at h
    have hhead : each' a s = each a s := by
      apply h
      split_ifs <;> exact List.mem_cons_self
    rw [forEach, forEach, hhead]
    cases ha : each a s with
    | mk r s' =>
      have hr : r = err a := by rw [← he a s, ha]
      cases r with
      | some e => rfl
      | none =>
        rw [if_pos hr.symm] at h
        exact ih (fun b hb => h b (List.mem_cons_of_mem a hb)) s'

theorem mem_of_mem_upToFirst {as : List α} (h : a ∈ upToFirst err as) : a ∈ as := by
  induction as with
  | nil => exact h
  | cons b as ih =>
    rw [upToFirst] at h
    split_ifs at h
    · rcases List.mem_cons.mp h with rfl | h
      · exact List.mem_cons_self
      · exact List.mem_cons_of_mem b (ih h)
    · exact List.mem_singleton.mp h ▸ List.mem_cons_self

theorem upToFirst_eq_self {as : List α} (h : ∀ a ∈ as, err a = none) : upToFirst err as = as := by
  induction as with
  | nil => rfl
  | cons a as ih =>
    rw [upToFirst, if_pos (h a List.mem_cons_self), ih fun b hb => h b (List.mem_cons_of_mem a hb)]

theorem foldl_log {upd : α → σ → σ} (log : σ → List β) (add : α → List β)
    (h : ∀ a s, log (upd a s) = log s ++ add a) (as : List α) (s : σ) :
    log (as.foldl (fun s a => upd a s) s) = log s ++ as.flatMap add := by
  induction as generalizing s with
  | nil => exact (List.append_nil _).symm
  | cons a as ih => rw [List.foldl_cons, ih, h, List.flatMap_cons, List.append_assoc]

/-- If a round that does not meet a condition breaks an invariant for good, the invariant holds at
the end if all rounds meet it. -/
theorem foldl_invariant_iff {upd : α → σ → σ} {I B : σ → Prop} {cond : α → Prop}
    (hgood : ∀ a s, I s → cond a → I (upd a s)) (hbad : ∀ a s, I s → ¬ cond a → B (upd a s))
    (hkeep : ∀ a s, B s → B (upd a s)) (hexcl : ∀ s, B s → ¬ I s) (as : List α) (hs : I s) :
    I (as.foldl (fun s a => upd a s) s) ↔ ∀ a ∈ as, cond a := by
  have hbroken (as : List α) {s : σ} (hB : B s) : B (as.foldl (fun s a => upd a s) s) := by
    induction as generalizing s with
    | nil => exact hB
    | cons a as ih => exact ih (hkeep a s hB)
  induction as generalizing s with
  | nil => exact iff_of_true hs fun _ ha => (nomatch ha)
  | cons a as ih =>
    rw [List.foldl_cons, List.forall_mem_cons]
    by_cases ha : cond a
    · exact (ih (hgood a s hs ha)).trans (and_iff_right ha).symm
    · exact iff_of_false (hexcl _ (hbroken as (hbad a s hs ha))) fun h => ha h.1

end Uniform

theorem mem_upToFirst_range' {err : Nat → Option ε} {i j n : Nat} :
    j ∈ upToFirst err (List.range' i n) ↔
      i ≤ j ∧ j < i + n ∧ ∀ k, i ≤ k → k < j → err k = none := by
  induction n generalizing i with
  | zero =>
    simp only [List.range'_zero, upToFirst, List.not_mem_nil, false_iff]
    omega
  | succ n ih =>
    rw [List.range'_succ, upToFirst]
    split_ifs with he
    · rw [List.mem_cons, ih]
      constructor
      · rintro (rfl | ⟨h1, h2, h3⟩)
        · exact ⟨Nat.le_refl _, by omega, fun k hk hk' => by omega⟩
        · refine ⟨by omega, by omega, fun k hk hk' => ?_⟩
          rcases Nat.eq_or_lt_of_le hk with rfl | hlt
          · exact he
          · exact h3 k hlt hk'
      · rintro ⟨h1, h2, h3⟩
        rcases Nat.eq_or_lt_of_le h1 with rfl | hlt
        · exact .inl rfl
        · exact .inr ⟨hlt, by omega, fun k hk hk' => h3 k (by omega) hk'⟩
    · rw [List.mem_singleton]
      constructor
      · rintro rfl
        exact ⟨Nat.le_refl _, by omega, fun k hk hk' => by omega⟩
      · rintro ⟨h1, h2, h3⟩
        rcases Nat.eq_or_lt_of_le h1 with h | hlt
        · exact h.symm
        · exact absurd (h3 i (Nat.le_refl _) hlt) he

theorem findSome?_range' {err : Nat → Option ε} {i n : Nat} {e : ε} :
    (List.range' i n).findSome? err = some e ↔
      ∃ j, i ≤ j ∧ j < i + n ∧ err j = some e ∧ ∀ k, i ≤ k → k < j → err k = none := by
  induction n generalizing i with
  | zero =>
    simp only [List.range'_zero, List.findSome?_nil, reduceCtorEq, false_iff]
    rintro ⟨j, h1, h2, -⟩
    omega
  | succ n ih =>
    rw [List.range'_succ, List.findSome?_cons]
    cases he : err i with
    | some e' =>
      constructor
      · intro h
        exact ⟨i, Nat.le_refl i, by omega, he.trans h, fun k hk hk' => by omega⟩
      · rintro ⟨j, h1, h2, h3, h4⟩
        rcases Nat.eq_or_lt_of_le h1 with rfl | hlt
        · exact he.symm.trans h3
        · rw [h4 i (Nat.le_refl i) hlt] at he
          cases he
    | none =>
      simp only
      rw [ih]
      constructor
      · rintro ⟨j, h1, h2, h3, h4⟩
        refine ⟨j, by omega, by omega, h3, fun k hk hk' => ?_⟩
        rcases Nat.eq_or_lt_of_le hk with rfl | hlt
        · exact he
        · exact h4 k hlt hk'
      · rintro ⟨j, h1, h2, h3, h4⟩
        rcases Nat.eq_or_lt_of_le h1 with rfl | hlt
        · rw [he] at h3
          cases h3
        · exact ⟨j, hlt, by omega, h3, fun k hk hk' => h4 k (by omega) hk'⟩

section Linked
variable {next : α → Option α} {test : α → Bool} {fuel : Nat}

/-- The pointer after `while ((p = p->next));`, if the loop ends. -/
def skipLinked (next : α → Option α) : Nat → α → Option (Option α)
  | 0, _ => none
  | fuel + 1, p =>
    match next p with
    | none => some none
    | some p' => skipLinked next fuel p'

theorem skipLinked_null (p : α) (h : skipLinked next fuel p = some q) : q = none := by
  induction fuel generalizing p with
  | zero => cases h
  | succ fuel ih =>
    rw [skipLinked] at h
    split at h
    · cases h
      rfl
    · exact ih _ h

/-- The first element of a linked list that passes a test, if the search ends. -/
def findLinked (next : α → Option α) (test : α → Bool) : Nat → Option α → Option (Option α)
  | _, none => some none
  | 0, some _ => none
  | fuel + 1, some p => if test p then some (some p) else findLinked next test fuel (next p)

theorem findLinked_single (hnext : ∀ p, next p = none) (o : Option α) :
    findLinked next test (fuel + 1) o = some (o.filter test) := by
  cases o with
  | none => rfl
  | some p =>
    rw [findLinked, Option.filter_some]
    split_ifs with hp
    · rfl
    · rw [hnext, findLinked]

end Linked

end Lib
