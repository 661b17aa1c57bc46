namespace Lib
set_option autoImplicit true
set_option relaxedAutoImplicit false

/-- What a run of a machine logs, and the state it ends in. -/
def runLog (step : σ → α → List ε × σ) : σ → List α → List ε × σ
  | s, [] => ([], s)
  | s, a :: as => ((step s a).1 ++ (runLog step (step s a).2 as).1, (runLog step (step s a).2 as).2)

theorem mem_runLog_now {step : σ → α → List ε × σ} (h : e ∈ (step s a).1) (as : List α) :
    e ∈ (runLog step s (a :: as)).1 :=
  List.mem_append_left _ h

theorem mem_runLog_later {step : σ → α → List ε × σ} {as : List α}
    (h : e ∈ (runLog step (step s a).2 as).1) : e ∈ (runLog step s (a :: as)).1 :=
  List.mem_append_right _ h

/-- Every action of a run meets a condition in the state it is taken in. -/
def Along (step : σ → α → List ε × σ) (ok : σ → α → Prop) : σ → List α → Prop
  | _, [] => True
  | s, a :: as => ok s a ∧ Along step ok (step s a).2 as

theorem along_iff {step : σ → α → List ε × σ} {I : σ → Prop} {P ok : σ → α → Prop}
    (hiff : ∀ s a, I s → (P s a ↔ ok s a)) (hkeep : ∀ s a, I s → ok s a → I (step s a).2)
    {as : List α} (hs : I s) : Along step P s as ↔ Along step ok s as := by
  induction as generalizing s with
  | nil => exact Iff.rfl
  | cons a as ih =>
    rw [Along, Along, hiff s a hs]
    exact and_congr_right fun hok => ih (hkeep s a hs hok)

/-- If a condition tells, in the states of an invariant, what single steps log, and keeps the
invariant, then it tells what runs log. -/
theorem runLog_iff {step : σ → α → List ε × σ} {I : σ → Prop} {P : ε → Prop} {ok : σ → α → Prop}
    (hlog : ∀ s a, I s → ((∀ e ∈ (step s a).1, P e) ↔ ok s a))
    (hkeep : ∀ s a, I s → ok s a → I (step s a).2) {as : List α} (hs : I s) :
    (∀ e ∈ (runLog step s as).1, P e) ↔ Along step ok s as := by
  induction as generalizing s with
  | nil => simp [runLog, Along]
  | cons a as ih =>
    rw [runLog, Along, List.forall_mem_append, hlog s a hs]
    constructor
    · intro h
      exact ⟨h.1, (ih (hkeep s a hs h.1)).mp h.2⟩
    · intro h
      exact ⟨h.1, (ih (hkeep s a hs h.1)).mpr h.2⟩

theorem Along.of_invariant {step : σ → α → List ε × σ} {I : σ → Prop} {ok : σ → α → Prop}
    {q : α → Prop} (h : ∀ s a, I s → q a → ok s a ∧ I (step s a).2) {as : List α} (hs : I s)
    (has : ∀ a ∈ as, q a) : Along step ok s as := by
  induction as generalizing s with
  | nil => trivial
  | cons a as ih =>
    rw [List.forall_mem_cons] at has
    obtain ⟨hok, hnext⟩ := h s a hs has.1
    exact ⟨hok, ih hnext has.2⟩

section View

variable {step : σ → α → List ε × σ} (get : σ → β) {next : β → α → β}

theorem runLog_view (hget : ∀ s a, get (step s a).2 = next (get s) a) (as : List α) (s : σ) :
    get (runLog step s as).2 = as.foldl next (get s) := by
  induction as generalizing s with
  | nil => rfl
  | cons a as ih => rw [runLog, ih, hget, List.foldl_cons]

theorem runLog_state (as : List α) (s : σ) :
    (runLog step s as).2 = as.foldl (fun s a => (step s a).2) s :=
  runLog_view id (fun _ _ => rfl) as s

/-- If what a step logs depends on a view of the state that can be followed by itself, so does what
a run logs. -/
theorem runLog_iff_view {P : ε → Prop} {ok : β → α → Prop}
    (hget : ∀ s a, get (step s a).2 = next (get s) a)
    (hlog : ∀ s a, (∀ e ∈ (step s a).1, P e) ↔ ok (get s) a) (as : List α) (s : σ) :
    (∀ e ∈ (runLog step s as).1, P e) ↔
      ∀ i (hi : i < as.length), ok ((as.take i).foldl next (get s)) as[i] := by
  induction as generalizing s with
  | nil => simp [runLog]
  | cons a as ih =>
    rw [runLog, List.forall_mem_append, hlog, ih, hget]
    constructor
    · rintro ⟨hfirst, hrest⟩ i hi
      cases i with
      | zero => exact hfirst
      | succ i => exact hrest i (Nat.lt_of_succ_lt_succ hi)
    · intro h
      exact ⟨h 0 (Nat.zero_lt_succ _), fun i hi => h (i + 1) (Nat.succ_lt_succ hi)⟩

end View

section Refinement

/-- A machine that gives one answer to every action. -/
def answers (step : σ → α → β × σ) : σ → List α → List β × σ
  | s, [] => ([], s)
  | s, a :: as =>
    ((step s a).1 :: (answers step (step s a).2 as).1, (answers step (step s a).2 as).2)

/-- The answers a specification allows to a list of actions. -/
inductive Traces (spec : σ → α → β → σ → Prop) : σ → List α → List β → σ → Prop
  | done : Traces spec s [] [] s
  | next {as : List α} {bs : List β} : spec s a b t → Traces spec t as bs u →
      Traces spec s (a :: as) (b :: bs) u

/-- A machine whose single steps are allowed, by way of a relation they keep, refines the
specification. -/
theorem traces_answers {step : σ → α → β × σ} {spec : τ → α → β → τ → Prop} {R : σ → τ → Prop}
    (h : ∀ s t a, R s t → ∃ t', spec t a (step s a).1 t' ∧ R (step s a).2 t')
    {t : τ} (hR : R s t) (as : List α) :
    ∃ t', Traces spec t as (answers step s as).1 t' ∧ R (answers step s as).2 t' := by
  induction as generalizing s t with
  | nil => exact ⟨t, .done, hR⟩
  | cons a as ih =>
    obtain ⟨t₁, hspec, hnext⟩ := h s t a hR
    obtain ⟨t₂, htrace, hlast⟩ := ih hnext
    exact ⟨t₂, .next hspec htrace, hlast⟩

end Refinement

end Lib
