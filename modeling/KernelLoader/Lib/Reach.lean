namespace Lib
set_option autoImplicit true
set_option relaxedAutoImplicit false

/-- The states reached by the runs of a labelled system all of whose steps meet a side condition. -/
inductive Reach (init : σ → Prop) (step : σ → α → σ → Prop) (ok : σ → α → Prop) : σ → Prop
  | start : init s → Reach init step ok s
  | next : Reach init step ok s → ok s a → step s a t → Reach init step ok t

/-- What holds initially and is kept by every admitted step holds in every state reached. -/
theorem Reach.invariant {init : σ → Prop} {step : σ → α → σ → Prop} {ok : σ → α → Prop}
    {I : σ → Prop} (hr : Reach init step ok s) (h0 : ∀ s, init s → I s)
    (hs : ∀ s a t, I s → ok s a → step s a t → I t) : I s := by
  induction hr with
  | start hi => exact h0 _ hi
  | next _ hok hst ih => exact hs _ _ _ ih hok hst

theorem Reach.weaken {init : σ → Prop} {step : σ → α → σ → Prop} {ok ok' : σ → α → Prop}
    (hr : Reach init step ok s) (h : ∀ s a, ok s a → ok' s a) : Reach init step ok' s := by
  induction hr with
  | start hi => exact .start hi
  | next _ hok hst ih => exact .next ih (h _ _ hok) hst

/-- A run of the given actions, if each of them is possible. -/
def runAll (step : σ → α → Option σ) : σ → List α → Option σ
  | s, [] => some s
  | s, a :: as => (step s a).bind (runAll step · as)

theorem runAll_invariant {step : σ → α → Option σ} {I : σ → Prop} {as : List α}
    (hstep : ∀ s a t, I s → step s a = some t → I t) (hs : I s)
    (h : runAll step s as = some t) : I t := by
  induction as generalizing s with
  | nil => exact Option.some.inj h ▸ hs
  | cons a as ih =>
    obtain ⟨s', hst, hrest⟩ := Option.bind_eq_some_iff.mp h
    exact ih (hstep s a s' hs hst) hrest

end Lib
