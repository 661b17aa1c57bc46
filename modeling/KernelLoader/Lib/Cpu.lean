import Mathlib.Logic.Function.Basic

namespace Lib
set_option autoImplicit true
set_option relaxedAutoImplicit false

/-- One processor and the contexts it switches between. -/
structure Cpu (γ : Type) where
  contexts : Nat → γ
  current : Nat

namespace Cpu

def running (c : Cpu γ) : γ := c.contexts c.current

/-- The running context goes on. -/
def goOn (x : γ) (c : Cpu γ) : Cpu γ :=
  { c with contexts := Function.update c.contexts c.current x }

def switch (i : Nat) (c : Cpu γ) : Cpu γ := { c with current := i }

/-- The contexts that are not running are at places where they may be interrupted. -/
def Parked (P : γ → Prop) (c : Cpu γ) : Prop := ∀ i ≠ c.current, P (c.contexts i)

variable {c : Cpu γ} {x : γ} {P : γ → Prop}

@[simp] theorem running_goOn (x : γ) (c : Cpu γ) : (c.goOn x).running = x :=
  Function.update_self ..

theorem contexts_goOn_current (x : γ) (c : Cpu γ) : (c.goOn x).contexts c.current = x :=
  Function.update_self ..

theorem contexts_goOn (h : i ≠ c.current) : (c.goOn x).contexts i = c.contexts i :=
  Function.update_of_ne h ..

theorem forall_goOn (h : ∀ i, P (c.contexts i)) (hx : P x) (i : Nat) :
    P ((c.goOn x).contexts i) := by
  by_cases hi : i = c.current
  · rw [hi, contexts_goOn_current]
    exact hx
  · rw [contexts_goOn hi]
    exact h i

theorem Parked.goOn (h : c.Parked P) (x : γ) : (c.goOn x).Parked P := by
  intro i hi
  have hi : i ≠ c.current := hi
  rw [contexts_goOn hi]
  exact h i hi

theorem Parked.switch (h : c.Parked P) (hp : P c.running) (i : Nat) : (c.switch i).Parked P := by
  intro j _
  by_cases hj : j = c.current
  · exact hj ▸ hp
  · exact h j hj

theorem Parked.running_switch (h : c.Parked P) (hp : P c.running) (i : Nat) :
    P (c.switch i).running := by
  by_cases hi : i = c.current
  · exact hi ▸ hp
  · exact h i hi

end Cpu

end Lib
