import KernelLoader.Lib.Mask
import Mathlib.Logic.Function.Basic

namespace KernelLoader.Kernel
open Lib
set_option autoImplicit true
set_option relaxedAutoImplicit false

/-- The variables of `intc.c` and the two registers of the interrupt controller. A one written to
`INTC_MASK` toggles the bit, and one written to `INTC_STAT` clears it. -/
structure Intc (H : Type) where
  savedIntcMask : BitVec 64
  intcMask : BitVec 64
  intcStat : BitVec 64
  intcHandler : Nat → Option H

variable {H : Type}

def Intc.writeMask (v : BitVec 64) (s : Intc H) : Intc H := { s with intcMask := s.intcMask ^^^ v }

def Intc.writeStat (v : BitVec 64) (s : Intc H) : Intc H :=
  { s with intcStat := s.intcStat &&& ~~~v }

/-- `INTC_TIMER1 + 1` -/
def intcNumberOfHandlers : Nat := 11

def intcEnableIrq (irqNr : Nat) (s : Intc H) : Intc H :=
  if s.savedIntcMask &&& bit64 irqNr = 0 then
    let s := { s with savedIntcMask := s.savedIntcMask ||| bit64 irqNr }
    s.writeMask (s.intcMask ||| bit64 irqNr)
  else s

def intcDisableIrq (irqNr : Nat) (s : Intc H) : Intc H :=
  if s.savedIntcMask &&& bit64 irqNr = 0 then s
  else
    let s := { s with savedIntcMask := s.savedIntcMask &&& ~~~bit64 irqNr }
    s.writeMask (s.intcMask ||| bit64 irqNr)

/-- A round of the loop of `intc_interrupt`, which logs the interrupts that are acknowledged with
the handler that is run then, if one is registered. -/
def intcRound (mask : BitVec 64) (r : Intc H × List (Nat × Option H)) (i : Nat) :
    Intc H × List (Nat × Option H) :=
  if mask &&& r.1.savedIntcMask &&& bit64 i = 0 then r
  else (r.1.writeStat (bit64 i), r.2 ++ [(i, r.1.intcHandler i)])

def intcInterrupt (s : Intc H) : Intc H × List (Nat × Option H) :=
  (List.range intcNumberOfHandlers).foldl (intcRound s.intcMask) (s, [])

def intcInitModule (s : Intc H) : Intc H :=
  let s := { s with savedIntcMask := 0 }
  let s := s.writeMask s.intcMask
  let s := s.writeStat s.intcStat
  { s with intcHandler := fun _ => none }

def intcRegisterHandler (nr : Fin intcNumberOfHandlers) (handler : Option H) (s : Intc H) :
    Intc H :=
  { s with intcHandler := Function.update s.intcHandler nr handler }

namespace Intc

inductive Call (H : Type)
  | enable (nr : Fin 15)
  | disable (nr : Fin 15)
  | register (nr : Fin intcNumberOfHandlers) (handler : Option H)

def step (s : Intc H) : Call H → Intc H
  | .enable nr => intcEnableIrq nr s
  | .disable nr => intcDisableIrq nr s
  | .register nr handler => intcRegisterHandler nr handler s

def run (s : Intc H) (calls : List (Call H)) : Intc H := calls.foldl step (intcInitModule s)

/-- The mask of the controller is the saved one, and an interrupt serves what is enabled and
pending. -/
structure Right (s : Intc H) (pending : BitVec 64) : Prop where
  mirrored : s.intcMask = s.savedIntcMask
  served : (intcInterrupt { s with intcStat := pending }).2 =
    ((List.range 15).filter fun i => s.savedIntcMask.getLsbD i && pending.getLsbD i).map
      fun i => (i, s.intcHandler i)

/-- What calls ask for: the interrupts that are enabled, the one that was switched last, and
whether none was enabled when its last series of switches began. -/
structure Switches where
  on : Nat → Bool
  last : Option Nat
  fresh : Bool

namespace Switches

def start : Switches := ⟨fun _ => false, none, true⟩

def switch (n : Nat) (t : Switches) : Switches where
  on := Function.update t.on n (!t.on n)
  last := some n
  fresh := if t.last = some n then t.fresh else (List.range 15).all fun m => !t.on m

theorem on_switch (t : Switches) (m n : Nat) :
    (t.switch n).on m = if m = n then !t.on n else t.on m :=
  Function.update_apply t.on n _ m

def step (t : Switches) : Call H → Switches
  | .enable nr => if t.on nr then t else t.switch nr
  | .disable nr => if t.on nr then t.switch nr else t
  | .register _ _ => t

def after (calls : List (Call H)) : Switches := calls.foldl step start

end Switches

/-- The registers and the calls. -/
structure Follows (s : Intc H) (t : Switches) : Prop where
  saved : ∀ m, s.savedIntcMask.getLsbD m = t.on m
  small : ∀ m, t.on m = true → m < 15
  single : ∀ m, t.last ≠ some m → s.intcMask.getLsbD m = false
  fresh : t.fresh = true → ∀ m, s.intcMask.getLsbD m = t.on m
  stale : t.fresh = false → ∃ m, s.intcMask.getLsbD m ≠ t.on m

variable {s s' : Intc H} {t : Switches} {calls : List (Call H)}

theorem follows_init (s : Intc H) : (intcInitModule s).Follows .start := by
  have hmask (m : Nat) : (intcInitModule s).intcMask.getLsbD m = false := by
    simp [intcInitModule, writeMask, writeStat]
  constructor
  · intro m
    exact BitVec.getLsbD_zero
  · intro m h
    cases h
  · intro m _
    exact hmask m
  · intro _ m
    exact hmask m
  · intro h
    cases h

theorem Follows.all_off_iff (h : s.Follows t) :
    ((List.range 15).all fun m => !t.on m) = true ↔ ∀ m, t.on m = false := by
  rw [List.all_eq_true]
  constructor
  · intro hall m
    cases hm : t.on m with
    | false => rfl
    | true =>
      have hoff := hall m (List.mem_range.mpr (h.small m hm))
      rw [hm] at hoff
      cases hoff
  · intro hall m _
    rw [hall m]
    rfl

theorem Follows.switch_again (h : s.Follows t) (hlast : t.last = some n)
    (hone : s'.intcMask.getLsbD n = !s.intcMask.getLsbD n)
    (hother : ∀ m, m ≠ n → s'.intcMask.getLsbD m = false) (m : Nat) :
    s'.intcMask.getLsbD m = (t.switch n).on m ↔ s.intcMask.getLsbD m = t.on m := by
  by_cases hm : m = n
  · subst hm
    rw [hone, t.on_switch, if_pos rfl, Bool.not_inj_iff]
  · have hzero : s.intcMask.getLsbD m = false := by
      apply h.single
      rw [hlast]
      intro he
      exact hm (Option.some.inj he).symm
    rw [hother m hm, t.on_switch, if_neg hm, hzero]

/-- A switch of another interrupt leaves its bit as the only one, whatever else is enabled. -/
theorem Follows.switch_other (h : s.Follows t) (hlast : t.last ≠ some n)
    (hone : s'.intcMask.getLsbD n = !s.intcMask.getLsbD n)
    (hother : ∀ m, m ≠ n → s'.intcMask.getLsbD m = false) (m : Nat) :
    s'.intcMask.getLsbD m = (t.switch n).on m ↔ t.on m = false := by
  by_cases hm : m = n
  · subst hm
    rw [hone, h.single m hlast, t.on_switch, if_pos rfl, Bool.not_inj_iff]
    exact eq_comm
  · rw [hother m hm, t.on_switch, if_neg hm]
    exact eq_comm

theorem Follows.switch (h : s.Follows t) {n : Nat} (hn : n < 15)
    (hsaved : ∀ m, s'.savedIntcMask.getLsbD m = (t.switch n).on m)
    (hmask : s'.intcMask = s.intcMask ^^^ (s.intcMask ||| bit64 n)) :
    s'.Follows (t.switch n) := by
  have hbit (m : Nat) : s'.intcMask.getLsbD m = if m = n then !s.intcMask.getLsbD m else false := by
    rw [hmask]
    exact getLsbD_xor_or_bit64 (Nat.lt_trans hn (by decide)) m
  have hone : s'.intcMask.getLsbD n = !s.intcMask.getLsbD n := (hbit n).trans (if_pos rfl)
  have hother (m : Nat) (hm : m ≠ n) : s'.intcMask.getLsbD m = false := (hbit m).trans (if_neg hm)
  have hfresh : (t.switch n).fresh = true ↔ ∀ m, s'.intcMask.getLsbD m = (t.switch n).on m := by
    by_cases hlast : t.last = some n
    · have hagain := h.switch_again hlast hone hother
      have hsame : (t.switch n).fresh = t.fresh := if_pos hlast
      rw [hsame, forall_congr' hagain]
      cases hf : t.fresh with
      | true => exact iff_of_true rfl (h.fresh hf)
      | false =>
        obtain ⟨m, hm⟩ := h.stale hf
        exact iff_of_false Bool.false_ne_true fun hall => hm (hall m)
    · have hnew : (t.switch n).fresh = (List.range 15).all fun m => !t.on m := if_neg hlast
      rw [hnew, h.all_off_iff]
      exact forall_congr' fun m => (h.switch_other hlast hone hother m).symm
  constructor
  · exact hsaved
  · intro m hm
    by_cases he : m = n
    · exact he ▸ hn
    · rw [t.on_switch, if_neg he] at hm
      exact h.small m hm
  · intro m hm
    apply hother
    intro he
    exact hm (congrArg some he.symm)
  · exact hfresh.mp
  · intro hf
    apply Classical.not_forall.mp
    intro hall
    rw [hfresh.mpr hall] at hf
    cases hf

theorem Follows.step (h : s.Follows t) (call : Call H) : (s.step call).Follows (t.step call) := by
  cases call with
  | enable nr =>
    have hnr : nr.val < 31 := Nat.lt_trans nr.isLt (by decide)
    show (intcEnableIrq nr s).Follows (if t.on nr then t else t.switch nr)
    rw [intcEnableIrq, ← h.saved]
    by_cases hoff : s.savedIntcMask &&& bit64 nr = 0
    · have hbit := (and_bit64_eq_zero hnr).mp hoff
      rw [if_pos hoff, hbit]
      apply h.switch nr.isLt _ rfl
      intro m
      rw [t.on_switch, ← h.saved nr, hbit, ← h.saved]
      exact getLsbD_or_bit64 hnr m
    · have hbit := getLsbD_of_and_bit64_ne_zero hnr hoff
      rw [if_neg hoff, hbit]
      exact h
  | disable nr =>
    have hnr : nr.val < 31 := Nat.lt_trans nr.isLt (by decide)
    show (intcDisableIrq nr s).Follows (if t.on nr then t.switch nr else t)
    rw [intcDisableIrq, ← h.saved]
    by_cases hoff : s.savedIntcMask &&& bit64 nr = 0
    · have hbit := (and_bit64_eq_zero hnr).mp hoff
      rw [if_pos hoff, hbit]
      exact h
    · have hbit := getLsbD_of_and_bit64_ne_zero hnr hoff
      rw [if_neg hoff, hbit]
      apply h.switch nr.isLt _ rfl
      intro m
      rw [t.on_switch, ← h.saved nr, hbit, ← h.saved]
      exact getLsbD_and_not_bit64 hnr m
  | register nr handler => exact ⟨h.saved, h.small, h.single, h.fresh, h.stale⟩

theorem follows_run (s : Intc H) (calls : List (Call H)) :
    (s.run calls).Follows (.after calls) := by
  have hrun (s : Intc H) (t : Switches) (h : s.Follows t) :
      (calls.foldl Intc.step s).Follows (calls.foldl Switches.step t) := by
    induction calls generalizing s t with
    | nil => exact h
    | cons call calls ih => exact ih _ _ (h.step call)
  exact hrun _ _ (follows_init s)

theorem Follows.mirrored_iff (h : s.Follows t) :
    s.intcMask = s.savedIntcMask ↔ t.fresh = true := by
  constructor
  · intro he
    cases hf : t.fresh with
    | true => rfl
    | false =>
      obtain ⟨m, hm⟩ := h.stale hf
      rw [he] at hm
      exact absurd (h.saved m) hm
  · intro hf
    apply BitVec.eq_of_getLsbD_eq
    intro m _
    rw [h.fresh hf, h.saved]

theorem foldl_intcRound (mask : BitVec 64) (l : List Nat) (hl : ∀ i ∈ l, i < 31) (s : Intc H)
    (log : List (Nat × Option H)) :
    (l.foldl (intcRound mask) (s, log)).2 =
      log ++ (l.filter fun i => (mask &&& s.savedIntcMask).getLsbD i).map
        fun i => (i, s.intcHandler i) := by
  induction l generalizing s log with
  | nil => exact (List.append_nil log).symm
  | cons i l ih =>
    have hi := hl i List.mem_cons_self
    have hrest := fun j hj => hl j (List.mem_cons_of_mem i hj)
    rw [List.foldl_cons, intcRound]
    by_cases hoff : mask &&& s.savedIntcMask &&& bit64 i = 0
    · rw [if_pos hoff, ih hrest, List.filter_cons_of_neg]
      rw [(and_bit64_eq_zero hi).mp hoff]
      exact Bool.false_ne_true
    · have hbit := getLsbD_of_and_bit64_ne_zero hi hoff
      rw [if_neg hoff, ih hrest, List.filter_cons_of_pos hbit, List.map_cons, List.append_assoc]
      rfl

theorem intcInterrupt_served (s : Intc H) :
    (intcInterrupt s).2 =
      ((List.range 11).filter fun i => (s.intcMask &&& s.savedIntcMask).getLsbD i).map
        fun i => (i, s.intcHandler i) := by
  rw [intcInterrupt, foldl_intcRound]
  · rfl
  · intro i hi
    exact Nat.lt_trans (List.mem_range.mp hi) (by decide)

/-- The loop ends before the last interrupts. -/
theorem range_filter_eq_iff {p q : Nat → Bool} (hp : ∀ i, p i = true → i < 15) :
    (List.range 11).filter p = ((List.range 15).filter fun i => p i && q i) ↔
      ∀ i, p i = true → (i < 11 ↔ q i = true) := by
  constructor
  · intro h i hi
    have hiff : i ∈ (List.range 11).filter p ↔ i ∈ (List.range 15).filter fun i => p i && q i := by
      rw [h]
    simpa [hi, hp i hi] using hiff
  · intro h
    have hrange : List.range 15 = List.range 11 ++ (List.range 4).map (11 + ·) := rfl
    have hrest : ((List.range 4).map (11 + ·)).filter (fun i => p i && q i) = [] := by
      rw [List.filter_eq_nil_iff]
      intro i hi hpq
      obtain ⟨j, -, rfl⟩ := List.mem_map.mp hi
      obtain ⟨hpi, hqi⟩ := Bool.and_eq_true_iff.mp hpq
      exact absurd ((h _ hpi).mpr hqi) (Nat.not_lt.mpr (Nat.le_add_right 11 j))
    rw [hrange, List.filter_append, hrest, List.append_nil]
    apply List.filter_congr
    intro i hi
    cases hpi : p i with
    | false => rfl
    | true => exact ((h i hpi).mp (List.mem_range.mp hi)).symm

/-- Exactly then the mask is right after the calls and what is served by an interrupt, too. -/
theorem intc_right_iff (s : Intc H) (calls : List (Call H)) (pending : BitVec 64) :
    (s.run calls).Right pending ↔ (Switches.after calls).fresh = true ∧
      ∀ n, (Switches.after calls).on n = true → (n < 11 ↔ pending.getLsbD n = true) := by
  have h := follows_run s calls
  generalize s.run calls = s at h
  generalize Switches.after calls = t at h
  have hserved (he : s.intcMask = s.savedIntcMask) :
      (intcInterrupt { s with intcStat := pending }).2 =
          ((List.range 15).filter fun i => s.savedIntcMask.getLsbD i && pending.getLsbD i).map
            (fun i => (i, s.intcHandler i)) ↔
        ∀ n, t.on n = true → (n < 11 ↔ pending.getLsbD n = true) := by
    have hinj : Function.Injective fun i => (i, s.intcHandler i) := by
      intro i j hij
      exact congrArg Prod.fst hij
    rw [intcInterrupt_served, (List.map_injective_iff.mpr hinj).eq_iff]
    simp only [he, BitVec.and_self, h.saved]
    exact range_filter_eq_iff h.small
  constructor
  · intro hright
    exact ⟨h.mirrored_iff.mp hright.mirrored, (hserved hright.mirrored).mp hright.served⟩
  · intro ⟨hfresh, hpending⟩
    have he := h.mirrored_iff.mpr hfresh
    exact ⟨he, (hserved he).mpr hpending⟩

/-- The second interrupt that is enabled switches the first off, and an interrupt of the timer is
served that is not pending. -/
theorem intc_enable_twice :
    let s : Intc Unit := ⟨0, 0, 0, fun _ => none⟩
    ¬ (s.run [.enable 0, .enable 1]).Right 0 ∧ ¬ (s.run [.enable 9]).Right 0 := by
  constructor
  · intro h
    exact absurd h.mirrored (by decide)
  · intro h
    exact absurd h.served (by decide)

end Intc

end KernelLoader.Kernel
