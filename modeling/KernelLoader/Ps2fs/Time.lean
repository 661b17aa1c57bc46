import Mathlib.Logic.Function.Iterate
import Mathlib.Tactic.IntervalCases
import Mathlib.Tactic.Ring

namespace KernelLoader.Ps2fs
set_option autoImplicit true
set_option relaxedAutoImplicit false

/-- `struct ps2fs_datetime` -/
structure DateTime where
  sec : Nat
  min : Nat
  hour : Nat
  day : Nat
  month : Nat
  year : Nat
  deriving DecidableEq, Repr

/-- The days of a year before a month. -/
def mdays (i : Nat) : Int :=
  [0, 31, 59, 90, 120, 151, 181, 212, 243, 273, 304, 334].getD i 0

/-- The test for a leap year as both functions write it. -/
def isLeap (year : Nat) : Bool := year % 4 == 0 && (year % 100 != 0 || year % 400 == 0)

/-- The loop of `from_ps2time` over the years before; it tests the seconds where the year is
meant. -/
def addYears (i : Nat) (t : Int) : Nat → Int
  | 0 => t
  | n + 1 =>
    let t := t + 365 * 86400
    let t := if i % 4 = 0 ∧ (t.tmod 100 ≠ 0 ∨ t.tmod 400 = 0) then t + 86400 else t
    addYears (i + 1) t n

/-- `from_ps2time` -/
def fromPs2time (dt : DateTime) : Int :=
  let t := addYears 1970 0 (dt.year - 1970)
  let t := t + mdays (dt.month - 1) * 86400
  let t := if dt.month > 2 ∧ isLeap dt.year then t + 86400 else t
  t + (dt.day - 1) * 86400 + dt.hour * 3600 + dt.min * 60 + dt.sec

def yearDays (year : Nat) : Int := if isLeap year then 366 else 365

theorem yearDays_ge (year : Nat) : 365 ≤ yearDays year := by
  rw [yearDays]
  split <;> decide

/-- The loop of `to_ps2time`: the year, and the seconds of that year. -/
def splitYear (year : Nat) (time : Int) : Nat × Int :=
  let days := yearDays (year + 1)
  if time - days * 86400 ≥ 0 then splitYear (year + 1) (time - days * 86400) else (year + 1, time)
termination_by time.toNat
decreasing_by
  have hge := yearDays_ge (year + 1)
  omega

/-- The search for the month: the first month from `i` on that ends later. -/
def monthOf (time : Int) (i : Nat) : Nat → Nat
  | 0 => i
  | n + 1 => if time < mdays i * 86400 then i else monthOf time (i + 1) n

/-- A number stored in a byte. -/
def byte (n : Int) : Nat := (n % 256).toNat

/-- `to_ps2time` -/
def toPs2time (time : Int) : DateTime :=
  let (year, time) := splitYear 1969 time
  let i := monthOf time 1 11
  let time := time - mdays (i - 1) * 86400
  { sec := byte (time.tmod 60)
    min := byte ((time.tmod 3600).tdiv 60)
    hour := byte ((time.tmod 86400).tdiv 3600)
    day := byte (time.tdiv 86400 + 1)
    month := i
    year := year }

/-- The seconds of `n` years from a year on. -/
def span (year : Nat) : Nat → Int
  | 0 => 0
  | n + 1 => yearDays year * 86400 + span (year + 1) n

theorem span_ge (year n : Nat) : n * (365 * 86400) ≤ span year n := by
  induction n generalizing year with
  | zero => exact Int.le_refl _
  | succ n ih =>
    have hyear := yearDays_ge year
    have hrest := ih (year + 1)
    rw [span]
    omega

theorem span_succ (year n : Nat) :
    span year (n + 1) = span year n + yearDays (year + n) * 86400 := by
  induction n generalizing year with
  | zero => rw [span, span, span, Int.add_comm, Nat.add_zero]
  | succ n ih =>
    have hlast : year + 1 + n = year + (n + 1) := by omega
    rw [span, ih, span, Int.add_assoc, hlast]

/-- Until 2100 the test on the seconds, which are whole days, finds the leap years too. -/
theorem addYears_eq (hfrom : 1970 ≤ i) (hto : i + n ≤ 2100) (ht : t % 86400 = 0) (hpos : 0 ≤ t) :
    addYears i t n = t + span i n := by
  induction n generalizing i t with
  | zero => rw [addYears, span, Int.add_zero]
  | succ n ih =>
    have hsecs : (t + 365 * 86400).tmod 400 = 0 := by
      rw [Int.tmod_eq_emod_of_nonneg (by omega)]
      omega
    have hleap : isLeap i = true ↔ i % 4 = 0 := by
      simp [isLeap]
      omega
    simp only [addYears, hsecs, or_true, and_true]
    rw [span, yearDays]
    split
    · next h4 =>
      rw [if_pos (hleap.mpr h4), ih (by omega) (by omega) (by omega) (by omega)]
      omega
    · next h4 =>
      rw [if_neg fun h => h4 (hleap.mp h), ih (by omega) (by omega) (by omega) (by omega)]
      omega

variable {year n k : Nat} {t r : Int}

theorem splitYear_eq (hr : 0 ≤ r) (hlt : r < yearDays (year + 1 + n) * 86400) :
    splitYear year (span (year + 1) n + r) = (year + 1 + n, r) := by
  induction n generalizing year with
  | zero =>
    rw [splitYear, span, Int.zero_add]
    rw [Nat.add_zero] at hlt
    rw [if_neg (by omega), Nat.add_zero]
  | succ n ih =>
    have hrest := span_ge (year + 1 + 1) n
    have hnext : year + 1 + (n + 1) = year + 1 + 1 + n := by omega
    have htime : span (year + 1) (n + 1) + r - yearDays (year + 1) * 86400 =
        span (year + 1 + 1) n + r := by
      rw [span]
      omega
    rw [splitYear, htime, if_pos (by omega), hnext]
    rw [hnext] at hlt
    exact ih hlt

theorem exists_split (t : Int) (ht : 0 ≤ t) (year : Nat) :
    ∃ n r, t = span year n + r ∧ 0 ≤ r ∧ r < yearDays (year + n) * 86400 := by
  by_cases hlt : t < yearDays year * 86400
  · exact ⟨0, t, by rw [span, Int.zero_add], ht, hlt⟩
  · have hge := yearDays_ge year
    obtain ⟨n, r, htime, hr, hbound⟩ :=
      exists_split (t - yearDays year * 86400) (by omega) (year + 1)
    refine ⟨n + 1, r, ?_, hr, ?_⟩
    · rw [span]
      omega
    · rw [Nat.add_comm n, ← Nat.add_assoc]
      exact hbound
termination_by t.toNat

theorem monthOf_spec (r : Int) (i n : Nat) :
    i ≤ monthOf r i n ∧ monthOf r i n ≤ i + n ∧
      (∀ j, i ≤ j → j < monthOf r i n → mdays j * 86400 ≤ r) ∧
      (monthOf r i n < i + n → r < mdays (monthOf r i n) * 86400) := by
  induction n generalizing i with
  | zero =>
    rw [monthOf]
    exact ⟨Nat.le_refl i, Nat.le_refl i, fun j hj hlt => absurd hlt (Nat.not_lt.mpr hj),
      fun hlt => absurd hlt (Nat.lt_irrefl i)⟩
  | succ n ih =>
    rw [monthOf]
    split
    · next hlt =>
      exact ⟨Nat.le_refl i, by omega, fun j hj hlt => absurd hlt (Nat.not_lt.mpr hj), fun _ => hlt⟩
    · next hge =>
      obtain ⟨hfirst, hlast, hbefore, hends⟩ := ih (i + 1)
      refine ⟨by omega, by omega, fun j hj hlt => ?_, fun hlt => hends (by omega)⟩
      by_cases hi : j = i
      · rw [hi]
        exact Int.not_lt.mp hge
      · exact hbefore j (by omega) hlt

/-- The month that is found has begun; only the last one can have 32 days. -/
theorem month_days (hr : 0 ≤ r) (hlt : r < 366 * 86400) :
    mdays (monthOf r 1 11 - 1) * 86400 ≤ r ∧ r < (mdays (monthOf r 1 11 - 1) + 32) * 86400 ∧
      (monthOf r 1 11 > 2 ↔ 59 * 86400 ≤ r) := by
  obtain ⟨hfirst, hlast, hbefore, hends⟩ := monthOf_spec r 1 11
  generalize monthOf r 1 11 = i at *
  have hlength : ∀ i < 12, mdays i ≤ mdays (i - 1) + 31 := by decide
  have hfeb : ∀ i < 3, mdays i ≤ 59 := by decide
  refine ⟨?_, ?_, fun hi => ?_, fun hr => ?_⟩
  · by_cases hi : i = 1
    · subst hi
      exact hr
    · exact hbefore (i - 1) (by omega) (by omega)
  · by_cases hi : i = 12
    · subst hi
      exact hlt
    · have hend := hends (by omega)
      have hlen := hlength i (by omega)
      omega
  · exact hbefore 2 (by decide) hi
  · by_contra hle
    have hend := hends (by omega)
    have hlen := hfeb i (by omega)
    omega

theorem byte_eq {x : Int} (h0 : 0 ≤ x) (h1 : x < 256) : (byte x : Int) = x := by
  rw [byte]
  omega

/-- The leap day that `from_ps2time` adds and `to_ps2time` does not take away. -/
def slip (year : Nat) (r : Int) : Int := if isLeap year ∧ 59 * 86400 ≤ r then 86400 else 0

theorem from_to (hyear : 1970 + n ≤ 2100) (hr : 0 ≤ r) (hlt : r < yearDays (1970 + n) * 86400) :
    fromPs2time (toPs2time (span 1970 n + r)) = span 1970 n + r + slip (1970 + n) r := by
  have hbound : r < 366 * 86400 := by
    rw [yearDays] at hlt
    split at hlt <;> omega
  have hsplit : splitYear 1969 (span 1970 n + r) = (1970 + n, r) := splitYear_eq hr hlt
  obtain ⟨hbegun, hends, hmonth⟩ := month_days hr hbound
  simp only [toPs2time, hsplit, fromPs2time]
  generalize monthOf r 1 11 = i at *
  -- the parts of the day
  have hx : 0 ≤ r - mdays (i - 1) * 86400 := by omega
  have hx' : r - mdays (i - 1) * 86400 < 32 * 86400 := by omega
  generalize hday : r - mdays (i - 1) * 86400 = x at *
  rw [Int.tmod_eq_emod_of_nonneg hx, Int.tmod_eq_emod_of_nonneg hx, Int.tmod_eq_emod_of_nonneg hx,
    Int.tdiv_eq_ediv_of_nonneg (by omega), Int.tdiv_eq_ediv_of_nonneg (by omega),
    Int.tdiv_eq_ediv_of_nonneg (by omega), byte_eq (by omega) (by omega),
    byte_eq (by omega) (by omega), byte_eq (by omega) (by omega), byte_eq (by omega) (by omega)]
  rw [Nat.add_sub_cancel_left, addYears_eq (by omega) hyear rfl (by omega), slip]
  have hiff : (i > 2 ∧ isLeap (1970 + n) = true) ↔ (isLeap (1970 + n) = true ∧ 59 * 86400 ≤ r) := by
    rw [hmonth, and_comm]
  rw [if_congr hiff rfl rfl]
  split <;> omega

/-- What is read back after an inode with a time was written: `ps2fs_update_inode`, then
`ps2fs_read_inode`. -/
def stored (tzoffset t : Int) : Int := fromPs2time (toPs2time (t + tzoffset)) - tzoffset

/-- How many days a time moves when it is stored again and again. -/
def daysLeft (year : Nat) (r : Int) : Nat :=
  if isLeap year ∧ 59 * 86400 ≤ r then (366 - r / 86400).toNat else 0

theorem not_isLeap_succ (h : isLeap year = true) : isLeap (year + 1) = false := by
  simp [isLeap] at *
  omega

theorem stored_eq (hyear : 1970 + n ≤ 2100) (hr : 0 ≤ r) (hlt : r < yearDays (1970 + n) * 86400)
    (tz : Int) : stored tz (span 1970 n + r - tz) = span 1970 n + r + slip (1970 + n) r - tz := by
  rw [stored, Int.sub_add_cancel, from_to hyear hr hlt]

theorem stored_iterate_leap (hyear : 1970 + n + 1 ≤ 2100) (hleap : isLeap (1970 + n) = true)
    (hr : 59 * 86400 ≤ r) (hlt : r < 366 * 86400) (tz : Int) (k : Nat) :
    (stored tz)^[k] (span 1970 n + r - tz) =
      span 1970 n + r - tz + 86400 * (min k (366 - r / 86400).toNat : Nat) := by
  have hdays : yearDays (1970 + n) = 366 := by rw [yearDays, if_pos hleap]
  induction k generalizing r with
  | zero => simp
  | succ k ih =>
    have hfirst := stored_eq (by omega) (by omega) (hdays.symm ▸ hlt) tz
    rw [slip, if_pos ⟨hleap, hr⟩] at hfirst
    rw [Function.iterate_succ_apply, hfirst]
    by_cases hlast : r + 86400 < 366 * 86400
    · -- still in the same year, one day later
      have hnext := ih (r := r + 86400) (by omega) hlast
      rw [← Int.add_assoc] at hnext
      rw [hnext]
      omega
    · -- the first day of the next year, where the time stays
      have hspan : span 1970 n + r + 86400 = span 1970 (n + 1) + (r + 86400 - 366 * 86400) := by
        rw [span_succ, hdays]
        omega
      have hge := yearDays_ge (1970 + (n + 1))
      have hcommon : isLeap (1970 + (n + 1)) = false := not_isLeap_succ hleap
      have hfix : stored tz (span 1970 n + r + 86400 - tz) = span 1970 n + r + 86400 - tz := by
        rw [hspan, stored_eq (by omega) (by omega) (by omega), slip, hcommon]
        simp
      rw [Function.iterate_fixed hfix]
      omega

theorem stored_iterate (hyear : 1970 + n + 1 ≤ 2100) (hr : 0 ≤ r)
    (hlt : r < yearDays (1970 + n) * 86400) (tz : Int) (k : Nat) :
    (stored tz)^[k] (span 1970 n + r - tz) =
      span 1970 n + r - tz + 86400 * (min k (daysLeft (1970 + n) r) : Nat) := by
  by_cases hslip : isLeap (1970 + n) = true ∧ 59 * 86400 ≤ r
  · rw [daysLeft, if_pos hslip]
    rw [yearDays, if_pos hslip.1] at hlt
    exact stored_iterate_leap hyear hslip.1 hslip.2 hlt tz k
  · have hfix := stored_eq (by omega) hr hlt tz
    rw [slip, if_neg hslip, Int.add_zero] at hfix
    rw [daysLeft, if_neg hslip, Function.iterate_fixed hfix]
    simp

/-- A time that is stored and read again stays as it is, but from the 29th of February of a leap
year on it moves to the next day each time, until the year is over. -/
theorem stored_drifts (tz t : Int) (h0 : 0 ≤ t + tz) (h1 : t + tz < 2 ^ 31) (k : Nat) :
    (stored tz)^[k] t = t + 86400 * (min k (daysLeft (splitYear 1969 (t + tz)).1
      (splitYear 1969 (t + tz)).2) : Nat) := by
  obtain ⟨n, r, htime, hr, hlt⟩ := exists_split (t + tz) h0 1970
  have hyears := span_ge 1970 n
  have hsplit : splitYear 1969 (span 1970 n + r) = (1970 + n, r) := splitYear_eq hr hlt
  have ht : t = span 1970 n + r - tz := by omega
  rw [htime, hsplit]
  nth_rewrite 1 [ht]
  rw [stored_iterate (by omega) hr hlt, ← ht]

theorem stored_drifts_leap :
    (stored 0)^[3] 951868800 = 951868800 + 86400 * (min 3 (daysLeft (splitYear 1969 951868800).1
      (splitYear 1969 951868800).2) : Nat) :=
  stored_drifts 0 951868800 (by decide) (by decide) 3

end KernelLoader.Ps2fs
