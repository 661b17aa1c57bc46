import Mathlib.Data.BitVec
import Mathlib.Tactic.SplitIfs

namespace KernelLoader.Kernel
set_option autoImplicit true
set_option relaxedAutoImplicit false

def kBusClk : Nat := 147456000
def kBusClkBy16 : Nat := kBusClk / 16
def kBusClkBy256 : Nat := kBusClk / 256
def kHBlnkNtsc : Nat := 15734

def tnMode (clks gate gats gatm zret cue cmpe ovfe equf ovff : BitVec 32) : BitVec 32 :=
  clks ||| gate <<< 2 ||| gats <<< 3 ||| gatm <<< 4 ||| zret <<< 6 ||| cue <<< 7 ||| cmpe <<< 8 |||
    ovfe <<< 9 ||| equf <<< 10 ||| ovff <<< 11

/-- The two registers of timer 0 and the variable of `timers.c`. -/
structure Timer where
  t0Count : BitVec 16
  t0Mode : BitVec 32
  timerInterruptCount : BitVec 64

namespace Timer

/-- A one written to a flag of `T0_MODE` clears it. -/
def writeMode (v : BitVec 32) (s : Timer) : Timer :=
  { s with t0Mode := v &&& ~~~0xc00#32 ||| s.t0Mode &&& ~~~v &&& 0xc00#32 }

/-- The rate that `T0_MODE` selects. -/
def rate (s : Timer) : Nat :=
  match (s.t0Mode &&& 3#32).toNat with
  | 0 => kBusClk
  | 1 => kBusClkBy16
  | 2 => kBusClkBy256
  | _ => kHBlnkNtsc

end Timer

def timerInterrupt (s : Timer) : Timer :=
  let s := { s with timerInterruptCount := s.timerInterruptCount + 1 }
  s.writeMode (s.t0Mode ||| 1#32 <<< 11)

def timerInitModule (s : Timer) : Timer :=
  let s := s.writeMode 0
  let s := { s with t0Count := 0 }
  let s := s.writeMode (tnMode 1 0 0 0 0 1 0 1 0 0)
  { s with timerInterruptCount := 0 }

/-- What `timer_time` makes of the two values it has read. -/
def timerTime (t0Count : BitVec 16) (timerInterruptCount : BitVec 64) : BitVec 64 :=
  let t := t0Count.setWidth 64 + timerInterruptCount <<< 16
  t * 1000000#64 / BitVec.ofNat 64 kBusClkBy256

namespace Timer

/-- A value that was read, and the number of ticks then. -/
structure Sample (α : Type) where
  tick : Nat
  value : α

/-- A call of `timer_time` in progress: when it began, and what it has read, with the number of
interrupts served then. -/
structure Reading where
  start : Nat
  count : Option (Sample (BitVec 16))
  interruptCount : Option (Sample (Nat × BitVec 64))

/-- A call that has returned: when it began, when it read the counter, when it read the number of
interrupts and how many had been served, when it ended, and its value. -/
structure Result where
  start : Nat
  countTick : Nat
  servedTick : Nat
  served : Nat
  finish : Nat
  value : BitVec 64
  deriving DecidableEq

/-- The timer since `timer_init_module`, with the interrupt that is pending after an overflow. -/
structure Sys where
  timer : Timer
  ticks : Nat
  served : Nat
  pending : Bool
  reading : Option Reading
  log : List Result

inductive Event
  | tick
  | interrupt
  | start
  | readCount
  | readInterruptCount
  | finish

/-- An event that cannot happen is left out. The two reads come in any order, and an overflow waits
for the interrupt of the one before. -/
def Sys.step (s : Sys) : Event → Sys
  | .tick =>
    if s.timer.t0Count = 0xffff#16 then
      if s.pending then s
      else { s with
        timer := { s.timer with t0Count := s.timer.t0Count + 1#16 }
        ticks := s.ticks + 1
        pending := true }
    else { s with
      timer := { s.timer with t0Count := s.timer.t0Count + 1#16 }
      ticks := s.ticks + 1 }
  | .interrupt =>
    if s.pending then
      { s with timer := timerInterrupt s.timer, served := s.served + 1, pending := false }
    else s
  | .start =>
    match s.reading with
    | none => { s with reading := some ⟨s.ticks, none, none⟩ }
    | some _ => s
  | .readCount =>
    match s.reading with
    | some ⟨start, none, n⟩ =>
      { s with reading := some ⟨start, some ⟨s.ticks, s.timer.t0Count⟩, n⟩ }
    | _ => s
  | .readInterruptCount =>
    match s.reading with
    | some ⟨start, c, none⟩ =>
      { s with
        reading := some ⟨start, c, some ⟨s.ticks, s.served, s.timer.timerInterruptCount⟩⟩ }
    | _ => s
  | .finish =>
    match s.reading with
    | some ⟨start, some c, some n⟩ =>
      { s with
        reading := none
        log := s.log ++
          [⟨start, c.tick, n.tick, n.value.1, s.ticks, timerTime c.value n.value.2⟩] }
    | _ => s

def Sys.run (timer : Timer) (events : List Event) : Sys :=
  events.foldl Sys.step ⟨timerInitModule timer, 0, 0, false, none, []⟩

/-- The microseconds since the timer was started, rounded down. -/
def Sys.elapsed (s : Sys) (ticks : Nat) : Nat := ticks * 1000000 / s.timer.rate

/-- The results lie in the time of the calls and do not go back. -/
structure Sys.Right (s : Sys) : Prop where
  within : ∀ r ∈ s.log, s.elapsed r.start ≤ r.value.toNat ∧ r.value.toNat ≤ s.elapsed r.finish
  ordered : s.log.Pairwise fun r r' => r.value.toNat ≤ r'.value.toNat

/-- Both values are of the time between two overflows, in the first 23 days, and the call does not
return before the timer has made sixteen times the ticks it had made. -/
structure Result.InTime (r : Result) : Prop where
  together : r.served = r.countTick / 65536
  early : r.countTick ≤ 18446744073709
  long : 16 * r.countTick ≤ r.finish

/-- Calls take at most `d` ticks and interrupts are served at most 2000 ticks after the overflow, in
the first 22 days. -/
structure Prompt (timer : Timer) (events : List Event) (d : Nat) : Prop where
  calls : ∀ r ∈ (Sys.run timer events).log, r.finish ≤ r.start + d
  interrupts : ∀ before, before <+: events → (Sys.run timer before).pending = true →
    (Sys.run timer before).ticks % 65536 ≤ 2000
  early : (Sys.run timer events).ticks < 2 ^ 44

/-- The microsecond of a tick. -/
def microsecond (ticks : Nat) : Nat := ticks * 125 / 1152

/-- What is known of a value that was read: the time of the read, and that of the interrupts served
at most one was missing, for at most `late` ticks. -/
structure Missing (late tick served : Nat) : Prop where
  le : served ≤ tick / 65536
  one : tick / 65536 ≤ served + 1
  late : served < tick / 65536 → tick % 65536 ≤ late

/-- What is known of a call in progress. -/
structure Reading.Begun (late : Nat) (s : Sys) (q : Reading) : Prop where
  start : q.start ≤ s.ticks
  count : ∀ c ∈ q.count, q.start ≤ c.tick ∧ c.tick ≤ s.ticks ∧ c.value.toNat = c.tick % 65536
  served : ∀ n ∈ q.interruptCount, q.start ≤ n.tick ∧ n.tick ≤ s.ticks ∧
    n.value.2 = BitVec.ofNat 64 n.value.1 ∧ Missing late n.tick n.value.1
  after : ∀ r ∈ s.log, r.finish ≤ q.start

/-- What is known of a call that has returned. -/
structure Result.Known (late : Nat) (r : Result) : Prop where
  count : r.start ≤ r.countTick ∧ r.countTick ≤ r.finish
  served : r.start ≤ r.servedTick ∧ r.servedTick ≤ r.finish
  missing : Missing late r.servedTick r.served
  value : r.value.toNat = 1000000 * (r.countTick % 65536 + 65536 * r.served) % 2 ^ 64 / 576000

/-- The registers and the log, by the ticks and the interrupts served. -/
structure Consistent (late : Nat) (s : Sys) : Prop where
  count : s.timer.t0Count.toNat = s.ticks % 65536
  served : s.timer.timerInterruptCount = BitVec.ofNat 64 s.served
  pending : s.served + s.pending.toNat = s.ticks / 65536
  rate : s.timer.rate = 9216000
  reading : ∀ q ∈ s.reading, q.Begun late s
  past : ∀ r ∈ s.log, r.finish ≤ s.ticks
  known : ∀ r ∈ s.log, r.Known late
  ordered : s.log.Pairwise fun r r' => r.finish ≤ r'.start

section Registers

theorem and_three_writeMode (v : BitVec 32) (s : Timer) :
    (s.writeMode v).t0Mode &&& 3#32 = v &&& 3#32 := by
  have hkeep : ~~~0xc00#32 &&& 3#32 = 3#32 := by decide
  have hflags : 0xc00#32 &&& 3#32 = 0#32 := by decide
  show (v &&& ~~~0xc00#32 ||| s.t0Mode &&& ~~~v &&& 0xc00#32) &&& 3#32 = _
  rw [BitVec.and_or_distrib_right, BitVec.and_assoc, hkeep, BitVec.and_assoc, hflags,
    BitVec.and_zero, BitVec.or_zero]

theorem rate_eq {s t : Timer} (h : s.t0Mode &&& 3#32 = t.t0Mode &&& 3#32) : s.rate = t.rate := by
  rw [rate, h, rate]

theorem rate_timerInterrupt (s : Timer) : (timerInterrupt s).rate = s.rate := by
  have hflag : (1#32 <<< 11) &&& 3#32 = 0#32 := by decide
  apply rate_eq
  rw [timerInterrupt, and_three_writeMode]
  show (s.t0Mode ||| 1#32 <<< 11) &&& 3#32 = _
  rw [BitVec.and_or_distrib_right, hflag, BitVec.or_zero]

theorem rate_timerInitModule (s : Timer) : (timerInitModule s).rate = 9216000 := by
  have hmode : (timerInitModule s).t0Mode &&& 3#32 = 1#32 := and_three_writeMode _ _
  rw [rate, hmode]
  rfl

theorem toNat_timerTime (c : BitVec 16) (n : Nat) : (timerTime c (BitVec.ofNat 64 n)).toNat =
    1000000 * (c.toNat + 65536 * n) % 2 ^ 64 / 576000 := by
  have hc := c.isLt
  have hfactor : (1000000#64).toNat = 1000000 := rfl
  have hclock : (BitVec.ofNat 64 kBusClkBy256).toNat = 576000 := rfl
  rw [timerTime, BitVec.toNat_udiv, BitVec.toNat_mul, BitVec.toNat_add, BitVec.toNat_shiftLeft,
    BitVec.toNat_setWidth, BitVec.toNat_ofNat, hfactor, hclock, Nat.shiftLeft_eq]
  congr 1
  omega

end Registers

section Steps
variable {s : Sys} {late : Nat}

theorem consistent_init (timer : Timer) :
    Consistent late ⟨timerInitModule timer, 0, 0, false, none, []⟩ where
  count := rfl
  served := rfl
  pending := (Nat.zero_div 65536).symm
  rate := rate_timerInitModule timer
  reading := fun _ hq => nomatch hq
  past := fun _ hr => nomatch hr
  known := fun _ hr => nomatch hr
  ordered := .nil

theorem Reading.Begun.mono {s' : Sys} {q : Reading} (h : q.Begun late s) (ht : s.ticks ≤ s'.ticks)
    (hlog : s'.log = s.log) : q.Begun late s' := by
  refine ⟨h.start.trans ht, fun c hc => ?_, fun n hn => ?_, hlog ▸ h.after⟩
  · obtain ⟨hstart, hle, hvalue⟩ := h.count c hc
    exact ⟨hstart, hle.trans ht, hvalue⟩
  · obtain ⟨hstart, hle, hvalue⟩ := h.served n hn
    exact ⟨hstart, hle.trans ht, hvalue⟩

theorem toNat_add_one (c : BitVec 16) : (c + 1#16).toNat = (c.toNat + 1) % 65536 := by
  rw [BitVec.toNat_add]
  rfl

theorem Consistent.tick (h : Consistent late s) : Consistent late (s.step .tick) := by
  have hcount := h.count
  have hpending := h.pending
  have hnext := toNat_add_one s.timer.t0Count
  have hpast (r : Result) (hr : r ∈ s.log) := Nat.le_succ_of_le (h.past r hr)
  rw [Sys.step]
  split_ifs with hwrap hp
  · exact h
  · -- an overflow with no interrupt pending
    have hlast : s.timer.t0Count.toNat = 65535 := congrArg BitVec.toNat hwrap
    rw [Bool.not_eq_true] at hp
    rw [hp] at hpending
    change s.served + 0 = _ at hpending
    refine ⟨?_, h.served, ?_, h.rate, ?_, hpast, h.known, h.ordered⟩
    · show (s.timer.t0Count + 1#16).toNat = (s.ticks + 1) % 65536
      omega
    · show s.served + 1 = (s.ticks + 1) / 65536
      omega
    · intro q hq
      exact (h.reading q hq).mono (Nat.le_succ s.ticks) rfl
  · have hnot : s.timer.t0Count.toNat ≠ 65535 := fun he => hwrap (BitVec.eq_of_toNat_eq he)
    refine ⟨?_, h.served, ?_, h.rate, ?_, hpast, h.known, h.ordered⟩
    · show (s.timer.t0Count + 1#16).toNat = (s.ticks + 1) % 65536
      omega
    · show s.served + s.pending.toNat = (s.ticks + 1) / 65536
      omega
    · intro q hq
      exact (h.reading q hq).mono (Nat.le_succ s.ticks) rfl

theorem Consistent.interrupt (h : Consistent late s) : Consistent late (s.step .interrupt) := by
  rw [Sys.step]
  split_ifs with hp
  · have hpending := h.pending
    have hrate := (rate_timerInterrupt s.timer).trans h.rate
    rw [hp] at hpending
    refine ⟨h.count, ?_, hpending, hrate, ?_, h.past, h.known, h.ordered⟩
    · show s.timer.timerInterruptCount + 1 = BitVec.ofNat 64 (s.served + 1)
      rw [h.served, BitVec.ofNat_add]
      rfl
    · intro q hq
      exact (h.reading q hq).mono (Nat.le_refl s.ticks) rfl
  · exact h

theorem Consistent.proceed (h : Consistent late s) {q : Reading} (hq : q.Begun late s) :
    Consistent late { s with reading := some q } := by
  refine ⟨h.count, h.served, h.pending, h.rate, ?_, h.past, h.known, h.ordered⟩
  intro q' hq'
  cases hq'
  exact hq.mono (Nat.le_refl s.ticks) rfl

theorem Consistent.start (h : Consistent late s) : Consistent late (s.step .start) := by
  rw [Sys.step]
  split
  · apply h.proceed
    exact ⟨Nat.le_refl s.ticks, fun _ hp => (nomatch hp), fun _ hp => (nomatch hp), h.past⟩
  · exact h

theorem Consistent.readCount (h : Consistent late s) : Consistent late (s.step .readCount) := by
  rw [Sys.step]
  split
  case h_1 start n hr =>
    have hq := h.reading _ hr
    refine h.proceed ⟨hq.start, ?_, hq.served, hq.after⟩
    intro c hc
    cases hc
    exact ⟨hq.start, Nat.le_refl s.ticks, h.count⟩
  case h_2 => exact h

theorem Consistent.readInterruptCount (h : Consistent late s)
    (hlate : s.pending = true → s.ticks % 65536 ≤ late) :
    Consistent late (s.step .readInterruptCount) := by
  rw [Sys.step]
  split
  case h_1 start c hr =>
    have hq := h.reading _ hr
    refine h.proceed ⟨hq.start, hq.count, ?_, hq.after⟩
    intro n hn
    cases hn
    refine ⟨hq.start, Nat.le_refl s.ticks, h.served, ?_⟩
    have hpending := h.pending
    cases hp : s.pending with
    | false =>
      rw [hp] at hpending
      change s.served + 0 = _ at hpending
      constructor <;> dsimp only <;> omega
    | true =>
      rw [hp] at hpending
      change s.served + 1 = _ at hpending
      have hle := hlate hp
      constructor <;> dsimp only <;> omega
  case h_2 => exact h

theorem Consistent.finish (h : Consistent late s) : Consistent late (s.step .finish) := by
  rw [Sys.step]
  split
  case h_1 start c n hr =>
    have hq := h.reading _ hr
    obtain ⟨hcstart, hcle, hc⟩ := hq.count c rfl
    obtain ⟨hnstart, hnle, hn, hmissing⟩ := hq.served n rfl
    refine ⟨h.count, h.served, h.pending, h.rate, fun _ hq => (nomatch hq), ?_, ?_, ?_⟩
    · intro r hr
      cases List.mem_append.mp hr with
      | inl hr => exact h.past r hr
      | inr hr => rw [List.mem_singleton.mp hr]
    · intro r hr
      cases List.mem_append.mp hr with
      | inl hr => exact h.known r hr
      | inr hr =>
        rw [List.mem_singleton.mp hr]
        refine ⟨⟨hcstart, hcle⟩, ⟨hnstart, hnle⟩, hmissing, ?_⟩
        show (timerTime c.value n.value.2).toNat = _
        rw [hn, toNat_timerTime, hc]
    · apply List.pairwise_append.mpr
      refine ⟨h.ordered, List.pairwise_singleton _ _, ?_⟩
      intro r hr r' hr'
      rw [List.mem_singleton.mp hr']
      exact hq.after r hr
  case h_2 => exact h

theorem Consistent.step (h : Consistent late s)
    (hlate : s.pending = true → s.ticks % 65536 ≤ late) (e : Event) :
    Consistent late (s.step e) := by
  cases e with
  | tick => exact h.tick
  | interrupt => exact h.interrupt
  | start => exact h.start
  | readCount => exact h.readCount
  | readInterruptCount => exact h.readInterruptCount hlate
  | finish => exact h.finish

theorem consistent_run (timer : Timer) (events : List Event)
    (hlate : ∀ before, before <+: events → (Sys.run timer before).pending = true →
      (Sys.run timer before).ticks % 65536 ≤ late) :
    Consistent late (Sys.run timer events) := by
  induction events using List.reverseRecOn with
  | nil => exact consistent_init timer
  | append_singleton events e ih =>
    have hprefix : events <+: events ++ [e] := List.prefix_append events [e]
    have hevents := ih fun before hbefore => hlate before (hbefore.trans hprefix)
    rw [Sys.run, List.foldl_concat]
    exact hevents.step (hlate events hprefix) e

end Steps

section Results
variable {s : Sys} {r : Result} {late : Nat}

theorem Consistent.elapsed_eq (h : Consistent late s) (ticks : Nat) :
    s.elapsed ticks = microsecond ticks := by
  rw [Sys.elapsed, h.rate, microsecond]
  omega

theorem microsecond_mono (h : a ≤ b) : microsecond a ≤ microsecond b :=
  Nat.div_le_div_right (Nat.mul_le_mul_right 125 h)

/-- The code divides by a sixteenth of the rate of the timer. -/
theorem Result.InTime.within (h : r.InTime) (hr : r.Known late) :
    microsecond r.start ≤ r.value.toNat ∧ r.value.toNat ≤ microsecond r.finish := by
  have hticks : r.countTick % 65536 + 65536 * r.served = r.countTick := by
    rw [h.together]
    omega
  have hvalue : r.value.toNat = microsecond (16 * r.countTick) := by
    have hearly := h.early
    rw [hr.value, hticks, Nat.mod_eq_of_lt (by omega), microsecond]
    omega
  rw [hvalue]
  have hstart := hr.count.1
  exact ⟨microsecond_mono (by omega), microsecond_mono h.long⟩

/-- Results in the time of their calls do not go back, as the calls are made one after the
other. -/
theorem Consistent.right (h : Consistent late s) (hall : ∀ r ∈ s.log, r.InTime) : s.Right := by
  have hwithin (r : Result) (hr : r ∈ s.log) := (hall r hr).within (h.known r hr)
  constructor
  · intro r hr
    rw [h.elapsed_eq, h.elapsed_eq]
    exact hwithin r hr
  · apply List.Pairwise.imp_of_mem _ h.ordered
    intro r r' hr hr' hle
    calc r.value.toNat ≤ microsecond r.finish := (hwithin r hr).2
      _ ≤ microsecond r'.start := microsecond_mono hle
      _ ≤ r'.value.toNat := (hwithin r' hr').1

theorem Result.Known.near (h : r.Known late) (hearly : r.finish < 2 ^ 44)
    (hstart : microsecond r.start ≤ r.value.toNat)
    (hfinish : r.value.toNat ≤ microsecond r.finish) :
    r.start ≤ 16 * (r.countTick % 65536 + 65536 * r.served) + 9 ∧
      16 * (r.countTick % 65536 + 65536 * r.served) ≤ r.finish + 9 := by
  have hserved := h.served.2
  have hle := h.missing.le
  have hvalue := h.value
  rw [Nat.mod_eq_of_lt (by omega)] at hvalue
  rw [hvalue, microsecond] at hstart hfinish
  omega

/-- With an interrupt too few the ticks that are read are before the call in the first round of the
counter, and, as the code multiplies by 16, behind it later; with one too many they are behind
it. -/
theorem Result.Known.first (h : r.Known 2000) (hd : d ≤ 1000) (hcall : r.finish ≤ r.start + d)
    (hearly : r.finish < 2 ^ 44) (hstart : microsecond r.start ≤ r.value.toNat)
    (hfinish : r.value.toNat ≤ microsecond r.finish) : 15 * r.countTick ≤ d + 9 := by
  obtain ⟨hfrom, hto⟩ := h.near hearly hstart hfinish
  obtain ⟨hcount, hcount'⟩ := h.count
  obtain ⟨hserved, hserved'⟩ := h.served
  obtain ⟨hle, hone, hlate⟩ := h.missing
  clear hstart hfinish hearly
  rcases Nat.lt_trichotomy r.served (r.countTick / 65536) with hfew | hsame | hmany
  · exfalso
    have hrest : r.countTick % 65536 ≤ 2000 + d ∧ r.countTick / 65536 = r.served + 1 := by
      rcases Nat.lt_or_ge r.served (r.servedTick / 65536) with hlt | hge
      · have hsmall := hlate hlt
        omega
      · omega
    omega
  · omega
  · omega

end Results

section Runs
variable {timer : Timer} {events : List Event}

theorem Prompt.consistent (h : Prompt timer events d) :
    Consistent 2000 (Sys.run timer events) :=
  consistent_run timer events h.interrupts

theorem Prompt.first (h : Prompt timer events d) (hd : d ≤ 1000)
    (hright : (Sys.run timer events).Right) (hr : r ∈ (Sys.run timer events).log) :
    15 * r.countTick ≤ d + 9 := by
  have hc := h.consistent
  have hwithin := hright.within r hr
  rw [hc.elapsed_eq, hc.elapsed_eq] at hwithin
  have hearly : r.finish < 2 ^ 44 := Nat.lt_of_le_of_lt (hc.past r hr) h.early
  exact (hc.known r hr).first hd (h.calls r hr) hearly hwithin.1 hwithin.2

theorem Prompt.inTime (h : Prompt timer events 5) (hr : r ∈ (Sys.run timer events).log)
    (hzero : r.countTick = 0) : r.InTime := by
  have hknown := h.consistent.known r hr
  have hcall := h.calls r hr
  have hstart := hknown.count.1
  have hserved := hknown.served.2
  have hle := hknown.missing.le
  constructor <;> omega

end Runs

/-- Results are right if all calls are in time. If no call takes longer than `d` ticks, that is the
case only in the first `(d + 9) / 15` ticks, and if none takes longer than five then only the calls
that read the counter before the first tick are right. -/
theorem timer_right_in_time (timer : Timer) (events : List Event) :
    ((∀ r ∈ (Sys.run timer events).log, r.InTime) → (Sys.run timer events).Right) ∧
    (∀ d ≤ 1000, Prompt timer events d → (Sys.run timer events).Right →
      ∀ r ∈ (Sys.run timer events).log, 15 * r.countTick ≤ d + 9) ∧
    (Prompt timer events 5 → ((Sys.run timer events).Right ↔
      ∀ r ∈ (Sys.run timer events).log, r.countTick = 0)) := by
  refine ⟨?_, fun d hd h hright r hr => h.first hd hright hr, fun h => ⟨?_, ?_⟩⟩
  · have hlate : ∀ before, before <+: events → (Sys.run timer before).pending = true →
        (Sys.run timer before).ticks % 65536 ≤ 65535 :=
      fun _ _ _ => Nat.le_of_lt_succ (Nat.mod_lt _ (by decide))
    exact (consistent_run timer events hlate).right
  · intro hright r hr
    have hfirst := h.first (by decide) hright hr
    omega
  · intro hzero
    exact h.consistent.right fun r hr => h.inTime hr (hzero r hr)

/-- A call before the first tick, and one that reads at the first tick and lasts until the
sixteenth. -/
def slowCalls : List Event :=
  [.start, .readCount, .readInterruptCount, .finish, .tick, .start, .readCount,
    .readInterruptCount] ++ List.replicate 15 .tick ++ [.finish]

theorem timer_right_in_time_slow :
    (Sys.run ⟨0, 0, 0⟩ slowCalls).log = [⟨0, 0, 0, 0, 0, 0⟩, ⟨1, 1, 1, 0, 16, 1⟩] ∧
      (Sys.run ⟨0, 0, 0⟩ slowCalls).Right := by
  have hlog : (Sys.run ⟨0, 0, 0⟩ slowCalls).log = [⟨0, 0, 0, 0, 0, 0⟩, ⟨1, 1, 1, 0, 16, 1⟩] := by
    decide +kernel
  refine ⟨hlog, (timer_right_in_time _ _).1 fun r hr => ?_⟩
  rw [hlog, List.mem_pair] at hr
  rcases hr with rfl | rfl
  · exact ⟨rfl, by decide, by decide⟩
  · exact ⟨rfl, by decide, by decide⟩

/-- After 100 ticks, which are 10 microseconds, a call that takes no time returns 173. -/
theorem timer_too_fast :
    let s := Sys.run ⟨0, 0, 0⟩ (List.replicate 100 .tick ++
      [.start, .readCount, .readInterruptCount, .finish])
    s.log = [⟨100, 100, 100, 0, 100, 173⟩] ∧ s.elapsed 100 = 10 := by
  decide +kernel

end Timer

end KernelLoader.Kernel
