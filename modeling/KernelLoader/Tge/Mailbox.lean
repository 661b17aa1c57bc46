import KernelLoader.Lib.Cpu
import KernelLoader.Lib.Reach
import Mathlib.Data.List.Basic
import Mathlib.Data.Nat.Bitwise
import Mathlib.Data.UInt

namespace KernelLoader.Tge.Mailbox
open Lib
set_option autoImplicit true
set_option relaxedAutoImplicit false

/-- Interrupts can happen: `CORE_EIE` and `CORE_IE` are set, `CORE_EXL` and `CORE_ERL` are not. -/
def enabled (status : Nat) : Bool :=
  status.testBit 16 && status.testBit 0 && !status.testBit 1 && !status.testBit 2

/-- The status after `core_save_disable`, which has saved `status`. -/
def coreDisable (status : Nat) : Nat := (status ||| 1) ^^^ 1

/-- `core_restore` keeps the interrupt mask. -/
def coreRestore (now status : Nat) : Nat := status &&& 0xffff00ff ||| now &&& 0xff00

/-- A call of `iop_putc`. The calls are numbered. -/
structure Call where
  id : Nat
  char : UInt8
  deriving DecidableEq, Repr

/-- The statement of `iop_putc` that comes next, with the local variable `status`. -/
inductive Pc
  | outside
  /-- `core_save_disable`, which reads the status and then writes it -/
  | entered (call : Call)
  | saved (call : Call) (status : Nat)
  /-- `iop_read(sharedMem, buf, 1)` -/
  | reading (call : Call) (status : Nat)
  /-- `core_restore` in the loop -/
  | busy (call : Call) (status : Nat)
  /-- `iop_write(&sharedMem[1], &buf[1], 1)` -/
  | writing (call : Call) (status : Nat)
  /-- `iop_write(&sharedMem[0], &buf[0], 1)` -/
  | marking (call : Call) (status : Nat)
  /-- `core_restore` at the end -/
  | leaving (call : Call) (status : Nat)

/-- A thread or an interrupt handler of the EE, with the status register it runs with. An interrupt
is a switch to the context of its handler, and its end a switch back. -/
structure Ctx where
  pc : Pc
  status : Nat

/-- The statement of `ioThread` that comes next. -/
inductive IoThread
  | waiting
  | received
  | printing (char : UInt8)
  | clearing
  deriving DecidableEq, Repr

/-- Both processors, the two bytes of the mailbox, and what has happened: the calls in the order in
which they wrote their character, those that have returned, and what the IOP has printed. -/
structure Sys where
  cpu : Cpu Ctx
  shared0 : UInt8
  shared1 : UInt8
  iop : IoThread
  next : Nat
  written : List Call
  completed : List Call
  printed : List UInt8

/-- The running context goes to another statement. -/
def Sys.goto (pc : Pc) (status : Nat) (s : Sys) : Sys := { s with cpu := s.cpu.goOn ⟨pc, status⟩ }

/-- A statement of `iop_putc` in the running context. -/
def iopPutc (s : Sys) : Option Sys :=
  let now := s.cpu.running.status
  match s.cpu.running.pc with
  | .outside => none
  | .entered call => some (s.goto (.saved call now) now)
  | .saved call status => some (s.goto (.reading call status) (coreDisable status))
  | .reading call status =>
    if s.shared0 ≠ 0 then some (s.goto (.busy call status) now)
    else some (s.goto (.writing call status) now)
  | .busy call status => some (s.goto (.entered call) (coreRestore now status))
  | .writing call status =>
    some ({ s with shared1 := call.char, written := s.written ++ [call] }.goto
      (.marking call status) now)
  | .marking call status => some ({ s with shared0 := 0xff }.goto (.leaving call status) now)
  | .leaving call status =>
    some ({ s with completed := s.completed ++ [call] }.goto .outside (coreRestore now status))

def ioThread (s : Sys) : Sys :=
  match s.iop with
  | .waiting => if s.shared0 = 0 then s else { s with iop := .received }
  | .received => { s with iop := .printing s.shared1 }
  | .printing c => { s with printed := s.printed ++ [c], iop := .clearing }
  | .clearing => { s with shared0 := 0, iop := .waiting }

/-- A context may be left when interrupts are enabled in it, and by itself outside of `iop_putc`. -/
def Ctx.Preemptible (x : Ctx) : Prop := x.pc = .outside ∨ enabled x.status = true

def Pc.isOutside : Pc → Bool
  | .outside => true
  | _ => false

inductive Act
  /-- the running context calls `iop_putc` -/
  | call (char : UInt8)
  | putc
  /-- other code of the running context changes the status -/
  | setStatus (status : Nat)
  /-- an interrupt, or the return from one -/
  | switch (i : Nat)
  | io
  deriving DecidableEq, Repr

def step (s : Sys) : Act → Option Sys
  | .call char =>
    if s.cpu.running.pc.isOutside then
      some ({ s with next := s.next + 1 }.goto (.entered ⟨s.next, char⟩) s.cpu.running.status)
    else none
  | .putc => iopPutc s
  | .setStatus status =>
    if s.cpu.running.pc.isOutside then some (s.goto .outside status) else none
  | .switch i =>
    if s.cpu.running.pc.isOutside || enabled s.cpu.running.status then
      some { s with cpu := s.cpu.switch i }
    else none
  | .io => some (ioThread s)

/-- The mailbox is empty and no context is in `iop_putc`. -/
structure Sys.Start (s : Sys) : Prop where
  outside : ∀ i, (s.cpu.contexts i).pc = .outside
  shared0 : s.shared0 = 0
  iop : s.iop = .waiting
  written : s.written = []
  completed : s.completed = []
  printed : s.printed = []

/-- The call of a context that has not written its character yet. -/
def Pc.pending : Pc → Option Call
  | .entered call => some call
  | .saved call _ => some call
  | .reading call _ => some call
  | .busy call _ => some call
  | .writing call _ => some call
  | _ => none

/-- Interrupts are disabled between the two halves of `iop_putc`. -/
def Pc.critical : Pc → Bool
  | .reading .. => true
  | .busy .. => true
  | .writing .. => true
  | .marking .. => true
  | .leaving .. => true
  | _ => false

/-- The mailbox is about to be written. -/
def Pc.writes : Pc → Bool
  | .writing .. => true
  | .marking .. => true
  | _ => false

def Pc.isMarking : Pc → Bool
  | .marking .. => true
  | _ => false

/-- The mailbox is empty, written but not marked, marked, or printed but not cleared. -/
inductive Sys.Phase (s : Sys) : Prop
  | empty : s.shared0 = 0 → s.iop = .waiting → s.printed = s.written.map (·.char) →
      s.completed ⊆ s.written → s.cpu.running.pc.isMarking = false → Phase s
  | half (old : List Call) (call : Call) (status : Nat) : s.shared0 = 0 → s.iop = .waiting →
      s.printed = old.map (·.char) → s.completed ⊆ old → s.written = old ++ [call] →
      s.shared1 = call.char → s.cpu.running.pc = .marking call status → Phase s
  | full (old : List Call) (call : Call) : s.shared0 ≠ 0 →
      s.iop = .waiting ∨ s.iop = .received ∨ s.iop = .printing call.char →
      s.printed = old.map (·.char) → s.completed ⊆ s.written → s.written = old ++ [call] →
      s.shared1 = call.char → s.cpu.running.pc.writes = false → Phase s
  | spent : s.shared0 ≠ 0 → s.iop = .clearing → s.printed = s.written.map (·.char) →
      s.completed ⊆ s.written → s.cpu.running.pc.writes = false → Phase s

/-- What a step can do. -/
inductive Stepped (s : Sys) : Act → Sys → Prop
  | call : s.cpu.running.pc = .outside →
      Stepped s (.call c)
        ({ s with next := s.next + 1 }.goto (.entered ⟨s.next, c⟩) s.cpu.running.status)
  | save {call : Call} : s.cpu.running.pc = .entered call →
      Stepped s .putc (s.goto (.saved call s.cpu.running.status) s.cpu.running.status)
  | disable {call : Call} : s.cpu.running.pc = .saved call v →
      Stepped s .putc (s.goto (.reading call v) (coreDisable v))
  | full {call : Call} : s.cpu.running.pc = .reading call v → s.shared0 ≠ 0 →
      Stepped s .putc (s.goto (.busy call v) s.cpu.running.status)
  | empty {call : Call} : s.cpu.running.pc = .reading call v → s.shared0 = 0 →
      Stepped s .putc (s.goto (.writing call v) s.cpu.running.status)
  | retry {call : Call} : s.cpu.running.pc = .busy call v →
      Stepped s .putc (s.goto (.entered call) (coreRestore s.cpu.running.status v))
  | write {call : Call} : s.cpu.running.pc = .writing call v →
      Stepped s .putc ({ s with shared1 := call.char, written := s.written ++ [call] }.goto
        (.marking call v) s.cpu.running.status)
  | mark {call : Call} : s.cpu.running.pc = .marking call v →
      Stepped s .putc ({ s with shared0 := 0xff }.goto (.leaving call v) s.cpu.running.status)
  | leave {call : Call} : s.cpu.running.pc = .leaving call v →
      Stepped s .putc ({ s with completed := s.completed ++ [call] }.goto .outside
        (coreRestore s.cpu.running.status v))
  | setStatus : s.cpu.running.pc = .outside → Stepped s (.setStatus v) (s.goto .outside v)
  | switch : s.cpu.running.Preemptible → Stepped s (.switch i) { s with cpu := s.cpu.switch i }
  | io : Stepped s .io (ioThread s)

variable {s t : Sys}

theorem Pc.isOutside_iff (pc : Pc) : pc.isOutside ↔ pc = .outside := by
  cases pc <;> simp [Pc.isOutside]

theorem iopPutc_stepped (h : iopPutc s = some t) : Stepped s .putc t := by
  unfold iopPutc at h
  split at h
  · cases h
  · next hpc => exact Option.some.inj h ▸ .save hpc
  · next hpc => exact Option.some.inj h ▸ .disable hpc
  · next hpc =>
    split at h
    · next hfull => exact Option.some.inj h ▸ .full hpc hfull
    · next hempty => exact Option.some.inj h ▸ .empty hpc (not_not.mp hempty)
  · next hpc => exact Option.some.inj h ▸ .retry hpc
  · next hpc => exact Option.some.inj h ▸ .write hpc
  · next hpc => exact Option.some.inj h ▸ .mark hpc
  · next hpc => exact Option.some.inj h ▸ .leave hpc

theorem ioThread_frame (s : Sys) : (ioThread s).cpu = s.cpu ∧ (ioThread s).next = s.next ∧
    (ioThread s).written = s.written ∧ (ioThread s).completed = s.completed ∧
      (ioThread s).shared1 = s.shared1 := by
  unfold ioThread
  split
  · split <;> exact ⟨rfl, rfl, rfl, rfl, rfl⟩
  · exact ⟨rfl, rfl, rfl, rfl, rfl⟩
  · exact ⟨rfl, rfl, rfl, rfl, rfl⟩
  · exact ⟨rfl, rfl, rfl, rfl, rfl⟩

theorem step_stepped (h : step s a = some t) : Stepped s a t := by
  cases a with
  | call char =>
    rw [step, Option.ite_none_right_eq_some] at h
    exact Option.some.inj h.2 ▸ .call ((Pc.isOutside_iff _).mp h.1)
  | putc => exact iopPutc_stepped h
  | setStatus status =>
    rw [step, Option.ite_none_right_eq_some] at h
    exact Option.some.inj h.2 ▸ .setStatus ((Pc.isOutside_iff _).mp h.1)
  | switch i =>
    rw [step, Option.ite_none_right_eq_some, Bool.or_eq_true] at h
    exact Option.some.inj h.2 ▸ .switch (h.1.imp_left (Pc.isOutside_iff _).mp)
  | io => exact Option.some.inj h ▸ .io

theorem enabled_coreDisable (status : Nat) : enabled (coreDisable status) = false := by
  have hie : (coreDisable status).testBit 0 = false := by
    rw [coreDisable, Nat.testBit_xor, Nat.testBit_or]
    cases status.testBit 0 <;> rfl
  simp [enabled, hie]

/-- Interrupts are disabled where the mailbox is used, so that only the running context is there. -/
structure Guarded (c : Cpu Ctx) : Prop where
  masked : ∀ i, (c.contexts i).pc.critical → enabled (c.contexts i).status = false
  parked : c.Parked Ctx.Preemptible

variable {c : Cpu Ctx} {pc : Pc} {status : Nat}

theorem Guarded.goOn (h : Guarded c) (hx : pc.critical → enabled status = false) :
    Guarded (c.goOn ⟨pc, status⟩) :=
  ⟨Cpu.forall_goOn (P := fun x : Ctx => x.pc.critical → enabled x.status = false) h.masked hx,
    h.parked.goOn _⟩

theorem Guarded.stay (h : Guarded c) (hpc : c.running.pc.critical) :
    Guarded (c.goOn ⟨pc, c.running.status⟩) :=
  h.goOn fun _ => h.masked c.current hpc

theorem Guarded.release (h : Guarded c) (hpc : pc.critical = false) :
    Guarded (c.goOn ⟨pc, status⟩) :=
  h.goOn fun hc => absurd (hc.symm.trans hpc) (by decide)

theorem Guarded.step (h : Guarded s.cpu) (hst : Stepped s a t) : Guarded t.cpu := by
  cases hst with
  | call => exact h.release rfl
  | save => exact h.release rfl
  | disable => exact h.goOn fun _ => enabled_coreDisable _
  | full hpc => exact h.stay (by rw [hpc]; rfl)
  | empty hpc => exact h.stay (by rw [hpc]; rfl)
  | retry => exact h.release rfl
  | write hpc => exact h.stay (by rw [hpc]; rfl)
  | mark hpc => exact h.stay (by rw [hpc]; rfl)
  | leave => exact h.release rfl
  | setStatus => exact h.release rfl
  | switch hp => exact ⟨h.masked, h.parked.switch hp _⟩
  | io => exact (ioThread_frame s).1 ▸ h

theorem Guarded.not_critical (h : Guarded c) (hi : (c.contexts i).Preemptible) :
    (c.contexts i).pc.critical = false := by
  cases hcrit : (c.contexts i).pc.critical with
  | false => rfl
  | true =>
    rcases hi with houtside | henabled
    · rw [houtside] at hcrit
      cases hcrit
    · rw [h.masked i hcrit] at henabled
      cases henabled

/-- The calls are numbered, and none has written its character twice. -/
structure Numbered (c : Cpu Ctx) (next : Nat) (written : List Call) : Prop where
  pending : ∀ i, ∀ call ∈ (c.contexts i).pc.pending,
    call.id < next ∧ call.id ∉ written.map (·.id)
  distinct : ∀ i j, i ≠ j → ∀ a ∈ (c.contexts i).pc.pending,
    ∀ b ∈ (c.contexts j).pc.pending, a.id ≠ b.id
  below : ∀ call ∈ written, call.id < next
  nodup : (written.map (·.id)).Nodup

variable {next : Nat} {written : List Call} {call : Call}

theorem Numbered.goOn (h : Numbered c next written)
    (hpc : pc.pending = none ∨ pc.pending = c.running.pc.pending) :
    Numbered (c.goOn ⟨pc, status⟩) next written := by
  have hsub (i : Nat) : ∀ call ∈ ((c.goOn ⟨pc, status⟩).contexts i).pc.pending,
      call ∈ (c.contexts i).pc.pending := by
    intro call hcall
    by_cases hi : i = c.current
    · subst hi
      rw [Cpu.contexts_goOn_current] at hcall
      rcases hpc with hpc | hpc
      · rw [hpc] at hcall
        cases hcall
      · rw [hpc] at hcall
        exact hcall
    · rw [Cpu.contexts_goOn hi] at hcall
      exact hcall
  refine ⟨fun i call hcall => h.pending i call (hsub i call hcall), ?_, h.below, h.nodup⟩
  intro i j hij a ha b hb
  exact h.distinct i j hij a (hsub i a ha) b (hsub j b hb)

theorem Numbered.enter (h : Numbered c next written) (char : UInt8) (status : Nat) :
    Numbered (c.goOn ⟨.entered ⟨next, char⟩, status⟩) (next + 1) written := by
  -- the new number is larger than those of all other calls
  have hcases (i : Nat) : ∀ call ∈ ((c.goOn ⟨.entered ⟨next, char⟩, status⟩).contexts i).pc.pending,
      i = c.current ∧ call.id = next ∨ call ∈ (c.contexts i).pc.pending ∧ call.id < next := by
    intro call hcall
    by_cases hi : i = c.current
    · subst hi
      rw [Cpu.contexts_goOn_current] at hcall
      exact .inl ⟨rfl, congrArg Call.id (Option.some.inj hcall).symm⟩
    · rw [Cpu.contexts_goOn hi] at hcall
      exact .inr ⟨hcall, (h.pending i call hcall).1⟩
  refine ⟨fun i call hcall => ?_, fun i j hij a ha b hb => ?_, fun call hcall => ?_, h.nodup⟩
  · rcases hcases i call hcall with ⟨-, hid⟩ | ⟨hold, hid⟩
    · refine ⟨hid ▸ Nat.lt_succ_self _, fun hmem => ?_⟩
      obtain ⟨call', hcall', hid'⟩ := List.mem_map.mp hmem
      exact absurd (h.below call' hcall') (by omega)
    · exact ⟨Nat.lt_succ_of_lt hid, (h.pending i call hold).2⟩
  · rcases hcases i a ha with ⟨hi, hid⟩ | ⟨holda, hid⟩
    · rcases hcases j b hb with ⟨hj, -⟩ | ⟨-, hid'⟩
      · exact absurd (hi.trans hj.symm) hij
      · omega
    · rcases hcases j b hb with ⟨-, hid'⟩ | ⟨holdb, -⟩
      · omega
      · exact h.distinct i j hij a holda b holdb
  · exact Nat.lt_succ_of_lt (h.below call hcall)

theorem Numbered.write (h : Numbered c next written) (hpc : c.running.pc = .writing call v)
    (status : Nat) : Numbered (c.goOn ⟨.marking call v, status⟩) next (written ++ [call]) := by
  have hcall : call ∈ (c.contexts c.current).pc.pending := by
    show call ∈ c.running.pc.pending
    rw [hpc]
    rfl
  have hids : (written ++ [call]).map (·.id) = written.map (·.id) ++ [call.id] := List.map_append
  have hold : Numbered (c.goOn ⟨.marking call v, status⟩) next written := h.goOn (.inl rfl)
  obtain ⟨hlt, hnew⟩ := h.pending _ call hcall
  refine ⟨fun i a ha => ?_, hold.distinct, fun a ha => ?_, ?_⟩
  · obtain ⟨halt, hafresh⟩ := hold.pending i a ha
    refine ⟨halt, ?_⟩
    rw [hids, List.mem_append, List.mem_singleton]
    rintro (hmem | hid)
    · exact hafresh hmem
    · -- the other contexts have other calls
      by_cases hi : i = c.current
      · subst hi
        rw [Cpu.contexts_goOn_current] at ha
        cases ha
      · rw [Cpu.contexts_goOn hi] at ha
        exact h.distinct i _ hi a ha call hcall hid
  · rcases List.mem_append.mp ha with ha | ha
    · exact h.below a ha
    · exact List.mem_singleton.mp ha ▸ hlt
  · rw [hids]
    refine List.nodup_append.mpr ⟨h.nodup, List.nodup_singleton _, fun a ha b hb hab => ?_⟩
    exact hnew (List.mem_singleton.mp hb ▸ hab ▸ ha)

theorem Numbered.step (h : Numbered s.cpu s.next s.written) (hst : Stepped s a t) :
    Numbered t.cpu t.next t.written := by
  cases hst with
  | call => exact h.enter _ _
  | save hpc => exact h.goOn (.inr (by rw [hpc]; rfl))
  | disable hpc => exact h.goOn (.inr (by rw [hpc]; rfl))
  | full hpc => exact h.goOn (.inr (by rw [hpc]; rfl))
  | empty hpc => exact h.goOn (.inr (by rw [hpc]; rfl))
  | retry hpc => exact h.goOn (.inr (by rw [hpc]; rfl))
  | write hpc => exact h.write hpc _
  | mark => exact h.goOn (.inl rfl)
  | leave => exact h.goOn (.inl rfl)
  | setStatus => exact h.goOn (.inl rfl)
  | switch => exact ⟨h.pending, h.distinct, h.below, h.nodup⟩
  | io =>
    obtain ⟨hcpu, hnext, hwritten, -⟩ := ioThread_frame s
    rw [hcpu, hnext, hwritten]
    exact h

theorem Pc.isMarking_of_writes (h : pc.writes = false) : pc.isMarking = false := by
  cases pc <;> first | rfl | cases h

theorem Pc.writes_of_critical (h : pc.critical = false) : pc.writes = false := by
  cases pc <;> first | rfl | cases h

/-- The mailbox, and a call that is about to return has written its character. -/
structure Sys.Exchange (s : Sys) : Prop where
  phase : s.Phase
  leaving : ∀ call status, s.cpu.running.pc = .leaving call status → call ∈ s.written

theorem Sys.Phase.away {completed : List Call} (h : s.Phase)
    (hold : s.cpu.running.pc.isMarking = false) (hnew : c.running.pc.writes = false)
    (hcompleted : s.completed ⊆ s.written → completed ⊆ s.written) :
    Sys.Phase { s with cpu := c, next := next, completed := completed } := by
  cases h with
  | empty h0 hiop hprinted hc _ =>
    exact .empty h0 hiop hprinted (hcompleted hc) (Pc.isMarking_of_writes hnew)
  | half old call status _ _ _ _ _ _ hpc =>
    rw [hpc] at hold
    cases hold
  | full old call h0 hiop hprinted hc hwritten h1 _ =>
    exact .full old call h0 hiop hprinted (hcompleted hc) hwritten h1 hnew
  | spent h0 hiop hprinted hc _ => exact .spent h0 hiop hprinted (hcompleted hc) hnew

/-- Neither the mailbox nor the list of calls that have returned is about to be written. -/
def Pc.quiet (pc : Pc) : Bool := !pc.writes && match pc with
  | .leaving .. => false
  | _ => true

theorem Pc.quiet_of_critical (h : pc.critical = false) : pc.quiet = true := by
  cases pc <;> first | rfl | cases h

theorem Sys.Exchange.away {completed : List Call} (h : s.Exchange)
    (hold : s.cpu.running.pc.isMarking = false) (hnew : c.running.pc.quiet = true)
    (hcompleted : s.completed ⊆ s.written → completed ⊆ s.written) :
    Sys.Exchange { s with cpu := c, next := next, completed := completed } := by
  have hwrites : c.running.pc.writes = false := by
    have hnot := (Bool.and_eq_true_iff.mp hnew).1
    rw [Bool.not_eq_true'] at hnot
    exact hnot
  refine ⟨h.phase.away hold hwrites hcompleted, fun call status hpc => ?_⟩
  have hpc : c.running.pc = .leaving call status := hpc
  rw [hpc] at hnew
  cases hnew

theorem Sys.Exchange.goOn (h : s.Exchange) (hold : s.cpu.running.pc.isMarking = false)
    (hnew : pc.quiet = true) (status next : Nat) :
    Sys.Exchange { s with cpu := s.cpu.goOn ⟨pc, status⟩, next := next } :=
  h.away hold (by rw [Cpu.running_goOn]; exact hnew) id

theorem Sys.Exchange.find (h : s.Exchange) (hpc : s.cpu.running.pc = .reading call v)
    (h0 : s.shared0 = 0) :
    Sys.Exchange (s.goto (.writing call v) s.cpu.running.status) := by
  have hnew : (s.goto (.writing call v) s.cpu.running.status).cpu.running.pc = .writing call v :=
    congrArg Ctx.pc (Cpu.running_goOn _ _)
  refine ⟨?_, fun call' status hpc' => ?_⟩
  · cases h.phase with
    | empty _ hiop hprinted hc _ => exact .empty h0 hiop hprinted hc (by rw [hnew]; rfl)
    | half _ _ _ _ _ _ _ _ _ hpc' => cases hpc.symm.trans hpc'
    | full _ _ hne => exact absurd h0 hne
    | spent hne => exact absurd h0 hne
  · cases hnew.symm.trans hpc'

theorem Sys.Exchange.write (h : s.Exchange) (hpc : s.cpu.running.pc = .writing call v) :
    Sys.Exchange ({ s with shared1 := call.char, written := s.written ++ [call] }.goto
      (.marking call v) s.cpu.running.status) := by
  refine ⟨?_, fun call' status hpc' => ?_⟩
  · cases h.phase with
    | empty h0 hiop hprinted hc _ =>
      exact .half s.written call v h0 hiop hprinted hc rfl rfl
        (congrArg Ctx.pc (Cpu.running_goOn _ _))
    | half _ _ _ _ _ _ _ _ _ hpc' => cases hpc.symm.trans hpc'
    | full _ _ _ _ _ _ _ _ hw =>
      rw [hpc] at hw
      cases hw
    | spent _ _ _ _ hw =>
      rw [hpc] at hw
      cases hw
  · cases (congrArg Ctx.pc (Cpu.running_goOn _ _)).symm.trans hpc'

theorem Sys.Exchange.mark (h : s.Exchange) (hpc : s.cpu.running.pc = .marking call v) :
    Sys.Exchange ({ s with shared0 := 0xff }.goto (.leaving call v) s.cpu.running.status) := by
  have hnew (c : Cpu Ctx) (x : Ctx) : (c.goOn x).running.pc = x.pc :=
    congrArg Ctx.pc (Cpu.running_goOn x c)
  have hne : (0xff : UInt8) ≠ 0 := by decide
  cases h.phase with
  | empty _ _ _ _ hm =>
    rw [hpc] at hm
    cases hm
  | half old call' status _ hiop hprinted hc hwritten h1 hpc' =>
    obtain ⟨rfl, rfl⟩ := Pc.marking.inj (hpc.symm.trans hpc')
    have hsub : s.completed ⊆ s.written := by
      rw [hwritten]
      exact List.subset_append_of_subset_left _ hc
    refine ⟨.full old call hne (.inl hiop) hprinted hsub hwritten h1 ?_,
      fun call' status hpc' => ?_⟩
    · exact congrArg Pc.writes (hnew _ _)
    · obtain ⟨rfl, -⟩ := Pc.leaving.inj ((hnew _ _).symm.trans hpc')
      show call ∈ s.written
      rw [hwritten]
      exact List.mem_append_right _ List.mem_cons_self
  | full _ _ _ _ _ _ _ _ hw =>
    rw [hpc] at hw
    cases hw
  | spent _ _ _ _ hw =>
    rw [hpc] at hw
    cases hw

theorem Sys.Phase.ioThread (h : s.Phase) : (ioThread s).Phase := by
  cases h with
  | empty h0 hiop hprinted hc hm =>
    rw [Mailbox.ioThread, hiop]
    simp only [h0, if_true]
    exact .empty h0 hiop hprinted hc hm
  | half old call status h0 hiop hprinted hc hwritten h1 hpc =>
    rw [Mailbox.ioThread, hiop]
    simp only [h0, if_true]
    exact .half old call status h0 hiop hprinted hc hwritten h1 hpc
  | full old call h0 hiop hprinted hc hwritten h1 hw =>
    rcases hiop with hiop | hiop | hiop
    · rw [Mailbox.ioThread, hiop]
      simp only [h0, if_false]
      exact .full old call h0 (.inr (.inl rfl)) hprinted hc hwritten h1 hw
    · rw [Mailbox.ioThread, hiop]
      exact .full old call h0 (.inr (.inr (congrArg _ h1))) hprinted hc hwritten h1 hw
    · rw [Mailbox.ioThread, hiop]
      refine .spent h0 rfl ?_ hc hw
      show s.printed ++ [call.char] = s.written.map (·.char)
      rw [hprinted, hwritten, List.map_append]
      rfl
  | spent h0 hiop hprinted hc hw =>
    rw [Mailbox.ioThread, hiop]
    exact .empty rfl rfl hprinted hc (Pc.isMarking_of_writes hw)

theorem Sys.Exchange.ioThread (h : s.Exchange) : (ioThread s).Exchange := by
  obtain ⟨hcpu, -, hwritten, -⟩ := ioThread_frame s
  refine ⟨h.phase.ioThread, ?_⟩
  rw [hcpu, hwritten]
  exact h.leaving

theorem Sys.Exchange.step (h : s.Exchange) (hg : Guarded s.cpu) (hst : Stepped s a t) :
    t.Exchange := by
  cases hst with
  | call hpc => exact h.goOn (by rw [hpc]; rfl) rfl _ _
  | save hpc => exact h.goOn (by rw [hpc]; rfl) rfl _ _
  | disable hpc => exact h.goOn (by rw [hpc]; rfl) rfl _ _
  | full hpc => exact h.goOn (by rw [hpc]; rfl) rfl _ _
  | empty hpc h0 => exact h.find hpc h0
  | retry hpc => exact h.goOn (by rw [hpc]; rfl) rfl _ _
  | write hpc => exact h.write hpc
  | mark hpc => exact h.mark hpc
  | @leave v call hpc =>
    refine h.away (by rw [hpc]; rfl) (by rw [Cpu.running_goOn]; rfl) fun hc => ?_
    exact List.append_subset.mpr ⟨hc, by simpa using h.leaving call v hpc⟩
  | setStatus hpc => exact h.goOn (by rw [hpc]; rfl) rfl _ _
  | @switch i hp =>
    have hold := hg.not_critical (i := s.cpu.current) hp
    have hnext : (s.cpu.switch i).running.pc.critical = false :=
      hg.not_critical (hg.parked.running_switch hp i)
    exact h.away (Pc.isMarking_of_writes (Pc.writes_of_critical hold))
      (Pc.quiet_of_critical hnext) id
  | io => exact h.ioThread

structure Sys.Inv (s : Sys) : Prop where
  guarded : Guarded s.cpu
  numbered : Numbered s.cpu s.next s.written
  exchange : s.Exchange

theorem Sys.Inv.step (h : s.Inv) (hst : step s a = some t) : t.Inv :=
  have hst := step_stepped hst
  ⟨h.guarded.step hst, h.numbered.step hst, h.exchange.step h.guarded hst⟩

theorem Sys.Start.inv (h : s.Start) : s.Inv := by
  have hpc : s.cpu.running.pc = .outside := h.outside s.cpu.current
  refine ⟨⟨fun i hcrit => ?_, fun i _ => .inl (h.outside i)⟩, ⟨fun i call hcall => ?_, ?_, ?_, ?_⟩,
    ⟨?_, fun call status hpc' => ?_⟩⟩
  · rw [h.outside i] at hcrit
    cases hcrit
  · rw [h.outside i] at hcall
    cases hcall
  · intro i j _ a ha
    rw [h.outside i] at ha
    cases ha
  · simp [h.written]
  · simp [h.written]
  · refine .empty h.shared0 h.iop ?_ ?_ (by rw [hpc]; rfl)
    · rw [h.printed, h.written]
      rfl
    · rw [h.completed]
      exact List.nil_subset _
  · cases hpc.symm.trans hpc'

/-- How many steps the IOP needs to print a character that was marked. -/
def IoThread.due : IoThread → Nat
  | .waiting => 3
  | .received => 2
  | .printing _ => 1
  | .clearing => 0

/-- The calls are among those whose characters were printed, or their characters will have been
after `n` more steps of the IOP. -/
def Sys.Served (calls : List Call) (n : Nat) (s : Sys) : Prop :=
  calls ⊆ s.written.take s.printed.length ∨
    calls ⊆ s.written ∧ s.shared0 ≠ 0 ∧ 0 < s.iop.due ∧ s.iop.due ≤ n

theorem Sys.Inv.served (h : s.Inv) : s.Served s.completed 3 := by
  have hprinted {l : List Call} (hl : s.printed = l.map (·.char)) :
      s.printed.length = l.length := by
    rw [hl, List.length_map]
  cases h.exchange.phase with
  | empty _ _ hl hc _ =>
    left
    rw [hprinted hl, List.take_length]
    exact hc
  | half old call _ _ _ hl hc hwritten _ _ =>
    left
    rw [hprinted hl, hwritten, List.take_left]
    exact hc
  | full old call h0 hiop _ hc _ _ _ =>
    refine .inr ⟨hc, h0, ?_⟩
    rcases hiop with hiop | hiop | hiop <;> simp [hiop, IoThread.due]
  | spent _ _ hl hc _ =>
    left
    rw [hprinted hl, List.take_length]
    exact hc

theorem Stepped.grows (hst : Stepped s a t) :
    s.written <+: t.written ∧ s.printed <+: t.printed := by
  cases hst with
  | write => exact ⟨List.prefix_append _ _, List.prefix_rfl⟩
  | io =>
    rw [(ioThread_frame s).2.2.1]
    refine ⟨List.prefix_rfl, ?_⟩
    unfold ioThread
    split
    · split <;> exact List.prefix_rfl
    · exact List.prefix_rfl
    · exact List.prefix_append _ _
    · exact List.prefix_rfl
  | _ => exact ⟨List.prefix_rfl, List.prefix_rfl⟩

theorem Stepped.printed_stay {calls : List Call} (hst : Stepped s a t)
    (h : calls ⊆ s.written.take s.printed.length) : calls ⊆ t.written.take t.printed.length := by
  obtain ⟨hwritten, hprinted⟩ := hst.grows
  intro call hcall
  exact List.take_subset_take_left _ hprinted.length_le ((hwritten.take _).subset (h hcall))

theorem Stepped.keeps_mark (hst : Stepped s a t) (ha : a ≠ .io) (h0 : s.shared0 ≠ 0) :
    t.shared0 ≠ 0 ∧ t.iop = s.iop := by
  cases hst with
  | mark => exact ⟨by show (0xff : UInt8) ≠ 0; decide, rfl⟩
  | io => exact absurd rfl ha
  | _ => exact ⟨h0, rfl⟩

theorem Sys.Served.step {calls : List Call} (h : s.Served calls n) (hinv : s.Inv)
    (hst : step s a = some t) : t.Served calls (n - if a = .io then 1 else 0) := by
  have hstepped := step_stepped hst
  rcases h with hprinted | ⟨hcalls, h0, hpos, hdue⟩
  · exact .inl (hstepped.printed_stay hprinted)
  by_cases ha : a = .io
  · subst ha
    obtain rfl : ioThread s = t := Option.some.inj hst
    have hwritten := (ioThread_frame s).2.2.1
    rw [if_pos rfl]
    cases hiop : s.iop with
    | waiting =>
      rw [hiop] at hdue
      right
      rw [hwritten, ioThread, hiop]
      simp only [h0, if_false]
      exact ⟨hcalls, h0, by decide, by simp only [IoThread.due] at hdue ⊢; omega⟩
    | received =>
      rw [hiop] at hdue
      right
      rw [hwritten, ioThread, hiop]
      exact ⟨hcalls, h0, Nat.one_pos, by simp only [IoThread.due] at hdue ⊢; omega⟩
    | printing char =>
      -- the character is that of the last call
      left
      cases hinv.exchange.phase with
      | empty hz => exact absurd hz h0
      | half _ _ _ hz => exact absurd hz h0
      | spent _ hclear => cases hiop.symm.trans hclear
      | full old call _ _ hl _ hw _ _ =>
        rw [hwritten, ioThread, hiop]
        show calls ⊆ s.written.take (s.printed ++ [char]).length
        have hlength : (s.printed ++ [char]).length = s.written.length := by
          rw [hl, hw, List.length_append, List.length_append, List.length_map]
          rfl
        rw [hlength, List.take_length]
        exact hcalls
    | clearing =>
      rw [hiop] at hpos
      cases hpos
  · obtain ⟨hmark, hiop⟩ := hstepped.keeps_mark ha h0
    rw [if_neg ha]
    refine .inr ⟨fun call hcall => hstepped.grows.1.subset (hcalls hcall), hmark, ?_⟩
    rw [hiop]
    exact ⟨hpos, hdue⟩

theorem Sys.Served.run {calls : List Call} {as : List Act} (h : s.Served calls n) (hinv : s.Inv)
    (hrun : runAll Mailbox.step s as = some t) : t.Served calls (n - as.count .io) := by
  induction as generalizing s n with
  | nil =>
    obtain rfl := Option.some.inj hrun
    exact h
  | cons a as ih =>
    obtain ⟨s', hst, hrest⟩ := Option.bind_eq_some_iff.mp hrun
    have hnext := ih (h.step hinv hst) (hinv.step hst) hrest
    rw [Nat.sub_sub] at hnext
    rw [List.count_cons]
    simp only [beq_iff_eq]
    rw [Nat.add_comm]
    exact hnext

/-- Only a call that finds the mailbox empty writes to it. -/
theorem Stepped.writes (hst : Stepped s a t) (hinv : s.Inv)
    (h : t.written ≠ s.written ∨ t.shared1 ≠ s.shared1) :
    s.printed = s.written.map (·.char) := by
  cases hst with
  | write hpc =>
    cases hinv.exchange.phase with
    | empty _ _ hl _ _ => exact hl
    | half _ _ _ _ _ _ _ _ _ hpc' => cases hpc.symm.trans hpc'
    | full _ _ _ _ _ _ _ _ hw =>
      rw [hpc] at hw
      cases hw
    | spent _ _ hl _ _ => exact hl
  | io =>
    obtain ⟨-, -, hwritten, -, h1⟩ := ioThread_frame s
    exact absurd h (not_or.mpr ⟨not_not.mpr hwritten, not_not.mpr h1⟩)
  | _ => exact absurd h (not_or.mpr ⟨not_not.mpr rfl, not_not.mpr rfl⟩)

theorem Sys.Inv.printed_eq (h : s.Inv) :
    s.printed = (s.written.take s.printed.length).map (·.char) := by
  have hall {l : List Call} (hl : s.printed = l.map (·.char)) (hpre : l <+: s.written) :
      s.printed = (s.written.take s.printed.length).map (·.char) := by
    have hlength : s.printed.length = l.length := by rw [hl, List.length_map]
    rw [hlength, ← List.prefix_iff_eq_take.mp hpre]
    exact hl
  cases h.exchange.phase with
  | empty _ _ hl _ _ => exact hall hl List.prefix_rfl
  | half _ _ _ _ _ hl _ hw _ _ => exact hall hl (hw ▸ List.prefix_append _ _)
  | full _ _ _ _ hl _ hw _ _ => exact hall hl (hw ▸ List.prefix_append _ _)
  | spent _ _ hl _ _ => exact hall hl List.prefix_rfl

theorem Sys.Inv.completed_written (h : s.Inv) : s.completed ⊆ s.written := by
  cases h.exchange.phase with
  | empty _ _ _ hc _ => exact hc
  | half _ _ _ _ _ _ hc hw _ _ => exact hw ▸ List.subset_append_of_subset_left _ hc
  | full _ _ _ _ _ hc _ _ _ => exact hc
  | spent _ _ _ hc _ => exact hc

/-- In every interleaving: the IOP prints the characters in the order in which they were written, a
call writes only one, and only when all before were printed; and when the IOP has taken three more
steps, the character of every call that has returned was printed exactly once. -/
theorem mailbox_delivers {start : Sys} {as : List Act} (h0 : start.Start)
    (h : runAll step start as = some s) :
    s.printed = (s.written.take s.printed.length).map (·.char) ∧
    (s.written.map (·.id)).Nodup ∧ s.completed ⊆ s.written ∧
    (∀ a t, step s a = some t → t.written ≠ s.written ∨ t.shared1 ≠ s.shared1 →
      s.printed = s.written.map (·.char)) ∧
    ∀ bs t, runAll step s bs = some t → 3 ≤ bs.count .io →
      ∀ call ∈ s.completed, (t.written.take t.printed.length).count call = 1 := by
  have hkeep : ∀ s a t, s.Inv → step s a = some t → t.Inv := fun _ _ _ hs => hs.step
  have hinv : s.Inv := runAll_invariant hkeep h0.inv h
  refine ⟨hinv.printed_eq, hinv.numbered.nodup, hinv.completed_written,
    fun a t hst hwrites => (step_stepped hst).writes hinv hwrites, ?_⟩
  intro bs t hrun hcount call hcall
  have hnodup : t.written.Nodup := (runAll_invariant hkeep hinv hrun).numbered.nodup.of_map
  apply List.count_eq_one_of_mem (hnodup.sublist (List.take_sublist _ _))
  rcases hinv.served.run hinv hrun with hprinted | ⟨-, -, hpos, hdue⟩
  · exact hprinted hcall
  · omega

/-- Interrupts are enabled and nothing was written yet. -/
def emptyMailbox : Sys :=
  ⟨⟨fun _ => ⟨.outside, 0x10001⟩, 0⟩, 0, 0, .waiting, 0, [], [], []⟩

/-- A call is interrupted by another one before it has disabled interrupts. -/
def nestedCalls : List Act :=
  [.call 65, .putc, .switch 1, .call 66] ++ List.replicate 6 .putc ++ List.replicate 4 .io ++
    .switch 0 :: List.replicate 5 .putc

theorem mailbox_delivers_nested :
    ∃ s t, runAll step emptyMailbox nestedCalls = some s ∧
      s.completed = [⟨1, 66⟩, ⟨0, 65⟩] ∧ runAll step s [.io, .io, .io] = some t ∧
        t.printed = [66, 65] ∧
        ∀ call ∈ s.completed, (t.written.take t.printed.length).count call = 1 := by
  have hstart : emptyMailbox.Start := ⟨fun _ => rfl, rfl, rfl, rfl, rfl, rfl⟩
  have hdelivers := mailbox_delivers hstart
    (show runAll step emptyMailbox nestedCalls = some _ from rfl)
  exact ⟨_, _, rfl, rfl, rfl, rfl, hdelivers.2.2.2.2 [.io, .io, .io] _ rfl (by decide)⟩

end KernelLoader.Tge.Mailbox
