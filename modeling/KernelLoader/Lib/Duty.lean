import KernelLoader.Lib.Owned

namespace Lib.Async
open Lib
set_option autoImplicit true
set_option relaxedAutoImplicit false

section Contract
variable (special : Prog σ μ ρ → Prop) (tells : ρ → Prop)

/-- Code that keeps the contract with the caller, for a call (`reply` is false) or for a completion.
If it `owes`, nothing was done yet: the caller is told, or a request is sent whose completion will
do that, which `tells` says, or, in a call, an error is returned. Afterwards a call returns zero. At
the `special` points of a call the contract is not kept in every state. -/
inductive Prog.Meets : Prog σ μ ρ → (reply owes : Bool) → Prop
  | special : special p → Meets p false true
  | failed : r < 0 → Meets (.ret r) false true
  | done : Meets (.ret 0) false false
  | replied : Meets (.ret r) true false
  | act : Meets k a b → Meets (.act f k) a b
  | read : (∀ x, Meets (k x) a b) → Meets (.read v k) a b
  | input : (∀ x, Meets (k x) a b) → Meets (.input k) a b
  | lock : Meets (k true) a b → Meets (k false) a b → Meets (.lock m v k) a b
  | unlock : Meets k a b → Meets (.unlock m k) a b
  | request : (∀ s, tells (q s)) → Meets (k true) a false → Meets (k false) a true →
      Meets (.request q k) a true
  | notify : Meets k a false → Meets (.notify r k) a true

/-- The contract is kept by the statement that comes next, in the state it is executed in. -/
inductive Prog.Ready (s : Sys σ μ ρ τ) (ch : Choice) : Prog σ μ ρ → (reply owes : Bool) → Prop
  | failed : r < 0 → Ready s ch (.ret r) false true
  | done : Ready s ch (.ret 0) false false
  | replied : Ready s ch (.ret r) true false
  | act : k.Meets special tells a b → Ready s ch (.act f k) a b
  | read : (k (v s.vars)).Meets special tells a b → Ready s ch (.read v k) a b
  | input : (k ch.input).Meets special tells a b → Ready s ch (.input k) a b
  | lock : (s.locks m = 0 → (k true).Meets special tells a b) →
      (s.locks m ≠ 0 → (k false).Meets special tells a b) → Ready s ch (.lock m v k) a b
  | unlock : k.Meets special tells a b → Ready s ch (.unlock m k) a b
  | request : (∀ s, tells (q s)) → (k true).Meets special tells a false →
      (k false).Meets special tells a true → Ready s ch (.request q k) a true
  | notify : k.Meets special tells a false → Ready s ch (.notify r k) a true

end Contract

section Code
variable {special : Prog σ μ ρ → Prop} {tells : ρ → Prop} {p p' : Prog σ μ ρ}

theorem Prog.Meets.ite {b : Prop} [Decidable b] (h : p.Meets special tells a o)
    (h' : p'.Meets special tells a o) : (if b then p else p').Meets special tells a o := by
  split
  · exact h
  · exact h'

theorem Prog.Meets.acts (fs : List (σ → σ)) (h : p.Meets special tells a o) :
    (Prog.acts fs p).Meets special tells a o := by
  induction fs with
  | nil => exact h
  | cons f fs ih => exact .act ih

theorem Prog.Meets.ready (h : p.Meets special tells a o) (s : Sys σ μ ρ τ) (ch : Choice) :
    (special p ∧ a = false ∧ o = true) ∨ p.Ready special tells s ch a o := by
  cases h with
  | special hp => exact .inl ⟨hp, rfl, rfl⟩
  | failed hr => exact .inr (.failed hr)
  | done => exact .inr .done
  | replied => exact .inr .replied
  | act hk => exact .inr (.act hk)
  | read hk => exact .inr (.read (hk _))
  | input hk => exact .inr (.input (hk _))
  | lock ht hf => exact .inr (.lock (fun _ => ht) fun _ => hf)
  | unlock hk => exact .inr (.unlock hk)
  | request hq ht hf => exact .inr (.request hq ht hf)
  | notify hk => exact .inr (.notify hk)

theorem Prog.Ready.quiet {s : Sys σ μ ρ τ} {ch : Choice} {vars : σ}
    (h : p.Ready special tells s ch a o) (hq : Quiet s ch p p' vars) :
    p'.Meets special tells a o := by
  cases hq with
  | act => cases h; assumption
  | read => cases h; assumption
  | input => cases h; assumption
  | busy hm =>
    cases h with
    | lock _ hf => exact hf hm
  | refused => cases h; assumption

end Code

/-- The calls whose caller this context has to tell. -/
def Context.duty (c : Context σ μ ρ τ) : Finset Nat := if c.owes then {c.id} else ∅

def Message.duty (e : Message μ ρ τ) : Finset Nat := if e.owes then {e.id} else ∅

/-- The call this context runs the body of. -/
def Context.started (c : Context σ μ ρ τ) : Finset Nat := if c.reply then ∅ else {c.id}

/-- The caller is not told yet, and has not got an error. -/
def Sys.Open (s : Sys σ μ ρ τ) (i : Nat) : Prop :=
  i < s.next ∧ (s.outcomes i).notified = 0 ∧
    ((s.outcomes i).returned = none ∨ (s.outcomes i).returned = some 0)

def Sys.Unreturned (s : Sys σ μ ρ τ) (i : Nat) : Prop :=
  i < s.next ∧ (s.outcomes i).returned = none

/-- The request of the call is on its way, or its completion is being handled. -/
def Sys.Pending (s : Sys σ μ ρ τ) (i : Nat) : Prop :=
  (∃ w e, s.wire w = some e ∧ e.id = i) ∨ ∃ t c, s.contexts t = some c ∧ c.id = i ∧ c.reply

/-- The contract with the callers: nobody is told twice; if a call returned zero, its caller is told
once, now or when what is pending ends; if it returned something else, that is negative and the
caller is not told. -/
structure Sys.Fulfilled (s : Sys σ μ ρ τ) : Prop where
  once : ∀ i, (s.outcomes i).notified ≤ 1
  success : ∀ i, (s.outcomes i).returned = some 0 → (s.outcomes i).notified = 1 ∨ s.Pending i
  failure : ∀ i r, (s.outcomes i).returned = some r → r ≠ 0 → r < 0 ∧ (s.outcomes i).notified = 0

/-- The duty to tell a caller is with one context or request as long as it is open. -/
structure Sys.Dutiful (special : τ → Prog σ μ ρ → Prop) (tells : ρ → Prop) (s : Sys σ μ ρ τ) :
    Prop where
  duty : Owned s.Open (s.holdings Context.duty Message.duty)
  bodies : Owned s.Unreturned (s.holdings Context.started fun _ => ∅)
  code : s.All (fun c => c.prog.Meets (special c.call) tells c.reply c.owes)
    (fun e => e.owes = true ∧ tells e.request)
  fresh : ∀ i, s.next ≤ i → s.outcomes i = ⟨none, 0⟩
  once : ∀ i, (s.outcomes i).notified ≤ 1
  failure : ∀ i r, (s.outcomes i).returned = some r → r ≠ 0 → r < 0 ∧ (s.outcomes i).notified = 0

theorem Sys.open_congr {s s' : Sys σ μ ρ τ} (ho : s'.outcomes i = s.outcomes i)
    (hn : s'.next = s.next) : s'.Open i ↔ s.Open i := by
  rw [Open, Open, hn, ho]

theorem Sys.unreturned_congr {s s' : Sys σ μ ρ τ}
    (ho : (s'.outcomes i).returned = (s.outcomes i).returned) (hn : s'.next = s.next) :
    s'.Unreturned i ↔ s.Unreturned i := by
  rw [Unreturned, Unreturned, hn, ho]

theorem Sys.open_return_zero {s : Sys σ μ ρ τ} (h : s.Unreturned i) :
    (s.setOutcome i { s.outcomes i with returned := some 0 }).Open i ↔ s.Open i := by
  simp [Open, setOutcome, h.2]

section Runs
variable {special : τ → Prog σ μ ρ → Prop} {tells : ρ → Prop} {d : Driver σ μ ρ τ}
variable {s s' : Sys σ μ ρ τ} {c : Context σ μ ρ τ} {t : Nat}

theorem Sys.Dutiful.idle (vars : σ) : (Sys.idle vars : Sys σ μ ρ τ).Dutiful special tells where
  duty := by
    rw [Sys.holdings_idle]
    exact Owned.empty.congr fun i => by simp [Sys.Open, Sys.idle]
  bodies := by
    rw [Sys.holdings_idle]
    exact Owned.empty.congr fun i => by simp [Sys.Unreturned, Sys.idle]
  code := .idle vars
  fresh := fun _ _ => rfl
  once := fun _ => Nat.zero_le 1
  failure := fun _ _ h => (nomatch h)

/-- The contract follows: an open call that returned zero has somebody with the duty. -/
theorem Sys.Dutiful.fulfilled (h : s.Dutiful special tells) : s.Fulfilled where
  once := h.once
  failure := h.failure
  success := by
    intro i hi
    have hle : (s.outcomes i).notified ≤ 1 := h.once i
    by_cases htold : (s.outcomes i).notified = 1
    · exact .inl htold
    refine .inr ?_
    have hnext : i < s.next := by
      by_contra hge
      rw [h.fresh i (not_lt.mp hge)] at hi
      cases hi
    obtain ⟨o, ho⟩ := (h.duty.taken_iff i).mp ⟨hnext, by omega, .inr hi⟩
    cases o with
    | message w =>
      cases hw : s.wire w with
      | none =>
        rw [Sys.holdings_no_message hw] at ho
        exact absurd ho (Finset.notMem_empty i)
      | some e =>
        rw [Sys.holdings_message hw, Message.duty] at ho
        split_ifs at ho
        · exact .inl ⟨w, e, hw, (Finset.mem_singleton.mp ho).symm⟩
        · exact absurd ho (Finset.notMem_empty i)
    | context t =>
      cases hc : s.contexts t with
      | none =>
        rw [Sys.holdings_no_context hc] at ho
        exact absurd ho (Finset.notMem_empty i)
      | some c =>
        rw [Sys.holdings_context hc, Context.duty] at ho
        split_ifs at ho
        · have hid : i = c.id := Finset.mem_singleton.mp ho
          refine .inr ⟨t, c, hc, hid.symm, ?_⟩
          -- a body that still runs has not returned
          by_contra hreply
          have hmem : i ∈ s.holdings Context.started (fun _ => ∅) (.context t) := by
            rw [Sys.holdings_context hc, Context.started, if_neg hreply]
            exact ho
          have hnone := ((h.bodies.taken_iff i).mpr ⟨_, hmem⟩).2
          rw [hi] at hnone
          cases hnone
        · exact absurd ho (Finset.notMem_empty i)

theorem Sys.Dutiful.quiet (h : s.Dutiful special tells) (hnext : s'.next = s.next)
    (houtcomes : s'.outcomes = s.outcomes)
    (hduty : Owned s.Open (s'.holdings Context.duty Message.duty))
    (hbodies : Owned s.Unreturned (s'.holdings Context.started fun _ => ∅))
    (hcode : s'.All (fun c => c.prog.Meets (special c.call) tells c.reply c.owes)
      (fun e => e.owes = true ∧ tells e.request)) :
    s'.Dutiful special tells where
  duty := hduty.congr fun i => Sys.open_congr (by rw [houtcomes]) hnext
  bodies := hbodies.congr fun i => Sys.unreturned_congr (by rw [houtcomes]) hnext
  code := hcode
  fresh := by
    rw [hnext, houtcomes]
    exact h.fresh
  once := by
    rw [houtcomes]
    exact h.once
  failure := by
    rw [houtcomes]
    exact h.failure

theorem Sys.Dutiful.goOn (h : s.Dutiful special tells) (hc : s.contexts t = some c)
    (hc' : s'.contexts = Function.update s.contexts t (some c')) (hw : s'.wire = s.wire)
    (hnext : s'.next = s.next) (houtcomes : s'.outcomes = s.outcomes) (hcall : c'.call = c.call)
    (hid : c'.id = c.id) (hreply : c'.reply = c.reply) (howes : c'.owes = c.owes)
    (hmeets : c'.prog.Meets (special c.call) tells c.reply c.owes) : s'.Dutiful special tells := by
  refine h.quiet hnext houtcomes ?_ ?_ ?_
  · refine h.duty.keep hc' hw ?_ fun _ => Iff.rfl
    rw [Sys.holdings_context hc, Option.map_some, Option.getD_some, Context.duty, Context.duty,
      hid, howes]
  · refine h.bodies.keep hc' hw ?_ fun _ => Iff.rfl
    rw [Sys.holdings_context hc, Option.map_some, Option.getD_some, Context.started,
      Context.started, hid, hreply]
  · refine h.code.update hc' hw fun c₁ hc₁ => ?_
    cases hc₁
    rw [hcall, hreply, howes]
    exact hmeets

theorem Sys.Dutiful.open_of_owes (h : s.Dutiful special tells) (hc : s.contexts t = some c)
    (howes : c.owes = true) : c.id ∈ s.holdings Context.duty Message.duty (.context t) ∧
      s.Open c.id := by
  have hmem : c.id ∈ s.holdings Context.duty Message.duty (.context t) := by
    rw [Sys.holdings_context hc, Context.duty, if_pos howes]
    exact Finset.mem_singleton_self _
  exact ⟨hmem, (h.duty.taken_iff _).mpr ⟨_, hmem⟩⟩

theorem Sys.Dutiful.settle (h : s.Dutiful special tells) {o : Outcome} (hlt : i < s.next)
    (hnext : s'.next = s.next) (houtcomes : s'.outcomes = Function.update s.outcomes i o)
    (honce : o.notified ≤ 1)
    (hfailure : ∀ r, o.returned = some r → r ≠ 0 → r < 0 ∧ o.notified = 0)
    (hduty : Owned s'.Open (s'.holdings Context.duty Message.duty))
    (hbodies : Owned s'.Unreturned (s'.holdings Context.started fun _ => ∅))
    (hcode : s'.All (fun c => c.prog.Meets (special c.call) tells c.reply c.owes)
      (fun e => e.owes = true ∧ tells e.request)) :
    s'.Dutiful special tells where
  duty := hduty
  bodies := hbodies
  code := hcode
  fresh := by
    intro j hj
    rw [hnext] at hj
    have hne : j ≠ i := by omega
    rw [houtcomes, Function.update_of_ne hne]
    exact h.fresh j hj
  once := by
    intro j
    rw [houtcomes]
    rcases eq_or_ne j i with rfl | hne
    · rw [Function.update_self]
      exact honce
    · rw [Function.update_of_ne hne]
      exact h.once j
  failure := by
    intro j
    rw [houtcomes]
    rcases eq_or_ne j i with rfl | hne
    · rw [Function.update_self]
      exact hfailure
    · rw [Function.update_of_ne hne]
      exact h.failure j

theorem Sys.Dutiful.tell (h : s.Dutiful special tells) (hc : s.contexts t = some c)
    (howes : c.owes = true) (hk : k.Meets (special c.call) tells c.reply false) :
    ((s.tell c.id).setContext t (some { c with prog := k, owes := false })).Dutiful special
      tells := by
  obtain ⟨hmem, hopen⟩ := h.open_of_owes hc howes
  have hother : ∀ i, i ≠ c.id → (s.tell c.id).outcomes i = s.outcomes i := fun i hi =>
    Function.update_of_ne hi _ _
  have houtcomes : (s.tell c.id).outcomes =
      Function.update s.outcomes c.id ⟨(s.outcomes c.id).returned, 1⟩ := by
    simp [Sys.tell, Sys.setOutcome, hopen.2.1]
  have hself : (s.tell c.id).outcomes c.id = ⟨(s.outcomes c.id).returned, 1⟩ := by
    rw [houtcomes, Function.update_self]
  refine h.settle hopen.1 rfl houtcomes le_rfl ?failure ?duty ?bodies ?code
  case failure =>
    intro r hr hne
    rcases hopen.2.2 with hnone | hzero
    · exact (nomatch hnone.symm.trans hr)
    · exact absurd (Option.some.inj (hzero.symm.trans hr)).symm hne
  case duty =>
    refine h.duty.giveUp hmem rfl rfl ?_ fun i => ?_
    · rw [Sys.holdings_context hc]
      simp [Context.duty, howes]
    · rcases eq_or_ne i c.id with rfl | hi
      · refine iff_of_false (fun ho => ?_) fun hne => hne.1 rfl
        have htold : ((s.tell c.id).outcomes c.id).notified = 0 := ho.2.1
        rw [hself] at htold
        cases htold
      · exact (Sys.open_congr (hother i hi) rfl).trans (and_iff_right hi).symm
  case bodies =>
    refine h.bodies.keep rfl rfl ?_ fun i => Sys.unreturned_congr ?_ rfl
    · rw [Sys.holdings_context hc]
      rfl
    · change ((s.tell c.id).outcomes i).returned = _
      rcases eq_or_ne i c.id with rfl | hi
      · rw [hself]
      · rw [hother i hi]
  case code =>
    refine h.code.update rfl rfl fun c' hc' => ?_
    cases hc'
    exact hk

theorem Sys.Dutiful.return (h : s.Dutiful special tells) (hc : s.contexts t = some c)
    (hreply : c.reply = false) (hr : if c.owes then r < 0 else r = 0) :
    ((s.finish c r).setContext t none).Dutiful special tells := by
  have hbody : c.id ∈ s.holdings Context.started (fun _ => ∅) (.context t) := by
    rw [Sys.holdings_context hc, Context.started, hreply]
    exact Finset.mem_singleton_self _
  have hrunning : s.Unreturned c.id := (h.bodies.taken_iff _).mpr ⟨_, hbody⟩
  have hfinish : s.finish c r = s.setOutcome c.id { s.outcomes c.id with returned := some r } := by
    simp [Sys.finish, hreply]
  rw [hfinish]
  have hother : ∀ i, i ≠ c.id →
      (s.setOutcome c.id { s.outcomes c.id with returned := some r }).outcomes i = s.outcomes i :=
    fun i hi => Function.update_of_ne hi _ _
  have hself : (s.setOutcome c.id { s.outcomes c.id with returned := some r }).outcomes c.id =
      ⟨some r, (s.outcomes c.id).notified⟩ := Function.update_self _ _ _
  refine h.settle hrunning.1 rfl rfl (h.once c.id) ?failure ?duty ?bodies ?code
  case failure =>
    intro x hx hne
    cases hx
    by_cases howes : c.owes = true
    · rw [if_pos howes] at hr
      exact ⟨hr, (h.open_of_owes hc howes).2.2.1⟩
    · rw [if_neg howes] at hr
      exact absurd hr hne
  case duty =>
    by_cases howes : c.owes = true
    · rw [if_pos howes] at hr
      obtain ⟨hmem, hopen⟩ := h.open_of_owes hc howes
      refine h.duty.giveUp hmem (p := none) rfl rfl ?_ fun i => ?_
      · rw [Sys.holdings_context hc]
        simp [Context.duty, howes]
      · rcases eq_or_ne i c.id with rfl | hi
        · refine iff_of_false (fun ho => ?_) fun hne => hne.1 rfl
          have hreturned : some r = none ∨ some r = some 0 := by
            have := ho.2.2
            simpa only [Sys.setContext, hself] using this
          simp [hr.ne] at hreturned
        · exact (Sys.open_congr (hother i hi) rfl).trans (and_iff_right hi).symm
    · rw [if_neg howes] at hr
      refine h.duty.keep (p := none) rfl rfl ?_ fun i => ?_
      · rw [Sys.holdings_context hc]
        simp [Context.duty, howes]
      · rcases eq_or_ne i c.id with rfl | hi
        · rw [hr]
          exact Sys.open_return_zero hrunning
        · exact Sys.open_congr (hother i hi) rfl
  case bodies =>
    refine h.bodies.giveUp hbody (p := none) rfl rfl ?_ fun i => ?_
    · rw [Sys.holdings_context hc]
      simp [Context.started, hreply]
    · rcases eq_or_ne i c.id with rfl | hi
      · refine iff_of_false (fun hu => ?_) fun hne => hne.1 rfl
        have hnone := hu.2
        simp only [Sys.setContext, hself] at hnone
        cases hnone
      · exact (Sys.unreturned_congr (congrArg _ (hother i hi)) rfl).trans (and_iff_right hi).symm
  case code => exact h.code.update (p := none) rfl rfl fun c' hc' => (nomatch hc')

theorem Sys.Dutiful.start (h : s.Dutiful special tells) (hc : s.contexts t = none) (call : τ)
    (hbody : (d.body call).Meets (special call) tells false true) :
    ({ s with next := s.next + 1 }.setContext t
      (some ⟨d.body call, call, s.next, false, ∅, true⟩)).Dutiful special tells := by
  have hfresh : s.outcomes s.next = ⟨none, 0⟩ := h.fresh s.next le_rfl
  have hlt : ∀ i, i < s.next + 1 ↔ i = s.next ∨ i < s.next := fun i => by omega
  constructor
  case duty =>
    refine h.duty.take (x := s.next) (fun ho => absurd ho.1 (lt_irrefl _)) rfl rfl ?_ fun i => ?_
    · rw [Sys.holdings_no_context hc]
      rfl
    · simp only [Sys.Open, Sys.setContext, hlt]
      rcases eq_or_ne i s.next with rfl | hi
      · simp [hfresh]
      · simp [hi]
  case bodies =>
    refine h.bodies.take (x := s.next) (fun hu => absurd hu.1 (lt_irrefl _)) rfl rfl ?_ fun i => ?_
    · rw [Sys.holdings_no_context hc]
      rfl
    · simp only [Sys.Unreturned, Sys.setContext, hlt]
      rcases eq_or_ne i s.next with rfl | hi
      · simp [hfresh]
      · simp [hi]
  case code =>
    refine h.code.update rfl rfl fun c' hc' => ?_
    cases hc'
    exact hbody
  case fresh => exact fun i hi => h.fresh i (Nat.le_of_succ_le hi)
  case once => exact h.once
  case failure => exact h.failure

theorem Sys.Dutiful.complete (h : s.Dutiful special tells) (hc : s.contexts t = none)
    (hw : s.wire w = some e) (vars : σ)
    (hback : (d.callback e.request).Meets (special e.call) tells true true) :
    (({ s with vars := vars }.setMessage w none).setContext t
      (some ⟨d.callback e.request, e.call, e.id, true, e.owned, e.owes⟩)).Dutiful special
        tells := by
  refine h.quiet rfl rfl ?_ ?_ ?_
  · exact h.duty.receive hc hw rfl rfl rfl fun _ => Iff.rfl
  · refine h.bodies.keep_both (q := none) (w := w) rfl rfl ?_ ?_ fun _ => Iff.rfl
    · rw [Sys.holdings_no_context hc]
      rfl
    · rw [Sys.holdings_message hw]
      rfl
  · refine h.code.exchange (q := none) (w := w) rfl rfl ?_ fun e' he' => (nomatch he')
    intro c' hc'
    cases hc'
    simp only [(h.code.waiting w e hw).1]
    exact hback

variable [DecidableEq μ]

theorem Sys.Dutiful.ran (h : s.Dutiful special tells) (hc : s.contexts t = some c) {ch : Choice}
    (hready : c.prog.Ready (special c.call) tells s ch c.reply c.owes) (hr : d.Ran s t c ch s') :
    s'.Dutiful special tells := by
  cases hr with
  | quiet hq => exact h.goOn hc rfl rfl rfl rfl rfl rfl rfl rfl (hready.quiet hq)
  | @ret r hp =>
    rw [hp] at hready
    by_cases hreply : c.reply = true
    · have howes : c.owes = false := by
        rw [hreply] at hready
        generalize c.owes = o at hready
        cases hready
        rfl
      have hfinish : s.finish c r = s := if_pos hreply
      rw [hfinish]
      refine h.quiet rfl rfl ?_ ?_ ?_
      · refine h.duty.keep (p := none) rfl rfl ?_ fun _ => Iff.rfl
        rw [Sys.holdings_context hc]
        simp [Context.duty, howes]
      · refine h.bodies.keep (p := none) rfl rfl ?_ fun _ => Iff.rfl
        rw [Sys.holdings_context hc]
        simp [Context.started, hreply]
      · exact h.code.update (p := none) rfl rfl fun c' hc' => (nomatch hc')
    · have hcall : c.reply = false := Bool.eq_false_iff.mpr hreply
      refine h.return hc hcall ?_
      rw [hcall] at hready
      generalize c.owes = o at hready
      cases hready with
      | failed hneg => exact hneg
      | done => rfl
  | lock hp hfree =>
    rw [hp] at hready
    cases hready with
    | lock ht _ => exact h.goOn hc rfl rfl rfl rfl rfl rfl rfl rfl (ht hfree)
  | unlock hp =>
    rw [hp] at hready
    cases hready with
    | unlock hk => exact h.goOn hc rfl rfl rfl rfl rfl rfl rfl rfl hk
  | sent hp hw =>
    rw [hp] at hready
    have howes : c.owes = true := by
      generalize c.owes = o at hready
      cases hready
      rfl
    rw [howes] at hready
    cases hready with
    | request htells ht _ =>
      refine h.quiet rfl rfl ?_ ?_ ?_
      · exact h.duty.send hc hw rfl rfl rfl rfl fun _ => Iff.rfl
      · refine h.bodies.keep_both rfl rfl ?_ ?_ fun _ => Iff.rfl
        · rw [Sys.holdings_context hc]
          rfl
        · rw [Sys.holdings_no_message hw]
          rfl
      · refine h.code.exchange rfl rfl ?_ ?_
        · intro c' hc'
          cases hc'
          exact ht
        · intro e he
          cases he
          exact ⟨howes, htells s.vars⟩
  | notify hp =>
    rw [hp] at hready
    have howes : c.owes = true := by
      generalize c.owes = o at hready
      cases hready
      rfl
    rw [howes] at hready
    cases hready with
    | notify hk => exact h.tell hc howes hk

/-- If the code of every call and completion keeps the contract, it is fulfilled in all states. -/
theorem Driver.Reaches.fulfilled {init : σ → Prop} {ok : Sys σ μ ρ τ → Action τ → Bool}
    (hr : d.Reaches init ok s)
    (hbody : ∀ s t call, ok s (.start t call) → (d.body call).Meets (special call) tells false true)
    (hback : ∀ call q, tells q → (d.callback q).Meets (special call) tells true true)
    (hspecial : ∀ s t ch c, ok s (.run t ch) → s.contexts t = some c → c.reply = false →
      special c.call c.prog → c.prog.Ready (special c.call) tells s ch false true) :
    s.Fulfilled := by
  have hd : s.Dutiful special tells := by
    refine Reach.invariant hr ?_ fun s a s' h hok hs => ?_
    · rintro s₀ ⟨vars, -, rfl⟩
      exact .idle vars
    cases Driver.step_stepped hs with
    | @start t call hc => exact h.start hc call (hbody s t call hok)
    | @run t c s' ch hc hran =>
      rcases (h.code.running t c hc).ready s ch with ⟨hp, hreply, howes⟩ | hready
      · refine h.ran hc ?_ hran
        rw [hreply, howes]
        exact hspecial s t ch c hok hc hreply hp
      · exact h.ran hc hready hran
    | complete hc hw => exact h.complete hc hw _ (hback _ _ (h.code.waiting _ _ hw).2)
  exact hd.fulfilled

end Runs

end Lib.Async
