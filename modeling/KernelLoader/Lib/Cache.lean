import KernelLoader.Lib.Mmi

namespace Lib.Cache
open Lib.Mmi
set_option autoImplicit true
set_option relaxedAutoImplicit false

/-- A line of a cache: the number of the page its bytes are from, and the bytes. -/
structure Line where
  tag : BitVec 20
  valid : Bool
  dirty : Bool
  data : Nat → UInt8

/-- The lines of a cache of two ways. -/
abbrev Lines := Fin 2 → Nat → Line

def Lines.invalidate (c : Lines) (w : Fin 2) (i : Nat) : Lines := fun v j =>
  if v = w ∧ j = i then { c v j with valid := false, dirty := false } else c v j

/-- A cache in front of memory. Pages have 4096 bytes and lines 64, so that the place of a line in
its page is its index in the cache. -/
structure Store where
  lines : Lines
  mem : Mem

def index (a : Nat) : Nat := a / 64 % 64

/-- The physical address of a line with an index. -/
def Line.base (l : Line) (i : Nat) : Nat := l.tag.toNat * 4096 + 64 * i

namespace Store

/-- The byte with a physical address is in a way of the cache. -/
def Holds (s : Store) (w : Fin 2) (a : Nat) : Prop :=
  (s.lines w (index a)).valid = true ∧ (s.lines w (index a)).tag.toNat = a / 4096

instance (s : Store) (w : Fin 2) (a : Nat) : Decidable (s.Holds w a) :=
  inferInstanceAs (Decidable (_ ∧ _))

def hit (s : Store) (a : Nat) : Option (Fin 2) :=
  if s.Holds 0 a then some 0 else if s.Holds 1 a then some 1 else none

/-- The byte the processor reads. -/
def view (s : Store) (a : Nat) : UInt8 :=
  match s.hit a with
  | some w => (s.lines w (index a)).data (a % 64)
  | none => s.mem a

/-- Write a line back if it was changed, and make it invalid. -/
def discard (s : Store) (w : Fin 2) (i : Nat) : Store where
  lines := s.lines.invalidate w i
  mem := fun a =>
    if (s.lines w i).valid ∧ (s.lines w i).dirty ∧ a / 64 * 64 = (s.lines w i).base i then
      (s.lines w i).data (a % 64)
    else s.mem a

def discardHit (s : Store) (a : Nat) : Store :=
  match s.hit a with
  | some w => s.discard w (index a)
  | none => s

def discardIf (s : Store) (sel : Nat → Bool) (w : Fin 2) (i : Nat) : Store :=
  if sel ((s.lines w i).base i) then s.discard w i else s

/-- Lines that were not changed are as in memory, and no byte is in both ways. -/
structure Sound (s : Store) : Prop where
  clean : ∀ w a, s.Holds w a → (s.lines w (index a)).dirty = false →
    (s.lines w (index a)).data (a % 64) = s.mem a
  single : ∀ v w a, s.Holds v a → s.Holds w a → v = w

def Cached (s : Store) (a : Nat) : Prop := ∃ w, s.Holds w a

variable {s t u : Store} {v w : Fin 2} {a i : Nat}

theorem hit_of_holds (hs : Sound s) (h : s.Holds w a) : s.hit a = some w := by
  rw [hit]
  by_cases h0 : s.Holds 0 a
  · rw [if_pos h0, hs.single 0 w a h0 h]
  · obtain rfl | rfl : w = 0 ∨ w = 1 := by omega
    · exact absurd h h0
    · rw [if_neg h0, if_pos h]

theorem holds_of_hit (h : s.hit a = some w) : s.Holds w a := by
  rw [hit] at h
  split_ifs at h with h0 h1
  · cases h
    exact h0
  · cases h
    exact h1

theorem not_cached_of_hit (h : s.hit a = none) : ¬ s.Cached a := by
  rw [hit] at h
  split_ifs at h with h0 h1
  rintro ⟨w, hw⟩
  obtain rfl | rfl : w = 0 ∨ w = 1 := by omega
  · exact h0 hw
  · exact h1 hw

theorem view_of_holds (hs : Sound s) (h : s.Holds w a) :
    s.view a = (s.lines w (index a)).data (a % 64) := by
  rw [view, hit_of_holds hs h]

theorem view_of_not_cached (h : ¬ s.Cached a) : s.view a = s.mem a := by
  rw [view]
  split
  · next w hw => exact absurd ⟨w, holds_of_hit hw⟩ h
  · rfl

theorem base_eq_iff (hi : i < 64) {l : Line} :
    a / 64 * 64 = l.base i ↔ l.tag.toNat = a / 4096 ∧ index a = i := by
  rw [Line.base, index]
  omega

theorem Holds.base (h : s.Holds w a) : (s.lines w (index a)).base (index a) = a / 64 * 64 := by
  have hi : index a < 64 := Nat.mod_lt _ (by decide)
  exact ((base_eq_iff hi).mpr ⟨h.2, rfl⟩).symm

theorem lines_discard (h : ¬ (v = w ∧ j = i)) : (s.discard w i).lines v j = s.lines v j :=
  if_neg h

theorem lines_discard_self : ((s.discard w i).lines w i).valid = false :=
  congrArg Line.valid (if_pos ⟨rfl, rfl⟩)

theorem holds_discard :
    (s.discard w i).Holds v a ↔ s.Holds v a ∧ ¬ (v = w ∧ index a = i) := by
  by_cases h : v = w ∧ index a = i
  · obtain ⟨rfl, rfl⟩ := h
    refine iff_of_false (fun hh => ?_) fun hh => hh.2 ⟨rfl, rfl⟩
    have hvalid := hh.1
    rw [lines_discard_self] at hvalid
    cases hvalid
  · rw [Holds, lines_discard h]
    exact (and_iff_left h).symm

theorem mem_discard_of_dirty (h : s.Holds w a) (hd : (s.lines w (index a)).dirty = true) :
    (s.discard w (index a)).mem a = (s.lines w (index a)).data (a % 64) := by
  rw [discard]
  exact if_pos ⟨h.1, hd, h.base.symm⟩

theorem mem_discard (hi : i < 64) (h : ¬ (s.Holds w a ∧ index a = i)) :
    (s.discard w i).mem a = s.mem a := by
  rw [discard]
  apply if_neg
  rintro ⟨hv, -, hb⟩
  obtain ⟨htag, rfl⟩ := (base_eq_iff hi).mp hb
  exact h ⟨⟨hv, htag⟩, rfl⟩

theorem mem_discard_of_holds (hs : Sound s) (h : s.Holds w a) :
    (s.discard w (index a)).mem a = s.view a := by
  rw [view_of_holds hs h]
  by_cases hd : (s.lines w (index a)).dirty = true
  · exact mem_discard_of_dirty h hd
  · have hclean := hs.clean w a h (Bool.eq_false_of_not_eq_true hd)
    exact (if_neg fun hdirty => hd hdirty.2.1).trans hclean.symm

/-- The lines of a set of addresses left the cache and nothing else changed. -/
structure Drains (P : Nat → Prop) (s t : Store) : Prop where
  sound : Sound t
  view : ∀ a, t.view a = s.view a
  fewer : ∀ w a, t.Holds w a → s.Holds w a
  gone : ∀ a, P a → ¬ t.Cached a
  kept : ∀ w a, s.Holds w a → ¬ P a → t.lines w (index a) = s.lines w (index a)
  mem : ∀ a, ¬ P a → t.mem a = s.mem a

variable {P Q R : Nat → Prop}

theorem Drains.refl (hs : Sound s) : Drains (fun _ => False) s s where
  sound := hs
  view _ := rfl
  fewer _ _ h := h
  gone _ h := h.elim
  kept _ _ _ _ := rfl
  mem _ _ := rfl

theorem Drains.trans (h : Drains P s t) (h' : Drains Q t u) :
    Drains (fun a => P a ∨ Q a) s u where
  sound := h'.sound
  view a := (h'.view a).trans (h.view a)
  fewer w a hw := h.fewer w a (h'.fewer w a hw)
  gone a ha := by
    rintro ⟨w, hw⟩
    cases ha with
    | inl hP => exact h.gone a hP ⟨w, h'.fewer w a hw⟩
    | inr hQ => exact h'.gone a hQ ⟨w, hw⟩
  kept w a hw ha := by
    obtain ⟨hP, hQ⟩ := not_or.mp ha
    have hlines := h.kept w a hw hP
    have ht : t.Holds w a := by
      rw [Holds, hlines]
      exact hw
    exact (h'.kept w a ht hQ).trans hlines
  mem a ha := by
    obtain ⟨hP, hQ⟩ := not_or.mp ha
    exact (h'.mem a hQ).trans (h.mem a hP)

theorem Drains.widen (h : Drains P s t) (hsub : ∀ a, P a → R a)
    (hgone : ∀ a, R a → ¬ P a → ¬ t.Cached a) : Drains R s t where
  sound := h.sound
  view := h.view
  fewer := h.fewer
  gone a hR := by
    by_cases hP : P a
    · exact h.gone a hP
    · exact hgone a hR hP
  kept w a hw hR := h.kept w a hw (mt (hsub a) hR)
  mem a hR := h.mem a (mt (hsub a) hR)

theorem Drains.congr (h : Drains P s t) (hiff : ∀ a, R a ↔ P a) : Drains R s t :=
  h.widen (fun a => (hiff a).mpr) fun a hR hP => absurd ((hiff a).mp hR) hP

theorem Drains.written (h : Drains P s t) (ha : P a) : t.mem a = s.view a := by
  rw [← h.view a, view_of_not_cached (h.gone a ha)]

theorem Drains.discard (hs : Sound s) (hi : i < 64) :
    Drains (fun a => s.Holds w a ∧ index a = i) s (s.discard w i) := by
  have hgone : ∀ a, s.Holds w a ∧ index a = i → ¬ (s.discard w i).Cached a := by
    rintro a ⟨hw, hai⟩ ⟨v, hv⟩
    obtain ⟨hv, hne⟩ := holds_discard.mp hv
    exact hne ⟨hs.single v w a hv hw, hai⟩
  have hlines : ∀ v a, s.Holds v a → ¬ (s.Holds w a ∧ index a = i) →
      (s.discard w i).lines v (index a) = s.lines v (index a) := by
    intro v a hv hne
    apply lines_discard
    rintro ⟨rfl, hai⟩
    exact hne ⟨hv, hai⟩
  have hmem : ∀ a, ¬ (s.Holds w a ∧ index a = i) → (s.discard w i).mem a = s.mem a :=
    fun a => mem_discard hi
  have hfewer : ∀ v a, (s.discard w i).Holds v a → s.Holds v a :=
    fun v a h => (holds_discard.mp h).1
  have hsound : Sound (s.discard w i) := by
    constructor
    · intro v a hv hd
      have hne : ¬ (s.Holds w a ∧ index a = i) := fun h => hgone a h ⟨v, hv⟩
      rw [hlines v a (hfewer v a hv) hne] at hd ⊢
      rw [hmem a hne]
      exact hs.clean v a (hfewer v a hv) hd
    · intro v v' a hv hv'
      exact hs.single v v' a (hfewer v a hv) (hfewer v' a hv')
  refine ⟨hsound, ?_, hfewer, hgone, hlines, hmem⟩
  intro a
  by_cases ha : s.Holds w a ∧ index a = i
  · obtain ⟨hw, rfl⟩ := ha
    rw [view_of_not_cached (hgone a ⟨hw, rfl⟩), mem_discard_of_holds hs hw]
  · by_cases hc : (s.discard w i).Cached a
    · obtain ⟨v, hv⟩ := hc
      have hsv := hfewer v a hv
      rw [view_of_holds hsound hv, view_of_holds hs hsv, hlines v a hsv ha]
    · have hsc : ¬ s.Cached a := by
        rintro ⟨v, hv⟩
        refine hc ⟨v, holds_discard.mpr ⟨hv, ?_⟩⟩
        rintro ⟨rfl, hai⟩
        exact ha ⟨hv, hai⟩
      rw [view_of_not_cached hc, view_of_not_cached hsc, hmem a ha]

theorem Drains.discardHit (hs : Sound s) (x : Nat) :
    Drains (fun a => a / 64 = x / 64) s (s.discardHit x) := by
  have hline {a : Nat} (h : a / 64 = x / 64) (w : Fin 2) : s.Holds w a ↔ s.Holds w x := by
    have hindex : index a = index x := by rw [index, index, h]
    have hpage : a / 4096 = x / 4096 := by omega
    rw [Holds, Holds, hindex, hpage]
  rw [Store.discardHit]
  split
  · next w hw =>
    have hx := holds_of_hit hw
    have hi : index x < 64 := Nat.mod_lt _ (by decide)
    apply (Drains.discard hs hi).congr
    intro a
    constructor
    · intro h
      exact ⟨(hline h w).mpr hx, by rw [index, index, h]⟩
    · rintro ⟨ha, hai⟩
      have hbase := ha.base
      rw [hai, hx.base] at hbase
      omega
  · next hnone =>
    apply (Drains.refl hs).widen (fun _ h => h.elim)
    rintro a ha - ⟨w, hw⟩
    exact not_cached_of_hit hnone ⟨w, (hline ha w).mp hw⟩

theorem Drains.discardIf (hs : Sound s) (sel : Nat → Bool) (hi : i < 64) :
    Drains (fun a => s.Holds w a ∧ index a = i ∧ sel (a / 64 * 64)) s (s.discardIf sel w i) := by
  rw [Store.discardIf]
  split
  · next hsel =>
    apply (Drains.discard hs hi).congr
    intro a
    constructor
    · rintro ⟨ha, hai, -⟩
      exact ⟨ha, hai⟩
    · rintro ⟨ha, rfl⟩
      exact ⟨ha, rfl, ha.base ▸ hsel⟩
  · next hsel =>
    apply (Drains.refl hs).widen (fun _ h => h.elim)
    rintro a ⟨ha, rfl, hbase⟩ - -
    rw [← ha.base] at hbase
    exact hsel hbase

/-- The two lines with an index, if they are selected by their addresses. -/
def discardBoth (s : Store) (sel : Nat → Bool) (i : Nat) : Store :=
  (s.discardIf sel 0 i).discardIf sel 1 i

theorem Drains.discardBoth (hs : Sound s) (sel : Nat → Bool) (hi : i < 64) :
    Drains (fun a => index a = i ∧ sel (a / 64 * 64)) s (s.discardBoth sel i) := by
  have h0 := Drains.discardIf (w := 0) hs sel hi
  have h1 := Drains.discardIf (w := 1) h0.sound sel hi
  apply (h0.trans h1).widen
  · rintro a (h | h)
    · exact h.2
    · exact h.2
  · rintro a hR hP ⟨w, hw⟩
    obtain ⟨hP0, hP1⟩ := not_or.mp hP
    obtain rfl | rfl : w = 0 ∨ w = 1 := by omega
    · exact hP0 ⟨h0.fewer 0 a (h1.fewer 0 a hw), hR⟩
    · exact hP1 ⟨h1.fewer 1 a hw, hR⟩

/-- All lines with an index from `i` on, `n` indices. -/
def discardFrom (s : Store) (sel : Nat → Bool) (i : Nat) : Nat → Store
  | 0 => s
  | n + 1 => (s.discardBoth sel i).discardFrom sel (i + 1) n

theorem Drains.discardFrom (hs : Sound s) (sel : Nat → Bool) (hi : i + n ≤ 64) :
    Drains (fun a => (i ≤ index a ∧ index a < i + n) ∧ sel (a / 64 * 64)) s
      (s.discardFrom sel i n) := by
  induction n generalizing s i with
  | zero =>
    apply (Drains.refl hs).congr
    intro a
    exact iff_of_false (fun h => by omega) not_false
  | succ n ih =>
    have hfirst := Drains.discardBoth hs sel (i := i) (by omega)
    apply (hfirst.trans (ih hfirst.sound (i := i + 1) (by omega))).congr
    intro a
    rw [← or_and_right]
    exact and_congr_left' (by omega)

end Store

/-- The physical address of a virtual one, by the frames of the pages. -/
def phys (frame : Nat → BitVec 20) (a : Nat) : Nat := (frame (a / 4096)).toNat * 4096 + a % 4096

theorem phys_line {frame : Nat → BitVec 20} (h : x / 64 = y / 64) :
    phys frame x / 64 = phys frame y / 64 := by
  have hpage : x / 4096 = y / 4096 := by omega
  rw [phys, phys, hpage]
  omega

namespace Store
variable {s : Store} {frame : Nat → BitVec 20}

/-- The lines of `n` addresses, each 64 bytes behind the one before. -/
def discardUp (s : Store) (frame : Nat → BitVec 20) (p : Nat) : Nat → Store
  | 0 => s
  | n + 1 => (s.discardHit (phys frame p)).discardUp frame (p + 64) n

theorem discardUp_append (s : Store) (p k n : Nat) :
    s.discardUp frame p (k + n) = (s.discardUp frame p k).discardUp frame (p + 64 * k) n := by
  induction k generalizing s p with
  | zero => rw [Nat.zero_add, discardUp, Nat.mul_zero, Nat.add_zero]
  | succ k ih =>
    rw [Nat.add_right_comm, discardUp, ih, discardUp, Nat.mul_succ, Nat.add_assoc, Nat.add_comm 64]

theorem Drains.discardUp (hs : Sound s) (hp : p % 64 = 0) (n : Nat) :
    Drains (fun b => ∃ x, p ≤ x ∧ x < p + 64 * n ∧ b / 64 = phys frame x / 64) s
      (s.discardUp frame p n) := by
  induction n generalizing s p with
  | zero =>
    apply (Drains.refl hs).congr
    intro b
    refine iff_of_false ?_ not_false
    rintro ⟨x, hx, hlt, -⟩
    omega
  | succ n ih =>
    have hfirst := Drains.discardHit hs (phys frame p)
    apply (hfirst.trans (ih hfirst.sound (p := p + 64) (by omega))).congr
    intro b
    constructor
    · rintro ⟨x, hx, hlt, hb⟩
      by_cases hline : x < p + 64
      · left
        exact hb.trans (phys_line (by omega))
      · right
        exact ⟨x, by omega, by omega, hb⟩
    · rintro (hb | ⟨x, hx, hlt, hb⟩)
      · exact ⟨p, Nat.le_refl p, by omega, hb⟩
      · exact ⟨x, by omega, by omega, hb⟩

end Store

/-- The processor, its data cache in front of memory, and its instruction cache. -/
structure Machine where
  cpu : State
  lines : Lines
  code : Lines
  tagLo : Nat

/-- Instructions on the caches beside those that do not access memory. The operations with an index
take it and the way from the bits of an address. -/
inductive Op
  | plain (i : Instr)
  | sync
  | dhwbin (offset : Int) (base : Nat)
  | dxwbin (offset : Int) (base : Nat)
  | dxltg (offset : Int) (base : Nat)
  | ixin (offset : Int) (base : Nat)
  | mfc0 (rt : Nat)

def way (a : Nat) : Fin 2 := ⟨a % 2, Nat.mod_lt a (by decide)⟩

/-- What the register with the tag holds after a line was read. -/
def Line.tagWord (l : Line) : Nat :=
  l.tag.toNat * 4096 + (if l.dirty then 64 else 0) + if l.valid then 32 else 0

namespace Machine

def store (s : Machine) : Store := ⟨s.lines, s.cpu.mem⟩

def setCpu (s : Machine) (c : State) : Machine := { s with cpu := c }

def setStore (s : Machine) (d : Store) : Machine :=
  { s with lines := d.lines, cpu := ⟨s.cpu.gpr, d.mem⟩ }

def setTag (s : Machine) (n : Nat) : Machine := { s with tagLo := n }

def setCode (s : Machine) (c : Lines) : Machine := { s with code := c }

/-- The byte of an instruction at a virtual address. -/
def fetch (s : Machine) (frame : Nat → BitVec 20) (a : Nat) : UInt8 :=
  let holds (w : Fin 2) : Bool :=
    (s.code w (a / 64 % 128)).valid && (s.code w (a / 64 % 128)).tag == frame (a / 4096)
  if holds 0 then (s.code 0 (a / 64 % 128)).data (a % 64)
  else if holds 1 then (s.code 1 (a / 64 % 128)).data (a % 64)
  else s.cpu.mem (phys frame a)

end Machine

def exec (frame : Nat → BitVec 20) : Op → Machine → Option Machine
  | .plain i, s => (Mmi.exec i s.cpu).map s.setCpu
  | .sync, s => some s
  | .dhwbin offset base, s =>
    some (s.setStore (s.store.discardHit (phys frame (s.cpu.address base offset))))
  | .dxwbin offset base, s =>
    some (s.setStore (s.store.discard (way (s.cpu.address base offset))
      (index (s.cpu.address base offset))))
  | .dxltg offset base, s =>
    some (s.setTag (s.lines (way (s.cpu.address base offset))
      (index (s.cpu.address base offset))).tagWord)
  | .ixin offset base, s =>
    some (s.setCode (s.code.invalidate (way (s.cpu.address base offset))
      (s.cpu.address base offset / 64 % 128)))
  | .mfc0 rt, s => some (s.setCpu (s.cpu.setDword rt (word s.tagLo)))

def isa (frame : Nat → BitVec 20) : Flow.Isa Op Cond Machine :=
  ⟨exec frame, fun c s => test c s.cpu⟩

abbrev Code := Flow.Code Op Cond

section Machine
variable {frame : Nat → BitVec 20} {s : Machine} {d : Store} {c c' : State} {r n : Nat}

@[simp] theorem exec_plain (i : Instr) :
    exec frame (.plain i) s = (Mmi.exec i s.cpu).map s.setCpu := rfl

@[simp] theorem exec_sync : exec frame .sync s = some s := rfl

@[simp] theorem exec_dhwbin (o : Int) (r : Nat) : exec frame (.dhwbin o r) s =
    some (s.setStore (s.store.discardHit (phys frame (s.cpu.address r o)))) := rfl

@[simp] theorem exec_dxwbin (o : Int) (r : Nat) : exec frame (.dxwbin o r) s =
    some (s.setStore (s.store.discard (way (s.cpu.address r o)) (index (s.cpu.address r o)))) := rfl

@[simp] theorem exec_dxltg (o : Int) (r : Nat) : exec frame (.dxltg o r) s =
    some (s.setTag (s.lines (way (s.cpu.address r o)) (index (s.cpu.address r o))).tagWord) := rfl

@[simp] theorem exec_mfc0 (r : Nat) :
    exec frame (.mfc0 r) s = some (s.setCpu (s.cpu.setDword r (word s.tagLo))) := rfl

@[simp] theorem isa_exec (i : Op) (s : Machine) : (isa frame).exec i s = exec frame i s := rfl

@[simp] theorem isa_test (e : Cond) (s : Machine) : (isa frame).test e s = test e s.cpu := rfl

@[simp] theorem cpu_setCpu : (s.setCpu c).cpu = c := rfl

@[simp] theorem setCpu_setCpu : (s.setCpu c).setCpu c' = s.setCpu c' := rfl

@[simp] theorem store_setDword (v : BitVec 64) :
    (s.setCpu (c.setDword r v)).store = (s.setCpu c).store := rfl

@[simp] theorem setCpu_cpu : s.setCpu s.cpu = s := rfl

@[simp] theorem dword_setStore : (s.setStore d).cpu.dword r = s.cpu.dword r := rfl

@[simp] theorem store_setStore : (s.setStore d).store = d := rfl

@[simp] theorem setStore_setStore {d' : Store} : (s.setStore d).setStore d' = s.setStore d' := rfl

@[simp] theorem cpu_setTag : (s.setTag n).cpu = s.cpu := rfl

@[simp] theorem tagLo_setTag : (s.setTag n).tagLo = n := rfl

@[simp] theorem store_setTag_setCpu : ((s.setTag n).setCpu c).store = (s.setCpu c).store := rfl

/-- The register an instruction writes, if any. -/
def Op.dest : Op → Nat
  | .plain i => i.dest
  | .mfc0 rt => rt
  | _ => 0

theorem exec_keeps {i : Op} (h : i.dest ≠ r) (he : exec frame i s = some t) :
    t.cpu.quad r = s.cpu.quad r := by
  cases i with
  | plain i =>
    obtain ⟨c, hc, rfl⟩ := Option.map_eq_some_iff.mp he
    exact Mmi.exec_keeps h hc
  | mfc0 rt =>
    cases he
    exact quad_setDword_of_ne (Ne.symm h) _
  | sync | dhwbin | dxwbin | dxltg | ixin =>
    cases he
    rfl

theorem ends_keeps {L : Type} {code : Code L} {l : L} {Q : Machine → Prop} {regs : List Nat}
    (h : (isa frame).Ends code l s Q) (hk : ∀ l, ∀ i ∈ (code l).instrs, i.dest ∈ regs) :
    (isa frame).Ends code l s fun t => Q t ∧ ∀ r, r ∉ regs → t.cpu.quad r = s.cpu.quad r := by
  let f (s : Machine) (r : {r // r ∉ regs}) : BitVec 128 := s.cpu.quad r
  have hf : ∀ l, ∀ i ∈ (code l).instrs, ∀ s t, (isa frame).exec i s = some t → f t = f s := by
    intro l i hi s t he
    funext r
    exact exec_keeps (fun heq => r.2 (heq ▸ hk l i hi)) he
  apply (h.keeps hf).mono
  intro t ht
  exact ⟨ht.1, fun r hr => congrFun ht.2 ⟨r, hr⟩⟩

/-- The instruction is about the instruction cache. -/
def Op.onCode : Op → Bool
  | .ixin .. => true
  | _ => false

theorem exec_code {i : Op} (h : i.onCode = false) (he : exec frame i s = some t) :
    t.code = s.code := by
  cases i with
  | plain i =>
    obtain ⟨c, hc, rfl⟩ := Option.map_eq_some_iff.mp he
    rfl
  | ixin => cases h
  | mfc0 | sync | dhwbin | dxwbin | dxltg =>
    cases he
    rfl

theorem ends_code {L : Type} {code : Code L} {l : L} {Q : Machine → Prop}
    (h : (isa frame).Ends code l s Q) (hk : ∀ l, ∀ i ∈ (code l).instrs, i.onCode = false) :
    (isa frame).Ends code l s fun t => Q t ∧ t.code = s.code :=
  h.keeps fun l i hi _ _ he => exec_code (hk l i hi) he

end Machine

end Lib.Cache
