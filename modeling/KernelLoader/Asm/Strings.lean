import KernelLoader.Asm.Memory
import KernelLoader.Lib.ZeroByte

namespace KernelLoader.Asm
open Lib Lib.Mmi
set_option autoImplicit true
set_option relaxedAutoImplicit false

/-- The labels of `strlen.S`, and names for what follows a branch without a label. -/
inductive StrlenLabel
  | start | dwordAligned | quadFirst | quadNext | L14 | quadFound | L12 | dwordNext | L16
  | dwordFound | L15 | second | one

def strlen : Code StrlenLabel
  | .start => ⟨[.andi 2 4 0x7], .branch (.ne 2 0) (.move 7 4) .L15 .dwordAligned⟩
  | .dwordAligned => ⟨[.andi 3 4 0xf, .dli 2 ones], .branch (.ne 3 0) (.move 5 4) .L12 .quadFirst⟩
  | .quadFirst => ⟨[.lq 3 0 5, .pcpyld 8 2 2, .dli 4 highs, .psubb 2 3 8, .pnor 3 0 3,
      .pcpyld 9 4 4, .pand 2 2 3, .pand 2 2 9, .pcpyud 3 2 8, .or 6 3 2],
      .likely (.ne 6 0) (.move 4 5) .L15 .quadNext⟩
  | .quadNext => ⟨[.addiu 5 5 16], .fall .L14⟩
  | .L14 => ⟨[.lq 2 0 5, .pnor 3 0 2, .psubb 2 2 8, .pand 2 2 3, .pand 4 2 9, .pcpyud 3 4 6,
      .or 3 3 4], .likely (.eq 3 0) (.addiu 5 5 16) .L14 .quadFound⟩
  | .quadFound => ⟨[], .jump (.move 4 5) .L15⟩
  | .L12 => ⟨[.ld 3 0 5, .dli 4 highs, .dsubu 2 3 2, .nor 3 0 3, .and 2 2 3, .and 2 2 4],
      .likely (.ne 2 0) (.move 4 5) .L15 .dwordNext⟩
  | .dwordNext => ⟨[.dli 6 ones, .addiu 5 5 8], .fall .L16⟩
  | .L16 => ⟨[.ld 2 0 5, .nor 3 0 2, .dsubu 2 2 6, .and 2 2 3, .and 2 2 4],
      .likely (.eq 2 0) (.addiu 5 5 8) .L16 .dwordFound⟩
  | .dwordFound => ⟨[.move 4 5], .fall .L15⟩
  | .L15 => ⟨[.lb 2 0 4], .branch (.eq 2 0) (.addiu 4 4 1) .one .second⟩
  | .second => ⟨[.lb 2 0 4], .branch (.ne 2 0) (.addiu 4 4 1) .L15 .one⟩
  | .one => ⟨[.addiu 4 4 (-1)], .ret (.subu 2 4 7)⟩

variable {s : State} {m : Mem} {a d e p q : Nat} {str : List UInt8}

/-- The first byte that is zero from `p` on is at `e`. -/
structure Terminated (m : Mem) (p e : Nat) : Prop where
  le : p ≤ e
  last : m e = 0
  before : ∀ i, p ≤ i → i < e → m i ≠ 0
  bound : e < 2 ^ 32

theorem Terminated.next (h : Terminated m p e) (hp : m p ≠ 0) : Terminated m (p + 1) e := by
  have hne : p ≠ e := fun he => hp (he ▸ h.last)
  have hle := h.le
  exact ⟨by omega, h.last, fun i hi => h.before i (by omega), h.bound⟩

theorem Terminated.eq_of_zero (h : Terminated m p e) (hp : m p = 0) : p = e := by
  have hle := h.le
  by_contra hne
  exact h.before p (Nat.le_refl p) (by omega) hp

theorem Terminated.skip (h : Terminated m p e) (hn : ¬ HasZero m p n) : Terminated m (p + n) e := by
  have hle : p + n ≤ e := by
    by_contra hlt
    have hle := h.le
    refine hn ⟨e - p, by omega, ?_⟩
    rw [Nat.add_sub_cancel' hle]
    exact h.last
  exact ⟨hle, h.last, fun i hi => h.before i (by omega), h.bound⟩

theorem Terminated.of_stringAt (h : StringAt (fun i => m (a + i)) str)
    (hb : a + str.length < 2 ^ 32) : Terminated m a (a + str.length) := by
  induction str generalizing a with
  | nil => exact ⟨Nat.le_refl a, h.terminated, fun i hi hlt => absurd hlt (Nat.not_lt.mpr hi), hb⟩
  | cons c str ih =>
    rw [List.length_cons] at hb
    have hend : a + (c :: str).length = a + 1 + str.length := by
      rw [List.length_cons]
      omega
    have htail := ih h.next (by omega)
    have hc : m a ≠ 0 := by
      intro h0
      have hfirst : m a = c := h.begins.1
      exact h.proper (List.mem_cons.mpr (.inl (h0.symm.trans hfirst)))
    rw [hend]
    refine ⟨by omega, htail.last, fun i hi hlt => ?_, htail.bound⟩
    by_cases hia : i = a
    · rw [hia]
      exact hc
    · exact htail.before i (by omega) hlt

/-- The function returns the number of bytes from `a` to `e` and leaves the memory. -/
def Measured (m : Mem) (a e : Nat) (t : State) : Prop := t.mem = m ∧ t.dword 2 = word (e - a)

theorem strlen_one (hm : s.mem = m) (h4 : s.dword 4 = word (e + 1)) (h7 : s.dword 7 = word a) :
    isa.Ends strlen .one s (Measured m a e) := by
  apply Flow.Isa.Ends.block
  simp [strlen, Measured, hm, h4, h7]

theorem strlen_L15 (hm : s.mem = m) (h4 : s.dword 4 = word p) (h7 : s.dword 7 = word a)
    (ht : Terminated m p e) : isa.Ends strlen .L15 s (Measured m a e) := by
  induction hk : e - p using Nat.strongRecOn generalizing s p with
  | ind k ih =>
    have hle := ht.le
    have hbound := ht.bound
    have hp : addr (word p) = p := addr_word_natCast (by omega)
    apply Flow.Isa.Ends.block
    simp [strlen, hm, h4, hp]
    split
    · next hz =>
      apply strlen_one (by simp [hm]) _ (by simp [h7])
      simp [ht.eq_of_zero hz]
    · next hz =>
      have ht' := ht.next hz
      have hle' := ht'.le
      have hp' : addr (word (p + 1)) = p + 1 := addr_word_natCast (n := p + 1) (by omega)
      apply Flow.Isa.Ends.block
      simp [strlen, hm, hp']
      split
      · next hz' =>
        apply strlen_one (by simp [hm]) _ (by simp [h7])
        have he := ht'.eq_of_zero hz'
        simp [← he]
      · next hz' =>
        have ht'' := ht'.next hz'
        have hle'' := ht''.le
        exact ih (e - (p + 1 + 1)) (by omega) (by simp [hm]) (by simp) (by simp [h7]) ht'' rfl

theorem strlen_L14 (hm : s.mem = m) (h5 : s.dword 5 = word p) (h7 : s.dword 7 = word a)
    (h8 : s.quad 8 = ones ++ ones) (h9 : s.quad 9 = highs ++ highs) (ht : Terminated m p e)
    (hp : p % 16 = 0) : isa.Ends strlen .L14 s (Measured m a e) := by
  induction hk : e - p using Nat.strongRecOn generalizing s p with
  | ind k ih =>
    have hle := ht.le
    have hbound := ht.bound
    have hpa : addr (word p) = p := addr_word_natCast (by omega)
    have htest := quad_test m p
    rw [quadTest] at htest
    apply Flow.Isa.Ends.block
    simp [strlen, hm, h5, h8, h9, hpa, hp, htest, -BitVec.or_eq_zero_iff]
    split
    · apply Flow.Isa.Ends.block
      simp [strlen, h5]
      exact strlen_L15 (by simp [hm]) (by simp) (by simp [h7]) ht
    · next hz =>
      have ht' := ht.skip hz
      have hle' := ht'.le
      exact ih (e - (p + 16)) (by omega) (by simp [hm]) (by simp) (by simp [h7]) (by simp [h8])
        (by simp [h9]) ht' (by omega) rfl

theorem strlen_quadFirst (hm : s.mem = m) (h2 : s.dword 2 = ones) (h5 : s.dword 5 = word p)
    (h7 : s.dword 7 = word a) (ht : Terminated m p e) (hp : p % 16 = 0) :
    isa.Ends strlen .quadFirst s (Measured m a e) := by
  have hle := ht.le
  have hbound := ht.bound
  have hpa : addr (word p) = p := addr_word_natCast (by omega)
  have htest := quad_test m p
  rw [quadTest] at htest
  apply Flow.Isa.Ends.block
  simp [strlen, hm, h2, h5, hpa, hp, htest, -BitVec.or_eq_zero_iff]
  split
  · exact strlen_L15 (by simp [hm]) (by simp) (by simp [h7]) ht
  · next hz =>
    apply Flow.Isa.Ends.block
    simp [strlen, h5]
    apply strlen_L14 (by simp [hm]) (by simp) (by simp [h7]) (by simp) (by simp) (ht.skip hz)
    omega

theorem strlen_L16 (hm : s.mem = m) (h5 : s.dword 5 = word p) (h7 : s.dword 7 = word a)
    (h6 : s.dword 6 = ones) (h4 : s.dword 4 = highs) (ht : Terminated m p e) (hp : p % 8 = 0) :
    isa.Ends strlen .L16 s (Measured m a e) := by
  induction hk : e - p using Nat.strongRecOn generalizing s p with
  | ind k ih =>
    have hle := ht.le
    have hbound := ht.bound
    have hpa : addr (word p) = p := addr_word_natCast (by omega)
    have htest := dword_test m p
    apply Flow.Isa.Ends.block
    simp [strlen, hm, h4, h5, h6, hpa, hp, htest]
    split
    · apply Flow.Isa.Ends.block
      simp [strlen, h5]
      exact strlen_L15 (by simp [hm]) (by simp) (by simp [h7]) ht
    · next hz =>
      have ht' := ht.skip hz
      have hle' := ht'.le
      exact ih (e - (p + 8)) (by omega) (by simp [hm]) (by simp) (by simp [h7]) (by simp [h6])
        (by simp [h4]) ht' (by omega) rfl

theorem strlen_L12 (hm : s.mem = m) (h2 : s.dword 2 = ones) (h5 : s.dword 5 = word p)
    (h7 : s.dword 7 = word a) (ht : Terminated m p e) (hp : p % 8 = 0) :
    isa.Ends strlen .L12 s (Measured m a e) := by
  have hle := ht.le
  have hbound := ht.bound
  have hpa : addr (word p) = p := addr_word_natCast (by omega)
  have htest := dword_test m p
  apply Flow.Isa.Ends.block
  simp [strlen, hm, h2, h5, hpa, hp, htest]
  split
  · exact strlen_L15 (by simp [hm]) (by simp) (by simp [h7]) ht
  · next hz =>
    apply Flow.Isa.Ends.block
    simp [strlen, h5]
    apply strlen_L16 (by simp [hm]) (by simp) (by simp [h7]) (by simp) (by simp) (ht.skip hz)
    omega

theorem strlen_terminated (h4 : s.dword 4 = word a) (ht : Terminated s.mem a e) :
    isa.Ends strlen .start s (Measured s.mem a e) := by
  have h8 : word a &&& 7#64 = 0#64 ↔ a % 8 = 0 := word_and_lowMask (k := 3) a (by decide)
  have h16 : word a &&& 15#64 = 0#64 ↔ a % 16 = 0 := word_and_lowMask (k := 4) a (by decide)
  apply Flow.Isa.Ends.block
  simp [strlen, h4, h8]
  split
  · next hdword =>
    apply Flow.Isa.Ends.block
    simp [strlen, h4, h16]
    split
    · next hquad => exact strlen_quadFirst (by simp) (by simp) (by simp) (by simp) ht hquad
    · exact strlen_L12 (by simp) (by simp) (by simp) (by simp) ht hdword
  · exact strlen_L15 (by simp) (by simp [h4]) (by simp) ht

theorem strlen_dest (l : StrlenLabel) : ∀ i ∈ (strlen l).instrs, i.dest < 10 := by
  cases l <;> decide

/-- The length of every string, wherever it lies. -/
theorem strlen_string (h4 : s.dword 4 = word a) (hs : StringAt (fun i => s.mem (a + i)) str)
    (hb : a + str.length < 2 ^ 32) :
    isa.Ends strlen .start s fun t =>
      (t.mem = s.mem ∧ t.dword 2 = word str.length) ∧ ∀ r, 10 ≤ r → t.quad r = s.quad r := by
  apply (ends_keeps (strlen_terminated h4 (.of_stringAt hs hb)) strlen_dest).mono
  intro t ht
  have hlen : ((a + str.length : Nat) : Int) - a = str.length := by omega
  refine ⟨⟨ht.1.1, ?_⟩, ht.2⟩
  rw [ht.1.2, hlen]

/-- A string of seventeen characters at an aligned address. -/
def letters : List UInt8 := .replicate 17 65

def lettersAt (a : Nat) : Mem := fun i => literal letters (i - a)

theorem strlen_string_aligned :
    isa.Ends strlen .start (called 16 0 0 (lettersAt 16)) fun t =>
      (t.mem = lettersAt 16 ∧ t.dword 2 = word letters.length) ∧
        ∀ r, 10 ≤ r → t.quad r = (called 16 0 0 (lettersAt 16)).quad r :=
  strlen_string (a := 16) (by decide) ⟨by decide, by decide, by decide⟩ (by decide)

inductive StrcpyLabel
  | start | aligned | quadFirst | L2 | quadFound | L3 | L5 | L4 | L7 | done

/-- `strcpy.S` -/
def strcpy : Code StrcpyLabel
  | .start => ⟨[.move 7 4, .or 8 5 7, .andi 2 8 0x7], .branch (.ne 2 0) (.move 3 7) .L7 .aligned⟩
  | .aligned => ⟨[.andi 2 8 0xf, .dli 9 ones, .dli 4 highs],
      .likely (.ne 2 0) (.ld 10 0 5) .L3 .quadFirst⟩
  | .quadFirst => ⟨[.pcpyld 10 9 9, .lq 9 0 5, .pcpyld 8 4 4, .psubb 2 9 10, .pnor 3 0 9,
      .pand 2 2 3, .pand 2 2 8, .pcpyud 4 2 9, .or 3 2 4], .branch (.ne 3 0) (.move 6 7) .L4 .L2⟩
  | .L2 => ⟨[.sq 9 0 6, .addiu 5 5 16, .lq 9 0 5, .psubb 2 9 10, .pnor 3 0 9, .pand 2 2 3,
      .pand 2 2 8, .pcpyud 4 2 9, .or 3 2 4], .branch (.eq 3 0) (.addiu 6 6 16) .L2 .quadFound⟩
  | .quadFound => ⟨[], .jump (.move 3 6) .L7⟩
  | .L3 => ⟨[.dsubu 2 10 9, .nor 3 0 10, .and 2 2 3, .and 2 2 4],
      .branch (.ne 2 0) (.move 6 7) .L4 .L5⟩
  | .L5 => ⟨[.sd 10 0 6, .addiu 5 5 8, .ld 10 0 5, .nor 2 0 10, .dsubu 3 10 9, .and 3 3 2,
      .and 3 3 4], .branch (.eq 3 0) (.addiu 6 6 8) .L5 .L4⟩
  | .L4 => ⟨[.move 3 6], .fall .L7⟩
  | .L7 => ⟨[.lbu 2 0 5, .addiu 5 5 1, .sb 2 0 3, .sll 2 2 24, .nop, .nop],
      .branch (.ne 2 0) (.addiu 3 3 1) .L7 .done⟩
  | .done => ⟨[], .ret (.move 2 7)⟩

/-- The string from `p` to `e` can be moved to `q`: there is room, and the destination does not
begin inside the string. -/
structure Movable (m : Mem) (q p e : Nat) : Prop extends Terminated m p e where
  room : q + (e - p) < 2 ^ 32
  apart : q ≤ p ∨ e < q

/-- The memory after a string from `p` to `e` was copied to `q`. -/
def copyString (m : Mem) (q p e : Nat) : Mem := copyUp m q p (e - p + 1)

theorem Movable.piece (h : Movable m q p e) (hz : ¬ HasZero m p c) :
    Movable (storeLe m q c (le m p c)) (q + c) (p + c) e := by
  obtain ⟨hle, hlast, hbefore, hbound⟩ := h.toTerminated.skip hz
  have hroom := h.room
  have hapart := h.apart
  have hkept : ∀ i, p + c ≤ i → i ≤ e → storeLe m q c (le m p c) i = m i := by
    intro i hi hie
    exact storeLe_outside (by omega) _
  refine ⟨⟨hle, ?_, ?_, hbound⟩, by omega, by omega⟩
  · rw [hkept e hle (Nat.le_refl e), hlast]
  · intro i hi hie
    rw [hkept i hi (by omega)]
    exact hbefore i hi hie

theorem Movable.copyString_piece (h : Movable m q p e) (hz : ¬ HasZero m p c) :
    copyString m q p e = copyString (storeLe m q c (le m p c)) (q + c) (p + c) e := by
  have hle := (h.toTerminated.skip hz).le
  have happart := h.apart
  rw [copyString, copyString, show e - p + 1 = c + (e - (p + c) + 1) by omega,
    copyUp_piece (by omega)]

/-- A string is being copied to the address in register `r`. -/
structure Carrying (r : Nat) (m : Mem) (d q p : Nat) (s : State) : Prop where
  mem : s.mem = m
  dest : s.dword 7 = word d
  target : s.dword r = word q
  source : s.dword 5 = word p

theorem strcpy_done (hm : s.mem = m) (hd : s.dword 7 = word d) :
    isa.Ends strcpy .done s (Moved m d) := by
  apply Flow.Isa.Ends.block
  simp [strcpy, Moved, hm, hd]

theorem strcpy_L7 (h : Carrying 3 m d q p s) (hmov : Movable m q p e) :
    isa.Ends strcpy .L7 s (Moved (copyString m q p e) d) := by
  induction hk : e - p using Nat.strongRecOn generalizing s m q p with
  | ind k ih =>
    have hle := hmov.le
    have hbound := hmov.bound
    have hroom := hmov.room
    have hp : addr (word p) = p := addr_word_natCast (by omega)
    have hq : addr (word q) = q := addr_word_natCast (by omega)
    have hbyte : storeLe m q 1 (m p).toNat = storeLe m q 1 (le m p 1) := by
      rw [le, le, Nat.mul_zero, Nat.add_zero]
    apply Flow.Isa.Ends.block
    simp [strcpy, h.mem, h.target, h.source, hp, hq]
    split
    · next hz =>
      apply strcpy_done
      · have he := hmov.toTerminated.eq_of_zero hz
        simp [copyString, ← he, copyUp, storeLe_one, h.mem]
      · simp [h.dest]
    · next hz =>
      have hz' : ¬ HasZero m p 1 := by
        rintro ⟨i, hi, hm⟩
        obtain rfl : i = 0 := by omega
        exact hz hm
      have hmov' := hmov.piece hz'
      have hle' := hmov'.le
      rw [hmov.copyString_piece hz']
      apply ih (e - (p + 1)) (by omega) _ hmov' rfl
      constructor <;> simp [h.mem, h.dest, hbyte]

theorem strcpy_L4 (h : Carrying 6 m d q p s) (hmov : Movable m q p e) :
    isa.Ends strcpy .L4 s (Moved (copyString m q p e) d) := by
  apply Flow.Isa.Ends.block
  simp [strcpy, h.target]
  apply strcpy_L7 _ hmov
  constructor <;> simp [h.mem, h.dest, h.source]

theorem strcpy_L2 (h : Carrying 6 m d q p s) (hmov : Movable m q p e) (hz : ¬ HasZero m p 16)
    (h9 : s.quad 9 = .ofNat 128 (le m p 16)) (h10 : s.quad 10 = ones ++ ones)
    (h8 : s.quad 8 = highs ++ highs) (hpa : p % 16 = 0) (hqa : q % 16 = 0) :
    isa.Ends strcpy .L2 s (Moved (copyString m q p e) d) := by
  induction hk : e - p using Nat.strongRecOn generalizing s m q p with
  | ind k ih =>
    have hmov' := hmov.piece hz
    have hle' := hmov'.le
    have hbound := hmov.bound
    have hroom := hmov.room
    have hp : addr (word (p + 16)) = p + 16 := addr_word_natCast (n := p + 16) (by omega)
    have hq : addr (word q) = q := addr_word_natCast (by omega)
    have htest := quad_test (storeLe m q 16 (le m p 16)) (p + 16)
    rw [quadTest, BitVec.or_comm] at htest
    rw [hmov.copyString_piece hz]
    apply Flow.Isa.Ends.block
    simp [strcpy, h.mem, h.target, h.source, h8, h9, h10, hp, hq, hpa, hqa, htest,
      -BitVec.or_eq_zero_iff]
    split
    · apply Flow.Isa.Ends.block
      simp [strcpy]
      apply strcpy_L7 _ hmov'
      constructor <;> simp [h.mem, h.dest]
    · next hz' =>
      apply ih (e - (p + 16)) (by omega) _ hmov' hz' _ _ _ (by omega) (by omega) rfl
      · constructor <;> simp [h.mem, h.dest]
      · simp
      · simp [h10]
      · simp [h8]

theorem strcpy_quadFirst (hm : s.mem = m) (h7 : s.dword 7 = word d) (h5 : s.dword 5 = word p)
    (h9 : s.dword 9 = ones) (h4 : s.dword 4 = highs) (hmov : Movable m d p e) (hpa : p % 16 = 0)
    (hda : d % 16 = 0) : isa.Ends strcpy .quadFirst s (Moved (copyString m d p e) d) := by
  have hle := hmov.le
  have hbound := hmov.bound
  have hp : addr (word p) = p := addr_word_natCast (by omega)
  have htest := quad_test m p
  rw [quadTest, BitVec.or_comm] at htest
  apply Flow.Isa.Ends.block
  simp [strcpy, hm, h4, h5, h7, h9, hp, hpa, htest, -BitVec.or_eq_zero_iff]
  split
  · apply strcpy_L4 _ hmov
    constructor <;> simp [hm, h5, h7]
  · next hz =>
    apply strcpy_L2 _ hmov hz _ _ _ hpa hda
    · constructor <;> simp [hm, h5, h7]
    · simp
    · simp
    · simp

theorem strcpy_L5 (h : Carrying 6 m d q p s) (hmov : Movable m q p e) (hz : ¬ HasZero m p 8)
    (h10 : s.dword 10 = .ofNat 64 (le m p 8)) (h9 : s.dword 9 = ones) (h4 : s.dword 4 = highs)
    (hpa : p % 8 = 0) (hqa : q % 8 = 0) :
    isa.Ends strcpy .L5 s (Moved (copyString m q p e) d) := by
  induction hk : e - p using Nat.strongRecOn generalizing s m q p with
  | ind k ih =>
    have hmov' := hmov.piece hz
    have hle' := hmov'.le
    have hbound := hmov.bound
    have hroom := hmov.room
    have hp : addr (word (p + 8)) = p + 8 := addr_word_natCast (n := p + 8) (by omega)
    have hq : addr (word q) = q := addr_word_natCast (by omega)
    have htest := dword_test (storeLe m q 8 (le m p 8)) (p + 8)
    rw [hmov.copyString_piece hz]
    apply Flow.Isa.Ends.block
    simp [strcpy, h.mem, h.target, h.source, h4, h9, h10, hp, hq, hpa, hqa, htest]
    split
    · apply strcpy_L4 _ hmov'
      constructor <;> simp [h.mem, h.dest]
    · next hz' =>
      apply ih (e - (p + 8)) (by omega) _ hmov' hz' _ _ _ (by omega) (by omega) rfl
      · constructor <;> simp [h.mem, h.dest]
      · simp
      · simp [h9]
      · simp [h4]

theorem strcpy_L3 (hm : s.mem = m) (h7 : s.dword 7 = word d) (h5 : s.dword 5 = word p)
    (h10 : s.dword 10 = .ofNat 64 (le m p 8)) (h9 : s.dword 9 = ones) (h4 : s.dword 4 = highs)
    (hmov : Movable m d p e) (hpa : p % 8 = 0) (hda : d % 8 = 0) :
    isa.Ends strcpy .L3 s (Moved (copyString m d p e) d) := by
  have htest := dword_test m p
  apply Flow.Isa.Ends.block
  simp [strcpy, h4, h7, h9, h10, htest]
  split
  · apply strcpy_L4 _ hmov
    constructor <;> simp [hm, h5, h7]
  · next hz =>
    apply strcpy_L5 _ hmov hz _ _ _ hpa hda
    · constructor <;> simp [hm, h5, h7]
    · simp [h10]
    · simp [h9]
    · simp [h4]

theorem strcpy_copyString (h4 : s.dword 4 = word d) (h5 : s.dword 5 = word p)
    (hmov : Movable s.mem d p e) :
    isa.Ends strcpy .start s (Moved (copyString s.mem d p e) d) := by
  have hle := hmov.le
  have hbound := hmov.bound
  have h8 : (word p ||| word d) &&& 7#64 = 0#64 ↔ p % 8 = 0 ∧ d % 8 = 0 :=
    word_or_and_lowMask (k := 3) p d (by decide)
  have h16 : (word p ||| word d) &&& 15#64 = 0#64 ↔ p % 16 = 0 ∧ d % 16 = 0 :=
    word_or_and_lowMask (k := 4) p d (by decide)
  have hp : addr (word p) = p := addr_word_natCast (by omega)
  apply Flow.Isa.Ends.block
  simp [strcpy, h4, h5, h8]
  split
  · next hdword =>
    apply Flow.Isa.Ends.block
    simp [strcpy, h5, h16, hp, hdword.1]
    split
    · next hquad =>
      exact strcpy_quadFirst (by simp) (by simp) (by simp [h5]) (by simp) (by simp) hmov hquad.1
        hquad.2
    · exact strcpy_L3 (by simp) (by simp) (by simp [h5]) (by simp) (by simp) (by simp) hmov hdword.1
        hdword.2
  · apply strcpy_L7 _ hmov
    constructor <;> simp [h5]

theorem strcpy_dest (l : StrcpyLabel) : ∀ i ∈ (strcpy l).instrs, i.dest < 11 := by
  cases l <;> decide

theorem stringAt_copyUp (hs : StringAt (fun i => m (p + i)) str)
    (hapart : d ≤ p ∨ p + str.length < d) :
    StringAt (fun i => copyUp m d p (str.length + 1) (d + i)) str := by
  have hbytes : ∀ i ≤ str.length, copyUp m d p (str.length + 1) (d + i) = m (p + i) := by
    intro i hi
    rw [copyUp_apply (by omega), if_pos (by omega), Nat.add_sub_cancel_left]
  refine ⟨hs.proper, ?_, ?_⟩
  · apply (begins_congr fun i hi => ?_).mpr hs.begins
    exact hbytes i (Nat.le_of_lt hi)
  · rw [hbytes str.length (Nat.le_refl _)]
    exact hs.terminated

/-- The string arrives, with its end and nothing behind it. -/
theorem strcpy_string (h4 : s.dword 4 = word d) (h5 : s.dword 5 = word p)
    (hs : StringAt (fun i => s.mem (p + i)) str) (hf : Fits d p (str.length + 1))
    (hapart : d ≤ p ∨ p + str.length < d) :
    isa.Ends strcpy .start s fun t =>
      (StringAt (fun i => t.mem (d + i)) str ∧
        (∀ b, b < d ∨ d + str.length < b → t.mem b = s.mem b) ∧ t.dword 2 = word d) ∧
        ∀ r, 11 ≤ r → t.quad r = s.quad r := by
  have htarget := hf.target
  have hsource := hf.source
  have hmov : Movable s.mem d p (p + str.length) :=
    ⟨.of_stringAt hs (by omega), by omega, hapart⟩
  apply (ends_keeps (strcpy_copyString h4 h5 hmov) strcpy_dest).mono
  intro t ht
  obtain ⟨⟨hmem, hret⟩, hregs⟩ := ht
  rw [copyString, Nat.add_sub_cancel_left] at hmem
  refine ⟨⟨?_, ?_, hret⟩, hregs⟩
  · rw [hmem]
    exact stringAt_copyUp hs hapart
  · intro b hb
    rw [hmem, copyUp_apply (by omega), if_neg (by omega)]

/-- A string is moved down by eight bytes over its own beginning. -/
theorem strcpy_string_down :
    isa.Ends strcpy .start (called 8 16 0 (lettersAt 16)) fun t =>
      (StringAt (fun i => t.mem (8 + i)) letters ∧
        (∀ b, b < 8 ∨ 8 + letters.length < b → t.mem b = lettersAt 16 b) ∧ t.dword 2 = word 8) ∧
        ∀ r, 11 ≤ r → t.quad r = (called 8 16 0 (lettersAt 16)).quad r :=
  strcpy_string (p := 16) (by decide) (by decide) ⟨by decide, by decide, by decide⟩
    ⟨by decide, by decide, by decide⟩ (by decide)

end KernelLoader.Asm
