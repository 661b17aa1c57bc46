import KernelLoader.Lib.CString
import KernelLoader.Lib.Mmi

namespace KernelLoader
open Lib Lib.Mmi
set_option autoImplicit true
set_option relaxedAutoImplicit false

/-- `memcpy` of `string.c`: the memory it leaves and its result. -/
def Kernel.memcpy (m : Mem) (dest src size : Nat) : Mem × Nat := (copyUp m dest src size, dest)

namespace Asm

/-- The labels of `memcpy.S`, and names for what follows a branch without a label. -/
inductive MemcpyLabel
  | start | check | quads | L5 | dwords | L9 | rest | L2 | L20 | L13 | L12

def memcpy : Code MemcpyLabel
  | .start => ⟨[.move 8 4, .sltiu 2 6 32], .branch (.ne 2 0) (.move 3 8) .L2 .check⟩
  | .check => ⟨[.or 2 5 8, .andi 2 2 0xF], .likely (.ne 2 0) (.addiu 6 6 (-1)) .L20 .quads⟩
  | .quads => ⟨[.move 7 8], .fall .L5⟩
  | .L5 => ⟨[.lq 3 0 5, .addiu 6 6 (-32), .addiu 5 5 16, .sltiu 4 6 32, .sq 3 0 7, .addiu 7 7 16,
      .lq 2 0 5, .addiu 5 5 16, .sq 2 0 7], .branch (.eq 4 0) (.addiu 7 7 16) .L5 .dwords⟩
  | .dwords => ⟨[.sltiu 2 6 8], .branch (.ne 2 0) (.move 3 7) .L2 .L9⟩
  | .L9 => ⟨[.ld 3 0 5, .addiu 6 6 (-8), .addiu 5 5 8, .sltiu 2 6 8, .sd 3 0 7],
      .branch (.eq 2 0) (.addiu 7 7 8) .L9 .rest⟩
  | .rest => ⟨[.move 3 7], .fall .L2⟩
  | .L2 => ⟨[.addiu 6 6 (-1)], .fall .L20⟩
  | .L20 => ⟨[.li 2 (-1)], .branch (.eq 6 2) (.move 4 2) .L12 .L13⟩
  | .L13 => ⟨[.lbu 2 0 5, .addiu 6 6 (-1), .addiu 5 5 1, .sb 2 0 3, .nop, .nop],
      .branch (.ne 6 4) (.addiu 3 3 1) .L13 .L12⟩
  | .L12 => ⟨[], .ret (.move 2 8)⟩

variable {s : State} {m : Mem} {d p q n : Nat}

/-- The function returns the destination and leaves the memory `m`. -/
def Moved (m : Mem) (d : Nat) (t : State) : Prop := t.mem = m ∧ t.dword 2 = word d

theorem word_ne_neg_one (hn : n + 1 < 2 ^ 32) : word n ≠ word (-1) := by
  rw [ne_eq, word_inj]
  omega

/-- The state in which a function is called with three arguments. -/
def called (a0 a1 a2 : Int) (m : Mem) : State :=
  ⟨fun r => 0#64 ++ (if r = 4 then word a0 else if r = 5 then word a1 else if r = 6 then word a2
    else 0), m⟩

/-- Bytes from `p` on are to be copied to the address `q` in register `r`. -/
structure Copying (r : Nat) (m : Mem) (d q p : Nat) (n : Int) (s : State) : Prop where
  mem : s.mem = m
  dest : s.dword 8 = word d
  target : s.dword r = word q
  source : s.dword 5 = word p
  count : s.dword 6 = word n

/-- Source and destination do not pass the end of the address space. -/
structure Fits (q p n : Nat) : Prop where
  target : q + n ≤ 2 ^ 32
  source : p + n ≤ 2 ^ 32
  count : n < 2 ^ 32

theorem memcpy_L12 (hm : s.mem = m) (hd : s.dword 8 = word d) :
    isa.Ends memcpy .L12 s (Moved m d) := by
  apply Flow.Isa.Ends.block
  simp [memcpy, Moved, hm, hd]

theorem memcpy_L13 (h : Copying 3 m d q p n s) (hlast : s.dword 4 = word (-1))
    (hf : Fits q p (n + 1)) : isa.Ends memcpy .L13 s (Moved (copyUp m q p (n + 1)) d) := by
  obtain ⟨htarget, hsource, hcount⟩ := hf
  induction n generalizing s m p q with
  | zero =>
    have hp : addr (word p) = p := addr_word_natCast (by omega)
    have hq : addr (word q) = q := addr_word_natCast (by omega)
    apply Flow.Isa.Ends.block
    simp [memcpy, h.mem, h.target, h.source, h.count, hlast, hp, hq]
    apply memcpy_L12
    · simp [copyUp, storeLe_one, h.mem]
    · simp [h.dest]
  | succ n ih =>
    have hp : addr (word p) = p := addr_word_natCast (by omega)
    have hq : addr (word q) = q := addr_word_natCast (by omega)
    have hmore : word n ≠ word (-1) := word_ne_neg_one (by omega)
    apply Flow.Isa.Ends.block
    simp [memcpy, h.mem, h.target, h.source, h.count, hlast, hp, hq, hmore]
    rw [copyUp]
    apply ih
    · constructor <;> simp [storeLe_one, h.mem, h.dest]
    · simp [hlast]
    all_goals omega

theorem memcpy_L20 (h : Copying 3 m d q p (n - 1) s) (hf : Fits q p n) :
    isa.Ends memcpy .L20 s (Moved (copyUp m q p n) d) := by
  apply Flow.Isa.Ends.block
  cases n with
  | zero =>
    simp [memcpy, h.count]
    apply memcpy_L12
    · simp [copyUp, h.mem]
    · simp [h.dest]
  | succ n =>
    have hmore : word n ≠ word (-1) := word_ne_neg_one hf.count
    have hcount : s.dword 6 = word n := by simpa using h.count
    simp [memcpy, hcount, hmore]
    apply memcpy_L13
    · constructor <;> simp [h.mem, h.dest, h.target, h.source, hcount]
    · simp
    · exact hf

theorem memcpy_L2 (h : Copying 3 m d q p n s) (hf : Fits q p n) :
    isa.Ends memcpy .L2 s (Moved (copyUp m q p n) d) := by
  apply Flow.Isa.Ends.block
  simp [memcpy, h.count]
  apply memcpy_L20 _ hf
  constructor <;> simp [h.mem, h.dest, h.target, h.source, Int.sub_eq_add_neg]

theorem memcpy_rest (h : Copying 7 m d q p n s) (hf : Fits q p n) :
    isa.Ends memcpy .rest s (Moved (copyUp m q p n) d) := by
  apply Flow.Isa.Ends.block
  simp [memcpy, h.target]
  apply memcpy_L2 _ hf
  constructor <;> simp [h.mem, h.dest, h.source, h.count]

/-- Doublewords may be moved: both addresses are aligned, and a doubleword is read before it is
overwritten. -/
theorem memcpy_L9 (h : Copying 7 m d q p n s) (hf : Fits q p n) (h8 : 8 ≤ n) (hpa : p % 8 = 0)
    (hqa : q % 8 = 0) (hdist : q ≤ p ∨ p + 8 ≤ q) :
    isa.Ends memcpy .L9 s (Moved (copyUp m q p n) d) := by
  induction n using Nat.strongRecOn generalizing s m p q with
  | ind n ih =>
    obtain ⟨htarget, hsource, hcount⟩ := hf
    obtain ⟨k, rfl⟩ := Nat.exists_eq_add_of_le h8
    have hp : addr (word p) = p := addr_word_natCast (by omega)
    have hq : addr (word q) = q := addr_word_natCast (by omega)
    have hlt : (word k).ult (word 8) = decide (k < 8) := ult_word_natCast (by omega) (by decide)
    apply Flow.Isa.Ends.block
    simp [memcpy, h.mem, h.target, h.source, h.count, hp, hq, hpa, hqa, hlt]
    rw [copyUp_piece hdist]
    split
    · next hk =>
      apply ih k (by omega)
      · constructor <;> simp [h.mem, h.dest]
      · constructor <;> omega
      all_goals omega
    · apply memcpy_rest
      · constructor <;> simp [h.mem, h.dest]
      · constructor <;> omega

theorem memcpy_dwords (h : Copying 7 m d q p n s) (hf : Fits q p n) (hpa : p % 8 = 0)
    (hqa : q % 8 = 0) (hdist : q ≤ p ∨ p + 8 ≤ q) :
    isa.Ends memcpy .dwords s (Moved (copyUp m q p n) d) := by
  have hlt : (word n).ult (word 8) = decide (n < 8) := ult_word_natCast hf.count (by decide)
  apply Flow.Isa.Ends.block
  simp [memcpy, h.target, h.count, hlt]
  split
  · next hn =>
    apply memcpy_L9 _ hf hn hpa hqa hdist
    constructor <;> simp [h.mem, h.dest, h.target, h.source, h.count]
  · apply memcpy_L2 _ hf
    constructor <;> simp [h.mem, h.dest, h.source, h.count]

theorem memcpy_L5 (h : Copying 7 m d q p n s) (hf : Fits q p n) (h32 : 32 ≤ n) (hpa : p % 16 = 0)
    (hqa : q % 16 = 0) (hdist : q ≤ p ∨ p + 16 ≤ q) :
    isa.Ends memcpy .L5 s (Moved (copyUp m q p n) d) := by
  induction n using Nat.strongRecOn generalizing s m p q with
  | ind n ih =>
    obtain ⟨htarget, hsource, hcount⟩ := hf
    obtain ⟨k, rfl⟩ := Nat.exists_eq_add_of_le h32
    have hp : addr (word p) = p := addr_word_natCast (by omega)
    have hq : addr (word q) = q := addr_word_natCast (by omega)
    have hp' : addr (word (p + 16)) = p + 16 := addr_word_natCast (n := p + 16) (by omega)
    have hq' : addr (word (q + 16)) = q + 16 := addr_word_natCast (n := q + 16) (by omega)
    have hlt : (word k).ult (word 32) = decide (k < 32) := ult_word_natCast (by omega) (by decide)
    apply Flow.Isa.Ends.block
    simp [memcpy, h.mem, h.target, h.source, h.count, hp, hq, hp', hq', hpa, hqa, hlt]
    have hpieces : copyUp m q p (32 + k) = copyUp (storeLe (storeLe m q 16 (le m p 16)) (q + 16) 16
        (le (storeLe m q 16 (le m p 16)) (p + 16) 16)) (q + 16 + 16) (p + 16 + 16) k := by
      rw [show 32 + k = 16 + (16 + k) by omega, copyUp_piece hdist, copyUp_piece (by omega)]
    rw [hpieces]
    split
    · next hk =>
      apply ih k (by omega)
      · constructor <;> simp [h.mem, h.dest]
      · constructor <;> omega
      all_goals omega
    · apply memcpy_dwords
      · constructor <;> simp [h.mem, h.dest]
      · constructor <;> omega
      all_goals omega

theorem memcpy_quads (h : Copying 3 m d d p n s) (hf : Fits d p n) (h32 : 32 ≤ n)
    (hpa : p % 16 = 0) (hda : d % 16 = 0) :
    isa.Ends memcpy .quads s (Moved (copyUp m d p n) d) := by
  apply Flow.Isa.Ends.block
  simp [memcpy, h.dest]
  apply memcpy_L5 _ hf h32 hpa hda (by omega)
  constructor <;> simp [h.mem, h.dest, h.source, h.count]

theorem memcpy_check (h : Copying 3 m d d p n s) (hf : Fits d p n) (h32 : 32 ≤ n) :
    isa.Ends memcpy .check s (Moved (copyUp m d p n) d) := by
  have halign : (word p ||| word d) &&& 15#64 = 0#64 ↔ p % 16 = 0 ∧ d % 16 = 0 :=
    word_or_and_lowMask (k := 4) p d (by decide)
  apply Flow.Isa.Ends.block
  simp [memcpy, h.source, h.dest, h.count, halign]
  split
  · next ha =>
    apply memcpy_quads _ hf h32 ha.1 ha.2
    constructor <;> simp [h.mem, h.dest, h.target, h.source, h.count]
  · apply memcpy_L20 _ hf
    constructor <;> simp [h.mem, h.dest, h.target, h.source, Int.sub_eq_add_neg]

/-- The copy in quadwords and doublewords leaves what the copy byte by byte leaves, for overlapping
areas too. -/
theorem memcpy_copyUp (h4 : s.dword 4 = word d) (h5 : s.dword 5 = word p) (h6 : s.dword 6 = word n)
    (hf : Fits d p n) : isa.Ends memcpy .start s (Moved (copyUp s.mem d p n) d) := by
  have hlt : (word n).ult (word 32) = decide (n < 32) := ult_word_natCast hf.count (by decide)
  apply Flow.Isa.Ends.block
  simp [memcpy, h4, h6, hlt]
  split
  · next hn =>
    apply memcpy_check _ hf hn
    constructor <;> simp [h5, h6]
  · apply memcpy_L2 _ hf
    constructor <;> simp [h5, h6]

theorem memcpy_dest (l : MemcpyLabel) : ∀ i ∈ (memcpy l).instrs, i.dest < 9 := by
  cases l <;> decide

/-- The assembler function does to memory what the C function does, for every overlap of source and
destination, and writes no register from `$9` on. -/
theorem memcpy_refines (h4 : s.dword 4 = word d) (h5 : s.dword 5 = word p)
    (h6 : s.dword 6 = word n) (hf : Fits d p n) :
    isa.Ends memcpy .start s fun t =>
      (t.mem = (Kernel.memcpy s.mem d p n).1 ∧ t.dword 2 = word (Kernel.memcpy s.mem d p n).2) ∧
        ∀ r, 9 ≤ r → t.quad r = s.quad r :=
  ends_keeps (memcpy_copyUp h4 h5 h6 hf) memcpy_dest

/-- A copy of forty bytes to a place eight bytes behind the source. -/
theorem memcpy_refines_overlap :
    isa.Ends memcpy .start (called 1008 1000 40 .ofNat) fun t =>
      (t.mem = (Kernel.memcpy .ofNat 1008 1000 40).1 ∧
        t.dword 2 = word (Kernel.memcpy .ofNat 1008 1000 40).2) ∧
        ∀ r, 9 ≤ r → t.quad r = (called 1008 1000 40 .ofNat).quad r :=
  memcpy_refines (by decide) (by decide) (by decide) ⟨by decide, by decide, by decide⟩

end Asm

end KernelLoader
