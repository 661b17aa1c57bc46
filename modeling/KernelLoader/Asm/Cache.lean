import KernelLoader.Lib.Cache
import Mathlib.Tactic.Linarith

namespace KernelLoader.Asm
open Lib Lib.Mmi Lib.Cache
set_option autoImplicit true
set_option relaxedAutoImplicit false

/-- The labels of `core.S`, and names for what follows a branch without a label. -/
inductive WriteBackLabel
  | start | lines | loop1 | eight | loop8 | body8 | last

def sifWriteBackDCache : Cache.Code WriteBackLabel
  | .start => ⟨[.plain (.lui 25 0xffff), .plain (.ori 25 25 0xffc0)],
      .branch (.lez 5) (.plain (.addu 10 4 5)) .last .lines⟩
  | .lines => ⟨[.plain (.and 8 4 25), .plain (.addiu 10 10 (-1)), .plain (.and 9 10 25),
      .plain (.subu 10 9 8), .plain (.srl 11 10 6), .plain (.addiu 11 11 1),
      .plain (.andi 9 11 0x7)], .branch (.eq 9 0) (.plain (.srl 10 11 3)) .eight .loop1⟩
  | .loop1 => ⟨[.sync, .dhwbin 0 8, .sync, .plain (.addiu 9 9 (-1)), .plain .nop],
      .branch (.gtz 9) (.plain (.addiu 8 8 64)) .loop1 .eight⟩
  | .eight => ⟨[], .branch (.eq 10 0) (.plain (.addiu 10 10 (-1))) .last .body8⟩
  | .loop8 => ⟨[.plain (.addiu 10 10 (-1))], .fall .body8⟩
  | .body8 => ⟨[.sync, .dhwbin 0 8, .sync, .dhwbin 64 8, .sync, .dhwbin 128 8, .sync, .dhwbin 192 8,
      .sync, .dhwbin 256 8, .sync, .dhwbin 320 8, .sync, .dhwbin 384 8, .sync, .dhwbin 448 8,
      .sync],
      .branch (.gtz 10) (.plain (.addiu 8 8 512)) .loop8 .last⟩
  | .last => ⟨[], .ret (.plain .nop)⟩

variable {frame : Nat → BitVec 20} {s : Machine} {d : Store} {a p k n : Nat}

/-- The function leaves a cache and memory. -/
def Leaves (d : Store) (t : Machine) : Prop := t.store = d

theorem sifWriteBackDCache_last (hd : s.store = d) :
    (isa frame).Ends sifWriteBackDCache .last s (Leaves d) := by
  apply Flow.Isa.Ends.block
  simp [sifWriteBackDCache, Leaves, hd]

theorem discardUp_eight (d : Store) (p n : Nat) :
    d.discardUp frame p (8 * (n + 1)) =
      ((((((((d.discardHit (phys frame p)).discardHit (phys frame (p + 64))).discardHit
        (phys frame (p + 128))).discardHit (phys frame (p + 192))).discardHit
        (phys frame (p + 256))).discardHit (phys frame (p + 320))).discardHit
        (phys frame (p + 384))).discardHit (phys frame (p + 448))).discardUp frame (p + 512)
        (8 * n) := by
  rw [Nat.mul_succ, Nat.add_comm, Store.discardUp_append]
  rfl

theorem addr_offset (hp : p + 448 < 2 ^ 32) (hc : c ≤ 448) : addr (word (p + c : Nat)) = p + c :=
  addr_word_natCast (by omega)

theorem sifWriteBackDCache_body8 (hd : s.store = d) (h8 : s.cpu.dword 8 = word p)
    (h10 : s.cpu.dword 10 = word n) (hp : p + 512 * (n + 1) ≤ 2 ^ 32) :
    (isa frame).Ends sifWriteBackDCache .body8 s (Leaves (d.discardUp frame p (8 * (n + 1)))) := by
  induction n using Nat.strongRecOn generalizing s d p with
  | ind n ih =>
    have hend : p + 448 < 2 ^ 32 := by linarith
    have h0 : addr (word p) = p := addr_word_natCast (by omega)
    have h64 : addr (word (p + 64)) = p + 64 := addr_offset hend (c := 64) (by decide)
    have h128 : addr (word (p + 128)) = p + 128 := addr_offset hend (c := 128) (by decide)
    have h192 : addr (word (p + 192)) = p + 192 := addr_offset hend (c := 192) (by decide)
    have h256 : addr (word (p + 256)) = p + 256 := addr_offset hend (c := 256) (by decide)
    have h320 : addr (word (p + 320)) = p + 320 := addr_offset hend (c := 320) (by decide)
    have h384 : addr (word (p + 384)) = p + 384 := addr_offset hend (c := 384) (by decide)
    have h448 : addr (word (p + 448)) = p + 448 := addr_offset hend (c := 448) (by decide)
    have hmore : (0#64).slt (word n) = decide (0 < n) := by
      rw [gtz_word (by omega) (by omega)]
      exact decide_eq_decide.mpr Int.natCast_pos
    rw [discardUp_eight]
    apply Flow.Isa.Ends.block
    simp -implicitDefEqProofs [sifWriteBackDCache, hd, h8, h10, hmore, h0, h64, h128, h192, h256,
      h320, h384, h448]
    split
    · next hn =>
      obtain ⟨j, rfl⟩ := Nat.exists_eq_add_of_lt hn
      apply Flow.Isa.Ends.block
      simp [sifWriteBackDCache, h10]
      apply ih j (by omega)
      · simp
      · simp
      · simp
      · linarith
    · next hn =>
      obtain rfl : n = 0 := by omega
      apply sifWriteBackDCache_last
      simp [Store.discardUp]

theorem sifWriteBackDCache_eight (hd : s.store = d) (h8 : s.cpu.dword 8 = word p)
    (h10 : s.cpu.dword 10 = word n) (hp : p + 512 * n ≤ 2 ^ 32) :
    (isa frame).Ends sifWriteBackDCache .eight s (Leaves (d.discardUp frame p (8 * n))) := by
  have hzero : word n = 0#64 ↔ n = 0 := word_eq_zero (by omega)
  apply Flow.Isa.Ends.block
  simp [sifWriteBackDCache, h10, hzero]
  split
  · next hn =>
    apply sifWriteBackDCache_last
    simp [hn, Store.discardUp, hd]
  · next hn =>
    obtain ⟨j, rfl⟩ := Nat.exists_eq_add_of_lt (Nat.pos_of_ne_zero hn)
    rw [Nat.zero_add]
    apply sifWriteBackDCache_body8
    · simp [hd]
    · simp [h8]
    · simp
    · linarith

theorem sifWriteBackDCache_loop1 (hd : s.store = d) (h8 : s.cpu.dword 8 = word p)
    (h9 : s.cpu.dword 9 = word (k + 1)) (h10 : s.cpu.dword 10 = word n)
    (hp : p + 64 * (k + 1) + 512 * n ≤ 2 ^ 32) :
    (isa frame).Ends sifWriteBackDCache .loop1 s
      (Leaves (d.discardUp frame p (k + 1 + 8 * n))) := by
  induction k generalizing s d p with
  | zero =>
    have h0 : addr (word p) = p := addr_word_natCast (by omega)
    apply Flow.Isa.Ends.block
    simp [sifWriteBackDCache, hd, h8, h9, h0]
    rw [Nat.add_comm, Store.discardUp]
    apply sifWriteBackDCache_eight
    · simp
    · simp
    · simp [h10]
    · omega
  | succ k ih =>
    have h0 : addr (word p) = p := addr_word_natCast (by omega)
    have hmore : (0#64).slt (word (k + 1)) = decide (0 < (k : Int) + 1) :=
      gtz_word (by omega) (by omega)
    have hpos : 0 < (k : Int) + 1 := by omega
    apply Flow.Isa.Ends.block
    simp [sifWriteBackDCache, hd, h8, h9, h0, hmore, hpos]
    rw [Nat.add_right_comm, Store.discardUp]
    apply ih
    · simp
    · simp
    · simp
    · simp [h10]
    · omega

theorem sifWriteBackDCache_lines {e : Nat} (hd : s.store = d) (h4 : s.cpu.dword 4 = word a)
    (h10 : s.cpu.dword 10 = word (e + 1)) (h25 : s.cpu.dword 25 = ~~~lowMask 64 6) (hae : a ≤ e)
    (he : e < 2 ^ 32) :
    (isa frame).Ends sifWriteBackDCache .lines s
      (Leaves (d.discardUp frame (a / 64 * 64) (e / 64 - a / 64 + 1))) := by
  generalize hf : a / 64 * 64 = f
  generalize hc : e / 64 - a / 64 = c
  have hfirst : word a &&& ~~~lowMask 64 6 = word f := by
    rw [← hf]
    exact word_and_not_lowMask a (by decide)
  have hlast : word e &&& ~~~lowMask 64 6 = word (f + 64 * c) := by
    rw [word_and_not_lowMask e (by decide)]
    congr 1
    omega
  have hcount : srlw (word (64 * c)) 6 = word c := by
    have h := srlw_word (n := 64 * c) (by omega) 6
    rw [show 64 * c / 2 ^ 6 = c by omega] at h
    exact_mod_cast h
  have hrest : word (c + 1) &&& 7#64 = word ((c + 1) % 8 : Nat) :=
    word_and_lowMask_eq (k := 3) (c + 1) (by decide)
  have heights : srlw (word (c + 1)) 3 = word ((c + 1) / 8 : Nat) :=
    srlw_word (n := c + 1) (by omega) 3
  generalize hr : (c + 1) % 8 = r at hrest
  generalize hm : (c + 1) / 8 = m at heights
  have hzero : word r = 0#64 ↔ r = 0 := word_eq_zero (by omega)
  have hsplit : c + 1 = r + 8 * m := by omega
  apply Flow.Isa.Ends.block
  simp [sifWriteBackDCache, h4, h10, h25, hfirst, hlast, hcount, hrest, heights, hzero]
  rw [hsplit]
  split
  · next hr0 =>
    rw [hr0, Nat.zero_add]
    apply sifWriteBackDCache_eight
    · simp [hd]
    · simp
    · simp
    · omega
  · next hr0 =>
    obtain ⟨k, rfl⟩ := Nat.exists_eq_add_of_lt (Nat.pos_of_ne_zero hr0)
    rw [Nat.zero_add]
    apply sifWriteBackDCache_loop1
    · simp [hd]
    · simp
    · simp
    · simp
    · omega

theorem sifWriteBackDCache_dest (l : WriteBackLabel) :
    ∀ i ∈ (sifWriteBackDCache l).instrs, i.dest ∈ [0, 8, 9, 10, 11, 25] := by
  cases l <;> decide

theorem word_or_ffc0 : word 4294901760 ||| 65472#64 = ~~~lowMask 64 6 := by decide

theorem sifWriteBackDCache_discards {n : Int} (h4 : s.cpu.dword 4 = word a)
    (h5 : s.cpu.dword 5 = word n) (hlow : -2 ^ 31 ≤ n) (hhigh : n < 2 ^ 31)
    (ha : a + n ≤ 2 ^ 32) :
    (isa frame).Ends sifWriteBackDCache .start s
      (Leaves (if n ≤ 0 then s.store else
        s.store.discardUp frame (a / 64 * 64) ((a + n.toNat - 1) / 64 - a / 64 + 1))) := by
  have hlez := lez_word hlow hhigh
  apply Flow.Isa.Ends.block
  simp [sifWriteBackDCache, h4, h5, hlez]
  split
  · apply sifWriteBackDCache_last
    simp
  · next hn =>
    obtain ⟨k, rfl⟩ : ∃ k : Nat, n = k + 1 := ⟨(n - 1).toNat, by omega⟩
    have hlast : a + ((k : Int) + 1).toNat - 1 = a + k := by omega
    rw [hlast]
    apply sifWriteBackDCache_lines
    · simp
    · simp [h4]
    · simp [Int.add_assoc]
    · simp [word_or_ffc0]
    all_goals omega

/-- A function leaves the cache without the lines of a set of physical addresses. Every byte of them
is in memory as the processor saw it, for the processor nothing changed, and lines of other
addresses are as they were. -/
def Drained (P : Nat → Prop) (s t : Machine) : Prop :=
  t.code = s.code ∧ t.store.Sound ∧ (∀ b, t.store.view b = s.store.view b) ∧
    (∀ b, P b → t.store.mem b = s.store.view b ∧ ¬ t.store.Cached b) ∧
    ∀ b, ¬ P b → t.store.mem b = s.store.mem b ∧
      ∀ w, s.store.Holds w b → t.store.lines w (index b) = s.store.lines w (index b)

theorem drained_of_drains {P : Nat → Prop} {t : Machine} (h : Store.Drains P s.store t.store)
    (hcode : t.code = s.code) : Drained P s t :=
  ⟨hcode, h.sound, h.view, fun b hb => ⟨h.written hb, h.gone b hb⟩,
    fun b hb => ⟨h.mem b hb, fun w hw => h.kept w b hw hb⟩⟩

theorem lines_of_area {e : Nat} (hae : a ≤ e) (b : Nat) :
    (∃ x, a ≤ x ∧ x ≤ e ∧ b / 64 = phys frame x / 64) ↔
      ∃ x, a / 64 * 64 ≤ x ∧ x < a / 64 * 64 + 64 * (e / 64 - a / 64 + 1) ∧
        b / 64 = phys frame x / 64 := by
  constructor
  · rintro ⟨x, hax, hxe, hb⟩
    exact ⟨x, by omega, by omega, hb⟩
  · rintro ⟨x, hax, hxe, hb⟩
    by_cases hfirst : x < a
    · exact ⟨a, Nat.le_refl a, hae, hb.trans (phys_line (by omega))⟩
    · by_cases hlast : e < x
      · exact ⟨e, hae, Nat.le_refl e, hb.trans (phys_line (by omega))⟩
      · exact ⟨x, by omega, by omega, hb⟩

/-- After the call a device sees what the processor wrote into an area, and the processor will see
what the device writes there. -/
theorem sifWriteBackDCache_drains {n : Int} (hs : s.store.Sound) (h4 : s.cpu.dword 4 = word a)
    (h5 : s.cpu.dword 5 = word n) (hlow : -2 ^ 31 ≤ n) (hhigh : n < 2 ^ 31)
    (ha : a + n ≤ 2 ^ 32) :
    (isa frame).Ends sifWriteBackDCache .start s fun t =>
      Drained (fun b => ∃ x : Nat, a ≤ x ∧ (x : Int) < a + n ∧ b / 64 = phys frame x / 64) s t ∧
        ∀ r, r ∉ [0, 8, 9, 10, 11, 25] → t.cpu.quad r = s.cpu.quad r := by
  have hends : (isa frame).Ends sifWriteBackDCache .start s _ :=
    sifWriteBackDCache_discards h4 h5 hlow hhigh ha
  have hcode : ∀ l, ∀ i ∈ (sifWriteBackDCache l).instrs, i.onCode = false := by
    intro l
    cases l <;> decide
  apply (ends_keeps (ends_code hends hcode) sifWriteBackDCache_dest).mono
  rintro t ⟨⟨hstore, hcode⟩, hregs⟩
  refine ⟨drained_of_drains ?_ hcode, hregs⟩
  rw [hstore]
  split
  · next hn =>
    apply (Store.Drains.refl hs).congr
    intro b
    refine iff_of_false ?_ not_false
    rintro ⟨x, hax, hxn, -⟩
    omega
  · next hn =>
    apply (Store.Drains.discardUp hs (by omega) _).congr
    intro b
    rw [← lines_of_area (by omega)]
    apply exists_congr
    intro x
    omega

/-- A cache with one changed line, whose byte 5 at the address 0x1005 is not yet in memory. -/
def oneLine : Machine where
  cpu := ⟨fun r => 0#64 ++ (if r = 4 then word 0x1005 else if r = 5 then word 1 else 0), fun _ => 0⟩
  lines := fun w i => ⟨1, w.val == 0 && i == 0, w.val == 0 && i == 0, fun _ => 7⟩
  code := fun _ _ => ⟨0, false, false, fun _ => 0⟩
  tagLo := 0

theorem oneLine_sound : oneLine.store.Sound where
  clean := by
    rintro w a ⟨hv, -⟩ hd
    exact absurd (hd.symm.trans hv) (by decide)
  single := by
    rintro v w a ⟨hv, -⟩ ⟨hw, -⟩
    have hzero (x : Fin 2) (hx : (x.val == 0 && index a == 0) = true) : x = 0 :=
      Fin.ext (eq_of_beq (Bool.and_eq_true_iff.mp hx).1)
    rw [hzero v hv, hzero w hw]

theorem sifWriteBackDCache_drains_oneLine :
    (isa fun q => .ofNat 20 q).Ends sifWriteBackDCache .start oneLine fun t =>
      Drained (fun b => ∃ x : Nat, 0x1005 ≤ x ∧ (x : Int) < (0x1005 : Nat) + 1 ∧
        b / 64 = phys (fun q => .ofNat 20 q) x / 64) oneLine t ∧
        ∀ r, r ∉ [0, 8, 9, 10, 11, 25] → t.cpu.quad r = oneLine.cpu.quad r :=
  sifWriteBackDCache_drains oneLine_sound (by decide) (by decide) (by decide) (by decide)
    (by decide)

inductive AllLinesLabel
  | start | loop | done

/-- `flushDCacheAll` and `invalidateICacheAll` of `cache.S`: an operation on the lines of both ways
with `n` indices. -/
def allLines (op : Int → Nat → Op) (n : Int) : Cache.Code AllLinesLabel
  | .start => ⟨[.plain (.li 8 0), .plain (.li 9 n)], .fall .loop⟩
  | .loop => ⟨[.sync, op 0 8, .sync, op 1 8, .sync, .plain (.addi 9 9 (-1)), .plain (.addi 8 8 64)],
      .branch (.gtz 9) (.plain .nop) .loop .done⟩
  | .done => ⟨[], .ret (.plain .nop)⟩

def flushDCacheAll : Cache.Code AllLinesLabel := allLines .dxwbin 64

def invalidateICacheAll : Cache.Code AllLinesLabel := allLines .ixin 128

section AllLines
variable {β : Type}

/-- What the operations on both ways make of a part of the machine, for `n` lines. -/
def bothWays (g : Nat → β → β) (i : Nat) : Nat → β → β
  | 0, x => x
  | n + 1, x => bothWays g (i + 1) n (g (64 * i + 1) (g (64 * i) x))

/-- A part of the machine that an operation changes, and no register with it. -/
structure Acts (frame : Nat → BitVec 20) (op : Int → Nat → Op) (obs : Machine → β)
    (g : Nat → β → β) : Prop where
  exec : ∀ s o, ∃ t, exec frame (op o 8) s = some t ∧ (∀ r, t.cpu.dword r = s.cpu.dword r) ∧
    obs t = g (s.cpu.address 8 o) (obs s)
  plain : ∀ (s : Machine) r v, obs (s.setCpu (s.cpu.setDword r v)) = obs s

variable {op : Int → Nat → Op} {obs : Machine → β} {g : Nat → β → β} {x : β} {i : Nat}

theorem allLines_loop (ha : Acts frame op obs g) (n : Int) (hx : obs s = x)
    (h8 : s.cpu.dword 8 = word (64 * i)) (h9 : s.cpu.dword 9 = word (k + 1))
    (hi : 64 * (i + k + 1) < 2 ^ 31) :
    (isa frame).Ends (allLines op n) .loop s fun t => obs t = bothWays g i (k + 1) x := by
  induction k using Nat.strongRecOn generalizing s i x with
  | ind k ih =>
    obtain ⟨t, ht, htregs, htobs⟩ := ha.exec s 0
    obtain ⟨u, hu, huregs, huobs⟩ := ha.exec t 1
    have hway0 : addr (word (64 * i)) = 64 * i := addr_word_natCast (n := 64 * i) (by omega)
    have hway1 : addr (word (64 * i + 1)) = 64 * i + 1 :=
      addr_word_natCast (n := 64 * i + 1) (by omega)
    have hcount : signed (word (k + 1)) = k + 1 := signed_word (by omega) (by omega)
    have hline : signed (word (64 * i)) = 64 * i := signed_word (by omega) (by omega)
    have hmore := gtz_word (a := k) (by omega) (by omega)
    have hobs : obs u = g (64 * i + 1) (g (64 * i) x) := by
      simp [huobs, htobs, htregs, h8, hway0, hway1, hx]
    have hsame (v w : BitVec 64) :
        obs (u.setCpu ((u.cpu.setDword 9 v).setDword 8 w)) = g (64 * i + 1) (g (64 * i) x) :=
      (ha.plain (u.setCpu (u.cpu.setDword 9 v)) 8 w).trans ((ha.plain u 9 v).trans hobs)
    apply Flow.Isa.Ends.block
    simp [allLines, ht, hu, htregs, huregs, h8, h9, hcount, hline, hmore]
    refine ⟨by omega, by omega, ?_⟩
    rw [bothWays]
    split
    · next hk =>
      obtain ⟨j, rfl⟩ := Nat.exists_eq_add_of_lt hk
      rw [Nat.zero_add]
      apply ih j (by omega) (hsame _ _)
      · simp [Int.mul_add]
      · simp
      · omega
    · next hk =>
      obtain rfl : k = 0 := by omega
      apply Flow.Isa.Ends.block
      simp [allLines, hsame, bothWays]

theorem allLines_start (ha : Acts frame op obs g) (hk : 64 * (k + 1) < 2 ^ 31) :
    (isa frame).Ends (allLines op (k + 1)) .start s fun t =>
      obs t = bothWays g 0 (k + 1) (obs s) := by
  apply Flow.Isa.Ends.block
  simp [allLines]
  have hsame (v w : BitVec 64) : obs (s.setCpu ((s.cpu.setDword 8 v).setDword 9 w)) = obs s :=
    (ha.plain (s.setCpu (s.cpu.setDword 8 v)) 9 w).trans (ha.plain s 8 v)
  apply allLines_loop ha _ (hsame _ _)
  · simp
  · simp
  · omega

end AllLines

theorem way_line (i : Nat) (w : Fin 2) : way (64 * i + w) = w := by
  have hw := w.isLt
  apply Fin.ext
  change (64 * i + w) % 2 = w
  omega

theorem way_even (i : Nat) : way (64 * i) = 0 := way_line i 0

theorem way_odd (i : Nat) : way (64 * i + 1) = 1 := way_line i 1

theorem index_line {c : Nat} (hi : i < 64) (hc : c < 64) : index (64 * i + c) = i := by
  rw [index]
  omega

theorem flushDCacheAll_acts :
    Acts frame .dxwbin Machine.store fun a d => d.discard (way a) (index a) where
  exec _ _ := ⟨_, rfl, fun _ => rfl, rfl⟩
  plain _ _ _ := rfl

theorem bothWays_discard (hi : i + n ≤ 64) :
    bothWays (fun a d => d.discard (way a) (index a)) i n d =
      d.discardFrom (fun _ => true) i n := by
  induction n generalizing i d with
  | zero => rfl
  | succ n ih =>
    have h0 : index (64 * i) = i := index_line (c := 0) (by omega) (by decide)
    have h1 : index (64 * i + 1) = i := index_line (by omega) (by decide)
    rw [bothWays, way_even, way_odd, h0, h1, ih (by omega)]
    rfl

theorem flushDCacheAll_store (hs : s.store.Sound) :
    (isa frame).Ends flushDCacheAll .start s fun t =>
      Store.Drains (fun _ => True) s.store t.store := by
  apply (allLines_start (k := 63) flushDCacheAll_acts (by decide)).mono
  intro t ht
  rw [bothWays_discard (by decide)] at ht
  rw [ht]
  apply (Store.Drains.discardFrom hs (fun _ => true) (by decide)).congr
  intro b
  have hlt : index b < 64 := Nat.mod_lt _ (by decide)
  simp
  omega

/-- What the operation on instructions makes of their cache; it leaves that of the data. -/
def invalidates (a : Nat) (x : Lines × Store) : Lines × Store :=
  (x.1.invalidate (way a) (a / 64 % 128), x.2)

theorem invalidateICacheAll_acts :
    Acts frame .ixin (fun s => (s.code, s.store)) invalidates where
  exec _ _ := ⟨_, rfl, fun _ => rfl, rfl⟩
  plain _ _ _ := rfl

theorem valid_invalidate {c : Lines} {v w : Fin 2} {j : Nat}
    (h : (v = w ∧ j = i) ∨ (c v j).valid = false) : ((c.invalidate w i) v j).valid = false := by
  rw [Lines.invalidate]
  split
  · rfl
  · next hne => exact h.resolve_left hne

theorem bothWays_invalidates {x : Lines × Store} (hi : i + n ≤ 128) :
    (∀ w j, (i ≤ j ∧ j < i + n) ∨ (x.1 w j).valid = false →
      ((bothWays invalidates i n x).1 w j).valid = false) ∧
      (bothWays invalidates i n x).2 = x.2 := by
  induction n generalizing i x with
  | zero =>
    refine ⟨fun w j h => ?_, rfl⟩
    exact h.resolve_left (by omega)
  | succ n ih =>
    have h0 : 64 * i / 64 % 128 = i := by omega
    have h1 : (64 * i + 1) / 64 % 128 = i := by omega
    rw [bothWays]
    obtain ⟨hlines, hstore⟩ := ih (i := i + 1) (x := invalidates (64 * i + 1)
      (invalidates (64 * i) x)) (by omega)
    refine ⟨fun w j h => hlines w j ?_, hstore⟩
    by_cases hj : i + 1 ≤ j ∧ j < i + 1 + n
    · exact .inl hj
    · right
      apply valid_invalidate
      rw [way_odd, h1]
      by_cases hfirst : j = i
      · obtain rfl | rfl : w = 0 ∨ w = 1 := by omega
        · right
          apply valid_invalidate
          rw [way_even, h0]
          exact .inl ⟨rfl, hfirst⟩
        · exact .inl ⟨rfl, hfirst⟩
      · right
        apply valid_invalidate
        exact .inr (h.resolve_left (by omega))

theorem invalidateICacheAll_code :
    (isa frame).Ends invalidateICacheAll .start s fun t =>
      (∀ w, ∀ j < 128, (t.code w j).valid = false) ∧ t.store = s.store := by
  apply (allLines_start (k := 127) invalidateICacheAll_acts (by decide)).mono
  intro t ht
  obtain ⟨hlines, hstore⟩ := bothWays_invalidates (i := 0) (n := 128) (x := (s.code, s.store))
    (by decide)
  refine ⟨fun w j hj => ?_, ?_⟩
  · have hvalid := hlines w j (.inl ⟨Nat.zero_le j, by omega⟩)
    rw [← ht] at hvalid
    exact hvalid
  · exact (congrArg Prod.snd ht).trans hstore

theorem fetch_of_invalid (h : ∀ w, ∀ j < 128, (s.code w j).valid = false) (a : Nat) :
    s.fetch frame a = s.cpu.mem (phys frame a) := by
  have hlt : a / 64 % 128 < 128 := Nat.mod_lt _ (by decide)
  rw [Machine.fetch]
  simp [h _ _ hlt]

/-- Code that was written as data is executed: after both functions the processor fetches at every
address the bytes it read there before, with nothing left in the cache of the data. -/
theorem flush_invalidate_fetch (hs : s.store.Sound) :
    (isa frame).Ends flushDCacheAll .start s fun t =>
      (isa frame).Ends invalidateICacheAll .start t fun u =>
        (∀ x, u.fetch frame x = s.store.view (phys frame x)) ∧
          (∀ b, u.store.view b = s.store.view b) ∧ ∀ b, ¬ u.store.Cached b := by
  apply (flushDCacheAll_store hs).mono
  intro t ht
  apply invalidateICacheAll_code.mono
  rintro u ⟨hcode, hstore⟩
  refine ⟨fun x => ?_, ?_, ?_⟩
  · have hmem : u.cpu.mem = t.store.mem := congrArg Store.mem hstore
    rw [fetch_of_invalid hcode, hmem]
    exact ht.written trivial
  · rw [hstore]
    exact ht.view
  · rw [hstore]
    exact fun b => ht.gone b trivial

theorem flush_invalidate_fetch_oneLine :
    (isa fun q => .ofNat 20 q).Ends flushDCacheAll .start oneLine fun t =>
      (isa fun q => .ofNat 20 q).Ends invalidateICacheAll .start t fun u =>
        (∀ x, u.fetch (fun q => .ofNat 20 q) x =
            oneLine.store.view (phys (fun q => .ofNat 20 q) x)) ∧
          (∀ b, u.store.view b = oneLine.store.view b) ∧ ∀ b, ¬ u.store.Cached b :=
  flush_invalidate_fetch oneLine_sound

inductive SyncLabel
  | start | one | oneEnd | oneOp | two | twoEnd | twoOp | three | done

/-- The part of the macro `opDCache` for a way: read the tag and compare the address with the start,
then with the end, and write back. -/
def syncTest (w : Nat) (next more : SyncLabel) : Flow.Block Op Cond SyncLabel :=
  ⟨[.sync, .dxltg w 6, .sync, .sync, .mfc0 2, .plain (.and 2 2 7), .plain (.addu 2 2 6),
    .plain (.sltu 3 5 2), .plain (.sltu 2 2 4)], .branch (.ne 2 0) (.plain .nop) next more⟩

def syncEnd (next more : SyncLabel) : Flow.Block Op Cond SyncLabel :=
  ⟨[], .branch (.ne 3 0) (.plain .nop) next more⟩

def syncOp (w : Nat) (next : SyncLabel) : Flow.Block Op Cond SyncLabel :=
  ⟨[.sync, .dxwbin w 6, .sync], .fall next⟩

/-- `_SyncDCache` of `cache.S` -/
def _syncDCache : Cache.Code SyncLabel
  | .start => ⟨[.plain (.lui 7 0xffff), .plain (.daddu 6 0 0), .plain (.ori 7 7 0xf000),
      .plain .nop], .fall .one⟩
  | .one => syncTest 0 .two .oneEnd
  | .oneEnd => syncEnd .two .oneOp
  | .oneOp => syncOp 0 .two
  | .two => syncTest 1 .three .twoEnd
  | .twoEnd => syncEnd .three .twoOp
  | .twoOp => syncOp 1 .three
  | .three => ⟨[.sync, .plain (.addiu 6 6 64), .plain (.slti 2 6 4096)],
      .branch (.ne 2 0) (.plain .nop) .one .done⟩
  | .done => ⟨[], .ret (.plain .nop)⟩

section Sync
variable {e i : Nat}

/-- The addresses from `a` to `e`. -/
def between (a e b : Nat) : Bool := decide (a ≤ b) && decide (b ≤ e)

structure Syncing (d : Store) (a e i : Nat) (s : Machine) : Prop where
  store : s.store = d
  first : s.cpu.dword 4 = word a
  last : s.cpu.dword 5 = word e
  line : s.cpu.dword 6 = word (64 * i)
  mask : s.cpu.dword 7 = ~~~lowMask 64 12

theorem base_lt (l : Line) (hi : i < 64) : l.base i < 2 ^ 32 := by
  have hlt := l.tag.isLt
  rw [Line.base]
  omega

theorem tagWord_base (l : Line) (i : Nat) :
    addw (word l.tagWord &&& ~~~lowMask 64 12) (word (64 * i)) = word (l.base i) := by
  have htag : l.tagWord / 2 ^ 12 * 2 ^ 12 = l.tag.toNat * 4096 := by
    rw [Line.tagWord]
    split <;> split <;> omega
  rw [word_and_not_lowMask _ (by decide), htag, addw_word, Line.base]
  push_cast
  rfl

theorem _syncDCache_way (w : Fin 2) {l l' o next : SyncLabel}
    (hl : _syncDCache l = syncTest w next l')
    (he : _syncDCache l' = syncEnd next o) (ho : _syncDCache o = syncOp w next)
    (h : Syncing d a e i s) (hlo : a < 2 ^ 32) (hhi : e < 2 ^ 32) (hi64 : i < 64)
    {Q : Machine → Prop}
    (hnext : ∀ t, Syncing (d.discardIf (between a e) w i) a e i t →
      (isa frame).Ends _syncDCache next t Q) :
    (isa frame).Ends _syncDCache l s Q := by
  have hw := w.isLt
  have hline : addr (word (64 * i + w)) = 64 * i + w :=
    addr_word_natCast (n := 64 * i + w) (by omega)
  have hindex : index (64 * i + w) = i := index_line hi64 (by omega)
  have hbase := tagWord_base (d.lines w i) i
  have hlines : s.lines = d.lines := congrArg Store.lines h.store
  have hb := base_lt (d.lines w i) hi64
  have hlow := ult_word_natCast hb hlo
  have hhigh := ult_word_natCast hhi hb
  apply Flow.Isa.Ends.block
  simp [hl, syncTest, h.first, h.last, h.line, h.mask, hline, hindex, way_line, hlines, hbase, hlow,
    hhigh]
  split
  · next hle =>
    apply Flow.Isa.Ends.block
    simp [he, syncEnd]
    split
    · next hge =>
      have hskip : d.discardIf (between a e) w i = d := if_neg (by simp [between]; omega)
      rw [hskip] at hnext
      apply hnext
      constructor <;> simp [h.store, h.first, h.last, h.line, h.mask]
    · next hge =>
      have hdone : d.discardIf (between a e) w i = d.discard w i :=
        if_pos (by simp [between]; omega)
      rw [hdone] at hnext
      apply Flow.Isa.Ends.block
      simp [ho, syncOp, h.store, h.line, hline, hindex, way_line]
      apply hnext
      constructor <;> simp [h.first, h.last, h.line, h.mask]
  · next hle =>
    have hskip : d.discardIf (between a e) w i = d := if_neg (by simp [between]; omega)
    rw [hskip] at hnext
    apply hnext
    constructor <;> simp [h.store, h.first, h.last, h.line, h.mask]

theorem _syncDCache_one (h : Syncing d a e i s) (hlo : a < 2 ^ 32) (hhi : e < 2 ^ 32)
    (hn : i + (n + 1) = 64) :
    (isa frame).Ends _syncDCache .one s (Leaves (d.discardFrom (between a e) i (n + 1))) := by
  induction n generalizing s d i with
  | zero =>
    have hlast : (word 4096).slt (word 4096) = false := by decide
    obtain rfl : i = 63 := by omega
    apply _syncDCache_way 0 rfl rfl rfl h hlo hhi (by omega)
    intro t ht
    apply _syncDCache_way 1 rfl rfl rfl ht hlo hhi (by omega)
    intro u hu
    apply Flow.Isa.Ends.block
    simp [_syncDCache, hu.line, hlast]
    apply Flow.Isa.Ends.block
    simp [_syncDCache, Leaves, hu.store, Store.discardFrom, Store.discardBoth]
  | succ n ih =>
    have hmore : (word (64 * i + 64)).slt (word 4096) = true := by
      rw [slt_word (by omega) (by omega) (by decide) (by decide)]
      exact decide_eq_true (by omega)
    apply _syncDCache_way 0 rfl rfl rfl h hlo hhi (by omega)
    intro t ht
    apply _syncDCache_way 1 rfl rfl rfl ht hlo hhi (by omega)
    intro u hu
    apply Flow.Isa.Ends.block
    simp [_syncDCache, hu.line, hmore]
    rw [Store.discardFrom]
    apply ih _ (by omega)
    constructor <;> simp [hu.store, hu.first, hu.last, hu.mask, Store.discardBoth, Int.mul_add]

theorem word_or_f000 : word 4294901760 ||| 61440#64 = ~~~lowMask 64 12 := by decide

theorem _syncDCache_discards (h4 : s.cpu.dword 4 = word a) (h5 : s.cpu.dword 5 = word e)
    (hlo : a < 2 ^ 32) (hhi : e < 2 ^ 32) :
    (isa frame).Ends _syncDCache .start s (Leaves (s.store.discardFrom (between a e) 0 64)) := by
  apply Flow.Isa.Ends.block
  simp [_syncDCache]
  apply _syncDCache_one (n := 63) _ hlo hhi rfl
  constructor <;> simp [h4, h5, word_or_f000]

/-- `SyncDCache` of `misc.c` calls `_SyncDCache` with the addresses of the lines of its arguments,
while interrupts are off. -/
def syncDCache (start last : Nat) (s : Machine) : Machine :=
  s.setCpu ((s.cpu.setDword 4 (word start &&& 0xffffffffffffffc0#64)).setDword 5
    (word last &&& 0xffffffffffffffc0#64))

theorem _syncDCache_dest (l : SyncLabel) :
    ∀ i ∈ (_syncDCache l).instrs, i.dest ∈ [0, 2, 3, 6, 7] := by
  cases l <;> decide

theorem syncDCache_run {start last : Nat} (hs : s.store.Sound) (hstart : start < 2 ^ 32)
    (hlast : last < 2 ^ 32) :
    (isa frame).Ends _syncDCache .start (syncDCache start last s) fun t =>
      Store.Drains (fun b => start / 64 ≤ b / 64 ∧ b / 64 ≤ last / 64) s.store t.store := by
  have hmask : 0xffffffffffffffc0#64 = ~~~lowMask 64 6 := by decide
  have hfirst : word start &&& 0xffffffffffffffc0#64 = word (start / 64 * 64 : Nat) := by
    rw [hmask]
    exact word_and_not_lowMask start (by decide)
  have hend : word last &&& 0xffffffffffffffc0#64 = word (last / 64 * 64 : Nat) := by
    rw [hmask]
    exact word_and_not_lowMask last (by decide)
  apply (_syncDCache_discards (a := start / 64 * 64) (e := last / 64 * 64)
    (by simp [syncDCache, hfirst]) (by simp [syncDCache, hend]) (by omega) (by omega)).mono
  intro t ht
  rw [ht]
  apply (Store.Drains.discardFrom hs (between (start / 64 * 64) (last / 64 * 64))
    (by decide)).congr
  intro b
  have hindex : index b < 64 := Nat.mod_lt _ (by decide)
  simp [between]
  omega

/-- The arguments are compared with the tags of the lines, which are physical addresses: what leaves
the cache are the lines between the arguments taken as physical addresses. -/
theorem syncDCache_drains {start last : Nat} (hs : s.store.Sound) (hstart : start < 2 ^ 32)
    (hlast : last < 2 ^ 32) :
    (isa frame).Ends _syncDCache .start (syncDCache start last s) fun t =>
      Drained (fun b => start / 64 ≤ b / 64 ∧ b / 64 ≤ last / 64) s t ∧
        ∀ r, r ∉ [0, 2, 3, 4, 5, 6, 7] → t.cpu.quad r = s.cpu.quad r := by
  have hcode : ∀ l, ∀ i ∈ (_syncDCache l).instrs, i.onCode = false := by
    intro l
    cases l <;> decide
  apply (ends_keeps (ends_code (syncDCache_run hs hstart hlast) hcode) _syncDCache_dest).mono
  rintro t ⟨⟨hstore, hcode⟩, hregs⟩
  refine ⟨drained_of_drains hstore hcode, fun r hr => ?_⟩
  simp at hr
  rw [hregs r (by simp [hr])]
  simp [syncDCache, hr]

theorem syncDCache_drains_oneLine :
    (isa fun q => .ofNat 20 q).Ends _syncDCache .start (syncDCache 0x1005 0x1105 oneLine) fun t =>
      Drained (fun b => 0x1005 / 64 ≤ b / 64 ∧ b / 64 ≤ 0x1105 / 64) oneLine t ∧
        ∀ r, r ∉ [0, 2, 3, 4, 5, 6, 7] → t.cpu.quad r = oneLine.cpu.quad r :=
  syncDCache_drains oneLine_sound (by decide) (by decide)

/-- The addresses the kernel has for cached memory are above those of all memory, so that with them
nothing leaves the cache and the processor goes on to read the lines it has. -/
theorem syncDCache_kseg0 {start last : Nat} (hs : s.store.Sound) (hkseg0 : 0x80000000 ≤ start)
    (hstart : start < 2 ^ 32) (hlast : last < 2 ^ 32) :
    (isa frame).Ends _syncDCache .start (syncDCache start last s) fun t =>
      ∀ b < 0x20000000, t.store.mem b = s.store.mem b ∧
        ∀ w, s.store.Holds w b → t.store.Holds w b ∧
          t.store.lines w (index b) = s.store.lines w (index b) := by
  apply (syncDCache_run hs hstart hlast).mono
  intro t ht b hb
  have hout : ¬ (start / 64 ≤ b / 64 ∧ b / 64 ≤ last / 64) := by omega
  refine ⟨ht.mem b hout, fun w hw => ?_⟩
  have hlines := ht.kept w b hw hout
  refine ⟨?_, hlines⟩
  rw [Store.Holds, hlines]
  exact hw

theorem syncDCache_kseg0_oneLine :
    (isa fun q => .ofNat 20 q).Ends _syncDCache .start (syncDCache 0x80001005 0x80001105 oneLine)
      fun t => ∀ b < 0x20000000, t.store.mem b = oneLine.store.mem b ∧
        ∀ w, oneLine.store.Holds w b → t.store.Holds w b ∧
          t.store.lines w (index b) = oneLine.store.lines w (index b) :=
  syncDCache_kseg0 oneLine_sound (by decide) (by decide) (by decide)

end Sync

end KernelLoader.Asm
