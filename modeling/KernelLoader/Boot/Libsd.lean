import KernelLoader.Boot.RealLoader
import KernelLoader.Elf.Walks
import KernelLoader.Lib.Replace

namespace KernelLoader.Boot
open Lib Elf
set_option autoImplicit true
set_option relaxedAutoImplicit false

variable {buffer size i j : Nat} {m : Mem}

/-- The 128 bytes of a sequence stand in a buffer, from byte `i` on. -/
def Occurs (l : List UInt8) (buffer : Nat) (m : Mem) (i : Nat) : Prop :=
  OccursAt (fun k => phys (buffer + k)) 128 (fun k => l.getD k 0) m i

instance (l : List UInt8) (buffer : Nat) (m : Mem) (i : Nat) : Decidable (Occurs l buffer m i) :=
  inferInstanceAs (Decidable (∀ k < _, _))

/-- Memory before a round of `patchLibsd`. -/
def patchedBefore (buffer : Nat) (m : Mem) (rounds : Nat) : Mem :=
  (List.range rounds).foldl (fun m i => (patchRound buffer m i).2) m

theorem length_libsdOrig : libsdOrig.length = 128 := by decide +kernel

theorem length_libsdPatched : libsdPatched.length = 128 := by decide +kernel

theorem patchLibsd_eq (buffer size : Nat) (m : Mem) :
    (patchLibsd buffer size m).2 = patchedBefore buffer m (sub32 size 128) := by
  rw [patchLibsd, runLog_state, patchedBefore, length_libsdOrig]

theorem patchedBefore_succ (buffer : Nat) (m : Mem) (j : Nat) :
    patchedBefore buffer m (j + 1) = (patchRound buffer (patchedBefore buffer m j) j).2 := by
  unfold patchedBefore
  rw [List.range_succ, List.foldl_append, List.foldl_cons, List.foldl_nil]

theorem libsdOrig_apart : NoOverlap 128 (libsdOrig.getD · 0) (libsdOrig.getD · 0) := by
  decide +kernel

theorem libsdPatched_apart : NoOverlap 128 (libsdPatched.getD · 0) (libsdOrig.getD · 0) := by
  decide +kernel

theorem bufferAddr_inj (buffer : Nat) (hsize : size ≤ 2 ^ 29) :
    ∀ x < size, ∀ y < size, phys (buffer + x) = phys (buffer + y) → x = y := by
  intro x hx y hy he
  unfold phys at he
  omega

theorem sameBytes_iff_occurs (buffer : Nat) (m : Mem) (j : Nat) :
    sameBytes m (fun k => libsdOrig.getD k 0) (buffer + j) 0 libsdOrig.length = true ↔
      Occurs libsdOrig buffer m j := by
  rw [sameBytes_iff, length_libsdOrig]
  simp only [Occurs, OccursAt, Nat.zero_add, Nat.add_assoc]

theorem patchedBefore_replaced (hsize : size ≤ 2 ^ 29) (m : Mem) (hj : j + 127 ≤ size) :
    Replaced (fun k => phys (buffer + k)) 128 (libsdOrig.getD · 0) (libsdPatched.getD · 0) j m
      (patchedBefore buffer m j) := by
  induction j with
  | zero => exact .zero _ _ _ _ m
  | succ j ih =>
    have hdone := ih (by omega)
    have hinj := bufferAddr_inj buffer hsize
    have hiff := hdone.occursAt_iff hinj (by omega) libsdOrig_apart libsdPatched_apart
    rw [patchedBefore_succ, patchRound]
    split_ifs with hsame
    · have hocc := hiff.mp ((sameBytes_iff_occurs buffer _ j).mp hsame)
      refine hdone.patch hinj (by omega) libsdOrig_apart hocc (fun k hk => ?_) fun a ha => ?_
      · rw [← Nat.add_assoc, length_libsdPatched]
        refine copyBytes_inside (fun k => phys (buffer + j + k)) _ (fun x hx y hy he => ?_)
          (fun _ _ i _ => by rw [Nat.zero_add]) hk
        have := hinj (j + x) (by omega) (j + y) (by omega) (by simpa only [Nat.add_assoc] using he)
        omega
      · apply copyBytes_outside
        intro k hk
        rw [Nat.add_assoc]
        exact ha k (length_libsdPatched ▸ hk)
    · exact hdone.skip fun hocc => hsame ((sameBytes_iff_occurs buffer _ j).mpr (hiff.mpr hocc))

theorem mem_patchRound {span : Nat × Nat} (buffer : Nat) (m : Mem) (i : Nat) :
    span ∈ (patchRound buffer m i).1 ↔ span = (i, 128) := by
  unfold patchRound
  rw [length_libsdOrig, length_libsdPatched]
  split_ifs
  · rw [List.mem_cons, List.mem_singleton, or_self_iff]
  · rw [List.mem_singleton]

theorem mem_patchLibsd {span : Nat × Nat} (buffer size : Nat) (m : Mem) :
    span ∈ (patchLibsd buffer size m).1 ↔ ∃ i < sub32 size 128, span = (i, 128) := by
  have hrun (as : List Nat) (m : Mem) :
      span ∈ (runLog (patchRound buffer) m as).1 ↔ ∃ i ∈ as, span = (i, 128) := by
    induction as generalizing m with
    | nil => simp [runLog]
    | cons i as ih => rw [runLog, List.mem_append, ih, mem_patchRound, List.exists_mem_cons_iff]
  rw [patchLibsd, hrun, length_libsdOrig]
  simp only [List.mem_range]

/-- What patching libsd is to do: every occurrence is replaced, all other bytes are kept, and only
bytes of the buffer are read or written. -/
structure LibsdPatched (buffer size : Nat) (m : Mem) : Prop where
  replaced : ∀ i, i + 128 ≤ size → Occurs libsdOrig buffer m i →
    Occurs libsdPatched buffer (patchLibsd buffer size m).2 i
  kept : ∀ a, (∀ i, i + 128 ≤ size → Occurs libsdOrig buffer m i →
    ∀ k < 128, phys (buffer + (i + k)) ≠ a) → (patchLibsd buffer size m).2 a = m a
  touched : ∀ span ∈ (patchLibsd buffer size m).1, SpanIn 0 size span

/-- A buffer that is smaller than the pattern is left by the first comparison. -/
theorem LibsdPatched.size_le (h : LibsdPatched buffer size m) (hsize : size < 2 ^ 32) :
    128 ≤ size := by
  apply Nat.le_of_not_lt
  intro hlt
  have hcount : 0 < sub32 size 128 := by
    rw [sub32_of_lt hlt (by decide)]
    omega
  have hfirst := (mem_patchLibsd buffer size m).mpr ⟨0, hcount, rfl⟩
  rcases spanIn_iff.mp (h.touched _ hfirst) with h0 | hin
  · omega
  · omega

theorem patchLibsd_replaced (hsize : size ≤ 2 ^ 29) (hlen : 128 ≤ size) (m : Mem) :
    Replaced (fun k => phys (buffer + k)) 128 (libsdOrig.getD · 0) (libsdPatched.getD · 0)
      (size - 128) m (patchLibsd buffer size m).2 := by
  rw [patchLibsd_eq, sub32_of_le hlen (by omega)]
  exact patchedBefore_replaced hsize m (by omega)

/-- Patching works exactly if the buffer is large enough and does not end with the pattern. -/
theorem libsdPatched_iff (buffer size : Nat) (m : Mem) (hsize : size ≤ 2 ^ 29) :
    LibsdPatched buffer size m ↔ 128 ≤ size ∧ ¬Occurs libsdOrig buffer m (size - 128) := by
  constructor
  · intro h
    have hlen := h.size_le (by omega)
    refine ⟨hlen, fun hocc => ?_⟩
    -- the last occurrence is still there
    have hlast : Occurs libsdOrig buffer (patchLibsd buffer size m).2 (size - 128) :=
      ((patchLibsd_replaced hsize hlen m).occursAt_iff (bufferAddr_inj buffer hsize) (by omega)
        libsdOrig_apart libsdPatched_apart).mpr hocc
    have hpatched := h.replaced (size - 128) (by omega) hocc
    have hbyte : libsdOrig.getD 2 0 = libsdPatched.getD 2 0 :=
      (hlast 2 (by decide)).symm.trans (hpatched 2 (by decide))
    exact absurd hbyte (by decide)
  · rintro ⟨hlen, hlast⟩
    have hdone : Replaced (fun k => phys (buffer + k)) 128 (libsdOrig.getD · 0)
        (libsdPatched.getD · 0) (size - 128) m (patchLibsd buffer size m).2 :=
      patchLibsd_replaced hsize hlen m
    refine ⟨fun i hi hocc => ?_, fun a ha => ?_, fun span hspan => ?_⟩
    · have hne : i ≠ size - 128 := by
        intro he
        rw [he] at hocc
        exact hlast hocc
      exact hdone.inside i (by omega) hocc
    · exact hdone.outside a fun i hi hocc => ha i (by omega) hocc
    · obtain ⟨i, hi, rfl⟩ := (mem_patchLibsd buffer size m).mp hspan
      rw [sub32_of_le hlen (by omega)] at hi
      exact spanIn_iff.mpr (.inr ⟨Nat.zero_le i, by omega⟩)

/-- A buffer that starts with the code to patch. -/
def libsdImage : Mem := fun a => libsdOrig.getD a 0

theorem libsdPatched_start : LibsdPatched 0 160 libsdImage ∧ Occurs libsdOrig 0 libsdImage 0 :=
  ⟨(libsdPatched_iff 0 160 libsdImage (by decide)).mpr ⟨by decide, by decide +kernel⟩,
    by decide +kernel⟩

/-- An occurrence at the very end is missed, and a buffer of 100 bytes is left. -/
theorem libsd_missed : ¬LibsdPatched 0 128 libsdImage ∧ ¬LibsdPatched 0 100 libsdImage := by
  refine ⟨fun h => ?_, fun h => absurd (h.size_le (by decide)) (by decide)⟩
  have hkept : (patchLibsd 0 128 libsdImage).2 = libsdImage := by
    have hzero : sub32 128 128 = 0 := by decide
    rw [patchLibsd_eq, hzero]
    rfl
  have hocc := h.replaced 0 (by decide) (by decide +kernel)
  rw [hkept] at hocc
  exact absurd hocc (by decide +kernel)

end KernelLoader.Boot
