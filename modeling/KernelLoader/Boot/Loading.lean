import KernelLoader.Boot.Files

namespace KernelLoader.Boot
open Lib Elf
set_option autoImplicit true
set_option relaxedAutoImplicit false

variable {file : FileInput} {b : Loader} {last buffer : Nat}

theorem freadLoop_invariant (I : Loader → Prop) (reads : List Nat) {pos next : Nat}
    (hstep : ∀ b off n, off + n ≤ file.size → I b → I (b.store (buffer + off) file.data off n))
    (h : I b) : I (freadLoop file buffer reads pos next b).2 := by
  induction reads generalizing pos next b with
  | nil => exact h
  | cons r reads ih =>
    rw [freadLoop]
    simp only
    split_ifs with h0 h1 h2
    · exact h
    · exact hstep b pos _ (by omega) h
    · exact hstep b pos _ (by omega) h
    · exact ih (hstep b pos _ (by omega) h)

theorem gzreadLoop_invariant (I : Loader → Prop) {data : Mem} {maxsize : Nat} (reads : List Nat)
    {pos : Nat}
    (hstep : ∀ b off n, off + n ≤ maxsize → I b → I (b.store (buffer + off) data off n))
    (hpos : pos + 10 * 1024 ≤ maxsize) (h : I b) :
    I (gzreadLoop data buffer maxsize reads pos b).2 := by
  induction reads generalizing pos b with
  | nil => exact h
  | cons r reads ih =>
    rw [gzreadLoop]
    simp only
    split_ifs with h0 h1
    · exact h
    · exact hstep b pos _ (by omega) h
    · exact ih (by omega) (hstep b pos _ (by omega) h)

theorem freadLoop_large (h : 100 ≤ file.size) (reads : List Nat) {pos next : Nat} :
    (freadLoop file buffer reads pos next b).1 ≠ none := by
  induction reads generalizing pos next b with
  | nil => exact Option.some_ne_none _
  | cons r reads ih =>
    rw [freadLoop]
    simp only
    split_ifs with h0 h1 h2
    · exact Option.some_ne_none _
    · exact Option.some_ne_none _
    · omega
    · exact ih

/-- A file of less than 100 bytes that is delivered in more than one piece. -/
def FileInput.Stalls (file : FileInput) : Prop :=
  file.size < 100 ∧ ∃ r ∈ file.reads.head?, 0 < r ∧ r < file.size

instance (file : FileInput) : Decidable file.Stalls :=
  inferInstanceAs (Decidable (_ ∧ _))

theorem freadLoop_none (file : FileInput) (buffer : Nat) (b : Loader) :
    (freadLoop file buffer file.reads 0 10000 b).1 = none ↔ file.Stalls := by
  unfold FileInput.Stalls
  rcases Nat.lt_or_ge file.size 100 with hlt | hge
  · cases file.reads with
    | nil => simp [freadLoop]
    | cons r reads =>
      rw [freadLoop]
      simp only [List.head?_cons, Option.mem_def, Option.some.injEq, exists_eq_left']
      have h100 : file.size / 100 = 0 := by omega
      -- the first chunk is the whole file, nothing, or the percentage is asked for
      split_ifs <;> simp <;> omega
  · simp only [freadLoop_large hge, false_iff]
    omega

/-- `b'` comes from `b` by storing to `[lo, hi)`. -/
structure Loader.Stored (lo hi : Nat) (b b' : Loader) : Prop where
  spans : ∃ spans, b'.stores = b.stores ++ spans ∧ ∀ span ∈ spans, SpanIn lo hi span
  outside : ∀ a, ¬(lo ≤ a ∧ a < hi) → b'.mem a = b.mem a

theorem Loader.Stored.refl (lo hi : Nat) (b : Loader) : b.Stored lo hi b :=
  ⟨⟨[], (List.append_nil _).symm, fun _ h => absurd h List.not_mem_nil⟩, fun _ _ => rfl⟩

theorem Loader.Stored.trans {lo hi : Nat} {b b' b'' : Loader} (h : b.Stored lo hi b')
    (h' : b'.Stored lo hi b'') : b.Stored lo hi b'' := by
  obtain ⟨xs, hx, hxs⟩ := h.spans
  obtain ⟨ys, hy, hys⟩ := h'.spans
  refine ⟨⟨xs ++ ys, by rw [hy, hx, List.append_assoc], fun span hm => ?_⟩, fun a ha => ?_⟩
  · rcases List.mem_append.mp hm with hm | hm
    · exact hxs span hm
    · exact hys span hm
  · rw [h'.outside a ha, h.outside a ha]

theorem phys_of_lt (h : p < 2 ^ 29) : phys p = p := Nat.mod_eq_of_lt h

theorem Loader.store_mem_outside {ptr n : Nat} (data : Mem) (off : Nat) (b : Loader)
    (hp : ptr + n ≤ 2 ^ 29) (ha : ¬(ptr ≤ a ∧ a < ptr + n)) :
    (b.store ptr data off n).mem a = b.mem a := by
  refine copyBytes_outside b.mem fun i hi => ?_
  rw [phys_of_lt (by omega)]
  omega

theorem Loader.store_mem_inside {ptr n : Nat} (data : Mem) (off : Nat) (b : Loader)
    (hp : ptr + n ≤ 2 ^ 29) (hi : i < n) :
    (b.store ptr data off n).mem (ptr + i) = data (off + i) := by
  have hid (j : Nat) (hj : j < n) : phys (ptr + j) = ptr + j := phys_of_lt (by omega)
  rw [← hid i hi]
  refine copyBytes_inside (fun i => phys (ptr + i)) (b := fun i => data (off + i)) b.mem ?_ ?_ hi
  · intro i hi j hj he
    simp only [hid i hi, hid j hj] at he
    omega
  · exact fun _ _ _ _ => rfl

theorem Loader.store_stored {lo hi ptr n : Nat} (data : Mem) (off : Nat) (b : Loader)
    (hlo : lo ≤ ptr) (hhi : ptr + n ≤ hi) (hp : hi ≤ 2 ^ 29) :
    b.Stored lo hi (b.store ptr data off n) := by
  refine ⟨⟨[(phys ptr, n)], rfl, fun span hm => ?_⟩, fun a ha => ?_⟩
  · obtain rfl := List.mem_singleton.mp hm
    rw [spanIn_iff]
    rcases Nat.eq_zero_or_pos n with h0 | hpos
    · exact .inl h0
    · rw [phys_of_lt (by omega)]
      exact .inr ⟨hlo, hhi⟩
  · exact store_mem_outside data off b (by omega) (by omega)

theorem loadFile_stored {p size hi : Nat}
    (hp : (file.size : Int) ≤ s32 size → p + file.size ≤ hi) (hhi : hi ≤ 2 ^ 29) :
    b.Stored p hi (loadFile last file size (some p) b).2 := by
  unfold loadFile FileInput.destination
  by_cases ho : file.opens = true
  · by_cases hs : (file.size : Int) ≤ s32 size
    · have hloop : (b.fopen).Stored p hi
          (freadLoop file p file.reads 0 10000 b.fopen).2 := by
        refine freadLoop_invariant (b.fopen.Stored p hi) file.reads (fun b' off n hle h => ?_)
          (.refl _ _ _)
        refine h.trans ?_
        exact b'.store_stored file.data off (by omega) (by have := hp hs; omega) hhi
      simp only [ho, hs, Bool.not_true, Bool.false_eq_true, if_false, if_true, Option.isNone_some,
        false_and]
      split
      · rename_i heq
        rw [heq] at hloop
        exact ⟨hloop.spans, hloop.outside⟩
      · rename_i heq
        rw [heq] at hloop
        exact ⟨hloop.spans, hloop.outside⟩
    · simp only [ho, hs, Bool.not_true, Bool.false_eq_true, if_false, Option.isNone_some]
      exact ⟨(Loader.Stored.refl p hi b).spans, fun _ _ => rfl⟩
  · simp only [ho, Bool.not_false, if_true]
    exact ⟨(Loader.Stored.refl p hi b).spans, fun _ _ => rfl⟩

/-- What becomes of a file that is loaded to a given buffer: it is refused, the loader divides by
zero, or the file is loaded. -/
theorem loadFile_cases (last : Nat) (file : FileInput) (size p : Nat) (b : Loader) :
    (¬(file.opens = true ∧ (file.size : Int) ≤ s32 size) ∧
        ∃ n, (loadFile last file size (some p) b).1 = some ⟨none, n⟩) ∨
      file.opens = true ∧ (file.size : Int) ≤ s32 size ∧
        (file.Stalls ∧ (loadFile last file size (some p) b).1 = none ∨
          ¬file.Stalls ∧ (loadFile last file size (some p) b).1 = some ⟨some p, file.size⟩) := by
  unfold loadFile FileInput.destination
  by_cases ho : file.opens = true
  · by_cases hs : (file.size : Int) ≤ s32 size
    · have hnone := freadLoop_none file p b.fopen
      simp only [ho, hs, Bool.not_true, Bool.false_eq_true, if_false, if_true, Option.isNone_some,
        false_and]
      refine .inr ⟨trivial, trivial, ?_⟩
      split
      · rename_i heq
        rw [heq] at hnone
        exact .inl ⟨hnone.mp rfl, rfl⟩
      · rename_i heq
        rw [heq] at hnone
        exact .inr ⟨fun h => Option.some_ne_none _ (hnone.mpr h), rfl⟩
    · simp only [ho, hs, Bool.not_true, Bool.false_eq_true, if_false, Option.isNone_some]
      exact .inl ⟨fun h => h.2, _, rfl⟩
  · simp only [ho, Bool.not_false, if_true]
    exact .inl ⟨fun h => Bool.false_ne_true h.1, _, rfl⟩

theorem le_bytesOf (v : Nat) : le (bytesOf v) 0 4 = u32 v := by
  simp only [le, bytesOf, UInt8.toNat_ofNat', u32]
  omega

theorem Loader.word_storeWord {ptr : Nat} (v : Nat) (b : Loader) (hp : ptr + 4 ≤ 2 ^ 29) :
    word (b.storeWord ptr v).mem ptr = u32 v := by
  rw [word, phys_of_lt (by omega), ← le_bytesOf]
  exact le_eq_le fun i hi => by rw [Nat.zero_add, storeWord, store_mem_inside _ 0 b hp hi,
    Nat.zero_add]

theorem Loader.word_storeWord_of_disjoint {ptr q : Nat} (v : Nat) (b : Loader)
    (hp : ptr + 4 ≤ 2 ^ 29) (hq : q + 4 ≤ 2 ^ 29) (hd : q + 4 ≤ ptr ∨ ptr + 4 ≤ q) :
    word (b.storeWord ptr v).mem q = word b.mem q := by
  rw [word, word, phys_of_lt (by omega)]
  exact le_congr fun i hi hi' => store_mem_outside _ _ b hp (by omega)

end KernelLoader.Boot
