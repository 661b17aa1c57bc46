import KernelLoader.Boot.Loading
import KernelLoader.Boot.RealLoader

namespace KernelLoader.Boot
open Lib Elf
set_option autoImplicit true
set_option relaxedAutoImplicit false

variable {b b' : Loader} {last : Nat} {fs hs xs ys : List Nat}

/-- Every file that was opened was closed and every block that was allocated was freed, once. -/
def Loader.Released (b : Loader) : Prop := b.files.Settled ∧ b.heap.Settled

instance (b : Loader) : Decidable b.Released := inferInstanceAs (Decidable (_ ∧ _))

/-- The files to be closed and the blocks to be freed. -/
def Loader.Owes (b : Loader) (fs hs : List Nat) : Prop := b.files.Owes fs ∧ b.heap.Owes hs

theorem Loader.Owes.released_iff (h : b.Owes fs hs) : b.Released ↔ fs = [] ∧ hs = [] :=
  and_congr h.1.settled_iff h.2.settled_iff

theorem Loader.owes_start (m : Mem) : (Loader.start m).Owes [] [] :=
  ⟨Ledger.owes_start, Ledger.owes_start⟩

theorem Loader.Owes.congr (h : b.Owes fs hs) (hf : b'.files = b.files) (hh : b'.heap = b.heap) :
    b'.Owes fs hs := by
  rw [Owes, hf, hh]
  exact h

theorem Loader.Owes.fopen (h : b.Owes fs hs) : b.fopen.Owes (b.handle :: fs) hs :=
  ⟨h.1.acquire _, h.2⟩

theorem Loader.Owes.fclose {fin : Nat} (h : b.Owes (fin :: fs) hs) : (b.fclose fin).Owes fs hs :=
  ⟨h.1.release, h.2⟩

theorem Loader.Owes.memalign (h : b.Owes fs hs) (p : Nat) :
    (b.memalign (some p)).Owes fs (p :: hs) :=
  ⟨h.1, h.2.acquire p⟩

theorem Loader.Owes.free {p : Nat} (h : b.Owes fs (p :: hs)) : (b.free (some p)).Owes fs hs :=
  ⟨h.1, h.2.release⟩

theorem freadLoop_owes (file : FileInput) (buffer : Nat) (h : b.Owes fs hs) :
    (freadLoop file buffer file.reads 0 10000 b).2.Owes fs hs :=
  freadLoop_invariant (·.Owes fs hs) file.reads (fun _ _ _ _ h => h) h

/-- The file opens and there is a block for it. -/
def FileInput.Gets (file : FileInput) (p : Nat) : Prop := file.opens = true ∧ file.block = some p

/-- What `load_file` owes after it has allocated a buffer itself: the block, if the file was loaded;
nothing, if there was no file or no block; or both the file and the block, if the block is below the
end of the loader. -/
theorem loadFile_owes {file : FileInput} {size : Nat} {r : Loaded} (h : b.Owes fs hs)
    (hr : loadFile last file size none b = (some r, b')) :
    (∃ p, r = ⟨some p, file.size⟩ ∧ file.Gets p ∧ last ≤ p ∧ b'.Owes fs (p :: hs)) ∨
      (r.buffer = none ∧ (∀ p, ¬file.Gets p) ∧ b'.Owes fs hs) ∨
        ∃ p x, r.buffer = none ∧ file.Gets p ∧ p < last ∧ b'.Owes (x :: fs) (p :: hs) := by
  unfold FileInput.Gets
  unfold loadFile FileInput.destination at hr
  cases ho : file.opens with
  | false =>
    simp only [ho, Bool.not_false, if_true, Prod.mk.injEq, Option.some.injEq] at hr
    obtain ⟨rfl, rfl⟩ := hr
    exact .inr (.inl ⟨rfl, fun p hp => Bool.false_ne_true hp.1, h⟩)
  | true =>
    cases hb : file.block with
    | none =>
      simp only [ho, hb, Bool.not_true, Bool.false_eq_true, if_false, Option.isNone_none, if_true,
        Prod.mk.injEq, Option.some.injEq] at hr
      obtain ⟨rfl, rfl⟩ := hr
      exact .inr (.inl ⟨rfl, fun p hp => Option.some_ne_none p hp.2.symm, h.fopen.fclose⟩)
    | some p =>
      simp only [ho, hb, Bool.not_true, Bool.false_eq_true, if_false, Option.isNone_none, if_true,
        true_and] at hr
      split_ifs at hr with hlt
      · simp only [Prod.mk.injEq, Option.some.injEq] at hr
        obtain ⟨rfl, rfl⟩ := hr
        exact .inr (.inr ⟨p, _, rfl, ⟨rfl, rfl⟩, hlt, h.fopen.memalign p⟩)
      · have hloop := freadLoop_owes file p (h.fopen.memalign p)
        split at hr
        · simp only [Prod.mk.injEq, reduceCtorEq, false_and] at hr
        · rename_i heq
          rw [heq] at hloop
          simp only [Prod.mk.injEq, Option.some.injEq] at hr
          obtain ⟨rfl, rfl⟩ := hr
          exact .inl ⟨p, rfl, ⟨rfl, rfl⟩, Nat.le_of_not_lt hlt, hloop.fclose⟩

theorem loadFile_given_owes {file : FileInput} {size p : Nat} {r : Loaded} (h : b.Owes fs hs)
    (hr : loadFile last file size (some p) b = (some r, b')) : b'.Owes fs hs := by
  unfold loadFile at hr
  cases ho : file.opens with
  | false =>
    simp only [ho, Bool.not_false, if_true, Prod.mk.injEq] at hr
    obtain ⟨-, rfl⟩ := hr
    exact h
  | true =>
    simp only [ho, Bool.not_true, Bool.false_eq_true, if_false, Option.isNone_some, false_and] at hr
    split at hr
    · simp only [Prod.mk.injEq] at hr
      obtain ⟨-, rfl⟩ := hr
      exact h.fopen.fclose
    · rename_i buffer _
      have hloop := freadLoop_owes file buffer h.fopen
      split at hr
      · simp only [Prod.mk.injEq, reduceCtorEq, false_and] at hr
      · rename_i heq
        rw [heq] at hloop
        simp only [Prod.mk.injEq] at hr
        obtain ⟨-, rfl⟩ := hr
        exact hloop.fclose

/-- More than `fs` and `hs` is owed exactly if there is a leak. -/
def Loader.OwesUnless (leak : Prop) (b : Loader) (fs hs : List Nat) : Prop :=
  ∃ xs ys, b.Owes (xs ++ fs) (ys ++ hs) ∧ (xs = [] ∧ ys = [] ↔ ¬leak)

theorem Loader.Owes.unless {leak : Prop} (h : b.Owes fs hs) (hn : ¬leak) :
    b.OwesUnless leak fs hs :=
  ⟨[], [], h, iff_of_true ⟨rfl, rfl⟩ hn⟩

theorem Loader.Owes.leaked {leak : Prop} {p : Nat} (xs : List Nat)
    (h : b.Owes (xs ++ fs) (p :: hs)) (hl : leak) : b.OwesUnless leak fs hs :=
  ⟨xs, [p], h, iff_of_false (fun he => List.cons_ne_nil _ _ he.2) fun hn => hn hl⟩

theorem Loader.OwesUnless.congr {leak leak' : Prop} (h : b.OwesUnless leak fs hs)
    (hl : leak ↔ leak') : b.OwesUnless leak' fs hs := by
  rw [← hl]
  exact h

theorem Loader.OwesUnless.released_iff {leak : Prop} (h : b.OwesUnless leak [] []) :
    b.Released ↔ ¬leak := by
  obtain ⟨xs, ys, ho, hiff⟩ := h
  rw [ho.released_iff, List.append_nil, List.append_nil, hiff]

theorem Loader.OwesUnless.leaked {leak leak' : Prop} {p : Nat}
    (h : b.OwesUnless leak fs (p :: hs)) (hl : leak') : b.OwesUnless leak' fs hs := by
  obtain ⟨xs, ys, ho, -⟩ := h
  refine ⟨xs, ys ++ [p], ?_, iff_of_false (fun he => ?_) fun hn => hn hl⟩
  · rw [List.append_assoc]
    exact ho
  · exact List.append_ne_nil_of_right_ne_nil ys (List.cons_ne_nil p []) he.2

theorem Loader.OwesUnless.step {leak : Prop} {p : Nat} (h : b.OwesUnless leak fs (p :: hs))
    (hstep : ∀ fs hs, b.Owes fs (p :: hs) → b'.Owes fs hs) : b'.OwesUnless leak fs hs := by
  obtain ⟨xs, ys, ho, hiff⟩ := h
  have hperm : (b.heap.released ++ p :: (ys ++ hs)).Perm (b.heap.released ++ (ys ++ p :: hs)) :=
    List.perm_middle.symm.append_left _
  exact ⟨xs, ys, hstep _ _ ⟨ho.1, hperm.trans ho.2⟩, hiff⟩

theorem Loader.Owes.freeOption {ptr : Option Nat} (h : b.Owes fs (ptr.toList ++ hs)) :
    (b.free ptr).Owes fs hs := by
  cases ptr with
  | none => exact h
  | some p => exact Owes.free h

section Sbios
variable {env : SbiosEnv}

theorem copySbios_owes {sbios size : Nat} {buf r : Option Nat} (h : b.Owes fs (buf.toList ++ hs))
    (hr : copySbios env sbios size buf b = (r, b')) :
    (isBinary b.mem sbios size = true ∧ maxSbiosSize ≤ size) ∧ r = none ∧
        b'.Owes fs (buf.toList ++ hs) ∨
      ¬(isBinary b.mem sbios size = true ∧ maxSbiosSize ≤ size) ∧ b'.Owes fs hs := by
  unfold copySbios at hr
  cases hb : isBinary b.mem sbios size with
  | false =>
    rw [hb, Bool.not_false, if_pos rfl] at hr
    refine .inr ⟨fun hc => Bool.false_ne_true hc.1, ?_⟩
    split at hr <;> cases hr <;> exact Loader.Owes.freeOption h
  | true =>
    rw [hb, Bool.not_true, if_neg Bool.false_ne_true] at hr
    split_ifs at hr with hbig
    · cases hr
      exact .inl ⟨⟨rfl, hbig⟩, rfl, h⟩
    · cases hr
      exact .inr ⟨fun hc => hbig hc.2, Loader.Owes.freeOption h⟩

theorem setupSbios_owes (env : SbiosEnv) (size : Nat) (h : b.Owes fs hs) :
    (setupSbios env size b).2.Owes fs hs := by
  unfold setupSbios
  split
  · exact h
  · split_ifs <;> exact h

theorem installSbios_owes {sbios size : Nat} (buf : Option Nat) {r : Option Nat}
    (h : b.Owes fs (buf.toList ++ hs)) (hr : installSbios env sbios size buf b = (r, b')) :
    (isBinary b.mem sbios size = true ∧ maxSbiosSize ≤ size) ∧ r = none ∧
        b'.Owes fs (buf.toList ++ hs) ∨
      ¬(isBinary b.mem sbios size = true ∧ maxSbiosSize ≤ size) ∧ b'.Owes fs hs := by
  unfold installSbios at hr
  cases hc : copySbios env sbios size buf b with
  | mk x b1 =>
    rw [hc] at hr
    rcases copySbios_owes h hc with ⟨hbig, rfl, ho⟩ | ⟨hsmall, ho⟩
    · cases hr
      exact .inl ⟨hbig, rfl, ho⟩
    · refine .inr ⟨hsmall, ?_⟩
      cases x with
      | none =>
        cases hr
        exact ho
      | some size =>
        have hset := setupSbios_owes env size ho
        simp only [hr] at hset
        exact hset

/-- The SBIOS is a file, and its block is below the end of the loader or the file is binary and too
large. -/
def SbiosLeaks (last : Nat) (env : SbiosEnv) (b : Loader) : Prop :=
  env.rom = none ∧ ∃ p, env.file.Gets p ∧
    (p < last ∨ isBinary (openSbios last env (env.cleared b)).2.mem p env.file.size = true ∧
      maxSbiosSize ≤ env.file.size)

theorem FileInput.Gets.unique {file : FileInput} {p q : Nat} (h : file.Gets p) (h' : file.Gets q) :
    p = q :=
  Option.some.inj (h.2.symm.trans h'.2)

theorem loadSbios_rom_owes {rom : Rom} {r : Option Nat} (hrom : env.rom = some rom)
    (h : b.Owes fs hs) (hr : loadSbios last env b = (some r, b')) : b'.Owes fs hs := by
  have h0 : (env.cleared b).Owes fs hs := h
  unfold loadSbios openSbios at hr
  simp only [hrom, Option.isSome_some, if_true, Prod.mk.injEq, Option.some.injEq] at hr
  obtain ⟨rfl, rfl⟩ := hr
  rcases installSbios_owes none h0 rfl with ⟨-, -, ho⟩ | ⟨-, ho⟩
  · exact ho
  · exact ho

theorem loadSbios_file_owes {r : Option Nat} (hrom : env.rom = none) (h : b.Owes fs hs)
    (hr : loadSbios last env b = (some r, b')) :
    b'.OwesUnless (SbiosLeaks last env b) fs hs ∧
      (r ≠ none → ¬SbiosLeaks last env b ∧ b'.Owes fs hs) := by
  have h0 : (env.cleared b).Owes fs hs := h
  unfold loadSbios at hr
  unfold SbiosLeaks
  cases ho : openSbios last env (env.cleared b) with
  | mk x b1 =>
    rw [ho] at hr
    simp only [openSbios, hrom] at ho
    simp only [hrom, Option.isSome_none, Bool.false_eq_true, if_false, true_and] at hr ⊢
    cases x with
    | none => cases hr
    | some x =>
      rcases loadFile_owes h0 ho with
        ⟨p, rfl, hg, hle, h1⟩ | ⟨hx, hno, h1⟩ | ⟨p, q, hx, hg, hlt, h1⟩
      · simp only [Prod.mk.injEq, Option.some.injEq] at hr
        obtain ⟨rfl, rfl⟩ := hr
        rcases installSbios_owes (some p) h1 rfl with ⟨hbig, hnone, h2⟩ | ⟨hsmall, h2⟩
        · exact ⟨Loader.Owes.leaked [] h2 ⟨p, hg, .inr hbig⟩, fun hn => absurd hnone hn⟩
        · have hno : ¬∃ p, env.file.Gets p ∧ (p < last ∨
              isBinary b1.mem p env.file.size = true ∧ maxSbiosSize ≤ env.file.size) := by
            rintro ⟨q, hq, hlt | hbig⟩
            · rw [hg.unique hq] at hle
              omega
            · rw [hg.unique hq] at hsmall
              exact hsmall hbig
          exact ⟨h2.unless hno, fun _ => ⟨hno, h2⟩⟩
      · obtain ⟨buffer, size⟩ := x
        obtain rfl : buffer = none := hx
        cases hr
        exact ⟨h1.unless fun hl => hno _ hl.choose_spec.1, fun hn => absurd rfl hn⟩
      · obtain ⟨buffer, size⟩ := x
        obtain rfl : buffer = none := hx
        cases hr
        exact ⟨Loader.Owes.leaked [q] h1 ⟨p, hg, .inl hlt⟩, fun hn => absurd rfl hn⟩

theorem loadSbios_owes {r : Option Nat} (h : b.Owes fs hs)
    (hr : loadSbios last env b = (some r, b')) :
    b'.OwesUnless (SbiosLeaks last env b) fs hs ∧
      (r ≠ none → ¬SbiosLeaks last env b ∧ b'.Owes fs hs) := by
  cases hrom : env.rom with
  | some rom =>
    have ho := loadSbios_rom_owes hrom h hr
    have hno : ¬SbiosLeaks last env b := by
      intro hl
      rw [SbiosLeaks, hrom] at hl
      exact Option.some_ne_none rom hl.1
    exact ⟨ho.unless hno, fun _ => ⟨hno, ho⟩⟩
  | none => exact loadSbios_file_owes hrom h hr

end Sbios

section Kernel
variable {env : Env}

/-- The kernel is a file, and its block is below the end of the loader. -/
def KernelLeaks (env : Env) : Prop :=
  env.kernelRom = none ∧ env.kernelFile.opens = true ∧
    ∃ p ∈ shrinkingAlign env.kernelFile.block 10 (6 * megabyte), p.1 < env.last

theorem shrinkingAlign_large {block : Nat → Option Nat} {fuel maxsize : Nat} {p : Nat × Nat}
    (hm : megabyte < maxsize) (h : shrinkingAlign block fuel maxsize = some p) :
    megabyte < p.2 := by
  induction fuel generalizing maxsize with
  | zero => cases h
  | succ fuel ih =>
    rw [shrinkingAlign] at h
    cases hb : block maxsize with
    | some q =>
      rw [hb] at h
      cases h
      exact hm
    | none =>
      rw [hb] at h
      simp only at h
      split_ifs at h with hlt
      exact ih hlt h

theorem gzreadLoop_owes {maxsize : Nat} (file : GzInput) (buffer : Nat) (hm : megabyte < maxsize)
    (h : b.Owes fs hs) :
    (gzreadLoop file.data buffer maxsize file.reads 0 b).2.Owes fs hs := by
  refine gzreadLoop_invariant (·.Owes fs hs) file.reads (fun _ _ _ _ h => h) ?_ h
  unfold megabyte at hm
  omega

/-- What `load_kernel_file` owes: the block it returns, or nothing, or the file and the block if the
block is below the end of the loader. -/
theorem loadKernelFile_owes {file : GzInput} {size : Nat} {r : Loaded} (h : b.Owes fs hs)
    (hr : loadKernelFile last file size b = (r, b')) :
    (¬(file.opens = true ∧ ∃ p ∈ shrinkingAlign file.block 10 (6 * megabyte), p.1 < last) ∧
        b'.Owes fs (r.buffer.toList ++ hs)) ∨
      (file.opens = true ∧ ∃ p ∈ shrinkingAlign file.block 10 (6 * megabyte), p.1 < last) ∧
        r.buffer = none ∧ ∃ p x, b'.Owes (x :: fs) (p :: hs) := by
  unfold loadKernelFile at hr
  cases ho : file.opens with
  | false =>
    simp only [ho, Bool.not_false, if_true] at hr
    cases hr
    exact .inl ⟨fun hc => Bool.false_ne_true hc.1, h⟩
  | true =>
    simp only [ho, Bool.not_true, Bool.false_eq_true, if_false] at hr
    cases ha : shrinkingAlign file.block 10 (6 * megabyte) with
    | none =>
      simp only [ha] at hr
      cases hr
      exact .inl ⟨fun hc => by simp at hc, h.fopen.fclose⟩
    | some p =>
      obtain ⟨p, maxsize⟩ := p
      simp only [ha] at hr
      have hloop := gzreadLoop_owes file p (shrinkingAlign_large (by decide) ha)
        (h.fopen.memalign p)
      simp only [Option.mem_def, Option.some.injEq, exists_eq_left', true_and]
      split_ifs at hr with hlt
      · cases hr
        exact .inr ⟨hlt, rfl, p, _, h.fopen.memalign p⟩
      · refine .inl ⟨hlt, ?_⟩
        split at hr
        · rename_i heq
          rw [heq] at hloop
          cases hr
          exact Loader.Owes.free (Loader.Owes.fclose hloop)
        · rename_i pos b1 heq
          rw [heq] at hloop
          have hclosed := Loader.Owes.fclose hloop
          unfold Loader.realloc at hr
          split_ifs at hr with h0
          · cases hr
            exact hclosed.free
          · cases hr
            exact hclosed

theorem loadKernel_owes {r : Outcome (Nat × Nat)} (h : b.Owes fs hs)
    (hr : loadKernel env b = (r, b')) :
    (∃ p n, r = .done (p, n) ∧ ¬KernelLeaks env ∧ b'.Owes fs (p :: hs)) ∨
      ∃ code, r = .failed code ∧ b'.OwesUnless (KernelLeaks env) fs hs := by
  unfold loadKernel at hr
  unfold KernelLeaks
  cases hrom : env.kernelRom with
  | some rom =>
    obtain ⟨rom, block⟩ := rom
    have hno : ¬(some (rom, block) = none ∧ env.kernelFile.opens = true ∧
        ∃ p ∈ shrinkingAlign env.kernelFile.block 10 (6 * megabyte), p.1 < env.last) :=
      fun hl => Option.some_ne_none _ hl.1
    simp only [hrom] at hr
    cases block with
    | none =>
      cases hr
      exact .inr ⟨_, rfl, Loader.Owes.unless h hno⟩
    | some p =>
      cases hr
      exact .inl ⟨p, _, rfl, hno, h.memalign p⟩
  | none =>
    simp only [hrom, true_and] at hr ⊢
    cases hk : loadKernelFile env.last env.kernelFile 0 b with
    | mk x b1 =>
      obtain ⟨buffer, size⟩ := x
      rw [hk] at hr
      rcases loadKernelFile_owes h hk with ⟨hno, ho⟩ | ⟨hl, rfl, p, q, ho⟩
      · cases buffer with
        | none =>
          cases hr
          exact .inr ⟨_, rfl, Loader.Owes.unless ho hno⟩
        | some p =>
          cases hr
          exact .inl ⟨p, size, rfl, hno, ho⟩
      · cases hr
        exact .inr ⟨_, rfl, Loader.Owes.leaked [q] ho hl⟩

end Kernel

section Modules
variable {env : ModuleEnv}

/-- The module is to be loaded from a file. -/
def Module.isFile (env : ModuleEnv) (m : Module) : Bool :=
  !(m.network && !env.network) && m.active && m.rom.isNone

/-- The first module to be loaded from a file opens and there is a block for it. -/
def ModulesLeak (env : ModuleEnv) (ms : List Module) : Prop :=
  ∃ m ∈ ms.find? (Module.isFile env), ∃ p, m.file.Gets p

theorem cleanUp_none (ms : List Module) (b : Loader) : (cleanUp none ms b).2 = b := by
  induction ms generalizing b with
  | nil => rfl
  | cons m ms ih =>
    rw [cleanUp]
    split_ifs
    · exact ih b
    · exact ih b

theorem Module.loadOne_of_not_file {m : Module} (last : Nat) (h : m.isFile env = false)
    (b : Loader) :
    ∃ m', m.loadOne last env b = (some (true, m'), b) := by
  unfold Module.isFile at h
  unfold Module.loadOne
  split_ifs with h1 h2
  · exact ⟨_, rfl⟩
  · cases hrom : m.rom with
    | none => simp_all
    | some rom => exact ⟨_, rfl⟩
  · exact ⟨_, rfl⟩

theorem Module.loadOne_of_file {m : Module} (h : m.isFile env = true) (b : Loader) :
    m.loadOne last env b = m.fromFile last env b := by
  unfold Module.isFile at h
  simp only [Bool.and_eq_true, Bool.not_eq_true', Option.isNone_iff_eq_none] at h
  unfold Module.loadOne
  rw [h.1.1, if_neg Bool.false_ne_true, if_pos h.1.2, h.2]

/-- The blocks of the modules loaded from files are never freed. -/
theorem loadModulesFrom_owes {ms before after : List Module} {ok : Bool} (h : b.Owes fs hs)
    (hr : loadModulesFrom last env before ms b = (some (ok, after), b')) :
    b'.OwesUnless (ModulesLeak env ms) fs hs := by
  induction ms generalizing before b hs with
  | nil =>
    cases hr
    exact h.unless fun ⟨m, hm, _⟩ => Option.some_ne_none m hm.symm
  | cons m ms ih =>
    rw [loadModulesFrom] at hr
    cases hf : m.isFile env with
    | false =>
      obtain ⟨m', hm'⟩ := m.loadOne_of_not_file last hf b
      rw [hm'] at hr
      unfold ModulesLeak
      rw [List.find?_cons_of_neg (by rw [hf]; exact Bool.false_ne_true)]
      exact ih h hr
    | true =>
      rw [Module.loadOne_of_file hf, Module.fromFile] at hr
      have hfind : (m :: ms).find? (Module.isFile env) = some m := List.find?_cons_of_pos hf
      cases hl : loadFile last m.file m.size none b with
      | mk x b1 =>
        rw [hl] at hr
        cases x with
        | none => cases hr
        | some x =>
          rcases loadFile_owes h hl with
            ⟨p, rfl, hg, -, ho⟩ | ⟨hx, hno, ho⟩ | ⟨p, q, hx, hg, -, ho⟩
          · refine Loader.OwesUnless.leaked (p := p) (ih ?_ hr) ⟨m, hfind, p, hg⟩
            split_ifs
            · exact ho.congr rfl rfl
            · exact ho
          · obtain ⟨buffer, size⟩ := x
            obtain rfl : buffer = none := hx
            simp only [cleanUp_none] at hr
            cases hr
            refine Loader.Owes.unless ho ?_
            rintro ⟨m', hm', p, hp⟩
            obtain rfl := Option.some.inj (hfind.symm.trans hm')
            exact hno p hp
          · obtain ⟨buffer, size⟩ := x
            obtain rfl : buffer = none := hx
            simp only [cleanUp_none] at hr
            cases hr
            exact Loader.Owes.leaked [q] ho ⟨m, hfind, p, hg⟩

end Modules

section RealLoader
variable {env : Env}

theorem loadInitrd_owes {file : FileInput} {header : Option Nat} {lowest buffer : Nat}
    {r : Outcome (Nat × Nat)} (h : b.Owes fs (buffer :: hs))
    (hr : loadInitrd last lowest buffer header file b = (r, b')) :
    (∀ code, r = .failed code → b'.Owes fs hs) ∧
      (∀ x, r = .done x → b'.Owes fs (buffer :: hs)) := by
  unfold loadInitrd fail at hr
  cases header with
  | none =>
    cases hr
    exact ⟨fun _ _ => h.free, fun _ hx => (nomatch hx)⟩
  | some base =>
    cases hl : loadFile last file (sub32 lowest (base + 8)) (some (base + 8)) b with
    | mk x b1 =>
      simp only [hl] at hr
      cases x with
      | none =>
        cases hr
        exact ⟨fun _ hx => (nomatch hx), fun _ hx => (nomatch hx)⟩
      | some x =>
        have ho := loadFile_given_owes h hl
        obtain ⟨buf, size⟩ := x
        cases buf with
        | none =>
          cases hr
          exact ⟨fun _ _ => Loader.Owes.free ho, fun _ hx => (nomatch hx)⟩
        | some start =>
          simp only at hr
          split_ifs at hr
          · cases hr
            exact ⟨fun _ _ => Loader.Owes.free ho, fun _ hx => (nomatch hx)⟩
          · cases hr
            exact ⟨fun _ _ => Loader.Owes.free ho, fun _ hx => (nomatch hx)⟩
          · cases hr
            exact ⟨fun _ hx => (nomatch hx), fun _ _ => ho⟩

theorem initrdStep_owes {lowest buffer highest : Nat} {r : Outcome (Option (Nat × Nat))}
    (h : b.Owes fs (buffer :: hs)) (hr : initrdStep env lowest buffer highest b = (r, b')) :
    (∀ code, r = .failed code → b'.Owes fs hs) ∧
      (∀ x, r = .done x → b'.Owes fs (buffer :: hs)) := by
  unfold initrdStep at hr
  split at hr
  · cases hr
    exact ⟨fun _ hx => (nomatch hx), fun _ _ => h⟩
  · rename_i file _
    cases hl : loadInitrd env.last lowest buffer (initrdHeader highest lowest) file b with
    | mk x b1 =>
      obtain ⟨hfail, hdone⟩ := loadInitrd_owes h hl
      rw [hl] at hr
      cases x with
      | trapped =>
        cases hr
        exact ⟨fun _ hx => (nomatch hx), fun _ hx => (nomatch hx)⟩
      | failed code =>
        cases hr
        exact ⟨fun _ _ => hfail code rfl, fun _ hx => (nomatch hx)⟩
      | done x =>
        cases hr
        exact ⟨fun _ hx => (nomatch hx), fun _ _ => hdone x rfl⟩

/-- `check_sections` accepts the kernel that was loaded to `buffer`. -/
def KernelAccepted (env : Env) (buffer size : Nat) (b : Loader) : Prop :=
  (checkSections (ofBytes (kernelBytes buffer b.mem))
    ⟨size, kernelStart, lowestOf env buffer, none⟩ (.fresh b.mem)).1 = none

theorem bootKernel_owes {sbiosBase buffer size : Nat} {code : Int} (h : b.Owes fs (buffer :: hs))
    (hr : bootKernel env sbiosBase buffer size b = (.failed code, b')) :
    b'.OwesUnless (KernelAccepted env buffer size b ∧ ModulesLeak env.moduleEnv env.modules)
      fs hs := by
  unfold bootKernel at hr
  unfold KernelAccepted
  simp only at hr
  split at hr
  · rename_i e s hc
    cases hr
    refine h.free.unless fun hl => ?_
    rw [hc] at hl
    exact Option.some_ne_none e hl.1
  · rename_i s hc
    simp only [hc, true_and]
    cases hm : loadModules env.last env.moduleEnv env.modules b with
    | mk x b1 =>
      rw [hm] at hr
      cases x with
      | none => cases hr
      | some x =>
        obtain ⟨ok, ms⟩ := x
        refine (loadModulesFrom_owes h hm).step fun fs hs h1 => ?_
        cases ok with
        | false =>
          cases hr
          exact h1.free
        | true =>
          simp only at hr
          cases hi : initrdStep env (lowestOf env buffer) buffer s.highest b1 with
          | mk y b2 =>
            obtain ⟨hfail, hdone⟩ := initrdStep_owes h1 hi
            rw [hi] at hr
            cases y with
            | trapped => cases hr
            | failed code =>
              cases hr
              exact hfail _ rfl
            | done y =>
              simp only [integrityStep, fail] at hr
              split_ifs at hr
              · cases hr
              · cases hr
                exact (hdone y rfl).free

/-- The ways of `real_loader` to lose memory or a file: in `load_sbios`, in `load_kernel_file` after
the SBIOS was accepted, or in `loadModules` after the kernel was accepted, too. -/
def Loses (env : Env) (b : Loader) : Prop :=
  env.last ≤ env.stack ∧ (SbiosLeaks env.last env.sbios b ∨
    ∃ base b1, loadSbios env.last env.sbios b = (some (some base), b1) ∧ (KernelLeaks env ∨
      ∃ p n b2, loadKernel env b1 = (.done (p, n), b2) ∧ KernelAccepted env p n b2 ∧
        ModulesLeak env.moduleEnv env.modules))

theorem realLoader_owes {code : Int} (h : b.Owes fs hs)
    (hr : realLoader env b = (.failed code, b')) : b'.OwesUnless (Loses env b) fs hs := by
  unfold realLoader at hr
  split_ifs at hr with hstack
  · cases hr
    exact h.unless fun hl => Nat.not_le.mpr hstack hl.1
  · unfold Loses
    cases hsb : loadSbios env.last env.sbios b with
    | mk x b1 =>
      rw [hsb] at hr
      cases x with
      | none => cases hr
      | some x =>
        obtain ⟨hleak, hclean⟩ := loadSbios_owes h hsb
        cases x with
        | none =>
          cases hr
          refine hleak.congr ?_
          simp [Nat.le_of_not_lt hstack]
        | some base =>
          obtain ⟨hno, h1⟩ := hclean (Option.some_ne_none base)
          simp only at hr
          cases hk : loadKernel env b1 with
          | mk y b2 =>
            rw [hk] at hr
            rcases loadKernel_owes h1 hk with ⟨p, n, rfl, hnok, h2⟩ | ⟨code', rfl, h2⟩
            · refine (bootKernel_owes h2 hr).congr ?_
              simp [Nat.le_of_not_lt hstack, hno, hnok, hk]
            · cases hr
              refine h2.congr ?_
              simp [Nat.le_of_not_lt hstack, hno, hk]

/-- A failed attempt to boot has released everything exactly if it took none of the ways to lose
something. -/
theorem realLoader_releases (env : Env) (m : Mem) (code : Int)
    (hr : (realLoader env (.start m)).1 = .failed code) :
    (realLoader env (.start m)).2.Released ↔ ¬Loses env (.start m) :=
  (realLoader_owes (Loader.owes_start m) (Prod.ext hr rfl)).released_iff

/-- SBIOS and kernel are loaded from files; the modules are given. -/
def smallEnv (modules : List Module) : Env where
  stack := 0x2000000
  ftext := 0x200000
  last := 0x500000
  sbios :=
    { sbiosbin := 0x300000
      rom := none
      file := ⟨true, 24, some 0x580000, [24], wordsOf smallSbios⟩
      enabled := fun _ => true }
  kernelRom := none
  kernelFile :=
    ⟨true, fun _ => some 0x600000, [96], elf32.file 1 0x80080004 [⟨1, 0x54, 0, 0x80080000, 8, 16⟩]⟩
  moduleEnv := ⟨false, false⟩
  modules := modules
  initrd := none
  crc32check := fun _ => false

/-- A module that is loaded from a file. -/
def smallModule (file : FileInput) : Module :=
  ⟨false, true, true, false, none, file, none, 0, false⟩

theorem realLoader_releases_small :
    (realLoader (smallEnv []) (.start 0)).1 = .failed (-13) ∧
      (realLoader (smallEnv []) (.start 0)).2.Released ∧ ¬Loses (smallEnv []) (.start 0) := by
  have hcode : (realLoader (smallEnv []) (.start 0)).1 = .failed (-13) :=
    Outcome.code_eq_some.mp (by decide +kernel)
  have hreleased : (realLoader (smallEnv []) (.start 0)).2.Released := by decide +kernel
  exact ⟨hcode, hreleased, (realLoader_releases (smallEnv []) 0 (-13) hcode).mp hreleased⟩

/-- The first module is loaded to a block at 0x700000, the second cannot be opened: the attempt
fails and the block is not freed. -/
theorem realLoader_keeps_module :
    let env := smallEnv
      [smallModule ⟨true, 200, some 0x700000, [200], 0⟩, smallModule ⟨false, 0, none, [], 0⟩]
    let r := realLoader env (.start 0)
    r.1.code = some (-2) ∧ ¬r.2.Released ∧ r.2.heap.acquired.count 0x700000 = 1 ∧
      r.2.heap.released.count 0x700000 = 0 := by
  decide +kernel

end RealLoader

end KernelLoader.Boot
