import KernelLoader.Lib.CString
import KernelLoader.Lib.Memory

namespace KernelLoader.Tge.Smod
open Lib
set_option autoImplicit true
set_option relaxedAutoImplicit false

/-- `smod_mod_info_t`, 48 bytes in the memory of the IOP. The pointers are addresses there. -/
structure ModInfo where
  next : Nat
  name : Nat
  version : Nat
  newflags : Nat
  id : Nat
  flags : Nat
  entry : Nat
  gp : Nat
  textStart : Nat
  textSize : Nat
  dataSize : Nat
  bssSize : Nat
  unused1 : Nat
  unused2 : Nat
  deriving DecidableEq

/-- `iop_read` of a record. -/
def readModInfo (iop : Mem) (addr : Nat) : ModInfo where
  next := le iop addr 4
  name := le iop (addr + 4) 4
  version := le iop (addr + 8) 2
  newflags := le iop (addr + 10) 2
  id := le iop (addr + 12) 2
  flags := le iop (addr + 14) 2
  entry := le iop (addr + 16) 4
  gp := le iop (addr + 20) 4
  textStart := le iop (addr + 24) 4
  textSize := le iop (addr + 28) 4
  dataSize := le iop (addr + 32) 4
  bssSize := le iop (addr + 36) 4
  unused1 := le iop (addr + 40) 4
  unused2 := le iop (addr + 44) 4

def listHead : Nat := 0x800

/-- The id and the record, which is not written at the end of the list. -/
def smodGetNextMod (iop : Mem) (curMod : Option ModInfo) (nextMod : ModInfo) : Nat × ModInfo :=
  match curMod with
  | none => ((readModInfo iop listHead).id, readModInfo iop listHead)
  | some curMod =>
    if curMod.next = 0 then (0, nextMod)
    else ((readModInfo iop curMod.next).id, readModInfo iop curMod.next)

def sizeofSearchName : Nat := 60

/-- `iop_read` of a name to a buffer; behind the buffer is what happens to be there. -/
def readSearchName (iop : Mem) (name : Nat) (behind : Nat → UInt8) : Nat → UInt8 := fun i =>
  if i < sizeofSearchName then iop (name + i) else behind i

/-- The loop over the list, without a result if it does not come to an end in time. -/
def smodSearch (iop : Mem) (name : List UInt8) (behind : Nat → UInt8) :
    (fuel : Nat) → ModInfo → Option (Nat × ModInfo)
  | 0, _ => none
  | fuel + 1, info =>
    if memcmp (readSearchName iop info.name behind) (literal name) name.length = 0 then
      some (info.id, info)
    else
      let (id, info) := smodGetNextMod iop (some info) info
      if id ≠ 0 then smodSearch iop name behind fuel info else some (0, info)

/-- The value returned and the record at `info`. -/
def smodGetModByName (iop : Mem) (name : List UInt8) (behind : Nat → UInt8) (fuel : Nat)
    (info : ModInfo) : Option (Nat × ModInfo) :=
  let (id, info) := smodGetNextMod iop none info
  if id = 0 then some (0, info) else smodSearch iop name behind fuel info

/-- A module: its record and its name. -/
structure Module where
  info : ModInfo
  name : List UInt8

/-- What is in the memory of the IOP at the place of a module. -/
structure ModuleAt (iop : Mem) (a : Nat) (mod : Module) : Prop where
  info : mod.info = readModInfo iop a
  id : mod.info.id ≠ 0
  name : StringAt (fun i => iop (mod.info.name + i)) mod.name

/-- A list of modules that ends. -/
inductive Linked (iop : Mem) : Nat → List Module → Prop
  | last {mod : Module} : ModuleAt iop a mod → mod.info.next = 0 → Linked iop a [mod]
  | more {mod : Module} {mods : List Module} : ModuleAt iop a mod → mod.info.next ≠ 0 →
      Linked iop mod.info.next mods → Linked iop a (mod :: mods)

/-- The value returned and the record stored are those of the first module with the name. -/
def FindsByName (iop : Mem) (name : List UInt8) (mods : List Module) : Prop :=
  ∀ behind info, ∀ fuel ≥ mods.length, ∃ id info',
    smodGetModByName iop name behind fuel info = some (id, info') ∧
      (∀ mod, mods.find? (·.name == name) = some mod → id = mod.info.id ∧ info' = mod.info) ∧
      (mods.find? (·.name == name) = none → id = 0)

variable {iop : Mem} {mods : List Module} {name : List UInt8} {behind : Nat → UInt8} {mod : Module}

theorem Linked.exists_moduleAt (h : Linked iop a mods) (hmod : mod ∈ mods) :
    ∃ b, ModuleAt iop b mod := by
  induction h with
  | last hat _ =>
    rw [List.mem_singleton.mp hmod]
    exact ⟨_, hat⟩
  | more hat _ _ ih =>
    rcases List.mem_cons.mp hmod with rfl | hmod
    · exact ⟨_, hat⟩
    · exact ih hmod

/-- Only as many characters are compared as the name looked for has. -/
theorem ModuleAt.memcmp_iff (h : ModuleAt iop a mod) (behind : Nat → UInt8) (hname : 0 ∉ name)
    (hlen : name.length < sizeofSearchName) :
    memcmp (readSearchName iop mod.info.name behind) (literal name) name.length = 0 ↔
      name.isPrefixOf mod.name = true := by
  rw [memcmp_literal, List.isPrefixOf_iff_prefix, ← h.name.begins_iff hname]
  exact begins_congr fun i hi => if_pos (by omega)

theorem Linked.search (h : Linked iop a mods) (behind : Nat → UInt8) (hname : 0 ∉ name)
    (hlen : name.length < sizeofSearchName) {fuel : Nat} (hfuel : mods.length ≤ fuel) :
    (∀ mod, mods.find? (name.isPrefixOf ·.name) = some mod →
      smodSearch iop name behind fuel (readModInfo iop a) = some (mod.info.id, mod.info)) ∧
    (mods.find? (name.isPrefixOf ·.name) = none → ∃ info,
      smodSearch iop name behind fuel (readModInfo iop a) = some (0, info)) := by
  induction h generalizing fuel with
  | @last a mod hat hnext =>
    cases fuel with
    | zero => exact absurd hfuel (Nat.not_succ_le_zero _)
    | succ fuel =>
      have hiff := hat.memcmp_iff behind hname hlen
      rw [← hat.info, smodSearch, List.find?_singleton]
      by_cases hp : name.isPrefixOf mod.name = true
      · rw [if_pos (hiff.mpr hp), if_pos hp]
        exact ⟨fun _ he => Option.some.inj he ▸ rfl, fun he => (nomatch he)⟩
      · rw [if_neg (mt hiff.mp hp), if_neg hp, smodGetNextMod, if_pos hnext]
        exact ⟨fun _ he => (nomatch he), fun _ => ⟨mod.info, rfl⟩⟩
  | @more a mod mods hat hnext hlinked ih =>
    cases fuel with
    | zero => exact absurd hfuel (Nat.not_succ_le_zero _)
    | succ fuel =>
      have hiff := hat.memcmp_iff behind hname hlen
      rw [← hat.info, smodSearch, List.find?_cons]
      by_cases hp : name.isPrefixOf mod.name = true
      · rw [if_pos (hiff.mpr hp), hp]
        exact ⟨fun _ he => Option.some.inj he ▸ rfl, fun he => (nomatch he)⟩
      · have hid : (readModInfo iop mod.info.next).id ≠ 0 := by
          cases hlinked with
          | last hat' _ => exact hat'.info ▸ hat'.id
          | more hat' _ _ => exact hat'.info ▸ hat'.id
        rw [if_neg (mt hiff.mp hp), Bool.eq_false_iff.mpr hp, smodGetNextMod, if_neg hnext]
        simp only [ne_eq, hid, not_false_eq_true, if_true]
        exact ih (Nat.le_of_succ_le_succ hfuel)

theorem Linked.getModByName (h : Linked iop listHead mods) (info : ModInfo) (fuel : Nat) :
    smodGetModByName iop name behind fuel info =
      smodSearch iop name behind fuel (readModInfo iop listHead) := by
  have hid : (readModInfo iop listHead).id ≠ 0 := by
    cases h with
    | last hat _ => exact hat.info ▸ hat.id
    | more hat _ _ => exact hat.info ▸ hat.id
  rw [smodGetModByName, smodGetNextMod]
  exact if_neg hid

theorem name_of_find? (h : mods.find? (·.name == name) = some mod) : mod.name = name :=
  eq_of_beq (List.find?_some (p := fun mod : Module => mod.name == name) h)

theorem find?_name_of_prefix
    (h : mods.find? (name.isPrefixOf ·.name) = some mod) (hmod : mod.name = name) :
    mods.find? (·.name == name) = some mod := by
  rw [List.find?_eq_some_iff_append] at h ⊢
  obtain ⟨-, before, behind, hsplit, hbefore⟩ := h
  refine ⟨by simpa using hmod, before, behind, hsplit, fun other hother => ?_⟩
  have hno := hbefore other hother
  rw [Bool.not_eq_true', ← Bool.not_eq_true, List.isPrefixOf_iff_prefix] at hno
  have hne : other.name ≠ name := fun he => hno (he ▸ List.prefix_refl _)
  simpa using hne

/-- The lookup does what it is for if the first module whose name begins with the name looked for
has this name. -/
theorem smodGetModByName_finds_iff (h : Linked iop listHead mods) (hname : 0 ∉ name)
    (hlen : name.length < 60) :
    FindsByName iop name mods ↔
      ∀ mod, mods.find? (name.isPrefixOf ·.name) = some mod → mod.name = name := by
  constructor
  · intro hfinds mod hmod
    obtain ⟨id, info, hget, hsome, hnone⟩ :=
      hfinds (fun _ => 0) mod.info mods.length (Nat.le_refl _)
    rw [h.getModByName, (h.search _ hname hlen (Nat.le_refl _)).1 mod hmod] at hget
    obtain ⟨rfl, rfl⟩ := Prod.mk.inj (Option.some.inj hget)
    obtain ⟨b, hat⟩ := h.exists_moduleAt (List.mem_of_find?_eq_some hmod)
    cases hexact : mods.find? (·.name == name) with
    | none => exact absurd (hnone hexact) hat.id
    | some other =>
      -- the record tells where the name is, so that both modules have the same one
      obtain ⟨b', hat'⟩ := h.exists_moduleAt (List.mem_of_find?_eq_some hexact)
      have hname' := hat'.name
      rw [← (hsome other hexact).2] at hname'
      rw [hat.name.unique hname']
      exact name_of_find? hexact
  · intro hcond behind info fuel hfuel
    obtain ⟨hsome, hnone⟩ := h.search behind hname hlen hfuel
    rw [h.getModByName]
    cases hprefix : mods.find? (name.isPrefixOf ·.name) with
    | some mod =>
      have hexact := find?_name_of_prefix hprefix (hcond mod hprefix)
      refine ⟨mod.info.id, mod.info, hsome mod hprefix, fun other hother => ?_, fun hno => ?_⟩
      · obtain rfl : mod = other := Option.some.inj (hexact.symm.trans hother)
        exact ⟨rfl, rfl⟩
      · exact (nomatch hexact.symm.trans hno)
    | none =>
      obtain ⟨info', hget⟩ := hnone hprefix
      refine ⟨0, info', hget, fun other hother => ?_, fun _ => rfl⟩
      have hno := List.find?_eq_none.mp hprefix other (List.mem_of_find?_eq_some hother)
      rw [List.isPrefixOf_iff_prefix, name_of_find? hother] at hno
      exact absurd (List.prefix_refl _) hno

def mcservName : List UInt8 := [109, 99, 115, 101, 114, 118]
def mcservxName : List UInt8 := [109, 99, 115, 101, 114, 118, 120]

/-- The memory of an IOP with two modules: the first at the head of the list with its name at
0xa00, the second at 0x900 with its name at 0xb00. -/
def twoModules (first second : List UInt8) : Mem := fun a =>
  let record (next name id : UInt8) : List UInt8 :=
    [0, next, 0, 0, 0, name, 0, 0, 0, 2, 0, 0, id, 0]
  if a < 0x900 then (record 9 0xa 1).getD (a - 0x800) 0
  else if a < 0xa00 then (record 0 0xb 2).getD (a - 0x900) 0
  else if a < 0xb00 then first.getD (a - 0xa00) 0
  else second.getD (a - 0xb00) 0

/-- The two modules as a list. -/
def modulesOf (first second : List UInt8) : List Module :=
  [⟨readModInfo (twoModules first second) 0x800, first⟩,
    ⟨readModInfo (twoModules first second) 0x900, second⟩]

theorem linked_mcserv_mcservx :
    Linked (twoModules mcservName mcservxName) listHead (modulesOf mcservName mcservxName) :=
  .more ⟨rfl, by decide, by decide, by decide, by decide⟩ (by decide)
    (.last ⟨rfl, by decide, by decide, by decide, by decide⟩ (by decide))

theorem linked_mcservx_mcserv :
    Linked (twoModules mcservxName mcservName) listHead (modulesOf mcservxName mcservName) :=
  .more ⟨rfl, by decide, by decide, by decide, by decide⟩ (by decide)
    (.last ⟨rfl, by decide, by decide, by decide, by decide⟩ (by decide))

/-- The module that is looked for comes first. -/
theorem smodGetModByName_finds_mcserv :
    FindsByName (twoModules mcservName mcservxName) mcservName (modulesOf mcservName mcservxName) ↔
      ∀ mod, (modulesOf mcservName mcservxName).find? (mcservName.isPrefixOf ·.name) = some mod →
        mod.name = mcservName :=
  smodGetModByName_finds_iff linked_mcserv_mcservx (by decide) (by decide)

/-- Another module, whose name only begins like the name looked for, comes first. -/
theorem smodGetModByName_finds_other :
    Linked (twoModules mcservxName mcservName) listHead (modulesOf mcservxName mcservName) ∧
      ¬ FindsByName (twoModules mcservxName mcservName) mcservName
        (modulesOf mcservxName mcservName) := by
  refine ⟨linked_mcservx_mcserv, fun h => ?_⟩
  obtain ⟨id, info, hget, hsome, -⟩ :=
    h (fun _ => 0) (readModInfo (twoModules mcservxName mcservName) 0x800) 2 (by decide)
  have hid : (smodGetModByName (twoModules mcservxName mcservName) mcservName (fun _ => 0) 2
      (readModInfo (twoModules mcservxName mcservName) 0x800)).map Prod.fst = some 1 := by decide
  rw [hget] at hid
  have htwo := (hsome ⟨readModInfo (twoModules mcservxName mcservName) 0x900, mcservName⟩ rfl).1
  have hsecond : (readModInfo (twoModules mcservxName mcservName) 0x900).id = 2 := by decide
  rw [Option.map_some, Option.some.injEq, htwo] at hid
  exact absurd (hsecond.symm.trans hid) (by decide)

end KernelLoader.Tge.Smod
