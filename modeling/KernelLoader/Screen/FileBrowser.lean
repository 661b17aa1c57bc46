import KernelLoader.Lib.Reach
import KernelLoader.Lib.Text
import KernelLoader.Config.Items

namespace KernelLoader.Screen
open Lib
open Config (maxInputLen)
set_option autoImplicit true
set_option relaxedAutoImplicit false

def maxEntries : Nat := 256
def maxFileLen : Nat := 256
def maxPathLen : Nat := maxInputLen

/-- An entry that `fileXioDread` returns. -/
structure Dirent where
  name : List Char
  mode : Nat
  plain : '\x00' ∉ name
  short : name.length < maxFileLen
  deriving DecidableEq, Repr

def Dirent.isDir (dir : Dirent) : Bool := dir.mode &&& 0x1000 ≠ 0

/-- What is read from a directory that can be opened. -/
structure Directory where
  entries : List Dirent
  few : entries.length ≤ maxEntries
  deriving DecidableEq, Repr

/-- The buffers for which a file can be chosen. -/
inductive Target
  | configfile
  | kernelFilename
  | initrdFilename
  deriving DecidableEq, Repr

/-- The menus that are not made from directories. -/
inductive FixedMenu
  | advancedMenu
  | fileMenu
  | configFileMenu
  | linuxMenu
  | initrdMenu
  | other (n : Nat)
  deriving DecidableEq, Repr

/-- The constant part of `fsRootParam_t`. -/
structure RootParam where
  target : Target
  mainMenu : FixedMenu
  menu : FixedMenu
  fsName : List Char
  deriving DecidableEq, Repr

/-- The roots that can be browsed, and whether the driver supports DVD video discs. -/
structure Roots (R : Type) where
  param : R → RootParam
  isDVDVSupported : Bool

inductive FileSystem
  | usb
  | mc0
  | mc1
  | host
  | cdfs
  deriving DecidableEq, Repr

def FileSystem.fsName : FileSystem → List Char
  | .usb => "mass0:".toList
  | .mc0 => "mc0:".toList
  | .mc1 => "mc1:".toList
  | .host => "host:".toList
  | .cdfs => "cdfs:".toList

/-- The roots of the loader: each file can be chosen from each file system. -/
def loaderRoots (isDVDVSupported : Bool) : Roots (Target × FileSystem) where
  param
    | (.configfile, fs) => ⟨.configfile, .fileMenu, .configFileMenu, fs.fsName⟩
    | (.kernelFilename, fs) => ⟨.kernelFilename, .advancedMenu, .linuxMenu, fs.fsName⟩
    | (.initrdFilename, fs) => ⟨.initrdFilename, .advancedMenu, .initrdMenu, fs.fsName⟩
  isDVDVSupported := isDVDVSupported

/-- `fsDirParam_t` -/
structure DirParam (R : Type) where
  rootParam : R
  name : List Char
  deriving DecidableEq, Repr

/-- An item of a file menu. Directories and files point into `fsDirParam`. -/
inductive Item
  | back (menu : FixedMenu)
  | dir (i : Nat)
  | file (i : Nat)
  deriving DecidableEq, Repr

inductive MenuPtr (R : Type)
  | fileMenu (r : R)
  | menu (m : FixedMenu)
  deriving DecidableEq, Repr

inductive DiscCall
  | setEnableDisc (on : Bool)
  | setDvdv (on : Bool)
  | stop
  | flushCache
  deriving DecidableEq, Repr

/-- A directory that was opened and read: what the menu of a root was made from. -/
structure Listing where
  path : List Char
  dir : Directory
  isRoot : Bool
  deriving DecidableEq, Repr

/-- The menus, the paths and file names, and the calls made. `listed` records the last directory
that was opened for a root. -/
structure Browser (R : Type) where
  current : Option (MenuPtr R)
  fileName : R → List Char
  fileMenu : R → Option (List Item)
  fsDirParam : Nat → DirParam R
  target : Target → List Char
  errors : List (List Char)
  disc : List DiscCall
  listed : R → Option Listing

namespace Browser

variable {R : Type} [DecidableEq R]

def errorPrint (text : List Char) (s : Browser R) : Browser R :=
  { s with errors := s.errors ++ [text] }

def discCalls (calls : List DiscCall) (s : Browser R) : Browser R :=
  { s with disc := s.disc ++ calls }

def setCurrentMenu (m : Option (MenuPtr R)) (s : Browser R) : Browser R := { s with current := m }

def setPath (r : R) (path : List Char) (s : Browser R) : Browser R :=
  { s with fileName := Function.update s.fileName r path }

end Browser

section Model

variable {R : Type} [DecidableEq R] (env : Roots R)

/-- The loop that reads a directory. It gives the entries of `fsDirParam` and the items. -/
def addEntries (r : R) (isRoot : Bool) : List Dirent → (i : Nat) → (Nat → DirParam R) → List Item →
    (Nat → DirParam R) × List Item
  | [], _, fsDirParam, items => (fsDirParam, items)
  | dir :: rest, i, fsDirParam, items =>
    if dir.name ≠ ['.'] then
      let name := dir.name.take (maxFileLen - 1)
      let fsDirParam := Function.update fsDirParam i ⟨r, name⟩
      if dir.isDir ∧ name = ['.', '.'] ∧ isRoot then
        addEntries r isRoot rest i fsDirParam items
      else
        let items := items ++ [if dir.isDir then .dir i else .file i]
        if i + 1 ≥ maxEntries then (fsDirParam, items)
        else addEntries r isRoot rest (i + 1) fsDirParam items
    else addEntries r isRoot rest i fsDirParam items

/-- `opened` is what `fileXioDopen` and `fileXioDread` give for the path. -/
def fsGenerateDirListMenu (r : R) (isRoot : Bool) (opened : Option Directory) (s : Browser R) :
    Browser R :=
  let s := s.discCalls [.setEnableDisc true]
  let s := match opened with
    | some dir =>
      let made := addEntries r isRoot dir.entries 0 s.fsDirParam [.back (env.param r).menu]
      { s with
        fsDirParam := made.1
        fileMenu := Function.update s.fileMenu r (some made.2)
        listed := Function.update s.listed r (some ⟨s.fileName r, dir, isRoot⟩) }.setCurrentMenu
          (some (.fileMenu r))
    | none =>
      s.errorPrint ("Error while reading directory \"".toList ++ s.fileName r ++
        "\". Is medium inserted?".toList)
  s.discCalls [.setEnableDisc false]

/-- The argument of `fsFile` and `fsDir` points to an element of `fsDirParam`. -/
def fsFile (arg : Nat) (s : Browser R) : Int × Browser R :=
  let param := s.fsDirParam arg
  let rootParam := param.rootParam
  if (s.fileName rootParam).length + param.name.length + 2 < maxPathLen then
    let s := s.setPath rootParam (s.fileName rootParam ++ '/' :: param.name)
    let s := { s with
      target := Function.update s.target (env.param rootParam).target (s.fileName rootParam) }
    let s := if (env.param rootParam).fsName = "cdfs:".toList then
      s.discCalls [.stop, .flushCache] else s
    (0, s.setCurrentMenu (some (.menu (env.param rootParam).mainMenu)))
  else (-1, s.errorPrint "Filename is too long.\n".toList)

def fsDir (arg : Nat) (opened : Option Directory) (s : Browser R) : Int × Browser R :=
  let param := s.fsDirParam arg
  let rootParam := param.rootParam
  if param.name ≠ ['.', '.'] then
    if (s.fileName rootParam).length + param.name.length + 2 < maxPathLen then
      (0, fsGenerateDirListMenu env rootParam false opened
        (s.setPath rootParam (s.fileName rootParam ++ '/' :: param.name)))
    else (-1, s.errorPrint "Path is too long.\n".toList)
  else
    let path := match beforeLast '/' (s.fileName rootParam) with
      | some path => path
      | none => (env.param rootParam).fsName
    (0, fsGenerateDirListMenu env rootParam false opened (s.setPath rootParam path))

/-- `dvdv` tells whether the disc in the drive is a DVD video disc. -/
def fsroot (r : R) (opened : Option Directory) (dvdv : Bool) (s : Browser R) : Int × Browser R :=
  let s := if s.fileMenu r = none then
    { s with fileMenu := Function.update s.fileMenu r (some []) } else s
  let s := s.setPath r (env.param r).fsName
  let s := if env.isDVDVSupported ∧ (env.param r).fsName = "cdfs:".toList then
    s.discCalls [.setDvdv dvdv] else s
  (0, fsGenerateDirListMenu env r true opened s)

/-- The items `setCurrentMenu` and `setCurrentMenuAndStopCDVD` of a file menu. -/
def goBack (r : R) (menu : FixedMenu) (s : Browser R) : Int × Browser R :=
  let s := if (env.param r).fsName = "cdfs:".toList ∧ env.isDVDVSupported then
    s.discCalls [.stop, .flushCache] else s
  (0, s.setCurrentMenu (some (.menu menu)))

/-- What can be done in a menu: an item of a file menu, a root in its menu, or an item that leads to
another menu, is executed. -/
inductive Choice (R : Type)
  | item (k : Nat) (opened : Option Directory)
  | root (r : R) (opened : Option Directory) (dvdv : Bool)
  | goto (m : FixedMenu)

/-- The menu is deactivated while an item is executed, and restored if the item did not change
it. -/
def executeIn (m : MenuPtr R) (fn : Browser R → Int × Browser R) (s : Browser R) : Browser R :=
  let s := (fn (s.setCurrentMenu none)).2
  if s.current = none then s.setCurrentMenu (some m) else s

def executeItem (r : R) (opened : Option Directory) : Item → Browser R → Int × Browser R
  | .back menu => goBack env r menu
  | .dir i => fsDir env i opened
  | .file i => fsFile env i

def Browser.step (s : Browser R) (c : Choice R) : Browser R :=
  match s.current, c with
  | some (.fileMenu r), .item k opened =>
    match (s.fileMenu r).bind (·[k]?) with
    | some item => executeIn (.fileMenu r) (executeItem env r opened item) s
    | none => s
  | some (.menu m), .root r opened dvdv =>
    if (env.param r).menu = m then executeIn (.menu m) (fsroot env r opened dvdv) s else s
  | some (.menu _), .goto m => s.setCurrentMenu (some (.menu m))
  | _, _ => s

end Model

/-- What an item of a file menu shows and stands for. -/
inductive Entry (R : Type)
  | back (menu : FixedMenu)
  | dir (param : DirParam R)
  | file (param : DirParam R)
  deriving DecidableEq, Repr

def Item.entry (fsDirParam : Nat → DirParam R) : Item → Entry R
  | .back menu => .back menu
  | .dir i => .dir (fsDirParam i)
  | .file i => .file (fsDirParam i)

def Browser.display (s : Browser R) (r : R) : List (Entry R) :=
  ((s.fileMenu r).getD []).map (Item.entry s.fsDirParam)

def Dirent.entry (r : R) (dir : Dirent) : Entry R :=
  if dir.isDir then .dir ⟨r, dir.name⟩ else .file ⟨r, dir.name⟩

/-- Entries that are shown: not the directory itself, and in a root not what is above it. -/
def Dirent.shown (isRoot : Bool) (dir : Dirent) : Bool :=
  dir.name ≠ ['.'] ∧ ¬(dir.isDir ∧ dir.name = ['.', '.'] ∧ isRoot)

/-- How a directory is to be listed. -/
def Listing.display (env : Roots R) (r : R) (l : Listing) : List (Entry R) :=
  .back (env.param r).menu :: (l.dir.entries.filter (Dirent.shown l.isRoot)).map (Dirent.entry r)

section Entries

variable {R : Type} {fsDirParam : Nat → DirParam R} {items : List Item} {r : R}

/-- An item points to an element of `fsDirParam` before `i`. -/
def Item.Before (i : Nat) : Item → Prop
  | .back _ => True
  | .dir j => j < i
  | .file j => j < i

theorem Item.Before.succ {item : Item} (h : item.Before i) : item.Before (i + 1) := by
  cases item with
  | back => trivial
  | dir => exact Nat.lt_succ_of_lt h
  | file => exact Nat.lt_succ_of_lt h

theorem entry_update {item : Item} (h : item.Before i) (p : DirParam R) :
    item.entry (Function.update fsDirParam i p) = item.entry fsDirParam := by
  cases item with
  | back => rfl
  | dir => exact congrArg Entry.dir (Function.update_of_ne (Nat.ne_of_lt h) _ _)
  | file => exact congrArg Entry.file (Function.update_of_ne (Nat.ne_of_lt h) _ _)

theorem map_entry_update (h : ∀ item ∈ items, item.Before i) (p : DirParam R) :
    items.map (Item.entry (Function.update fsDirParam i p)) = items.map (Item.entry fsDirParam) :=
  List.map_congr_left fun item hitem => entry_update (h item hitem) p

theorem newItem_before (dir : Dirent) (i : Nat) :
    (if dir.isDir then Item.dir i else Item.file i).Before (i + 1) := by
  split
  · exact Nat.lt_succ_self i
  · exact Nat.lt_succ_self i

theorem entry_newItem (r : R) (dir : Dirent) (i : Nat) :
    (if dir.isDir then Item.dir i else Item.file i).entry
      (Function.update fsDirParam i ⟨r, dir.name⟩) = dir.entry r := by
  rw [Dirent.entry]
  split
  · exact congrArg Entry.dir (Function.update_self ..)
  · exact congrArg Entry.file (Function.update_self ..)

theorem map_entry_concat (r : R) (dir : Dirent) (h : ∀ item ∈ items, item.Before i) :
    (items ++ [if dir.isDir then Item.dir i else Item.file i]).map
        (Item.entry (Function.update fsDirParam i ⟨r, dir.name⟩)) =
      items.map (Item.entry fsDirParam) ++ [dir.entry r] := by
  rw [List.map_append, map_entry_update h, List.map_singleton, entry_newItem]

theorem addEntries_display [DecidableEq R] {entries : List Dirent} {isRoot : Bool}
    (hroom : i + (entries.filter (Dirent.shown isRoot)).length ≤ maxEntries)
    (hitems : ∀ item ∈ items, item.Before i) :
    (addEntries r isRoot entries i fsDirParam items).2.map
        (Item.entry (addEntries r isRoot entries i fsDirParam items).1) =
      items.map (Item.entry fsDirParam) ++
        (entries.filter (Dirent.shown isRoot)).map (Dirent.entry r) := by
  induction entries generalizing i fsDirParam items with
  | nil => rw [addEntries, List.filter_nil, List.map_nil, List.append_nil]
  | cons dir entries ih =>
    have hname : dir.name.take (maxFileLen - 1) = dir.name := by
      have := dir.short
      exact List.take_of_length_le (by omega)
    rw [addEntries]
    simp only [hname]
    by_cases hdot : dir.name = ['.']
    · have hshown : dir.shown isRoot = false := by simp [Dirent.shown, hdot]
      rw [List.filter_cons_of_neg (by simp [hshown])] at hroom ⊢
      rw [if_neg (not_not_intro hdot)]
      exact ih hroom hitems
    rw [if_pos hdot]
    by_cases hup : dir.isDir = true ∧ dir.name = ['.', '.'] ∧ isRoot = true
    · have hshown : dir.shown isRoot = false := by simp [Dirent.shown, hup]
      rw [List.filter_cons_of_neg (by simp [hshown])] at hroom ⊢
      rw [if_pos hup, ih hroom hitems, map_entry_update hitems]
    · have hshown : dir.shown isRoot = true := decide_eq_true ⟨hdot, hup⟩
      rw [List.filter_cons_of_pos hshown, List.length_cons] at hroom
      rw [if_neg hup, List.filter_cons_of_pos hshown, List.map_cons]
      have hnow : (items ++ [if dir.isDir then Item.dir i else Item.file i]).map
          (Item.entry (Function.update fsDirParam i ⟨r, dir.name⟩)) =
          items.map (Item.entry fsDirParam) ++ [dir.entry r] :=
        map_entry_concat r dir hitems
      by_cases hlast : i + 1 ≥ maxEntries
      · -- the table is full, and so there is nothing left to show
        have hnone : entries.filter (Dirent.shown isRoot) = [] :=
          List.eq_nil_of_length_eq_zero (by omega)
        rw [if_pos hlast, hnone]
        exact hnow
      · rw [if_neg hlast]
        refine (ih (by omega) fun item hitem => ?_).trans ?_
        · rcases List.mem_append.mp hitem with hitem | hitem
          · exact (hitems item hitem).succ
          · rw [List.mem_singleton.mp hitem]
            exact newItem_before dir i
        · rw [hnow, List.append_assoc]
          rfl

end Entries

/-- The menu of a root lists the directory at its path. -/
structure Browser.Lists (env : Roots R) (s : Browser R) (r : R) (l : Listing) : Prop where
  listed : s.listed r = some l
  path : s.fileName r = l.path
  display : s.display r = l.display env r

/-- Whenever a file menu is displayed, it lists the directory at the path of its root. -/
def Browser.Consistent (env : Roots R) (s : Browser R) : Prop :=
  ∀ r, s.current = some (.fileMenu r) → ∃ l, s.Lists env r l

/-- The path to which the choice of a directory leads. A path that gets too long is kept. -/
def nextPath (env : Roots R) (r : R) (path name : List Char) : List Char :=
  if name = ['.', '.'] then (beforeLast '/' path).getD (env.param r).fsName
  else if path.length + name.length + 2 < maxPathLen then path ++ '/' :: name
  else path

/-- The names that `fsDir` takes: those that do not make the path too long. -/
def Enters (path name : List Char) : Prop :=
  name = ['.', '.'] ∨ path.length + name.length + 2 < maxPathLen

/-- A directory that is chosen can be opened, or is the one that is listed. -/
def OpenOk (env : Roots R) (s : Browser R) (c : Choice R) : Prop :=
  ∀ r k opened param, s.current = some (.fileMenu r) → c = .item k opened →
    (s.display r)[k]? = some (.dir param) →
    opened ≠ none ∨ nextPath env r (s.fileName r) param.name = s.fileName r

section Browsing

variable {R : Type} {env : Roots R} {s : Browser R} {r : R} {l : Listing} {isRoot : Bool}
  {opened : Option Directory} {item : Item} {e : Entry R} {param : DirParam R}
  {path name : List Char}

theorem Browser.Lists.rootParam_eq (h : s.Lists env r l) (he : e ∈ s.display r)
    (hparam : e = .dir param ∨ e = .file param) : param.rootParam = r := by
  rw [h.display, Listing.display, List.mem_cons, List.mem_map] at he
  rcases he with rfl | ⟨dir, -, rfl⟩
  · rcases hparam with hparam | hparam <;> cases hparam
  · unfold Dirent.entry at hparam
    split at hparam
    · rcases hparam with hparam | hparam <;> cases hparam
      rfl
    · rcases hparam with hparam | hparam <;> cases hparam
      rfl

theorem entry_eq_dir (h : item.entry s.fsDirParam = .dir param) :
    ∃ i, item = .dir i ∧ s.fsDirParam i = param := by
  cases item with
  | back => cases h
  | dir i => exact ⟨i, rfl, Entry.dir.inj h⟩
  | file => cases h

theorem entry_eq_file (h : item.entry s.fsDirParam = .file param) :
    ∃ i, item = .file i ∧ s.fsDirParam i = param := by
  cases item with
  | back => cases h
  | dir => cases h
  | file i => exact ⟨i, rfl, Entry.file.inj h⟩

theorem display_getElem? (s : Browser R) (r : R) (k : Nat) :
    (s.display r)[k]? = ((s.fileMenu r).bind (·[k]?)).map (Item.entry s.fsDirParam) := by
  rw [Browser.display, List.getElem?_map]
  cases s.fileMenu r with
  | none => rfl
  | some items => rfl

theorem executeIn_changed {m m' : MenuPtr R} {fn : Browser R → Int × Browser R}
    (h : (fn (s.setCurrentMenu none)).2.current = some m') :
    executeIn m fn s = (fn (s.setCurrentMenu none)).2 :=
  if_neg (by rw [h]; exact Option.some_ne_none m')

theorem executeIn_unchanged {m : MenuPtr R} {fn : Browser R → Int × Browser R}
    (h : (fn (s.setCurrentMenu none)).2.current = none) :
    executeIn m fn s = (fn (s.setCurrentMenu none)).2.setCurrentMenu (some m) :=
  if_pos h

theorem nextPath_tooLong (hlong : ¬Enters path name) : nextPath env r path name = path := by
  rw [Enters, not_or] at hlong
  rw [nextPath, if_neg hlong.1, if_neg hlong.2]

theorem nextPath_down (hname : name ≠ ['.', '.']) (hfits : Enters path name) :
    nextPath env r path name = path ++ '/' :: name := by
  rw [nextPath, if_neg hname, if_pos (hfits.resolve_left hname)]

/-- From a directory whose name has no slash, the way up leads back. -/
theorem nextPath_up (hslash : '/' ∉ name) :
    nextPath env r (path ++ '/' :: name) ['.', '.'] = path := by
  rw [nextPath, if_pos rfl, beforeLast_of_not_mem hslash]
  rfl

theorem openOk_dir (hcur : s.current = some (.fileMenu r))
    (hitem : (s.display r)[k]? = some (.dir param)) :
    OpenOk env s (.item k opened) ↔
      opened ≠ none ∨ nextPath env r (s.fileName r) param.name = s.fileName r := by
  constructor
  · intro h
    exact h r k opened param hcur rfl hitem
  · intro h r' k' opened' param' hcur' hc hitem'
    cases hc
    cases hcur.symm.trans hcur'
    cases hitem.symm.trans hitem'
    exact h

theorem openOk_other (hcur : s.current = some (.fileMenu r))
    (hitem : ∀ param, (s.display r)[k]? ≠ some (.dir param)) : OpenOk env s (.item k opened) := by
  intro r' k' opened' param' hcur' hc hitem'
  cases hc
  cases hcur.symm.trans hcur'
  exact absurd hitem' (hitem param')

theorem consistent_of_menu {m : FixedMenu} (h : s.current = some (.menu m)) :
    s.Consistent env := by
  intro r hr
  cases h.symm.trans hr

theorem Browser.Lists.consistent (h : s.Lists env r l) (hcur : s.current = some (.fileMenu r)) :
    s.Consistent env := by
  intro r' hr'
  cases hcur.symm.trans hr'
  exact ⟨l, h⟩

variable [DecidableEq R]

theorem fsGenerateDirListMenu_opened (env : Roots R) (r : R) (isRoot : Bool) (dir : Directory)
    (s : Browser R) :
    (fsGenerateDirListMenu env r isRoot (some dir) s).current = some (.fileMenu r) ∧
      (fsGenerateDirListMenu env r isRoot (some dir) s).Lists env r
        ⟨s.fileName r, dir, isRoot⟩ := by
  refine ⟨rfl, ?_, rfl, ?_⟩
  · exact Function.update_self ..
  · have hroom : 0 + (dir.entries.filter (Dirent.shown isRoot)).length ≤ maxEntries := by
      rw [Nat.zero_add]
      exact Nat.le_trans (List.length_filter_le _ _) dir.few
    have hback : ∀ item ∈ [Item.back (env.param r).menu], item.Before 0 := by
      intro item hitem
      rw [List.mem_singleton.mp hitem]
      trivial
    have hmenu : (fsGenerateDirListMenu env r isRoot (some dir) s).fileMenu r =
        some (addEntries r isRoot dir.entries 0 s.fsDirParam [.back (env.param r).menu]).2 :=
      Function.update_self ..
    rw [Browser.display, hmenu, Option.getD_some]
    exact addEntries_display hroom hback

theorem step_item (env : Roots R) (hcur : s.current = some (.fileMenu r))
    (h : (s.display r)[k]? = some e) :
    ∃ item : Item, item.entry s.fsDirParam = e ∧ ∀ opened, s.step env (.item k opened) =
      executeIn (.fileMenu r) (executeItem env r opened item) s := by
  rw [display_getElem?, Option.map_eq_some_iff] at h
  obtain ⟨item, hitem, he⟩ := h
  refine ⟨item, he, fun opened => ?_⟩
  simp only [Browser.step, hcur, hitem]

theorem step_noItem (hcur : s.current = some (.fileMenu r)) (h : (s.display r)[k]? = none) :
    s.step env (.item k opened) = s := by
  rw [display_getElem?, Option.map_eq_none_iff] at h
  simp only [Browser.step, hcur, h]

theorem fsDir_tooLong (env : Roots R) (opened : Option Directory)
    (hparam : s.fsDirParam i = ⟨r, name⟩) (hlong : ¬Enters (s.fileName r) name) :
    (fsDir env i opened s).2 = s.errorPrint "Path is too long.\n".toList := by
  rw [Enters, not_or] at hlong
  simp only [fsDir, hparam, ne_eq, if_pos hlong.1, if_neg hlong.2]

theorem fsDir_entered (env : Roots R) (opened : Option Directory)
    (hparam : s.fsDirParam i = ⟨r, name⟩) (hfits : Enters (s.fileName r) name) :
    (fsDir env i opened s).2 = fsGenerateDirListMenu env r false opened
      (s.setPath r (nextPath env r (s.fileName r) name)) := by
  by_cases hup : name = ['.', '.']
  · have hup' : ¬name ≠ ['.', '.'] := not_not_intro hup
    simp only [fsDir, hparam, if_neg hup', nextPath, if_pos hup]
    cases beforeLast '/' (s.fileName r) with
    | none => rfl
    | some path => rfl
  · have hfits' := hfits.resolve_left hup
    simp only [fsDir, hparam, nextPath, if_neg hup, if_pos hup, if_pos hfits', ne_eq]

theorem step_dir (h : s.Lists env r l) (hcur : s.current = some (.fileMenu r))
    (hitem : (s.display r)[k]? = some (.dir param)) :
    ∃ i, (s.setCurrentMenu none).fsDirParam i = ⟨r, param.name⟩ ∧
      ∀ opened, s.step env (.item k opened) = executeIn (.fileMenu r) (fsDir env i opened) s := by
  obtain rfl : param.rootParam = r := h.rootParam_eq (List.mem_of_getElem? hitem) (.inl rfl)
  obtain ⟨item, hentry, hstep⟩ := step_item env hcur hitem
  obtain ⟨i, rfl, hparam⟩ := entry_eq_dir hentry
  exact ⟨i, hparam, hstep⟩

theorem step_dir_opened (h : s.Lists env r l) (hcur : s.current = some (.fileMenu r))
    (hitem : (s.display r)[k]? = some (.dir param)) (hfits : Enters l.path param.name)
    (dir : Directory) :
    (s.step env (.item k (some dir))).current = some (.fileMenu r) ∧
      (s.step env (.item k (some dir))).Lists env r
        ⟨nextPath env r l.path param.name, dir, false⟩ := by
  obtain ⟨i, hparam, hstep⟩ := step_dir h hcur hitem
  rw [← h.path] at hfits ⊢
  have hdir := fsDir_entered env (some dir) hparam hfits
  have hmade := fsGenerateDirListMenu_opened env r false dir
    ((s.setCurrentMenu none).setPath r (nextPath env r (s.fileName r) param.name))
  have hpath : ((s.setCurrentMenu none).setPath r
      (nextPath env r (s.fileName r) param.name)).fileName r =
        nextPath env r (s.fileName r) param.name := Function.update_self ..
  rw [hpath] at hmade
  have hmenu : (fsDir env i (some dir) (s.setCurrentMenu none)).2.current =
      some (.fileMenu r) := by
    rw [hdir]
    exact hmade.1
  rw [hstep, executeIn_changed hmenu, hdir]
  exact hmade

/-- If the directory cannot be opened, the menu is not changed, but the path is. -/
theorem step_dir_failed (h : s.Lists env r l) (hcur : s.current = some (.fileMenu r))
    (hitem : (s.display r)[k]? = some (.dir param)) (hfits : Enters l.path param.name) :
    (s.step env (.item k none)).current = some (.fileMenu r) ∧
      (s.step env (.item k none)).fileName r = nextPath env r l.path param.name ∧
      (s.step env (.item k none)).listed r = some l ∧
      (s.step env (.item k none)).display r = l.display env r := by
  obtain ⟨i, hparam, hstep⟩ := step_dir h hcur hitem
  rw [← h.path] at hfits ⊢
  have hdir := fsDir_entered env none hparam hfits
  have hmenu : (fsDir env i none (s.setCurrentMenu none)).2.current = none := by
    rw [hdir]
    rfl
  rw [hstep, executeIn_unchanged hmenu, hdir]
  exact ⟨rfl, Function.update_self .., h.listed, h.display⟩

theorem step_dir_tooLong (h : s.Lists env r l) (hcur : s.current = some (.fileMenu r))
    (hitem : (s.display r)[k]? = some (.dir param)) (hlong : ¬Enters l.path param.name)
    (opened : Option Directory) :
    (s.step env (.item k opened)).current = some (.fileMenu r) ∧
      (s.step env (.item k opened)).Lists env r l := by
  obtain ⟨i, hparam, hstep⟩ := step_dir h hcur hitem
  rw [← h.path] at hlong
  have hdir := fsDir_tooLong env opened hparam hlong
  have hmenu : (fsDir env i opened (s.setCurrentMenu none)).2.current = none := by
    rw [hdir]
    rfl
  rw [hstep, executeIn_unchanged hmenu, hdir]
  exact ⟨rfl, h.listed, h.path, h.display⟩

theorem fsFile_stored (env : Roots R) (hparam : s.fsDirParam i = ⟨r, name⟩)
    (hfits : (s.fileName r).length + name.length + 2 < maxPathLen) :
    (fsFile env i s).2.current = some (.menu (env.param r).mainMenu) ∧
      (fsFile env i s).2.target (env.param r).target = s.fileName r ++ '/' :: name := by
  simp only [fsFile, hparam, if_pos hfits]
  refine ⟨rfl, ?_⟩
  split
  · exact (Function.update_self ..).trans (Function.update_self ..)
  · exact (Function.update_self ..).trans (Function.update_self ..)

theorem fsFile_tooLong (env : Roots R) (hparam : s.fsDirParam i = ⟨r, name⟩)
    (hlong : ¬(s.fileName r).length + name.length + 2 < maxPathLen) :
    (fsFile env i s).2 = s.errorPrint "Filename is too long.\n".toList := by
  simp only [fsFile, hparam, if_neg hlong]

theorem step_file (h : s.Lists env r l) (hcur : s.current = some (.fileMenu r))
    (hitem : (s.display r)[k]? = some (.file param)) (opened : Option Directory) :
    if l.path.length + param.name.length + 2 < maxPathLen then
      (s.step env (.item k opened)).current = some (.menu (env.param r).mainMenu) ∧
        (s.step env (.item k opened)).target (env.param r).target = l.path ++ '/' :: param.name
    else
      (s.step env (.item k opened)).current = some (.fileMenu r) ∧
        (s.step env (.item k opened)).Lists env r l := by
  obtain rfl : param.rootParam = r := h.rootParam_eq (List.mem_of_getElem? hitem) (.inr rfl)
  obtain ⟨item, hentry, hstep⟩ := step_item env hcur hitem
  obtain ⟨i, rfl, hparam⟩ := entry_eq_file hentry
  have hparam' : (s.setCurrentMenu none).fsDirParam i = ⟨param.rootParam, param.name⟩ := hparam
  rw [hstep, ← h.path]
  split
  next hfits =>
    obtain ⟨hmenu, htarget⟩ := fsFile_stored env hparam' hfits
    have hchanged : executeIn (.fileMenu param.rootParam)
        (executeItem env param.rootParam opened (.file i)) s = _ := executeIn_changed hmenu
    rw [hchanged]
    exact ⟨hmenu, htarget⟩
  next hlong =>
    have hfile := fsFile_tooLong env hparam' hlong
    have hmenu : (fsFile env i (s.setCurrentMenu none)).2.current = none := by
      rw [hfile]
      rfl
    have hunchanged : executeIn (.fileMenu param.rootParam)
        (executeItem env param.rootParam opened (.file i)) s = _ := executeIn_unchanged hmenu
    rw [hunchanged]
    change (Browser.setCurrentMenu _ (fsFile env i (s.setCurrentMenu none)).2).current = _ ∧
      (Browser.setCurrentMenu _ (fsFile env i (s.setCurrentMenu none)).2).Lists env _ l
    rw [hfile]
    exact ⟨rfl, h.listed, h.path, h.display⟩

theorem step_back {m : FixedMenu} (hcur : s.current = some (.fileMenu r))
    (hitem : (s.display r)[k]? = some (.back m)) (opened : Option Directory) :
    (s.step env (.item k opened)).current = some (.menu m) := by
  obtain ⟨item, hentry, hstep⟩ := step_item env hcur hitem
  obtain rfl : item = .back m := by
    cases item with
    | back => exact congrArg Item.back (Entry.back.inj hentry)
    | dir => cases hentry
    | file => cases hentry
  have hmenu : (executeItem env r opened (.back m) (s.setCurrentMenu none)).2.current =
      some (.menu m) := rfl
  rw [hstep, executeIn_changed hmenu]
  exact hmenu

theorem step_root {m : FixedMenu} (hcur : s.current = some (.menu m))
    (hroot : (env.param r).menu = m)
    (opened : Option Directory) (dvdv : Bool) :
    (s.step env (.root r opened dvdv)).Consistent env := by
  have hstep : s.step env (.root r opened dvdv) =
      executeIn (.menu m) (fsroot env r opened dvdv) s := by
    simp only [Browser.step, hcur, if_pos hroot]
  rw [hstep]
  cases opened with
  | some dir =>
    obtain ⟨s', hs'⟩ : ∃ s', (fsroot env r (some dir) dvdv (s.setCurrentMenu none)).2 =
        fsGenerateDirListMenu env r true (some dir) s' := ⟨_, rfl⟩
    obtain ⟨hmenu, hlists⟩ := fsGenerateDirListMenu_opened env r true dir s'
    rw [← hs'] at hmenu hlists
    rw [executeIn_changed hmenu]
    intro r' hr'
    rw [hmenu] at hr'
    cases hr'
    exact ⟨_, hlists⟩
  | none =>
    have hmenu : (fsroot env r none dvdv (s.setCurrentMenu none)).2.current = none := by
      unfold fsroot
      dsimp only
      split <;> split <;> rfl
    rw [executeIn_unchanged hmenu]
    intro r' hr'
    cases hr'

/-- A directory is chosen: the state behind is consistent exactly if the directory was opened or
the path is the same. -/
theorem step_dir_consistent_iff (h : s.Lists env r l) (hcur : s.current = some (.fileMenu r))
    (hitem : (s.display r)[k]? = some (.dir param)) (opened : Option Directory) :
    (s.step env (.item k opened)).Consistent env ↔
      opened ≠ none ∨ nextPath env r l.path param.name = l.path := by
  by_cases hfits : Enters l.path param.name
  · cases opened with
    | some dir =>
      obtain ⟨hmenu, hlists⟩ := step_dir_opened h hcur hitem hfits dir
      exact iff_of_true (hlists.consistent hmenu) (.inl (Option.some_ne_none dir))
    | none =>
      obtain ⟨hmenu, hpath, hlisted, hdisplay⟩ := step_dir_failed h hcur hitem hfits
      constructor
      · intro hcons
        obtain ⟨l', hl'⟩ := hcons r hmenu
        obtain rfl : l = l' := Option.some.inj (hlisted.symm.trans hl'.listed)
        exact .inr (hpath.symm.trans hl'.path)
      · rintro (hne | hsame)
        · exact absurd rfl hne
        · exact Browser.Lists.consistent ⟨hlisted, hpath.trans hsame, hdisplay⟩ hmenu
  · obtain ⟨hmenu, hlists⟩ := step_dir_tooLong h hcur hitem hfits opened
    exact iff_of_true (hlists.consistent hmenu) (.inr (nextPath_tooLong hfits))

theorem step_menu_consistent {m : FixedMenu} (hcur : s.current = some (.menu m)) (c : Choice R) :
    (s.step env c).Consistent env := by
  cases c with
  | item k opened =>
    have hstep : s.step env (.item k opened) = s := by simp only [Browser.step, hcur]
    rw [hstep]
    exact consistent_of_menu hcur
  | root r opened dvdv =>
    by_cases hroot : (env.param r).menu = m
    · exact step_root hcur hroot opened dvdv
    · have hstep : s.step env (.root r opened dvdv) = s := by
        simp only [Browser.step, hcur, if_neg hroot]
      rw [hstep]
      exact consistent_of_menu hcur
  | goto m' =>
    have hstep : s.step env (.goto m') = s.setCurrentMenu (some (.menu m')) := by
      simp only [Browser.step, hcur]
    rw [hstep]
    exact consistent_of_menu rfl

theorem step_item_consistent_iff (h : s.Lists env r l) (hcur : s.current = some (.fileMenu r))
    (k : Nat) (opened : Option Directory) :
    (s.step env (.item k opened)).Consistent env ↔ OpenOk env s (.item k opened) := by
  cases hitem : (s.display r)[k]? with
  | none =>
    rw [step_noItem hcur hitem]
    refine iff_of_true (h.consistent hcur) (openOk_other hcur ?_)
    rw [hitem]
    exact fun _ => nofun
  | some e =>
    cases e with
    | back m =>
      refine iff_of_true (consistent_of_menu (step_back hcur hitem opened)) (openOk_other hcur ?_)
      rw [hitem]
      exact fun _ => nofun
    | file param =>
      have hfile := step_file h hcur hitem opened
      refine iff_of_true ?_ (openOk_other hcur ?_)
      · split at hfile
        next => exact consistent_of_menu hfile.1
        next => exact hfile.2.consistent hfile.1
      · rw [hitem]
        exact fun _ => nofun
    | dir param => rw [step_dir_consistent_iff h hcur hitem, openOk_dir hcur hitem, h.path]

theorem step_consistent_iff (h : s.Consistent env) (c : Choice R) :
    (s.step env c).Consistent env ↔ OpenOk env s c := by
  cases hcur : s.current with
  | none =>
    have hstep : s.step env c = s := by simp only [Browser.step, hcur]
    rw [hstep]
    refine iff_of_true h fun r _ _ _ hr => ?_
    cases hcur.symm.trans hr
  | some ptr =>
    cases ptr with
    | menu m =>
      refine iff_of_true (step_menu_consistent hcur c) fun r _ _ _ hr => ?_
      cases hcur.symm.trans hr
    | fileMenu r =>
      obtain ⟨l, hl⟩ := h r hcur
      cases c with
      | item k opened => exact step_item_consistent_iff hl hcur k opened
      | root r' opened dvdv =>
        have hstep : s.step env (.root r' opened dvdv) = s := by simp only [Browser.step, hcur]
        rw [hstep]
        exact iff_of_true h fun _ _ _ _ _ hc => by cases hc
      | goto m =>
        have hstep : s.step env (.goto m) = s := by simp only [Browser.step, hcur]
        rw [hstep]
        exact iff_of_true h fun _ _ _ _ _ hc => by cases hc

/-- Choosing a file stores the path that is listed, a slash and the name that is listed. -/
def Browser.StoresFiles (env : Roots R) (s : Browser R) (r : R) (l : Listing) : Prop :=
  ∀ k param opened, (s.display r)[k]? = some (.file param) →
    l.path.length + param.name.length + 2 < maxPathLen →
    (s.step env (.item k opened)).target (env.param r).target = l.path ++ '/' :: param.name

/-- Choosing a directory and then the way up lists the same directory again. -/
def Browser.ComesBack (env : Roots R) (s : Browser R) (r : R) (l : Listing) : Prop :=
  ∀ k param dir, (s.display r)[k]? = some (.dir param) → param.name ≠ ['.', '.'] →
    '/' ∉ param.name → Enters l.path param.name →
    (s.step env (.item k (some dir))).current = some (.fileMenu r) ∧
      (s.step env (.item k (some dir))).Lists env r ⟨l.path ++ '/' :: param.name, dir, false⟩ ∧
      ∀ k' param' dir', ((s.step env (.item k (some dir))).display r)[k']? = some (.dir param') →
        param'.name = ['.', '.'] →
        ((s.step env (.item k (some dir))).step env (.item k' (some dir'))).current =
            some (.fileMenu r) ∧
          ((s.step env (.item k (some dir))).step env (.item k' (some dir'))).Lists env r
            ⟨l.path, dir', false⟩

theorem Browser.Lists.storesFiles (h : s.Lists env r l) (hcur : s.current = some (.fileMenu r)) :
    s.StoresFiles env r l := by
  intro k param opened hitem hfits
  have hfile := step_file h hcur hitem opened
  rw [if_pos hfits] at hfile
  exact hfile.2

theorem Browser.Lists.comesBack (h : s.Lists env r l) (hcur : s.current = some (.fileMenu r)) :
    s.ComesBack env r l := by
  intro k param dir hitem hname hslash hfits
  obtain ⟨hmenu, hdown⟩ := step_dir_opened h hcur hitem hfits dir
  rw [nextPath_down hname hfits] at hdown
  refine ⟨hmenu, hdown, fun k' param' dir' hitem' hup => ?_⟩
  obtain ⟨hmenu', hlists⟩ := step_dir_opened hdown hmenu hitem' (.inl hup) dir'
  rw [hup, nextPath_up hslash] at hlists
  exact ⟨hmenu', hlists⟩

/-- In every run in which the directories that are chosen can be opened, every file menu that is
displayed lists the directory at the path of its root; and exactly these choices keep it so. -/
theorem fileBrowser_in_order (env : Roots R) (s : Browser R)
    (h : Reach (fun s => ∃ m, s.current = some (.menu m)) (fun s c t => t = s.step env c)
      (OpenOk env) s) :
    (∀ r, s.current = some (.fileMenu r) →
        ∃ l, s.Lists env r l ∧ s.StoresFiles env r l ∧ s.ComesBack env r l) ∧
      ∀ c, (s.step env c).Consistent env ↔ OpenOk env s c := by
  have hcons : s.Consistent env := by
    refine h.invariant ?_ ?_
    · rintro s ⟨m, hm⟩
      exact consistent_of_menu hm
    · rintro s c t hs hok rfl
      exact (step_consistent_iff hs c).mpr hok
  refine ⟨fun r hcur => ?_, step_consistent_iff hcons⟩
  obtain ⟨l, hl⟩ := hcons r hcur
  exact ⟨l, hl, hl.storesFiles hcur, hl.comesBack hcur⟩

end Browsing

/-- A memory card with a directory and a file. -/
def cardDirectory : Directory where
  entries := [
    ⟨".".toList, 0x1000, by decide, by decide⟩,
    ⟨"..".toList, 0x1000, by decide, by decide⟩,
    ⟨"boot".toList, 0x1000, by decide, by decide⟩,
    ⟨"vmlinux".toList, 0x2000, by decide, by decide⟩]
  few := by decide

/-- The menu in which the kernel is chosen. -/
def linuxBrowser : Browser (Target × FileSystem) where
  current := some (.menu .linuxMenu)
  fileName _ := []
  fileMenu _ := none
  fsDirParam _ := ⟨(.kernelFilename, .mc0), []⟩
  target _ := []
  errors := []
  disc := []
  listed _ := none

/-- The memory card was opened. -/
def cardBrowser : Browser (Target × FileSystem) :=
  linuxBrowser.step (loaderRoots false) (.root (.kernelFilename, .mc0) (some cardDirectory) false)

theorem fileBrowser_in_order_card : ∃ l,
    cardBrowser.Lists (loaderRoots false) (.kernelFilename, .mc0) l ∧
    cardBrowser.StoresFiles (loaderRoots false) (.kernelFilename, .mc0) l ∧
    cardBrowser.ComesBack (loaderRoots false) (.kernelFilename, .mc0) l :=
  (fileBrowser_in_order (loaderRoots false) cardBrowser
    (.next (.start ⟨.linuxMenu, rfl⟩) (fun r k opened param h => by cases h) rfl)).1
      (.kernelFilename, .mc0) rfl

/-- The directory `boot` is chosen, and the card cannot be read. The root is still listed, but the
file that is chosen from it is taken from `boot`. -/
theorem fileBrowser_stale_menu :
    ¬(cardBrowser.step (loaderRoots false) (.item 1 none)).Consistent (loaderRoots false) ∧
      (cardBrowser.step (loaderRoots false) (.item 1 none)).display (.kernelFilename, .mc0) =
        cardBrowser.display (.kernelFilename, .mc0) ∧
      ((cardBrowser.step (loaderRoots false) (.item 1 none)).step (loaderRoots false)
        (.item 2 none)).target .kernelFilename = "mc0:/boot/vmlinux".toList := by
  refine ⟨fun h => ?_, by decide, by decide⟩
  obtain ⟨l, hl⟩ := h (.kernelFilename, .mc0) rfl
  obtain rfl : ⟨"mc0:".toList, cardDirectory, true⟩ = l := Option.some.inj hl.listed
  exact absurd hl.path (by decide)

end KernelLoader.Screen
