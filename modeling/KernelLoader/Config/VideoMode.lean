import KernelLoader.Config.Parsing
import KernelLoader.Lib.Logged

namespace KernelLoader.Config
open Lib
set_option autoImplicit true
set_option relaxedAutoImplicit false

/-- The tables that configured values are indices of. -/
inductive Table
  | modeList
  | modeDescription
  | frequenzy
  | autoBootText
  deriving DecidableEq, Repr

/-- An index that is used, before anything is known about its range. -/
structure Use where
  table : Table
  index : Int
  deriving DecidableEq, Repr

/-- There are eight modes; the texts are counted up to `last`. -/
def Use.Within (last : Int) (u : Use) : Prop :=
  match u.table with
  | .autoBootText => 0 ≤ u.index ∧ u.index ≤ last
  | _ => 0 ≤ u.index ∧ u.index ≤ 7

def autoBootText : List (Option String) :=
  [some "Auto Boot: off", some "Auto Boot Time: 1 Second", some "Auto Boot Time: 2 Seconds",
    some "Auto Boot Time: 3 Seconds", some "Auto Boot Time: 4 Seconds",
    some "Auto Boot Time: 5 Seconds", some "Auto Boot Time: 6 Seconds",
    some "Auto Boot Time: 7 Seconds", some "Auto Boot Time: 8 Seconds",
    some "Auto Boot Time: 9 Seconds", some "Auto Boot Time: 10 Seconds", none]

structure Display where
  vars : Vars
  lastMode : Int

def Display.currentMode (d : Display) : Int := d.vars.ints .currentMode

def Display.autoBootTime (d : Display) : Int := d.vars.ints .autoBootTime

def Display.setCurrentMode (d : Display) (mode : Int) : Display :=
  { d with vars := d.vars.setInt .currentMode mode }

def Display.incrementMode (d : Display) : Display :=
  d.setCurrentMode (if d.currentMode + 1 ≥ modeList.length then 0 else d.currentMode + 1)

def Display.decrementMode (d : Display) : Display :=
  d.setCurrentMode (if d.currentMode - 1 < 0 then modeList.length - 1 else d.currentMode - 1)

def Display.setMode (d : Display) (mode : Int) : Display :=
  if mode < modeList.length then d.setCurrentMode mode else d

def Display.getModeFrequenzy (d : Display) : List Use := [⟨.frequenzy, d.currentMode⟩]

/-- `getCurrentMode` as `setDefaultVideoParameter` calls it. -/
def Display.setDefaultVideoParameter (d : Display) : List Use := [⟨.modeList, d.currentMode⟩]

def Display.graphicCommon (d : Display) : List Use := [⟨.modeDescription, d.currentMode⟩]

/-- What is on the screen: a text that is edited, a menu page with the entry for auto boot, or
anything else. -/
inductive Shown
  | editing
  | autoBootEntry
  | other
  deriving DecidableEq, Repr

def Display.graphicPaint (d : Display) (shown : Shown) : List Use :=
  d.graphicCommon ++
    (match shown with
    | .editing => d.getModeFrequenzy
    | .autoBootEntry => [⟨.autoBootText, d.autoBootTime⟩]
    | .other => []) ++
    d.getModeFrequenzy

/-- The mode after the range check of `changeMode`. -/
def Display.checked (d : Display) : Display := d.decrementMode.incrementMode

/-- `paints` is what is shown when the new mode is painted, twice and for each error message. -/
def Display.changeMode (d : Display) (paints : List Shown) : List Use × Display :=
  let d := d.checked
  if d.lastMode = d.currentMode then ([⟨.modeDescription, d.currentMode⟩], d)
  else
    let d := { d with lastMode := d.currentMode }
    (⟨.modeDescription, d.currentMode⟩ ::
      (if d.currentMode = 0 then [] else [⟨.modeList, d.currentMode⟩]) ++
      paints.flatMap d.graphicPaint, d)

/-- The keys and buttons that change the mode. -/
inductive ModeKey
  | plus
  | minus
  | function (n : Fin 8)
  deriving DecidableEq, Repr

def Display.press (d : Display) : ModeKey → Display
  | .plus => d.incrementMode
  | .minus => d.decrementMode
  | .function n => d.setMode n

/-- What an item uses when it reads its value. -/
def ConfigurationItem.readUses (env : Env) (it : ConfigurationItem) (buffer : List Char)
    (v : Vars) : List Use :=
  match it.type with
  | .video value => [⟨.modeList, (v.setInt value (atoi env buffer)).ints .currentMode⟩]
  | _ => []

def assignUses (env : Env) (items : List ConfigurationItem) (t : List Use × Vars)
    (p : List Char × List Char) : List Use × Vars :=
  items.foldl (fun t it => if p.1 = it.name then
    (t.1 ++ it.readUses env p.2 t.2, it.readData env p.2 t.2) else t) t

def loadLineUses (env : Env) (items : List ConfigurationItem) (t : List Use × Vars)
    (buffer : List Char) : List Use × Vars :=
  match assignment buffer with
  | some p => assignUses env items t p
  | none => t

/-- `loadConfiguration` with the indices it uses. -/
def loadUses (env : Env) (items : List ConfigurationItem) (file : Option (List Char)) (v : Vars) :
    List Use × Vars :=
  match file with
  | some s => (chunks (maximumConfigLength - 1) s).foldl (loadLineUses env items) ([], v)
  | none => ([], v)

def Display.loadConfiguration (env : Env) (rte : Bool) (d : Display) (file : Option (List Char)) :
    List Use × Display :=
  let (uses, vars) := loadUses env (registered rte) file d.vars
  (uses, { d with vars })

/-- The menu is off while the file is read. An error message may be painted at once. -/
def Display.mcLoadConfig (env : Env) (rte : Bool) (d : Display) (file : Option (List Char))
    (message : Bool) : List Use × Display :=
  let (uses, d') := d.loadConfiguration env rte file
  (d.graphicPaint .other ++ uses ++ (if message then d'.graphicPaint .other else []) ++
    d'.graphicPaint .other, d')

/-- All variables but the mode and the time. -/
def Display.setOthers (d : Display) (vars : Vars) : Display :=
  { d with vars := (vars.setInt .currentMode d.currentMode).setInt .autoBootTime d.autoBootTime }

def Display.setAutoBootTime (d : Display) (value : Int) : Display :=
  { d with vars := d.vars.setInt .autoBootTime value }

def Display.setDefaultConfiguration (d : Display) (defaults : Vars) : List Use × Display :=
  (d.setDefaultVideoParameter, (d.setOthers defaults).setAutoBootTime 0)

/-- Whether an entry is NULL; `outside` is what stands outside of the table. -/
def autoBootNull (outside : Bool) (i : Int) : Bool :=
  if 0 ≤ i ∧ i < autoBootText.length then (autoBootText.getD i.toNat none).isNone else outside

/-- The value `switchItem` sets. -/
def nextAutoBoot (outside : Bool) (value : Int) : Int :=
  if autoBootNull outside (value + 1) then 0 else value + 1

def Display.switchItem (d : Display) (outside : Bool) : List Use × Display :=
  let next := nextAutoBoot outside d.autoBootTime
  ([⟨.autoBootText, d.autoBootTime + 1⟩, ⟨.autoBootText, next⟩], d.setAutoBootTime next)

/-- What the program does at startup and what the user can do. -/
inductive Action
  | graphicPaint (shown : Shown)
  | graphicAutoBootPaint
  | getModeFrequenzy
  | changeMode (paints : List Shown)
  | press (key : ModeKey) (paints : List Shown)
  | loadConfiguration (file : Option (List Char))
  | mcLoadConfig (file : Option (List Char)) (message : Bool)
  | setDefaultConfiguration (defaults : Vars)
  | setDefaultVideoParameterMenu
  | addMultiSelectionItem
  | switchItem (outside : Bool)
  | setOthers (vars : Vars)

def Display.step (env : Env) (rte : Bool) (d : Display) : Action → List Use × Display
  | .graphicPaint shown => (d.graphicPaint shown, d)
  | .graphicAutoBootPaint => (d.graphicCommon, d)
  | .getModeFrequenzy => (d.getModeFrequenzy, d)
  | .changeMode paints => d.changeMode paints
  | .press key paints =>
    let (uses, d) := (d.press key).changeMode paints
    (uses ++ d.getModeFrequenzy, d)
  | .loadConfiguration file => d.loadConfiguration env rte file
  | .mcLoadConfig file message => d.mcLoadConfig env rte file message
  | .setDefaultConfiguration defaults => d.setDefaultConfiguration defaults
  | .setDefaultVideoParameterMenu => (d.setDefaultVideoParameter, d)
  | .addMultiSelectionItem => ([⟨.autoBootText, d.autoBootTime⟩], d)
  | .switchItem outside => d.switchItem outside
  | .setOthers vars => ([], d.setOthers vars)

/-- `graphic_main` starts with the first mode and no menu. -/
def mainDisplay : Display := ⟨⟨fun _ => 0, fun _ => []⟩, 0⟩

def graphicMain : List Use × Display :=
  ([⟨.modeDescription, mainDisplay.currentMode⟩] ++ mainDisplay.graphicPaint .other ++
    mainDisplay.graphicPaint .other, mainDisplay)

/-- Everything a run of the program uses. -/
def programUses (env : Env) (rte : Bool) (acts : List Action) : List Use :=
  graphicMain.1 ++ (runLog (Display.step env rte) graphicMain.2 acts).1

variable {env : Env} {rte : Bool} {d : Display} {last : Int} {it : ConfigurationItem}

/-- The mode is one of the eight. -/
def Display.ModeOk (d : Display) : Prop := 0 ≤ d.currentMode ∧ d.currentMode ≤ 7

def Display.AutoBootOk (last : Int) (d : Display) : Prop :=
  0 ≤ d.autoBootTime ∧ d.autoBootTime ≤ last

@[simp] theorem currentMode_setCurrentMode (d : Display) (mode : Int) :
    (d.setCurrentMode mode).currentMode = mode := by
  simp [Display.currentMode, Display.setCurrentMode, Vars.setInt]

@[simp] theorem autoBootTime_setCurrentMode (d : Display) (mode : Int) :
    (d.setCurrentMode mode).autoBootTime = d.autoBootTime := by
  simp [Display.autoBootTime, Display.setCurrentMode, Vars.setInt]

@[simp] theorem currentMode_setAutoBootTime (d : Display) (value : Int) :
    (d.setAutoBootTime value).currentMode = d.currentMode := by
  simp [Display.currentMode, Display.setAutoBootTime, Vars.setInt]

@[simp] theorem autoBootTime_setAutoBootTime (d : Display) (value : Int) :
    (d.setAutoBootTime value).autoBootTime = value := by
  simp [Display.autoBootTime, Display.setAutoBootTime, Vars.setInt]

@[simp] theorem currentMode_setOthers (d : Display) (vars : Vars) :
    (d.setOthers vars).currentMode = d.currentMode := by
  simp [Display.setOthers, Display.currentMode, Vars.setInt]

@[simp] theorem autoBootTime_setOthers (d : Display) (vars : Vars) :
    (d.setOthers vars).autoBootTime = d.autoBootTime := by
  simp [Display.setOthers, Display.autoBootTime, Vars.setInt]

theorem length_modeList : (modeList.length : Int) = 8 := rfl

theorem checked_modeOk (d : Display) : d.checked.ModeOk := by
  unfold Display.checked Display.ModeOk Display.incrementMode Display.decrementMode
  simp only [currentMode_setCurrentMode, length_modeList]
  omega

@[simp] theorem autoBootTime_checked (d : Display) : d.checked.autoBootTime = d.autoBootTime := by
  simp [Display.checked, Display.incrementMode, Display.decrementMode]

@[simp] theorem autoBootTime_press (d : Display) (key : ModeKey) :
    (d.press key).autoBootTime = d.autoBootTime := by
  cases key with
  | plus => simp [Display.press, Display.incrementMode]
  | minus => simp [Display.press, Display.decrementMode]
  | function n =>
    simp only [Display.press, Display.setMode]
    split_ifs <;> simp

/-- A page with the entry for auto boot shows its text. -/
def ShownOk (last : Int) (d : Display) (shown : Shown) : Prop :=
  shown = .autoBootEntry → d.AutoBootOk last

theorem graphicPaint_within (h : d.ModeOk) (shown : Shown) :
    (∀ u ∈ d.graphicPaint shown, u.Within last) ↔ ShownOk last d shown := by
  obtain ⟨hlow, hhigh⟩ := h
  cases shown <;> simp [Display.graphicPaint, Display.graphicCommon, Display.getModeFrequenzy,
    Use.Within, ShownOk, Display.AutoBootOk, hlow, hhigh]

/-- The mode is changed, so that the screen is painted. -/
def Display.Changes (d : Display) : Prop := d.lastMode ≠ d.checked.currentMode

theorem changeMode_same (h : ¬d.Changes) (paints : List Shown) :
    d.changeMode paints = ([⟨.modeDescription, d.checked.currentMode⟩], d.checked) :=
  if_pos (not_not.mp h)

theorem changeMode_new (h : d.Changes) (paints : List Shown) : ∃ d', d.changeMode paints =
      (⟨.modeDescription, d'.currentMode⟩ ::
        (if d'.currentMode = 0 then [] else [⟨.modeList, d'.currentMode⟩]) ++
        paints.flatMap d'.graphicPaint, d') ∧
      d'.currentMode = d.checked.currentMode ∧ d'.autoBootTime = d.autoBootTime :=
  ⟨{ d.checked with lastMode := d.checked.currentMode }, if_neg h, rfl, autoBootTime_checked d⟩

theorem changeMode_within (d : Display) (paints : List Shown) :
    (∀ u ∈ (d.changeMode paints).1, u.Within last) ↔
      (d.Changes → ∀ shown ∈ paints, ShownOk last d shown) := by
  have hmode := checked_modeOk d
  by_cases hc : d.Changes
  · obtain ⟨d', hd', hcurrent, hauto⟩ := changeMode_new hc paints
    -- the mode was checked, so that only the texts that are painted matter
    have hmode' : d'.ModeOk := by rwa [Display.ModeOk, hcurrent]
    have hdesc : (⟨.modeDescription, d'.currentMode⟩ : Use).Within last := hmode'
    have hlist : ∀ u ∈ if d'.currentMode = 0 then [] else [(⟨.modeList, d'.currentMode⟩ : Use)],
        u.Within last := by
      split_ifs
      · exact List.forall_mem_nil _
      · exact List.forall_mem_singleton.mpr hmode'
    have hpaints : (∀ u ∈ paints.flatMap d'.graphicPaint, u.Within last) ↔
        ∀ shown ∈ paints, ShownOk last d shown := by
      rw [List.forall_mem_flatMap]
      refine forall₂_congr fun shown _ => ?_
      rw [graphicPaint_within hmode', ShownOk, ShownOk, Display.AutoBootOk, Display.AutoBootOk,
        hauto]
    rw [hd', List.forall_mem_append, List.forall_mem_cons, hpaints]
    exact ⟨fun h _ => h.2, fun h => ⟨⟨hdesc, hlist⟩, h hc⟩⟩
  · rw [changeMode_same hc, List.forall_mem_singleton]
    exact iff_of_true hmode fun h => absurd h hc

theorem changeMode_modeOk (d : Display) (paints : List Shown) : (d.changeMode paints).2.ModeOk := by
  have hmode := checked_modeOk d
  by_cases hc : d.Changes
  · obtain ⟨d', hd', hcurrent, -⟩ := changeMode_new hc paints
    rwa [hd', Display.ModeOk, hcurrent]
  · rwa [changeMode_same hc]

theorem autoBootTime_changeMode (d : Display) (paints : List Shown) :
    (d.changeMode paints).2.autoBootTime = d.autoBootTime := by
  by_cases hc : d.Changes
  · obtain ⟨d', hd', -, hauto⟩ := changeMode_new hc paints
    rw [hd', hauto]
  · rw [changeMode_same hc, autoBootTime_checked]

/-- The numbers that a file gives to the items of a name. -/
def fileValues (env : Env) (name : List Char) (file : Option (List Char)) : List Int :=
  match file with
  | some s => (((chunks (maximumConfigLength - 1) s).filterMap assignment).filter (·.1 = name)).map
      fun p => atoi env p.2
  | none => []

theorem readUses_videoMode (env : Env) (buffer : List Char) (v : Vars) :
    videoModeItem.readUses env buffer v = [⟨.modeList, atoi env buffer⟩] := by
  change [(⟨.modeList, (v.setInt .currentMode (atoi env buffer)).ints .currentMode⟩ : Use)] = _
  rw [setInt_self]

theorem readUses_other (hit : it ∈ registered rte) (hne : it ≠ videoModeItem) (env : Env)
    (buffer : List Char) (v : Vars) : it.readUses env buffer v = [] := by
  unfold ConfigurationItem.readUses
  split
  · rename_i x hx
    exact absurd (registered_video hit hx) hne
  · rfl

theorem assignUses_eq (env : Env) (rte : Bool) (t : List Use × Vars) (p : List Char × List Char) :
    assignUses env (registered rte) t p =
      (t.1 ++ if p.1 = videoModeItem.name then [⟨.modeList, atoi env p.2⟩] else [],
        assign env (registered rte) t.2 p) := by
  by_cases hnamed : ∃ it ∈ registered rte, p.1 = it.name
  · obtain ⟨it, hit, hp⟩ := hnamed
    have hnames := registered_names rte
    rw [assign_named env hnames hit hp]
    unfold assignUses
    rw [foldl_named (fun t it => (t.1 ++ it.readUses env p.2 t.2, it.readData env p.2 t.2)) hnames
      hit hp]
    by_cases hv : it = videoModeItem
    · rw [hv] at hp ⊢
      rw [if_pos hp, readUses_videoMode]
    · have hne : p.1 ≠ videoModeItem.name := fun he =>
        hv (registered_name_inj hit (videoModeItem_mem rte) (hp.symm.trans he))
      rw [if_neg hne, readUses_other hit hv]
  · have hnone : ∀ it ∈ registered rte, p.1 ≠ it.name := fun it hit hp => hnamed ⟨it, hit, hp⟩
    rw [assign_unnamed env hnone, if_neg (hnone _ (videoModeItem_mem rte)), List.append_nil]
    exact foldl_unnamed _ hnone t

theorem foldl_loadLineUses (env : Env) (rte : Bool) (buffers : List (List Char))
    (t : List Use × Vars) : buffers.foldl (loadLineUses env (registered rte)) t =
      (t.1 ++ ((buffers.filterMap assignment).filter (·.1 = videoModeItem.name)).map
        fun p => ⟨.modeList, atoi env p.2⟩,
        buffers.foldl (loadLine env (registered rte)) t.2) := by
  induction buffers generalizing t with
  | nil => simp
  | cons buffer buffers ih =>
    rw [List.foldl_cons, ih, List.foldl_cons, loadLineUses, loadLine, List.filterMap_cons]
    cases assignment buffer with
    | none => rfl
    | some p =>
      simp only [assignUses_eq]
      split_ifs with hp
      · simp [hp]
      · simp [hp]

theorem loadUses_eq (env : Env) (rte : Bool) (file : Option (List Char)) (v : Vars) :
    loadUses env (registered rte) file v =
      ((fileValues env videoModeItem.name file).map (⟨.modeList, ·⟩),
        (loadConfiguration env (registered rte) file v).2) := by
  cases file with
  | none => rfl
  | some s =>
    change (chunks (maximumConfigLength - 1) s).foldl
      (loadLineUses env (registered rte)) ([], v) = _
    rw [foldl_loadLineUses, List.nil_append, fileValues, List.map_map]
    rfl

theorem lastValue_mem {name value : List Char} {ps : List (List Char × List Char)}
    (h : lastValue name ps = some value) : (name, value) ∈ ps := by
  obtain ⟨p, hp, rfl⟩ := Option.map_eq_some_iff.mp h
  have hmem := List.mem_filter.mp (List.mem_of_getLast? hp)
  rw [← of_decide_eq_true hmem.2]
  exact hmem.1

theorem load_item (env : Env) (hit : it ∈ registered rte) (hne : it ≠ videoParameterItem)
    (s : List Char) (v : Vars) :
    (loadConfiguration env (registered rte) (some s) v).2.get it.var = ((lastValue it.name
      ((chunks (maximumConfigLength - 1) s).filterMap assignment)).map (it.parse env)).getD
        (v.get it.var) := by
  have hload : (loadConfiguration env (registered rte) (some s) v).2 =
      ((chunks (maximumConfigLength - 1) s).filterMap assignment).foldl
        (assign env (registered rte)) v :=
    foldl_loadLine env (registered rte) _ v
  rw [hload]
  exact (foldl_assign env rte _ v).item it hit hne

theorem load_ints (env : Env) (hit : it ∈ registered rte)
    (ht : it.type = .check x ∨ it.type = .video x) (file : Option (List Char)) (v : Vars) :
    (loadConfiguration env (registered rte) file v).2.ints x = v.ints x ∨
      (loadConfiguration env (registered rte) file v).2.ints x ∈ fileValues env it.name file := by
  cases file with
  | none => exact .inl rfl
  | some s =>
    have hvar : it.var = .int x := by
      rcases ht with ht | ht <;> simp [ConfigurationItem.var, ht]
    have hparse (buffer : List Char) : it.parse env buffer = .int (atoi env buffer) := by
      rcases ht with ht | ht <;> simp [ConfigurationItem.parse, ht]
    have hne : it ≠ videoParameterItem := by
      rintro rfl
      rcases ht with ht | ht <;> cases ht
    have hget := load_item env hit hne s v
    rw [hvar] at hget
    cases hlast : lastValue it.name ((chunks (maximumConfigLength - 1) s).filterMap assignment) with
    | none =>
      rw [hlast] at hget
      exact .inl (Value.int.inj hget)
    | some value =>
      rw [hlast, Option.map_some, hparse] at hget
      refine .inr (List.mem_map.mpr ⟨_, List.mem_filter.mpr ⟨lastValue_mem hlast, by simp⟩, ?_⟩)
      exact (Value.int.inj hget).symm

/-- Every video mode in the file is one of the eight. -/
def FileModesOk (env : Env) (file : Option (List Char)) : Prop :=
  ∀ n ∈ fileValues env videoModeItem.name file, 0 ≤ n ∧ n ≤ 7

theorem loadConfiguration_uses (env : Env) (rte : Bool) (d : Display) (file : Option (List Char)) :
    (d.loadConfiguration env rte file).1 =
      (fileValues env videoModeItem.name file).map (⟨.modeList, ·⟩) := by
  simp only [Display.loadConfiguration, loadUses_eq]

theorem loadConfiguration_vars (env : Env) (rte : Bool) (d : Display) (file : Option (List Char)) :
    (d.loadConfiguration env rte file).2.vars =
      (KernelLoader.Config.loadConfiguration env (registered rte) file d.vars).2 := by
  simp only [Display.loadConfiguration, loadUses_eq]

theorem loadConfiguration_within (env : Env) (rte : Bool) (d : Display)
    (file : Option (List Char)) :
    (∀ u ∈ (d.loadConfiguration env rte file).1, u.Within last) ↔ FileModesOk env file := by
  rw [loadConfiguration_uses, List.forall_mem_map]
  rfl

theorem loadConfiguration_modeOk (h : d.ModeOk) {file : Option (List Char)}
    (hfile : FileModesOk env file) : (d.loadConfiguration env rte file).2.ModeOk := by
  rw [Display.ModeOk, Display.currentMode, loadConfiguration_vars]
  rcases load_ints env (videoModeItem_mem rte) (.inr rfl) file d.vars with hold | hnew
  · rw [hold]
    exact h
  · exact hfile _ hnew

theorem loadConfiguration_autoBoot (h : d.AutoBootOk 10) {file : Option (List Char)}
    (hfile : ∀ n ∈ fileValues env autoBootItem.name file, 0 ≤ n ∧ n ≤ 10) :
    (d.loadConfiguration env rte file).2.AutoBootOk 10 := by
  rw [Display.AutoBootOk, Display.autoBootTime, loadConfiguration_vars]
  rcases load_ints env (autoBootItem_mem rte) (.inl rfl) file d.vars with hold | hnew
  · rw [hold]
    exact h
  · exact hfile _ hnew

theorem graphicPaint_other (h : d.ModeOk) : ∀ u ∈ d.graphicPaint .other, u.Within last :=
  (graphicPaint_within h .other).mpr fun he => nomatch he

theorem mcLoadConfig_within (h : d.ModeOk) (file : Option (List Char)) (message : Bool) :
    (∀ u ∈ (d.mcLoadConfig env rte file message).1, u.Within last) ↔ FileModesOk env file := by
  simp only [Display.mcLoadConfig, List.forall_mem_append]
  rw [loadConfiguration_within]
  refine ⟨fun hall => hall.1.1.2, fun hfile => ?_⟩
  have hafter : (d.loadConfiguration env rte file).2.ModeOk := loadConfiguration_modeOk h hfile
  refine ⟨⟨⟨graphicPaint_other h, hfile⟩, ?_⟩, graphicPaint_other hafter⟩
  split_ifs
  · exact graphicPaint_other hafter
  · exact List.forall_mem_nil _

/-- When an action uses its indices within their tables. -/
def ActionOk (env : Env) (last : Int) (d : Display) : Action → Prop
  | .graphicPaint shown => ShownOk last d shown
  | .changeMode paints => d.Changes → ∀ shown ∈ paints, ShownOk last d shown
  | .press key paints => (d.press key).Changes → ∀ shown ∈ paints, ShownOk last d shown
  | .loadConfiguration file => FileModesOk env file
  | .mcLoadConfig file _ => FileModesOk env file
  | .addMultiSelectionItem => d.AutoBootOk last
  | .switchItem _ => 0 ≤ d.autoBootTime + 1 ∧ d.autoBootTime + 1 ≤ last
  | .graphicAutoBootPaint | .getModeFrequenzy | .setDefaultConfiguration _
  | .setDefaultVideoParameterMenu | .setOthers _ => True

theorem nextAutoBoot_cases (outside : Bool) (value : Int) :
    nextAutoBoot outside value = 0 ∨ nextAutoBoot outside value = value + 1 := by
  unfold nextAutoBoot
  split_ifs
  · exact .inl rfl
  · exact .inr rfl

theorem switchItem_within (d : Display) (outside : Bool) :
    (∀ u ∈ (d.switchItem outside).1, u.Within last) ↔
      0 ≤ d.autoBootTime + 1 ∧ d.autoBootTime + 1 ≤ last := by
  simp only [Display.switchItem, List.mem_cons, List.not_mem_nil, or_false, forall_eq_or_imp,
    forall_eq, Use.Within]
  rcases nextAutoBoot_cases outside d.autoBootTime with h | h <;> rw [h] <;> omega

theorem step_within (h : d.ModeOk) (a : Action) :
    (∀ u ∈ (d.step env rte a).1, u.Within last) ↔ ActionOk env last d a := by
  cases a with
  | graphicPaint shown => exact graphicPaint_within h shown
  | graphicAutoBootPaint => exact iff_of_true (List.forall_mem_singleton.mpr h) trivial
  | getModeFrequenzy => exact iff_of_true (List.forall_mem_singleton.mpr h) trivial
  | changeMode paints => exact changeMode_within d paints
  | press key paints =>
    have hafter : ((d.press key).changeMode paints).2.ModeOk := changeMode_modeOk _ paints
    have hfrequenzy : ∀ u ∈ ((d.press key).changeMode paints).2.getModeFrequenzy, u.Within last :=
      List.forall_mem_singleton.mpr hafter
    simp only [Display.step, List.forall_mem_append, changeMode_within, ActionOk, ShownOk,
      Display.AutoBootOk, autoBootTime_press]
    exact and_iff_left hfrequenzy
  | loadConfiguration file => exact loadConfiguration_within env rte d file
  | mcLoadConfig file message => exact mcLoadConfig_within h file message
  | setDefaultConfiguration defaults =>
    exact iff_of_true (List.forall_mem_singleton.mpr h) trivial
  | setDefaultVideoParameterMenu => exact iff_of_true (List.forall_mem_singleton.mpr h) trivial
  | addMultiSelectionItem => exact List.forall_mem_singleton
  | switchItem outside => exact switchItem_within d outside
  | setOthers vars => exact iff_of_true (List.forall_mem_nil _) trivial

theorem step_modeOk (h : d.ModeOk) (a : Action) (hok : ActionOk env last d a) :
    (d.step env rte a).2.ModeOk := by
  cases a with
  | changeMode paints => exact changeMode_modeOk d paints
  | press key paints => exact changeMode_modeOk _ paints
  | loadConfiguration file => exact loadConfiguration_modeOk h hok
  | mcLoadConfig file message => exact loadConfiguration_modeOk h hok
  | setDefaultConfiguration defaults =>
    simpa [Display.step, Display.setDefaultConfiguration, Display.ModeOk] using h
  | switchItem outside => simpa [Display.step, Display.switchItem, Display.ModeOk] using h
  | setOthers vars => simpa [Display.step, Display.ModeOk] using h
  | graphicPaint | graphicAutoBootPaint | getModeFrequenzy | setDefaultVideoParameterMenu
  | addMultiSelectionItem => exact h

/-- Every file that is loaded has modes and times of the tables only. -/
def Action.FileOk (env : Env) : Action → Prop
  | .loadConfiguration file | .mcLoadConfig file _ =>
    FileModesOk env file ∧ ∀ n ∈ fileValues env autoBootItem.name file, 0 ≤ n ∧ n ≤ 10
  | _ => True

/-- The last text is followed by the end of the table, which leads back to the first one. -/
theorem nextAutoBoot_range {value : Int} (h : 0 ≤ value ∧ value ≤ 10) (outside : Bool) :
    0 ≤ nextAutoBoot outside value ∧ nextAutoBoot outside value ≤ 10 := by
  by_cases hlast : value = 10
  · have hend : autoBootNull outside (10 + 1) = true := by cases outside <;> decide +kernel
    rw [hlast, nextAutoBoot, if_pos hend]
    decide
  · rcases nextAutoBoot_cases outside value with hn | hn <;> rw [hn] <;> omega

/-- A mode and a time that the tables have. -/
def Display.Configured (d : Display) : Prop := d.ModeOk ∧ d.AutoBootOk 10

theorem Display.Configured.shown (h : d.Configured) (shown : Shown) : ShownOk 11 d shown :=
  fun _ => ⟨h.2.1, Int.le_trans h.2.2 (by decide)⟩

theorem Display.Configured.step (h : d.Configured) (a : Action) (hfile : a.FileOk env) :
    ActionOk env 11 d a ∧ (d.step env rte a).2.Configured := by
  have hauto := h.2
  have hok : ActionOk env 11 d a := by
    cases a with
    | graphicPaint shown => exact h.shown shown
    | changeMode paints => exact fun _ shown _ => h.shown shown
    | press key paints => exact fun _ shown _ => h.shown shown
    | loadConfiguration file => exact hfile.1
    | mcLoadConfig file message => exact hfile.1
    | addMultiSelectionItem => exact h.shown .autoBootEntry rfl
    | switchItem outside =>
      obtain ⟨hlow, hhigh⟩ := hauto
      simp only [ActionOk]
      omega
    | graphicAutoBootPaint | getModeFrequenzy | setDefaultConfiguration
    | setDefaultVideoParameterMenu | setOthers => trivial
  refine ⟨hok, step_modeOk h.1 a hok, ?_⟩
  -- the time comes from a file, from the defaults or from switching the entry
  cases a with
  | changeMode paints =>
    rw [Display.AutoBootOk]
    exact autoBootTime_changeMode d paints ▸ hauto
  | press key paints =>
    have hpress := autoBootTime_changeMode (d.press key) paints
    rw [autoBootTime_press] at hpress
    rw [Display.AutoBootOk]
    exact hpress ▸ hauto
  | loadConfiguration file => exact loadConfiguration_autoBoot hauto hfile.2
  | mcLoadConfig file message => exact loadConfiguration_autoBoot hauto hfile.2
  | setDefaultConfiguration defaults =>
    simp [Display.step, Display.setDefaultConfiguration, Display.AutoBootOk]
  | switchItem outside =>
    simpa [Display.step, Display.switchItem, Display.AutoBootOk] using
      nextAutoBoot_range hauto outside
  | setOthers vars => simpa [Display.step, Display.AutoBootOk] using hauto
  | graphicPaint | graphicAutoBootPaint | getModeFrequenzy | setDefaultVideoParameterMenu
  | addMultiSelectionItem => exact hauto

theorem mainDisplay_configured : mainDisplay.Configured :=
  ⟨⟨by decide, by decide⟩, by decide, by decide⟩

/-- All indices of a run are within their tables exactly if every action finds its own there. With
files of proper values, nothing but the end of the table of texts is used beyond them. -/
theorem indices_in_range (env : Env) (rte : Bool) (acts : List Action) :
    ((∀ u ∈ programUses env rte acts, u.Within 10) ↔
      Along (Display.step env rte) (ActionOk env 10) graphicMain.2 acts) ∧
    ((∀ a ∈ acts, a.FileOk env) → ∀ u ∈ programUses env rte acts, u.Within 11) := by
  have hstart {last : Int} : ∀ u ∈ graphicMain.1, u.Within last := by
    have hpaint : ∀ u ∈ mainDisplay.graphicPaint .other, u.Within last :=
      graphicPaint_other mainDisplay_configured.1
    rw [graphicMain, List.forall_mem_append, List.forall_mem_append, List.forall_mem_singleton]
    exact ⟨⟨mainDisplay_configured.1, hpaint⟩, hpaint⟩
  have hrun (last : Int) : (∀ u ∈ programUses env rte acts, u.Within last) ↔
      Along (Display.step env rte) (ActionOk env last) graphicMain.2 acts := by
    rw [programUses, List.forall_mem_append, and_iff_right hstart]
    exact runLog_iff (fun d a h => step_within h a) (fun d a h hok => step_modeOk h a hok)
      mainDisplay_configured.1
  refine ⟨hrun 10, fun hfiles => (hrun 11).mpr ?_⟩
  exact Along.of_invariant (fun d a h hfile => h.step a hfile) mainDisplay_configured hfiles

/-- The program up to the configuration file of the memory card. -/
def startup (file : List Char) : List Action :=
  [.setDefaultConfiguration clearVars, .addMultiSelectionItem, .setDefaultConfiguration clearVars,
    .loadConfiguration (some file), .changeMode [.other, .other]]

theorem startup_fileOk {file : List Char} (hmodes : FileModesOk env (some file))
    (htimes : ∀ n ∈ fileValues env autoBootItem.name (some file), 0 ≤ n ∧ n ≤ 10) :
    ∀ a ∈ startup file, a.FileOk env := by
  simp only [startup, List.mem_cons, List.not_mem_nil, or_false, forall_eq_or_imp, forall_eq]
  exact ⟨trivial, trivial, trivial, ⟨hmodes, htimes⟩, trivial⟩

theorem indices_in_range_startup : (∀ a ∈ startup "videomode=7\nAuto Boot=10\n".toList,
      a.FileOk clampEnv) ∧
    ((∀ u ∈ programUses clampEnv true (startup "videomode=7\nAuto Boot=10\n".toList),
        u.Within 10) ↔
      Along (Display.step clampEnv true) (ActionOk clampEnv 10) graphicMain.2
        (startup "videomode=7\nAuto Boot=10\n".toList)) ∧
    ∀ u ∈ programUses clampEnv true (startup "videomode=7\nAuto Boot=10\n".toList),
      u.Within 11 := by
  have hfile : ∀ a ∈ startup "videomode=7\nAuto Boot=10\n".toList, a.FileOk clampEnv := by
    refine startup_fileOk ?_ (by decide +kernel)
    unfold FileModesOk
    decide +kernel
  have hmain := indices_in_range clampEnv true (startup "videomode=7\nAuto Boot=10\n".toList)
  exact ⟨hfile, hmain.1, hmain.2 hfile⟩

theorem startup_uses_mode {file : List Char}
    (hn : n ∈ fileValues env videoModeItem.name (some file)) (acts : List Action) :
    ⟨.modeList, n⟩ ∈ programUses env rte (startup file ++ acts) := by
  apply List.mem_append_right
  refine mem_runLog_later (mem_runLog_later (mem_runLog_later (mem_runLog_now ?_ _)))
  change _ ∈ (Display.loadConfiguration env rte _ (some file)).1
  rw [loadConfiguration_uses]
  exact List.mem_map_of_mem hn

theorem startup_uses_time {file value : List Char} (hvalue : lastValue autoBootItem.name
      ((chunks (maximumConfigLength - 1) file).filterMap assignment) = some value) :
    ⟨.autoBootText, atoi env value⟩ ∈
      programUses env rte (startup file ++ [.graphicPaint .autoBootEntry]) := by
  have hne : autoBootItem ≠ videoParameterItem := fun he => by
    cases congrArg ConfigurationItem.type he
  have htime (d : Display) :
      (d.loadConfiguration env rte (some file)).2.autoBootTime = atoi env value := by
    have hget := load_item env (autoBootItem_mem rte) hne file d.vars
    rw [hvalue] at hget
    rw [Display.autoBootTime, loadConfiguration_vars]
    exact Value.int.inj hget
  apply List.mem_append_right
  refine mem_runLog_later (mem_runLog_later (mem_runLog_later (mem_runLog_later
    (mem_runLog_later (mem_runLog_now ?_ _)))))
  change _ ∈ Display.graphicPaint
    ((Display.loadConfiguration env rte _ (some file)).2.changeMode _).2 .autoBootEntry
  refine List.mem_append_left _ (List.mem_append_right _ (List.mem_singleton.mpr ?_))
  rw [autoBootTime_changeMode, htime]

theorem indices_out_of_range :
    ¬(∀ u ∈ programUses clampEnv true (startup "videomode=8\n".toList ++ []), u.Within 10) ∧
      ¬∀ u ∈ programUses clampEnv true
        (startup "Auto Boot=12\n".toList ++ [.graphicPaint .autoBootEntry]), u.Within 10 := by
  constructor
  · intro h
    have hmode : 8 ∈ fileValues clampEnv videoModeItem.name (some "videomode=8\n".toList) := by
      decide +kernel
    exact absurd (h _ (startup_uses_mode hmode [])).2 (by decide)
  · intro h
    have htime : lastValue autoBootItem.name ((chunks (maximumConfigLength - 1)
        "Auto Boot=12\n".toList).filterMap assignment) = some ['1', '2'] := by
      decide +kernel
    exact absurd (h _ (startup_uses_time htime)).2 (by decide +kernel)

end KernelLoader.Config
