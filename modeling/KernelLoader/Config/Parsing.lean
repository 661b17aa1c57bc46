import KernelLoader.Config.Items
import Mathlib.Data.List.Induction

namespace KernelLoader.Config
open Lib
set_option autoImplicit true
set_option relaxedAutoImplicit false

/-- What a variable holds. -/
inductive Value
  | int (n : Int)
  | text (s : List Char)
  deriving DecidableEq, Repr

def Vars.get (v : Vars) : Var → Value
  | .int x => .int (v.ints x)
  | .text x => .text (v.texts x)

/-- The value an item takes from a text. -/
def ConfigurationItem.parse (env : Env) (it : ConfigurationItem) (buffer : List Char) : Value :=
  match it.type with
  | .check _ => .int (atoi env buffer)
  | .video _ => .int (atoi env buffer)
  | .text _ maxlen => .text (buffer.take (maxlen - 1))

variable {env : Env} {rte : Bool} {v : Vars} {it : ConfigurationItem}

@[simp] theorem setInt_self (v : Vars) (x : IntVar) (n : Int) : (v.setInt x n).ints x = n := by
  simp [Vars.setInt]

@[simp] theorem get_setInt (v : Vars) (x : IntVar) (n : Int) (y : Var) :
    (v.setInt x n).get y = if y = .int x then .int n else v.get y := by
  cases y with
  | int y =>
    simp only [Vars.get, Vars.setInt, Function.update_apply, Var.int.injEq]
    split_ifs <;> rfl
  | text y => simp [Vars.get, Vars.setInt]

@[simp] theorem get_setText (v : Vars) (x : TextVar) (s : List Char) (y : Var) :
    (v.setText x s).get y = if y = .text x then .text s else v.get y := by
  cases y with
  | int y => simp [Vars.get, Vars.setText]
  | text y =>
    simp only [Vars.get, Vars.setText, Function.update_apply, Var.text.injEq]
    split_ifs <;> rfl

theorem readData_own (env : Env) (it : ConfigurationItem) (buffer : List Char) (v : Vars) :
    (it.readData env buffer v).get it.var = it.parse env buffer := by
  obtain ⟨name, type⟩ := it
  cases type <;> simp [ConfigurationItem.readData, ConfigurationItem.var, ConfigurationItem.parse,
    configureVideoParameter]

/-- Apart from its own variable, only a video item changes anything. -/
theorem readData_other (hy : y ≠ it.var)
    (hv : (∀ x, it.type ≠ .video x) ∨ y ≠ .text .videoParameter)
    (env : Env) (buffer : List Char) (v : Vars) : (it.readData env buffer v).get y = v.get y := by
  obtain ⟨name, type⟩ := it
  cases type with
  | check x => simpa [ConfigurationItem.readData, ConfigurationItem.var] using fun h => absurd h hy
  | text x maxlen =>
    simpa [ConfigurationItem.readData, ConfigurationItem.var] using fun h => absurd h hy
  | video x =>
    have hne : y ≠ .text .videoParameter := hv.resolve_left fun h => h x rfl
    simpa [ConfigurationItem.readData, ConfigurationItem.var, configureVideoParameter, hne] using
      fun h => absurd h hy

/-- The text the video parameter is reset to. -/
def videoDefault (env : Env) (buffer : List Char) : Value :=
  .text (defaultVideoParameter env (modeAt env (atoi env buffer))).toList

theorem readData_videoMode (env : Env) (buffer : List Char) (v : Vars) :
    (videoModeItem.readData env buffer v).get (.text .videoParameter) =
      videoDefault env buffer := by
  change (configureVideoParameter env (v.setInt .currentMode (atoi env buffer))).get _ = _
  rw [configureVideoParameter, get_setText, if_pos rfl, getCurrentMode, setInt_self, videoDefault]

theorem foldl_unnamed (f : σ → ConfigurationItem → σ) {items : List ConfigurationItem}
    {name : List Char} (h : ∀ it ∈ items, name ≠ it.name) (s : σ) :
    items.foldl (fun s it => if name = it.name then f s it else s) s = s := by
  induction items with
  | nil => rfl
  | cons it items ih =>
    rw [List.forall_mem_cons] at h
    rw [List.foldl_cons, if_neg h.1]
    exact ih h.2

theorem foldl_named (f : σ → ConfigurationItem → σ) {items : List ConfigurationItem}
    {name : List Char} (hnames : (items.map (·.name)).Nodup) (hit : it ∈ items)
    (hname : name = it.name) (s : σ) :
    items.foldl (fun s it => if name = it.name then f s it else s) s = f s it := by
  induction items generalizing s with
  | nil => cases hit
  | cons first items ih =>
    rw [List.map_cons, List.nodup_cons] at hnames
    rw [List.foldl_cons]
    rcases List.mem_cons.mp hit with rfl | hit
    · rw [if_pos hname]
      refine foldl_unnamed f (fun other hother he => ?_) _
      exact hnames.1 (hname ▸ he ▸ List.mem_map_of_mem hother)
    · have hne : name ≠ first.name := fun he =>
        hnames.1 (he ▸ hname ▸ List.mem_map_of_mem hit)
      rw [if_neg hne]
      exact ih hnames.2 hit s

theorem assign_unnamed (env : Env) {items : List ConfigurationItem} {p : List Char × List Char}
    (h : ∀ it ∈ items, p.1 ≠ it.name) (v : Vars) : assign env items v p = v :=
  foldl_unnamed (fun v it => it.readData env p.2 v) h v

theorem assign_named (env : Env) {items : List ConfigurationItem} {p : List Char × List Char}
    (hnames : (items.map (·.name)).Nodup) (hit : it ∈ items) (hp : p.1 = it.name) (v : Vars) :
    assign env items v p = it.readData env p.2 v :=
  foldl_named (fun v it => it.readData env p.2 v) hnames hit hp v

theorem registered_name_inj (ha : a ∈ registered rte) (hb : b ∈ registered rte)
    (h : a.name = b.name) : a = b :=
  List.inj_on_of_nodup_map (registered_names rte) ha hb h

theorem registered_var_inj (ha : a ∈ registered rte) (hb : b ∈ registered rte)
    (h : a.var = b.var) : a = b :=
  List.inj_on_of_nodup_map (registered_vars rte) ha hb h

theorem videoModeItem_mem (rte : Bool) : videoModeItem ∈ registered rte := by
  simp [registered, firstItems]

theorem videoParameterItem_mem (rte : Bool) : videoParameterItem ∈ registered rte := by
  simp [registered, firstItems]

theorem registered_video (hit : it ∈ registered rte) (hv : it.type = .video x) :
    it = videoModeItem := by
  simp only [registered, checkItems, firstItems, optionItems, List.mem_append, List.mem_map,
    List.mem_cons, List.not_mem_nil, or_false] at hit
  rcases hit with (((hit | ⟨p, -, rfl⟩) | hit) | ⟨p, -, rfl⟩) | rfl
  · rcases hit with rfl | rfl | rfl | rfl | rfl | rfl | rfl | rfl | rfl | rfl
    · rfl
    all_goals cases hv
  · cases hv
  · rcases hit with rfl | rfl | rfl | rfl | rfl <;> cases hv
  · cases hv
  · cases hv

theorem assign_get (hit : it ∈ registered rte) (hne : it ≠ videoParameterItem) (env : Env)
    (v : Vars) (p : List Char × List Char) :
    (assign env (registered rte) v p).get it.var =
      if p.1 = it.name then it.parse env p.2 else v.get it.var := by
  have hvar : it.var ≠ .text .videoParameter := fun h =>
    hne (registered_var_inj hit (videoParameterItem_mem rte) h)
  split_ifs with hp
  · rw [assign_named env (registered_names rte) hit hp]
    exact readData_own env it p.2 v
  · by_cases hother : ∃ other ∈ registered rte, p.1 = other.name
    · obtain ⟨other, hmem, ho⟩ := hother
      rw [assign_named env (registered_names rte) hmem ho]
      refine readData_other (fun he => hp ?_) (.inr hvar) env p.2 v
      rw [ho, registered_var_inj hit hmem he]
    · rw [assign_unnamed env fun other hmem ho => hother ⟨other, hmem, ho⟩]

theorem assign_videoParameter (env : Env) (rte : Bool) (v : Vars) (p : List Char × List Char) :
    (assign env (registered rte) v p).get (.text .videoParameter) =
      if p.1 = videoParameterItem.name then videoParameterItem.parse env p.2
      else if p.1 = videoModeItem.name then videoDefault env p.2
      else v.get (.text .videoParameter) := by
  split_ifs with hp hm
  · rw [assign_named env (registered_names rte) (videoParameterItem_mem rte) hp]
    exact readData_own env videoParameterItem p.2 v
  · rw [assign_named env (registered_names rte) (videoModeItem_mem rte) hm]
    exact readData_videoMode env p.2 v
  · by_cases hother : ∃ other ∈ registered rte, p.1 = other.name
    · obtain ⟨other, hmem, ho⟩ := hother
      rw [assign_named env (registered_names rte) hmem ho]
      refine readData_other (fun he => hp ?_) (.inl fun x hv => hm ?_) env p.2 v
      · rw [ho, registered_var_inj (videoParameterItem_mem rte) hmem he]
      · rw [ho, registered_video hmem hv]
    · rw [assign_unnamed env fun other hmem ho => hother ⟨other, hmem, ho⟩]

/-- The value of the last line with a name. -/
def lastValue (name : List Char) (ps : List (List Char × List Char)) : Option (List Char) :=
  (ps.filter (·.1 = name)).getLast?.map (·.2)

theorem lastValue_append (name : List Char) (ps : List (List Char × List Char))
    (p : List Char × List Char) :
    lastValue name (ps ++ [p]) = if p.1 = name then some p.2 else lastValue name ps := by
  unfold lastValue
  rw [List.filter_append]
  by_cases hp : p.1 = name
  · simp [hp]
  · simp [hp]

/-- What the last line that is about the video parameter gives: its own value, or the reset by a
video mode. -/
def lastVideo (env : Env) (ps : List (List Char × List Char)) : Option Value :=
  (ps.filter fun p =>
      p.1 = videoParameterItem.name ∨ p.1 = videoModeItem.name).getLast?.map fun p =>
    if p.1 = videoParameterItem.name then videoParameterItem.parse env p.2
    else videoDefault env p.2

theorem lastVideo_append (env : Env) (ps : List (List Char × List Char))
    (p : List Char × List Char) :
    lastVideo env (ps ++ [p]) =
      if p.1 = videoParameterItem.name then some (videoParameterItem.parse env p.2)
      else if p.1 = videoModeItem.name then some (videoDefault env p.2)
      else lastVideo env ps := by
  unfold lastVideo
  rw [List.filter_append]
  by_cases hp : p.1 = videoParameterItem.name
  · simp [hp]
  · by_cases hm : p.1 = videoModeItem.name
    · have hne : videoModeItem.name ≠ videoParameterItem.name := hm ▸ hp
      simp [hm, hne]
    · simp [hp, hm]

/-- Every item holds the value of the last line that names it, if there is one. -/
structure Parsed (env : Env) (rte : Bool) (ps : List (List Char × List Char)) (v v' : Vars) :
    Prop where
  item : ∀ it ∈ registered rte, it ≠ videoParameterItem →
    v'.get it.var = ((lastValue it.name ps).map (it.parse env)).getD (v.get it.var)
  video : v'.get (.text .videoParameter) =
    (lastVideo env ps).getD (v.get (.text .videoParameter))

theorem foldl_assign (env : Env) (rte : Bool) (ps : List (List Char × List Char)) (v : Vars) :
    Parsed env rte ps v (ps.foldl (assign env (registered rte)) v) := by
  induction ps using List.reverseRecOn with
  | nil => exact ⟨fun it _ _ => rfl, rfl⟩
  | append_singleton ps p ih =>
    refine ⟨fun it hit hne => ?_, ?_⟩
    · rw [List.foldl_append, List.foldl_cons, List.foldl_nil, assign_get hit hne, lastValue_append,
        ih.item it hit hne]
      split_ifs <;> rfl
    · rw [List.foldl_append, List.foldl_cons, List.foldl_nil, assign_videoParameter,
        lastVideo_append, ih.video]
      split_ifs <;> rfl

theorem foldl_loadLine (env : Env) (items : List ConfigurationItem) (buffers : List (List Char))
    (v : Vars) : buffers.foldl (loadLine env items) v =
      (buffers.filterMap assignment).foldl (assign env items) v := by
  induction buffers generalizing v with
  | nil => rfl
  | cons buffer buffers ih =>
    rw [List.foldl_cons, ih, List.filterMap_cons, loadLine]
    cases assignment buffer <;> rfl

theorem assignment_newline {line : List Char} (h : '\x00' ∉ line) :
    assignment (line ++ ['\n']) = splitAt '=' line := by
  have hnul : '\x00' ∉ line ++ ['\n'] := by simpa using h
  rw [assignment, cString_of_not_mem hnul]
  rcases splitAt_cases '=' line with ⟨hno, hline⟩ | ⟨name, value, hname, hsplit, hline⟩
  · rw [hline, splitAt, if_neg (by simpa using hno)]
    rfl
  · rw [hline, hsplit, List.append_assoc, List.cons_append, splitAt_of_not_mem hname]
    simp

/-- A line without a newline loses the last character of its value. -/
theorem assignment_end {line : List Char} (h : '\x00' ∉ line) :
    assignment line = (splitAt '=' line).map fun p => (p.1, p.2.dropLast) := by
  rw [assignment, cString_of_not_mem h]

/-- The lines of a file, ended by a newline or by the end of the file. -/
def fileLines (s : List Char) : List (List Char) :=
  (splitLines s).1 ++ if (splitLines s).2 = [] then [] else [(splitLines s).2]

theorem fileLines_not_mem {s : List Char} {c : Char} (h : c ∉ s) :
    (∀ l ∈ (splitLines s).1, c ∉ l) ∧ c ∉ (splitLines s).2 := by
  obtain ⟨hs, -, -⟩ := splitLines_spec s
  refine ⟨fun l hl hc => h ?_, fun hc => h ?_⟩
  · rw [hs]
    exact List.mem_append_left _ (List.mem_flatMap.mpr ⟨l, hl, List.mem_append_left _ hc⟩)
  · rw [hs]
    exact List.mem_append_right _ hc

/-- Every line fits into the buffer, with its newline if it has one. -/
def LinesFit (s : List Char) : Prop :=
  (∀ l ∈ (splitLines s).1, l.length < maximumConfigLength - 1) ∧
    (splitLines s).2.length ≤ maximumConfigLength - 1

instance (s : List Char) : Decidable (LinesFit s) :=
  inferInstanceAs (Decidable (_ ∧ _))

theorem filterMap_ite_nil (f : List Char → Option α) (hf : f [] = none) (l : List Char) :
    (if l = [] then [] else [l]).filterMap f = (f l).toList := by
  split_ifs with hl
  · rw [hl, hf]
    rfl
  · cases h : f l <;> simp [h]

theorem LinesFit.chunks {s : List Char} (hfit : LinesFit s) :
    chunks (maximumConfigLength - 1) s = (splitLines s).1.map (· ++ ['\n']) ++
      if (splitLines s).2 = [] then [] else [(splitLines s).2] := by
  obtain ⟨hs, hlines, hrest⟩ := splitLines_spec s
  have hend : Lib.chunks (maximumConfigLength - 1) (splitLines s).2 =
      if (splitLines s).2 = [] then [] else [(splitLines s).2] := by
    split_ifs with he
    · rw [he, chunks_nil]
    · exact chunks_end hrest hfit.2 he
  conv_lhs => rw [hs]
  rw [chunks_flatMap fun l hl => ⟨hlines l hl, hfit.1 l hl⟩, hend]

/-- The assignments of the lines that have a newline, and the one of what stands behind them. -/
def fullAssignments (s : List Char) : List (List Char × List Char) :=
  (splitLines s).1.filterMap (splitAt '=')

def endAssignment (s : List Char) : Option (List Char × List Char) := splitAt '=' (splitLines s).2

/-- What the lines say. -/
def fileAssignments (s : List Char) : List (List Char × List Char) :=
  (fileLines s).filterMap (splitAt '=')

theorem fileAssignments_eq (s : List Char) :
    fileAssignments s = fullAssignments s ++ (endAssignment s).toList := by
  rw [fileAssignments, fileLines, List.filterMap_append, filterMap_ite_nil _ rfl]
  rfl

/-- Lines that fit into the buffer are read one by one, and only the last one, if it has no newline,
is not read as it is. -/
theorem LinesFit.load {s : List Char} (hfit : LinesFit s) (hnul : '\x00' ∉ s) (env : Env)
    (items : List ConfigurationItem) (v : Vars) :
    (loadConfiguration env items (some s) v).2 = (fullAssignments s ++
      ((endAssignment s).map fun p => (p.1, p.2.dropLast)).toList).foldl (assign env items) v := by
  obtain ⟨hfull, hend⟩ := fileLines_not_mem hnul
  change (Lib.chunks (maximumConfigLength - 1) s).foldl (loadLine env items) v = _
  rw [hfit.chunks, foldl_loadLine, List.filterMap_append, List.filterMap_map,
    filterMap_ite_nil _ rfl, assignment_end hend]
  congr 2
  exact List.filterMap_congr fun l hl => assignment_newline (hfull l hl)

theorem Parsed.agree {ps ps' : List (List Char × List Char)} (h : Parsed env rte ps v v')
    (h' : Parsed env rte ps' v v') (hit : it ∈ registered rte) (hne : it ≠ videoParameterItem) :
    ((lastValue it.name ps).map (it.parse env)).getD (v.get it.var) =
      ((lastValue it.name ps').map (it.parse env)).getD (v.get it.var) :=
  (h.item it hit hne).symm.trans (h'.item it hit hne)

/-- When the last line is read with another value, only what that means to its item matters. -/
theorem Parsed.last_iff {ps : List (List Char × List Char)} {name a b : List Char}
    (h : Parsed env rte (ps ++ [(name, a)]) v v') : Parsed env rte (ps ++ [(name, b)]) v v' ↔
      ∀ it ∈ registered rte, name = it.name → it.parse env a = it.parse env b := by
  constructor
  · intro hb it hit hname
    by_cases hv : it = videoParameterItem
    · subst hv
      have ha := h.video
      rw [hb.video, lastVideo_append, lastVideo_append, if_pos hname, if_pos hname] at ha
      exact ha.symm
    · have ha := h.item it hit hv
      rw [hb.item it hit hv, lastValue_append, lastValue_append, if_pos hname, if_pos hname] at ha
      exact ha.symm
  · intro hparse
    refine ⟨fun it hit hv => ?_, ?_⟩
    · rw [h.item it hit hv, lastValue_append, lastValue_append]
      split_ifs with hname
      · exact hparse it hit hname
      · rfl
    · rw [h.video, lastVideo_append, lastVideo_append]
      split_ifs with hname hmode
      · exact hparse _ (videoParameterItem_mem rte) hname
      · -- a line of the mode sets the parameter as well
        have hint := hparse _ (videoModeItem_mem rte) hmode
        have hatoi : atoi env a = atoi env b := Value.int.inj hint
        change (some (videoDefault env a)).getD _ = (some (videoDefault env b)).getD _
        rw [videoDefault, videoDefault, hatoi]
      · rfl

/-- What stands behind the last newline names no item, or its last character makes no
difference. -/
def EndOk (env : Env) (rte : Bool) (s : List Char) : Prop :=
  ∀ p, endAssignment s = some p → ∀ it ∈ registered rte, p.1 = it.name →
    it.parse env p.2.dropLast = it.parse env p.2

/-- A file whose lines fit into the buffer is read as its lines say exactly if the end of the file
makes no difference. -/
theorem loadConfiguration_parses (env : Env) (rte : Bool) {s : List Char} (hnul : '\x00' ∉ s)
    (hfit : LinesFit s) (v : Vars) :
    Parsed env rte (fileAssignments s) v (loadConfiguration env (registered rte) (some s) v).2 ↔
      EndOk env rte s := by
  rw [hfit.load hnul, fileAssignments_eq, EndOk]
  cases endAssignment s with
  | none =>
    refine iff_of_true ?_ fun p hp => nomatch hp
    exact foldl_assign env rte _ v
  | some p =>
    have hload := foldl_assign env rte (fullAssignments s ++ [(p.1, p.2.dropLast)]) v
    refine (hload.last_iff (b := p.2)).trans ⟨fun h q hq => ?_, fun h => h p rfl⟩
    obtain rfl := Option.some.inj hq
    exact h

theorem autoBootItem_mem (rte : Bool) : autoBootItem ∈ registered rte := by
  simp [registered]

/-- What is left of a line behind a full buffer is read as a line of its own. -/
theorem load_overlong {w line : List Char} (hw : '\n' ∉ w ∧ '=' ∉ w ∧ '\x00' ∉ w)
    (hlength : w.length = maximumConfigLength - 1) (hline : '\n' ∉ line ∧ '\x00' ∉ line)
    (hfit : line.length < maximumConfigLength - 1) (env : Env) (items : List ConfigurationItem)
    (v : Vars) : (loadConfiguration env items (some (w ++ (line ++ ['\n']))) v).2 =
      (splitAt '=' line).toList.foldl (assign env items) v := by
  have hchunks : chunks (maximumConfigLength - 1) (w ++ (line ++ ['\n'])) =
      [w, line ++ ['\n']] := by
    have hfirst := chunks_full (n := 2046) hw.1 hlength (line ++ ['\n'])
    have hsecond := chunks_newline hline.1 hfit []
    exact hfirst.trans (congrArg (w :: ·) hsecond)
  have hnone : assignment w = none := by
    rw [assignment_end hw.2.2, splitAt, if_neg hw.2.1]
    rfl
  change (chunks (maximumConfigLength - 1) _).foldl (loadLine env items) v = _
  rw [hchunks, foldl_loadLine]
  simp only [List.filterMap_cons, hnone, assignment_newline hline.2, List.filterMap_nil]
  cases splitAt '=' line <;> rfl

/-- A machine whose `atoi` stops at the largest `int`. -/
def clampEnv : Env where
  narrow n := max (-2 ^ 31) (min n (2 ^ 31 - 1))
  narrow_exact n hlow hhigh := by omega
  romRegion := 'E'
  modeOutside _ := .other

def clearVars : Vars := ⟨fun _ => 0, fun _ => []⟩

theorem loadConfiguration_parses_option :
    '\x00' ∉ "Auto Boot=5\n".toList ∧ LinesFit "Auto Boot=5\n".toList ∧
      (Parsed clampEnv true (fileAssignments "Auto Boot=5\n".toList) clearVars
        (loadConfiguration clampEnv (registered true) (some "Auto Boot=5\n".toList) clearVars).2 ↔
        EndOk clampEnv true "Auto Boot=5\n".toList) :=
  ⟨by decide +kernel, by decide +kernel,
    loadConfiguration_parses clampEnv true (by decide +kernel) (by decide +kernel) clearVars⟩

/-- The last line loses a digit without its newline, and the end of a long line changes an item that
no line names. -/
theorem loadConfiguration_misparses :
    ¬Parsed clampEnv true (fileAssignments "Auto Boot=5".toList) clearVars
        (loadConfiguration clampEnv (registered true) (some "Auto Boot=5".toList) clearVars).2 ∧
      ¬Parsed clampEnv true
        (fileAssignments (List.replicate 2047 'x' ++ ("Auto Boot=5".toList ++ ['\n']))) clearVars
        (loadConfiguration clampEnv (registered true)
          (some (List.replicate 2047 'x' ++ ("Auto Boot=5".toList ++ ['\n']))) clearVars).2 := by
  have hne : autoBootItem ≠ videoParameterItem := by decide +kernel
  constructor
  · intro h
    have hfit : LinesFit "Auto Boot=5".toList := by decide +kernel
    rw [hfit.load (by decide +kernel)] at h
    have hread := h.agree (foldl_assign clampEnv true _ clearVars) (autoBootItem_mem true) hne
    revert hread
    decide +kernel
  · intro h
    rw [load_overlong (by decide +kernel) (by decide +kernel) (by decide +kernel)
      (by decide +kernel)] at h
    have hread := h.agree (foldl_assign clampEnv true _ clearVars) (autoBootItem_mem true) hne
    revert hread
    decide +kernel

end KernelLoader.Config
