import KernelLoader.Config.Parsing

namespace KernelLoader.Config
open Lib
set_option autoImplicit true
set_option relaxedAutoImplicit false

variable {env : Env} {rte : Bool} {v : Vars} {it : ConfigurationItem}

/-- Values that fit into their C variables, with texts of one line and a known video mode. -/
structure Storable (rte : Bool) (v : Vars) : Prop where
  int : ∀ x, -2 ^ 31 ≤ v.ints x ∧ v.ints x < 2 ^ 31
  mode : 0 ≤ v.ints .currentMode ∧ v.ints .currentMode ≤ 7
  text : ∀ it ∈ registered rte, ∀ x maxlen, it.type = .text x maxlen →
    (v.texts x).length < maxlen ∧ '\n' ∉ v.texts x ∧ '\x00' ∉ v.texts x

theorem registered_maxlen {maxlen : Nat} (hit : it ∈ registered rte)
    (ht : it.type = .text x maxlen) : maxlen = maxInputLen := by
  simp only [registered, checkItems, firstItems, optionItems, List.mem_append, List.mem_map,
    List.mem_cons, List.not_mem_nil, or_false] at hit
  rcases hit with (((hit | ⟨p, -, rfl⟩) | hit) | ⟨p, -, rfl⟩) | rfl
  · rcases hit with rfl | rfl | rfl | rfl | rfl | rfl | rfl | rfl | rfl | rfl <;> cases ht <;> rfl
  · cases ht
  · rcases hit with rfl | rfl | rfl | rfl | rfl <;> cases ht
  · cases ht
  · cases ht

theorem Storable.print (h : Storable rte v) (hit : it ∈ registered rte) :
    (it.print v).length < maxInputLen ∧ '\n' ∉ it.print v ∧ '\x00' ∉ it.print v := by
  have hint (x : IntVar) : (printInt (v.ints x)).length < maxInputLen ∧
      '\n' ∉ printInt (v.ints x) ∧ '\x00' ∉ printInt (v.ints x) := by
    have hlength : (printInt (v.ints x)).length ≤ 10 + 1 :=
      length_printInt (by decide) (by have := h.int x; omega)
    refine ⟨Nat.lt_of_le_of_lt hlength (by decide), ?_, ?_⟩ <;>
    · intro hmem
      exact absurd (mem_printInt hmem) (by decide)
  obtain ⟨name, type⟩ := it
  cases type with
  | check x => exact hint x
  | video x => exact hint x
  | text x maxlen =>
    have htext := h.text _ hit x maxlen rfl
    rw [registered_maxlen hit rfl] at htext
    exact htext

theorem Storable.parse_print (h : Storable rte v) (hit : it ∈ registered rte) (env : Env) :
    it.parse env (it.print v) = v.get it.var := by
  have hint (x : IntVar) : atoi env (printInt (v.ints x)) = v.ints x := by
    rw [atoi, leadingInt_printInt]
    exact env.narrow_exact _ (h.int x).1 (h.int x).2
  obtain ⟨name, type⟩ := it
  cases type with
  | check x => exact congrArg Value.int (hint x)
  | video x => exact congrArg Value.int (hint x)
  | text x maxlen =>
    have hlength := (h.text _ hit x maxlen rfl).1
    exact congrArg Value.text (List.take_of_length_le (Nat.le_sub_one_of_lt hlength))

/-- A line of the saved file without its newline. -/
def ConfigurationItem.line (it : ConfigurationItem) (v : Vars) : List Char :=
  it.name ++ '=' :: it.print v

theorem Storable.line (h : Storable rte v) (hit : it ∈ registered rte) :
    ('\n' ∉ it.line v ∧ (it.line v).length < maximumConfigLength - 1) ∧
      assignment (it.line v ++ ['\n']) = some (it.name, it.print v) := by
  obtain ⟨hchars, hname⟩ := registered_plain rte it hit
  obtain ⟨hlength, hnewline, hnul⟩ := h.print hit
  have hmem {c : Char} (hc : c ∈ it.line v) : c ∈ it.name ∨ c = '=' ∨ c ∈ it.print v := by
    simpa [ConfigurationItem.line] using hc
  refine ⟨⟨fun hc => ?_, ?_⟩, ?_⟩
  · rcases hmem hc with hc | hc | hc
    · exact (hchars _ hc).2.1 rfl
    · cases hc
    · exact hnewline hc
  · have hbounds : maxInputLen = 1024 ∧ maximumConfigLength = 2048 := ⟨rfl, rfl⟩
    simp only [ConfigurationItem.line, List.length_append, List.length_cons]
    omega
  · rw [assignment_newline]
    · exact splitAt_of_not_mem (fun hc => (hchars _ hc).1 rfl) _
    · intro hc
      rcases hmem hc with hc | hc | hc
      · exact (hchars _ hc).2.2 rfl
      · cases hc
      · exact hnul hc

theorem saveConfiguration_lines (items : List ConfigurationItem) (v : Vars) :
    saveConfiguration items v = (items.map (·.line v)).flatMap (· ++ ['\n']) := by
  rw [List.flatMap_map]
  rfl

theorem Storable.load (h : Storable rte v) (env : Env) (v' : Vars) :
    (loadConfiguration env (registered rte) (some (saveConfiguration (registered rte) v)) v').2 =
      ((registered rte).map fun it => (it.name, it.print v)).foldl
        (assign env (registered rte)) v' := by
  have hchunks : chunks (maximumConfigLength - 1) (saveConfiguration (registered rte) v) =
      (registered rte).map fun it => it.line v ++ ['\n'] := by
    have hlines : ∀ l ∈ (registered rte).map (·.line v),
        '\n' ∉ l ∧ l.length < maximumConfigLength - 1 :=
      List.forall_mem_map.mpr fun it hit => (h.line hit).1
    have hread := chunks_flatMap hlines []
    rw [List.append_nil, chunks_nil, List.append_nil, List.map_map] at hread
    rw [saveConfiguration_lines, hread]
    rfl
  have hassign : ((registered rte).map fun it => it.line v ++ ['\n']).filterMap assignment =
      (registered rte).map fun it => (it.name, it.print v) := by
    rw [List.filterMap_map, ← List.filterMap_eq_map]
    exact List.filterMap_congr fun it hit => (h.line hit).2
  rw [loadConfiguration, hchunks, foldl_loadLine, hassign]

theorem lastValue_unnamed {name : List Char} {qs : List (List Char × List Char)}
    (hq : ∀ q ∈ qs, q.1 ≠ name) (ps : List (List Char × List Char)) :
    lastValue name (ps ++ qs) = lastValue name ps := by
  have hnone : qs.filter (·.1 = name) = [] := by
    rw [List.filter_eq_nil_iff]
    intro q hmem
    simpa using hq q hmem
  rw [lastValue, List.filter_append, hnone, List.append_nil, lastValue]

theorem lastVideo_unnamed {qs : List (List Char × List Char)}
    (hq : ∀ q ∈ qs, q.1 ≠ videoParameterItem.name ∧ q.1 ≠ videoModeItem.name) (env : Env)
    (ps : List (List Char × List Char)) : lastVideo env (ps ++ qs) = lastVideo env ps := by
  have hnone : (qs.filter fun p =>
      p.1 = videoParameterItem.name ∨ p.1 = videoModeItem.name) = [] := by
    rw [List.filter_eq_nil_iff]
    intro q hmem
    simpa using hq q hmem
  rw [lastVideo, List.filter_append, hnone, List.append_nil, lastVideo]

theorem lastValue_saved (f : ConfigurationItem → List Char) (hit : it ∈ registered rte) :
    lastValue it.name ((registered rte).map fun it => (it.name, f it)) = some (f it) := by
  obtain ⟨before, behind, hsplit⟩ := List.append_of_mem hit
  have hnames := registered_names rte
  rw [hsplit] at hnames ⊢
  rw [List.map_append, List.map_cons, List.nodup_append, List.nodup_cons] at hnames
  have hbehind : ∀ q ∈ behind.map fun it => (it.name, f it), q.1 ≠ it.name := by
    refine List.forall_mem_map.mpr fun other hother he => hnames.2.1.1 ?_
    exact he ▸ List.mem_map_of_mem hother
  rw [List.map_append, List.map_cons, List.append_cons, lastValue_unnamed hbehind,
    lastValue_append, if_pos rfl]

/-- The video parameter comes after the video mode that resets it. -/
theorem lastVideo_saved (f : ConfigurationItem → List Char) (env : Env) (rte : Bool) :
    lastVideo env ((registered rte).map fun it => (it.name, f it)) =
      some (videoParameterItem.parse env (f videoParameterItem)) := by
  obtain ⟨front, behind, hsplit, hmode⟩ : ∃ front behind,
      registered rte = front ++ videoParameterItem :: behind ∧ videoModeItem ∈ front :=
    ⟨firstItems.take 2, _, rfl, List.mem_cons_self⟩
  have hnames := registered_names rte
  rw [hsplit] at hnames ⊢
  rw [List.map_append, List.map_cons, List.nodup_append, List.nodup_cons] at hnames
  obtain ⟨-, ⟨hparameter, -⟩, hdisjoint⟩ := hnames
  have hbehind : ∀ q ∈ behind.map fun it => (it.name, f it),
      q.1 ≠ videoParameterItem.name ∧ q.1 ≠ videoModeItem.name := by
    refine List.forall_mem_map.mpr fun other hother => ⟨fun he => ?_, fun he => ?_⟩
    · exact hparameter (he ▸ List.mem_map_of_mem hother)
    · exact hdisjoint _ (List.mem_map_of_mem hmode) _
        (List.mem_cons_of_mem _ (List.mem_map_of_mem hother)) he.symm
  rw [List.map_append, List.map_cons, List.append_cons, lastVideo_unnamed hbehind,
    lastVideo_append, if_pos rfl]

theorem Parsed.restores {ps : List (List Char × List Char)} {v' : Vars}
    (hparsed : Parsed env rte ps v' u) (h : Storable rte v)
    (hvideo : lastVideo env ps = some (videoParameterItem.parse env (videoParameterItem.print v)))
    (hvalue : ∀ it ∈ registered rte, lastValue it.name ps = some (it.print v)) :
    ∀ it ∈ registered rte, u.get it.var = v.get it.var := by
  intro it hit
  by_cases hne : it = videoParameterItem
  · have hget := hparsed.video
    rw [hvideo, Option.getD_some, ← hne, h.parse_print hit] at hget
    rw [hne] at hget ⊢
    exact hget
  · have hget := hparsed.item it hit hne
    rw [hvalue it hit, Option.map_some, Option.getD_some, h.parse_print hit] at hget
    exact hget

/-- What is saved comes back, whatever the items hold when the file is loaded. -/
theorem save_load_restores (env : Env) (rte : Bool) (h : Storable rte v) (v' : Vars) :
    (loadConfiguration env (registered rte)
        (some (saveConfiguration (registered rte) v)) v').1 = 0 ∧
      ∀ it ∈ registered rte, (loadConfiguration env (registered rte)
        (some (saveConfiguration (registered rte) v)) v').2.get it.var = v.get it.var := by
  have hvideo := lastVideo_saved (fun it => it.print v) env rte
  have hparsed := foldl_assign env rte ((registered rte).map fun it => (it.name, it.print v)) v'
  rw [h.load]
  exact ⟨rfl, hparsed.restores h hvideo fun it hit => lastValue_saved (fun it => it.print v) hit⟩

/-- Every number is a video mode, and every text looks like an assignment. -/
def sampleVars : Vars := ⟨fun _ => 7, fun _ => " videomode=1".toList⟩

theorem sampleVars_storable (rte : Bool) : Storable rte sampleVars where
  int _ := by
    change (-2 ^ 31 : Int) ≤ 7 ∧ (7 : Int) < 2 ^ 31
    decide
  mode := by decide
  text it hit x maxlen ht := by
    rw [registered_maxlen hit ht]
    change " videomode=1".toList.length < _ ∧ '\n' ∉ " videomode=1".toList ∧
      '\x00' ∉ " videomode=1".toList
    decide +kernel

theorem save_load_restores_sample : Storable true sampleVars ∧
    (loadConfiguration clampEnv (registered true)
        (some (saveConfiguration (registered true) sampleVars)) clearVars).1 = 0 ∧
      ∀ it ∈ registered true, (loadConfiguration clampEnv (registered true)
        (some (saveConfiguration (registered true) sampleVars)) clearVars).2.get it.var =
          sampleVars.get it.var :=
  ⟨sampleVars_storable true,
    save_load_restores clampEnv true (sampleVars_storable true) clearVars⟩

end KernelLoader.Config
