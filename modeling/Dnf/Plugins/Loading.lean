import Dnf.Foundation.Fallible
import Dnf.Foundation.Fnmatch
import Mathlib.Data.Finset.SDiff

/-!
# Plugins that are loaded

`Plugins._load` chooses plugin files by the patterns of `--disableplugin` and `--enableplugin`, imports them, and then drops the classes that their configuration disables. The enable patterns are looked at in both stages: where the files are chosen a name with underscores may be written with dashes, where the configuration is checked it may not.
-/

namespace Dnf.Plugins

open Foundation Fnmatch

def dashed (pluginName : String) : String := String.ofList (pluginName.toList.map fun c => if c = '_' then '-' else c)

/-- `_plugin_name_matches_pattern` -/
def pluginNameMatchesPattern (pluginName pattern : String) : Bool := [pluginName, dashed pluginName].any (fnmatch · pattern)

/-- A file that `glob` finds in one of the plugin paths, with its name without the extension. -/
structure PluginFile where
  path : String
  name : String
  deriving DecidableEq

/-- What is found out about one file, and the patterns that have matched so far. -/
structure Scan where
  matched : Bool := true
  enablePatternTested : Bool := false
  patternEnableFound : Finset String := ∅
  patternDisableFound : Finset String := ∅

/-- The loop over the enable patterns, below a disable pattern that matches. -/
def Scan.enableAgain (name : String) (enablePlugins : List String) (s : Scan) : Scan :=
  enablePlugins.foldl (fun s patternEnable =>
    if pluginNameMatchesPattern name patternEnable then { s with matched := true, patternEnableFound := insert patternEnable s.patternEnableFound } else s) s

def Scan.skip (name : String) (enablePlugins : List String) (s : Scan) (patternSkip : String) : Scan :=
  if pluginNameMatchesPattern name patternSkip then
    { Scan.enableAgain name enablePlugins { s with patternDisableFound := insert patternSkip s.patternDisableFound, matched := false } with enablePatternTested := true }
  else s

/-- The loop over the enable patterns of a file that no disable pattern matches. -/
def Scan.recordEnabled (name : String) (enablePlugins : List String) (s : Scan) : Scan :=
  enablePlugins.foldl (fun s patternEnable =>
    if pluginNameMatchesPattern name patternEnable then { s with patternEnableFound := insert patternEnable s.patternEnableFound } else s) s

def Scan.file (disablePlugins enablePlugins : List String) (s : Scan) (name : String) : Scan :=
  let s := disablePlugins.foldl (Scan.skip name enablePlugins) { s with matched := true, enablePatternTested := false }
  if s.enablePatternTested then s else s.recordEnabled name enablePlugins

def scanFiles (disablePlugins enablePlugins : List String) : Scan → List PluginFile → List PluginFile × Scan
  | s, [] => ([], s)
  | s, fn :: files =>
      let s := s.file disablePlugins enablePlugins fn.name
      let rest := scanFiles disablePlugins enablePlugins s files
      (if s.matched then fn :: rest.1 else rest.1, rest.2)

/-- The files that are chosen, and the enable and disable patterns that a warning names. -/
structure PluginsFiles where
  plugins : List PluginFile
  enableNotFound : Finset String
  disableNotFound : Finset String

/-- `_get_plugins_files`, of the files found in the plugin paths. -/
def getPluginsFiles (files : List PluginFile) (disablePlugins enablePlugins : List String) : PluginsFiles :=
  let result := scanFiles disablePlugins enablePlugins {} files
  ⟨result.1, enablePlugins.toFinset \ result.2.patternEnableFound, disablePlugins.toFinset \ result.2.patternDisableFound⟩

/-- `_import_modules` and `_plugin_classes`: a module that has been imported is not imported again. The class has the name of its file. -/
def pluginClasses (pyFiles : List PluginFile) : List String :=
  pyFiles.foldl (fun classes fn => if fn.name ∈ classes then classes else classes ++ [fn.name]) []

section Configuration

variable {Exc : Type} (readConfig : String → Except Exc (Option Bool))

/-- `_check_enabled`. `readConfig` answers with the option `enabled` of the section `main`, if it is there. -/
def checkEnabled (enablePlugins : List String) (pluginCls : List String) : Except Exc (List String) :=
  pluginCls.filterM fun name =>
    if enablePlugins.any (fnmatch name ·) then .ok true
    else (readConfig name).map fun enabled => enabled != some false

/-- `Plugins._load`: the classes that are kept. -/
def load (files : List PluginFile) (skips enablePlugins : List String) : Except Exc (List String) :=
  checkEnabled readConfig enablePlugins (pluginClasses (getPluginsFiles files skips enablePlugins).plugins)

end Configuration

/-! ### The choice of the files -/

section Choice

variable (skips enablePlugins : List String)

def enabledBy (name : String) : Bool := enablePlugins.any (pluginNameMatchesPattern name)

def skippedBy (name : String) : Bool := skips.any (pluginNameMatchesPattern name)

/-- The file of the plugin is chosen. -/
def chosen (name : String) : Bool := !skippedBy skips name || enabledBy enablePlugins name

variable {skips enablePlugins}

theorem matched_enableAgain (name : String) (s : Scan) : (s.enableAgain name enablePlugins).matched = (s.matched || enabledBy enablePlugins name) := by
  induction enablePlugins generalizing s with
  | nil => exact (Bool.or_false s.matched).symm
  | cons pattern patterns ih =>
      refine (ih _).trans ?_
      beta_reduce
      rw [enabledBy, enabledBy, List.any_cons]
      cases pluginNameMatchesPattern name pattern with
      | false => rfl
      | true => exact (Bool.true_or _).trans (Bool.or_true s.matched).symm

theorem matched_skip (name : String) (s : Scan) :
    (skips.foldl (Scan.skip name enablePlugins) s).matched = if skippedBy skips name then enabledBy enablePlugins name else s.matched := by
  induction skips generalizing s with
  | nil => rfl
  | cons pattern patterns ih =>
      rw [List.foldl_cons, ih, skippedBy, skippedBy, List.any_cons, Scan.skip]
      cases pluginNameMatchesPattern name pattern with
      | false => rfl
      | true =>
          rw [if_pos rfl, Bool.true_or, if_pos rfl, matched_enableAgain, Bool.false_or, ite_self]

theorem matched_recordEnabled (name : String) (s : Scan) : (s.recordEnabled name enablePlugins).matched = s.matched := by
  induction enablePlugins generalizing s with
  | nil => rfl
  | cons pattern patterns ih =>
      refine (ih _).trans ?_
      beta_reduce
      cases pluginNameMatchesPattern name pattern <;> rfl

theorem matched_file (name : String) (s : Scan) : (s.file skips enablePlugins name).matched = chosen skips enablePlugins name := by
  have hskip := @matched_skip skips enablePlugins name { s with matched := true, enablePatternTested := false }
  have hmatched : (s.file skips enablePlugins name).matched = if skippedBy skips name then enabledBy enablePlugins name else true := by
    rw [← hskip, Scan.file]
    split
    · rfl
    · exact matched_recordEnabled name _
  rw [hmatched, chosen]
  cases skippedBy skips name <;> rfl

theorem scanFiles_eq_filter (s : Scan) (files : List PluginFile) :
    (scanFiles skips enablePlugins s files).1 = files.filter fun fn => chosen skips enablePlugins fn.name := by
  induction files generalizing s with
  | nil => rfl
  | cons fn files ih =>
      rw [scanFiles, List.filter_cons, ← ih, matched_file]

/-- Which files are chosen does not depend on the order in which the sets of patterns are gone through. -/
theorem getPluginsFiles_eq_filter (files : List PluginFile) :
    (getPluginsFiles files skips enablePlugins).plugins = files.filter fun fn => chosen skips enablePlugins fn.name :=
  scanFiles_eq_filter {} files

/-! ### The patterns that a warning names -/

/-- A loop over patterns that collects, at each of them, the ones related to it. -/
theorem mem_foldl_found (found : Scan → Finset String) {step : Scan → String → Scan} {related : String → Prop} {pattern : String}
    (hstep : ∀ s first, pattern ∈ found (step s first) ↔ pattern ∈ found s ∨ related first) (patterns : List String) (s : Scan) :
    pattern ∈ found (patterns.foldl step s) ↔ pattern ∈ found s ∨ ∃ first ∈ patterns, related first := by
  induction patterns generalizing s with
  | nil => exact (or_iff_left fun ⟨_, hmem, _⟩ => List.not_mem_nil hmem).symm
  | cons first patterns ih => rw [List.foldl_cons, ih, hstep, List.exists_mem_cons_iff, or_assoc]

theorem mem_insert_if (found : Scan → Finset String) {s t : Scan} {name first pattern : String} (ht : found t = insert first (found s)) :
    pattern ∈ found (if pluginNameMatchesPattern name first then t else s) ↔
      pattern ∈ found s ∨ (first = pattern ∧ pluginNameMatchesPattern name first = true) := by
  split
  · next hmatches => rw [ht, Finset.mem_insert, or_comm, eq_comm, and_iff_left hmatches]
  · next hmatches => exact (or_iff_left fun h => hmatches h.2).symm

theorem exists_eq_matches (patterns : List String) (name pattern : String) :
    (∃ first ∈ patterns, first = pattern ∧ pluginNameMatchesPattern name first = true) ↔ pattern ∈ patterns ∧ pluginNameMatchesPattern name pattern = true := by
  constructor
  · rintro ⟨first, hmem, rfl, hmatches⟩
    exact ⟨hmem, hmatches⟩
  · exact fun h => ⟨pattern, h.1, rfl, h.2⟩

theorem mem_enableAgain (name pattern : String) (s : Scan) : pattern ∈ (s.enableAgain name enablePlugins).patternEnableFound ↔
    pattern ∈ s.patternEnableFound ∨ (pattern ∈ enablePlugins ∧ pluginNameMatchesPattern name pattern = true) := by
  have hstep : ∀ (s : Scan) (first : String), pattern ∈ (if pluginNameMatchesPattern name first then
        { s with matched := true, patternEnableFound := insert first s.patternEnableFound } else s : Scan).patternEnableFound ↔
      pattern ∈ s.patternEnableFound ∨ (first = pattern ∧ pluginNameMatchesPattern name first = true) :=
    fun s first => mem_insert_if Scan.patternEnableFound rfl
  rw [← exists_eq_matches]
  exact mem_foldl_found Scan.patternEnableFound hstep enablePlugins s

theorem mem_recordEnabled (name pattern : String) (s : Scan) : pattern ∈ (s.recordEnabled name enablePlugins).patternEnableFound ↔
    pattern ∈ s.patternEnableFound ∨ (pattern ∈ enablePlugins ∧ pluginNameMatchesPattern name pattern = true) := by
  have hstep : ∀ (s : Scan) (first : String), pattern ∈ (if pluginNameMatchesPattern name first then
        { s with patternEnableFound := insert first s.patternEnableFound } else s : Scan).patternEnableFound ↔
      pattern ∈ s.patternEnableFound ∨ (first = pattern ∧ pluginNameMatchesPattern name first = true) :=
    fun s first => mem_insert_if Scan.patternEnableFound rfl
  rw [← exists_eq_matches]
  exact mem_foldl_found Scan.patternEnableFound hstep enablePlugins s

theorem disableFound_enableAgain (name : String) (s : Scan) : (s.enableAgain name enablePlugins).patternDisableFound = s.patternDisableFound := by
  induction enablePlugins generalizing s with
  | nil => rfl
  | cons first patterns ih =>
      refine (ih _).trans ?_
      beta_reduce
      split <;> rfl

theorem disableFound_recordEnabled (name : String) (s : Scan) : (s.recordEnabled name enablePlugins).patternDisableFound = s.patternDisableFound := by
  induction enablePlugins generalizing s with
  | nil => rfl
  | cons first patterns ih =>
      refine (ih _).trans ?_
      beta_reduce
      split <;> rfl

theorem tested_skip (name : String) (s : Scan) :
    (skips.foldl (Scan.skip name enablePlugins) s).enablePatternTested = (s.enablePatternTested || skippedBy skips name) := by
  induction skips generalizing s with
  | nil => exact (Bool.or_false _).symm
  | cons first patterns ih =>
      rw [List.foldl_cons, ih, skippedBy, skippedBy, List.any_cons, Scan.skip]
      cases pluginNameMatchesPattern name first with
      | false => rfl
      | true =>
          rw [if_pos rfl, Bool.true_or]
          exact (Bool.or_true _).symm

theorem enableFound_skip (name pattern : String) (s : Scan) : pattern ∈ (skips.foldl (Scan.skip name enablePlugins) s).patternEnableFound ↔
    pattern ∈ s.patternEnableFound ∨ (skippedBy skips name = true ∧ pattern ∈ enablePlugins ∧ pluginNameMatchesPattern name pattern = true) := by
  have hstep : ∀ (s : Scan) (first : String), pattern ∈ (s.skip name enablePlugins first).patternEnableFound ↔ pattern ∈ s.patternEnableFound ∨
      (pluginNameMatchesPattern name first = true ∧ pattern ∈ enablePlugins ∧ pluginNameMatchesPattern name pattern = true) := by
    intro s first
    rw [Scan.skip]
    split
    · next hmatches => exact (mem_enableAgain name pattern _).trans (or_congr_right (and_iff_right hmatches).symm)
    · next hmatches => exact (or_iff_left fun h => hmatches h.1).symm
  have hany : skippedBy skips name = true ↔ ∃ first ∈ skips, pluginNameMatchesPattern name first = true := List.any_eq_true
  refine (mem_foldl_found Scan.patternEnableFound hstep skips s).trans (or_congr_right ?_)
  rw [hany]
  exact ⟨fun ⟨first, hmem, hmatches, hrest⟩ => ⟨⟨first, hmem, hmatches⟩, hrest⟩, fun ⟨⟨first, hmem, hmatches⟩, hrest⟩ => ⟨first, hmem, hmatches, hrest⟩⟩

theorem disableFound_skip (name pattern : String) (s : Scan) : pattern ∈ (skips.foldl (Scan.skip name enablePlugins) s).patternDisableFound ↔
    pattern ∈ s.patternDisableFound ∨ (pattern ∈ skips ∧ pluginNameMatchesPattern name pattern = true) := by
  have hstep : ∀ (s : Scan) (first : String), pattern ∈ (s.skip name enablePlugins first).patternDisableFound ↔
      pattern ∈ s.patternDisableFound ∨ (first = pattern ∧ pluginNameMatchesPattern name first = true) :=
    fun s first => mem_insert_if Scan.patternDisableFound (disableFound_enableAgain name _)
  rw [← exists_eq_matches]
  exact mem_foldl_found Scan.patternDisableFound hstep skips s

theorem enableFound_file (name pattern : String) (s : Scan) : pattern ∈ (s.file skips enablePlugins name).patternEnableFound ↔
    pattern ∈ s.patternEnableFound ∨ (pattern ∈ enablePlugins ∧ pluginNameMatchesPattern name pattern = true) := by
  have htested := @tested_skip skips enablePlugins name { s with matched := true, enablePatternTested := false }
  have hfound := @enableFound_skip skips enablePlugins name pattern { s with matched := true, enablePatternTested := false }
  rw [Scan.file]
  split
  · next hskipped =>
      rw [htested, Bool.false_or] at hskipped
      exact hfound.trans (or_congr_right (and_iff_right hskipped))
  · rw [mem_recordEnabled, hfound, or_assoc]
    exact or_congr_right (or_iff_right_of_imp And.right)

theorem disableFound_file (name pattern : String) (s : Scan) : pattern ∈ (s.file skips enablePlugins name).patternDisableFound ↔
    pattern ∈ s.patternDisableFound ∨ (pattern ∈ skips ∧ pluginNameMatchesPattern name pattern = true) := by
  have hfound := @disableFound_skip skips enablePlugins name pattern { s with matched := true, enablePatternTested := false }
  rw [Scan.file]
  split
  · exact hfound
  · rw [disableFound_recordEnabled, hfound]

theorem found_scanFiles (pattern : String) (s : Scan) (files : List PluginFile) :
    (pattern ∈ (scanFiles skips enablePlugins s files).2.patternEnableFound ↔
        pattern ∈ s.patternEnableFound ∨ (pattern ∈ enablePlugins ∧ ∃ fn ∈ files, pluginNameMatchesPattern fn.name pattern = true)) ∧
      (pattern ∈ (scanFiles skips enablePlugins s files).2.patternDisableFound ↔
        pattern ∈ s.patternDisableFound ∨ (pattern ∈ skips ∧ ∃ fn ∈ files, pluginNameMatchesPattern fn.name pattern = true)) := by
  induction files generalizing s with
  | nil => simp [scanFiles]
  | cons fn files ih =>
      obtain ⟨henables, hdisables⟩ := ih (s.file skips enablePlugins fn.name)
      rw [scanFiles, List.exists_mem_cons_iff, and_or_left, and_or_left, ← or_assoc, ← or_assoc]
      exact ⟨henables.trans (or_congr_left (enableFound_file fn.name pattern s)), hdisables.trans (or_congr_left (disableFound_file fn.name pattern s))⟩

/-- A warning names exactly the patterns that match no plugin. -/
theorem notFound_iff (pattern : String) (files : List PluginFile) :
    (pattern ∈ (getPluginsFiles files skips enablePlugins).enableNotFound ↔
        pattern ∈ enablePlugins ∧ ∀ fn ∈ files, pluginNameMatchesPattern fn.name pattern = false) ∧
      (pattern ∈ (getPluginsFiles files skips enablePlugins).disableNotFound ↔
        pattern ∈ skips ∧ ∀ fn ∈ files, pluginNameMatchesPattern fn.name pattern = false) := by
  obtain ⟨henable, hdisable⟩ := @found_scanFiles skips enablePlugins pattern {} files
  rw [getPluginsFiles]
  dsimp only
  rw [Finset.mem_sdiff, Finset.mem_sdiff, List.mem_toFinset, List.mem_toFinset, henable, hdisable]
  constructor <;> refine and_congr_right fun hmem => ?_ <;> simp [hmem]

end Choice

/-! ### The classes that are kept -/

theorem pluginClasses_filter (files : List PluginFile) (select : String → Bool) :
    pluginClasses (files.filter fun fn => select fn.name) = (pluginClasses files).filter select := by
  have hloop : ∀ classes : List String, (files.filter fun fn => select fn.name).foldl (fun classes fn => if fn.name ∈ classes then classes else classes ++ [fn.name])
        (classes.filter select) =
      (files.foldl (fun classes fn => if fn.name ∈ classes then classes else classes ++ [fn.name]) classes).filter select := by
    induction files with
    | nil => exact fun classes => rfl
    | cons fn files ih =>
        intro classes
        rw [List.foldl_cons, ← ih, List.filter_cons]
        cases hselect : select fn.name with
        | false =>
            rw [if_neg Bool.false_ne_true]
            split
            · rfl
            · rw [List.filter_append, List.filter_singleton, hselect, cond_false, List.append_nil]
        | true =>
            rw [if_pos rfl, List.foldl_cons]
            have hmem : fn.name ∈ classes.filter select ↔ fn.name ∈ classes := List.mem_filter.trans (and_iff_left hselect)
            by_cases hin : fn.name ∈ classes
            · rw [if_pos (hmem.mpr hin), if_pos hin]
            · rw [if_neg fun h => hin (hmem.mp h), if_neg hin, List.filter_append, List.filter_singleton, hselect]
              rfl
  exact hloop []

theorem eq_of_filter_eq {names : List String} {p q : String → Bool} (h : names.filter p = names.filter q) {name : String} (hname : name ∈ names) : p name = q name := by
  have hmem : name ∈ names.filter p ↔ name ∈ names.filter q := by rw [h]
  rw [List.mem_filter, List.mem_filter, and_iff_right hname, and_iff_right hname] at hmem
  exact Bool.eq_iff_iff.mpr hmem

theorem mem_pluginClasses (files : List PluginFile) (name : String) : name ∈ pluginClasses files ↔ ∃ fn ∈ files, fn.name = name := by
  have hloop : ∀ classes : List String, name ∈ files.foldl (fun classes fn => if fn.name ∈ classes then classes else classes ++ [fn.name]) classes ↔
      name ∈ classes ∨ ∃ fn ∈ files, fn.name = name := by
    induction files with
    | nil => simp
    | cons fn files ih =>
        intro classes
        rw [List.foldl_cons, ih, List.exists_mem_cons_iff, ← or_assoc]
        refine or_congr_left ?_
        split
        · next hmem => exact (or_iff_left_of_imp fun h => h ▸ hmem).symm
        · rw [List.mem_append, List.mem_singleton, eq_comm]
  exact (hloop []).trans (or_iff_right List.not_mem_nil)

section Kept

variable {Exc : Type} (readConfig : String → Except Exc (Option Bool)) (skips enablePlugins : List String)

/-- The configuration of the plugin has `enabled = False`. -/
def configDisables (name : String) : Bool :=
  match readConfig name with
  | .ok (some false) => true
  | _ => false

/-- The pattern is written as the name is, and so the configuration is not looked at. -/
def plainlyEnabledBy (name : String) : Bool := enablePlugins.any (fnmatch name ·)

/-- The plugins that are to be kept. -/
def enabled (name : String) : Bool := enabledBy enablePlugins name || (!skippedBy skips name && !configDisables readConfig name)

/-- A configuration that is looked at cannot be read. -/
def BrokenConfig (files : List PluginFile) : Prop :=
  ∃ fn ∈ files, chosen skips enablePlugins fn.name = true ∧ plainlyEnabledBy enablePlugins fn.name = false ∧ ∃ e, readConfig fn.name = .error e

variable {readConfig skips enablePlugins}

theorem enabledBy_of_plainly {name : String} (h : plainlyEnabledBy enablePlugins name = true) : enabledBy enablePlugins name = true := by
  obtain ⟨pattern, hpattern, hmatches⟩ := List.any_eq_true.mp h
  exact List.any_eq_true.mpr ⟨pattern, hpattern, List.any_eq_true.mpr ⟨name, List.mem_cons_self, hmatches⟩⟩

/-- What `_load` keeps, if it can read the configurations. -/
theorem load_ok {files : List PluginFile} (h : ¬BrokenConfig readConfig skips enablePlugins files) :
    load readConfig files skips enablePlugins = .ok ((pluginClasses files).filter fun name =>
      chosen skips enablePlugins name && (plainlyEnabledBy enablePlugins name || !configDisables readConfig name)) := by
  have hswap : ((pluginClasses files).filter fun name => chosen skips enablePlugins name && (plainlyEnabledBy enablePlugins name || !configDisables readConfig name)) =
      ((pluginClasses files).filter (chosen skips enablePlugins)).filter fun name => plainlyEnabledBy enablePlugins name || !configDisables readConfig name := by
    rw [List.filter_filter]
    exact List.filter_congr fun name _ => Bool.and_comm _ _
  rw [load, checkEnabled, getPluginsFiles_eq_filter, pluginClasses_filter, hswap]
  refine Fallible.filterM_of_ok fun name hname => ?_
  obtain ⟨hmem, hchosen⟩ := List.mem_filter.mp hname
  obtain ⟨fn, hfn, rfl⟩ := (mem_pluginClasses files name).mp hmem
  split
  · next hplain => rw [show plainlyEnabledBy enablePlugins fn.name = true from hplain, Bool.true_or]
  · next hplain =>
      rw [show plainlyEnabledBy enablePlugins fn.name = false from Bool.not_eq_true _ ▸ hplain, Bool.false_or, configDisables]
      cases hread : readConfig fn.name with
      | error e => exact absurd ⟨fn, hfn, hchosen, Bool.not_eq_true _ ▸ hplain, e, hread⟩ h
      | ok option => rcases option with _ | _ | _ <;> rfl

theorem load_ne_ok {files : List PluginFile} (h : BrokenConfig readConfig skips enablePlugins files) (kept : List String) :
    load readConfig files skips enablePlugins ≠ .ok kept := by
  obtain ⟨fn, hfn, hchosen, hplain, e, hread⟩ := h
  rw [load, checkEnabled, getPluginsFiles_eq_filter, pluginClasses_filter]
  refine Fallible.filterM_ne_ok ⟨fn.name, List.mem_filter.mpr ⟨(mem_pluginClasses files fn.name).mpr ⟨fn, hfn, rfl⟩, hchosen⟩, e, ?_⟩ kept
  rw [if_neg (show ¬_ from Bool.not_eq_true _ ▸ hplain), hread]
  rfl

/-- Neither the order of the patterns nor a pattern given twice matters. -/
theorem load_congr {skips' enablePlugins' : List String} (hskips : ∀ p, p ∈ skips' ↔ p ∈ skips) (henable : ∀ p, p ∈ enablePlugins' ↔ p ∈ enablePlugins)
    (files : List PluginFile) : load readConfig files skips' enablePlugins' = load readConfig files skips enablePlugins := by
  have hany : ∀ {patterns patterns' : List String} (test : String → Bool), (∀ p, p ∈ patterns' ↔ p ∈ patterns) → patterns'.any test = patterns.any test := by
    intro patterns patterns' test hsame
    rw [Bool.eq_iff_iff, List.any_eq_true, List.any_eq_true]
    exact exists_congr fun p => and_congr_left fun _ => hsame p
  have hchosen : ∀ name, chosen skips' enablePlugins' name = chosen skips enablePlugins name := fun name => by
    rw [chosen, chosen, skippedBy, skippedBy, enabledBy, enabledBy, hany _ hskips, hany _ henable]
  rw [load, load, checkEnabled, checkEnabled, getPluginsFiles_eq_filter, getPluginsFiles_eq_filter]
  simp only [hchosen, hany _ henable]

variable (readConfig skips enablePlugins)

/-- The classes that are kept are those enabled by a pattern, and those that nothing disables; and the patterns may be given in any order. -/
def KeepsEnabled (files : List PluginFile) : Prop :=
  (∀ kept, load readConfig files skips enablePlugins = .ok kept → kept = (pluginClasses files).filter (enabled readConfig skips enablePlugins)) ∧
    ∀ skips' enablePlugins' : List String, (∀ p, p ∈ skips' ↔ p ∈ skips) → (∀ p, p ∈ enablePlugins' ↔ p ∈ enablePlugins) →
      load readConfig files skips' enablePlugins' = load readConfig files skips enablePlugins

/-- It is so exactly if no plugin that its configuration disables is enabled by patterns with dashes only, where its name has underscores. -/
theorem keepsEnabled_iff (files : List PluginFile) : KeepsEnabled readConfig skips enablePlugins files ↔
    BrokenConfig readConfig skips enablePlugins files ∨ ∀ fn ∈ files, configDisables readConfig fn.name = true →
      enabledBy enablePlugins fn.name = true → plainlyEnabledBy enablePlugins fn.name = true := by
  have horder : ∀ skips' enablePlugins' : List String, (∀ p, p ∈ skips' ↔ p ∈ skips) → (∀ p, p ∈ enablePlugins' ↔ p ∈ enablePlugins) →
      load readConfig files skips' enablePlugins' = load readConfig files skips enablePlugins := fun _ _ hskips henable => load_congr hskips henable files
  by_cases hbroken : BrokenConfig readConfig skips enablePlugins files
  · exact iff_of_true ⟨fun kept hkept => absurd hkept (load_ne_ok hbroken kept), horder⟩ (.inl hbroken)
  · rw [or_iff_right hbroken, KeepsEnabled, and_iff_left horder, load_ok hbroken]
    constructor
    · intro h fn hfn hdisables henabled
      have hkept := eq_of_filter_eq (h _ rfl) ((mem_pluginClasses files fn.name).mpr ⟨fn, hfn, rfl⟩)
      rw [enabled, chosen, henabled, hdisables, Bool.or_true, Bool.true_and, Bool.true_or, Bool.not_true, Bool.or_false] at hkept
      exact hkept
    · intro h kept hkept
      rw [← Except.ok.inj hkept]
      refine List.filter_congr fun name hname => ?_
      obtain ⟨fn, hfn, rfl⟩ := (mem_pluginClasses files name).mp hname
      have hplainly := h fn hfn
      have hplain : plainlyEnabledBy enablePlugins fn.name = true → enabledBy enablePlugins fn.name = true := enabledBy_of_plainly
      rw [enabled, chosen]
      cases henabled : enabledBy enablePlugins fn.name <;> cases hdisables : configDisables readConfig fn.name <;>
        cases hp : plainlyEnabledBy enablePlugins fn.name <;> cases skippedBy skips fn.name <;> simp_all

theorem not_keepsEnabled_dashes :
    ¬KeepsEnabled (fun _ => (.ok (some false) : Except String (Option Bool))) [] ["my-plugin"] [⟨"/usr/lib/dnf-plugins/my_plugin.py", "my_plugin"⟩] := by
  intro h
  have hkept := h.1 [] (by decide +kernel)
  exact absurd hkept (by decide +kernel)

end Kept

end Dnf.Plugins
