import Mathlib.Data.Finset.Union
import Mathlib.Data.List.Basic
import Dnf.Listing.Dicts

/-!
# Plugins that are unloaded

After a transaction that removed the file of a plugin, `Plugins.unload_removed_plugins` drops the plugin from the list. It finds the plugin by its file in a dict, which has room for one plugin of each file.
-/

namespace Dnf.Plugins

open Listing

/-- A plugin object and the file of its class. -/
structure Plugin where
  object : Nat
  file : String
  deriving DecidableEq

/-- A transaction, as the files of the packages it removes and of those it installs. -/
structure TransactionFiles where
  removeSet : List (Finset String)
  installSet : List (Finset String)

/-- The dict from files to plugins. -/
def pluginsByFile (plugins : List Plugin) : List (String × Plugin) := plugins.foldl (fun d plugin => assign d plugin.file plugin) []

def erasedPluginFiles (plugins : List Plugin) (transaction : TransactionFiles) : Finset String :=
  let pluginFiles := ((pluginsByFile plugins).map Prod.fst).toFinset
  let erased := transaction.removeSet.foldl (fun erased files => erased ∪ (pluginFiles ∩ files)) ∅
  transaction.installSet.foldl (fun erased files => erased \ files) erased

/-- `self.plugins.remove(plugins[plugin_file])`; `none` is the `KeyError` or the `ValueError`. -/
def removePlugin (byFile : List (String × Plugin)) (plugins : List Plugin) (pluginFile : String) : Option (List Plugin) :=
  (byFile.lookup pluginFile).bind fun plugin => if plugin ∈ plugins then some (plugins.erase plugin) else none

/-- `Plugins.unload_removed_plugins`. The last loop goes through a set: `order` is the order it happens to have. -/
def unloadRemovedPlugins (plugins : List Plugin) (transaction : TransactionFiles) (order : List String) : Option (List Plugin) :=
  if transaction.removeSet = [] then some plugins
  else if erasedPluginFiles plugins transaction = ∅ then some plugins
  else order.foldlM (removePlugin (pluginsByFile plugins)) plugins

/-- A file of a removed package that no installed package has. -/
def TransactionFiles.Erases (transaction : TransactionFiles) (file : String) : Prop :=
  (∃ files ∈ transaction.removeSet, file ∈ files) ∧ ∀ files ∈ transaction.installSet, file ∉ files

instance (transaction : TransactionFiles) (file : String) : Decidable (transaction.Erases file) := inferInstanceAs (Decidable (_ ∧ _))

/-! ### The files of the plugins -/

theorem lookup_pluginsByFile (plugins : List Plugin) (file : String) : (pluginsByFile plugins).lookup file = (plugins.filter fun p => p.file = file).getLast? := by
  have hlookup := lookup_foldl_record Plugin.file (fun _ plugin => some plugin) plugins [] file
  rw [show ([] : List (String × Plugin)).lookup file = none from rfl, foldl_keep_last] at hlookup
  exact hlookup

theorem mem_pluginFiles (plugins : List Plugin) (file : String) : file ∈ (pluginsByFile plugins).map Prod.fst ↔ ∃ p ∈ plugins, p.file = file := by
  have hloop : ∀ d : List (String × Plugin), file ∈ (plugins.foldl (fun d plugin => assign d plugin.file plugin) d).map Prod.fst ↔
      file ∈ d.map Prod.fst ∨ ∃ p ∈ plugins, p.file = file := by
    induction plugins with
    | nil => simp
    | cons plugin plugins ih =>
        intro d
        rw [List.foldl_cons, ih, mem_keys_assign, List.exists_mem_cons_iff, or_assoc, eq_comm]
  exact (hloop []).trans (or_iff_right List.not_mem_nil)

theorem mem_foldl_union (pluginFiles : Finset String) (file : String) (removed : List (Finset String)) (erased : Finset String) :
    file ∈ removed.foldl (fun erased files => erased ∪ (pluginFiles ∩ files)) erased ↔
      file ∈ erased ∨ (file ∈ pluginFiles ∧ ∃ files ∈ removed, file ∈ files) := by
  induction removed generalizing erased with
  | nil => simp
  | cons files removed ih =>
      rw [List.foldl_cons, ih, Finset.mem_union, Finset.mem_inter, List.exists_mem_cons_iff, and_or_left, or_assoc]

theorem mem_foldl_sdiff (file : String) (installed : List (Finset String)) (erased : Finset String) :
    file ∈ installed.foldl (fun erased files => erased \ files) erased ↔ file ∈ erased ∧ ∀ files ∈ installed, file ∉ files := by
  induction installed generalizing erased with
  | nil => simp
  | cons files installed ih => rw [List.foldl_cons, ih, Finset.mem_sdiff, List.forall_mem_cons, and_assoc]

theorem mem_erasedPluginFiles (plugins : List Plugin) (transaction : TransactionFiles) (file : String) :
    file ∈ erasedPluginFiles plugins transaction ↔ (∃ p ∈ plugins, p.file = file) ∧ transaction.Erases file := by
  rw [erasedPluginFiles, mem_foldl_sdiff, mem_foldl_union, List.mem_toFinset, mem_pluginFiles, or_iff_right (Finset.notMem_empty file), and_assoc,
    TransactionFiles.Erases]

/-! ### The loop that removes them -/

def ofFile (file : String) (plugin : Plugin) : Bool := plugin.file = file

/-- The plugin that is removed is counted for its own file only. -/
theorem countP_erase_plugin {plugins : List Plugin} {plugin : Plugin} (hplugin : plugin ∈ plugins) (file : String) :
    (plugins.erase plugin).countP (ofFile file) + (if plugin.file = file then 1 else 0) = plugins.countP (ofFile file) := by
  obtain ⟨before, after, -, hplugins, herase⟩ := List.exists_erase_eq hplugin
  rw [herase, hplugins, List.countP_append, List.countP_append, List.countP_cons, ofFile, Nat.add_assoc]
  by_cases hfile : plugin.file = file <;> simp [hfile]

theorem erase_eq_filter {plugins : List Plugin} {plugin : Plugin} (hplugin : plugin ∈ plugins) (hone : plugins.countP (ofFile plugin.file) = 1) :
    plugins.erase plugin = plugins.filter fun p => p.file ≠ plugin.file := by
  have hcount := countP_erase_plugin hplugin plugin.file
  rw [if_pos rfl, hone, Nat.add_eq_right, List.countP_eq_zero] at hcount
  have hkeeps : (plugins.erase plugin).filter (fun p => p.file ≠ plugin.file) = plugins.erase plugin :=
    List.filter_eq_self.mpr fun p hp => decide_eq_true fun heq => hcount p hp (decide_eq_true heq)
  rw [← hkeeps]
  obtain ⟨before, after, -, hplugins, herase⟩ := List.exists_erase_eq hplugin
  rw [herase, hplugins, List.filter_append, List.filter_append, List.filter_cons_of_neg (by simp)]

/-- The loop never raises, and takes one plugin of each file out of the list. -/
theorem foldlM_removePlugin {byFile : List (String × Plugin)} {order : List String} (hnodup : order.Nodup) {plugins : List Plugin}
    (hfound : ∀ file ∈ order, ∃ plugin ∈ plugins, byFile.lookup file = some plugin ∧ plugin.file = file) :
    ∃ plugins', order.foldlM (removePlugin byFile) plugins = some plugins' ∧
      (∀ file, plugins'.countP (ofFile file) + (if file ∈ order then 1 else 0) = plugins.countP (ofFile file)) ∧
      ((∀ file ∈ order, plugins.countP (ofFile file) = 1) → plugins' = plugins.filter fun plugin => plugin.file ∉ order) := by
  induction order generalizing plugins with
  | nil => exact ⟨plugins, rfl, fun _ => rfl, fun _ => by simp⟩
  | cons first order ih =>
      obtain ⟨hfirst, hnodup⟩ := List.nodup_cons.mp hnodup
      obtain ⟨plugin, hplugin, hlookup, hfile⟩ := hfound first List.mem_cons_self
      have hfound' : ∀ file ∈ order, ∃ p ∈ plugins.erase plugin, byFile.lookup file = some p ∧ p.file = file := by
        intro file hmem
        obtain ⟨p, hp, hlook, hpfile⟩ := hfound file (List.mem_cons_of_mem _ hmem)
        refine ⟨p, (List.mem_erase_of_ne ?_).mpr hp, hlook, hpfile⟩
        rintro rfl
        exact hfirst (hfile ▸ hpfile ▸ hmem)
      obtain ⟨plugins', hrun, hcount, hfilter⟩ := ih hnodup hfound'
      refine ⟨plugins', ?_, fun file => ?_, fun hone => ?_⟩
      · rw [List.foldlM_cons, removePlugin, hlookup, Option.bind_some, if_pos hplugin]
        exact hrun
      · rw [← countP_erase_plugin hplugin file, ← hcount file, hfile]
        by_cases heq : first = file
        · subst heq
          rw [if_neg hfirst, if_pos List.mem_cons_self, if_pos rfl]
        · rw [if_neg heq, Nat.add_zero]
          simp only [List.mem_cons, Ne.symm heq, false_or]
      · have hone' : plugins.countP (ofFile plugin.file) = 1 := by
          rw [hfile]
          exact hone first List.mem_cons_self
        have hrest : ∀ file ∈ order, (plugins.erase plugin).countP (ofFile file) = 1 := by
          intro file hmem
          have hne : ¬plugin.file = file := fun heq => hfirst (hfile.symm.trans heq ▸ hmem)
          have herase := countP_erase_plugin hplugin file
          rw [if_neg hne, Nat.add_zero] at herase
          exact herase.trans (hone file (List.mem_cons_of_mem _ hmem))
        rw [hfilter hrest, erase_eq_filter hplugin hone', hfile, List.filter_filter]
        refine List.filter_congr fun p _ => ?_
        simp only [List.mem_cons, not_or, Bool.decide_and, Bool.and_comm]

/-- The whole method is the loop. -/
theorem unload_eq {plugins : List Plugin} {transaction : TransactionFiles} {order : List String} (hnodup : order.Nodup)
    (horder : ∀ file, file ∈ order ↔ file ∈ erasedPluginFiles plugins transaction) :
    ∃ plugins', unloadRemovedPlugins plugins transaction order = some plugins' ∧
      (∀ file, plugins'.countP (ofFile file) + (if file ∈ order then 1 else 0) = plugins.countP (ofFile file)) ∧
      ((∀ file ∈ order, plugins.countP (ofFile file) = 1) → plugins' = plugins.filter fun plugin => ¬transaction.Erases plugin.file) := by
  have hmem : ∀ file, file ∈ order ↔ (∃ p ∈ plugins, p.file = file) ∧ transaction.Erases file := fun file =>
    (horder file).trans (mem_erasedPluginFiles plugins transaction file)
  have hfound : ∀ file ∈ order, ∃ plugin ∈ plugins, (pluginsByFile plugins).lookup file = some plugin ∧ plugin.file = file := by
    intro file hfile
    obtain ⟨p, hp, hpfile⟩ := ((hmem file).mp hfile).1
    have hin : p ∈ plugins.filter fun p => p.file = file := List.mem_filter.mpr ⟨hp, decide_eq_true hpfile⟩
    obtain ⟨last, hlast⟩ := Option.ne_none_iff_exists'.mp (mt List.getLast?_eq_none_iff.mp (List.ne_nil_of_mem hin))
    obtain ⟨hlastmem, hlastfile⟩ := List.mem_filter.mp (List.mem_of_getLast? hlast)
    exact ⟨last, hlastmem, (lookup_pluginsByFile plugins file).trans hlast, of_decide_eq_true hlastfile⟩
  have hloop : unloadRemovedPlugins plugins transaction order = order.foldlM (removePlugin (pluginsByFile plugins)) plugins := by
    have hnil : erasedPluginFiles plugins transaction = ∅ → order = [] := fun hempty =>
      List.eq_nil_iff_forall_not_mem.mpr fun file hfile => Finset.notMem_empty file (hempty ▸ (horder file).mp hfile)
    rw [unloadRemovedPlugins]
    split_ifs with hremove hempty
    · have hnone : order = [] := by
        refine List.eq_nil_iff_forall_not_mem.mpr fun file hfile => ?_
        obtain ⟨files, hfiles, -⟩ := ((hmem file).mp hfile).2.1
        exact List.not_mem_nil (hremove ▸ hfiles)
      rw [hnone]
      rfl
    · rw [hnil hempty]
      rfl
    · rfl
  obtain ⟨plugins', hrun, hcount, hfilter⟩ := foldlM_removePlugin hnodup hfound
  refine ⟨plugins', hloop.trans hrun, hcount, fun hone => (hfilter hone).trans (List.filter_congr fun p hp => ?_)⟩
  exact decide_eq_decide.mpr (not_congr ((hmem p.file).trans (and_iff_right ⟨p, hp, rfl⟩)))

/-- Whatever the order of the last loop, no exception is raised, and exactly the plugins whose files are erased are gone. -/
def UnloadsErased (plugins : List Plugin) (transaction : TransactionFiles) : Prop :=
  ∀ order : List String, order.Nodup → (∀ file, file ∈ order ↔ file ∈ erasedPluginFiles plugins transaction) →
    unloadRemovedPlugins plugins transaction order = some (plugins.filter fun plugin => ¬transaction.Erases plugin.file)

/-- It is so exactly if no two of the plugins come from one erased file. -/
theorem unloadsErased_iff (plugins : List Plugin) (transaction : TransactionFiles) :
    UnloadsErased plugins transaction ↔ ∀ file, transaction.Erases file → (plugins.filter fun plugin => plugin.file = file).length ≤ 1 := by
  have hcountP : ∀ file, (plugins.filter fun plugin => plugin.file = file).length = plugins.countP (ofFile file) := fun file =>
    List.countP_eq_length_filter.symm
  constructor
  · intro h file herases
    rw [hcountP]
    by_cases hsome : ∃ p ∈ plugins, p.file = file
    · have hfile : file ∈ (erasedPluginFiles plugins transaction).toList :=
        Finset.mem_toList.mpr ((mem_erasedPluginFiles plugins transaction file).mpr ⟨hsome, herases⟩)
      obtain ⟨plugins', hloop, hcount, -⟩ := unload_eq (Finset.nodup_toList (erasedPluginFiles plugins transaction)) fun _ => Finset.mem_toList
      have hleft : plugins'.countP (ofFile file) = 0 := by
        rw [Option.some.inj (hloop.symm.trans (h _ (Finset.nodup_toList _) fun _ => Finset.mem_toList))]
        refine List.countP_eq_zero.mpr fun p hp hpfile => ?_
        exact of_decide_eq_true (List.mem_filter.mp hp).2 (of_decide_eq_true hpfile ▸ herases)
      rw [← hcount file, if_pos hfile, hleft]
    · have hzero : plugins.countP (ofFile file) = 0 := List.countP_eq_zero.mpr fun p hp hfile => hsome ⟨p, hp, of_decide_eq_true hfile⟩
      rw [hzero]
      exact Nat.zero_le 1
  · intro hone order hnodup horder
    obtain ⟨plugins', hloop, -, hfilter⟩ := unload_eq hnodup horder
    refine hloop.trans (congrArg some (hfilter fun file hfile => ?_))
    obtain ⟨⟨p, hp, hpfile⟩, herases⟩ := (mem_erasedPluginFiles plugins transaction file).mp ((horder file).mp hfile)
    have hpos : 0 < plugins.countP (ofFile file) := List.countP_pos_iff.mpr ⟨p, hp, decide_eq_true hpfile⟩
    exact Nat.le_antisymm (hcountP file ▸ hone file herases) hpos

theorem not_unloadsErased_twins :
    ¬UnloadsErased [⟨0, "/plugins/twins.py"⟩, ⟨1, "/plugins/twins.py"⟩] ⟨[{"/plugins/twins.py"}], []⟩ := by
  intro h
  have hunload := h ["/plugins/twins.py"] (List.nodup_singleton _) fun file => by
    rw [mem_erasedPluginFiles]
    simp [TransactionFiles.Erases, eq_comm]
  exact absurd hunload (by decide)

end Dnf.Plugins
