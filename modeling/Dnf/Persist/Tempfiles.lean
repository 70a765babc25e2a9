import Mathlib.Data.Finset.SDiff
import Dnf.Foundation.Transition
import Dnf.Transaction.Record

/-!
# The record of downloaded packages

A run keeps apart the packages it downloads for its transaction and those it downloads before there is one. The latter are deleted when it ends. The former wait: a run that fails puts them into `tempfiles.json`, and one that succeeds deletes them together with the recorded ones and empties the record. It empties the record after a success without new packages too, and deletes nothing then; this is the only way in which a file is forgotten.
-/

namespace Dnf.Tempfiles

open Foundation Transaction

/-- The fields of the base that decide what becomes of the files. No transaction is an empty one. -/
structure Base where
  keepcache : Bool := false
  destdir : Bool := false
  transaction : List Item := []
  tempfiles : Finset String := ∅
  transTempfiles : Finset String := ∅
  transSuccess : Bool := false
  transInstallSet : Bool := false

/-! ### Downloads and commits -/

def Base.addTempfiles (files : Finset String) (b : Base) : Base :=
  if b.transaction ≠ [] then { b with transTempfiles := b.transTempfiles ∪ files }
  else if b.destdir then b
  else { b with tempfiles := b.tempfiles ∪ files }

/-- What the files are for: those that go to `destdir` outside a transaction are the user's. -/
def Base.tracks (b : Base) : Bool := b.transaction ≠ [] || !b.destdir

/-- How far a commit gets: it is refused before rpm runs, by a check, a test, the test flag or a plugin, or `_run_transaction` is called and rpm does what it does. -/
inductive Attempt
  | refused
  | run (conf : RunConf) (rpm : ∀ items, RpmRun items)

/-- `do_transaction`, as far as the two flags go. -/
def Base.doTransaction (b : Base) : Attempt → Base
  | .refused => b
  | .run conf rpm =>
      if b.transaction = [] then { b with transSuccess := true }
      else
        let s := Effect.final (runTransaction conf (rpm b.transaction)
          ⟨b.transaction, [], false, none, b.transSuccess, b.transInstallSet⟩)
        { b with transaction := s.items, transSuccess := s.transSuccess, transInstallSet := s.transInstallSet }

/-! ### `_finalize_base` -/

structure TempfilePersistor where
  tempfilesToAdd : Finset String := ∅
  empty : Bool := false

def TempfilePersistor.save (persistor : TempfilePersistor) (record : Finset String) : Finset String :=
  if !persistor.empty && persistor.tempfilesToAdd = ∅ then record
  else if persistor.empty then ∅
  else record ∪ persistor.tempfilesToAdd

/-- The base, the persistor, and the files that were given to `_clean_packages`. -/
structure Finalized where
  base : Base
  persistor : TempfilePersistor
  cleaned : Finset String

def Base.finalizeBase (savedTempfiles : Finset String) (b : Base) : Finalized :=
  if b.keepcache then ⟨{ b with transSuccess := false }, {}, ∅⟩
  else if b.transSuccess then
    let transTempfiles := b.transTempfiles ∪ savedTempfiles
    ⟨{ b with transTempfiles, transSuccess := false }, { empty := true }, if b.transInstallSet then b.tempfiles ∪ transTempfiles else b.tempfiles⟩
  else ⟨{ b with transSuccess := false }, { tempfilesToAdd := b.transTempfiles }, b.tempfiles⟩

/-- `_clean_packages`: what is left on disk; some files cannot be unlinked. -/
def cleanPackages (stuck packages disk : Finset String) : Finset String := disk \ (packages \ stuck)

/-! ### Runs -/

/-- `record` is `tempfiles.json`. Of the files that no run has tried to delete since, `recorded` are those that were ever recorded and `downloaded` those that were downloaded. -/
structure State where
  record : Finset String
  disk : Finset String
  recorded : Finset String
  downloaded : Finset String := ∅
  base : Option Base := none

inductive Action
  | start (keepcache destdir : Bool)
  | transaction (items : List Item)
  | download (files arrived : Finset String)
  | doTransaction (attempt : Attempt)
  | clean (stuck : Finset String)
  | close (stuck : Finset String)
  | unlink (files : Finset String)

def State.finalizeBase (s : State) (b : Base) (stuck : Finset String) : State :=
  let done := b.finalizeBase s.record
  let record := done.persistor.save s.record
  { record := record
    disk := cleanPackages stuck done.cleaned s.disk
    recorded := (s.recorded ∪ record) \ done.cleaned
    downloaded := s.downloaded \ done.cleaned
    base := some done.base }

/-- Of the files of a download not all need arrive, and the last download of a file says whose it is. `clean` is `ShellCommand._clean`, and `unlink` what others do to the cache. -/
def State.next (s : State) : Action → Option State
  | .start keepcache destdir => if s.base.isNone then some { s with base := some { keepcache, destdir } } else none
  | .transaction items => s.base.map fun b => { s with base := some { b with transaction := items } }
  | .download files arrived => s.base.map fun b =>
      { s with disk := s.disk ∪ (files ∩ arrived)
               downloaded := if b.tracks then s.downloaded ∪ (files ∩ arrived) else s.downloaded \ (files ∩ arrived)
               base := some (b.addTempfiles files) }
  | .doTransaction attempt => s.base.map fun b => { s with base := some (b.doTransaction attempt) }
  | .clean stuck => s.base.map fun b =>
      { s.finalizeBase b stuck with base := some { (b.finalizeBase s.record).base with transaction := [] } }
  | .close stuck => s.base.map fun b => { s.finalizeBase b stuck with base := none }
  | .unlink files => some { s with disk := s.disk \ files }

/-- Nothing runs at first, and what is on record is all there is to delete. -/
def runs : System State Action where
  Init s := s.base = none ∧ s.recorded = s.record ∧ s.downloaded = ∅
  next := State.next

/-! ### What is not forgotten -/

def Base.files (b : Base) : Finset String := b.tempfiles ∪ b.transTempfiles

def State.known (s : State) : Finset String := s.base.elim ∅ Base.files

/-- What was recorded is on record, and what was downloaded and is still there is on record or known to the run that goes on. -/
def State.ForgetsNothing (s : State) : Prop := s.recorded ⊆ s.record ∧ s.downloaded ∩ s.disk ⊆ s.record ∪ s.known

def KeepcacheOff (_ : State) : Action → Prop
  | .start keepcache _ => keepcache = false
  | _ => True

/-- A success without new packages finds nothing to forget: no file is on record that it does not try to delete, and where the run ends then, none it has downloaded is left. -/
def Cleared (s : State) : Action → Prop
  | .clean _ => ∀ b, s.base = some b → b.transSuccess = true → b.transInstallSet = false → s.recorded ⊆ b.tempfiles
  | .close _ => ∀ b, s.base = some b → b.transSuccess = true → b.transInstallSet = false →
      s.recorded ⊆ b.tempfiles ∧ s.downloaded ∩ s.disk ⊆ b.tempfiles
  | _ => True

def State.Off (s : State) : Prop := ∀ b, s.base = some b → b.keepcache = false

/-! ### One finalization -/

theorem save_add (files record : Finset String) : TempfilePersistor.save { tempfilesToAdd := files } record = record ∪ files := by
  rw [TempfilePersistor.save]
  by_cases hfiles : files = ∅
  · subst hfiles
    exact (Finset.union_empty record).symm
  · simp [hfiles]

theorem save_empty (record : Finset String) : TempfilePersistor.save { empty := true } record = ∅ := rfl

theorem cleanPackages_subset (stuck packages disk : Finset String) : cleanPackages stuck packages disk ⊆ disk := Finset.sdiff_subset

/-- What is not given to `_clean_packages` stays. -/
theorem mem_cleanPackages {stuck packages disk : Finset String} {f : String} (hf : f ∉ packages) : f ∈ cleanPackages stuck packages disk ↔ f ∈ disk := by
  rw [cleanPackages, Finset.mem_sdiff, Finset.mem_sdiff]
  exact and_iff_left fun h => hf h.1

/-! The three ends of a run: it failed, it succeeded with new packages, it succeeded without. -/

section Finalize

variable {b : Base} (saved : Finset String) (hoff : b.keepcache = false)
include hoff

theorem Base.finalizeBase_failed (hfailed : b.transSuccess = false) :
    b.finalizeBase saved = ⟨{ b with transSuccess := false }, { tempfilesToAdd := b.transTempfiles }, b.tempfiles⟩ := by
  rw [Base.finalizeBase, hoff, hfailed]
  rfl

theorem Base.finalizeBase_installed (hsuccess : b.transSuccess = true) (hinstalled : b.transInstallSet = true) :
    b.finalizeBase saved = ⟨{ b with transTempfiles := b.transTempfiles ∪ saved, transSuccess := false }, { empty := true },
      b.tempfiles ∪ (b.transTempfiles ∪ saved)⟩ := by
  rw [Base.finalizeBase, hoff, hsuccess, hinstalled]
  rfl

theorem Base.finalizeBase_removed (hsuccess : b.transSuccess = true) (hremoved : b.transInstallSet = false) :
    b.finalizeBase saved = ⟨{ b with transTempfiles := b.transTempfiles ∪ saved, transSuccess := false }, { empty := true }, b.tempfiles⟩ := by
  rw [Base.finalizeBase, hoff, hsuccess, hremoved]
  rfl

end Finalize

section Step

variable {s : State} {b : Base} (stuck : Finset String) (hs : s.ForgetsNothing) (hb : s.base = some b)
include hs hb

theorem mem_or_of_forgetsNothing {f : String} (hf : f ∈ s.downloaded) (hdisk : f ∈ s.disk) :
    f ∈ s.record ∨ f ∈ b.tempfiles ∨ f ∈ b.transTempfiles := by
  have hmem := hs.2 (Finset.mem_inter.mpr ⟨hf, hdisk⟩)
  rw [State.known, hb] at hmem
  exact (Finset.mem_union.mp hmem).imp_right Finset.mem_union.mp

variable (hoff : b.keepcache = false)
include hoff

/-- After a failure all that is waiting is on record. -/
theorem finalizeBase_failed (hfailed : b.transSuccess = false) :
    (s.finalizeBase b stuck).recorded ⊆ (s.finalizeBase b stuck).record ∧
      (s.finalizeBase b stuck).downloaded ∩ (s.finalizeBase b stuck).disk ⊆ (s.finalizeBase b stuck).record := by
  simp only [State.finalizeBase, Base.finalizeBase_failed s.record hoff hfailed, save_add]
  constructor
  · intro f hf
    rcases Finset.mem_union.mp (Finset.mem_sdiff.mp hf).1 with hrecorded | hmem
    · exact Finset.mem_union_left _ (hs.1 hrecorded)
    · exact hmem
  · intro f hf
    obtain ⟨hdownloaded, hdisk⟩ := Finset.mem_inter.mp hf
    obtain ⟨hdownloaded, hcleaned⟩ := Finset.mem_sdiff.mp hdownloaded
    rcases mem_or_of_forgetsNothing hs hb hdownloaded (cleanPackages_subset _ _ _ hdisk) with hrecord | htemp | htrans
    · exact Finset.mem_union_left _ hrecord
    · exact absurd htemp hcleaned
    · exact Finset.mem_union_right _ htrans

/-- After a success with new packages every file was tried. -/
theorem finalizeBase_installed (hsuccess : b.transSuccess = true) (hinstalled : b.transInstallSet = true) :
    (s.finalizeBase b stuck).recorded = ∅ ∧ (s.finalizeBase b stuck).downloaded ∩ (s.finalizeBase b stuck).disk = ∅ := by
  simp only [State.finalizeBase, Base.finalizeBase_installed s.record hoff hsuccess hinstalled, save_empty, Finset.union_empty]
  constructor
  · rw [Finset.sdiff_eq_empty_iff_subset]
    exact hs.1.trans (Finset.subset_union_right.trans Finset.subset_union_right)
  · rw [Finset.eq_empty_iff_forall_notMem]
    intro f hf
    obtain ⟨hdownloaded, hdisk⟩ := Finset.mem_inter.mp hf
    obtain ⟨hdownloaded, hcleaned⟩ := Finset.mem_sdiff.mp hdownloaded
    apply hcleaned
    rw [Finset.mem_union, Finset.mem_union]
    rcases mem_or_of_forgetsNothing hs hb hdownloaded (cleanPackages_subset _ _ _ hdisk) with hrecord | htemp | htrans
    · exact .inr (.inr hrecord)
    · exact .inl htemp
    · exact .inr (.inl htrans)

omit hs hb in
/-- A success without new packages empties the record and tries only the files that were downloaded before the transaction. -/
theorem finalizeBase_removed (hsuccess : b.transSuccess = true) (hremoved : b.transInstallSet = false) :
    s.finalizeBase b stuck =
      { record := ∅
        disk := cleanPackages stuck b.tempfiles s.disk
        recorded := s.recorded \ b.tempfiles
        downloaded := s.downloaded \ b.tempfiles
        base := some { b with transTempfiles := b.transTempfiles ∪ s.record, transSuccess := false } } := by
  simp only [State.finalizeBase, Base.finalizeBase_removed s.record hoff hsuccess hremoved, save_empty, Finset.union_empty]

/-- Whatever base is left: after a failure and after a success with new packages nothing is forgotten, and after one without, what the base left does not know. -/
theorem finalizeBase_forgetsNothing_iff (left : Option Base) :
    State.ForgetsNothing { s.finalizeBase b stuck with base := left } ↔ (b.transSuccess = true → b.transInstallSet = false →
      s.recorded ⊆ b.tempfiles ∧ ∀ f ∈ s.downloaded, f ∈ s.disk → f ∉ b.tempfiles → f ∈ left.elim ∅ Base.files) := by
  cases hsuccess : b.transSuccess with
  | false =>
      obtain ⟨hrecorded, hdownloaded⟩ := finalizeBase_failed stuck hs hb hoff hsuccess
      exact iff_of_true ⟨hrecorded, hdownloaded.trans Finset.subset_union_left⟩ fun htrue => Bool.noConfusion htrue
  | true =>
      cases hremoved : b.transInstallSet with
      | true =>
          obtain ⟨hrecorded, hdownloaded⟩ := finalizeBase_installed stuck hs hb hoff hsuccess hremoved
          exact iff_of_true ⟨hrecorded ▸ Finset.empty_subset _, hdownloaded ▸ Finset.empty_subset _⟩ fun _ hfalse => Bool.noConfusion hfalse
      | false =>
          rw [finalizeBase_removed stuck hoff hsuccess hremoved, State.ForgetsNothing, State.known]
          simp only [true_imp_iff, Finset.subset_empty, Finset.sdiff_eq_empty_iff_subset, Finset.empty_union]
          refine and_congr_right fun _ => ⟨fun hsub f hdownloaded hdisk htemp => ?_, fun hleft f hf => ?_⟩
          · exact hsub (Finset.mem_inter.mpr ⟨Finset.mem_sdiff.mpr ⟨hdownloaded, htemp⟩, (mem_cleanPackages htemp).mpr hdisk⟩)
          · obtain ⟨hdownloaded, hdisk⟩ := Finset.mem_inter.mp hf
            obtain ⟨hdownloaded, htemp⟩ := Finset.mem_sdiff.mp hdownloaded
            exact hleft f hdownloaded (cleanPackages_subset _ _ _ hdisk) htemp

theorem close_forgetsNothing_iff :
    State.ForgetsNothing { s.finalizeBase b stuck with base := none } ↔
      (b.transSuccess = true → b.transInstallSet = false → s.recorded ⊆ b.tempfiles ∧ s.downloaded ∩ s.disk ⊆ b.tempfiles) := by
  rw [finalizeBase_forgetsNothing_iff stuck hs hb hoff none]
  refine imp_congr_right fun _ => imp_congr_right fun _ => and_congr_right fun _ => ⟨fun hnone f hf => ?_, fun hsub f hdownloaded hdisk htemp => ?_⟩
  · obtain ⟨hdownloaded, hdisk⟩ := Finset.mem_inter.mp hf
    by_contra htemp
    exact Finset.notMem_empty f (hnone f hdownloaded hdisk htemp)
  · exact absurd (hsub (Finset.mem_inter.mpr ⟨hdownloaded, hdisk⟩)) htemp

/-- A session that goes on still knows what it has taken over from the record. -/
theorem clean_forgetsNothing_iff (transaction : List Item) :
    State.ForgetsNothing { s.finalizeBase b stuck with base := some { (b.finalizeBase s.record).base with transaction := transaction } } ↔
      (b.transSuccess = true → b.transInstallSet = false → s.recorded ⊆ b.tempfiles) := by
  rw [finalizeBase_forgetsNothing_iff stuck hs hb hoff]
  refine imp_congr_right fun hsuccess => imp_congr_right fun hremoved => and_iff_left fun f hdownloaded hdisk _ => ?_
  have hmem := mem_or_of_forgetsNothing hs hb hdownloaded hdisk
  simp only [Option.elim_some, Base.files, Base.finalizeBase_removed s.record hoff hsuccess hremoved, Finset.mem_union]
  tauto

end Step

/-! ### Every run -/

theorem finalizeBase_off {saved : Finset String} {b : Base} (hoff : b.keepcache = false) : (b.finalizeBase saved).base.keepcache = false := by
  rw [Base.finalizeBase]
  split_ifs
  all_goals exact hoff

theorem doTransaction_files (b : Base) (attempt : Attempt) :
    (b.doTransaction attempt).files = b.files ∧ (b.doTransaction attempt).keepcache = b.keepcache := by
  cases attempt with
  | refused => exact ⟨rfl, rfl⟩
  | run conf rpm =>
      rw [Base.doTransaction]
      split_ifs
      · exact ⟨rfl, rfl⟩
      · exact ⟨rfl, rfl⟩

theorem mem_addTempfiles_files {b : Base} {files : Finset String} {f : String} (h : f ∈ b.files ∨ b.tracks = true ∧ f ∈ files) :
    f ∈ (b.addTempfiles files).files := by
  rw [Base.addTempfiles]
  split_ifs with htransaction hdestdir
  · simp only [Base.files, Finset.mem_union] at h ⊢
    tauto
  · rcases h with h | ⟨htracks, _⟩
    · exact h
    · rw [Base.tracks, hdestdir, decide_eq_false htransaction] at htracks
      cases htracks
  · simp only [Base.files, Finset.mem_union] at h ⊢
    tauto

theorem addTempfiles_keepcache (b : Base) (files : Finset String) : (b.addTempfiles files).keepcache = b.keepcache := by
  rw [Base.addTempfiles]
  split_ifs
  · rfl
  · rfl
  · rfl

theorem off_of_base {record disk recorded downloaded : Finset String} {b : Base} (hb : b.keepcache = false) :
    State.Off ⟨record, disk, recorded, downloaded, some b⟩ := by
  intro c hc
  rwa [← Option.some.inj hc]

theorem next_off {s t : State} {action : Action} (hs : s.Off) (hoff : KeepcacheOff s action) (hnext : s.next action = some t) : t.Off := by
  cases action with
  | start keepcache destdir =>
      rw [State.next, Option.ite_none_right_eq_some, Option.some.injEq] at hnext
      obtain ⟨_, rfl⟩ := hnext
      exact off_of_base hoff
  | transaction items =>
      obtain ⟨b, hb, rfl⟩ := Option.map_eq_some_iff.mp hnext
      exact off_of_base (hs b hb)
  | download files arrived =>
      obtain ⟨b, hb, rfl⟩ := Option.map_eq_some_iff.mp hnext
      exact off_of_base ((addTempfiles_keepcache b files).trans (hs b hb))
  | doTransaction attempt =>
      obtain ⟨b, hb, rfl⟩ := Option.map_eq_some_iff.mp hnext
      exact off_of_base ((doTransaction_files b attempt).2.trans (hs b hb))
  | clean stuck =>
      obtain ⟨b, hb, rfl⟩ := Option.map_eq_some_iff.mp hnext
      exact off_of_base (finalizeBase_off (hs b hb))
  | close stuck =>
      obtain ⟨b, _, rfl⟩ := Option.map_eq_some_iff.mp hnext
      intro c hc
      cases hc
  | unlink files =>
      obtain rfl := Option.some.inj hnext
      exact hs

/-- A step that records nothing and forgets no name: what it downloads is known to the run, and no other file appears. -/
theorem State.ForgetsNothing.mono {s : State} (hs : s.ForgetsNothing) {t : State} (hrecord : t.record = s.record) (hrecorded : t.recorded = s.recorded)
    (hsub : ∀ f, f ∈ t.downloaded → f ∈ t.disk → (f ∈ s.downloaded ∧ f ∈ s.disk) ∨ f ∈ t.known) (hknown : s.known ⊆ t.known) : t.ForgetsNothing := by
  rw [State.ForgetsNothing, hrecord, hrecorded]
  refine ⟨hs.1, fun f hf => ?_⟩
  obtain ⟨hdownloaded, hdisk⟩ := Finset.mem_inter.mp hf
  rcases hsub f hdownloaded hdisk with hold | hnew
  · rcases Finset.mem_union.mp (hs.2 (Finset.mem_inter.mpr hold)) with hmem | hmem
    · exact Finset.mem_union_left _ hmem
    · exact Finset.mem_union_right _ (hknown hmem)
  · exact Finset.mem_union_right _ hnew

theorem next_forgetsNothing_iff {s t : State} {action : Action} (hs : s.ForgetsNothing) (hoff : s.Off) (hnext : s.next action = some t) :
    t.ForgetsNothing ↔ Cleared s action := by
  cases action with
  | start keepcache destdir =>
      rw [State.next, Option.ite_none_right_eq_some, Option.some.injEq, Option.isNone_iff_eq_none] at hnext
      obtain ⟨hnone, rfl⟩ := hnext
      refine iff_of_true (hs.mono rfl rfl (fun f hdownloaded hdisk => .inl ⟨hdownloaded, hdisk⟩) ?_) trivial
      rw [State.known, hnone]
      exact Finset.empty_subset _
  | transaction items =>
      obtain ⟨b, hb, rfl⟩ := Option.map_eq_some_iff.mp hnext
      refine iff_of_true (hs.mono rfl rfl (fun f hdownloaded hdisk => .inl ⟨hdownloaded, hdisk⟩) ?_) trivial
      rw [State.known, hb]
      exact Finset.Subset.rfl
  | download files arrived =>
      obtain ⟨b, hb, rfl⟩ := Option.map_eq_some_iff.mp hnext
      refine iff_of_true (hs.mono rfl rfl (fun f hdownloaded hdisk => ?_) ?_) trivial
      · by_cases hnew : b.tracks = true ∧ f ∈ files
        · exact .inr (mem_addTempfiles_files (.inr hnew))
        · refine .inl ?_
          dsimp only at hdownloaded hdisk
          split_ifs at hdownloaded with htracks
          · have hfiles : f ∉ files ∩ arrived := fun hmem => hnew ⟨htracks, (Finset.mem_inter.mp hmem).1⟩
            exact ⟨(Finset.mem_union.mp hdownloaded).resolve_right hfiles, (Finset.mem_union.mp hdisk).resolve_right hfiles⟩
          · obtain ⟨hold, hfiles⟩ := Finset.mem_sdiff.mp hdownloaded
            exact ⟨hold, (Finset.mem_union.mp hdisk).resolve_right hfiles⟩
      · rw [State.known, hb]
        exact fun f hf => mem_addTempfiles_files (.inl hf)
  | doTransaction attempt =>
      obtain ⟨b, hb, rfl⟩ := Option.map_eq_some_iff.mp hnext
      refine iff_of_true (hs.mono rfl rfl (fun f hdownloaded hdisk => .inl ⟨hdownloaded, hdisk⟩) ?_) trivial
      rw [State.known, hb]
      exact (doTransaction_files b attempt).1.ge
  | clean stuck =>
      obtain ⟨b, hb, rfl⟩ := Option.map_eq_some_iff.mp hnext
      rw [clean_forgetsNothing_iff stuck hs hb (hoff b hb), Cleared, hb]
      simp only [Option.some.injEq, forall_eq']
  | close stuck =>
      obtain ⟨b, hb, rfl⟩ := Option.map_eq_some_iff.mp hnext
      rw [close_forgetsNothing_iff stuck hs hb (hoff b hb), Cleared, hb]
      simp only [Option.some.injEq, forall_eq']
  | unlink files =>
      obtain rfl := Option.some.inj hnext
      exact iff_of_true (hs.mono rfl rfl (fun f hdownloaded hdisk => .inl ⟨hdownloaded, Finset.sdiff_subset hdisk⟩) Finset.Subset.rfl) trivial

theorem forgetsNothing_iff (start s : State) (actions : List Action) (hstart : runs.Init start) (hrun : runs.Run KeepcacheOff start actions s) :
    runs.Always State.ForgetsNothing start actions ↔ runs.Run Cleared start actions s := by
  obtain ⟨hbase, hrecorded, hdownloaded⟩ := hstart
  have hoff : start.Off := by
    intro b hb
    rw [hbase] at hb
    cases hb
  have hforgets : start.ForgetsNothing := by
    rw [State.ForgetsNothing, hrecorded, hdownloaded, Finset.empty_inter]
    exact ⟨Finset.Subset.rfl, Finset.empty_subset _⟩
  have hiff : ∀ s action t, (s.Off ∧ s.ForgetsNothing) → KeepcacheOff s action → runs.next s action = some t → (t.ForgetsNothing ↔ Cleared s action) :=
    fun s action t hs _ hnext => next_forgetsNothing_iff hs.2 hs.1 hnext
  refine System.Run.always_iff hiff ?_ hrun ⟨hoff, hforgets⟩ hforgets
  intro s action t hs hkeepcache hcleared hnext
  exact ⟨next_off hs.1 hkeepcache hnext, (hiff s action t hs hkeepcache hnext).mpr hcleared⟩

/-! ### A package that waits, and a removal -/

instance (s : State) : ∀ action, Decidable (KeepcacheOff s action)
  | .start keepcache _ => inferInstanceAs (Decidable (keepcache = false))
  | .transaction _ | .download _ _ | .doTransaction _ | .clean _ | .close _ | .unlink _ => isTrue trivial

def succeeds (items : List Item) : RpmRun items :=
  ⟨[], none, List.nil_subperm, fun _ _ herrors => by cases herrors⟩

def commit : Action := .doTransaction (.run ⟨true, false, fun _ => true⟩ succeeds)

def pepperRemoved : List Item := [⟨Transaction.Base.pepper.nevra, "@System", .remove, .user, .unknown, some Transaction.Base.pepper, none⟩]

/-- The download of the mill for an installation that is then refused. -/
def refusedRun : List Action :=
  [.start false false, .transaction millItems, .download {"mill.rpm"} {"mill.rpm"}, .doTransaction .refused, .close ∅]

def installRun : List Action :=
  [.start false false, .transaction millItems, .download {"mill.rpm"} {"mill.rpm"}, commit, .close ∅]

def removalRun : List Action := [.start false false, .transaction pepperRemoved, commit, .close ∅]

def groupRun : List Action := [.start false false, commit, .close ∅]

def nothing : State := { record := ∅, disk := ∅, recorded := ∅ }

theorem installed_isSome : (runs.exec KeepcacheOff nothing (refusedRun ++ installRun)).isSome = true := by decide +kernel

def installedEnd : State := (runs.exec KeepcacheOff nothing (refusedRun ++ installRun)).get installed_isSome

theorem forgetsNothing_iff_mill :
    runs.Always State.ForgetsNothing nothing (refusedRun ++ installRun) ↔ runs.Run Cleared nothing (refusedRun ++ installRun) installedEnd :=
  forgetsNothing_iff nothing installedEnd (refusedRun ++ installRun) ⟨rfl, rfl, rfl⟩ (System.run_of_exec (Option.some_get _).symm)

def State.forgets (s : State) : Bool := s.base.isNone && !decide (s.recorded ⊆ s.record) && !decide (s.downloaded ∩ s.disk ⊆ s.record)

theorem not_forgetsNothing_of_forgets (s : State) (h : s.forgets = true) : ¬s.ForgetsNothing := by
  rw [State.forgets, Bool.and_eq_true, Bool.and_eq_true, Bool.not_eq_true', decide_eq_false_iff_not] at h
  exact fun hforgets => h.1.2 hforgets.1

/-- A removal, or a commit of groups, empties the record, and the mill is still on disk. -/
theorem not_forgetsNothing :
    ((∃ s, runs.Run KeepcacheOff nothing (refusedRun ++ removalRun) s) ∧ ¬runs.Always State.ForgetsNothing nothing (refusedRun ++ removalRun)) ∧
      ((∃ s, runs.Run KeepcacheOff nothing (refusedRun ++ groupRun) s) ∧ ¬runs.Always State.ForgetsNothing nothing (refusedRun ++ groupRun)) := by
  refine ⟨?_, ?_⟩
  · exact System.not_always_of_exec not_forgetsNothing_of_forgets (by decide +kernel)
  · exact System.not_always_of_exec not_forgetsNothing_of_forgets (by decide +kernel)

end Dnf.Tempfiles
