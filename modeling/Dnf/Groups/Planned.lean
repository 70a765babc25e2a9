import Dnf.Foundation.Fallible
import Dnf.Groups.Jobs

/-!
# What group operations make of the goal

The jobs of a comps transaction are traced back to the group operations that were performed: what they pick is installed or upgraded, and what they drop is erased if it came with a group, no group has it any more, and nothing needs it.
-/

namespace Dnf.Groups

open History Foundation

namespace Installing

variable {inst : Installing} {sack query packages : List Transaction.Package} {Change : Type} {conf : KeptBack.Conf CompsJob Change}

/-! ### What is selected -/

theorem mem_notInstalled : packages ∈ notInstalled query ↔
    ∃ pkg ∈ query, pkg.installed = false ∧ (∀ old ∈ query, old.installed = true → nameArch old ≠ nameArch pkg) ∧
      packages = query.filter fun other => nameArch other == nameArch pkg && !other.installed := by
  have hkey : ∀ na, (!query.any fun pkg => pkg.installed && nameArch pkg == na) = true ↔ ∀ old ∈ query, old.installed = true → nameArch old ≠ na := by
    intro na
    rw [Bool.not_eq_true', List.any_eq_false]
    simp only [Bool.and_eq_true, beq_iff_eq, not_and, ne_eq]
  simp only [notInstalled, List.mem_map, List.mem_filter, List.mem_eraseDups, List.filter_filter, hkey, Bool.not_eq_true']
  constructor
  · rintro ⟨_, ⟨⟨pkg, ⟨hpkg, hnot⟩, rfl⟩, hkey⟩, rfl⟩
    exact ⟨pkg, hpkg, hnot, hkey, rfl⟩
  · rintro ⟨pkg, hpkg, hnot, hkey, rfl⟩
    exact ⟨_, ⟨⟨pkg, ⟨hpkg, hnot⟩, rfl⟩, hkey⟩, rfl⟩

theorem mem_withObsoleters {latest : List Transaction.Package} {pkg : Transaction.Package} :
    pkg ∈ inst.withObsoleters sack query latest ↔ pkg ∈ sack ∧ (pkg ∈ query ∨ ∃ old ∈ latest, inst.obsoletedBy old pkg = true) := by
  simp only [withObsoleters, List.mem_filter, Bool.or_eq_true, decide_eq_true_eq, List.any_eq_true]

/-- The jobs for an entry to install: a condition is left to the solver; with all architectures wanted, a job for each of them where the package is not installed; and otherwise one job. -/
inductive Asks (inst : Installing) (conf : KeptBack.Conf CompsJob Change) (entry : Entry) (strict : Bool) : CompsJob → Prop
  | conditional {requires : String} (hrequires : entry.requires.filter (· ≠ "") = some requires) :
      Asks inst conf entry strict (.install (.provides ("(" ++ entry.name ++ " if " ++ requires ++ ")")) !strict)
  | ofArch {pkg : Transaction.Package} (hrequires : entry.requires.filter (· ≠ "") = none) (hall : inst.multilibAll = true)
      (hpkg : pkg ∈ KeptBack.query conf entry) (havailable : pkg.installed = false)
      (hother : ∀ old ∈ KeptBack.query conf entry, old.installed = true → nameArch old ≠ nameArch pkg) :
      Asks inst conf entry strict (.install (.pkgs (inst.selectedOfArch conf.base.sack
        ((KeptBack.query conf entry).filter fun other => nameArch other == nameArch pkg && !other.installed))) !strict)
  | best (hrequires : entry.requires.filter (· ≠ "") = none) (hall : inst.multilibAll = false) :
      Asks inst conf entry strict (.install (.pkgs (inst.selected conf.base.sack (KeptBack.query conf entry))) !strict)

theorem mem_transInstall {entry : Entry} {strict : Bool} {job : CompsJob} :
    job ∈ inst.transInstall conf.base.sack (KeptBack.query conf entry) entry strict ↔ Asks inst conf entry strict job := by
  rw [transInstall]
  constructor
  · intro hjob
    cases hrequires : entry.requires.filter (· ≠ "") with
    | some requires =>
        rw [hrequires] at hjob
        rw [List.mem_singleton.mp hjob]
        exact .conditional hrequires
    | none =>
        rw [hrequires] at hjob
        dsimp only at hjob
        split_ifs at hjob with hall
        · obtain ⟨packages, hpackages, rfl⟩ := List.mem_map.mp hjob
          obtain ⟨pkg, hpkg, havailable, hother, rfl⟩ := mem_notInstalled.mp hpackages
          exact .ofArch hrequires hall hpkg havailable hother
        · rw [List.mem_singleton.mp hjob]
          exact .best hrequires (Bool.not_eq_true _ ▸ hall)
  · intro hasks
    cases hasks with
    | conditional hrequires => rw [hrequires]; exact List.mem_singleton_self _
    | ofArch hrequires hall hpkg havailable hother =>
        rw [hrequires]
        dsimp only
        rw [if_pos hall]
        exact List.mem_map.mpr ⟨_, mem_notInstalled.mpr ⟨_, hpkg, havailable, hother, rfl⟩, rfl⟩
    | best hrequires hall =>
        rw [hrequires, hall]
        exact List.mem_singleton_self _

/-- Only packages of the entry, and what obsoletes one of them, are selected. -/
theorem Asks.concerns {entry : Entry} {strict optional : Bool} {pkgs : List Transaction.Package}
    (h : Asks inst conf entry strict (.install (.pkgs pkgs) optional)) :
    ∀ pkg ∈ pkgs, pkg ∈ KeptBack.query conf entry ∨ (inst.obsoletes = true ∧ ∃ old ∈ KeptBack.query conf entry, inst.obsoletedBy old pkg = true) := by
  have hwith : ∀ query latest : List Transaction.Package, query ⊆ KeptBack.query conf entry → latest ⊆ KeptBack.query conf entry →
      ∀ pkg ∈ inst.withObsoleters conf.base.sack query latest,
        pkg ∈ KeptBack.query conf entry ∨ ∃ old ∈ KeptBack.query conf entry, inst.obsoletedBy old pkg = true := by
    intro query latest hquery hlatest pkg hpkg
    rcases (mem_withObsoleters.mp hpkg).2 with hpkg | ⟨old, hold, hobsoleted⟩
    · exact .inl (hquery hpkg)
    · exact .inr ⟨old, hlatest hold, hobsoleted⟩
  intro pkg hpkg
  cases h with
  | ofArch hrequires hall hof havailable hother =>
      rw [selectedOfArch] at hpkg
      split_ifs at hpkg with hobsoletes
      · exact (hwith _ _ (List.filter_subset_self _) (List.Subset.trans (inst.latest_subset _) (List.filter_subset_self _)) pkg hpkg).imp_right
          fun h => ⟨hobsoletes, h⟩
      · exact .inl (List.filter_subset_self _ hpkg)
  | best hrequires hall =>
      rw [selected] at hpkg
      split_ifs at hpkg with hobsoletes hinstalled
      · exact (hwith _ _ (List.Subset.refl _) (List.Subset.refl _) pkg hpkg).imp_right fun h => ⟨hobsoletes, h⟩
      · exact (hwith _ _ (List.Subset.refl _) (inst.latest_subset _) pkg hpkg).imp_right fun h => ⟨hobsoletes, h⟩
      · exact .inl hpkg

/-- Without a condition, every available package of the entry is selected, unless all architectures are wanted and it is installed for its own. -/
theorem Asks.covers (inst : Installing) (entry : Entry) (hrequires : entry.requires.filter (· ≠ "") = none) (strict : Bool) {pkg : Transaction.Package}
    (hpkg : pkg ∈ KeptBack.query conf entry) (havailable : pkg.installed = false) :
    (∃ pkgs, pkg ∈ pkgs ∧ Asks inst conf entry strict (.install (.pkgs pkgs) !strict)) ∨
      (inst.multilibAll = true ∧ ∃ old ∈ KeptBack.query conf entry, old.installed = true ∧ nameArch old = nameArch pkg) := by
  have hsack : pkg ∈ conf.base.sack := List.mem_of_mem_filter hpkg
  cases hall : inst.multilibAll with
  | false =>
      refine .inl ⟨_, ?_, .best hrequires hall⟩
      rw [selected]
      split_ifs
      · exact mem_withObsoleters.mpr ⟨hsack, .inl hpkg⟩
      · exact mem_withObsoleters.mpr ⟨hsack, .inl hpkg⟩
      · exact hpkg
  | true =>
      by_cases hother : ∃ old ∈ KeptBack.query conf entry, old.installed = true ∧ nameArch old = nameArch pkg
      · exact .inr ⟨rfl, hother⟩
      · refine .inl ⟨_, ?_, .ofArch hrequires hall hpkg havailable fun old hold hinstalled hsame => hother ⟨old, hold, hinstalled, hsame⟩⟩
        have hmem : pkg ∈ (KeptBack.query conf entry).filter fun other => nameArch other == nameArch pkg && !other.installed :=
          List.mem_filter.mpr ⟨hpkg, by rw [havailable, beq_self_eq_true]; rfl⟩
        rw [selectedOfArch]
        split_ifs
        · exact mem_withObsoleters.mpr ⟨hsack, .inl hmem⟩
        · exact hmem

theorem mem_compsJobs {trans : TransactionBunch} {job : CompsJob} : job ∈ inst.compsJobs conf trans ↔ ∃ entry, KeptBack.query conf entry ≠ [] ∧
    ((entry ∈ trans.install ∧ Asks inst conf entry true job) ∨ (entry ∈ trans.installOpt ∧ Asks inst conf entry false job) ∨
      (entry ∈ trans.upgrade ∧ job = .upgrade (.pkgs (KeptBack.query conf entry)))) := by
  have hloop : ∀ (entries : Finset Entry) (fn : List Transaction.Package → Entry → List CompsJob),
      job ∈ (inst.order entries).flatMap (entryJobs conf fn) ↔
        ∃ entry, KeptBack.query conf entry ≠ [] ∧ entry ∈ entries ∧ job ∈ fn (KeptBack.query conf entry) entry := by
    intro entries fn
    simp only [List.mem_flatMap, inst.mem_order, entryJobs, List.isEmpty_iff]
    refine exists_congr fun entry => ?_
    by_cases hnone : KeptBack.query conf entry = []
    · rw [if_pos hnone]
      exact iff_of_false (fun h => List.not_mem_nil h.2) fun h => h.1 hnone
    · rw [if_neg hnone]
      exact ⟨fun h => ⟨hnone, h⟩, fun h => h.2⟩
  rw [compsJobs, List.mem_append, List.mem_append, hloop, hloop, hloop, ← exists_or, ← exists_or]
  refine exists_congr fun entry => ?_
  rw [mem_transInstall, mem_transInstall, transUpgrade, List.mem_singleton, ← and_or_left, ← and_or_left, or_assoc]

end Installing

/-! ### What is erased -/

section Erased

variable {Other Change : Type} {conf : KeptBack.Conf Other Change}

theorem mem_removable {pending : Pending} {pkgs removable : List Transaction.Package} (h : KeptBack.removable conf pending pkgs = .ok removable)
    (pkg : Transaction.Package) : pkg ∈ removable ↔ pkg ∈ pkgs ∧ isRemovablePkg conf.swdb pending pkg.name = .ok true := by
  have hask : ∀ other answer, (isRemovablePkg conf.swdb pending other.name).map (fun answer => (other, answer)) = .ok (pkg, answer) ↔
      other = pkg ∧ isRemovablePkg conf.swdb pending pkg.name = .ok answer := by
    intro other answer
    constructor
    · intro h
      cases hanswer : isRemovablePkg conf.swdb pending other.name with
      | error e => rw [hanswer] at h; cases h
      | ok a =>
          rw [hanswer] at h
          cases h
          exact ⟨rfl, hanswer⟩
    · rintro ⟨rfl, hanswer⟩
      rw [hanswer]
      rfl
  rw [KeptBack.removable] at h
  cases hanswers : pkgs.mapM fun pkg => (isRemovablePkg conf.swdb pending pkg.name).map fun answer => (pkg, answer) with
  | error e => rw [hanswers] at h; cases h
  | ok answers =>
      rw [hanswers] at h
      cases h
      simp only [List.mem_map, List.mem_filter, Prod.exists, exists_and_right, exists_eq_right]
      constructor
      · intro hmem
        obtain ⟨other, hother, hanswer⟩ := (Fallible.mem_mapM_iff hanswers _).mp hmem
        obtain ⟨rfl, hanswer⟩ := (hask other _).mp hanswer
        exact ⟨hother, hanswer⟩
      · rintro ⟨hpkg, hanswer⟩
        exact (Fallible.mem_mapM_iff hanswers _).mpr ⟨pkg, hpkg, (hask pkg true).mpr ⟨rfl, hanswer⟩⟩

theorem removable_error {pending : Pending} {pkgs : List Transaction.Package} {e : KeyError} (h : KeptBack.removable conf pending pkgs = .error e) :
    ∃ pkg ∈ pkgs, isRemovablePkg conf.swdb pending pkg.name = .error e := by
  rw [KeptBack.removable] at h
  cases hanswers : pkgs.mapM fun pkg => (isRemovablePkg conf.swdb pending pkg.name).map fun answer => (pkg, answer) with
  | ok answers => rw [hanswers] at h; cases h
  | error e' =>
      rw [hanswers] at h
      cases h
      obtain ⟨pkg, hpkg, hasked⟩ := Fallible.exists_of_mapM_error hanswers
      refine ⟨pkg, hpkg, ?_⟩
      cases hanswer : isRemovablePkg conf.swdb pending pkg.name with
      | ok a => rw [hanswer] at hasked; cases hasked
      | error e' =>
          rw [hanswer] at hasked
          cases hasked
          rfl

theorem basearchonly_of_drops {codes : TypeCodes} {step : GroupStep} {pkg : CompsTransPkg} (h : pkg ∈ step.drops codes) : pkg.basearchonly = false := by
  cases step with
  | install group pkgTypes => exact absurd h (Finset.notMem_empty pkg)
  | upgrade record group =>
      obtain ⟨name, -, rfl⟩ := Finset.mem_image.mp h
      rfl
  | remove record removable =>
      obtain ⟨member, -, rfl⟩ := Finset.mem_image.mp h
      rfl

/-- An installed package of a name that an operation drops, unless an upgrade renews just this. -/
structure Dropped (conf : KeptBack.Conf Other Change) (codes : TypeCodes) (steps : List GroupStep) (pkg : Transaction.Package) : Prop where
  installed : pkg ∈ conf.base.sack ∧ pkg.installed = true
  binary : pkg.nevra.arch ≠ "src" ∧ pkg.nevra.arch ≠ "nosrc"
  dropped : ∃ step ∈ steps, ∃ old ∈ step.drops codes, old.name = pkg.name ∧ ¬∃ renewing ∈ steps, renewing.Renews codes old

theorem mem_removeQuery {codes : TypeCodes} {trans : TransactionBunch} (h : Explained codes trans) {pkg : Transaction.Package} :
    pkg ∈ KeptBack.removeQuery conf trans ↔ Dropped conf codes trans.steps pkg := by
  have hquery : ∀ old : CompsTransPkg, old.basearchonly = false →
      (pkg ∈ KeptBack.query conf (.trans old) ↔ pkg ∈ conf.base.sack ∧ old.name = pkg.name ∧ pkg.nevra.arch ≠ "src" ∧ pkg.nevra.arch ≠ "nosrc") := by
    intro old hold
    simp only [KeptBack.query, KeptBack.basearchonly, hold, Entry.name, List.mem_filter, Bool.and_eq_true, Bool.or_eq_true, Bool.not_false, true_or,
      decide_eq_true_eq, and_true, and_assoc]
    exact and_congr_right fun _ => and_congr_left fun _ => decide_eq_true_iff.trans eq_comm
  simp only [KeptBack.removeQuery, List.mem_filter, Bool.and_eq_true, decide_eq_true_eq, h.remove]
  constructor
  · rintro ⟨hsack, hinstalled, _, ⟨⟨step, hstep, old, hold, rfl⟩, hnot⟩, hmem⟩
    obtain ⟨-, hname, hbinary⟩ := (hquery old (basearchonly_of_drops hold)).mp hmem
    simp only [GroupStep.trans_mem_entries] at hnot
    exact ⟨⟨hsack, hinstalled⟩, hbinary, step, hstep, old, hold, hname, hnot⟩
  · rintro ⟨⟨hsack, hinstalled⟩, hbinary, step, hstep, old, hold, hname, hnot⟩
    refine ⟨hsack, hinstalled, .trans old, ⟨⟨step, hstep, old, hold, rfl⟩, ?_⟩, (hquery old (basearchonly_of_drops hold)).mpr ⟨hsack, hname, hbinary⟩⟩
    simpa only [GroupStep.trans_mem_entries] using hnot

/-! ### The whole plan -/

/-- `erased` are the dropped packages that came with a group, that no group has any more and that nothing needs; of those that are needed, `dependent`, the reason changes. -/
structure Erases (conf : KeptBack.Conf Other Change) (pending : Pending) (dropped : Transaction.Package → Prop) (safe : List Transaction.Package)
    (erased dependent : List Transaction.Package) : Prop where
  erased : ∀ pkg, pkg ∈ erased ↔ dropped pkg ∧ isRemovablePkg conf.swdb pending pkg.name = .ok true ∧ pkg ∈ safe
  dependent : ∀ pkg, pkg ∈ dependent ↔ dropped pkg ∧ isRemovablePkg conf.swdb pending pkg.name = .ok true ∧ pkg ∉ safe

theorem removeIfUnneeded_ok {pkgs : List Transaction.Package} {s t : Shell.Session (KeptBack.Job Other) Change}
    (h : KeptBack.removeIfUnneeded conf pkgs s = .ok t) : ∃ erased dependent,
      Erases conf s.history.group (· ∈ pkgs) (conf.safeToRemove pkgs) erased dependent ∧
      t = { s with
        goal := s.goal ++ erased.map fun pkg => .erase pkg conf.cleanRequirementsOnRemove
        rpm := dependent.foldl (fun items pkg => Effect.final (Transaction.setReason conf.base.swdb pkg .dependency items)) s.rpm } := by
  rw [KeptBack.removeIfUnneeded] at h
  split_ifs at h with hnone
  · cases h
    refine ⟨[], [], ⟨fun pkg => ?_, fun pkg => ?_⟩, by rw [List.map_nil, List.append_nil, List.foldl_nil]⟩ <;>
    · rw [List.isEmpty_iff.mp hnone]
      exact iff_of_false List.not_mem_nil fun h => List.not_mem_nil h.1
  · cases hremovable : KeptBack.removable conf s.history.group pkgs with
    | error e => rw [hremovable] at h; cases h
    | ok removable =>
        rw [hremovable] at h
        cases h
        refine ⟨_, _, ⟨fun pkg => ?_, fun pkg => ?_⟩, rfl⟩
        · simp only [List.mem_filter, decide_eq_true_eq, mem_removable hremovable]
          tauto
        · simp only [List.mem_filter, decide_eq_true_eq, mem_removable hremovable, and_assoc]

theorem removeIfUnneeded_error {pkgs : List Transaction.Package} {s : Shell.Session (KeptBack.Job Other) Change} {e : KeptBack.Exc}
    (h : KeptBack.removeIfUnneeded conf pkgs s = .error e) :
    ∃ pkg ∈ pkgs, ∃ key, isRemovablePkg conf.swdb s.history.group pkg.name = .error ⟨key⟩ ∧ e = .keyError key := by
  rw [KeptBack.removeIfUnneeded] at h
  split_ifs at h
  cases hremovable : KeptBack.removable conf s.history.group pkgs with
  | ok removable => rw [hremovable] at h; cases h
  | error key =>
      rw [hremovable] at h
      cases h
      obtain ⟨pkg, hpkg, hanswer⟩ := removable_error hremovable
      exact ⟨pkg, hpkg, key.key, hanswer, rfl⟩

end Erased

section Plan

variable (inst : Installing) {Change : Type} (conf : KeptBack.Conf CompsJob Change) (codes : TypeCodes)

/-- `jobs` upgrade or install each picked package that the sack has, and nothing else but what obsoletes it. -/
structure Fulfils (steps : List GroupStep) (jobs : List CompsJob) : Prop where
  only : ∀ job ∈ jobs, ∃ step ∈ steps, ∃ pkg ∈ step.picks codes, KeptBack.query conf (.raw pkg) ≠ [] ∧
    (job = .upgrade (.pkgs (KeptBack.query conf (.raw pkg))) ∨ ∃ strict, Installing.Asks inst conf (.raw pkg) strict job)
  all : ∀ step ∈ steps, ∀ pkg ∈ step.picks codes, KeptBack.query conf (.raw pkg) ≠ [] →
    .upgrade (.pkgs (KeptBack.query conf (.raw pkg))) ∈ jobs ∨ ∃ strict, ∀ job, Installing.Asks inst conf (.raw pkg) strict job → job ∈ jobs
  concerns : ∀ pkgs optional, .install (.pkgs pkgs) optional ∈ jobs → ∃ step ∈ steps, ∃ pkg ∈ step.picks codes, ∀ new ∈ pkgs,
    new ∈ KeptBack.query conf (.raw pkg) ∨ (inst.obsoletes = true ∧ ∃ old ∈ KeptBack.query conf (.raw pkg), inst.obsoletedBy old new = true)
  covers : ∀ step ∈ steps, ∀ pkg ∈ step.picks codes, pkg.requires.filter (· ≠ "") = none → ∀ new ∈ KeptBack.query conf (.raw pkg), new.installed = false →
    (∃ pkgs, new ∈ pkgs ∧ (.upgrade (.pkgs pkgs) ∈ jobs ∨ ∃ optional, .install (.pkgs pkgs) optional ∈ jobs)) ∨
      (inst.multilibAll = true ∧ ∃ old ∈ KeptBack.query conf (.raw pkg), old.installed = true ∧ Installing.nameArch old = Installing.nameArch new)

/-- An entry is the picked package or has what `CompsTransPkg` keeps of it. -/
def Represents (entry : Entry) (pkg : Package) : Prop := entry = .raw pkg ∨ entry = .trans (.ofComps codes pkg)

variable {inst conf codes} {entry : Entry} {pkg : Package} {steps : List GroupStep} {trans : TransactionBunch}

theorem exists_picked {step : GroupStep} (h : entry ∈ step.entries codes) : ∃ pkg ∈ step.picks codes, Represents codes entry pkg := by
  cases step with
  | install group pkgTypes =>
      obtain ⟨pkg, hpkg, rfl⟩ := Finset.mem_image.mp h
      exact ⟨pkg, hpkg, .inl rfl⟩
  | upgrade record group =>
      obtain ⟨pkg, hpkg, rfl⟩ := Finset.mem_image.mp h
      exact ⟨pkg, hpkg, .inr rfl⟩
  | remove record removable => exact absurd h (Finset.notMem_empty entry)

theorem exists_representing {step : GroupStep} (h : pkg ∈ step.picks codes) : ∃ entry ∈ step.entries codes, Represents codes entry pkg := by
  cases step with
  | install group pkgTypes => exact ⟨_, Finset.mem_image_of_mem _ h, .inl rfl⟩
  | upgrade record group => exact ⟨_, Finset.mem_image_of_mem _ h, .inr rfl⟩
  | remove record removable => exact absurd h (Finset.notMem_empty pkg)

theorem Represents.query (h : Represents codes entry pkg) : KeptBack.query conf entry = KeptBack.query conf (.raw pkg) := by
  rcases h with rfl | rfl <;> rfl

theorem Represents.asks (h : Represents codes entry pkg) {strict : Bool} {job : CompsJob} :
    Installing.Asks inst conf entry strict job ↔ Installing.Asks inst conf (.raw pkg) strict job := by
  rw [← Installing.mem_transInstall, ← Installing.mem_transInstall]
  rcases h with rfl | rfl <;> exact Iff.rfl

theorem only_compsJobs (h : Explained codes trans) {job : CompsJob} (hjob : job ∈ inst.compsJobs conf trans) :
    ∃ step ∈ trans.steps, ∃ pkg ∈ step.picks codes, KeptBack.query conf (.raw pkg) ≠ [] ∧
      (job = .upgrade (.pkgs (KeptBack.query conf (.raw pkg))) ∨ ∃ strict, Installing.Asks inst conf (.raw pkg) strict job) := by
  obtain ⟨entry, hsome, hentry⟩ := Installing.mem_compsJobs.mp hjob
  have hforward : entry ∈ trans.forward := by
    rw [TransactionBunch.forward, Finset.mem_union, Finset.mem_union, or_assoc]
    exact hentry.imp And.left (Or.imp And.left And.left)
  obtain ⟨step, hstep, hin⟩ := (h.forward entry).mp hforward
  obtain ⟨pkg, hpkg, hrepresents⟩ := exists_picked hin
  rw [hrepresents.query] at hsome hentry
  refine ⟨step, hstep, pkg, hpkg, hsome, ?_⟩
  rcases hentry with ⟨-, hasks⟩ | ⟨-, hasks⟩ | ⟨-, rfl⟩
  · exact .inr ⟨true, hrepresents.asks.mp hasks⟩
  · exact .inr ⟨false, hrepresents.asks.mp hasks⟩
  · exact .inl rfl

theorem all_compsJobs (inst : Installing) (h : Explained codes trans) {step : GroupStep} (hstep : step ∈ trans.steps) (hpkg : pkg ∈ step.picks codes)
    (hsome : KeptBack.query conf (.raw pkg) ≠ []) :
    .upgrade (.pkgs (KeptBack.query conf (.raw pkg))) ∈ inst.compsJobs conf trans ∨
      ∃ strict, ∀ job, Installing.Asks inst conf (.raw pkg) strict job → job ∈ inst.compsJobs conf trans := by
  obtain ⟨entry, hin, hrepresents⟩ := exists_representing hpkg
  have hentry : KeptBack.query conf entry ≠ [] := by rwa [hrepresents.query]
  have hforward := (h.forward entry).mpr ⟨step, hstep, hin⟩
  rw [TransactionBunch.forward, Finset.mem_union, Finset.mem_union, or_assoc] at hforward
  rcases hforward with hinstall | hinstallOpt | hupgrade
  · exact .inr ⟨true, fun job hasks => Installing.mem_compsJobs.mpr ⟨entry, hentry, .inl ⟨hinstall, hrepresents.asks.mpr hasks⟩⟩⟩
  · exact .inr ⟨false, fun job hasks => Installing.mem_compsJobs.mpr ⟨entry, hentry, .inr (.inl ⟨hinstallOpt, hrepresents.asks.mpr hasks⟩)⟩⟩
  · exact .inl (Installing.mem_compsJobs.mpr ⟨entry, hentry, .inr (.inr ⟨hupgrade, by rw [hrepresents.query]⟩)⟩)

theorem fulfils_compsJobs (h : Explained codes trans) : Fulfils inst conf codes trans.steps (inst.compsJobs conf trans) where
  only _ hjob := only_compsJobs h hjob
  all _ hstep _ hpkg hsome := all_compsJobs inst h hstep hpkg hsome
  concerns pkgs optional hjob := by
    obtain ⟨step, hstep, pkg, hpkg, -, hupgrade | ⟨strict, hasks⟩⟩ := only_compsJobs h hjob
    · cases hupgrade
    · exact ⟨step, hstep, pkg, hpkg, hasks.concerns⟩
  covers step hstep pkg hpkg hrequires new hnew havailable := by
    rcases all_compsJobs inst h hstep hpkg (List.ne_nil_of_mem hnew) with hupgrade | ⟨strict, hasks⟩
    · exact .inl ⟨_, hnew, .inl hupgrade⟩
    · exact (Installing.Asks.covers inst (.raw pkg) hrequires strict hnew havailable).imp_left
        fun ⟨pkgs, hin, hjob⟩ => ⟨pkgs, hin, .inr ⟨!strict, hasks _ hjob⟩⟩

/-- What is erased is not picked as well, if the operations are compatible. -/
theorem not_picked_of_dropped (hcompatible : Compatible codes trans.steps) {old : Transaction.Package}
    (hdropped : Dropped conf codes trans.steps old) : ∀ step ∈ trans.steps, ∀ pkg ∈ step.picks codes, pkg.name ≠ old.name := by
  intro step hstep pkg hpkg hname
  obtain ⟨dropping, hdropping, dropped, hin, hdropped, hnot⟩ := hdropped.dropped
  exact hnot (hcompatible dropping hdropping dropped hin ⟨step, hstep, pkg, hpkg, hname.trans hdropped.symm⟩)

/-- The session when all operations were performed. -/
def afterOperations (s : Shell.Session (KeptBack.Job CompsJob) Change) (run : State) : Shell.Session (KeptBack.Job CompsJob) Change :=
  { s with compsTrans := run.compsTrans, history := run.history }

end Plan

end Dnf.Groups
