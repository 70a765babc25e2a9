import Dnf.Marking.Requests

/-!
# What the requests mark

Each request is either refused, which depends on the sack only, or adds its own jobs and no others. The security filters mean the same before and after, so the jobs of a run do not depend on the order of its requests.
-/

namespace Dnf.Marking

open Foundation Foundation.Effect
open Transaction (Package)
open Groups (Installing)

/-! ### Jobs in loops -/

section Loops

variable {α : Type}

theorem forM_addJob (jobOf : α → Job) (items : List α) (s : State) :
    (items.forM fun a => addJob (jobOf a)) s = .ok ⟨⟩ { s with jobs := s.jobs ++ items.map jobOf } := by
  induction items generalizing s with
  | nil =>
      rw [List.map_nil, List.append_nil]
      rfl
  | cons a items ih =>
      show (items.forM fun a => addJob (jobOf a)) { s with jobs := s.jobs ++ [jobOf a] } = _
      rw [ih, List.append_assoc, List.map_cons, List.singleton_append]

theorem mem_jobs (jobOf : α → Job) (items : List α) (job : Job) : job ∈ items.map jobOf ↔ ∃ a ∈ items, job = jobOf a := by
  rw [List.mem_map]
  exact exists_congr fun a => and_congr_right fun _ => eq_comm

/-- A loop that counts and adds at most one job in each turn. -/
theorem foldlM_addJob {turn : Nat → α → Prog Nat} {next : Nat → α → Nat} {jobOf : α → Option Job}
    (hturn : ∀ n a s, turn n a s = .ok (next n a) { s with jobs := s.jobs ++ (jobOf a).toList }) (items : List α) (n : Nat) (s : State) :
    items.foldlM turn n s = .ok (items.foldl next n) { s with jobs := s.jobs ++ items.filterMap jobOf } := by
  induction items generalizing n s with
  | nil =>
      rw [List.filterMap_nil, List.append_nil]
      rfl
  | cons a items ih =>
      rw [List.foldlM_cons, bind_apply, hturn]
      dsimp only
      rw [ih, List.foldl_cons, List.append_assoc]
      cases hjob : jobOf a with
      | none => rw [List.filterMap_cons_none hjob, Option.toList_none, List.nil_append]
      | some job => rw [List.filterMap_cons_some hjob, Option.toList_some, List.singleton_append]

end Loops

namespace Base

variable (base : Base)

/-! ### What a request stands for -/

/-- Without filters nothing is filtered; otherwise a filter has the package or an advisory of the options is for it. -/
def Covered (s : State) (q : List Package) (pkg : Package) : Prop :=
  (s.options = [] ∧ s.filters = []) ∨ (∃ query ∈ s.filters, pkg ∈ query) ∨
    ∃ option ∈ s.options, pkg ∈ base.advised (option.1 ++ "__upgrade") option.2 q

instance (s : State) (q : List Package) (pkg : Package) : Decidable (base.Covered s q pkg) := by
  unfold Covered
  infer_instance

/-- The covered packages of a query, and the latest installed packages of their names. -/
def selection (s : State) (q : List Package) : List Package :=
  let covered := q.filter fun pkg => base.Covered s q pkg
  base.query fun pkg => pkg ∈ covered || (pkg ∈ base.latest base.installed && decide (pkg.name ∈ covered.map (·.name)))

/-- The query of an upgrade request for a spec. -/
def specQuery (pkgSpec : String) (reponame : Option String) : List Package :=
  let solution := base.solve true pkgSpec
  base.upgradeQuery solution.query (base.installing.obsoletes && solution.nevra.any NevraForm.justName) reponame

def UpgradeMarks (s : State) (q : List Package) (job : Job) : Prop := (∃ pkg ∈ q, base.Covered s q pkg) ∧ job = .upgrade (base.selection s q)

def installQuery (pkgSpec : String) (reponame : Option String) : List Package :=
  (base.solve false pkgSpec).query.filter fun pkg => reponame.all (pkg.reponame == ·)

def everyArch (pkgSpec : String) : Bool := base.installing.multilibAll || (base.solve false pkgSpec).archSpecified

def reinstallJob (available : List Package) (removeNa : Bool) (old : Package) : Option Job :=
  match available.filter fun pkg => pkg.nevra.text == old.nevra.text with
  | [] => if removeNa then some (.erase old base.cleanDeps) else none
  | pkg :: pkgs => some (.install (pkg :: pkgs) none !base.strict)

def reinstallJobs (pkgSpec : String) (oldReponame newReponame newReponameNeq : Option String) (removeNa : Bool) : List Job :=
  let q := (base.solve true pkgSpec).query
  (base.installedFrom q oldReponame).filterMap (base.reinstallJob
    (q.filter fun pkg => !pkg.installed && newReponame.all (pkg.reponame == ·) && newReponameNeq.all (pkg.reponame != ·)) removeNa)

def downgradeJob (available : List Package) (strict : Bool) (pkgName : String) : Option Job :=
  match available.filter fun pkg => base.isDowngrade pkg && pkg.name == pkgName with
  | [] => none
  | pkg :: pkgs => some (.install (pkg :: pkgs) none !strict)

def available (pkgSpec : String) : List Package := (base.solve true pkgSpec).query.filter fun pkg => !pkg.installed

def downgradable (pkgSpec : String) : List Package := base.installed.filter fun pkg => pkg.name ∈ (base.available pkgSpec).map (·.name)

/-- The packages that `autoremove` removes. -/
def leaves : List Package :=
  let protected' := base.installed.filter fun pkg => pkg.name ∈ base.protectedPackages
  if protected'.any (· ∈ base.unneeded) then base.unneededExtra protected' else base.unneeded

def Refused : Request → Prop
  | .install pkgSpec reponame _ => if base.everyArch pkgSpec then base.installQuery pkgSpec reponame = [] else base.selectors pkgSpec reponame = []
  | .upgrade pkgSpec _ => (base.solve true pkgSpec).query = [] ∨ base.upgradable pkgSpec (base.solve true pkgSpec) = false
  | .upgradeAll _ => False
  | .distroSync _ => False
  | .remove pkgSpec reponame => base.installedFrom (base.solve true pkgSpec).query reponame = []
  | .reinstall pkgSpec oldReponame newReponame newReponameNeq removeNa =>
      base.reinstallJobs pkgSpec oldReponame newReponame newReponameNeq removeNa = []
  | .downgradeTo pkgSpec _ => base.downgradable pkgSpec = []
  | .autoremove => False

/-- The jobs of a request that is not refused. -/
def Marks (s : State) (job : Job) : Request → Prop
  | .install pkgSpec reponame strict =>
      if base.everyArch pkgSpec then
        ∃ packages ∈ Installing.notInstalled (base.installQuery pkgSpec reponame),
          job = .install (base.installing.selectedOfArch base.sack packages) reponame !strict
      else ∃ sltr ∈ base.selectors pkgSpec reponame, job = .install sltr none !strict
  | .upgrade pkgSpec reponame => base.UpgradeMarks s (base.specQuery pkgSpec reponame) job
  | .upgradeAll reponame => base.UpgradeMarks s (base.upgradeQuery base.sack base.installing.obsoletes reponame) job
  | .distroSync none => job = .distupgradeAll
  | .distroSync (some pkgSpec) => ∃ sltr ∈ base.syncSelectors pkgSpec, job = .distupgrade sltr
  | .remove pkgSpec reponame => ∃ pkg ∈ base.installedFrom (base.solve true pkgSpec).query reponame, job = .erase pkg base.cleanDeps
  | .reinstall pkgSpec oldReponame newReponame newReponameNeq removeNa =>
      job ∈ base.reinstallJobs pkgSpec oldReponame newReponame newReponameNeq removeNa
  | .downgradeTo pkgSpec strict => ∃ pkg ∈ base.downgradable pkgSpec, base.downgradeJob (base.available pkgSpec) strict pkg.name = some job
  | .autoremove => ∃ pkg ∈ base.leaves, job = .erase pkg false

/-- The query of an upgrade request. -/
def queryOf : Request → Option (List Package)
  | .upgrade pkgSpec reponame => some (base.specQuery pkgSpec reponame)
  | .upgradeAll reponame => some (base.upgradeQuery base.sack base.installing.obsoletes reponame)
  | _ => none

/-- The filters let the same packages of the sack through. -/
structure SameFilters (s t : State) : Prop where
  options : t.options = s.options
  none : t.filters = [] ↔ s.filters = []
  some : ∀ pkg ∈ base.sack, (∃ query ∈ t.filters, pkg ∈ query) ↔ ∃ query ∈ s.filters, pkg ∈ query

/-- A request is refused, or it adds exactly its jobs; the filters mean the same afterwards. -/
def Outcome (s : State) (refused : Prop) (marks : Job → Prop) : EStateM.Result Exc State Nat → Prop
  | .ok _ t => ¬refused ∧ base.SameFilters s t ∧ ∃ added, t.jobs = s.jobs ++ added ∧ ∀ job, job ∈ added ↔ marks job
  | .error _ t => refused ∧ base.SameFilters s t ∧ t.jobs = s.jobs

variable {base} {s t u : State}

/-! ### The filters -/

namespace SameFilters

theorem refl (s : State) : base.SameFilters s s := ⟨rfl, Iff.rfl, fun _ _ => Iff.rfl⟩

theorem trans (hst : base.SameFilters s t) (htu : base.SameFilters t u) : base.SameFilters s u :=
  ⟨htu.options.trans hst.options, htu.none.trans hst.none, fun pkg hpkg => (htu.some pkg hpkg).trans (hst.some pkg hpkg)⟩

theorem jobs (s : State) (jobs : List Job) : base.SameFilters s { s with jobs } := ⟨rfl, Iff.rfl, fun _ _ => Iff.rfl⟩

theorem covered (h : base.SameFilters s t) {q : List Package} {pkg : Package} (hpkg : pkg ∈ base.sack) : base.Covered t q pkg ↔ base.Covered s q pkg := by
  rw [Covered, Covered, h.options, h.none, h.some pkg hpkg]

theorem selection (h : base.SameFilters s t) {q : List Package} (hq : q ⊆ base.sack) : base.selection t q = base.selection s q := by
  have hcovered : (q.filter fun pkg => base.Covered t q pkg) = q.filter fun pkg => base.Covered s q pkg :=
    List.filter_congr fun pkg hpkg => decide_eq_decide.mpr (h.covered (hq hpkg))
  rw [Base.selection, Base.selection, hcovered]

theorem upgradeMarks (h : base.SameFilters s t) {q : List Package} (hq : q ⊆ base.sack) {job : Job} :
    base.UpgradeMarks t q job ↔ base.UpgradeMarks s q job := by
  rw [UpgradeMarks, UpgradeMarks, h.selection hq]
  exact and_congr_left fun _ => exists_congr fun pkg => and_congr_right fun hpkg => h.covered (hq hpkg)

end SameFilters

theorem upgradeQuery_subset {query : List Package} (hquery : query ⊆ base.sack) (obsoletes : Bool) (reponame : Option String) :
    base.upgradeQuery query obsoletes reponame ⊆ base.sack := by
  rw [upgradeQuery]
  refine List.Subset.trans (List.filter_subset_self _) ?_
  split
  · exact List.filter_subset_self _
  · exact hquery

theorem specQuery_subset (pkgSpec : String) (reponame : Option String) : base.specQuery pkgSpec reponame ⊆ base.sack :=
  upgradeQuery_subset (base.solve_subset true pkgSpec) _ _

/-- What the jobs of a request are does not depend on how the filters are kept. -/
theorem SameFilters.marks (h : base.SameFilters s t) (job : Job) (request : Request) : base.Marks t job request ↔ base.Marks s job request := by
  cases request with
  | upgrade pkgSpec reponame => exact h.upgradeMarks (specQuery_subset pkgSpec reponame)
  | upgradeAll reponame => exact h.upgradeMarks (upgradeQuery_subset (List.Subset.refl _) _ _)
  | distroSync pkgSpec => cases pkgSpec <;> exact Iff.rfl
  | _ => exact Iff.rfl

theorem mergeUpdateFilters_spec (q : List Package) (hq : q ⊆ base.sack) (s : State) :
    ∃ t, base.mergeUpdateFilters q s = .ok (q.filter fun pkg => base.Covered s q pkg) t ∧ base.SameFilters s t ∧ t.jobs = s.jobs := by
  have hrun : base.mergeUpdateFilters q s = (if (s.options = [] ∧ s.filters = []) ∨ q = [] then (.ok q s : EStateM.Result Exc State (List Package))
      else .ok (q.filter fun pkg => pkg ∈ base.query (fun pkg => s.filters.any fun query => pkg ∈ query) ||
          s.options.any fun option => pkg ∈ base.advised (option.1 ++ "__upgrade") option.2 q)
        { s with filters := if s.filters = [] then s.filters else [base.query fun pkg => s.filters.any fun query => pkg ∈ query] }) := by
    rw [mergeUpdateFilters, bind_apply, get_apply]
    dsimp only
    split_ifs <;> rfl
  rw [hrun]
  split_ifs with hnone hfilters
  · refine ⟨s, ?_, .refl s, rfl⟩
    rw [List.filter_eq_self.mpr]
    intro pkg hpkg
    exact decide_eq_true (.inl (hnone.resolve_right (List.ne_nil_of_mem hpkg)))
  all_goals
    rw [not_or] at hnone
    have hfilter : (q.filter fun pkg => pkg ∈ base.query (fun pkg => s.filters.any fun query => pkg ∈ query) ||
        s.options.any fun option => pkg ∈ base.advised (option.1 ++ "__upgrade") option.2 q) = q.filter fun pkg => base.Covered s q pkg := by
      refine List.filter_congr fun pkg hpkg => ?_
      rw [Bool.eq_iff_iff]
      simp only [Bool.or_eq_true, decide_eq_true_eq, List.any_eq_true, query, List.mem_filter, hq hpkg, true_and, Covered, hnone.1, false_or]
    rw [hfilter]
  · exact ⟨_, rfl, ⟨rfl, Iff.rfl, fun _ _ => Iff.rfl⟩, rfl⟩
  · refine ⟨_, rfl, ⟨rfl, iff_of_false (List.cons_ne_nil _ _) hfilters, fun pkg hpkg => ?_⟩, rfl⟩
    simp only [List.mem_singleton, exists_eq_left, query, List.mem_filter, hpkg, true_and, List.any_eq_true, decide_eq_true_eq]

/-! ### The requests -/

theorem upgradeInternal_outcome {query : List Package} (hquery : query ⊆ base.sack) (obsoletes : Bool) (reponame : Option String) (s : State) :
    base.Outcome s False (base.UpgradeMarks s (base.upgradeQuery query obsoletes reponame)) (base.upgradeInternal query obsoletes reponame s) := by
  obtain ⟨t, hmerge, hsame, hjobs⟩ := mergeUpdateFilters_spec _ (upgradeQuery_subset hquery obsoletes reponame) s
  rw [upgradeInternal, bind_apply, hmerge]
  dsimp only
  split_ifs with hnone
  · refine ⟨not_false, hsame, [], by rw [hjobs, List.append_nil], fun job => iff_of_false List.not_mem_nil ?_⟩
    rintro ⟨⟨pkg, hpkg, hcovered⟩, -⟩
    exact List.ne_nil_of_mem (List.mem_filter.mpr ⟨hpkg, decide_eq_true hcovered⟩) (List.isEmpty_iff.mp hnone)
  · obtain ⟨pkg, hpkg⟩ := List.exists_mem_of_ne_nil _ fun h => hnone (List.isEmpty_iff.mpr h)
    obtain ⟨hpkg, hcovered⟩ := List.mem_filter.mp hpkg
    refine ⟨not_false, hsame.trans (.jobs t _), _, congrArg (· ++ _) hjobs, fun job => ?_⟩
    have hselection : (base.query fun pkg =>
        pkg ∈ (base.upgradeQuery query obsoletes reponame).filter (fun pkg => base.Covered s (base.upgradeQuery query obsoletes reponame) pkg) ||
        pkg ∈ (base.latest base.installed).filter fun pkg => pkg.name ∈
          ((base.upgradeQuery query obsoletes reponame).filter fun pkg => base.Covered s (base.upgradeQuery query obsoletes reponame) pkg).map (·.name)) =
        base.selection s (base.upgradeQuery query obsoletes reponame) := by
      refine List.filter_congr fun pkg _ => ?_
      simp only [List.mem_filter, Bool.decide_and, Bool.decide_eq_true]
    rw [hselection, List.mem_singleton, UpgradeMarks]
    exact (and_iff_right ⟨pkg, hpkg, of_decide_eq_true hcovered⟩).symm

theorem outcome_of_jobs {refused : Prop} {marks : Job → Prop} (hrefused : ¬refused) {n : Nat} {jobs : List Job} (hjobs : ∀ job, job ∈ jobs ↔ marks job)
    (s : State) : base.Outcome s refused marks (.ok n { s with jobs := s.jobs ++ jobs }) := ⟨hrefused, .jobs s _, jobs, rfl, hjobs⟩

theorem outcome_of_error {refused : Prop} (marks : Job → Prop) (hrefused : refused) (e : Exc) (s : State) :
    base.Outcome s refused marks (.error e s) := ⟨hrefused, .refl s, rfl⟩

theorem upgrade_outcome (pkgSpec : String) (reponame : Option String) (s : State) :
    base.Outcome s (base.Refused (.upgrade pkgSpec reponame)) (base.Marks s · (.upgrade pkgSpec reponame)) (base.upgrade pkgSpec reponame s) := by
  rw [upgrade]
  by_cases hnone : (base.solve true pkgSpec).query.isEmpty = true
  · rw [if_pos hnone]
    exact outcome_of_error _ (.inl (List.isEmpty_iff.mp hnone)) _ s
  · rw [if_neg hnone]
    cases hupgradable : base.upgradable pkgSpec (base.solve true pkgSpec) with
    | false => exact outcome_of_error _ (.inr hupgradable) _ s
    | true =>
        have hrefused : base.Refused (.upgrade pkgSpec reponame) ↔ False := by
          rw [Refused, hupgradable, List.isEmpty_iff.symm]
          exact iff_of_false (by simpa using hnone) not_false
        rw [if_pos rfl, hrefused]
        exact upgradeInternal_outcome (base.solve_subset true pkgSpec) _ reponame s

theorem raisePackageNotFoundError_outcome {refused : Prop} (marks : Job → Prop) (hrefused : refused) (pkgSpec : String) (reponame : Option String) (s : State) :
    base.Outcome s refused marks (base.raisePackageNotFoundError pkgSpec reponame s) := by
  rw [raisePackageNotFoundError]
  split_ifs <;> exact outcome_of_error marks hrefused _ s

theorem raisePackageNotInstalledError_outcome {refused : Prop} (marks : Job → Prop) (hrefused : refused) (pkgSpec : String) (reponame : Option String)
    (s : State) : base.Outcome s refused marks (base.raisePackageNotInstalledError pkgSpec reponame s) := by
  rw [raisePackageNotInstalledError]
  split_ifs <;> exact outcome_of_error marks hrefused _ s

theorem install_outcome (pkgSpec : String) (reponame : Option String) (strict : Bool) (s : State) :
    base.Outcome s (base.Refused (.install pkgSpec reponame strict)) (base.Marks s · (.install pkgSpec reponame strict))
      (base.install pkgSpec reponame strict s) := by
  rw [install]
  simp only [Refused, Marks]
  by_cases hall : base.everyArch pkgSpec = true
  · rw [everyArch] at hall
    rw [if_pos hall, everyArch, if_pos hall]
    simp only [if_pos hall]
    by_cases hnone : (base.installQuery pkgSpec reponame).isEmpty = true
    · rw [installQuery] at hnone
      rw [if_pos hnone]
      exact raisePackageNotFoundError_outcome _ (List.isEmpty_iff.mp hnone) pkgSpec reponame s
    · rw [installQuery] at hnone
      rw [if_neg hnone, installMultiarch]
      rw [bind_apply, forM_addJob]
      exact outcome_of_jobs (fun h => hnone (List.isEmpty_iff.mpr h)) (mem_jobs _ _) s
  · rw [everyArch] at hall
    rw [if_neg hall, everyArch, if_neg hall]
    simp only [if_neg hall]
    by_cases hnone : (base.selectors pkgSpec reponame).isEmpty = true
    · rw [if_pos hnone]
      exact raisePackageNotFoundError_outcome _ (List.isEmpty_iff.mp hnone) pkgSpec reponame s
    · rw [if_neg hnone, bind_apply, forM_addJob]
      exact outcome_of_jobs (fun h => hnone (List.isEmpty_iff.mpr h)) (mem_jobs _ _) s

theorem distroSync_outcome (pkgSpec : Option String) (s : State) :
    base.Outcome s (base.Refused (.distroSync pkgSpec)) (base.Marks s · (.distroSync pkgSpec)) (base.distroSync pkgSpec s) := by
  cases pkgSpec with
  | none => exact outcome_of_jobs not_false (fun job => List.mem_singleton) s
  | some pkgSpec =>
      rw [distroSync, bind_apply, forM_addJob]
      exact outcome_of_jobs not_false (mem_jobs _ _) s

theorem remove_outcome (pkgSpec : String) (reponame : Option String) (s : State) :
    base.Outcome s (base.Refused (.remove pkgSpec reponame)) (base.Marks s · (.remove pkgSpec reponame)) (base.remove pkgSpec reponame s) := by
  rw [remove]
  by_cases hnone : (base.installedFrom (base.solve true pkgSpec).query reponame).isEmpty = true
  · rw [if_pos hnone]
    exact raisePackageNotInstalledError_outcome _ (List.isEmpty_iff.mp hnone) pkgSpec reponame s
  · rw [if_neg hnone, bind_apply, forM_addJob]
    exact outcome_of_jobs (fun h => hnone (List.isEmpty_iff.mpr h)) (mem_jobs _ _) s

theorem autoremove_outcome (s : State) : base.Outcome s (base.Refused .autoremove) (base.Marks s · .autoremove) (base.autoremove s) := by
  rw [autoremove, bind_apply, forM_addJob]
  exact outcome_of_jobs not_false (mem_jobs _ _) s

theorem reinstallPkg_apply (available : List Package) (removeNa : Bool) (cnt : Nat) (old : Package) (s : State) :
    base.reinstallPkg available removeNa cnt old s =
      .ok (cnt + (base.reinstallJob available removeNa old).toList.length)
        { s with jobs := s.jobs ++ (base.reinstallJob available removeNa old).toList } := by
  rw [reinstallPkg, reinstallJob]
  cases available.filter fun pkg => pkg.nevra.text == old.nevra.text with
  | cons pkg pkgs => rfl
  | nil =>
      cases removeNa with
      | true => rfl
      | false =>
          show EStateM.Result.ok cnt s = .ok (cnt + 0) { s with jobs := s.jobs ++ [] }
          rw [List.append_nil, Nat.add_zero]

/-- The count of the loop is that of its jobs. -/
theorem foldl_count {α : Type} (jobOf : α → Option Job) (items : List α) (n : Nat) :
    items.foldl (fun n a => n + (jobOf a).toList.length) n = n + (items.filterMap jobOf).length := by
  induction items generalizing n with
  | nil => rfl
  | cons a items ih =>
      rw [List.foldl_cons, ih]
      cases hjob : jobOf a with
      | none => rw [List.filterMap_cons_none hjob, Option.toList_none, List.length_nil, Nat.add_zero]
      | some job => rw [List.filterMap_cons_some hjob, Option.toList_some, List.length_singleton, List.length_cons, Nat.add_assoc, Nat.add_comm 1]

theorem reinstall_outcome (pkgSpec : String) (oldReponame newReponame newReponameNeq : Option String) (removeNa : Bool) (s : State) :
    base.Outcome s (base.Refused (.reinstall pkgSpec oldReponame newReponame newReponameNeq removeNa))
      (base.Marks s · (.reinstall pkgSpec oldReponame newReponame newReponameNeq removeNa))
      (base.reinstall pkgSpec oldReponame newReponame newReponameNeq removeNa s) := by
  have hjobs : base.reinstallJobs pkgSpec oldReponame newReponame newReponameNeq removeNa =
      (base.installedFrom (base.solve true pkgSpec).query oldReponame).filterMap (base.reinstallJob ((base.solve true pkgSpec).query.filter fun pkg =>
        !pkg.installed && newReponame.all (pkg.reponame == ·) && newReponameNeq.all (pkg.reponame != ·)) removeNa) := rfl
  rw [reinstall]
  split_ifs with hnone
  · refine outcome_of_error _ ?_ _ s
    rw [Refused, hjobs, List.isEmpty_iff.mp hnone, List.filterMap_nil]
  · rw [bind_apply, foldlM_addJob (reinstallPkg_apply _ removeNa), foldl_count, ← hjobs, Nat.zero_add]
    dsimp only
    split_ifs with hcount
    · have hempty := List.length_eq_zero_iff.mp hcount
      rw [hempty, List.append_nil]
      exact outcome_of_error _ hempty _ s
    · exact outcome_of_jobs (fun h => hcount (List.length_eq_zero_iff.mpr h)) (fun job => Iff.rfl) s

theorem downgradePkgs_apply (available : List Package) (strict : Bool) (done : Nat) (pkgName : String) (s : State) :
    base.downgradePkgs available strict done pkgName s =
      .ok (if (base.downgradeJob available strict pkgName).isSome then 1 else done)
        { s with jobs := s.jobs ++ (base.downgradeJob available strict pkgName).toList } := by
  rw [downgradePkgs, downgradeJob]
  cases available.filter fun pkg => base.isDowngrade pkg && pkg.name == pkgName with
  | cons pkg pkgs => rfl
  | nil =>
      show EStateM.Result.ok done s = .ok done { s with jobs := s.jobs ++ [] }
      rw [List.append_nil]

theorem downgradeTo_outcome (pkgSpec : String) (strict : Bool) (s : State) :
    base.Outcome s (base.Refused (.downgradeTo pkgSpec strict)) (base.Marks s · (.downgradeTo pkgSpec strict)) (base.downgradeTo pkgSpec strict s) := by
  rw [downgradeTo]
  by_cases hquery : (base.solve true pkgSpec).query.isEmpty = true
  · rw [if_pos hquery]
    refine outcome_of_error _ ?_ _ s
    rw [Refused, downgradable, available, List.isEmpty_iff.mp hquery]
    exact List.filter_eq_nil_iff.mpr fun pkg _ h => List.not_mem_nil (of_decide_eq_true h)
  · rw [if_neg hquery]
    by_cases hnone : (base.downgradable pkgSpec).isEmpty = true
    · have hrefused := List.isEmpty_iff.mp hnone
      rw [downgradable, available] at hnone
      rw [if_pos hnone]
      exact outcome_of_error _ hrefused _ s
    · have hrefused := fun h => hnone (List.isEmpty_iff.mpr h)
      rw [downgradable, available] at hnone
      rw [if_neg hnone, foldlM_addJob (downgradePkgs_apply _ strict)]
      refine outcome_of_jobs hrefused (fun job => ?_) s
      rw [List.mem_filterMap]
      simp only [List.mem_eraseDups]
      constructor
      · rintro ⟨name, hname, hjob⟩
        obtain ⟨pkg, hpkg, rfl⟩ := List.mem_map.mp hname
        exact ⟨pkg, hpkg, hjob⟩
      · rintro ⟨pkg, hpkg, hjob⟩
        exact ⟨pkg.name, List.mem_map_of_mem hpkg, hjob⟩

/-- The step lemma: every request is refused without a trace, or adds its jobs. -/
theorem mark_outcome (base : Base) (request : Request) (s : State) : base.Outcome s (base.Refused request) (base.Marks s · request) (base.mark request s) := by
  cases request with
  | install pkgSpec reponame strict => exact install_outcome pkgSpec reponame strict s
  | upgrade pkgSpec reponame => exact upgrade_outcome pkgSpec reponame s
  | upgradeAll reponame => exact upgradeInternal_outcome (List.Subset.refl _) _ reponame s
  | distroSync pkgSpec => exact distroSync_outcome pkgSpec s
  | remove pkgSpec reponame => exact remove_outcome pkgSpec reponame s
  | reinstall pkgSpec oldReponame newReponame newReponameNeq removeNa =>
      exact reinstall_outcome pkgSpec oldReponame newReponame newReponameNeq removeNa s
  | downgradeTo pkgSpec strict => exact downgradeTo_outcome pkgSpec strict s
  | autoremove => exact autoremove_outcome s

/-! ### Runs -/

theorem step_jobs (base : Base) (request : Request) (s : State) : base.SameFilters s (Effect.final (base.mark request s)) ∧
    ∀ job, job ∈ (Effect.final (base.mark request s)).jobs ↔ job ∈ s.jobs ∨ (¬base.Refused request ∧ base.Marks s job request) := by
  have houtcome := mark_outcome base request s
  cases hmark : base.mark request s with
  | ok n t =>
      rw [hmark] at houtcome
      obtain ⟨hrefused, hsame, added, hjobs, hadded⟩ := houtcome
      refine ⟨hsame, fun job => ?_⟩
      rw [Effect.final, hjobs, List.mem_append, hadded, and_iff_right hrefused]
  | error e t =>
      rw [hmark] at houtcome
      obtain ⟨hrefused, hsame, hjobs⟩ := houtcome
      refine ⟨hsame, fun job => ?_⟩
      rw [Effect.final, hjobs]
      exact (or_iff_left fun h => h.1 hrefused).symm

theorem mem_run_jobs (requests : List Request) (s : State) (job : Job) :
    job ∈ (base.run requests s).jobs ↔ job ∈ s.jobs ∨ ∃ request ∈ requests, ¬base.Refused request ∧ base.Marks s job request := by
  induction requests generalizing s with
  | nil => exact (or_iff_left fun ⟨_, h, _⟩ => List.not_mem_nil h).symm
  | cons request requests ih =>
      obtain ⟨hsame, hjobs⟩ := step_jobs base request s
      rw [run, List.foldl_cons, ← run, ih, hjobs, or_assoc]
      simp only [List.mem_cons, exists_eq_or_imp, hsame.marks]

/-- What an upgrade selects is covered, but for the latest installed packages of the same names. -/
theorem covered_of_mem_selection {q : List Package} {pkg : Package} (h : pkg ∈ base.selection s q) :
    (pkg ∈ q ∧ base.Covered s q pkg) ∨ (pkg.installed = true ∧ ∃ other ∈ q, base.Covered s q other ∧ other.name = pkg.name) := by
  simp only [selection, query, List.mem_filter, Bool.or_eq_true, Bool.and_eq_true, decide_eq_true_eq, List.mem_map] at h
  rcases h.2 with hcovered | ⟨hlatest, other, ⟨hother, hcovered⟩, hname⟩
  · exact .inl hcovered
  · exact .inr ⟨(List.mem_filter.mp (base.latest_subset _ hlatest)).2, other, hother, hcovered, hname⟩

theorem reinstallJob_cases {available : List Package} {removeNa : Bool} {old : Package} {job : Job}
    (h : base.reinstallJob available removeNa old = some job) :
    job = .erase old base.cleanDeps ∨ ∃ select, job = .install select none !base.strict := by
  rw [reinstallJob] at h
  split at h
  · split at h
    · exact .inl (Option.some.inj h).symm
    · cases h
  · exact .inr ⟨_, (Option.some.inj h).symm⟩

theorem downgradeJob_cases {available : List Package} {strict : Bool} {pkgName : String} {job : Job}
    (h : base.downgradeJob available strict pkgName = some job) : ∃ select, job = .install select none !strict := by
  rw [downgradeJob] at h
  split at h
  · cases h
  · exact ⟨_, (Option.some.inj h).symm⟩

/-- Only upgrade requests make upgrade jobs, and an erased package is installed or a leaf. -/
theorem Marks.kinds {job : Job} {request : Request} (h : base.Marks s job request) :
    (∀ select, job = .upgrade select → ∃ q, base.queryOf request = some q ∧ select = base.selection s q) ∧
    ∀ pkg cleanDeps, job = .erase pkg cleanDeps → pkg.installed = true ∨ pkg ∈ base.leaves := by
  cases request with
  | upgrade pkgSpec reponame =>
      obtain ⟨-, rfl⟩ := h
      exact ⟨fun select heq => ⟨_, rfl, (Job.upgrade.inj heq).symm⟩, fun pkg cleanDeps heq => by cases heq⟩
  | upgradeAll reponame =>
      obtain ⟨-, rfl⟩ := h
      exact ⟨fun select heq => ⟨_, rfl, (Job.upgrade.inj heq).symm⟩, fun pkg cleanDeps heq => by cases heq⟩
  | install pkgSpec reponame strict =>
      rw [Marks] at h
      split at h <;> obtain ⟨_, -, rfl⟩ := h <;> exact ⟨fun select heq => (by cases heq), fun pkg cleanDeps heq => by cases heq⟩
  | distroSync pkgSpec =>
      cases pkgSpec with
      | none =>
          obtain rfl : job = .distupgradeAll := h
          exact ⟨fun select heq => (by cases heq), fun pkg cleanDeps heq => by cases heq⟩
      | some pkgSpec =>
          obtain ⟨_, -, rfl⟩ := h
          exact ⟨fun select heq => (by cases heq), fun pkg cleanDeps heq => by cases heq⟩
  | remove pkgSpec reponame =>
      obtain ⟨old, hold, rfl⟩ := h
      refine ⟨fun select heq => (by cases heq), fun pkg cleanDeps heq => ?_⟩
      obtain ⟨rfl, -⟩ := Job.erase.inj heq
      exact .inl (Bool.and_eq_true_iff.mp (List.mem_filter.mp hold).2).1
  | reinstall pkgSpec oldReponame newReponame newReponameNeq removeNa =>
      obtain ⟨old, hold, hjob⟩ := List.mem_filterMap.mp h
      rcases reinstallJob_cases hjob with rfl | ⟨select', rfl⟩
      · refine ⟨fun select heq => (by cases heq), fun pkg cleanDeps heq => ?_⟩
        obtain ⟨rfl, -⟩ := Job.erase.inj heq
        exact .inl (Bool.and_eq_true_iff.mp (List.mem_filter.mp hold).2).1
      · exact ⟨fun select heq => (by cases heq), fun pkg cleanDeps heq => by cases heq⟩
  | downgradeTo pkgSpec strict =>
      obtain ⟨old, -, hjob⟩ := h
      obtain ⟨select', rfl⟩ := downgradeJob_cases hjob
      exact ⟨fun select heq => (by cases heq), fun pkg cleanDeps heq => by cases heq⟩
  | autoremove =>
      obtain ⟨old, hold, rfl⟩ := h
      refine ⟨fun select heq => (by cases heq), fun pkg cleanDeps heq => ?_⟩
      obtain ⟨rfl, -⟩ := Job.erase.inj heq
      exact .inr hold

end Base

end Dnf.Marking
