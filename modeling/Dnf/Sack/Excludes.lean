import Mathlib.Data.Finset.Union
import Mathlib.Tactic.Common

/-!
# Include and exclude lists

`Base._setup_excludes_includes` turns the `includepkgs` and `excludepkgs` of `[main]` and of the enabled repositories into the includes and excludes of the sack. All patterns are looked up before anything is added, so that no list masks another, and the lists act together as if each package were checked against them on its own. What `disable_excludes` switches off depends on the build: `all` is looked at only where there is module support, and elsewhere it is taken for a repository's id.
-/

namespace Dnf.Excludes

structure Repo where
  id : String
  includepkgs : List String
  excludepkgs : List String

/-- What has been added to the sack. Without a repository's id, `set_use_includes` is for all of them. -/
structure Sack (Package : Type) where
  includes : Finset Package
  excludes : Finset Package
  moduleExcludes : Finset Package
  useIncludes : Bool
  useIncludesRepos : List String

/-- `getBestQuery` is what a pattern matches among the packages that the sack shows, and `filterModules` what the modules hide or the exception raised by the attempt. -/
structure Base (Package : Type) where
  packages : Finset Package
  reponame : Package → String
  getBestQuery : String → Finset Package → Finset Package
  filterModules : Except String (Finset Package)
  withModules : Bool
  disableExcludes : List String
  includepkgs : List String
  excludepkgs : List String
  enabledRepos : List Repo

variable {Package : Type} [DecidableEq Package]

/-! ### The sack -/

def Sack.fresh : Sack Package where
  includes := ∅
  excludes := ∅
  moduleExcludes := ∅
  useIncludes := false
  useIncludesRepos := []

def Sack.addIncludes (sack : Sack Package) (query : Finset Package) : Sack Package := { sack with includes := sack.includes ∪ query }

def Sack.addExcludes (sack : Sack Package) (query : Finset Package) : Sack Package := { sack with excludes := sack.excludes ∪ query }

def Sack.setUseIncludes (sack : Sack Package) : Sack Package := { sack with useIncludes := true }

def Sack.setUseIncludesOf (sack : Sack Package) (repoid : String) : Sack Package :=
  { sack with useIncludesRepos := repoid :: sack.useIncludesRepos }

/-- Hidden from regular filtering. -/
def Sack.Hides (sack : Sack Package) (reponame : Package → String) (p : Package) : Prop :=
  p ∈ sack.excludes ∨ ((sack.useIncludes = true ∨ reponame p ∈ sack.useIncludesRepos) ∧ p ∉ sack.includes)

instance (sack : Sack Package) (reponame : Package → String) (p : Package) : Decidable (sack.Hides reponame p) := by
  unfold Sack.Hides
  infer_instance

variable (base : Base Package)

/-- Visible to regular filtering. -/
def Base.visible (sack : Sack Package) : Finset Package := base.packages.filter fun p => ¬sack.Hides base.reponame p

/-! ### The setup -/

/-- Starting from `self.sack.query().filterm(empty=True)`, the union of what the patterns match. -/
def Base.unionOf (sack : Sack Package) (patterns : List String) : Finset Package :=
  patterns.toFinset.biUnion fun pattern => base.getBestQuery pattern (base.visible sack \ sack.moduleExcludes)

/-- `filterm(reponame=repoid)` -/
def Base.ofRepo (query : Finset Package) (repoid : String) : Finset Package := query.filter fun p => base.reponame p = repoid

def Base.repoIncludes (sack : Sack Package) (r : Repo) : Option (Finset Package × String) :=
  if r.includepkgs.length > 0 then some (base.ofRepo (base.unionOf sack r.includepkgs) r.id, r.id) else none

def Base.repoExcludes (sack : Sack Package) (r : Repo) : Option (Finset Package × String) :=
  if (base.ofRepo (base.unionOf sack r.excludepkgs) r.id).Nonempty then
    some (base.ofRepo (base.unionOf sack r.excludepkgs) r.id, r.id)
  else none

/-- The repositories that the loop does not skip. -/
def Base.loopedRepos (onlyMain : Bool) : List Repo :=
  if onlyMain then [] else base.enabledRepos.filter fun r => r.id ∉ base.disableExcludes

/-- The lists of `[main]`: both are looked up before one is added. -/
def Base.addMain (sack : Sack Package) : Sack Package :=
  if "main" ∉ base.disableExcludes then
    let included := if base.includepkgs.length > 0 then (sack.addIncludes (base.unionOf sack base.includepkgs)).setUseIncludes else sack
    if (base.unionOf sack base.excludepkgs).Nonempty then included.addExcludes (base.unionOf sack base.excludepkgs) else included
  else sack

def Sack.addRepoIncludes (sack : Sack Package) (repoIncludes : List (Finset Package × String)) : Sack Package :=
  repoIncludes.foldl (fun sack entry => (sack.addIncludes entry.1).setUseIncludesOf entry.2) sack

def Sack.addRepoExcludes (sack : Sack Package) (repoExcludes : List (Finset Package × String)) : Sack Package :=
  repoExcludes.foldl (fun sack entry => sack.addExcludes entry.1) sack

def Base.setupModularExcludes (sack : Sack Package) : Except String (Sack Package) := do
  let hidden ← base.filterModules
  return { sack with moduleExcludes := hidden }

/-- The lists of the repositories are looked up first, and added last. -/
def Base.addLists (onlyMain : Bool) (sack : Sack Package) : Sack Package :=
  let repoIncludes := (base.loopedRepos onlyMain).filterMap (base.repoIncludes sack)
  let repoExcludes := (base.loopedRepos onlyMain).filterMap (base.repoExcludes sack)
  ((base.addMain sack).addRepoIncludes repoIncludes).addRepoExcludes repoExcludes

def Base.setupExcludesIncludes (onlyMain : Bool) (sack : Sack Package) : Except String (Sack Package) :=
  if "all" ∈ base.disableExcludes ∧ base.withModules = true then base.setupModularExcludes sack
  else if onlyMain = false ∧ base.withModules = true then base.setupModularExcludes (base.addLists onlyMain sack)
  else .ok (base.addLists onlyMain sack)

/-! ### What the lists say -/

/-- Some pattern of the list matches the package. -/
def Base.MatchedBy (patterns : List String) (p : Package) : Prop := ∃ pattern ∈ patterns, p ∈ base.getBestQuery pattern base.packages

variable (Active : String → Prop)

/-- `list` is the list of `[main]` or of the package's own repository, and active. -/
inductive Base.ActiveList (ofMain : List String) (ofRepo : Repo → List String) (p : Package) : List String → Prop
  | main (hactive : Active "main") : Base.ActiveList ofMain ofRepo p ofMain
  | repo {r : Repo} (hr : r ∈ base.enabledRepos) (hid : r.id = base.reponame p) (hactive : Active r.id) :
      Base.ActiveList ofMain ofRepo p (ofRepo r)

/-- Some active exclude list matches the package. -/
def Base.Excluded (p : Package) : Prop :=
  ∃ patterns, base.ActiveList Active base.excludepkgs Repo.excludepkgs p patterns ∧ base.MatchedBy patterns p

/-- Some active include list is in use for the package, but none of them matches it. -/
def Base.LeftOut (p : Package) : Prop :=
  (∃ patterns, base.ActiveList Active base.includepkgs Repo.includepkgs p patterns ∧ patterns ≠ []) ∧
    ∀ patterns, base.ActiveList Active base.includepkgs Repo.includepkgs p patterns → ¬base.MatchedBy patterns p

/-- What the lists say about a package. -/
def Base.Shown (p : Package) : Prop := ¬base.Excluded Active p ∧ ¬base.LeftOut Active p

/-- Neither the id nor `all` is disabled. -/
def Base.Enabled (id : String) : Prop := id ∉ base.disableExcludes ∧ "all" ∉ base.disableExcludes

/-- The id itself is not disabled. -/
def Base.NotNamed (id : String) : Prop := id ∉ base.disableExcludes

/-! ### Adding to the sack -/

theorem mem_visible {sack : Sack Package} {p : Package} : p ∈ base.visible sack ↔ p ∈ base.packages ∧ ¬sack.Hides base.reponame p :=
  Finset.mem_filter

@[simp] theorem visible_fresh : base.visible Sack.fresh = base.packages := by
  refine Finset.filter_true_of_mem fun p _ => ?_
  rintro (hexcluded | ⟨huse | huse, _⟩)
  · exact absurd hexcluded (Finset.notMem_empty p)
  · exact absurd huse Bool.false_ne_true
  · exact absurd huse List.not_mem_nil

theorem mem_unionOf_fresh {patterns : List String} {p : Package} : p ∈ base.unionOf Sack.fresh patterns ↔ base.MatchedBy patterns p := by
  rw [Base.unionOf, Finset.mem_biUnion, visible_fresh]
  simp only [List.mem_toFinset, Sack.fresh, Finset.sdiff_empty]
  rfl

theorem mem_ofRepo_fresh {patterns : List String} {repoid : String} {p : Package} :
    p ∈ base.ofRepo (base.unionOf Sack.fresh patterns) repoid ↔ base.MatchedBy patterns p ∧ base.reponame p = repoid := by
  rw [Base.ofRepo, Finset.mem_filter, mem_unionOf_fresh]

section folds

omit base

theorem addRepoIncludes_spec (sack : Sack Package) (entries : List (Finset Package × String)) :
    (∀ p, p ∈ (sack.addRepoIncludes entries).includes ↔ p ∈ sack.includes ∨ ∃ entry ∈ entries, p ∈ entry.1) ∧
      (∀ id, id ∈ (sack.addRepoIncludes entries).useIncludesRepos ↔ id ∈ sack.useIncludesRepos ∨ ∃ entry ∈ entries, id = entry.2) ∧
      (sack.addRepoIncludes entries).excludes = sack.excludes ∧ (sack.addRepoIncludes entries).useIncludes = sack.useIncludes := by
  induction entries generalizing sack with
  | nil => simp [Sack.addRepoIncludes]
  | cons entry entries ih =>
      obtain ⟨hincludes, hrepos, hexcludes, huse⟩ := ih ((sack.addIncludes entry.1).setUseIncludesOf entry.2)
      have hcons : sack.addRepoIncludes (entry :: entries) = ((sack.addIncludes entry.1).setUseIncludesOf entry.2).addRepoIncludes entries := rfl
      rw [hcons]
      refine ⟨fun p => ?_, fun id => ?_, hexcludes, huse⟩
      · rw [hincludes, List.exists_mem_cons_iff, ← or_assoc]
        exact or_congr_left Finset.mem_union
      · rw [hrepos, List.exists_mem_cons_iff, ← or_assoc]
        exact or_congr_left (List.mem_cons.trans or_comm)

theorem addRepoExcludes_spec (sack : Sack Package) (entries : List (Finset Package × String)) :
    (∀ p, p ∈ (sack.addRepoExcludes entries).excludes ↔ p ∈ sack.excludes ∨ ∃ entry ∈ entries, p ∈ entry.1) ∧
      (sack.addRepoExcludes entries).includes = sack.includes ∧ (sack.addRepoExcludes entries).useIncludes = sack.useIncludes ∧
      (sack.addRepoExcludes entries).useIncludesRepos = sack.useIncludesRepos := by
  induction entries generalizing sack with
  | nil => simp [Sack.addRepoExcludes]
  | cons entry entries ih =>
      obtain ⟨hexcludes, hrest⟩ := ih (sack.addExcludes entry.1)
      have hcons : sack.addRepoExcludes (entry :: entries) = (sack.addExcludes entry.1).addRepoExcludes entries := rfl
      rw [hcons]
      refine ⟨fun p => ?_, hrest⟩
      rw [hexcludes, List.exists_mem_cons_iff, ← or_assoc]
      exact or_congr_left Finset.mem_union

end folds

/-! ### The lists of a fresh sack -/

/-- A query that came out empty is not added, which is no difference. -/
theorem addMain_fresh : base.addMain Sack.fresh = if "main" ∉ base.disableExcludes then
    { includes := base.unionOf Sack.fresh base.includepkgs
      excludes := base.unionOf Sack.fresh base.excludepkgs
      moduleExcludes := ∅
      useIncludes := decide (base.includepkgs ≠ [])
      useIncludesRepos := [] } else Sack.fresh := by
  unfold Base.addMain
  refine if_congr Iff.rfl ?_ rfl
  have hincluded : (if base.includepkgs.length > 0 then (Sack.fresh.addIncludes (base.unionOf Sack.fresh base.includepkgs)).setUseIncludes
      else Sack.fresh) = { Sack.fresh with
        includes := base.unionOf Sack.fresh base.includepkgs, useIncludes := decide (base.includepkgs ≠ []) } := by
    by_cases hincl : base.includepkgs.length > 0
    · rw [if_pos hincl, Sack.addIncludes, Sack.setUseIncludes, decide_eq_true (List.length_pos_iff.mp hincl)]
      dsimp only [Sack.fresh]
      rw [Finset.empty_union]
    · have hempty : base.includepkgs = [] := List.eq_nil_of_length_eq_zero (Nat.eq_zero_of_not_pos hincl)
      rw [if_neg hincl, hempty]
      rfl
  dsimp only
  rw [hincluded]
  by_cases hexcl : (base.unionOf Sack.fresh base.excludepkgs).Nonempty
  · rw [if_pos hexcl, Sack.addExcludes]
    dsimp only [Sack.fresh]
    rw [Finset.empty_union]
  · rw [if_neg hexcl, Finset.not_nonempty_iff_eq_empty.mp hexcl]
    rfl

theorem mem_includes_addMain {p : Package} :
    p ∈ (base.addMain Sack.fresh).includes ↔ base.NotNamed "main" ∧ base.MatchedBy base.includepkgs p := by
  rw [addMain_fresh, ← mem_unionOf_fresh, Base.NotNamed]
  split
  · exact (and_iff_right ‹_›).symm
  · exact iff_of_false (Finset.notMem_empty p) fun h => ‹¬_› h.1

theorem mem_excludes_addMain {p : Package} :
    p ∈ (base.addMain Sack.fresh).excludes ↔ base.NotNamed "main" ∧ base.MatchedBy base.excludepkgs p := by
  rw [addMain_fresh, ← mem_unionOf_fresh, Base.NotNamed]
  split
  · exact (and_iff_right ‹_›).symm
  · exact iff_of_false (Finset.notMem_empty p) fun h => ‹¬_› h.1

theorem useIncludes_addMain : (base.addMain Sack.fresh).useIncludes = true ↔ base.NotNamed "main" ∧ base.includepkgs ≠ [] := by
  rw [addMain_fresh, Base.NotNamed]
  split
  · exact decide_eq_true_iff.trans (and_iff_right ‹_›).symm
  · exact iff_of_false Bool.false_ne_true fun h => ‹¬_› h.1

theorem useIncludesRepos_addMain : (base.addMain Sack.fresh).useIncludesRepos = [] := by
  rw [addMain_fresh]
  split <;> rfl

omit [DecidableEq Package] in
theorem mem_loopedRepos {r : Repo} : r ∈ base.loopedRepos false ↔ r ∈ base.enabledRepos ∧ base.NotNamed r.id := by
  rw [Base.loopedRepos, if_neg Bool.false_ne_true, List.mem_filter, decide_eq_true_iff]
  rfl

omit [DecidableEq Package] in
/-- What the loop over the repositories has collected. -/
theorem exists_collected {lookup : Repo → Option (Finset Package × String)} (test : Finset Package × String → Prop) :
    (∃ entry ∈ (base.loopedRepos false).filterMap lookup, test entry) ↔
      ∃ r ∈ base.enabledRepos, base.NotNamed r.id ∧ ∃ entry, lookup r = some entry ∧ test entry := by
  constructor
  · rintro ⟨entry, hentry, htest⟩
    obtain ⟨r, hr, hlookup⟩ := List.mem_filterMap.mp hentry
    obtain ⟨henabled, hnamed⟩ := (mem_loopedRepos base).mp hr
    exact ⟨r, henabled, hnamed, entry, hlookup, htest⟩
  · rintro ⟨r, henabled, hnamed, entry, hlookup, htest⟩
    exact ⟨entry, List.mem_filterMap.mpr ⟨r, (mem_loopedRepos base).mpr ⟨henabled, hnamed⟩, hlookup⟩, htest⟩

theorem mem_repoIncludes {r : Repo} {p : Package} : (∃ entry, base.repoIncludes Sack.fresh r = some entry ∧ p ∈ entry.1) ↔
    r.id = base.reponame p ∧ base.MatchedBy r.includepkgs p := by
  unfold Base.repoIncludes
  constructor
  · rintro ⟨entry, hincl, hp⟩
    rw [Option.ite_none_right_eq_some, Option.some.injEq] at hincl
    rw [← hincl.2] at hp
    obtain ⟨hmatched, hrepo⟩ := (mem_ofRepo_fresh base).mp hp
    exact ⟨hrepo.symm, hmatched⟩
  · rintro ⟨hrepo, hmatched⟩
    have hlength : r.includepkgs.length > 0 := by
      obtain ⟨pattern, hmem, _⟩ := hmatched
      exact List.length_pos_of_mem hmem
    exact ⟨_, if_pos hlength, (mem_ofRepo_fresh base).mpr ⟨hmatched, hrepo.symm⟩⟩

theorem mem_repoExcludes {r : Repo} {p : Package} : (∃ entry, base.repoExcludes Sack.fresh r = some entry ∧ p ∈ entry.1) ↔
    r.id = base.reponame p ∧ base.MatchedBy r.excludepkgs p := by
  unfold Base.repoExcludes
  constructor
  · rintro ⟨entry, hexcl, hp⟩
    rw [Option.ite_none_right_eq_some, Option.some.injEq] at hexcl
    rw [← hexcl.2] at hp
    obtain ⟨hmatched, hrepo⟩ := (mem_ofRepo_fresh base).mp hp
    exact ⟨hrepo.symm, hmatched⟩
  · rintro ⟨hrepo, hmatched⟩
    have hp : p ∈ base.ofRepo (base.unionOf Sack.fresh r.excludepkgs) r.id := (mem_ofRepo_fresh base).mpr ⟨hmatched, hrepo.symm⟩
    exact ⟨_, if_pos ⟨p, hp⟩, hp⟩

theorem repoIncludes_id {r : Repo} {id : String} : (∃ entry, base.repoIncludes Sack.fresh r = some entry ∧ id = entry.2) ↔
    r.id = id ∧ r.includepkgs ≠ [] := by
  unfold Base.repoIncludes
  constructor
  · rintro ⟨entry, hincl, rfl⟩
    rw [Option.ite_none_right_eq_some, Option.some.injEq] at hincl
    exact ⟨by rw [← hincl.2], List.length_pos_iff.mp hincl.1⟩
  · rintro ⟨rfl, hne⟩
    exact ⟨_, if_pos (List.length_pos_iff.mpr hne), rfl⟩

omit [DecidableEq Package] in
theorem exists_activeList {ofMain : List String} {ofRepo : Repo → List String} {p : Package} (test : List String → Prop) :
    (∃ patterns, base.ActiveList Active ofMain ofRepo p patterns ∧ test patterns) ↔
      (Active "main" ∧ test ofMain) ∨ ∃ r ∈ base.enabledRepos, Active r.id ∧ r.id = base.reponame p ∧ test (ofRepo r) := by
  constructor
  · rintro ⟨patterns, hlist, htest⟩
    cases hlist with
    | main hactive => exact .inl ⟨hactive, htest⟩
    | @repo r hr hid hactive => exact .inr ⟨r, hr, hactive, hid, htest⟩
  · rintro (⟨hactive, htest⟩ | ⟨r, hr, hactive, hid, htest⟩)
    · exact ⟨ofMain, .main hactive, htest⟩
    · exact ⟨ofRepo r, .repo hr hid hactive, htest⟩

/-- The lists act on a package as if it were checked against each of them. -/
theorem hides_addLists_iff {p : Package} :
    (base.addLists false Sack.fresh).Hides base.reponame p ↔ base.Excluded base.NotNamed p ∨ base.LeftOut base.NotNamed p := by
  unfold Base.addLists
  dsimp only
  obtain ⟨hincludes, hrepos, hexcludes, huse⟩ :=
    addRepoIncludes_spec (base.addMain Sack.fresh) ((base.loopedRepos false).filterMap (base.repoIncludes Sack.fresh))
  obtain ⟨hexcludes', hincludes', huse', hrepos'⟩ := addRepoExcludes_spec
    ((base.addMain Sack.fresh).addRepoIncludes ((base.loopedRepos false).filterMap (base.repoIncludes Sack.fresh)))
    ((base.loopedRepos false).filterMap (base.repoExcludes Sack.fresh))
  rw [Sack.Hides, hexcludes', hincludes', huse', hrepos', hexcludes, hincludes, huse, hrepos, mem_excludes_addMain, mem_includes_addMain,
    useIncludes_addMain, useIncludesRepos_addMain, exists_collected, exists_collected, exists_collected]
  simp only [mem_repoIncludes, mem_repoExcludes, repoIncludes_id]
  refine or_congr (exists_activeList base base.NotNamed (base.MatchedBy · p)).symm (and_congr ?_ ?_)
  · rw [exists_activeList base base.NotNamed (· ≠ []), or_iff_right List.not_mem_nil]
  · rw [← exists_activeList base base.NotNamed (base.MatchedBy · p), not_exists]
    exact forall_congr' fun _ => not_and

theorem mem_visible_addLists {p : Package} (hp : p ∈ base.packages) :
    p ∈ base.visible (base.addLists false Sack.fresh) ↔ base.Shown base.NotNamed p := by
  rw [mem_visible, and_iff_right hp, hides_addLists_iff, not_or]
  rfl

/-! ### Disabling everything -/

theorem visible_setupModularExcludes {sack sack' : Sack Package} (hsetup : base.setupModularExcludes sack = .ok sack') :
    base.visible sack' = base.visible sack := by
  unfold Base.setupModularExcludes at hsetup
  cases hfilter : base.filterModules with
  | error e =>
      rw [hfilter] at hsetup
      cases hsetup
  | ok hidden =>
      rw [hfilter] at hsetup
      cases hsetup
      rfl

omit [DecidableEq Package] in
theorem shown_of_all {p : Package} (hall : "all" ∈ base.disableExcludes) : base.Shown base.Enabled p := by
  have hnone : ∀ ofMain ofRepo patterns, ¬base.ActiveList base.Enabled ofMain ofRepo p patterns := by
    intro ofMain ofRepo patterns hlist
    cases hlist with
    | main hactive => exact hactive.2 hall
    | repo _ _ hactive => exact hactive.2 hall
  exact ⟨fun ⟨_, hlist, _⟩ => hnone _ _ _ hlist, fun ⟨⟨_, hlist, _⟩, _⟩ => hnone _ _ _ hlist⟩

omit [DecidableEq Package] in
theorem enabled_eq_notNamed (hall : "all" ∉ base.disableExcludes) : base.Enabled = base.NotNamed :=
  funext fun _ => propext (and_iff_left hall)

/-- The setup of a fresh sack: with module support, `all` leaves the sack as it is. -/
theorem visible_setup {sack : Sack Package} (hsetup : base.setupExcludesIncludes false Sack.fresh = .ok sack) :
    base.visible sack = if "all" ∈ base.disableExcludes ∧ base.withModules = true then base.packages
      else base.visible (base.addLists false Sack.fresh) := by
  unfold Base.setupExcludesIncludes at hsetup
  split at hsetup
  · rw [if_pos ‹_›, visible_setupModularExcludes base hsetup, visible_fresh]
  · rw [if_neg ‹_›]
    split at hsetup
    · exact visible_setupModularExcludes base hsetup
    · rw [Except.ok.injEq] at hsetup
      rw [hsetup]

/-- A package is visible exactly if the active lists let it be, unless there is no module support, everything is disabled, and a list that is not disabled by name hides something. -/
theorem Base.visibleRightly_iff {sack : Sack Package} (hsetup : base.setupExcludesIncludes false Sack.fresh = .ok sack) :
    (∀ p ∈ base.packages, p ∈ base.visible sack ↔ base.Shown base.Enabled p) ↔
      (base.withModules = true ∨ "all" ∉ base.disableExcludes ∨ ∀ p ∈ base.packages, base.Shown base.NotNamed p) := by
  rw [visible_setup base hsetup]
  by_cases hall : "all" ∈ base.disableExcludes
  · rw [or_iff_right (not_not_intro hall)]
    by_cases hmodules : base.withModules = true
    · rw [if_pos ⟨hall, hmodules⟩]
      exact iff_of_true (fun p hp => iff_of_true hp (shown_of_all base hall)) (.inl hmodules)
    · rw [if_neg fun h => hmodules h.2, or_iff_right hmodules]
      refine forall₂_congr fun p hp => ?_
      rw [mem_visible_addLists base hp, iff_true_right (shown_of_all base hall)]
  · rw [if_neg fun h => hall h.1, enabled_eq_notNamed base hall]
    exact iff_of_true (fun p hp => mem_visible_addLists base hp) (.inr (.inl hall))

/-- Two packages of one repository, each matched by its name, and an exclude list of `[main]`. -/
def peppers (withModules : Bool) (disableExcludes : List String) : Base String where
  packages := {"pepper", "lotus"}
  reponame _ := "fedora"
  getBestQuery pattern shown := shown.filter (· = pattern)
  filterModules := .ok ∅
  withModules := withModules
  disableExcludes := disableExcludes
  includepkgs := []
  excludepkgs := ["pepper"]
  enabledRepos := [{ id := "fedora", includepkgs := ["lotus"], excludepkgs := [] }]

theorem Base.visibleRightly_iff_peppers :
    "pepper" ∉ (peppers false ["fedora"]).visible ((peppers false ["fedora"]).addLists false Sack.fresh) ∧
      ∀ p ∈ (peppers false ["fedora"]).packages, p ∈ (peppers false ["fedora"]).visible ((peppers false ["fedora"]).addLists false Sack.fresh) ↔
        (peppers false ["fedora"]).Shown (peppers false ["fedora"]).Enabled p :=
  ⟨by decide +kernel, ((peppers false ["fedora"]).visibleRightly_iff rfl).mpr (.inr (.inl (by decide)))⟩

/-- Without module support, `all` disables nothing. -/
theorem peppers_all_hidden : ∃ sack, (peppers false ["all"]).setupExcludesIncludes false Sack.fresh = .ok sack ∧
    ¬(∀ p ∈ (peppers false ["all"]).packages, p ∈ (peppers false ["all"]).visible sack ↔
      (peppers false ["all"]).Shown (peppers false ["all"]).Enabled p) := by
  refine ⟨(peppers false ["all"]).addLists false Sack.fresh, rfl, fun hvisible => ?_⟩
  have hpepper : "pepper" ∈ (peppers false ["all"]).packages := by decide
  have hhidden : "pepper" ∉ (peppers false ["all"]).visible ((peppers false ["all"]).addLists false Sack.fresh) := by decide +kernel
  exact hhidden ((hvisible "pepper" hpepper).mpr (shown_of_all _ (by decide)))

end Dnf.Excludes
