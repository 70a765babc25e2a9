import Dnf.Foundation.Collect
import Dnf.Modules.Removing
import Dnf.Transaction.RpmTransaction

/-!
# Modules that are installed

`ModuleBase.install` goes through the streams that the specs were resolved to, and collects the packages of the profiles that are wanted, with the specs that want them. A spec that fails in one stream is only noted; the packages that can be found are marked all the same, and the errors come at the end.
-/

namespace Dnf.Modules.Installing

open Foundation Effect Listing
open Transaction (Package)

/-- A stream that a spec was resolved to. `profile` is empty where the spec names none. -/
structure Entry where
  spec : String
  profile : String
  name : String
  stream : String
  modules : List Module

/-- The three loops over `module_dicts`. -/
def entries (moduleDicts : List (String × String × List (String × StreamDict))) : List Entry :=
  moduleDicts.flatMap fun (spec, profile, moduleDict) => moduleDict.flatMap fun (name, streamDict) => streamDict.map fun (stream, moduleList) =>
    ⟨spec, profile, name, stream, moduleList⟩

/-- What the container and the sack answer. `artifact` is a package's NEVRA as artifacts are written. -/
structure Base where
  isModuleActive : Module → Bool
  getDefaultProfiles : String → String → List String
  getRepoID : Module → String
  failSafeRepo : String
  getArtifacts : Module → List String
  sack : List Package
  artifact : Package → String
  hotfixRepos : List String

/-- The profiles that are installed in the container, as a module, its stream and the profile; and the jobs and the group members of the goal. -/
structure State where
  installed : List (String × String × String) := []
  jobs : List (List Package × Bool) := []
  groupMembers : List String := []

inductive Exc
  | failSafe
  | markingErrors (noMatchSpecs errorSpecs : List String)
  deriving DecidableEq

structure Progress where
  noMatchSpecs : List String
  errorSpecs : List String
  installed : List (String × String × String) := []
  installDict : List (String × List String) := []
  artifacts : List String := []
  failSafe : Bool := false

namespace Base

variable (base : Base)

def latest (e : Entry) : Option Module := getLatest (e.modules.filter base.isModuleActive)

/-- `set(profiles_strings)` -/
def defaultProfiles (e : Entry) : List String := (base.getDefaultProfiles e.name e.stream).dedup

def profiles (e : Entry) (latest : Module) : List Profile :=
  if e.profile ≠ "" then latest.getProfiles e.profile else (base.defaultProfiles e).flatMap latest.getProfiles

/-- The errors about the default profiles: there are none, or a module has none of a name. -/
def defaultErrors (e : Entry) (latest : Module) : List String :=
  if e.profile ≠ "" then []
  else if (base.defaultProfiles e).isEmpty then [e.spec]
  else (base.defaultProfiles e).filterMap fun profile => if (latest.getProfiles profile).isEmpty then some e.spec else none

/-- `install_dict.setdefault(pkg_name, set()).add(spec)`, with a set as the list of its elements. -/
def addSpec (spec : String) (installDict : List (String × List String)) (pkgName : String) : List (String × List String) :=
  assign installDict pkgName (((installDict.lookup pkgName).getD []).insert spec)

def installProfile (spec : String) (latest : Module) (p : Progress) (profile : Profile) : Progress :=
  { p with
    installed := p.installed ++ [(latest.name, latest.stream, profile.name)]
    installDict := profile.content.foldl (addSpec spec) p.installDict }

/-- One stream. -/
def turn (p : Progress) (e : Entry) : Progress :=
  match base.latest e with
  | none => { p with errorSpecs := p.errorSpecs ++ [e.spec] }
  | some latest =>
      let p := { p with failSafe := p.failSafe || base.getRepoID latest == base.failSafeRepo }
      if e.profile ≠ "" ∧ (base.profiles e latest).isEmpty then { p with noMatchSpecs := p.noMatchSpecs ++ [e.spec] }
      else
        let p := (base.profiles e latest).foldl (installProfile e.spec latest) { p with errorSpecs := p.errorSpecs ++ base.defaultErrors e latest }
        { p with artifacts := p.artifacts ++ (e.modules.filter base.isModuleActive).flatMap base.getArtifacts }

/-! ### `_install_profiles_internal` -/

def noSource : List Package := base.sack.filter fun pkg => pkg.nevra.arch ≠ "src" && pkg.nevra.arch ≠ "nosrc"

/-- The packages of a name: of the artifacts and from the hotfix repositories, or otherwise any. -/
def candidates (artifacts names : List String) (pkgName : String) : List Package :=
  let modular := base.noSource.filter fun pkg =>
    (base.artifact pkg ∈ artifacts || (pkg.reponame ∈ base.hotfixRepos && pkg.name ∈ names)) && pkg.name == pkgName
  if modular.isEmpty then base.noSource.filter fun pkg => pkg.name == pkgName else modular

/-- The loop over `install_dict`; what it returns are the specs of the packages that are not found. -/
def installProfilesInternal (artifacts names : List String) (strict : Bool) : List (String × List String) → State → List String → State × List String
  | [], s, errors => (s, errors)
  | (pkgName, setSpecs) :: rest, s, errors =>
      if (base.candidates artifacts names pkgName).isEmpty then
        installProfilesInternal artifacts names strict rest s (errors ++ setSpecs)
      else
        installProfilesInternal artifacts names strict rest
          { s with jobs := s.jobs ++ [(base.candidates artifacts names pkgName, !strict)], groupMembers := s.groupMembers ++ [pkgName] } errors

/-- `ModuleBase.install`, from what `_resolve_specs_enable_update_sack` returns. -/
def install (noMatchSpecs errorSpecs : List String) (solverErrors : Bool) (moduleDicts : List (String × String × List (String × StreamDict))) (strict : Bool) :
    EStateM Exc State Unit := do
  let p := (entries moduleDicts).foldl base.turn { noMatchSpecs, errorSpecs }
  modify fun s => { s with installed := s.installed ++ p.installed }
  if p.failSafe then throw .failSafe
  else do
    let s ← get
    let (t, profilesErrors) := base.installProfilesInternal p.artifacts (p.installDict.map Prod.fst) strict p.installDict s []
    set t
    if p.noMatchSpecs ≠ [] ∨ p.errorSpecs ++ profilesErrors ≠ [] ∨ solverErrors then throw (.markingErrors p.noMatchSpecs (p.errorSpecs ++ profilesErrors))
    else pure ()

/-! ### What an entry asks for -/

def Wants (e : Entry) (pkgName : String) : Prop := ∃ latest, base.latest e = some latest ∧ ∃ profile ∈ base.profiles e latest, pkgName ∈ profile.content

/-- No module is active, or a default profile is missing. -/
def Faulty (e : Entry) : Prop := base.latest e = none ∨ ∃ latest, base.latest e = some latest ∧ e.spec ∈ base.defaultErrors e latest

/-- The profile that the spec names is missing. -/
def Unmatched (e : Entry) : Prop := ∃ latest, base.latest e = some latest ∧ e.profile ≠ "" ∧ base.profiles e latest = []

def FromFailSafe (e : Entry) : Prop := ∃ latest, base.latest e = some latest ∧ base.getRepoID latest = base.failSafeRepo

def Provides (e : Entry) (artifact : String) : Prop :=
  base.latest e ≠ none ∧ ¬base.Unmatched e ∧ ∃ m ∈ e.modules, base.isModuleActive m = true ∧ artifact ∈ base.getArtifacts m

def Installs (e : Entry) (triple : String × String × String) : Prop :=
  ∃ latest, base.latest e = some latest ∧ ∃ profile ∈ base.profiles e latest, triple = (latest.name, latest.stream, profile.name)

variable {base}

theorem mem_lookup_addSpec (spec spec' : String) (installDict : List (String × List String)) (pkgName pkgName' : String) :
    spec' ∈ ((addSpec spec installDict pkgName).lookup pkgName').getD [] ↔
      spec' ∈ (installDict.lookup pkgName').getD [] ∨ (pkgName = pkgName' ∧ spec = spec') := by
  rw [addSpec, lookup_assign]
  split_ifs with hkey
  · rw [Option.getD_some, List.mem_insert_iff, hkey, or_comm]
    simp only [true_and, eq_comm]
  · exact (or_iff_left fun h => hkey h.1.symm).symm

theorem mem_keys_addSpec (spec : String) (installDict : List (String × List String)) (pkgName pkgName' : String) :
    pkgName' ∈ (addSpec spec installDict pkgName).map Prod.fst ↔ pkgName' ∈ installDict.map Prod.fst ∨ pkgName = pkgName' := by
  rw [addSpec, mem_keys_assign, eq_comm (a := pkgName)]

/-! ### What the turns collect -/

theorem installProfile_installDict (spec spec' : String) (latest : Module) (p : Progress) (profile : Profile) (pkgName : String) :
    spec' ∈ ((installProfile spec latest p profile).installDict.lookup pkgName).getD [] ↔
      spec' ∈ (p.installDict.lookup pkgName).getD [] ∨ (pkgName ∈ profile.content ∧ spec = spec') := by
  refine (foldl_adds (fun d => spec' ∈ (List.lookup pkgName d).getD []) (fun a => a = pkgName ∧ spec = spec')
    (fun d a => mem_lookup_addSpec spec spec' d a pkgName) profile.content p.installDict).trans (or_congr_right ?_)
  constructor
  · rintro ⟨_, hmem, rfl, rfl⟩
    exact ⟨hmem, rfl⟩
  · rintro ⟨hmem, rfl⟩
    exact ⟨pkgName, hmem, rfl, rfl⟩

theorem installProfile_keys (spec : String) (latest : Module) (p : Progress) (profile : Profile) (pkgName : String) :
    pkgName ∈ (installProfile spec latest p profile).installDict.map Prod.fst ↔ pkgName ∈ p.installDict.map Prod.fst ∨ pkgName ∈ profile.content := by
  refine (foldl_adds (fun d => pkgName ∈ d.map Prod.fst) (fun a => a = pkgName)
    (fun d a => mem_keys_addSpec spec d a pkgName) profile.content p.installDict).trans (or_congr_right ?_)
  simp only [exists_eq_right]

/-- The fields that the profiles of an entry leave alone. -/
theorem foldl_installProfile (spec : String) (latest : Module) (profiles : List Profile) (p : Progress) :
    let q := profiles.foldl (installProfile spec latest) p
    q.noMatchSpecs = p.noMatchSpecs ∧ q.errorSpecs = p.errorSpecs ∧ q.artifacts = p.artifacts ∧ q.failSafe = p.failSafe ∧
      q.installed = p.installed ++ profiles.map fun profile => (latest.name, latest.stream, profile.name) := by
  induction profiles generalizing p with
  | nil => simp
  | cons profile profiles ih =>
      obtain ⟨hnoMatch, herrors, hartifacts, hfailSafe, hinstalled⟩ := ih (installProfile spec latest p profile)
      refine ⟨hnoMatch, herrors, hartifacts, hfailSafe, hinstalled.trans ?_⟩
      rw [installProfile, List.map_cons, List.append_assoc, List.singleton_append]

/-- What a turn adds to each field. -/
structure Turned (base : Base) (e : Entry) (p q : Progress) : Prop where
  noMatchSpecs : ∀ spec, spec ∈ q.noMatchSpecs ↔ spec ∈ p.noMatchSpecs ∨ (e.spec = spec ∧ base.Unmatched e)
  errorSpecs : ∀ spec, spec ∈ q.errorSpecs ↔ spec ∈ p.errorSpecs ∨ (e.spec = spec ∧ base.Faulty e)
  installed : ∃ added, q.installed = p.installed ++ added ∧ ∀ triple, triple ∈ added ↔ base.Installs e triple
  installDict : ∀ pkgName spec, spec ∈ (q.installDict.lookup pkgName).getD [] ↔
    spec ∈ (p.installDict.lookup pkgName).getD [] ∨ (e.spec = spec ∧ base.Wants e pkgName)
  keys : ∀ pkgName, pkgName ∈ q.installDict.map Prod.fst ↔ pkgName ∈ p.installDict.map Prod.fst ∨ base.Wants e pkgName
  artifacts : ∀ artifact, artifact ∈ q.artifacts ↔ artifact ∈ p.artifacts ∨ base.Provides e artifact
  failSafe : q.failSafe = true ↔ p.failSafe = true ∨ base.FromFailSafe e

theorem mem_defaultErrors {e : Entry} {latest : Module} {spec : String} (h : spec ∈ base.defaultErrors e latest) : spec = e.spec := by
  rw [defaultErrors] at h
  split_ifs at h
  · cases h
  · exact List.mem_singleton.mp h
  · obtain ⟨profile, -, hspec⟩ := List.mem_filterMap.mp h
    split at hspec
    · exact (Option.some.inj hspec).symm
    · cases hspec

theorem exists_latest {e : Entry} {latest : Module} (hlatest : base.latest e = some latest) (P : Module → Prop) :
    (∃ m, base.latest e = some m ∧ P m) ↔ P latest := by
  simp only [hlatest, Option.some.injEq, exists_eq_left']

theorem turned_none {e : Entry} (hlatest : base.latest e = none) (p : Progress) :
    Turned base e p { p with errorSpecs := p.errorSpecs ++ [e.spec] } := by
  have hno : ∀ P : Module → Prop, ¬∃ latest, base.latest e = some latest ∧ P latest := by
    rintro P ⟨latest, hsome, -⟩
    rw [hlatest] at hsome
    cases hsome
  refine ⟨fun spec => ?_, fun spec => ?_, ⟨[], (List.append_nil _).symm, fun triple => ?_⟩, fun pkgName spec => ?_, fun pkgName => ?_,
    fun artifact => ?_, ?_⟩
  · exact (or_iff_left fun h => hno _ h.2).symm
  · rw [List.mem_append, List.mem_singleton]
    exact or_congr_right ⟨fun h => ⟨h.symm, .inl hlatest⟩, fun h => h.1.symm⟩
  · exact iff_of_false List.not_mem_nil (hno _)
  · exact (or_iff_left fun h => hno _ h.2).symm
  · exact (or_iff_left (hno _)).symm
  · exact (or_iff_left fun h => h.1 hlatest).symm
  · exact (or_iff_left (hno _)).symm

theorem turned_unmatched {e : Entry} {latest : Module} (hlatest : base.latest e = some latest) (hprofile : e.profile ≠ "")
    (hempty : base.profiles e latest = []) (p : Progress) :
    Turned base e p { p with failSafe := p.failSafe || base.getRepoID latest == base.failSafeRepo, noMatchSpecs := p.noMatchSpecs ++ [e.spec] } := by
  have hthis := exists_latest hlatest
  have hunmatched : base.Unmatched e := (hthis _).mpr ⟨hprofile, hempty⟩
  refine ⟨fun spec => ?_, fun spec => ?_, ⟨[], (List.append_nil _).symm, fun triple => ?_⟩, fun pkgName spec => ?_, fun pkgName => ?_,
    fun artifact => ?_, ?_⟩
  · rw [List.mem_append, List.mem_singleton]
    exact or_congr_right ⟨fun h => ⟨h.symm, hunmatched⟩, fun h => h.1.symm⟩
  · refine (or_iff_left fun h => ?_).symm
    rw [Faulty, hthis, defaultErrors, if_pos hprofile, hlatest] at h
    rcases h.2 with h | h <;> cases h
  · refine iff_of_false List.not_mem_nil fun h => ?_
    rw [Installs, hthis, hempty] at h
    obtain ⟨_, h, -⟩ := h
    cases h
  · refine (or_iff_left fun h => ?_).symm
    rw [Wants, hthis, hempty] at h
    obtain ⟨-, _, h, -⟩ := h
    cases h
  · refine (or_iff_left fun h => ?_).symm
    rw [Wants, hthis, hempty] at h
    obtain ⟨_, h, -⟩ := h
    cases h
  · exact (or_iff_left fun h => h.2.1 hunmatched).symm
  · rw [Bool.or_eq_true, beq_iff_eq, FromFailSafe, hthis]

theorem turned_matched {e : Entry} {latest : Module} (hlatest : base.latest e = some latest) (hmatched : ¬base.Unmatched e) (p : Progress) :
    let q := (base.profiles e latest).foldl (installProfile e.spec latest) { p with
      failSafe := p.failSafe || base.getRepoID latest == base.failSafeRepo
      errorSpecs := p.errorSpecs ++ base.defaultErrors e latest }
    Turned base e p { q with artifacts := q.artifacts ++ (e.modules.filter base.isModuleActive).flatMap base.getArtifacts } := by
  have hthis := exists_latest hlatest
  have hsome : base.latest e ≠ none := by simp [hlatest]
  obtain ⟨hnoMatch, herrors, hartifacts, hfailSafe, hinstalled⟩ := foldl_installProfile e.spec latest (base.profiles e latest)
    { p with
      failSafe := p.failSafe || base.getRepoID latest == base.failSafeRepo
      errorSpecs := p.errorSpecs ++ base.defaultErrors e latest }
  refine ⟨fun spec => ?_, fun spec => ?_, ⟨_, hinstalled, fun triple => ?_⟩, fun pkgName spec => ?_, fun pkgName => ?_, fun artifact => ?_, ?_⟩
  · rw [hnoMatch]
    exact (or_iff_left fun h => hmatched h.2).symm
  · rw [herrors, List.mem_append, Faulty, or_iff_right hsome, hthis]
    refine or_congr_right ⟨fun h => ?_, fun h => h.1 ▸ h.2⟩
    obtain rfl := mem_defaultErrors h
    exact ⟨rfl, h⟩
  · rw [Installs, hthis, List.mem_map]
    exact exists_congr fun profile => and_congr_right fun _ => eq_comm
  · refine (foldl_adds (fun q : Progress => spec ∈ (q.installDict.lookup pkgName).getD []) (fun profile => pkgName ∈ profile.content ∧ e.spec = spec)
      (fun q profile => installProfile_installDict e.spec spec latest q profile pkgName) (base.profiles e latest) _).trans (or_congr_right ?_)
    rw [Wants, hthis]
    constructor
    · rintro ⟨profile, hprofile, hcontent, hspec⟩
      exact ⟨hspec, profile, hprofile, hcontent⟩
    · rintro ⟨hspec, profile, hprofile, hcontent⟩
      exact ⟨profile, hprofile, hcontent, hspec⟩
  · refine (foldl_adds (fun q : Progress => pkgName ∈ q.installDict.map Prod.fst) (fun profile => pkgName ∈ profile.content)
      (fun q profile => installProfile_keys e.spec latest q profile pkgName) (base.profiles e latest) _).trans (or_congr_right ?_)
    rw [Wants, hthis]
  · rw [hartifacts, List.mem_append, Provides, and_iff_right hsome, and_iff_right hmatched]
    simp only [List.mem_flatMap, List.mem_filter, and_assoc]
  · rw [hfailSafe, Bool.or_eq_true, beq_iff_eq, FromFailSafe, hthis]

theorem turn_turned (base : Base) (p : Progress) (e : Entry) : Turned base e p (base.turn p e) := by
  rw [turn]
  cases hlatest : base.latest e with
  | none => exact turned_none hlatest p
  | some latest =>
      dsimp only
      split_ifs with hnone
      · exact turned_unmatched hlatest hnone.1 (List.isEmpty_iff.mp hnone.2) p
      · refine turned_matched hlatest (fun h => hnone ?_) p
        obtain ⟨hprofile, hempty⟩ := (exists_latest hlatest _).mp h
        exact ⟨hprofile, List.isEmpty_iff.mpr hempty⟩

/-! ### What the loops collect -/

/-- What all entries add. -/
structure Collected (base : Base) (es : List Entry) (p q : Progress) : Prop where
  noMatchSpecs : ∀ spec, spec ∈ q.noMatchSpecs ↔ spec ∈ p.noMatchSpecs ∨ ∃ e ∈ es, e.spec = spec ∧ base.Unmatched e
  errorSpecs : ∀ spec, spec ∈ q.errorSpecs ↔ spec ∈ p.errorSpecs ∨ ∃ e ∈ es, e.spec = spec ∧ base.Faulty e
  installed : ∃ added, q.installed = p.installed ++ added ∧ ∀ triple, triple ∈ added ↔ ∃ e ∈ es, base.Installs e triple
  installDict : ∀ pkgName spec, spec ∈ (q.installDict.lookup pkgName).getD [] ↔
    spec ∈ (p.installDict.lookup pkgName).getD [] ∨ ∃ e ∈ es, e.spec = spec ∧ base.Wants e pkgName
  keys : ∀ pkgName, pkgName ∈ q.installDict.map Prod.fst ↔ pkgName ∈ p.installDict.map Prod.fst ∨ ∃ e ∈ es, base.Wants e pkgName
  artifacts : ∀ artifact, artifact ∈ q.artifacts ↔ artifact ∈ p.artifacts ∨ ∃ e ∈ es, base.Provides e artifact
  failSafe : q.failSafe = true ↔ p.failSafe = true ∨ ∃ e ∈ es, base.FromFailSafe e

theorem foldl_turn_collected (base : Base) (es : List Entry) (p : Progress) : Collected base es p (es.foldl base.turn p) where
  noMatchSpecs spec := foldl_adds (fun q : Progress => spec ∈ q.noMatchSpecs) _ (fun p e => (turn_turned base p e).noMatchSpecs spec) es p
  errorSpecs spec := foldl_adds (fun q : Progress => spec ∈ q.errorSpecs) _ (fun p e => (turn_turned base p e).errorSpecs spec) es p
  installed := by
    induction es generalizing p with
    | nil => exact ⟨[], (List.append_nil _).symm, by simp⟩
    | cons e es ih =>
        obtain ⟨added, hadded, hmem⟩ := (turn_turned base p e).installed
        obtain ⟨later, hlater, hmemlater⟩ := ih (base.turn p e)
        refine ⟨added ++ later, by rw [List.foldl_cons, hlater, hadded, List.append_assoc], fun triple => ?_⟩
        rw [List.mem_append, hmem, hmemlater, List.exists_mem_cons_iff]
  installDict pkgName spec := foldl_adds (fun q : Progress => spec ∈ (q.installDict.lookup pkgName).getD []) _
    (fun p e => (turn_turned base p e).installDict pkgName spec) es p
  keys pkgName := foldl_adds (fun q : Progress => pkgName ∈ q.installDict.map Prod.fst) _ (fun p e => (turn_turned base p e).keys pkgName) es p
  artifacts artifact := foldl_adds (fun q : Progress => artifact ∈ q.artifacts) _ (fun p e => (turn_turned base p e).artifacts artifact) es p
  failSafe := foldl_adds (fun q : Progress => q.failSafe = true) _ (fun p e => (turn_turned base p e).failSafe) es p

theorem nodup_foldl {α : Type} {turn : Progress → α → Progress}
    (hturn : ∀ p a, (p.installDict.map Prod.fst).Nodup → ((turn p a).installDict.map Prod.fst).Nodup) (items : List α) {p : Progress}
    (hp : (p.installDict.map Prod.fst).Nodup) : ((items.foldl turn p).installDict.map Prod.fst).Nodup :=
  items.foldlRecOn turn hp fun q hq a _ => hturn q a hq

theorem nodup_installProfile (spec : String) (latest : Module) (p : Progress) (profile : Profile) (hp : (p.installDict.map Prod.fst).Nodup) :
    ((installProfile spec latest p profile).installDict.map Prod.fst).Nodup :=
  profile.content.foldlRecOn (motive := fun d => (d.map Prod.fst).Nodup) (addSpec spec) hp fun _ hd _ _ => nodup_keys_assign hd _ _

theorem nodup_turn (base : Base) (p : Progress) (e : Entry) (hp : (p.installDict.map Prod.fst).Nodup) : ((base.turn p e).installDict.map Prod.fst).Nodup := by
  rw [turn]
  cases base.latest e with
  | none => exact hp
  | some latest =>
      dsimp only
      split_ifs
      · exact hp
      · exact nodup_foldl (nodup_installProfile e.spec latest) _ hp

/-! ### The packages -/

/-- A package of an artifact that is provided, or of a name that is wanted from a hotfix repository. -/
def Modular (base : Base) (es : List Entry) (pkg : Package) : Prop :=
  (∃ e ∈ es, base.Provides e (base.artifact pkg)) ∨ (pkg.reponame ∈ base.hotfixRepos ∧ ∃ e ∈ es, base.Wants e pkg.name)

/-- The modular packages of a name are selected, and where there are none all packages of the name. -/
def Selected (base : Base) (es : List Entry) (pkgName : String) (pkg : Package) : Prop :=
  pkg ∈ base.noSource ∧ pkg.name = pkgName ∧ (Modular base es pkg ∨ ∀ other ∈ base.noSource, other.name = pkgName → ¬Modular base es other)

def Found (base : Base) (pkgName : String) : Prop := ∃ pkg ∈ base.noSource, pkg.name = pkgName

theorem mem_candidates {es : List Entry} {artifacts names : List String} (hartifacts : ∀ a, a ∈ artifacts ↔ ∃ e ∈ es, base.Provides e a)
    (hnames : ∀ n, n ∈ names ↔ ∃ e ∈ es, base.Wants e n) (pkgName : String) (pkg : Package) :
    pkg ∈ base.candidates artifacts names pkgName ↔ Selected base es pkgName pkg := by
  have hmodular : ∀ pkg, pkg ∈ (base.noSource.filter fun pkg =>
      (base.artifact pkg ∈ artifacts || (pkg.reponame ∈ base.hotfixRepos && pkg.name ∈ names)) && pkg.name == pkgName) ↔
      pkg ∈ base.noSource ∧ Modular base es pkg ∧ pkg.name = pkgName := by
    intro pkg
    simp only [List.mem_filter, Bool.and_eq_true, Bool.or_eq_true, decide_eq_true_eq, beq_iff_eq, hartifacts, hnames, Modular]
  rw [candidates, Selected]
  split_ifs with hnone
  · have hno : ∀ other ∈ base.noSource, other.name = pkgName → ¬Modular base es other := fun other hother hname h =>
      List.ne_nil_of_mem ((hmodular other).mpr ⟨hother, h, hname⟩) (List.isEmpty_iff.mp hnone)
    rw [List.mem_filter, beq_iff_eq, and_iff_left (b := _ ∨ _) (.inr hno)]
  · obtain ⟨other, hother⟩ := List.exists_mem_of_ne_nil _ fun h => hnone (List.isEmpty_iff.mpr h)
    obtain ⟨hsource, hmod, hname⟩ := (hmodular other).mp hother
    rw [hmodular]
    refine ⟨fun h => ⟨h.1, h.2.2, .inl h.2.1⟩, fun h => ⟨h.1, ?_, h.2.1⟩⟩
    exact h.2.2.resolve_right fun hno => hno other hsource hname hmod

theorem candidates_eq_nil {artifacts names : List String} (pkgName : String) : base.candidates artifacts names pkgName = [] ↔ ¬Found base pkgName := by
  rw [candidates]
  split_ifs with hnone
  · rw [List.filter_eq_nil_iff, Found]
    simp only [beq_iff_eq, not_exists, not_and]
  · refine iff_of_false (fun h => hnone (List.isEmpty_iff.mpr h)) (not_not_intro ?_)
    obtain ⟨pkg, hpkg⟩ := List.exists_mem_of_ne_nil _ fun h => hnone (List.isEmpty_iff.mpr h)
    rw [List.mem_filter, Bool.and_eq_true, beq_iff_eq] at hpkg
    exact ⟨pkg, hpkg.1, hpkg.2.2⟩

theorem installProfilesInternal_spec (base : Base) (artifacts names : List String) (strict : Bool) (dict : List (String × List String)) (s : State) (errors : List String) :
    let result := base.installProfilesInternal artifacts names strict dict s errors
    result.1.installed = s.installed ∧
    (∃ added, result.1.jobs = s.jobs ++ added ∧ ∀ job, job ∈ added ↔
      ∃ entry ∈ dict, Found base entry.1 ∧ job = (base.candidates artifacts names entry.1, !strict)) ∧
    ∀ spec, spec ∈ result.2 ↔ spec ∈ errors ∨ ∃ entry ∈ dict, ¬Found base entry.1 ∧ spec ∈ entry.2 := by
  induction dict generalizing s errors with
  | nil => exact ⟨rfl, ⟨[], (List.append_nil _).symm, by simp⟩, by simp [installProfilesInternal]⟩
  | cons entry dict ih =>
      rw [installProfilesInternal]
      by_cases hfound : Found base entry.1
      · rw [if_neg fun h => (candidates_eq_nil entry.1).mp (List.isEmpty_iff.mp h) hfound]
        obtain ⟨hinstalled, ⟨added, hjobs, hadded⟩, herrors⟩ := ih
          { s with
            jobs := s.jobs ++ [(base.candidates artifacts names entry.1, !strict)]
            groupMembers := s.groupMembers ++ [entry.1] } errors
        refine ⟨hinstalled, ⟨(base.candidates artifacts names entry.1, !strict) :: added, ?_, fun job => ?_⟩, fun spec => ?_⟩
        · rw [hjobs, List.append_assoc, List.singleton_append]
        · rw [List.mem_cons, hadded, List.exists_mem_cons_iff, and_iff_right hfound]
        · rw [herrors, List.exists_mem_cons_iff]
          exact or_congr_right (or_iff_right fun h => h.1 hfound).symm
      · rw [if_pos (List.isEmpty_iff.mpr ((candidates_eq_nil entry.1).mpr hfound))]
        obtain ⟨hinstalled, ⟨added, hjobs, hadded⟩, herrors⟩ := ih s (errors ++ entry.2)
        refine ⟨hinstalled, ⟨added, hjobs, fun job => ?_⟩, fun spec => ?_⟩
        · rw [hadded, List.exists_mem_cons_iff, or_iff_right (fun h => hfound h.1)]
        · rw [herrors, List.mem_append, List.exists_mem_cons_iff, and_iff_right hfound, or_assoc]

/-! ### The whole installation -/

/-- Each wanted package that is found has its job, and there are no others. -/
structure Marks (base : Base) (es : List Entry) (strict : Bool) (added : List (List Package × Bool)) : Prop where
  only : ∀ job ∈ added, job.2 = !strict ∧ ∃ pkgName, (∃ e ∈ es, base.Wants e pkgName) ∧ Found base pkgName ∧ ∀ pkg, pkg ∈ job.1 ↔ Selected base es pkgName pkg
  all : ∀ e ∈ es, ∀ pkgName, base.Wants e pkgName → Found base pkgName → ∃ job ∈ added, ∀ pkg, pkg ∈ job.1 ↔ Selected base es pkgName pkg

/-- A spec of an error: it came with one, a stream of it is faulty, or a package that it wants is not found. -/
def Fails (base : Base) (es : List Entry) (errorSpecs : List String) (spec : String) : Prop :=
  spec ∈ errorSpecs ∨ ∃ e ∈ es, e.spec = spec ∧ (base.Faulty e ∨ ∃ pkgName, base.Wants e pkgName ∧ ¬Found base pkgName)

def Misses (base : Base) (es : List Entry) (noMatchSpecs : List String) (spec : String) : Prop :=
  spec ∈ noMatchSpecs ∨ ∃ e ∈ es, e.spec = spec ∧ base.Unmatched e

theorem marks_of_collected {es : List Entry} {noMatchSpecs errorSpecs : List String} {q : Progress}
    (h : Collected base es { noMatchSpecs, errorSpecs } q) (hkeys : (q.installDict.map Prod.fst).Nodup) (strict : Bool) (s : State) :
    let result := base.installProfilesInternal q.artifacts (q.installDict.map Prod.fst) strict q.installDict s []
    result.1.installed = s.installed ∧ (∃ added, result.1.jobs = s.jobs ++ added ∧ Marks base es strict added) ∧
      ∀ spec, spec ∈ q.errorSpecs ++ result.2 ↔ Fails base es errorSpecs spec := by
  obtain ⟨hinstalled, ⟨added, hjobs, hadded⟩, herrors⟩ := installProfilesInternal_spec base q.artifacts (q.installDict.map Prod.fst) strict
    q.installDict s []
  have hnames : ∀ n, n ∈ q.installDict.map Prod.fst ↔ ∃ e ∈ es, base.Wants e n := fun n => (h.keys n).trans (or_iff_right List.not_mem_nil)
  have hartifacts : ∀ a, a ∈ q.artifacts ↔ ∃ e ∈ es, base.Provides e a := fun a => (h.artifacts a).trans (or_iff_right List.not_mem_nil)
  have hwanted : ∀ n spec, spec ∈ (q.installDict.lookup n).getD [] ↔ ∃ e ∈ es, e.spec = spec ∧ base.Wants e n := fun n spec =>
    (h.installDict n spec).trans (or_iff_right List.not_mem_nil)
  refine ⟨hinstalled, ⟨added, hjobs, fun job hjob => ?_, fun e he pkgName hwants hfound => ?_⟩, fun spec => ?_⟩
  · obtain ⟨entry, hentry, hfound, rfl⟩ := (hadded job).mp hjob
    exact ⟨rfl, entry.1, (hnames _).mp (List.mem_map_of_mem hentry), hfound, mem_candidates hartifacts hnames entry.1⟩
  · obtain ⟨entry, hentry, rfl⟩ := List.mem_map.mp ((hnames pkgName).mpr ⟨e, he, hwants⟩)
    exact ⟨_, (hadded _).mpr ⟨entry, hentry, hfound, rfl⟩, mem_candidates hartifacts hnames entry.1⟩
  · rw [List.mem_append, h.errorSpecs, herrors, or_iff_right List.not_mem_nil, Fails, or_assoc]
    refine or_congr_right ?_
    constructor
    · rintro (⟨e, he, hspec, hfaulty⟩ | ⟨⟨n, specs⟩, hentry, hnot, hmem⟩)
      · exact ⟨e, he, hspec, .inl hfaulty⟩
      · rw [mem_iff_lookup hkeys] at hentry
        obtain ⟨e, he, hspec, hwants⟩ := (hwanted n spec).mp (by rw [hentry]; exact hmem)
        exact ⟨e, he, hspec, .inr ⟨n, hwants, hnot⟩⟩
    · rintro ⟨e, he, hspec, hfaulty | ⟨n, hwants, hnot⟩⟩
      · exact .inl ⟨e, he, hspec, hfaulty⟩
      · have hmem := (hwanted n spec).mpr ⟨e, he, hspec, hwants⟩
        cases hlookup : q.installDict.lookup n with
        | none => rw [hlookup] at hmem; cases hmem
        | some specs =>
            rw [hlookup] at hmem
            exact .inr ⟨(n, specs), (mem_iff_lookup hkeys n specs).mpr hlookup, hnot, hmem⟩

theorem install_apply (noMatchSpecs errorSpecs : List String) (solverErrors : Bool) (moduleDicts : List (String × String × List (String × StreamDict)))
    (strict : Bool) (s : State) :
    base.install noMatchSpecs errorSpecs solverErrors moduleDicts strict s =
      let q := (entries moduleDicts).foldl base.turn { noMatchSpecs, errorSpecs }
      let u := { s with installed := s.installed ++ q.installed }
      let t := base.installProfilesInternal q.artifacts (q.installDict.map Prod.fst) strict q.installDict u []
      if q.failSafe then .error .failSafe u
      else if q.noMatchSpecs ≠ [] ∨ q.errorSpecs ++ t.2 ≠ [] ∨ solverErrors then .error (.markingErrors q.noMatchSpecs (q.errorSpecs ++ t.2)) t.1
      else .ok ⟨⟩ t.1 := by
  rw [install, bind_apply, modify_apply]
  dsimp only
  by_cases hfail : ((entries moduleDicts).foldl base.turn { noMatchSpecs, errorSpecs }).failSafe = true
  · rw [if_pos hfail, if_pos hfail]
    rfl
  · rw [if_neg hfail, if_neg hfail, bind_apply, get_apply]
    dsimp only
    rw [bind_apply, set_apply]
    dsimp only
    split_ifs <;> rfl

/-- The profiles that are wanted are installed in any case. From the fail-safe repository nothing is marked; otherwise each wanted package that is found is, and exactly the specs that miss a profile or fail otherwise are reported. -/
theorem install_marks (base : Base) (noMatchSpecs errorSpecs : List String) (solverErrors : Bool)
    (moduleDicts : List (String × String × List (String × StreamDict))) (strict : Bool) (s : State) :
    let es := entries moduleDicts
    let result := base.install noMatchSpecs errorSpecs solverErrors moduleDicts strict s
    (∃ installed, (final result).installed = s.installed ++ installed ∧ ∀ triple, triple ∈ installed ↔ ∃ e ∈ es, base.Installs e triple) ∧
    match result with
    | .error .failSafe t => (∃ e ∈ es, base.FromFailSafe e) ∧ t.jobs = s.jobs
    | .error (.markingErrors noMatch errors) t => (∀ e ∈ es, ¬base.FromFailSafe e) ∧ (∃ added, t.jobs = s.jobs ++ added ∧ Marks base es strict added) ∧
        (∀ spec, spec ∈ noMatch ↔ Misses base es noMatchSpecs spec) ∧ (∀ spec, spec ∈ errors ↔ Fails base es errorSpecs spec) ∧
        (noMatch ≠ [] ∨ errors ≠ [] ∨ solverErrors = true)
    | .ok _ t => (∀ e ∈ es, ¬base.FromFailSafe e) ∧ (∃ added, t.jobs = s.jobs ++ added ∧ Marks base es strict added) ∧
        (∀ spec, ¬Misses base es noMatchSpecs spec ∧ ¬Fails base es errorSpecs spec) ∧ solverErrors = false := by
  intro es result
  have hcollected := foldl_turn_collected base es { noMatchSpecs, errorSpecs }
  have hkeys := nodup_foldl (nodup_turn base) es (p := { noMatchSpecs, errorSpecs }) List.nodup_nil
  generalize hq : es.foldl base.turn { noMatchSpecs, errorSpecs } = q at hcollected hkeys
  obtain ⟨installed, hinstalled, hmem⟩ := hcollected.installed
  obtain ⟨hkept, ⟨added, hjobs, hmarks⟩, herrors⟩ := marks_of_collected hcollected hkeys strict { s with installed := s.installed ++ q.installed }
  have hmisses : ∀ spec, spec ∈ q.noMatchSpecs ↔ Misses base es noMatchSpecs spec := hcollected.noMatchSpecs
  have hfailSafe : q.failSafe = true ↔ ∃ e ∈ es, base.FromFailSafe e := hcollected.failSafe.trans (or_iff_right Bool.false_ne_true)
  have hrun : result = _ := install_apply noMatchSpecs errorSpecs solverErrors moduleDicts strict s
  rw [show (entries moduleDicts).foldl base.turn { noMatchSpecs, errorSpecs } = q from hq] at hrun
  have hadded : s.installed ++ q.installed = s.installed ++ installed := congrArg (s.installed ++ ·) hinstalled
  dsimp only at hrun
  rw [hrun]
  by_cases hfail : q.failSafe = true
  · rw [if_pos hfail]
    exact ⟨⟨installed, hadded, hmem⟩, hfailSafe.mp hfail, rfl⟩
  · have hsafe : ∀ e ∈ es, ¬base.FromFailSafe e := fun e he h => hfail (hfailSafe.mpr ⟨e, he, h⟩)
    rw [if_neg hfail]
    split_ifs with hproblem
    · exact ⟨⟨installed, hkept.trans hadded, hmem⟩, hsafe, ⟨added, hjobs, hmarks⟩, hmisses, herrors, hproblem⟩
    · rw [not_or, not_or, not_not, not_not] at hproblem
      refine ⟨⟨installed, hkept.trans hadded, hmem⟩, hsafe, ⟨added, hjobs, hmarks⟩, fun spec => ⟨?_, ?_⟩, Bool.not_eq_true _ ▸ hproblem.2.2⟩
      · rw [← hmisses, hproblem.1]
        exact List.not_mem_nil
      · rw [← herrors, hproblem.2.1]
        exact List.not_mem_nil

end Base

end Dnf.Modules.Installing
