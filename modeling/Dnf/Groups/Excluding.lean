import Dnf.Foundation.Fnmatch
import Dnf.Groups.Upgrade

/-!
# Excluded packages of a group

`Base.group_install` turns the patterns to exclude into names, and both layers below it hand them on. `Solver._group_install` is where they end: it asks for the packages of the selected types with an empty list of excludes. So every package of the selected types is picked, and the excludes are honoured only if they match none of them.
-/

namespace Dnf.Groups

open History Foundation

/-- `_pattern_to_pkgname`, where `sack` has the names of the packages of the sack. -/
def patternToPkgname (sack : List String) (pattern : String) : List String :=
  if Fnmatch.isGlobPattern pattern then sack.filter fun name => Fnmatch.fnmatch name pattern else [pattern]

/-- `_pkgs_of_type` -/
def pkgsOfTypeExcluding (codes : TypeCodes) (group : Group) (pkgTypes : Nat) (exclude : List String) : Finset Package :=
  let filter (pkgs : List Package) : List Package := pkgs.filter fun pkg => pkg.name ∉ exclude
  (if pkgTypes &&& codes.libdnf .mandatory ≠ 0 then (filter (group.packagesOfType .mandatory)).toFinset else ∅) ∪
  (if pkgTypes &&& codes.libdnf .default ≠ 0 then (filter (group.packagesOfType .default)).toFinset else ∅) ∪
  (if pkgTypes &&& codes.libdnf .optional ≠ 0 then (filter (group.packagesOfType .optional)).toFinset else ∅) ∪
  (if pkgTypes &&& codes.libdnf .conditional ≠ 0 then (filter (group.packagesOfType .conditional)).toFinset else ∅)

theorem pkgsOfTypeExcluding_nil (codes : TypeCodes) (group : Group) (pkgTypes : Nat) :
    pkgsOfTypeExcluding codes group pkgTypes [] = pkgsOfType codes group pkgTypes := by
  have hall : ∀ pkgs : List Package, (pkgs.filter fun pkg => pkg.name ∉ ([] : List String)) = pkgs := fun pkgs =>
    List.filter_eq_self.mpr fun pkg _ => decide_eq_true List.not_mem_nil
  simp only [pkgsOfTypeExcluding, hall]
  rfl

namespace Solver

variable (solver : Solver)

/-- `_group_install` with all its arguments; `exclude` is not looked at. -/
def groupInstallExcluding (groupId : String) (pkgTypes : Nat) (_exclude : List String) (strict : Bool) : Prog TransactionBunch :=
  match solver.comps.groupById groupId with
  | none => throw (.compsError ("Group id '" ++ groupId ++ "' does not exist."))
  | some group => do
      callGroup .install (solver.newGroup groupId group pkgTypes)
      let picked := (pkgsOfTypeExcluding solver.codes group pkgTypes []).image Entry.raw
      pure (if strict then { install := picked, steps := [.install group pkgTypes] }
        else { installOpt := picked, steps := [.install group pkgTypes] })

/-- `_environment_install` with all its arguments. -/
def environmentInstallExcluding (envId : String) (pkgTypes : Nat) (exclude : List String) (strict : Bool) (excludeGroups : List String) :
    Prog TransactionBunch :=
  match solver.comps.environmentById envId with
  | none => throw (.compsError ("Environment id '" ++ envId ++ "' does not exist."))
  | some env => do
      let mandatory := (solver.comps.buildGroups env.groupIds).filter fun group => group.id ∉ excludeGroups
      let optional := (solver.comps.buildGroups env.optionIds).filter fun group => group.id ∉ excludeGroups
      callEnv .install (solver.newEnvironment envId env pkgTypes mandatory optional)
      mandatory.foldlM (fun trans group => do join trans (← solver.groupInstallExcluding group.id pkgTypes exclude strict)) {}

/-- `Base.group_install`, up to the bunch that it adds to the transaction. -/
def baseGroupInstall (sack : List String) (grpId : String) (pkgTypes : Nat) (exclude : List String) (strict : Bool) : Prog TransactionBunch := do
  let excludePkgnames := exclude.flatMap (patternToPkgname sack)
  let trans ← solver.groupInstallExcluding grpId pkgTypes excludePkgnames strict
  if trans.length = 0 then pure trans
  else do
    addCompsTrans trans
    pure trans

/-! ### The excludes are dropped -/

theorem groupInstallExcluding_eq (groupId : String) (pkgTypes : Nat) (exclude : List String) (strict : Bool) :
    solver.groupInstallExcluding groupId pkgTypes exclude strict = solver.groupInstall groupId pkgTypes strict := by
  rw [groupInstallExcluding, groupInstall]
  cases solver.comps.groupById groupId with
  | none => rfl
  | some group => simp only [pkgsOfTypeExcluding_nil]

theorem environmentInstallExcluding_eq (envId : String) (pkgTypes : Nat) (exclude : List String) (strict : Bool) (excludeGroups : List String) :
    solver.environmentInstallExcluding envId pkgTypes exclude strict excludeGroups =
      solver.environmentInstall envId pkgTypes strict excludeGroups := by
  rw [environmentInstallExcluding, environmentInstall]
  cases solver.comps.environmentById envId with
  | none => rfl
  | some env => simp only [groupInstallExcluding_eq]

end Solver

/-! ### What is picked -/

/-- The ways to install: a group through `Base` or the solver, or an environment through the solver. -/
inductive Route
  | base (grpId : String)
  | group (groupId : String)
  | environment (envId : String) (excludeGroups : List String)

namespace Route

def run (solver : Solver) (sack : List String) (pkgTypes : Nat) (exclude : List String) (strict : Bool) : Route → Prog TransactionBunch
  | base grpId => solver.baseGroupInstall sack grpId pkgTypes exclude strict
  | group groupId => solver.groupInstallExcluding groupId pkgTypes exclude strict
  | environment envId excludeGroups => solver.environmentInstallExcluding envId pkgTypes exclude strict excludeGroups

/-- The groups whose packages are to be installed. -/
def groups (comps : Comps) : Route → Option (List Group)
  | base grpId => (comps.groupById grpId).map fun group => [group]
  | group groupId => (comps.groupById groupId).map fun group => [group]
  | environment envId excludeGroups =>
      (comps.environmentById envId).map fun env => (comps.buildGroups env.groupIds).filter fun group => group.id ∉ excludeGroups

end Route

/-- The name is matched by one of the patterns. -/
def Excluded (exclude : List String) (name : String) : Prop :=
  ∃ pattern ∈ exclude, if Fnmatch.isGlobPattern pattern then Fnmatch.fnmatch name pattern = true else name = pattern

/-- A package of the selected types. -/
def Selected (codes : TypeCodes) (pkgTypes : Nat) (groups : List Group) (pkg : Package) : Prop :=
  ∃ group ∈ groups, pkg ∈ pkgsOfType codes group pkgTypes

/-- The bunch installs what is selected, without some packages. -/
structure Picks (wanted : Package → Prop) (strict : Bool) (trans : TransactionBunch) : Prop where
  install : ∀ e, e ∈ trans.install ↔ strict = true ∧ ∃ pkg, wanted pkg ∧ e = .raw pkg
  installOpt : ∀ e, e ∈ trans.installOpt ↔ strict = false ∧ ∃ pkg, wanted pkg ∧ e = .raw pkg

/-- The bunch installs exactly what is selected and not excluded. -/
def HonoursExcludes (codes : TypeCodes) (pkgTypes : Nat) (groups : List Group) (exclude : List String) (strict : Bool) (trans : TransactionBunch) : Prop :=
  Picks (fun pkg => Selected codes pkgTypes groups pkg ∧ ¬Excluded exclude pkg.name) strict trans

section Runs

variable {solver : Solver} {pkgTypes : Nat} {strict : Bool}

theorem groupInstall_picks (pkgTypes : Nat) (strict : Bool) {groupId : String} {group : Group} (hgroup : solver.comps.groupById groupId = some group) (s : State) :
    ∃ trans t, solver.groupInstall groupId pkgTypes strict s = .ok trans t ∧ Picks (Selected solver.codes pkgTypes [group]) strict trans := by
  have himage : ∀ e, e ∈ (pkgsOfType solver.codes group pkgTypes).image Entry.raw ↔ ∃ pkg, Selected solver.codes pkgTypes [group] pkg ∧ e = .raw pkg := by
    intro e
    rw [Finset.mem_image]
    refine exists_congr fun pkg => and_congr ?_ eq_comm
    rw [Selected]
    simp only [List.mem_singleton, exists_eq_left]
  rw [Solver.groupInstall, hgroup]
  refine ⟨_, _, rfl, ?_⟩
  cases strict with
  | true => exact ⟨fun e => (himage e).trans (and_iff_right rfl).symm, fun e => iff_of_false (Finset.notMem_empty e) fun h => Bool.false_ne_true h.1.symm⟩
  | false => exact ⟨fun e => iff_of_false (Finset.notMem_empty e) fun h => Bool.false_ne_true h.1, fun e => (himage e).trans (and_iff_right rfl).symm⟩

theorem Picks.iadd {wanted wanted' : Package → Prop} {trans other : TransactionBunch} (h : Picks wanted strict trans) (h' : Picks wanted' strict other) :
    Picks (fun pkg => wanted pkg ∨ wanted' pkg) strict (trans.iadd other) where
  install := fun e => by
    show e ∈ trans.install ∪ other.install ↔ _
    rw [Finset.mem_union, h.install, h'.install, ← and_or_left]
    simp only [or_and_right, exists_or]
  installOpt := fun e => by
    show e ∈ trans.installOpt ∪ other.installOpt ↔ _
    rw [Finset.mem_union, h.installOpt, h'.installOpt, ← and_or_left]
    simp only [or_and_right, exists_or]

theorem Picks.congr {wanted wanted' : Package → Prop} {trans : TransactionBunch} (hiff : ∀ pkg, wanted pkg ↔ wanted' pkg) (h : Picks wanted strict trans) :
    Picks wanted' strict trans where
  install := fun e => by simp only [h.install, hiff]
  installOpt := fun e => by simp only [h.installOpt, hiff]

/-- One group after another, from a bunch that has picked something already. -/
theorem foldlM_groupInstall {groups : List Group} (hgroups : ∀ group ∈ groups, solver.comps.groupById group.id = some group)
    {wanted : Package → Prop} {trans : TransactionBunch} (h : Picks wanted strict trans) (s : State) :
    ∃ trans' t, (groups.foldlM (fun trans group => do join trans (← solver.groupInstall group.id pkgTypes strict)) trans : Prog TransactionBunch) s =
        .ok trans' t ∧
      Picks (fun pkg => wanted pkg ∨ Selected solver.codes pkgTypes groups pkg) strict trans' := by
  induction groups generalizing wanted trans s with
  | nil =>
      refine ⟨trans, s, rfl, h.congr fun pkg => (or_iff_left ?_).symm⟩
      rintro ⟨group, hgroup, -⟩
      cases hgroup
  | cons group groups ih =>
      obtain ⟨other, t, hrun, hother⟩ := groupInstall_picks pkgTypes strict (hgroups group List.mem_cons_self) s
      obtain ⟨trans', u, hrest, hpicks⟩ := ih (fun g hg => hgroups g (List.mem_cons_of_mem _ hg)) (h.iadd hother)
        { t with accumulated := trans.iadd other :: t.accumulated }
      refine ⟨trans', u, ?_, hpicks.congr fun pkg => ?_⟩
      · rw [List.foldlM_cons, Effect.bind_apply, Effect.bind_apply, hrun]
        exact hrest
      · simp only [Selected, List.mem_cons, List.not_mem_nil, or_false, exists_eq_or_imp, exists_eq_left, or_assoc]

theorem groupById_of_mem_buildGroups {comps : Comps} {ids : List String} {group : Group} (h : group ∈ comps.buildGroups ids) :
    comps.groupById group.id = some group := by
  obtain ⟨id, -, hid⟩ := List.mem_filterMap.mp h
  have hfind : comps.groups.find? (·.id = id) = some group := hid
  have htest := List.find?_some hfind
  have hsame : group.id = id := of_decide_eq_true htest
  rw [hsame]
  exact hid

/-- Every way to install ends well if its group or environment exists, and it picks all packages of the selected types. -/
theorem Route.run_picks {route : Route} {groups : List Group} (hgroups : route.groups solver.comps = some groups) (sack exclude : List String) (s : State) :
    ∃ trans t, route.run solver sack pkgTypes exclude strict s = .ok trans t ∧ Picks (Selected solver.codes pkgTypes groups) strict trans := by
  cases route with
  | base grpId =>
      obtain ⟨group, hgroup, rfl⟩ := Option.map_eq_some_iff.mp hgroups
      obtain ⟨trans, t, hrun, hpicks⟩ := groupInstall_picks pkgTypes strict hgroup s
      rw [Route.run, Solver.baseGroupInstall, Solver.groupInstallExcluding_eq, Effect.bind_apply, hrun]
      dsimp only
      split_ifs
      · exact ⟨trans, t, rfl, hpicks⟩
      · exact ⟨trans, _, rfl, hpicks⟩
  | group groupId =>
      obtain ⟨group, hgroup, rfl⟩ := Option.map_eq_some_iff.mp hgroups
      rw [Route.run, Solver.groupInstallExcluding_eq]
      exact groupInstall_picks pkgTypes strict hgroup s
  | environment envId excludeGroups =>
      obtain ⟨env, henv, rfl⟩ := Option.map_eq_some_iff.mp hgroups
      rw [Route.run, Solver.environmentInstallExcluding_eq, Solver.environmentInstall, henv]
      have hnothing : Picks (fun _ => False) strict ({} : TransactionBunch) :=
        ⟨fun e => iff_of_false (Finset.notMem_empty e) fun h => h.2.elim fun _ h => h.1,
          fun e => iff_of_false (Finset.notMem_empty e) fun h => h.2.elim fun _ h => h.1⟩
      obtain ⟨trans, t, hrun, hpicks⟩ := foldlM_groupInstall (fun group hgroup =>
        groupById_of_mem_buildGroups (List.mem_filter.mp hgroup).1) hnothing _
      exact ⟨trans, t, hrun, hpicks.congr fun pkg => or_iff_right not_false⟩

theorem honoursExcludes_iff {groups : List Group} {exclude : List String} {trans : TransactionBunch} (h : Picks (Selected solver.codes pkgTypes groups) strict trans) :
    HonoursExcludes solver.codes pkgTypes groups exclude strict trans ↔
      ∀ pkg, Selected solver.codes pkgTypes groups pkg → ¬Excluded exclude pkg.name := by
  constructor
  · intro hhonours pkg hselected
    cases strict with
    | true =>
        obtain ⟨-, other, hother, heq⟩ := (hhonours.install _).mp ((h.install _).mpr ⟨rfl, pkg, hselected, rfl⟩)
        rw [Entry.raw.inj heq]
        exact hother.2
    | false =>
        obtain ⟨-, other, hother, heq⟩ := (hhonours.installOpt _).mp ((h.installOpt _).mpr ⟨rfl, pkg, hselected, rfl⟩)
        rw [Entry.raw.inj heq]
        exact hother.2
  · intro hnone
    exact h.congr fun pkg => (and_iff_left_of_imp (hnone pkg)).symm

end Runs

theorem install_honoursExcludes_iff {solver : Solver} {route : Route} {groups : List Group} (hgroups : route.groups solver.comps = some groups)
    (sack : List String) (pkgTypes : Nat) (exclude : List String) (strict : Bool) (s : State) :
    (∃ trans t, route.run solver sack pkgTypes exclude strict s = .ok trans t ∧
        HonoursExcludes solver.codes pkgTypes groups exclude strict trans) ↔
      ∀ pkg, Selected solver.codes pkgTypes groups pkg → ¬Excluded exclude pkg.name := by
  obtain ⟨trans, t, hrun, hpicks⟩ := Route.run_picks hgroups sack exclude s
  constructor
  · rintro ⟨trans', t', hrun', hhonours⟩
    rw [hrun, EStateM.Result.ok.injEq] at hrun'
    exact (honoursExcludes_iff hpicks).mp (hrun'.1.symm ▸ hhonours)
  · intro hnone
    exact ⟨trans, t, hrun, (honoursExcludes_iff hpicks).mpr hnone⟩

/-- Only a pattern that matches no package of the selected types does as it says. -/
theorem install_honoursExcludes_optional :
    ∃ trans t, (Route.base "base").run (solverOf [baseDefinition] baseRecord) [] 4 ["t*"] true ⟨{}, {}, []⟩ = .ok trans t ∧
      HonoursExcludes typeCodes 4 [baseDefinition] ["t*"] true trans := by
  have hgroups : (Route.base "base").groups (solverOf [baseDefinition] baseRecord).comps = some [baseDefinition] := by decide +kernel
  refine (install_honoursExcludes_iff hgroups [] 4 ["t*"] true _).mpr ?_
  rintro pkg ⟨group, hgroup, hpkg⟩ hexcluded
  rw [List.mem_singleton.mp hgroup] at hpkg
  have hname : pkg.name = "pepper" := by
    have hall : ∀ pkg ∈ pkgsOfType typeCodes baseDefinition 4, pkg.name = "pepper" := by decide +kernel
    exact hall pkg hpkg
  rw [hname] at hexcluded
  obtain ⟨pattern, hpattern, hmatch⟩ := hexcluded
  rw [List.mem_singleton.mp hpattern] at hmatch
  revert hmatch
  decide +kernel

/-- The mandatory package is installed although its name is excluded. -/
theorem not_install_honoursExcludes :
    ¬∃ trans t, (Route.base "base").run (solverOf [baseDefinition] baseRecord) ["pepper"] 4 ["pepper"] true ⟨{}, {}, []⟩ = .ok trans t ∧
      HonoursExcludes typeCodes 4 [baseDefinition] ["pepper"] true trans := by
  have hgroups : (Route.base "base").groups (solverOf [baseDefinition] baseRecord).comps = some [baseDefinition] := by decide +kernel
  refine mt (install_honoursExcludes_iff hgroups ["pepper"] 4 ["pepper"] true _).mp fun hnone => ?_
  exact hnone ⟨"pepper", .mandatory, false, none⟩ ⟨baseDefinition, List.mem_cons_self, by decide +kernel⟩
    ⟨"pepper", List.mem_cons_self, by decide +kernel⟩

end Dnf.Groups
