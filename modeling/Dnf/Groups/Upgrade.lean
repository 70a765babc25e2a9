import Dnf.Groups.Solver

/-!
# The difference a group upgrade computes

`_group_upgrade` compares the names of all packages of the record with the packages the selected types pick from the new definition. What it should compare are the packages the selected types pick on both sides. The two agree exactly when the record has no name that its selected types do not pick.
-/

namespace Dnf.Groups

open History

/-- The selected types of the record pick `name` from it. -/
def PickedFromRecord (record : CompsItem) (name : String) : Prop :=
  ∃ pkg ∈ record.members, pkg.name = name ∧ record.packageTypes &&& pkg.type ≠ 0

/-- The selected types pick `pkg` from the new definition. -/
def PickedFromGroup (codes : TypeCodes) (record : CompsItem) (group : Group) (pkg : Package) : Prop :=
  pkg ∈ group.packages ∧ record.packageTypes &&& codes.libdnf pkg.type ≠ 0

/-- The bunch is the difference between what the selected types pick from the record and from the new definition. -/
structure RightDifference (codes : TypeCodes) (record : CompsItem) (group : Group) (trans : TransactionBunch) : Prop where
  install : ∀ e, e ∈ trans.install ↔
    ∃ pkg, PickedFromGroup codes record group pkg ∧ ¬PickedFromRecord record pkg.name ∧ e = .trans (.ofComps codes pkg)
  upgrade : ∀ e, e ∈ trans.upgrade ↔
    ∃ pkg, PickedFromGroup codes record group pkg ∧ PickedFromRecord record pkg.name ∧ e = .trans (.ofComps codes pkg)
  remove : ∀ name, (∃ e ∈ trans.remove, e.name = name) ↔
    PickedFromRecord record name ∧ ¬∃ pkg, PickedFromGroup codes record group pkg ∧ pkg.name = name

variable {solver : Solver} {record : CompsItem} {group : Group}

/-- The record has a package named `name`, of whatever type. -/
def InRecord (record : CompsItem) (name : String) : Prop := ∃ pkg ∈ record.members, pkg.name = name

theorem mem_upgradeBunch_install {e : Entry} : e ∈ (solver.upgradeBunch record group).install ↔
    ∃ pkg, PickedFromGroup solver.codes record group pkg ∧ ¬InRecord record pkg.name ∧ e = .trans (.ofComps solver.codes pkg) := by
  simp only [Solver.upgradeBunch, ofPackages, Finset.mem_image, Finset.mem_filter, mem_pkgsOfType, List.mem_toFinset, List.mem_map,
    PickedFromGroup, InRecord, and_assoc, eq_comm (a := e)]

theorem mem_upgradeBunch_upgrade {e : Entry} : e ∈ (solver.upgradeBunch record group).upgrade ↔
    ∃ pkg, PickedFromGroup solver.codes record group pkg ∧ InRecord record pkg.name ∧ e = .trans (.ofComps solver.codes pkg) := by
  simp only [Solver.upgradeBunch, ofPackages, Finset.mem_image, Finset.mem_filter, mem_pkgsOfType, List.mem_toFinset, List.mem_map,
    PickedFromGroup, InRecord, and_assoc, eq_comm (a := e)]

theorem mem_upgradeBunch_remove {e : Entry} : e ∈ (solver.upgradeBunch record group).remove ↔
    ∃ name, (InRecord record name ∧ ¬∃ pkg, PickedFromGroup solver.codes record group pkg ∧ pkg.name = name) ∧
      e = .trans (.ofName name) := by
  simp only [Solver.upgradeBunch, Finset.mem_image, Finset.mem_filter, mem_pkgsOfType, List.mem_toFinset, List.mem_map,
    PickedFromGroup, InRecord, eq_comm (a := e)]

theorem inRecord_of_picked {name : String} (h : PickedFromRecord record name) : InRecord record name := by
  obtain ⟨pkg, hpkg, hname, -⟩ := h
  exact ⟨pkg, hpkg, hname⟩

/-- The bunch is right when every name of the record is picked from it. -/
theorem rightDifference_of_picked (hpicked : ∀ name, InRecord record name → PickedFromRecord record name) :
    RightDifference solver.codes record group (solver.upgradeBunch record group) := by
  have hiff : ∀ name, InRecord record name ↔ PickedFromRecord record name := fun name => ⟨hpicked name, inRecord_of_picked⟩
  refine ⟨fun e => ?_, fun e => ?_, fun name => ?_⟩
  · simp only [mem_upgradeBunch_install, hiff]
  · simp only [mem_upgradeBunch_upgrade, hiff]
  · simp only [mem_upgradeBunch_remove, hiff]
    constructor
    · intro ⟨e, ⟨n, hn, he⟩, hname⟩
      subst he
      cases hname
      exact hn
    · intro hname
      exact ⟨_, ⟨name, hname, rfl⟩, rfl⟩

/-- A name of the record that is not picked from it shows: it is upgraded if the new definition has it and removed if not. -/
theorem picked_of_rightDifference (hright : RightDifference solver.codes record group (solver.upgradeBunch record group))
    {name : String} (hname : InRecord record name) : PickedFromRecord record name := by
  by_cases hgroup : ∃ pkg, PickedFromGroup solver.codes record group pkg ∧ pkg.name = name
  · obtain ⟨pkg, hpkg, hpkgName⟩ := hgroup
    have hupgrade := mem_upgradeBunch_upgrade.mpr ⟨pkg, hpkg, hpkgName ▸ hname, rfl⟩
    obtain ⟨other, -, hother, heq⟩ := (hright.upgrade _).mp hupgrade
    have hsame : pkg.name = other.name := congrArg Entry.name heq
    rwa [← hpkgName, hsame]
  · exact ((hright.remove name).mp ⟨_, mem_upgradeBunch_remove.mpr ⟨name, ⟨hname, hgroup⟩, rfl⟩, rfl⟩).1

/-- The upgrade of an installed group that is still defined returns normally. -/
theorem groupUpgrade_eq_ok {groupId : String} (hrecord : solver.swdb.getCompsGroupItem groupId = some record)
    (hgroup : solver.comps.groupById groupId = some group) (s : State) :
    ∃ t, solver.groupUpgrade groupId s = .ok (solver.upgradeBunch record group) t := by
  rw [Solver.groupUpgrade, hrecord, hgroup]
  exact ⟨_, rfl⟩

/-- Upgrading an installed group that is still defined computes the right difference exactly when the selected types pick every name of its record. -/
theorem groupUpgrade_right_iff {groupId : String} (hrecord : solver.swdb.getCompsGroupItem groupId = some record)
    (hgroup : solver.comps.groupById groupId = some group) (s : State) :
    (∃ trans t, solver.groupUpgrade groupId s = .ok trans t ∧ RightDifference solver.codes record group trans) ↔
      ∀ pkg ∈ record.members, PickedFromRecord record pkg.name := by
  obtain ⟨t, hrun⟩ := groupUpgrade_eq_ok hrecord hgroup s
  constructor
  · intro ⟨bunch, u, hother, hright⟩ pkg hpkg
    rw [hrun, EStateM.Result.ok.injEq] at hother
    rw [← hother.1] at hright
    exact picked_of_rightDifference hright ⟨pkg, hpkg, rfl⟩
  · intro hpicked
    refine ⟨_, t, hrun, rightDifference_of_picked fun name ⟨pkg, hpkg, hname⟩ => ?_⟩
    exact hname ▸ hpicked pkg hpkg

/-! ### A group whose optional package was never selected -/

/-- The package types as libcomps counts them and libdnf has them as bits. -/
def typeCodes : TypeCodes where
  libcomps
    | .conditional => 0
    | .default => 1
    | .mandatory => 2
    | .optional => 3
  libdnf
    | .conditional => 1
    | .default => 2
    | .mandatory => 4
    | .optional => 8

/-- A solver over one installed group; the committed history says nothing else. -/
def solverOf (groups : List Group) (record : CompsItem) : Solver where
  comps := ⟨groups, []⟩
  swdb :=
    { getCompsGroupItem := fun id => if id = record.id then some record else none
      getCompsEnvironmentItem := fun _ => none
      getPackageCompsGroups := fun name => if record.Lists name then [record.id] else []
      getCompsGroupEnvironments := fun _ => []
      resolveReason := fun _ => .group }
  codes := typeCodes
  addMember := fun members member => members ++ [member]
  setOrder := List.dedup

/-- Group `base` as installed with its mandatory packages only. -/
def baseRecord : CompsItem := ⟨"base", "Base", "Base", 4, [⟨"pepper", true, 4⟩, ⟨"tour", false, 8⟩]⟩

def baseDefinition : Group := ⟨"base", "Base", "Base", [⟨"pepper", .mandatory, false, none⟩, ⟨"tour", .optional, false, none⟩]⟩

def mandatoryRecord : CompsItem := ⟨"base", "Base", "Base", 4, [⟨"pepper", true, 4⟩]⟩

/-- With mandatory packages only the difference is right: the package is upgraded. -/
theorem groupUpgrade_right_mandatory :
    ∃ trans t, (solverOf [baseDefinition] mandatoryRecord).groupUpgrade "base" ⟨{}, {}, []⟩ = .ok trans t ∧
      RightDifference typeCodes mandatoryRecord baseDefinition trans := by
  have hrecord : (solverOf [baseDefinition] mandatoryRecord).swdb.getCompsGroupItem "base" = some mandatoryRecord := rfl
  have hgroup : (solverOf [baseDefinition] mandatoryRecord).comps.groupById "base" = some baseDefinition := by decide +kernel
  refine (groupUpgrade_right_iff hrecord hgroup _).mpr ?_
  unfold PickedFromRecord
  decide +kernel

/-- Nothing changed in the group, and the optional package that was never selected is to be removed. -/
theorem not_groupUpgrade_right_optional :
    ¬∃ trans t, (solverOf [baseDefinition] baseRecord).groupUpgrade "base" ⟨{}, {}, []⟩ = .ok trans t ∧
      RightDifference typeCodes baseRecord baseDefinition trans := by
  intro ⟨bunch, t, hrun, hright⟩
  have hrecord : (solverOf [baseDefinition] baseRecord).swdb.getCompsGroupItem "base" = some baseRecord := rfl
  have hgroup : (solverOf [baseDefinition] baseRecord).comps.groupById "base" = some baseDefinition := by decide +kernel
  obtain ⟨u, hupgrade⟩ := groupUpgrade_eq_ok hrecord hgroup ⟨{}, {}, []⟩
  rw [hrun, EStateM.Result.ok.injEq] at hupgrade
  rw [hupgrade.1] at hright
  obtain ⟨hpicked, -⟩ := (hright.remove "tour").mp ⟨.trans (.ofName "tour"), by decide +kernel, rfl⟩
  revert hpicked
  unfold PickedFromRecord
  decide +kernel

end Dnf.Groups
