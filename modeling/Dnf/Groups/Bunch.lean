import Mathlib.Data.Finset.Card
import Dnf.History.Persistor

/-!
# Comps definitions and transaction bunches

A `TransactionBunch` collects packages to install, to upgrade and to remove. Its sets hold objects, and `+=` subtracts what is now installed or upgraded from what is to be removed by comparing these objects: a `CompsTransPkg` equals another one only if name, `basearchonly`, `optional` and `requires` agree, and it never equals a raw libcomps package, whose hash differs. `optional` is a number in the source, and the `True` of a name counts as 1.

libcomps and libdnf number the package types differently; both numberings are parameters.
-/

namespace Dnf.Groups

open History

/-- The package types of `Package._OPT_MAP`. -/
inductive PackageType
  | conditional
  | default
  | mandatory
  | optional
  deriving DecidableEq

/-- The numbers of the package types in libcomps and in libdnf. -/
structure TypeCodes where
  libcomps : PackageType → Nat
  libdnf : PackageType → Nat

structure Package where
  name : String
  type : PackageType
  basearchonly : Bool
  requires : Option String
  deriving DecidableEq

structure Group where
  id : String
  name : String
  uiName : String
  packages : List Package
  deriving DecidableEq

structure Environment where
  id : String
  name : String
  uiName : String
  groupIds : List String
  optionIds : List String
  deriving DecidableEq

/-- The definitions read from the repositories. -/
structure Comps where
  groups : List Group
  environments : List Environment

def Comps.groupById (comps : Comps) (id : String) : Option Group := comps.groups.find? (·.id = id)

def Comps.environmentById (comps : Comps) (id : String) : Option Environment := comps.environments.find? (·.id = id)

/-- `Environment._build_groups`: the ids that have no group are only logged. -/
def Comps.buildGroups (comps : Comps) (ids : List String) : List Group := ids.filterMap comps.groupById

def Group.packagesOfType (group : Group) (type : PackageType) : List Package := group.packages.filter (·.type = type)

structure CompsTransPkg where
  name : String
  basearchonly : Bool
  optional : Nat
  requires : Option String
  deriving DecidableEq

namespace CompsTransPkg

def ofName (name : String) : CompsTransPkg := ⟨name, false, 1, none⟩

def ofSwdb (codes : TypeCodes) (pkg : Member) : CompsTransPkg := ⟨pkg.name, false, pkg.type &&& codes.libcomps .optional, none⟩

def ofComps (codes : TypeCodes) (pkg : Package) : CompsTransPkg :=
  ⟨pkg.name, pkg.basearchonly, codes.libcomps pkg.type &&& codes.libcomps .optional, pkg.requires⟩

end CompsTransPkg

inductive Entry
  | raw (pkg : Package)
  | trans (pkg : CompsTransPkg)
  deriving DecidableEq

def Entry.name : Entry → String
  | .raw pkg => pkg.name
  | .trans pkg => pkg.name

/-- A group operation with what it read: the definition and the selected types, the record, and which packages of the record are removable. -/
inductive GroupStep
  | install (group : Group) (pkgTypes : Nat)
  | upgrade (record : CompsItem) (group : Group)
  | remove (record : CompsItem) (removable : List Member)

/-- The sets of a bunch. `steps` records the group operations it was accumulated from, newest last; nothing reads it. -/
structure TransactionBunch where
  install : Finset Entry := ∅
  installOpt : Finset Entry := ∅
  remove : Finset Entry := ∅
  upgrade : Finset Entry := ∅
  steps : List GroupStep := []

namespace TransactionBunch

def iadd (trans other : TransactionBunch) : TransactionBunch :=
  let install := trans.install ∪ other.install
  let installOpt := trans.installOpt ∪ other.installOpt
  let upgrade := trans.upgrade ∪ other.upgrade
  { install, installOpt, upgrade
    remove := (((trans.remove ∪ other.remove) \ install) \ installOpt) \ upgrade
    steps := trans.steps ++ other.steps }

/-- `__len__`. -/
def length (trans : TransactionBunch) : Nat :=
  trans.install.card + trans.installOpt.card + trans.upgrade.card + trans.remove.card

/-- Everything the bunch installs or upgrades. -/
def forward (trans : TransactionBunch) : Finset Entry := trans.install ∪ trans.installOpt ∪ trans.upgrade

@[simp] theorem forward_iadd (trans other : TransactionBunch) : (trans.iadd other).forward = trans.forward ∪ other.forward := by
  ext e
  simp only [forward, iadd, Finset.mem_union]
  tauto

theorem mem_remove_iadd {trans other : TransactionBunch} {e : Entry} :
    e ∈ (trans.iadd other).remove ↔ (e ∈ trans.remove ∨ e ∈ other.remove) ∧ e ∉ (trans.iadd other).forward := by
  simp only [forward, iadd, Finset.mem_sdiff, Finset.mem_union]
  tauto

end TransactionBunch

/-- The sets of elements as `_set_value` stores them. -/
def ofPackages (codes : TypeCodes) (pkgs : Finset Package) : Finset Entry := pkgs.image fun pkg => .trans (.ofComps codes pkg)

/-- `Solver._pkgs_of_type`, with nothing excluded. -/
def pkgsOfType (codes : TypeCodes) (group : Group) (pkgTypes : Nat) : Finset Package :=
  (if pkgTypes &&& codes.libdnf .mandatory ≠ 0 then (group.packagesOfType .mandatory).toFinset else ∅) ∪
  (if pkgTypes &&& codes.libdnf .default ≠ 0 then (group.packagesOfType .default).toFinset else ∅) ∪
  (if pkgTypes &&& codes.libdnf .optional ≠ 0 then (group.packagesOfType .optional).toFinset else ∅) ∪
  (if pkgTypes &&& codes.libdnf .conditional ≠ 0 then (group.packagesOfType .conditional).toFinset else ∅)

/-- The packages whose type is one of the selected ones. -/
theorem mem_pkgsOfType {codes : TypeCodes} {group : Group} {pkgTypes : Nat} {pkg : Package} :
    pkg ∈ pkgsOfType codes group pkgTypes ↔ pkg ∈ group.packages ∧ pkgTypes &&& codes.libdnf pkg.type ≠ 0 := by
  have hpick : ∀ (type : PackageType) (c : Prop) [Decidable c],
      (pkg ∈ if c then (group.packagesOfType type).toFinset else ∅) ↔ c ∧ pkg ∈ group.packages ∧ pkg.type = type := by
    intro type c _
    by_cases hc : c
    · simp [hc, Group.packagesOfType]
    · simp [hc]
  simp only [pkgsOfType, Finset.mem_union, hpick]
  cases pkg.type <;> simp [and_comm]

end Dnf.Groups
