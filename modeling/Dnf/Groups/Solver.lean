import Dnf.Foundation.Effect
import Dnf.Groups.Bunch

/-!
# The comps solver

The operations of `Solver` on groups and environments, and the step of `Base` that accumulates their bunches with `+=`. They read the definitions of the repositories and the committed history, and record what they do in the persistors of the current transaction. An operation may raise; what it recorded before stays, and later operations go on from there.

An environment object is registered before its groups are added to it. Nothing reads it in between and nothing there raises, so the model registers it with all its groups.
-/

namespace Dnf.Groups

open History Foundation

inductive Exc
  | compsError (value : String)
  | keyError (key : String)
  deriving DecidableEq

/-- What a `Solver` works on. `addMember` is libdnf's `addPackage` and `addGroup`; `setOrder` lists the set of some ids in the order in which it is iterated. -/
structure Solver where
  comps : Comps
  swdb : Swdb
  codes : TypeCodes
  addMember : List Member → Member → List Member
  setOrder : List String → List String

/-- The current transaction. `accumulated` records every value of a bunch right after a `+=`; nothing reads it. -/
structure State where
  history : SwdbInterface
  compsTrans : TransactionBunch := {}
  accumulated : List TransactionBunch := []

abbrev Prog := EStateM Exc State

def callGroup (call : Call) (obj : CompsItem) : Prog Unit :=
  modify fun s => { s with history := s.history.call .group call obj }

def callEnv (call : Call) (obj : CompsItem) : Prog Unit :=
  modify fun s => { s with history := s.history.call .environment call obj }

/-- `trans += other`. -/
def join (trans other : TransactionBunch) : Prog TransactionBunch := do
  modify fun s => { s with accumulated := trans.iadd other :: s.accumulated }
  pure (trans.iadd other)

namespace Solver

variable (solver : Solver)

def newGroup (groupId : String) (group : Group) (pkgTypes : Nat) : CompsItem where
  id := groupId
  name := group.name
  translatedName := group.uiName
  packageTypes := pkgTypes
  members := group.packages.foldl (fun members pkg => solver.addMember members
    ⟨pkg.name, !(solver.swdb.getPackageCompsGroups pkg.name).isEmpty, solver.codes.libdnf pkg.type⟩) []

/-- A new environment record with its mandatory and its optional groups. -/
def newEnvironment (envId : String) (env : Environment) (pkgTypes : Nat) (mandatory optional : List Group) : CompsItem where
  id := envId
  name := env.name
  translatedName := env.uiName
  packageTypes := pkgTypes
  members := optional.foldl (fun members group => solver.addMember members ⟨group.id, false, solver.codes.libdnf .optional⟩)
    (mandatory.foldl (fun members group => solver.addMember members ⟨group.id, true, solver.codes.libdnf .mandatory⟩) [])

def groupInstall (groupId : String) (pkgTypes : Nat) (strict : Bool) : Prog TransactionBunch :=
  match solver.comps.groupById groupId with
  | none => throw (.compsError ("Group id '" ++ groupId ++ "' does not exist."))
  | some group => do
      callGroup .install (solver.newGroup groupId group pkgTypes)
      let picked := (pkgsOfType solver.codes group pkgTypes).image Entry.raw
      pure (if strict then { install := picked, steps := [.install group pkgTypes] }
        else { installOpt := picked, steps := [.install group pkgTypes] })

def groupRemove (groupId : String) : Prog TransactionBunch :=
  match solver.swdb.getCompsGroupItem groupId with
  | none => throw (.compsError ("Module or Group '" ++ groupId ++ "' is not installed."))
  | some record => do
      callGroup .remove record
      let s ← get
      match record.members.filterM fun pkg => isRemovablePkg solver.swdb s.history.group pkg.name with
      | .error e => throw (.keyError e.key)
      | .ok removable =>
          pure { remove := removable.toFinset.image fun pkg => .trans (.ofSwdb solver.codes pkg), steps := [.remove record removable] }

def upgradeBunch (record : CompsItem) (group : Group) : TransactionBunch :=
  let oldSet := (record.members.map (·.name)).toFinset
  let newSet := pkgsOfType solver.codes group record.packageTypes
  { install := ofPackages solver.codes (newSet.filter fun pkg => pkg.name ∉ oldSet)
    remove := (oldSet.filter fun name => name ∉ newSet.image (·.name)).image fun name => .trans (.ofName name)
    upgrade := ofPackages solver.codes (newSet.filter fun pkg => pkg.name ∈ oldSet)
    steps := [.upgrade record group] }

def groupUpgrade (groupId : String) : Prog TransactionBunch :=
  match solver.swdb.getCompsGroupItem groupId, solver.comps.groupById groupId with
  | none, group => throw (.compsError ("Module or Group '" ++ (group.map (·.uiName)).getD groupId ++ "' is not installed."))
  | some _, none => throw (.compsError ("Module or Group '" ++ groupId ++ "' is not available."))
  | some record, some group => do
      callGroup .upgrade (solver.newGroup groupId group record.packageTypes)
      pure (solver.upgradeBunch record group)

def environmentInstall (envId : String) (pkgTypes : Nat) (strict : Bool) (excludeGroups : List String) : Prog TransactionBunch :=
  match solver.comps.environmentById envId with
  | none => throw (.compsError ("Environment id '" ++ envId ++ "' does not exist."))
  | some env => do
      let mandatory := (solver.comps.buildGroups env.groupIds).filter fun group => group.id ∉ excludeGroups
      let optional := (solver.comps.buildGroups env.optionIds).filter fun group => group.id ∉ excludeGroups
      callEnv .install (solver.newEnvironment envId env pkgTypes mandatory optional)
      mandatory.foldlM (fun trans group => do join trans (← solver.groupInstall group.id pkgTypes strict)) {}

/-- One group of `_environment_remove`. -/
def removeIfRemovable (trans : TransactionBunch) (groupId : String) : Prog TransactionBunch := do
  let s ← get
  match isRemovableGroup solver.swdb s.history.env groupId with
  | .error e => throw (.keyError e.key)
  | .ok false => pure trans
  | .ok true => do join trans (← solver.groupRemove groupId)

def environmentRemove (envId : String) : Prog TransactionBunch :=
  match solver.swdb.getCompsEnvironmentItem envId with
  | none => throw (.compsError ("Environment id '" ++ envId ++ "' is not installed."))
  | some record => do
      callEnv .remove record
      (solver.setOrder (record.members.map (·.name))).foldlM solver.removeIfRemovable {}

/-- One mandatory group of `_environment_upgrade`. -/
def upgradeMandatory (oldSet : List String) (pkgTypes : Nat) (trans : TransactionBunch) (group : Group) : Prog TransactionBunch :=
  if group.id ∈ oldSet then
    if (solver.swdb.getCompsGroupItem group.id).isSome then do join trans (← solver.groupUpgrade group.id)
    else pure trans
  else do join trans (← solver.groupInstall group.id pkgTypes true)

/-- One optional group of `_environment_upgrade`. -/
def upgradeOptional (oldSet : List String) (trans : TransactionBunch) (group : Group) : Prog TransactionBunch :=
  if group.id ∈ oldSet ∧ (solver.swdb.getCompsGroupItem group.id).isSome then do join trans (← solver.groupUpgrade group.id)
  else pure trans

def environmentUpgrade (envId : String) : Prog TransactionBunch :=
  match solver.swdb.getCompsEnvironmentItem envId, solver.comps.environmentById envId with
  | none, _ => throw (.compsError ("Environment '" ++ envId ++ "' is not installed."))
  | some _, none => throw (.compsError ("Environment '" ++ envId ++ "' is not available."))
  | some record, some env => do
      let oldSet := record.members.map (·.name)
      let mandatory := solver.comps.buildGroups env.groupIds
      let optional := solver.comps.buildGroups env.optionIds
      let trans ← mandatory.foldlM (solver.upgradeMandatory oldSet record.packageTypes) {}
      let trans ← optional.foldlM (solver.upgradeOptional oldSet) trans
      callEnv .upgrade (solver.newEnvironment env.id env record.packageTypes mandatory optional)
      pure trans

end Solver

/-! ### The operations of one transaction -/

inductive Operation
  | groupInstall (groupId : String) (pkgTypes : Nat) (strict : Bool)
  | groupRemove (groupId : String)
  | groupUpgrade (groupId : String)
  | environmentInstall (envId : String) (pkgTypes : Nat) (strict : Bool) (excludeGroups : List String)
  | environmentRemove (envId : String)
  | environmentUpgrade (envId : String)

/-- `Base.group_install` and `Base.environment_install` drop an empty bunch. -/
def Operation.isInstall : Operation → Bool
  | .groupInstall .. => true
  | .environmentInstall .. => true
  | _ => false

namespace Solver

variable (solver : Solver)

def perform : Operation → Prog TransactionBunch
  | .groupInstall groupId pkgTypes strict => solver.groupInstall groupId pkgTypes strict
  | .groupRemove groupId => solver.groupRemove groupId
  | .groupUpgrade groupId => solver.groupUpgrade groupId
  | .environmentInstall envId pkgTypes strict excludeGroups => solver.environmentInstall envId pkgTypes strict excludeGroups
  | .environmentRemove envId => solver.environmentRemove envId
  | .environmentUpgrade envId => solver.environmentUpgrade envId

def addCompsTrans (trans : TransactionBunch) : Prog Unit := do
  let s ← get
  let compsTrans ← join s.compsTrans trans
  modify fun s => { s with compsTrans := compsTrans }

def step (operation : Operation) : Prog Unit := do
  let trans ← solver.perform operation
  if operation.isInstall ∧ trans.length = 0 then pure () else addCompsTrans trans

/-- A sequence of operations; the sequence goes on after an operation that raised. -/
def run (operations : List Operation) (s : State) : State :=
  operations.foldl (fun s operation => Effect.final (solver.step operation s)) s

end Solver

end Dnf.Groups
