import Mathlib.Data.Finset.Basic
import Mathlib.Data.List.AList

/-!
# The group and environment persistors

`history.group` and `history.env` collect what the current transaction does to groups and environments. The committed history is read through libdnf's queries, which are the parameters `Swdb`; each persistor keeps four dictionaries of pending objects over it, and every call also registers an item of the new transaction.

A group and an environment have the same shape: an id, a mask of package types and a list of members, which are packages for a group and groups for an environment.
-/

namespace Dnf.History

/-- `libdnf.transaction.TransactionItemAction`. -/
inductive Action
  | install
  | downgrade
  | downgraded
  | obsolete
  | obsoleted
  | upgrade
  | upgraded
  | remove
  | reinstall
  | reinstalled
  | reasonChange
  deriving DecidableEq

/-- `FORWARD_ACTIONS`. -/
def isForward : Action → Bool
  | .install => true
  | .obsolete => true
  | .upgrade => true
  | .downgrade => true
  | .reinstall => true
  | _ => false

/-- `BACKWARD_ACTIONS`, and `REINSTALLED`, whose NEVRA comes back with its forward item. -/
def isBackward : Action → Bool
  | .remove => true
  | .upgraded => true
  | .downgraded => true
  | .reinstalled => true
  | .obsoleted => true
  | _ => false

theorem action_kind (action : Action) : isForward action = true ∨ isBackward action = true ∨ action = .reasonChange := by
  cases action <;> decide

/-- `libdnf.transaction.TransactionItemReason`. -/
inductive Reason
  | unknown
  | dependency
  | user
  | clean
  | weakDependency
  | group
  deriving DecidableEq

/-- A package of a group (`getName`, `getInstalled`, `getPackageType`) or a group of an environment (`getGroupId`, `getInstalled`, `getGroupType`). -/
structure Member where
  name : String
  installed : Bool
  type : Nat
  deriving DecidableEq

/-- `CompsGroupItem` and `CompsEnvironmentItem`. -/
structure CompsItem where
  id : String
  name : String
  translatedName : String
  packageTypes : Nat
  members : List Member
  deriving DecidableEq

namespace CompsItem

/-- How often an item lists `name` as installed. -/
def timesListed (item : CompsItem) (name : String) : Nat :=
  item.members.countP fun m => m.name = name ∧ m.installed = true

/-- The item lists `name` as installed. -/
def Lists (item : CompsItem) (name : String) : Prop := ∃ m ∈ item.members, m.name = name ∧ m.installed = true

instance (item : CompsItem) (name : String) : Decidable (item.Lists name) := by
  unfold Lists
  infer_instance

theorem lists_iff_timesListed {item : CompsItem} {name : String} : item.Lists name ↔ 0 < item.timesListed name := by
  rw [Lists, timesListed, List.countP_pos_iff]
  simp only [decide_eq_true_eq]

end CompsItem

/-- The queries of the committed history. The last one is `resolveRPMTransactionItemReason(name, "", -2)`. -/
structure Swdb where
  getCompsGroupItem : String → Option CompsItem
  getCompsEnvironmentItem : String → Option CompsItem
  getPackageCompsGroups : String → List String
  getCompsGroupEnvironments : String → List String
  resolveReason : String → Reason

/-- The calls of `PersistorBase`. -/
inductive Call
  | install
  | remove
  | upgrade
  | downgrade
  deriving DecidableEq

def Call.action : Call → Action
  | .install => .install
  | .remove => .remove
  | .upgrade => .upgrade
  | .downgrade => .downgrade

/-- The dictionaries of a `PersistorBase`. -/
structure Pending where
  installed : AList (fun _ : String => CompsItem) := ∅
  removed : AList (fun _ : String => CompsItem) := ∅
  upgraded : AList (fun _ : String => CompsItem) := ∅
  downgraded : AList (fun _ : String => CompsItem) := ∅

def Pending.dict (pending : Pending) : Call → AList (fun _ : String => CompsItem)
  | .install => pending.installed
  | .remove => pending.removed
  | .upgrade => pending.upgraded
  | .downgrade => pending.downgraded

/-- `install`, `remove`, `upgrade` and `downgrade` of `PersistorBase`. -/
def Pending.record (pending : Pending) (call : Call) (obj : CompsItem) : Pending :=
  match call with
  | .install => { pending with installed := pending.installed.insert obj.id obj }
  | .remove => { pending with removed := pending.removed.insert obj.id obj }
  | .upgrade => { pending with upgraded := pending.upgraded.insert obj.id obj }
  | .downgrade => { pending with downgraded := pending.downgraded.insert obj.id obj }

/-- The pending dictionaries after a sequence of calls in one transaction. -/
def Pending.after (calls : List (Call × CompsItem)) : Pending :=
  calls.foldl (fun pending call => pending.record call.1 call.2) {}

/-- The two kinds of comps items, each with its persistor. -/
inductive Kind
  | group
  | environment
  deriving DecidableEq

/-- The last committed record of an installed item. -/
def Swdb.getItem (swdb : Swdb) : Kind → String → Option CompsItem
  | .group => swdb.getCompsGroupItem
  | .environment => swdb.getCompsEnvironmentItem

/-- An item of the transaction being recorded. -/
structure Registered where
  kind : Kind
  action : Action
  item : CompsItem
  deriving DecidableEq

/-- What `history.group`, `history.env` and `history.swdb` hold of the current transaction. -/
structure SwdbInterface where
  group : Pending := {}
  env : Pending := {}
  items : List Registered := []

/-- A call on `history.group` or `history.env`, with `_add_to_history`. -/
def SwdbInterface.call (history : SwdbInterface) (kind : Kind) (call : Call) (obj : CompsItem) : SwdbInterface :=
  match kind with
  | .group => { history with group := history.group.record call obj, items := history.items ++ [⟨.group, call.action, obj⟩] }
  | .environment => { history with env := history.env.record call obj, items := history.items ++ [⟨.environment, call.action, obj⟩] }

@[simp] theorem SwdbInterface.items_call (history : SwdbInterface) (kind : Kind) (call : Call) (obj : CompsItem) :
    (history.call kind call obj).items = history.items ++ [⟨kind, call.action, obj⟩] := by
  cases kind <;> rfl

/-- `KeyError`, with its key. -/
structure KeyError where
  key : String
  deriving DecidableEq

/-! ### `is_removable_pkg` and `is_removable_group` -/

/-- One member of a pending removed object, in the loop over `_removed`. -/
def dropMember (name id : String) (listing : Finset String) (member : Member) : Except KeyError (Finset String) :=
  if member.name ≠ name then .ok listing
  else if member.installed = false then .ok listing
  else if id ∈ listing then .ok (listing.erase id)
  else .error ⟨id⟩

/-- One member of a pending installed object, in the loop over `_installed`. -/
def noteMember (name id : String) (listing : Finset String) (member : Member) : Finset String :=
  if member.name ≠ name then listing
  else if member.installed = false then listing
  else insert id listing

/-- The set both functions compute: what the committed history says, corrected by two of the four dictionaries. -/
def Pending.listing (pending : Pending) (committed : List String) (name : String) : Except KeyError (Finset String) := do
  let kept ← pending.removed.entries.foldlM
    (fun listing entry => entry.2.members.foldlM (dropMember name entry.1) listing) committed.toFinset
  pure (pending.installed.entries.foldl
    (fun listing entry => entry.2.members.foldl (noteMember name entry.1) listing) kept)

def isRemovablePkg (swdb : Swdb) (pending : Pending) (pkgName : String) : Except KeyError Bool :=
  if swdb.resolveReason pkgName ≠ .group then .ok false
  else do
    let packageGroups ← pending.listing (swdb.getPackageCompsGroups pkgName) pkgName
    pure (packageGroups = ∅)

def isRemovableGroup (swdb : Swdb) (pending : Pending) (groupId : String) : Except KeyError Bool :=
  if (swdb.getCompsGroupItem groupId).isNone then .ok false
  else do
    let groupEnvironments ← pending.listing (swdb.getCompsGroupEnvironments groupId) groupId
    pure (groupEnvironments = ∅)

end Dnf.History
