import Mathlib.Data.Finset.Lattice.Lemmas
import Dnf.Foundation.Effect
import Dnf.Replay.Library

/-!
# `RPMTransaction`

The package items of the history transaction that is open. Every `add_*` appends the item of the new package first and then the items of what it replaces, which refer to it. Two sets are read off the items, the packages that come and those that go.
-/

namespace Dnf.Transaction

open History Foundation Foundation.Effect
open Replay (Nevra)

/-- A package of the sack; two installed packages may have one NEVRA. -/
structure Package where
  id : Nat
  nevra : Nevra
  reponame : String
  forceSwdbRepoid : Option String
  deriving DecidableEq

def Package.name (pkg : Package) : String := pkg.nevra.name

def Package.installed (pkg : Package) : Bool := pkg.reponame == "@System"

/-- `libdnf.transaction.TransactionItemState`. -/
inductive ItemState
  | unknown
  | done
  | error
  deriving DecidableEq

/-- An item; `pkg` is its entry in `_swdb_ti_pkg`, `replacedBy` the position of another item. -/
structure Item where
  nevra : Nevra
  repoid : String
  action : Action
  reason : Reason
  state : ItemState
  pkg : Option Package
  replacedBy : Option Nat
  deriving DecidableEq

inductive Exc
  | indexError
  | runtimeError
  deriving DecidableEq

abbrev Prog := EStateM Exc (List Item)

/-- The queries of the committed history: `resolveReason` is `resolveRPMTransactionItemReason` at the last transaction, `rpmRepo` is `getRPMRepo`; `reasonCompare` is libdnf's `TransactionItemReasonCompare`. -/
structure Swdb where
  resolveReason : String → String → Reason
  rpmRepo : String → String
  reasonCompare : Reason → Reason → Int

variable (swdb : Swdb)

def Swdb.getReason (pkg : Package) : Reason := swdb.resolveReason pkg.nevra.name pkg.nevra.arch

def getRepoid (pkg : Package) : String :=
  match pkg.forceSwdbRepoid with
  | some repoid => if repoid ≠ "" then repoid else pkg.reponame
  | none => pkg.reponame

/-- `new`; the position of the item is returned. -/
def new (pkg : Package) (action : Action) (reason : Option Reason) (replacedBy : Option Nat) : Prog Nat := do
  let items ← get
  set (items ++ [⟨pkg.nevra, getRepoid pkg, action, reason.getD (swdb.getReason pkg), .unknown, some pkg, replacedBy⟩])
  pure items.length

def addObsoleted (obsoleted : List Package) (replacedBy : Nat) : Prog Unit :=
  obsoleted.forM fun obs => do
    let _ ← new swdb obs .obsoleted none (some replacedBy)

def addDowngrade (pkg old : Package) (obsoleted : List Package) : Prog Unit := do
  let tiNew ← new swdb pkg .downgrade none none
  let _ ← new swdb old .downgraded none (some tiNew)
  addObsoleted swdb obsoleted tiNew

def addInstall (pkg : Package) (obsoleted : List Package) (reason : Option Reason) : Prog Unit := do
  let tiNew ← new swdb pkg .install (some (reason.getD .user)) none
  addObsoleted swdb obsoleted tiNew

def addReinstall (pkg old : Package) (obsoleted : List Package) : Prog Unit := do
  let tiNew ← new swdb pkg .reinstall none none
  let _ ← new swdb old .reinstalled none (some tiNew)
  addObsoleted swdb obsoleted tiNew

def addUpgrade (pkg old : Package) (obsoleted : List Package) : Prog Unit := do
  let tiNew ← new swdb pkg .upgrade none none
  let _ ← new swdb old .upgraded none (some tiNew)
  addObsoleted swdb obsoleted tiNew

/-- `reason or USER`: the reason `UNKNOWN` counts as none. -/
def addRemove (old : Package) (reason : Reason) : Prog Unit := do
  let _ ← new swdb old .remove (some (if reason = .unknown then .user else reason)) none

def setReason (pkg : Package) (reason : Reason) : Prog Unit := modify fun items =>
  items ++ [⟨pkg.nevra, swdb.rpmRepo pkg.nevra.text, .reasonChange, reason, .done, none, none⟩]

/-- The loop of `install_set` and `remove_set`. -/
def packageSet (actions : Action → Bool) (items : List Item) : Except Exc (Finset Package) :=
  items.foldlM (fun result tsi =>
    if actions tsi.action then
      match tsi.pkg with
      | some pkg => .ok (insert pkg result)
      | none => .error .runtimeError
    else .ok result) ∅

def installSet : List Item → Except Exc (Finset Package) := packageSet isForward

def removeSet : List Item → Except Exc (Finset Package) := packageSet isBackward

def packageOf (actions : Action → Bool) (item : Item) : Option Package := if actions item.action then item.pkg else none

theorem packageSet_eq {actions : Action → Bool} {items : List Item} (h : ∀ item ∈ items, actions item.action = true → item.pkg ≠ none) :
    packageSet actions items = .ok (items.filterMap (packageOf actions)).toFinset := by
  induction items using List.reverseRecOn with
  | nil => rfl
  | append_singleton items item ih =>
      have hitems := ih fun item' hitem' => h item' (List.mem_append_left _ hitem')
      have hitem := h item (List.mem_append_right _ (List.mem_singleton_self _))
      rw [packageSet] at hitems ⊢
      rw [List.foldlM_append, hitems, List.filterMap_append, List.toFinset_append, Finset.union_comm]
      cases haction : actions item.action with
      | false => simp [packageOf, haction, pure, Except.pure, bind, Except.bind]
      | true =>
          obtain ⟨pkg, hpkg⟩ := Option.ne_none_iff_exists'.mp (hitem haction)
          simp [packageOf, haction, hpkg, pure, Except.pure, bind, Except.bind]

end Dnf.Transaction
