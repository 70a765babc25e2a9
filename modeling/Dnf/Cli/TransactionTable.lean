import Dnf.Foundation.Buckets
import Dnf.Listing.PackageLists
import Dnf.Transaction.RpmTransaction

/-!
# The table of a transaction

`list_transaction` is what the user confirms. `_make_lists` sorts the items into lists by their actions and reasons, each list but the failed one becomes a section of the table, and the items that are obsoleted are shown under those that replace them. Sections for modules, groups and skipped packages follow, and then a summary that counts the lists again.

The texts of the headings, the widths of the columns and the colours of the terminal are left out; a section is its heading with its lines.
-/

namespace Dnf.Cli.TransactionTable

open Foundation
open History (Action Reason CompsItem Call isForward)
open Transaction (Package ItemState)
open Replay (Nevra)

/-- What the table reads of an `RPMTransactionItemWrapper`: `item` is `_item`, with `replacedBy` for its `getReplacedBy()`. -/
structure TransactionItem where
  item : Nat
  nevra : Nevra
  action : Action
  reason : Reason
  state : ItemState
  pkg : Option Package
  replacedBy : List Nat
  deriving DecidableEq

/-- The lists of `_make_lists`. -/
inductive Slot
  | downgraded
  | erased
  | erasedClean
  | erasedDep
  | installed
  | installedGroup
  | installedDep
  | installedWeak
  | reinstalled
  | upgraded
  | failed
  deriving DecidableEq

def slot (tsi : TransactionItem) : Option Slot :=
  if tsi.state = .error then some .failed
  else
    match tsi.action with
    | .downgrade => some .downgraded
    | .install =>
        match tsi.reason with
        | .group => some .installedGroup
        | .dependency => some .installedDep
        | .weakDependency => some .installedWeak
        | _ => some .installed
    | .reinstall => some .reinstalled
    | .remove =>
        match tsi.reason with
        | .clean => some .erasedClean
        | .dependency => some .erasedDep
        | _ => some .erased
    | .upgrade => some .upgraded
    | _ => none

def makeLists (transaction : List TransactionItem) : Slot → List TransactionItem := Buckets.fill slot transaction

/-- What a section says of its packages. The summary has a count for all but the reinstalled ones. -/
inductive Kind
  | install
  | upgrade
  | reinstall
  | remove
  | downgrade
  | skip
  deriving DecidableEq

def Kind.ofAction : Action → Option Kind
  | .install => some .install
  | .upgrade => some .upgrade
  | .reinstall => some .reinstall
  | .remove => some .remove
  | .downgrade => some .downgrade
  | _ => none

def Slot.kind : Slot → Option Kind
  | .installed | .installedGroup | .installedDep | .installedWeak => some .install
  | .upgraded => some .upgrade
  | .reinstalled => some .reinstall
  | .erased | .erasedDep | .erasedClean => some .remove
  | .downgraded => some .downgrade
  | .failed => none

inductive Heading
  | packages (slot : Slot)
  | installingProfiles
  | disablingProfiles
  | enablingStreams
  | switchingStreams
  | disablingModules
  | resettingModules
  | comps (kind : History.Kind) (call : Call)
  | skippedConflicts
  | skippedBroken
  deriving DecidableEq

def Heading.kind : Heading → Option Kind
  | .packages slot => slot.kind
  | .skippedConflicts | .skippedBroken => some .skip
  | _ => none

/-- A line, before it is fitted to the columns. -/
structure Row where
  name : String
  arch : String := ""
  evr : String := ""
  repoid : String := ""
  size : String := ""
  obsoletes : List TransactionItem := []
  hi : String := ""
  deriving DecidableEq

abbrev Section := Heading × List Row

/-- The exceptions of `BaseCli.do_transaction`, of which `error` is `dnf.exceptions.Error`. -/
inductive Exc
  | keyError
  | error
  | cliError
  | runtimeError
  deriving DecidableEq

/-- The order, the sizes and the texts of the packages, and what the goal and the module container say. `forwardGoal` is `goal.actions & forward_actions`, and `history` has the values of the dictionaries of its two persistors. -/
structure Output where
  best : Bool
  strict : Bool
  colorUpdateInstalled : String
  colorUpdateLocal : String
  colorUpdateRemote : String
  formatNumber : Nat → String
  arch : Package → Option String
  evr : Package → String
  fromRepo : Package → String
  size : Package → Nat
  str : Package → String
  le : Package → Package → Bool
  itemLe : Nat → Nat → Bool
  forwardGoal : Bool
  problemConflicts : List Package
  problemBrokenDependency : List Package
  installedProfiles : List (String × List String)
  removedProfiles : List (String × List String)
  enabledStreams : List (String × String)
  switchedStreams : List (String × String × String)
  disabledModules : List String
  resetModules : List String
  moduleChanged : Bool
  history : Option (History.Kind → Call → List CompsItem)

structure Shown where
  sections : List Section
  summary : List (Kind × Nat)

namespace Output

variable (self : Output)

def addLine (po : Package) (obsoletes : List TransactionItem) : Row where
  name := po.name
  arch := (self.arch po).getD "noarch"
  evr := self.evr po
  repoid := self.fromRepo po
  size := self.formatNumber (self.size po)
  obsoletes := obsoletes
  hi :=
    if po.installed then self.colorUpdateInstalled
    else if po.reponame = "@commandline" then self.colorUpdateLocal
    else self.colorUpdateRemote

/-! ### Packages -/

/-- The reverse mapping to `replaced_by`. -/
def replaces (transaction : List TransactionItem) : Nat → List TransactionItem :=
  Buckets.invert (fun tsi => if tsi.action ≠ .obsoleted then [] else tsi.replacedBy) transaction

def tables : List Slot :=
  [.installed, .upgraded, .reinstalled, .installedGroup, .installedDep, .installedWeak, .erased, .erasedDep, .erasedClean, .downgraded]

/-- `tsi.pkg` -/
def pkg (tsi : TransactionItem) : Except Exc (TransactionItem × Package) :=
  match tsi.pkg with
  | some pkg => .ok (tsi, pkg)
  | none => .error .keyError

def line (transaction : List TransactionItem) (entry : TransactionItem × Package) : Option Row :=
  if isForward entry.1.action || entry.1.action = .remove then
    some (self.addLine entry.2 ((replaces transaction entry.1.item).mergeSort fun a b => self.itemLe a.item b.item))
  else none

def packageSection (transaction : List TransactionItem) (slot : Slot) : Except Exc Section := do
  let pkglist ← (makeLists transaction slot).mapM pkg
  pure (.packages slot, (pkglist.mergeSort fun a b => self.le a.2 b.2).filterMap (self.line transaction))

/-! ### Modules and groups -/

def profileRows (profiles : List (String × List String)) : List Row :=
  (profiles.mergeSort fun a b => a.1 ≤ b.1).flatMap fun entry => entry.2.map fun profile => { name := entry.1 ++ "/" ++ profile }

def moduleSections : List Section :=
  [(.installingProfiles, profileRows self.installedProfiles),
    (.disablingProfiles, profileRows self.removedProfiles),
    (.enablingStreams, (self.enabledStreams.mergeSort fun a b => a.1 ≤ b.1).map fun entry => { name := entry.1, evr := entry.2 }),
    (.switchingStreams, (self.switchedStreams.mergeSort fun a b => a.1 ≤ b.1).map fun entry =>
      { name := entry.1, evr := entry.2.1 ++ " -> " ++ entry.2.2 }),
    (.disablingModules, (self.disabledModules.mergeSort fun a b => a ≤ b).map fun name => { name }),
    (.resettingModules, (self.resetModules.mergeSort fun a b => a ≤ b).map fun name => { name })]

def nameUnsetWrapper (name : String) : String := if name ≠ "" then name else "<name-unset>"

def groupSections : List Section :=
  match self.history with
  | none => []
  | some values =>
      [History.Kind.environment, History.Kind.group].flatMap fun kind => [Call.install, Call.upgrade, Call.remove].map fun call =>
        (.comps kind call, (values kind call).map fun group => { name := nameUnsetWrapper group.name })

/-- `history.group or history.env` -/
def groupsPending : Bool :=
  self.history.any fun values =>
    [History.Kind.group, History.Kind.environment].any fun kind =>
      [Call.install, Call.remove, Call.upgrade, Call.downgrade].any fun call => !(values kind call).isEmpty

/-! ### Skipped packages -/

/-- `_skipped_packages` -/
def skippedPackages (transaction : List TransactionItem) : List Package × List Package :=
  let conflicts := self.problemConflicts.dedup
  let dependency := self.problemBrokenDependency.dedup.filter (· ∉ conflicts)
  let nevras := transaction.map TransactionItem.nevra
  (conflicts.filter (·.nevra ∉ nevras), dependency.filter (·.nevra ∉ nevras))

def showsSkipped : Bool := (!self.best || !self.strict) && self.forwardGoal

/-- `dict((str(pkg), pkg) for pkg in skipped_broken)` -/
def brokenByName (transaction : List TransactionItem) : List (String × Package) :=
  (self.skippedPackages transaction).2.foldl (fun broken pkg => Listing.assign broken (self.str pkg) pkg) []

def skippedRow (po : Package) : Row := { self.addLine po [] with hi := "" }

def skippedSections (transaction : List TransactionItem) : List Section :=
  if self.showsSkipped then
    [(.skippedConflicts, ((self.skippedPackages transaction).1.mergeSort self.le).map self.skippedRow),
      (.skippedBroken, ((self.brokenByName transaction).mergeSort fun a b => a.1 ≤ b.1).map fun entry => self.skippedRow entry.2)]
  else []

/-! ### The table -/

def skipCount (transaction : List TransactionItem) : Nat :=
  if self.showsSkipped then (self.skippedPackages transaction).1.length + (self.brokenByName transaction).length else 0

def summaryData (transaction : List TransactionItem) : List (Kind × Nat) :=
  let b := makeLists transaction
  [(.install, (b .installed).length + (b .installedGroup).length + (b .installedWeak).length + (b .installedDep).length),
    (.upgrade, (b .upgraded).length),
    (.remove, (b .erased).length + (b .erasedDep).length + (b .erasedClean).length),
    (.downgrade, (b .downgraded).length),
    (.skip, self.skipCount transaction)]

def noRows (sections : List Section) : Bool := sections.all fun shown => shown.2.isEmpty

/-- `list_transaction`; `none` is the empty text. -/
def listTransaction (transaction : Option (List TransactionItem)) : Except Exc (Option Shown) := do
  let transaction := transaction.getD []
  let packages ← tables.mapM (self.packageSection transaction)
  let skipped := self.skippedSections transaction
  if noRows (packages ++ skipped) && !self.moduleChanged && !self.groupsPending then pure none
  else
    pure (some
      { sections := (packages ++ self.moduleSections ++ self.groupSections ++ skipped).filter fun shown => !shown.2.isEmpty
        summary := (self.summaryData transaction).filter fun entry => entry.2 ≠ 0 })

end Output

end Dnf.Cli.TransactionTable
