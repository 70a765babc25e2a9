import Dnf.Cli.Confirmation
import Dnf.Foundation.Fnmatch
import Dnf.Shell.Shell
import Mathlib.Algebra.GroupWithZero.Nat

/-!
# `do_transaction`

The loops over the items of a transaction, from the table that is confirmed to the verification after the run. An item of `set_reason` has no package, and to ask it for one is a `KeyError`: every loop passes such items over but that of the check of a bootc system, which asks all items for their files.

The answers of the user, of rpm and of the download are fields of `Conf`.
-/

namespace Dnf.Cli.DoTransaction

open Foundation
open History (Action isForward isBackward)
open Transaction (Item Package TsCall installSet removeSet populateItem)
open Shell (Persistence)
open TransactionTable

structure Conf where
  output : Output
  moduleStreamSwitch : Bool
  switchedStreams : Bool
  downloadonly : Bool
  bootcSystem : Bool
  installrootIsRoot : Bool
  persistence : Persistence
  writable : Bool
  usrDriftProtectedPaths : List String
  files : Package → List String
  size : Package → Option Nat
  installsize : Package → Option Nat
  verifyLocalPkg : Package → Option Bool
  promptRefused : Bool
  downloadFails : Bool
  gpgFails : Bool
  hasHeader : Package → Bool
  testFailSafe : Package → Bool
  checkFails : Bool
  testFails : Bool
  test : Bool
  runFails : Bool

/-- `tsi.pkg` -/
def ask (tsi : Item) : Except Exc Package :=
  match tsi.pkg with
  | some pkg => .ok pkg
  | none => .error .keyError

/-- `raise`, under a condition. -/
def refuse (condition : Bool) (e : Exc) : Except Exc Unit := if condition then .error e else .ok ()

/-! ### Sizes -/

/-- The packages to install, those to remove, and whether there are only the former. -/
structure Sorted where
  installPkgs : List Package := []
  rmpkgs : List Package := []
  installOnly : Bool := true

/-- `BACKWARD_ACTIONS` are without `REINSTALLED`. -/
def sortItem (sorted : Sorted) (tsi : Item) : Except Exc Sorted :=
  if isForward tsi.action then (ask tsi).map fun pkg => { sorted with installPkgs := sorted.installPkgs ++ [pkg] }
  else if isBackward tsi.action && tsi.action ≠ .reinstalled then
    (ask tsi).map fun pkg => { sorted with rmpkgs := sorted.rmpkgs ++ [pkg], installOnly := false }
  else .ok sorted

def sortItems (items : List Item) : Except Exc Sorted := items.foldlM sortItem {}

inductive Report
  | downloadError
  | totalSize (n : Nat)
  | totalDownloadSize (n : Nat)
  | installedSize (n : Nat)
  | installedError
  | freedSpace (n : Nat)
  deriving DecidableEq

structure Totals where
  totsize : Nat := 0
  locsize : Nat := 0
  insize : Nat := 0

/-- The loop of `reportDownloadSize`; a package whose size cannot be read ends it. -/
def addSize (conf : Conf) (installonly : Bool) (totals : Totals) (pkg : Package) : Option Totals :=
  (conf.size pkg).map fun size =>
    { totsize := totals.totsize + size
      locsize := if conf.verifyLocalPkg pkg = some true then totals.locsize + size else totals.locsize
      insize := if installonly then totals.insize + (conf.installsize pkg).getD size else totals.insize }

def reportDownloadSize (conf : Conf) (packages : List Package) (installonly : Bool) : List Report :=
  match packages.foldlM (addSize conf installonly) {} with
  | none => [.downloadError]
  | some totals =>
      (if totals.locsize ≠ 0 then [.totalSize totals.totsize] else []) ++
        (if totals.locsize ≠ totals.totsize then [.totalDownloadSize (totals.totsize - totals.locsize)] else []) ++
        if installonly then [.installedSize totals.insize] else []

def reportRemoveSize (conf : Conf) (packages : List Package) : List Report :=
  match packages.mapM conf.size with
  | none => [.installedError]
  | some sizes => [.freedSpace sizes.sum]

def reports (conf : Conf) (items : List Item) (sorted : Sorted) : List Report :=
  if items.isEmpty then []
  else if sorted.installPkgs.isEmpty then reportRemoveSize conf sorted.rmpkgs
  else reportDownloadSize conf sorted.installPkgs sorted.installOnly

/-! ### Checks of bootc systems -/

/-- The paths of an item that match a pattern, once for each pattern, under its NEVRA. -/
def protectedPaths (conf : Conf) (tsi : Item) : Except Exc (List (String × String)) :=
  (ask tsi).map fun pkg => ((conf.files pkg).mergeSort (· ≤ ·)).flatMap fun path =>
    (conf.usrDriftProtectedPaths.filter (Fnmatch.fnmatch path)).map fun _ => (tsi.nevra.text, path)

def driftCheck (conf : Conf) (items : List Item) : Except Exc Unit := do
  let found ← items.mapM (protectedPaths conf)
  refuse (!found.flatten.isEmpty) .cliError

def isBootcTransaction (conf : Conf) : Bool := conf.bootcSystem && conf.installrootIsRoot && !conf.downloadonly

def bootcCheck (conf : Conf) (items : List Item) : Except Exc Unit :=
  if isBootcTransaction conf then do
    refuse (conf.persistence = .persist) .cliError
    refuse (!conf.writable && conf.persistence = .auto) .cliError
    driftCheck conf items
  else refuse (conf.persistence = .transient) .cliError

/-! ### The rpm transaction -/

/-- An item of `_populate_rpm_ts`: the call on rpm, and whether the package is modular without metadata. A header that cannot be read is an `rpm.error`. -/
def populate (conf : Conf) (tsi : Item) (n : Nat) : Except Exc (Option TsCall × Bool) :=
  match populateItem tsi n with
  | none => .ok (none, false)
  | some call => do
      let pkg ← ask tsi
      if isForward tsi.action then do
        refuse (!conf.hasHeader pkg) .error
        pure (some call, conf.testFailSafe pkg)
      else pure (some call, false)

def populateRpmTs (conf : Conf) (items : List Item) : Except Exc (List TsCall) := do
  let calls ← items.zipIdx.mapM fun entry => populate conf entry.1 entry.2
  refuse (calls.any Prod.snd) .error
  pure (calls.filterMap Prod.fst)

/-- `install_set` and `remove_set`, which turn the `KeyError` into a `RuntimeError`. -/
def packagesOf (set : List Item → Except Transaction.Exc (Finset Package)) (items : List Item) : Except Exc (Finset Package) :=
  (set items).mapError fun _ => .runtimeError

/-- The banners of `_verify_transaction`. -/
def verifyTransaction (items : List Item) : Except Exc (List Package) := (items.filter fun tsi => tsi.action ≠ .reasonChange).mapM ask

/-- `Base.do_transaction`; without package items only modules and groups are recorded. -/
def baseDoTransaction (conf : Conf) (items : List Item) : Except Exc Unit :=
  if items.isEmpty then .ok ()
  else do
    let _ ← populateRpmTs conf items
    refuse (conf.checkFails || conf.testFails) .error
    if conf.test then .ok ()
    else do
      refuse conf.runFails .error
      let _ ← packagesOf installSet items
      let _ ← verifyTransaction items
      let _ ← packagesOf removeSet items
      pure ()

/-! ### `BaseCli.do_transaction` -/

structure Ended where
  shown : Option Shown
  reports : List Report
  ran : Bool

def pending (conf : Conf) (items : List Item) : Bool := !items.isEmpty || conf.output.moduleChanged || conf.output.groupsPending

def download (conf : Conf) (items : List Item) (sorted : Sorted) : Except Exc Unit :=
  if items.isEmpty then .ok () else refuse ((!sorted.installPkgs.isEmpty && conf.downloadFails) || conf.gpgFails) .error

/-- What follows the table, where there is something to do. -/
def confirmed (conf : Conf) (items : List Item) (sorted : Sorted) : Except Exc Bool := do
  bootcCheck conf items
  refuse conf.promptRefused .cliError
  download conf items sorted
  if conf.downloadonly then pure false
  else do
    baseDoTransaction conf items
    pure true

def confirmPending (conf : Conf) (items : List Item) (sorted : Sorted) : Except Exc Bool :=
  if pending conf items then confirmed conf items sorted else .ok false

def doTransaction (conf : Conf) (items : List Item) : Except Exc Ended := do
  refuse (!conf.moduleStreamSwitch && conf.switchedStreams) .error
  let shown ← conf.output.listTransaction (some (ofItems items))
  let sorted ← sortItems items
  let ran ← confirmPending conf items sorted
  pure ⟨shown, reports conf items sorted, ran⟩

end Dnf.Cli.DoTransaction
