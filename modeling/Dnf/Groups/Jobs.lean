import Dnf.Groups.Contradiction
import Dnf.Shell.KeptBack

/-!
# Jobs for the group operations

`_finalize_comps_trans` turns the packages of the accumulated bunch into jobs of the goal. An entry stands for the packages of its name that the sack has; one that stands for nothing is only reported.
-/

namespace Dnf.Groups

open History Transaction

inductive Selector
  | pkgs (pkgs : List Transaction.Package)
  | provides (reldep : String)
  deriving DecidableEq

inductive CompsJob
  | install (select : Selector) (optional : Bool)
  | upgrade (select : Selector)
  deriving DecidableEq

def Entry.requires : Entry → Option String
  | .raw pkg => pkg.requires
  | .trans pkg => pkg.requires

/-- The configuration, and what libdnf answers: whether one package obsoletes another, the latest of some packages, and the elements of a set in the order in which it is iterated. -/
structure Installing where
  multilibAll : Bool
  obsoletes : Bool
  obsoletedBy : Transaction.Package → Transaction.Package → Bool
  latestPerArchByPriority : List Transaction.Package → List Transaction.Package
  latest_subset : ∀ pkgs, latestPerArchByPriority pkgs ⊆ pkgs
  order : Finset Entry → List Entry
  mem_order : ∀ entries entry, entry ∈ order entries ↔ entry ∈ entries

namespace Installing

variable (inst : Installing) (sack : List Transaction.Package)

/-- `query.union(sack.query().filterm(obsoletes=latest))` -/
def withObsoleters (query latest : List Transaction.Package) : List Transaction.Package :=
  sack.filter fun pkg => pkg ∈ query || latest.any fun old => inst.obsoletedBy old pkg

def nameArch (pkg : Transaction.Package) : String × String := (pkg.name, pkg.nevra.arch)

/-- The two dictionaries of `_query_matches_installed`: the packages of each name and architecture that is available and not installed. -/
def notInstalled (query : List Transaction.Package) : List (List Transaction.Package) :=
  let available := query.filter fun pkg => !pkg.installed
  (((available.map nameArch).eraseDups).filter fun na => !query.any fun pkg => pkg.installed && nameArch pkg == na).map
    fun na => available.filter fun pkg => nameArch pkg == na

def selectedOfArch (packages : List Transaction.Package) : List Transaction.Package :=
  if inst.obsoletes then inst.withObsoleters sack packages (inst.latestPerArchByPriority packages) else packages

/-- `_install_multiarch` -/
def installMultiarch (query : List Transaction.Package) (strict : Bool) : List CompsJob :=
  (notInstalled query).map fun packages => .install (.pkgs (inst.selectedOfArch sack packages)) !strict

/-- With nothing installed, only what obsoletes the latest packages counts. -/
def selected (query : List Transaction.Package) : List Transaction.Package :=
  if inst.obsoletes then
    inst.withObsoleters sack query (if query.any (·.installed) then query else inst.latestPerArchByPriority query)
  else query

/-- `trans_install` -/
def transInstall (query : List Transaction.Package) (entry : Entry) (strict : Bool) : List CompsJob :=
  match entry.requires.filter (· ≠ "") with
  | some requires => [.install (.provides ("(" ++ entry.name ++ " if " ++ requires ++ ")")) !strict]
  | none => if inst.multilibAll then inst.installMultiarch sack query strict else [.install (.pkgs (inst.selected sack query)) !strict]

/-- `trans_upgrade` -/
def transUpgrade (query : List Transaction.Package) : List CompsJob := [.upgrade (.pkgs query)]

variable {Change : Type} (conf : KeptBack.Conf CompsJob Change)

/-- One turn of the loop of `_finalize_comps_trans`: an entry without packages makes no job. -/
def entryJobs (fn : List Transaction.Package → Entry → List CompsJob) (entry : Entry) : List CompsJob :=
  if (KeptBack.query conf entry).isEmpty then [] else fn (KeptBack.query conf entry) entry

/-- The loops over `install`, `install_opt` and `upgrade`. -/
def compsJobs (trans : TransactionBunch) : List CompsJob :=
  (inst.order trans.install).flatMap (entryJobs conf fun query entry => inst.transInstall conf.base.sack query entry true) ++
  (inst.order trans.installOpt).flatMap (entryJobs conf fun query entry => inst.transInstall conf.base.sack query entry false) ++
  (inst.order trans.upgrade).flatMap (entryJobs conf fun query _ => transUpgrade query)

/-- The base whose comps transaction is turned into these jobs. -/
def configured : KeptBack.Conf CompsJob Change := { conf with compsJobs := inst.compsJobs conf }

end Installing

end Dnf.Groups
