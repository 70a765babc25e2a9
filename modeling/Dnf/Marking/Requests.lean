import Dnf.Foundation.Effect
import Dnf.Foundation.Fnmatch
import Dnf.Groups.Jobs

/-!
# Marking requests

The methods of `Base` that turn what the user asks for into jobs of the goal. A request finds packages, may be refused, and otherwise adds jobs. The security filters take part in every upgrade: they are kept in the base, and one of the lists is rewritten when it is used.

A query is a list of packages of the sack. What hawkey answers is a parameter.
-/

namespace Dnf.Marking

open Foundation Foundation.Effect Foundation.Fnmatch
open Transaction (Package)
open Groups (Installing)

/-- What `solution['nevra']` is used for. -/
structure NevraForm where
  name : Option String
  justName : Bool

structure Solution where
  query : List Package
  nevra : Option NevraForm := none
  archSpecified : Bool := false

/-- Where a request found nothing: what the error says of it. -/
inductive Missing
  | noMatch
  | excludeFiltering
  | modularFiltering
  | differentRepository
  deriving DecidableEq

/-- The subclasses of `MarkingError`, and that class. -/
inductive Exc
  | packageNotFound (reason : Missing)
  | packagesNotInstalled (reason : Missing)
  | packagesNotAvailable
  | markingError
  deriving DecidableEq

inductive Job
  | install (select : List Package) (reponame : Option String) (optional : Bool)
  | upgrade (select : List Package)
  | distupgrade (select : List Package)
  | distupgradeAll
  | erase (pkg : Package) (cleanDeps : Bool)
  deriving DecidableEq

/-- `filters` are the queries of `_update_security_filters`, and `options` the dictionary `_update_security_options`. -/
structure State where
  jobs : List Job := []
  filters : List (List Package) := []
  options : List (String × Finset String) := []

abbrev Prog := EStateM Exc State

/-- The sack and the configuration, and what hawkey and the history answer; `solve` is told whether source packages count. `unfiltered` finds what a spec would match without the excludes, and `regular` are the packages that the regular excludes leave. -/
structure Base where
  sack : List Package
  installing : Installing
  strict : Bool
  cleanDeps : Bool
  protectedPackages : List String
  solve : Bool → String → Solution
  solve_subset : ∀ withSrc spec, (solve withSrc spec).query ⊆ sack
  unfiltered : String → List Package
  regular : List Package
  selectors : String → Option String → List (List Package)
  syncSelectors : String → List (List Package)
  latest : List Package → List Package
  latest_subset : ∀ pkgs, latest pkgs ⊆ pkgs
  isUpgrade : Package → Bool
  isDowngrade : Package → Bool
  advised : String → Finset String → List Package → List Package
  historyRepo : Package → String
  unneeded : List Package
  unneededExtra : List Package → List Package

def addJob (job : Job) : Prog Unit := modify fun s => { s with jobs := s.jobs ++ [job] }

namespace Base

variable (base : Base)

def installed : List Package := base.sack.filter (·.installed)

/-- `sack.query()` with a filter. -/
def query (p : Package → Bool) : List Package := base.sack.filter p

/-! ### The security filters -/

/-- `_merge_update_filters` with `upgrade=True` -/
def mergeUpdateFilters (q : List Package) : Prog (List Package) := do
  let s ← get
  if (s.options = [] ∧ s.filters = []) ∨ q = [] then pure q
  else do
    let merged := base.query fun pkg => s.filters.any fun query => pkg ∈ query
    let filters := if s.filters = [] then s.filters else [merged]
    set { s with filters }
    pure (q.filter fun pkg => pkg ∈ merged || s.options.any fun option => pkg ∈ base.advised (option.1 ++ "__upgrade") option.2 q)

/-! ### Upgrades -/

/-- What `_upgrade_internal` hands to the filters. -/
def upgradeQuery (query : List Package) (obsoletes : Bool) (reponame : Option String) : List Package :=
  let q := query.filter fun pkg => pkg.name ∈ base.installed.map (·.name)
  let old := q.filter fun pkg => pkg.installed || base.isUpgrade pkg
  let query := if obsoletes then base.query fun pkg => pkg ∈ query || (!pkg.installed && old.any fun o => base.installing.obsoletedBy o pkg) else query
  query.filter fun pkg => reponame.all (pkg.reponame == ·)

def upgradeInternal (query : List Package) (obsoletes : Bool) (reponame : Option String) : Prog Nat := do
  let query ← base.mergeUpdateFilters (base.upgradeQuery query obsoletes reponame)
  if query.isEmpty then pure 1
  else do
    let current := (base.latest base.installed).filter fun pkg => pkg.name ∈ query.map (·.name)
    addJob (.upgrade (base.query fun pkg => pkg ∈ query || pkg ∈ current))
    pure 1

/-- What is installed has a name, or the query obsoletes something that is installed. -/
def upgradable (pkgSpec : String) (solution : Solution) : Bool :=
  match (solution.nevra.bind NevraForm.name).filter (· ≠ "") with
  | none => true
  | some pkgName =>
      isGlobPattern pkgSpec ||
      (base.installing.obsoletes && solution.query.any fun pkg => base.installed.any fun old => base.installing.obsoletedBy old pkg) ||
      base.installed.any (·.name == pkgName)

def upgrade (pkgSpec : String) (reponame : Option String) : Prog Nat :=
  let solution := base.solve true pkgSpec
  if solution.query.isEmpty then throw .markingError
  else if base.upgradable pkgSpec solution then
    base.upgradeInternal solution.query (base.installing.obsoletes && solution.nevra.any NevraForm.justName) reponame
  else throw (.packagesNotInstalled .noMatch)

def upgradeAll (reponame : Option String) : Prog Nat := base.upgradeInternal base.sack base.installing.obsoletes reponame

/-! ### Installations -/

def raisePackageNotFoundError {α : Type} (pkgSpec : String) (reponame : Option String) : Prog α :=
  let query := (base.unfiltered pkgSpec).filter fun pkg => reponame.all (pkg.reponame == ·)
  if query.isEmpty then throw (.packageNotFound .noMatch)
  else if query.any (· ∈ base.regular) then throw (.packageNotFound .excludeFiltering)
  else throw (.packageNotFound .modularFiltering)

/-- `_install_multiarch` -/
def installMultiarch (query : List Package) (reponame : Option String) (strict : Bool) : Prog Nat := do
  let available := Installing.notInstalled query
  available.forM fun packages => addJob (.install (base.installing.selectedOfArch base.sack packages) reponame !strict)
  pure available.length

def install (pkgSpec : String) (reponame : Option String) (strict : Bool) : Prog Nat :=
  let solution := base.solve false pkgSpec
  if base.installing.multilibAll || solution.archSpecified then
    let q := solution.query.filter fun pkg => reponame.all (pkg.reponame == ·)
    if q.isEmpty then base.raisePackageNotFoundError pkgSpec reponame else base.installMultiarch q reponame strict
  else
    let sltrs := base.selectors pkgSpec reponame
    if sltrs.isEmpty then base.raisePackageNotFoundError pkgSpec reponame
    else do
      sltrs.forM fun sltr => addJob (.install sltr none !strict)
      pure 1

def distroSync : Option String → Prog Nat
  | none => do
      addJob .distupgradeAll
      pure 1
  | some pkgSpec => do
      let sltrs := base.syncSelectors pkgSpec
      sltrs.forM fun sltr => addJob (.distupgrade sltr)
      pure (if sltrs.isEmpty then 0 else 1)

/-! ### Removals -/

/-- The installed packages of a query that came from a repository. -/
def installedFrom (query : List Package) (reponame : Option String) : List Package :=
  query.filter fun pkg => pkg.installed && reponame.all (base.historyRepo pkg == ·)

def raisePackageNotInstalledError {α : Type} (pkgSpec : String) (reponame : Option String) : Prog α :=
  let query := (base.unfiltered pkgSpec).filter (·.installed)
  if query.isEmpty then throw (.packagesNotInstalled .noMatch)
  else if (base.installedFrom query reponame).isEmpty then throw (.packagesNotInstalled .differentRepository)
  else throw (.packagesNotInstalled .excludeFiltering)

def remove (pkgSpec : String) (reponame : Option String) : Prog Nat := do
  let installed := base.installedFrom (base.solve true pkgSpec).query reponame
  if installed.isEmpty then base.raisePackageNotInstalledError pkgSpec reponame
  else do
    installed.forM fun pkg => addJob (.erase pkg base.cleanDeps)
    pure installed.length

/-- `autoremove` without arguments. -/
def autoremove : Prog Nat := do
  let protected' := base.installed.filter fun pkg => pkg.name ∈ base.protectedPackages
  let unneeded := if protected'.any (· ∈ base.unneeded) then base.unneededExtra protected' else base.unneeded
  unneeded.forM fun pkg => addJob (.erase pkg false)
  pure 0

/-! ### Other versions -/

/-- One turn of the loop of `reinstall`; `cnt` counts the jobs. -/
def reinstallPkg (available : List Package) (removeNa : Bool) (cnt : Nat) (installedPkg : Package) : Prog Nat :=
  match available.filter fun pkg => pkg.nevra.text == installedPkg.nevra.text with
  | [] =>
      if removeNa then do
        addJob (.erase installedPkg base.cleanDeps)
        pure (cnt + 1)
      else pure cnt
  | pkg :: pkgs => do
      addJob (.install (pkg :: pkgs) none !base.strict)
      pure (cnt + 1)

def reinstall (pkgSpec : String) (oldReponame newReponame newReponameNeq : Option String) (removeNa : Bool) : Prog Nat := do
  let q := (base.solve true pkgSpec).query
  let installedPkgs := base.installedFrom q oldReponame
  let available := q.filter fun pkg => !pkg.installed && newReponame.all (pkg.reponame == ·) && newReponameNeq.all (pkg.reponame != ·)
  if installedPkgs.isEmpty then throw (.packagesNotInstalled .noMatch)
  else do
    let cnt ← installedPkgs.foldlM (base.reinstallPkg available removeNa) 0
    if cnt = 0 then throw .packagesNotAvailable else pure cnt

/-- One turn of the loop of `downgrade_to`. -/
def downgradePkgs (available : List Package) (strict : Bool) (done : Nat) (pkgName : String) : Prog Nat :=
  match available.filter fun pkg => base.isDowngrade pkg && pkg.name == pkgName with
  | [] => pure done
  | pkg :: pkgs => do
      addJob (.install (pkg :: pkgs) none !strict)
      pure 1

def downgradeTo (pkgSpec : String) (strict : Bool) : Prog Nat := do
  let q := (base.solve true pkgSpec).query
  if q.isEmpty then throw (.packageNotFound .noMatch)
  else do
    let available := q.filter fun pkg => !pkg.installed
    let qInstalled := base.installed.filter fun pkg => pkg.name ∈ available.map (·.name)
    if qInstalled.isEmpty then throw (.packagesNotInstalled .noMatch)
    else (qInstalled.map (·.name)).eraseDups.foldlM (base.downgradePkgs available strict) 0

end Base

/-! ### Runs -/

inductive Request
  | install (pkgSpec : String) (reponame : Option String) (strict : Bool)
  | upgrade (pkgSpec : String) (reponame : Option String)
  | upgradeAll (reponame : Option String)
  | distroSync (pkgSpec : Option String)
  | remove (pkgSpec : String) (reponame : Option String)
  | reinstall (pkgSpec : String) (oldReponame newReponame newReponameNeq : Option String) (removeNa : Bool)
  | downgradeTo (pkgSpec : String) (strict : Bool)
  | autoremove

namespace Base

variable (base : Base)

def mark : Request → Prog Nat
  | .install pkgSpec reponame strict => base.install pkgSpec reponame strict
  | .upgrade pkgSpec reponame => base.upgrade pkgSpec reponame
  | .upgradeAll reponame => base.upgradeAll reponame
  | .distroSync pkgSpec => base.distroSync pkgSpec
  | .remove pkgSpec reponame => base.remove pkgSpec reponame
  | .reinstall pkgSpec oldReponame newReponame newReponameNeq removeNa => base.reinstall pkgSpec oldReponame newReponame newReponameNeq removeNa
  | .downgradeTo pkgSpec strict => base.downgradeTo pkgSpec strict
  | .autoremove => base.autoremove

/-- The commands go on with the next request after one that was refused. -/
def run (requests : List Request) (s : State) : State := requests.foldl (fun s request => Effect.final (base.mark request s)) s

end Base

end Dnf.Marking
