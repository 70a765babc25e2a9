import Mathlib.Logic.Function.Basic

/-!
# Package lists

`_list_pattern` fills a `GenericHolder` for one pattern, and `_do_package_lists` merges the holders of several patterns. `merge_lists` takes from the other holder what is a Python list at that moment: an attribute that holds a query stays what it was for the first pattern. hawkey's queries are sets of packages of the pool, which lists them in its own order; its filters and comparisons are whatever the sack answers.
-/

namespace Dnf.Listing

variable {Package : Type}

abbrev Query (Package : Type) := Package → Bool

/-- hawkey: packages and what is asked of them. -/
structure Sack (Package : Type) where
  pool : List Package
  name : Package → String
  arch : Package → String
  evr : Package → String
  pkgtup : Package → String × String × String × String × String
  reponame : Package → String
  obsoletes : Package → List String
  gt : Package → Package → Bool
  evrCmp : Package → Package → Ordering
  bestQuery : String → Bool → Query Package
  latestPerArchByPriority : Query Package → Query Package
  upgradesByPriority : Query Package → Query Package
  latest : Query Package → Query Package
  unneeded : Query Package → Query Package
  extras : Query Package → Query Package
  obsoletesByPriority : Query Package → Query Package → Query Package
  recent : Int → Query Package → Query Package
  provides : Package → String → Bool
  securityFilter : String → List String → Query Package → Query Package

namespace Sack

variable (sack : Sack Package)

/-- What iterating over a query gives, and `run()`. -/
def run (q : Query Package) : List Package := sack.pool.filter q

def installed (q : Query Package) : Query Package := fun p => q p && sack.reponame p == "@System"

def available (q : Query Package) : Query Package := fun p => q p && sack.reponame p != "@System"

/-- `filterm(arch__neq=['src', 'nosrc'])` -/
def notSource (q : Query Package) : Query Package := fun p => q p && sack.arch p != "src" && sack.arch p != "nosrc"

end Sack

/-- `d[key] = value` of a dict: a key keeps the place it was first given. -/
def assign {κ ν : Type} [DecidableEq κ] (d : List (κ × ν)) (key : κ) (value : ν) : List (κ × ν) :=
  match d with
  | [] => [(key, value)]
  | entry :: rest => if entry.1 = key then (key, value) :: rest else entry :: assign rest key value

/-- `query._na_dict()` -/
def Sack.naDict (sack : Sack Package) (q : Query Package) : List ((String × String) × List Package) :=
  (sack.run q).foldl (fun d p => assign d (sack.name p, sack.arch p) (((d.lookup (sack.name p, sack.arch p)).getD []) ++ [p])) []

structure Base (Package : Type) where
  sack : Sack Package
  historyRepo : Package → String
  recent : Int
  showdupesfromrepos : Bool
  updateSecurityFilters : List (Query Package)
  updateSecurityOptions : List (String × List String)

namespace Base

variable (self : Base Package)

def securityUnion (filters : List (Query Package)) : Query Package := fun p => filters.any fun q => q p

/-- `_merge_update_filters`, which leaves one filter of the given ones behind. -/
def mergeUpdateFilters (q : Query Package) (upgrade : Bool) : Query Package × Base Package :=
  if (self.updateSecurityOptions = [] ∧ self.updateSecurityFilters = []) ∨ self.sack.run q = [] then (q, self)
  else
    (fun p => q p && (securityUnion self.updateSecurityFilters p || self.updateSecurityOptions.any fun option =>
        self.sack.securityFilter (if upgrade then option.1 ++ "__upgrade" else option.1) option.2 q p),
      if self.updateSecurityFilters = [] then self else { self with updateSecurityFilters := [securityUnion self.updateSecurityFilters] })

end Base

/-! ### The holder -/

inductive Kind
  | all
  | upgrades
  | installed
  | available
  | autoremove
  | extras
  | obsoletes
  | recent
  deriving DecidableEq

/-- The attributes that hold packages. -/
inductive Attribute
  | installed
  | available
  | reinstallAvailable
  | oldAvailable
  | updates
  | obsoletes
  | recent
  | extras
  | autoremove
  deriving DecidableEq

def Attribute.all : List Attribute :=
  [.installed, .available, .reinstallAvailable, .oldAvailable, .updates, .obsoletes, .recent, .extras, .autoremove]

/-- An attribute is a Python list or a query. -/
inductive Value (α : Type)
  | list (l : List α)
  | query (q : Query α)

structure GenericHolder (Package : Type) where
  iter : Kind
  lists : Attribute → Value Package := fun _ => .list []
  obsoletesTuples : Value (Package × Package) := .list []

def GenericHolder.set (ygh : GenericHolder Package) (a : Attribute) (value : Value Package) : GenericHolder Package :=
  { ygh with lists := Function.update ygh.lists a value }

/-- `vars(self).setdefault(key, []).extend(val)` for a `val` of `all_lists`; a query has no `extend`. -/
def Value.extend {α : Type} : Value α → Value α → Option (Value α)
  | .list l, .list val => some (.list (l ++ val))
  | .query _, .list _ => none
  | value, .query _ => some value

/-- `merge_lists`; `none` is the `AttributeError`. -/
def GenericHolder.mergeLists (self other : GenericHolder Package) : Option (GenericHolder Package) :=
  if Attribute.all.all fun a => ((self.lists a).extend (other.lists a)).isSome then
    (self.obsoletesTuples.extend other.obsoletesTuples).map fun tuples =>
      { self with lists := fun a => ((self.lists a).extend (other.lists a)).getD (self.lists a), obsoletesTuples := tuples }
  else none

/-! ### One pattern -/

namespace Base

variable (self : Base Package)

def isFromRepo (reponame : Option String) (p : Package) : Bool :=
  match reponame with
  | none => true
  | some repo => self.historyRepo p == repo

def queryForRepo (reponame : Option String) (q : Query Package) : Query Package :=
  match reponame with
  | none => q
  | some repo => fun p => q p && self.sack.reponame p == repo

/-- The initial pre-selection. -/
def preselect (pattern : Option String) (ignoreCase : Bool) : Query Package :=
  match pattern with
  | none => fun _ => true
  | some pattern => self.sack.bestQuery pattern ignoreCase

/-- `dinst` of the branch for all packages: the installed packages by `pkgtup`. -/
def dinst (q : Query Package) : List ((String × String × String × String × String) × Package) :=
  (self.sack.run (self.sack.installed q)).foldl (fun d po => assign d (self.sack.pkgtup po) po) []

/-- `ndinst`: the newest versions by name and architecture. -/
def ndinst (q : Query Package) (showdups : Bool) : List ((String × String) × Package) :=
  if showdups then []
  else
    (self.sack.run (self.sack.installed q)).foldl (fun d po =>
      match d.lookup (self.sack.name po, self.sack.arch po) with
      | none => assign d (self.sack.name po, self.sack.arch po) po
      | some newest => if self.sack.gt po newest then assign d (self.sack.name po, self.sack.arch po) po else d) []

/-- Which list an available package goes to in the branch for all packages. -/
def placeOfAll (q : Query Package) (showdups : Bool) (pkg : Package) : Attribute :=
  if ((self.dinst q).lookup (self.sack.pkgtup pkg)).isSome then .reinstallAvailable
  else if showdups then .available
  else
    match (self.ndinst q showdups).lookup (self.sack.name pkg, self.sack.arch pkg) with
    | none => .available
    | some newest => if self.sack.evrCmp pkg newest = .gt then .available else .oldAvailable

def listAll (q : Query Package) (showdups : Bool) (reponame : Option String) : GenericHolder Package :=
  let avail := self.queryForRepo reponame (self.sack.available q)
  let avail := self.sack.run (if showdups then avail else self.sack.latestPerArchByPriority avail)
  let placed (a : Attribute) := Value.list (avail.filter fun pkg => self.placeOfAll q showdups pkg = a)
  ({ iter := .all } : GenericHolder Package)
    |>.set .installed (.list (((self.dinst q).map Prod.snd).filter (self.isFromRepo reponame)))
    |>.set .reinstallAvailable (placed .reinstallAvailable)
    |>.set .available (placed .available)
    |>.set .oldAvailable (placed .oldAvailable)

/-- With duplicates a package is to be reinstalled if some installed one has its name, architecture and EVR. -/
def placeOfDuplicate (q : Query Package) (pkg : Package) : Attribute :=
  let installedPkgs := ((self.sack.naDict (self.sack.installed q)).lookup (self.sack.name pkg, self.sack.arch pkg)).getD []
  if installedPkgs.any fun p => self.sack.evr p == self.sack.evr pkg then .reinstallAvailable else .available

def placeOfLatest (q : Query Package) (pkg : Package) : Attribute :=
  match ((self.sack.naDict (self.sack.latest (self.sack.installed q))).lookup (self.sack.name pkg, self.sack.arch pkg)).bind List.head? with
  | none => .available
  | some instPkg =>
      match self.sack.evrCmp pkg instPkg with
      | .gt => .available
      | .eq => .reinstallAvailable
      | .lt => .oldAvailable

def listAvailable (q : Query Package) (showdups : Bool) (reponame : Option String) : GenericHolder Package :=
  let avail := self.sack.available (self.queryForRepo reponame q)
  let pkgs := if showdups then self.sack.run avail
    else (self.sack.naDict (self.sack.latestPerArchByPriority avail)).filterMap fun entry => entry.2.head?
  let placed (a : Attribute) := Value.list (pkgs.filter fun pkg => (if showdups then self.placeOfDuplicate q pkg else self.placeOfLatest q pkg) = a)
  ({ iter := .available } : GenericHolder Package)
    |>.set .reinstallAvailable (placed .reinstallAvailable)
    |>.set .available (placed .available)
    |>.set .oldAvailable (placed .oldAvailable)

/-- The packages that upgrade others, before the security filters. -/
def upgrading (q : Query Package) (reponame : Option String) : Query Package := self.sack.upgradesByPriority (self.queryForRepo reponame q)

def listUpgrades (q : Query Package) (reponame : Option String) : GenericHolder Package :=
  let updates := (self.mergeUpdateFilters (self.upgrading q reponame) true).1
  ({ iter := .upgrades } : GenericHolder Package).set .updates (.list (self.sack.run (self.sack.latest (self.sack.notSource updates))))

/-- The packages that obsolete installed ones, before the security filters. -/
def obsoleting (q : Query Package) (reponame : Option String) : Query Package :=
  self.sack.obsoletesByPriority (self.sack.installed q) (self.queryForRepo reponame fun _ => true)

/-- The query that the branch leaves in `obsoletes`. -/
def obsoletesQuery (q : Query Package) (reponame : Option String) : Query Package :=
  self.sack.notSource (self.mergeUpdateFilters (self.obsoleting q reponame) true).1

def listObsoletes (q : Query Package) (reponame : Option String) : GenericHolder Package :=
  let inst := self.sack.installed q
  let obsoletes := self.obsoletesQuery q reponame
  let tuples := (self.sack.run obsoletes).flatMap fun new =>
    (self.sack.run fun old => inst old && (self.sack.obsoletes new).any (self.sack.provides old)).map fun old => (new, old)
  { ({ iter := .obsoletes } : GenericHolder Package).set .obsoletes (.query obsoletes) with obsoletesTuples := .list tuples }

/-- `_recent` gives a query. -/
def recentQuery (q : Query Package) (showdups : Bool) (reponame : Option String) : Query Package :=
  let avail := self.sack.available q
  let avail := if showdups then avail else self.sack.latestPerArchByPriority avail
  self.sack.recent self.recent (self.queryForRepo reponame avail)

def listRecent (q : Query Package) (showdups : Bool) (reponame : Option String) : GenericHolder Package :=
  ({ iter := .recent } : GenericHolder Package).set .recent (.query (self.recentQuery q showdups reponame))

def listPattern (pkgnarrow : Kind) (pattern : Option String) (showdups ignoreCase : Bool) (reponame : Option String) :
    GenericHolder Package × Base Package :=
  let q := self.preselect pattern ignoreCase
  match pkgnarrow with
  | .all => (self.listAll q showdups reponame, self)
  | .upgrades => (self.listUpgrades q reponame, (self.mergeUpdateFilters (self.upgrading q reponame) true).2)
  | .installed =>
      (({ iter := .installed } : GenericHolder Package).set .installed
        (.list ((self.sack.run (self.sack.installed q)).filter (self.isFromRepo reponame))), self)
  | .available => (self.listAvailable q showdups reponame, self)
  | .autoremove =>
      (({ iter := .autoremove } : GenericHolder Package).set .autoremove (.list (self.sack.run (self.sack.unneeded (self.queryForRepo reponame q)))), self)
  | .extras =>
      (({ iter := .extras } : GenericHolder Package).set .extras (.list ((self.sack.run (self.sack.extras q)).filter (self.isFromRepo reponame))), self)
  | .obsoletes => (self.listObsoletes q reponame, (self.mergeUpdateFilters (self.obsoleting q reponame) true).2)
  | .recent => (self.listRecent q showdups reponame, self)

/-! ### Several patterns -/

/-- One step of `reduce` over the lazy `map`. -/
def mergePattern (pkgnarrow : Kind) (showdups ignoreCase : Bool) (reponame : Option String)
    (acc : GenericHolder Package × Base Package) (pattern : String) : Option (GenericHolder Package × Base Package) :=
  let (ygh, self') := acc.2.listPattern pkgnarrow (some pattern) showdups ignoreCase reponame
  (acc.1.mergeLists ygh).map (·, self')

def doPackageLists (pkgnarrow : Kind) (patterns : List String) (showdups : Option Bool) (ignoreCase : Bool) (reponame : Option String) :
    Option (GenericHolder Package × Base Package) :=
  let showdups := showdups.getD self.showdupesfromrepos
  match patterns with
  | [] => some (self.listPattern pkgnarrow none showdups ignoreCase reponame)
  | pattern :: rest =>
      rest.foldlM (mergePattern pkgnarrow showdups ignoreCase reponame) (self.listPattern pkgnarrow (some pattern) showdups ignoreCase reponame)

end Base

end Dnf.Listing
