import Dnf.Cli.FmtColumns
import Dnf.Foundation.PyStr
import Dnf.Foundation.Words
import Dnf.Listing.Dicts
import Mathlib.Data.Char
import Mathlib.Data.List.Lex
import Mathlib.Data.List.Sort

/-!
# `dnf check`

Each kind of check goes through the installed packages and adds lines to one set, which is printed in order and counted in the error. What hawkey answers is a parameter: which packages provide a dependency, which are duplicated, and how packages compare.
-/

namespace Dnf.Cli.Check

open Foundation
open Dnf.Listing (record)

inductive CheckType
  | all
  | dependencies
  | duplicates
  | obsoleted
  | provides
  deriving DecidableEq

/-- `text.split()` -/
def split (text : List Char) : List (List Char) := Foundation.words (fun c => PyStr.isSpace c.toNat) text

/-- A dependency as hawkey prints it. There is a name in it. -/
structure Reldep where
  text : List Char
  named : split text ≠ []
  deriving DecidableEq

/-- `str(reldep).split()[0]` -/
def Reldep.name (reldep : Reldep) : List Char := (split reldep.text).head reldep.named

/-- The installed packages, with `installonlypkgs` of the configuration. `solvable` is the answer of the goal for a rich dependency. -/
structure Rpmdb (Package : Type) where
  installed : List Package
  nodup : installed.Nodup
  name : Package → List Char
  arch : Package → List Char
  str : Package → List Char
  le : Package → Package → Bool
  evrCmp : Package → Package → Ordering
  regularRequires : Package → List Reldep
  requiresPre : Package → List Reldep
  prereqIgnoreinst : Package → List Reldep
  conflicts : Package → List Reldep
  obsoletes : Package → List Reldep
  provides : Package → List Reldep
  hasProvide : Package → Reldep → Bool
  duplicated : Package → Bool
  installonlypkgs : List Reldep
  solvable : Reldep → Bool

/-- What a line is about. -/
inductive Problem (Package : Type)
  | missingRequires (pkg : Package) (require : Reldep)
  | conflict (pkg : Package) (reldep : Reldep) (conflictPkg : Package)
  | duplicate (first dup : Package)
  | obsoleted (old pkg : Package)
  | missingProvide (pkg : Package) (provide : Reldep)
  deriving DecidableEq

variable {Package : Type}

/-- The line. -/
def Problem.line (term : FmtColumns.Term) (db : Rpmdb Package) (problem : Problem Package) : List Char :=
  let bold (s : List Char) := term.bold ++ s ++ term.normal
  match problem with
  | .missingRequires pkg require => bold (db.str pkg) ++ " has missing requires of ".toList ++ bold require.text
  | .conflict pkg reldep conflictPkg =>
      bold (db.str pkg) ++ " has installed conflict \"".toList ++ bold reldep.text ++ "\": ".toList ++ bold (db.str conflictPkg)
  | .duplicate first dup => bold (db.str first) ++ " is a duplicate with ".toList ++ bold (db.str dup)
  | .obsoleted old pkg => bold (db.str old) ++ " is obsoleted by ".toList ++ bold (db.str pkg)
  | .missingProvide pkg provide => bold (db.str pkg) ++ " provides ".toList ++ bold provide.text ++ " but it cannot be found".toList

/-- `'Check discovered {} problem(s)'.format(count)` -/
def discovered (count : Nat) : List Char := "Check discovered ".toList ++ (toString count).toList ++ " problem(s)".toList

namespace Rpmdb

variable (db : Rpmdb Package)

/-- `q.filter(provides=[reldep])` -/
def providers (reldep : Reldep) : List Package := db.installed.filter fun p => db.hasProvide p reldep

/-- `q.filter(provides=[reldep], name=str(reldep).split()[0])` -/
def namedProviders (reldep : Reldep) : List Package := db.installed.filter fun p => db.hasProvide p reldep && db.name p = reldep.name

/-- `_get_installonly_query(q)` -/
def installonly (pkg : Package) : Bool := db.installonlypkgs.any fun reldep => db.hasProvide pkg reldep

/-- `set(pkg.regular_requires) | set(set(pkg.requires_pre) - set(pkg.prereq_ignoreinst))` -/
def requires (pkg : Package) : List Reldep :=
  db.regularRequires pkg ++ (db.requiresPre pkg).filter fun reldep => decide (reldep ∉ db.prereqIgnoreinst pkg)

/-- Neither of `rpmlib` nor provided nor, for a rich dependency, solved without another package. -/
def missing (require : Reldep) : Bool :=
  !("rpmlib".toList).isPrefixOf require.text && (db.providers require).isEmpty && !("(".toList.isPrefixOf require.text && db.solvable require)

def dependencyProblems : List (Problem Package) :=
  db.installed.flatMap fun pkg =>
    ((db.requires pkg).filter db.missing).map (.missingRequires pkg) ++
      (db.conflicts pkg).flatMap fun conflict => (db.namedProviders conflict).map (.conflict pkg conflict)

/-- `q.duplicated().difference(installonly)` -/
def dups : List Package := db.installed.filter fun p => db.duplicated p && !db.installonly p

/-- `_name_dict()` -/
def nameDict : List (List Char × List Package) := db.dups.foldl (record db.name fun held p => some (held.getD [] ++ [p])) []

/-- The first one with each of the others. -/
def againstFirst : List Package → List (Problem Package)
  | [] => []
  | first :: rest => rest.map (.duplicate first)

def duplicateProblems : List (Problem Package) := db.nameDict.flatMap fun entry => againstFirst (entry.2.mergeSort db.le)

def obsoletedProblems : List (Problem Package) :=
  db.installed.flatMap fun pkg => (db.obsoletes pkg).flatMap fun obsolete =>
    -- `obsoleted[0]`, if there is one
    (db.namedProviders obsolete).head?.toList.map fun old => .obsoleted old pkg

variable [DecidableEq Package]

def provideProblems : List (Problem Package) :=
  db.installed.flatMap fun pkg => ((db.provides pkg).filter fun provide => decide (pkg ∉ db.providers provide)).map (.missingProvide pkg)

/-- `check_types.intersection({'all', type})` -/
def asked (types : List CheckType) (type : CheckType) : Bool := types.contains .all || types.contains type

/-- What is found, in the order in which it is added. -/
def problems (types : List CheckType) : List (Problem Package) :=
  (if asked types .dependencies then db.dependencyProblems else []) ++ (if asked types .duplicates then db.duplicateProblems else []) ++
    (if asked types .obsoleted then db.obsoletedProblems else []) ++ (if asked types .provides then db.provideProblems else [])

/-- `output_set` -/
def outputSet (term : FmtColumns.Term) (types : List CheckType) : List (List Char) := ((db.problems types).map (Problem.line term db)).dedup

/-- `CheckCommand.run`: the lines that are printed, and the error that is raised after them. -/
def run (term : FmtColumns.Term) (types : List CheckType) : List (List Char) × Option (List Char) :=
  ((db.outputSet term types).mergeSort fun line line' => line ≤ line',
    if db.outputSet term types ≠ [] then some (discovered (db.outputSet term types).length) else none)

end Rpmdb

end Dnf.Cli.Check
