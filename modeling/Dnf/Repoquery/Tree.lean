import Dnf.Foundation.Exploration
import Dnf.Foundation.Fuel
import Dnf.Listing.Dicts
import Dnf.Repoquery.Recursive
import Mathlib.Data.Char
import Mathlib.Data.List.Lex
import Mathlib.Data.List.Sort

/-!
# The tree of a repoquery

`repoquery --tree` prints below each package of the query what it leads to: the packages that provide what it requires (or conflicts with, or another attribute), of which one is kept for each name and architecture, or those that depend on it. A package whose successors have been printed below the same root is printed again, but not expanded. The packages of a listing are sorted by their names, and one named `rpmlib` or `solvable` ends the listing.
-/

namespace Dnf.Repoquery

open Foundation
open Listing (assign)

/-- The dependencies that only `all_dep_types` looks at. -/
inductive WeakDep
  | recommends
  | enhances
  | supplements
  | suggests
  deriving DecidableEq

/-- What a tree asks the sack, and the orders in which Python goes through the packages. -/
structure TreeSack (Package Reldep : Type) extends Sack Package Reldep where
  name : Package → List Char
  arch : Package → List Char
  /-- `str` of a dependency -/
  text : Reldep → List Char
  /-- `base.sack.query()` -/
  packages : Finset Package
  /-- `set(getattr(pkg, attribute))`, in the order in which it is iterated -/
  attr : List Char → Package → List Reldep
  requiresGlob : Package → List Char → Bool
  weakGlob : WeakDep → Package → List Char → Bool
  weakPackage : WeakDep → Package → Package → Bool
  /-- `dnf.subject.Subject(nevra).get_best_query(sack, with_provides=False, with_filenames=False)` -/
  bestQuery : List Char → Finset Package
  /-- A query, in the order in which it is iterated. -/
  run : Finset Package → List Package
  /-- The set of the packages of a query, in the order in which that is iterated. -/
  iterated : Finset Package → List Package
  mem_run : ∀ {query p}, p ∈ run query ↔ p ∈ query
  mem_iterated : ∀ {query p}, p ∈ iterated query ↔ p ∈ query

/-- `packageatr` is empty without an option for an attribute. -/
structure TreeOptions where
  packageatr : List Char := []
  alldeps : Bool := false
  recursive : Bool := false

/-- A line of the output. `expanded` tells whether the package was new below its root. -/
structure Line (Package : Type) where
  level : Int
  pkg : Package
  expanded : Bool
  deriving DecidableEq

variable {Package Reldep : Type} [DecidableEq Package] (sack : TreeSack Package Reldep) (opts : TreeOptions)

/-! ### Successors -/

/-- `name + "." + arch` -/
def TreeSack.nameArch (pkg : Package) : List Char := sack.name pkg ++ '.' :: sack.arch pkg

def TreeSack.resolveNevras (nevras : List (List Char)) (baseQuery : Finset Package) : Finset Package :=
  nevras.foldl (fun resolved nevra => resolved ∪ baseQuery ∩ sack.bestQuery nevra) ∅

def TreeSack.byAllDeps (names : List (List Char)) (query : Finset Package) (allDepTypes : Bool) : Finset Package :=
  let resolved := sack.resolveNevras names query
  let filterGlob (dep : WeakDep) := query.filter fun p => ∃ name ∈ names, sack.weakGlob dep p name = true
  let filterPackage (dep : WeakDep) := query.filter fun p => ∃ q ∈ resolved, sack.weakPackage dep p q = true
  let depquery := query.filter fun p => ∃ name ∈ names, sack.requiresGlob p name = true
  let depquery := depquery ∪ sack.filterRequires query resolved
  let depquery :=
    if allDepTypes then
      depquery ∪ filterGlob .recommends ∪ filterGlob .enhances ∪ filterGlob .supplements ∪ filterGlob .suggests ∪
        filterPackage .recommends ∪ filterPackage .enhances ∪ filterPackage .supplements ∪ filterPackage .suggests
    else depquery
  if opts.recursive then sack.doRecursiveDeps query depquery none else depquery

/-- The dict `ar`: for each name and architecture the last package that provides one of the dependencies. -/
def TreeSack.ar (names : List Reldep) : List (List Char × Package) :=
  names.foldl
    (fun ar name => (sack.run (sack.filterProvides sack.packages [name])).foldl (fun ar querypkg => assign ar (sack.nameArch querypkg) querypkg) ar) []

/-- `pkgquery`: what is printed below a package. -/
def TreeSack.pkgquery (aquery : Finset Package) (pkg : Package) : Finset Package :=
  if opts.packageatr ≠ [] then ((sack.ar (sack.attr opts.packageatr pkg)).map Prod.snd).toFinset
  else if opts.alldeps then sack.byAllDeps opts [sack.name pkg] aquery false
  else aquery.filter fun p => sack.requiresGlob p (sack.name pkg) = true

/-! ### The tree -/

/-- `sorted(set(query.run()), key=lambda p: p.name)` -/
def TreeSack.sorted (query : Finset Package) : List Package :=
  (sack.iterated query).insertionSort fun p q => sack.name p ≤ sack.name q

/-- The packages that end a listing. -/
def TreeSack.isSkipped (pkg : Package) : Bool :=
  ['r', 'p', 'm', 'l', 'i', 'b'].isPrefixOf (sack.name pkg) || ['s', 'o', 'l', 'v', 'a', 'b', 'l', 'e'].isPrefixOf (sack.name pkg)

/-- The text of a line; `format` is `build_format_fn`. -/
def TreeSack.growTree (format : Package → List Char) (line : Line Package) : List Char :=
  if line.level = -1 then format line.pkg
  else
    let requires := (sack.requires line.pkg).map sack.text
    let spacing := ' ' :: (List.replicate line.level.toNat ['|', ' ', ' ', ' ']).flatten
    let reqstr := ['['] ++ (toString requires.length).toList ++ [':', ' '] ++ [',', ' '].intercalate requires ++ [']']
    spacing ++ ['\\', '_', ' '] ++ format line.pkg ++ [' '] ++ reqstr

/-- The loop of `tree_seed`, with what it does for a new package; its results are the lines and `usedpkgs`. -/
def TreeSack.treeLoop (expand : Package → Finset Package → Option (List (Line Package) × Finset Package)) (level : Int) :
    List Package → Finset Package → Option (List (Line Package) × Finset Package)
  | [], usedpkgs => some ([], usedpkgs)
  | pkg :: pkgs, usedpkgs =>
      let usedpkgs := if level = -1 then ∅ else usedpkgs
      if sack.isSkipped pkg then some ([], usedpkgs)
      else if pkg ∈ usedpkgs then
        (TreeSack.treeLoop expand level pkgs usedpkgs).map fun (others, usedpkgs) => (⟨level, pkg, false⟩ :: others, usedpkgs)
      else
        (expand pkg (insert pkg usedpkgs)).bind fun (below, usedpkgs) =>
          (TreeSack.treeLoop expand level pkgs usedpkgs).map fun (others, usedpkgs) => (⟨level, pkg, true⟩ :: (below ++ others), usedpkgs)

/-- `tree_seed`; `none` is a recursion that has not ended yet. -/
def TreeSack.treeSeed (aquery : Finset Package) : Nat → Finset Package → Int → Finset Package → Option (List (Line Package) × Finset Package)
  | 0, _, _, _ => none
  | fuel + 1, query, level, usedpkgs =>
      sack.treeLoop (fun pkg usedpkgs => TreeSack.treeSeed aquery fuel (sack.pkgquery opts aquery pkg) (level + 1) usedpkgs) level
        (sack.sorted query) usedpkgs

end Dnf.Repoquery
