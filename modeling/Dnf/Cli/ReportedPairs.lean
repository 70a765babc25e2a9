import Dnf.Cli.CheckCommand
import Mathlib.Data.List.Dedup
import Mathlib.Data.List.Nodup

/-!
# The pairs that `dnf check` reports

Duplicates are grouped by their name alone, and the first of a group is reported with each of the others: one of another architecture is reported too. Of the packages that an entry obsoletes only the first is reported. Conflicts are reported in full, and the error counts the lines.
-/

namespace Dnf.Cli.Check

open Dnf.Listing (record mem_foldl_record foldl_keep_all)

variable {Package : Type}

/-- The check that adds the line. -/
def Problem.type : Problem Package → CheckType
  | .missingRequires _ _ => .dependencies
  | .conflict _ _ _ => .dependencies
  | .duplicate _ _ => .duplicates
  | .obsoleted _ _ => .obsoleted
  | .missingProvide _ _ => .provides

namespace Rpmdb

variable (db : Rpmdb Package)

/-- What hawkey documents: installed packages of one name and different versions are duplicated, and in the order of packages a newer one of a name is behind an older one. -/
structure Documented : Prop where
  oriented : Std.OrientedCmp db.evrCmp
  duplicated : ∀ p ∈ db.installed, ∀ p' ∈ db.installed, db.name p = db.name p' → db.evrCmp p p' ≠ .eq → db.duplicated p = true
  total : ∀ p p', (db.le p p' || db.le p' p) = true
  trans : ∀ p p' p'', db.le p p' = true → db.le p' p'' = true → db.le p p'' = true
  newer : ∀ p p', db.name p = db.name p' → db.evrCmp p' p = .lt → db.le p p' = false

/-- An older installed version of a package. -/
structure Older (p' p : Package) : Prop where
  installed : p' ∈ db.installed
  name : db.name p' = db.name p
  arch : db.arch p' = db.arch p
  evr : db.evrCmp p' p = .lt

/-- An installed package with the name of an entry that provides the entry. -/
structure Matches (reldep : Reldep) (p : Package) : Prop where
  installed : p ∈ db.installed
  name : db.name p = reldep.name
  provides : db.hasProvide p reldep = true

/-- The duplicates of a name, sorted. -/
def sameName (name : List Char) : List Package := (db.dups.filter fun p => db.name p = name).mergeSort db.le

/-- Duplicates of a name have one architecture, the first of them has no older version that is installonly, and what an entry obsoletes is the first match of an entry. -/
structure Unaffected (types : List CheckType) : Prop where
  oneArch : asked types .duplicates = true → ∀ p ∈ db.dups, ∀ p' ∈ db.dups, db.name p = db.name p' → db.arch p = db.arch p'
  notFirst : asked types .duplicates = true → ∀ p ∈ db.installed, db.installonly p = false → ∀ p', db.Older p' p → db.installonly p' = true →
    (db.sameName (db.name p)).head? ≠ some p
  firstMatch : asked types .obsoleted = true → ∀ p ∈ db.installed, ∀ reldep ∈ db.obsoletes p, ∀ old, db.Matches reldep old →
    ∃ reldep' ∈ db.obsoletes p, (db.namedProviders reldep').head? = some old

/-! ### What each check finds -/

variable {db} {types : List CheckType}

theorem mem_namedProviders {reldep : Reldep} {p : Package} : p ∈ db.namedProviders reldep ↔ db.Matches reldep p := by
  rw [namedProviders, List.mem_filter, Bool.and_eq_true, decide_eq_true_iff]
  exact ⟨fun ⟨hinstalled, hprovides, hname⟩ => ⟨hinstalled, hname, hprovides⟩, fun h => ⟨h.installed, h.provides, h.name⟩⟩

theorem mem_dups {p : Package} : p ∈ db.dups ↔ p ∈ db.installed ∧ db.duplicated p = true ∧ db.installonly p = false := by
  rw [dups, List.mem_filter, Bool.and_eq_true, Bool.not_eq_true']

theorem mem_sameName {name : List Char} {p : Package} : p ∈ db.sameName name ↔ p ∈ db.dups ∧ db.name p = name := by
  rw [sameName, List.mem_mergeSort, List.mem_filter, decide_eq_true_iff]

theorem nodup_sameName (name : List Char) : (db.sameName name).Nodup :=
  (List.mergeSort_perm _ _).nodup_iff.mpr ((db.nodup.filter _).filter _)

theorem mem_nameDict {name : List Char} {pkgs : List Package} :
    (name, pkgs) ∈ db.nameDict ↔ pkgs ≠ [] ∧ pkgs = db.dups.filter fun p => db.name p = name := by
  rw [nameDict, mem_foldl_record, foldl_keep_all]
  split_ifs with hnil
  · rw [hnil]
    exact iff_of_false nofun fun h => h.1 h.2
  · rw [Option.some.injEq, eq_comm]
    exact ⟨fun h => ⟨h ▸ hnil, h⟩, And.right⟩

theorem mem_againstFirst {pkgs : List Package} {first dup : Package} : .duplicate first dup ∈ againstFirst pkgs ↔ ∃ rest, pkgs = first :: rest ∧ dup ∈ rest := by
  cases pkgs with
  | nil => simp [againstFirst]
  | cons p rest => simp [againstFirst, and_comm]

theorem mem_duplicateProblems {first dup : Package} : .duplicate first dup ∈ db.duplicateProblems ↔ ∃ name rest, db.sameName name = first :: rest ∧ dup ∈ rest := by
  rw [duplicateProblems, List.mem_flatMap]
  constructor
  · intro ⟨⟨name, pkgs⟩, hentry, hpair⟩
    obtain ⟨-, rfl⟩ := mem_nameDict.mp hentry
    exact ⟨name, mem_againstFirst.mp hpair⟩
  · intro ⟨name, rest, hsorted, hdup⟩
    refine ⟨(name, db.dups.filter fun p => db.name p = name), mem_nameDict.mpr ⟨fun hnil => ?_, rfl⟩, mem_againstFirst.mpr ⟨rest, hsorted, hdup⟩⟩
    rw [sameName, hnil, List.mergeSort_nil] at hsorted
    cases hsorted

theorem mem_obsoletedProblems {old p : Package} : .obsoleted old p ∈ db.obsoletedProblems ↔
    p ∈ db.installed ∧ ∃ reldep ∈ db.obsoletes p, (db.namedProviders reldep).head? = some old := by
  simp only [obsoletedProblems, List.mem_flatMap, List.mem_map, Option.mem_toList, Problem.obsoleted.injEq]
  constructor
  · rintro ⟨_, hp, reldep, hreldep, _, hfirst, rfl, rfl⟩
    exact ⟨hp, reldep, hreldep, hfirst⟩
  · rintro ⟨hp, reldep, hreldep, hfirst⟩
    exact ⟨p, hp, reldep, hreldep, old, hfirst, rfl, rfl⟩

theorem mem_dependencyProblems {p other : Package} {reldep : Reldep} : .conflict p reldep other ∈ db.dependencyProblems ↔
    p ∈ db.installed ∧ reldep ∈ db.conflicts p ∧ db.Matches reldep other := by
  simp only [dependencyProblems, List.mem_flatMap, List.mem_append, List.mem_map, reduceCtorEq, and_false, exists_false, false_or, mem_namedProviders,
    Problem.conflict.injEq]
  constructor
  · rintro ⟨_, hp, _, hreldep, _, hother, rfl, rfl, rfl⟩
    exact ⟨hp, hreldep, hother⟩
  · rintro ⟨hp, hreldep, hother⟩
    exact ⟨p, hp, reldep, hreldep, other, hother, rfl, rfl, rfl⟩

/-- Each pair of duplicates has one architecture exactly where all duplicates of a name have. -/
theorem sameArch_iff : (∀ first dup, .duplicate first dup ∈ db.duplicateProblems → db.name first = db.name dup ∧ db.arch first = db.arch dup) ↔
    ∀ p ∈ db.dups, ∀ p' ∈ db.dups, db.name p = db.name p' → db.arch p = db.arch p' := by
  constructor
  · intro hpairs p hp p' hp' hname
    have hmem : p ∈ db.sameName (db.name p) := mem_sameName.mpr ⟨hp, rfl⟩
    have hmem' : p' ∈ db.sameName (db.name p) := mem_sameName.mpr ⟨hp', hname.symm⟩
    obtain ⟨first, rest, hsorted⟩ := List.exists_cons_of_ne_nil (List.ne_nil_of_mem hmem)
    -- both have the architecture of the first one
    have harch (x : Package) (hx : x ∈ db.sameName (db.name p)) : db.arch first = db.arch x := by
      rw [hsorted] at hx
      rcases List.mem_cons.mp hx with rfl | hrest
      · rfl
      · exact (hpairs first x (mem_duplicateProblems.mpr ⟨_, rest, hsorted, hrest⟩)).2
    exact (harch p hmem).symm.trans (harch p' hmem')
  · intro harch first dup hpair
    obtain ⟨name, rest, hsorted, hdup⟩ := mem_duplicateProblems.mp hpair
    obtain ⟨hfirst, hname⟩ := mem_sameName.mp (hsorted ▸ List.mem_cons_self : first ∈ db.sameName name)
    obtain ⟨hdup, hname'⟩ := mem_sameName.mp (hsorted ▸ List.mem_cons_of_mem _ hdup : dup ∈ db.sameName name)
    exact ⟨hname.trans hname'.symm, harch first hfirst dup hdup (hname.trans hname'.symm)⟩

/-- A duplicate is reported unless it is the first of its name. -/
theorem reported_iff {p : Package} (hp : p ∈ db.dups) : (∃ first, .duplicate first p ∈ db.duplicateProblems) ↔ (db.sameName (db.name p)).head? ≠ some p := by
  have hmem : p ∈ db.sameName (db.name p) := mem_sameName.mpr ⟨hp, rfl⟩
  constructor
  · intro ⟨first, hpair⟩ hhead
    obtain ⟨name, rest, hsorted, hrest⟩ := mem_duplicateProblems.mp hpair
    obtain rfl : db.name p = name := (mem_sameName.mp (hsorted ▸ List.mem_cons_of_mem _ hrest : p ∈ db.sameName name)).2
    rw [hsorted, List.head?_cons, Option.some.injEq] at hhead
    have hnodup := @nodup_sameName Package db (db.name p)
    rw [hsorted, List.nodup_cons] at hnodup
    exact hnodup.1 (hhead ▸ hrest)
  · intro hhead
    obtain ⟨first, rest, hsorted⟩ := List.exists_cons_of_ne_nil (List.ne_nil_of_mem hmem)
    rw [hsorted] at hmem
    refine ⟨first, mem_duplicateProblems.mpr ⟨_, rest, hsorted, (List.mem_cons.mp hmem).resolve_left ?_⟩⟩
    rintro rfl
    exact hhead (by rw [hsorted, List.head?_cons])

theorem Older.mem_dups {p p' : Package} (hdoc : db.Documented) (hp : p ∈ db.installed) (honly : db.installonly p = false) (h : db.Older p' p) :
    p ∈ db.dups := by
  have := hdoc.oriented
  refine Rpmdb.mem_dups.mpr ⟨hp, hdoc.duplicated p hp p' h.installed h.name.symm ?_, honly⟩
  rw [Std.OrientedCmp.gt_of_lt h.evr]
  exact nofun

/-- A package is not the first of its name where an older one is a duplicate. -/
theorem Older.not_first {p p' : Package} (hdoc : db.Documented) (hp : p ∈ db.installed) (h : db.Older p' p) (honly : db.installonly p' = false) :
    (db.sameName (db.name p)).head? ≠ some p := by
  intro hhead
  obtain ⟨rest, hsorted⟩ := List.head?_eq_some_iff.mp hhead
  have hdup : p' ∈ db.dups := Rpmdb.mem_dups.mpr ⟨h.installed, hdoc.duplicated p' h.installed p hp h.name (by rw [h.evr]; exact nofun), honly⟩
  have hmem : p' ∈ db.sameName (db.name p) := mem_sameName.mpr ⟨hdup, h.name⟩
  have hle : db.le p p' = true := by
    rw [hsorted] at hmem
    rcases List.mem_cons.mp hmem with rfl | hrest
    · exact (Bool.or_self _).symm.trans (hdoc.total p' p')
    · have hordered : (db.sameName (db.name p)).Pairwise fun a b => db.le a b = true := List.pairwise_mergeSort hdoc.trans hdoc.total _
      rw [hsorted] at hordered
      exact List.rel_of_pairwise_cons hordered hrest
  exact Bool.noConfusion (hle.symm.trans (hdoc.newer p p' h.name.symm h.evr))

/-- Every package with an older version is reported exactly where none that has an installonly one is the first of its name. -/
theorem duplicates_iff (hdoc : db.Documented) :
    (∀ p ∈ db.installed, db.installonly p = false → (∃ p', db.Older p' p) → ∃ first, .duplicate first p ∈ db.duplicateProblems) ↔
      ∀ p ∈ db.installed, db.installonly p = false → ∀ p', db.Older p' p → db.installonly p' = true → (db.sameName (db.name p)).head? ≠ some p := by
  constructor
  · intro hreported p hp honly p' holder _
    exact (reported_iff (holder.mem_dups hdoc hp honly)).mp (hreported p hp honly ⟨p', holder⟩)
  · rintro hfirst p hp honly ⟨p', holder⟩
    refine (reported_iff (holder.mem_dups hdoc hp honly)).mpr ?_
    cases honly' : db.installonly p' with
    | true => exact hfirst p hp honly p' holder honly'
    | false => exact holder.not_first hdoc hp honly'

/-- All that is obsoleted is reported exactly where each match is the first one of an entry. -/
theorem obsoleted_iff : (∀ old p, .obsoleted old p ∈ db.obsoletedProblems ↔ p ∈ db.installed ∧ ∃ reldep ∈ db.obsoletes p, db.Matches reldep old) ↔
    ∀ p ∈ db.installed, ∀ reldep ∈ db.obsoletes p, ∀ old, db.Matches reldep old → ∃ reldep' ∈ db.obsoletes p, (db.namedProviders reldep').head? = some old := by
  constructor
  · intro hpairs p hp reldep hreldep old hmatches
    exact (mem_obsoletedProblems.mp ((hpairs old p).mpr ⟨hp, reldep, hreldep, hmatches⟩)).2
  · intro hfirst old p
    rw [mem_obsoletedProblems]
    refine and_congr_right fun hp => ⟨?_, ?_⟩
    · intro ⟨reldep, hreldep, hhead⟩
      exact ⟨reldep, hreldep, mem_namedProviders.mp (List.mem_of_head? hhead)⟩
    · intro ⟨reldep, hreldep, hmatches⟩
      exact hfirst p hp reldep hreldep old hmatches

/-! ### What a run finds -/

variable [DecidableEq Package]

variable (db) in
/-- What the check of one type finds. -/
def check : CheckType → List (Problem Package)
  | .all => []
  | .dependencies => db.dependencyProblems
  | .duplicates => db.duplicateProblems
  | .obsoleted => db.obsoletedProblems
  | .provides => db.provideProblems

variable (db) in
/-- Of the three kinds of check that were asked for, every pair is reported and no false one, and the error counts the lines. -/
structure Reports (term : FmtColumns.Term) (types : List CheckType) : Prop where
  sameArch : asked types .duplicates = true → ∀ first dup, .duplicate first dup ∈ db.problems types → db.name first = db.name dup ∧ db.arch first = db.arch dup
  duplicates : asked types .duplicates = true → ∀ p ∈ db.installed, db.installonly p = false → (∃ p', db.Older p' p) →
    ∃ first, .duplicate first p ∈ db.problems types
  obsoleted : asked types .obsoleted = true → ∀ old p, .obsoleted old p ∈ db.problems types ↔
    p ∈ db.installed ∧ ∃ reldep ∈ db.obsoletes p, db.Matches reldep old
  conflicts : asked types .dependencies = true → ∀ p reldep other, .conflict p reldep other ∈ db.problems types ↔
    p ∈ db.installed ∧ reldep ∈ db.conflicts p ∧ db.Matches reldep other
  lines : ∀ line, line ∈ (db.run term types).1 ↔ ∃ problem ∈ db.problems types, problem.line term db = line
  count : (db.run term types).2 = if (db.run term types).1 = [] then none else some (discovered (db.run term types).1.length)

theorem mem_problems {problem : Problem Package} : problem ∈ db.problems types ↔
    (asked types .dependencies = true ∧ problem ∈ db.dependencyProblems) ∨ (asked types .duplicates = true ∧ problem ∈ db.duplicateProblems) ∨
      (asked types .obsoleted = true ∧ problem ∈ db.obsoletedProblems) ∨ (asked types .provides = true ∧ problem ∈ db.provideProblems) := by
  have hguard (b : Bool) (found : List (Problem Package)) : problem ∈ (if b = true then found else []) ↔ b = true ∧ problem ∈ found := by
    cases b <;> simp
  rw [problems, List.mem_append, List.mem_append, List.mem_append, hguard, hguard, hguard, hguard, or_assoc, or_assoc]

omit [DecidableEq Package] in
theorem type_of_mem_dependencyProblems : ∀ problem ∈ db.dependencyProblems, problem.type = .dependencies := by
  intro problem hmem
  obtain ⟨p, -, hmem⟩ := List.mem_flatMap.mp hmem
  rcases List.mem_append.mp hmem with hmissing | hconflict
  · obtain ⟨reldep, -, rfl⟩ := List.mem_map.mp hmissing
    rfl
  · obtain ⟨reldep, -, hmem⟩ := List.mem_flatMap.mp hconflict
    obtain ⟨other, -, rfl⟩ := List.mem_map.mp hmem
    rfl

omit [DecidableEq Package] in
theorem type_of_mem_duplicateProblems : ∀ problem ∈ db.duplicateProblems, problem.type = .duplicates := by
  intro problem hmem
  obtain ⟨entry, -, hmem⟩ := List.mem_flatMap.mp hmem
  cases hsorted : entry.2.mergeSort db.le with
  | nil =>
      rw [hsorted] at hmem
      cases hmem
  | cons first rest =>
      rw [hsorted] at hmem
      obtain ⟨dup, -, rfl⟩ := List.mem_map.mp hmem
      rfl

omit [DecidableEq Package] in
theorem type_of_mem_obsoletedProblems : ∀ problem ∈ db.obsoletedProblems, problem.type = .obsoleted := by
  intro problem hmem
  obtain ⟨p, -, hmem⟩ := List.mem_flatMap.mp hmem
  obtain ⟨reldep, -, hmem⟩ := List.mem_flatMap.mp hmem
  obtain ⟨old, -, rfl⟩ := List.mem_map.mp hmem
  rfl

theorem type_of_mem_provideProblems : ∀ problem ∈ db.provideProblems, problem.type = .provides := by
  intro problem hmem
  obtain ⟨p, -, hmem⟩ := List.mem_flatMap.mp hmem
  obtain ⟨provide, -, rfl⟩ := List.mem_map.mp hmem
  rfl

/-- What is found about a type comes from its own check. -/
theorem mem_problems_iff {problem : Problem Package} : problem ∈ db.problems types ↔ asked types problem.type = true ∧ problem ∈ db.check problem.type := by
  rw [mem_problems]
  constructor
  · rintro (⟨hasked, hmem⟩ | ⟨hasked, hmem⟩ | ⟨hasked, hmem⟩ | ⟨hasked, hmem⟩)
    · rw [type_of_mem_dependencyProblems problem hmem]
      exact ⟨hasked, hmem⟩
    · rw [type_of_mem_duplicateProblems problem hmem]
      exact ⟨hasked, hmem⟩
    · rw [type_of_mem_obsoletedProblems problem hmem]
      exact ⟨hasked, hmem⟩
    · rw [type_of_mem_provideProblems problem hmem]
      exact ⟨hasked, hmem⟩
  · intro ⟨hasked, hmem⟩
    cases problem with
    | missingRequires | conflict => exact Or.inl ⟨hasked, hmem⟩
    | duplicate => exact Or.inr (Or.inl ⟨hasked, hmem⟩)
    | obsoleted => exact Or.inr (Or.inr (Or.inl ⟨hasked, hmem⟩))
    | missingProvide => exact Or.inr (Or.inr (Or.inr ⟨hasked, hmem⟩))

theorem mem_problems_asked {problem : Problem Package} (hasked : asked types problem.type = true) :
    problem ∈ db.problems types ↔ problem ∈ db.check problem.type := mem_problems_iff.trans (and_iff_right hasked)

/-- The printed lines are those of what is found. -/
theorem mem_run {term : FmtColumns.Term} {line : List Char} : line ∈ (db.run term types).1 ↔ ∃ problem ∈ db.problems types, problem.line term db = line := by
  rw [run, List.mem_mergeSort, outputSet, List.mem_dedup, List.mem_map]

theorem run_count (term : FmtColumns.Term) : (db.run term types).2 = if (db.run term types).1 = [] then none else some (discovered (db.run term types).1.length) := by
  have hperm := List.mergeSort_perm (db.outputSet term types) fun line line' => decide (line ≤ line')
  simp only [run, hperm.length_eq]
  by_cases hnone : db.outputSet term types = []
  · rw [if_neg (not_not.mpr hnone), hnone, List.mergeSort_nil, if_pos rfl]
  · have hsorted : (db.outputSet term types).mergeSort (fun line line' => decide (line ≤ line')) ≠ [] := by
      rw [← List.length_pos_iff_ne_nil, hperm.length_eq, List.length_pos_iff_ne_nil]
      exact hnone
    rw [if_pos hnone, if_neg hsorted]

/-- Every pair is reported, and no false one, exactly where the grouping by name and the first match miss nothing. -/
theorem reports_iff (hdoc : db.Documented) (term : FmtColumns.Term) (types : List CheckType) : db.Reports term types ↔ db.Unaffected types := by
  have hduplicate (h : asked types .duplicates = true) (first dup : Package) :
      .duplicate first dup ∈ db.problems types ↔ .duplicate first dup ∈ db.duplicateProblems := mem_problems_asked h
  have hobsoleted (h : asked types .obsoleted = true) (old p : Package) :
      .obsoleted old p ∈ db.problems types ↔ .obsoleted old p ∈ db.obsoletedProblems := mem_problems_asked h
  constructor
  · intro hreports
    refine ⟨fun h => sameArch_iff.mp ?_, fun h => (duplicates_iff hdoc).mp ?_, fun h => obsoleted_iff.mp ?_⟩
    · simpa only [hduplicate h] using hreports.sameArch h
    · simpa only [hduplicate h] using hreports.duplicates h
    · simpa only [hobsoleted h] using hreports.obsoleted h
  · intro hplain
    refine ⟨fun h => ?_, fun h => ?_, fun h => ?_, fun h p reldep other => ?_, fun line => mem_run, run_count term⟩
    · simpa only [hduplicate h] using sameArch_iff.mpr (hplain.oneArch h)
    · simpa only [hduplicate h] using (duplicates_iff hdoc).mpr (hplain.notFirst h)
    · simpa only [hobsoleted h] using obsoleted_iff.mpr (hplain.firstMatch h)
    · exact (mem_problems_asked h).trans mem_dependencyProblems

end Rpmdb

/-! ### Three versions of a package, and one that obsoletes it -/

inductive Sample
  | first
  | second
  | third
  | obs
  deriving DecidableEq

namespace Sample

def version : Sample → Nat
  | first => 1
  | second => 2
  | third => 3
  | obs => 4

def name : Sample → List Char
  | obs => ['o', 'b', 's']
  | _ => ['d', 'u', 'p']

/-- The first version has an architecture of its own. -/
def db (arch : List Char) : Rpmdb Sample where
  installed := [first, second, third, obs]
  nodup := by decide
  name := name
  arch p := if p = first then arch else ['x', '8', '6', '_', '6', '4']
  str p := p.name ++ '-' :: (toString p.version).toList
  le p p' := p.version ≤ p'.version
  evrCmp := compareOn version
  regularRequires _ := []
  requiresPre _ := []
  prereqIgnoreinst _ := []
  conflicts _ := []
  obsoletes p := if p = obs then [⟨['d', 'u', 'p'], by decide⟩] else []
  provides _ := []
  hasProvide p reldep := p.name = reldep.text
  duplicated p := p ≠ obs
  installonlypkgs := []
  solvable _ := false

theorem documented (arch : List Char) : (db arch).Documented where
  oriented := inferInstanceAs (Std.OrientedCmp (compareOn version))
  duplicated p _ p' _ hname hne := by
    refine decide_eq_true fun hobs => hne ?_
    subst hobs
    cases p' <;> first | rfl | cases hname
  total p p' := (Bool.or_eq_true _ _).mpr ((Nat.le_total p.version p'.version).imp decide_eq_true decide_eq_true)
  trans p p' p'' h h' := decide_eq_true ((of_decide_eq_true h).trans (of_decide_eq_true h'))
  newer p p' _ hlt := decide_eq_false (Nat.not_le.mpr (Nat.compare_eq_lt.mp hlt))

/-- A terminal without codes. -/
def term : FmtColumns.Term where
  bold := []
  normal := []
  mode _ := none
  fgColor _ := none
  bgColor _ := none

/-- All versions have one architecture. -/
theorem reports_duplicates : (db ['x', '8', '6', '_', '6', '4']).Reports term [.duplicates] :=
  (Rpmdb.reports_iff (documented _) term [.duplicates]).mpr
    ⟨fun _ _ _ _ _ _ => (ite_self _).trans (ite_self _).symm, fun _ _ _ _ _ _ honly => Bool.noConfusion honly, fun h => Bool.noConfusion h⟩

/-- The first version is reported with that of another architecture; and of three that are obsoleted only the first is. -/
theorem not_reports : ¬(db ['i', '6', '8', '6']).Reports term [.duplicates] ∧ ¬(db ['i', '6', '8', '6']).Reports term [.obsoleted] := by
  constructor
  · intro h
    have hgroup : (db ['i', '6', '8', '6']).sameName ['d', 'u', 'p'] = [first, second, third] := by
      rw [Rpmdb.sameName, show (db ['i', '6', '8', '6']).dups.filter (fun p => (db ['i', '6', '8', '6']).name p = ['d', 'u', 'p']) = [first, second, third] by decide]
      exact List.mergeSort_of_pairwise (by decide)
    have hpair : .duplicate first second ∈ (db ['i', '6', '8', '6']).problems [.duplicates] :=
      (Rpmdb.mem_problems_asked rfl).mpr (Rpmdb.mem_duplicateProblems.mpr ⟨_, _, hgroup, List.mem_cons_self⟩)
    exact absurd (h.sameArch rfl first second hpair).2 (by decide)
  · intro h
    have hpair := (h.obsoleted rfl third obs).mpr ⟨by decide, ⟨['d', 'u', 'p'], by decide⟩, by decide, by decide, by decide +kernel, by decide⟩
    exact absurd hpair (by decide +kernel)

end Sample

end Dnf.Cli.Check
