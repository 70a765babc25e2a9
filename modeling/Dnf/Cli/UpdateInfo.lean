import Dnf.Cli.FmtColumns
import Dnf.Foundation.Fnmatch
import Dnf.Listing.NestedDicts
import Mathlib.Data.Char
import Mathlib.Data.List.Lex
import Mathlib.Data.List.Sort

/-!
# Advisories by their references

With `--with-cve` or `--with-bz` the list of advisories has a line for each reference. The lines are collected in a dict of dicts: a package with its installed mark and the update time first, the reference below it. References are left out by their kind, and only the two kinds that can be asked for are: any other reference of a listed advisory gets a line too.
-/

namespace Dnf.Cli.UpdateInfo

open Foundation
open Dnf.Cli.FmtColumns (blanks)
open Dnf.Listing
open Dnf.Listing.NestedDicts

inductive ReferenceType
  | unknown
  | bugzilla
  | cve
  | vendor
  deriving DecidableEq

structure Reference where
  type : ReferenceType
  id : List Char

inductive AdvisoryType
  | unknown
  | security
  | bugfix
  | enhancement
  | newpackage
  deriving DecidableEq

/-- `match_bug` and `match_cve` are answers of the library. -/
structure Advisory where
  id : List Char
  type : AdvisoryType
  severity : Option (List Char)
  updated : Int
  references : List Reference
  matchBug : List Char → Bool := fun _ => false
  matchCve : List Char → Bool := fun _ => false

/-- A package of an advisory. A version and a release have no hyphen and an architecture has no dot. -/
structure Apackage where
  name : List Char
  version : List Char
  release : List Char
  arch : List Char
  version_hyphen : '-' ∉ version
  release_hyphen : '-' ∉ release
  arch_dot : '.' ∉ arch

def Apackage.evr (apkg : Apackage) : List Char := apkg.version ++ '-' :: apkg.release

/-- `'%s-%s.%s' % (apkg.name, apkg.evr, apkg.arch)` -/
def Apackage.nevra (apkg : Apackage) : List Char := apkg.name ++ '-' :: (apkg.evr ++ '.' :: apkg.arch)

inductive Availability
  | installed
  | updates
  | all
  | available
  deriving DecidableEq

structure Options where
  availability : Availability
  advisoryTypes : List AdvisoryType := []
  spec : List (List Char) := []
  severity : List (List Char) := []
  bugzilla : List (List Char) := []
  cves : List (List Char) := []
  withCve : Bool := false
  withBz : Bool := false

structure Triple where
  apkg : Apackage
  advisory : Advisory
  installed : Bool

variable (opts : Options)

/-- `fnmatch.fnmatchcase` -/
def fnmatchcase (name pat : List Char) : Bool := Fnmatch.run (Fnmatch.translate pat) name

/-- `_advisory_matcher` -/
def advisoryMatcher (advisory : Advisory) : Bool :=
  if opts.advisoryTypes.isEmpty && opts.spec.isEmpty && opts.severity.isEmpty && opts.bugzilla.isEmpty && opts.cves.isEmpty &&
      !opts.withCve && !opts.withBz then true
  else
    opts.advisoryTypes.contains advisory.type ||
    opts.spec.any (fnmatchcase advisory.id) ||
    advisory.severity.any opts.severity.contains ||
    opts.bugzilla.any advisory.matchBug ||
    opts.cves.any advisory.matchCve ||
    (opts.withCve && advisory.references.any (·.type = .cve)) ||
    (opts.withBz && advisory.references.any (·.type = .bugzilla))

/-- `_apackage_advisory_installed`, for the packages that `get_advisory_pkgs` finds, each with its advisory. What is installed is asked for by name and version only. -/
def apackageAdvisoryInstalled (newerEqualInstalled : List Char → List Char → Bool) (advisoryPkgs : List (Apackage × Advisory)) : List Triple :=
  advisoryPkgs.filterMap fun (apackage, advisory) =>
    if advisoryMatcher opts advisory || opts.spec.any (fnmatchcase apackage.name) then
      some { apkg := apackage, advisory := advisory, installed := newerEqualInstalled apackage.name apackage.evr }
    else none

/-! ### `display_list` -/

def inst2mark (inst : Bool) : List Char :=
  if opts.availability ≠ .all then []
  else if inst then ['i', ' ']
  else [' ', ' ']

def security2label (sev : Option (List Char)) : List Char :=
  if sev = some "Critical".toList then "Critical/Sec.".toList
  else if sev = some "Important".toList then "Important/Sec.".toList
  else if sev = some "Moderate".toList then "Moderate/Sec.".toList
  else if sev = some "Low".toList then "Low/Sec.".toList
  else "Unknown/Sec.".toList

def type2label (typ : AdvisoryType) (sev : Option (List Char)) : List Char :=
  match typ with
  | .security => security2label sev
  | .bugfix => "bugfix".toList
  | .enhancement => "enhancement".toList
  | .unknown => "unknown".toList
  | .newpackage => "newpackage".toList

/-- The package, whether it is installed, and when the advisory was updated. -/
abbrev Key := List Char × Bool × Int

abbrev NevraInstDict := List (Key × List (List Char × AdvisoryType × Option (List Char)))

def Triple.key (t : Triple) : Key := (t.apkg.nevra, t.installed, t.advisory.updated)

/-- The two `continue` of the loop. -/
def skips (ref : Reference) : Bool :=
  if ref.type = .bugzilla && !opts.withBz then true
  else ref.type = .cve && !opts.withCve

/-- One turn of the loop. -/
def addTriple (d : NevraInstDict) (t : Triple) : NevraInstDict :=
  if opts.withCve || opts.withBz then
    t.advisory.references.foldl (fun d ref => if skips opts ref then d else store d (t.key, ref.id, (t.advisory.type, t.advisory.severity))) d
  else store d (t.key, t.advisory.id, (t.advisory.type, t.advisory.severity))

def nevraInstDict (triples : List Triple) : NevraInstDict := triples.foldl (addTriple opts) []

/-- The order of the keys. -/
def keyLe (a b : Key) : Bool :=
  a.1 < b.1 || (a.1 = b.1 && ((!a.2.1 && b.2.1) || (a.2.1 = b.2.1 && a.2.2 ≤ b.2.2)))

structure Row where
  mark : List Char
  aid : List Char
  label : List Char
  nevra : List Char
  aupdated : Int

def advlist (triples : List Triple) : List Row :=
  ((nevraInstDict opts triples).insertionSort fun a b => keyLe a.1 b.1).flatMap fun item =>
    item.2.map fun sub => ⟨inst2mark opts item.1.2.1, sub.1, type2label sub.2.1 sub.2.2, item.1.1, item.1.2.2⟩

/-- `'%-*s' % (width, text)` -/
def padTo (width : Nat) (text : List Char) : List Char := text ++ blanks (width - text.length)

def widest (texts : List (List Char)) : Nat := texts.foldl (fun width text => max width text.length) 0

/-- The line of a row; `showTime` is `str` of the update time. -/
def rowLine (verbose : Bool) (showTime : Int → List Char) (idw tlw nw : Nat) (row : Row) : List Char :=
  if verbose then
    row.mark ++ padTo idw row.aid ++ [' '] ++ padTo tlw row.label ++ [' '] ++ padTo nw row.nevra ++ [' '] ++ showTime row.aupdated
  else row.mark ++ padTo idw row.aid ++ [' '] ++ padTo tlw row.label ++ [' '] ++ row.nevra

/-- `display_list` -/
def displayList (verbose : Bool) (showTime : Int → List Char) (triples : List Triple) : List (List Char) :=
  let rows := advlist opts triples
  rows.map (rowLine verbose showTime (widest (rows.map Row.aid)) (widest (rows.map Row.label)) (widest (rows.map Row.nevra)))

/-! ### What is listed -/

/-- A reference of a kind that was asked for. -/
def Requested (ref : Reference) : Prop := (ref.type = .bugzilla ∧ opts.withBz = true) ∨ (ref.type = .cve ∧ opts.withCve = true)

/-- What tells a line from others: the package, its installed mark, the update time and the reference. -/
abbrev LineKey := List Char × List Char × Int × List Char

def Row.key (row : Row) : LineKey := (row.nevra, row.mark, row.aupdated, row.aid)

def Triple.lineKey (t : Triple) (ref : Reference) : LineKey := (t.apkg.nevra, inst2mark opts t.installed, t.advisory.updated, ref.id)

/-- One line for each reference that was asked for, of an advisory listed for its package, and no other lines. -/
structure ListsRequested (triples : List Triple) (rows : List Row) (lines : List (List Char)) : Prop where
  printed : ∃ line : Row → List Char, lines = rows.map line
  once : (rows.map Row.key).Nodup
  requested : ∀ key, key ∈ rows.map Row.key ↔ ∃ t ∈ triples, ∃ ref ∈ t.advisory.references, Requested opts ref ∧ t.lineKey opts ref = key

section Listed

variable {opts} {triples : List Triple} {newerEqualInstalled : List Char → List Char → Bool} {advisoryPkgs : List (Apackage × Advisory)}

/-- The entries that a triple stores. -/
def entries (opts : Options) (t : Triple) : List (Key × List Char × AdvisoryType × Option (List Char)) :=
  (t.advisory.references.filter fun ref => !skips opts ref).map fun ref => (t.key, ref.id, (t.advisory.type, t.advisory.severity))

theorem nevraInstDict_eq (hwith : opts.withCve = true ∨ opts.withBz = true) (triples : List Triple) :
    nevraInstDict opts triples = (triples.flatMap (entries opts)).foldl store [] := by
  have hif : (opts.withCve || opts.withBz) = true := Bool.or_eq_true_iff.mpr hwith
  rw [nevraInstDict, List.foldl_flatMap]
  congr 1
  funext d t
  rw [addTriple, if_pos hif, entries, List.foldl_map, List.foldl_filter]
  congr 1
  funext d ref
  cases skips opts ref <;> rfl

theorem not_skips_iff (ref : Reference) : skips opts ref = false ↔ Requested opts ref ∨ (ref.type ≠ .bugzilla ∧ ref.type ≠ .cve) := by
  unfold skips Requested
  cases ref.type <;> cases opts.withBz <;> cases opts.withCve <;> simp

/-- A text can only be cut in one way at the last of its separators. -/
theorem append_cons_cancel {sep : Char} {front front' back back' : List Char} (hback : sep ∉ back) (hback' : sep ∉ back')
    (h : front ++ sep :: back = front' ++ sep :: back') : front = front' ∧ back = back' := by
  have hmem {mid last rest : List Char} (h : last = mid ++ sep :: rest) : sep ∈ last := h ▸ List.mem_append_right mid List.mem_cons_self
  rcases List.append_eq_append_iff.mp h with ⟨mid, hfront, hmid⟩ | ⟨mid, hfront, hmid⟩
  · cases mid with
    | nil => exact ⟨by rw [hfront, List.append_nil], (List.cons.inj hmid).2⟩
    | cons c mid => exact absurd (hmem (List.cons.inj hmid).2) hback
  · cases mid with
    | nil => exact ⟨by rw [hfront, List.append_nil], (List.cons.inj hmid).2.symm⟩
    | cons c mid => exact absurd (hmem (List.cons.inj hmid).2) hback'

theorem nevra_inj {apkg apkg' : Apackage} (h : apkg.nevra = apkg'.nevra) : apkg.name = apkg'.name ∧ apkg.evr = apkg'.evr := by
  have hnevra (p : Apackage) : p.nevra = (p.name ++ '-' :: p.version ++ '-' :: p.release) ++ '.' :: p.arch := by
    simp [Apackage.nevra, Apackage.evr, List.append_assoc]
  rw [hnevra, hnevra] at h
  obtain ⟨hnvr, -⟩ := append_cons_cancel apkg.arch_dot apkg'.arch_dot h
  obtain ⟨hnv, hrelease⟩ := append_cons_cancel apkg.release_hyphen apkg'.release_hyphen hnvr
  obtain ⟨hname, hversion⟩ := append_cons_cancel apkg.version_hyphen apkg'.version_hyphen hnv
  exact ⟨hname, by rw [Apackage.evr, Apackage.evr, hversion, hrelease]⟩

/-- Packages with one text are both installed or both not. -/
theorem installed_eq {t t' : Triple} (ht : t ∈ apackageAdvisoryInstalled opts newerEqualInstalled advisoryPkgs)
    (ht' : t' ∈ apackageAdvisoryInstalled opts newerEqualInstalled advisoryPkgs) (h : t.apkg.nevra = t'.apkg.nevra) : t.installed = t'.installed := by
  have hasked {t : Triple} (ht : t ∈ apackageAdvisoryInstalled opts newerEqualInstalled advisoryPkgs) :
      t.installed = newerEqualInstalled t.apkg.name t.apkg.evr := by
    obtain ⟨⟨apackage, advisory⟩, -, hsome⟩ := List.mem_filterMap.mp ht
    simp only at hsome
    split_ifs at hsome
    rw [← Option.some.inj hsome]
  obtain ⟨hname, hevr⟩ := nevra_inj h
  rw [hasked ht, hasked ht', hname, hevr]

theorem map_key_advlist (triples : List Triple) :
    (advlist opts triples).map Row.key =
      (pairs ((nevraInstDict opts triples).insertionSort fun a b => keyLe a.1 b.1)).map fun p => (p.1.1, inst2mark opts p.1.2.1, p.1.2.2, p.2) := by
  rw [advlist, pairs, List.map_flatMap, List.map_flatMap]
  congr 1
  funext item
  rw [List.map_map, List.map_map]
  rfl

/-- A pair of keys stands for a reference that was not left out. -/
theorem mem_pairs_iff (hwith : opts.withCve = true ∨ opts.withBz = true) (k : Key) (i : List Char) :
    (k, i) ∈ pairs ((nevraInstDict opts triples).insertionSort fun a b => keyLe a.1 b.1) ↔
      ∃ t ∈ triples, ∃ ref ∈ t.advisory.references, skips opts ref = false ∧ (k, i) = (t.key, ref.id) := by
  rw [(pairs_perm (List.perm_insertionSort _ _)).mem_iff, nevraInstDict_eq hwith, (foldl_store _).2]
  simp only [List.mem_flatMap, entries, List.mem_map, List.mem_filter, Bool.not_eq_true', and_assoc]
  constructor
  · rintro ⟨entry, ⟨t, ht, ref, href, hskips, rfl⟩, heq⟩
    exact ⟨t, ht, ref, href, hskips, heq⟩
  · rintro ⟨t, ht, ref, href, hskips, heq⟩
    exact ⟨_, ⟨t, ht, ref, href, hskips, rfl⟩, heq⟩

theorem mem_keys_advlist (hwith : opts.withCve = true ∨ opts.withBz = true) (key : LineKey) :
    key ∈ (advlist opts triples).map Row.key ↔ ∃ t ∈ triples, ∃ ref ∈ t.advisory.references, skips opts ref = false ∧ t.lineKey opts ref = key := by
  rw [map_key_advlist, List.mem_map]
  constructor
  · rintro ⟨⟨k, i⟩, hmem, rfl⟩
    obtain ⟨t, ht, ref, href, hskips, heq⟩ := (mem_pairs_iff hwith k i).mp hmem
    obtain ⟨rfl, rfl⟩ := Prod.mk.inj heq
    exact ⟨t, ht, ref, href, hskips, rfl⟩
  · rintro ⟨t, ht, ref, href, hskips, rfl⟩
    exact ⟨(t.key, ref.id), (mem_pairs_iff hwith _ _).mpr ⟨t, ht, ref, href, hskips, rfl⟩, rfl⟩

/-- No line is printed twice: the mark follows from the package. -/
theorem nodup_keys_advlist (hwith : opts.withCve = true ∨ opts.withBz = true) :
    ((advlist opts (apackageAdvisoryInstalled opts newerEqualInstalled advisoryPkgs)).map Row.key).Nodup := by
  have hdistinct := (foldl_store ((apackageAdvisoryInstalled opts newerEqualInstalled advisoryPkgs).flatMap (entries opts))).1
  rw [← nevraInstDict_eq hwith] at hdistinct
  rw [map_key_advlist]
  refine ((pairs_perm (List.perm_insertionSort _ _)).nodup_iff.mpr hdistinct.nodup_pairs).map_on ?_
  intro ⟨k, i⟩ hp ⟨k', i'⟩ hp' heq
  obtain ⟨t, ht, ref, -, -, hpair⟩ := (mem_pairs_iff hwith k i).mp hp
  obtain ⟨t', ht', ref', -, -, hpair'⟩ := (mem_pairs_iff hwith k' i').mp hp'
  obtain ⟨rfl, rfl⟩ := Prod.mk.inj hpair
  obtain ⟨rfl, rfl⟩ := Prod.mk.inj hpair'
  simp only [Prod.mk.injEq] at heq
  obtain ⟨hnevra, -, hupdated, hid⟩ := heq
  rw [Triple.key, Triple.key, show t.apkg.nevra = t'.apkg.nevra from hnevra, installed_eq ht ht' hnevra,
    show t.advisory.updated = t'.advisory.updated from hupdated, hid]

/-- The list is right exactly when each reference of another kind has the line of one that was asked for. -/
theorem listsRequested_iff (verbose : Bool) (showTime : Int → List Char) (newerEqualInstalled : List Char → List Char → Bool)
    (advisoryPkgs : List (Apackage × Advisory)) (hwith : opts.withCve = true ∨ opts.withBz = true) :
    ListsRequested opts (apackageAdvisoryInstalled opts newerEqualInstalled advisoryPkgs)
        (advlist opts (apackageAdvisoryInstalled opts newerEqualInstalled advisoryPkgs))
        (displayList opts verbose showTime (apackageAdvisoryInstalled opts newerEqualInstalled advisoryPkgs)) ↔
      ∀ t ∈ apackageAdvisoryInstalled opts newerEqualInstalled advisoryPkgs, ∀ ref ∈ t.advisory.references, ref.type ≠ .bugzilla → ref.type ≠ .cve →
        ∃ t' ∈ apackageAdvisoryInstalled opts newerEqualInstalled advisoryPkgs, ∃ ref' ∈ t'.advisory.references,
          Requested opts ref' ∧ t'.lineKey opts ref' = t.lineKey opts ref := by
  constructor
  · intro hlists t ht ref href hbugzilla hcve
    refine (hlists.requested (t.lineKey opts ref)).mp ((mem_keys_advlist hwith _).mpr ⟨t, ht, ref, href, ?_, rfl⟩)
    exact (not_skips_iff ref).mpr (Or.inr ⟨hbugzilla, hcve⟩)
  · intro hother
    refine ⟨⟨_, rfl⟩, nodup_keys_advlist hwith, fun key => ?_⟩
    rw [mem_keys_advlist hwith]
    constructor
    · rintro ⟨t, ht, ref, href, hskips, rfl⟩
      rcases (not_skips_iff ref).mp hskips with hrequested | ⟨hbugzilla, hcve⟩
      · exact ⟨t, ht, ref, href, hrequested, rfl⟩
      · exact hother t ht ref href hbugzilla hcve
    · rintro ⟨t, ht, ref, href, hrequested, rfl⟩
      exact ⟨t, ht, ref, href, (not_skips_iff ref).mpr (Or.inl hrequested), rfl⟩

/-- An advisory with a CVE and nothing else. -/
theorem listsRequested_cve :
    ∃ opts advisoryPkgs, opts.withCve = true ∧
      ListsRequested opts (apackageAdvisoryInstalled opts (fun _ _ => false) advisoryPkgs)
        (advlist opts (apackageAdvisoryInstalled opts (fun _ _ => false) advisoryPkgs))
        (displayList opts false (fun _ => []) (apackageAdvisoryInstalled opts (fun _ _ => false) advisoryPkgs)) := by
  refine ⟨{ availability := .available, withCve := true },
    [(⟨['a'], ['1'], ['1'], ['x'], by decide, by decide, by decide⟩,
      { id := ['A'], type := .security, severity := none, updated := 0, references := [⟨.cve, ['C']⟩] })], rfl, ?_⟩
  refine (listsRequested_iff false (fun _ => []) _ _ (Or.inl rfl)).mpr ?_
  intro t ht ref href _ hcve
  obtain rfl := List.mem_singleton.mp ht
  obtain rfl := List.mem_singleton.mp href
  exact absurd rfl hcve

/-- With `--with-cve` a reference to the vendor's page is listed as well. -/
theorem not_listsRequested_vendor :
    ∃ opts advisoryPkgs, opts.withCve = true ∧
      ¬ListsRequested opts (apackageAdvisoryInstalled opts (fun _ _ => false) advisoryPkgs)
        (advlist opts (apackageAdvisoryInstalled opts (fun _ _ => false) advisoryPkgs))
        (displayList opts false (fun _ => []) (apackageAdvisoryInstalled opts (fun _ _ => false) advisoryPkgs)) := by
  refine ⟨{ availability := .available, withCve := true },
    [(⟨['a'], ['1'], ['1'], ['x'], by decide, by decide, by decide⟩,
      { id := ['A'], type := .security, severity := none, updated := 0, references := [⟨.cve, ['C']⟩, ⟨.vendor, ['V']⟩] })], rfl, ?_⟩
  intro hlists
  obtain ⟨t, ht, ref, href, hrequested, hkey⟩ := (hlists.requested ("a-1-1.x".toList, [], 0, ['V'])).mp (by decide)
  obtain rfl := List.mem_singleton.mp ht
  simp only [List.mem_cons, List.not_mem_nil, or_false] at href
  rcases href with rfl | rfl
  · exact absurd hkey (by decide)
  · exact absurd hrequested (by simp [Requested])

end Listed

end Dnf.Cli.UpdateInfo
