import Mathlib.Data.Finset.Dedup
import Mathlib.Data.Finset.Card
import Dnf.Foundation.Fnmatch
import Dnf.Listing.Dicts

/-!
# Keyword search

`SearchCommand._search` counts in a `MatchCounter` which keyword matched which attribute of which package. Without `--all` it then drops the packages whose set of matched keywords is not as large as the list of the keywords.
-/

namespace Dnf.Cli.SearchCommand

open Foundation Listing

/-- The attributes that are searched. -/
inductive Attr
  | name
  | summary
  | description
  | url
  deriving DecidableEq

/-- The packages of a sack, and the `substr` and `glob` filters of its queries, which ignore case. -/
structure Sack (Package : Type) where
  packages : List Package
  substr : Attr → String → Package → Bool
  glob : Attr → String → Package → Bool

/-- `MatchCounter`: package -> [(key, needle), ... ] -/
abbrev MatchCounter (Package : Type) := List (Package × List (Attr × String))

variable {Package : Type} [DecidableEq Package]

namespace MatchCounter

/-- `self[pkg]`, and no matches for a package that is not there. -/
def matchesOf (counter : MatchCounter Package) (pkg : Package) : List (Attr × String) := (counter.lookup pkg).getD []

def add (counter : MatchCounter Package) (pkg : Package) (key : Attr) (needle : String) : MatchCounter Package :=
  assign counter pkg (counter.matchesOf pkg ++ [(key, needle)])

def keys (counter : MatchCounter Package) : List Package := counter.map Prod.fst

def matchedNeedles (counter : MatchCounter Package) (pkg : Package) : Finset String := ((counter.matchesOf pkg).map Prod.snd).toFinset

/-- `del counter[pkg]` -/
def del (counter : MatchCounter Package) (pkg : Package) : MatchCounter Package := counter.filter fun entry => entry.1 ≠ pkg

end MatchCounter

section Code

variable (sack : Sack Package)

/-- A package that the query of `_search_counted` finds. -/
def Sack.hits (sack : Sack Package) (attr : Attr) (needle : String) (pkg : Package) : Bool :=
  if Fnmatch.isGlobPattern needle then sack.glob attr needle pkg else sack.substr attr needle pkg

def searchCounted (counter : MatchCounter Package) (attr : Attr) (needle : String) : MatchCounter Package :=
  (sack.packages.filter (sack.hits attr needle)).foldl (fun counter pkg => counter.add pkg attr needle) counter

/-- One package of the loop that drops packages. -/
def dropUnlessAll (needles : Nat) (counter : MatchCounter Package) (pkg : Package) : MatchCounter Package :=
  if (counter.matchedNeedles pkg).card ≠ needles then counter.del pkg else counter

/-- The counter of `_search`, which it then prints. -/
def search (all : Bool) (args : List String) : MatchCounter Package :=
  let counter := args.foldl (fun counter arg => searchCounted sack (searchCounted sack counter .name arg) .summary arg) []
  if all then args.foldl (fun counter arg => searchCounted sack (searchCounted sack counter .description arg) .url arg) counter
  else counter.keys.foldl (dropUnlessAll args.length) counter

end Code

/-! ### What is counted -/

section Counted

variable {sack : Sack Package} {pkg : Package}

theorem mem_matchesOf_add (counter : MatchCounter Package) (other : Package) (key : Attr) (needle : String) (found : Attr × String) :
    found ∈ (counter.add other key needle).matchesOf pkg ↔ found ∈ counter.matchesOf pkg ∨ pkg = other ∧ found = (key, needle) := by
  rw [MatchCounter.matchesOf, MatchCounter.add, lookup_assign]
  by_cases hpkg : pkg = other
  · subst hpkg
    rw [if_pos rfl, Option.getD_some, List.mem_append, List.mem_singleton, and_iff_right rfl]
  · rw [if_neg hpkg, MatchCounter.matchesOf]
    exact (or_iff_left fun hboth => hpkg hboth.1).symm

theorem mem_matchesOf_searchCounted (counter : MatchCounter Package) (attr : Attr) (needle : String) (found : Attr × String) :
    found ∈ (searchCounted sack counter attr needle).matchesOf pkg ↔
      found ∈ counter.matchesOf pkg ∨ (pkg ∈ sack.packages ∧ sack.hits attr needle pkg = true) ∧ found = (attr, needle) := by
  rw [searchCounted, ← List.mem_filter]
  induction sack.packages.filter (sack.hits attr needle) generalizing counter with
  | nil => simp
  | cons other pkgs ih =>
      rw [List.foldl_cons, ih, mem_matchesOf_add, List.mem_cons, or_assoc, ← or_and_right]

/-- The needle matches the name or the summary. -/
def Sack.matchesNeedle (sack : Sack Package) (needle : String) (pkg : Package) : Bool :=
  sack.hits .name needle pkg || sack.hits .summary needle pkg

theorem exists_match_iff (args : List String) (counter : MatchCounter Package) (needle : String) :
    (∃ attr, (attr, needle) ∈
        (args.foldl (fun counter arg => searchCounted sack (searchCounted sack counter .name arg) .summary arg) counter).matchesOf pkg) ↔
      (∃ attr, (attr, needle) ∈ counter.matchesOf pkg) ∨ needle ∈ args ∧ pkg ∈ sack.packages ∧ sack.matchesNeedle needle pkg = true := by
  induction args generalizing counter with
  | nil => simp
  | cons arg args ih =>
      rw [List.foldl_cons, ih, List.mem_cons]
      simp only [mem_matchesOf_searchCounted, Sack.matchesNeedle, Bool.or_eq_true, Prod.mk.injEq]
      constructor
      · rintro (⟨attr, (hold | ⟨⟨hpkg, hhit⟩, -, rfl⟩) | ⟨⟨hpkg, hhit⟩, -, rfl⟩⟩ | ⟨hmem, hpkg, hhit⟩)
        · exact Or.inl ⟨attr, hold⟩
        · exact Or.inr ⟨Or.inl rfl, hpkg, Or.inl hhit⟩
        · exact Or.inr ⟨Or.inl rfl, hpkg, Or.inr hhit⟩
        · exact Or.inr ⟨Or.inr hmem, hpkg, hhit⟩
      · rintro (⟨attr, hold⟩ | ⟨rfl | hmem, hpkg, hhit⟩)
        · exact Or.inl ⟨attr, Or.inl (Or.inl hold)⟩
        · rcases hhit with hhit | hhit
          · exact Or.inl ⟨.name, Or.inl (Or.inr ⟨⟨hpkg, hhit⟩, rfl, rfl⟩)⟩
          · exact Or.inl ⟨.summary, Or.inr ⟨⟨hpkg, hhit⟩, rfl, rfl⟩⟩
        · exact Or.inr ⟨hmem, hpkg, hhit⟩

theorem mem_matchedNeedles {counter : MatchCounter Package} {needle : String} :
    needle ∈ counter.matchedNeedles pkg ↔ ∃ attr, (attr, needle) ∈ counter.matchesOf pkg := by
  rw [MatchCounter.matchedNeedles, List.mem_toFinset, List.mem_map]
  simp only [Prod.exists, exists_eq_right]

/-- A package with a match is a key. -/
theorem mem_keys_of_match {counter : MatchCounter Package} {found : Attr × String} (h : found ∈ counter.matchesOf pkg) : pkg ∈ counter.keys := by
  by_contra hnot
  have hnone : counter.lookup pkg = none := List.lookup_eq_none_iff.mpr fun entry hentry =>
    bne_iff_ne.mpr fun heq => hnot (List.mem_map.mpr ⟨entry, hentry, heq.symm⟩)
  rw [MatchCounter.matchesOf, hnone] at h
  cases h

/-! ### What is dropped -/

theorem mem_keys_del {counter : MatchCounter Package} {other : Package} : pkg ∈ (counter.del other).keys ↔ pkg ∈ counter.keys ∧ pkg ≠ other := by
  simp only [MatchCounter.keys, MatchCounter.del, List.mem_map, List.mem_filter, decide_eq_true_eq]
  constructor
  · rintro ⟨entry, ⟨hentry, hne⟩, rfl⟩
    exact ⟨⟨entry, hentry, rfl⟩, hne⟩
  · rintro ⟨⟨entry, hentry, rfl⟩, hne⟩
    exact ⟨entry, ⟨hentry, hne⟩, rfl⟩

theorem matchesOf_del {counter : MatchCounter Package} {other : Package} (hne : pkg ≠ other) :
    (counter.del other).matchesOf pkg = counter.matchesOf pkg := by
  rw [MatchCounter.matchesOf, MatchCounter.matchesOf]
  refine congrArg (fun found => Option.getD found []) ?_
  induction counter with
  | nil => rfl
  | cons entry counter ih =>
      rw [MatchCounter.del, List.filter_cons]
      by_cases hentry : entry.1 = other
      · rw [if_neg (by simpa using hentry), List.lookup_cons, beq_false_of_ne (hentry ▸ hne)]
        exact ih
      · rw [if_pos (by simpa using hentry), List.lookup_cons, List.lookup_cons]
        cases pkg == entry.1 with
        | true => rfl
        | false => exact ih

theorem mem_keys_dropUnlessAll {needles : Nat} {counter : MatchCounter Package} {pkgs : List Package} :
    pkg ∈ (pkgs.foldl (dropUnlessAll needles) counter).keys ↔
      pkg ∈ counter.keys ∧ (pkg ∈ pkgs → (counter.matchedNeedles pkg).card = needles) := by
  induction pkgs generalizing counter with
  | nil => simp
  | cons other pkgs ih =>
      rw [List.foldl_cons, ih, dropUnlessAll, List.mem_cons]
      by_cases hpkg : pkg = other
      · subst hpkg
        by_cases hcard : (counter.matchedNeedles pkg).card = needles
        · rw [if_neg (not_not.mpr hcard)]
          simp [hcard]
        · rw [if_pos hcard, mem_keys_del]
          simp [hcard]
      · rw [or_iff_right hpkg]
        split_ifs
        · rw [mem_keys_del, MatchCounter.matchedNeedles, matchesOf_del hpkg, ← MatchCounter.matchedNeedles, and_iff_left hpkg]
        · rfl

/-- As many different needles as there are: none is repeated, and each of them is there. -/
theorem card_filter_eq_length_iff {args : List String} {p : String → Bool} :
    (args.toFinset.filter fun needle => p needle = true).card = args.length ↔ args.Nodup ∧ ∀ needle ∈ args, p needle = true := by
  constructor
  · intro hcard
    have hfilter : (args.toFinset.filter fun needle => p needle = true).card ≤ args.toFinset.card := Finset.card_filter_le _ _
    have hset : args.toFinset.card = args.length := le_antisymm (List.toFinset_card_le args) (hcard ▸ hfilter)
    refine ⟨?_, fun needle hneedle => ?_⟩
    · exact (Multiset.toFinset_card_eq_card_iff_nodup (m := (args : Multiset String))).mp hset
    · exact Finset.filter_card_eq (hcard.trans hset.symm) needle (List.mem_toFinset.mpr hneedle)
  · rintro ⟨hnodup, hall⟩
    rw [Finset.filter_true_of_mem fun needle hneedle => hall needle (List.mem_toFinset.mp hneedle), List.toFinset_card_of_nodup hnodup]

/-- The search keeps what every keyword matches, unless a keyword is repeated. -/
theorem mem_search_iff {args : List String} (hargs : args ≠ []) :
    pkg ∈ (search sack false args).keys ↔ args.Nodup ∧ pkg ∈ sack.packages ∧ ∀ needle ∈ args, sack.matchesNeedle needle pkg = true := by
  rw [search, if_neg Bool.false_ne_true, mem_keys_dropUnlessAll]
  generalize hcounter : args.foldl (fun counter arg => searchCounted sack (searchCounted sack counter .name arg) .summary arg) [] = counter
  have hmatched : ∀ needle, needle ∈ counter.matchedNeedles pkg ↔
      needle ∈ args ∧ pkg ∈ sack.packages ∧ sack.matchesNeedle needle pkg = true := by
    intro needle
    rw [mem_matchedNeedles, ← hcounter, exists_match_iff]
    exact or_iff_right fun ⟨attr, hattr⟩ => List.not_mem_nil hattr
  by_cases hpkg : pkg ∈ sack.packages
  · have hfilter : counter.matchedNeedles pkg = args.toFinset.filter fun needle => sack.matchesNeedle needle pkg = true := by
      ext needle
      rw [hmatched, and_iff_right hpkg, Finset.mem_filter, List.mem_toFinset]
    rw [hfilter, card_filter_eq_length_iff, and_iff_right hpkg]
    constructor
    · exact fun h => h.2 h.1
    · rintro ⟨hnodup, hall⟩
      obtain ⟨needle, hneedle⟩ := List.exists_mem_of_ne_nil args hargs
      obtain ⟨attr, hattr⟩ := mem_matchedNeedles.mp ((hmatched needle).mpr ⟨hneedle, hpkg, hall needle hneedle⟩)
      exact ⟨mem_keys_of_match hattr, fun _ => ⟨hnodup, hall⟩⟩
  · have hempty : counter.matchedNeedles pkg = ∅ := Finset.eq_empty_of_forall_notMem fun needle hneedle => hpkg ((hmatched needle).mp hneedle).2.1
    refine iff_of_false (fun h => ?_) fun h => hpkg h.2.1
    have hcard := h.2 h.1
    rw [hempty, Finset.card_empty] at hcard
    exact hargs (List.length_eq_zero_iff.mp hcard.symm)

/-- The order of the keywords does not matter. -/
theorem mem_search_perm {args args' : List String} (hargs : args ≠ []) (hperm : args.Perm args') :
    pkg ∈ (search sack false args).keys ↔ pkg ∈ (search sack false args').keys := by
  have hargs' : args' ≠ [] := fun hnil => hargs (List.perm_nil.mp (hnil ▸ hperm))
  rw [mem_search_iff hargs, mem_search_iff hargs', hperm.nodup_iff]
  simp only [hperm.mem_iff]

end Counted

/-- The packages kept are those for which every keyword matches the name or the summary. -/
def KeepsIntersection (sack : Sack Package) (args : List String) : Prop :=
  ∀ pkg, pkg ∈ (search sack false args).keys ↔ pkg ∈ sack.packages ∧ ∀ needle ∈ args, sack.matchesNeedle needle pkg = true

/-- A repeated keyword loses every package that would be kept. -/
theorem keepsIntersection_iff (sack : Sack Package) {args : List String} (hargs : args ≠ []) :
    KeepsIntersection sack args ↔
      args.Nodup ∨ ¬∃ pkg ∈ sack.packages, ∀ needle ∈ args, sack.matchesNeedle needle pkg = true := by
  rw [KeepsIntersection]
  simp only [mem_search_iff hargs]
  constructor
  · intro h
    refine or_iff_not_imp_right.mpr fun hsome => ?_
    obtain ⟨pkg, hpkg, hall⟩ := not_not.mp hsome
    exact ((h pkg).mpr ⟨hpkg, hall⟩).1
  · rintro (hnodup | hnone) pkg
    · exact and_iff_right hnodup
    · exact iff_of_false (fun h => hnone ⟨pkg, h.2⟩) fun h => hnone ⟨pkg, h⟩

/-- A package has its name and its summary; a keyword matches the text it is. -/
def spiceSack : Sack (String × String) where
  packages := [("pepper", "spice"), ("tour", "guide")]
  substr attr needle pkg := match attr with
    | .name => pkg.1 = needle
    | .summary => pkg.2 = needle
    | _ => false
  glob _ _ _ := false

theorem keepsIntersection_pepper_spice : KeepsIntersection spiceSack ["pepper", "spice"] :=
  (keepsIntersection_iff spiceSack (List.cons_ne_nil _ _)).mpr (Or.inl (by decide))

/-- The package that the keyword matches is lost when the keyword is given twice. -/
theorem not_keepsIntersection_repeated : ¬KeepsIntersection spiceSack ["pepper", "pepper"] := by
  intro hkeeps
  have hkept := (hkeeps ("pepper", "spice")).mpr (by decide +kernel)
  revert hkept
  decide +kernel

end Dnf.Cli.SearchCommand
