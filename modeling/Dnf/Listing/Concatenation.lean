import Dnf.Listing.PackageLists
import Mathlib.Data.List.ProdSigma

/-!
# Listing several patterns

Every kind of listing has the same shape for each pattern: its attributes are lists, but for one that is a query with the obsoleting and with the recent packages. The lists are concatenated, and the query of the first pattern is kept. The security filters are the only thing a listing changes, and they are what they were for the next one: one filter in place of several.
-/

namespace Dnf.Listing

variable {Package : Type}

/-! ### What the listings leave of the security filters -/

namespace Base

variable {self self' : Base Package}

/-- The same filters, or one in their place. -/
structure SameSecurity (b b' : Base Package) : Prop where
  rest : b' = { b with updateSecurityFilters := b'.updateSecurityFilters }
  union : securityUnion b'.updateSecurityFilters = securityUnion b.updateSecurityFilters
  nil_iff : b'.updateSecurityFilters = [] ↔ b.updateSecurityFilters = []

theorem SameSecurity.refl (b : Base Package) : SameSecurity b b := ⟨rfl, rfl, Iff.rfl⟩

theorem SameSecurity.trans {b b' b'' : Base Package} (h : SameSecurity b b') (h' : SameSecurity b' b'') : SameSecurity b b'' := by
  refine ⟨?_, h'.union.trans h.union, h'.nil_iff.trans h.nil_iff⟩
  rw [h'.rest, h.rest]

theorem mergeUpdateFilters_sameSecurity (q : Query Package) (upgrade : Bool) : SameSecurity self (self.mergeUpdateFilters q upgrade).2 := by
  rw [mergeUpdateFilters]
  by_cases hnothing : (self.updateSecurityOptions = [] ∧ self.updateSecurityFilters = []) ∨ self.sack.run q = []
  · rw [if_pos hnothing]
    exact .refl self
  rw [if_neg hnothing]
  dsimp only
  by_cases hnil : self.updateSecurityFilters = []
  · rw [if_pos hnil]
    exact .refl self
  · rw [if_neg hnil]
    refine ⟨rfl, ?_, iff_of_false (List.cons_ne_nil _ _) hnil⟩
    funext p
    exact (congrArg _ List.any_nil).trans (Bool.or_false _)

theorem SameSecurity.mergeUpdateFilters_eq (h : SameSecurity self self') (q : Query Package) (upgrade : Bool) :
    (self'.mergeUpdateFilters q upgrade).1 = (self.mergeUpdateFilters q upgrade).1 := by
  have hsack : self'.sack = self.sack := by rw [h.rest]
  have hoptions : self'.updateSecurityOptions = self.updateSecurityOptions := by rw [h.rest]
  rw [mergeUpdateFilters, mergeUpdateFilters, hsack, hoptions, h.union]
  simp only [h.nil_iff]
  by_cases hnothing : (self.updateSecurityOptions = [] ∧ self.updateSecurityFilters = []) ∨ self.sack.run q = []
  · rw [if_pos hnothing, if_pos hnothing]
  · rw [if_neg hnothing, if_neg hnothing]

theorem listPattern_sameSecurity (kind : Kind) (pattern : Option String) (showdups ignoreCase : Bool) (reponame : Option String) :
    SameSecurity self (self.listPattern kind pattern showdups ignoreCase reponame).2 := by
  cases kind with
  | upgrades => exact mergeUpdateFilters_sameSecurity _ _
  | obsoletes => exact mergeUpdateFilters_sameSecurity _ _
  | all => exact .refl self
  | installed => exact .refl self
  | available => exact .refl self
  | autoremove => exact .refl self
  | extras => exact .refl self
  | recent => exact .refl self

theorem SameSecurity.listPattern_eq (h : SameSecurity self self') (kind : Kind) (pattern : Option String) (showdups ignoreCase : Bool)
    (reponame : Option String) :
    (self'.listPattern kind pattern showdups ignoreCase reponame).1 = (self.listPattern kind pattern showdups ignoreCase reponame).1 := by
  have hmerge := h.mergeUpdateFilters_eq
  obtain ⟨sack, historyRepo, recent, showdupes, filters, options⟩ := self'
  have hrest := h.rest
  simp only [Base.mk.injEq, true_and] at hrest
  obtain ⟨rfl, rfl, rfl, rfl, rfl⟩ := hrest
  cases kind with
  | upgrades =>
      simp only [listPattern, listUpgrades, hmerge]
      rfl
  | obsoletes =>
      simp only [listPattern, listObsoletes, obsoletesQuery, hmerge]
      rfl
  | all => rfl
  | installed => rfl
  | available => rfl
  | autoremove => rfl
  | extras => rfl
  | recent => rfl

end Base

/-! ### The shape of a holder -/

/-- The attribute that is a query. -/
def Kind.queryAttribute : Kind → Option Attribute
  | .obsoletes => some .obsoletes
  | .recent => some .recent
  | _ => none

def Value.IsList {α : Type} : Value α → Prop
  | .list _ => True
  | .query _ => False

/-- What the attribute holds, one package after another. -/
def Value.contents {α : Type} (pool : List α) : Value α → List α
  | .list l => l
  | .query q => pool.filter q

structure GenericHolder.Shape (kind : Kind) (ygh : GenericHolder Package) : Prop where
  lists : ∀ a, (ygh.lists a).IsList ↔ kind.queryAttribute ≠ some a
  tuples : ygh.obsoletesTuples.IsList

theorem listPattern_shape (self : Base Package) (kind : Kind) (pattern : Option String) (showdups ignoreCase : Bool) (reponame : Option String) :
    (self.listPattern kind pattern showdups ignoreCase reponame).1.Shape kind := by
  refine ⟨fun a => ?_, ?_⟩
  · cases kind <;> cases a <;> simp [Base.listPattern, Base.listAll, Base.listUpgrades, Base.listAvailable, Base.listObsoletes, Base.listRecent,
      GenericHolder.set, Function.update, Kind.queryAttribute, Value.IsList]
  · cases kind <;> exact trivial

/-! ### Merging -/

theorem Value.extend_of_isList {α : Type} {v w : Value α} (hv : v.IsList) (hw : w.IsList) (pool : List α) :
    ∃ merged, v.extend w = some merged ∧ merged.IsList ∧ merged.contents pool = v.contents pool ++ w.contents pool := by
  cases v with
  | query q => exact absurd hv id
  | list l =>
      cases w with
      | query q => exact absurd hw id
      | list m => exact ⟨.list (l ++ m), rfl, trivial, rfl⟩

theorem Value.extend_of_not_isList {α : Type} {v w : Value α} (hw : ¬w.IsList) : v.extend w = some v := by
  cases w with
  | list m => exact absurd trivial hw
  | query q => cases v <;> rfl

/-- `merged` has the lists of both, and the query of the first. -/
structure GenericHolder.Merges (kind : Kind) (pool : List Package) (ygh other merged : GenericHolder Package) : Prop where
  shape : merged.Shape kind
  lists : ∀ a, kind.queryAttribute ≠ some a →
    (merged.lists a).contents pool = (ygh.lists a).contents pool ++ (other.lists a).contents pool
  query : ∀ a, kind.queryAttribute = some a → merged.lists a = ygh.lists a
  tuples : merged.obsoletesTuples.contents (pool ×ˢ pool) =
    ygh.obsoletesTuples.contents (pool ×ˢ pool) ++ other.obsoletesTuples.contents (pool ×ˢ pool)

theorem mergeLists_merges {kind : Kind} (pool : List Package) {ygh other : GenericHolder Package} (hygh : ygh.Shape kind)
    (hother : other.Shape kind) : ∃ merged, ygh.mergeLists other = some merged ∧ GenericHolder.Merges kind pool ygh other merged := by
  obtain ⟨tuples, htuples, hlist, hcontents⟩ := Value.extend_of_isList hygh.tuples hother.tuples (pool ×ˢ pool)
  have hsome : ∀ a, ((ygh.lists a).extend (other.lists a)).isSome = true := by
    intro a
    by_cases hquery : kind.queryAttribute = some a
    · rw [Value.extend_of_not_isList fun h => (hother.lists a).mp h hquery]
      rfl
    · obtain ⟨merged, hmerged, _⟩ := Value.extend_of_isList ((hygh.lists a).mpr hquery) ((hother.lists a).mpr hquery) pool
      rw [hmerged]
      rfl
  have hlists : ∀ a, kind.queryAttribute ≠ some a → ∃ merged, (ygh.lists a).extend (other.lists a) = some merged ∧ merged.IsList ∧
      merged.contents pool = (ygh.lists a).contents pool ++ (other.lists a).contents pool :=
    fun a hquery => Value.extend_of_isList ((hygh.lists a).mpr hquery) ((hother.lists a).mpr hquery) pool
  have hkept : ∀ a, kind.queryAttribute = some a → (ygh.lists a).extend (other.lists a) = some (ygh.lists a) :=
    fun a hquery => Value.extend_of_not_isList fun h => (hother.lists a).mp h hquery
  have hmerge : ygh.mergeLists other = some { ygh with
      lists := fun a => ((ygh.lists a).extend (other.lists a)).getD (ygh.lists a)
      obsoletesTuples := tuples } := by
    rw [GenericHolder.mergeLists, if_pos (List.all_eq_true.mpr fun a _ => hsome a), htuples]
    rfl
  refine ⟨_, hmerge, ⟨⟨fun a => ?_, hlist⟩, fun a hquery => ?_, fun a hquery => ?_, hcontents⟩⟩
  · by_cases hquery : kind.queryAttribute = some a
    · dsimp only
      rw [hkept a hquery, Option.getD_some]
      exact hygh.lists a
    · obtain ⟨merged, hmerged, hisList, _⟩ := hlists a hquery
      dsimp only
      rw [hmerged, Option.getD_some]
      exact iff_of_true hisList hquery
  · obtain ⟨merged, hmerged, _, hmergedContents⟩ := hlists a hquery
    dsimp only
    rw [hmerged, Option.getD_some, hmergedContents]
  · dsimp only
    rw [hkept a hquery, Option.getD_some]

/-! ### Listing pattern after pattern -/

section

variable (base : Base Package) (kind : Kind) (showdups ignoreCase : Bool) (reponame : Option String)

/-- What is listed for one pattern. -/
def Base.listed (pattern : String) : GenericHolder Package := (base.listPattern kind (some pattern) showdups ignoreCase reponame).1

/-- `ygh` has the lists of `first` and of the patterns after it. -/
structure Base.Lists (first : GenericHolder Package) (patterns : List String) (ygh : GenericHolder Package) : Prop where
  shape : ygh.Shape kind
  lists : ∀ a, kind.queryAttribute ≠ some a → (ygh.lists a).contents base.sack.pool =
    (first.lists a).contents base.sack.pool ++
      patterns.flatMap fun p => ((base.listed kind showdups ignoreCase reponame p).lists a).contents base.sack.pool
  query : ∀ a, kind.queryAttribute = some a → ygh.lists a = first.lists a
  tuples : ygh.obsoletesTuples.contents (base.sack.pool ×ˢ base.sack.pool) =
    first.obsoletesTuples.contents (base.sack.pool ×ˢ base.sack.pool) ++
      patterns.flatMap fun p => (base.listed kind showdups ignoreCase reponame p).obsoletesTuples.contents (base.sack.pool ×ˢ base.sack.pool)

/-- The accumulator of `reduce` has what was listed so far, and the base lists the next pattern as it did at first. -/
theorem foldlM_mergePattern {first : GenericHolder Package} (done patterns : List String) {ygh : GenericHolder Package} {self' : Base Package}
    (hlists : base.Lists kind showdups ignoreCase reponame first done ygh) (hsame : base.SameSecurity self') :
    ∃ ygh' self'', patterns.foldlM (Base.mergePattern kind showdups ignoreCase reponame) (ygh, self') = some (ygh', self'') ∧
      base.Lists kind showdups ignoreCase reponame first (done ++ patterns) ygh' := by
  induction patterns generalizing done ygh self' with
  | nil =>
      rw [List.append_nil]
      exact ⟨ygh, self', rfl, hlists⟩
  | cons p patterns ih =>
      have hlisted := hsame.listPattern_eq kind (some p) showdups ignoreCase reponame
      have hshape := listPattern_shape base kind (some p) showdups ignoreCase reponame
      obtain ⟨merged, hmerged, hmerges⟩ := mergeLists_merges base.sack.pool hlists.shape hshape
      have hstep : Base.mergePattern kind showdups ignoreCase reponame (ygh, self') p =
          some (merged, (self'.listPattern kind (some p) showdups ignoreCase reponame).2) := by
        rw [Base.mergePattern]
        dsimp only
        rw [hlisted, hmerged]
        rfl
      rw [List.foldlM_cons, hstep, List.append_cons]
      refine ih (done ++ [p]) ⟨hmerges.shape, fun a hquery => ?_, fun a hquery => ?_, ?_⟩ (hsame.trans (Base.listPattern_sameSecurity _ _ _ _ _))
      · rw [hmerges.lists a hquery, hlists.lists a hquery, List.flatMap_append, List.flatMap_singleton, List.append_assoc]
        rfl
      · rw [hmerges.query a hquery, hlists.query a hquery]
      · rw [hmerges.tuples, hlists.tuples, List.flatMap_append, List.flatMap_singleton, List.append_assoc]
        rfl

end

/-- The holder that is returned has what the first pattern gives and then what the others do. -/
theorem Base.doPackageLists_lists (self : Base Package) (kind : Kind) (pattern : String) (rest : List String) (showdups : Option Bool)
    (ignoreCase : Bool) (reponame : Option String) :
    ∃ ygh self', self.doPackageLists kind (pattern :: rest) showdups ignoreCase reponame = some (ygh, self') ∧
      self.Lists kind (showdups.getD self.showdupesfromrepos) ignoreCase reponame
        (self.listed kind (showdups.getD self.showdupesfromrepos) ignoreCase reponame pattern) rest ygh := by
  rw [doPackageLists]
  generalize showdups.getD self.showdupesfromrepos = dups
  have hfirst : self.Lists kind dups ignoreCase reponame (self.listed kind dups ignoreCase reponame pattern) []
      (self.listed kind dups ignoreCase reponame pattern) :=
    ⟨listPattern_shape _ _ _ _ _ _, fun a _ => (List.append_nil _).symm, fun _ _ => rfl, (List.append_nil _).symm⟩
  exact foldlM_mergePattern self kind dups ignoreCase reponame [] rest hfirst (listPattern_sameSecurity kind (some pattern) dups ignoreCase reponame)

/-- `_do_package_lists` raises nothing, and each attribute has what is found for the patterns, one after another. -/
def Base.Concatenates (self : Base Package) (kind : Kind) (patterns : List String) (showdups : Option Bool) (ignoreCase : Bool)
    (reponame : Option String) : Prop :=
  ∃ ygh self', self.doPackageLists kind patterns showdups ignoreCase reponame = some (ygh, self') ∧
    (∀ a, (ygh.lists a).contents self.sack.pool = patterns.flatMap fun p =>
      ((self.listed kind (showdups.getD self.showdupesfromrepos) ignoreCase reponame p).lists a).contents self.sack.pool) ∧
    ygh.obsoletesTuples.contents (self.sack.pool ×ˢ self.sack.pool) = patterns.flatMap fun p =>
      (self.listed kind (showdups.getD self.showdupesfromrepos) ignoreCase reponame p).obsoletesTuples.contents (self.sack.pool ×ˢ self.sack.pool)

/-- No package of the pool is found for the pattern in the attribute that is a query. -/
def Base.FindsNone (self : Base Package) (kind : Kind) (showdups ignoreCase : Bool) (reponame : Option String) (pattern : String) : Prop :=
  ∀ p ∈ self.sack.pool, match kind with
    | .obsoletes => self.obsoletesQuery (self.sack.bestQuery pattern ignoreCase) reponame p = false
    | .recent => self.recentQuery (self.sack.bestQuery pattern ignoreCase) showdups reponame p = false
    | _ => True

theorem findsNone_iff (self : Base Package) (kind : Kind) (showdups ignoreCase : Bool) (reponame : Option String) (pattern : String) :
    self.FindsNone kind showdups ignoreCase reponame pattern ↔ ∀ a, kind.queryAttribute = some a →
      ((self.listed kind showdups ignoreCase reponame pattern).lists a).contents self.sack.pool = [] := by
  cases kind with
  | obsoletes =>
      simp only [Kind.queryAttribute, Option.some.injEq, forall_eq']
      exact (forall₂_congr fun p _ => (Bool.not_eq_true _).symm.to_iff).trans List.filter_eq_nil_iff.symm
  | recent =>
      simp only [Kind.queryAttribute, Option.some.injEq, forall_eq']
      exact (forall₂_congr fun p _ => (Bool.not_eq_true _).symm.to_iff).trans List.filter_eq_nil_iff.symm
  | all => exact iff_of_true (fun _ _ => trivial) nofun
  | upgrades => exact iff_of_true (fun _ _ => trivial) nofun
  | installed => exact iff_of_true (fun _ _ => trivial) nofun
  | available => exact iff_of_true (fun _ _ => trivial) nofun
  | autoremove => exact iff_of_true (fun _ _ => trivial) nofun
  | extras => exact iff_of_true (fun _ _ => trivial) nofun

/-- Only the queries are not concatenated, and that shows when a pattern after the first finds something for them. -/
theorem concatenates_iff (self : Base Package) (kind : Kind) (pattern : String) (rest : List String) (showdups : Option Bool)
    (ignoreCase : Bool) (reponame : Option String) :
    self.Concatenates kind (pattern :: rest) showdups ignoreCase reponame ↔
      ∀ p ∈ rest, self.FindsNone kind (showdups.getD self.showdupesfromrepos) ignoreCase reponame p := by
  obtain ⟨ygh, self', hrun, hlists⟩ := self.doPackageLists_lists kind pattern rest showdups ignoreCase reponame
  rw [Base.Concatenates, hrun]
  simp only [Option.some.injEq, Prod.mk.injEq, findsNone_iff]
  constructor
  · rintro ⟨ygh', self'', ⟨rfl, rfl⟩, hall, _⟩ p hp a hquery
    have ha := hall a
    rw [hlists.query a hquery, List.flatMap_cons, List.self_eq_append_right, List.flatMap_eq_nil_iff] at ha
    exact ha p hp
  · refine fun hnone => ⟨ygh, self', ⟨rfl, rfl⟩, fun a => ?_, hlists.tuples⟩
    by_cases hquery : kind.queryAttribute = some a
    · rw [hlists.query a hquery, List.flatMap_cons, List.self_eq_append_right, List.flatMap_eq_nil_iff]
      exact fun p hp => hnone p hp a hquery
    · exact hlists.lists a hquery

/-- `ham` and `eggs` are packages without anything special about them. -/
def breakfast : Sack String where
  pool := ["ham", "eggs"]
  name := id
  arch _ := "noarch"
  evr _ := "1-1"
  pkgtup p := (p, "noarch", "0", "1", "1")
  reponame _ := "main"
  obsoletes _ := []
  gt _ _ := false
  evrCmp _ _ := .eq
  bestQuery pattern _ := fun p => p == pattern
  latestPerArchByPriority := id
  upgradesByPriority := id
  latest := id
  unneeded := id
  extras := id
  obsoletesByPriority _ := id
  recent _ := id
  provides _ _ := false
  securityFilter _ _ := id

def breakfastBase : Base String := ⟨breakfast, fun _ => "main", 7, true, [], []⟩

/-- Both are recent, and the listing of the two names has the first only. -/
theorem recent_not_concatenated : ¬breakfastBase.Concatenates .recent ["ham", "eggs"] none false none := by
  rintro ⟨ygh, self', hrun, hlists, _⟩
  have hygh : some ygh = (breakfastBase.doPackageLists .recent ["ham", "eggs"] none false none).map Prod.fst := by
    rw [hrun]
    rfl
  have hrecent : ((ygh.lists .recent).contents breakfast.pool) = ["ham"] := by
    have hygh := Option.some.inj hygh
    rw [hygh]
    decide
  have hboth := hlists .recent
  rw [show breakfastBase.sack.pool = breakfast.pool from rfl, hrecent] at hboth
  exact absurd hboth (by decide)

end Dnf.Listing
