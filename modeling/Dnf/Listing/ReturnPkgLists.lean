import Dnf.Listing.Concatenation

/-!
# What `returnPkgLists` shows

To highlight what it lists `returnPkgLists` asks for all packages in place of the installed or the available ones, and hides the others. The attributes it leaves for showing are what `_list_pattern` found for the patterns, and with duplicates the packages to reinstall are among the available ones.
-/

namespace Dnf.Listing

variable {Package : Type}

/-- `ypl`, with the attributes that only highlighting gives it. -/
structure PkgLists (Package : Type) extends GenericHolder Package where
  hiddenAvailable : Option (Value Package) := none
  hiddenInstalled : Option (Value Package) := none

namespace Base

variable (self : Base Package)

/-- A query has no `append`. -/
def appendAvailable (doneHiddenAvailable : Bool) (ypl : GenericHolder Package) (pkg : Package) : Option (GenericHolder Package) :=
  if self.sack.reponame pkg != "@System" && !doneHiddenAvailable then
    match ypl.lists .available with
    | .list available => some (ypl.set .available (.list (available ++ [pkg])))
    | .query _ => none
  else some ypl

/-- The packages to reinstall are duplicates of available ones. -/
def appendDuplicates (doneHiddenAvailable : Bool) (ypl : GenericHolder Package) : Option (GenericHolder Package) :=
  if self.showdupesfromrepos then
    ((ypl.lists .reinstallAvailable).contents self.sack.pool).foldlM (self.appendAvailable doneHiddenAvailable) ypl
  else some ypl

/-- What highlighting compares with, out of the lists that are shown. -/
def hide (installedAvailable doneHiddenAvailable doneHiddenInstalled : Bool) (ypl : GenericHolder Package) : PkgLists Package :=
  let hidden (a : Attribute) := if installedAvailable then some (ypl.lists a) else none
  let shown := if doneHiddenAvailable then ypl.set .available (.list []) else ypl
  let shown := if doneHiddenInstalled then shown.set .installed (.list []) else shown
  { shown with hiddenAvailable := hidden .available, hiddenInstalled := hidden .installed }

def returnPkgLists (pkgnarrow : Kind) (patterns : List String) (installedAvailable : Bool) (reponame : Option String) :
    Option (PkgLists Package × Base Package) := do
  let doneHiddenAvailable := installedAvailable && pkgnarrow = .installed
  let doneHiddenInstalled := installedAvailable && pkgnarrow = .available
  let pkgnarrow := if doneHiddenAvailable || doneHiddenInstalled then .all else pkgnarrow
  let (ypl, self') ← self.doPackageLists pkgnarrow patterns none true reponame
  let ypl ← self.appendDuplicates doneHiddenAvailable ypl
  pure (hide installedAvailable doneHiddenAvailable doneHiddenInstalled ypl, self')

/-! ### What the calls show -/

/-- `_list_pattern` is called once without patterns, and else once for each. -/
def targets (patterns : List String) : List (Option String) := if patterns = [] then [none] else patterns.map some

/-- What all the patterns find for an attribute. -/
def found (kind : Kind) (patterns : List String) (reponame : Option String) (a : Attribute) : List Package :=
  (targets patterns).flatMap fun target =>
    ((self.listPattern kind target self.showdupesfromrepos true reponame).1.lists a).contents self.sack.pool

theorem doPackageLists_found {kind : Kind} (hkind : kind.queryAttribute = none) (patterns : List String) (reponame : Option String) :
    ∃ ygh self', self.doPackageLists kind patterns none true reponame = some (ygh, self') ∧ ygh.Shape kind ∧
      ∀ a, (ygh.lists a).contents self.sack.pool = self.found kind patterns reponame a := by
  cases patterns with
  | nil =>
      exact ⟨_, _, rfl, listPattern_shape _ _ _ _ _ _, fun a => (List.flatMap_singleton ..).symm⟩
  | cons pattern rest =>
      obtain ⟨ygh, self', hrun, hlists⟩ := self.doPackageLists_lists kind pattern rest none true reponame
      refine ⟨ygh, self', hrun, hlists.shape, fun a => ?_⟩
      rw [hlists.lists a (hkind ▸ nofun), found, targets, if_neg (List.cons_ne_nil _ _), List.map_cons, List.flatMap_cons, List.flatMap_map]
      rfl

theorem foldlM_appendAvailable (doneHiddenAvailable : Bool) (pkgs : List Package) {ypl : GenericHolder Package} {available : List Package}
    (havailable : ypl.lists .available = .list available) :
    ∃ ypl', pkgs.foldlM (self.appendAvailable doneHiddenAvailable) ypl = some ypl' ∧ (∀ a, a ≠ .available → ypl'.lists a = ypl.lists a) ∧
      ypl'.lists .available = .list (available ++ pkgs.filter fun pkg => self.sack.reponame pkg != "@System" && !doneHiddenAvailable) := by
  induction pkgs generalizing ypl available with
  | nil => exact ⟨ypl, rfl, fun _ _ => rfl, by rw [havailable, List.filter_nil, List.append_nil]⟩
  | cons pkg rest ih =>
      rw [List.foldlM_cons, appendAvailable, List.filter_cons]
      by_cases happend : (self.sack.reponame pkg != "@System" && !doneHiddenAvailable) = true
      · rw [if_pos happend, if_pos happend, havailable]
        have hset : (ypl.set .available (.list (available ++ [pkg]))).lists .available = .list (available ++ [pkg]) := by
          simp [GenericHolder.set]
        obtain ⟨ypl', hrun, hothers, hlist⟩ := ih hset
        refine ⟨ypl', hrun, fun a ha => (hothers a ha).trans (Function.update_of_ne ha _ _), ?_⟩
        rw [hlist, List.append_assoc, List.singleton_append]
      · rw [if_neg happend, if_neg happend]
        exact ih havailable

theorem exists_list {kind : Kind} {ygh : GenericHolder Package} (hshape : ygh.Shape kind) (hkind : kind.queryAttribute = none)
    (a : Attribute) : ∃ l, ygh.lists a = .list l := by
  have hlist : (ygh.lists a).IsList := (hshape.lists a).mpr (hkind ▸ nofun)
  generalize ygh.lists a = value at hlist ⊢
  cases value with
  | list l => exact ⟨l, rfl⟩
  | query q => exact absurd hlist id

theorem appendDuplicates_lists (doneHiddenAvailable : Bool) {kind : Kind} {ygh : GenericHolder Package} (hshape : ygh.Shape kind)
    (hkind : kind.queryAttribute = none) :
    ∃ ypl, self.appendDuplicates doneHiddenAvailable ygh = some ypl ∧ (∀ a, a ≠ .available → ypl.lists a = ygh.lists a) ∧
      (ypl.lists .available).contents self.sack.pool = (ygh.lists .available).contents self.sack.pool ++
        if self.showdupesfromrepos then ((ygh.lists .reinstallAvailable).contents self.sack.pool).filter fun pkg =>
          self.sack.reponame pkg != "@System" && !doneHiddenAvailable
        else [] := by
  obtain ⟨available, havailable⟩ := exists_list hshape hkind .available
  rw [appendDuplicates]
  by_cases hdups : self.showdupesfromrepos = true
  · obtain ⟨ypl, hrun, hothers, hlist⟩ :=
      self.foldlM_appendAvailable doneHiddenAvailable ((ygh.lists .reinstallAvailable).contents self.sack.pool) havailable
    rw [if_pos hdups, if_pos hdups]
    refine ⟨ypl, hrun, hothers, ?_⟩
    rw [hlist, havailable]
    rfl
  · rw [if_neg hdups, if_neg hdups]
    exact ⟨ygh, rfl, fun _ _ => rfl, (List.append_nil _).symm⟩

/-- The branch that answers the call. -/
def narrow (kind : Kind) (installedAvailable : Bool) : Kind := if installedAvailable then .all else kind

/-- With duplicates the packages to reinstall are available ones. -/
def foundAvailable (kind : Kind) (patterns : List String) (reponame : Option String) : List Package :=
  self.found kind patterns reponame .available ++
    if self.showdupesfromrepos then (self.found kind patterns reponame .reinstallAvailable).filter fun pkg => self.sack.reponame pkg != "@System"
    else []

/-- The call returns, and the attribute has these packages. -/
def Shows (kind : Kind) (patterns : List String) (installedAvailable : Bool) (reponame : Option String) (a : Attribute)
    (pkgs : List Package) : Prop :=
  ∃ ypl self', self.returnPkgLists kind patterns installedAvailable reponame = some (ypl, self') ∧ (ypl.lists a).contents self.sack.pool = pkgs

theorem shows_installed (patterns : List String) (installedAvailable : Bool) (reponame : Option String) :
    self.Shows .installed patterns installedAvailable reponame .installed
      (self.found (narrow .installed installedAvailable) patterns reponame .installed) := by
  have hkind : (narrow .installed installedAvailable).queryAttribute = none := by cases installedAvailable <;> rfl
  obtain ⟨ygh, self', hrun, hshape, hfound⟩ := self.doPackageLists_found hkind patterns reponame
  obtain ⟨ypl, happend, hothers, -⟩ := self.appendDuplicates_lists installedAvailable hshape hkind
  refine ⟨hide installedAvailable installedAvailable false ypl, self', ?_, ?_⟩
  · rw [returnPkgLists]
    cases installedAvailable with
    | false => exact (congrArg (Option.bind · _) hrun).trans (congrArg (Option.bind · _) happend)
    | true => exact (congrArg (Option.bind · _) hrun).trans (congrArg (Option.bind · _) happend)
  · rw [← hfound, ← hothers .installed nofun]
    cases installedAvailable <;> rfl

theorem shows_available (patterns : List String) (installedAvailable : Bool) (reponame : Option String) :
    self.Shows .available patterns installedAvailable reponame .available
      (self.foundAvailable (narrow .available installedAvailable) patterns reponame) := by
  have hkind : (narrow .available installedAvailable).queryAttribute = none := by cases installedAvailable <;> rfl
  obtain ⟨ygh, self', hrun, hshape, hfound⟩ := self.doPackageLists_found hkind patterns reponame
  obtain ⟨ypl, happend, -, hlist⟩ := self.appendDuplicates_lists false hshape hkind
  refine ⟨hide installedAvailable false installedAvailable ypl, self', ?_, ?_⟩
  · rw [returnPkgLists]
    cases installedAvailable with
    | false => exact (congrArg (Option.bind · _) hrun).trans (congrArg (Option.bind · _) happend)
    | true => exact (congrArg (Option.bind · _) hrun).trans (congrArg (Option.bind · _) happend)
  · rw [foundAvailable, ← hfound, ← hfound]
    simp only [Bool.not_false, Bool.and_true] at hlist
    rw [← hlist]
    cases installedAvailable <;> rfl

end Base

end Dnf.Listing
