import Dnf.Listing.Dicts
import Dnf.Listing.ReturnPkgLists

/-!
# Listing with and without highlighting

Highlighting has all packages listed in place of the installed or the available ones. The branches agree on which packages to show, but each of them goes through a dict with one package for a key: that for all packages takes the last installed one of a `pkgtup`, that for the available ones the first of a name and architecture. What a dict drops is in one listing and not in the other.
-/

namespace Dnf.Listing

variable {Package : Type}

/-! ### Which package a version dict has -/

/-- What hawkey documents about the queries and the comparisons: packages of one `pkgtup` have one version, and of a name and architecture a package is greater when its version is, and latest when no other's is. -/
structure Sack.Documented (sack : Sack Package) : Prop where
  evrCmp : Std.TransCmp sack.evrCmp
  gt : ∀ p p', sack.name p = sack.name p' → sack.arch p = sack.arch p' → (sack.gt p p' = true ↔ sack.evrCmp p p' = .gt)
  pkgtup : ∀ p p', sack.pkgtup p = sack.pkgtup p' → sack.name p = sack.name p' ∧ sack.arch p = sack.arch p' ∧ sack.evrCmp p p' = .eq
  latest : ∀ q, ∀ p ∈ sack.pool, sack.latest q p = true ↔ q p = true ∧ ∀ p' ∈ sack.pool, q p' = true → sack.name p' = sack.name p →
    sack.arch p' = sack.arch p → (sack.evrCmp p' p).isLE

namespace Base

variable (self : Base Package)

/-- The installed packages of a name and architecture. -/
def installedAs (q : Query Package) (na : String × String) : List Package :=
  (self.sack.run (self.sack.installed q)).filter fun po => (self.sack.name po, self.sack.arch po) = na

/-- Newer than every installed package of its name and architecture. -/
def Newer (q : Query Package) (pkg : Package) : Prop :=
  ∀ po ∈ self.installedAs q (self.sack.name pkg, self.sack.arch pkg), self.sack.evrCmp pkg po = .gt

/-- Of packages with its `pkgtup` it is the last that is installed. -/
def IsLast (q : Query Package) (po : Package) : Prop :=
  ((self.sack.run (self.sack.installed q)).filter fun other => self.sack.pkgtup other = self.sack.pkgtup po).getLast? = some po

theorem dinst_lookup (q : Query Package) (tup : String × String × String × String × String) :
    (self.dinst q).lookup tup = ((self.sack.run (self.sack.installed q)).filter fun po => self.sack.pkgtup po = tup).getLast? :=
  (lookup_foldl_record self.sack.pkgtup (fun _ po => some po) _ [] tup).trans (foldl_keep_last _)

theorem mem_dinst (q : Query Package) (po : Package) : po ∈ (self.dinst q).map Prod.snd ↔ self.IsLast q po := by
  have hmem (tup : String × String × String × String × String) (po : Package) : (tup, po) ∈ self.dinst q ↔
      ((self.sack.run (self.sack.installed q)).filter fun other => self.sack.pkgtup other = tup).getLast? = some po := by
    rw [← foldl_keep_last]
    exact mem_foldl_record self.sack.pkgtup (fun _ po => some po) _ tup po
  constructor
  · rintro h
    obtain ⟨⟨tup, po⟩, hentry, rfl⟩ := List.mem_map.mp h
    have hlast := (hmem tup po).mp hentry
    have htup := of_decide_eq_true (List.mem_filter.mp (List.mem_of_getLast? hlast)).2
    subst htup
    exact hlast
  · exact fun hlast => List.mem_map.mpr ⟨(self.sack.pkgtup po, po), (hmem _ po).mpr hlast, rfl⟩

theorem ndinst_lookup (q : Query Package) (na : String × String) :
    (self.ndinst q false).lookup na = (self.installedAs q na).foldl (keep (newer self.sack.gt)) none := by
  rw [ndinst, if_neg Bool.false_ne_true, installedAs, ← List.lookup_nil (a := na),
    ← lookup_foldl_record (fun po => (self.sack.name po, self.sack.arch po))]
  congr 2
  funext d po
  rw [record]
  cases d.lookup (self.sack.name po, self.sack.arch po) with
  | none => rfl
  | some newest =>
      dsimp only [newer]
      by_cases hgt : self.sack.gt po newest = true
      · rw [if_pos hgt, if_pos hgt]
      · rw [if_neg hgt, if_neg hgt]

theorem naDict_lookup (sack : Sack Package) (q : Query Package) (na : String × String) :
    (sack.naDict q).lookup na = if (sack.run q).filter (fun p => (sack.name p, sack.arch p) = na) = [] then none
      else some ((sack.run q).filter fun p => (sack.name p, sack.arch p) = na) :=
  (lookup_foldl_record (fun p => (sack.name p, sack.arch p)) (fun held p => some (held.getD [] ++ [p])) _ [] na).trans (foldl_keep_all _)

/-- `newest` is what decides whether a package is newer than all. -/
structure IsNewest (base : Base Package) (na : String × String) (q : Query Package) (newest : Package) : Prop where
  mem : newest ∈ base.installedAs q na
  max : ∀ po ∈ base.installedAs q na, (base.sack.evrCmp po newest).isLE

variable {self}

theorem mem_installedAs {q : Query Package} {na : String × String} {po : Package} :
    po ∈ self.installedAs q na ↔ po ∈ self.sack.run (self.sack.installed q) ∧ (self.sack.name po, self.sack.arch po) = na := by
  rw [installedAs, List.mem_filter, decide_eq_true_iff]

theorem IsNewest.newer_iff (hdoc : self.sack.Documented) {q : Query Package} {pkg newest : Package}
    (hnewest : self.IsNewest (self.sack.name pkg, self.sack.arch pkg) q newest) : self.Newer q pkg ↔ self.sack.evrCmp pkg newest = .gt := by
  have := hdoc.evrCmp
  exact ⟨fun h => h newest hnewest.mem, fun h po hpo => Std.TransCmp.gt_of_gt_of_isGE h (Std.OrientedCmp.isGE_of_isLE (hnewest.max po hpo))⟩

theorem newer_of_nil {q : Query Package} {pkg : Package} (hnil : self.installedAs q (self.sack.name pkg, self.sack.arch pkg) = []) :
    self.Newer q pkg := by
  rw [Newer, hnil]
  exact fun po hpo => absurd hpo List.not_mem_nil

theorem exists_newest (hdoc : self.sack.Documented) {q : Query Package} {na : String × String} (hna : self.installedAs q na ≠ []) :
    ∃ newest, self.IsNewest na q newest ∧ (self.ndinst q false).lookup na = some newest := by
  have := hdoc.evrCmp
  have hgt : ∀ p ∈ self.installedAs q na, ∀ p' ∈ self.installedAs q na, (self.sack.gt p p' = true ↔ self.sack.evrCmp p p' = .gt) := by
    intro p hp p' hp'
    obtain ⟨hname, harch⟩ := Prod.mk.inj ((mem_installedAs.mp hp).2.trans (mem_installedAs.mp hp').2.symm)
    exact hdoc.gt p p' hname harch
  obtain ⟨newest, hmem, hfold, hmax⟩ := foldl_keep_newest (self.installedAs q na) hgt hna
  exact ⟨newest, ⟨hmem, hmax⟩, (self.ndinst_lookup q na).trans hfold⟩

/-- What has the `pkgtup` of an installed package is not newer than it. -/
theorem not_newer_of_dinst (hdoc : self.sack.Documented) {q : Query Package} {pkg : Package}
    (hdinst : ((self.dinst q).lookup (self.sack.pkgtup pkg)).isSome) : ¬self.Newer q pkg := by
  have := hdoc.evrCmp
  intro hnewer
  obtain ⟨po, hpo⟩ := Option.isSome_iff_exists.mp hdinst
  rw [dinst_lookup] at hpo
  obtain ⟨hrun, htup⟩ := List.mem_filter.mp (List.mem_of_getLast? hpo)
  obtain ⟨hname, harch, hevr⟩ := hdoc.pkgtup po pkg (of_decide_eq_true htup)
  have hgt := hnewer po (mem_installedAs.mpr ⟨hrun, Prod.ext hname harch⟩)
  rw [Std.OrientedCmp.eq_symm hevr] at hgt
  cases hgt

theorem placeOfAll_eq_available_iff (hdoc : self.sack.Documented) (q : Query Package) (pkg : Package) :
    self.placeOfAll q false pkg = .available ↔ self.Newer q pkg := by
  rw [placeOfAll]
  by_cases hdinst : ((self.dinst q).lookup (self.sack.pkgtup pkg)).isSome = true
  · rw [if_pos hdinst]
    exact iff_of_false nofun (not_newer_of_dinst hdoc hdinst)
  rw [if_neg hdinst, if_neg Bool.false_ne_true]
  by_cases hnil : self.installedAs q (self.sack.name pkg, self.sack.arch pkg) = []
  · rw [ndinst_lookup, hnil]
    exact iff_of_true rfl (newer_of_nil hnil)
  · obtain ⟨newest, hnewest, hlookup⟩ := exists_newest hdoc hnil
    rw [hlookup, hnewest.newer_iff hdoc]
    by_cases hgt : self.sack.evrCmp pkg newest = .gt <;> simp [hgt]

theorem mem_latest_installed (hdoc : self.sack.Documented) {q : Query Package} {na : String × String} {po : Package} :
    po ∈ (self.sack.run (self.sack.latest (self.sack.installed q))).filter (fun p => (self.sack.name p, self.sack.arch p) = na) ↔
      self.IsNewest na q po := by
  rw [List.mem_filter, decide_eq_true_iff, Sack.run, List.mem_filter]
  constructor
  · rintro ⟨⟨hpool, hlatest⟩, hna⟩
    obtain ⟨hq, hmax⟩ := (hdoc.latest _ po hpool).mp hlatest
    refine ⟨mem_installedAs.mpr ⟨List.mem_filter.mpr ⟨hpool, hq⟩, hna⟩, fun other hother => ?_⟩
    obtain ⟨hrun, hna'⟩ := mem_installedAs.mp hother
    obtain ⟨hname, harch⟩ := Prod.mk.inj (hna'.trans hna.symm)
    exact hmax other (List.mem_filter.mp hrun).1 (List.mem_filter.mp hrun).2 hname harch
  · rintro ⟨hmem, hmax⟩
    obtain ⟨hrun, hna⟩ := mem_installedAs.mp hmem
    obtain ⟨hpool, hq⟩ := List.mem_filter.mp hrun
    refine ⟨⟨hpool, (hdoc.latest _ po hpool).mpr ⟨hq, fun other hpool' hq' hname harch => ?_⟩⟩, hna⟩
    exact hmax other (mem_installedAs.mpr ⟨List.mem_filter.mpr ⟨hpool', hq'⟩, (Prod.ext hname harch : (_, _) = (_, _)).trans hna⟩)

theorem placeOfLatest_eq_available_iff (hdoc : self.sack.Documented) (q : Query Package) (pkg : Package) :
    self.placeOfLatest q pkg = .available ↔ self.Newer q pkg := by
  rw [placeOfLatest, naDict_lookup]
  by_cases hnil : self.installedAs q (self.sack.name pkg, self.sack.arch pkg) = []
  · rw [if_pos]
    · exact iff_of_true rfl (newer_of_nil hnil)
    · refine List.eq_nil_iff_forall_not_mem.mpr fun po hpo => ?_
      exact List.ne_nil_of_mem ((mem_latest_installed hdoc).mp hpo).mem hnil
  · obtain ⟨newest, hnewest, -⟩ := exists_newest hdoc hnil
    have hmem := (mem_latest_installed hdoc).mpr hnewest
    rw [if_neg (List.ne_nil_of_mem hmem)]
    cases hlatest : (self.sack.run (self.sack.latest (self.sack.installed q))).filter
        (fun p => (self.sack.name p, self.sack.arch p) = (self.sack.name pkg, self.sack.arch pkg)) with
    | nil => exact absurd hlatest (List.ne_nil_of_mem hmem)
    | cons first rest =>
        have hfirst := (mem_latest_installed hdoc).mp (hlatest ▸ List.mem_cons_self)
        rw [hfirst.newer_iff hdoc, Option.bind_some, List.head?_cons]
        dsimp only
        cases self.sack.evrCmp pkg first <;> simp

/-! ### What each branch finds -/

variable (self)

/-- The packages that the listings without duplicates choose from. -/
def latestAvailable (q : Query Package) (reponame : Option String) : List Package :=
  self.sack.run (self.sack.latestPerArchByPriority (self.sack.available (self.queryForRepo reponame q)))

/-- Of the latest available packages with its name and architecture it is the first. -/
def IsFirst (q : Query Package) (reponame : Option String) (pkg : Package) : Prop :=
  ((self.latestAvailable q reponame).filter fun other =>
    (self.sack.name other, self.sack.arch other) = (self.sack.name pkg, self.sack.arch pkg)).head? = some pkg

variable {self}

theorem IsLast.mem {q : Query Package} {po : Package} (h : self.IsLast q po) : po ∈ self.sack.run (self.sack.installed q) :=
  (List.mem_filter.mp (List.mem_of_getLast? h)).1

theorem IsFirst.mem {q : Query Package} {reponame : Option String} {pkg : Package} (h : self.IsFirst q reponame pkg) :
    pkg ∈ self.latestAvailable q reponame :=
  (List.mem_filter.mp (List.mem_of_head? h)).1

theorem queryForRepo_available (q : Query Package) (reponame : Option String) :
    self.queryForRepo reponame (self.sack.available q) = self.sack.available (self.queryForRepo reponame q) := by
  cases reponame with
  | none => rfl
  | some repo => exact funext fun p => Bool.and_right_comm ..

theorem mem_heads (q : Query Package) (reponame : Option String) (pkg : Package) :
    pkg ∈ (self.sack.naDict (self.sack.latestPerArchByPriority (self.sack.available (self.queryForRepo reponame q)))).filterMap
      (fun entry => entry.2.head?) ↔ self.IsFirst q reponame pkg := by
  have hmem (na : String × String) (group : List Package) :
      (na, group) ∈ self.sack.naDict (self.sack.latestPerArchByPriority (self.sack.available (self.queryForRepo reponame q))) ↔
        (if (self.latestAvailable q reponame).filter (fun p => (self.sack.name p, self.sack.arch p) = na) = [] then none
          else some ((self.latestAvailable q reponame).filter fun p => (self.sack.name p, self.sack.arch p) = na)) = some group := by
    rw [← foldl_keep_all]
    exact mem_foldl_record (fun p => (self.sack.name p, self.sack.arch p)) (fun held p => some (held.getD [] ++ [p])) _ na group
  rw [List.mem_filterMap]
  constructor
  · rintro ⟨⟨na, group⟩, hentry, hhead⟩
    rw [hmem] at hentry
    by_cases hnil : (self.latestAvailable q reponame).filter (fun p => (self.sack.name p, self.sack.arch p) = na) = []
    · rw [if_pos hnil] at hentry
      cases hentry
    · rw [if_neg hnil] at hentry
      cases hentry
      have hna := of_decide_eq_true (List.mem_filter.mp (List.mem_of_head? hhead)).2
      subst hna
      exact hhead
  · intro hfirst
    refine ⟨((self.sack.name pkg, self.sack.arch pkg), _), (hmem _ _).mpr (if_neg ?_), hfirst⟩
    exact List.ne_nil_of_mem (List.mem_of_head? hfirst)

theorem mem_placed {place : Package → Attribute} {pkgs : List Package} {a : Attribute} {pkg : Package} :
    pkg ∈ pkgs.filter (fun p => place p = a) ↔ pkg ∈ pkgs ∧ place pkg = a := by
  rw [List.mem_filter, decide_eq_true_iff]

section

variable (patterns : List String) (reponame : Option String)

theorem mem_found {kind : Kind} {a : Attribute} {pkg : Package} : pkg ∈ self.found kind patterns reponame a ↔
    ∃ target ∈ targets patterns,
      pkg ∈ ((self.listPattern kind target self.showdupesfromrepos true reponame).1.lists a).contents self.sack.pool := by
  rw [found, List.mem_flatMap]

theorem mem_installed_plain (po : Package) : po ∈ self.found .installed patterns reponame .installed ↔
    ∃ target ∈ targets patterns, po ∈ self.sack.run (self.sack.installed (self.preselect target true)) ∧ self.isFromRepo reponame po = true := by
  rw [mem_found]
  exact exists_congr fun target => and_congr_right fun _ => List.mem_filter

theorem mem_installed_highlighted (po : Package) : po ∈ self.found .all patterns reponame .installed ↔
    ∃ target ∈ targets patterns, self.IsLast (self.preselect target true) po ∧ self.isFromRepo reponame po = true := by
  rw [mem_found]
  refine exists_congr fun target => and_congr_right fun _ => ?_
  rw [← mem_dinst]
  exact List.mem_filter

/-- With duplicates a package is available or to be reinstalled, in either branch. -/
theorem exists_place (hdups : self.showdupesfromrepos = true) {kind : Kind} (hkind : kind = .all ∨ kind = .available) :
    ∃ place : Query Package → Package → Attribute, (∀ q pkg, place q pkg = .available ∨ place q pkg = .reinstallAvailable) ∧
      ∀ a pkg, a = .available ∨ a = .reinstallAvailable → (pkg ∈ self.found kind patterns reponame a ↔ ∃ target ∈ targets patterns,
        pkg ∈ self.sack.run (self.sack.available (self.queryForRepo reponame (self.preselect target true))) ∧
          place (self.preselect target true) pkg = a) := by
  rcases hkind with rfl | rfl
  · refine ⟨fun q => self.placeOfAll q true, fun q pkg => ?_, fun a pkg ha => ?_⟩
    · dsimp only [placeOfAll]
      rw [if_pos rfl]
      exact (ite_eq_or_eq ..).symm
    · rw [mem_found, hdups]
      refine exists_congr fun target => and_congr_right fun _ => ?_
      rw [← queryForRepo_available]
      rcases ha with rfl | rfl
      · exact mem_placed
      · exact mem_placed
  · refine ⟨self.placeOfDuplicate, fun q pkg => (ite_eq_or_eq ..).symm, fun a pkg ha => ?_⟩
    rw [mem_found, hdups]
    refine exists_congr fun target => and_congr_right fun _ => ?_
    rcases ha with rfl | rfl
    · exact mem_placed
    · exact mem_placed

/-- With duplicates both branches show all that is available. -/
theorem mem_available_duplicates (hdups : self.showdupesfromrepos = true) {kind : Kind} (hkind : kind = .all ∨ kind = .available)
    (pkg : Package) : pkg ∈ self.foundAvailable kind patterns reponame ↔
    ∃ target ∈ targets patterns, pkg ∈ self.sack.run (self.sack.available (self.queryForRepo reponame (self.preselect target true))) := by
  obtain ⟨place, hplace, hfound⟩ := exists_place patterns reponame hdups hkind
  rw [foundAvailable, if_pos hdups, List.mem_append, List.mem_filter, hfound _ _ (.inl rfl), hfound _ _ (.inr rfl)]
  constructor
  · rintro (⟨target, htarget, hpkg, -⟩ | ⟨⟨target, htarget, hpkg, -⟩, -⟩)
    · exact ⟨target, htarget, hpkg⟩
    · exact ⟨target, htarget, hpkg⟩
  · rintro ⟨target, htarget, hpkg⟩
    rcases hplace (self.preselect target true) pkg with havailable | hreinstall
    · exact .inl ⟨target, htarget, hpkg, havailable⟩
    · exact .inr ⟨⟨target, htarget, hpkg, hreinstall⟩, (Bool.and_eq_true_iff.mp (List.mem_filter.mp hpkg).2).2⟩

theorem mem_available_highlighted (hdoc : self.sack.Documented) (hdups : self.showdupesfromrepos = false) (pkg : Package) :
    pkg ∈ self.foundAvailable .all patterns reponame ↔ ∃ target ∈ targets patterns,
      pkg ∈ self.latestAvailable (self.preselect target true) reponame ∧ self.Newer (self.preselect target true) pkg := by
  rw [foundAvailable, if_neg (hdups ▸ Bool.false_ne_true), List.append_nil, mem_found, hdups]
  refine exists_congr fun target => and_congr_right fun _ => ?_
  rw [← placeOfAll_eq_available_iff hdoc, latestAvailable, ← queryForRepo_available]
  exact mem_placed

theorem mem_available_plain (hdoc : self.sack.Documented) (hdups : self.showdupesfromrepos = false) (pkg : Package) :
    pkg ∈ self.foundAvailable .available patterns reponame ↔ ∃ target ∈ targets patterns,
      self.IsFirst (self.preselect target true) reponame pkg ∧ self.Newer (self.preselect target true) pkg := by
  rw [foundAvailable, if_neg (hdups ▸ Bool.false_ne_true), List.append_nil, mem_found, hdups]
  refine exists_congr fun target => and_congr_right fun _ => ?_
  rw [← placeOfLatest_eq_available_iff hdoc, ← mem_heads]
  exact mem_placed

end

end Base

/-! ### Whether highlighting shows -/

section

variable {ι : Type} (ident : Package → ι)

/-- With and without highlighting the call returns, and the attribute has the same packages, as far as `ident` tells them apart. -/
def Base.ShowsAlike (base : Base Package) (kind : Kind) (a : Attribute) (patterns : List String) (reponame : Option String) : Prop :=
  ∃ highlighted plain, base.Shows kind patterns true reponame a highlighted ∧ base.Shows kind patterns false reponame a plain ∧
    ∀ i, i ∈ highlighted.map ident ↔ i ∈ plain.map ident

def Base.ListsAlike (base : Base Package) (patterns : List String) (reponame : Option String) : Prop :=
  base.ShowsAlike ident .installed .installed patterns reponame ∧ base.ShowsAlike ident .available .available patterns reponame

/-- An installed package that `dinst` drops has a namesake that it keeps. -/
def Base.KeepsInstalled (base : Base Package) (patterns : List String) (reponame : Option String) : Prop :=
  ∀ target ∈ targets patterns, ∀ po ∈ base.sack.run (base.sack.installed (base.preselect target true)), base.isFromRepo reponame po = true →
    ¬base.IsLast (base.preselect target true) po →
      ∃ other, (∃ target' ∈ targets patterns, base.IsLast (base.preselect target' true) other ∧ base.isFromRepo reponame other = true) ∧
        ident other = ident po

/-- Without duplicates, a newer package that the first of its name and architecture displaces has a namesake that is first. -/
def Base.KeepsAvailable (base : Base Package) (patterns : List String) (reponame : Option String) : Prop :=
  base.showdupesfromrepos = false → ∀ target ∈ targets patterns, ∀ pkg ∈ base.latestAvailable (base.preselect target true) reponame,
    base.Newer (base.preselect target true) pkg → ¬base.IsFirst (base.preselect target true) reponame pkg →
      ∃ other, (∃ target' ∈ targets patterns, base.IsFirst (base.preselect target' true) reponame other ∧
        base.Newer (base.preselect target' true) other) ∧ ident other = ident pkg

variable {ident}

/-- A part shows whenever everything outside it has a namesake in it. -/
theorem mem_map_iff_of_subset {part whole : List Package} (hsub : ∀ p ∈ part, p ∈ whole) :
    (∀ i, i ∈ part.map ident ↔ i ∈ whole.map ident) ↔ ∀ p ∈ whole, ∃ other ∈ part, ident other = ident p := by
  constructor
  · exact fun h p hp => List.mem_map.mp ((h (ident p)).mpr (List.mem_map_of_mem hp))
  · refine fun h i => ⟨fun hi => ?_, fun hi => ?_⟩
    · obtain ⟨p, hp, rfl⟩ := List.mem_map.mp hi
      exact List.mem_map_of_mem (hsub p hp)
    · obtain ⟨p, hp, rfl⟩ := List.mem_map.mp hi
      obtain ⟨other, hother, heq⟩ := h p hp
      exact heq ▸ List.mem_map_of_mem hother

theorem showsAlike_iff {base : Base Package} {kind : Kind} {a : Attribute} {patterns : List String} {reponame : Option String}
    {highlighted plain : List Package} (hhighlighted : base.Shows kind patterns true reponame a highlighted)
    (hplain : base.Shows kind patterns false reponame a plain) :
    base.ShowsAlike ident kind a patterns reponame ↔ ∀ i, i ∈ highlighted.map ident ↔ i ∈ plain.map ident := by
  refine ⟨?_, fun h => ⟨highlighted, plain, hhighlighted, hplain, h⟩⟩
  rintro ⟨highlighted', plain', ⟨ypl, self', hrun, rfl⟩, ⟨ypl', self'', hrun', rfl⟩, hsame⟩
  obtain ⟨_, _, heq, rfl⟩ := hhighlighted
  obtain ⟨_, _, heq', rfl⟩ := hplain
  cases hrun.symm.trans heq
  cases hrun'.symm.trans heq'
  exact hsame

section

variable {base : Base Package} {patterns : List String} {reponame : Option String}

theorem showsAlike_installed_iff :
    base.ShowsAlike ident .installed .installed patterns reponame ↔ base.KeepsInstalled ident patterns reponame := by
  have hhighlighted := base.shows_installed patterns true reponame
  have hplain := base.shows_installed patterns false reponame
  have hsub : ∀ po ∈ base.found .all patterns reponame .installed, po ∈ base.found .installed patterns reponame .installed := by
    intro po hpo
    obtain ⟨target, htarget, hlast, hrepo⟩ := (Base.mem_installed_highlighted patterns reponame po).mp hpo
    exact (Base.mem_installed_plain patterns reponame po).mpr ⟨target, htarget, hlast.mem, hrepo⟩
  refine (showsAlike_iff hhighlighted hplain).trans ((mem_map_iff_of_subset hsub).trans ?_)
  simp only [Base.mem_installed_highlighted, Base.mem_installed_plain]
  constructor
  · exact fun h target htarget po hpo hrepo _ => h po ⟨target, htarget, hpo, hrepo⟩
  · rintro h po ⟨target, htarget, hpo, hrepo⟩
    by_cases hlast : base.IsLast (base.preselect target true) po
    · exact ⟨po, ⟨target, htarget, hlast, hrepo⟩, rfl⟩
    · exact h target htarget po hpo hrepo hlast

theorem showsAlike_available_iff (hdoc : base.sack.Documented) :
    base.ShowsAlike ident .available .available patterns reponame ↔ base.KeepsAvailable ident patterns reponame := by
  have hhighlighted := base.shows_available patterns true reponame
  have hplain := base.shows_available patterns false reponame
  refine (showsAlike_iff hhighlighted hplain).trans ?_
  by_cases hdups : base.showdupesfromrepos = true
  · refine iff_of_true (fun i => ?_) fun hnone => absurd (hdups.symm.trans hnone) nofun
    have hsame : ∀ pkg, pkg ∈ base.foundAvailable .all patterns reponame ↔ pkg ∈ base.foundAvailable .available patterns reponame := fun pkg =>
      (Base.mem_available_duplicates patterns reponame hdups (.inl rfl) pkg).trans
        (Base.mem_available_duplicates patterns reponame hdups (.inr rfl) pkg).symm
    simp only [List.mem_map]
    exact exists_congr fun pkg => and_congr_left fun _ => hsame pkg
  have hdups : base.showdupesfromrepos = false := Bool.eq_false_iff.mpr hdups
  have hsub : ∀ pkg ∈ base.foundAvailable .available patterns reponame, pkg ∈ base.foundAvailable .all patterns reponame := by
    intro pkg hpkg
    obtain ⟨target, htarget, hfirst, hnewer⟩ := (Base.mem_available_plain patterns reponame hdoc hdups pkg).mp hpkg
    exact (Base.mem_available_highlighted patterns reponame hdoc hdups pkg).mpr ⟨target, htarget, hfirst.mem, hnewer⟩
  refine (forall_congr' fun i => iff_comm).trans ((mem_map_iff_of_subset hsub).trans ?_)
  simp only [Base.mem_available_highlighted patterns reponame hdoc hdups, Base.mem_available_plain patterns reponame hdoc hdups]
  constructor
  · exact fun h _ target htarget pkg hpkg hnewer _ => h pkg ⟨target, htarget, hpkg, hnewer⟩
  · rintro h pkg ⟨target, htarget, hpkg, hnewer⟩
    by_cases hfirst : base.IsFirst (base.preselect target true) reponame pkg
    · exact ⟨pkg, ⟨target, htarget, hfirst, hnewer⟩, rfl⟩
    · exact h hdups target htarget pkg hpkg hnewer hfirst

end

/-- Highlighting does not show exactly when the dicts lose nothing. -/
theorem listsAlike_iff {base : Base Package} (hdoc : base.sack.Documented) (ident : Package → ι) (patterns : List String)
    (reponame : Option String) :
    base.ListsAlike ident patterns reponame ↔ base.KeepsInstalled ident patterns reponame ∧ base.KeepsAvailable ident patterns reponame :=
  and_congr showsAlike_installed_iff (showsAlike_available_iff hdoc)

end

/-- Two repositories of one priority have the same version of `wok`. -/
inductive Wok
  | fedora
  | updates
  deriving DecidableEq

def wokSack : Sack Wok where
  pool := [.fedora, .updates]
  name _ := "wok"
  arch _ := "noarch"
  evr _ := "1-1"
  pkgtup _ := ("wok", "noarch", "0", "1", "1")
  reponame
    | .fedora => "fedora"
    | .updates => "updates"
  obsoletes _ := []
  gt _ _ := false
  evrCmp _ _ := .eq
  bestQuery pattern _ := fun _ => pattern == "wok"
  latestPerArchByPriority := id
  upgradesByPriority _ := fun _ => false
  latest := id
  unneeded _ := fun _ => false
  extras _ := fun _ => false
  obsoletesByPriority _ _ := fun _ => false
  recent _ := id
  provides _ _ := false
  securityFilter _ _ := id

def wokBase (showdupesfromrepos : Bool) : Base Wok := ⟨wokSack, fun _ => "", 7, showdupesfromrepos, [], []⟩

theorem wokSack_documented : wokSack.Documented where
  evrCmp := { eq_swap := rfl, isLE_trans := fun _ _ => rfl }
  gt _ _ _ _ := iff_of_false Bool.false_ne_true nofun
  pkgtup _ _ _ := ⟨rfl, rfl, rfl⟩
  latest _ _ _ := ⟨fun h => ⟨h, fun _ _ _ _ _ => rfl⟩, And.left⟩

/-- With duplicates both woks are listed either way. -/
theorem listsAlike_iff_wok : (wokBase true).ListsAlike id ["wok"] none :=
  (listsAlike_iff wokSack_documented id ["wok"] none).mpr ⟨fun target _ po hpo => by
    obtain ⟨-, hinstalled⟩ := List.mem_filter.mp hpo
    cases po <;> exact absurd hinstalled (by simp [Sack.installed, wokBase, wokSack]), nofun⟩

/-- Without them the terminal shows one more than the pipe. -/
theorem wok_not_listsAlike : ¬(wokBase false).ListsAlike id ["wok"] none := by
  rintro ⟨-, highlighted, plain, ⟨ypl, self', hrun, rfl⟩, ⟨ypl', self'', hrun', rfl⟩, hsame⟩
  have hypl : some ypl = ((wokBase false).returnPkgLists .available ["wok"] true none).map Prod.fst := by
    rw [hrun]
    rfl
  have hypl' : some ypl' = ((wokBase false).returnPkgLists .available ["wok"] false none).map Prod.fst := by
    rw [hrun']
    rfl
  have hhighlighted : (ypl.lists .available).contents wokSack.pool = [.fedora, .updates] := by
    rw [Option.some.inj hypl]
    decide
  have hplain : (ypl'.lists .available).contents wokSack.pool = [.fedora] := by
    rw [Option.some.inj hypl']
    decide
  have hupdates := hsame .updates
  rw [show (wokBase false).sack.pool = wokSack.pool from rfl, hhighlighted, hplain] at hupdates
  exact absurd hupdates (by decide)

end Dnf.Listing
