import Dnf.Cli.TransactionTable
import Dnf.Foundation.Fallible
import Dnf.Listing.Dicts
import Dnf.Transaction.Record

/-!
# What the user confirms

Before it has run, the items of a transaction fall into the lists of the table by their actions alone: a reason only chooses the section. Each section is a rearrangement of its list, so the sections of a kind together show the items of the kind, each of them once.
-/

namespace Dnf.Cli.TransactionTable

open Foundation
open History (Action Reason isForward)
open Transaction (Package)

/-- What a table shows under the headings of a kind. -/
def rowsOf (kind : Kind) (sections : List Section) : List Row := (sections.filter fun shown => shown.1.kind = some kind).flatMap Prod.snd

def sectionsOf (shown : Option Shown) : List Section := (shown.map Shown.sections).getD []

/-- A count of the summary; one that is 0 is not printed. -/
def countOf (kind : Kind) (shown : Option Shown) : Nat := ((shown.bind fun shown => shown.summary.lookup kind)).getD 0

/-- The items are those of `RPMTransaction`, and none of them has run. -/
structure Resolved (transaction : List TransactionItem) : Prop where
  attached : ∀ tsi ∈ transaction, tsi.action ≠ .reasonChange → tsi.pkg ≠ none
  notRun : ∀ tsi ∈ transaction, tsi.state = if tsi.action = .reasonChange then .done else .unknown

variable (out : Output)

/-- The line of an item, with what it replaces. -/
structure LineOf (transaction : List TransactionItem) (tsi : TransactionItem) (row : Row) : Prop where
  pkg : ∃ pkg, tsi.pkg = some pkg ∧ row = out.addLine pkg row.obsoletes
  nodup : row.obsoletes.Nodup
  replaced : ∀ obs, obs ∈ row.obsoletes ↔ obs ∈ transaction ∧ obs.action = .obsoleted ∧ tsi.item ∈ obs.replacedBy

/-- The table of a transaction. -/
structure ListsRightly (transaction : List TransactionItem) (shown : Option Shown) : Prop where
  /-- Each item once, with what it replaces. -/
  changed : ∀ kind ≠ .skip, ∃ listed : List (TransactionItem × Row),
    (listed.map Prod.fst).Perm (transaction.filter fun tsi => Kind.ofAction tsi.action = some kind) ∧
      listed.map Prod.snd = rowsOf kind (sectionsOf shown) ∧ ∀ entry ∈ listed, LineOf out transaction entry.1 entry.2
  /-- What is skipped is not of the transaction. -/
  skipped : ∀ row ∈ rowsOf .skip (sectionsOf shown), ∃ pkg ∈ out.problemConflicts ++ out.problemBrokenDependency,
    row = out.skippedRow pkg ∧ ∀ tsi ∈ transaction, tsi.nevra ≠ pkg.nevra
  /-- The other sections are those of modules and groups. -/
  others : ∀ other ∈ sectionsOf shown, other.1.kind = none → other ∈ out.moduleSections ++ out.groupSections
  counted : ∀ kind ≠ .reinstall, countOf kind shown = (rowsOf kind (sectionsOf shown)).length

/-! ### Lists -/

theorem kind_slot {tsi : TransactionItem} (hstate : tsi.state ≠ .error) : (slot tsi).bind Slot.kind = Kind.ofAction tsi.action := by
  rw [slot, if_neg hstate]
  cases tsi.action <;> cases tsi.reason <;> rfl

theorem mem_tables {slot : Slot} {kind : Kind} (h : slot.kind = some kind) : slot ∈ Output.tables := by
  cases slot <;> first | decide | cases h

theorem exists_kind {slot : Slot} (h : slot ∈ Output.tables) : ∃ kind, slot.kind = some kind := by
  cases slot with
  | failed => exact absurd h (by decide)
  | _ => exact ⟨_, rfl⟩

/-- The lists of a kind. -/
def slotsOf (kind : Kind) : List Slot := Output.tables.filter fun slot => slot.kind = some kind

theorem any_mem_slotsOf (key : Option Slot) (kind : Kind) : key.any (· ∈ slotsOf kind) = decide (key.bind Slot.kind = some kind) := by
  cases key with
  | none => rfl
  | some slot =>
      rw [Option.any_some, Option.bind_some, decide_eq_decide, slotsOf, List.mem_filter]
      exact ⟨fun h => of_decide_eq_true h.2, fun h => ⟨mem_tables h, decide_eq_true h⟩⟩

theorem nodup_slotsOf (kind : Kind) : (slotsOf kind).Nodup := List.Nodup.filter _ (by decide)

theorem Resolved.state_ne_error {transaction : List TransactionItem} (hresolved : Resolved transaction) {tsi : TransactionItem}
    (htsi : tsi ∈ transaction) : tsi.state ≠ .error := by
  rw [hresolved.notRun tsi htsi]
  split_ifs <;> decide

/-- The lists of a kind hold the items of the kind. -/
theorem makeLists_perm {transaction : List TransactionItem} (hresolved : Resolved transaction) (kind : Kind) :
    ((slotsOf kind).flatMap (makeLists transaction)).Perm (transaction.filter fun tsi => Kind.ofAction tsi.action = some kind) := by
  have hperm := Buckets.flatMap_fill_perm slot (nodup_slotsOf kind) transaction
  rwa [List.filter_congr fun tsi htsi => by
    rw [any_mem_slotsOf, kind_slot (hresolved.state_ne_error htsi)]] at hperm

/-! ### Sections -/

theorem mem_replaces (transaction : List TransactionItem) (obs : TransactionItem) (item : Nat) :
    obs ∈ Output.replaces transaction item ↔ obs ∈ transaction ∧ obs.action = .obsoleted ∧ item ∈ obs.replacedBy := by
  rw [Output.replaces, Buckets.mem_invert]
  by_cases haction : obs.action = .obsoleted
  · rw [if_neg (not_not.mpr haction)]
    exact and_congr_right fun _ => (and_iff_right haction).symm
  · rw [if_pos haction]
    exact and_congr_right fun _ => ⟨fun h => absurd h List.not_mem_nil, fun h => absurd h.1 haction⟩

/-- The lines of a list, each with its item. -/
structure SectionOf (transaction : List TransactionItem) (slot : Slot) (listed : List (TransactionItem × Row)) : Prop where
  run : out.packageSection transaction slot = .ok (.packages slot, listed.map Prod.snd)
  perm : (listed.map Prod.fst).Perm (makeLists transaction slot)
  lines : ∀ entry ∈ listed, LineOf out transaction entry.1 entry.2

theorem mem_makeLists {transaction : List TransactionItem} {tsi : TransactionItem} {s : Slot} :
    tsi ∈ makeLists transaction s ↔ tsi ∈ transaction ∧ slot tsi = some s := by
  rw [makeLists, Buckets.fill_apply, List.mem_filter, decide_eq_true_eq]

theorem changes_of_ofAction {action : Action} {kind : Kind} (h : Kind.ofAction action = some kind) :
    action ≠ .reasonChange ∧ (isForward action || action = .remove) = true := by
  cases action <;> first | exact ⟨by decide, by decide⟩ | cases h

theorem ofAction_of_mem {transaction : List TransactionItem} {s : Slot} {kind : Kind} (hkind : s.kind = some kind) {tsi : TransactionItem}
    (htsi : tsi ∈ makeLists transaction s) : Kind.ofAction tsi.action = some kind := by
  have hslot := (mem_makeLists.mp htsi).2
  have hstate : tsi.state ≠ .error := fun herror => by
    rw [slot, if_pos herror] at hslot
    cases hslot
    cases hkind
  rw [← kind_slot hstate, hslot]
  exact hkind

theorem Output.pkg_eq_ok {tsi : TransactionItem} {entry : TransactionItem × Package} (h : Output.pkg tsi = .ok entry) :
    entry.1 = tsi ∧ tsi.pkg = some entry.2 := by
  rw [Output.pkg] at h
  split at h <;> cases h
  exact ⟨rfl, ‹_›⟩

/-- Items that have packages are listed with them. -/
theorem exists_pkglist {items : List TransactionItem} (hattached : ∀ tsi ∈ items, tsi.pkg ≠ none) :
    ∃ pkglist, items.mapM Output.pkg = .ok pkglist ∧ items = pkglist.map Prod.fst ∧ ∀ entry ∈ pkglist, entry.1.pkg = some entry.2 := by
  have hask : ∀ tsi ∈ items, ∃ entry, Output.pkg tsi = .ok entry := fun tsi htsi => by
    obtain ⟨pkg, hpkg⟩ := Option.ne_none_iff_exists'.mp (hattached tsi htsi)
    exact ⟨(tsi, pkg), by rw [Output.pkg, hpkg]⟩
  obtain ⟨pkglist, hpkglist, hall⟩ := Fallible.exists_mapM_ok hask
  have hfst : items = pkglist.map Prod.fst := by
    rw [← List.forall₂_eq_eq_eq, List.forall₂_map_right_iff]
    exact hall.imp fun tsi entry h => (Output.pkg_eq_ok h).1.symm
  refine ⟨pkglist, hpkglist, hfst, fun entry hentry => ?_⟩
  rw [hfst, List.forall₂_map_left_iff, List.forall₂_same] at hall
  exact (Output.pkg_eq_ok (hall entry hentry)).2

theorem exists_sectionOf {transaction : List TransactionItem} (hattached : ∀ tsi ∈ transaction, tsi.action ≠ .reasonChange → tsi.pkg ≠ none)
    {s : Slot} {kind : Kind} (hkind : s.kind = some kind) : ∃ listed, SectionOf out transaction s listed := by
  obtain ⟨pkglist, hpkglist, hfst, hpkg⟩ := exists_pkglist fun tsi (htsi : tsi ∈ makeLists transaction s) =>
    hattached tsi (mem_makeLists.mp htsi).1 (changes_of_ofAction (ofAction_of_mem hkind htsi)).1
  let sorted := pkglist.mergeSort fun a b => out.le a.2 b.2
  let row (entry : TransactionItem × Package) : Row :=
    out.addLine entry.2 ((Output.replaces transaction entry.1.item).mergeSort fun a b => out.itemLe a.item b.item)
  have hperm : sorted.Perm pkglist := List.mergeSort_perm _ _
  have hlines : sorted.filterMap (out.line transaction) = sorted.map row := by
    rw [← List.filterMap_eq_map]
    refine List.filterMap_congr fun entry hentry => ?_
    have hmem : entry.1 ∈ makeLists transaction s := hfst ▸ List.mem_map_of_mem (hperm.mem_iff.mp hentry)
    rw [Output.line, if_pos (changes_of_ofAction (ofAction_of_mem hkind hmem)).2]
    rfl
  refine ⟨sorted.map fun entry => (entry.1, row entry), ?_, ?_, ?_⟩
  · rw [Output.packageSection, hpkglist, List.map_map]
    exact congrArg (fun lines => Except.ok (Heading.packages s, lines)) hlines
  · rw [List.map_map, hfst]
    exact hperm.map Prod.fst
  · intro listed hlisted
    obtain ⟨entry, hentry, rfl⟩ := List.mem_map.mp hlisted
    have hsame : ((Output.replaces transaction entry.1.item).mergeSort fun a b => out.itemLe a.item b.item).Perm
        (Output.replaces transaction entry.1.item) := List.mergeSort_perm _ _
    exact {
      pkg := ⟨entry.2, hpkg entry (hperm.mem_iff.mp hentry), rfl⟩
      nodup := hsame.nodup_iff.mpr (Buckets.nodup_invert _ _ _)
      replaced := fun obs => hsame.mem_iff.trans (mem_replaces transaction obs entry.1.item) }

/-! ### The rows of a kind -/

theorem rowsOf_append (kind : Kind) (sections sections' : List Section) :
    rowsOf kind (sections ++ sections') = rowsOf kind sections ++ rowsOf kind sections' := by
  rw [rowsOf, List.filter_append, List.flatMap_append]
  rfl

theorem rowsOf_eq_nil {kind : Kind} {sections : List Section} (h : ∀ shown ∈ sections, shown.1.kind = some kind → shown.2 = []) :
    rowsOf kind sections = [] := by
  rw [rowsOf, List.flatMap_eq_nil_iff]
  intro shown hshown
  obtain ⟨hmem, hkind⟩ := List.mem_filter.mp hshown
  exact h shown hmem (of_decide_eq_true hkind)

/-- A section without lines adds none. -/
theorem rowsOf_nonempty (kind : Kind) (sections : List Section) :
    rowsOf kind (sections.filter fun shown => !shown.2.isEmpty) = rowsOf kind sections := by
  induction sections with
  | nil => rfl
  | cons shown sections ih =>
      have hcons : rowsOf kind (shown :: sections) = rowsOf kind [shown] ++ rowsOf kind sections := rowsOf_append kind [shown] sections
      rw [hcons, ← ih, List.filter_cons]
      by_cases hrows : shown.2 = []
      · rw [if_neg (by simp [hrows]), @rowsOf_eq_nil kind [shown] fun other hother _ => by rwa [List.mem_singleton.mp hother]]
        rfl
      · rw [if_pos (by simp [hrows])]
        exact rowsOf_append kind [shown] _

theorem rowsOf_packages (kind : Kind) (rows : Slot → List Row) :
    rowsOf kind (Output.tables.map fun slot => (Heading.packages slot, rows slot)) = (slotsOf kind).flatMap rows := by
  rw [rowsOf, List.filter_map, List.flatMap_map]
  rfl

theorem kind_of_mem_others {other : Section} (h : other ∈ out.moduleSections ++ out.groupSections) : other.1.kind = none := by
  rw [List.mem_append] at h
  rcases h with h | h
  · simp only [Output.moduleSections, List.mem_cons, List.not_mem_nil, or_false] at h
    rcases h with rfl | rfl | rfl | rfl | rfl | rfl <;> rfl
  · rw [Output.groupSections] at h
    split at h
    · cases h
    · simp only [List.mem_flatMap, List.mem_map] at h
      obtain ⟨-, -, -, -, rfl⟩ := h
      rfl

theorem kind_of_mem_skipped {transaction : List TransactionItem} {skipped : Section} (h : skipped ∈ out.skippedSections transaction) :
    skipped.1.kind = some .skip := by
  rw [Output.skippedSections] at h
  split_ifs at h
  · simp only [List.mem_cons, List.not_mem_nil, or_false] at h
    rcases h with rfl | rfl <;> rfl
  · cases h

/-! ### Skipped packages -/

theorem mem_brokenByName {transaction : List TransactionItem} {entry : String × Package} (h : entry ∈ out.brokenByName transaction) :
    entry.2 ∈ (out.skippedPackages transaction).2 := by
  rw [Output.brokenByName] at h
  generalize (out.skippedPackages transaction).2 = broken at h ⊢
  induction broken using List.reverseRecOn with
  | nil => cases h
  | append_singleton broken pkg ih =>
      rw [List.foldl_append, List.foldl_cons, List.foldl_nil] at h
      rcases Listing.mem_assign h with hd | rfl
      · exact List.mem_append_left _ (ih hd)
      · exact List.mem_append_right _ (List.mem_singleton_self _)

/-- A skipped package is a problem of the goal, and no item of the transaction. -/
theorem mem_skippedPackages {transaction : List TransactionItem} {pkg : Package}
    (h : pkg ∈ (out.skippedPackages transaction).1 ∨ pkg ∈ (out.skippedPackages transaction).2) :
    pkg ∈ out.problemConflicts ++ out.problemBrokenDependency ∧ ∀ tsi ∈ transaction, tsi.nevra ≠ pkg.nevra := by
  have habsent : pkg.nevra ∉ transaction.map TransactionItem.nevra → ∀ tsi ∈ transaction, tsi.nevra ≠ pkg.nevra :=
    fun hnevra tsi htsi heq => hnevra (heq ▸ List.mem_map_of_mem htsi)
  simp only [Output.skippedPackages, List.mem_filter, List.mem_dedup, decide_eq_true_eq] at h
  rcases h with ⟨hpkg, hnevra⟩ | ⟨⟨hpkg, -⟩, hnevra⟩
  · exact ⟨List.mem_append_left _ hpkg, habsent hnevra⟩
  · exact ⟨List.mem_append_right _ hpkg, habsent hnevra⟩

theorem rowsOf_skippedSections (transaction : List TransactionItem) : rowsOf .skip (out.skippedSections transaction) =
    (out.skippedSections transaction).flatMap Prod.snd := by
  rw [rowsOf, List.filter_eq_self.mpr fun skipped hskipped => decide_eq_true (kind_of_mem_skipped out hskipped)]

theorem exists_skippedRow {transaction : List TransactionItem} {row : Row} (h : row ∈ rowsOf .skip (out.skippedSections transaction)) :
    ∃ pkg, (pkg ∈ (out.skippedPackages transaction).1 ∨ pkg ∈ (out.skippedPackages transaction).2) ∧ row = out.skippedRow pkg := by
  rw [rowsOf_skippedSections, Output.skippedSections] at h
  split_ifs at h
  · simp only [List.flatMap_cons, List.flatMap_nil, List.append_nil, List.mem_append, List.mem_map, List.mem_mergeSort] at h
    rcases h with ⟨pkg, hpkg, rfl⟩ | ⟨entry, hentry, rfl⟩
    · exact ⟨pkg, .inl hpkg, rfl⟩
    · exact ⟨entry.2, .inr (mem_brokenByName out hentry), rfl⟩
  · cases h

theorem length_skipped (transaction : List TransactionItem) :
    (rowsOf .skip (out.skippedSections transaction)).length = out.skipCount transaction := by
  rw [rowsOf_skippedSections, Output.skippedSections, Output.skipCount]
  split_ifs
  · simp [List.length_mergeSort]
  · rfl

/-! ### The summary -/

/-- A count that is not printed is read as 0. -/
theorem lookup_nonzero {κ : Type} [BEq κ] [LawfulBEq κ] {counts : List (κ × Nat)} (hkeys : (counts.map Prod.fst).Nodup) (k : κ) :
    ((counts.filter fun entry => entry.2 ≠ 0).lookup k).getD 0 = (counts.lookup k).getD 0 := by
  induction counts with
  | nil => rfl
  | cons entry counts ih =>
      have hrest := ih (List.nodup_cons.mp hkeys).2
      rw [List.filter_cons]
      by_cases hzero : entry.2 = 0
      · rw [if_neg (by simp [hzero]), hrest, List.lookup_cons]
        by_cases hk : k = entry.1
        · subst hk
          have habsent : counts.lookup entry.1 = none := List.lookup_eq_none_iff.mpr fun other hother => by
            have hne : entry.1 ≠ other.1 := fun heq => (List.nodup_cons.mp hkeys).1 (heq ▸ List.mem_map_of_mem hother)
            simpa using hne
          simp [habsent, hzero]
        · rw [beq_eq_false_iff_ne.mpr hk]
      · rw [if_pos (by simp [hzero]), List.lookup_cons, List.lookup_cons]
        split
        · rfl
        · exact hrest

/-- The lines under the headings of a kind, by its lists. -/
def kindRows (transaction : List TransactionItem) (rows : Slot → List Row) (kind : Kind) : List Row :=
  (slotsOf kind).flatMap rows ++ rowsOf kind (out.skippedSections transaction)

theorem kindRows_of_ne_skip (transaction : List TransactionItem) (rows : Slot → List Row) {kind : Kind} (hkind : kind ≠ .skip) :
    kindRows out transaction rows kind = (slotsOf kind).flatMap rows := by
  rw [kindRows, @rowsOf_eq_nil _ (out.skippedSections transaction), List.append_nil]
  intro skipped hskipped hskip
  rw [kind_of_mem_skipped out hskipped] at hskip
  exact absurd (Option.some.inj hskip).symm hkind

theorem kindRows_skip (transaction : List TransactionItem) (rows : Slot → List Row) :
    kindRows out transaction rows .skip = rowsOf .skip (out.skippedSections transaction) := rfl

/-- The counts are the lengths of the lists, and so the numbers of their lines. -/
theorem lookup_summaryData {transaction : List TransactionItem} {rows : Slot → List Row}
    (hrows : ∀ slot ∈ Output.tables, (rows slot).length = (makeLists transaction slot).length) {kind : Kind} (hkind : kind ≠ .reinstall) :
    ((out.summaryData transaction).lookup kind).getD 0 = (kindRows out transaction rows kind).length := by
  have hlength (kind : Kind) : ((slotsOf kind).flatMap rows).length = ((slotsOf kind).map fun slot => (makeLists transaction slot).length).sum := by
    rw [List.length_flatMap]
    refine congrArg List.sum (List.map_congr_left fun slot hslot => hrows slot (List.mem_of_mem_filter hslot))
  cases kind with
  | reinstall => exact absurd rfl hkind
  | skip =>
      rw [kindRows_skip, length_skipped]
      rfl
  | install =>
      rw [kindRows_of_ne_skip out transaction rows (by decide), hlength]
      show (makeLists transaction .installed).length + (makeLists transaction .installedGroup).length + (makeLists transaction .installedWeak).length +
        (makeLists transaction .installedDep).length = [(makeLists transaction .installed).length, (makeLists transaction .installedGroup).length,
          (makeLists transaction .installedDep).length, (makeLists transaction .installedWeak).length].sum
      simp only [List.sum_cons, List.sum_nil]
      omega
  | upgrade =>
      rw [kindRows_of_ne_skip out transaction rows (by decide), hlength]
      rfl
  | remove =>
      rw [kindRows_of_ne_skip out transaction rows (by decide), hlength]
      show (makeLists transaction .erased).length + (makeLists transaction .erasedDep).length + (makeLists transaction .erasedClean).length =
        [(makeLists transaction .erased).length, (makeLists transaction .erasedDep).length, (makeLists transaction .erasedClean).length].sum
      simp only [List.sum_cons, List.sum_nil]
      omega
  | downgrade =>
      rw [kindRows_of_ne_skip out transaction rows (by decide), hlength]
      rfl

/-! ### The whole table -/

/-- What is shown, for the lines of each list: the table where there is one, and nothing where no section of packages has a line. -/
theorem listTransaction_shown {transaction : List TransactionItem} {rows : Slot → List Row}
    (hrows : ∀ slot ∈ Output.tables, out.packageSection transaction slot = .ok (.packages slot, rows slot)) :
    ∃ shown, out.listTransaction (some transaction) = .ok shown ∧
      (∀ kind, rowsOf kind (sectionsOf shown) = kindRows out transaction rows kind) ∧
      (∀ other ∈ sectionsOf shown, other.1.kind = none → other ∈ out.moduleSections ++ out.groupSections) ∧
      (shown = none ∨ ∃ sections, shown = some ⟨sections, (out.summaryData transaction).filter fun entry => entry.2 ≠ 0⟩) := by
  let packages := Output.tables.map fun slot => (Heading.packages slot, rows slot)
  let skipped := out.skippedSections transaction
  have hpackages : Output.tables.mapM (out.packageSection transaction) = .ok packages := Fallible.mapM_ok hrows
  have hkinds (kind : Kind) : rowsOf kind (packages ++ out.moduleSections ++ out.groupSections ++ skipped) = kindRows out transaction rows kind := by
    have hothers : rowsOf kind (out.moduleSections ++ out.groupSections) = [] := rowsOf_eq_nil fun other hother hkind => by
      rw [kind_of_mem_others out hother] at hkind
      cases hkind
    rw [List.append_assoc packages, rowsOf_append, rowsOf_append, hothers, List.append_nil, rowsOf_packages]
    rfl
  by_cases hempty : (Output.noRows (packages ++ skipped) && !out.moduleChanged && !out.groupsPending) = true
  · refine ⟨none, ?_, ?_, ?_, .inl rfl⟩
    · rw [Output.listTransaction, Option.getD_some, hpackages]
      exact if_pos hempty
    · intro kind
      have hnone : rowsOf kind (packages ++ skipped) = [] := rowsOf_eq_nil fun shown hshown _ => by
        rw [Bool.and_eq_true, Bool.and_eq_true] at hempty
        exact List.isEmpty_iff.mp (List.all_eq_true.mp hempty.1.1 shown hshown)
      rw [rowsOf_append, rowsOf_packages] at hnone
      exact hnone.symm
    · intro other hother
      cases hother
  · refine ⟨some ⟨(packages ++ out.moduleSections ++ out.groupSections ++ skipped).filter fun shown => !shown.2.isEmpty, _⟩, ?_, ?_, ?_,
      .inr ⟨_, rfl⟩⟩
    · rw [Output.listTransaction, Option.getD_some, hpackages]
      exact if_neg hempty
    · intro kind
      exact (rowsOf_nonempty kind _).trans (hkinds kind)
    · intro other hother hkind
      have hmem := List.mem_of_mem_filter hother
      rw [List.append_assoc packages, List.mem_append, List.mem_append] at hmem
      rcases hmem with (hpackage | hother) | hskipped
      · obtain ⟨slot, hslot, rfl⟩ := List.mem_map.mp hpackage
        obtain ⟨kind, hsome⟩ := exists_kind hslot
        exact absurd (hsome.symm.trans hkind) (by simp)
      · exact hother
      · rw [kind_of_mem_skipped out hskipped] at hkind
        cases hkind

/-- The mill, which comes for pepper, the upgrade of the kernel, and a change of a reason. -/
def spiceItems : List TransactionItem :=
  [⟨0, Transaction.Base.kernelNew.nevra, .upgrade, .dependency, .unknown, some Transaction.Base.kernelNew, []⟩,
    ⟨1, Transaction.Base.kernel.nevra, .upgraded, .dependency, .unknown, some Transaction.Base.kernel, [0]⟩,
    ⟨2, Transaction.Base.mill.nevra, .install, .dependency, .unknown, some Transaction.Base.mill, []⟩,
    ⟨3, Transaction.Base.pepper.nevra, .obsoleted, .user, .unknown, some Transaction.Base.pepper, [2]⟩,
    ⟨4, Transaction.Base.kernel.nevra, .reasonChange, .user, .done, none, []⟩]

/-- A goal that may skip packages, and that reports a conflict over pepper. -/
def spiceOutput : Output where
  best := false
  strict := true
  colorUpdateInstalled := "red"
  colorUpdateLocal := "green"
  colorUpdateRemote := "bold"
  formatNumber n := toString n
  arch pkg := some pkg.nevra.arch
  evr pkg := pkg.nevra.version ++ "-" ++ pkg.nevra.release
  fromRepo pkg := pkg.reponame
  size _ := 0
  str pkg := pkg.nevra.text
  le a b := a.id ≤ b.id
  itemLe a b := a ≤ b
  forwardGoal := true
  problemConflicts := [Transaction.Base.pepper]
  problemBrokenDependency := []
  installedProfiles := []
  removedProfiles := []
  enabledStreams := []
  switchedStreams := []
  disabledModules := []
  resetModules := []
  moduleChanged := false
  history := none

/-- The items of `RPMTransaction`, told apart by their positions. -/
def ofItems (items : List Transaction.Item) : List TransactionItem :=
  items.zipIdx.map fun entry =>
    ⟨entry.2, entry.1.nevra, entry.1.action, entry.1.reason, entry.1.state, entry.1.pkg, entry.1.replacedBy.toList⟩

def Attached (items : List Transaction.Item) : Prop := ∀ item ∈ items, item.action ≠ .reasonChange → item.pkg ≠ none

theorem exists_of_mem_ofItems {items : List Transaction.Item} {tsi : TransactionItem} (h : tsi ∈ ofItems items) :
    ∃ item ∈ items, tsi.action = item.action ∧ tsi.state = item.state ∧ tsi.pkg = item.pkg := by
  obtain ⟨⟨item, n⟩, hentry, rfl⟩ := List.mem_map.mp h
  exact ⟨item, List.fst_mem_of_mem_zipIdx hentry, rfl, rfl, rfl⟩

theorem resolved_ofItems {items : List Transaction.Item} (hfresh : Transaction.Fresh items) (hattached : Attached items) :
    Resolved (ofItems items) := by
  constructor
  · intro tsi htsi hreason
    obtain ⟨item, hitem, haction, -, hpkg⟩ := exists_of_mem_ofItems htsi
    rw [hpkg]
    exact hattached item hitem (haction ▸ hreason)
  · intro tsi htsi
    obtain ⟨item, hitem, haction, hstate, -⟩ := exists_of_mem_ofItems htsi
    rw [hstate, haction]
    exact hfresh item hitem

theorem runSteps_attached (swdb : Transaction.Swdb) (steps : List Transaction.Step) {before : List Transaction.Item}
    (hbefore : Attached before) : Attached (Effect.final (Transaction.runSteps swdb steps before)) := by
  induction steps generalizing before with
  | nil => exact hbefore
  | cons step rest ih =>
      cases step with
      | error e => exact hbefore
      | ok entries => exact ih (Transaction.forall_mem_record hbefore fun entry _ n item hitem => entry.attached n item hitem)

/-- Whatever the goal, its items can be confirmed. -/
theorem goal2transaction_resolved (base : Transaction.Base) (goal : Transaction.Goal) {before : List Transaction.Item}
    (hbuilt : Transaction.Built before) (hattached : Attached before) :
    Resolved (ofItems (Effect.final (base.goal2transaction goal before))) := by
  refine resolved_ofItems (base.goal2transaction_built goal hbuilt).fresh ?_
  rw [Transaction.Base.goal2transaction_eq]
  exact runSteps_attached base.swdb _ hattached

end Dnf.Cli.TransactionTable
