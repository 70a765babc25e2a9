import Dnf.Transaction.Conservation

/-!
# The counterpart of a new package

A downgrade, a reinstall or an upgrade records what it replaces as one counterpart and as obsoleted packages. An upgrade looks for a replaced package of its own name. A downgrade takes the first one of the list, in whatever order the solver gives it, and a reinstall takes one with the same NEVRA. So whether the counterpart is the namesake is a matter of the order for downgrades, and of the NEVRA texts for reinstalls.
-/

namespace Dnf.Transaction

open History Foundation

/-- The action of the package that is replaced in place. -/
def counterpart : Action → Option Action
  | .downgrade => some .downgraded
  | .reinstall => some .reinstalled
  | .upgrade => some .upgraded
  | _ => none

/-- `old` has the name of `pkg` if a package that `pkg` replaces has it. -/
def Goal.Namesake (goal : Goal) (pkg old : Package) : Prop := (∃ obs ∈ goal.obsoletedByPackage pkg, obs.name = pkg.name) → old.name = pkg.name

/-- The item replaces one counterpart, the namesake if there is one, and otherwise obsoleted packages. -/
def Goal.Paired (goal : Goal) (items : List Item) (n : Nat) (item : Item) : Prop :=
  ∃ pkg old others, item.pkg = some pkg ∧ replacedItems items n = old :: others ∧ counterpart item.action = some old.action ∧
    (∀ other ∈ others, other.action = .obsoleted) ∧ ∃ oldPkg, old.pkg = some oldPkg ∧ old.nevra = oldPkg.nevra ∧ goal.Namesake pkg oldPkg

def Goal.PairsRightly (goal : Goal) (items : List Item) : Prop :=
  ∀ n item, items[n]? = some item → counterpart item.action ≠ none → goal.Paired items n item

/-- The first replaced package of the list is the namesake. -/
def Goal.DowngradesNamesake (goal : Goal) (pkg : Package) : Prop :=
  ∀ first rest, goal.obsoletedByPackage pkg = first :: rest → goal.Namesake pkg first

/-- Of the replaced packages the last one with the same NEVRA text, or without any the first one, is the namesake. -/
def Goal.ReinstallsNamesake (goal : Goal) (pkg : Package) : Prop :=
  ∀ old, (((goal.obsoletedByPackage pkg).filter fun obs => obs.nevra.text = pkg.nevra.text).getLast?.or (goal.obsoletedByPackage pkg).head?) = some old →
    goal.Namesake pkg old

namespace Base

variable {base : Base} {goal : Goal}

/-! ### Which package is picked -/

theorem reinstallObsoletes_head? (goal : Goal) (pkg : Package) :
    (reinstallObsoletes goal pkg).head? =
      ((goal.obsoletedByPackage pkg).filter fun obs => obs.nevra.text = pkg.nevra.text).getLast?.or (goal.obsoletedByPackage pkg).head? := by
  rw [reinstallObsoletes]
  induction goal.obsoletedByPackage pkg using List.reverseRecOn with
  | nil => rfl
  | append_singleton list last ih =>
      rw [List.foldl_append, List.foldl_cons, List.foldl_nil, List.filter_append]
      by_cases hsame : last.nevra.text = pkg.nevra.text
      · rw [if_pos hsame, List.filter_singleton, decide_eq_true hsame, cond_true, List.getLast?_concat]
        rfl
      · rw [if_neg hsame, List.filter_singleton, decide_eq_false hsame, cond_false, List.append_nil, List.head?_append, ih, List.head?_append,
          Option.or_assoc]

/-- An upgrade picks the namesake. -/
theorem pickUpgraded_namesake {pkg upgraded : Package} {rest : List Package}
    (hpick : pickUpgraded pkg (goal.obsoletedByPackage pkg) = some (upgraded, rest)) : goal.Namesake pkg upgraded := by
  rintro ⟨obs, hobs, hname⟩
  unfold pickUpgraded at hpick
  split at hpick
  · rename_i found hfound
    cases hpick
    simpa using List.find?_some hfound
  · rename_i hnone
    exact absurd hname (by simpa using List.find?_eq_none.mp hnone obs hobs)

/-- The counterpart of an entry, by the list the new package is from. -/
theorem Records.counterpart_eq {pkg : Package} {action : Action} {reason : Reason} {replaced : List (Package × Action)}
    (hentry : base.Records goal (.add pkg action reason replaced)) (haction : counterpart action ≠ none) :
    ∃ old oldAction obs, counterpart action = some oldAction ∧ replaced = replacing old oldAction obs ∧
      ((pkg ∈ goal.listDowngrades ∧ (goal.obsoletedByPackage pkg).head? = some old) ∨
        (pkg ∈ goal.listReinstalls ∧ (reinstallObsoletes goal pkg).head? = some old) ∨ goal.Namesake pkg old) := by
  generalize heq : Entry.add pkg action reason replaced = entry at hentry
  cases hentry with
  | downgrade hlist hobs =>
      cases heq
      exact ⟨_, _, _, rfl, rfl, .inl ⟨hlist, by rw [hobs]; rfl⟩⟩
  | reinstall hlist hobs =>
      cases heq
      exact ⟨_, _, _, rfl, rfl, .inr (.inl ⟨hlist, by rw [hobs]; rfl⟩)⟩
  | install hlist =>
      cases heq
      exact absurd rfl haction
  | @upgrade pkg' upgraded obs hlist hobs =>
      rw [upgradeEntry] at heq
      split_ifs at heq
      · cases heq
        exact absurd rfl haction
      · cases heq
        exact ⟨_, _, _, rfl, rfl, .inr (.inr (pickUpgraded_namesake hobs))⟩
  | erase _ hmem =>
      rw [eraseEntries, List.mem_append, List.mem_map, List.mem_singleton, ← heq] at hmem
      obtain ⟨remaining, _, hmem⟩ | hmem := hmem
      · cases hmem
      · cases hmem

/-! ### What is recorded -/

theorem paired_iff {swdb : Swdb} {items : List Item} {n : Nat} {item : Item} {pkg old : Package} {oldAction : Action} {obs : List Package}
    (hpkg : item.pkg = some pkg) (haction : counterpart item.action = some oldAction)
    (hreplaced : replacedItems items n = (replacing old oldAction obs).map (replacedItem swdb n)) :
    goal.Paired items n item ↔ goal.Namesake pkg old := by
  rw [replacing, List.map_cons] at hreplaced
  constructor
  · rintro ⟨pkg', oldItem, others, hpkg', hitems, _, _, oldPkg, holdPkg, _, hnamesake⟩
    rw [hpkg, Option.some.injEq] at hpkg'
    rw [hreplaced, List.cons.injEq] at hitems
    rw [← hitems.1, replacedItem, Option.some.injEq] at holdPkg
    have holdPkg : old = oldPkg := holdPkg
    rwa [hpkg', holdPkg]
  · intro hnamesake
    refine ⟨pkg, _, _, hpkg, hreplaced, haction, fun other hother => ?_, old, rfl, rfl, hnamesake⟩
    rw [List.map_map, List.mem_map] at hother
    obtain ⟨obs, _, rfl⟩ := hother
    rfl

/-- Steps that do not raise are their entries. -/
theorem exists_lists_of_raised {steps : List Step} (h : raised steps = none) :
    ∃ lists : List (List Entry), lists.map .ok = steps ∧ recorded steps = lists.flatten := by
  induction steps with
  | nil => exact ⟨[], rfl, rfl⟩
  | cons step rest ih =>
      cases step with
      | error e => cases h
      | ok entries =>
          obtain ⟨lists, hlists, hrecorded⟩ := ih h
          exact ⟨entries :: lists, by rw [List.map_cons, hlists], by rw [recorded, hrecorded, List.flatten_cons]⟩

/-- A transaction that was built has the entries of the goal. -/
theorem exists_entries_of_built {before items : List Item} (hrun : base.goal2transaction goal before = .ok () items) :
    ∃ entries, items = record base.swdb before entries ∧ ∀ entry, entry ∈ entries ↔ base.Records goal entry := by
  rw [goal2transaction_eq, runSteps_eq] at hrun
  cases hraised : raised (base.steps goal) with
  | some e =>
      rw [hraised] at hrun
      cases hrun
  | none =>
      rw [hraised] at hrun
      obtain ⟨lists, hlists, hrecorded⟩ := exists_lists_of_raised hraised
      cases hrun
      exact ⟨lists.flatten, by rw [hrecorded], mem_flatten_iff_records hlists⟩

/-- The counterparts are right exactly if those of the downgrades and the reinstalls are. -/
theorem goal2transaction_pairsRightly_iff (base : Base) (goal : Goal) (before items : List Item)
    (hbefore : ∀ item ∈ before, item.action = .reasonChange) (hrun : base.goal2transaction goal before = .ok () items) :
    goal.PairsRightly items ↔
      (∀ pkg ∈ goal.listDowngrades, goal.DowngradesNamesake pkg) ∧ ∀ pkg ∈ goal.listReinstalls, goal.ReinstallsNamesake pkg := by
  obtain ⟨entries, rfl, hentries⟩ := exists_entries_of_built hrun
  have hproper : ∀ entry ∈ entries, entry.Proper := fun entry hentry => ((hentries entry).mp hentry).proper
  constructor
  · intro hpairs
    have hpaired : ∀ {pkg old : Package} {action oldAction : Action} {obs : List Package} {reason : Reason},
        base.Records goal (.add pkg action reason (replacing old oldAction obs)) → counterpart action = some oldAction → goal.Namesake pkg old := by
      intro pkg old action oldAction obs reason hentry haction
      obtain ⟨n, hitem, hreplaced⟩ := exists_item_of_add base.swdb hbefore hproper ((hentries _).mpr hentry)
      exact (paired_iff rfl haction hreplaced).mp (hpairs n _ hitem (by rw [haction]; exact Option.some_ne_none _))
    refine ⟨fun pkg hpkg first rest hobs => hpaired (.downgrade hpkg hobs) rfl, fun pkg hpkg old hold => ?_⟩
    rw [← reinstallObsoletes_head?, List.head?_eq_some_iff] at hold
    obtain ⟨rest, hobs⟩ := hold
    exact hpaired (.reinstall hpkg hobs) rfl
  · rintro ⟨hdowngrades, hreinstalls⟩ n item hitem haction
    have hforward : isForward item.action = true := by
      cases hcases : item.action with
      | _ => first | rfl | exact absurd (by rw [hcases]; rfl) haction
    obtain ⟨pkg, replaced, hmem, hpkg, hreplaced⟩ := exists_add_of_item hbefore hproper hitem hforward
    obtain ⟨old, oldAction, obs, holdAction, rfl, hold⟩ := ((hentries _).mp hmem).counterpart_eq haction
    refine (paired_iff hpkg holdAction hreplaced).mpr ?_
    obtain ⟨hlist, hhead⟩ | ⟨hlist, hhead⟩ | hnamesake := hold
    · obtain ⟨rest, hobs⟩ := List.head?_eq_some_iff.mp hhead
      exact hdowngrades pkg hlist old rest hobs
    · rw [reinstallObsoletes_head?] at hhead
      exact hreinstalls pkg hlist old hhead
    · exact hnamesake

def millNewer : Package := ⟨4, ⟨"mill", 0, "2", "1", "x86_64"⟩, "@System", none⟩

/-- The mill is downgraded to a version that obsoletes pepper. -/
def millGoal (replaced : List Package) : Goal where
  listDowngrades := [mill]
  listReinstalls := []
  listInstalls := []
  listUpgrades := []
  listErasures := []
  listObsoleted := [pepper]
  obsoletedByPackage pkg := if pkg = mill then replaced else []
  getReason _ := .user

def downgradeItems (first second : Package) : List Item :=
  record spiceBase.swdb [] [.add mill .downgrade (spiceBase.swdb.getReason mill) (replacing first .downgraded [second])]

theorem goal2transaction_pairsRightly_iff_mill :
    (millGoal [millNewer, pepper]).PairsRightly (downgradeItems millNewer pepper) ↔
      (∀ pkg ∈ [mill], (millGoal [millNewer, pepper]).DowngradesNamesake pkg) ∧
        ∀ pkg ∈ ([] : List Package), (millGoal [millNewer, pepper]).ReinstallsNamesake pkg :=
  goal2transaction_pairsRightly_iff spiceBase (millGoal [millNewer, pepper]) [] _ (fun item hitem => by cases hitem) rfl

/-- With pepper first in the list, pepper is recorded as what was downgraded. -/
theorem goal2transaction_not_pairsRightly :
    spiceBase.goal2transaction (millGoal [pepper, millNewer]) [] = .ok () (downgradeItems pepper millNewer) ∧
      ¬(millGoal [pepper, millNewer]).PairsRightly (downgradeItems pepper millNewer) := by
  refine ⟨rfl, fun hpairs => ?_⟩
  have hpaired := hpairs 0 ⟨mill.nevra, "main", .downgrade, spiceBase.swdb.getReason mill, .unknown, some mill, none⟩ rfl (by decide)
  have hreplaced : replacedItems (downgradeItems pepper millNewer) 0 =
      (replacing pepper .downgraded [millNewer]).map (replacedItem spiceBase.swdb 0) := rfl
  have hnamesake : (millGoal [pepper, millNewer]).Namesake mill pepper := (paired_iff rfl rfl hreplaced).mp hpaired
  exact absurd (hnamesake ⟨millNewer, by decide, rfl⟩) (by decide)

end Base

end Dnf.Transaction
