import Dnf.Transaction.Goal

/-!
# Conservation

A transaction installs what its goal lists and removes what the new packages replace. Both are read off the entries: an entry has a package that comes and packages that go, and the items of a goal are the items of its entries. So the sets of the transaction are unions over the entries, and it is enough to know which entries a goal records.

A new package leaves out an obsoleted package that another one upgrades or downgrades. Then the other one has the name of the obsoleted package, and where it replaces it nothing is filtered out. The exception is the package an installonly upgrade picks: it has no item at all and stays installed.
-/

namespace Dnf.Transaction

open History Foundation

section Record

variable {swdb : Swdb} {before : List Item} {entries : List Entry}

def Entry.comes : Entry → List Package
  | .add pkg _ _ _ => [pkg]
  | _ => []

def Entry.goes : Entry → List Package
  | .add _ _ _ replaced => replaced.map Prod.fst
  | .remove pkg _ => [pkg]
  | .change _ _ => []

/-- The packages a new package obsoletes. -/
def Entry.obsoleted : Entry → List Package
  | .add _ _ _ replaced => replaced.filterMap fun entry => if entry.2 = .obsoleted then some entry.1 else none
  | _ => []

/-- New packages come with a forward action and go with a backward one. -/
def Entry.Proper : Entry → Prop
  | .add _ action _ replaced => isForward action = true ∧ ∀ entry ∈ replaced, isBackward entry.2 = true
  | _ => True

theorem not_isForward_of_isBackward {action : Action} (h : isBackward action = true) : isForward action = false := by
  cases action with
  | _ => first | rfl | cases h

theorem record_concat (entry : Entry) :
    record swdb before (entries ++ [entry]) = record swdb before entries ++ entry.items swdb (record swdb before entries).length := by
  rw [record_append]
  rfl

theorem forall_mem_record {P : Item → Prop} (hbefore : ∀ item ∈ before, P item)
    (hentries : ∀ entry ∈ entries, ∀ n, ∀ item ∈ entry.items swdb n, P item) : ∀ item ∈ record swdb before entries, P item := by
  induction entries using List.reverseRecOn with
  | nil => exact hbefore
  | append_singleton entries entry ih =>
      intro item hitem
      rw [record_concat, List.mem_append] at hitem
      rcases hitem with hitem | hitem
      · exact ih (fun entry' hentry' => hentries entry' (List.mem_append_left _ hentry')) item hitem
      · exact hentries entry (List.mem_append_right _ (List.mem_singleton_self _)) _ item hitem

/-- What is read off each item is read off the entries. -/
theorem filterMap_record {β : Type} {f : Item → Option β} {g : Entry → List β}
    (h : ∀ entry ∈ entries, ∀ n, (entry.items swdb n).filterMap f = g entry) :
    (record swdb before entries).filterMap f = before.filterMap f ++ entries.flatMap g := by
  induction entries using List.reverseRecOn with
  | nil => rw [List.flatMap_nil, List.append_nil]; rfl
  | append_singleton entries entry ih =>
      rw [record_concat, List.filterMap_append, ih fun entry' hentry' => h entry' (List.mem_append_left _ hentry'),
        h entry (List.mem_append_right _ (List.mem_singleton_self _)), List.flatMap_append, List.append_assoc]
      simp

/-! ### The two sets -/

theorem Entry.filterMap_forward {entry : Entry} (hproper : entry.Proper) (n : Nat) :
    (entry.items swdb n).filterMap (packageOf isForward) = entry.comes := by
  cases entry with
  | remove pkg reason => rfl
  | change pkg reason => rfl
  | add pkg action reason replaced =>
      have hreplaced : (replaced.map (replacedItem swdb n)).filterMap (packageOf isForward) = [] := by
        rw [List.filterMap_eq_nil_iff]
        intro item hitem
        obtain ⟨old, hold, rfl⟩ := List.mem_map.mp hitem
        rw [packageOf, replacedItem, not_isForward_of_isBackward (hproper.2 old hold)]
        rfl
      rw [Entry.items, List.filterMap_cons, hreplaced, packageOf, if_pos hproper.1]
      rfl

theorem Entry.filterMap_backward {entry : Entry} (hproper : entry.Proper) (n : Nat) :
    (entry.items swdb n).filterMap (packageOf isBackward) = entry.goes := by
  cases entry with
  | remove pkg reason => rfl
  | change pkg reason => rfl
  | add pkg action reason replaced =>
      have hforward : isBackward action = false := by
        cases hback : isBackward action with
        | false => rfl
        | true => exact absurd hproper.1 (by rw [not_isForward_of_isBackward hback]; decide)
      have hreplaced : (replaced.map (replacedItem swdb n)).filterMap (packageOf isBackward) = replaced.map Prod.fst := by
        rw [List.filterMap_map, ← List.filterMap_eq_map]
        refine List.filterMap_congr fun old hold => ?_
        exact if_pos (hproper.2 old hold)
      rw [Entry.items, List.filterMap_cons, hreplaced, packageOf, if_neg (by rw [hforward]; decide)]
      rfl

/-- Only a change of reason has no package. -/
theorem Entry.attached (entry : Entry) (n : Nat) : ∀ item ∈ entry.items swdb n, item.action ≠ .reasonChange → item.pkg ≠ none := by
  intro item hitem haction
  cases entry with
  | add pkg action reason replaced =>
      rcases List.mem_cons.mp hitem with rfl | hitem
      · exact Option.some_ne_none _
      · obtain ⟨old, _, rfl⟩ := List.mem_map.mp hitem
        exact Option.some_ne_none _
  | remove pkg reason =>
      rw [List.mem_singleton.mp hitem]
      exact Option.some_ne_none _
  | change pkg reason =>
      rw [List.mem_singleton.mp hitem] at haction
      exact absurd rfl haction

theorem packageSet_record (hbefore : ∀ item ∈ before, item.action = .reasonChange) {actions : Action → Bool} {g : Entry → List Package} (hactions : actions .reasonChange = false)
    (h : ∀ entry ∈ entries, ∀ n, (entry.items swdb n).filterMap (packageOf actions) = g entry) :
    packageSet actions (record swdb before entries) = .ok (entries.flatMap g).toFinset := by
  have hnil : before.filterMap (packageOf actions) = [] := by
    rw [List.filterMap_eq_nil_iff]
    intro item hitem
    rw [packageOf, hbefore item hitem, hactions]
    rfl
  rw [packageSet_eq, filterMap_record h, hnil, List.nil_append]
  refine forall_mem_record (fun item hitem haction => ?_) fun entry _ n item hitem haction => ?_
  · rw [hbefore item hitem, hactions] at haction
    cases haction
  · refine entry.attached n item hitem fun hreason => ?_
    rw [hreason, hactions] at haction
    cases haction

/-! ### Who replaces whom -/

/-- The items that the item at position `n` replaces. -/
def replacedItems (items : List Item) (n : Nat) : List Item := items.filter fun item => isBackward item.action && item.replacedBy == some n

/-- The packages recorded as obsoleted by the item at position `n`. -/
def obsoletedItems (items : List Item) (n : Nat) : List Package :=
  items.filterMap fun item => if item.action = .obsoleted ∧ item.replacedBy = some n then item.pkg else none

theorem obsoletedItems_eq (items : List Item) (n : Nat) :
    obsoletedItems items n = (replacedItems items n).filterMap fun item => if item.action = .obsoleted then item.pkg else none := by
  rw [obsoletedItems, replacedItems, List.filterMap_filter]
  refine List.filterMap_congr fun item _ => ?_
  by_cases haction : item.action = .obsoleted
  · simp [haction, isBackward]
  · simp [haction]

theorem obsoletedItems_of_replaced {items : List Item} {n : Nat} (pkg : Package) (action : Action) (reason : Reason)
    {replaced : List (Package × Action)} (h : replacedItems items n = replaced.map (replacedItem swdb n)) :
    obsoletedItems items n = (Entry.add pkg action reason replaced).obsoleted := by
  rw [obsoletedItems_eq, h, List.filterMap_map]
  rfl

theorem replacedItems_append (items items' : List Item) (n : Nat) :
    replacedItems (items ++ items') n = replacedItems items n ++ replacedItems items' n := List.filter_append ..

def Entry.replaced : Entry → List (Package × Action)
  | .add _ _ _ replaced => replaced
  | _ => []

theorem Entry.replacedItems_items {entry : Entry} (hproper : entry.Proper) (n n' : Nat) :
    replacedItems (entry.items swdb n) n' = if n = n' then entry.replaced.map (replacedItem swdb n) else [] := by
  cases entry with
  | remove pkg reason => split_ifs <;> rfl
  | change pkg reason => split_ifs <;> rfl
  | add pkg action reason replaced =>
      have hhead : replacedItems [⟨pkg.nevra, getRepoid pkg, action, reason, .unknown, some pkg, none⟩] n' = [] := by
        simp [replacedItems]
      rw [Entry.items, ← List.singleton_append, replacedItems_append, hhead, List.nil_append, replacedItems]
      split_ifs with hn
      · refine List.filter_eq_self.mpr fun item hitem => ?_
        obtain ⟨old, hold, rfl⟩ := List.mem_map.mp hitem
        simp [replacedItem, hproper.2 old hold, hn]
      · refine List.filter_eq_nil_iff.mpr fun item hitem => ?_
        obtain ⟨old, _, rfl⟩ := List.mem_map.mp hitem
        simp [replacedItem, hn]

theorem Entry.items_length_pos (entry : Entry) (swdb : Swdb) (n : Nat) : 0 < (entry.items swdb n).length := by
  cases entry with
  | _ => simp [Entry.items]

theorem prefix_record (swdb : Swdb) (before : List Item) (entries : List Entry) : before <+: record swdb before entries := by
  induction entries using List.reverseRecOn with
  | nil => exact List.prefix_rfl
  | append_singleton entries entry ih =>
      rw [record_concat]
      exact ih.trans (List.prefix_append _ _)

theorem getElem?_record {n : Nat} (hn : n < before.length) : (record swdb before entries)[n]? = before[n]? := by
  obtain ⟨later, hlater⟩ := prefix_record swdb before entries
  rw [← hlater, List.getElem?_append_left hn]

/-- An item refers to an earlier item of its own entry. -/
theorem replacedItems_record_eq_nil (hbefore : ∀ item ∈ before, item.action = .reasonChange) (hproper : ∀ entry ∈ entries, entry.Proper)
    {n : Nat} (hn : (record swdb before entries).length ≤ n) : replacedItems (record swdb before entries) n = [] := by
  induction entries using List.reverseRecOn with
  | nil =>
      refine List.filter_eq_nil_iff.mpr fun item hitem => ?_
      rw [hbefore item hitem]
      simp [isBackward]
  | append_singleton entries entry ih =>
      have hpos := entry.items_length_pos swdb (record swdb before entries).length
      rw [List.forall_mem_append, List.forall_mem_singleton] at hproper
      rw [record_concat, List.length_append] at hn
      rw [record_concat, replacedItems_append, ih hproper.1 (by omega), Entry.replacedItems_items hproper.2, if_neg (by omega)]
      rfl

/-- Later entries replace nothing for earlier items. -/
theorem replacedItems_record (hproper : ∀ entry ∈ entries, entry.Proper) {n : Nat} (hn : n < before.length) :
    replacedItems (record swdb before entries) n = replacedItems before n := by
  induction entries using List.reverseRecOn with
  | nil => rfl
  | append_singleton entries entry ih =>
      rw [List.forall_mem_append, List.forall_mem_singleton] at hproper
      have hlength := (prefix_record swdb before entries).length_le
      rw [record_concat, replacedItems_append, ih hproper.1, Entry.replacedItems_items hproper.2, if_neg (by omega), List.append_nil]

/-- The item of a new package is at some position, with what its entry replaces. -/
theorem exists_item_of_add (swdb : Swdb) (hbefore : ∀ item ∈ before, item.action = .reasonChange) (hproper : ∀ entry ∈ entries, entry.Proper)
    {pkg : Package} {action : Action} {reason : Reason} {replaced : List (Package × Action)} (h : .add pkg action reason replaced ∈ entries) :
    ∃ n, (record swdb before entries)[n]? = some ⟨pkg.nevra, getRepoid pkg, action, reason, .unknown, some pkg, none⟩ ∧
      replacedItems (record swdb before entries) n = replaced.map (replacedItem swdb n) := by
  have hentry := hproper _ h
  obtain ⟨first, rest, rfl⟩ := List.append_of_mem h
  rw [List.forall_mem_append, List.forall_mem_cons] at hproper
  obtain ⟨hfirst, _, hrest⟩ := hproper
  rw [← List.singleton_append, ← List.append_assoc, record_append, record_concat]
  have hlength := (Entry.add pkg action reason replaced).items_length_pos swdb (record swdb before first).length
  refine ⟨(record swdb before first).length, ?_, ?_⟩
  · rw [getElem?_record (by rw [List.length_append]; omega), List.getElem?_append_right le_rfl, Nat.sub_self]
    rfl
  · rw [replacedItems_record hrest (by rw [List.length_append]; omega), replacedItems_append, replacedItems_record_eq_nil hbefore hfirst le_rfl,
      Entry.replacedItems_items hentry, if_pos rfl]
    rfl

/-- A new item is the new package of an entry, with what the entry replaces. -/
theorem exists_add_of_item (hbefore : ∀ item ∈ before, item.action = .reasonChange) (hproper : ∀ entry ∈ entries, entry.Proper)
    {n : Nat} {item : Item} (hitem : (record swdb before entries)[n]? = some item) (hforward : isForward item.action = true) :
    ∃ pkg replaced, .add pkg item.action item.reason replaced ∈ entries ∧ item.pkg = some pkg ∧
      replacedItems (record swdb before entries) n = replaced.map (replacedItem swdb n) := by
  induction entries using List.reverseRecOn with
  | nil =>
      rw [hbefore item (List.mem_of_getElem? hitem)] at hforward
      cases hforward
  | append_singleton entries entry ih =>
      rw [List.forall_mem_append, List.forall_mem_singleton] at hproper
      rw [record_concat] at hitem ⊢
      rw [replacedItems_append, Entry.replacedItems_items hproper.2]
      by_cases hn : n < (record swdb before entries).length
      · rw [List.getElem?_append_left hn] at hitem
        obtain ⟨pkg, replaced, hmem, hpkg, hreplaced⟩ := ih hproper.1 hitem
        refine ⟨pkg, replaced, List.mem_append_left _ hmem, hpkg, ?_⟩
        rw [if_neg (by omega), List.append_nil, hreplaced]
      · rw [List.getElem?_append_right (by omega)] at hitem
        cases entry with
        | remove pkg reason =>
            obtain rfl := List.mem_singleton.mp (List.mem_of_getElem? hitem)
            cases hforward
        | change pkg reason =>
            obtain rfl := List.mem_singleton.mp (List.mem_of_getElem? hitem)
            cases hforward
        | add pkg action reason replaced =>
            rw [Entry.items] at hitem
            cases hk : n - (record swdb before entries).length with
            | zero =>
                rw [hk, List.getElem?_cons_zero, Option.some.injEq] at hitem
                subst hitem
                obtain rfl : (record swdb before entries).length = n := by omega
                refine ⟨pkg, replaced, List.mem_append_right _ (List.mem_singleton_self _), rfl, ?_⟩
                rw [replacedItems_record_eq_nil hbefore hproper.1 le_rfl, if_pos rfl]
                rfl
            | succ k =>
                rw [hk, List.getElem?_cons_succ] at hitem
                obtain ⟨old, hold, rfl⟩ := List.mem_map.mp (List.mem_of_getElem? hitem)
                rw [replacedItem, not_isForward_of_isBackward (hproper.2.2 old hold)] at hforward
                cases hforward

end Record

/-! ### The entries of a goal -/

def Goal.news (goal : Goal) : List Package := goal.listDowngrades ++ goal.listReinstalls ++ goal.listInstalls ++ goal.listUpgrades

/-- Every replaced package is obsoleted or shares its name with a new package that replaces it, and downgrades, reinstalls and upgrades replace something. -/
structure Goal.Replaces (goal : Goal) : Prop where
  named : ∀ pkg ∈ goal.news, ∀ obs ∈ goal.obsoletedByPackage pkg,
    obs ∈ goal.listObsoleted ∨ ∃ pkg' ∈ goal.news, obs ∈ goal.obsoletedByPackage pkg' ∧ obs.name = pkg'.name
  downgrades : ∀ pkg ∈ goal.listDowngrades, goal.obsoletedByPackage pkg ≠ []
  reinstalls : ∀ pkg ∈ goal.listReinstalls, goal.obsoletedByPackage pkg ≠ []
  upgrades : ∀ pkg ∈ goal.listUpgrades, goal.obsoletedByPackage pkg ≠ []

namespace Base

inductive Records (base : Base) (goal : Goal) : Entry → Prop
  | downgrade {pkg downgraded : Package} {obs : List Package} (hpkg : pkg ∈ goal.listDowngrades)
      (hobs : goal.obsoletedByPackage pkg = downgraded :: obs) :
      Records base goal (.add pkg .downgrade (base.swdb.getReason pkg) (replacing downgraded .downgraded obs))
  | reinstall {pkg reinstalled : Package} {obsoletes : List Package} (hpkg : pkg ∈ goal.listReinstalls)
      (hobs : reinstallObsoletes goal pkg = reinstalled :: obsoletes) :
      Records base goal (.add pkg .reinstall (base.swdb.getReason pkg) (replacing reinstalled .reinstalled obsoletes))
  | install {pkg : Package} (hpkg : pkg ∈ goal.listInstalls) : Records base goal (base.installEntry goal pkg)
  | upgrade {pkg upgraded : Package} {obs : List Package} (hpkg : pkg ∈ goal.listUpgrades)
      (hobs : pickUpgraded pkg (goal.obsoletedByPackage pkg) = some (upgraded, obs)) : Records base goal (base.upgradeEntry goal pkg upgraded obs)
  | erase {pkg : Package} {entry : Entry} (hpkg : pkg ∈ goal.listErasures) (hentry : entry ∈ base.eraseEntries goal pkg) : Records base goal entry

variable {base : Base} {goal : Goal}

theorem records_of_mem_steps {entries : List Entry} (hstep : .ok entries ∈ base.steps goal) {entry : Entry} (hentry : entry ∈ entries) :
    base.Records goal entry := by
  simp only [steps, List.mem_append, List.mem_map] at hstep
  obtain ⟨pkg, hpkg, heq⟩ | ⟨pkg, hpkg, heq⟩ | ⟨pkg, hpkg, heq⟩ | ⟨pkg, hpkg, heq⟩ | ⟨pkg, hpkg, heq⟩ := hstep
  · rw [downgradeStep] at heq
    split at heq
    · cases heq
    · rename_i hobs
      cases heq
      rw [List.mem_singleton.mp hentry]
      exact .downgrade hpkg hobs
  · rw [reinstallStep] at heq
    split at heq
    · cases heq
    · rename_i hobs
      cases heq
      rw [List.mem_singleton.mp hentry]
      exact .reinstall hpkg hobs
  · cases heq
    rw [List.mem_singleton.mp hentry]
    exact .install hpkg
  · rw [upgradeStep] at heq
    split at heq
    · cases heq
    · rename_i hobs
      cases heq
      rw [List.mem_singleton.mp hentry]
      exact .upgrade hpkg hobs
  · cases heq
    exact .erase hpkg hentry

theorem mem_steps_of_records {entry : Entry} (hentry : base.Records goal entry) : ∃ entries, .ok entries ∈ base.steps goal ∧ entry ∈ entries := by
  simp only [steps, List.mem_append, List.mem_map]
  cases hentry with
  | @downgrade pkg downgraded obs hpkg hobs =>
      exact ⟨_, .inl ⟨pkg, hpkg, by rw [downgradeStep, hobs]⟩, List.mem_singleton_self _⟩
  | @reinstall pkg reinstalled obsoletes hpkg hobs =>
      exact ⟨_, .inr (.inl ⟨pkg, hpkg, by rw [reinstallStep, hobs]⟩), List.mem_singleton_self _⟩
  | @install pkg hpkg => exact ⟨_, .inr (.inr (.inl ⟨pkg, hpkg, rfl⟩)), List.mem_singleton_self _⟩
  | @upgrade pkg upgraded obs hpkg hobs =>
      exact ⟨_, .inr (.inr (.inr (.inl ⟨pkg, hpkg, by rw [upgradeStep, hobs]⟩))), List.mem_singleton_self _⟩
  | @erase pkg _ hpkg hmem => exact ⟨_, .inr (.inr (.inr (.inr ⟨pkg, hpkg, rfl⟩))), hmem⟩

/-! ### What is picked and filtered -/

theorem mem_reinstallObsoletes {pkg obs : Package} : obs ∈ reinstallObsoletes goal pkg ↔ obs ∈ goal.obsoletedByPackage pkg := by
  rw [reinstallObsoletes]
  induction goal.obsoletedByPackage pkg using List.reverseRecOn with
  | nil => rfl
  | append_singleton list last ih =>
      rw [List.foldl_append, List.foldl_cons, List.foldl_nil]
      split_ifs
      · rw [List.mem_cons, List.mem_append, List.mem_singleton, ih, or_comm]
      · rw [List.mem_append, List.mem_append, ih]

theorem reinstallObsoletes_ne_nil {pkg : Package} (h : goal.obsoletedByPackage pkg ≠ []) : reinstallObsoletes goal pkg ≠ [] := by
  obtain ⟨obs, hobs⟩ := List.exists_mem_of_ne_nil _ h
  exact List.ne_nil_of_mem (mem_reinstallObsoletes.mpr hobs)

theorem pickUpgraded_perm {pkg upgraded : Package} {obs rest : List Package} (h : pickUpgraded pkg obs = some (upgraded, rest)) :
    obs.Perm (upgraded :: rest) := by
  unfold pickUpgraded at h
  split at h
  · rename_i found hfound
    cases h
    exact List.perm_cons_erase (List.mem_of_find?_eq_some hfound)
  · cases obs with
    | nil => cases h
    | cons first list =>
        cases h
        exact List.Perm.refl _

theorem pickUpgraded_isSome (pkg : Package) {obs : List Package} (h : obs ≠ []) : ∃ upgraded rest, pickUpgraded pkg obs = some (upgraded, rest) := by
  unfold pickUpgraded
  split
  · exact ⟨_, _, rfl⟩
  · cases obs with
    | nil => exact absurd rfl h
    | cons first rest => exact ⟨first, rest, rfl⟩

/-- Only an installed or an upgraded package leaves some of the packages it replaces to others. -/
theorem mem_keepObsoleted {pkg obs : Package} {list : List Package} :
    obs ∈ keepObsoleted goal pkg list ↔ obs ∈ list ∧ (obs ∈ goal.listObsoleted ∨ obs.name = pkg.name) := by
  rw [keepObsoleted, List.mem_filter, decide_eq_true_iff]

/-! ### The entries cover the goal -/

theorem replacing_fst (old : Package) (action : Action) (obsoleted : List Package) : (replacing old action obsoleted).map Prod.fst = old :: obsoleted := by
  rw [replacing, List.map_cons, List.map_map]
  simp [Function.comp_def]

theorem replacing_backward {old : Package} {action : Action} (haction : isBackward action = true) (obsoleted : List Package) :
    ∀ entry ∈ replacing old action obsoleted, isBackward entry.2 = true := by
  intro entry hentry
  rcases List.mem_cons.mp hentry with rfl | hentry
  · exact haction
  · obtain ⟨obs, _, rfl⟩ := List.mem_map.mp hentry
    rfl

theorem obsoleted_backward (obsoleted : List Package) : ∀ entry ∈ obsoleted.map (fun obs => (obs, Action.obsoleted)), isBackward entry.2 = true := by
  intro entry hentry
  obtain ⟨obs, _, rfl⟩ := List.mem_map.mp hentry
  rfl

theorem Records.proper {entry : Entry} (hentry : base.Records goal entry) : entry.Proper := by
  cases hentry with
  | downgrade _ _ => exact ⟨rfl, replacing_backward rfl _⟩
  | reinstall _ _ => exact ⟨rfl, replacing_backward rfl _⟩
  | install _ => exact ⟨rfl, obsoleted_backward _⟩
  | upgrade _ _ =>
      rw [upgradeEntry]
      split_ifs
      · exact ⟨rfl, obsoleted_backward _⟩
      · exact ⟨rfl, replacing_backward rfl _⟩
  | @erase pkg _ _ hmem =>
      rw [eraseEntries, List.mem_append, List.mem_map, List.mem_singleton] at hmem
      obtain ⟨remaining, _, rfl⟩ | rfl := hmem
      · trivial
      · trivial

theorem upgradeEntry_comes (base : Base) (goal : Goal) (pkg upgraded : Package) (obs : List Package) : (base.upgradeEntry goal pkg upgraded obs).comes = [pkg] := by
  rw [upgradeEntry]
  split_ifs <;> rfl

theorem Records.comes_mem {entry : Entry} (hentry : base.Records goal entry) {pkg : Package} (hpkg : pkg ∈ entry.comes) : pkg ∈ goal.news := by
  simp only [Goal.news, List.mem_append]
  cases hentry with
  | downgrade hlist _ =>
      rw [List.mem_singleton.mp hpkg]
      exact .inl (.inl (.inl hlist))
  | reinstall hlist _ =>
      rw [List.mem_singleton.mp hpkg]
      exact .inl (.inl (.inr hlist))
  | install hlist =>
      rw [List.mem_singleton.mp hpkg]
      exact .inl (.inr hlist)
  | upgrade hlist _ =>
      rw [upgradeEntry_comes] at hpkg
      rw [List.mem_singleton.mp hpkg]
      exact .inr hlist
  | erase _ hmem =>
      rw [eraseEntries, List.mem_append, List.mem_map, List.mem_singleton] at hmem
      obtain ⟨remaining, _, rfl⟩ | rfl := hmem
      · cases hpkg
      · cases hpkg

theorem exists_records_of_news (hgoal : goal.Replaces) {pkg : Package} (hpkg : pkg ∈ goal.news) :
    ∃ entry, base.Records goal entry ∧ pkg ∈ entry.comes := by
  simp only [Goal.news, List.mem_append] at hpkg
  obtain ((hlist | hlist) | hlist) | hlist := hpkg
  · obtain ⟨old, rest, hobs⟩ := List.exists_cons_of_ne_nil (hgoal.downgrades pkg hlist)
    exact ⟨_, .downgrade hlist hobs, List.mem_singleton_self _⟩
  · obtain ⟨old, rest, hobs⟩ := List.exists_cons_of_ne_nil (reinstallObsoletes_ne_nil (hgoal.reinstalls pkg hlist))
    exact ⟨_, .reinstall hlist hobs, List.mem_singleton_self _⟩
  · exact ⟨_, .install hlist, List.mem_singleton_self _⟩
  · obtain ⟨upgraded, rest, hobs⟩ := pickUpgraded_isSome pkg (hgoal.upgrades pkg hlist)
    refine ⟨_, .upgrade hlist hobs, ?_⟩
    rw [upgradeEntry_comes]
    exact List.mem_singleton_self _

/-- The package an installonly upgrade picks. -/
def LeavesInstalled (base : Base) (goal : Goal) (obs : Package) : Prop :=
  ∃ pkg ∈ goal.listUpgrades, base.isInstallonly pkg = true ∧ ∃ rest, pickUpgraded pkg (goal.obsoletedByPackage pkg) = some (obs, rest)

/-- A replaced package that is not left to another one goes. -/
theorem exists_records_of_replaced (hgoal : goal.Replaces) {pkg obs : Package} (hpkg : pkg ∈ goal.news)
    (hobs : obs ∈ goal.obsoletedByPackage pkg) (hkeep : obs ∈ goal.listObsoleted ∨ obs.name = pkg.name) :
    (∃ entry, base.Records goal entry ∧ obs ∈ entry.goes) ∨ base.LeavesInstalled goal obs := by
  simp only [Goal.news, List.mem_append] at hpkg
  obtain ((hlist | hlist) | hlist) | hlist := hpkg
  · obtain ⟨old, rest, hcons⟩ := List.exists_cons_of_ne_nil (hgoal.downgrades pkg hlist)
    refine .inl ⟨_, .downgrade hlist hcons, ?_⟩
    rwa [Entry.goes, replacing_fst, ← hcons]
  · obtain ⟨old, rest, hcons⟩ := List.exists_cons_of_ne_nil (reinstallObsoletes_ne_nil (hgoal.reinstalls pkg hlist))
    refine .inl ⟨_, .reinstall hlist hcons, ?_⟩
    rwa [Entry.goes, replacing_fst, ← hcons, mem_reinstallObsoletes]
  · refine .inl ⟨_, .install hlist, ?_⟩
    rw [installEntry, Entry.goes, List.map_map]
    exact List.mem_map.mpr ⟨obs, mem_keepObsoleted.mpr ⟨hobs, hkeep⟩, rfl⟩
  · obtain ⟨upgraded, rest, hpick⟩ := pickUpgraded_isSome pkg (hgoal.upgrades pkg hlist)
    have hcases := List.mem_cons.mp ((pickUpgraded_perm hpick).mem_iff.mp hobs)
    cases honly : base.isInstallonly pkg with
    | true =>
        rcases hcases with rfl | hrest
        · exact .inr ⟨pkg, hlist, honly, rest, hpick⟩
        · refine .inl ⟨_, .upgrade hlist hpick, ?_⟩
          rw [upgradeEntry, if_pos honly, Entry.goes, List.map_map]
          exact List.mem_map.mpr ⟨obs, mem_keepObsoleted.mpr ⟨hrest, hkeep⟩, rfl⟩
    | false =>
        refine .inl ⟨_, .upgrade hlist hpick, ?_⟩
        rw [upgradeEntry, if_neg (by rw [honly]; decide), Entry.goes, replacing_fst]
        rcases hcases with rfl | hrest
        · exact List.mem_cons_self
        · exact List.mem_cons_of_mem _ (mem_keepObsoleted.mpr ⟨hrest, hkeep⟩)

/-- Where no step raises, the entries of the steps are those of the goal. -/
theorem mem_flatten_iff_records {lists : List (List Entry)} (hlists : lists.map .ok = base.steps goal) (entry : Entry) :
    entry ∈ lists.flatten ↔ base.Records goal entry := by
  constructor
  · intro hentry
    obtain ⟨entries, hentries, hmem⟩ := List.mem_flatten.mp hentry
    exact records_of_mem_steps (hlists ▸ List.mem_map_of_mem hentries) hmem
  · intro hentry
    obtain ⟨entries, hstep, hmem⟩ := mem_steps_of_records hentry
    rw [← hlists, List.mem_map] at hstep
    obtain ⟨_, hentries, heq⟩ := hstep
    cases heq
    exact List.mem_flatten.mpr ⟨entries, hentries, hmem⟩

/-- What the steps record, whatever was recorded before. -/
theorem exists_entries (base : Base) (hgoal : goal.Replaces) :
    ∃ entries, (∀ before, base.goal2transaction goal before = .ok () (record base.swdb before entries)) ∧
      ∀ entry, entry ∈ entries ↔ base.Records goal entry := by
  have hok : ∀ step ∈ base.steps goal, step ∈ Set.range (Except.ok : List Entry → Step) := by
    intro step hstep
    simp only [steps, List.mem_append, List.mem_map] at hstep
    obtain ⟨pkg, hpkg, rfl⟩ | ⟨pkg, hpkg, rfl⟩ | ⟨pkg, _, rfl⟩ | ⟨pkg, hpkg, rfl⟩ | ⟨pkg, _, rfl⟩ := hstep
    · obtain ⟨old, rest, hobs⟩ := List.exists_cons_of_ne_nil (hgoal.downgrades pkg hpkg)
      exact ⟨_, by rw [downgradeStep, hobs]⟩
    · obtain ⟨old, rest, hobs⟩ := List.exists_cons_of_ne_nil (reinstallObsoletes_ne_nil (hgoal.reinstalls pkg hpkg))
      exact ⟨_, by rw [reinstallStep, hobs]⟩
    · exact ⟨_, rfl⟩
    · obtain ⟨upgraded, rest, hobs⟩ := pickUpgraded_isSome pkg (hgoal.upgrades pkg hpkg)
      exact ⟨_, by rw [upgradeStep, hobs]⟩
    · exact ⟨_, rfl⟩
  obtain ⟨lists, hlists⟩ : base.steps goal ∈ Set.range (List.map (Except.ok : List Entry → Step)) := by
    rw [Set.range_list_map]
    exact hok
  refine ⟨lists.flatten, fun before => ?_, mem_flatten_iff_records hlists⟩
  rw [goal2transaction_eq, ← hlists, runSteps_ok]

/-! ### Reasons -/

/-- A strongest one of some reasons. -/
def Strongest (rank : Reason → Nat) (reasons : List Reason) (reason : Reason) : Prop :=
  reason ∈ reasons ∧ ∀ other ∈ reasons, rank other ≤ rank reason

theorem inheritReason_strongest {rank : Reason → Nat} (hcompare : ∀ a b, base.swdb.reasonCompare a b = -1 ↔ rank a < rank b)
    (reason : Reason) (obs : List Package) : Strongest rank (reason :: obs.map base.swdb.getReason) (base.inheritReason reason obs) := by
  induction obs generalizing reason with
  | nil => exact ⟨List.mem_singleton_self _, fun other hother => by rw [List.mem_singleton.mp hother]; rfl⟩
  | cons obsolete rest ih =>
      rw [inheritReason, List.foldl_cons, ← inheritReason, List.map_cons]
      by_cases hless : base.swdb.reasonCompare reason (base.swdb.getReason obsolete) = -1
      · rw [if_pos hless]
        obtain ⟨hmem, hbest⟩ := ih (base.swdb.getReason obsolete)
        refine ⟨List.mem_cons_of_mem _ hmem, fun other hother => ?_⟩
        rcases List.mem_cons.mp hother with rfl | hother
        · exact ((hcompare _ _).mp hless).le.trans (hbest _ List.mem_cons_self)
        · exact hbest other hother
      · rw [if_neg hless]
        obtain ⟨hmem, hbest⟩ := ih reason
        rw [hcompare, not_lt] at hless
        refine ⟨?_, fun other hother => ?_⟩
        · rcases List.mem_cons.mp hmem with heq | hmem
          · rw [heq]
            exact List.mem_cons_self
          · exact List.mem_cons_of_mem _ (List.mem_cons_of_mem _ hmem)
        · rcases List.mem_cons.mp hother with rfl | hother
          · exact hbest _ List.mem_cons_self
          · rcases List.mem_cons.mp hother with rfl | hother
            · exact hless.trans (hbest _ List.mem_cons_self)
            · exact hbest _ (List.mem_cons_of_mem _ hother)

theorem installEntry_obsoleted (pkg : Package) : (base.installEntry goal pkg).obsoleted = installObsoletes goal pkg := by
  rw [installEntry, Entry.obsoleted, List.filterMap_map]
  exact List.filterMap_some

/-- The installed package of the item at `n` has the strongest of the goal's reason and the reasons of what the item obsoletes. -/
def GotReason (base : Base) (goal : Goal) (rank : Reason → Nat) (items : List Item) (n : Nat) (pkg : Package) : Prop :=
  ∃ item, items[n]? = some item ∧ item.action = .install ∧ item.pkg = some pkg ∧
    Strongest rank (goal.getReason pkg :: (obsoletedItems items n).map base.swdb.getReason) item.reason

/-- The items are a transaction for the goal. -/
structure Conserves (base : Base) (goal : Goal) (rank : Reason → Nat) (items : List Item) : Prop where
  installs : installSet items = .ok goal.news.toFinset
  removes : ∃ removed, removeSet items = .ok removed ∧ (∀ pkg ∈ goal.listErasures, pkg ∈ removed) ∧
    ∀ pkg ∈ goal.news, ∀ obs ∈ goal.obsoletedByPackage pkg, obs ∈ removed ∨ base.LeavesInstalled goal obs
  reasons : ∀ pkg ∈ goal.listInstalls, base.installonlyInstalled pkg = false → ∃ n, base.GotReason goal rank items n pkg
  noOther : ∀ pkg ∈ goal.listInstalls, base.installonlyInstalled pkg = false → pkg ∉ goal.listUpgrades → ∀ n item,
    items[n]? = some item → item.action = .install → item.pkg = some pkg → base.GotReason goal rank items n pkg

theorem installReason_strongest {rank : Reason → Nat} (hcompare : ∀ a b, base.swdb.reasonCompare a b = -1 ↔ rank a < rank b) {pkg : Package}
    (honly : base.installonlyInstalled pkg = false) :
    Strongest rank (goal.getReason pkg :: (installObsoletes goal pkg).map base.swdb.getReason)
      (base.inheritReason (base.installReason goal pkg) (installObsoletes goal pkg)) := by
  rw [installReason, if_neg (by rw [honly]; decide)]
  exact inheritReason_strongest hcompare _ _

/-- Of the entries of a goal only those of its installs install a package that is not upgraded. -/
theorem Records.install_eq {pkg : Package} {reason : Reason} {replaced : List (Package × Action)}
    (hentry : base.Records goal (.add pkg .install reason replaced)) (hpkg : pkg ∉ goal.listUpgrades) :
    .add pkg .install reason replaced = base.installEntry goal pkg := by
  generalize heq : Entry.add pkg .install reason replaced = entry at hentry
  cases hentry with
  | downgrade _ _ => cases heq
  | reinstall _ _ => cases heq
  | install hlist =>
      rw [installEntry] at heq
      cases heq
      rfl
  | @upgrade pkg' upgraded obs hlist hobs =>
      have hcomes := upgradeEntry_comes base goal pkg' upgraded obs
      rw [← heq, Entry.comes, List.singleton_inj] at hcomes
      exact absurd (hcomes ▸ hlist) hpkg
  | erase _ hmem =>
      rw [eraseEntries, List.mem_append, List.mem_map, List.mem_singleton, ← heq] at hmem
      obtain ⟨remaining, _, hmem⟩ | hmem := hmem
      · cases hmem
      · cases hmem

theorem goal2transaction_conserves (base : Base) (goal : Goal) (rank : Reason → Nat) (before : List Item) (hgoal : goal.Replaces)
    (hbefore : ∀ item ∈ before, item.action = .reasonChange) (hcompare : ∀ a b, base.swdb.reasonCompare a b = -1 ↔ rank a < rank b) :
    ∃ items, base.goal2transaction goal before = .ok () items ∧ base.Conserves goal rank items := by
  obtain ⟨entries, hrun, hentries⟩ := exists_entries base hgoal
  have hproper : ∀ entry ∈ entries, entry.Proper := fun entry hentry => ((hentries entry).mp hentry).proper
  refine ⟨_, hrun before, ?_, ?_, fun pkg hpkg honly => ?_, fun pkg hpkg honly hupgrade n item hitem haction heq => ?_⟩
  · rw [installSet, packageSet_record hbefore rfl fun entry hentry => Entry.filterMap_forward (hproper entry hentry)]
    congr 1
    ext pkg
    rw [List.mem_toFinset, List.mem_toFinset, List.mem_flatMap]
    refine ⟨fun ⟨entry, hentry, hcomes⟩ => ((hentries entry).mp hentry).comes_mem hcomes, fun hpkg => ?_⟩
    obtain ⟨entry, hentry, hcomes⟩ := exists_records_of_news hgoal hpkg
    exact ⟨entry, (hentries entry).mpr hentry, hcomes⟩
  · refine ⟨_, packageSet_record hbefore rfl fun entry hentry => Entry.filterMap_backward (hproper entry hentry), ?_, ?_⟩
    · intro pkg hpkg
      rw [List.mem_toFinset, List.mem_flatMap]
      exact ⟨_, (hentries _).mpr (.erase hpkg (List.mem_append_right _ (List.mem_singleton_self _))), List.mem_singleton_self _⟩
    · intro pkg hpkg obs hobs
      have hrecorded : (∃ entry, base.Records goal entry ∧ obs ∈ entry.goes) ∨ base.LeavesInstalled goal obs := by
        rcases hgoal.named pkg hpkg obs hobs with hobsoleted | ⟨pkg', hpkg', hobs', hname⟩
        · exact exists_records_of_replaced hgoal hpkg hobs (.inl hobsoleted)
        · exact exists_records_of_replaced hgoal hpkg' hobs' (.inr hname)
      rcases hrecorded with ⟨entry, hentry, hgoes⟩ | hleaves
      · exact .inl (List.mem_toFinset.mpr (List.mem_flatMap.mpr ⟨entry, (hentries entry).mpr hentry, hgoes⟩))
      · exact .inr hleaves
  · obtain ⟨n, hitem, hreplaced⟩ := exists_item_of_add base.swdb hbefore hproper ((hentries _).mpr (.install hpkg))
    have hobsoleted : obsoletedItems _ n = installObsoletes goal pkg :=
      (obsoletedItems_of_replaced pkg .install _ hreplaced).trans (@installEntry_obsoleted base goal pkg)
    refine ⟨n, _, hitem, rfl, rfl, ?_⟩
    rw [hobsoleted]
    exact installReason_strongest hcompare honly
  · obtain ⟨pkg', replaced, hmem, hpkg', hreplaced⟩ := exists_add_of_item hbefore hproper hitem (by rw [haction]; rfl)
    rw [heq, Option.some.injEq] at hpkg'
    subst hpkg'
    rw [haction] at hmem
    have hinstall := ((hentries _).mp hmem).install_eq hupgrade
    refine ⟨item, hitem, haction, heq, ?_⟩
    rw [obsoletedItems_of_replaced pkg .install _ hreplaced, hinstall, installEntry_obsoleted]
    rw [installEntry, Entry.add.injEq] at hinstall
    rw [hinstall.2.2.1]
    exact installReason_strongest hcompare honly

def spiceRank : Reason → Nat
  | .unknown => 0
  | .clean => 1
  | .dependency => 2
  | .weakDependency => 3
  | .group => 4
  | .user => 5

def kernel : Package := ⟨0, ⟨"kernel", 0, "1", "1", "x86_64"⟩, "@System", none⟩
def kernelNew : Package := ⟨1, ⟨"kernel", 0, "2", "1", "x86_64"⟩, "main", none⟩
def pepper : Package := ⟨2, ⟨"pepper", 0, "20", "0", "x86_64"⟩, "@System", none⟩
def mill : Package := ⟨3, ⟨"mill", 0, "1", "1", "x86_64"⟩, "main", none⟩

def spiceBase : Base where
  swdb := ⟨fun name _ => if name = "pepper" then .user else .dependency, fun _ => "main", fun a b => if spiceRank a < spiceRank b then -1 else 0⟩
  sack := [kernel, kernelNew, pepper, mill]
  isInstallonly pkg := pkg.name == "kernel"

/-- The kernel is upgraded and the mill comes for pepper, which the user installed. -/
def spiceGoal : Goal where
  listDowngrades := []
  listReinstalls := []
  listInstalls := [mill]
  listUpgrades := [kernelNew]
  listErasures := []
  listObsoleted := [pepper]
  obsoletedByPackage pkg := if pkg = mill then [pepper] else if pkg = kernelNew then [kernel] else []
  getReason _ := .dependency

theorem goal2transaction_conserves_spice :
    ∃ items, spiceBase.goal2transaction spiceGoal [] = .ok () items ∧ spiceBase.Conserves spiceGoal spiceRank items := by
  refine goal2transaction_conserves spiceBase spiceGoal spiceRank [] ⟨by decide, by decide, by decide, by decide⟩ (fun item hitem => by cases hitem) fun a b => ?_
  show (if spiceRank a < spiceRank b then (-1 : Int) else 0) = -1 ↔ _
  split_ifs with hless
  · exact iff_of_true rfl hless
  · exact iff_of_false (by decide) hless

end Base

end Dnf.Transaction
