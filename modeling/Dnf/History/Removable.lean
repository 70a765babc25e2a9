import Dnf.History.Persistor

/-!
# When a removability answer reflects the pending calls

A group's state after the pending calls is the object of its last call, nothing if that call removed it, and its committed record if it had no call. The answers are computed from something else: the committed listing without the groups of the `_removed` dictionary and with those of the `_installed` dictionary, whatever came last, and with no look at upgrades and downgrades. This module says exactly when the two agree, for groups over packages and for environments over groups at once.

The computed set is first described entry by entry, then through the last call of each kind a group had.
-/

namespace Dnf.History

/-! ### The state after the pending calls -/

/-- The last call an id had, with its object. -/
def lastCall (calls : List (Call × CompsItem)) (id : String) : Option (Call × CompsItem) :=
  calls.reverse.find? fun call => call.2.id = id

/-- The object of the last call of one kind an id had. -/
def lastObject (calls : List (Call × CompsItem)) (kind : Call) (id : String) : Option CompsItem :=
  (calls.reverse.find? fun call => call.1 = kind ∧ call.2.id = id).map (·.2)

variable (record : String → Option CompsItem) (calls : List (Call × CompsItem)) (name : String)

/-- The committed record of `id` lists `name` as installed. -/
def Recorded (id : String) : Prop := ∃ item, record id = some item ∧ item.Lists name

/-- `id` lists `name` as installed in its state after the pending calls. -/
def ListedAfter (id : String) : Prop :=
  match lastCall calls id with
  | some (.remove, _) => False
  | some (_, obj) => obj.Lists name
  | none => Recorded record name id

/-- The last object of one kind of call lists `name` as installed. -/
def LastLists (kind : Call) (id : String) : Prop := ∃ obj, lastObject calls kind id = some obj ∧ obj.Lists name

/-- The listing the code counts for `id`. -/
def Counted (id : String) : Prop :=
  (Recorded record name id ∧ ¬LastLists calls name .remove id) ∨ LastLists calls name .install id

/-- `id` has `name` through an upgrade or a downgrade the code does not look at. -/
def Overlooked (id : String) : Prop :=
  (∃ kind obj, lastCall calls id = some (kind, obj) ∧ (kind = .upgrade ∨ kind = .downgrade) ∧ obj.Lists name) ∧
    ¬Counted record calls name id

/-- `id` is counted although its last call removed it or left it with an object that does not list `name`. -/
def Stale (id : String) : Prop :=
  (∃ kind obj, lastCall calls id = some (kind, obj) ∧ (kind = .remove ∨ ¬obj.Lists name)) ∧ Counted record calls name id

/-- Every object pending in `_removed` that lists `name` lists it once, and so does the committed record say. -/
def RemovalsRecorded : Prop :=
  ∀ id obj, lastObject calls .remove id = some obj → obj.Lists name → obj.timesListed name = 1 ∧ Recorded record name id

/-! ### The two loops -/

variable {record calls name}

theorem dropMember_of_not {id : String} {listing : Finset String} {m : Member} (hm : ¬(m.name = name ∧ m.installed = true)) :
    dropMember name id listing m = .ok listing := by
  rw [dropMember]
  by_cases hname : m.name = name
  · rw [if_neg (not_not.mpr hname), if_pos (by simpa [hname] using hm)]
  · rw [if_pos hname]

theorem dropMember_of_listed {id : String} {listing : Finset String} {m : Member} (hm : m.name = name ∧ m.installed = true) :
    dropMember name id listing m = if id ∈ listing then .ok (listing.erase id) else .error ⟨id⟩ := by
  rw [dropMember, if_neg (not_not.mpr hm.1), if_neg (by simp [hm.2])]

theorem foldlM_dropMember (id : String) (members : List Member) (listing : Finset String) :
    members.foldlM (dropMember name id) listing =
      if members.countP (fun m => m.name = name ∧ m.installed = true) = 0 then .ok listing
      else if members.countP (fun m => m.name = name ∧ m.installed = true) = 1 ∧ id ∈ listing then .ok (listing.erase id)
      else .error ⟨id⟩ := by
  induction members generalizing listing with
  | nil => rfl
  | cons m members ih =>
      rw [List.foldlM_cons, List.countP_cons]
      by_cases hm : m.name = name ∧ m.installed = true
      · rw [dropMember_of_listed hm, if_pos (decide_eq_true hm)]
        by_cases hid : id ∈ listing
        · rw [if_pos hid]
          show members.foldlM (dropMember name id) (listing.erase id) = _
          rw [ih]
          by_cases hzero : members.countP (fun m => m.name = name ∧ m.installed = true) = 0
          · rw [if_pos hzero, if_neg (by omega), if_pos ⟨by omega, hid⟩]
          · rw [if_neg hzero, if_neg (fun h => absurd h.2 (Finset.notMem_erase id listing)), if_neg (by omega),
              if_neg (fun h => absurd h.1 (by omega))]
        · rw [if_neg hid, if_neg (by omega), if_neg (fun h => hid h.2)]
          rfl
      · rw [dropMember_of_not hm, decide_eq_false hm, if_neg Bool.false_ne_true, Nat.add_zero]
        exact ih listing

/-- The entries of a dictionary whose object lists `name` as installed. -/
def EntryLists (name : String) (entries : List (Sigma fun _ : String => CompsItem)) (id : String) : Prop :=
  ∃ entry ∈ entries, entry.1 = id ∧ entry.2.Lists name

/-- The objects of a dictionary list `name` at most once, and only under the ids of `listing`. -/
def EntriesRecorded (name : String) (entries : List (Sigma fun _ : String => CompsItem)) (listing : Finset String) : Prop :=
  ∀ entry ∈ entries, entry.2.Lists name → entry.2.timesListed name = 1 ∧ entry.1 ∈ listing

theorem entryLists_cons {entry : Sigma fun _ : String => CompsItem} {entries : List (Sigma fun _ : String => CompsItem)} {id : String} :
    EntryLists name (entry :: entries) id ↔ (entry.1 = id ∧ entry.2.Lists name) ∨ EntryLists name entries id := by
  simp only [EntryLists, List.mem_cons, exists_eq_or_imp]

theorem entriesRecorded_cons {entry : Sigma fun _ : String => CompsItem} {entries : List (Sigma fun _ : String => CompsItem)}
    {listing : Finset String} : EntriesRecorded name (entry :: entries) listing ↔
      (entry.2.Lists name → entry.2.timesListed name = 1 ∧ entry.1 ∈ listing) ∧ EntriesRecorded name entries listing := by
  rw [EntriesRecorded, List.forall_mem_cons]
  rfl

/-- An id the other entries do not have may be taken out first. -/
theorem entriesRecorded_erase {entries : List (Sigma fun _ : String => CompsItem)} {id : String} (hid : ∀ e ∈ entries, e.1 ≠ id)
    {listing : Finset String} : EntriesRecorded name entries (listing.erase id) ↔ EntriesRecorded name entries listing := by
  refine forall₂_congr fun e he => imp_congr_right fun _ => and_congr_right fun _ => ?_
  rw [Finset.mem_erase, and_iff_right (hid e he)]

/-- The loop over `_removed`: it ends normally exactly when the entries are recorded, and takes their ids out. -/
theorem removedLoop_eq_ok {entries : List (Sigma fun _ : String => CompsItem)} (hkeys : entries.NodupKeys)
    (listing kept : Finset String) :
    entries.foldlM (fun listing entry => entry.2.members.foldlM (dropMember name entry.1) listing) listing = .ok kept ↔
      EntriesRecorded name entries listing ∧ ∀ id, id ∈ kept ↔ id ∈ listing ∧ ¬EntryLists name entries id := by
  induction entries generalizing listing with
  | nil =>
      rw [List.foldlM_nil]
      show Except.ok listing = Except.ok kept ↔ _
      simp only [Except.ok.injEq, EntriesRecorded, EntryLists, List.not_mem_nil, false_imp_iff, implies_true, false_and,
        exists_false, not_false_eq_true, and_true, true_and, Finset.ext_iff]
      exact forall_congr' fun id => Iff.comm
  | cons entry entries ih =>
      rw [List.nodupKeys_cons] at hkeys
      have hother : ∀ e ∈ entries, e.1 ≠ entry.1 := fun e he heq => hkeys.1 (heq ▸ List.mem_keys_of_mem he)
      rw [List.foldlM_cons, foldlM_dropMember, entriesRecorded_cons]
      simp only [entryLists_cons]
      by_cases hlists : entry.2.Lists name
      · have htimes := CompsItem.lists_iff_timesListed.mp hlists
        rw [if_neg (by exact htimes.ne')]
        by_cases hrecorded : entry.2.timesListed name = 1 ∧ entry.1 ∈ listing
        · rw [if_pos (by exact hrecorded)]
          show entries.foldlM _ (listing.erase entry.1) = _ ↔ _
          rw [ih hkeys.2, entriesRecorded_erase hother]
          refine and_congr (by simp [hlists, hrecorded]) (forall_congr' fun id => iff_congr Iff.rfl ?_)
          rw [Finset.mem_erase, and_iff_left hlists, not_or, ne_comm]
          exact ⟨fun h => ⟨h.1.2, h.1.1, h.2⟩, fun h => ⟨⟨h.2.1, h.1⟩, h.2.2⟩⟩
        · rw [if_neg (by exact hrecorded)]
          exact iff_of_false (by intro h; cases h) fun h => hrecorded (h.1.1 hlists)
      · have htimes : entry.2.timesListed name = 0 := by
          rw [CompsItem.lists_iff_timesListed] at hlists
          omega
        rw [if_pos (by exact htimes)]
        show entries.foldlM _ listing = _ ↔ _
        rw [ih hkeys.2]
        simp [hlists]

theorem foldl_noteMember (id : String) (members : List Member) (listing : Finset String) (i : String) :
    i ∈ members.foldl (noteMember name id) listing ↔ i ∈ listing ∨ (id = i ∧ ∃ m ∈ members, m.name = name ∧ m.installed = true) := by
  induction members generalizing listing with
  | nil => simp
  | cons m members ih =>
      rw [List.foldl_cons, ih, noteMember]
      simp only [List.mem_cons, exists_eq_or_imp]
      by_cases hm : m.name = name ∧ m.installed = true
      · rw [if_neg (not_not.mpr hm.1), if_neg (by simp [hm.2]), Finset.mem_insert, eq_comm]
        tauto
      · have hskip : (if m.name ≠ name then listing else if m.installed = false then listing else insert id listing) = listing := by
          by_cases hname : m.name = name
          · rw [if_neg (not_not.mpr hname), if_pos (by simpa [hname] using hm)]
          · rw [if_pos hname]
        rw [hskip]
        tauto

/-- The loop over `_installed` adds the ids whose object lists `name`. -/
theorem mem_installedLoop (entries : List (Sigma fun _ : String => CompsItem)) (listing : Finset String) (id : String) :
    id ∈ entries.foldl (fun listing entry => entry.2.members.foldl (noteMember name entry.1) listing) listing ↔
      id ∈ listing ∨ EntryLists name entries id := by
  induction entries generalizing listing with
  | nil => simp [EntryLists]
  | cons entry entries ih =>
      rw [List.foldl_cons, ih, foldl_noteMember, entryLists_cons, or_assoc]
      rfl

/-- The set the code computes, in terms of the dictionaries. -/
theorem listing_eq_ok {pending : Pending} {committed : List String} {listing : Finset String} :
    pending.listing committed name = .ok listing ↔ EntriesRecorded name pending.removed.entries committed.toFinset ∧
      ∀ id, id ∈ listing ↔ (id ∈ committed ∧ ¬EntryLists name pending.removed.entries id) ∨ EntryLists name pending.installed.entries id := by
  have hsplit : pending.listing committed name = .ok listing ↔
      ∃ kept, pending.removed.entries.foldlM
          (fun listing entry => entry.2.members.foldlM (dropMember name entry.1) listing) committed.toFinset = .ok kept ∧
        pending.installed.entries.foldl (fun listing entry => entry.2.members.foldl (noteMember name entry.1) listing) kept = listing := by
    rw [Pending.listing]
    cases pending.removed.entries.foldlM
      (fun listing entry => entry.2.members.foldlM (dropMember name entry.1) listing) committed.toFinset with
    | error e => exact iff_of_false (by intro h; cases h) (by simp)
    | ok kept =>
        show Except.ok _ = Except.ok listing ↔ _
        simp
  rw [hsplit]
  simp only [removedLoop_eq_ok pending.removed.nodupKeys, Finset.ext_iff, mem_installedLoop, List.mem_toFinset]
  constructor
  · intro ⟨kept, ⟨hrecorded, hkept⟩, hlisting⟩
    exact ⟨hrecorded, fun id => by rw [← hlisting id, hkept id]⟩
  · intro ⟨hrecorded, hlisting⟩
    classical
    refine ⟨committed.toFinset.filter fun id => ¬EntryLists name pending.removed.entries id, ⟨hrecorded, fun id => ?_⟩, fun id => ?_⟩
    · rw [Finset.mem_filter, List.mem_toFinset]
    · rw [hlisting id, Finset.mem_filter, List.mem_toFinset]

theorem exists_listing {pending : Pending} {committed : List String}
    (h : EntriesRecorded name pending.removed.entries committed.toFinset) : ∃ listing, pending.listing committed name = .ok listing := by
  classical
  let kept := committed.toFinset.filter fun id => ¬EntryLists name pending.removed.entries id
  refine ⟨pending.installed.entries.foldl (fun listing entry => entry.2.members.foldl (noteMember name entry.1) listing) kept,
    listing_eq_ok.mpr ⟨h, fun id => ?_⟩⟩
  rw [mem_installedLoop, Finset.mem_filter, List.mem_toFinset]

/-! ### From the dictionaries to the calls -/

theorem dict_record (pending : Pending) (call kind : Call) (obj : CompsItem) (id : String) :
    ((pending.record call obj).dict kind).lookup id =
      if call = kind ∧ obj.id = id then some obj else (pending.dict kind).lookup id := by
  have hinsert : ∀ dict : AList (fun _ : String => CompsItem),
      (dict.insert obj.id obj).lookup id = if obj.id = id then some obj else dict.lookup id := by
    intro dict
    by_cases hid : obj.id = id
    · rw [if_pos hid, ← hid, AList.lookup_insert]
    · rw [if_neg hid, AList.lookup_insert_ne (Ne.symm hid)]
  cases call <;> cases kind <;> simp [Pending.record, Pending.dict, hinsert]

/-- A dictionary holds, under each id, the object of the last call of its kind. -/
theorem lookup_after (calls : List (Call × CompsItem)) (kind : Call) (id : String) :
    ((Pending.after calls).dict kind).lookup id = lastObject calls kind id := by
  induction calls using List.reverseRecOn with
  | nil => cases kind <;> rfl
  | append_singleton calls call ih =>
      rw [Pending.after, List.foldl_append, List.foldl_cons, List.foldl_nil, dict_record, lastObject, List.reverse_append,
        List.reverse_singleton, List.singleton_append, List.find?_cons]
      by_cases hcall : call.1 = kind ∧ call.2.id = id
      · rw [if_pos hcall, decide_eq_true hcall]
        rfl
      · rw [if_neg hcall, decide_eq_false hcall]
        exact ih

theorem entryLists_after (calls : List (Call × CompsItem)) (kind : Call) (name id : String) :
    EntryLists name ((Pending.after calls).dict kind).entries id ↔ LastLists calls name kind id := by
  rw [LastLists, ← lookup_after]
  constructor
  · intro ⟨⟨key, obj⟩, hmem, hkey, hlists⟩
    cases hkey
    exact ⟨obj, AList.mem_lookup_iff.mpr hmem, hlists⟩
  · intro ⟨obj, hlookup, hlists⟩
    exact ⟨⟨id, obj⟩, AList.mem_lookup_iff.mp hlookup, rfl, hlists⟩

theorem entriesRecorded_after {committed : List String} (hcommitted : ∀ id, id ∈ committed ↔ Recorded record name id)
    (calls : List (Call × CompsItem)) :
    EntriesRecorded name (Pending.after calls).removed.entries committed.toFinset ↔ RemovalsRecorded record calls name := by
  constructor
  · intro h id obj hobj hlists
    rw [← lookup_after] at hobj
    obtain ⟨htimes, hid⟩ := h ⟨id, obj⟩ (AList.mem_lookup_iff.mp hobj) hlists
    exact ⟨htimes, (hcommitted id).mp (List.mem_toFinset.mp hid)⟩
  · intro h entry hentry hlists
    have hlookup : lastObject calls .remove entry.1 = some entry.2 := by
      rw [← lookup_after]
      exact AList.mem_lookup_iff.mpr hentry
    obtain ⟨htimes, hid⟩ := h entry.1 entry.2 hlookup hlists
    exact ⟨htimes, List.mem_toFinset.mpr ((hcommitted entry.1).mpr hid)⟩

/-- The computed set has the ids the code counts, and is computed exactly when the removals are recorded. -/
theorem listing_after {committed : List String} (hcommitted : ∀ id, id ∈ committed ↔ Recorded record name id)
    (calls : List (Call × CompsItem)) (listing : Finset String) :
    (Pending.after calls).listing committed name = .ok listing ↔
      RemovalsRecorded record calls name ∧ ∀ id, id ∈ listing ↔ Counted record calls name id := by
  rw [listing_eq_ok, entriesRecorded_after hcommitted]
  refine and_congr_right fun _ => forall_congr' fun id => iff_congr Iff.rfl ?_
  rw [hcommitted, Counted, ← entryLists_after calls .remove, ← entryLists_after calls .install]
  rfl

/-- The set is right when it is computed and some id is counted just when some id lists `name` after the pending calls. -/
theorem emptyListing_iff {committed : List String} (hcommitted : ∀ id, id ∈ committed ↔ Recorded record name id)
    (calls : List (Call × CompsItem)) :
    (∃ listing, (Pending.after calls).listing committed name = .ok listing ∧
        (listing = ∅ ↔ ¬∃ id, ListedAfter record calls name id)) ↔
      RemovalsRecorded record calls name ∧ ((∃ id, Counted record calls name id) ↔ ∃ id, ListedAfter record calls name id) := by
  have hempty : ∀ listing : Finset String, (∀ id, id ∈ listing ↔ Counted record calls name id) →
      ((listing = ∅ ↔ ¬∃ id, ListedAfter record calls name id) ↔
        ((∃ id, Counted record calls name id) ↔ ∃ id, ListedAfter record calls name id)) := by
    intro listing hlisting
    rw [← exists_congr hlisting, ← Finset.Nonempty, ← Finset.not_nonempty_iff_eq_empty, not_iff_not]
  constructor
  · intro ⟨listing, hrun, hcorrect⟩
    obtain ⟨hrecorded, hlisting⟩ := (listing_after hcommitted calls listing).mp hrun
    exact ⟨hrecorded, (hempty listing hlisting).mp hcorrect⟩
  · intro ⟨hrecorded, hcounted⟩
    obtain ⟨listing, hrun⟩ := exists_listing ((entriesRecorded_after hcommitted calls).mpr hrecorded)
    have hlisting := ((listing_after hcommitted calls listing).mp hrun).2
    exact ⟨listing, hrun, (hempty listing hlisting).mpr hcounted⟩

/-! ### Where the count and the state differ -/

theorem find?_of_imp {α : Type} {p q : α → Bool} (hpq : ∀ a, q a = true → p a = true) {l : List α} {a : α}
    (hfind : l.find? p = some a) (ha : q a = true) : l.find? q = some a := by
  induction l with
  | nil => exact hfind
  | cons x l ih =>
      rw [List.find?_cons] at hfind ⊢
      cases hp : p x with
      | true =>
          rw [hp, Option.some.injEq] at hfind
          rw [hfind, ha]
      | false =>
          rw [hp] at hfind
          rw [Bool.eq_false_iff.mpr fun hq => Bool.eq_false_iff.mp hp (hpq x hq)]
          exact ih hfind

theorem lastObject_of_lastCall {id : String} {kind : Call} {obj : CompsItem} (hlast : lastCall calls id = some (kind, obj)) :
    lastObject calls kind id = some obj := by
  have hid := List.find?_some hlast
  have hfind := find?_of_imp (q := fun call => decide (call.1 = kind ∧ call.2.id = id)) (fun call hcall => by
    rw [decide_eq_true_eq] at hcall ⊢
    exact hcall.2) hlast (decide_eq_true ⟨rfl, of_decide_eq_true hid⟩)
  rw [lastObject, hfind]
  rfl

theorem lastObject_of_noCall {id : String} (hlast : lastCall calls id = none) (kind : Call) : lastObject calls kind id = none := by
  rw [lastObject, Option.map_eq_none_iff, List.find?_eq_none]
  rw [lastCall, List.find?_eq_none] at hlast
  intro call hcall hboth
  rw [decide_eq_true_eq] at hboth
  exact hlast call hcall (decide_eq_true hboth.2)

/-- An id without a call is counted exactly when its record lists `name`. -/
theorem counted_of_noCall {id : String} (hlast : lastCall calls id = none) :
    Counted record calls name id ↔ Recorded record name id := by
  simp only [Counted, LastLists, lastObject_of_noCall hlast, reduceCtorEq, false_and, exists_false, not_false_eq_true, and_true,
    or_false]

theorem overlooked_iff {id : String} :
    Overlooked record calls name id ↔ ListedAfter record calls name id ∧ ¬Counted record calls name id := by
  rw [Overlooked, ListedAfter]
  refine and_congr_left fun hnot => ?_
  cases hlast : lastCall calls id with
  | none =>
      rw [counted_of_noCall hlast] at hnot
      simp [hnot]
  | some call =>
      obtain ⟨kind, obj⟩ := call
      cases kind with
      | install =>
          have hlists : ¬obj.Lists name := fun h => hnot (Or.inr ⟨obj, lastObject_of_lastCall hlast, h⟩)
          simp [hlists]
      | remove => simp
      | upgrade => simp
      | downgrade => simp

theorem stale_iff {id : String} :
    Stale record calls name id ↔ Counted record calls name id ∧ ¬ListedAfter record calls name id := by
  rw [Stale, ListedAfter, and_comm]
  refine and_congr_right fun hcounted => ?_
  cases hlast : lastCall calls id with
  | none =>
      rw [counted_of_noCall hlast] at hcounted
      simp [hcounted]
  | some call =>
      obtain ⟨kind, obj⟩ := call
      cases kind <;> simp

/-! ### The two functions -/

/-- What libdnf's queries return: the ids whose committed record lists the name as installed. -/
structure Swdb.Documented (swdb : Swdb) : Prop where
  getPackageCompsGroups : ∀ name id, id ∈ swdb.getPackageCompsGroups name ↔ Recorded swdb.getCompsGroupItem name id
  getCompsGroupEnvironments : ∀ name id, id ∈ swdb.getCompsGroupEnvironments name ↔ Recorded swdb.getCompsEnvironmentItem name id

/-- An answer is right: it does not raise, and is true iff the item is `owned` and nothing lists it after the pending calls. -/
def RightAnswer (answer : Except KeyError Bool) (owned : Prop) (record : String → Option CompsItem) (calls : List (Call × CompsItem))
    (name : String) : Prop :=
  ∃ removable, answer = .ok removable ∧ (removable = true ↔ owned ∧ ¬∃ id, ListedAfter record calls name id)

/-- When an answer is right: the removals are recorded, something is counted if anything is overlooked, and something lists `name` if anything is stale. -/
def Answerable (owned : Prop) (record : String → Option CompsItem) (calls : List (Call × CompsItem)) (name : String) : Prop :=
  owned → RemovalsRecorded record calls name ∧
    ((∃ id, Overlooked record calls name id) → ∃ id, Counted record calls name id) ∧
    ((∃ id, Stale record calls name id) → ∃ id, ListedAfter record calls name id)

theorem answerable_iff {owned : Prop} : Answerable owned record calls name ↔
    (owned → RemovalsRecorded record calls name ∧ ((∃ id, Counted record calls name id) ↔ ∃ id, ListedAfter record calls name id)) := by
  rw [Answerable]
  refine imp_congr_right fun _ => and_congr_right fun _ => ?_
  simp only [overlooked_iff, stale_iff]
  constructor
  · intro ⟨hoverlooked, hstale⟩
    refine ⟨fun ⟨id, hcounted⟩ => ?_, fun ⟨id, hlisted⟩ => ?_⟩
    · by_cases hlisted : ListedAfter record calls name id
      · exact ⟨id, hlisted⟩
      · exact hstale ⟨id, hcounted, hlisted⟩
    · by_cases hcounted : Counted record calls name id
      · exact ⟨id, hcounted⟩
      · exact hoverlooked ⟨id, hlisted, hcounted⟩
  · intro hiff
    exact ⟨fun ⟨id, hlisted, _⟩ => hiff.mpr ⟨id, hlisted⟩, fun ⟨id, hcounted, _⟩ => hiff.mp ⟨id, hcounted⟩⟩

theorem rightAnswer_iff (owned : Prop) [Decidable owned] {committed : List String}
    (hcommitted : ∀ id, id ∈ committed ↔ Recorded record name id) (calls : List (Call × CompsItem)) :
    RightAnswer
        (if ¬owned then .ok false else do
          let listing ← (Pending.after calls).listing committed name
          pure (decide (listing = ∅)))
        owned record calls name ↔
      Answerable owned record calls name := by
  rw [answerable_iff]
  by_cases howned : owned
  · rw [if_neg (not_not.mpr howned), forall_prop_of_true howned, ← emptyListing_iff hcommitted, RightAnswer]
    simp only [howned, true_and]
    cases (Pending.after calls).listing committed name with
    | error e => exact iff_of_false (by intro ⟨_, h, _⟩; cases h) (by simp)
    | ok listing =>
        show (∃ removable, Except.ok (decide (listing = ∅)) = Except.ok removable ∧ _) ↔ _
        simp
  · rw [if_pos howned]
    exact iff_of_true ⟨false, rfl, by simp [howned]⟩ fun h => absurd h howned

/-- The answers of both persistors are right exactly when the pending calls leave them answerable. -/
theorem isRemovable_right_iff {swdb : Swdb} (hswdb : swdb.Documented) (calls : List (Call × CompsItem)) (name : String) :
    (RightAnswer (isRemovablePkg swdb (Pending.after calls) name) (swdb.resolveReason name = .group) swdb.getCompsGroupItem calls name ↔
        Answerable (swdb.resolveReason name = .group) swdb.getCompsGroupItem calls name) ∧
      (RightAnswer (isRemovableGroup swdb (Pending.after calls) name) ((swdb.getCompsGroupItem name).isSome = true)
          swdb.getCompsEnvironmentItem calls name ↔
        Answerable ((swdb.getCompsGroupItem name).isSome = true) swdb.getCompsEnvironmentItem calls name) := by
  constructor
  · exact rightAnswer_iff _ (hswdb.getPackageCompsGroups name) calls
  · rw [← rightAnswer_iff _ (hswdb.getCompsGroupEnvironments name) calls, isRemovableGroup]
    cases swdb.getCompsGroupItem name <;> rfl

/-! ### A committed group and one pending call -/

/-- A history in which group `base`, and environment `desktop` over it, are the only items; `pepper` came in with the group. -/
def baseSwdb : Swdb where
  getCompsGroupItem id := if id = "base" then some ⟨"base", "Base", "Base", 4, [⟨"pepper", true, 4⟩]⟩ else none
  getCompsEnvironmentItem id := if id = "desktop" then some ⟨"desktop", "Desktop", "Desktop", 4, [⟨"base", true, 4⟩]⟩ else none
  getPackageCompsGroups name := if name = "pepper" then ["base"] else []
  getCompsGroupEnvironments name := if name = "base" then ["desktop"] else []
  resolveReason name := if name = "pepper" then .group else .unknown

theorem recorded_single {key member : String} {item : CompsItem} (hitem : item.members = [⟨member, true, 4⟩]) (name id : String) :
    id ∈ (if name = member then [key] else []) ↔ Recorded (fun i => if i = key then some item else none) name id := by
  simp only [Recorded, CompsItem.Lists, Option.ite_none_right_eq_some, Option.some.injEq]
  constructor
  · intro hid
    by_cases hname : name = member
    · rw [if_pos hname, List.mem_singleton] at hid
      exact ⟨item, ⟨hid, rfl⟩, ⟨member, true, 4⟩, by simp [hitem], hname.symm, rfl⟩
    · rw [if_neg hname] at hid
      exact absurd hid List.not_mem_nil
  · rintro ⟨_, ⟨hid, rfl⟩, m, hm, hname, _⟩
    rw [hitem, List.mem_singleton] at hm
    rw [if_pos (by rw [← hname, hm]), hid]
    exact List.mem_singleton.mpr rfl

theorem baseSwdb_documented : baseSwdb.Documented where
  getPackageCompsGroups := recorded_single rfl
  getCompsGroupEnvironments := recorded_single rfl

/-- A single call on the group, which removes it or leaves it without `pepper`. -/
theorem not_listedAfter_pepper {kind : Call} {obj : CompsItem} (hid : obj.id = "base") (hobj : kind = .remove ∨ ¬obj.Lists "pepper") :
    ¬∃ id, ListedAfter baseSwdb.getCompsGroupItem [(kind, obj)] "pepper" id := by
  intro ⟨id, hlisted⟩
  rw [ListedAfter, lastCall, List.reverse_singleton, List.find?_singleton, hid] at hlisted
  by_cases hbase : "base" = id
  · rw [if_pos (decide_eq_true hbase)] at hlisted
    cases kind <;> simp_all
  · rw [if_neg (by simpa using hbase)] at hlisted
    obtain ⟨item, hitem, -⟩ := hlisted
    exact hbase ((Option.ite_none_right_eq_some.mp hitem).1).symm

/-- The group as committed, and as a new definition without `pepper` has it. -/
def baseGroup : CompsItem := ⟨"base", "Base", "Base", 4, [⟨"pepper", true, 4⟩]⟩

def baseWithoutPepper : CompsItem := ⟨"base", "Base", "Base", 4, [⟨"tour", false, 4⟩]⟩

/-- Removing the group makes its package removable, and the answer says so. -/
theorem isRemovable_right_remove :
    isRemovablePkg baseSwdb (Pending.after [(.remove, baseGroup)]) "pepper" = .ok true ∧
      Answerable (baseSwdb.resolveReason "pepper" = .group) baseSwdb.getCompsGroupItem [(.remove, baseGroup)] "pepper" := by
  have hrun : isRemovablePkg baseSwdb (Pending.after [(.remove, baseGroup)]) "pepper" = .ok true := by decide +kernel
  refine ⟨hrun, (isRemovable_right_iff baseSwdb_documented _ "pepper").1.mp ⟨true, hrun, ?_⟩⟩
  exact iff_of_true rfl ⟨rfl, not_listedAfter_pepper rfl (Or.inl rfl)⟩

/-- A group upgrade that drops a package leaves it unremovable. -/
theorem not_isRemovable_right_upgrade :
    baseSwdb.Documented ∧
      ¬RightAnswer (isRemovablePkg baseSwdb (Pending.after [(.upgrade, baseWithoutPepper)]) "pepper")
        (baseSwdb.resolveReason "pepper" = .group) baseSwdb.getCompsGroupItem [(.upgrade, baseWithoutPepper)] "pepper" := by
  refine ⟨baseSwdb_documented, fun ⟨removable, hrun, hright⟩ => ?_⟩
  have hfalse : isRemovablePkg baseSwdb (Pending.after [(.upgrade, baseWithoutPepper)]) "pepper" = .ok false := by decide +kernel
  rw [hfalse, Except.ok.injEq] at hrun
  subst hrun
  exact absurd (hright.mpr ⟨rfl, not_listedAfter_pepper rfl (Or.inr (by decide +kernel))⟩) Bool.false_ne_true

end Dnf.History
