import Dnf.History.Removable

/-!
# Removals of committed records

In a transaction that only removes committed records, the answers of `is_removable_pkg` and `is_removable_group` are right: nothing is installed, upgraded or downgraded, so a record is listed afterwards unless it was removed. A record keeps a member once.
-/

namespace Dnf.History

variable {record : String → Option CompsItem} {calls : List (Call × CompsItem)} {name : String}

/-- libdnf's tables: a record is kept under its id, and has each member once. -/
structure Committed (record : String → Option CompsItem) : Prop where
  id : ∀ id item, record id = some item → item.id = id
  nodup : ∀ id item, record id = some item → (item.members.map Member.name).Nodup

/-- Each call removes the committed record of an id. -/
structure Removals (record : String → Option CompsItem) (calls : List (Call × CompsItem)) (ids : List String) : Prop where
  ids : calls.map (fun call => call.2.id) = ids
  removes : ∀ call ∈ calls, call.1 = .remove ∧ record call.2.id = some call.2

theorem Removals.nil : Removals record [] [] := ⟨rfl, fun call hcall => by cases hcall⟩

theorem Removals.concat {ids : List String} (h : Removals record calls ids) (hcommitted : Committed record) {id : String} {item : CompsItem}
    (hitem : record id = some item) : Removals record (calls ++ [(.remove, item)]) (ids ++ [id]) where
  ids := by rw [List.map_append, h.ids, List.map_singleton, hcommitted.id id item hitem]
  removes := fun call hcall => by
    rcases List.mem_append.mp hcall with hcall | hcall
    · exact h.removes call hcall
    · rw [List.mem_singleton.mp hcall]
      exact ⟨rfl, (hcommitted.id id item hitem).symm ▸ hitem⟩

theorem timesListed_le_one {item : CompsItem} (h : (item.members.map Member.name).Nodup) (name : String) : item.timesListed name ≤ 1 := by
  have hcount : item.timesListed name ≤ (item.members.map Member.name).count name := by
    rw [CompsItem.timesListed, List.count, List.countP_map]
    refine List.countP_mono_left fun m _ hm => ?_
    exact beq_iff_eq.mpr (of_decide_eq_true hm).1
  exact hcount.trans (List.nodup_iff_count_le_one.mp h name)

namespace Removals

variable {ids : List String}

/-- An id that was called was removed, as it is committed. -/
theorem lastCall_eq (h : Removals record calls ids) {id : String} {call : Call × CompsItem} (hlast : lastCall calls id = some call) :
    call.1 = .remove ∧ record id = some call.2 ∧ id ∈ ids := by
  have hmem : call ∈ calls := List.mem_reverse.mp (List.mem_of_find?_eq_some hlast)
  have hid : call.2.id = id := of_decide_eq_true (List.find?_some (p := fun call : Call × CompsItem => decide (call.2.id = id)) hlast)
  obtain ⟨hremove, hrecord⟩ := h.removes call hmem
  exact ⟨hremove, hid ▸ hrecord, h.ids ▸ List.mem_map.mpr ⟨call, hmem, hid⟩⟩

theorem lastCall_eq_none (h : Removals record calls ids) {id : String} (hid : id ∉ ids) : lastCall calls id = none := by
  cases hlast : lastCall calls id with
  | none => rfl
  | some call => exact absurd (h.lastCall_eq hlast).2.2 hid

theorem lastCall_isSome (h : Removals record calls ids) {id : String} (hid : id ∈ ids) : ∃ call, lastCall calls id = some call := by
  rw [← h.ids] at hid
  obtain ⟨call, hcall, hsame⟩ := List.mem_map.mp hid
  refine Option.isSome_iff_exists.mp ?_
  rw [lastCall, List.find?_isSome]
  exact ⟨call, List.mem_reverse.mpr hcall, decide_eq_true hsame⟩

/-- What a record lists is listed afterwards unless it was removed. -/
theorem listedAfter_iff (h : Removals record calls ids) {id : String} : ListedAfter record calls name id ↔ Recorded record name id ∧ id ∉ ids := by
  rw [ListedAfter]
  by_cases hid : id ∈ ids
  · obtain ⟨⟨kind, item⟩, hlast⟩ := h.lastCall_isSome hid
    obtain ⟨rfl, -, -⟩ := h.lastCall_eq hlast
    rw [hlast]
    exact iff_of_false not_false fun hboth => hboth.2 hid
  · rw [h.lastCall_eq_none hid]
    exact (and_iff_left hid).symm

theorem answerable (h : Removals record calls ids) (hcommitted : Committed record) (owned : Prop) : Answerable owned record calls name := by
  have hobject : ∀ id kind obj, lastObject calls kind id = some obj → kind = .remove ∧ record id = some obj := by
    intro id kind obj hobj
    obtain ⟨call, hfind, rfl⟩ := Option.map_eq_some_iff.mp hobj
    have hmem := List.mem_reverse.mp (List.mem_of_find?_eq_some hfind)
    obtain ⟨hkind, hid⟩ := of_decide_eq_true
      (List.find?_some (p := fun call : Call × CompsItem => decide (call.1 = kind ∧ call.2.id = id)) hfind)
    obtain ⟨hremove, hrecord⟩ := h.removes call hmem
    exact ⟨hkind ▸ hremove, hid ▸ hrecord⟩
  intro _
  refine ⟨fun id obj hobj hlists => ?_, ?_, ?_⟩
  · have hrecord := (hobject id .remove obj hobj).2
    have hle := timesListed_le_one (hcommitted.nodup id obj hrecord) name
    have hpos := CompsItem.lists_iff_timesListed.mp hlists
    exact ⟨Nat.le_antisymm hle hpos, obj, hrecord, hlists⟩
  · rintro ⟨id, ⟨kind, obj, hlast, hkind, -⟩, -⟩
    have hremove : kind = .remove := (h.lastCall_eq hlast).1
    rw [hremove] at hkind
    rcases hkind with hkind | hkind <;> cases hkind
  · rintro ⟨id, ⟨kind, obj, hlast, -⟩, hcounted⟩
    exfalso
    obtain ⟨hkind, hrecord, -⟩ := h.lastCall_eq hlast
    dsimp only at hkind hrecord
    subst hkind
    rcases hcounted with ⟨⟨item, hitem, hlists⟩, hnot⟩ | ⟨obj', hobj', -⟩
    · rw [hrecord, Option.some.injEq] at hitem
      exact hnot ⟨obj, lastObject_of_lastCall hlast, hitem ▸ hlists⟩
    · exact absurd (hobject id .install obj' hobj').1 (by decide)

end Removals

variable {swdb : Swdb} {ids : List String}

/-- An installed group is removable once every environment that lists it is removed. -/
theorem isRemovableGroup_of_removals (hswdb : swdb.Documented) (hcommitted : Committed swdb.getCompsEnvironmentItem)
    (h : Removals swdb.getCompsEnvironmentItem calls ids) (groupId : String) :
    isRemovableGroup swdb (Pending.after calls) groupId =
      .ok ((swdb.getCompsGroupItem groupId).isSome && (swdb.getCompsGroupEnvironments groupId).all (· ∈ ids)) := by
  obtain ⟨removable, hanswer, hiff⟩ := (isRemovable_right_iff hswdb calls groupId).2.mpr (h.answerable hcommitted _)
  rw [hanswer, Except.ok.injEq, Bool.eq_iff_iff, hiff, Bool.and_eq_true, List.all_eq_true]
  refine and_congr_right fun _ => ?_
  simp only [h.listedAfter_iff, ← hswdb.getCompsGroupEnvironments, not_exists, not_and, not_not, decide_eq_true_eq]

theorem isRemovablePkg_of_removals (hswdb : swdb.Documented) (hcommitted : Committed swdb.getCompsGroupItem)
    (h : Removals swdb.getCompsGroupItem calls ids) (pkgName : String) : ∃ removable, isRemovablePkg swdb (Pending.after calls) pkgName = .ok removable := by
  obtain ⟨removable, hanswer, -⟩ := (isRemovable_right_iff hswdb calls pkgName).1.mpr (h.answerable hcommitted _)
  exact ⟨removable, hanswer⟩

end Dnf.History
