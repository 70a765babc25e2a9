import Dnf.Transaction.Record

/-!
# Every element finds its item

The run of rpm has an element for each item: a new package's element has the item as its key, and the erasures of a NEVRA are as many as the items that go under it. Then the search for the first candidate never comes up empty, whatever the order of the elements: as long as an erasure is to come, one of the items of its NEVRA is still unknown. Which of them it is does not matter to the counts.
-/

namespace Dnf.Transaction

open History Foundation
open Replay (Nevra)

/-- `_te_nevra` -/
def teNevra (n : String) (e : Option String) (v r a : String) : String :=
  n ++ "-" ++ (if e = none ∨ e = some "0" then "" else e.getD "" ++ ":") ++ v ++ "-" ++ r ++ "." ++ a

theorem toString_eq_zero_iff (n : Nat) : toString n = "0" ↔ n = 0 := by
  constructor
  · intro h
    have hdigits : decimal n = decimal 0 := by
      have hlist := congrArg String.toList h
      rwa [show (toString n).toList = decimal n from String.toList_ofList] at hlist
    have hread := congrArg pyInt hdigits
    rw [pyInt_decimal, pyInt_decimal, Option.some.injEq] at hread
    exact_mod_cast hread
  · rintro rfl
    rfl

/-- rpm's parts of a NEVRA give the text that the history has for it. -/
theorem teNevra_eq_text {nevra : Nevra} {e : Option String} (he : e = some (toString nevra.epoch) ∨ e = none ∧ nevra.epoch = 0) :
    teNevra nevra.name e nevra.version nevra.release nevra.arch = nevra.text := by
  rw [teNevra, Nevra.text]
  rcases he with rfl | ⟨rfl, hzero⟩
  · have hiff : (some (toString nevra.epoch) = none ∨ some (toString nevra.epoch) = some "0") ↔ nevra.epoch = 0 := by
      rw [Option.some.injEq]
      exact (or_iff_right (Option.some_ne_none _)).trans (toString_eq_zero_iff _)
    simp only [hiff, Option.getD_some]
  · rw [if_pos (Or.inl rfl), if_pos hzero]

/-- The elements are one to one with the items: the keys are the positions of the new packages, and the other elements have the NEVRAs of the packages that go. -/
structure Corresponds (items : List Item) (elements : List Element) : Prop where
  nodup : (elements.filterMap Element.key).Nodup
  keys : ∀ k, k ∈ elements.filterMap Element.key ↔ ∃ item, items[k]? = some item ∧ isForward item.action = true
  erasures : ((elements.filter fun el => el.key.isNone).map Element.nevra).Perm
    ((items.filter fun item => isBackward item.action).map fun item => item.nevra.text)

theorem Corresponds.countP_erases {items : List Item} {elements : List Element} (h : Corresponds items elements) (nevra : String) :
    elements.countP (Element.erases nevra) = items.countP (goesAs nevra) := by
  have hcount := h.erasures.countP_eq (fun text => decide (text = nevra))
  rw [List.countP_map, List.countP_map, List.countP_filter, List.countP_filter] at hcount
  refine (List.countP_congr fun el _ => ?_).trans (hcount.trans (List.countP_congr fun item _ => ?_))
  · simp [Element.erases, and_comm]
  · simp [goesAs, and_comm]

/-- A failed erasure, and an item that went under a NEVRA and failed. -/
def Element.failsToErase (nevra : String) (el : Element) : Bool := el.erases nevra && el.failed

def failedAs (nevra : String) (item : Item) : Bool := goesAs nevra item && failedItem item

/-- The states the elements have given to the items so far. -/
structure Carried (items now : List Item) (elements : List Element) : Prop where
  synced : Synced items now elements
  keyed : ∀ el ∈ elements, ∀ k, el.key = some k → ∃ item, now[k]? = some item ∧ isForward item.action = true ∧ item.state = el.state
  failures : ∀ nevra, now.countP (failedAs nevra) = elements.countP (Element.failsToErase nevra)

theorem not_goesAs_of_forward {item : Item} (hforward : isForward item.action = true) (nevra : String) : goesAs nevra item = false := by
  rw [goesAs]
  cases hback : isBackward item.action with
  | false => rfl
  | true =>
      rw [not_isForward_of_isBackward hback] at hforward
      cases hforward

theorem failedAs_setState {nevra : String} {item : Item} {el : Element} : failedAs nevra (item.setState el.state) = (goesAs nevra item && el.failed) := by
  rw [failedAs]
  cases hfailed : el.failed with
  | true => simp [failedItem, Item.setState, Element.state, hfailed, goesAs]
  | false => simp [failedItem, Item.setState, Element.state, hfailed]

theorem carried_nil {items : List Item} (hfresh : Fresh items) : Carried items items [] := by
  refine ⟨synced_nil hfresh, fun el hel => absurd hel List.not_mem_nil, fun nevra => ?_⟩
  rw [List.countP_nil, List.countP_eq_zero]
  intro item hitem
  rw [failedAs, failedItem, hfresh item hitem]
  split_ifs <;> simp

/-- A change at another position leaves the item of a key alone. -/
theorem Carried.keyed_change {items before after : List Item} {item changed : Item} {elements : List Element}
    (h : Carried items (before ++ item :: after) elements) {el : Element} (hel : el ∈ elements) {k : Nat} (hkey : el.key = some k)
    (hne : k ≠ before.length) :
    ∃ item, (before ++ changed :: after)[k]? = some item ∧ isForward item.action = true ∧ item.state = el.state := by
  obtain ⟨old, hold, hrest⟩ := h.keyed el hel k hkey
  exact ⟨old, (getElem?_change hne).trans hold, hrest⟩

theorem countP_failsToErase_concat (elements : List Element) (el : Element) (nevra : String) :
    (elements ++ [el]).countP (Element.failsToErase nevra) =
      elements.countP (Element.failsToErase nevra) + if el.failsToErase nevra then 1 else 0 := by
  rw [List.countP_append, List.countP_singleton]

theorem Carried.concat_key {items now : List Item} {elements : List Element} {el : Element} {k : Nat} (hfresh : Fresh items)
    (h : Carried items now elements) (hkey : el.key = some k) (hforward : ∃ item, items[k]? = some item ∧ isForward item.action = true)
    (hnew : k ∉ elements.filterMap Element.key) : Carried items (syncElement now el) (elements ++ [el]) := by
  have hsynced := h.synced.concat_key hfresh hkey hforward hnew
  obtain ⟨old, hold, hforward⟩ := hforward
  have hat := h.synced.untouched k old hold hforward hnew
  obtain ⟨before, after, rfl, rfl, hsync⟩ := syncElement_of_key hkey hat
  rw [hsync] at hsynced ⊢
  refine ⟨hsynced, fun el' hel' k' hkey' => ?_, fun nevra => ?_⟩
  · rcases List.mem_append.mp hel' with hel' | hel'
    · exact h.keyed_change hel' hkey' fun hk => hnew (List.mem_filterMap.mpr ⟨el', hel', hk ▸ hkey'⟩)
    · obtain rfl := List.mem_singleton.mp hel'
      obtain rfl := Option.some.inj (hkey.symm.trans hkey')
      refine ⟨old.setState el'.state, ?_, hforward, rfl⟩
      rw [List.getElem?_append_right le_rfl, Nat.sub_self, List.getElem?_cons_zero]
  · have hcount := countP_change (failedAs nevra) before after old (old.setState el.state)
    rw [failedAs_setState, failedAs, not_goesAs_of_forward hforward, h.failures] at hcount
    rw [countP_failsToErase_concat, Element.failsToErase, Element.erases, hkey]
    simpa using hcount

/-- An erasure finds a candidate as long as the erasures of its NEVRA are no more than the items. -/
theorem Carried.concat_erase {items now : List Item} {elements : List Element} {el : Element} (h : Carried items now elements)
    (hkey : el.key = none) (hfew : elements.countP (Element.erases el.nevra) < items.countP (goesAs el.nevra)) :
    Carried items (syncElement now el) (elements ++ [el]) := by
  have hsynced := h.synced.concat_erase hkey
  rcases syncElement_of_key_none now hkey with ⟨before, item, after, rfl, hsync, hcandidate⟩ | ⟨_, hnone⟩
  · have hbackward := isForward_eq_false_of_candidate hcandidate
    rw [revertCandidate, Bool.and_eq_true, Bool.and_eq_true, decide_eq_true_eq, decide_eq_true_eq] at hcandidate
    obtain ⟨⟨hstate, hback⟩, htext⟩ := hcandidate
    rw [hsync] at hsynced ⊢
    refine ⟨hsynced, fun el' hel' k' hkey' => ?_, fun nevra => ?_⟩
    · rcases List.mem_append.mp hel' with hel' | hel'
      · refine h.keyed_change hel' hkey' ?_
        rintro rfl
        obtain ⟨old, hold, hforward, _⟩ := h.keyed el' hel' _ hkey'
        rw [List.getElem?_append_right le_rfl, Nat.sub_self, List.getElem?_cons_zero, Option.some.injEq] at hold
        rw [← hold, hbackward] at hforward
        cases hforward
      · obtain rfl := List.mem_singleton.mp hel'
        rw [hkey] at hkey'
        cases hkey'
    · have hcount := countP_change (failedAs nevra) before after item (item.setState el.state)
      have hgoes : goesAs nevra item = decide (el.nevra = nevra) := by rw [goesAs, hback, htext, Bool.true_and]
      rw [failedAs_setState, failedAs, failedItem, hstate, hgoes, h.failures] at hcount
      rw [countP_failsToErase_concat, Element.failsToErase, erases_of_key_none hkey]
      simpa using hcount
  · have hpending := h.synced.pending el.nevra
    have hzero : now.countP (revertCandidate el.nevra) = 0 := List.countP_eq_zero.mpr fun item hitem => by rw [hnone item hitem]; decide
    omega

theorem carried_sync {items : List Item} (hfresh : Fresh items) {elements : List Element}
    (hkeys : ∀ k ∈ elements.filterMap Element.key, ∃ item, items[k]? = some item ∧ isForward item.action = true)
    (hnodup : (elements.filterMap Element.key).Nodup)
    (herasures : ∀ nevra, elements.countP (Element.erases nevra) ≤ items.countP (goesAs nevra)) :
    Carried items (syncRpmTransWithSwdb elements items) elements := by
  induction elements using List.reverseRecOn with
  | nil => exact carried_nil hfresh
  | append_singleton elements el ih =>
      rw [List.filterMap_append] at hkeys hnodup
      simp only [countP_erases_concat] at herasures
      have hcarried := ih (fun k hk => hkeys k (List.mem_append_left _ hk)) (List.nodup_append.mp hnodup).1
        fun nevra => (Nat.le_add_right _ _).trans (herasures nevra)
      rw [syncRpmTransWithSwdb, List.foldl_append, List.foldl_cons, List.foldl_nil, ← syncRpmTransWithSwdb]
      cases hkey : el.key with
      | none =>
          refine hcarried.concat_erase hkey ?_
          have hthis := herasures el.nevra
          rw [erases_of_key_none hkey, decide_eq_true rfl, if_pos rfl] at hthis
          omega
      | some k =>
          have hk : k ∈ [el].filterMap Element.key := by simp [hkey]
          refine hcarried.concat_key hfresh hkey (hkeys k (List.mem_append_right _ hk)) fun hmem => ?_
          exact (List.nodup_append.mp hnodup).2.2 k hmem k hk rfl

/-- An item that is still unknown was not touched. -/
theorem mem_of_unknown {elements : List Element} {items : List Item} {item : Item} (hitem : item ∈ syncRpmTransWithSwdb elements items)
    (hstate : item.state = .unknown) : item ∈ items := by
  induction elements generalizing items with
  | nil => exact hitem
  | cons el rest ih =>
      rw [syncRpmTransWithSwdb, List.foldl_cons, ← syncRpmTransWithSwdb] at hitem
      have hmem := ih hitem
      rcases syncElement_cases items el with ⟨before, old, after, rfl, hsync⟩ | hsync
      · rw [hsync, List.mem_append, List.mem_cons] at hmem
        rw [List.mem_append, List.mem_cons]
        rcases hmem with hmem | rfl | hmem
        · exact .inl hmem
        · rw [Item.setState, Element.state] at hstate
          split_ifs at hstate
        · exact .inr (.inr hmem)
      · rwa [hsync] at hmem

/-- No item is left unknown, each new package has failed exactly if its element has, and each NEVRA has as many failed items as failed erasures. -/
structure RightlySynced (elements : List Element) (now : List Item) : Prop where
  known : ∀ item ∈ now, item.state ≠ .unknown
  keyed : ∀ el ∈ elements, ∀ k, el.key = some k → ∃ item, now[k]? = some item ∧ (item.state = .error ↔ el.failed = true)
  erased : ∀ nevra, now.countP (failedAs nevra) = elements.countP (Element.failsToErase nevra)

theorem syncRpmTransWithSwdb_rightly {items : List Item} {elements : List Element} (hfresh : Fresh items) (hcorresponds : Corresponds items elements) :
    RightlySynced elements (syncRpmTransWithSwdb elements items) := by
  have hcarried := carried_sync hfresh (fun k => (hcorresponds.keys k).mp) hcorresponds.nodup fun nevra => (hcorresponds.countP_erases nevra).le
  refine ⟨fun item hitem hstate => ?_, fun el hel k hkey => ?_, hcarried.failures⟩
  · have hold := mem_of_unknown hitem hstate
    rcases action_kind item.action with hforward | hback | hreason
    · obtain ⟨k, hk⟩ := List.mem_iff_getElem?.mp hitem
      have hactions := congrArg (fun actions => actions[k]?) (map_sync (g := Item.action) (fun _ _ => rfl) elements items)
      simp only [List.getElem?_map, hk, Option.map_some] at hactions
      obtain ⟨old, hat, haction⟩ := Option.map_eq_some_iff.mp hactions.symm
      have hmem := (hcorresponds.keys k).mpr ⟨old, hat, by rw [haction, hforward]⟩
      obtain ⟨el, hel, hkey⟩ := List.mem_filterMap.mp hmem
      obtain ⟨item', hitem', _, hstate'⟩ := hcarried.keyed el hel k hkey
      rw [hk, Option.some.injEq] at hitem'
      rw [← hitem', hstate, Element.state] at hstate'
      split_ifs at hstate'
    · have hcandidate : revertCandidate item.nevra.text item = true := by simp [revertCandidate, hstate, hback]
      have hpos := List.countP_pos_iff.mpr ⟨item, hitem, hcandidate⟩
      rw [hcarried.synced.pending, hcorresponds.countP_erases, Nat.sub_self] at hpos
      exact absurd hpos (Nat.lt_irrefl 0)
    · rw [hfresh item hold, if_pos hreason] at hstate
      cases hstate
  · obtain ⟨item, hat, _, hstate⟩ := hcarried.keyed el hel k hkey
    exact ⟨item, hat, by rw [hstate, Element.state_eq_error]⟩

/-- Pepper is reinstalled, and replaces a second pepper of the same NEVRA. -/
def twoPeppers : List Item :=
  record Base.spiceBase.swdb [] [.add Base.pepper .reinstall .user (replacing Base.pepper .reinstalled [{ Base.pepper with id := 5 }])]

/-- One of the two erasures fails. -/
def twoErasures : List Element :=
  [⟨Base.pepper.nevra.text, none, false⟩, ⟨Base.pepper.nevra.text, some 0, false⟩, ⟨Base.pepper.nevra.text, none, true⟩]

theorem syncRpmTransWithSwdb_rightly_peppers : RightlySynced twoErasures (syncRpmTransWithSwdb twoErasures twoPeppers) := by
  refine syncRpmTransWithSwdb_rightly (by unfold Fresh; decide) ⟨by decide, fun k => ?_, by decide⟩
  have hkeys : twoErasures.filterMap Element.key = [0] := rfl
  rw [hkeys, List.mem_singleton]
  constructor
  · rintro rfl
    exact ⟨_, rfl, rfl⟩
  · rintro ⟨item, hitem, hforward⟩
    match k with
    | 0 => rfl
    | 1 =>
        cases hitem
        cases hforward
    | 2 =>
        cases hitem
        cases hforward
    | k + 3 => cases hitem

end Dnf.Transaction
