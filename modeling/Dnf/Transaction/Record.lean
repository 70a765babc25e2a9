import Mathlib.Data.List.Basic
import Dnf.Transaction.Conservation

/-!
# The rpm run and its record

`_run_transaction` begins the history transaction, lets rpm run, carries the failures of rpm's elements over to the items and ends the history transaction with a state it reads off the items. An element of a new package carries its item as a key; the erasure of a package has none, and its item is the first backward one with that NEVRA whose state is still unknown. libdnf's `endTransaction` stores the state it is given.
-/

namespace Dnf.Transaction

open History Foundation

/-- A call on the rpm transaction set; the key of a new package is the position of its item. -/
inductive TsCall
  | addInstall (key : Nat) (how : Char)
  | addReinstall (key : Nat)
  | addErase (pkg : Option Package)

def TsCall.key : TsCall → Option Nat
  | .addInstall key _ => some key
  | .addReinstall key => some key
  | .addErase _ => none

def populateItem (item : Item) (n : Nat) : Option TsCall :=
  match item.action with
  | .downgrade => some (.addInstall n 'u')
  | .downgraded => some (.addErase item.pkg)
  | .install => some (.addInstall n 'i')
  | .obsolete => some (.addInstall n 'u')
  | .obsoleted => some (.addErase item.pkg)
  | .reinstall => some (.addReinstall n)
  | .reinstalled => some (.addErase item.pkg)
  | .remove => some (.addErase item.pkg)
  | .upgrade => some (.addInstall n 'u')
  | .upgraded => some (.addErase item.pkg)
  | .reasonChange => none

def populateRpmTs (items : List Item) : List TsCall := items.zipIdx.filterMap fun entry => populateItem entry.1 entry.2

/-- An element of the rpm transaction: `_te_nevra`, `Key()` and `Failed()`. -/
structure Element where
  nevra : String
  key : Option Nat
  failed : Bool

/-- What rpm leaves behind: its elements and the value of `ts.run`, which is `None` for success, the empty list where something failed, and else the problems that kept it from starting. rpm may add erasures and drop elements, but it makes up no key. -/
structure RpmRun (items : List Item) where
  elements : List Element
  errors : Option (List String)
  keys : (elements.filterMap Element.key).Subperm ((populateRpmTs items).filterMap TsCall.key)
  notStarted : ∀ problem rest, errors = some (problem :: rest) → ∀ el ∈ elements, el.failed = false

inductive TransactionState
  | done
  | error
  deriving DecidableEq

structure RunState where
  items : List Item
  groups : List CompsItem
  tid : Bool
  ended : Option TransactionState
  transSuccess : Bool
  transInstallSet : Bool

inductive RunExc
  | error (message : String)
  | runtimeError
  deriving DecidableEq

/-- `history_record`, the test flag, and the names in the rpmdb after the run. -/
structure RunConf where
  historyRecord : Bool
  test : Bool
  installedNames : String → Bool

def RunConf.recordHistory (conf : RunConf) : Bool := conf.historyRecord && !conf.test

/-- A candidate for an element without a key. -/
def revertCandidate (nevra : String) (item : Item) : Bool :=
  item.state = .unknown && isBackward item.action && item.nevra.text = nevra

def Item.setState (item : Item) (state : ItemState) : Item := { item with state := state }

def Element.state (el : Element) : ItemState := if el.failed then .error else .done

def syncElement (items : List Item) (el : Element) : List Item :=
  match el.key with
  | some n => items.modify n fun item => item.setState el.state
  | none => items.replaceF fun item => if revertCandidate el.nevra item then some (item.setState el.state) else none

def syncRpmTransWithSwdb (elements : List Element) (items : List Item) : List Item := elements.foldl syncElement items

def markInstalled (names : String → Bool) (group : CompsItem) : CompsItem :=
  { group with members := group.members.map fun p => if names p.name then { p with installed := true } else p }

/-- `SwdbInterface.end`, without a given state. -/
def endTransaction (s : RunState) : RunState :=
  if s.tid then { s with ended := some (if s.items.any fun tsi => tsi.state = .error then .error else .done) } else s

def verifyTransaction (conf : RunConf) (s : RunState) : RunState :=
  { endTransaction { s with groups := s.groups.map (markInstalled conf.installedNames) } with transSuccess := true }

/-- `_run_transaction`, once rpm's errors are dealt with. -/
def finishTransaction (conf : RunConf) : EStateM RunExc RunState Unit := do
  match installSet (← get).items with
  | .ok installs => modify fun s => { s with transInstallSet := installs ≠ ∅ }
  | .error _ => throw .runtimeError
  if !conf.test then
    modify (verifyTransaction conf)

def runTransaction (conf : RunConf) {items : List Item} (ts : RpmRun items) : EStateM RunExc RunState Unit := do
  if conf.recordHistory then
    modify fun s => { s with tid := true, ended := none }
  modify fun s => { s with items := syncRpmTransWithSwdb ts.elements s.items }
  match ts.errors with
  | none => pure ()
  | some [] =>
      if ts.elements.all fun el => !el.failed then
        throw (.error "Could not run transaction.")
  | some (_ :: _) =>
      if conf.recordHistory && !conf.test then
        modify endTransaction
      throw (.error "Could not run transaction.")
  finishTransaction conf

/-! ### Which failures reach an item -/

/-- An element without a key, for a NEVRA. -/
def Element.erases (nevra : String) (el : Element) : Bool := el.key.isNone && el.nevra = nevra

/-- The item is taken away under a NEVRA. -/
def goesAs (nevra : String) (item : Item) : Bool := isBackward item.action && item.nevra.text = nevra

/-- A failed element has an item: it is a new package, or the erasures of its NEVRA before it are fewer than the items of that NEVRA. -/
def FailedMatched (items : List Item) (elements : List Element) : Prop :=
  ∃ n el, elements[n]? = some el ∧ el.failed = true ∧
    (el.key = none → (elements.take n).countP (Element.erases el.nevra) < items.countP (goesAs el.nevra))

/-- The states of the items before the run: only a change of reason is done already. -/
def Fresh (items : List Item) : Prop := ∀ item ∈ items, item.state = if item.action = .reasonChange then .done else .unknown

theorem failedMatched_concat {items : List Item} {elements : List Element} {el : Element} :
    FailedMatched items (elements ++ [el]) ↔ FailedMatched items elements ∨
      (el.failed = true ∧ (el.key = none → elements.countP (Element.erases el.nevra) < items.countP (goesAs el.nevra))) := by
  constructor
  · rintro ⟨n, el', hel, hfailed, hmatched⟩
    by_cases hn : n < elements.length
    · rw [List.getElem?_append_left hn] at hel
      rw [List.take_append_of_le_length hn.le] at hmatched
      exact .inl ⟨n, el', hel, hfailed, hmatched⟩
    · rw [List.getElem?_append_right (by omega)] at hel
      obtain rfl := List.mem_singleton.mp (List.mem_of_getElem? hel)
      have hlength := (List.getElem?_eq_some_iff.mp hel).1
      rw [List.length_singleton] at hlength
      rw [List.take_append_of_le_length (by omega), List.take_of_length_le (by omega)] at hmatched
      exact .inr ⟨hfailed, hmatched⟩
  · rintro (⟨n, el', hel, hfailed, hmatched⟩ | ⟨hfailed, hmatched⟩)
    · have hn := (List.getElem?_eq_some_iff.mp hel).1
      refine ⟨n, el', by rw [List.getElem?_append_left hn, hel], hfailed, ?_⟩
      rwa [List.take_append_of_le_length hn.le]
    · refine ⟨elements.length, el, by simp, hfailed, ?_⟩
      rwa [List.take_append_of_le_length le_rfl, List.take_length]

/-- An element with a key changes the state of the item at that place. -/
theorem syncElement_of_key {items : List Item} {el : Element} {k : Nat} {item : Item} (hkey : el.key = some k) (hat : items[k]? = some item) :
    ∃ before after, items = before ++ item :: after ∧ k = before.length ∧ syncElement items el = before ++ item.setState el.state :: after := by
  have hk := (List.getElem?_eq_some_iff.mp hat).1
  obtain ⟨before, item', after, heq, hlength, hmodify⟩ := List.exists_of_modify (fun item : Item => item.setState el.state) hk
  rw [heq, ← hlength, List.getElem?_append_right le_rfl, Nat.sub_self, List.getElem?_cons_zero, Option.some.injEq] at hat
  subst hat
  refine ⟨before, after, heq, hlength.symm, ?_⟩
  rw [syncElement, hkey]
  exact hmodify

/-- An element without one takes the first candidate, if there is one. -/
theorem syncElement_of_key_none (items : List Item) {el : Element} (hkey : el.key = none) :
    (∃ before item after, items = before ++ item :: after ∧ syncElement items el = before ++ item.setState el.state :: after ∧
      revertCandidate el.nevra item = true) ∨ syncElement items el = items ∧ ∀ item ∈ items, revertCandidate el.nevra item = false := by
  rw [syncElement, hkey]
  by_cases hcandidate : ∃ item ∈ items, revertCandidate el.nevra item = true
  · obtain ⟨item, hitem, hrevert⟩ := hcandidate
    obtain ⟨a, a', before, after, _, ha, heq, hreplace⟩ := List.exists_of_replaceF hitem
      (p := fun item : Item => if revertCandidate el.nevra item then some (item.setState el.state) else none) (if_pos hrevert)
    rw [Option.ite_none_right_eq_some, Option.some.injEq] at ha
    obtain ⟨hrevert', rfl⟩ := ha
    exact .inl ⟨before, a, after, heq, hreplace, hrevert'⟩
  · have hnone : ∀ item ∈ items, revertCandidate el.nevra item = false := fun item hitem =>
      Bool.eq_false_iff.mpr fun hrevert => hcandidate ⟨item, hitem, hrevert⟩
    refine .inr ⟨List.replaceF_of_forall_none fun item hitem => ?_, hnone⟩
    rw [hnone item hitem]
    rfl

/-- Either way it changes the state of one item, or nothing. -/
theorem syncElement_cases (items : List Item) (el : Element) :
    (∃ before item after, items = before ++ item :: after ∧ syncElement items el = before ++ item.setState el.state :: after) ∨
      syncElement items el = items := by
  cases hkey : el.key with
  | none =>
      rcases syncElement_of_key_none items hkey with ⟨before, item, after, heq, hsync, _⟩ | ⟨hsync, _⟩
      · exact .inl ⟨before, item, after, heq, hsync⟩
      · exact .inr hsync
  | some k =>
      cases hat : items[k]? with
      | none =>
          rw [syncElement, hkey]
          exact .inr (List.modify_eq_self (List.getElem?_eq_none_iff.mp hat))
      | some item =>
          obtain ⟨before, after, heq, _, hsync⟩ := syncElement_of_key hkey hat
          exact .inl ⟨before, item, after, heq, hsync⟩

theorem isForward_eq_false_of_candidate {nevra : String} {item : Item} (h : revertCandidate nevra item = true) : isForward item.action = false := by
  rw [revertCandidate, Bool.and_eq_true, Bool.and_eq_true] at h
  cases haction : item.action with
  | _ => first | rfl | (rw [haction] at h; exact absurd h.1.2 (by decide))

theorem Fresh.candidate_eq {items : List Item} (hfresh : Fresh items) (nevra : String) :
    ∀ item ∈ items, revertCandidate nevra item = goesAs nevra item := by
  intro item hitem
  have hstate := hfresh item hitem
  rw [revertCandidate, goesAs]
  cases hback : isBackward item.action with
  | false => rw [Bool.and_false, Bool.false_and]
  | true =>
      rw [if_neg fun hreason => by rw [hreason] at hback; cases hback] at hstate
      rw [hstate]
      rfl

theorem getElem?_change {before after : List Item} {a b : Item} {k : Nat} (hk : k ≠ before.length) :
    (before ++ a :: after)[k]? = (before ++ b :: after)[k]? := by
  by_cases hlt : k < before.length
  · rw [List.getElem?_append_left hlt, List.getElem?_append_left hlt]
  · obtain ⟨m, hm⟩ : ∃ m, k - before.length = m + 1 := ⟨k - before.length - 1, by omega⟩
    rw [List.getElem?_append_right (by omega), List.getElem?_append_right (by omega), hm, List.getElem?_cons_succ, List.getElem?_cons_succ]

def failedItem (item : Item) : Bool := item.state = .error

/-- The items after some elements: a new package whose element is still to come is as it was, a NEVRA has lost as many candidates as it had erasures, and the failed items are the matched failures. -/
structure Synced (items now : List Item) (elements : List Element) : Prop where
  untouched : ∀ k item, items[k]? = some item → isForward item.action = true → k ∉ elements.filterMap Element.key → now[k]? = some item
  pending : ∀ nevra, now.countP (revertCandidate nevra) = items.countP (goesAs nevra) - elements.countP (Element.erases nevra)
  failed : now.any failedItem = true ↔ FailedMatched items elements

theorem synced_nil {items : List Item} (hfresh : Fresh items) : Synced items items [] := by
  refine ⟨fun _ _ hitem _ _ => hitem, fun nevra => ?_, iff_of_false ?_ ?_⟩
  · rw [List.countP_nil, Nat.sub_zero]
    exact List.countP_congr fun item hitem => by rw [hfresh.candidate_eq nevra item hitem]
  · rw [Bool.not_eq_true, List.any_eq_false]
    intro item hitem
    rw [failedItem, hfresh item hitem]
    split_ifs <;> decide
  · rintro ⟨n, el, hel, _⟩
    cases hel

theorem any_change {before after : List Item} {item : Item} {state : ItemState} (hitem : item.state = .unknown) :
    (before ++ item.setState state :: after).any failedItem = true ↔ (before ++ item :: after).any failedItem = true ∨ state = .error := by
  simp only [List.any_append, List.any_cons, failedItem, Item.setState, hitem, Bool.or_eq_true, decide_eq_true_eq, reduceCtorEq]
  tauto

theorem countP_change (p : Item → Bool) (before after : List Item) (a b : Item) :
    (before ++ b :: after).countP p + (if p a then 1 else 0) = (before ++ a :: after).countP p + if p b then 1 else 0 := by
  rw [List.countP_append, List.countP_append, List.countP_cons, List.countP_cons]
  omega

theorem countP_erases_concat (elements : List Element) (el : Element) (nevra : String) :
    (elements ++ [el]).countP (Element.erases nevra) = elements.countP (Element.erases nevra) + if el.erases nevra then 1 else 0 := by
  rw [List.countP_append, List.countP_singleton]

theorem not_candidate_setState {nevra : String} {item : Item} {el : Element} : revertCandidate nevra (item.setState el.state) = false := by
  rw [revertCandidate, Item.setState, Element.state]
  split_ifs <;> rfl

theorem Element.state_eq_error {el : Element} : el.state = .error ↔ el.failed = true := by
  rw [Element.state]
  split_ifs with h
  · exact iff_of_true rfl h
  · exact iff_of_false (by decide) h

/-- The item of a new package is as it was before the run. -/
theorem Synced.concat_key {items now : List Item} {elements : List Element} {el : Element} {k : Nat} (hfresh : Fresh items)
    (hsynced : Synced items now elements) (hkey : el.key = some k) (hforward : ∃ item, items[k]? = some item ∧ isForward item.action = true)
    (hnew : k ∉ elements.filterMap Element.key) : Synced items (syncElement now el) (elements ++ [el]) := by
  obtain ⟨item, hitem, hforward⟩ := hforward
  have hat := hsynced.untouched k item hitem hforward hnew
  have hstate := hfresh item (List.mem_of_getElem? hitem)
  rw [if_neg fun hreason => by rw [hreason] at hforward; cases hforward] at hstate
  have herases : ∀ nevra, el.erases nevra = false := fun nevra => by rw [Element.erases, hkey]; rfl
  obtain ⟨before, after, rfl, rfl, hsync⟩ := syncElement_of_key hkey hat
  rw [hsync]
  refine ⟨fun k' old hold hforward' hk' => ?_, fun nevra => ?_, ?_⟩
  · rw [List.filterMap_append, List.mem_append, not_or] at hk'
    rw [getElem?_change fun hne => hk'.2 (by simp [hkey, hne]), hsynced.untouched k' old hold hforward' hk'.1]
  · have hitem' : revertCandidate nevra item = false :=
      Bool.eq_false_iff.mpr fun h => absurd hforward (by rw [isForward_eq_false_of_candidate h]; decide)
    have hcount := countP_change (revertCandidate nevra) before after item (item.setState el.state)
    rw [hitem', not_candidate_setState, hsynced.pending] at hcount
    rw [countP_erases_concat, herases]
    simp only [Bool.false_eq_true, if_false, Nat.add_zero] at hcount ⊢
    exact hcount
  · rw [any_change hstate, hsynced.failed, failedMatched_concat, Element.state_eq_error]
    exact or_congr_right (iff_self_and.mpr fun _ hnone => by rw [hkey] at hnone; cases hnone)

/-- An erasure adds no key and counts for its own NEVRA. -/
theorem keys_concat_erase {elements : List Element} {el : Element} (hkey : el.key = none) :
    (elements ++ [el]).filterMap Element.key = elements.filterMap Element.key := by
  rw [List.filterMap_append, List.filterMap_cons_none hkey, List.filterMap_nil, List.append_nil]

theorem erases_of_key_none {el : Element} (hkey : el.key = none) (nevra : String) : el.erases nevra = decide (el.nevra = nevra) := by
  rw [Element.erases, hkey]
  rfl

theorem Synced.concat_matched {items before after : List Item} {item : Item} {elements : List Element} {el : Element}
    (hsynced : Synced items (before ++ item :: after) elements) (hkey : el.key = none) (hcandidate : revertCandidate el.nevra item = true) :
    Synced items (before ++ item.setState el.state :: after) (elements ++ [el]) := by
  have hpending := hsynced.pending
  refine ⟨fun k old hold hforward hk => ?_, fun nevra => ?_, ?_⟩
  · rw [keys_concat_erase hkey] at hk
    have hat := hsynced.untouched k old hold hforward hk
    rw [getElem?_change, hat]
    rintro rfl
    rw [List.getElem?_append_right le_rfl, Nat.sub_self, List.getElem?_cons_zero, Option.some.injEq] at hat
    rw [← hat, isForward_eq_false_of_candidate hcandidate] at hforward
    cases hforward
  · have hcount := countP_change (revertCandidate nevra) before after item (item.setState el.state)
    rw [not_candidate_setState, hpending] at hcount
    rw [countP_erases_concat, erases_of_key_none hkey]
    by_cases hnevra : el.nevra = nevra
    · subst hnevra
      rw [hcandidate] at hcount
      simp only [decide_true, if_true, Bool.false_eq_true, if_false] at hcount ⊢
      omega
    · have hother : revertCandidate nevra item = false := by
        refine Bool.eq_false_iff.mpr fun h => hnevra ?_
        rw [revertCandidate, Bool.and_eq_true, decide_eq_true_eq] at h hcandidate
        exact hcandidate.2.symm.trans h.2
      rw [hother] at hcount
      simp only [hnevra, decide_false, Bool.false_eq_true, if_false] at hcount ⊢
      omega
  · have hpos : 0 < (before ++ item :: after).countP (revertCandidate el.nevra) :=
      List.countP_pos_iff.mpr ⟨item, List.mem_append_right _ List.mem_cons_self, hcandidate⟩
    rw [hpending] at hpos
    have hstate : item.state = .unknown := by
      rw [revertCandidate, Bool.and_eq_true, Bool.and_eq_true, decide_eq_true_eq] at hcandidate
      exact hcandidate.1.1
    rw [any_change hstate, hsynced.failed, failedMatched_concat, Element.state_eq_error]
    exact or_congr_right (iff_self_and.mpr fun _ _ => by omega)

theorem Synced.concat_unmatched {items now : List Item} {elements : List Element} {el : Element} (hsynced : Synced items now elements)
    (hkey : el.key = none) (hnone : ∀ item ∈ now, revertCandidate el.nevra item = false) : Synced items now (elements ++ [el]) := by
  have hpending := hsynced.pending
  have hzero : now.countP (revertCandidate el.nevra) = 0 :=
    List.countP_eq_zero.mpr fun item hitem => by rw [hnone item hitem]; decide
  rw [hpending] at hzero
  refine ⟨fun k old hold hforward hk => ?_, fun nevra => ?_, ?_⟩
  · rw [keys_concat_erase hkey] at hk
    exact hsynced.untouched k old hold hforward hk
  · rw [hpending, countP_erases_concat, erases_of_key_none hkey]
    by_cases hnevra : el.nevra = nevra
    · subst hnevra
      omega
    · rw [if_neg (by simpa using hnevra), Nat.add_zero]
  · rw [hsynced.failed, failedMatched_concat]
    exact (or_iff_left fun ⟨_, hmatched⟩ => by have := hmatched hkey; omega).symm

/-- An erasure takes one of the candidates that are left, if there is one. -/
theorem Synced.concat_erase {items now : List Item} {elements : List Element} {el : Element}
    (hsynced : Synced items now elements) (hkey : el.key = none) : Synced items (syncElement now el) (elements ++ [el]) := by
  rcases syncElement_of_key_none now hkey with ⟨before, item, after, rfl, hsync, hcandidate⟩ | ⟨hsync, hnone⟩
  · rw [hsync]
    exact hsynced.concat_matched hkey hcandidate
  · rw [hsync]
    exact hsynced.concat_unmatched hkey hnone

theorem synced_sync {items : List Item} (hfresh : Fresh items) {elements : List Element}
    (hkeys : ∀ k ∈ elements.filterMap Element.key, ∃ item, items[k]? = some item ∧ isForward item.action = true)
    (hnodup : (elements.filterMap Element.key).Nodup) : Synced items (syncRpmTransWithSwdb elements items) elements := by
  induction elements using List.reverseRecOn with
  | nil => exact synced_nil hfresh
  | append_singleton elements el ih =>
      rw [List.filterMap_append] at hkeys hnodup
      have hsynced := ih (fun k hk => hkeys k (List.mem_append_left _ hk)) (List.nodup_append.mp hnodup).1
      rw [syncRpmTransWithSwdb, List.foldl_append, List.foldl_cons, List.foldl_nil, ← syncRpmTransWithSwdb]
      cases hkey : el.key with
      | none => exact hsynced.concat_erase hkey
      | some k =>
          have hk : k ∈ [el].filterMap Element.key := by simp [hkey]
          refine hsynced.concat_key hfresh hkey (hkeys k (List.mem_append_right _ hk)) fun hmem => ?_
          exact (List.nodup_append.mp hnodup).2.2 k hmem k hk rfl

/-! ### What rpm was given -/

theorem populateItem_forward {item : Item} {n k : Nat} {call : TsCall} (hcall : populateItem item n = some call) (hkey : call.key = some k) :
    k = n ∧ isForward item.action = true := by
  rw [populateItem] at hcall
  cases haction : item.action with
  | _ =>
      rw [haction] at hcall
      cases hcall <;> first | exact ⟨(Option.some.inj hkey).symm, rfl⟩ | cases hkey

theorem forward_of_mem_keys {items : List Item} {k : Nat} (hk : k ∈ (populateRpmTs items).filterMap TsCall.key) :
    ∃ item, items[k]? = some item ∧ isForward item.action = true := by
  obtain ⟨call, hcall, hkey⟩ := List.mem_filterMap.mp hk
  obtain ⟨entry, hentry, hpopulate⟩ := List.mem_filterMap.mp hcall
  obtain ⟨rfl, hforward⟩ := populateItem_forward hpopulate hkey
  exact ⟨entry.1, List.mem_zipIdx_iff_getElem?.mp hentry, hforward⟩

theorem keys_nodup (items : List Item) : ((populateRpmTs items).filterMap TsCall.key).Nodup := by
  have hsublist : ∀ list : List (Item × Nat),
      ((list.filterMap fun entry => populateItem entry.1 entry.2).filterMap TsCall.key).Sublist (list.map Prod.snd) := by
    intro list
    induction list with
    | nil => exact List.Sublist.slnil
    | cons entry rest ih =>
        rw [List.map_cons]
        cases hcall : populateItem entry.1 entry.2 with
        | none =>
            simp only [List.filterMap_cons, hcall]
            exact ih.cons _
        | some call =>
            simp only [List.filterMap_cons, hcall]
            cases hkey : call.key with
            | none =>
                exact ih.cons _
            | some k =>
                rw [(populateItem_forward hcall hkey).1]
                exact ih.cons_cons _
  refine (hsublist items.zipIdx).nodup ?_
  rw [List.zipIdx_map_snd]
  exact List.nodup_range'

/-- The items as the goals build them: nothing has been run, and new packages are attached. -/
structure Built (items : List Item) : Prop where
  fresh : Fresh items
  attached : ∀ item ∈ items, isForward item.action = true → item.pkg ≠ none

section Run

variable {items : List Item} (ts : RpmRun items)

theorem RpmRun.synced (hbuilt : Built items) : Synced items (syncRpmTransWithSwdb ts.elements items) ts.elements := by
  refine synced_sync hbuilt.fresh (fun k hk => forward_of_mem_keys (ts.keys.subset hk)) ?_
  obtain ⟨keys, hperm, hsublist⟩ := ts.keys
  exact hperm.nodup_iff.mp (hsublist.nodup (keys_nodup items))

theorem map_sync {β : Type} {g : Item → β} (hg : ∀ item state, g (item.setState state) = g item) (elements : List Element) (items : List Item) :
    (syncRpmTransWithSwdb elements items).map g = items.map g := by
  induction elements generalizing items with
  | nil => rfl
  | cons el rest ih =>
      rw [syncRpmTransWithSwdb, List.foldl_cons, ← syncRpmTransWithSwdb, ih]
      rcases syncElement_cases items el with ⟨before, item, after, rfl, hsync⟩ | hsync
      · rw [hsync, List.map_append, List.map_append, List.map_cons, List.map_cons, hg]
      · rw [hsync]

theorem exists_installSet (hbuilt : Built items) (elements : List Element) :
    ∃ installs, installSet (syncRpmTransWithSwdb elements items) = .ok installs := by
  refine ⟨_, packageSet_eq fun item hitem hforward => ?_⟩
  have hmem : (item.action, item.pkg) ∈ (syncRpmTransWithSwdb elements items).map fun item => (item.action, item.pkg) :=
    List.mem_map.mpr ⟨item, hitem, rfl⟩
  rw [map_sync fun _ _ => rfl] at hmem
  obtain ⟨old, hold, heq⟩ := List.mem_map.mp hmem
  rw [Prod.mk.injEq] at heq
  rw [← heq.2]
  exact hbuilt.attached old hold (by rw [heq.1]; exact hforward)

/-- The state when rpm is through and its failures are carried over. -/
def synced (s : RunState) : RunState := { s with items := syncRpmTransWithSwdb ts.elements items, tid := true, ended := none }

/-- The record of the run: it is ended, and it is done exactly where rpm reported success. -/
def RecordedRightly (s : RunState) : Prop := s.ended ≠ none ∧ (s.ended = some .done ↔ ts.errors = none)

variable (names : String → Bool) (s : RunState)

theorem run_notStarted {problem : String} {rest : List String} (herrors : ts.errors = some (problem :: rest)) :
    Effect.final (runTransaction ⟨true, false, names⟩ ts { s with items := items }) = endTransaction (synced ts s) := by
  unfold runTransaction
  rw [herrors]
  rfl

theorem run_noFailure (herrors : ts.errors = some []) (hnone : ∀ el ∈ ts.elements, el.failed = false) :
    Effect.final (runTransaction ⟨true, false, names⟩ ts { s with items := items }) = synced ts s := by
  have hall : (ts.elements.all fun el => !el.failed) = true := List.all_eq_true.mpr fun el hel => by rw [hnone el hel]; rfl
  unfold runTransaction
  rw [herrors]
  simp only [hall, if_true]
  rfl

/-- rpm has run, and the record is ended with what the items say. -/
theorem run_verified (hbuilt : Built items) (herrors : ts.errors = none ∨ ts.errors = some [] ∧ ∃ el ∈ ts.elements, el.failed = true) :
    ∃ installed, Effect.final (runTransaction ⟨true, false, names⟩ ts { s with items := items }) =
      verifyTransaction ⟨true, false, names⟩ { synced ts s with transInstallSet := installed } := by
  obtain ⟨installs, hinstalls⟩ := exists_installSet hbuilt ts.elements
  have hfinish : finishTransaction ⟨true, false, names⟩ (synced ts s) =
      .ok () (verifyTransaction ⟨true, false, names⟩ { synced ts s with transInstallSet := installs ≠ ∅ }) := by
    rw [finishTransaction, Effect.bind_apply, Effect.get_apply]
    simp only [synced, hinstalls]
    rfl
  refine ⟨installs ≠ ∅, ?_⟩
  rcases herrors with herrors | ⟨herrors, el, hel, hfailed⟩
  · have hrun : runTransaction ⟨true, false, names⟩ ts { s with items := items } = finishTransaction ⟨true, false, names⟩ (synced ts s) := by
      unfold runTransaction
      rw [herrors]
      rfl
    rw [hrun, hfinish]
    rfl
  · have hall : (ts.elements.all fun el => !el.failed) = false := List.all_eq_false.mpr ⟨el, hel, by rw [hfailed]; decide⟩
    have hrun : runTransaction ⟨true, false, names⟩ ts { s with items := items } = finishTransaction ⟨true, false, names⟩ (synced ts s) := by
      unfold runTransaction
      rw [herrors]
      simp only [hall]
      rfl
    rw [hrun, hfinish]
    rfl

theorem endTransaction_ended {s : RunState} (htid : s.tid = true) :
    (endTransaction s).ended = some (if s.items.any failedItem then .error else .done) := by
  rw [endTransaction, if_pos htid]
  rfl

/-- The record says done where no failure reached an item. -/
theorem ended_iff (hbuilt : Built items) : (endTransaction (synced ts s)).ended = some .done ↔ ¬FailedMatched items ts.elements := by
  rw [← (ts.synced hbuilt).failed, endTransaction_ended rfl, synced]
  cases (syncRpmTransWithSwdb ts.elements items).any failedItem with
  | true => decide
  | false => decide

theorem exists_failed_of_matched {elements : List Element} (h : FailedMatched items elements) : ∃ el ∈ elements, el.failed = true := by
  obtain ⟨n, el, hel, hfailed, _⟩ := h
  exact ⟨el, List.mem_of_getElem? hel, hfailed⟩

theorem run_recordedRightly_iff (hbuilt : Built items) :
    RecordedRightly ts (Effect.final (runTransaction ⟨true, false, names⟩ ts { s with items := items })) ↔
      (ts.errors = none ∧ ¬FailedMatched items ts.elements) ∨ (ts.errors = some [] ∧ FailedMatched items ts.elements) := by
  have hended : (endTransaction (synced ts s)).ended ≠ none := by
    rw [endTransaction_ended rfl]
    exact Option.some_ne_none _
  have hverified : (∃ installed, Effect.final (runTransaction ⟨true, false, names⟩ ts { s with items := items }) =
      verifyTransaction ⟨true, false, names⟩ { synced ts s with transInstallSet := installed }) →
      (RecordedRightly ts (Effect.final (runTransaction ⟨true, false, names⟩ ts { s with items := items })) ↔
        (¬FailedMatched items ts.elements ↔ ts.errors = none)) := by
    rintro ⟨installed, hfinal⟩
    rw [hfinal, RecordedRightly, ← ended_iff ts s hbuilt]
    exact and_iff_right hended
  cases herrors : ts.errors with
  | none =>
      rw [hverified (run_verified ts names s hbuilt (.inl herrors)), herrors]
      simp
  | some problems =>
      cases problems with
      | cons problem rest =>
          rw [run_notStarted ts names s herrors, RecordedRightly, herrors, ended_iff ts s hbuilt]
          have hunmatched : ¬FailedMatched items ts.elements := by
            intro hmatched
            obtain ⟨el, hel, hfailed⟩ := exists_failed_of_matched hmatched
            rw [ts.notStarted problem rest herrors el hel] at hfailed
            cases hfailed
          simp [hunmatched]
      | nil =>
          by_cases hfailed : ∃ el ∈ ts.elements, el.failed = true
          · rw [hverified (run_verified ts names s hbuilt (.inr ⟨herrors, hfailed⟩)), herrors]
            simp
          · have hnone : ∀ el ∈ ts.elements, el.failed = false := fun el hel => Bool.eq_false_iff.mpr fun h => hfailed ⟨el, hel, h⟩
            rw [run_noFailure ts names s herrors hnone]
            refine iff_of_false (fun hright => hright.1 rfl) ?_
            rintro (⟨hnone, _⟩ | ⟨_, hmatched⟩)
            · cases hnone
            · exact hfailed (exists_failed_of_matched hmatched)

end Run

def millItems : List Item := [⟨Base.mill.nevra, "main", .install, .user, .unknown, some Base.mill, none⟩]

def millRun (errors : Option (List String)) (failed : Bool) (h : ∀ problem rest, errors = some (problem :: rest) → failed = false) : RpmRun millItems where
  elements := [⟨Base.mill.nevra.text, some 0, failed⟩]
  errors := errors
  keys := List.Subperm.refl _
  notStarted problem rest herrors el hel := by
    rw [List.mem_singleton.mp hel]
    exact h problem rest herrors

def millFailed : RpmRun millItems := millRun (some []) true fun _ _ h => by cases h
def millNotStarted : RpmRun millItems := millRun (some ["mill needs pepper"]) false fun _ _ _ => rfl
def millNotLocked : RpmRun millItems := millRun (some []) false fun _ _ _ => rfl

def millEnd (ts : RpmRun millItems) : RunState :=
  Effect.final (runTransaction ⟨true, false, fun _ => false⟩ ts { (⟨[], [], false, none, false, false⟩ : RunState) with items := millItems })

theorem millItems_built : Built millItems := by
  constructor
  · unfold Fresh
    decide
  · decide

theorem run_recordedRightly_iff_mill : RecordedRightly millFailed (millEnd millFailed) ↔
    (millFailed.errors = none ∧ ¬FailedMatched millItems millFailed.elements) ∨ (millFailed.errors = some [] ∧ FailedMatched millItems millFailed.elements) :=
  run_recordedRightly_iff millFailed (fun _ => false) ⟨[], [], false, none, false, false⟩ millItems_built

/-- A run that could not start is recorded as done, and the record of one that failed without a failed element stays open. -/
theorem not_run_recordedRightly : ¬RecordedRightly millNotStarted (millEnd millNotStarted) ∧ ¬RecordedRightly millNotLocked (millEnd millNotLocked) := by
  unfold RecordedRightly
  decide

/-! ### Goals build such items -/

theorem record_built {swdb : Swdb} {before : List Item} {entries : List Entry} (hbefore : Built before)
    (hproper : ∀ entry ∈ entries, entry.Proper) : Built (record swdb before entries) := by
  constructor
  · refine forall_mem_record hbefore.fresh fun entry hentry n item hitem => ?_
    have hentry := hproper entry hentry
    cases entry with
    | remove pkg reason => rw [List.mem_singleton.mp hitem]; rfl
    | change pkg reason => rw [List.mem_singleton.mp hitem]; rfl
    | add pkg action reason replaced =>
        rcases List.mem_cons.mp hitem with rfl | hitem
        · rw [if_neg]
          rintro rfl
          cases hentry.1
        · obtain ⟨old, hold, rfl⟩ := List.mem_map.mp hitem
          rw [if_neg]
          · rfl
          · intro hreason
            have hback := hentry.2 old hold
            rw [show old.2 = .reasonChange from hreason] at hback
            cases hback
  · refine forall_mem_record hbefore.attached fun entry _ n item hitem hforward => ?_
    refine entry.attached n item hitem fun hreason => ?_
    rw [hreason] at hforward
    cases hforward

theorem runSteps_built {swdb : Swdb} {steps : List Step} (hproper : ∀ entries, .ok entries ∈ steps → ∀ entry ∈ entries, entry.Proper)
    {before : List Item} (hbefore : Built before) : Built (Effect.final (runSteps swdb steps before)) := by
  induction steps generalizing before with
  | nil => exact hbefore
  | cons step rest ih =>
      cases step with
      | error e => exact hbefore
      | ok entries =>
          exact ih (fun entries' hentries' => hproper entries' (List.mem_cons_of_mem _ hentries'))
            (record_built hbefore (hproper entries List.mem_cons_self))

theorem Base.goal2transaction_built (base : Base) (goal : Goal) {before : List Item} (hbefore : Built before) :
    Built (Effect.final (base.goal2transaction goal before)) := by
  rw [goal2transaction_eq]
  exact runSteps_built (fun entries hstep entry hentry => (records_of_mem_steps hstep hentry).proper) hbefore

end Dnf.Transaction
