import Dnf.Foundation.Fallible
import Dnf.Foundation.Log
import Dnf.Replay.Restore

/-!
# `history undo`

Undoing a recorded transaction replays its stored form with every action turned into its opposite. What was brought in is erased and what was taken off is installed, so on the system after the transaction the marks lead back to the packages before it. Groups and environments are undone by the last item of each id: its opposite is the last one that is registered.
-/

namespace Dnf.Replay

open History Groups Foundation Foundation.Effect

/-- `resolveReason name arch tid` is `resolveRPMTransactionItemReason`, the reason as of the transaction `tid`. -/
structure HistoryCommand where
  base : Base
  skipUnavailable : Bool
  resolveReason : String → String → Int → Reason

def actionMap : List (String × String) :=
  [("Install", "Removed"), ("Removed", "Install"), ("Upgrade", "Downgraded"), ("Upgraded", "Downgrade"), ("Downgrade", "Upgraded"),
    ("Downgraded", "Upgrade"), ("Reinstalled", "Reinstall"), ("Reinstall", "Reinstalled"), ("Obsoleted", "Install"), ("Obsolete", "Obsoleted"),
    ("Reason Change", "Reason Change")]

def reverseAction (action : Json) : Except Exc String :=
  match action with
  | .str text =>
      match actionMap.lookup text with
      | some reversed => .ok reversed
      | none => .error (.keyError text)
  | _ => .error .other

/-- What a transaction does to the groups or environments, in order. -/
def RecordedTransaction.changes (recorded : RecordedTransaction) (kind : Kind) : List (String × Action) :=
  (recorded.comps kind).map fun record => (record.item.id, record.action)

/-- Any change but a removal leaves the item installed. -/
def stays (action : Action) : Bool := action ≠ .remove

/-- The installed groups or environments after the transaction. -/
def RecordedTransaction.applyComps (recorded : RecordedTransaction) (kind : Kind) (ids : Set String) : Set String :=
  Log.replay stays (recorded.changes kind) ids

/-- What the current transaction does to them. -/
def changesOf (history : SwdbInterface) (kind : Kind) : List (String × Action) :=
  (history.items.filter fun registered => registered.kind = kind).map fun registered => (registered.item.id, registered.action)

namespace HistoryCommand

variable (command : HistoryCommand)

/-- A reason change goes back to the reason before the transaction. -/
def revertReason (tids : List Int) (ti : List (String × Json)) : Except Exc (List (String × Json)) := do
  let nevra ← TransactionReplay.access ((Json.obj ti).get "nevra")
  match nevra with
  | .str text =>
      match command.base.lib.subject text, tids with
      | parsed :: _, tid :: _ =>
          let reason := command.resolveReason parsed.name parsed.arch (tid - 1)
          pure (Json.set ti "reason" (.str (command.base.lib.reasonToString reason)))
      | _, _ => throw .indexError
  | _ => throw .typeError

/-- The body of the loop over the stored items. -/
def revertItem (tids : List Int) (ti : List (String × Json)) : Except Exc (List (String × Json)) := do
  let action ← TransactionReplay.access ((Json.obj ti).get "action")
  let reversed ← reverseAction action
  let ti := Json.set ti "action" (.str reversed)
  let ti := if reversed = "Install" ∧ (Json.getD ti "reason" .null).isText "clean" then Json.set ti "reason" (.str "dependency") else ti
  let ti ← if reversed = "Reason Change" ∧ (ti.lookup "nevra").isSome then command.revertReason tids ti else pure ti
  -- a forward action cannot be performed from the repository of the installed packages
  pure (if (Json.getD ti "repo_id" .null).isText systemRepoName then Json.set ti "repo_id" .null else ti)

def revertValue (tids : List Int) (ti : Json) : Except Exc Json :=
  match ti with
  | .obj fields => do
      let fields ← command.revertItem tids fields
      pure (.obj fields)
  | _ => throw .typeError

def revertField (tids : List Int) (field : String × Json) : Except Exc (String × Json) :=
  if field.1 ∈ ["rpms", "groups", "environments"] then
    match field.2 with
    | .arr elems => do
        let elems ← elems.mapM (command.revertValue tids)
        pure (field.1, .arr elems)
    | _ => pure field
  else pure field

def revertData (tids : List Int) (data : Json) : Except Exc Json :=
  match data with
  | .obj fields => do
      let fields ← fields.mapM (command.revertField tids)
      pure (.obj fields)
  | _ => throw .other

def replay : TransactionReplay := ⟨command.base, ⟨"", true, true, command.skipUnavailable⟩⟩

def revertTransaction (trans : Option RecordedTransaction) : Prog Unit := do
  let tids := (trans.map RecordedTransaction.tids).getD []
  let data ← lift (command.revertData tids (serializeTransaction command.base.lib trans))
  let loaded ← lift (command.replay.loadFromData data)
  command.replay.run loaded

/-! ### The reversed items -/

/-- What `action_map` makes of an action. -/
def reverseOf : Action → Action
  | .install => .remove
  | .remove => .install
  | .upgrade => .downgraded
  | .upgraded => .downgrade
  | .downgrade => .upgraded
  | .downgraded => .upgrade
  | .reinstalled => .reinstall
  | .reinstall => .reinstalled
  | .obsoleted => .install
  | .obsolete => .obsoleted
  | .reasonChange => .reasonChange

theorem reverseAction_text (action : Action) : reverseAction (.str (actionText action)) = .ok (actionText (reverseOf action)) := by
  cases action <;> rfl

theorem isForward_reverseOf (action : Action) : isForward (reverseOf action) = isBackward action := by
  cases action <;> rfl

theorem isBackward_reverseOf (action : Action) : isBackward (reverseOf action) = isForward action := by
  cases action <;> rfl

theorem reverseOf_ne_obsolete (action : Action) : reverseOf action ≠ .obsolete := by
  cases action <;> decide

/-! ### The reversed document -/

/-- The reason an rpm item has after its reversal. -/
def reversedReason (tid : Int) (record : RpmRecord) : String :=
  if reverseOf record.action = .install ∧ command.base.lib.reasonToString record.reason = "clean" then "dependency"
  else if reverseOf record.action = .reasonChange then
    command.base.lib.reasonToString (command.resolveReason record.nevra.name record.nevra.arch (tid - 1))
  else command.base.lib.reasonToString record.reason

def reversed (tid : Int) (record : RpmRecord) : StoredRpm :=
  ⟨reverseOf record.action, record.nevra, command.reversedReason tid record, if record.fromRepo = systemRepoName then none else some record.fromRepo⟩

theorem actionText_eq_install_iff {action : Action} : actionText action = "Install" ↔ action = .install := by
  cases action <;> decide

theorem actionText_eq_reasonChange_iff {action : Action} : actionText action = "Reason Change" ↔ action = .reasonChange := by
  cases action <;> decide

/-- The name and the architecture of the only possibility are those of the NEVRA. -/
theorem subject_of_parsedNevra {n : Nevra} (h : command.replay.parsedNevra n.text = some n) :
    ∃ parsed, command.base.lib.subject n.text = [parsed] ∧ parsed.name = n.name ∧ parsed.arch = n.arch := by
  rw [TransactionReplay.parsedNevra] at h
  split at h
  · next parsed hsubject =>
      refine ⟨parsed, hsubject, ?_, ?_⟩
      · exact congrArg Nevra.name (Option.some.inj h)
      · exact congrArg Nevra.arch (Option.some.inj h)
  · cases h

def rpmFields (action : String) (n : Nevra) (reason : String) (repoId : Json) : List (String × Json) :=
  [("action", .str action), ("nevra", .str n.text), ("reason", .str reason), ("repo_id", repoId)]

theorem get_rpmFields (action : String) (n : Nevra) (reason : String) (repoId : Json) :
    TransactionReplay.access ((Json.obj (rpmFields action n reason repoId)).get "action") = .ok (.str action) ∧
      TransactionReplay.access ((Json.obj (rpmFields action n reason repoId)).get "nevra") = .ok (.str n.text) ∧
      Json.getD (rpmFields action n reason repoId) "reason" .null = .str reason ∧
      Json.getD (rpmFields action n reason repoId) "repo_id" .null = repoId ∧
      ((rpmFields action n reason repoId).lookup "nevra").isSome = true :=
  ⟨rfl, rfl, rfl, rfl, rfl⟩

theorem set_rpmFields (action : String) (n : Nevra) (reason : String) (repoId : Json) (text : String) :
    Json.set (rpmFields action n reason repoId) "action" (.str text) = rpmFields text n reason repoId ∧
      Json.set (rpmFields action n reason repoId) "reason" (.str text) = rpmFields action n text repoId ∧
      Json.set (rpmFields action n reason repoId) "repo_id" .null = rpmFields action n reason .null :=
  ⟨rfl, rfl, rfl⟩

theorem revertReason_rpm (tid : Int) {n : Nevra} (hparsed : command.replay.parsedNevra n.text = some n) (action reason : String) (repoId : Json) :
    command.revertReason [tid] (rpmFields action n reason repoId) =
      .ok (rpmFields action n (command.base.lib.reasonToString (command.resolveReason n.name n.arch (tid - 1))) repoId) := by
  obtain ⟨parsed, hsubject, hname, harch⟩ := command.subject_of_parsedNevra hparsed
  rw [revertReason, (get_rpmFields action n reason repoId).2.1, ← hname, ← harch]
  simp only [bind, Except.bind, hsubject]
  rfl

theorem revertValue_rpmData (hlawful : command.base.lib.Lawful) (tid : Int) {record : RpmRecord}
    (hparsed : command.replay.parsedNevra record.nevra.text = some record.nevra) :
    command.revertValue [tid] (rpmData command.base.lib record) = .ok (command.reversed tid record).object := by
  have hget := get_rpmFields
  have hset := set_rpmFields
  have htext : ∀ text, (Json.str record.fromRepo).isText text = (record.fromRepo == text) := fun _ => rfl
  have hclean : (Json.str (command.base.lib.reasonToString record.reason)).isText "clean" =
      (command.base.lib.reasonToString record.reason == "clean") := rfl
  have hrepo : ∀ a r, (if record.fromRepo = systemRepoName then rpmFields a record.nevra r .null
      else rpmFields a record.nevra r (.str record.fromRepo)) = rpmFields a record.nevra r
        (if record.fromRepo = systemRepoName then .null else .str record.fromRepo) := by
    intro a r
    split_ifs <;> rfl
  have hobject : (command.reversed tid record).object = .obj (rpmFields (actionText (reverseOf record.action)) record.nevra
      (command.reversedReason tid record) (if record.fromRepo = systemRepoName then .null else .str record.fromRepo)) := by
    rw [StoredRpm.object, StoredRpm.repoValue, reversed]
    split_ifs <;> rfl
  rw [hobject, rpmData, hlawful.actionName_eq, rpmObject, revertValue, ← rpmFields, revertItem]
  simp only [(hget _ _ _ _).1, (hget _ _ _ _).2.2.1, (hset _ _ _ _ _).1, (hset _ _ _ _ _).2.1, reverseAction_text, bind, Except.bind, pure, Except.pure]
  by_cases hinstall : reverseOf record.action = .install ∧ command.base.lib.reasonToString record.reason = "clean"
  · have hchange : reverseOf record.action ≠ .reasonChange := by simp [hinstall.1]
    simp only [actionText_eq_install_iff, actionText_eq_reasonChange_iff, hclean, beq_iff_eq, if_pos hinstall, hchange, false_and, if_false,
      (hget _ _ _ _).2.2.2.1, (hset _ _ _ _ "").2.2, htext, hrepo, reversedReason]
  · by_cases hchange : reverseOf record.action = .reasonChange
    · simp only [actionText_eq_install_iff, actionText_eq_reasonChange_iff, hchange, reduceCtorEq, false_and, if_false, (hget _ _ _ _).2.2.2.2, true_and,
        if_true, command.revertReason_rpm tid hparsed, (hget _ _ _ _).2.2.2.1, (hset _ _ _ _ "").2.2, htext, beq_iff_eq, hrepo, reversedReason]
    · simp only [actionText_eq_install_iff, actionText_eq_reasonChange_iff, hclean, beq_iff_eq, if_neg hinstall, hchange, false_and, if_false,
        (hget _ _ _ _).2.2.2.1, (hset _ _ _ _ "").2.2, htext, hrepo, reversedReason]

theorem revertValue_compsData (hlawful : command.base.lib.Lawful) (tids : List Int) (kind : Kind) (record : CompsRecord) :
    command.revertValue tids (compsData command.base.lib kind record) =
      .ok (compsObject command.base.lib kind (actionText (reverseOf record.action)) record.item) := by
  rw [compsData, hlawful.actionName_eq, compsObject, revertValue, revertItem]
  cases kind <;>
    simp [TransactionReplay.access_get_obj, List.lookup_cons, membersKey, reverseAction_text, Json.set, Json.getD, Json.isText, compsObject, bind, Except.bind,
      pure, Except.pure]

theorem mapM_listField {ω : Type} {f h : ω → Json} {l : List ω} {tids : List Int} {key : String} (hkey : key ∈ ["rpms", "groups", "environments"])
    (hvalue : ∀ x ∈ l, command.revertValue tids (f x) = .ok (h x)) :
    (listField key (l.map f)).mapM (command.revertField tids) = .ok (listField key (l.map h)) := by
  simp only [listField, List.isEmpty_map]
  split_ifs
  · rfl
  · have helems : (l.map f).mapM (command.revertValue tids) = .ok (l.map h) := by
      rw [List.mapM_map]
      exact Fallible.mapM_ok hvalue
    rw [List.mapM_cons, revertField, if_pos hkey]
    simp only [helems]
    rfl

def undoneLists (tid : Int) (recorded : RecordedTransaction) : TransactionReplay.Loaded :=
  let comps kind := (recorded.comps kind).map fun record =>
    compsObject command.base.lib kind (actionText (reverseOf record.action)) record.item
  ⟨(recorded.rpms.map (command.reversed tid)).map StoredRpm.object, comps .group, comps .environment⟩

theorem revertData_serialize (hlawful : command.base.lib.Lawful) (tid : Int) {recorded : RecordedTransaction}
    (hparsed : ∀ record ∈ recorded.rpms, command.replay.parsedNevra record.nevra.text = some record.nevra) :
    command.revertData [tid] (serializeTransaction command.base.lib (some recorded)) =
      .ok (TransactionReplay.listsDocument (command.undoneLists tid recorded).rpms (command.undoneLists tid recorded).groups
        (command.undoneLists tid recorded).environments) := by
  have hrpms := command.mapM_listField (show "rpms" ∈ ["rpms", "groups", "environments"] by decide) fun record hrecord =>
    command.revertValue_rpmData hlawful tid (hparsed record hrecord)
  have hcomps : ∀ kind key, key ∈ ["rpms", "groups", "environments"] → _ := fun kind key hkey =>
    command.mapM_listField (l := recorded.comps kind) hkey fun record _ => command.revertValue_compsData hlawful [tid] kind record
  rw [serializeTransaction, revertData]
  simp only [List.mapM_cons, List.mapM_append, hrpms, hcomps .group "groups" (by decide), hcomps .environment "environments" (by decide)]
  rw [undoneLists, List.map_map]
  rfl

/-! ### The system after the transaction -/

/-- The system the transaction is undone on: `packages` and `installed` are what was installed before it, everything it names is available, and nothing is skipped. -/
structure UndoneOn (recorded : RecordedTransaction) (packages : Set Nevra) (installed : Kind → Set String) : Prop where
  lawful : command.base.lib.Lawful
  dependency : command.base.lib.reasonToString .dependency = "dependency"
  strict : command.base.strict = true
  skipUnavailable : command.skipUnavailable = false
  single : ∃ tid, recorded.tids = [tid]
  actions : ∀ record ∈ recorded.rpms, record.action ≠ .obsolete
  parsed : ∀ record ∈ recorded.rpms, command.replay.parsedNevra record.nevra.text = some record.nevra
  available : ∀ record ∈ recorded.rpms, ∃ pkg ∈ command.base.sack, pkg.installed = false ∧ pkg.nevra = record.nevra
  consistent : recorded.Consistent packages
  packages : command.base.packages = recorded.apply packages
  comps : ∀ kind record, .comps kind record ∈ recorded.items →
    record.action ∈ [.install, .upgrade, .downgrade, .remove] ∧ command.replay.Replayable kind record.item
  installed : ∀ kind id, (command.base.swdb.getItem kind id).isSome ↔ id ∈ recorded.applyComps kind (installed kind)

/-- What the opposite actions can take back: a package installed again was also taken off, and the last change of a group or environment is an installation exactly if it was not installed. -/
structure Undoable (recorded : RecordedTransaction) (packages : Set Nevra) (installed : Kind → Set String) : Prop where
  reinstalls : ∀ record ∈ recorded.rpms, record.action = .reinstall → record.nevra ∈ packages → record.nevra ∈ recorded.backward
  comps : ∀ kind id action, Log.last (recorded.changes kind) id = some action → (action = .install ↔ id ∉ installed kind)

/-- The undo raises no error, and what it marks and registers leads back. -/
def Restores (recorded : RecordedTransaction) (packages : Set Nevra) (installed : Kind → Set String) : Prop :=
  ∃ t, command.revertTransaction (some recorded) {} = .ok () t ∧ applyMarks t.goal (recorded.apply packages) = packages ∧
    ∀ kind, Log.replay stays (changesOf t.history kind) (recorded.applyComps kind (installed kind)) = installed kind

section Undone

variable {recorded : RecordedTransaction} {packages : Set Nevra} {installed : Kind → Set String}

theorem performable_reversed (hon : command.UndoneOn recorded packages installed) (tid : Int) {record : RpmRecord} (hrecord : record ∈ recorded.rpms) :
    command.replay.Performable (command.reversed tid record) where
  parsed := hon.parsed record hrecord
  reason := by
    have hreason : ∃ reason, command.reversedReason tid record = command.base.lib.reasonToString reason := by
      rw [reversedReason, ← hon.dependency]
      split_ifs
      · exact ⟨_, rfl⟩
      · exact ⟨_, rfl⟩
      · exact ⟨_, rfl⟩
    obtain ⟨reason, hreason⟩ := hreason
    show (command.base.lib.stringToReason (command.reversedReason tid record)).isSome = true
    rw [hreason, hon.lawful.stringToReason_reasonToString]
    rfl
  action := reverseOf_ne_obsolete record.action
  found := by
    obtain ⟨pkg, hpkg, _, hnevra⟩ := hon.available record hrecord
    exact ⟨pkg, hpkg, hnevra⟩
  available _ := hon.available record hrecord
  installed hbackward := by
    have hforward : isForward record.action = true := (isBackward_reverseOf record.action).symm.trans hbackward
    have hmem : record.nevra ∈ command.base.packages := by
      rw [hon.packages]
      exact .inr ⟨record, hrecord, hforward, rfl⟩
    exact hmem
  notInstalled _ := .inl rfl
  repo _ := by
    rw [reversed]
    split_ifs with hsystem
    · simp
    · exact fun h => hsystem (Option.some.inj h)

/-- What was brought in is taken off, and what was taken off is brought back. -/
theorem apply_undone (hconsistent : recorded.Consistent packages)
    (hreinstalls : ∀ record ∈ recorded.rpms, record.action = .reinstall → record.nevra ∈ packages → record.nevra ∈ recorded.backward) :
    (recorded.apply packages \ recorded.forward) ∪ recorded.backward = packages := by
  ext n
  simp only [RecordedTransaction.apply, Set.mem_union, Set.mem_sdiff]
  constructor
  · rintro (⟨⟨hn, _⟩ | hforward, hnot⟩ | hbackward)
    · exact hn
    · exact absurd hforward hnot
    · exact hconsistent.backward hbackward
  · intro hn
    by_cases hbackward : n ∈ recorded.backward
    · exact .inr hbackward
    · refine .inl ⟨.inl ⟨hn, hbackward⟩, ?_⟩
      rintro ⟨record, hrecord, hforward, rfl⟩
      by_cases hreinstall : record.action = .reinstall
      · exact hbackward (hreinstalls record hrecord hreinstall hn)
      · exact hconsistent.forward record hrecord hforward hreinstall hn

/-! ### Groups and environments -/

/-- The action an undone change is registered under. -/
def undoneAction : Action → Action
  | .install => .remove
  | .remove => .install
  | .upgrade => .downgrade
  | .downgrade => .upgrade
  | action => action

/-- The change is undone if it was a removal or the item is installed; otherwise it is passed over. -/
def isUndone (kind : Kind) (change : String × Action) : Bool :=
  change.2 = .remove ∨ (command.base.swdb.getItem kind change.1).isSome

def undoneItem (kind : Kind) (record : CompsRecord) : List Registered :=
  if command.isUndone kind (record.item.id, record.action) then
    [⟨kind, undoneAction record.action, command.replay.recreated kind record.item⟩]
  else []

theorem exists_undoneCall {action : Action} (h : action ∈ [.install, .upgrade, .downgrade, .remove]) :
    ∃ call, TransactionReplay.itemCall (.str (actionText (reverseOf action))) = some call ∧ call.action = undoneAction action ∧
      (call = .install ↔ action = .remove) := by
  simp only [List.mem_cons, List.not_mem_nil, or_false] at h
  obtain rfl | rfl | rfl | rfl := h
  all_goals exact ⟨_, rfl, rfl, by decide⟩

theorem replayItem_undone {kind : Kind} {record : CompsRecord} (haction : record.action ∈ [.install, .upgrade, .downgrade, .remove])
    (hitem : command.replay.Replayable kind record.item) (s : State) :
    ∃ t, command.replay.replayItem kind (compsObject command.base.lib kind (actionText (reverseOf record.action)) record.item) s = .ok () t ∧
      t.history.items = s.history.items ++ command.undoneItem kind record := by
  obtain ⟨call, hcall, hregistered, hinstall⟩ := exists_undoneCall haction
  rw [undoneItem]
  split_ifs with hundone
  · have hinstalled : call ≠ .install → (command.base.swdb.getItem kind record.item.id).isSome := by
      intro hne
      exact (of_decide_eq_true hundone).resolve_left fun h => hne (hinstall.mpr h)
    refine ⟨_, command.replay.replayItem_registers hitem hcall hinstalled s, ?_⟩
    rw [SwdbInterface.items_call, hregistered]
  · have hundone' : ¬(record.action = .remove ∨ (command.base.swdb.getItem kind record.item.id).isSome) := fun h => hundone (decide_eq_true h)
    obtain ⟨hremove, hnone⟩ := not_or.mp hundone'
    obtain ⟨msg, hrun⟩ := command.replay.replayItem_passes_over hitem.types hcall (fun h => hremove (hinstall.mp h))
      (Option.not_isSome_iff_eq_none.mp hnone) rfl s
    exact ⟨_, hrun, (List.append_nil _).symm⟩

/-- The registered changes of one kind are those that are undone, in their order. -/
theorem changes_undone (kind : Kind) (records : List CompsRecord) :
    ((records.flatMap (command.undoneItem kind)).filter fun registered => registered.kind = kind).map
        (fun registered => (registered.item.id, registered.action)) =
      ((records.map fun record => (record.item.id, record.action)).filter (command.isUndone kind)).map
        fun change => (change.1, undoneAction change.2) := by
  induction records with
  | nil => rfl
  | cons record rest ih =>
      rw [List.flatMap_cons, List.filter_append, List.map_append, ih, List.map_cons, List.filter_cons, undoneItem]
      split_ifs
      · simp [TransactionReplay.recreated]
      · simp

theorem changes_other {kind kind' : Kind} (h : kind' ≠ kind) (records : List CompsRecord) :
    (records.flatMap (command.undoneItem kind')).filter (fun registered => registered.kind = kind) = [] := by
  rw [List.filter_eq_nil_iff]
  intro registered hmem
  obtain ⟨record, _, hrecord⟩ := List.mem_flatMap.mp hmem
  rw [undoneItem] at hrecord
  split_ifs at hrecord
  · rw [List.mem_singleton.mp hrecord]
    simpa using h
  · cases hrecord

/-- The last change of an id is among those that are undone, so its opposite is the last one registered. -/
theorem comps_restored (hon : command.UndoneOn recorded packages installed) (hundoable : Undoable recorded packages installed) (kind : Kind) :
    Log.replay stays (((recorded.changes kind).filter (command.isUndone kind)).map fun change => (change.1, undoneAction change.2))
      (recorded.applyComps kind (installed kind)) = installed kind := by
  ext id
  have hafter := hon.installed kind id
  rw [RecordedTransaction.applyComps, Log.mem_replay_iff] at hafter
  have hlast : Log.last ((recorded.changes kind).filter (command.isUndone kind)) id = Log.last (recorded.changes kind) id := by
    refine Log.last_filter fun action haction => decide_eq_true ?_
    rw [haction] at hafter
    by_cases hremove : action = .remove
    · exact .inl hremove
    · exact .inr (hafter.mpr (decide_eq_true hremove))
  rw [Log.mem_replay_iff, Log.last_map, hlast]
  cases haction : Log.last (recorded.changes kind) id with
  | none =>
      show id ∈ recorded.applyComps kind (installed kind) ↔ id ∈ installed kind
      rw [RecordedTransaction.applyComps, Log.mem_replay_iff, haction]
  | some action =>
      have hinstall := hundoable.comps kind id action haction
      obtain ⟨record, hrecord, hchange⟩ := List.mem_map.mp (Log.mem_of_last haction)
      obtain ⟨_, rfl⟩ := Prod.mk.inj hchange
      have hfour := (hon.comps kind record (recorded.mem_comps.mp hrecord)).1
      show stays (undoneAction record.action) = true ↔ id ∈ installed kind
      rw [← not_iff_not, ← hinstall]
      simp only [List.mem_cons, List.not_mem_nil, or_false] at hfour
      rcases hfour with h | h | h | h <;> rw [h] <;> decide

/-- The run accepts everything; its marks take off what was brought in and bring in what was taken off, and each change that is undone is registered. -/
theorem run_undoneLists (hon : command.UndoneOn recorded packages installed) (tid : Int) :
    ∃ t, command.replay.run (command.undoneLists tid recorded) {} = .ok () t ∧ erased t.goal = recorded.forward ∧ selected t.goal = recorded.backward ∧
      t.history.items = (recorded.comps .group).flatMap (command.undoneItem .group) ++
        (recorded.comps .environment).flatMap (command.undoneItem .environment) := by
  have hskip : command.replay.skipUnavailable = false := by
    rw [TransactionReplay.skipUnavailable, replay, hon.skipUnavailable, hon.strict]
    rfl
  have hperform : ∀ stored ∈ recorded.rpms.map (command.reversed tid), command.replay.Performable stored := by
    intro stored hstored
    obtain ⟨record, hrecord, rfl⟩ := List.mem_map.mp hstored
    exact command.performable_reversed hon tid hrecord
  have hitem : ∀ kind, ∀ record ∈ recorded.comps kind, ∀ s, ∃ t,
      command.replay.replayItem kind (compsObject command.base.lib kind (actionText (reverseOf record.action)) record.item) s = .ok () t ∧
        t.history.items = s.history.items ++ command.undoneItem kind record := by
    intro kind record hrecord s
    obtain ⟨haction, hreplayable⟩ := hon.comps kind record (recorded.mem_comps.mp hrecord)
    exact command.replayItem_undone haction hreplayable s
  obtain ⟨r, haccepted, hhistory, herased, hselected⟩ := command.replay.performAll hon.lawful hskip hperform {}
  obtain ⟨u, hgroups, hsame, hgroupItems⟩ := command.replay.acceptItems (hitem .group) r
  obtain ⟨t, henvironments, hsame', henvironmentItems⟩ := command.replay.acceptItems (hitem .environment) u
  refine ⟨t, command.replay.run_ok haccepted hgroups henvironments, ?_, ?_, ?_⟩
  · rw [hsame'.goal, hsame.goal, herased]
    ext n
    simp [erased, TransactionReplay.backwardOf, RecordedTransaction.forward, reversed, isBackward_reverseOf]
  · rw [hsame'.goal, hsame.goal, hselected]
    ext n
    simp [selected, TransactionReplay.forwardOf, RecordedTransaction.backward, reversed, isForward_reverseOf]
  · rw [henvironmentItems, hgroupItems, hhistory]
    rfl

/-- Undoing a transaction on the system it led to restores the system before it. -/
theorem undo_restores (hon : command.UndoneOn recorded packages installed) (hundoable : Undoable recorded packages installed) :
    command.Restores recorded packages installed := by
  obtain ⟨tid, htid⟩ := hon.single
  obtain ⟨t, hrun, herased, hselected, hitems⟩ := command.run_undoneLists hon tid
  refine ⟨t, ?_, ?_, fun kind => ?_⟩
  · have hdata := command.revertData_serialize hon.lawful tid hon.parsed
    have hload := command.replay.loadFromData_lists hon.lawful.int_zero (command.undoneLists tid recorded).rpms
      (command.undoneLists tid recorded).groups (command.undoneLists tid recorded).environments
    rw [revertTransaction, Option.map_some, Option.getD_some, htid, hdata, lift_ok_bind, hload, lift_ok_bind]
    exact hrun
  · rw [applyMarks, herased, hselected]
    exact apply_undone hon.consistent hundoable.reinstalls
  · have hchanges : changesOf t.history kind =
        ((recorded.changes kind).filter (command.isUndone kind)).map fun change => (change.1, undoneAction change.2) := by
      rw [changesOf, hitems, List.filter_append, List.map_append, RecordedTransaction.changes, ← command.changes_undone]
      cases kind with
      | group => rw [command.changes_other (show Kind.environment ≠ .group by decide), List.map_nil, List.append_nil]
      | environment => rw [command.changes_other (show Kind.group ≠ .environment by decide), List.map_nil, List.nil_append]
    rw [hchanges]
    exact command.comps_restored hon hundoable kind

end Undone

/-! ### A transaction of a small system, undone -/

/-- The system `spiceRecorded` led to. -/
def spiceCommand : HistoryCommand where
  base :=
    { TransactionReplay.minimalReplay.base with
      sack := [{ TransactionReplay.pepperNew with reponame := systemRepoName }, { TransactionReplay.tour with reponame := systemRepoName },
        TransactionReplay.pepperNew, TransactionReplay.tour, { TransactionReplay.pepperOld with reponame := "main" }]
      swdb :=
        { TransactionReplay.minimalReplay.base.swdb with
          getCompsGroupItem := fun id => if id = "base" then some TransactionReplay.baseGroup else none } }
  skipUnavailable := false
  resolveReason := fun _ _ _ => .user

/-- Only the environment was installed before. -/
def spiceInstalled : Kind → Set String
  | .group => ∅
  | .environment => {"minimal"}

theorem available_spice : ∀ n ∈ [TransactionReplay.pepperOld.nevra, TransactionReplay.pepperNew.nevra, TransactionReplay.tour.nevra],
    ∃ pkg ∈ spiceCommand.base.sack, pkg.installed = false ∧ pkg.nevra = n := by
  decide +kernel

/-- The conditions on the system, as far as they can be evaluated. -/
theorem undoneOn_spice {recorded : RecordedTransaction} {packages : Set Nevra} {installed : Kind → Set String} (hsingle : recorded.tids = [7])
    (hactions : ∀ record ∈ recorded.rpms, record.action ≠ .obsolete)
    (hspice : ∀ record ∈ recorded.rpms, record.nevra ∈ [TransactionReplay.pepperOld.nevra, TransactionReplay.pepperNew.nevra, TransactionReplay.tour.nevra])
    (hconsistent : recorded.Consistent packages) (hpackages : spiceCommand.base.packages = recorded.apply packages)
    (hgroup : ∀ record ∈ recorded.comps .group, record = ⟨.install, TransactionReplay.baseGroup⟩) (henvironment : recorded.comps .environment = [])
    (hgroups : recorded.applyComps .group (installed .group) = {"base"})
    (henvironments : recorded.applyComps .environment (installed .environment) = {"minimal"}) : spiceCommand.UndoneOn recorded packages installed where
  lawful := Library.plain_lawful
  dependency := by decide
  strict := rfl
  skipUnavailable := rfl
  single := ⟨7, hsingle⟩
  actions := hactions
  parsed record hrecord := TransactionReplay.parsedNevra_spice rfl (hspice record hrecord)
  available record hrecord := available_spice record.nevra (hspice record hrecord)
  consistent := hconsistent
  packages := hpackages
  comps kind record hrecord := by
    have hmem := recorded.mem_comps.mpr hrecord
    cases kind with
    | group =>
        rw [hgroup record hmem]
        exact ⟨by decide, TransactionReplay.replayable_baseGroup.elsewhere _ _ _⟩
    | environment =>
        rw [henvironment] at hmem
        cases hmem
  installed kind id := by
    cases kind with
    | group =>
        rw [hgroups, Set.mem_singleton_iff]
        show (if id = "base" then some TransactionReplay.baseGroup else none).isSome = true ↔ id = "base"
        split_ifs with h <;> simp [h]
    | environment =>
        rw [henvironments, Set.mem_singleton_iff]
        show (if id = "minimal" then some TransactionReplay.minimalEnvironment else none).isSome = true ↔ id = "minimal"
        split_ifs with h <;> simp [h]

theorem undo_restores_spice : spiceCommand.Restores TransactionReplay.spiceRecorded {TransactionReplay.pepperOld.nevra} spiceInstalled := by
  have hbackward : ∀ record ∈ TransactionReplay.spiceRecorded.rpms, isBackward record.action = true → record.nevra = TransactionReplay.pepperOld.nevra := by
    decide
  have hbrought : ∀ pkg ∈ spiceCommand.base.sack, pkg.installed = true →
      ∃ record ∈ TransactionReplay.spiceRecorded.rpms, isForward record.action = true ∧ record.nevra = pkg.nevra := by
    decide
  have hforward : ∀ record ∈ TransactionReplay.spiceRecorded.rpms, isForward record.action = true → record.nevra ∈ spiceCommand.base.packages := by
    decide
  have hconsistent : TransactionReplay.spiceRecorded.Consistent {TransactionReplay.pepperOld.nevra} := by
    refine ⟨?_, by decide⟩
    rintro n ⟨record, hrecord, haction, rfl⟩
    exact hbackward record hrecord haction
  have hpackages : spiceCommand.base.packages = TransactionReplay.spiceRecorded.apply {TransactionReplay.pepperOld.nevra} := by
    ext n
    constructor
    · rintro ⟨pkg, hpkg, hinstalled, rfl⟩
      exact .inr (hbrought pkg hpkg hinstalled)
    · rintro (⟨hn, hnot⟩ | ⟨record, hrecord, haction, rfl⟩)
      · obtain rfl := Set.mem_singleton_iff.mp hn
        exact absurd ⟨⟨.upgraded, TransactionReplay.pepperOld.nevra, .user, systemRepoName⟩, by decide, rfl, rfl⟩ hnot
      · exact hforward record hrecord haction
  refine spiceCommand.undo_restores (undoneOn_spice rfl (by decide) (by decide) hconsistent hpackages (by decide) rfl ?_ rfl)
    ⟨fun record hrecord h => absurd h (?_ : record.action ≠ .reinstall), ?_⟩
  · show insert "base" ∅ = {"base"}
    simp
  · revert record
    decide
  · intro kind id action hlast
    have hmem := Log.mem_of_last hlast
    cases kind with
    | group =>
        obtain ⟨rfl, rfl⟩ := Prod.mk.inj (List.mem_singleton.mp hmem)
        exact iff_of_true rfl (Set.notMem_empty _)
    | environment => cases hmem

def regroupedRecorded : RecordedTransaction := ⟨[7], [.comps .group ⟨.install, TransactionReplay.baseGroup⟩]⟩

/-- A reinstall without the package it replaces. -/
def loneReinstallRecorded : RecordedTransaction := ⟨[7], [.rpm ⟨.reinstall, TransactionReplay.tour.nevra, .user, "main"⟩]⟩

/-- The group is installed before as well. -/
def regroupedInstalled : Kind → Set String
  | .group => {"base"}
  | .environment => {"minimal"}

theorem regrouped_not_restored : spiceCommand.UndoneOn regroupedRecorded spiceCommand.base.packages regroupedInstalled ∧
    ¬spiceCommand.Restores regroupedRecorded spiceCommand.base.packages regroupedInstalled := by
  refine ⟨undoneOn_spice rfl (by decide) (by decide) ⟨?_, by decide⟩ ?_ (by decide) rfl ?_ rfl, ?_⟩
  · rintro n ⟨record, hrecord, _⟩
    cases hrecord
  · ext n
    simp [RecordedTransaction.apply, RecordedTransaction.backward, RecordedTransaction.forward, regroupedRecorded, RecordedTransaction.rpms]
  · show insert "base" {"base"} = {"base"}
    simp
  · rintro ⟨t, hrun, _, hcomps⟩
    have hfinal : final (spiceCommand.revertTransaction (some regroupedRecorded) {}) = t := congrArg final hrun
    have hchanges : changesOf (final (spiceCommand.revertTransaction (some regroupedRecorded) {})).history .group = [("base", .remove)] := by
      decide +kernel
    rw [hfinal] at hchanges
    have hbase : "base" ∈ Log.replay stays (changesOf t.history .group) (regroupedRecorded.applyComps .group (regroupedInstalled .group)) := by
      rw [hcomps .group]
      rfl
    have hlast : Log.last [("base", Action.remove)] "base" = some .remove := rfl
    rw [hchanges, Log.mem_replay_iff, hlast] at hbase
    exact absurd hbase (by decide : ¬stays .remove = true)

theorem loneReinstall_not_restored : spiceCommand.UndoneOn loneReinstallRecorded spiceCommand.base.packages regroupedInstalled ∧
    ¬spiceCommand.Restores loneReinstallRecorded spiceCommand.base.packages regroupedInstalled := by
  have hbackward : ∀ record ∈ loneReinstallRecorded.rpms, isBackward record.action = false := by decide
  have hforward : ∀ record ∈ loneReinstallRecorded.rpms, record.nevra ∈ spiceCommand.base.packages := by decide
  have hnone : loneReinstallRecorded.backward = ∅ := by
    ext n
    refine iff_of_false ?_ (Set.notMem_empty n)
    rintro ⟨record, hrecord, haction, _⟩
    exact absurd haction (by simp [hbackward record hrecord])
  have happly : loneReinstallRecorded.apply spiceCommand.base.packages = spiceCommand.base.packages := by
    rw [RecordedTransaction.apply, hnone, Set.sdiff_empty, Set.union_eq_left]
    rintro n ⟨record, hrecord, _, rfl⟩
    exact hforward record hrecord
  refine ⟨undoneOn_spice rfl (by decide) (by decide) ⟨?_, by decide⟩ happly.symm (by decide) rfl rfl rfl, ?_⟩
  · rw [hnone]
    exact Set.empty_subset _
  · rintro ⟨t, hrun, hmarks, _⟩
    have hfinal : final (spiceCommand.revertTransaction (some loneReinstallRecorded) {}) = t := congrArg final hrun
    have hgoal : ((final (spiceCommand.revertTransaction (some loneReinstallRecorded) {})).goal.all fun
        | .install _ _ => false
        | .erase _ => true) = true := by
      decide +kernel
    have herase : ((final (spiceCommand.revertTransaction (some loneReinstallRecorded) {})).goal.any fun
        | .install _ _ => false
        | .erase pkg => pkg.nevra = TransactionReplay.tour.nevra) = true := by
      decide +kernel
    rw [hfinal] at hgoal herase
    have htour : TransactionReplay.tour.nevra ∈ applyMarks t.goal (loneReinstallRecorded.apply spiceCommand.base.packages) := by
      rw [hmarks]
      decide
    rcases htour with ⟨_, hnot⟩ | ⟨select, optional, hmark, _⟩
    · obtain ⟨mark, hmark, hpkg⟩ := List.any_eq_true.mp herase
      cases mark with
      | install select optional => cases hpkg
      | erase pkg => exact hnot ⟨pkg, hmark, of_decide_eq_true hpkg⟩
    · exact Bool.noConfusion (List.all_eq_true.mp hgoal _ hmark)

/-- Undone, an installation of an installed group removes it, and a reinstall that took nothing off removes its package. -/
theorem not_restores :
    (spiceCommand.UndoneOn regroupedRecorded spiceCommand.base.packages regroupedInstalled ∧
      ¬spiceCommand.Restores regroupedRecorded spiceCommand.base.packages regroupedInstalled) ∧
    (spiceCommand.UndoneOn loneReinstallRecorded spiceCommand.base.packages regroupedInstalled ∧
      ¬spiceCommand.Restores loneReinstallRecorded spiceCommand.base.packages regroupedInstalled) :=
  ⟨regrouped_not_restored, loneReinstall_not_restored⟩

end HistoryCommand

end Dnf.Replay
