import Dnf.Replay.Malformed
import Dnf.Replay.Serialize

/-!
# Groups and environments, written and replayed

Whatever becomes of the rpm items of a stored transaction, they leave history alone and the loop goes on; the groups and then the environments are registered one by one, each as it was recorded but for the names, which are those of comps.
-/

namespace Dnf.Replay

open History Groups Foundation Foundation.Effect

/-- What a recorded or registered item says, without its names. -/
def content (kind : Kind) (action : Action) (item : CompsItem) : Kind × Action × String × Nat × List Member :=
  (kind, action, item.id, item.packageTypes, item.members)

def callOf : Action → Option Call
  | .install => some .install
  | .remove => some .remove
  | .upgrade => some .upgrade
  | .downgrade => some .downgrade
  | _ => none

theorem action_of_callOf {action : Action} {call : Call} (h : callOf action = some call) : call.action = action := by
  cases action <;> cases h <;> rfl

theorem itemCall_of_callOf {action : Action} {call : Call} (h : callOf action = some call) : 
    TransactionReplay.itemCall (.str (actionText action)) = some call := by
  cases action <;> cases h <;> decide

namespace TransactionReplay

variable (replay : TransactionReplay)

/-- A group or environment item of a recorded transaction that can be replayed: one of the four actions, a definition in comps, and an item that is installed unless the action is `Install`. -/
structure RoundTrips (kind : Kind) (record : CompsRecord) : Prop where
  action : record.action ∈ [.install, .upgrade, .downgrade, .remove]
  replayable : replay.Replayable kind record.item
  installed : record.action ≠ .install → (replay.base.swdb.getItem kind record.item.id).isSome

/-- What history holds for it afterwards. -/
def registered (kind : Kind) (record : CompsRecord) : Registered := ⟨kind, record.action, replay.recreated kind record.item⟩

theorem exists_callOf {action : Action} (h : action ∈ [.install, .upgrade, .downgrade, .remove]) : ∃ call, callOf action = some call := by
  simp only [List.mem_cons, List.not_mem_nil, or_false] at h
  obtain rfl | rfl | rfl | rfl := h
  all_goals exact ⟨_, rfl⟩

/-- One item is registered under its own action. -/
theorem replayItem_compsData (hlawful : replay.lib.Lawful) {kind : Kind} {record : CompsRecord} (hrecord : replay.RoundTrips kind record) (s : State) :
    ∃ t, replay.replayItem kind (compsData replay.lib kind record) s = .ok () t ∧
      t.history.items = s.history.items ++ [replay.registered kind record] := by
  obtain ⟨call, hcall⟩ := exists_callOf hrecord.action
  have haction := action_of_callOf hcall
  have hinstalled : call ≠ .install → (replay.base.swdb.getItem kind record.item.id).isSome := by
    intro hne
    refine hrecord.installed fun h => hne ?_
    rw [h] at hcall
    exact (Option.some.inj hcall).symm
  rw [compsData, hlawful.actionName_eq]
  refine ⟨_, replay.replayItem_registers hrecord.replayable (itemCall_of_callOf hcall) hinstalled s, ?_⟩
  rw [SwdbInterface.items_call, haction]
  rfl

theorem triple_replayItems (hlawful : replay.lib.Lawful) {kind : Kind} {records : List CompsRecord}
    (hrecords : ∀ record ∈ records, replay.RoundTrips kind record) (before : List Registered) (errors : List String) :
    Triple (fun s : State => s.history.items = before)
      (collect errorText (replay.replayItem kind) (records.map (compsData replay.lib kind)) errors)
      (fun _ s => s.history.items = before ++ records.map (replay.registered kind)) (fun _ _ => False) := by
  rw [collect_map]
  refine (Triple.collect (I := fun done _ s => s.history.items = before ++ done.map (replay.registered kind))
    (E := fun _ _ => False) (fun done record hmem _ s hs => ?_) errors).weaken (fun s hs => by simpa using hs) (fun _ _ h => h) fun _ _ h => h
  obtain ⟨t, hrun, hitems⟩ := replay.replayItem_compsData hlawful (hrecords record hmem) s
  simp only [hrun]
  rw [hitems, hs, List.map_append, List.append_assoc]
  rfl

/-- A stored rpm item is accepted or rejected: its values have the types they should. -/
theorem rpmShape_rpmData (hlawful : replay.lib.Lawful) (record : RpmRecord) : replay.RpmShape (rpmData replay.lib record) := by
  refine ⟨_, rfl, fun action nevra repoId reason haction hnevra hrepoId hreason => ?_⟩
  cases hnevra
  cases hrepoId
  cases hreason
  refine ⟨_, rfl, fun _ => ⟨_, rfl, fun _ _ => ?_⟩⟩
  rw [hlawful.filterReponame_str]
  rfl

theorem triple_replayRpms (hlawful : replay.lib.Lawful) (records : List RpmRecord) (before : List Registered) :
    Triple (fun s : State => s.history.items = before) (collect errorText replay.replayPkgAction (records.map (rpmData replay.lib)) [])
      (fun _ s => s.history.items = before) (fun _ _ => False) := by
  rw [collect_map]
  refine Triple.collect (I := fun _ _ (s : State) => s.history.items = before) (fun _ record _ _ => ?_) []
  refine Triple.of_settled (fun s => ?_) ?_
  · exact (replay.settled_replayPkgAction_iff _ s).mpr (replay.rpmShape_rpmData hlawful record)
  · exact replay.keeps_history _ fun history => history.items = before

/-- The run ends normally or with the errors of its rpm items, and in both cases history has the groups and then the environments. -/
theorem triple_run (hlawful : replay.lib.Lawful) (recorded : RecordedTransaction)
    (hcomps : ∀ kind, ∀ record ∈ recorded.comps kind, replay.RoundTrips kind record) (before : List Registered) :
    Triple (fun s : State => s.history.items = before)
      (replay.run ⟨recorded.rpms.map (rpmData replay.lib), (recorded.comps .group).map (compsData replay.lib .group),
        (recorded.comps .environment).map (compsData replay.lib .environment)⟩)
      (fun _ s => s.history.items =
        before ++ (recorded.comps .group).map (replay.registered .group) ++ (recorded.comps .environment).map (replay.registered .environment))
      (fun _ s => s.history.items =
        before ++ (recorded.comps .group).map (replay.registered .group) ++ (recorded.comps .environment).map (replay.registered .environment)) := by
  have hloop : ∀ {α : Type} {P : State → Prop} {x : Prog α} {Q : α → State → Prop} {E : Exc → State → Prop},
      Triple P x Q (fun _ _ => False) → Triple P x Q E := fun hx => hx.weaken (fun _ h => h) (fun _ _ h => h) fun _ _ h => h.elim
  refine Triple.bind (hloop (replay.triple_replayRpms hlawful _ before)) fun errors => ?_
  refine Triple.bind (hloop (replay.triple_replayItems hlawful (hcomps .group) before errors)) fun errors => ?_
  refine Triple.bind (hloop (replay.triple_replayItems hlawful (hcomps .environment) _ errors)) fun errors => ?_
  exact Triple.ite (fun _ => Triple.pure fun _ h => h) fun _ => Triple.throw fun _ h => h

/-- Replaying what was written registers the recorded groups and then the recorded environments, with everything that was recorded of them. -/
theorem replay_serialize_comps (recorded : RecordedTransaction) (s : State) (hlawful : replay.lib.Lawful)
    (hcomps : ∀ kind record, .comps kind record ∈ recorded.items → replay.RoundTrips kind record) :
    ∃ loaded added, replay.loadFromData (serializeTransaction replay.lib (some recorded)) = .ok loaded ∧
      (final (replay.run loaded s)).history.items = s.history.items ++ added ∧
      added.map (fun registered => content registered.kind registered.action registered.item) =
        (recorded.comps .group).map (fun record => content .group record.action record.item) ++
          (recorded.comps .environment).map (fun record => content .environment record.action record.item) := by
  have hcomps' : ∀ kind, ∀ record ∈ recorded.comps kind, replay.RoundTrips kind record :=
    fun kind record h => hcomps kind record (recorded.mem_comps.mp h)
  refine ⟨_, (recorded.comps .group).map (replay.registered .group) ++ (recorded.comps .environment).map (replay.registered .environment),
    replay.loadFromData_lists hlawful.int_zero _ _ _, ?_, ?_⟩
  · rw [← List.append_assoc]
    exact (replay.triple_run hlawful recorded hcomps' s.history.items).final rfl
  · rw [List.map_append, List.map_map, List.map_map]
    rfl

/-! ### A group and an environment -/

def baseGroup : CompsItem := ⟨"base", "Base", "Base", 4, [⟨"pepper", true, 4⟩, ⟨"tour", false, 8⟩]⟩

def minimalEnvironment : CompsItem := ⟨"minimal", "Minimal", "Minimal", 4, [⟨"base", true, 4⟩]⟩

/-- An installation of the group and an upgrade of the environment that lists it. -/
def minimalRecorded : RecordedTransaction := ⟨[7], [.comps .environment ⟨.upgrade, minimalEnvironment⟩, .comps .group ⟨.install, baseGroup⟩]⟩

def minimalReplay : TransactionReplay where
  base :=
    { lib := .plain, strict := true, sack := [], isInstallonly := fun _ => false
      codes := ⟨fun _ => 0, fun | .conditional => 1 | .default => 2 | .mandatory => 4 | .optional => 8⟩
      comps := ⟨[⟨"base", "Base", "Base", []⟩], [⟨"minimal", "Minimal", "Minimal", ["base"], []⟩]⟩
      swdb := ⟨fun _ => none, fun id => if id = "minimal" then some minimalEnvironment else none, fun _ => [], fun _ => [], fun _ => .unknown⟩ }
  options := ⟨"", false, false, false⟩

/-- What the replay of an object needs depends neither on the packages nor on the history. -/
theorem Replayable.elsewhere {kind : Kind} {item : CompsItem} (hitem : minimalReplay.Replayable kind item) (sack : List Package) (swdb : Swdb) (options : Options) :
    (⟨{ minimalReplay.base with sack := sack, swdb := swdb }, options⟩ : TransactionReplay).Replayable kind item :=
  ⟨hitem.types, hitem.memberTypes, hitem.members, hitem.available⟩

theorem replayable_baseGroup : minimalReplay.Replayable .group baseGroup := ⟨rfl, by decide +kernel, by decide +kernel, by decide +kernel⟩

theorem replayable_minimalEnvironment : minimalReplay.Replayable .environment minimalEnvironment :=
  ⟨rfl, by decide +kernel, by decide +kernel, by decide +kernel⟩

theorem replay_serialize_minimal :
    ∃ loaded added, minimalReplay.loadFromData (serializeTransaction .plain (some minimalRecorded)) = .ok loaded ∧
      (final (minimalReplay.run loaded {})).history.items = ({} : State).history.items ++ added ∧
      added.map (fun registered => content registered.kind registered.action registered.item) =
        (minimalRecorded.comps .group).map (fun record => content .group record.action record.item) ++
          (minimalRecorded.comps .environment).map (fun record => content .environment record.action record.item) := by
  refine minimalReplay.replay_serialize_comps minimalRecorded {} Library.plain_lawful fun kind record hrecord => ?_
  simp only [minimalRecorded, List.mem_cons, RecordedItem.comps.injEq, List.not_mem_nil, or_false] at hrecord
  obtain ⟨rfl, rfl⟩ | ⟨rfl, rfl⟩ := hrecord
  · exact ⟨by decide, replayable_minimalEnvironment, fun _ => rfl⟩
  · exact ⟨by decide, replayable_baseGroup, fun h => absurd rfl h⟩

end TransactionReplay

end Dnf.Replay
