import Dnf.Replay.Steps

/-!
# `serialize_transaction`

A recorded transaction is a list of items: rpms with their reason and repository, groups and environments with their members. What the writer makes of it is read back by the loader list by list, and each object it writes is read back value by value.
-/

namespace Dnf.Replay

open History Groups Foundation Foundation.Effect

structure RpmRecord where
  action : Action
  nevra : Nevra
  reason : Reason
  fromRepo : String
  deriving DecidableEq

structure CompsRecord where
  action : Action
  item : CompsItem
  deriving DecidableEq

inductive RecordedItem
  | rpm (record : RpmRecord)
  | comps (kind : Kind) (record : CompsRecord)
  deriving DecidableEq

structure RecordedTransaction where
  tids : List Int
  items : List RecordedItem

namespace RecordedTransaction

variable (recorded : RecordedTransaction)

def rpms : List RpmRecord := recorded.items.filterMap fun
  | .rpm record => some record
  | .comps _ _ => none

def comps (kind : Kind) : List CompsRecord := recorded.items.filterMap fun
  | .rpm _ => none
  | .comps kind' record => if kind' = kind then some record else none

theorem mem_comps {kind : Kind} {record : CompsRecord} : record ∈ recorded.comps kind ↔ .comps kind record ∈ recorded.items := by
  rw [comps, List.mem_filterMap]
  constructor
  · intro ⟨item, hitem, h⟩
    cases item with
    | rpm record' => cases h
    | comps kind' record' =>
        simp only [Option.ite_none_right_eq_some, Option.some.injEq] at h
        obtain ⟨rfl, rfl⟩ := h
        exact hitem
  · exact fun h => ⟨_, h, if_pos rfl⟩

end RecordedTransaction

/-! ### The writer -/

section Writer

variable (lib : Library)

def version : String := "0.0"

def rpmObject (action : String) (nevra : Nevra) (reason : String) (repoId : Json) : Json :=
  .obj [("action", .str action), ("nevra", .str nevra.text), ("reason", .str reason), ("repo_id", repoId)]

def memberObject (kind : Kind) (member : Member) : Json :=
  .obj [(nameKey kind, .str member.name), ("installed", .bool member.installed), (typeKey kind, .str (lib.compsPackageTypeToString member.type))]

def compsObject (kind : Kind) (action : String) (item : CompsItem) : Json :=
  .obj [("action", .str action), ("id", .str item.id), (membersKey kind, .arr (item.members.map (memberObject lib kind))),
    ("package_types", .str (lib.compsPackageTypeToString item.packageTypes))]

def rpmData (record : RpmRecord) : Json :=
  rpmObject (lib.actionName record.action) record.nevra (lib.reasonToString record.reason) (.str record.fromRepo)

def compsData (kind : Kind) (record : CompsRecord) : Json := compsObject lib kind (lib.actionName record.action) record.item

/-- `if elems: data[key] = elems`. -/
def listField (key : String) (elems : List Json) : List (String × Json) := if elems.isEmpty then [] else [(key, .arr elems)]

def serializeTransaction (transaction : Option RecordedTransaction) : Json :=
  match transaction with
  | none => .obj [("version", .str version)]
  | some recorded => .obj (("version", .str version) :: (listField "rpms" (recorded.rpms.map (rpmData lib)) ++
      (listField "groups" ((recorded.comps .group).map (compsData lib .group)) ++
        listField "environments" ((recorded.comps .environment).map (compsData lib .environment)))))

end Writer

namespace TransactionReplay

variable (replay : TransactionReplay)

/-! ### Reading the lists back -/

/-- A document with the version and three lists, the empty ones left out. -/
def listsDocument (rpms groups environments : List Json) : Json :=
  .obj (("version", .str version) :: (listField "rpms" rpms ++ (listField "groups" groups ++ listField "environments" environments)))

/-- A key that is there, or is left out with an empty list, is read as the list. -/
theorem getList_listField {key : String} (before after : List (String × Json)) (elems : List Json) (hbefore : before.lookup key = none)
    (hafter : after.lookup key = none) : getList (.obj (before ++ (listField key elems ++ after))) key = .ok elems := by
  rw [getList, Json.getD, List.lookup_append, hbefore, List.lookup_append, Option.none_or]
  cases elems with
  | nil => simp [listField, hafter, assertList]
  | cons elem rest => simp [listField, assertList]

theorem lookup_listField {key key' : String} (h : key ≠ key') (elems : List Json) : (listField key elems).lookup key' = none := by
  rw [listField]
  split_ifs
  · rfl
  · rw [List.lookup_cons, beq_eq_false_iff_ne.mpr (Ne.symm h)]
    rfl

theorem loadFromData_lists (hint : replay.lib.int "0" = some 0) (rpms groups environments : List Json) :
    replay.loadFromData (listsDocument rpms groups environments) = .ok ⟨rpms, groups, environments⟩ := by
  have hversion : replay.checkVersion version = .ok () := by
    have hsplit : splitVersion version = ["0", "0"] := by decide +kernel
    rw [checkVersion, hsplit]
    simp [hint]
  have hrpms : getList (listsDocument rpms groups environments) "rpms" = .ok rpms := by
    refine getList_listField [("version", .str version)] _ rpms (by decide) ?_
    rw [List.lookup_append, lookup_listField (by decide), lookup_listField (by decide)]
    rfl
  have hgroups : getList (listsDocument rpms groups environments) "groups" = .ok groups := by
    have hbefore : (("version", .str version) :: listField "rpms" rpms).lookup "groups" = none := by
      rw [List.lookup_cons, lookup_listField (by decide)]
      rfl
    exact getList_listField _ _ groups hbefore (lookup_listField (by decide) environments)
  have henvironments : getList (listsDocument rpms groups environments) "environments" = .ok environments := by
    have hbefore : (("version", .str version) :: (listField "rpms" rpms ++ listField "groups" groups)).lookup "environments" = none := by
      rw [List.lookup_cons, List.lookup_append, lookup_listField (by decide), lookup_listField (by decide)]
      rfl
    have hget := getList_listField _ [] environments hbefore rfl
    rwa [List.append_nil, List.cons_append, List.append_assoc] at hget
  have hload := replay.loadFromData_obj
    (("version", .str version) :: (listField "rpms" rpms ++ (listField "groups" groups ++ listField "environments" environments))) version rfl
  rw [hversion] at hload
  rw [listsDocument] at hrpms hgroups henvironments ⊢
  rw [hload, hrpms, hgroups, henvironments]
  rfl

/-! ### Reading the objects back -/

theorem readRpm_rpmObject {reason : String} {reason' : Reason} (hreason : replay.lib.stringToReason reason = some reason') (action : String)
    (nevra : Nevra) (repoId : Json) :
    replay.readRpm (rpmObject action nevra reason repoId) = .ok ⟨.str action, .str nevra.text, repoId, reason'⟩ := by
  have hfields : ∀ value, rpmObject action nevra reason repoId = .obj value →
      value.lookup "action" = some (.str action) ∧ value.lookup "nevra" = some (.str nevra.text) ∧ value.lookup "repo_id" = some repoId ∧
        value.lookup "reason" = some (.str reason) := by
    intro value hvalue
    cases hvalue
    exact ⟨rfl, rfl, rfl, rfl⟩
  obtain ⟨haction, hnevra, hrepoId, hvalue⟩ := hfields _ rfl
  have hread := replay.readRpm_fields haction hnevra hrepoId hvalue
  rwa [hreason] at hread

theorem readMember_memberObject {kind : Kind} {member : Member} (htype : replay.lib.Converts member.type) (hallows : replay.allows kind member.type) :
    replay.readMember kind (memberObject replay.lib kind member) = .ok member := by
  have htypes : replay.toPackageType (.str (replay.lib.compsPackageTypeToString member.type)) = .ok member.type := by
    rw [toPackageType, htype]
  rw [readMember, memberObject]
  cases kind <;> simp [access_get_obj, nameKey, typeKey, List.lookup_cons, assertText, assertBool, htypes, hallows, bind, Except.bind, pure, Except.pure]

theorem readMembers_memberObjects {kind : Kind} {members : List Member}
    (hmembers : ∀ member ∈ members, replay.lib.Converts member.type ∧ replay.allows kind member.type) :
    replay.readMembers kind (.arr (members.map (memberObject replay.lib kind))) = .ok (replay.lib.addMembers members) := by
  have hlist : replay.readMemberList kind (members.map (memberObject replay.lib kind)) = .ok (replay.lib.addMembers members) := by
    rw [readMemberList, Library.addMembers]
    generalize ([] : List Member) = start
    induction members generalizing start with
    | nil => rfl
    | cons member rest ih =>
        obtain ⟨htype, hallows⟩ := hmembers member List.mem_cons_self
        rw [List.map_cons, List.foldlM_cons, replay.readMember_memberObject htype hallows, List.foldl_cons]
        exact ih (fun m hm => hmembers m (List.mem_cons_of_mem _ hm)) (replay.lib.addMember start member)
  rw [readMembers]
  simp only [Json.elements, access]
  rw [show ((Except.ok (members.map (memberObject replay.lib kind)) : Except Exc (List Json)) >>= replay.readMemberList kind) =
    replay.readMemberList kind (members.map (memberObject replay.lib kind)) from rfl, hlist]

/-- What libdnf and comps have to know of an object for its replay: its types are read back, its members are the ones libdnf keeps, and comps has its definition. -/
structure Replayable (kind : Kind) (item : CompsItem) : Prop where
  types : replay.lib.Converts item.packageTypes
  memberTypes : ∀ member ∈ item.members, replay.lib.Converts member.type ∧ replay.allows kind member.type
  members : replay.lib.addMembers item.members = item.members
  available : (replay.compsNames kind item.id).isSome

/-- The object the replay creates: the names are those of comps, all else is as recorded. -/
def recreated (kind : Kind) (item : CompsItem) : CompsItem :=
  let names := (replay.compsNames kind item.id).getD ("", "")
  { item with name := names.1, translatedName := names.2 }

theorem swdbCreate_compsObject {kind : Kind} {item : CompsItem} (hitem : replay.Replayable kind item) (call : Call) (s : State) :
    replay.swdbCreate kind call (.str item.id) item.packageTypes (.arr (item.members.map (memberObject replay.lib kind))) s =
      .ok () { s with history := s.history.call kind call (replay.recreated kind item) } := by
  obtain ⟨names, hnames⟩ := Option.isSome_iff_exists.mp hitem.available
  rw [swdbCreate, createSwdbItem, recreated]
  simp only [hnames, replay.readMembers_memberObjects hitem.memberTypes, hitem.members]
  rfl

/-- A stored object is read up to the call of its handler. -/
theorem replayItem_compsObject {kind : Kind} {item : CompsItem} (htypes : replay.lib.Converts item.packageTypes) {action : String} {call : Call}
    (hcall : itemCall (.str action) = some call) {s : State} {t : State}
    (hrun : replay.handler kind call (.str item.id) item.packageTypes (.arr (item.members.map (memberObject replay.lib kind))) s = .ok () t) :
    replay.replayItem kind (compsObject replay.lib kind action item) s = .ok () t := by
  have hconv : replay.toPackageType (.str (replay.lib.compsPackageTypeToString item.packageTypes)) = .ok item.packageTypes := by
    rw [toPackageType, htypes]
  have hfields : ∀ value, compsObject replay.lib kind action item = .obj value →
      value.lookup "action" = some (.str action) ∧ value.lookup "id" = some (.str item.id) ∧
        value.lookup (membersKey kind) = some (.arr (item.members.map (memberObject replay.lib kind))) ∧
        value.lookup "package_types" = some (.str (replay.lib.compsPackageTypeToString item.packageTypes)) := by
    intro value hvalue
    cases hvalue
    cases kind <;> exact ⟨rfl, rfl, rfl, rfl⟩
  obtain ⟨haction, hid, hmembers, hvalue⟩ := hfields _ rfl
  have hvalues := replay.replayItemValues_fields kind haction hid hvalue
  rw [replayItem, tryCatch_apply, compsObject, hvalues]
  rw [hconv, lift_ok_bind]
  simp only [hcall, access_get_obj, hmembers, lift_ok_bind, hrun]

/-- An object to install, or one whose item is installed, is registered. -/
theorem replayItem_registers {kind : Kind} {item : CompsItem} (hitem : replay.Replayable kind item) {action : String} {call : Call}
    (hcall : itemCall (.str action) = some call) (hinstalled : call ≠ .install → (replay.base.swdb.getItem kind item.id).isSome) (s : State) :
    replay.replayItem kind (compsObject replay.lib kind action item) s =
      .ok () { s with history := s.history.call kind call (replay.recreated kind item) } := by
  apply replay.replayItem_compsObject hitem.types hcall
  rw [handler_eq]
  by_cases hinstall : call = .install
  · rw [if_pos hinstall]
    exact replay.swdbCreate_compsObject hitem call s
  · obtain ⟨old, hold⟩ := Option.isSome_iff_exists.mp (hinstalled hinstall)
    rw [if_neg hinstall, swdbChange]
    simp only [hold]
    exact replay.swdbCreate_compsObject hitem call s

/-- An object whose item is not installed is passed over, if that is ignored. -/
theorem replayItem_passes_over {kind : Kind} {item : CompsItem} (htypes : replay.lib.Converts item.packageTypes) {action : String} {call : Call}
    (hcall : itemCall (.str action) = some call) (hinstall : call ≠ .install) (hnone : replay.base.swdb.getItem kind item.id = none)
    (hignore : replay.options.ignoreInstalled = true) (s : State) :
    ∃ msg, replay.replayItem kind (compsObject replay.lib kind action item) s = .ok () { s with warnings := s.warnings ++ [msg] } := by
  refine ⟨title kind ++ " id '" ++ item.id ++ "' is not installed.", replay.replayItem_compsObject htypes hcall ?_⟩
  rw [handler_eq, if_neg hinstall, swdbChange]
  simp only [hnone, hignore, raiseOrWarn, if_true]
  rfl

/-- Items that are all accepted, one loop of them. -/
theorem acceptItems {ω : Type} {kind : Kind} {object : ω → Json} {effect : ω → List Registered} {items : List ω}
    (hitems : ∀ x ∈ items, ∀ s, ∃ t, replay.replayItem kind (object x) s = .ok () t ∧ t.history.items = s.history.items ++ effect x) (s : State) :
    ∃ t, Attempted errorText ((items.map object).map (replay.replayItem kind)) s ((items.map object).map fun _ => none) t ∧ SameGoal s t ∧
      t.history.items = s.history.items ++ items.flatMap effect := by
  induction items generalizing s with
  | nil => exact ⟨s, .nil, .refl s, by simp⟩
  | cons x rest ih =>
      obtain ⟨u, hrun, hhistory⟩ := hitems x List.mem_cons_self s
      have hsame : SameGoal s u := (replay.keeps_replayItem kind (object x) s).ok (.refl s) hrun
      obtain ⟨t, hattempted, hsame', hhistory'⟩ := ih (fun y hy => hitems y (List.mem_cons_of_mem _ hy)) u
      refine ⟨t, .accept hrun hattempted, hsame.trans hsame', ?_⟩
      rw [hhistory', hhistory, List.flatMap_cons, List.append_assoc]

theorem run_ok {loaded : Loaded} {s t u v : State} (hrpms : replay.AllAccepted loaded.rpms s t)
    (hgroups : Attempted errorText (loaded.groups.map (replay.replayItem .group)) t (loaded.groups.map fun _ => none) u)
    (henvironments : Attempted errorText (loaded.environments.map (replay.replayItem .environment)) u (loaded.environments.map fun _ => none) v) :
    replay.run loaded s = .ok () v := by
  have hnone : ∀ l : List Json, (l.map fun _ => (none : Option String)).reduceOption = [] := by
    intro l
    simp [List.reduceOption]
  rw [replay.run_of_attempted (hrpms.append (hgroups.append henvironments)), List.reduceOption_append, List.reduceOption_append,
    hnone, hnone, hnone]
  rfl

end TransactionReplay

end Dnf.Replay
