import Dnf.Replay.Steps

/-!
# Malformed documents

A replay is told about a malformed document by exceptions: what it reports itself is a `TransactionError` or a `TransactionReplayError`, a `KeyError` is turned into one where a key may be missing, and everything else escapes. `Shape` is read off the document: the version has two parts, every value that is subscripted is a dictionary, and the values that libdnf and hawkey take are texts. An item settles, whatever the state, exactly if it has its shape, so a loop goes through exactly if all its items do.
-/

namespace Dnf.Replay

open History Groups Foundation Foundation.Effect

namespace TransactionReplay

variable (replay : TransactionReplay)

/-- An rpm item that is accepted or rejected. -/
def RpmShape (pkgData : Json) : Prop :=
  ∃ fields, pkgData = .obj fields ∧
    ∀ action nevra repoId reason, fields.lookup "action" = some action → fields.lookup "nevra" = some nevra →
      fields.lookup "repo_id" = some repoId → fields.lookup "reason" = some reason →
      ∃ reasonText, reason = .str reasonText ∧
        (replay.lib.stringToReason reasonText ≠ none → ∃ nevraText, nevra = .str nevraText ∧
          ((replay.parsedNevra nevraText).isSome → repoId.truthy = true → (replay.lib.filterReponame repoId).isSome))

theorem settled_raiseOrWarn (warnOnly : Bool) (msg : String) (s : State) : Settled errorText (raiseOrWarn warnOnly msg s) := by
  cases warnOnly
  · exact Option.isSome_some
  · trivial

theorem settled_replayAction (data : RpmData) (nevra : String) (n : Nevra) {query : List Package} (hquery : query ≠ []) (s : State) :
    Settled errorText (replay.replayAction data nevra n query s) := by
  unfold replayAction
  split_ifs with h1 h2 h3 h4
  · refine Settled.bind ?_ fun _ _ => trivial
    rw [refuseInstalled]
    split_ifs
    · exact settled_raiseOrWarn _ _ s
    · trivial
  · rw [replayReinstall]
    split_ifs
    · exact settled_raiseOrWarn _ _ s
    · trivial
  · rw [replayErase]
    split_ifs
    · exact settled_raiseOrWarn _ _ s
    · trivial
    · trivial
  · obtain ⟨pkg, rest, rfl⟩ := List.exists_cons_of_ne_nil hquery
    trivial
  · exact Option.isSome_some

theorem readRpm_missing {fields : List (String × Json)} {key : String} (hkey : key ∈ ["action", "nevra", "repo_id", "reason"])
    (hmissing : fields.lookup key = none) : ∃ text, replay.readRpm (.obj fields) = .error (.transactionError text) := by
  rw [readRpm, readRpmValues]
  simp only [access_get_obj]
  simp only [List.mem_cons, List.not_mem_nil, or_false] at hkey
  cases haction : fields.lookup "action" with
  | none => exact ⟨_, rfl⟩
  | some action =>
      cases hnevra : fields.lookup "nevra" with
      | none => exact ⟨_, rfl⟩
      | some nevra =>
          cases hrepoId : fields.lookup "repo_id" with
          | none => exact ⟨_, rfl⟩
          | some repoId =>
              cases hreason : fields.lookup "reason" with
              | none => exact ⟨_, rfl⟩
              | some reason =>
                  obtain rfl | rfl | rfl | rfl := hkey
                  all_goals simp_all

theorem readRpm_reason_typeError {fields : List (String × Json)} {action nevra repoId reason : Json}
    (haction : fields.lookup "action" = some action) (hnevra : fields.lookup "nevra" = some nevra)
    (hrepoId : fields.lookup "repo_id" = some repoId) (hreason : fields.lookup "reason" = some reason)
    (htext : ∀ text, reason ≠ .str text) : replay.readRpm (.obj fields) = .error .typeError := by
  have hconv : replay.toReason reason = .error .typeError := by
    cases reason with
    | str text => exact absurd rfl (htext text)
    | _ => rfl
  rw [readRpm, readRpmValues]
  simp only [access_get_obj, haction, hnevra, hrepoId, hreason]
  simp [hconv, bind, Except.bind]

/-- An rpm object that was read is settled exactly if its NEVRA is a text and its repository id is one that hawkey takes. -/
theorem settled_replayPkgAction_read {pkgData : Json} {data : RpmData} (hread : replay.readRpm pkgData = .ok data) (s : State) :
    Settled errorText (replay.replayPkgAction pkgData s) ↔ ∃ nevraText, data.nevra = .str nevraText ∧
      ((replay.parsedNevra nevraText).isSome → data.repoId.truthy = true → (replay.lib.filterReponame data.repoId).isSome) := by
  rw [replayPkgAction, hread]
  simp only [lift, pure_bind]
  cases hnevra : data.nevra with
  | str nevra =>
      simp only [Json.str.injEq, exists_eq_left']
      cases hparsed : replay.parsedNevra nevra with
      | none =>
          simp only [Option.isSome_none, Bool.false_eq_true, false_imp_iff, iff_true]
          exact Option.isSome_some
      | some n =>
          simp only [Option.isSome_some, true_imp_iff]
          rw [← limitToRepo_isOk_iff replay (replay.query n), replayParsed, bind_apply]
          cases hlimit : replay.limitToRepo (replay.query n) data.repoId with
          | error e =>
              rw [limitToRepo_error replay hlimit]
              refine iff_of_false (fun h => ?_) ?_
              · exact absurd h (by simp [Settled, errorText, lift, throw_apply])
              · rintro ⟨_, h⟩
                cases h
          | ok query =>
              refine iff_of_true ?_ ⟨query, rfl⟩
              simp only [lift, pure_apply]
              split_ifs with hquery
              · exact settled_raiseOrWarn _ _ s
              · exact Settled.bind trivial fun _ t => replay.settled_replayAction data nevra n hquery t
  | _ => simp [throw_apply, Settled, errorText]

theorem rpmShape_fields {fields : List (String × Json)} {action nevra repoId reason : Json}
    (haction : fields.lookup "action" = some action) (hnevra : fields.lookup "nevra" = some nevra)
    (hrepoId : fields.lookup "repo_id" = some repoId) (hreason : fields.lookup "reason" = some reason) :
    replay.RpmShape (.obj fields) ↔ ∃ reasonText, reason = .str reasonText ∧
      (replay.lib.stringToReason reasonText ≠ none → ∃ nevraText, nevra = .str nevraText ∧
        ((replay.parsedNevra nevraText).isSome → repoId.truthy = true → (replay.lib.filterReponame repoId).isSome)) := by
  constructor
  · rintro ⟨_, hobj, h⟩
    cases hobj
    exact h action nevra repoId reason haction hnevra hrepoId hreason
  · intro h
    refine ⟨fields, rfl, fun _ _ _ _ haction' hnevra' hrepoId' hreason' => ?_⟩
    obtain rfl := Option.some.inj (hnevra.symm.trans hnevra')
    obtain rfl := Option.some.inj (hrepoId.symm.trans hrepoId')
    obtain rfl := Option.some.inj (hreason.symm.trans hreason')
    exact h

theorem settled_replayPkgAction_iff (pkgData : Json) (s : State) :
    Settled errorText (replay.replayPkgAction pkgData s) ↔ replay.RpmShape pkgData := by
  cases pkgData with
  | obj fields =>
      by_cases hkeys : ∃ key ∈ ["action", "nevra", "repo_id", "reason"], fields.lookup key = none
      · obtain ⟨key, hkey, hmissing⟩ := hkeys
        obtain ⟨text, hread⟩ := replay.readRpm_missing hkey hmissing
        refine iff_of_true ?_ ⟨fields, rfl, fun action nevra repoId reason h1 h2 h3 h4 => ?_⟩
        · rw [replayPkgAction, hread]
          exact Option.isSome_some
        · simp only [List.mem_cons, List.not_mem_nil, or_false] at hkey
          obtain rfl | rfl | rfl | rfl := hkey
          all_goals simp_all
      · simp only [List.mem_cons, List.not_mem_nil, or_false, not_exists, not_and, Option.ne_none_iff_exists', forall_eq_or_imp, forall_eq] at hkeys
        obtain ⟨⟨action, haction⟩, ⟨nevra, hnevra⟩, ⟨repoId, hrepoId⟩, ⟨reason, hreason⟩⟩ := hkeys
        rw [replay.rpmShape_fields haction hnevra hrepoId hreason]
        cases reason with
        | str reasonText =>
          have hread := replay.readRpm_fields haction hnevra hrepoId hreason
          cases hconv : replay.lib.stringToReason reasonText with
          | some reason => 
              rw [hconv] at hread
              rw [settled_replayPkgAction_read replay hread]
              simp [hconv]
          | none => 
              rw [hconv] at hread
              obtain ⟨text, hread⟩ := hread
              refine iff_of_true ?_ ⟨reasonText, rfl, fun h => absurd hconv h⟩
              rw [replayPkgAction, hread]
              exact Option.isSome_some
        | _ =>
          refine iff_of_false (fun h => ?_) ?_
          · rw [replayPkgAction, replay.readRpm_reason_typeError haction hnevra hrepoId hreason (by simp)] at h
            exact absurd h (by simp [Settled, errorText, lift, bind_apply, throw_apply])
          · rintro ⟨_, h, _⟩
            cases h
  | _ =>
    refine iff_of_false (fun h => ?_) ?_
    · exact absurd h (by simp [Settled, errorText, replayPkgAction, readRpm, readRpmValues, access, Json.get, lift, bind, Except.bind, EStateM.bind, throw_apply])
    · rintro ⟨_, h, _⟩
      cases h

/-! ### Groups and environments -/

/-- Elements that are read to the end or up to one that is rejected. -/
def ElemsShape (kind : Kind) : List Json → Prop
  | [] => True
  | elem :: rest => (∃ fields, elem = .obj fields) ∧ ((∃ member, replay.readMember kind elem = .ok member) → ElemsShape kind rest)

def MembersShape (kind : Kind) (value : Json) : Prop := ∃ elems, value.elements = .ok elems ∧ replay.ElemsShape kind elems

/-- What an item has to be like once its first three keys are there. -/
def ValuesShape (kind : Kind) (fields : List (String × Json)) (action id types : Json) : Prop :=
  ∃ typesText, types = .str typesText ∧
    ∀ pkgTypes call members, replay.lib.stringToCompsPackageType typesText = .ok pkgTypes → itemCall action = some call →
      fields.lookup (membersKey kind) = some members →
      ∃ idText, id = .str idText ∧
        (call = .install ∨ (replay.base.swdb.getItem kind idText).isSome → (replay.compsNames kind idText).isSome →
          replay.MembersShape kind members)

/-- A group or environment item that is accepted or rejected. -/
def ItemShape (kind : Kind) (data : Json) : Prop :=
  ∃ fields, data = .obj fields ∧
    ∀ action id types, fields.lookup "action" = some action → fields.lookup "id" = some id → fields.lookup "package_types" = some types →
      replay.ValuesShape kind fields action id types

/-- `except KeyError` and `except TransactionError`. -/
def reported : Exc → Option String
  | .keyError key => some key
  | e => errorText e

/-- Whatever `result` raises is a `TransactionError` or a `KeyError`. -/
def Reports {α : Type} (result : Except Exc α) : Prop := ∀ e, result = .error e → (reported e).isSome

theorem Reports.ok {α : Type} (a : α) : Reports (.ok a) := fun _ h => nomatch h

theorem Reports.error {α : Type} {e : Exc} (he : (reported e).isSome) : Reports (.error e : Except Exc α) := by
  intro e' h
  cases h
  exact he

theorem Reports.bind {α β : Type} {result : Except Exc α} {f : α → Except Exc β} (hresult : Reports result) (hf : ∀ a, Reports (f a)) :
    Reports (result >>= f) := by
  cases result with
  | ok a => exact hf a
  | error e => exact .error (hresult e rfl)

theorem reports_get_obj (fields : List (String × Json)) (key : String) : Reports (access ((Json.obj fields).get key)) := by
  rw [access_get_obj]
  cases fields.lookup key with
  | none => exact .error rfl
  | some value => exact .ok value

theorem reports_assertText (value : Json) (id : String) : Reports (assertText value id) := by
  cases value with
  | str text => exact .ok text
  | _ => exact .error rfl

theorem reports_assertBool (value : Json) (id : String) : Reports (assertBool value id) := by
  cases value with
  | bool b => exact .ok b
  | _ => exact .error rfl

theorem reports_toPackageType (text : String) : Reports (replay.toPackageType (.str text)) := by
  rw [toPackageType]
  split
  · exact .ok _
  · exact .error rfl

/-- An element that is no object raises `TypeError`; what an object can lack or get wrong is reported. -/
theorem reports_readMember_iff (kind : Kind) (elem : Json) : Reports (replay.readMember kind elem) ↔ ∃ fields, elem = .obj fields := by
  cases elem with
  | obj fields =>
      refine iff_of_true ?_ ⟨fields, rfl⟩
      refine (reports_get_obj fields _).bind fun nameValue => (reports_assertText nameValue _).bind fun name => ?_
      refine (reports_get_obj fields _).bind fun installedValue => (reports_assertBool installedValue _).bind fun installed => ?_
      refine (reports_get_obj fields _).bind fun typeValue => (reports_assertText typeValue _).bind fun typeText => ?_
      refine (replay.reports_toPackageType typeText).bind fun type => ?_
      split_ifs
      · exact .ok _
      · exact .error rfl
  | _ =>
      refine iff_of_false (fun h => ?_) fun ⟨_, h⟩ => nomatch h
      exact absurd (h .typeError rfl) (by simp [reported, errorText])

theorem reports_readMemberList_iff (kind : Kind) (elems : List Json) :
    Reports (replay.readMemberList kind elems) ↔ replay.ElemsShape kind elems := by
  rw [readMemberList]
  generalize ([] : List Member) = members
  induction elems generalizing members with
  | nil => exact iff_of_true (.ok members) trivial
  | cons elem rest ih =>
      rw [List.foldlM_cons, ElemsShape, ← replay.reports_readMember_iff]
      cases hread : replay.readMember kind elem with
      | ok member =>
          rw [show ((Except.ok member : Except Exc Member) >>= fun member => pure (replay.lib.addMember members member)) =
            pure (replay.lib.addMember members member) from rfl, pure_bind, ih]
          exact ⟨fun h => ⟨.ok member, fun _ => h⟩, fun h => h.2 ⟨member, rfl⟩⟩
      | error e =>
          constructor
          · intro h
            exact ⟨.error (h e rfl), fun ⟨_, hmember⟩ => nomatch hmember⟩
          · intro h
            exact .error (h.1 e rfl)

theorem elements_error {value : Json} {e : AccessError} (h : value.elements = .error e) : e = .typeError := by
  cases value <;> simp_all [Json.elements]

theorem reports_elements_iff (kind : Kind) (value : Json) :
    Reports (access value.elements >>= replay.readMemberList kind) ↔ replay.MembersShape kind value := by
  rw [MembersShape]
  cases helems : value.elements with
  | ok elems =>
      simp only [Except.ok.injEq, exists_eq_left']
      exact replay.reports_readMemberList_iff kind elems
  | error e =>
      rw [elements_error helems]
      refine iff_of_false (fun h => ?_) fun ⟨_, h, _⟩ => nomatch h
      exact absurd (h .typeError rfl) (by simp [reported, errorText])

section Handlers

/-! A handler raises no `KeyError`: its own loop has caught it. So it does not matter for it whether a `KeyError` is caught. -/

variable {caught : Exc → Option String} (hcaught : ∀ e, (∀ key, e ≠ .keyError key) → caught e = errorText e)

include hcaught

theorem settled_raiseOrWarn' (warnOnly : Bool) (msg : String) (s : State) : Settled caught (raiseOrWarn warnOnly msg s) := by
  cases warnOnly
  · show (caught (.transactionError msg)).isSome
    rw [hcaught _ (by simp)]
    exact Option.isSome_some
  · trivial

theorem settled_readMembers_iff (kind : Kind) (value : Json) (f : List Member → Prog Unit) (s : State)
    (hf : ∀ members t, Settled caught (f members t)) :
    Settled caught ((lift (replay.readMembers kind value) >>= f) s) ↔ replay.MembersShape kind value := by
  rw [← replay.reports_elements_iff, readMembers]
  cases access value.elements >>= replay.readMemberList kind with
  | ok members => exact iff_of_true (hf members s) (.ok members)
  | error e =>
      have hreports : Reports (.error e : Except Exc (List Member)) ↔ (reported e).isSome := ⟨fun h => h e rfl, .error⟩
      rw [hreports]
      cases e <;> simp [lift, bind_apply, throw_apply, Settled, errorText, reported, hcaught]

theorem settled_swdbCreate_iff (kind : Kind) (call : Call) (id : Json) (pkgTypes : Nat) (members : Json) (s : State) :
    Settled caught (replay.swdbCreate kind call id pkgTypes members s) ↔
      ∃ idText, id = .str idText ∧ ((replay.compsNames kind idText).isSome → replay.MembersShape kind members) := by
  cases id with
  | str idText =>
      simp only [Json.str.injEq, exists_eq_left']
      rw [swdbCreate, createSwdbItem]
      cases hnames : replay.compsNames kind idText with
      | none =>
          refine iff_of_true ?_ fun h => by cases h
          rw [bind_assoc]
          exact (settled_raiseOrWarn' hcaught _ _ s).bind fun _ _ => trivial
      | some names =>
          simp only [Option.isSome_some, true_imp_iff]
          rw [bind_assoc]
          exact replay.settled_readMembers_iff hcaught kind members _ s fun _ _ => trivial
  | _ =>
      refine iff_of_false (fun h => ?_) ?_
      · exact absurd h (by simp [swdbCreate, createSwdbItem, bind_apply, throw_apply, Settled, errorText, hcaught])
      · rintro ⟨_, h, _⟩
        cases h

theorem settled_handler_iff (kind : Kind) (call : Call) (id : Json) (pkgTypes : Nat) (members : Json) (s : State) :
    Settled caught (replay.handler kind call id pkgTypes members s) ↔ ∃ idText, id = .str idText ∧
      (call = .install ∨ (replay.base.swdb.getItem kind idText).isSome → (replay.compsNames kind idText).isSome →
        replay.MembersShape kind members) := by
  rw [handler_eq]
  split_ifs with hcall
  · simp only [hcall, true_or, true_imp_iff]
    exact replay.settled_swdbCreate_iff hcaught kind .install id pkgTypes members s
  · simp only [hcall, false_or]
    cases id with
    | str idText =>
        simp only [Json.str.injEq, exists_eq_left']
        rw [swdbChange]
        cases hitem : replay.base.swdb.getItem kind idText with
        | none => exact iff_of_true (settled_raiseOrWarn' hcaught _ _ s) fun h => by cases h
        | some item =>
            simp only [Option.isSome_some, true_imp_iff]
            rw [replay.settled_swdbCreate_iff hcaught]
            simp only [Json.str.injEq, exists_eq_left']
    | _ => simp [swdbChange, throw_apply, Settled, errorText, hcaught]

end Handlers

/-- `except KeyError` widens what counts as rejected. -/
theorem settled_replayItem (kind : Kind) (data : Json) (s : State) :
    Settled errorText (replay.replayItem kind data s) ↔ Settled reported (replay.replayItemValues kind data s) := by
  rw [replayItem, tryCatch_apply]
  cases replay.replayItemValues kind data s with
  | ok a t => rfl
  | error e t => cases e <;> simp [throw_apply, Settled, errorText, reported]

theorem replayItemValues_missing (kind : Kind) {fields : List (String × Json)} {key : String}
    (hkey : key ∈ ["action", "id", "package_types"]) (hmissing : fields.lookup key = none) :
    ∃ key', replay.replayItemValues kind (.obj fields) = throw (.keyError key') := by
  rw [replayItemValues]
  simp only [access_get_obj]
  simp only [List.mem_cons, List.not_mem_nil, or_false] at hkey
  cases haction : fields.lookup "action" with
  | none => exact ⟨_, rfl⟩
  | some action =>
      cases hid : fields.lookup "id" with
      | none => exact ⟨_, rfl⟩
      | some id =>
          cases htypes : fields.lookup "package_types" with
          | none => exact ⟨_, rfl⟩
          | some types =>
              obtain rfl | rfl | rfl := hkey
              all_goals simp_all

theorem reported_eq {e : Exc} (he : ∀ key, e ≠ .keyError key) : reported e = errorText e := by
  cases e with
  | keyError key => exact absurd rfl (he key)
  | _ => rfl

theorem settled_values_iff (kind : Kind) {fields : List (String × Json)} {action id types : Json}
    (haction : fields.lookup "action" = some action) (hid : fields.lookup "id" = some id)
    (htypes : fields.lookup "package_types" = some types) (s : State) :
    Settled errorText (replay.replayItem kind (.obj fields) s) ↔ replay.ValuesShape kind fields action id types := by
  rw [settled_replayItem, replay.replayItemValues_fields kind haction hid htypes, ValuesShape]
  cases types with
  | str typesText =>
      simp only [Json.str.injEq, exists_eq_left', toPackageType]
      cases hconv : replay.lib.stringToCompsPackageType typesText with
      | error message => exact iff_of_true rfl fun _ _ _ h _ _ => nomatch h
      | ok pkgTypes =>
          simp only [lift_ok_bind, Except.ok.injEq]
          cases hcall : itemCall action with
          | none => exact iff_of_true rfl fun _ _ _ _ h _ => nomatch h
          | some call =>
              simp only [Option.some.injEq, access_get_obj]
              cases hmembers : fields.lookup (membersKey kind) with
              | none => exact iff_of_true rfl fun _ _ _ _ _ h => nomatch h
              | some members =>
                  simp only [lift_ok_bind, Option.some.injEq]
                  rw [replay.settled_handler_iff fun _ => reported_eq]
                  exact ⟨fun h _ _ _ _ hc hm => hc ▸ hm ▸ h, fun h => h pkgTypes call members rfl rfl rfl⟩
  | _ =>
      refine iff_of_false (fun h => ?_) fun ⟨_, h, _⟩ => nomatch h
      have hend : (reported .typeError).isSome := h
      exact absurd hend (by simp [reported, errorText])

theorem settled_replayItem_iff (kind : Kind) (data : Json) (s : State) :
    Settled errorText (replay.replayItem kind data s) ↔ replay.ItemShape kind data := by
  cases data with
  | obj fields =>
      by_cases hkeys : ∃ key ∈ ["action", "id", "package_types"], fields.lookup key = none
      · obtain ⟨key, hkey, hmissing⟩ := hkeys
        obtain ⟨key', hrun⟩ := replay.replayItemValues_missing kind hkey hmissing
        refine iff_of_true ?_ ⟨fields, rfl, fun action id types haction hid htypes => ?_⟩
        · rw [settled_replayItem, hrun]
          exact Option.isSome_some
        · simp only [List.mem_cons, List.not_mem_nil, or_false] at hkey
          obtain rfl | rfl | rfl := hkey
          all_goals simp_all
      · simp only [List.mem_cons, List.not_mem_nil, or_false, not_exists, not_and, Option.ne_none_iff_exists', forall_eq_or_imp, forall_eq] at hkeys
        obtain ⟨⟨action, haction⟩, ⟨id, hid⟩, ⟨types, htypes⟩⟩ := hkeys
        rw [replay.settled_values_iff kind haction hid htypes]
        constructor
        · intro h
          refine ⟨fields, rfl, fun _ _ _ haction' hid' htypes' => ?_⟩
          obtain rfl := Option.some.inj (haction.symm.trans haction')
          obtain rfl := Option.some.inj (hid.symm.trans hid')
          obtain rfl := Option.some.inj (htypes.symm.trans htypes')
          exact h
        · intro ⟨_, hobj, h⟩
          cases hobj
          exact h action id types haction hid htypes
  | _ =>
      refine iff_of_false (fun h => ?_) fun ⟨_, h, _⟩ => nomatch h
      have hend : (errorText .typeError).isSome := h
      exact absurd hend (by simp [errorText])

/-! ### The whole document -/

/-- `_check_version` unpacks the version into two parts. -/
def VersionShape (version : String) : Prop := ∃ major minor, splitVersion version = [major, minor]

/-- The version this code reads: `0` and a number. -/
def Compatible (version : String) : Prop :=
  ∃ major minor, splitVersion version = [major, minor] ∧ replay.lib.int major = some 0 ∧ (replay.lib.int minor).isSome

/-- All items of a loaded transaction are accepted or rejected. -/
def ItemsShape (loaded : Loaded) : Prop :=
  (∀ pkgData ∈ loaded.rpms, replay.RpmShape pkgData) ∧ (∀ data ∈ loaded.groups, replay.ItemShape .group data) ∧
    ∀ data ∈ loaded.environments, replay.ItemShape .environment data

/-- The documents that are replayed or reported. A top level that is no dictionary is reported where `in` finds no version in it. -/
def Shape (document : Json) : Prop :=
  match document with
  | .obj fields => ∀ version, fields.lookup "version" = some (.str version) →
      VersionShape version ∧
      (replay.Compatible version → ∀ rpms groups environments, Json.getD fields "rpms" (.arr []) = .arr rpms →
        Json.getD fields "groups" (.arr []) = .arr groups → Json.getD fields "environments" (.arr []) = .arr environments →
        replay.ItemsShape ⟨rpms, groups, environments⟩)
  | _ => document.contains "version" = .ok false

/-- `run` attempts all items and raises exactly if some item was rejected, with the errors of all that were. -/
def RunsCleanly (loaded : Loaded) (s : State) : Prop :=
  ∃ outcomes t, Attempted errorText (replay.attempts loaded) s outcomes t ∧
    replay.run loaded s = if outcomes.reduceOption = [] then .ok () t
      else .error (.transactionReplayError replay.options.filename outcomes.reduceOption) t

/-- Constructing the replay raises nothing but a `TransactionReplayError`, and so does `run`. -/
def ReportsCleanly (document : Json) (s : State) : Prop :=
  match replay.loadFromFile document with
  | .error e => e.isTransactionReplayError
  | .ok loaded => replay.RunsCleanly loaded s

theorem runsCleanly_iff (loaded : Loaded) (s : State) : replay.RunsCleanly loaded s ↔ replay.ItemsShape loaded := by
  constructor
  · intro ⟨outcomes, t, hattempted, _⟩
    refine ⟨fun pkgData hmem => ?_, fun data hmem => ?_, fun data hmem => ?_⟩
    · obtain ⟨u, hu⟩ := hattempted.settled (x := replay.replayPkgAction pkgData) (by simp only [attempts, List.mem_append, List.mem_map]; exact .inl ⟨_, hmem, rfl⟩)
      exact (replay.settled_replayPkgAction_iff pkgData u).mp hu
    · obtain ⟨u, hu⟩ := hattempted.settled (x := replay.replayItem .group data) (by simp only [attempts, List.mem_append, List.mem_map]; exact .inr (.inl ⟨_, hmem, rfl⟩))
      exact (replay.settled_replayItem_iff .group data u).mp hu
    · obtain ⟨u, hu⟩ := hattempted.settled (x := replay.replayItem .environment data) (by simp only [attempts, List.mem_append, List.mem_map]; exact .inr (.inr ⟨_, hmem, rfl⟩))
      exact (replay.settled_replayItem_iff .environment data u).mp hu
  · intro ⟨hrpms, hgroups, henvironments⟩
    have hsettled : ∀ x ∈ replay.attempts loaded, ∀ s, Settled errorText (x s) := by
      intro x hx s
      simp only [attempts, List.mem_append, List.mem_map] at hx
      obtain ⟨pkgData, hmem, rfl⟩ | ⟨data, hmem, rfl⟩ | ⟨data, hmem, rfl⟩ := hx
      · exact (replay.settled_replayPkgAction_iff pkgData s).mpr (hrpms pkgData hmem)
      · exact (replay.settled_replayItem_iff .group data s).mpr (hgroups data hmem)
      · exact (replay.settled_replayItem_iff .environment data s).mpr (henvironments data hmem)
    obtain ⟨outcomes, t, hattempted⟩ := exists_attempted hsettled s
    exact ⟨outcomes, t, hattempted, replay.run_of_attempted hattempted⟩

/-! ### Loading -/

/-- A version is unpacked, and then accepted or reported; or it is not unpacked, which raises `ValueError`. -/
theorem checkVersion_cases (version : String) :
    VersionShape version ∧ replay.Compatible version ∧ replay.checkVersion version = .ok () ∨
      VersionShape version ∧ ¬replay.Compatible version ∧ (∃ e, replay.checkVersion version = .error e ∧ e.isTransactionReplayError) ∨
      ¬VersionShape version ∧ replay.checkVersion version = .error .valueError := by
  by_cases hshape : VersionShape version
  · obtain ⟨major, minor, hsplit⟩ := hshape
    have hcompatible : replay.Compatible version ↔ replay.lib.int major = some 0 ∧ (replay.lib.int minor).isSome := by
      constructor
      · intro ⟨major', minor', hsplit', h⟩
        rw [hsplit] at hsplit'
        cases hsplit'
        exact h
      · exact fun h => ⟨major, minor, hsplit, h⟩
    rw [hcompatible, checkVersion, hsplit]
    simp only [show VersionShape version from ⟨major, minor, hsplit⟩, true_and, not_true_eq_false, false_and, or_false]
    cases hmajor : replay.lib.int major with
    | none => exact .inr ⟨by simp, _, rfl, rfl⟩
    | some majorNumber =>
        cases hminor : replay.lib.int minor with
        | none => exact .inr ⟨by simp, _, rfl, rfl⟩
        | some minorNumber =>
            by_cases hzero : majorNumber = 0
            · exact .inl ⟨by simp [hzero], by simp [hzero]⟩
            · exact .inr ⟨by simp [hzero], _, if_neg hzero, rfl⟩
  · refine .inr (.inr ⟨hshape, ?_⟩)
    rw [checkVersion]
    split
    next major minor hsplit => exact absurd ⟨major, minor, hsplit⟩ hshape
    next => rfl

theorem getList_obj (fields : List (String × Json)) (key : String) :
    (∃ elems, Json.getD fields key (.arr []) = .arr elems ∧ getList (.obj fields) key = .ok elems) ∨
      (∀ elems, Json.getD fields key (.arr []) ≠ .arr elems) ∧ ∃ text, getList (.obj fields) key = .error (.transactionError text) := by
  rw [getList]
  cases hvalue : Json.getD fields key (.arr []) with
  | arr elems => exact .inl ⟨elems, rfl, rfl⟩
  | _ => exact .inr ⟨by simp, _, rfl⟩

theorem loadFromFile_ok {document : Json} {loaded : Loaded} (h : replay.loadFromData document = .ok loaded) :
    replay.loadFromFile document = .ok loaded := by
  rw [loadFromFile, h]

/-- `_load_from_file` reports what `_load_from_data` raises as a `TransactionError`. -/
theorem reportsCleanly_error {document : Json} {e : Exc} (h : replay.loadFromData document = .error e) (s : State) :
    replay.ReportsCleanly document s ↔ e.isTransactionReplayError ∨ (errorText e).isSome := by
  rw [ReportsCleanly, loadFromFile, h]
  cases e <;> simp [Exc.isTransactionReplayError, errorText]

theorem reportsCleanly_obj {fields : List (String × Json)} {version : String} (hversion : fields.lookup "version" = some (.str version)) (s : State) :
    replay.ReportsCleanly (.obj fields) s ↔ VersionShape version ∧
      (replay.Compatible version → ∀ rpms groups environments, Json.getD fields "rpms" (.arr []) = .arr rpms →
        Json.getD fields "groups" (.arr []) = .arr groups → Json.getD fields "environments" (.arr []) = .arr environments →
        replay.ItemsShape ⟨rpms, groups, environments⟩) := by
  have hload := replay.loadFromData_obj fields version hversion
  obtain ⟨hshape, hcompatible, hcheck⟩ | ⟨hshape, hcompatible, e, hcheck, he⟩ | ⟨hshape, hcheck⟩ := replay.checkVersion_cases version
  · simp only [hshape, hcompatible, true_and, true_imp_iff]
    rw [hcheck] at hload
    obtain ⟨rpms, hrpms, hgetRpms⟩ | ⟨hrpms, text, hgetRpms⟩ := getList_obj fields "rpms"
    · obtain ⟨groups, hgroups, hgetGroups⟩ | ⟨hgroups, text, hgetGroups⟩ := getList_obj fields "groups"
      · obtain ⟨environments, henvironments, hgetEnvironments⟩ | ⟨henvironments, text, hgetEnvironments⟩ := getList_obj fields "environments"
        · rw [hgetRpms, hgetGroups, hgetEnvironments] at hload
          rw [ReportsCleanly, replay.loadFromFile_ok hload]
          simp only [hrpms, hgroups, henvironments, Json.arr.injEq]
          rw [runsCleanly_iff]
          exact ⟨fun h _ _ _ h1 h2 h3 => h1 ▸ h2 ▸ h3 ▸ h, fun h => h rpms groups environments rfl rfl rfl⟩
        · rw [hgetRpms, hgetGroups, hgetEnvironments] at hload
          exact iff_of_true ((replay.reportsCleanly_error hload s).mpr (.inr rfl)) fun _ _ _ _ _ h => absurd h (henvironments _)
      · rw [hgetRpms, hgetGroups] at hload
        exact iff_of_true ((replay.reportsCleanly_error hload s).mpr (.inr rfl)) fun _ _ _ _ h _ => absurd h (hgroups _)
    · rw [hgetRpms] at hload
      exact iff_of_true ((replay.reportsCleanly_error hload s).mpr (.inr rfl)) fun _ _ _ h _ _ => absurd h (hrpms _)
  · rw [hcheck] at hload
    exact iff_of_true ((replay.reportsCleanly_error hload s).mpr (.inl he)) ⟨hshape, fun h => absurd h hcompatible⟩
  · rw [hcheck] at hload
    refine iff_of_false (fun h => ?_) fun h => hshape h.1
    exact absurd ((replay.reportsCleanly_error hload s).mp h) (by simp [Exc.isTransactionReplayError, errorText])

/-- A top level that is no dictionary: where the version is found in it, or `in` does not apply, `TypeError` escapes. -/
theorem reportsCleanly_not_obj {document : Json} (hdocument : ∀ fields, document ≠ .obj fields) (s : State) :
    replay.ReportsCleanly document s ↔ document.contains "version" = .ok false := by
  have hget : document.get "version" = .error .typeError := by
    cases document with
    | obj fields => exact absurd rfl (hdocument fields)
    | _ => rfl
  cases hcontains : document.contains "version" with
  | error e =>
      have he : e = .typeError := by
        cases document <;> simp_all [Json.contains]
      have hload : replay.loadFromData document = .error .typeError := by
        rw [loadFromData, verifyToplevelJson, hcontains, he]
        rfl
      rw [replay.reportsCleanly_error hload]
      simp [Exc.isTransactionReplayError, errorText]
  | ok found =>
      cases found with
      | true =>
          have hload : replay.loadFromData document = .error .typeError := by
            rw [loadFromData, verifyToplevelJson, hcontains, hget]
            rfl
          rw [replay.reportsCleanly_error hload]
          simp [Exc.isTransactionReplayError, errorText]
      | false =>
          have hload : replay.loadFromData document = .error (.transactionReplayError replay.options.filename ["Missing key \"version\"."]) := by
            rw [loadFromData, verifyToplevelJson, hcontains]
            rfl
          rw [replay.reportsCleanly_error hload]
          simp [Exc.isTransactionReplayError]

/-- A dictionary without a version, or with one that is no text, is reported. -/
theorem reportsCleanly_no_version {fields : List (String × Json)} (hversion : ∀ version, fields.lookup "version" ≠ some (.str version)) (s : State) :
    replay.ReportsCleanly (.obj fields) s := by
  cases hlookup : fields.lookup "version" with
  | none =>
      have hload : replay.loadFromData (.obj fields) = .error (.transactionReplayError replay.options.filename ["Missing key \"version\"."]) := by
        rw [loadFromData, verifyToplevelJson]
        simp only [Json.contains, hlookup]
        rfl
      exact (replay.reportsCleanly_error hload s).mpr (.inl rfl)
  | some value =>
      have hload : replay.loadFromData (.obj fields) = .error (unexpectedType "version" "string") := by
        rw [loadFromData, verifyToplevelJson]
        simp only [Json.contains, hlookup, access_get_obj]
        cases value with
        | str version => exact absurd hlookup (hversion version)
        | _ => rfl
      exact (replay.reportsCleanly_error hload s).mpr (.inr rfl)

/-- A document is replayed or reported, and nothing else escapes, exactly if it has the shape. -/
theorem reportsCleanly_iff (document : Json) (s : State) : replay.ReportsCleanly document s ↔ replay.Shape document := by
  cases document with
  | obj fields =>
      by_cases hversion : ∃ version, fields.lookup "version" = some (.str version)
      · obtain ⟨version, hversion⟩ := hversion
        rw [replay.reportsCleanly_obj hversion, Shape]
        simp only [hversion, Option.some.injEq, Json.str.injEq, forall_eq']
      · simp only [not_exists] at hversion
        exact iff_of_true (replay.reportsCleanly_no_version hversion s) fun version h => absurd h (hversion version)
  | _ => exact replay.reportsCleanly_not_obj (by simp) s

def emptyReplay : TransactionReplay where
  base :=
    { lib := .plain, codes := ⟨fun _ => 4, fun _ => 4⟩, strict := true, sack := [], isInstallonly := fun _ => false, comps := ⟨[], []⟩
      swdb := ⟨fun _ => none, fun _ => none, fun _ => [], fun _ => [], fun _ => .unknown⟩ }
  options := ⟨"transaction.json", false, false, false⟩

/-- A version without a dot escapes as `ValueError`, and an rpm item that is no dictionary as `TypeError`. -/
theorem not_reportsCleanly : ¬emptyReplay.ReportsCleanly (.obj [("version", .str "1")]) {} ∧
    ¬emptyReplay.ReportsCleanly (.obj [("version", .str "0.0"), ("rpms", .arr [.null])]) {} := by
  have hshort : ¬VersionShape "1" := by
    intro ⟨major, minor, hsplit⟩
    have hone : splitVersion "1" = ["1"] := by decide +kernel
    rw [hone] at hsplit
    cases hsplit
  have hzero : emptyReplay.Compatible "0.0" := ⟨"0", "0", by decide +kernel, by decide +kernel, by decide +kernel⟩
  constructor
  · rw [emptyReplay.reportsCleanly_obj rfl]
    exact fun h => hshort h.1
  · rw [emptyReplay.reportsCleanly_obj rfl]
    intro h
    obtain ⟨fields, hnull, _⟩ := (h.2 hzero [.null] [] [] rfl rfl rfl).1 .null List.mem_cons_self
    cases hnull

end TransactionReplay

end Dnf.Replay
