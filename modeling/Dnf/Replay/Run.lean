import Dnf.Foundation.Collect
import Dnf.Replay.TransactionReplay

/-!
# `run` and `post_transaction`

Groups and environments are replayed by code that is the same up to names: eight handlers, four for each kind, that build the recorded object from the definition in comps and the members in the file and hand it to the persistor. The loops of `run` go on after a `TransactionError` and end in one `TransactionReplayError` with everything they collected; any other exception ends `run` at once.
-/

namespace Dnf.Replay

open History Groups Foundation Foundation.Effect

/-! ### The words for the two kinds -/

def title : Kind → String
  | .group => "Group"
  | .environment => "Environment"

def word : Kind → String
  | .group => "group"
  | .environment => "environment"

def article : Kind → String
  | .group => "a group"
  | .environment => "an environment"

/-- The key of the members in a stored item. -/
def membersKey : Kind → String
  | .group => "packages"
  | .environment => "groups"

def membersPath : Kind → String
  | .group => "groups.packages"
  | .environment => "environments.groups"

def nameKey : Kind → String
  | .group => "name"
  | .environment => "id"

def typeKey : Kind → String
  | .group => "package_type"
  | .environment => "group_type"

namespace TransactionReplay

variable (replay : TransactionReplay)

/-! ### Groups and environments -/

/-- `stringToCompsPackageType`, its `libdnf.error.Error` turned into a `TransactionError`. -/
def toPackageType (value : Json) : Except Exc Nat :=
  match value with
  | .str text =>
      match replay.lib.stringToCompsPackageType text with
      | .ok type => .ok type
      | .error message => .error (.transactionError message)
  | _ => .error .typeError

/-- An environment takes mandatory and optional groups only. -/
def allows (kind : Kind) (type : Nat) : Bool :=
  match kind with
  | .group => true
  | .environment => type == replay.base.codes.libdnf .mandatory || type == replay.base.codes.libdnf .optional

/-- One element of the loop over the members. -/
def readMember (kind : Kind) (elem : Json) : Except Exc Member := do
  let nameValue ← access (elem.get (nameKey kind))
  let name ← assertText nameValue (membersPath kind ++ "." ++ nameKey kind)
  let installedValue ← access (elem.get "installed")
  let installed ← assertBool installedValue (membersPath kind ++ ".installed")
  let typeValue ← access (elem.get (typeKey kind))
  let typeText ← assertText typeValue (membersPath kind ++ "." ++ typeKey kind)
  let type ← replay.toPackageType (.str typeText)
  if replay.allows kind type then pure ⟨name, installed, type⟩
  else throw (.transactionError ("Invalid value \"" ++ typeText ++ "\" of environments.groups.group_type, only \"mandatory\" or \"optional\" is supported."))

def readMemberList (kind : Kind) (elems : List Json) : Except Exc (List Member) :=
  elems.foldlM (fun members elem => do
    let member ← replay.readMember kind elem
    pure (replay.lib.addMember members member)) []

/-- The same with its `except KeyError`. -/
def readMembers (kind : Kind) (value : Json) : Except Exc (List Member) :=
  match access value.elements >>= replay.readMemberList kind with
  | .error (.keyError key) => .error (.transactionError ("Missing object key \"" ++ key ++ "\" in " ++ membersPath kind ++ "."))
  | result => result

/-- The name and the translated name of a definition. -/
def compsNames (kind : Kind) (id : String) : Option (String × String) :=
  match kind with
  | .group => (replay.base.comps.groupById id).map fun group => (group.name, group.uiName)
  | .environment => (replay.base.comps.environmentById id).map fun env => (env.name, env.uiName)

/-- `_create_swdb_group` and `_create_swdb_environment`. -/
def createSwdbItem (kind : Kind) (id : Json) (pkgTypes : Nat) (members : Json) : Prog (Option CompsItem) :=
  match id with
  | .str id =>
      match replay.compsNames kind id with
      | none => do
          raiseOrWarn replay.skipUnavailable (title kind ++ " id '" ++ id ++ "' is not available.")
          pure none
      | some (name, uiName) => do
          let members ← lift (replay.readMembers kind members)
          pure (some ⟨id, name, uiName, pkgTypes, members⟩)
  | _ => throw .assertionError

def swdbCreate (kind : Kind) (call : Call) (id : Json) (pkgTypes : Nat) (members : Json) : Prog Unit := do
  let item ← replay.createSwdbItem kind id pkgTypes members
  match item with
  | some item => modify fun s => { s with history := s.history.call kind call item }
  | none => pure ()

/-- The same for an item that has to be installed. -/
def swdbChange (kind : Kind) (call : Call) (id : Json) (pkgTypes : Nat) (members : Json) : Prog Unit :=
  match id with
  | .str text =>
      match replay.base.swdb.getItem kind text with
      | none => raiseOrWarn replay.options.ignoreInstalled (title kind ++ " id '" ++ text ++ "' is not installed.")
      | some _ => replay.swdbCreate kind call id pkgTypes members
  | _ => throw .typeError

def swdbGroupInstall : Json → Nat → Json → Prog Unit := replay.swdbCreate .group .install

def swdbGroupUpgrade : Json → Nat → Json → Prog Unit := replay.swdbChange .group .upgrade

def swdbGroupDowngrade : Json → Nat → Json → Prog Unit := replay.swdbChange .group .downgrade

def swdbGroupRemove : Json → Nat → Json → Prog Unit := replay.swdbChange .group .remove

def swdbEnvironmentInstall : Json → Nat → Json → Prog Unit := replay.swdbCreate .environment .install

def swdbEnvironmentUpgrade : Json → Nat → Json → Prog Unit := replay.swdbChange .environment .upgrade

def swdbEnvironmentDowngrade : Json → Nat → Json → Prog Unit := replay.swdbChange .environment .downgrade

def swdbEnvironmentRemove : Json → Nat → Json → Prog Unit := replay.swdbChange .environment .remove

def handler : Kind → Call → Json → Nat → Json → Prog Unit
  | .group, .install => replay.swdbGroupInstall
  | .group, .remove => replay.swdbGroupRemove
  | .group, .upgrade => replay.swdbGroupUpgrade
  | .group, .downgrade => replay.swdbGroupDowngrade
  | .environment, .install => replay.swdbEnvironmentInstall
  | .environment, .remove => replay.swdbEnvironmentRemove
  | .environment, .upgrade => replay.swdbEnvironmentUpgrade
  | .environment, .downgrade => replay.swdbEnvironmentDowngrade

theorem handler_eq (kind : Kind) (call : Call) :
    replay.handler kind call = if call = .install then replay.swdbCreate kind call else replay.swdbChange kind call := by
  cases kind <;> cases call <;> rfl

/-- The tests on the action, in the order of `run`. -/
def itemCall (action : Json) : Option Call :=
  if action.isText "Install" then some .install
  else if action.isText "Removed" then some .remove
  else if action.isText "Upgrade" || action.isText "Upgraded" then some .upgrade
  else if action.isText "Downgrade" || action.isText "Downgraded" then some .downgrade
  else none

/-- The body of the loops over groups and environments. What it appends to the errors itself is raised here, and the loop appends it. -/
def replayItemValues (kind : Kind) (data : Json) : Prog Unit := do
  let action ← lift (access (data.get "action"))
  let id ← lift (access (data.get "id"))
  let typesValue ← lift (access (data.get "package_types"))
  let pkgTypes ← lift (replay.toPackageType typesValue)
  match itemCall action with
  | some call => do
      let members ← lift (access (data.get (membersKey kind)))
      replay.handler kind call id pkgTypes members
  | none => throw (.transactionError
      ("Unexpected value of " ++ word kind ++ " action \"" ++ replay.lib.str action ++ "\" for " ++ word kind ++ " \"" ++ replay.lib.str id ++ "\"."))

/-- The same with its `except KeyError`. -/
def replayItem (kind : Kind) (data : Json) : Prog Unit :=
  tryCatch (replay.replayItemValues kind data) fun
    | .keyError key => throw (.transactionError ("Missing object key \"" ++ key ++ "\" in " ++ article kind ++ "."))
    | e => throw e

/-- The types, the action and the members of an item that has the first three keys. -/
theorem replayItemValues_fields (kind : Kind) {fields : List (String × Json)} {action id types : Json}
    (haction : fields.lookup "action" = some action) (hid : fields.lookup "id" = some id)
    (htypes : fields.lookup "package_types" = some types) :
    replay.replayItemValues kind (.obj fields) = (do
      let pkgTypes ← lift (replay.toPackageType types)
      match itemCall action with
      | some call => do
          let members ← lift (access ((Json.obj fields).get (membersKey kind)))
          replay.handler kind call id pkgTypes members
      | none => throw (.transactionError
          ("Unexpected value of " ++ word kind ++ " action \"" ++ replay.lib.str action ++ "\" for " ++ word kind ++ " \"" ++ replay.lib.str id ++ "\"."))) := by
  rw [replayItemValues]
  simp only [access_get_obj, haction, hid, htypes, lift_ok_bind]

/-! ### `run` -/

/-- `except TransactionError`; any other exception goes through. -/
def errorText : Exc → Option String
  | .transactionError text => some text
  | _ => none

def run (loaded : Loaded) : Prog Unit := do
  let errors ← collect errorText replay.replayPkgAction loaded.rpms []
  let errors ← collect errorText (replay.replayItem .group) loaded.groups errors
  let errors ← collect errorText (replay.replayItem .environment) loaded.environments errors
  if errors = [] then pure () else throw (.transactionReplayError replay.options.filename errors)

def attempts (loaded : Loaded) : List (Prog Unit) :=
  loaded.rpms.map replay.replayPkgAction ++ (loaded.groups.map (replay.replayItem .group) ++ loaded.environments.map (replay.replayItem .environment))

theorem run_of_attempted {loaded : Loaded} {s t : State} {outcomes : List (Option String)}
    (h : Attempted errorText (replay.attempts loaded) s outcomes t) :
    replay.run loaded s = if outcomes.reduceOption = [] then .ok () t
      else .error (.transactionReplayError replay.options.filename outcomes.reduceOption) t := by
  obtain ⟨rpms, rest, t1, rfl, hrpms, hrest⟩ := h.split
  obtain ⟨groups, environments, t2, rfl, hgroups, henvironments⟩ := hrest.split
  rw [run, bind_apply, hrpms.collect_eq]
  simp only [bind_apply, hgroups.collect_eq, henvironments.collect_eq, List.nil_append, List.reduceOption_append, List.append_assoc]
  split_ifs <;> rfl

/-! ### `post_transaction` -/

/-- The message about a package the file does not name. -/
def extraMessage (nevra : String) : String :=
  "Package nevra \"" ++ nevra ++ "\", which is not present in the transaction file, was pulled into the transaction."

/-- The message is left out for the kinds of extras that are ignored. -/
def pulledIn (s : State) (nevra : String) (action : Action) : Option String :=
  if nevra ∉ s.nevraCache ∧ (¬replay.options.ignoreInstalled ∨ action ∉ [.upgraded, .downgraded, .reinstalled]) then
    some (extraMessage nevra)
  else none

/-- The reason an item has afterwards. -/
def restoredReason (s : State) (nevra : String) (action : Action) (reason : Reason) : Reason :=
  match s.nevraReasonCache.lookup nevra with
  | some replayReason =>
      if action ∈ [.install, .remove] ∨ replay.lib.reasonCompare replayReason reason > 0 then replayReason else reason
  | none => reason

/-- One item of the loop, with the errors and the items before it. -/
def postItem (acc : List String × List TransactionItem) (tsi : TransactionItem) : Prog (List String × List TransactionItem) :=
  match tsi.pkg with
  | none => pure (acc.1, acc.2 ++ [tsi])
  | some pkg => do
      let s ← get
      let done := acc.2 ++ [{ tsi with reason := replay.restoredReason s pkg.nevra.text tsi.action tsi.reason }]
      match replay.pulledIn s pkg.nevra.text tsi.action with
      | none => pure (acc.1, done)
      | some msg =>
          if replay.options.ignoreExtras then do
            modify fun s => { s with warnings := s.warnings ++ [msg] }
            pure (acc.1, done)
          else pure (acc.1 ++ [msg], done)

def postTransaction : Prog Unit := do
  let s ← get
  let (errors, items) ← s.transaction.foldlM replay.postItem ([], [])
  modify fun s => { s with transaction := items }
  if errors = [] then pure () else throw (.transactionReplayError replay.options.filename errors)

end TransactionReplay

end Dnf.Replay
