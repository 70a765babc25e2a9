import Dnf.Foundation.Effect
import Dnf.Groups.Bunch
import Dnf.Replay.Library

/-!
# `TransactionReplay`

A stored transaction is a JSON document. Loading it checks its version and that its three lists are lists; `run` then goes through the items one by one, puts install and erase marks on the goal for the packages and registers the groups and environments in history, and collects the errors of the items it rejects; `post_transaction` looks at the resolved transaction afterwards, for packages the file does not name and for the reasons it stores.

The sack is a list of packages; those of the repository `@System` are the installed ones. Groups and environments are replayed by the same code up to names, so each function on them is one definition over `Kind`.
-/

namespace Dnf.Replay

open History Groups Foundation Foundation.Effect

structure Package where
  nevra : Nevra
  reponame : String
  deriving DecidableEq

def systemRepoName : String := "@System"

def Package.installed (pkg : Package) : Bool := pkg.reponame == systemRepoName

/-- What is raised; a `TransactionReplayError` is kept with the texts of its errors. -/
inductive Exc
  | transactionError (text : String)
  | transactionReplayError (filename : String) (errors : List String)
  | incompatibleTransactionVersionError (filename : String) (errors : List String)
  | keyError (key : String)
  | indexError
  | typeError
  | valueError
  | assertionError
  | other
  deriving DecidableEq

/-- `TransactionReplayError` or its subclass. -/
def Exc.isTransactionReplayError : Exc → Bool
  | .transactionReplayError _ _ => true
  | .incompatibleTransactionVersionError _ _ => true
  | _ => false

/-- The `Base` a transaction is replayed on. `isInstallonly` is whether a package provides one of `installonlypkgs`. -/
structure Base where
  lib : Library
  codes : TypeCodes
  strict : Bool
  sack : List Package
  isInstallonly : Package → Bool
  comps : Comps
  swdb : Swdb

structure Options where
  filename : String
  ignoreExtras : Bool
  ignoreInstalled : Bool
  skipUnavailable : Bool

inductive Mark
  | install (select : List Package) (optional : Bool)
  | erase (pkg : Package)

/-- An item of the resolved transaction; one without a package raises `KeyError` when asked for it. -/
structure TransactionItem where
  pkg : Option Package
  action : Action
  reason : Reason
  deriving DecidableEq

structure State where
  goal : List Mark := []
  history : SwdbInterface := {}
  reasonChanges : List (Package × Reason) := []
  nevraCache : List String := []
  nevraReasonCache : List (String × Reason) := []
  warnings : List String := []
  transaction : List TransactionItem := []

abbrev Prog := EStateM Exc State

structure TransactionReplay where
  base : Base
  options : Options

namespace TransactionReplay

variable (replay : TransactionReplay)

abbrev lib : Library := replay.base.lib

def skipUnavailable : Bool := replay.options.skipUnavailable || !replay.base.strict

/-! ### Loading -/

def access {α : Type} : Except AccessError α → Except Exc α
  | .ok a => .ok a
  | .error (.keyError key) => .error (.keyError key)
  | .error .typeError => .error .typeError

theorem access_get_obj (fields : List (String × Json)) (key : String) :
    access ((Json.obj fields).get key) = match fields.lookup key with
      | some value => .ok value
      | none => .error (.keyError key) := by
  rw [Json.get_obj]
  cases fields.lookup key <;> rfl

def unexpectedType (id expected : String) : Exc := .transactionError ("Unexpected type of \"" ++ id ++ "\", " ++ expected ++ " expected.")

def assertText (value : Json) (id : String) : Except Exc String :=
  match value with
  | .str text => .ok text
  | _ => .error (unexpectedType id "string")

def assertBool (value : Json) (id : String) : Except Exc Bool :=
  match value with
  | .bool b => .ok b
  | _ => .error (unexpectedType id "boolean")

def assertList (value : Json) (id : String) : Except Exc (List Json) :=
  match value with
  | .arr elems => .ok elems
  | _ => .error (unexpectedType id "array")

/-- `version.split('.')`. -/
def splitVersion (version : String) : List String := (version.toList.splitOn '.').map String.ofList

/-- `_check_version`; a version that is not two parts does not unpack. -/
def checkVersion (version : String) : Except Exc Unit :=
  match splitVersion version with
  | [major, minor] =>
      match replay.lib.int major with
      | none => .error (.transactionReplayError replay.options.filename
          ["Invalid major version \"" ++ major ++ "\", number expected."])
      | some majorNumber =>
          match replay.lib.int minor with
          | none => .error (.transactionReplayError replay.options.filename
              ["Invalid minor version \"" ++ minor ++ "\", number expected."])
          | some _ =>
              if majorNumber = 0 then .ok ()
              else .error (.incompatibleTransactionVersionError replay.options.filename
                ["Incompatible major version \"" ++ toString majorNumber ++ "\", supported major version is \"0\"."])
  | _ => .error .valueError

def verifyToplevelJson (data : Json) : Except Exc Unit := do
  let hasVersion ← access (data.contains "version")
  if hasVersion then
    let value ← access (data.get "version")
    let version ← assertText value "version"
    replay.checkVersion version
  else throw (.transactionReplayError replay.options.filename ["Missing key \"version\"."])

structure Loaded where
  rpms : List Json
  groups : List Json
  environments : List Json

/-- `data.get(key, [])`. -/
def getList (data : Json) (key : String) : Except Exc (List Json) :=
  match data with
  | .obj items => assertList (Json.getD items key (.arr [])) key
  | _ => .error .other

def loadFromData (data : Json) : Except Exc Loaded := do
  replay.verifyToplevelJson data
  let rpms ← getList data "rpms"
  let groups ← getList data "groups"
  let environments ← getList data "environments"
  pure ⟨rpms, groups, environments⟩

theorem loadFromData_obj (fields : List (String × Json)) (version : String) (hversion : fields.lookup "version" = some (.str version)) :
    replay.loadFromData (.obj fields) = (do
      replay.checkVersion version
      let rpms ← getList (.obj fields) "rpms"
      let groups ← getList (.obj fields) "groups"
      let environments ← getList (.obj fields) "environments"
      pure ⟨rpms, groups, environments⟩) := by
  rw [loadFromData, verifyToplevelJson]
  simp only [Json.contains, hversion, access_get_obj]
  rfl

/-- `_load_from_file`, from the parsed document on. -/
def loadFromFile (data : Json) : Except Exc Loaded :=
  match replay.loadFromData data with
  | .error (.transactionError text) => .error (.transactionReplayError replay.options.filename [text])
  | result => result

/-! ### Packages -/

def raiseOrWarn (warnOnly : Bool) (msg : String) : Prog Unit :=
  if warnOnly then modify fun s => { s with warnings := s.warnings ++ [msg] }
  else throw (.transactionError msg)

/-- The four values of an rpm object, with the reason converted. -/
structure RpmData where
  action : Json
  nevra : Json
  repoId : Json
  reason : Reason

/-- `StringToTransactionItemReason`. -/
def toReason (value : Json) : Except Exc Reason :=
  match value with
  | .str text =>
      match replay.lib.stringToReason text with
      | some reason => .ok reason
      | none => .error .indexError
  | _ => .error .typeError

/-- The `try` block at the start of `_replay_pkg_action`. -/
def readRpmValues (pkgData : Json) : Except Exc RpmData := do
  let action ← access (pkgData.get "action")
  let nevra ← access (pkgData.get "nevra")
  let repoId ← access (pkgData.get "repo_id")
  let reason ← access (pkgData.get "reason")
  let reason ← replay.toReason reason
  pure ⟨action, nevra, repoId, reason⟩

/-- The same with its `except` clauses. -/
def readRpm (pkgData : Json) : Except Exc RpmData :=
  match replay.readRpmValues pkgData with
  | .error (.keyError key) => .error (.transactionError ("Missing object key \"" ++ key ++ "\" in an rpm."))
  | .error .indexError =>
      let text key := replay.lib.str ((pkgData.get key).toOption.getD .null)
      .error (.transactionError
        ("Unexpected value of package reason \"" ++ text "reason" ++ "\" for rpm nevra \"" ++ text "nevra" ++ "\"."))
  | result => result

theorem readRpm_fields {fields : List (String × Json)} {action nevra repoId : Json} {reasonText : String}
    (haction : fields.lookup "action" = some action) (hnevra : fields.lookup "nevra" = some nevra)
    (hrepoId : fields.lookup "repo_id" = some repoId) (hreason : fields.lookup "reason" = some (.str reasonText)) :
    match replay.lib.stringToReason reasonText with
    | some reason => replay.readRpm (.obj fields) = .ok ⟨action, nevra, repoId, reason⟩
    | none => ∃ text, replay.readRpm (.obj fields) = .error (.transactionError text) := by
  rw [readRpm, readRpmValues]
  simp only [access_get_obj, haction, hnevra, hrepoId, hreason]
  cases hconv : replay.lib.stringToReason reasonText with
  | some reason => simp [toReason, hconv, bind, Except.bind, pure, Except.pure]
  | none => simp [toReason, hconv, bind, Except.bind]

/-- `query_na`: the packages of the name and the architecture. -/
def queryNa (n : Nevra) : List Package := replay.base.sack.filter fun pkg => pkg.nevra.name = n.name ∧ pkg.nevra.arch = n.arch

/-- `query`: the packages of the NEVRA. -/
def query (n : Nevra) : List Package :=
  (replay.queryNa n).filter fun pkg => pkg.nevra.epoch = n.epoch ∧ pkg.nevra.version = n.version ∧ pkg.nevra.release = n.release

/-- The query limited to the repository the package came from and the installed packages, where that repository has it. -/
def limitToRepo (query : List Package) (repoId : Json) : Except Exc (List Package) :=
  if repoId.truthy then
    match replay.lib.filterReponame repoId with
    | none => .error .other
    | some keep =>
        if query.any (fun pkg => keep pkg.reponame) then .ok (query.filter fun pkg => keep pkg.reponame || pkg.installed)
        else .ok query
  else .ok query

def reasonActions : List String := ["Install", "Upgrade", "Downgrade", "Reinstall", "Removed"]

def installActions : List String := ["Install", "Upgrade", "Downgrade"]

def eraseActions : List String := ["Upgraded", "Downgraded", "Reinstalled", "Removed", "Obsoleted"]

/-- The two caches `post_transaction` reads. -/
def cacheNevra (nevra : String) (data : RpmData) : Prog Unit := modify fun s =>
  { s with
    nevraCache := if data.action.isText "Reason Change" then s.nevraCache else nevra :: s.nevraCache
    nevraReasonCache := if data.action.isOneOf reasonActions then (nevra, data.reason) :: s.nevraReasonCache else s.nevraReasonCache }

def mark (marks : List Mark) : Prog Unit := modify fun s => { s with goal := s.goal ++ marks }

/-- An `Install` where the name and the architecture are installed already. -/
def refuseInstalled (data : RpmData) (n : Nevra) : Prog Unit :=
  if data.action.isText "Install" ∧ (replay.queryNa n).any (·.installed) ∧ ¬(replay.queryNa n).any replay.base.isInstallonly then
    raiseOrWarn replay.options.ignoreInstalled
      ("Package \"" ++ n.name ++ "." ++ n.arch ++ "\" is already installed for action \"Install\".")
  else pure ()

def replayInstall (data : RpmData) (n : Nevra) (query : List Package) : Prog Unit := do
  replay.refuseInstalled data n
  mark [.install query (!replay.base.strict)]

def replayReinstall (nevra : String) (query : List Package) : Prog Unit :=
  let available := query.filter fun pkg => !pkg.installed
  if available = [] then
    raiseOrWarn replay.skipUnavailable
      ("Package nevra \"" ++ nevra ++ "\" not available in repositories for action \"Reinstall\".")
  else mark [.install available (!replay.base.strict)]

/-- The branch of the backward actions. -/
def replayErase (data : RpmData) (nevra : String) (query : List Package) : Prog Unit :=
  let installed := query.filter (·.installed)
  if installed = [] then
    raiseOrWarn replay.options.ignoreInstalled
      ("Package nevra \"" ++ nevra ++ "\" not installed for action \"" ++ replay.lib.str data.action ++ "\".")
  else if !replay.skipUnavailable || data.action.isText "Removed" then mark (installed.map Mark.erase)
  else pure ()

/-- `history.set_reason` on the first package of the query. -/
def replayReasonChange (data : RpmData) (query : List Package) : Prog Unit :=
  match query with
  | pkg :: _ => modify fun s => { s with reasonChanges := s.reasonChanges ++ [(pkg, data.reason)] }
  | [] => throw .indexError

def replayAction (data : RpmData) (nevra : String) (n : Nevra) (query : List Package) : Prog Unit :=
  if data.action.isOneOf installActions then replay.replayInstall data n query
  else if data.action.isText "Reinstall" then replay.replayReinstall nevra query
  else if data.action.isOneOf eraseActions then replay.replayErase data nevra query
  else if data.action.isText "Reason Change" then replayReasonChange data query
  else throw (.transactionError
    ("Unexpected value of package action \"" ++ replay.lib.str data.action ++ "\" for rpm nevra \"" ++ nevra ++ "\"."))

/-- What a text names: its NEVRA, if there is exactly one possibility. -/
def parsedNevra (nevra : String) : Option Nevra :=
  match replay.lib.subject nevra with
  | [parsed] => some parsed.nevra
  | _ => none

/-- `_replay_pkg_action` from the queries on. -/
def replayParsed (data : RpmData) (nevra : String) (n : Nevra) : Prog Unit := do
  let query ← lift (replay.limitToRepo (replay.query n) data.repoId)
  if query = [] then raiseOrWarn replay.skipUnavailable ("Cannot find rpm nevra \"" ++ nevra ++ "\".")
  else do
    cacheNevra nevra data
    replay.replayAction data nevra n query

def replayPkgAction (pkgData : Json) : Prog Unit := do
  let data ← lift (replay.readRpm pkgData)
  match data.nevra with
  | .str nevra =>
      match replay.parsedNevra nevra with
      | some n => replay.replayParsed data nevra n
      | none => throw (.transactionError ("Cannot parse NEVRA for package \"" ++ nevra ++ "\"."))
  | _ => throw .typeError

end TransactionReplay

end Dnf.Replay
