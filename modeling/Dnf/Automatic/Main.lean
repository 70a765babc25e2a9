import Dnf.Automatic.Emitter
import Dnf.Gpg.FailClosed
import Dnf.Transaction.RpmTransaction

/-!
# dnf-automatic

`main` of `automatic/main.py`, with what it calls in `Base`, in the emitters' transports and in the system as parameters that may answer anything and may raise. What it is up to goes to a log: the marking, the transaction, the download, the signature check, the run of rpm, the reports and the reboot. An entry is made before the call that may fail, so what is in the log was at least attempted.
-/

namespace Dnf.Automatic

open Foundation Foundation.Effect
open Gpg (Exc Call)
open History (isForward Action)
open Transaction (ItemState)

inductive Reboot
  | never
  | whenChanged
  | whenNeeded
  deriving DecidableEq

structure Commands where
  applyUpdates : Bool
  downloadUpdates : Bool
  upgradeType : String
  systemdInhibit : Bool
  reboot : Reboot
  rebootCommand : String

structure Config where
  commands : Commands
  emitVia : List String
  systemName : String
  sendErrorMessages : Bool

structure Opts where
  confPath : Option String
  downloadupdates : Option Bool
  installupdates : Option Bool

structure Item where
  action : Action
  pkg : Option Gpg.Package

inductive Entry
  | filtered
  | marked
  | resolved (items : List Item)
  | downloading (pkgs : List Gpg.Package)
  | downloaded
  | signed (pkgs : List Gpg.Package)
  | running
  | finished (states : List ItemState)
  | sent (emitter : Emitter)
  | rebooting (command : String)

/-- `conf` and `emitters` are the local variables of `main` that its handler reads. -/
structure State (ω : Type) where
  gpg : Gpg.State ω
  conf : Option Config := none
  emitters : Option (List Emitter) := none
  log : List Entry := []

abbrev Prog (ω : Type) := EStateM Exc (State ω)

structure Outside (ω : Type) where
  access : String → Call ω Bool
  readable : String → Call ω Bool
  load : Option String → Call ω Config
  setUp : Config → Call ω Unit
  addSecurityFilters : Call ω Unit
  upgradeAll : Call ω Unit
  resolve : Call ω (List Item)
  listTransaction : List Item → Call ω String
  downloadPackages : List Gpg.Package → Call ω Unit
  inhibit : Call ω Unit
  release : Call ω Unit
  doTransaction : Call ω Unit
  itemStates : Call ω (List ItemState)
  rebootNeeded : Call ω Bool
  system : String → Call ω Int
  close : Call ω Unit
  strftime : Call ω String
  deliver : Kind → Message → Call ω Unit

variable {ω : Type}

def onGpg {α : Type} (x : Gpg.Prog ω α) : Prog ω α := fun s =>
  match x s.gpg with
  | .ok a t => .ok a { s with gpg := t }
  | .error e t => .error e { s with gpg := t }

def call {α : Type} (x : Call ω α) : Prog ω α := onGpg (Gpg.perform x)

def enter (entry : Entry) : Prog ω Unit := modify fun s => { s with log := s.log ++ [entry] }

/-- A `with` statement: what is done on leaving may raise as well. -/
def leaving {α : Type} (leave : Call ω Unit) (x : Prog ω α) : Prog ω α := do
  let a ← tryCatch x fun e => do
    call leave
    throw e
  call leave
  pure a

/-! ### The configuration -/

def Commands.imply (commands : Commands) : Commands := if commands.applyUpdates then { commands with downloadUpdates := true } else commands

/-- What `AutomaticConfig` makes of a loaded configuration and the command line. -/
def Opts.effective (opts : Opts) (conf : Config) : Config :=
  { conf with
    commands :=
      { conf.commands with
        downloadUpdates := opts.downloadupdates.getD conf.commands.downloadUpdates
        applyUpdates := opts.installupdates.getD conf.commands.applyUpdates }.imply }

def Item.attached (tsi : Item) : Except Exc Gpg.Package :=
  match tsi.pkg with
  | some pkg => .ok pkg
  | none => .error (.other "RuntimeError")

/-- `trans.install_set` -/
def installSet (items : List Item) : Except Exc (List Gpg.Package) :=
  ((items.filter fun tsi => isForward tsi.action).mapM Item.attached).map List.dedup

/-- What `except Exception` leaves alone. -/
def isException : Exc → Bool
  | .other name => name ≠ "KeyboardInterrupt" ∧ name ≠ "SystemExit"
  | _ => true

structure Program (ω : Type) where
  gpg : Gpg.Base ω
  outside : Outside ω

namespace Program

variable (auto : Program ω)

def checkFile (filename : String) : Prog ω Unit := do
  let exists_ ← call (auto.outside.access filename)
  if exists_ then do
    let readable ← call (auto.outside.readable filename)
    if readable then pure () else throw (.error ("Configuration file \"" ++ filename ++ "\" is not readable."))
  else throw (.error ("Configuration file \"" ++ filename ++ "\" not found."))

def checkPath (opts : Opts) : Prog ω Unit :=
  match opts.confPath with
  | some filename => auto.checkFile filename
  | none => pure ()

def configure (opts : Opts) : Prog ω Config := do
  auto.checkPath opts
  let loaded ← call (auto.outside.load opts.confPath)
  pure (opts.effective loaded)

/-! ### The reports -/

/-- A call of a method of each emitter. All of them answer alike, so none has changed when one raises. -/
def notify (method : Emitter → Except Exc Emitter) : Prog ω Unit := do
  let s ← get
  let emitters ← lift ((s.emitters.getD []).mapM method)
  set { s with emitters := some emitters }

/-- An `EmailEmitter` only logs that the mail could not be sent. -/
def deliver (emitter : Emitter) (msg : Message) : Prog ω Unit :=
  tryCatch (call (auto.outside.deliver emitter.kind msg)) fun e =>
    if emitter.kind = .email ∧ e = .other "OSError" then pure () else throw e

def commitOne (emitter : Emitter) : Prog ω Unit := do
  let now ← call auto.outside.strftime
  let msg ← lift (emitter.message now)
  enter (.sent emitter)
  auto.deliver emitter msg

def commitAll : List Emitter → Prog ω Unit
  | [] => pure ()
  | emitter :: emitters => do
      auto.commitOne emitter
      commitAll emitters

def commit : Prog ω Unit := do
  let s ← get
  auto.commitAll (s.emitters.getD [])

/-! ### The upgrade -/

def upgrade (upgradeType : String) : Prog ω Unit :=
  if upgradeType = "security" then do
    enter .filtered
    call auto.outside.addSecurityFilters
    enter .marked
    call auto.outside.upgradeAll
  else if upgradeType = "default" then do
    enter .marked
    call auto.outside.upgradeAll
  else throw (.error ("Unsupported upgrade_type \"" ++ upgradeType ++ "\", only \"default\" and \"security\" supported"))

def gpgsigcheckOne (ok : Bool) (po : Gpg.Package) : Prog ω Bool := do
  let result ← onGpg (auto.gpg.sigCheckPkg po)
  pure (if result.1 ≠ 0 then false else ok)

def gpgsigcheck (pkgs : List Gpg.Package) : Prog ω Unit := do
  let ok ← pkgs.foldlM auto.gpgsigcheckOne true
  if ok then enter (.signed pkgs) else throw (.error "GPG check FAILED")

def transact (pkgs : List Gpg.Package) : Prog ω Unit := do
  auto.gpgsigcheck pkgs
  enter .running
  call auto.outside.doTransaction
  let states ← call auto.outside.itemStates
  enter (.finished states)
  if .error ∈ states then throw (.error "Transaction failed")
  else do
    notify Emitter.notifyApplied
    auto.commit

def rebootWanted (reboot : Reboot) : Prog ω Bool :=
  match reboot with
  | .never => pure false
  | .whenChanged => pure true
  | .whenNeeded => call auto.outside.rebootNeeded

def reboot (commands : Commands) : Prog ω Unit := do
  let wanted ← auto.rebootWanted commands.reboot
  if wanted then do
    enter (.rebooting commands.rebootCommand)
    let exitCode ← call (auto.outside.system commands.rebootCommand)
    if exitCode ≠ 0 then throw (.error ("reboot command returned nonzero exit code: " ++ toString exitCode)) else pure ()
  else pure ()

/-- `with inhibit` -/
def inhibited (systemdInhibit : Bool) (x : Prog ω Unit) : Prog ω Unit :=
  if systemdInhibit then do
    call auto.outside.inhibit
    leaving auto.outside.release x
  else x

def apply (commands : Commands) (pkgs : List Gpg.Package) : Prog ω Unit := do
  auto.inhibited commands.systemdInhibit (auto.transact pkgs)
  auto.reboot commands

def download (commands : Commands) (items : List Item) : Prog ω Unit := do
  let pkgs ← lift (installSet items)
  enter (.downloading pkgs)
  call (auto.outside.downloadPackages pkgs)
  enter .downloaded
  notify Emitter.notifyDownloaded
  if commands.applyUpdates then auto.apply commands pkgs else auto.commit

def report (commands : Commands) (items : List Item) : Prog ω Unit := do
  let lst ← call (auto.outside.listTransaction items)
  notify fun emitter => emitter.notifyAvailable lst
  if commands.downloadUpdates then auto.download commands items else auto.commit

def session (conf : Config) : Prog ω Unit := do
  call (auto.outside.setUp conf)
  auto.upgrade conf.commands.upgradeType
  let items ← call auto.outside.resolve
  enter (.resolved items)
  if items.isEmpty then pure () else auto.report conf.commands items

def body (opts : Opts) : Prog ω Unit := do
  let conf ← auto.configure opts
  modify fun s => { s with conf := some conf }
  let emitters ← lift (buildEmitters conf.systemName conf.emitVia)
  modify fun s => { s with emitters := some emitters }
  leaving auto.outside.close (auto.session conf)

def reportError (msg : String) : Prog ω Unit := do
  let s ← get
  if s.conf.any Config.sendErrorMessages && s.emitters.isSome then do
    notify fun emitter => .ok (emitter.notifyError msg)
    auto.commit
  else pure ()

/-- The exit code. -/
def main (opts : Opts) : Prog ω Nat :=
  tryCatch
    (do
      auto.body opts
      pure 0)
    fun e =>
      if isException e then do
        auto.reportError ("Error: " ++ e.text)
        pure 1
      else throw e

end Program

end Dnf.Automatic
