import Dnf.Foundation.Transition
import Dnf.Shell.Session

/-!
# `dnf shell`

A line of the shell is a dnf command, which is configured and run on the base of the shell, or one of the shell's own commands, which resolve, commit and reset. The shell ends with an exception nobody catches. What is committed is logged, with whether the resolve before it had succeeded.

Answers of the user and of the libraries during a commit are the fields of `Gates`. Lines that only print and `config`, which changes no session, are left out.
-/

namespace Dnf.Shell

open Foundation Foundation.Effect
open History hiding Swdb
open Transaction (Item installSet)

variable {Job Change : Type}

/-! ### Commands -/

/-- The options `configure` looks at before it demands to allow erasing. -/
inductive Configure
  | remove (duplicated grpSpecs : Bool)
  | autoremove (specs : Bool)
  | group (subcmd : String) (args : Bool)
  | repositoryPackagesRemove
  | moduleRemove
  | other

/-- `demands.allow_erasing = True`; `group` without the arguments it needs raises first. -/
def Configure.demandsErasing : Configure → Bool
  | .remove duplicated _ => !duplicated
  | .autoremove specs => specs
  | .group subcmd args => subcmd = "remove" && args
  | .repositoryPackagesRemove => true
  | .moduleRemove => true
  | .other => false

inductive CmpType
  | eq
  | gte
  deriving DecidableEq

def CmpType.suffix : CmpType → String
  | .eq => "__eqg"
  | .gte => "__eqg__gt"

/-- The options of `_populate_update_security_filter`. -/
structure FilterOpts where
  cmpType : CmpType := .eq
  all : Bool := false
  bugfix : Bool := false
  enhancement : Bool := false
  newpackage : Bool := false
  security : Bool := false
  advisory : List String := []
  bugzilla : List String := []
  cves : List String := []
  severity : List String := []

def FilterOpts.types (opts : FilterOpts) : List String :=
  (if opts.bugfix || opts.all then ["bugfix"] else []) ++ (if opts.enhancement || opts.all then ["enhancement"] else []) ++
    (if opts.newpackage || opts.all then ["newpackage"] else []) ++ if opts.security || opts.all then ["security"] else []

/-- `setdefault(key, set()).update(values)`, where there are values. -/
def filterPairs (key : String) (values : List String) : SecurityOptions := (values.map fun value => (key, value)).toFinset

/-- What `add_security_filters` adds. -/
def FilterOpts.pairs (opts : FilterOpts) : SecurityOptions :=
  filterPairs ("advisory_type" ++ opts.cmpType.suffix) opts.types ∪ filterPairs ("advisory" ++ opts.cmpType.suffix) opts.advisory ∪
    filterPairs ("advisory_bug" ++ opts.cmpType.suffix) opts.bugzilla ∪ filterPairs ("advisory_cve" ++ opts.cmpType.suffix) opts.cves ∪
      filterPairs ("advisory_severity" ++ opts.cmpType.suffix) opts.severity

def Session.addSecurityFilters (s : Session Job Change) (opts : FilterOpts) : Session Job Change :=
  { s with updateSecurityOptions := s.updateSecurityOptions ∪ opts.pairs }

/-- A package, group or module command: what it demands, the filter it populates if it gets there, and the marks it makes before it ends or raises. -/
structure Command (Job Change : Type) where
  configure : Configure
  filter : Option FilterOpts
  marks : Session Job Change → List (Mark Job Change)

def Session.demand (s : Session Job Change) (configure : Configure) : Session Job Change :=
  if configure.demandsErasing then { s with allowErasing := true } else s

def Command.pairs (command : Command Job Change) : SecurityOptions := (command.filter.map FilterOpts.pairs).getD ∅

def Session.filter (s : Session Job Change) (command : Command Job Change) : Session Job Change :=
  match command.filter with
  | some opts => s.addSecurityFilters opts
  | none => s

/-- `onecmd`, for a command of dnf. The command gets a copy of the demands, which the shell keeps. -/
def Session.onecmd (base : Transaction.Base) (s : Session Job Change) (command : Command Job Change) : Session Job Change :=
  let t := (s.demand command.configure).filter command
  t.marks base (command.marks t)

/-! ### Commits -/

inductive Persistence
  | auto
  | persist
  | transient
  deriving DecidableEq

/-- The configuration, the answers and the outcomes a commit depends on. `promptRefused` is `_promptWanted()` with `assumeno` or without a confirmation; `bootc` is a bootc system installed at `/`. -/
structure Gates where
  moduleStreamSwitch : Bool := true
  switchedStreams : Bool := false
  downloadonly : Bool := false
  bootc : Bool := false
  persistence : Persistence := .auto
  writable : Bool := true
  driftProtected : Bool := false
  promptRefused : Bool := false
  downloadFails : Bool := false
  gpgFails : Bool := false
  populateFails : Bool := false
  checkFails : Bool := false
  testFails : Bool := false
  test : Bool := false
  runFails : Bool := false

/-- What is made permanent: module states, group and environment records, or a run of rpm, which takes the records along. -/
inductive Commit (Change : Type)
  | modules (changes : List Change)
  | comps (items : List Registered)
  | rpm (items : List Item) (records : List Registered)

structure LogEntry (Change : Type) where
  resolved : Bool
  commit : Commit Change

structure State (Job Change : Type) where
  session : Session Job Change
  log : List (LogEntry Change) := []
  resolved : Bool := true
  running : Bool := true

abbrev ShellProg (Job Change : Type) := EStateM Exc (State Job Change)

def State.write (s : State Job Change) (commit : Commit Change) : State Job Change := { s with log := s.log ++ [⟨s.resolved, commit⟩] }

/-- `PersistorBase.__len__` of `history.group` or of `history.env` is not 0. -/
def Session.hasRecords (s : Session Job Change) : Bool :=
  [s.history.group, s.history.env].any fun pending =>
    !(pending.installed.entries.isEmpty && pending.removed.entries.isEmpty && pending.upgraded.entries.isEmpty && pending.downgraded.entries.isEmpty)

/-- `moduleContainer.save()`, which is permanent where something has changed. -/
def State.saveModules (s : State Job Change) : State Job Change :=
  if s.session.modules.isEmpty then s else s.write (.modules s.session.modules)

theorem saveModules_session (s : State Job Change) : s.saveModules.session = s.session := by
  rw [State.saveModules]
  split_ifs <;> rfl

theorem saveModules_running (s : State Job Change) : s.saveModules.running = s.running := by
  rw [State.saveModules]
  split_ifs <;> rfl

/-- `history.beg` and `history.end` where there are group or environment records. -/
def State.saveRecords (s : State Job Change) : State Job Change :=
  if s.session.hasRecords then s.write (.comps s.session.history.items) else s

/-- `raise dnf.exceptions.Error`, under a condition. -/
def refuse (condition : Bool) : ShellProg Job Change Unit := if condition then throw .error else pure ()

/-- The rpm branch of `Base.do_transaction`. -/
def runRpm (gates : Gates) : ShellProg Job Change Unit := do
  refuse gates.populateFails
  refuse gates.checkFails
  refuse gates.testFails
  if gates.test then pure ()
  else do
    modify fun s => s.saveModules.write (.rpm s.session.rpm s.session.history.items)
    refuse gates.runFails

def baseDoTransaction (gates : Gates) : ShellProg Job Change Unit := do
  if (← get).session.hasTransaction then runRpm gates
  else modify fun s => s.saveModules.saveRecords

/-- The checks of `BaseCli.do_transaction` for bootc systems. -/
def bootcCheck (gates : Gates) (s : Session Job Change) : Except Exc Unit :=
  if gates.bootc && !gates.downloadonly then
    if gates.persistence = .persist then .error .error
    else if !gates.writable && gates.persistence = .auto then .error .error
    else if !s.transaction then .error .typeError
    else if s.hasTransaction && gates.driftProtected then .error .error
    else .ok ()
  else if gates.persistence = .transient then .error .error
  else .ok ()

def download (gates : Gates) (s : Session Job Change) : ShellProg Job Change Unit :=
  if s.hasTransaction then do
    refuse ((s.rpm.any fun tsi => isForward tsi.action) && gates.downloadFails)
    refuse gates.gpgFails
  else pure ()

/-- There is something to do: packages, changed modules, or group and environment records. -/
def Session.pending (s : Session Job Change) : Bool := s.hasTransaction || !s.modules.isEmpty || s.hasRecords

/-- `BaseCli.do_transaction`, where there is something to do. -/
def confirm (gates : Gates) (s : Session Job Change) : ShellProg Job Change Unit := do
  lift (bootcCheck gates s)
  refuse gates.promptRefused
  download gates s
  if gates.downloadonly then pure () else baseDoTransaction gates

def cliDoTransaction (gates : Gates) : ShellProg Job Change Unit := do
  refuse (!gates.moduleStreamSwitch && gates.switchedStreams)
  let s := (← get).session
  if s.pending then confirm gates s else pure ()

/-! ### The lines of the shell -/

/-- A line; `list` and `run` are those of `transaction`, and `repo` enables or disables a repository. -/
inductive Action (Job Change : Type)
  | command (command : Command Job Change)
  | resolvedep (resolver : Resolver Job Change)
  | list (resolver : Resolver Job Change)
  | run (resolver : Resolver Job Change) (gates : Gates)
  | reset
  | repo

variable (base : Transaction.Base)

/-- `_resolve`: a `DepsolveError` is printed. -/
def shellResolve (resolver : Resolver Job Change) : ShellProg Job Change Unit := do
  let s ← get
  match resolve base resolver s.session with
  | .ok _ session => set { s with session, resolved := true }
  | .error .depsolveError session => set { s with session, resolved := false }
  | .error e session =>
      set { s with session, resolved := false }
      throw e

/-- `except dnf.exceptions.Error`, which is logged. -/
def handleError (e : Exc) : ShellProg Job Change Unit := if e.isError then pure () else throw e

def State.mapSession (s : State Job Change) (f : Session Job Change → Session Job Change) : State Job Change := { s with session := f s.session }

/-- `_transaction`, and `onecmd` for the other lines. -/
def line : Action Job Change → ShellProg Job Change Unit
  | .command command => modify fun s => s.mapSession fun session => session.onecmd base command
  | .resolvedep resolver => shellResolve base resolver
  | .list resolver => shellResolve base resolver
  | .run resolver gates => do
      shellResolve base resolver
      tryCatch (cliDoTransaction gates) handleError
      modify fun s => s.mapSession Session.clean
  | .reset => modify fun s => s.mapSession Session.clean
  | .repo => modify fun s => s.mapSession Session.fillSack

/-- The shell: it starts with an empty session, where erasing may have been allowed on the command line. -/
def shell : System (State Job Change) (Action Job Change) where
  Init s := ∃ allowErasing, s = { session := { allowErasing := allowErasing } }
  next s action :=
    if s.running then
      match line base action s with
      | .ok _ t => some t
      | .error _ t => some { t with running := false }
    else none

end Dnf.Shell
