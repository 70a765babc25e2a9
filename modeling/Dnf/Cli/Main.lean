import Dnf.Cli.GatedRun

/-!
# The exit status

`main`, `_main`, `cli_run` and `resolving` around `do_transaction`. The configuration, the command with its hooks and the solver are calls that leave the program: they may change all that is read of the world later and may raise anything.

Each point that is reached leaves an entry in `stages`.
-/

namespace Dnf.Cli.Main

open Foundation Foundation.Effect
open Transaction (Item TsCall)
open Gated (Entry)

/-- The classes of exceptions that a clause names. -/
inductive Class
  | error
  | lockError
  | processLockError
  | depsolveError
  | transactionCheckError
  | cliError
  | hawkeyException
  | libdnfError
  | ioError
  | keyboardInterrupt
  | other
  deriving DecidableEq

namespace Class

/-- The next class above, of these. -/
def parent : Class → Option Class
  | lockError | depsolveError | transactionCheckError | cliError => some error
  | processLockError => some lockError
  | _ => none

/-- Python's `isinstance`. -/
def isA (c d : Class) : Bool := c = d || c.parent = some d || c.parent.bind parent = some d

end Class

abbrev Call (ω α : Type) := ω → Except Class α × ω

/-- What is called or read outside. `readable` opens the current directory, `explain` collects the advice on a failed resolving and `classOf` has the classes of what else `do_transaction` raises. -/
structure Outside (ω : Type) where
  setup : Call ω Unit
  presetup : Call ω Unit
  configure : Call ω Unit
  readable : Call ω Bool
  chdir : Call ω Unit
  run : Call ω Unit
  resolve : Call ω Unit
  explain : Call ω Unit
  runResolved : Call ω Unit
  getErrorOutput : Call ω Unit
  runTransaction : Call ω Unit
  close : Call ω Unit
  showLockOwner : Call ω Unit
  resolving : ω → Bool
  successExitStatus : ω → Int
  transaction : ω → Option (List Item)
  base : ω → Gated.BaseCli ω
  classOf : String → Class

variable {ω : Type}

/-- What `main` has come to. -/
inductive Stage (ω : Type)
  | resolving
  | transacted (base : Gated.BaseCli ω) (items : List Item)
  | finished (status : Int)
  | raised (c : Class)

structure State (ω : Type) where
  gated : Gated.State ω
  stages : List (Stage ω) := []

def State.world (s : State ω) : ω := s.gated.gpg.world

def State.setWorld (s : State ω) (world : ω) : State ω := { s with gated := { s.gated with gpg := { s.gated.gpg with world := world } } }

abbrev Prog (ω : Type) := EStateM Class (State ω)

def call {α : Type} (x : Call ω α) : Prog ω α := fun s =>
  match x s.world with
  | (.ok a, world) => .ok a (s.setWorld world)
  | (.error c, world) => .error c (s.setWorld world)

def reach (stage : Stage ω) : Prog ω Unit := modify fun s => { s with stages := s.stages ++ [stage] }

namespace Outside

variable (o : Outside ω)

def classOfExc : Gated.Exc → Class
  | .cli .keyError => .other
  | .cli .error => .error
  | .cli .cliError => .cliError
  | .cli .runtimeError => .other
  | .transactionCheckError => .transactionCheckError
  | .outside (.error _) => .error
  | .outside (.invalidInstalledGPGKeyError _) => .error
  | .outside (.valueError _) => .other
  | .outside (.other name) => o.classOf name

/-- `base.do_transaction`; without a transaction there are no items. -/
def doTransaction : Prog ω Unit := fun s =>
  match (o.base s.world).doTransaction ((o.transaction s.world).getD []) s.gated with
  | .ok _ t => .ok () { s with gated := t, stages := s.stages ++ [.transacted (o.base s.world) ((o.transaction s.world).getD [])] }
  | .error e t => .error (o.classOfExc e) { s with gated := t }

def afterTransaction (c : Class) : Prog ω Int :=
  if c.isA .cliError then pure 1
  else if c.isA .transactionCheckError then do
    call o.getErrorOutput
    pure 1
  else if c.isA .ioError then pure 1
  else throw c

def transact : Prog ω Int :=
  tryCatch (do
    o.doTransaction
    pure 0) o.afterTransaction

def ensureTransaction : Prog ω Unit := do
  let s ← get
  if (o.transaction s.world).isNone then call o.resolve else pure ()

/-- `resolving` -/
def runResolving : Prog ω Int := do
  o.ensureTransaction
  call o.runResolved
  o.transact

def afterResolving (c : Class) : Prog ω Int :=
  if c.isA .depsolveError then do
    call o.explain
    throw c
  else throw c

def resolvingStage : Prog ω Int := do
  let s ← get
  if o.resolving s.world then do
    reach .resolving
    tryCatch o.runResolving o.afterResolving
  else pure 0

def finish : Prog ω Int := do
  call o.runTransaction
  let s ← get
  reach (.finished (o.successExitStatus s.world))
  pure (o.successExitStatus s.world)

/-- The clauses around `cli.run`; `none` goes on. -/
def runCommand : Prog ω (Option Int) :=
  tryCatch (do
    call o.run
    pure none) fun c =>
      if c.isA .lockError then throw c
      else if c.isA .ioError then pure (some 1)
      else throw c

def leaveUnreadable : Prog ω Unit := do
  let readable ← call o.readable
  if readable then pure () else call o.chdir

def cliRun : Prog ω Int := do
  o.leaveUnreadable
  let ended ← o.runCommand
  match ended with
  | some status => pure status
  | none => do
      let ret ← o.resolvingStage
      if ret = 0 then o.finish else pure ret

/-- The clause around `cli.configure`. -/
def configured : Prog ω (Option Int) :=
  tryCatch (do
    call o.configure
    pure none) fun c => if c.isA .ioError then pure (some 1) else throw c

/-- `_main` -/
def mainOfBase : Prog ω Int := do
  call o.presetup
  let ended ← o.configured
  match ended with
  | some status => pure status
  | none => o.cliRun

/-- The body of `with`: the base is closed however the body ends. -/
def withBase (body : Prog ω Int) : Prog ω Int := do
  let status ← tryCatch body fun c => do
    call o.close
    throw c
  call o.close
  pure status

def handle (c : Class) : Prog ω Int := do
  reach (.raised c)
  if c.isA .processLockError then do
    call o.showLockOwner
    pure 200
  else if c.isA .lockError then pure 200
  else if c.isA .depsolveError then pure 1
  else if c.isA .error then pure 1
  else if c.isA .hawkeyException then pure 1
  else if c.isA .libdnfError then pure 1
  else if c.isA .ioError then pure 1
  else if c.isA .keyboardInterrupt then pure 1
  else throw c

def main : Prog ω Int :=
  tryCatch (do
    call o.setup
    o.withBase o.mainOfBase) o.handle

end Outside

end Dnf.Cli.Main
