import Dnf.Lock.Process
import Mathlib.Tactic.Common

/-!
# Log rotation by several processes

Each process logs through a `MultiprocessRotatingFileHandler` of its own, and all of them have one log file. `shouldRollover` looks at the process's open stream, before the lock is taken; nothing is looked at again once it is. A process that waited for the lock then rotates whatever is at the path by now, which may be the file that the process before it has just begun.

A step is one operation of one process: the size check, an operation of the lock, the `stat`, the renaming, opening the new file, the write, or a failing call in their place. The lock is the one of `ProcessLock`, operation by operation.
-/

namespace Dnf.Logging

open Foundation
open ProcessLock (Pid Inode)

/-- `length` counts the characters of the formatted record, `bytes` what the write adds to the file. -/
structure Record where
  length : Nat
  bytes : Nat

/-- Where a process stands in `emit`. -/
inductive Phase
  | idle
  | checking (record : Record)
  | locking (record : Record)
  | stating (record : Record)
  | rolling (record : Record)
  | reopening (record : Record)
  | unlocking (record : Record) (raised : Bool)
  | writing (record : Record)

structure Handler where
  stream : Option Inode
  phase : Phase

/-- A base file that was moved away, with its size at that time and the record that asked for it. -/
structure Rotation where
  file : Inode
  size : Nat
  record : Record

/-- The files are those of the log's directory: `base` is at `baseFilename`, and `backups i` at the name with the number `i`. `rotations` has the latest first. -/
structure State where
  lock : ProcessLock.State
  size : Inode → Nat
  fresh : Inode
  base : Option Inode
  backups : Nat → Option Inode
  rotations : List Rotation
  handler : Pid → Handler

/-- What a process may do: make its handler, log a record, perform its pending operation, have that operation raise, or die. -/
inductive Act
  | start
  | emit (record : Record)
  | advance
  | fail
  | die

namespace State

variable (s : State)

def setHandler (p : Pid) (h : Handler) : State := { s with handler := Function.update s.handler p h }

def setPhase (p : Pid) (phase : Phase) : State := s.setHandler p { s.handler p with phase := phase }

/-- `_open`, which appends, and then `phase`. -/
def openStream (p : Pid) (phase : Phase) : State :=
  match s.base with
  | some file => s.setHandler p { stream := some file, phase := phase }
  | none =>
      { s.setHandler p { stream := some s.fresh, phase := phase } with
        base := some s.fresh
        size := Function.update s.size s.fresh 0
        fresh := s.fresh + 1 }

/-! ### The lock -/

/-- After an operation of `__enter__`: inside, told that another process has the lock and back in the loop, or out of it with another exception. -/
def entered (record : Record) (before after : ProcessLock.Proc) : Phase :=
  if after.pc ≠ .idle then .locking record
  else if before.depth < after.depth then .stating record
  else if after.count < before.count then .checking record
  else .idle

/-- After `__exit__`, which raises if it finds no file to unlink. -/
def exited (record : Record) (raised : Bool) (before after : ProcessLock.Proc) : Phase :=
  if raised = true ∨ after.count = before.count then .idle else .writing record

/-- An operation of the process on the lock, and where it leads. -/
def lockStep (p : Pid) (act : ProcessLock.Act) (phase : ProcessLock.Proc → ProcessLock.Proc → Phase) : Option State :=
  (s.lock.step (p, act)).map fun lock => { s with lock := lock }.setPhase p (phase (s.lock.proc p) (lock.proc p))

/-! ### The handler -/

variable (maxBytes backupCount : Nat)

/-- `shouldRollover` of a process with an open stream. -/
def shouldRollover (record : Record) (stream : Inode) : Prop := maxBytes > 0 ∧ s.size stream + record.length ≥ maxBytes

instance (record : Record) (stream : Inode) : Decidable (s.shouldRollover maxBytes record stream) := by
  unfold shouldRollover
  infer_instance

def checkSize (p : Pid) (record : Record) : Option State :=
  match (s.handler p).stream with
  | none => some (s.openStream p (.checking record))
  | some stream =>
      if s.shouldRollover maxBytes record stream then s.lockStep p .enter fun _ _ => .locking record
      else some (s.setPhase p (.writing record))

/-- The loop over the backups, from `count` down to 1: an existing one takes the place of the next. -/
def shift : Nat → (Nat → Option Inode) → Nat → Option Inode
  | 0, backups => backups
  | count + 1, backups =>
      match backups (count + 1) with
      | none => shift count backups
      | some file => shift count (Function.update (Function.update backups (count + 2) (some file)) (count + 1) none)

/-- The first half of `doRollover`, which closes the stream and makes room for the base file. -/
def rotate (p : Pid) (record : Record) : State :=
  let closed := s.setHandler p { stream := none, phase := .reopening record }
  if backupCount > 0 then
    match s.base with
    | none => { closed with backups := Function.update (shift (backupCount - 1) s.backups) 1 none }
    | some file =>
        { closed with
          backups := Function.update (shift (backupCount - 1) s.backups) 1 (some file)
          base := none
          rotations := { file := file, size := s.size file, record := record } :: s.rotations }
  else closed

def write (p : Pid) (record : Record) : State :=
  match (s.handler p).stream with
  | none => s.openStream p (.writing record)
  | some stream => { s.setPhase p .idle with size := Function.update s.size stream (s.size stream + record.bytes) }

/-- The pending operation of a process. -/
def advance (p : Pid) : Option State :=
  match (s.handler p).phase with
  | .idle => none
  | .checking record => s.checkSize maxBytes p record
  | .locking record => s.lockStep p .advance (entered record)
  | .stating record => some (s.setPhase p (if s.base.isSome then .rolling record else .unlocking record true))
  | .rolling record => some (s.rotate backupCount p record)
  | .reopening record => some (s.openStream p (.unlocking record false))
  | .unlocking record raised => s.lockStep p .exit (exited record raised)
  | .writing record => some (s.write p record)

/-- The pending operation raises. What is not about the lock goes to `handleError`, from inside the block by way of `__exit__`. -/
def failCall (p : Pid) : Option State :=
  match (s.handler p).phase with
  | .idle => none
  | .checking _ => some (s.setPhase p .idle)
  | .locking record => s.lockStep p .fail (entered record)
  | .stating record => some (s.setPhase p (.unlocking record true))
  | .rolling record => some (s.setHandler p { stream := none, phase := .unlocking record true })
  | .reopening record => some (s.setPhase p (.unlocking record true))
  | .unlocking _ _ => none
  | .writing _ => some (s.setPhase p .idle)

def next (a : Pid × Act) : Option State :=
  if (s.lock.proc a.1).alive then
    match a.2, (s.handler a.1).phase with
    | .start, .idle => if (s.handler a.1).stream = none then some (s.openStream a.1 .idle) else none
    | .emit record, .idle => some (s.setPhase a.1 (.checking record))
    | .advance, _ => s.advance maxBytes backupCount a.1
    | .fail, _ => s.failCall a.1
    | .die, phase => s.lockStep a.1 .die fun _ _ => phase
    | _, _ => none
  else none

/-- No process has a handler yet. `build_log_lock` makes locks that do not wait. -/
structure Init : Prop where
  lock : s.lock.Init
  blocking : ∀ p, (s.lock.proc p).blocking = false
  base_lt : ∀ file, s.base = some file → file < s.fresh
  rotations : s.rotations = []
  stream : ∀ p, (s.handler p).stream = none
  phase : ∀ p, (s.handler p).phase = .idle

end State

/-- All processes logging to one file. -/
def system (maxBytes backupCount : Nat) : System State (Pid × Act) where
  Init := State.Init
  next s a := s.next maxBytes backupCount a

end Dnf.Logging
