import Mathlib.Algebra.Group.Int.Defs
import Mathlib.Algebra.GroupWithZero.Nat
import Mathlib.Data.Fin.Basic
import Dnf.Foundation.Transition
import Dnf.Foundation.PyInt

/-!
# `ProcessLock`, one file operation at a time

Any number of processes share one lock target. Each runs `__enter__` and `__exit__` of a `ProcessLock` object, and a step of the system is one file operation of one process, one of the decisions between two of them, a failing system call, or the death of a process. A file is an inode: the target path names at most one, an unlinked one stays in use by whoever opened it, and a lock taken by `flock` belongs to the process until it closes the file or dies.

One object a process and one thread a process: `thread_lock` is then always acquired and its recursion depth is `count`.
-/

namespace Dnf

open Foundation

namespace ProcessLock

/-- A process id. The kernel's ids have far fewer than the twenty digits `os.read(fd, 20)` reads. -/
abbrev Pid := Fin (10 ^ 20)

theorem pids_ne_zero : 10 ^ 20 ≠ 0 := by decide

instance Pid.neZero : NeZero (10 ^ 20) := ⟨pids_ne_zero⟩

abbrev Inode := Nat

/-- Where a process stands in `__enter__`. A result `none` is an exception on its way out of the `finally`. -/
inductive Pc
  | idle
  | opening
  | locking (fd : Inode)
  | reading (fd : Inode)
  | checking (fd : Inode) (oldPid : Int)
  | truncating (fd : Inode)
  | writing (fd : Inode)
  | closing (fd : Inode) (result : Option Int)
  | returned (pid : Int)
  deriving DecidableEq

/-- A process: `count` is the object's field, `depth` the number of `with` blocks it is inside. -/
structure Proc where
  alive : Bool
  blocking : Bool
  count : Nat
  depth : Nat
  pc : Pc

/-- The lock directory, the kernel's `flock` table and the processes. `fresh` is above every inode in use. -/
structure State where
  target : Option Inode
  content : Inode → List Char
  holder : Inode → Option Pid
  fresh : Inode
  proc : Pid → Proc

/-- What a process may do: call `__enter__`, leave a `with` block through `__exit__`, perform its pending operation, have that operation raise `OSError`, or die. -/
inductive Act
  | enter
  | exit
  | advance
  | fail
  | die
  deriving DecidableEq

namespace State

variable (s : State)

def setProc (p : Pid) (pr : Proc) : State := { s with proc := Function.update s.proc p pr }

def setPc (p : Pid) (pc : Pc) : State := s.setProc p { s.proc p with pc := pc }

def setContent (fd : Inode) (text : List Char) : State :=
  { s with content := Function.update s.content fd text }

def setHolder (fd : Inode) (owner : Option Pid) : State :=
  { s with holder := Function.update s.holder fd owner }

/-- `os.access('/proc/%d/stat' % pid, os.F_OK)`. -/
def procExists (pid : Int) : Bool :=
  if h : 0 ≤ pid ∧ pid < 10 ^ 20 then (s.proc ⟨pid.toNat, by omega⟩).alive else false

/-- The pid a reader of the file finds, if it finds one. -/
def recorded (fd : Inode) : Option Int := pyInt ((s.content fd).take 20)

/-- `os.open(target, O_CREAT | O_RDWR)`. -/
def openTarget (p : Pid) : State :=
  match s.target with
  | some fd => s.setPc p (.locking fd)
  | none =>
      { (s.setContent s.fresh []).setPc p (.locking s.fresh) with
        target := some s.fresh
        fresh := s.fresh + 1 }

/-- `fcntl.flock(fd, LOCK_EX | LOCK_NB)`; `EWOULDBLOCK` returns -1. -/
def flock (p : Pid) (fd : Inode) : State :=
  match s.holder fd with
  | none => (s.setHolder fd (some p)).setPc p (.reading fd)
  | some _ => s.setPc p (.closing fd (some (-1)))

/-- `os.read(fd, 20)` and what `_try_lock` makes of the bytes. -/
def readPid (p : Pid) (fd : Inode) : State :=
  if (s.content fd).take 20 = [] then s.setPc p (.writing fd)
  else
    match s.recorded fd with
    | none => s.setPc p (.closing fd none)
    | some oldPid =>
        if oldPid = p.val then s.setPc p (.closing fd (some p.val)) else s.setPc p (.checking fd oldPid)

/-- A dead owner's file is taken over, a live owner's pid returned. -/
def checkPid (p : Pid) (fd : Inode) (oldPid : Int) : State :=
  if s.procExists oldPid then s.setPc p (.closing fd (some oldPid)) else s.setPc p (.truncating fd)

/-- `os.write` at offset 0 overwrites as many bytes as it writes. -/
def writePid (p : Pid) (fd : Inode) : State :=
  (s.setContent fd (decimal p.val ++ (s.content fd).drop (decimal p.val).length)).setPc p (.closing fd (some p.val))

/-- Closing the file releases the lock taken through it. -/
def unflock (p : Pid) (fd : Inode) : State :=
  if s.holder fd = some p then s.setHolder fd none else s

/-- `os.close(fd)` in the `finally`, then the return or the exception. -/
def closeFile (p : Pid) (fd : Inode) (result : Option Int) : State :=
  match result with
  | none => (s.unflock p fd).setPc p .idle
  | some pid => (s.unflock p fd).setPc p (.returned pid)

/-- The loop of `__enter__` around `_try_lock`. -/
def loopTest (p : Pid) (pid : Int) : State :=
  let me := s.proc p
  if pid = p.val then s.setProc p { me with depth := me.depth + 1, pc := .idle }
  else if pid ≠ -1 ∧ me.blocking = false then s.setProc p { me with count := me.count - 1, pc := .idle }
  else s.setPc p .opening

/-- The pending operation of a process. -/
def advance (p : Pid) : Option State :=
  match (s.proc p).pc with
  | .idle => none
  | .opening => some (s.openTarget p)
  | .locking fd => some (s.flock p fd)
  | .reading fd => some (s.readPid p fd)
  | .checking fd oldPid => some (s.checkPid p fd oldPid)
  | .truncating fd => some ((s.setContent fd []).setPc p (.writing fd))
  | .writing fd => some (s.writePid p fd)
  | .closing fd result => some (s.closeFile p fd result)
  | .returned pid => some (s.loopTest p pid)

/-- A system call raises `OSError`: the file, if open, is closed on the way out. -/
def failCall (p : Pid) : Option State :=
  match (s.proc p).pc with
  | .opening => some (s.setPc p .idle)
  | .locking fd => some (s.setPc p (.closing fd none))
  | .reading fd => some (s.setPc p (.closing fd none))
  | .truncating fd => some (s.setPc p (.closing fd none))
  | .writing fd => some (s.setPc p (.closing fd none))
  | _ => none

/-- `_lock_thread`, after which `_try_lock` is called. -/
def enter (p : Pid) : State :=
  let me := s.proc p
  s.setProc p { me with count := me.count + 1, pc := .opening }

/-- `__exit__`. Unlinking a missing target raises before `_unlock_thread`. -/
def exit (p : Pid) : State :=
  let me := s.proc p
  if me.count = 1 then
    match s.target with
    | some _ => { s.setProc p { me with count := 0, depth := me.depth - 1 } with target := none }
    | none => s.setProc p { me with depth := me.depth - 1 }
  else s.setProc p { me with count := me.count - 1, depth := me.depth - 1 }

/-- Death closes every file of the process. -/
def die (p : Pid) : State :=
  { s.setProc p { s.proc p with alive := false } with
    holder := fun fd => if s.holder fd = some p then none else s.holder fd }

def step (a : Pid × Act) : Option State :=
  let me := s.proc a.1
  if me.alive then
    match a.2 with
    | .enter => if me.pc = .idle then some (s.enter a.1) else none
    | .exit => if me.pc = .idle ∧ 0 < me.depth then some (s.exit a.1) else none
    | .advance => s.advance a.1
    | .fail => s.failCall a.1
    | .die => some (s.die a.1)
  else none

/-- A live process inside the locked section. -/
def Inside (p : Pid) : Prop := (s.proc p).alive = true ∧ 0 < (s.proc p).depth

/-- Nobody is inside yet. The target may be missing, or a leftover file with any content. -/
structure Init : Prop where
  target_lt : ∀ fd, s.target = some fd → fd < s.fresh
  holder : ∀ fd, s.holder fd = none
  count : ∀ p, (s.proc p).count = 0
  depth : ∀ p, (s.proc p).depth = 0
  pc : ∀ p, (s.proc p).pc = .idle

end State

/-- All processes contending for one lock target. -/
def system : System State (Pid × Act) where
  Init := State.Init
  next := State.step

end ProcessLock

end Dnf
