import Dnf.Foundation.WorkPool
import Dnf.Gpg.Check
import Mathlib.Data.Finset.Basic

/-!
# `DeltaInfo`, the rebuilding of delta rpms

The functions are those of `drpm.py`. Child processes, files and checksums belong to the operating system, which may answer anything: the order in which children finish and their exit codes are its answers. What the rebuild queue relies on is `Os.Lawful`: a new child has a pid of its own, only a child is waited for, and a delta that was applied can be removed.

`enqueue` and `wait` loop until the dictionary or the queue says so, and take fuel for it. The state also records what the argument is about: which payload was started, how many jobs ran then, which payload was passed to `job_done`, and what became of it there.
-/

namespace Dnf.Download

open Foundation

/-- What the downloads use of a `hawkey.Package`. -/
structure Package where
  id : Nat
  arch : String
  pkgdir : String
  localPkg : String
  downloadsize : Nat
  deriving DecidableEq

structure Delta where
  location : String
  downloadsize : Nat
  deriving DecidableEq

structure DeltaPayload where
  delta : Delta
  pkg : Package
  deriving DecidableEq

def DeltaPayload.localPkg (pload : DeltaPayload) : String := pload.pkg.pkgdir ++ "/" ++ Gpg.basename pload.delta.location

inductive Exc
  | keyError (pid : Int)
  | indexError
  | osError (errno : Nat)
  | outOfFuel
  deriving DecidableEq

/-- The calls into the operating system, on a world `ω` of its own. A pid of 0 from `waitpid` says that no child has finished. -/
structure Os (ω : Type) where
  spawnl : List String → ω → Int × ω
  waitpid : ω → (Int × Int) × ω
  wait : ω → (Int × Int) × ω
  unlink : String → ω → Except Nat ω
  verifyLocalPkg : Package → ω → Bool

def ENOENT : Nat := 2

def APPLYDELTA : String := "/usr/bin/applydeltarpm"

/-- One of the children has finished. -/
def Os.Reaps {ω : Type} (children : ω → Finset Int) (before : ω) (pid : Int) (after : ω) : Prop :=
  pid ∈ children before ∧ children after = (children before).erase pid

structure Os.Lawful {ω : Type} (os : Os ω) (children : ω → Finset Int) : Prop where
  spawnl : ∀ args w, (os.spawnl args w).1 ≠ 0 ∧ (os.spawnl args w).1 ∉ children w ∧
    children (os.spawnl args w).2 = insert (os.spawnl args w).1 (children w)
  waitpid : ∀ w, (children w).Nonempty →
    (os.waitpid w).1.1 = 0 ∧ children (os.waitpid w).2 = children w ∨
      (os.waitpid w).1.1 ≠ 0 ∧ Os.Reaps children w (os.waitpid w).1.1 (os.waitpid w).2
  wait : ∀ w, (children w).Nonempty → Os.Reaps children w (os.wait w).1.1 (os.wait w).2
  unlink : ∀ path w, (∃ w', os.unlink path w = .ok w' ∧ children w' = children w) ∨ os.unlink path w = .error ENOENT
  unlink_delta : ∀ (pload : DeltaPayload) w, ∃ w', os.unlink pload.localPkg w = .ok w' ∧ children w' = children w

structure Trace where
  started : List DeltaPayload
  running : List Nat
  done : List DeltaPayload
  failed : List DeltaPayload
  ended : List DeltaPayload
  deriving DecidableEq

/-- `queue` and `jobs` are the fields of the pool. -/
structure DeltaInfo (ω : Type) where
  pool : Pool Int DeltaPayload
  err : AList fun _ : Package => List String
  world : ω
  trace : Trace

variable {ω : Type} (os : Os ω) (deltarpmJobs : Nat)

def unlink_f (path : String) (w : ω) : Except Exc ω :=
  match os.unlink path w with
  | .ok w' => .ok w'
  | .error errno => if errno ≠ ENOENT then .error (.osError errno) else .ok w

namespace DeltaInfo

/-- `DeltaInfo(query, progress)`. -/
def new (w : ω) : DeltaInfo ω := ⟨⟨[], ∅⟩, ∅, w, ⟨[], [], [], [], []⟩⟩

/-- `self.err[pkg] = [msg]`. -/
def setErr (pload : DeltaPayload) (msg : String) (w : ω) (drpm : DeltaInfo ω) : DeltaInfo ω :=
  { drpm with
    err := drpm.err.insert pload.pkg [msg]
    world := w
    trace := { drpm.trace with failed := drpm.trace.failed ++ [pload] } }

/-- `self.progress.end(pload, dnf.callback.STATUS_DRPM, _('done'))`. -/
def endProgress (pload : DeltaPayload) (w : ω) (drpm : DeltaInfo ω) : DeltaInfo ω :=
  { drpm with
    world := w
    trace := { drpm.trace with ended := drpm.trace.ended ++ [pload] } }

/-- What `job_done` does with the payload that it has popped. -/
def settle (pload : DeltaPayload) (code : Int) (drpm : DeltaInfo ω) : Except Exc (DeltaInfo ω) :=
  if code ≠ 0 then do
    let w ← unlink_f os pload.pkg.localPkg drpm.world
    .ok (drpm.setErr pload "Delta RPM rebuild failed" w)
  else if os.verifyLocalPkg pload.pkg drpm.world = false then
    .ok (drpm.setErr pload "Checksum of the delta-rebuilt RPM failed" drpm.world)
  else
    match os.unlink pload.localPkg drpm.world with
    | .error errno => .error (.osError errno)
    | .ok w => .ok (drpm.endProgress pload w)

def jobDone (pid code : Int) (drpm : DeltaInfo ω) : Except Exc (DeltaInfo ω) :=
  match drpm.pool.jobs.lookup pid with
  | none => .error (.keyError pid)
  | some pload =>
      settle os pload code
        { drpm with
          pool := drpm.pool.finish pid
          trace := { drpm.trace with done := drpm.trace.done ++ [pload] } }

def spawnArgs (pload : DeltaPayload) : List String :=
  [APPLYDELTA, APPLYDELTA, "-a", pload.pkg.arch, pload.localPkg, pload.pkg.localPkg]

def startJob (pload : DeltaPayload) (drpm : DeltaInfo ω) : DeltaInfo ω :=
  let (pid, w) := os.spawnl (spawnArgs pload) drpm.world
  let pool := drpm.pool.start pid pload
  { drpm with
    pool := pool
    world := w
    trace := { drpm.trace with started := drpm.trace.started ++ [pload], running := drpm.trace.running ++ [pool.size] } }

/-- `self.start_job(self.queue.pop(0))`. -/
def startNext (drpm : DeltaInfo ω) : Except Exc (DeltaInfo ω) :=
  match drpm.pool.queue with
  | [] => .error .indexError
  | pload :: queue => .ok (startJob os pload { drpm with pool := { drpm.pool with queue := queue } })

/-- The loop of `enqueue` that processes finished jobs. -/
def reap : Nat → DeltaInfo ω → Except Exc (DeltaInfo ω)
  | 0, _ => .error .outOfFuel
  | fuel + 1, drpm =>
      if drpm.pool.size = 0 then .ok drpm
      else
        let ((pid, code), w) := os.waitpid drpm.world
        if pid = 0 then .ok { drpm with world := w }
        else do
          let drpm ← jobDone os pid code { drpm with world := w }
          reap fuel drpm

/-- The loop of `enqueue` that starts new jobs. -/
def fill : Nat → DeltaInfo ω → Except Exc (DeltaInfo ω)
  | 0, _ => .error .outOfFuel
  | fuel + 1, drpm =>
      if drpm.pool.size < deltarpmJobs then do
        let drpm ← startNext os drpm
        if drpm.pool.queue = [] then .ok drpm else fill fuel drpm
      else .ok drpm

def enqueue (fuel : Nat) (pload : DeltaPayload) (drpm : DeltaInfo ω) : Except Exc (DeltaInfo ω) := do
  let drpm ← reap os fuel drpm
  fill os deltarpmJobs fuel { drpm with pool := drpm.pool.submit pload }

def wait : Nat → DeltaInfo ω → Except Exc (DeltaInfo ω)
  | 0, _ => .error .outOfFuel
  | fuel + 1, drpm =>
      if drpm.pool.size = 0 then .ok drpm
      else do
        let ((pid, code), w) := os.wait drpm.world
        let drpm ← jobDone os pid code { drpm with world := w }
        if drpm.pool.queue = [] then wait fuel drpm
        else
          let drpm ← startNext os drpm
          wait fuel drpm

/-- One call of `enqueue` after another. -/
def enqueueAll (fuel : Nat) (ploads : List DeltaPayload) (drpm : DeltaInfo ω) : Except Exc (DeltaInfo ω) :=
  ploads.foldlM (fun drpm pload => enqueue os deltarpmJobs fuel pload drpm) drpm

/-- Any number of payloads, and then `wait`. -/
def rebuild (fuel : Nat) (ploads : List DeltaPayload) (drpm : DeltaInfo ω) : Except Exc (DeltaInfo ω) := do
  let drpm ← enqueueAll os deltarpmJobs fuel ploads drpm
  wait os fuel drpm

end DeltaInfo

end Dnf.Download
