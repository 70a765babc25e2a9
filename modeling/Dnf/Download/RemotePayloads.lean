import Dnf.Download.Rebuilding
import Mathlib.Algebra.BigOperators.Group.List.Basic
import Mathlib.Algebra.GroupWithZero.Nat
import Mathlib.Data.List.Sort

/-!
# `_download_remote_payloads`

One round downloads a list of payloads, rebuilds the deltas among them as they arrive, and waits for the rebuilds. Packages whose rebuild failed are downloaded again, as full rpms, in the next round. librepo belongs to the outside: it may end the targets in any order and with any status, and report any errors. What the progress meter is told and what is logged is left out, and so is the lock around the rounds.

A round keeps what happened in it: the payloads, the answers of librepo, the errors, and the rebuild queue in the end. The trace of the queue starts again when its errors are cleared.
-/

namespace Dnf.Download

open Foundation

inductive Payload
  | delta (pload : DeltaPayload)
  | rpm (pkg : Package)
  deriving DecidableEq

namespace Payload

def pkg : Payload → Package
  | .delta pload => pload.pkg
  | .rpm pkg => pkg

def downloadSize : Payload → Nat
  | .delta pload => pload.delta.downloadsize
  | .rpm pkg => pkg.downloadsize

def fullSize : Payload → Nat
  | .delta pload => pload.pkg.downloadsize
  | .rpm pkg => pkg.downloadsize

/-- `not hasattr(payload, 'delta')`. -/
def downloadSortKey : Payload → Bool
  | .delta _ => false
  | .rpm _ => true

theorem fullSize_eq (payload : Payload) : payload.fullSize = payload.pkg.downloadsize := by
  cases payload <;> rfl

end Payload

inductive TransferStatus
  | successful
  | alreadyExists
  | error
  deriving DecidableEq

/-- A call of the end callback of a target. -/
structure End where
  payload : Payload
  status : TransferStatus
  msg : Option String

/-- `downloadPackages` calls the end callbacks and may raise a `RuntimeError`; afterwards the targets have their errors. -/
structure Transfers where
  ends : List End
  fatal : Option String
  getErr : Payload → Option String

abbrev Librepo (ω : Type) := List Payload → Bool → ω → Transfers × ω

/-- Each target ends at most once, and downloading does not touch the child processes. -/
structure Librepo.Lawful {ω : Type} (librepo : Librepo ω) (children : ω → Finset Int) : Prop where
  ends : ∀ targets failFast w, ((librepo targets failFast w).1.ends.map End.payload).Subperm targets
  children : ∀ targets failFast w, children (librepo targets failFast w).2 = children w

def startswith (s start : String) : Bool := start.toList.isPrefixOf s.toList

structure DownloadErrors where
  pkgIrrecoverable : AList fun _ : Package => List String
  recoverable : AList fun _ : Package => List String
  fatal : Option String
  skipped : Finset Package

namespace DownloadErrors

/-- The error map; `none` is the key `''`. -/
def irrecoverable (errs : DownloadErrors) : List (Option Package × List String) :=
  if errs.pkgIrrecoverable.entries ≠ [] then errs.pkgIrrecoverable.entries.reverse.map fun entry => (some entry.1, entry.2)
  else
    match errs.fatal with
    | some fatal => if fatal ≠ "" then [(none, [fatal])] else []
    | none => []

def bandwidthUsed (errs : DownloadErrors) (pload : Payload) : Nat := if pload.pkg ∈ errs.skipped then 0 else pload.downloadSize

/-- What `_download_payloads` makes of the error of one target. -/
def addTarget (getErr : Payload → Option String) (errs : DownloadErrors) (target : Payload) : DownloadErrors :=
  match getErr target with
  | none => errs
  | some err =>
      if startswith err "Not finished" then errs
      else if err = "Already downloaded" then { errs with skipped := insert target.pkg errs.skipped }
      else { errs with pkgIrrecoverable := errs.pkgIrrecoverable.insert target.pkg [err] }

end DownloadErrors

inductive Failure
  | rebuild (e : Exc)
  | downloadError (errmap : List (Option Package × List String))
  | outOfFuel

structure Round (ω : Type) where
  payloads : List Payload
  transfers : Transfers
  errors : DownloadErrors
  drpm : DeltaInfo ω

/-- `remaining_pkgs`, the keys of the errors in the order in which they were set. -/
def Round.remaining {ω : Type} (round : Round ω) : List Package := round.errors.recoverable.keys.reverse

structure Totals (ω : Type) where
  remoteSize : Nat
  saving : Nat × Nat
  rounds : List (Round ω)

def updateSaving (saving : Nat × Nat) (payloads : List Payload) (errs : AList fun _ : Package => List String) : Nat × Nat :=
  payloads.foldl (fun (real, full) pload =>
    if pload.pkg ∈ errs then (real + pload.downloadSize, full) else (real + pload.downloadSize, full + pload.fullSize)) saving

section Rounds

variable {ω : Type} (os : Os ω) (librepo : Librepo ω) (deltarpmJobs fuel : Nat) (failFast : Bool)

/-- `DeltaPayload._end_cb`. -/
def endCb (drpm : DeltaInfo ω) (call : End) : Except Exc (DeltaInfo ω) :=
  match call.payload with
  | .delta pload => if call.status ≠ .error then DeltaInfo.enqueue os deltarpmJobs fuel pload drpm else .ok drpm
  | .rpm _ => .ok drpm

/-- `drpm.err.clear()`. -/
def DeltaInfo.clearErr (drpm : DeltaInfo ω) : DeltaInfo ω := { drpm with err := ∅, trace := ⟨[], [], [], [], []⟩ }

def sortTargets (payloads : List Payload) : List Payload :=
  payloads.insertionSort fun a b => a.downloadSortKey ≤ b.downloadSortKey

def downloadPayloads (payloads : List Payload) (drpm : DeltaInfo ω) : Except Exc (Round ω) := do
  let drpm := drpm.clearErr
  let targets := sortTargets payloads
  let (transfers, w) := librepo targets failFast drpm.world
  let drpm ← transfers.ends.foldlM (endCb os deltarpmJobs fuel) { drpm with world := w }
  let drpm ← DeltaInfo.wait os fuel drpm
  let errs := targets.foldl (DownloadErrors.addTarget transfers.getErr) ⟨∅, drpm.err, transfers.fatal, ∅⟩
  .ok ⟨payloads, transfers, errs, drpm⟩

/-- A round, and the `DownloadError` that may come of it. -/
def attempt (payloads : List Payload) (drpm : DeltaInfo ω) : Except Failure (Round ω) :=
  match downloadPayloads os librepo deltarpmJobs fuel failFast payloads drpm with
  | .error e => .error (.rebuild e)
  | .ok round => if round.errors.irrecoverable ≠ [] then .error (.downloadError round.errors.irrecoverable) else .ok round

/-- The retries, `last` being the latest round. -/
def retry (forever : Bool) : Nat → Nat → Round ω → Totals ω → Except Failure (Totals ω)
  | 0, _, _, _ => .error .outOfFuel
  | steps + 1, retries, last, totals =>
      if last.errors.recoverable.entries ≠ [] ∧ (forever ∨ retries > 0) then do
        let payloads := last.remaining.map .rpm
        let round ← attempt os librepo deltarpmJobs fuel failFast payloads last.drpm
        retry forever steps (if retries > 0 then retries - 1 else retries) round
          { remoteSize := totals.remoteSize + (payloads.map round.errors.bandwidthUsed).sum
            saving := updateSaving totals.saving payloads ∅
            rounds := totals.rounds ++ [round] }
      else .ok totals

def downloadRemotePayloads (retries : Nat) (payloads : List Payload) (drpm : DeltaInfo ω) : Except Failure (Totals ω) := do
  let round ← attempt os librepo deltarpmJobs fuel failFast payloads drpm
  retry os librepo deltarpmJobs fuel failFast (retries = 0) fuel retries round
    { remoteSize := (payloads.map round.errors.bandwidthUsed).sum
      saving := updateSaving (0, 0) payloads round.errors.recoverable
      rounds := [round] }

end Rounds

end Dnf.Download
