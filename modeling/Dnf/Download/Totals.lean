import Dnf.Download.RemotePayloads

/-!
# At most one retry, and what the totals count

A round starts and ends with an idle queue, so the rebuilds of a round are those of its own deltas, and all of them are over when it ends. Full rpms are not rebuilt: the round that retries has no recoverable errors, and no other round follows. Sizes are then sums over the rounds, where a package that failed is left out of the full size in the first round and counted in the second.
-/

namespace Dnf.Download

open Foundation

/-- The payload that the call puts into the queue. -/
def End.rebuilt (call : End) : Option DeltaPayload :=
  match call.payload with
  | .delta pload => if call.status ≠ .error then some pload else none
  | .rpm _ => none

theorem End.payload_of_rebuilt {call : End} {pload : DeltaPayload} (h : call.rebuilt = some pload) : call.payload = .delta pload := by
  rw [rebuilt] at h
  cases hpayload : call.payload with
  | rpm pkg =>
      rw [hpayload] at h
      cases h
  | delta other =>
      rw [hpayload] at h
      dsimp only at h
      split_ifs at h
      rw [Option.some.inj h]

namespace Transfers

def rebuilt (transfers : Transfers) : List DeltaPayload := transfers.ends.filterMap End.rebuilt

theorem rebuilt_sublist (transfers : Transfers) : (transfers.rebuilt.map Payload.delta).Sublist (transfers.ends.map End.payload) := by
  rw [rebuilt]
  induction transfers.ends with
  | nil => exact .slnil
  | cons call calls ih =>
      rw [List.filterMap_cons]
      cases hcall : call.rebuilt with
      | none => exact ih.cons call.payload
      | some pload =>
          rw [List.map_cons, List.map_cons, End.payload_of_rebuilt hcall]
          exact ih.cons_cons (Payload.delta pload)

end Transfers

/-! ### One round -/

section Rounds

variable {ω : Type} {os : Os ω} {librepo : Librepo ω} {children : ω → Finset Int} {deltarpmJobs fuel : Nat} {failFast : Bool}

structure Idle (children : ω → Finset Int) (drpm : DeltaInfo ω) : Prop where
  queue : drpm.pool.queue = []
  jobs : drpm.pool.jobs = ∅
  children : children drpm.world = ∅

theorem idle_new {w : ω} (h : children w = ∅) : Idle children (DeltaInfo.new w) := ⟨rfl, rfl, h⟩

theorem Idle.clearErr {drpm : DeltaInfo ω} (h : Idle children drpm) (w : ω) : { drpm.clearErr with world := w } = DeltaInfo.new w := by
  obtain ⟨⟨queue, jobs⟩, err, world, trace⟩ := drpm
  obtain ⟨rfl, rfl, -⟩ := h
  rfl

theorem endCb_eq (drpm : DeltaInfo ω) (call : End) :
    endCb os deltarpmJobs fuel drpm call = call.rebuilt.elim (.ok drpm) fun pload => DeltaInfo.enqueue os deltarpmJobs fuel pload drpm := by
  rw [endCb, End.rebuilt]
  cases call.payload with
  | rpm pkg => rfl
  | delta pload =>
      dsimp only
      split_ifs <;> rfl

/-- The calls of the end callbacks are calls of `enqueue`. -/
theorem foldlM_endCb (ends : List End) (drpm : DeltaInfo ω) :
    ends.foldlM (endCb os deltarpmJobs fuel) drpm = DeltaInfo.enqueueAll os deltarpmJobs fuel (ends.filterMap End.rebuilt) drpm := by
  induction ends generalizing drpm with
  | nil => rfl
  | cons call ends ih =>
      rw [List.foldlM_cons, endCb_eq, List.filterMap_cons]
      cases call.rebuilt with
      | none => exact ih drpm
      | some pload =>
          rw [DeltaInfo.enqueueAll, List.foldlM_cons]
          exact congrArg _ (funext ih)

/-- What a round leaves behind that starts with an idle queue. -/
structure Round.Completed (children : ω → Finset Int) (deltarpmJobs : Nat) (payloads : List Payload) (round : Round ω) : Prop where
  payloads_eq : round.payloads = payloads
  rebuilt : (round.transfers.rebuilt.map Payload.delta).Subperm payloads
  coherent : DeltaInfo.Coherent children deltarpmJobs round.transfers.rebuilt round.drpm
  idle : Idle children round.drpm
  errors : round.errors = (sortTargets payloads).foldl (DownloadErrors.addTarget round.transfers.getErr) ⟨∅, round.drpm.err, round.transfers.fatal, ∅⟩

theorem perm_sortTargets (payloads : List Payload) : (sortTargets payloads).Perm payloads := List.perm_insertionSort _ payloads

theorem downloadPayloads_completed (failFast : Bool) (hos : os.Lawful children) (hlibrepo : librepo.Lawful children) (hjobs : 1 ≤ deltarpmJobs)
    {payloads : List Payload} (hfuel : payloads.length < fuel) {drpm : DeltaInfo ω} (hidle : Idle children drpm) :
    ∃ round, downloadPayloads os librepo deltarpmJobs fuel failFast payloads drpm = .ok round ∧
      round.Completed children deltarpmJobs payloads := by
  let called := librepo (sortTargets payloads) failFast drpm.world
  have hsub : (called.1.rebuilt.map Payload.delta).Subperm payloads :=
    called.1.rebuilt_sublist.subperm.trans ((hlibrepo.ends (sortTargets payloads) failFast drpm.world).trans (perm_sortTargets payloads).subperm)
  have hlength : called.1.rebuilt.length < fuel := by
    have hle := hsub.length_le
    rw [List.length_map] at hle
    exact hle.trans_lt hfuel
  have hchildren : children called.2 = ∅ := (hlibrepo.children (sortTargets payloads) failFast drpm.world).trans hidle.children
  obtain ⟨t, hrun, ht, hdrained, hempty⟩ := DeltaInfo.rebuild_coherent hos hjobs hchildren hlength
  have hrounds : downloadPayloads os librepo deltarpmJobs fuel failFast payloads drpm =
      DeltaInfo.rebuild os deltarpmJobs fuel called.1.rebuilt (DeltaInfo.new called.2) >>= fun drpm =>
        .ok ⟨payloads, called.1, (sortTargets payloads).foldl (DownloadErrors.addTarget called.1.getErr) ⟨∅, drpm.err, called.1.fatal, ∅⟩, drpm⟩ := by
    rw [← hidle.clearErr called.2, DeltaInfo.rebuild, Transfers.rebuilt, ← foldlM_endCb, bind_assoc]
    rfl
  rw [hrun] at hrounds
  refine ⟨_, hrounds, rfl, hsub, ht, ⟨hempty, hdrained, ?_⟩, rfl⟩
  refine Finset.eq_empty_of_forall_notMem fun pid hpid => ?_
  rw [ht.children, hdrained] at hpid
  exact AList.notMem_empty pid hpid

end Rounds

/-! ### What the errors say -/

theorem not_startswith_alreadyDownloaded : startswith "Already downloaded" "Not finished" = false := by decide

theorem addTarget_recoverable (getErr : Payload → Option String) (targets : List Payload) (errs : DownloadErrors) :
    (targets.foldl (DownloadErrors.addTarget getErr) errs).recoverable = errs.recoverable := by
  induction targets generalizing errs with
  | nil => rfl
  | cons target targets ih =>
      rw [List.foldl_cons, ih, DownloadErrors.addTarget]
      cases getErr target with
      | none => rfl
      | some err =>
          dsimp only
          split_ifs <;> rfl

theorem mem_skipped_addTarget {getErr : Payload → Option String} {errs : DownloadErrors} {target : Payload} {pkg : Package} :
    pkg ∈ (DownloadErrors.addTarget getErr errs target).skipped ↔
      pkg ∈ errs.skipped ∨ getErr target = some "Already downloaded" ∧ target.pkg = pkg := by
  rw [DownloadErrors.addTarget]
  cases getErr target with
  | none => exact ⟨.inl, fun h => h.resolve_right fun hsome => by cases hsome.1⟩
  | some err =>
      dsimp only
      split_ifs with hstart hskip
      · refine ⟨.inl, fun h => h.resolve_right fun hsome => ?_⟩
        rw [Option.some.inj hsome.1, not_startswith_alreadyDownloaded] at hstart
        cases hstart
      · rw [Finset.mem_insert, or_comm, hskip, eq_comm]
        exact or_congr_right (and_iff_right rfl).symm
      · exact ⟨.inl, fun h => h.resolve_right fun hsome => hskip (Option.some.inj hsome.1)⟩

theorem mem_skipped {getErr : Payload → Option String} {targets : List Payload} {errs : DownloadErrors} {pkg : Package} :
    pkg ∈ (targets.foldl (DownloadErrors.addTarget getErr) errs).skipped ↔
      pkg ∈ errs.skipped ∨ ∃ target ∈ targets, getErr target = some "Already downloaded" ∧ target.pkg = pkg := by
  induction targets generalizing errs with
  | nil => simp
  | cons target targets ih =>
      rw [List.foldl_cons, ih, mem_skipped_addTarget, or_assoc]
      simp only [List.mem_cons, or_and_right, exists_or, exists_eq_left]

/-! ### Sums -/

theorem updateSaving_eq (payloads : List Payload) (errs : AList fun _ : Package => List String) (real full : Nat) :
    updateSaving (real, full) payloads errs =
      (real + (payloads.map Payload.downloadSize).sum, full + ((payloads.filter (·.pkg ∉ errs)).map Payload.fullSize).sum) := by
  induction payloads generalizing real full with
  | nil => rfl
  | cons pload payloads ih =>
      rw [updateSaving, List.foldl_cons]
      by_cases hmem : pload.pkg ∈ errs
      · rw [List.filter_cons_of_neg (by simpa using hmem), List.map_cons, List.sum_cons, ← Nat.add_assoc]
        dsimp only
        rw [if_pos hmem]
        exact ih (real + pload.downloadSize) full
      · rw [List.filter_cons_of_pos (by simpa using hmem), List.map_cons, List.sum_cons, List.map_cons, List.sum_cons, ← Nat.add_assoc,
          ← Nat.add_assoc]
        dsimp only
        rw [if_neg hmem]
        exact ih (real + pload.downloadSize) (full + pload.fullSize)

/-- The packages with an error and the payloads without one make up all payloads. -/
theorem sum_fullSize_split {payloads : List Payload} {pkgs : List Package} (hdistinct : (payloads.map Payload.pkg).Nodup) (hpkgs : pkgs.Nodup)
    (hsub : ∀ pkg ∈ pkgs, pkg ∈ payloads.map Payload.pkg) :
    ((payloads.filter (·.pkg ∉ pkgs)).map Payload.fullSize).sum + (pkgs.map Package.downloadsize).sum = (payloads.map Payload.fullSize).sum := by
  have hfull : ∀ ploads : List Payload, ploads.map Payload.fullSize = (ploads.map Payload.pkg).map Package.downloadsize := by
    intro ploads
    rw [List.map_map]
    exact List.map_congr_left fun pload _ => pload.fullSize_eq
  have hperm : pkgs.Perm ((payloads.map Payload.pkg).filter (· ∈ pkgs)) := by
    refine (List.perm_ext_iff_of_nodup hpkgs (hdistinct.filter _)).mpr fun pkg => ?_
    rw [List.mem_filter, decide_eq_true_iff]
    exact ⟨fun h => ⟨hsub pkg h, h⟩, And.right⟩
  have hrest : (payloads.filter (·.pkg ∉ pkgs)).map Payload.pkg = (payloads.map Payload.pkg).filter (· ∉ pkgs) := by
    rw [List.filter_map]
    rfl
  rw [hfull, hfull, hrest, (hperm.map Package.downloadsize).sum_eq, ← List.sum_append, ← List.map_append]
  refine (List.Perm.map _ ?_).sum_eq
  have hparts := List.filter_append_perm (· ∉ pkgs) (payloads.map Payload.pkg)
  simpa using hparts

theorem sum_map_unless {α : Type} (skip : α → Bool) (size : α → Nat) (xs : List α) :
    (xs.map fun x => if skip x then 0 else size x).sum = ((xs.filter fun x => !skip x).map size).sum := by
  induction xs with
  | nil => rfl
  | cons x xs ih =>
      rw [List.map_cons, List.sum_cons, ih]
      cases hskip : skip x with
      | true =>
          rw [List.filter_cons_of_neg (by simp [hskip]), if_pos rfl, Nat.zero_add]
      | false =>
          rw [List.filter_cons_of_pos (by simp [hskip]), List.map_cons, List.sum_cons, if_neg Bool.false_ne_true]

/-! ### All rounds -/

section Totals

variable {ω : Type} {os : Os ω} {librepo : Librepo ω} {children : ω → Finset Int} {deltarpmJobs fuel : Nat} {failFast : Bool}

def Round.alreadyDownloaded (round : Round ω) (pload : Payload) : Bool := round.transfers.getErr pload = some "Already downloaded"

/-- What the attempts of a round were to download. -/
def Round.attempted (round : Round ω) : Nat := (round.payloads.map Payload.downloadSize).sum

/-- The same, without the attempts that found their file already downloaded. -/
def Round.transferred (round : Round ω) : Nat := ((round.payloads.filter fun pload => !round.alreadyDownloaded pload).map Payload.downloadSize).sum

/-- There is a first round with all payloads, and another one with the full rpms of the packages whose rebuild failed, if there are any. -/
inductive RetriedOnce (payloads : List Payload) : List (Round ω) → Prop
  | once {first : Round ω} : first.payloads = payloads → first.drpm.trace.failed = [] → RetriedOnce payloads [first]
  | retried {first second : Round ω} {pkgs : List Package} : first.payloads = payloads → pkgs ≠ [] → pkgs.Nodup →
      (∀ pkg, pkg ∈ pkgs ↔ ∃ pload ∈ first.drpm.trace.failed, pload.pkg = pkg) → second.payloads = pkgs.map .rpm →
      RetriedOnce payloads [first, second]

theorem Round.nodup_remaining (round : Round ω) : round.remaining.Nodup := List.nodup_reverse.mpr round.errors.recoverable.keys_nodup

namespace Round.Completed

variable {payloads : List Payload} {round : Round ω}

theorem recoverable (h : round.Completed children deltarpmJobs payloads) : round.errors.recoverable = round.drpm.err := by
  rw [h.errors, addTarget_recoverable]

theorem mem_remaining (h : round.Completed children deltarpmJobs payloads) {pkg : Package} :
    pkg ∈ round.remaining ↔ ∃ pload ∈ round.drpm.trace.failed, pload.pkg = pkg := by
  rw [remaining, List.mem_reverse, h.recoverable, ← h.coherent.err]
  exact AList.mem_keys.symm

/-- Only a delta among the payloads of the round can have failed in it. -/
theorem pkg_of_failed (h : round.Completed children deltarpmJobs payloads) {pload : DeltaPayload} (hfailed : pload ∈ round.drpm.trace.failed) :
    Payload.delta pload ∈ payloads := by
  have hall := (h.coherent.drained h.idle.jobs h.idle.queue).2.2
  have hmem := hall.mem_iff.mp (List.mem_append_left _ hfailed)
  exact h.rebuilt.subset (List.mem_map_of_mem hmem)

theorem remaining_eq_nil : round.remaining = [] ↔ round.errors.recoverable.entries = [] := by
  rw [remaining, List.reverse_eq_nil_iff, AList.keys, List.keys, List.map_eq_nil_iff]

/-- A round of full rpms leaves nothing to be retried. -/
theorem remaining_of_rpms {pkgs : List Package} (h : round.Completed children deltarpmJobs (pkgs.map .rpm)) : round.remaining = [] := by
  refine List.eq_nil_iff_forall_not_mem.mpr fun pkg hpkg => ?_
  obtain ⟨pload, hfailed, -⟩ := h.mem_remaining.mp hpkg
  obtain ⟨rpm, -, heq⟩ := List.mem_map.mp (h.pkg_of_failed hfailed)
  cases heq

theorem mem_skipped_iff (h : round.Completed children deltarpmJobs payloads) (hdistinct : (payloads.map Payload.pkg).Nodup) {pload : Payload}
    (hpload : pload ∈ payloads) : pload.pkg ∈ round.errors.skipped ↔ round.alreadyDownloaded pload = true := by
  rw [h.errors, mem_skipped, Round.alreadyDownloaded, decide_eq_true_iff]
  constructor
  · rintro (hnone | ⟨target, htarget, hskip, hpkg⟩)
    · exact absurd hnone (Finset.notMem_empty _)
    · have hsame := List.inj_on_of_nodup_map hdistinct ((perm_sortTargets payloads).mem_iff.mp htarget) hpload hpkg
      rwa [hsame] at hskip
  · exact fun hskip => .inr ⟨pload, (perm_sortTargets payloads).mem_iff.mpr hpload, hskip, rfl⟩

theorem sum_bandwidthUsed (h : round.Completed children deltarpmJobs payloads) (hdistinct : (payloads.map Payload.pkg).Nodup) :
    (payloads.map round.errors.bandwidthUsed).sum = round.transferred := by
  rw [Round.transferred, ← sum_map_unless, h.payloads_eq]
  refine congrArg List.sum (List.map_congr_left fun pload hpload => ?_)
  rw [DownloadErrors.bandwidthUsed]
  exact if_congr (h.mem_skipped_iff hdistinct hpload) rfl rfl

theorem sum_downloadSize (h : round.Completed children deltarpmJobs payloads) : (payloads.map Payload.downloadSize).sum = round.attempted := by
  rw [Round.attempted, h.payloads_eq]

theorem updateSaving_first (h : round.Completed children deltarpmJobs payloads) :
    updateSaving (0, 0) payloads round.errors.recoverable =
      (round.attempted, ((payloads.filter (·.pkg ∉ round.remaining)).map Payload.fullSize).sum) := by
  rw [updateSaving_eq, Nat.zero_add, Nat.zero_add, h.sum_downloadSize]
  congr 4
  funext pload
  exact decide_eq_decide.mpr (not_congr (AList.mem_keys.trans List.mem_reverse.symm))

end Round.Completed

theorem updateSaving_rpms (saving : Nat × Nat) (pkgs : List Package) :
    updateSaving saving (pkgs.map .rpm) ∅ =
      (saving.1 + ((pkgs.map Payload.rpm).map Payload.downloadSize).sum, saving.2 + (pkgs.map Package.downloadsize).sum) := by
  obtain ⟨real, full⟩ := saving
  rw [updateSaving_eq, List.filter_eq_self.mpr fun pload _ => decide_eq_true (AList.notMem_empty pload.pkg), List.map_map (g := Payload.fullSize)]
  rfl

theorem attempt_cases (failFast : Bool) (hos : os.Lawful children) (hlibrepo : librepo.Lawful children) (hjobs : 1 ≤ deltarpmJobs)
    {payloads : List Payload} (hfuel : payloads.length < fuel) {drpm : DeltaInfo ω} (hidle : Idle children drpm) :
    (∃ errmap, attempt os librepo deltarpmJobs fuel failFast payloads drpm = .error (.downloadError errmap)) ∨
      ∃ round, attempt os librepo deltarpmJobs fuel failFast payloads drpm = .ok round ∧ round.Completed children deltarpmJobs payloads := by
  obtain ⟨round, hrun, hround⟩ := downloadPayloads_completed failFast hos hlibrepo hjobs hfuel hidle
  rw [attempt, hrun]
  dsimp only
  split_ifs with hirrecoverable
  · exact .inl ⟨_, rfl⟩
  · exact .inr ⟨round, rfl, hround⟩

theorem retry_succ (forever : Bool) (steps retries : Nat) (last : Round ω) (totals : Totals ω) :
    retry os librepo deltarpmJobs fuel failFast forever (steps + 1) retries last totals =
      if last.errors.recoverable.entries ≠ [] ∧ (forever ∨ retries > 0) then
        attempt os librepo deltarpmJobs fuel failFast (last.remaining.map .rpm) last.drpm >>= fun round =>
          retry os librepo deltarpmJobs fuel failFast forever steps (if retries > 0 then retries - 1 else retries) round
            { remoteSize := totals.remoteSize + ((last.remaining.map Payload.rpm).map round.errors.bandwidthUsed).sum
              saving := updateSaving totals.saving (last.remaining.map .rpm) ∅
              rounds := totals.rounds ++ [round] }
      else .ok totals := rfl

theorem retry_done {forever : Bool} {steps retries : Nat} {last : Round ω} (hnone : last.remaining = []) (totals : Totals ω) :
    retry os librepo deltarpmJobs fuel failFast forever (steps + 1) retries last totals = .ok totals := by
  rw [retry_succ, if_neg]
  exact fun hcond => hcond.1 (Round.Completed.remaining_eq_nil.mp hnone)

/-- With something to retry, the setting always allows for the first retry. -/
theorem retry_first {steps retries : Nat} {first : Round ω} (hsome : first.remaining ≠ []) (totals : Totals ω) :
    retry os librepo deltarpmJobs fuel failFast (retries = 0) (steps + 1) retries first totals =
      attempt os librepo deltarpmJobs fuel failFast (first.remaining.map .rpm) first.drpm >>= fun round =>
        retry os librepo deltarpmJobs fuel failFast (retries = 0) steps (if retries > 0 then retries - 1 else retries) round
          { remoteSize := totals.remoteSize + ((first.remaining.map Payload.rpm).map round.errors.bandwidthUsed).sum
            saving := updateSaving totals.saving (first.remaining.map .rpm) ∅
            rounds := totals.rounds ++ [round] } := by
  rw [retry_succ, if_pos]
  refine ⟨mt Round.Completed.remaining_eq_nil.mpr hsome, ?_⟩
  rw [decide_eq_true_iff]
  exact Nat.eq_zero_or_pos retries

/-- Every target ends well, except that the file of the third package is there already. -/
def sampleLibrepo : Librepo (List Int) := fun targets _ w =>
  (⟨targets.map fun target => ⟨target, .successful, none⟩, none, fun target => if target.pkg.id = 3 then some "Already downloaded" else none⟩, w)

theorem sampleLibrepo_lawful : sampleLibrepo.Lawful List.toFinset where
  ends := fun targets _ _ => by
    show ((targets.map fun target => (⟨target, .successful, none⟩ : End)).map End.payload).Subperm targets
    rw [List.map_map]
    exact (List.map_id targets).symm ▸ List.Subperm.refl targets
  children := fun _ _ _ => rfl

def samplePayloads : List Payload :=
  [.delta (DeltaInfo.samplePayload 1), .rpm (DeltaInfo.samplePayload 3).pkg, .delta (DeltaInfo.samplePayload 2)]

end Totals

end Dnf.Download
