import Dnf.Download.DeltaInfo
import Dnf.Foundation.Fallible

/-!
# The rebuild queue loses nothing

`Coherent` is what holds between any two operations of the queue: what was submitted, started and done adds up, the children of the process are the jobs, and every payload that is done has either set an error for its package or been reported as finished. Where something waits and no operation is going on, the pool is also busy; that is what lets `wait` look at the jobs only.
-/

namespace Dnf.Download.DeltaInfo

open Foundation

variable {ω : Type} {os : Os ω} {children : ω → Finset Int} {deltarpmJobs : Nat} {submitted : List DeltaPayload}

structure Coherent (children : ω → Finset Int) (deltarpmJobs : Nat) (submitted : List DeltaPayload) (drpm : DeltaInfo ω) : Prop where
  accounts : drpm.pool.Accounts submitted drpm.trace.started drpm.trace.done
  le : drpm.pool.size ≤ deltarpmJobs
  children : ∀ pid, pid ∈ children drpm.world ↔ pid ∈ drpm.pool.jobs
  running : ∀ n ∈ drpm.trace.running, n ≤ deltarpmJobs
  outcomes : (drpm.trace.failed ++ drpm.trace.ended).Perm drpm.trace.done
  err : ∀ pkg, pkg ∈ drpm.err ↔ ∃ pload ∈ drpm.trace.failed, pload.pkg = pkg

theorem coherent_new {w : ω} (h : children w = ∅) : Coherent children deltarpmJobs [] (new w) where
  accounts := .empty
  le := Nat.zero_le _
  children := fun pid => by
    show pid ∈ children w ↔ pid ∈ (∅ : AList fun _ : Int => DeltaPayload)
    rw [h]
    exact iff_of_false (Finset.notMem_empty pid) (AList.notMem_empty pid)
  running := fun n hn => by cases hn
  outcomes := .nil
  err := fun pkg => iff_of_false (AList.notMem_empty pkg) fun ⟨pload, hpload, _⟩ => by cases hpload

theorem Coherent.children_nonempty {drpm : DeltaInfo ω} (h : Coherent children deltarpmJobs submitted drpm)
    (hsize : drpm.pool.size ≠ 0) : (children drpm.world).Nonempty := by
  obtain ⟨pid, hpid⟩ := Pool.exists_worker (mt Pool.size_eq_zero.mpr hsize)
  exact ⟨pid, (h.children pid).mpr hpid⟩

/-! ### A job that is done -/

/-- Whatever the exit code, the payload either sets an error or is reported as finished. -/
theorem settle_cases (hos : os.Lawful children) (pload : DeltaPayload) (code : Int) (drpm : DeltaInfo ω) :
    ∃ w, children w = children drpm.world ∧
      ((∃ msg, settle os pload code drpm = .ok (drpm.setErr pload msg w)) ∨ settle os pload code drpm = .ok (drpm.endProgress pload w)) := by
  rw [settle]
  split_ifs with hcode hverify
  · rcases hos.unlink pload.pkg.localPkg drpm.world with ⟨w, hunlink, hw⟩ | hunlink
    · refine ⟨w, hw, .inl ⟨"Delta RPM rebuild failed", ?_⟩⟩
      rw [unlink_f, hunlink]
      rfl
    · refine ⟨drpm.world, rfl, .inl ⟨"Delta RPM rebuild failed", ?_⟩⟩
      rw [unlink_f, hunlink]
      rfl
  · exact ⟨drpm.world, rfl, .inl ⟨_, rfl⟩⟩
  · obtain ⟨w, hunlink, hw⟩ := hos.unlink_delta pload drpm.world
    refine ⟨w, hw, .inr ?_⟩
    rw [hunlink]

/-- A payload that is done and has set an error. -/
theorem Coherent.setErr {drpm : DeltaInfo ω} {pid : Int} {pload : DeltaPayload} {w : ω} (h : Coherent children deltarpmJobs submitted drpm)
    (hlookup : drpm.pool.jobs.lookup pid = some pload) (hw : ∀ p, p ∈ children w ↔ p ∈ (drpm.pool.finish pid).jobs) (msg : String) :
    Coherent children deltarpmJobs submitted
      (DeltaInfo.setErr pload msg w { drpm with pool := drpm.pool.finish pid, trace := { drpm.trace with done := drpm.trace.done ++ [pload] } }) where
  accounts := h.accounts.finish hlookup
  le := by
    have hle := h.le
    rw [Pool.size_finish hlookup] at hle
    exact Nat.le_of_succ_le hle
  children := hw
  running := h.running
  outcomes := by
    show ((drpm.trace.failed ++ [pload]) ++ drpm.trace.ended).Perm (drpm.trace.done ++ [pload])
    rw [List.append_assoc, List.singleton_append]
    exact (List.perm_middle.trans (h.outcomes.cons pload)).trans (List.perm_append_singleton pload _).symm
  err := fun pkg => by
    show pkg ∈ drpm.err.insert pload.pkg [msg] ↔ ∃ p ∈ drpm.trace.failed ++ [pload], p.pkg = pkg
    rw [AList.mem_insert, h.err, or_comm, eq_comm]
    simp only [List.mem_append, List.mem_singleton, or_and_right, exists_or, exists_eq_left]

theorem Coherent.endProgress {drpm : DeltaInfo ω} {pid : Int} {pload : DeltaPayload} {w : ω} (h : Coherent children deltarpmJobs submitted drpm)
    (hlookup : drpm.pool.jobs.lookup pid = some pload) (hw : ∀ p, p ∈ children w ↔ p ∈ (drpm.pool.finish pid).jobs) :
    Coherent children deltarpmJobs submitted
      (DeltaInfo.endProgress pload w { drpm with pool := drpm.pool.finish pid, trace := { drpm.trace with done := drpm.trace.done ++ [pload] } }) where
  accounts := h.accounts.finish hlookup
  le := by
    have hle := h.le
    rw [Pool.size_finish hlookup] at hle
    exact Nat.le_of_succ_le hle
  children := hw
  running := h.running
  outcomes := by
    show (drpm.trace.failed ++ (drpm.trace.ended ++ [pload])).Perm (drpm.trace.done ++ [pload])
    rw [← List.append_assoc]
    exact h.outcomes.append_right [pload]
  err := h.err

/-- A child that has finished is a job, and `job_done` takes it out. -/
theorem Coherent.jobDone {drpm : DeltaInfo ω} {pid : Int} {w : ω} (hos : os.Lawful children)
    (h : Coherent children deltarpmJobs submitted drpm) (hreaps : Os.Reaps children drpm.world pid w) (code : Int) :
    ∃ t, jobDone os pid code { drpm with world := w } = .ok t ∧ Coherent children deltarpmJobs submitted t ∧
      t.pool.queue = drpm.pool.queue ∧ t.pool.size + 1 = drpm.pool.size := by
  obtain ⟨pload, hlookup⟩ := Option.isSome_iff_exists.mp (AList.lookup_isSome.mpr ((h.children pid).mp hreaps.1))
  have hchildren : ∀ p, p ∈ children w ↔ p ∈ (drpm.pool.finish pid).jobs := by
    intro p
    rw [hreaps.2, Finset.mem_erase, h.children, Pool.finish, AList.mem_erase]
  have hsize := Pool.size_finish hlookup
  let popped : DeltaInfo ω :=
    { drpm with pool := drpm.pool.finish pid, world := w, trace := { drpm.trace with done := drpm.trace.done ++ [pload] } }
  have hrun : DeltaInfo.jobDone os pid code { drpm with world := w } = settle os pload code popped := by
    rw [DeltaInfo.jobDone]
    simp only [hlookup]
    rfl
  obtain ⟨w', hw', ⟨msg, hsettle⟩ | hsettle⟩ := settle_cases hos pload code popped
  · refine ⟨_, hrun.trans hsettle, h.setErr hlookup (fun p => ?_) msg, rfl, hsize.symm⟩
    rw [hw']
    exact hchildren p
  · refine ⟨_, hrun.trans hsettle, h.endProgress hlookup (fun p => ?_), rfl, hsize.symm⟩
    rw [hw']
    exact hchildren p

/-! ### A job that is started -/

theorem Coherent.startNext {drpm : DeltaInfo ω} (hos : os.Lawful children) (h : Coherent children deltarpmJobs submitted drpm)
    (hqueue : drpm.pool.queue ≠ []) (hroom : drpm.pool.size < deltarpmJobs) :
    ∃ t, startNext os drpm = .ok t ∧ Coherent children deltarpmJobs submitted t ∧
      t.pool.queue.length + 1 = drpm.pool.queue.length ∧ t.pool.size = drpm.pool.size + 1 := by
  obtain ⟨pload, queue, hcons⟩ := List.exists_cons_of_ne_nil hqueue
  obtain ⟨-, hfresh, hspawned⟩ := hos.spawnl (spawnArgs pload) drpm.world
  have hworker := mt (h.children _).mpr hfresh
  have hsize : (({ drpm.pool with queue := queue } : Pool Int DeltaPayload).start (os.spawnl (spawnArgs pload) drpm.world).1 pload).size =
      drpm.pool.size + 1 := Pool.size_start hworker pload
  refine ⟨startJob os pload { drpm with pool := { drpm.pool with queue := queue } }, ?_, ?_, ?_, hsize⟩
  · rw [DeltaInfo.startNext, hcons]
  · exact {
      accounts := h.accounts.start hcons hworker
      le := hsize.trans_le hroom
      children := fun pid => by
        show pid ∈ children (os.spawnl (spawnArgs pload) drpm.world).2 ↔ pid ∈ drpm.pool.jobs.insert _ pload
        rw [hspawned, Finset.mem_insert, h.children, AList.mem_insert]
      running := fun n hn => by
        rcases List.mem_append.mp hn with hn | hn
        · exact h.running n hn
        · rw [List.mem_singleton.mp hn]
          exact hsize.trans_le hroom
      outcomes := h.outcomes
      err := h.err }
  · rw [hcons]
    rfl

/-! ### The loops -/

theorem reap_succ (fuel : Nat) (drpm : DeltaInfo ω) :
    reap os (fuel + 1) drpm =
      if drpm.pool.size = 0 then .ok drpm
      else if (os.waitpid drpm.world).1.1 = 0 then .ok { drpm with world := (os.waitpid drpm.world).2 }
      else jobDone os (os.waitpid drpm.world).1.1 (os.waitpid drpm.world).1.2 { drpm with world := (os.waitpid drpm.world).2 } >>=
        reap os fuel := rfl

theorem fill_succ (fuel : Nat) (drpm : DeltaInfo ω) :
    fill os deltarpmJobs (fuel + 1) drpm =
      if drpm.pool.size < deltarpmJobs then
        startNext os drpm >>= fun drpm => if drpm.pool.queue = [] then .ok drpm else fill os deltarpmJobs fuel drpm
      else .ok drpm := rfl

theorem wait_succ (fuel : Nat) (drpm : DeltaInfo ω) :
    wait os (fuel + 1) drpm =
      if drpm.pool.size = 0 then .ok drpm
      else jobDone os (os.wait drpm.world).1.1 (os.wait drpm.world).1.2 { drpm with world := (os.wait drpm.world).2 } >>= fun drpm =>
        if drpm.pool.queue = [] then wait os fuel drpm else startNext os drpm >>= wait os fuel := rfl

theorem Coherent.reap (hos : os.Lawful children) {fuel : Nat} {drpm : DeltaInfo ω} (h : Coherent children deltarpmJobs submitted drpm)
    (hfuel : drpm.pool.size < fuel) :
    ∃ t, reap os fuel drpm = .ok t ∧ Coherent children deltarpmJobs submitted t ∧ t.pool.queue = drpm.pool.queue := by
  induction fuel generalizing drpm with
  | zero => exact absurd hfuel (Nat.not_lt_zero _)
  | succ fuel ih =>
      rw [reap_succ]
      split_ifs with hsize hpid
      · exact ⟨drpm, rfl, h, rfl⟩
      · rcases hos.waitpid drpm.world (h.children_nonempty hsize) with ⟨-, hw⟩ | ⟨hne, -⟩
        · refine ⟨_, rfl, ⟨h.accounts, h.le, fun pid => ?_, h.running, h.outcomes, h.err⟩, rfl⟩
          rw [← h.children, ← hw]
        · exact absurd hpid hne
      · rcases hos.waitpid drpm.world (h.children_nonempty hsize) with ⟨hzero, -⟩ | ⟨-, hreaps⟩
        · exact absurd hzero hpid
        · obtain ⟨next, hdone, hnext, hqueue, hless⟩ := h.jobDone hos hreaps (os.waitpid drpm.world).1.2
          obtain ⟨t, hrun, ht, hsame⟩ := ih hnext (by omega)
          rw [hdone, Fallible.ok_bind]
          exact ⟨t, hrun, ht, hsame.trans hqueue⟩

theorem Coherent.fill (hos : os.Lawful children) {fuel : Nat} {drpm : DeltaInfo ω} (h : Coherent children deltarpmJobs submitted drpm)
    (hqueue : drpm.pool.queue ≠ []) (hfuel : drpm.pool.queue.length ≤ fuel) :
    ∃ t, fill os deltarpmJobs fuel drpm = .ok t ∧ Coherent children deltarpmJobs submitted t ∧ t.pool.Busy deltarpmJobs := by
  induction fuel generalizing drpm with
  | zero => exact absurd (List.length_eq_zero_iff.mp (Nat.le_zero.mp hfuel)) hqueue
  | succ fuel ih =>
      rw [fill_succ]
      split_ifs with hroom
      · obtain ⟨next, hstart, hnext, hless, -⟩ := h.startNext hos hqueue hroom
        rw [hstart, Fallible.ok_bind]
        split_ifs with hempty
        · exact ⟨next, rfl, hnext, hnext.le, fun hne => absurd hempty hne⟩
        · exact ih hnext hempty (by omega)
      · exact ⟨drpm, rfl, h, h.le, fun _ => Nat.le_antisymm h.le (Nat.le_of_not_lt hroom)⟩

theorem Coherent.enqueue (hos : os.Lawful children) {fuel : Nat} {drpm : DeltaInfo ω} (h : Coherent children deltarpmJobs submitted drpm)
    (hfuel : submitted.length < fuel) (pload : DeltaPayload) :
    ∃ t, enqueue os deltarpmJobs fuel pload drpm = .ok t ∧ Coherent children deltarpmJobs (submitted ++ [pload]) t ∧
      t.pool.Busy deltarpmJobs := by
  have hlength := h.accounts.length_le
  have hsize : drpm.pool.size < fuel := by omega
  obtain ⟨reaped, hreap, hreaped, hqueue⟩ := h.reap hos hsize
  rw [DeltaInfo.enqueue, hreap]
  have hsubmitted : Coherent children deltarpmJobs (submitted ++ [pload]) { reaped with pool := reaped.pool.submit pload } :=
    ⟨hreaped.accounts.submit pload, hreaped.le, hreaped.children, hreaped.running, hreaped.outcomes, hreaped.err⟩
  apply hsubmitted.fill hos
  · exact List.append_ne_nil_of_right_ne_nil _ (List.cons_ne_nil pload [])
  · show (reaped.pool.queue ++ [pload]).length ≤ fuel
    rw [hqueue, List.length_append, List.length_singleton]
    omega

/-- `wait` drains the pool, as a slot that is emptied is filled again as long as something waits. -/
theorem Coherent.wait (hos : os.Lawful children) (hjobs : 1 ≤ deltarpmJobs) {fuel : Nat} {drpm : DeltaInfo ω}
    (h : Coherent children deltarpmJobs submitted drpm) (hbusy : drpm.pool.Busy deltarpmJobs)
    (hfuel : drpm.pool.size + drpm.pool.queue.length < fuel) :
    ∃ t, wait os fuel drpm = .ok t ∧ Coherent children deltarpmJobs submitted t ∧ t.pool.jobs = ∅ ∧ t.pool.queue = [] := by
  induction fuel generalizing drpm with
  | zero => exact absurd hfuel (Nat.not_lt_zero _)
  | succ fuel ih =>
      rw [wait_succ]
      split_ifs with hsize
      · have hnone := Pool.size_eq_zero.mp hsize
        exact ⟨drpm, rfl, h, hnone, hbusy.queue_eq_nil hjobs hnone⟩
      · obtain ⟨next, hdone, hnext, hqueue, hless⟩ :=
          h.jobDone hos (hos.wait drpm.world (h.children_nonempty hsize)) (os.wait drpm.world).1.2
        rw [hdone, Fallible.ok_bind]
        split_ifs with hempty
        · refine ih hnext ⟨hnext.le, fun hne => absurd hempty hne⟩ ?_
          rw [hempty, List.length_nil]
          omega
        · have hfull := hbusy.full (hqueue ▸ hempty)
          obtain ⟨started, hstart, hstarted, hrest, hmore⟩ := hnext.startNext hos hempty (by omega)
          rw [hstart, Fallible.ok_bind]
          have hlength := congrArg List.length hqueue
          exact ih hstarted ⟨hstarted.le, fun _ => by omega⟩ (by omega)

theorem Coherent.enqueueAll (hos : os.Lawful children) {fuel : Nat} (ploads : List DeltaPayload) {drpm : DeltaInfo ω}
    (h : Coherent children deltarpmJobs submitted drpm) (hbusy : drpm.pool.Busy deltarpmJobs)
    (hfuel : submitted.length + ploads.length ≤ fuel) :
    ∃ t, enqueueAll os deltarpmJobs fuel ploads drpm = .ok t ∧ Coherent children deltarpmJobs (submitted ++ ploads) t ∧
      t.pool.Busy deltarpmJobs := by
  induction ploads generalizing submitted drpm with
  | nil => exact ⟨drpm, rfl, (List.append_nil submitted).symm ▸ h, hbusy⟩
  | cons pload ploads ih =>
      rw [List.length_cons] at hfuel
      have hless : submitted.length < fuel := by omega
      obtain ⟨next, henqueue, hnext, hbusy⟩ := h.enqueue hos hless pload
      obtain ⟨t, hrun, ht, htbusy⟩ := ih hnext hbusy (by rw [List.length_append, List.length_singleton]; omega)
      rw [List.append_assoc, List.singleton_append] at ht
      refine ⟨t, ?_, ht, htbusy⟩
      rw [DeltaInfo.enqueueAll, List.foldlM_cons, henqueue]
      exact hrun

theorem Coherent.drained {drpm : DeltaInfo ω} (h : Coherent children deltarpmJobs submitted drpm) (hjobs : drpm.pool.jobs = ∅)
    (hqueue : drpm.pool.queue = []) :
    drpm.trace.started.Perm submitted ∧ drpm.trace.done.Perm submitted ∧ (drpm.trace.failed ++ drpm.trace.ended).Perm submitted := by
  obtain ⟨hstarted, hdone⟩ := h.accounts.drained hqueue hjobs
  exact ⟨hstarted, hdone, h.outcomes.trans hdone⟩

theorem rebuild_coherent (hos : os.Lawful children) (hjobs : 1 ≤ deltarpmJobs) {w : ω} (hw : children w = ∅)
    {ploads : List DeltaPayload} {fuel : Nat} (hfuel : ploads.length < fuel) :
    ∃ t, rebuild os deltarpmJobs fuel ploads (new w) = .ok t ∧ Coherent children deltarpmJobs ploads t ∧ t.pool.jobs = ∅ ∧
      t.pool.queue = [] := by
  have hbusy : (new w : DeltaInfo ω).pool.Busy deltarpmJobs := ⟨Nat.zero_le _, fun hne => absurd rfl hne⟩
  have hlength : ([] : List DeltaPayload).length + ploads.length ≤ fuel := by
    rw [List.length_nil, Nat.zero_add]
    exact hfuel.le
  obtain ⟨enqueued, henqueue, henqueued, hfull⟩ := (coherent_new hw).enqueueAll hos ploads hbusy hlength
  rw [List.nil_append] at henqueued
  rw [rebuild, henqueue, Fallible.ok_bind]
  exact henqueued.wait hos hjobs hfull (henqueued.accounts.length_le.trans_lt hfuel)

/-- A package has an error exactly if its only payload was not reported as finished. -/
theorem mem_err_iff {drpm : DeltaInfo ω} {ploads : List DeltaPayload} (h : Coherent children deltarpmJobs submitted drpm)
    (hall : (drpm.trace.failed ++ drpm.trace.ended).Perm ploads) (hdistinct : (ploads.map DeltaPayload.pkg).Nodup)
    {pload : DeltaPayload} (hpload : pload ∈ ploads) : pload.pkg ∈ drpm.err ↔ pload ∉ drpm.trace.ended := by
  have hnodup : ((drpm.trace.failed ++ drpm.trace.ended).map DeltaPayload.pkg).Nodup := (hall.map _).nodup_iff.mpr hdistinct
  rw [List.map_append, List.nodup_append] at hnodup
  rw [h.err]
  constructor
  · rintro ⟨other, hfailed, hsame⟩ hended
    exact hnodup.2.2 _ (List.mem_map_of_mem hfailed) _ (List.mem_map_of_mem hended) hsame
  · intro hnot
    exact ⟨pload, (List.mem_append.mp (hall.mem_iff.mpr hpload)).resolve_right hnot, rfl⟩

/-- The world is the list of the children. The oldest one is the next to finish, and those with an even pid fail. -/
def kernel : Os (List Int) where
  spawnl := fun _ w => (w.foldr max 0 + 1, w ++ [w.foldr max 0 + 1])
  waitpid := fun w => ((0, 0), w)
  wait := fun w =>
    match w with
    | [] => ((0, 0), [])
    | pid :: _ => ((pid, if pid % 2 = 0 then 256 else 0), w.filter (· ≠ pid))
  unlink := fun _ w => .ok w
  verifyLocalPkg := fun _ _ => true

theorem foldr_max_bounds (w : List Int) : 0 ≤ w.foldr max 0 ∧ ∀ pid ∈ w, pid ≤ w.foldr max 0 := by
  induction w with
  | nil => exact ⟨le_rfl, fun pid hpid => by cases hpid⟩
  | cons p w ih =>
      refine ⟨ih.1.trans (le_max_right _ _), fun pid hpid => ?_⟩
      rcases List.mem_cons.mp hpid with rfl | hpid
      · exact le_max_left _ _
      · exact (ih.2 pid hpid).trans (le_max_right _ _)

theorem kernel_lawful : kernel.Lawful List.toFinset where
  spawnl := by
    intro args w
    obtain ⟨hnonneg, hle⟩ := foldr_max_bounds w
    refine ⟨?_, ?_, ?_⟩
    · show w.foldr max 0 + 1 ≠ 0
      omega
    · intro hmem
      have hbound : w.foldr max 0 + 1 ≤ w.foldr max 0 := hle _ (List.mem_toFinset.mp hmem)
      omega
    · ext pid
      simp [kernel, or_comm]
  waitpid := fun w _ => .inl ⟨rfl, rfl⟩
  wait := by
    intro w hw
    cases w with
    | nil => exact absurd hw Finset.not_nonempty_empty
    | cons pid rest =>
        refine ⟨List.mem_toFinset.mpr List.mem_cons_self, ?_⟩
        ext p
        show p ∈ ((pid :: rest).filter (· ≠ pid)).toFinset ↔ p ∈ (pid :: rest).toFinset.erase pid
        rw [List.mem_toFinset, List.mem_filter, Finset.mem_erase, List.mem_toFinset, decide_eq_true_iff]
        exact and_comm
  unlink := fun _ w => .inl ⟨w, rfl, rfl⟩
  unlink_delta := fun _ w => ⟨w, rfl, rfl⟩

def samplePayload (id : Nat) : DeltaPayload :=
  ⟨⟨"drpms/" ++ toString id ++ ".drpm", 10⟩, ⟨id, "noarch", "/var/cache/dnf", "/var/cache/dnf/" ++ toString id ++ ".rpm", 40⟩⟩

end Dnf.Download.DeltaInfo
