import Mathlib.Data.List.AList

/-!
# A pool of workers

A queue in front of a bounded number of running jobs, each under the key of its worker. The pool is busy as long as something waits: then every slot is taken. Whatever was submitted waits or was started, and whatever was started runs or is finished, each as often as it was submitted; so a pool that has drained has started and finished all of it.
-/

namespace Foundation

structure Pool (κ α : Type) where
  queue : List α
  jobs : AList fun _ : κ => α

namespace Pool

variable {κ α : Type} [DecidableEq κ]

def size (pool : Pool κ α) : Nat := pool.jobs.entries.length

def running (pool : Pool κ α) : List α := pool.jobs.entries.map Sigma.snd

def submit (pool : Pool κ α) (x : α) : Pool κ α := { pool with queue := pool.queue ++ [x] }

def start (pool : Pool κ α) (worker : κ) (x : α) : Pool κ α := { pool with jobs := pool.jobs.insert worker x }

def finish (pool : Pool κ α) (worker : κ) : Pool κ α := { pool with jobs := pool.jobs.erase worker }

/-! ### Keys and sizes -/

variable {pool : Pool κ α} {worker : κ} {x : α}

theorem perm_entries_erase (h : pool.jobs.lookup worker = some x) :
    pool.jobs.entries.Perm (⟨worker, x⟩ :: (pool.jobs.erase worker).entries) := by
  have hmem : worker ∈ pool.jobs.keys := AList.lookup_isSome.mp (Option.isSome_of_eq_some h)
  obtain ⟨y, before, after, hbefore, heq, herase⟩ := List.exists_of_kerase hmem
  have hy : y = x := by
    have hlookup : pool.jobs.entries.dlookup worker = some y := by
      rw [heq, List.dlookup_append, List.dlookup_eq_none.mpr hbefore, List.dlookup_cons_eq]
      rfl
    exact Option.some.inj (hlookup.symm.trans h)
  have herase : (pool.jobs.erase worker).entries = before ++ after := herase
  rw [herase, heq, hy]
  exact List.perm_middle

theorem perm_running_finish (h : pool.jobs.lookup worker = some x) : pool.running.Perm (x :: (pool.finish worker).running) :=
  List.Perm.map (fun entry : Sigma fun _ : κ => α => entry.2) (perm_entries_erase h)

theorem size_finish (h : pool.jobs.lookup worker = some x) : pool.size = (pool.finish worker).size + 1 := (perm_entries_erase h).length_eq

theorem running_start (h : worker ∉ pool.jobs) (x : α) : (pool.start worker x).running = x :: pool.running := by
  rw [running, start, AList.entries_insert_of_notMem h]
  rfl

theorem size_start (h : worker ∉ pool.jobs) (x : α) : (pool.start worker x).size = pool.size + 1 := by
  rw [size, start, AList.entries_insert_of_notMem h]
  rfl

omit [DecidableEq κ] in
theorem size_eq_zero : pool.size = 0 ↔ pool.jobs = ∅ := by
  rw [size, List.length_eq_zero_iff]
  exact ⟨fun h => AList.ext h, fun h => h ▸ rfl⟩

omit [DecidableEq κ] in
theorem exists_worker (h : pool.jobs ≠ ∅) : ∃ worker, worker ∈ pool.jobs := by
  cases hentries : pool.jobs.entries with
  | nil => exact absurd (AList.ext hentries) h
  | cons entry rest =>
      refine ⟨entry.1, AList.mem_keys.mpr ?_⟩
      rw [AList.keys, hentries]
      exact List.mem_cons_self

/-! ### What has become of what was submitted -/

/-- What waits or was started is what was submitted, and what runs or is finished is what was started. -/
structure Accounts (pool : Pool κ α) (submitted started finished : List α) : Prop where
  submitted : (started ++ pool.queue).Perm submitted
  started : (finished ++ pool.running).Perm started

namespace Accounts

variable {submitted started finished : List α}

omit [DecidableEq κ] in
theorem empty : (⟨[], ∅⟩ : Pool κ α).Accounts [] [] [] := ⟨.nil, .nil⟩

omit [DecidableEq κ] in
theorem submit (h : pool.Accounts submitted started finished) (x : α) : (pool.submit x).Accounts (submitted ++ [x]) started finished := by
  refine ⟨?_, h.started⟩
  rw [Pool.submit, ← List.append_assoc]
  exact h.submitted.append_right [x]

theorem start {rest : List α} (h : pool.Accounts submitted started finished) (hqueue : pool.queue = x :: rest) (hworker : worker ∉ pool.jobs) :
    ({ pool with queue := rest }.start worker x).Accounts submitted (started ++ [x]) finished := by
  constructor
  · rw [List.append_assoc, List.singleton_append]
    exact hqueue ▸ h.submitted
  · have hrunning : ({ pool with queue := rest }.start worker x).running = x :: pool.running := running_start hworker x
    rw [hrunning]
    exact (List.perm_middle.trans (h.started.cons x)).trans (List.perm_append_singleton x started).symm

theorem finish (h : pool.Accounts submitted started finished) (hlookup : pool.jobs.lookup worker = some x) :
    (pool.finish worker).Accounts submitted started (finished ++ [x]) := by
  refine ⟨h.submitted, ?_⟩
  rw [List.append_assoc, List.singleton_append]
  exact ((perm_running_finish hlookup).symm.append_left finished).trans h.started

omit [DecidableEq κ] in
theorem length_le (h : pool.Accounts submitted started finished) : pool.size + pool.queue.length ≤ submitted.length := by
  have hsubmitted := h.submitted.length_eq
  have hstarted := h.started.length_eq
  rw [List.length_append] at hsubmitted hstarted
  rw [running, List.length_map] at hstarted
  rw [size]
  omega

omit [DecidableEq κ] in
/-- A drained pool has started and finished all that was submitted. -/
theorem drained (h : pool.Accounts submitted started finished) (hqueue : pool.queue = []) (hjobs : pool.jobs = ∅) :
    started.Perm submitted ∧ finished.Perm submitted := by
  have hsubmitted := h.submitted
  have hstarted := h.started
  rw [hqueue, List.append_nil] at hsubmitted
  rw [running, hjobs, AList.empty_entries, List.map_nil, List.append_nil] at hstarted
  exact ⟨hsubmitted, hstarted.trans hsubmitted⟩

end Accounts

/-! ### Busy pools -/

/-- No more than `slots` jobs run, and exactly as many where something waits. -/
structure Busy (slots : Nat) (pool : Pool κ α) : Prop where
  le : pool.size ≤ slots
  full : pool.queue ≠ [] → pool.size = slots

omit [DecidableEq κ] in
/-- A busy pool without jobs has nothing waiting. -/
theorem Busy.queue_eq_nil {slots : Nat} (h : pool.Busy slots) (hslots : 1 ≤ slots) (hjobs : pool.jobs = ∅) : pool.queue = [] := by
  by_contra hqueue
  have hfull := h.full hqueue
  rw [size_eq_zero.mpr hjobs] at hfull
  omega

end Pool

end Foundation
