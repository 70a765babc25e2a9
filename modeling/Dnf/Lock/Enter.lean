import Dnf.Foundation.PyInt
import Dnf.Foundation.Effect

/-!
# `ProcessLock.__enter__` that raises

One call of `__enter__`, with everything that can go wrong in it. What the object finds in the file system changes from one `_try_lock` to the next, so the environment is a list of attempts, and a call whose attempts are used up is still waiting. `_lock_thread` has counted the call before the first attempt: the exit for a lock that another process holds takes this back, and an exception out of `_try_lock` does not.
-/

namespace Dnf.ProcessLock

open Foundation Effect

/-! ### The thread lock -/

abbrev Thread := Nat

/-- `threading.RLock`: it has an owner as long as it is held. -/
structure RLock where
  owner : Option Thread
  depth : Nat
  held_iff : owner = none ↔ depth = 0

def RLock.Free (lock : RLock) (thread : Thread) : Prop := lock.owner = none ∨ lock.owner = some thread

instance (lock : RLock) (thread : Thread) : Decidable (lock.Free thread) := inferInstanceAs (Decidable (_ ∨ _))

def RLock.acquired (lock : RLock) (thread : Thread) : RLock := ⟨some thread, lock.depth + 1, by simp⟩

def RLock.released (lock : RLock) : RLock :=
  if h : lock.depth ≤ 1 then ⟨none, 0, by simp⟩ else ⟨lock.owner, lock.depth - 1, lock.held_iff.trans (by omega)⟩

theorem RLock.released_depth (lock : RLock) : lock.released.depth = lock.depth - 1 := by
  rw [RLock.released]
  by_cases h : lock.depth ≤ 1
  · rw [dif_pos h]
    exact (Nat.sub_eq_zero_of_le h).symm
  · rw [dif_neg h]

/-! ### The object and one attempt -/

/-- A `ProcessLock`, and what its calls have logged. -/
structure Object where
  blocking : Bool
  count : Int
  description : String
  target : String
  threadLock : RLock
  log : List String

inductive Raised
  | osError
  | runtimeError
  | threadLockError (msg : String)
  | lockError (msg : String)
  | processLockError (msg : String) (pid : Int)
  deriving DecidableEq

inductive Flock
  | taken
  | wouldBlock
  | failed
  deriving DecidableEq

/-- How the system calls of one `_try_lock` go: which of them raise `OSError`, what `os.read` returns, and which pids have a `/proc/%d/stat`. -/
structure Attempt where
  openFails : Bool
  flock : Flock
  read : Option (List Char)
  procExists : Int → Bool
  lseekFails : Bool
  ftruncateFails : Bool
  writeFails : Bool
  closeFails : Bool

def malformed (target : String) : String :=
  "Malformed lock file found: " ++ target ++
    ".\nEnsure no other dnf/yum process is running and remove the lock file manually or run systemd-tmpfiles --remove dnf.conf."

/-- The body of the `try` whose `finally` closes the file. -/
def Attempt.tryBody (a : Attempt) (target : String) (pid : Nat) : Except Raised Int :=
  match a.flock with
  | .failed => .error .osError
  | .wouldBlock => .ok (-1)
  | .taken =>
      match a.read with
      | none => .error .osError
      | some text =>
          if text.take 20 = [] then if a.writeFails then .error .osError else .ok pid
          else
            match pyInt (text.take 20) with
            | none => .error (.lockError (malformed target))
            | some oldPid =>
                if oldPid = pid then .ok pid
                else if a.procExists oldPid then .ok oldPid
                else if a.lseekFails || a.ftruncateFails || a.writeFails then .error .osError
                else .ok pid

def Attempt.tryLock (a : Attempt) (target : String) (pid : Nat) : Except Raised Int :=
  if a.openFails then .error .osError else if a.closeFails then .error .osError else a.tryBody target pid

/-! ### The call -/

def lockThread (thread : Thread) : EStateM Raised Object Unit := do
  let self ← get
  if self.threadLock.Free thread then set { self with threadLock := self.threadLock.acquired thread, count := self.count + 1 }
  else throw (.threadLockError (self.description ++ " already locked by a different thread"))

def unlockThread (thread : Thread) : EStateM Raised Object Unit := do
  modify fun self => { self with count := self.count - 1 }
  let self ← get
  if self.threadLock.owner = some thread then set { self with threadLock := self.threadLock.released } else throw .runtimeError

def waiting (pid : Int) : String := "Waiting for process with pid " ++ toString pid ++ " to finish."

/-- `_try_lock` and the loop around it; `none` is a call that is still waiting. -/
def waitLoop (thread : Thread) (myPid : Nat) (prevPid : Int) : List Attempt → EStateM Raised Object (Option Unit)
  | [] => pure none
  | a :: attempts => do
      let self ← get
      let pid ← lift (a.tryLock self.target myPid)
      if pid = myPid then pure (some ())
      else if pid = -1 then waitLoop thread myPid prevPid attempts
      else if self.blocking then do
        if prevPid = pid then pure () else modify fun self => { self with log := self.log ++ [waiting pid] }
        waitLoop thread myPid pid attempts
      else do
        unlockThread thread
        throw (.processLockError (self.description ++ " already locked by " ++ toString pid) pid)

def enter (thread : Thread) (myPid : Nat) (ensureDirFails : Bool) (attempts : List Attempt) : EStateM Raised Object (Option Unit) := do
  if ensureDirFails then throw .osError
  lockThread thread
  waitLoop thread myPid (-1) attempts

/-- `__exit__`, and whether it removes the lock file. -/
def exit (thread : Thread) (unlinkFails : Bool) : EStateM Raised Object Bool := do
  let self ← get
  if self.count = 1 ∧ unlinkFails then throw .osError
  unlockThread thread
  pure (self.count = 1)

/-! ### Attempts that end the wait -/

/-- The file has to be written, because it is empty or its owner is dead, and this goes wrong. -/
def Attempt.TakingFails (a : Attempt) (text : List Char) (myPid : Nat) : Prop :=
  (text.take 20 = [] ∧ a.writeFails = true) ∨
    ∃ oldPid, text.take 20 ≠ [] ∧ pyInt (text.take 20) = some oldPid ∧ oldPid ≠ myPid ∧ a.procExists oldPid = false ∧
      (a.lseekFails || a.ftruncateFails || a.writeFails) = true

/-- A system call raises, or the file holds something that is no number. -/
def Attempt.Fails (a : Attempt) (myPid : Nat) : Prop :=
  a.openFails = true ∨ a.closeFails = true ∨ a.flock = .failed ∨
    a.flock = .taken ∧ (a.read = none ∨
      ∃ text, a.read = some text ∧ ((text.take 20 ≠ [] ∧ pyInt (text.take 20) = none) ∨ a.TakingFails text myPid))

/-- The file is locked, or a live process is on record and the object waits for it. -/
def Attempt.Waits (a : Attempt) (blocking : Bool) (myPid : Nat) : Prop :=
  a.openFails = false ∧ a.closeFails = false ∧ (a.flock = .wouldBlock ∨
    a.flock = .taken ∧ ∃ text oldPid, a.read = some text ∧ text.take 20 ≠ [] ∧ pyInt (text.take 20) = some oldPid ∧
      oldPid ≠ myPid ∧ a.procExists oldPid = true ∧ (blocking = true ∨ oldPid = -1))

/-- After any number of retries an attempt fails. -/
def FailsWaiting (blocking : Bool) (myPid : Nat) (attempts : List Attempt) : Prop :=
  ∃ before a after, attempts = before ++ a :: after ∧ (∀ b ∈ before, b.Waits blocking myPid) ∧ a.Fails myPid

theorem failsWaiting_cons_iff {blocking : Bool} {myPid : Nat} {a : Attempt} {attempts : List Attempt} :
    FailsWaiting blocking myPid (a :: attempts) ↔ a.Fails myPid ∨ a.Waits blocking myPid ∧ FailsWaiting blocking myPid attempts := by
  constructor
  · rintro ⟨before, b, after, heq, hwaits, hfails⟩
    cases before with
    | nil =>
        obtain ⟨rfl, rfl⟩ := List.cons.inj heq
        exact Or.inl hfails
    | cons c before =>
        obtain ⟨rfl, rfl⟩ := List.cons.inj heq
        rw [List.forall_mem_cons] at hwaits
        exact Or.inr ⟨hwaits.1, before, b, after, rfl, hwaits.2, hfails⟩
  · rintro (hfails | ⟨hwaits, before, b, after, rfl, hbefore, hfails⟩)
    · exact ⟨[], a, attempts, rfl, fun b hb => absurd hb List.not_mem_nil, hfails⟩
    · exact ⟨a :: before, b, after, rfl, List.forall_mem_cons.mpr ⟨hwaits, hbefore⟩, hfails⟩

/-! ### What one attempt gives -/

theorem Attempt.tryBody_error_iff {a : Attempt} {target : String} {myPid : Nat} :
    (∃ e, a.tryBody target myPid = .error e) ↔ a.flock = .failed ∨ a.flock = .taken ∧ (a.read = none ∨
      ∃ text, a.read = some text ∧ ((text.take 20 ≠ [] ∧ pyInt (text.take 20) = none) ∨ a.TakingFails text myPid)) := by
  rw [Attempt.tryBody]
  cases hflock : a.flock with
  | failed => simp
  | wouldBlock => simp
  | taken =>
      cases hread : a.read with
      | none => simp
      | some text =>
          simp only [Attempt.TakingFails, reduceCtorEq, true_and, false_or, Option.some.injEq, exists_eq_left']
          by_cases hempty : text.take 20 = []
          · cases hwrite : a.writeFails <;> simp [hempty]
          · cases hint : pyInt (text.take 20) with
            | none => simp [hempty]
            | some oldPid =>
                by_cases hpid : oldPid = myPid
                · simp [hempty, hpid]
                · cases hexists : a.procExists oldPid
                  · cases hwrites : a.lseekFails || a.ftruncateFails || a.writeFails <;> simp [hempty, hpid, hexists]
                  · simp [hempty, hpid, hexists]

theorem Attempt.tryLock_error_iff (target : String) {a : Attempt} {myPid : Nat} :
    (∃ e, a.tryLock target myPid = .error e) ↔ a.Fails myPid := by
  rw [Attempt.tryLock, Attempt.Fails, ← @Attempt.tryBody_error_iff a target myPid]
  cases a.openFails <;> cases a.closeFails <;> simp

/-- Other results than the own pid come from a locked file or a live process. -/
theorem Attempt.tryBody_other_iff {a : Attempt} {target : String} {myPid : Nat} {pid : Int} (hpid : pid ≠ myPid) :
    a.tryBody target myPid = .ok pid ↔ a.flock = .wouldBlock ∧ pid = -1 ∨
      a.flock = .taken ∧ ∃ text, a.read = some text ∧ text.take 20 ≠ [] ∧ pyInt (text.take 20) = some pid ∧ a.procExists pid = true := by
  rw [Attempt.tryBody]
  cases hflock : a.flock with
  | failed => simp
  | wouldBlock => simpa using eq_comm
  | taken =>
      cases hread : a.read with
      | none => simp
      | some text =>
          simp only [reduceCtorEq, false_and, false_or, true_and, Option.some.injEq, exists_eq_left']
          by_cases hempty : text.take 20 = []
          · cases hwrite : a.writeFails <;> simp [hempty, hpid.symm]
          · cases hint : pyInt (text.take 20) with
            | none => simp [hempty]
            | some oldPid =>
                by_cases hold : oldPid = pid
                · subst hold
                  cases hexists : a.procExists oldPid
                  · cases hwrites : a.lseekFails || a.ftruncateFails || a.writeFails <;> simp [hempty, hpid, hpid.symm, hexists]
                  · simp [hempty, hpid, hexists]
                · by_cases hme : oldPid = myPid
                  · subst hme
                    simp [hempty, hpid.symm]
                  · cases hexists : a.procExists oldPid
                    · cases hwrites : a.lseekFails || a.ftruncateFails || a.writeFails <;> simp [hempty, hme, hpid.symm, hexists, hold]
                    · simp [hempty, hme, hexists, hold]

theorem Attempt.waits_iff (target : String) {a : Attempt} {blocking : Bool} {myPid : Nat} :
    a.Waits blocking myPid ↔ ∃ pid, a.tryLock target myPid = .ok pid ∧ pid ≠ myPid ∧ (blocking = true ∨ pid = -1) := by
  have hminus : (-1 : Int) ≠ myPid := by omega
  rw [Attempt.Waits, Attempt.tryLock]
  cases a.openFails <;> cases a.closeFails <;>
    simp only [Bool.false_eq_true, if_false, if_true, reduceCtorEq, false_and, exists_false, true_and]
  constructor
  · rintro (hblock | ⟨htaken, text, oldPid, hread, hne, hint, hpid, hexists, hwait⟩)
    · exact ⟨-1, (Attempt.tryBody_other_iff hminus).mpr (Or.inl ⟨hblock, rfl⟩), hminus, Or.inr rfl⟩
    · exact ⟨oldPid, (Attempt.tryBody_other_iff hpid).mpr (Or.inr ⟨htaken, text, hread, hne, hint, hexists⟩), hpid, hwait⟩
  · rintro ⟨pid, hresult, hpid, hwait⟩
    rcases (Attempt.tryBody_other_iff hpid).mp hresult with ⟨hblock, _⟩ | ⟨htaken, text, hread, hne, hint, hexists⟩
    · exact Or.inl hblock
    · exact Or.inr ⟨htaken, text, pid, hread, hne, hint, hpid, hexists, hwait⟩

/-! ### The loop -/

/-- The fields that count calls. -/
def Object.SameCounts (self after : Object) : Prop := after.count = self.count ∧ after.threadLock = self.threadLock

theorem waitLoop_cons (thread : Thread) (myPid : Nat) (prevPid : Int) (a : Attempt) (attempts : List Attempt) (self : Object) :
    waitLoop thread myPid prevPid (a :: attempts) self =
      (do
        let pid ← lift (a.tryLock self.target myPid)
        if pid = myPid then pure (some ())
        else if pid = -1 then waitLoop thread myPid prevPid attempts
        else if self.blocking then do
          if prevPid = pid then pure () else modify fun self => { self with log := self.log ++ [waiting pid] }
          waitLoop thread myPid pid attempts
        else do
          unlockThread thread
          throw (.processLockError (self.description ++ " already locked by " ++ toString pid) pid) : EStateM Raised Object (Option Unit)) self := rfl

theorem waitLoop_error {thread : Thread} {myPid : Nat} {prevPid : Int} {a : Attempt} {attempts : List Attempt} {self : Object} {e : Raised}
    (hresult : a.tryLock self.target myPid = .error e) : waitLoop thread myPid prevPid (a :: attempts) self = .error e self := by
  rw [waitLoop_cons, hresult]
  rfl

theorem waitLoop_own {thread : Thread} {myPid : Nat} {prevPid : Int} {a : Attempt} {attempts : List Attempt} {self : Object}
    (hresult : a.tryLock self.target myPid = .ok myPid) : waitLoop thread myPid prevPid (a :: attempts) self = .ok (some ()) self := by
  rw [waitLoop_cons, hresult, lift_ok_bind, if_pos rfl]
  rfl

/-- While it waits, the call changes nothing but the log. -/
theorem waitLoop_wait (thread : Thread) {myPid : Nat} (prevPid : Int) {a : Attempt} (attempts : List Attempt) {self : Object}
    (hwaits : a.Waits self.blocking myPid) : ∃ prevPid' log,
      waitLoop thread myPid prevPid (a :: attempts) self = waitLoop thread myPid prevPid' attempts { self with log := log } := by
  obtain ⟨pid, hresult, hpid, hwait⟩ := (Attempt.waits_iff self.target).mp hwaits
  rw [waitLoop_cons, hresult, lift_ok_bind, if_neg hpid]
  by_cases hlocked : pid = -1
  · rw [if_pos hlocked]
    exact ⟨prevPid, self.log, rfl⟩
  · rw [if_neg hlocked, if_pos (hwait.resolve_right hlocked)]
    by_cases hprev : prevPid = pid
    · rw [if_pos hprev]
      exact ⟨pid, self.log, rfl⟩
    · rw [if_neg hprev]
      exact ⟨pid, self.log ++ [waiting pid], rfl⟩

theorem unlockThread_apply {thread : Thread} {self : Object} (howner : self.threadLock.owner = some thread) :
    unlockThread thread self = .ok () { self with count := self.count - 1, threadLock := self.threadLock.released } := by
  rw [unlockThread, bind_apply, modify_apply]
  dsimp only
  rw [bind_apply, get_apply]
  dsimp only
  rw [if_pos howner]
  rfl

/-- A live process has the lock and the object does not wait: this exit takes the call back. -/
theorem waitLoop_locked {thread : Thread} {myPid : Nat} {prevPid pid : Int} {a : Attempt} {attempts : List Attempt} {self : Object}
    (howner : self.threadLock.owner = some thread) (hresult : a.tryLock self.target myPid = .ok pid) (hpid : pid ≠ myPid)
    (hwaits : ¬a.Waits self.blocking myPid) :
    waitLoop thread myPid prevPid (a :: attempts) self =
      .error (.processLockError (self.description ++ " already locked by " ++ toString pid) pid)
        { self with count := self.count - 1, threadLock := self.threadLock.released } := by
  have hnotWaiting : ¬(self.blocking = true ∨ pid = -1) :=
    fun hwait => hwaits ((Attempt.waits_iff self.target).mpr ⟨pid, hresult, hpid, hwait⟩)
  rw [not_or, Bool.not_eq_true] at hnotWaiting
  rw [waitLoop_cons, hresult, lift_ok_bind, if_neg hpid, if_neg hnotWaiting.2, if_neg (by simp [hnotWaiting.1]), bind_apply,
    unlockThread_apply howner]
  rfl

/-- An attempt that fails takes the call's count and depth with it. -/
theorem waitLoop_of_failsWaiting (thread : Thread) {myPid : Nat} (prevPid : Int) {attempts : List Attempt} {self : Object}
    (hfails : FailsWaiting self.blocking myPid attempts) :
    ∃ e after, waitLoop thread myPid prevPid attempts self = .error e after ∧ self.SameCounts after := by
  induction attempts generalizing prevPid self with
  | nil =>
      obtain ⟨before, a, after, heq, _⟩ := hfails
      exact absurd heq.symm (by simp)
  | cons a attempts ih =>
      rcases failsWaiting_cons_iff.mp hfails with hfails | ⟨hwaits, hrest⟩
      · obtain ⟨e, hresult⟩ := (Attempt.tryLock_error_iff self.target).mpr hfails
        exact ⟨e, self, waitLoop_error hresult, rfl, rfl⟩
      · obtain ⟨prevPid', log, hloop⟩ := waitLoop_wait thread prevPid attempts hwaits
        rw [hloop]
        exact @ih prevPid' { self with log := log } hrest

/-- Without one, only the lock of another process raises, and this takes them back. -/
theorem waitLoop_of_not_failsWaiting {thread : Thread} {myPid : Nat} {attempts : List Attempt} {prevPid : Int} {self after : Object} {e : Raised}
    (hfails : ¬FailsWaiting self.blocking myPid attempts) (howner : self.threadLock.owner = some thread)
    (hrun : waitLoop thread myPid prevPid attempts self = .error e after) :
    after.count = self.count - 1 ∧ after.threadLock = self.threadLock.released := by
  induction attempts generalizing prevPid self with
  | nil => exact absurd hrun (by simp [waitLoop, pure_apply])
  | cons a attempts ih =>
      rw [failsWaiting_cons_iff, not_or] at hfails
      obtain ⟨hthis, hrest⟩ := hfails
      by_cases hwaits : a.Waits self.blocking myPid
      · obtain ⟨prevPid', log, hloop⟩ := waitLoop_wait thread prevPid attempts hwaits
        rw [hloop] at hrun
        exact @ih prevPid' { self with log := log } (fun h => hrest ⟨hwaits, h⟩) howner hrun
      · cases hresult : a.tryLock self.target myPid with
        | error e => exact absurd ((Attempt.tryLock_error_iff self.target).mp ⟨e, hresult⟩) hthis
        | ok pid =>
            by_cases hpid : pid = myPid
            · rw [hpid] at hresult
              rw [waitLoop_own hresult] at hrun
              exact absurd hrun (by simp)
            · rw [waitLoop_locked howner hresult hpid hwaits] at hrun
              cases hrun
              exact ⟨rfl, rfl⟩

/-! ### The call as a whole -/

/-- An exception leaves the count and the recursion depth of the thread lock as they were. -/
def AtomicOnError (thread : Thread) (myPid : Nat) (ensureDirFails : Bool) (attempts : List Attempt) (self : Object) : Prop :=
  ∀ e after, enter thread myPid ensureDirFails attempts self = .error e after →
    after.count = self.count ∧ after.threadLock.depth = self.threadLock.depth

/-- The object when `_lock_thread` has counted the call. -/
def Object.locked (self : Object) (thread : Thread) : Object :=
  { self with threadLock := self.threadLock.acquired thread, count := self.count + 1 }

theorem enter_of_ensureDirFails (thread : Thread) (myPid : Nat) (attempts : List Attempt) (self : Object) :
    enter thread myPid true attempts self = .error .osError self := rfl

theorem enter_of_not_free {thread : Thread} (myPid : Nat) (attempts : List Attempt) {self : Object} (hfree : ¬self.threadLock.Free thread) :
    enter thread myPid false attempts self =
      .error (.threadLockError (self.description ++ " already locked by a different thread")) self := by
  show (lockThread thread >>= fun _ => waitLoop thread myPid (-1) attempts) self = _
  rw [bind_apply, lockThread, bind_apply, get_apply]
  dsimp only
  rw [if_neg hfree]
  rfl

theorem enter_of_free {thread : Thread} (myPid : Nat) (attempts : List Attempt) {self : Object} (hfree : self.threadLock.Free thread) :
    enter thread myPid false attempts self = waitLoop thread myPid (-1) attempts (self.locked thread) := by
  show (lockThread thread >>= fun _ => waitLoop thread myPid (-1) attempts) self = _
  rw [bind_apply, lockThread, bind_apply, get_apply]
  dsimp only
  rw [if_pos hfree]
  rfl

theorem atomicOnError_iff (thread : Thread) (myPid : Nat) (ensureDirFails : Bool) (attempts : List Attempt) (self : Object) :
    AtomicOnError thread myPid ensureDirFails attempts self ↔
      ensureDirFails = true ∨ ¬self.threadLock.Free thread ∨ ¬FailsWaiting self.blocking myPid attempts := by
  cases ensureDirFails with
  | true =>
      refine iff_of_true (fun e after hrun => ?_) (Or.inl rfl)
      rw [enter_of_ensureDirFails] at hrun
      cases hrun
      exact ⟨rfl, rfl⟩
  | false =>
      by_cases hfree : self.threadLock.Free thread
      · have hfails : FailsWaiting (self.locked thread).blocking myPid attempts ↔ FailsWaiting self.blocking myPid attempts := Iff.rfl
        rw [AtomicOnError, enter_of_free myPid attempts hfree, ← hfails]
        constructor
        · refine fun hatomic => Or.inr (Or.inr fun hfails => ?_)
          obtain ⟨e, after, hrun, hcount, _⟩ := waitLoop_of_failsWaiting thread (-1) hfails
          have hsame := (hatomic e after hrun).1
          rw [hcount, Object.locked] at hsame
          dsimp only at hsame
          omega
        · intro hgood e after hrun
          have hfails := (hgood.resolve_left (by decide)).resolve_left (not_not_intro hfree)
          obtain ⟨hcount, hlock⟩ := waitLoop_of_not_failsWaiting hfails rfl hrun
          rw [hcount, hlock, RLock.released_depth]
          refine ⟨?_, rfl⟩
          simp [Object.locked]
      · refine iff_of_true (fun e after hrun => ?_) (Or.inr (Or.inl hfree))
        rw [enter_of_not_free myPid attempts hfree] at hrun
        cases hrun
        exact ⟨rfl, rfl⟩

/-- A free lock whose file holds a text that is no number. -/
def unlocked : Object :=
  { blocking := true, count := 0, description := "RPMDB", target := "rpmdb_lock.pid", threadLock := ⟨none, 0, by simp⟩, log := [] }

def readsText : Attempt :=
  { openFails := false, flock := .taken, read := some ['n', 'o', 'n', 'e'], procExists := fun _ => false, lseekFails := false,
    ftruncateFails := false, writeFails := false, closeFails := false }

theorem enter_keeps_count : ¬AtomicOnError 1 4711 false [readsText] unlocked := by
  intro hatomic
  have hcount := (hatomic (.lockError (malformed "rpmdb_lock.pid")) (unlocked.locked 1) rfl).1
  exact absurd hcount (by decide)

/-! ### What a call that was counted for nothing does later -/

theorem waitLoop_ok {thread : Thread} {myPid : Nat} {attempts : List Attempt} {prevPid : Int} {self after : Object} {result : Option Unit}
    (howner : self.threadLock.owner = some thread) (hrun : waitLoop thread myPid prevPid attempts self = .ok result after) :
    self.SameCounts after := by
  induction attempts generalizing prevPid self with
  | nil =>
      rw [waitLoop, pure_apply] at hrun
      cases hrun
      exact ⟨rfl, rfl⟩
  | cons a attempts ih =>
      by_cases hwaits : a.Waits self.blocking myPid
      · obtain ⟨prevPid', log, hloop⟩ := waitLoop_wait thread prevPid attempts hwaits
        rw [hloop] at hrun
        exact @ih prevPid' { self with log := log } howner hrun
      · cases hresult : a.tryLock self.target myPid with
        | error e =>
            rw [waitLoop_error hresult] at hrun
            exact absurd hrun (by simp)
        | ok pid =>
            by_cases hpid : pid = myPid
            · rw [hpid] at hresult
              rw [waitLoop_own hresult] at hrun
              cases hrun
              exact ⟨rfl, rfl⟩
            · rw [waitLoop_locked howner hresult hpid hwaits] at hrun
              exact absurd hrun (by simp)

theorem exit_apply {thread : Thread} {self : Object} (howner : self.threadLock.owner = some thread) :
    exit thread false self = .ok (self.count = 1) { self with count := self.count - 1, threadLock := self.threadLock.released } := by
  rw [exit, bind_apply, get_apply]
  dsimp only
  rw [if_neg (by simp), bind_apply, unlockThread_apply howner]
  rfl

/-- The pair of an enter and an exit removes the lock file exactly if the count was zero. -/
theorem exit_enter_removes {thread : Thread} {myPid : Nat} {attempts : List Attempt} {self inside : Object} (hfree : self.threadLock.Free thread)
    (henter : enter thread myPid false attempts self = .ok (some ()) inside) :
    ∃ after, exit thread false inside = .ok (self.count = 0) after := by
  rw [enter_of_free myPid attempts hfree] at henter
  obtain ⟨hcount, hlock⟩ := waitLoop_ok rfl henter
  have howner : inside.threadLock.owner = some thread := hlock ▸ rfl
  have hcount : inside.count = self.count + 1 := hcount
  have hremoves : inside.count = 1 ↔ self.count = 0 := by omega
  rw [exit_apply howner, decide_eq_decide.mpr hremoves]
  exact ⟨_, rfl⟩

/-- After the failure the object counts one call too many, and the thread keeps the others out. -/
theorem enter_of_failsWaiting {thread : Thread} {myPid : Nat} {attempts : List Attempt} {self : Object} (hfree : self.threadLock.Free thread)
    (hfails : FailsWaiting self.blocking myPid attempts) :
    ∃ e after, enter thread myPid false attempts self = .error e after ∧ after.count = self.count + 1 ∧
      ∀ other, other ≠ thread → ¬after.threadLock.Free other := by
  rw [enter_of_free myPid attempts hfree]
  obtain ⟨e, after, hrun, hcount, hlock⟩ := @waitLoop_of_failsWaiting thread myPid (-1) attempts (self.locked thread) hfails
  refine ⟨e, after, hrun, hcount, fun other hother => ?_⟩
  rw [hlock, RLock.Free]
  simp [Object.locked, RLock.acquired, hother.symm]

end Dnf.ProcessLock
