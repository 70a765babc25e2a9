import Dnf.Lock.Process

/-!
# What the lock file says

A process inside the section finds the target path naming a file with its own pid in it, so two of them are one. `Coherent` is what must hold of one process and its files for that to stay so: a process that lost the name of its file finds somebody else's pid there, and a process about to write has a file that is the target and has no live owner. The frame lemmas say what the steps of the others leave alone.
-/

namespace Dnf

open Foundation

namespace ProcessLock

/-! ### Reading off the program counter -/

def Pc.fd : Pc → Option Inode
  | .idle | .opening | .returned _ => none
  | .locking fd | .reading fd | .checking fd _ | .truncating fd | .writing fd | .closing fd _ => some fd

/-- The file a process is bound to have locked. -/
def Pc.locked : Pc → Option Inode
  | .reading fd | .checking fd _ | .truncating fd | .writing fd => some fd
  | _ => none

/-- The file a process is about to write its pid into. -/
def Pc.claims : Pc → Option Inode
  | .truncating fd | .writing fd => some fd
  | _ => none

/-- The process has the lock, though `__enter__` may still be on its way back. -/
def Pc.wins (p : Pid) : Pc → Prop
  | .closing _ (some pid) => pid = p.val
  | .returned pid => pid = p.val
  | _ => False

namespace State

@[simp] theorem setProc_proc_self (s : State) (p : Pid) (pr : Proc) : (s.setProc p pr).proc p = pr := by
  simp only [setProc, Function.update_self]

theorem setProc_proc_ne (s : State) {p q : Pid} (h : q ≠ p) (pr : Proc) : (s.setProc p pr).proc q = s.proc q := by
  simp only [setProc, Function.update_of_ne h]

@[simp] theorem setProc_target (s : State) (p : Pid) (pr : Proc) : (s.setProc p pr).target = s.target := rfl

@[simp] theorem setProc_content (s : State) (p : Pid) (pr : Proc) : (s.setProc p pr).content = s.content := rfl

@[simp] theorem setProc_holder (s : State) (p : Pid) (pr : Proc) : (s.setProc p pr).holder = s.holder := rfl

@[simp] theorem setProc_fresh (s : State) (p : Pid) (pr : Proc) : (s.setProc p pr).fresh = s.fresh := rfl

@[simp] theorem setContent_proc (s : State) (fd : Inode) (text : List Char) : (s.setContent fd text).proc = s.proc := rfl

@[simp] theorem setHolder_proc (s : State) (fd : Inode) (owner : Option Pid) : (s.setHolder fd owner).proc = s.proc := rfl

theorem alive_of_setProc {s : State} {p : Pid} (pr : Proc) (h : pr.alive = true → (s.proc p).alive = true) (q : Pid)
    (hq : ((s.setProc p pr).proc q).alive = true) : (s.proc q).alive = true := by
  by_cases hqp : q = p
  · subst q
    rw [setProc_proc_self] at hq
    exact h hq
  · rwa [setProc_proc_ne s hqp] at hq

theorem alive_of_setPc {s : State} {p : Pid} {pc : Pc} (q : Pid) (hq : ((s.setPc p pc).proc q).alive = true) :
    (s.proc q).alive = true := by
  rw [setPc] at hq
  exact alive_of_setProc { s.proc p with pc := pc } (fun h => h) q hq

theorem recorded_congr {s t : State} {fd : Inode} (h : t.content fd = s.content fd) : t.recorded fd = s.recorded fd := by
  rw [recorded, recorded, h]

/-- The pid of a live process exists under `/proc`, and of a dead one does not. -/
theorem procExists_pid (s : State) (p : Pid) : s.procExists p.val = (s.proc p).alive := by
  have hp := p.isLt
  have hrange : 0 ≤ (p.val : Int) ∧ (p.val : Int) < 10 ^ 20 := by omega
  rw [procExists, dif_pos hrange]
  congr 2

/-- The process has the lock or is inside the section. -/
def Owns (s : State) (p : Pid) : Prop :=
  (s.proc p).alive = true ∧ (0 < (s.proc p).depth ∨ (s.proc p).pc.wins p)

end State

/-! ### The invariant

What holds of one process and the files it is concerned with. -/

structure Coherent (s : State) (p : Pid) : Prop where
  bound : ∀ fd, (s.proc p).pc.fd = some fd → fd < s.fresh
  locked : (s.proc p).alive = true → ∀ fd, (s.proc p).pc.locked = some fd → s.holder fd = some p
  owner : s.Owns p → ∃ fd, s.target = some fd ∧ s.recorded fd = some (p.val : Int)
  unlinked : (s.proc p).alive = true → ∀ fd, (s.proc p).pc.fd = some fd → s.target ≠ some fd →
    ∃ q : Pid, q ≠ p ∧ s.recorded fd = some (q.val : Int)
  checked : (s.proc p).alive = true → ∀ fd oldPid, (s.proc p).pc = .checking fd oldPid → s.recorded fd = some oldPid
  claimed : (s.proc p).alive = true → ∀ fd, (s.proc p).pc.claims = some fd →
    s.target = some fd ∧ ∀ q : Pid, (s.proc q).alive = true → s.recorded fd ≠ some (q.val : Int)
  emptied : (s.proc p).alive = true → ∀ fd, (s.proc p).pc = .writing fd → s.content fd = []
  counted : (s.proc p).depth + (if (s.proc p).pc = .idle then 0 else 1) ≤ (s.proc p).count

structure Inv (s : State) : Prop where
  target_lt : ∀ fd, s.target = some fd → fd < s.fresh
  proc : ∀ p, Coherent s p

theorem Pc.fd_of_locked {pc : Pc} {fd : Inode} (h : pc.locked = some fd) : pc.fd = some fd := by
  cases pc <;> simp_all [Pc.locked, Pc.fd]

theorem Pc.locked_of_claims {pc : Pc} {fd : Inode} (h : pc.claims = some fd) : pc.locked = some fd := by
  cases pc <;> simp_all [Pc.locked, Pc.claims]

theorem Pid.eq_of_val_cast {p q : Pid} (h : (some (p.val : Int)) = some (q.val : Int)) : p = q := by
  apply Fin.ext
  exact Int.ofNat.inj (Option.some.inj h)

/-- Two processes that have the lock are one. -/
theorem Inv.owns_unique {s : State} (hinv : Inv s) {p q : Pid} (hp : s.Owns p) (hq : s.Owns q) : p = q := by
  obtain ⟨fd, htarget, hrecorded⟩ := (hinv.proc p).owner hp
  obtain ⟨fd', htarget', hrecorded'⟩ := (hinv.proc q).owner hq
  have hfd : fd = fd' := Option.some.inj (htarget.symm.trans htarget')
  subst fd'
  exact Pid.eq_of_val_cast (hrecorded.symm.trans hrecorded')

theorem inv_of_init {s : State} (h : s.Init) : Inv s := by
  refine ⟨h.target_lt, fun p => ?_⟩
  have hpc := h.pc p
  refine ⟨?_, ?_, ?_, ?_, ?_, ?_, ?_, ?_⟩
  · simp [hpc, Pc.fd]
  · simp [hpc, Pc.locked]
  · simp [State.Owns, hpc, Pc.wins, h.depth p]
  · simp [hpc, Pc.fd]
  · simp [hpc]
  · simp [hpc, Pc.claims]
  · simp [hpc]
  · simp [hpc, h.depth p]

/-! ### What a step leaves alone

A step of one process keeps every other one coherent: the files of the others keep their content, unless the acting process owns the change. -/

/-- The other process keeps its locks and its files, and its target if it owns the lock. -/
theorem Coherent.frame {s t : State} {q : Pid} (h : Coherent s q) (hproc : t.proc q = s.proc q)
    (halive : ∀ r, (t.proc r).alive = true → (s.proc r).alive = true) (htarget : t.target = s.target)
    (hfresh : s.fresh ≤ t.fresh) (hholder : ∀ fd, s.holder fd = some q → t.holder fd = some q)
    (hkeep : ∀ fd, s.holder fd = some q → t.content fd = s.content fd)
    (hunlinked : ∀ fd, s.target ≠ some fd → t.content fd = s.content fd)
    (howned : s.Owns q → ∀ fd, t.content fd = s.content fd) : Coherent t q := by
  refine ⟨?_, ?_, ?_, ?_, ?_, ?_, ?_, ?_⟩
  · intro fd hfd
    rw [hproc] at hfd
    exact lt_of_lt_of_le (h.bound fd hfd) hfresh
  · intro hq fd hfd
    rw [hproc] at hq hfd
    exact hholder fd (h.locked hq fd hfd)
  · intro hq
    have hq' : s.Owns q := by rwa [State.Owns, hproc] at hq
    obtain ⟨fd, hfd, hrecorded⟩ := h.owner hq'
    refine ⟨fd, htarget.trans hfd, ?_⟩
    rw [State.recorded_congr (howned hq' fd), hrecorded]
  · intro hq fd hfd hne
    rw [hproc] at hq hfd
    rw [htarget] at hne
    rw [State.recorded_congr (hunlinked fd hne)]
    exact h.unlinked hq fd hfd hne
  · intro hq fd oldPid hpc
    rw [hproc] at hq hpc
    have hlocked := h.locked hq fd (by rw [hpc]; rfl)
    rw [State.recorded_congr (hkeep fd hlocked)]
    exact h.checked hq fd oldPid hpc
  · intro hq fd hfd
    rw [hproc] at hq hfd
    have hlocked := h.locked hq fd (Pc.locked_of_claims hfd)
    obtain ⟨hnamed, hvacant⟩ := h.claimed hq fd hfd
    refine ⟨htarget.trans hnamed, fun r hr => ?_⟩
    rw [State.recorded_congr (hkeep fd hlocked)]
    exact hvacant r (halive r hr)
  · intro hq fd hpc
    rw [hproc] at hq hpc
    rw [hkeep fd (h.locked hq fd (by rw [hpc]; rfl))]
    exact h.emptied hq fd hpc
  · rw [hproc]
    exact h.counted

theorem Coherent.frame_files {s t : State} {q : Pid} (h : Coherent s q) (hproc : t.proc q = s.proc q)
    (halive : ∀ r, (t.proc r).alive = true → (s.proc r).alive = true) (htarget : t.target = s.target)
    (hfresh : t.fresh = s.fresh) (hcontent : t.content = s.content)
    (hholder : ∀ fd, s.holder fd = some q → t.holder fd = some q) : Coherent t q :=
  h.frame hproc halive htarget hfresh.ge hholder (fun fd _ => congrFun hcontent fd)
    (fun fd _ => congrFun hcontent fd) (fun _ fd => congrFun hcontent fd)

/-- A process with no open file has only its ownership and its counters to answer for. -/
theorem Coherent.of_no_file {s : State} {p : Pid} (hfd : (s.proc p).pc.fd = none)
    (howner : s.Owns p → ∃ fd, s.target = some fd ∧ s.recorded fd = some (p.val : Int))
    (hcounted : (s.proc p).depth + (if (s.proc p).pc = .idle then 0 else 1) ≤ (s.proc p).count) : Coherent s p := by
  have hlocked : (s.proc p).pc.locked = none := by
    cases hpc : (s.proc p).pc <;> simp_all [Pc.fd, Pc.locked]
  have hclaims : (s.proc p).pc.claims = none := by
    cases hpc : (s.proc p).pc <;> simp_all [Pc.fd, Pc.claims]
  refine ⟨?_, ?_, howner, ?_, ?_, ?_, ?_, hcounted⟩
  · simp [hfd]
  · simp [hlocked]
  · simp [hfd]
  · intro _ fd oldPid hpc
    rw [hpc] at hfd
    exact absurd hfd (by simp [Pc.fd])
  · simp [hclaims]
  · intro _ fd hpc
    rw [hpc] at hfd
    exact absurd hfd (by simp [Pc.fd])

/-- A process with one open file answers for that file. -/
theorem Coherent.of_file {s : State} {p : Pid} (pc : Pc) (fd : Inode) (hpc : (s.proc p).pc = pc) (hfd : pc.fd = some fd)
    (hbound : fd < s.fresh) (hlocked : (s.proc p).alive = true → pc.locked = some fd → s.holder fd = some p)
    (howner : s.Owns p → ∃ fd, s.target = some fd ∧ s.recorded fd = some (p.val : Int))
    (hunlinked : (s.proc p).alive = true → s.target ≠ some fd → ∃ q : Pid, q ≠ p ∧ s.recorded fd = some (q.val : Int))
    (hchecked : (s.proc p).alive = true → ∀ oldPid, pc = .checking fd oldPid → s.recorded fd = some oldPid)
    (hclaimed : (s.proc p).alive = true → pc.claims = some fd →
      s.target = some fd ∧ ∀ q : Pid, (s.proc q).alive = true → s.recorded fd ≠ some (q.val : Int))
    (hemptied : (s.proc p).alive = true → pc = .writing fd → s.content fd = [])
    (hcounted : (s.proc p).depth + 1 ≤ (s.proc p).count) : Coherent s p := by
  have honly : ∀ fd', pc.fd = some fd' → fd = fd' := fun fd' hfd' => Option.some.inj (hfd.symm.trans hfd')
  have hbusy : pc ≠ .idle := by
    intro hidle
    rw [hidle] at hfd
    exact absurd hfd (by simp [Pc.fd])
  refine ⟨?_, ?_, howner, ?_, ?_, ?_, ?_, ?_⟩
  · intro fd' hfd'
    rw [hpc] at hfd'
    exact honly fd' hfd' ▸ hbound
  · intro halive fd' hfd'
    rw [hpc] at hfd'
    have heq := honly fd' (Pc.fd_of_locked hfd')
    subst fd'
    exact hlocked halive hfd'
  · intro halive fd' hfd' hne
    rw [hpc] at hfd'
    have heq := honly fd' hfd'
    subst fd'
    exact hunlinked halive hne
  · intro halive fd' oldPid hpc'
    have hpc' : pc = .checking fd' oldPid := hpc.symm.trans hpc'
    have heq := honly fd' (by rw [hpc']; rfl)
    subst fd'
    exact hchecked halive oldPid hpc'
  · intro halive fd' hfd'
    rw [hpc] at hfd'
    have heq := honly fd' (Pc.fd_of_locked (Pc.locked_of_claims hfd'))
    subst fd'
    exact hclaimed halive hfd'
  · intro halive fd' hpc'
    have hpc' : pc = .writing fd' := hpc.symm.trans hpc'
    have heq := honly fd' (by rw [hpc']; rfl)
    subst fd'
    exact hemptied halive hpc'
  · rw [hpc, if_neg hbusy]
    exact hcounted

/-- Counting is the same for every step inside `__enter__`. -/
theorem Coherent.busy {s : State} {p : Pid} (h : Coherent s p) (hbusy : (s.proc p).pc ≠ .idle) :
    (s.proc p).depth + 1 ≤ (s.proc p).count := by
  have hcounted := h.counted
  rwa [if_neg hbusy] at hcounted

/-- A process that did not get the lock in a step owns what it owned before. -/
theorem Coherent.owner_of_not_wins {s t : State} {p : Pid} (h : Coherent s p) (halive : (t.proc p).alive = (s.proc p).alive)
    (hdepth : (t.proc p).depth = (s.proc p).depth) (hwins : ¬ (t.proc p).pc.wins p) (hown : t.Owns p) :
    ∃ fd, s.target = some fd ∧ s.recorded fd = some (p.val : Int) := by
  obtain ⟨halive', hhas⟩ := hown
  refine h.owner ⟨halive.symm.trans halive', Or.inl ?_⟩
  rw [← hdepth]
  exact hhas.resolve_right hwins

end ProcessLock

end Dnf
