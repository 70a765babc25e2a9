import Dnf.Lock.Exclusion

/-!
# A crash leaves no lock behind

What a process finds when it enters while nobody else uses the lock file, after any run at all: processes that died anywhere in `__enter__`, system calls that failed, and the take-over of an unlinked file included. `Tidy` is weaker than the invariant of mutual exclusion and no step breaks it. It says that a file locked is a file some live process has open, and that no file ever holds anything but the pid of a process. So the file can neither stay locked nor become malformed, and only a live process on record keeps another one out.
-/

namespace Dnf

open Foundation

namespace ProcessLock

/-- What may be in a lock file: nothing, or what `str(pid)` wrote. -/
def Legible (text : List Char) : Prop := text = [] ∨ ∃ q : Pid, text = decimal q.val

structure Tidy (s : State) : Prop where
  target_lt : ∀ fd, s.target = some fd → fd < s.fresh
  bound : ∀ p fd, (s.proc p).pc.fd = some fd → fd < s.fresh
  held : ∀ fd q, s.holder fd = some q → (s.proc q).alive = true ∧ (s.proc q).pc.fd = some fd
  locked : ∀ p, (s.proc p).alive = true → ∀ fd, (s.proc p).pc.locked = some fd → s.holder fd = some p
  emptied : ∀ p, (s.proc p).alive = true → ∀ fd, (s.proc p).pc = .writing fd → s.content fd = []
  legible : ∀ fd, Legible (s.content fd)

theorem tidy_of_init {s : State} (h : s.Init) (hlegible : ∀ fd, Legible (s.content fd)) : Tidy s := by
  refine ⟨h.target_lt, fun p fd hfd => ?_, fun fd q hheld => ?_, fun p _ fd hfd => ?_, fun p _ fd hpc => ?_, hlegible⟩
  · rw [h.pc p] at hfd
    exact absurd hfd (by simp [Pc.fd])
  · rw [h.holder fd] at hheld
    exact absurd hheld (by simp)
  · rw [h.pc p] at hfd
    exact absurd hfd (by simp [Pc.locked])
  · rw [h.pc p] at hpc
    exact absurd hpc (by simp)

/-! ### One step -/

/-- What a step of `p` has to show: the other processes answer for the files they hold, and these it leaves alone. -/
theorem Tidy.of_step {s t : State} {p : Pid} (h : Tidy s) (hproc : ∀ q, q ≠ p → t.proc q = s.proc q) (hfresh : s.fresh ≤ t.fresh)
    (htarget : ∀ fd, t.target = some fd → fd < t.fresh) (hbound : ∀ fd, (t.proc p).pc.fd = some fd → fd < t.fresh)
    (hheld : ∀ fd, t.holder fd = some p → (t.proc p).alive = true ∧ (t.proc p).pc.fd = some fd)
    (hlocked : (t.proc p).alive = true → ∀ fd, (t.proc p).pc.locked = some fd → t.holder fd = some p)
    (hemptied : (t.proc p).alive = true → ∀ fd, (t.proc p).pc = .writing fd → t.content fd = [])
    (hlegible : ∀ fd, Legible (t.content fd)) (hothers : ∀ fd q, q ≠ p → (t.holder fd = some q ↔ s.holder fd = some q))
    (hkeep : ∀ fd q, q ≠ p → s.holder fd = some q → t.content fd = s.content fd) : Tidy t := by
  refine ⟨htarget, fun q fd hfd => ?_, fun fd q hq => ?_, fun q halive fd hfd => ?_, fun q halive fd hpc => ?_, hlegible⟩
  · by_cases hq : q = p
    · subst q
      exact hbound fd hfd
    · rw [hproc q hq] at hfd
      exact lt_of_lt_of_le (h.bound q fd hfd) hfresh
  · by_cases hqp : q = p
    · subst q
      exact hheld fd hq
    · rw [hproc q hqp]
      exact h.held fd q ((hothers fd q hqp).mp hq)
  · by_cases hq : q = p
    · subst q
      exact hlocked halive fd hfd
    · rw [hproc q hq] at halive hfd
      exact (hothers fd q hq).mpr (h.locked q halive fd hfd)
  · by_cases hq : q = p
    · subst q
      exact hemptied halive fd hpc
    · rw [hproc q hq] at halive hpc
      rw [hkeep fd q hq (h.locked q halive fd (by rw [hpc]; rfl))]
      exact h.emptied q halive fd hpc

/-- A step that only moves the process on keeps its file open, or has none before and after. -/
theorem Tidy.setProc {s : State} (h : Tidy s) {p : Pid} {pr : Proc} (halive : pr.alive = (s.proc p).alive)
    (hfd : pr.pc.fd = (s.proc p).pc.fd) (hlocked : ∀ fd, pr.pc.locked = some fd → (s.proc p).pc.locked = some fd)
    (hemptied : pr.alive = true → ∀ fd, pr.pc = .writing fd → s.content fd = []) : Tidy (s.setProc p pr) := by
  refine h.of_step (fun q hq => State.setProc_proc_ne s hq pr) le_rfl h.target_lt ?_ ?_ ?_ ?_ h.legible (fun _ _ _ => Iff.rfl) fun _ _ _ _ => rfl
  · intro fd hpr
    rw [State.setProc_proc_self, hfd] at hpr
    exact h.bound p fd hpr
  · intro fd hheld
    rw [State.setProc_proc_self, halive, hfd]
    exact h.held fd p hheld
  · intro hpr fd hlock
    rw [State.setProc_proc_self] at hpr hlock
    exact h.locked p (halive ▸ hpr) fd (hlocked fd hlock)
  · intro hpr fd hpc
    rw [State.setProc_proc_self] at hpr hpc
    exact hemptied hpr fd hpc

theorem Tidy.setPc {s : State} (h : Tidy s) {p : Pid} {pc : Pc} (hfd : pc.fd = (s.proc p).pc.fd)
    (hlocked : ∀ fd, pc.locked = some fd → (s.proc p).pc.locked = some fd)
    (hemptied : ∀ fd, pc = .writing fd → s.content fd = []) : Tidy (s.setPc p pc) :=
  h.setProc rfl hfd hlocked fun _ => hemptied

/-- A step that leaves the process without a file and without locks. -/
theorem Tidy.leave {s t : State} {p : Pid} (h : Tidy s) (hproc : ∀ q, q ≠ p → t.proc q = s.proc q) (hfresh : t.fresh = s.fresh)
    (htarget : t.target = s.target ∨ t.target = none) (hcontent : t.content = s.content)
    (hfd : (t.proc p).pc.fd = none ∨ (t.proc p).alive = false ∧ (t.proc p).pc.fd = (s.proc p).pc.fd) (hmine : ∀ fd, t.holder fd ≠ some p)
    (hothers : ∀ fd q, q ≠ p → (t.holder fd = some q ↔ s.holder fd = some q)) : Tidy t := by
  have hnone : (t.proc p).alive = true → (t.proc p).pc.fd = none := by
    intro halive
    refine hfd.resolve_right fun hdead => ?_
    rw [halive] at hdead
    exact absurd hdead.1 (by decide)
  refine h.of_step hproc hfresh.ge ?_ ?_ (fun fd hheld => absurd hheld (hmine fd)) ?_ ?_ ?_ hothers (fun fd _ _ _ => congrFun hcontent fd)
  · intro fd hnamed
    rcases htarget with heq | heq
    · exact hfresh ▸ h.target_lt fd (heq ▸ hnamed)
    · rw [heq] at hnamed
      exact absurd hnamed (by simp)
  · intro fd hopen
    rcases hfd with heq | ⟨_, heq⟩
    · rw [heq] at hopen
      exact absurd hopen (by simp)
    · exact hfresh ▸ h.bound p fd (heq ▸ hopen)
  · intro halive fd hlock
    have hopen := (hnone halive).symm.trans (Pc.fd_of_locked hlock)
    exact absurd hopen (by simp)
  · intro halive fd hpc
    have hopen := hnone halive
    rw [hpc] at hopen
    exact absurd hopen (by simp [Pc.fd])
  · intro fd
    rw [hcontent]
    exact h.legible fd

theorem Tidy.not_held {s : State} (h : Tidy s) {p : Pid} (hfd : (s.proc p).pc.fd = none) (fd : Inode) : s.holder fd ≠ some p := by
  intro hheld
  have hopen := (h.held fd p hheld).2
  rw [hfd] at hopen
  exact absurd hopen (by simp)

theorem tidy_openTarget {s : State} (h : Tidy s) {p : Pid} (hpc : (s.proc p).pc = .opening) : Tidy (s.openTarget p) := by
  have hnone := h.not_held (p := p) (by rw [hpc]; rfl)
  rw [State.openTarget]
  cases htarget : s.target with
  | some fd =>
      refine h.of_step (fun q hq => State.setProc_proc_ne s hq _) le_rfl h.target_lt ?_ (fun fd' hheld => absurd hheld (hnone fd')) ?_ ?_ h.legible
        (fun _ _ _ => Iff.rfl) fun _ _ _ _ => rfl
      · intro fd' hfd'
        have heq : fd = fd' := by simpa [State.setPc, Pc.fd] using hfd'
        exact heq ▸ h.target_lt fd htarget
      · simp [State.setPc, Pc.locked]
      · simp [State.setPc]
  | none =>
      refine h.of_step (fun q hq => State.setProc_proc_ne _ hq _) (Nat.le_succ _) ?_ ?_ (fun fd' hheld => absurd hheld (hnone fd')) ?_ ?_ ?_
        (fun _ _ _ => Iff.rfl) ?_
      · intro fd hfd
        have heq : s.fresh = fd := by simpa using hfd
        exact heq ▸ Nat.lt_succ_self _
      · intro fd hfd
        have heq : s.fresh = fd := by simpa [State.setPc, Pc.fd] using hfd
        exact heq ▸ Nat.lt_succ_self _
      · simp [State.setPc, Pc.locked]
      · simp [State.setPc]
      · intro fd
        by_cases hfd : fd = s.fresh
        · subst hfd
          exact .inl (Function.update_self ..)
        · show Legible (Function.update s.content s.fresh [] fd)
          rw [Function.update_of_ne hfd]
          exact h.legible fd
      · intro fd q hq hheld
        have hlt := h.bound q fd (h.held fd q hheld).2
        exact Function.update_of_ne (Nat.ne_of_lt hlt) _ _

theorem tidy_flock {s : State} (h : Tidy s) {p : Pid} {fd : Inode} (halive : (s.proc p).alive = true) (hpc : (s.proc p).pc = .locking fd) :
    Tidy (s.flock p fd) := by
  have hfd : (s.proc p).pc.fd = some fd := by rw [hpc]; rfl
  rw [State.flock]
  cases hholder : s.holder fd with
  | some q => exact h.setPc (by rw [hpc]; rfl) (fun _ hlock => absurd hlock (by simp [Pc.locked])) fun _ hwriting => absurd hwriting (by simp)
  | none =>
      have hother : ∀ fd' q, q ≠ p → (Function.update s.holder fd (some p) fd' = some q ↔ s.holder fd' = some q) := by
        intro fd' q hq
        by_cases heq : fd' = fd
        · subst heq
          rw [Function.update_self, hholder, Option.some.injEq]
          exact ⟨fun h => absurd h.symm hq, fun h => absurd h (by simp)⟩
        · rw [Function.update_of_ne heq]
      refine h.of_step (fun q hq => State.setProc_proc_ne _ hq _) le_rfl h.target_lt ?_ ?_ ?_ ?_ h.legible hother fun _ _ _ _ => rfl
      · intro fd' hfd'
        have heq : fd = fd' := by simpa [State.setPc, Pc.fd] using hfd'
        exact heq ▸ h.bound p fd hfd
      · intro fd' hheld
        refine ⟨by simpa [State.setPc] using halive, ?_⟩
        have heq : fd' = fd := by
          by_contra hne
          have hheld' : Function.update s.holder fd (some p) fd' = some p := hheld
          rw [Function.update_of_ne hne] at hheld'
          exact hne (Option.some.inj ((h.held fd' p hheld').2.symm.trans hfd))
        simp [State.setPc, Pc.fd, heq]
      · intro _ fd' hlock
        have heq : fd = fd' := by simpa [State.setPc, Pc.locked] using hlock
        exact heq ▸ Function.update_self ..
      · simp [State.setPc]

theorem tidy_readPid {s : State} (h : Tidy s) {p : Pid} {fd : Inode} (hpc : (s.proc p).pc = .reading fd) : Tidy (s.readPid p fd) := by
  have hclosing : ∀ result, Tidy (s.setPc p (.closing fd result)) := fun result =>
    h.setPc (by rw [hpc]; rfl) (fun _ hlock => absurd hlock (by simp [Pc.locked])) fun _ hwriting => absurd hwriting (by simp)
  have hlock : (s.proc p).pc.locked = some fd := by rw [hpc]; rfl
  rw [State.readPid]
  split_ifs with hempty
  · refine h.setPc (by rw [hpc]; rfl) (fun fd' hfd' => hlock.trans hfd') fun fd' hfd' => ?_
    cases hfd'
    exact (List.take_eq_nil_iff.mp hempty).resolve_left (by decide)
  · split
    · exact hclosing none
    · split
      · exact hclosing _
      · exact h.setPc (by rw [hpc]; rfl) (fun fd' hfd' => hlock.trans hfd') fun _ hwriting => absurd hwriting (by simp)

theorem tidy_checkPid {s : State} (h : Tidy s) {p : Pid} {fd : Inode} {oldPid : Int} (hpc : (s.proc p).pc = .checking fd oldPid) :
    Tidy (s.checkPid p fd oldPid) := by
  have hlock : (s.proc p).pc.locked = some fd := by rw [hpc]; rfl
  rw [State.checkPid]
  split
  · exact h.setPc (by rw [hpc]; rfl) (fun _ hlock => absurd hlock (by simp [Pc.locked])) fun _ hwriting => absurd hwriting (by simp)
  · exact h.setPc (by rw [hpc]; rfl) (fun fd' hfd' => hlock.trans hfd') fun _ hwriting => absurd hwriting (by simp)

/-- Writing into the file that the process has locked. -/
theorem Tidy.write {s : State} (h : Tidy s) {p : Pid} {fd : Inode} {pc : Pc} {text : List Char} (halive : (s.proc p).alive = true)
    (hlock : (s.proc p).pc.locked = some fd) (hfd : pc.fd = some fd) (hlegible : Legible text) (hemptied : ∀ fd', pc = .writing fd' → text = []) :
    Tidy ((s.setContent fd text).setPc p pc) := by
  have hheld := h.locked p halive fd hlock
  have honly : ∀ fd', pc.fd = some fd' → fd = fd' := fun fd' hfd' => Option.some.inj (hfd.symm.trans hfd')
  refine h.of_step (fun q hq => State.setProc_proc_ne _ hq _) le_rfl h.target_lt ?_ ?_ ?_ ?_ ?_ (fun _ _ _ => Iff.rfl) ?_
  · intro fd' hfd'
    rw [State.setPc, State.setProc_proc_self] at hfd'
    exact honly fd' hfd' ▸ h.bound p fd (Pc.fd_of_locked hlock)
  · intro fd' hheld'
    rw [State.setPc, State.setProc_proc_self]
    have hopen := Option.some.inj ((Pc.fd_of_locked hlock).symm.trans (h.held fd' p hheld').2)
    exact ⟨halive, hopen ▸ hfd⟩
  · intro _ fd' hlock'
    rw [State.setPc, State.setProc_proc_self] at hlock'
    exact honly fd' (Pc.fd_of_locked hlock') ▸ hheld
  · intro _ fd' hpc
    rw [State.setPc, State.setProc_proc_self] at hpc
    have heq : fd = fd' := honly fd' (by rw [show pc = .writing fd' from hpc]; rfl)
    subst heq
    exact (Function.update_self ..).trans (hemptied fd hpc)
  · intro fd'
    by_cases heq : fd' = fd
    · subst heq
      show Legible (Function.update s.content fd' text fd')
      rwa [Function.update_self]
    · show Legible (Function.update s.content fd text fd')
      rw [Function.update_of_ne heq]
      exact h.legible fd'
  · intro fd' q hq hheld'
    refine Function.update_of_ne (fun heq => hq ?_) _ _
    subst heq
    exact Option.some.inj (hheld'.symm.trans hheld)

theorem tidy_writePid {s : State} (h : Tidy s) {p : Pid} {fd : Inode} (halive : (s.proc p).alive = true) (hpc : (s.proc p).pc = .writing fd) :
    Tidy (s.writePid p fd) := by
  rw [State.writePid, h.emptied p halive fd hpc, List.drop_nil, List.append_nil]
  exact h.write halive (by rw [hpc]; rfl) rfl (.inr ⟨p, rfl⟩) fun _ hwriting => absurd hwriting (by simp)

theorem tidy_closeFile {s : State} (h : Tidy s) {p : Pid} {fd : Inode} {result : Option Int} (hpc : (s.proc p).pc = .closing fd result) :
    Tidy (s.closeFile p fd result) := by
  have hfd : (s.proc p).pc.fd = some fd := by rw [hpc]; rfl
  have hmine : ∀ fd', (s.unflock p fd).holder fd' ≠ some p := by
    intro fd' hheld
    rw [State.unflock] at hheld
    by_cases heq : fd' = fd
    · subst heq
      split at hheld
      · exact absurd ((Function.update_self ..).symm.trans hheld) (by simp)
      · contradiction
    · refine heq (Option.some.inj ((h.held fd' p ?_).2.symm.trans hfd))
      split at hheld
      · exact (Function.update_of_ne heq _ _).symm.trans hheld
      · exact hheld
  have hothers : ∀ fd' q, q ≠ p → ((s.unflock p fd).holder fd' = some q ↔ s.holder fd' = some q) := by
    intro fd' q hq
    rw [State.unflock]
    split
    · rename_i hheld
      by_cases heq : fd' = fd
      · subst heq
        show Function.update s.holder fd' none fd' = some q ↔ _
        rw [Function.update_self, hheld, Option.some.injEq]
        exact ⟨fun h => absurd h (by simp), fun h => absurd h.symm hq⟩
      · show Function.update s.holder fd none fd' = some q ↔ _
        rw [Function.update_of_ne heq]
    · rfl
  have hsame : (s.unflock p fd).target = s.target ∧ (s.unflock p fd).content = s.content ∧ (s.unflock p fd).fresh = s.fresh := by
    rw [State.unflock]
    split <;> exact ⟨rfl, rfl, rfl⟩
  have hgone : ∀ pc : Pc, pc.fd = none → Tidy ((s.unflock p fd).setPc p pc) := by
    intro pc hpc
    refine h.leave (fun q hq => ?_) hsame.2.2 (.inl hsame.1) hsame.2.1 (.inl ?_) hmine hothers
    · rw [State.setPc, State.setProc_proc_ne _ hq, unflock_proc]
    · rwa [State.setPc, State.setProc_proc_self]
  cases result with
  | none => exact hgone .idle rfl
  | some pid => exact hgone (.returned pid) rfl

theorem tidy_loopTest {s : State} (h : Tidy s) {p : Pid} {pid : Int} (hpc : (s.proc p).pc = .returned pid) : Tidy (s.loopTest p pid) := by
  rw [State.loopTest]
  split_ifs
  · exact h.setProc rfl (by rw [hpc]; rfl) (fun _ hlock => absurd hlock (by simp [Pc.locked])) fun _ _ hwriting => absurd hwriting (by simp)
  · exact h.setProc rfl (by rw [hpc]; rfl) (fun _ hlock => absurd hlock (by simp [Pc.locked])) fun _ _ hwriting => absurd hwriting (by simp)
  · exact h.setPc (by rw [hpc]; rfl) (fun _ hlock => absurd hlock (by simp [Pc.locked])) fun _ hwriting => absurd hwriting (by simp)

theorem tidy_advance {s t : State} (h : Tidy s) {p : Pid} (halive : (s.proc p).alive = true) (hstep : s.advance p = some t) : Tidy t := by
  rw [State.advance] at hstep
  split at hstep
  · exact absurd hstep (by simp)
  all_goals
    rename_i hpc
    rw [Option.some.injEq] at hstep
    subst hstep
  · exact tidy_openTarget h hpc
  · exact tidy_flock h halive hpc
  · exact tidy_readPid h hpc
  · exact tidy_checkPid h hpc
  · exact h.write halive (by rw [hpc]; rfl) rfl (.inl rfl) fun _ _ => rfl
  · exact tidy_writePid h halive hpc
  · exact tidy_closeFile h hpc
  · exact tidy_loopTest h hpc

theorem tidy_failCall {s t : State} (h : Tidy s) {p : Pid} (hstep : s.failCall p = some t) : Tidy t := by
  rw [State.failCall] at hstep
  split at hstep
  case h_6 => exact absurd hstep (by simp)
  all_goals
    rename_i hpc
    rw [Option.some.injEq] at hstep
    subst hstep
    exact h.setPc (by rw [hpc]; rfl) (fun _ hlock => absurd hlock (by simp [Pc.locked])) fun _ hwriting => absurd hwriting (by simp)

theorem tidy_exit {s : State} (h : Tidy s) {p : Pid} (hidle : (s.proc p).pc = .idle) : Tidy (s.exit p) := by
  have hmine := h.not_held (p := p) (by rw [hidle]; rfl)
  have hfd : (s.proc p).pc.fd = none := by rw [hidle]; rfl
  rw [State.exit]
  split
  · split
    · refine h.leave (fun q hq => State.setProc_proc_ne s hq _) rfl (.inr rfl) rfl (.inl ?_) hmine fun _ _ _ => Iff.rfl
      simpa using hfd
    · exact h.setProc rfl rfl (fun _ hlock => hlock) fun _ _ hwriting => absurd (hidle.symm.trans hwriting) (by simp)
  · exact h.setProc rfl rfl (fun _ hlock => hlock) fun _ _ hwriting => absurd (hidle.symm.trans hwriting) (by simp)

theorem tidy_die {s : State} (h : Tidy s) (p : Pid) : Tidy (s.die p) := by
  refine h.leave (fun q hq => State.setProc_proc_ne s hq _) rfl (.inl rfl) rfl (.inr ?_) (fun fd hheld => ?_) fun fd q hq => ?_
  · simp [State.die]
  · rw [State.die] at hheld
    dsimp only at hheld
    split at hheld
    · exact absurd hheld (by simp)
    · contradiction
  · rw [State.die]
    dsimp only
    split
    · rename_i hmine
      rw [hmine, Option.some.injEq]
      exact ⟨fun h => absurd h (by simp), fun h => absurd h.symm hq⟩
    · rfl

theorem tidy_step {s t : State} {a : Pid × Act} (h : Tidy s) (hstep : s.step a = some t) : Tidy t := by
  obtain ⟨p, act⟩ := a
  rw [State.step] at hstep
  split at hstep
  · rename_i halive
    cases act with
    | enter =>
        obtain ⟨hidle, heq⟩ := Option.ite_none_right_eq_some.mp hstep
        rw [Option.some.injEq] at heq
        subst heq
        exact h.setProc rfl (by rw [hidle]; rfl) (fun _ hlock => absurd hlock (by simp [Pc.locked])) fun _ _ hwriting => absurd hwriting (by simp)
    | exit =>
        obtain ⟨⟨hidle, _⟩, heq⟩ := Option.ite_none_right_eq_some.mp hstep
        rw [Option.some.injEq] at heq
        subst heq
        exact tidy_exit h hidle
    | advance => exact tidy_advance h halive hstep
    | fail => exact tidy_failCall h hstep
    | die =>
        have heq := Option.some.inj hstep
        subst heq
        exact tidy_die h p
  · exact absurd hstep (by simp)

/-! ### Entering alone -/

/-- `n` operations of one process, one after another. -/
def Advances (p : Pid) (n : Nat) (s t : State) : Prop := system.Run System.anyStep s (List.replicate n (p, .advance)) t

theorem Advances.zero (p : Pid) (s : State) : Advances p 0 s s := .nil s

theorem Advances.succ {p : Pid} {n : Nat} {s t u : State} (halive : (s.proc p).alive = true) (hadvance : s.advance p = some t)
    (hrest : Advances p n t u) : Advances p (n + 1) s u :=
  .cons trivial ((if_pos halive).trans hadvance) hrest

/-- The process is inside, and the file says so. -/
structure Entered (p : Pid) (s : State) : Prop where
  inside : s.Inside p
  idle : (s.proc p).pc = .idle
  recorded : ∃ fd, s.target = some fd ∧ s.content fd = decimal p.val

variable {s : State} {p : Pid} {fd : Inode}

theorem enters_of_returned (halive : (s.proc p).alive = true) (hpc : (s.proc p).pc = .returned p.val)
    (hnamed : s.target = some fd) (hcontent : s.content fd = decimal p.val) : ∃ t, Advances p 1 s t ∧ Entered p t := by
  have hadvance : s.advance p = some (s.setProc p { s.proc p with depth := (s.proc p).depth + 1, pc := .idle }) := by
    rw [State.advance, hpc]
    exact congrArg some (if_pos rfl)
  refine ⟨_, (Advances.zero p _).succ halive hadvance, ⟨?_, ?_⟩, ?_, fd, hnamed, hcontent⟩
  · simpa using halive
  · simp
  · simp

theorem unflock_files (s : State) (p : Pid) (fd : Inode) : (s.unflock p fd).target = s.target ∧ (s.unflock p fd).content = s.content := by
  rw [State.unflock]
  split <;> exact ⟨rfl, rfl⟩

theorem enters_of_closing (halive : (s.proc p).alive = true) (hpc : (s.proc p).pc = .closing fd (some p.val))
    (hnamed : s.target = some fd) (hcontent : s.content fd = decimal p.val) : ∃ t, Advances p 2 s t ∧ Entered p t := by
  have hadvance : s.advance p = some (s.closeFile p fd (some p.val)) := by rw [State.advance, hpc]
  obtain ⟨htarget, hfiles⟩ := unflock_files s p fd
  obtain ⟨t, hrest, hentered⟩ := @enters_of_returned (s.closeFile p fd (some p.val)) p fd
    (by simpa [State.closeFile, State.setPc, unflock_proc] using halive) (by simp [State.closeFile, State.setPc])
    (htarget.trans hnamed) ((congrFun hfiles fd).trans hcontent)
  exact ⟨t, hrest.succ halive hadvance, hentered⟩

theorem enters_of_writing (halive : (s.proc p).alive = true) (hpc : (s.proc p).pc = .writing fd)
    (hnamed : s.target = some fd) (hempty : s.content fd = []) : ∃ t, Advances p 3 s t ∧ Entered p t := by
  have hadvance : s.advance p = some (s.writePid p fd) := by rw [State.advance, hpc]
  have hcontent : (s.writePid p fd).content fd = decimal p.val := by
    rw [State.writePid, hempty, List.drop_nil, List.append_nil]
    exact Function.update_self ..
  obtain ⟨t, hrest, hentered⟩ := @enters_of_closing (s.writePid p fd) p fd
    (by simpa [State.writePid, State.setPc] using halive) (by simp [State.writePid, State.setPc]) hnamed hcontent
  exact ⟨t, hrest.succ halive hadvance, hentered⟩

theorem enters_of_truncating (halive : (s.proc p).alive = true) (hpc : (s.proc p).pc = .truncating fd)
    (hnamed : s.target = some fd) : ∃ t, Advances p 4 s t ∧ Entered p t := by
  have hadvance : s.advance p = some ((s.setContent fd []).setPc p (.writing fd)) := by rw [State.advance, hpc]
  obtain ⟨t, hrest, hentered⟩ := @enters_of_writing ((s.setContent fd []).setPc p (.writing fd)) p fd
    (by simpa [State.setPc] using halive) (by simp [State.setPc]) hnamed (Function.update_self ..)
  exact ⟨t, hrest.succ halive hadvance, hentered⟩

/-- A live process other than `p` is on record in the target. -/
def Occupied (s : State) (p : Pid) : Prop :=
  ∃ fd q, s.target = some fd ∧ s.content fd = decimal q.val ∧ q ≠ p ∧ (s.proc q).alive = true

/-- An attempt that found the lock taken: the files are as they were, and the process is at its next attempt or has taken its call back. -/
structure Refused (p : Pid) (s t : State) : Prop where
  target : t.target = s.target
  content : t.content = s.content
  proc : t.proc p =
    if (s.proc p).blocking then { s.proc p with pc := .opening } else { s.proc p with count := (s.proc p).count - 1, pc := .idle }

/-- What the attempt has done so far with its program counter and the lock on the file does not show in the end. -/
theorem Refused.of_same {p : Pid} {s u t : State} {pc : Pc} (h : Refused p u t) (htarget : u.target = s.target)
    (hcontent : u.content = s.content) (hproc : u.proc p = { s.proc p with pc := pc }) : Refused p s t := by
  refine ⟨h.target.trans htarget, h.content.trans hcontent, ?_⟩
  rw [h.proc, hproc]

theorem advance_reading {q : Pid} (hpc : (s.proc p).pc = .reading fd) (hcontent : s.content fd = decimal q.val) :
    s.advance p = some (s.setPc p (if q = p then .closing fd (some p.val) else .checking fd q.val)) := by
  have hne : (s.content fd).take 20 ≠ [] := by
    rw [hcontent, take_decimal]
    exact decimal_ne_nil _
  have hrecorded : s.recorded fd = some (q.val : Int) := by rw [State.recorded, hcontent, take_decimal, pyInt_decimal]
  rw [State.advance, hpc]
  dsimp only
  rw [State.readPid, if_neg hne, hrecorded]
  dsimp only
  by_cases hq : q = p
  · rw [if_pos hq, if_pos (congrArg (fun r : Pid => (r.val : Int)) hq)]
  · rw [if_neg hq, if_neg fun heq => hq (Pid.eq_of_val_cast (congrArg some heq))]

theorem advance_checking {q : Pid} (hpc : (s.proc p).pc = .checking fd q.val) :
    s.advance p = some (s.setPc p (if (s.proc q).alive then .closing fd (some q.val) else .truncating fd)) := by
  rw [State.advance, hpc]
  dsimp only
  rw [State.checkPid, State.procExists_pid]
  split <;> rfl

theorem enters_of_reading (halive : (s.proc p).alive = true) (hpc : (s.proc p).pc = .reading fd) (hnamed : s.target = some fd)
    (hlegible : Legible (s.content fd)) (hvacant : ¬Occupied s p) : ∃ n ≤ 6, ∃ t, Advances p n s t ∧ Entered p t := by
  rcases hlegible with hempty | ⟨q, hcontent⟩
  · have hadvance : s.advance p = some (s.setPc p (.writing fd)) := by
      rw [State.advance, hpc]
      exact congrArg some (if_pos (by rw [hempty]; rfl))
    obtain ⟨t, hrest, hentered⟩ := @enters_of_writing (s.setPc p (.writing fd)) p fd
      (by simpa [State.setPc] using halive) (by simp [State.setPc]) hnamed hempty
    exact ⟨4, by decide, t, hrest.succ halive hadvance, hentered⟩
  · have hadvance := advance_reading hpc hcontent
    by_cases hq : q = p
    · rw [if_pos hq] at hadvance
      obtain ⟨t, hrest, hentered⟩ := @enters_of_closing (s.setPc p (.closing fd (some p.val))) p fd
        (by simpa [State.setPc] using halive) (by simp [State.setPc]) hnamed (hq ▸ hcontent)
      exact ⟨3, by decide, t, hrest.succ halive hadvance, hentered⟩
    · rw [if_neg hq] at hadvance
      have hdead : ((s.setPc p (.checking fd q.val)).proc q).alive = false := by
        rw [State.setPc, State.setProc_proc_ne s hq]
        exact Bool.eq_false_iff.mpr fun hq' => hvacant ⟨fd, q, hnamed, hcontent, hq, hq'⟩
      have hchecked := @advance_checking (s.setPc p (.checking fd q.val)) p fd q (by simp [State.setPc])
      rw [hdead, if_neg Bool.false_ne_true] at hchecked
      obtain ⟨t, hrest, hentered⟩ := @enters_of_truncating ((s.setPc p (.checking fd q.val)).setPc p (.truncating fd)) p fd
        (by simpa [State.setPc] using halive) (by simp [State.setPc]) hnamed
      exact ⟨6, le_rfl, t, (hrest.succ (by simpa [State.setPc] using halive) hchecked).succ halive hadvance, hentered⟩

theorem refused_of_closing {q : Pid} (halive : (s.proc p).alive = true) (hpc : (s.proc p).pc = .closing fd (some q.val)) (hq : q ≠ p) :
    ∃ t, Advances p 2 s t ∧ Refused p s t := by
  have hclose : s.advance p = some ((s.unflock p fd).setPc p (.returned q.val)) := by
    rw [State.advance, hpc]
    rfl
  obtain ⟨htarget, hfiles⟩ := unflock_files s p fd
  have hproc : ((s.unflock p fd).setPc p (.returned q.val)).proc p = { s.proc p with pc := .returned q.val } := by
    rw [State.setPc, State.setProc_proc_self, unflock_proc]
  have hloop : ((s.unflock p fd).setPc p (.returned q.val)).advance p =
      some (((s.unflock p fd).setPc p (.returned q.val)).loopTest p q.val) := by
    rw [State.advance, hproc]
  refine ⟨_, ((Advances.zero p _).succ (by rw [hproc]; exact halive) hloop).succ halive hclose, ?_⟩
  refine @Refused.of_same p s ((s.unflock p fd).setPc p (.returned q.val)) _ (.returned q.val) ⟨?_, ?_, ?_⟩ htarget hfiles hproc
  all_goals rw [State.loopTest, hproc, if_neg fun heq => hq (Pid.eq_of_val_cast (congrArg some heq))]
  · split <;> rfl
  · split <;> rfl
  · have hminus : (q.val : Int) ≠ -1 := by omega
    dsimp only
    cases hblocking : (s.proc p).blocking with
    | true => rw [if_neg fun h => absurd h.2 (by decide), if_pos rfl, State.setPc, State.setProc_proc_self, hproc, ← hblocking]
    | false => rw [if_pos ⟨hminus, rfl⟩, if_neg Bool.false_ne_true, State.setProc_proc_self]

theorem refused_of_reading {q : Pid} (halive : (s.proc p).alive = true) (hpc : (s.proc p).pc = .reading fd)
    (hcontent : s.content fd = decimal q.val) (hq : q ≠ p) (hlive : (s.proc q).alive = true) :
    ∃ t, Advances p 4 s t ∧ Refused p s t := by
  have hread := advance_reading hpc hcontent
  rw [if_neg hq] at hread
  have hcheck := @advance_checking (s.setPc p (.checking fd q.val)) p fd q (by simp [State.setPc])
  have hlive' : ((s.setPc p (.checking fd q.val)).proc q).alive = true := by
    rw [State.setPc, State.setProc_proc_ne s hq]
    exact hlive
  rw [if_pos hlive'] at hcheck
  obtain ⟨t, hrest, hrefused⟩ := @refused_of_closing ((s.setPc p (.checking fd q.val)).setPc p (.closing fd (some q.val))) p fd q
    (by simpa [State.setPc] using halive) (by simp [State.setPc]) hq
  refine ⟨t, (hrest.succ (by simpa [State.setPc] using halive) hcheck).succ halive hread, ?_⟩
  exact @Refused.of_same p s _ t (.closing fd (some q.val)) hrefused rfl rfl (by simp [State.setPc])

/-- Opening the target and locking it, when nobody has it locked. -/
theorem advances_to_reading (halive : (s.proc p).alive = true) (hpc : (s.proc p).pc = .opening)
    (hfree : ∀ fd, s.target = some fd ∨ fd = s.fresh → s.holder fd = none) :
    ∃ fd t, Advances p 2 s t ∧ t.target = some fd ∧ (t.proc p) = { s.proc p with pc := .reading fd } ∧
      (∀ q, q ≠ p → t.proc q = s.proc q) ∧ (s.target = some fd ∧ t.content = s.content ∨ s.target = none ∧ t.content fd = []) := by
  have hopen : s.advance p = some (s.openTarget p) := by rw [State.advance, hpc]
  cases htarget : s.target with
  | some fd =>
      have hopened : s.openTarget p = s.setPc p (.locking fd) := by rw [State.openTarget, htarget]
      have hlock : (s.setPc p (.locking fd)).advance p = some (((s.setPc p (.locking fd)).setHolder fd (some p)).setPc p (.reading fd)) := by
        rw [State.advance, State.setPc, State.setProc_proc_self]
        dsimp only
        rw [State.flock, State.setProc_holder, hfree fd (.inl htarget)]
      rw [hopened] at hopen
      refine ⟨fd, _, ((Advances.zero p _).succ (by simpa [State.setPc] using halive) hlock).succ halive hopen, htarget, ?_, ?_, .inl ⟨rfl, rfl⟩⟩
      · simp [State.setPc]
      · intro q hq
        simp [State.setPc, State.setProc_proc_ne _ hq]
  | none =>
      let u : State := { (s.setContent s.fresh []).setPc p (.locking s.fresh) with target := some s.fresh, fresh := s.fresh + 1 }
      have hopened : s.openTarget p = u := by rw [State.openTarget, htarget]
      have hproc : u.proc p = { s.proc p with pc := .locking s.fresh } := by simp [u, State.setPc]
      have hlock : u.advance p = some ((u.setHolder s.fresh (some p)).setPc p (.reading s.fresh)) := by
        rw [State.advance, hproc]
        dsimp only
        rw [State.flock, show u.holder s.fresh = none from hfree s.fresh (.inr rfl)]
      rw [hopened] at hopen
      refine ⟨s.fresh, _, ((Advances.zero p _).succ (by rw [hproc]; exact halive) hlock).succ halive hopen, rfl, ?_, ?_,
        .inr ⟨rfl, Function.update_self ..⟩⟩
      · simp [State.setPc, hproc]
      · intro q hq
        rw [State.setPc, State.setProc_proc_ne _ hq, State.setHolder_proc]
        exact State.setProc_proc_ne _ hq _

theorem Advances.trans {m n : Nat} {t u : State} (hfirst : Advances p m s t) (hrest : Advances p n t u) : Advances p (m + n) s u := by
  rw [Advances, ← List.replicate_append_replicate]
  exact hfirst.append hrest

/-- After any run, a process that enters while no other live process has the target open is inside after at most eight operations, with its pid in the file, unless a live process is on record there; then its attempt ends after six operations and has changed nothing. -/
theorem enter_alone (start s : State) (acts : List (Pid × Act)) (p : Pid) (hinit : start.Init) (hlegible : ∀ fd, Legible (start.content fd))
    (hrun : system.Run System.anyStep start acts s) (halive : (s.proc p).alive = true) (hidle : (s.proc p).pc = .idle)
    (halone : ∀ q, q ≠ p → (s.proc q).alive = true → ∀ fd, s.target = some fd → (s.proc q).pc.fd ≠ some fd) :
    (¬Occupied s p → ∃ n ≤ 8, ∃ t, Advances p n (s.enter p) t ∧ Entered p t) ∧
      (Occupied s p → ∃ t, Advances p 6 (s.enter p) t ∧ t.target = s.target ∧ t.content = s.content ∧
        t.proc p = if (s.proc p).blocking then (s.enter p).proc p else s.proc p) := by
  have htidy : Tidy s := hrun.invariant (fun s _ t (h : Tidy s) _ hstep => tidy_step h hstep) (tidy_of_init hinit hlegible)
  have hfree : ∀ fd, s.target = some fd ∨ fd = s.fresh → s.holder fd = none := by
    rintro fd hfd
    by_contra hheld
    obtain ⟨q, hheld⟩ := Option.ne_none_iff_exists'.mp hheld
    obtain ⟨hq, hopen⟩ := htidy.held fd q hheld
    rcases hfd with hnamed | hfresh
    · refine halone q (fun heq => ?_) hq fd hnamed hopen
      rw [heq, hidle] at hopen
      exact absurd hopen (by simp [Pc.fd])
    · exact absurd (hfresh ▸ htidy.bound q fd hopen) (Nat.lt_irrefl _)
  have hentered : (s.enter p).proc p = { s.proc p with count := (s.proc p).count + 1, pc := .opening } := by simp [State.enter]
  obtain ⟨fd, t, hadvances, hnamed, hproc, hothers, hfile⟩ := @advances_to_reading (s.enter p) p (by rw [hentered]; exact halive) (by rw [hentered]) hfree
  have halive' : (t.proc p).alive = true := by rw [hproc, hentered]; exact halive
  have hpc' : (t.proc p).pc = .reading fd := by rw [hproc]
  have hothers' : ∀ q, q ≠ p → t.proc q = s.proc q := fun q hq => (hothers q hq).trans (State.setProc_proc_ne s hq _)
  constructor
  · intro hvacant
    have hread : Legible (t.content fd) ∧ ¬Occupied t p := by
      rcases hfile with ⟨htarget, hcontent⟩ | ⟨_, hempty⟩
      · refine ⟨hcontent ▸ htidy.legible fd, ?_⟩
        rintro ⟨fd', q, hfd', htext, hq, hlive⟩
        refine hvacant ⟨fd', q, ?_, ?_, hq, hothers' q hq ▸ hlive⟩
        · exact htarget.trans (hnamed.symm.trans hfd')
        · exact (congrFun hcontent fd').symm.trans htext
      · refine ⟨.inl hempty, ?_⟩
        rintro ⟨fd', q, hfd', htext, -, -⟩
        obtain rfl := Option.some.inj (hnamed.symm.trans hfd')
        exact decimal_ne_nil q.val (htext.symm.trans hempty)
    obtain ⟨n, hn, u, hrest, hdone⟩ := enters_of_reading halive' hpc' hnamed hread.1 hread.2
    exact ⟨2 + n, by omega, u, hadvances.trans hrest, hdone⟩
  · rintro ⟨fd', q, hfd', htext, hq, hlive⟩
    rcases hfile with ⟨htarget, hcontent⟩ | ⟨hmissing, _⟩
    · obtain rfl : fd = fd' := Option.some.inj (htarget.symm.trans hfd')
      obtain ⟨u, hrest, hrefused⟩ := refused_of_reading halive' hpc' ((congrFun hcontent fd).trans htext) hq (hothers' q hq ▸ hlive)
      refine ⟨u, hadvances.trans hrest, hrefused.target.trans (hnamed.trans hfd'.symm), hrefused.content.trans hcontent, ?_⟩
      rw [hrefused.proc, hproc, hentered]
      dsimp only
      split
      · rfl
      · rw [Nat.add_sub_cancel, ← hidle]
    · exact absurd (hmissing.symm.trans hfd') (by simp)

/-- The first process is dead, and its lock file is still there. -/
def stale : State where
  target := some 0
  content := fun _ => decimal 1
  holder := fun _ => none
  fresh := 1
  proc := fun q => { alive := q ≠ 1, blocking := false, count := 0, depth := 0, pc := .idle }

theorem stale_init : stale.Init := ⟨by simp [stale], fun _ => rfl, fun _ => rfl, fun _ => rfl, fun _ => rfl⟩

theorem not_occupied_stale (p : Pid) : ¬Occupied stale p := by
  rintro ⟨fd, q, _, htext, _, hlive⟩
  have hq : (1 : Pid) = q := by
    refine Pid.eq_of_val_cast ?_
    rw [← pyInt_decimal, ← pyInt_decimal]
    exact congrArg pyInt htext
  subst hq
  exact absurd hlive (by simp [stale])

theorem enter_alone_stale : ∃ n ≤ 8, ∃ t, Advances 2 n (stale.enter 2) t ∧ Entered 2 t :=
  (enter_alone stale stale [] 2 stale_init (fun _ => .inr ⟨1, rfl⟩) (.nil stale) (by decide +kernel) rfl
    (fun _ _ _ _ _ hopen => absurd hopen (by simp [stale, Pc.fd]))).1 (not_occupied_stale 2)

end ProcessLock

end Dnf
