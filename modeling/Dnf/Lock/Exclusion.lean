import Dnf.Lock.Invariant

/-!
# At most one process inside

What has to be shown of each step is that nobody writes into the file of a live owner, and that no file which lost its name is ever taken over. The first is what `flock` and the check of the recorded pid are for. The second is not checked by the code: a process that opened the file before it was unlinked may find its owner dead and take over a file nobody else will ever open. `takesOverUnlinked` is that step. Without it the invariant is inductive, with it three processes break the lock.
-/

namespace Dnf

open Foundation

namespace ProcessLock

/-! ### One lemma for each step -/

/-- A step that only moves the acting process on. -/
theorem Inv.setProc {s : State} (hinv : Inv s) {p : Pid} {pr : Proc} (halive : pr.alive = true → (s.proc p).alive = true)
    (hp : Coherent (s.setProc p pr) p) : Inv (s.setProc p pr) := by
  refine ⟨hinv.target_lt, fun q => ?_⟩
  by_cases hq : q = p
  · subst q
    exact hp
  · exact (hinv.proc q).frame_files (State.setProc_proc_ne s hq pr) (State.alive_of_setProc pr halive) rfl rfl rfl
      (fun _ h => h)

theorem inv_enter {s : State} (hinv : Inv s) {p : Pid} (hidle : (s.proc p).pc = .idle) : Inv (s.enter p) := by
  refine hinv.setProc (fun h => h) (Coherent.of_no_file ?_ ?_ ?_)
  · simp [Pc.fd]
  · intro hown
    refine (hinv.proc p).owner ⟨by simpa using hown.1, Or.inl ?_⟩
    simpa [State.Owns, Pc.wins] using hown.2
  · have hcounted := (hinv.proc p).counted
    rw [hidle] at hcounted
    simpa using hcounted

theorem inv_closing {s : State} (hinv : Inv s) {p : Pid} {fd : Inode} {result : Option Int}
    (hbusy : (s.proc p).pc ≠ .idle) (hfd : (s.proc p).pc.fd = some fd)
    (hresult : (s.proc p).alive = true → result = some (p.val : Int) → s.target = some fd ∧ s.recorded fd = some (p.val : Int)) :
    Inv (s.setPc p (.closing fd result)) := by
  have h := hinv.proc p
  refine hinv.setProc (fun h => h) (Coherent.of_file (.closing fd result) fd (by simp) rfl ?_ ?_ ?_ ?_ ?_ ?_ ?_ ?_)
  · exact h.bound fd hfd
  · simp [Pc.locked]
  · intro hown
    have halive : (s.proc p).alive = true := by simpa using hown.1
    by_cases hdepth : 0 < (s.proc p).depth
    · exact h.owner ⟨halive, Or.inl hdepth⟩
    · have hwins : Pc.wins p (.closing fd result) := by simpa [hdepth] using hown.2
      cases result with
      | none => exact absurd hwins (by simp [Pc.wins])
      | some pid => exact ⟨fd, hresult halive (congrArg some hwins)⟩
  · intro halive hne
    exact h.unlinked (by simpa using halive) fd hfd hne
  · simp
  · simp [Pc.claims]
  · simp
  · simpa using h.busy hbusy

theorem inv_locking {s : State} (hinv : Inv s) {p : Pid} {fd : Inode} (hpc : (s.proc p).pc = .opening)
    (htarget : s.target = some fd) : Inv (s.setPc p (.locking fd)) := by
  have h := hinv.proc p
  refine hinv.setProc (fun h => h) (Coherent.of_file (.locking fd) fd (by simp) rfl ?_ ?_ ?_ ?_ ?_ ?_ ?_ ?_)
  · exact hinv.target_lt fd htarget
  · simp [Pc.locked]
  · exact h.owner_of_not_wins (by simp) (by simp) (by simp [Pc.wins])
  · exact fun _ hne => absurd htarget hne
  · simp
  · simp [Pc.claims]
  · simp
  · simpa using h.busy (by rw [hpc]; simp)

/-- A new file gets the free name: no file in use changes, and no process owned the lock. -/
theorem inv_create {s : State} (hinv : Inv s) {p : Pid} (hpc : (s.proc p).pc = .opening) (htarget : s.target = none) :
    Inv { (s.setContent s.fresh []).setPc p (.locking s.fresh) with target := some s.fresh, fresh := s.fresh + 1 } := by
  have hcontent : ∀ fd, fd < s.fresh → Function.update s.content s.fresh [] fd = s.content fd :=
    fun fd hfd => Function.update_of_ne (Nat.ne_of_lt hfd) _ _
  have hnobody : ∀ q, ¬ s.Owns q := by
    intro q hown
    obtain ⟨fd, hfd, _⟩ := (hinv.proc q).owner hown
    rw [htarget] at hfd
    exact absurd hfd (by simp)
  refine ⟨fun fd hfd => ?_, fun q => ?_⟩
  · have heq : s.fresh = fd := by simpa using hfd
    subst fd
    exact Nat.lt_succ_self _
  by_cases hq : q = p
  · subst q
    refine Coherent.of_file (.locking s.fresh) s.fresh ?_ rfl (Nat.lt_succ_self _) ?_ ?_ ?_ ?_ ?_ ?_ ?_
    · simp [State.setPc]
    · simp [Pc.locked]
    · intro hown
      refine absurd ⟨by simpa [State.setPc] using hown.1, Or.inl ?_⟩ (hnobody p)
      simpa [State.setPc, Pc.wins] using hown.2
    · exact fun _ hne => absurd rfl hne
    · simp
    · simp [Pc.claims]
    · simp
    · simpa [State.setPc] using (hinv.proc p).busy (by rw [hpc]; simp)
  · have h := hinv.proc q
    have hproc : ((s.setContent s.fresh []).setPc p (.locking s.fresh)).proc q = s.proc q :=
      State.setProc_proc_ne _ hq _
    refine ⟨?_, ?_, ?_, ?_, ?_, ?_, ?_, ?_⟩
    · intro fd hfd
      exact Nat.lt_succ_of_lt (h.bound fd (by rwa [hproc] at hfd))
    · intro hq fd hfd
      rw [hproc] at hq hfd
      exact h.locked hq fd hfd
    · intro hown
      rw [State.Owns, hproc] at hown
      exact absurd hown (hnobody q)
    · intro hq fd hfd hne
      rw [hproc] at hq hfd
      rw [State.recorded_congr (hcontent fd (h.bound fd hfd))]
      exact h.unlinked hq fd hfd (by rw [htarget]; simp)
    · intro hq fd oldPid hpc
      rw [hproc] at hq hpc
      rw [State.recorded_congr (hcontent fd (h.bound fd (by rw [hpc]; rfl)))]
      exact h.checked hq fd oldPid hpc
    · intro hq fd hfd
      rw [hproc] at hq hfd
      have hnamed := (h.claimed hq fd hfd).1
      rw [htarget] at hnamed
      exact absurd hnamed (by simp)
    · intro hq fd hpc
      rw [hproc] at hq hpc
      exact (hcontent fd (h.bound fd (by rw [hpc]; rfl))).trans (h.emptied hq fd hpc)
    · rw [hproc]
      exact h.counted

theorem inv_openTarget {s : State} (hinv : Inv s) {p : Pid} (hpc : (s.proc p).pc = .opening) : Inv (s.openTarget p) := by
  rw [State.openTarget]
  split
  · rename_i fd htarget
    exact inv_locking hinv hpc htarget
  · rename_i htarget
    exact inv_create hinv hpc htarget

theorem inv_flock {s : State} (hinv : Inv s) {p : Pid} {fd : Inode} (hpc : (s.proc p).pc = .locking fd) :
    Inv (s.flock p fd) := by
  have hfd : (s.proc p).pc.fd = some fd := by rw [hpc]; rfl
  rw [State.flock]
  split
  · rename_i hfree
    have h := hinv.proc p
    refine ⟨hinv.target_lt, fun q => ?_⟩
    by_cases hq : q = p
    · subst q
      refine Coherent.of_file (.reading fd) fd ?_ rfl (h.bound fd hfd) ?_ ?_ ?_ ?_ ?_ ?_ ?_
      · simp [State.setPc]
      · exact fun _ _ => Function.update_self ..
      · exact h.owner_of_not_wins (by simp [State.setPc]) (by simp [State.setPc]) (by simp [State.setPc, Pc.wins])
      · intro halive hne
        exact h.unlinked (by simpa [State.setPc] using halive) fd hfd hne
      · simp
      · simp [Pc.claims]
      · simp
      · simpa [State.setPc] using h.busy (by rw [hpc]; simp)
    · refine (hinv.proc q).frame_files (State.setProc_proc_ne _ hq _)
        (State.alive_of_setPc (s := s.setHolder fd (some p))) rfl rfl rfl (fun fd' hfd' => ?_)
      have hne : fd' ≠ fd := by
        intro heq
        subst fd'
        rw [hfree] at hfd'
        exact absurd hfd' (by simp)
      exact (Function.update_of_ne hne _ _).trans hfd'
  · exact inv_closing hinv (by rw [hpc]; simp) hfd (fun _ hresult => absurd (Option.some.inj hresult) (by omega))

/-- An empty or stale file that still has its name, and no live owner, is the process's to write. -/
theorem inv_claiming {s : State} (hinv : Inv s) {p : Pid} {fd : Inode} {pc : Pc} (hlocked : (s.proc p).pc.locked = some fd)
    (hpc : pc = .truncating fd ∨ (pc = .writing fd ∧ s.content fd = []))
    (hvacant : (s.proc p).alive = true →
      s.target = some fd ∧ ∀ q : Pid, (s.proc q).alive = true → s.recorded fd ≠ some (q.val : Int)) :
    Inv (s.setPc p pc) := by
  have hshape : pc.fd = some fd ∧ ¬ pc.wins p ∧ ∀ oldPid, pc ≠ .checking fd oldPid := by
    obtain hpc | ⟨hpc, _⟩ := hpc <;> subst hpc <;> simp [Pc.fd, Pc.wins]
  obtain ⟨hfd, hwins, hchecking⟩ := hshape
  have h := hinv.proc p
  refine hinv.setProc (fun h => h) (Coherent.of_file pc fd (by simp) hfd ?_ ?_ ?_ ?_ ?_ ?_ ?_ ?_)
  · exact h.bound fd (Pc.fd_of_locked hlocked)
  · exact fun halive _ => h.locked (by simpa using halive) fd hlocked
  · exact h.owner_of_not_wins (by simp) (by simp) (by simpa using hwins)
  · exact fun halive hne => absurd (hvacant (by simpa using halive)).1 hne
  · exact fun _ oldPid hpc' => absurd hpc' (hchecking oldPid)
  · intro halive _
    obtain ⟨hnamed, hnone⟩ := hvacant (by simpa using halive)
    exact ⟨hnamed, fun q hq => hnone q (State.alive_of_setPc q hq)⟩
  · intro _ hwriting
    obtain hpc | ⟨_, hempty⟩ := hpc
    · exact absurd (hpc.symm.trans hwriting) (by simp)
    · exact hempty
  · have hbusy : (s.proc p).pc ≠ .idle := by
      intro hidle
      rw [hidle] at hlocked
      exact absurd hlocked (by simp [Pc.locked])
    simpa using h.busy hbusy

theorem inv_readPid {s : State} (hinv : Inv s) {p : Pid} {fd : Inode} (hpc : (s.proc p).pc = .reading fd) :
    Inv (s.readPid p fd) := by
  have h := hinv.proc p
  have hfd : (s.proc p).pc.fd = some fd := by rw [hpc]; rfl
  have hlocked : (s.proc p).pc.locked = some fd := by rw [hpc]; rfl
  have hbusy : (s.proc p).pc ≠ .idle := by rw [hpc]; simp
  -- A file that lost its name records another process's pid, so any other finding means it is the target.
  have hnamed : (s.proc p).alive = true → (∀ q : Pid, q ≠ p → s.recorded fd ≠ some (q.val : Int)) → s.target = some fd := by
    intro halive hother
    by_contra hne
    obtain ⟨q, hq, hrecorded⟩ := h.unlinked halive fd hfd hne
    exact hother q hq hrecorded
  rw [State.readPid]
  split
  · rename_i hempty
    have hrecorded : s.recorded fd = none := by rw [State.recorded, hempty, pyInt_nil]
    have hcontent : s.content fd = [] := by simpa using hempty
    exact inv_claiming hinv hlocked (Or.inr ⟨rfl, hcontent⟩)
      (fun halive => ⟨hnamed halive (by simp [hrecorded]), by simp [hrecorded]⟩)
  split
  · exact inv_closing hinv hbusy hfd (fun _ hresult => absurd hresult (by simp))
  · rename_i oldPid hrecorded
    split
    · rename_i hmine
      refine inv_closing hinv hbusy hfd (fun halive _ => ⟨hnamed halive (fun q hq heq => hq ?_), by rw [hrecorded, hmine]⟩)
      exact Pid.eq_of_val_cast (heq.symm.trans (hrecorded.trans (congrArg some hmine)))
    · refine hinv.setProc (fun h => h)
        (Coherent.of_file (.checking fd oldPid) fd (by simp) rfl (h.bound fd hfd) ?_ ?_ ?_ ?_ ?_ ?_ ?_)
      · exact fun halive _ => h.locked (by simpa using halive) fd hlocked
      · exact h.owner_of_not_wins (by simp) (by simp) (by simp [Pc.wins])
      · exact fun halive hne => h.unlinked (by simpa using halive) fd hfd hne
      · intro _ oldPid' hpc'
        have heq : oldPid = oldPid' := by simpa using hpc'
        subst oldPid'
        exact hrecorded
      · simp [Pc.claims]
      · simp
      · simpa using h.busy hbusy

/-- The step the code does not rule out: a process finds the owner recorded in its file dead, and goes on to take the file over, though the target path no longer names that file. -/
def takesOverUnlinked (s : State) (a : Pid × Act) : Bool :=
  match a.2, (s.proc a.1).pc with
  | .advance, .checking fd oldPid => !s.procExists oldPid && s.target != some fd
  | _, _ => false

theorem inv_checkPid {s : State} (hinv : Inv s) {p : Pid} {fd : Inode} {oldPid : Int}
    (hpc : (s.proc p).pc = .checking fd oldPid) (hguard : s.procExists oldPid = false → s.target = some fd) :
    Inv (s.checkPid p fd oldPid) := by
  have h := hinv.proc p
  have hfd : (s.proc p).pc.fd = some fd := by rw [hpc]; rfl
  rw [State.checkPid]
  split
  · refine inv_closing hinv (by rw [hpc]; simp) hfd (fun halive hresult => ?_)
    have hrecorded := h.checked halive fd oldPid hpc
    have hmine : oldPid = p.val := Option.some.inj hresult
    refine ⟨?_, by rw [hrecorded, hmine]⟩
    by_contra hne
    obtain ⟨q, hq, hother⟩ := h.unlinked halive fd hfd hne
    exact hq (Pid.eq_of_val_cast (hother.symm.trans (hrecorded.trans (congrArg some hmine))))
  · rename_i hdead
    refine inv_claiming hinv (by rw [hpc]; rfl) (Or.inl rfl) (fun halive => ⟨hguard (by simpa using hdead), fun q hq heq => hdead ?_⟩)
    have hq' : oldPid = q.val := Option.some.inj ((h.checked halive fd oldPid hpc).symm.trans heq)
    rw [hq', State.procExists_pid, hq]

/-- Writing into a claimed file: the others own nothing and hold no lock on it. -/
theorem Coherent.frame_claimed {s : State} {p q : Pid} {fd : Inode} {pc : Pc} {text : List Char} (hinv : Inv s)
    (halive : (s.proc p).alive = true) (hclaims : (s.proc p).pc.claims = some fd) (hq : q ≠ p) :
    Coherent ((s.setContent fd text).setPc p pc) q := by
  have h := hinv.proc p
  obtain ⟨hnamed, hvacant⟩ := h.claimed halive fd hclaims
  have hholder := h.locked halive fd (Pc.locked_of_claims hclaims)
  have hcontent : ∀ fd', fd' ≠ fd → (s.setContent fd text).content fd' = s.content fd' :=
    fun fd' hne => Function.update_of_ne hne _ _
  refine (hinv.proc q).frame (State.setProc_proc_ne _ hq _)
    (State.alive_of_setPc (s := s.setContent fd text)) rfl le_rfl (fun _ h => h) ?_ ?_ ?_
  · intro fd' hfd'
    refine hcontent fd' (fun heq => hq ?_)
    subst fd'
    exact Option.some.inj (hfd'.symm.trans hholder)
  · intro fd' hne
    refine hcontent fd' (fun heq => hne ?_)
    subst fd'
    exact hnamed
  · intro hown
    obtain ⟨fd', htarget, hrecorded⟩ := (hinv.proc q).owner hown
    have heq : fd = fd' := Option.some.inj (hnamed.symm.trans htarget)
    subst fd'
    exact absurd hrecorded (hvacant q hown.1)

theorem inv_truncate {s : State} (hinv : Inv s) {p : Pid} {fd : Inode} (halive : (s.proc p).alive = true)
    (hpc : (s.proc p).pc = .truncating fd) : Inv ((s.setContent fd []).setPc p (.writing fd)) := by
  have h := hinv.proc p
  have hclaims : (s.proc p).pc.claims = some fd := by rw [hpc]; rfl
  refine ⟨hinv.target_lt, fun q => ?_⟩
  by_cases hq : q = p
  · subst q
    have hempty : (s.setContent fd []).content fd = [] := Function.update_self ..
    have hrecorded : ((s.setContent fd []).setPc p (.writing fd)).recorded fd = none := by
      rw [State.recorded]
      exact (congrArg (fun text => pyInt (text.take 20)) hempty).trans pyInt_nil
    obtain ⟨hnamed, hvacant⟩ := h.claimed halive fd hclaims
    refine Coherent.of_file (.writing fd) fd ?_ rfl (h.bound fd (by rw [hpc]; rfl)) ?_ ?_ ?_ ?_ ?_ ?_ ?_
    · simp [State.setPc]
    · exact fun _ _ => h.locked halive fd (by rw [hpc]; rfl)
    · intro hown
      obtain ⟨fd', htarget, hrecorded'⟩ :=
        h.owner_of_not_wins (by simp [State.setPc]) (by simp [State.setPc]) (by simp [State.setPc, Pc.wins]) hown
      have heq : fd = fd' := Option.some.inj (hnamed.symm.trans htarget)
      subst fd'
      exact absurd hrecorded' (hvacant p halive)
    · exact fun _ hne => absurd hnamed hne
    · simp
    · exact fun _ _ => ⟨hnamed, by simp [hrecorded]⟩
    · exact fun _ _ => hempty
    · simpa [State.setPc] using h.busy (by rw [hpc]; simp)
  · exact Coherent.frame_claimed hinv halive hclaims hq

/-- The pid of a process fits the bytes a reader looks at. -/
theorem take_decimal (p : Pid) : (decimal p.val).take 20 = decimal p.val := by
  apply List.take_of_length_le
  exact (Nat.length_toDigits_le_iff (by decide) (by decide)).mpr p.isLt

theorem inv_writePid {s : State} (hinv : Inv s) {p : Pid} {fd : Inode} (halive : (s.proc p).alive = true)
    (hpc : (s.proc p).pc = .writing fd) : Inv (s.writePid p fd) := by
  have h := hinv.proc p
  have hclaims : (s.proc p).pc.claims = some fd := by rw [hpc]; rfl
  have hfd : (s.proc p).pc.fd = some fd := by rw [hpc]; rfl
  obtain ⟨hnamed, _⟩ := h.claimed halive fd hclaims
  rw [State.writePid, h.emptied halive fd hpc, List.drop_nil, List.append_nil]
  have hrecorded : ((s.setContent fd (decimal p.val)).setPc p (.closing fd (some p.val))).recorded fd = some (p.val : Int) := by
    have hcontent : (s.setContent fd (decimal p.val)).content fd = decimal p.val := Function.update_self ..
    rw [State.recorded]
    refine (congrArg (fun text => pyInt (text.take 20)) hcontent).trans ?_
    rw [take_decimal, pyInt_decimal]
  refine ⟨hinv.target_lt, fun q => ?_⟩
  by_cases hq : q = p
  · subst q
    refine Coherent.of_file (.closing fd (some p.val)) fd ?_ rfl (h.bound fd hfd) ?_ ?_ ?_ ?_ ?_ ?_ ?_
    · simp [State.setPc]
    · simp [Pc.locked]
    · exact fun _ => ⟨fd, hnamed, hrecorded⟩
    · exact fun _ hne => absurd hnamed hne
    · simp
    · simp [Pc.claims]
    · simp
    · simpa [State.setPc] using h.busy (by rw [hpc]; simp)
  · exact Coherent.frame_claimed hinv halive hclaims hq

theorem unflock_proc (s : State) (p : Pid) (fd : Inode) : (s.unflock p fd).proc = s.proc := by
  rw [State.unflock]
  split <;> rfl

theorem inv_unflock {s : State} (hinv : Inv s) {p : Pid} {fd : Inode} (hlocked : (s.proc p).pc.locked = none) :
    Inv (s.unflock p fd) := by
  rw [State.unflock]
  split
  · rename_i hmine
    refine ⟨hinv.target_lt, fun q => ?_⟩
    by_cases hq : q = p
    · subst q
      have h := hinv.proc p
      exact ⟨h.bound, fun _ fd' hfd' => absurd (hlocked.symm.trans hfd') (by simp), h.owner, h.unlinked, h.checked,
        h.claimed, h.emptied, h.counted⟩
    · refine (hinv.proc q).frame_files rfl (fun _ h => h) rfl rfl rfl (fun fd' hfd' => ?_)
      have hne : fd' ≠ fd := by
        intro heq
        subst fd'
        exact hq (Option.some.inj (hfd'.symm.trans hmine))
      exact (Function.update_of_ne hne _ _).trans hfd'
  · exact hinv

theorem inv_closeFile {s : State} (hinv : Inv s) {p : Pid} {fd : Inode} {result : Option Int}
    (hpc : (s.proc p).pc = .closing fd result) : Inv (s.closeFile p fd result) := by
  have hinv' : Inv (s.unflock p fd) := inv_unflock hinv (by rw [hpc]; rfl)
  have h := hinv'.proc p
  have hpc' : ((s.unflock p fd).proc p).pc = .closing fd result := by rw [unflock_proc, hpc]
  have hcounted := h.busy (by rw [hpc']; simp)
  cases result with
  | none =>
      refine hinv'.setProc (fun h => h) (Coherent.of_no_file (by simp [Pc.fd]) ?_ ?_)
      · exact h.owner_of_not_wins (by simp) (by simp) (by simp [Pc.wins])
      · simp
        omega
  | some pid =>
      refine hinv'.setProc (fun h => h) (Coherent.of_no_file (by simp [Pc.fd]) (fun hown => ?_) ?_)
      · refine h.owner ⟨by simpa using hown.1, ?_⟩
        rw [hpc']
        simpa [Pc.wins] using hown.2
      · simpa using hcounted

theorem inv_loopTest {s : State} (hinv : Inv s) {p : Pid} {pid : Int} (hpc : (s.proc p).pc = .returned pid) :
    Inv (s.loopTest p pid) := by
  have h := hinv.proc p
  have hcounted := h.busy (by rw [hpc]; simp)
  rw [State.loopTest]
  split
  · rename_i hmine
    refine hinv.setProc (fun h => h) (Coherent.of_no_file (by simp [Pc.fd]) (fun hown => ?_) ?_)
    · refine h.owner ⟨by simpa using hown.1, Or.inr ?_⟩
      rw [hpc]
      exact hmine
    · simpa using hcounted
  split
  · refine hinv.setProc (fun h => h) (Coherent.of_no_file (by simp [Pc.fd]) ?_ ?_)
    · exact h.owner_of_not_wins (by simp) (by simp) (by simp [Pc.wins])
    · simp
      omega
  · refine hinv.setProc (fun h => h) (Coherent.of_no_file (by simp [Pc.fd]) ?_ ?_)
    · exact h.owner_of_not_wins (by simp) (by simp) (by simp [Pc.wins])
    · simpa using hcounted

theorem inv_advance {s t : State} (hinv : Inv s) {p : Pid} (halive : (s.proc p).alive = true)
    (hguard : takesOverUnlinked s (p, .advance) = false) (hstep : s.advance p = some t) : Inv t := by
  rw [State.advance] at hstep
  split at hstep
  · exact absurd hstep (by simp)
  all_goals
    rename_i hpc
    rw [Option.some.injEq] at hstep
    subst hstep
  · exact inv_openTarget hinv hpc
  · exact inv_flock hinv hpc
  · exact inv_readPid hinv hpc
  · refine inv_checkPid hinv hpc (fun hdead => ?_)
    simpa [takesOverUnlinked, hpc, hdead] using hguard
  · exact inv_truncate hinv halive hpc
  · exact inv_writePid hinv halive hpc
  · exact inv_closeFile hinv hpc
  · exact inv_loopTest hinv hpc

theorem inv_failCall {s t : State} (hinv : Inv s) {p : Pid} (hstep : s.failCall p = some t) : Inv t := by
  rw [State.failCall] at hstep
  split at hstep
  case h_6 => exact absurd hstep (by simp)
  all_goals
    rename_i hpc
    rw [Option.some.injEq] at hstep
    subst hstep
  case h_1 =>
    have h := hinv.proc p
    refine hinv.setProc (fun h => h) (Coherent.of_no_file (by simp [Pc.fd]) ?_ ?_)
    · exact h.owner_of_not_wins (by simp) (by simp) (by simp [Pc.wins])
    · have hcounted := h.busy (by rw [hpc]; simp)
      simp
      omega
  all_goals
    exact inv_closing hinv (by rw [hpc]; simp) (by rw [hpc]; rfl) (fun _ hresult => absurd hresult (by simp))

/-- The last exit unlinks the process's own file: nobody else owns the lock, and whoever has the file open finds another pid in it. -/
theorem inv_unlink {s : State} (hinv : Inv s) {p : Pid} {fd : Inode} (hidle : (s.proc p).pc = .idle)
    (halive : (s.proc p).alive = true) (htarget : s.target = some fd) (hrecorded : s.recorded fd = some (p.val : Int))
    (hcount : (s.proc p).count = 1) :
    Inv { s.setProc p { s.proc p with count := 0, depth := (s.proc p).depth - 1 } with target := none } := by
  refine ⟨fun _ h => absurd h (by simp), fun q => ?_⟩
  by_cases hq : q = p
  · subst q
    have hdepth : (s.proc p).depth - 1 = 0 := by
      have hcounted := (hinv.proc p).counted
      rw [hidle, hcount] at hcounted
      simp at hcounted
      omega
    refine Coherent.of_no_file ?_ (fun hown => ?_) ?_
    · simp [hidle, Pc.fd]
    · have hfalse := hown.2
      simp [hidle, Pc.wins, hdepth] at hfalse
    · simp [hidle, hdepth]
  · have h := hinv.proc q
    have hproc := State.setProc_proc_ne s hq { s.proc p with count := 0, depth := (s.proc p).depth - 1 }
    refine ⟨?_, ?_, ?_, ?_, ?_, ?_, ?_, ?_⟩
    · intro fd' hfd'
      exact h.bound fd' (by rwa [hproc] at hfd')
    · intro hq fd' hfd'
      rw [hproc] at hq hfd'
      exact h.locked hq fd' hfd'
    · intro hown
      rw [State.Owns, hproc] at hown
      obtain ⟨fd', htarget', hrecorded'⟩ := h.owner hown
      have heq : fd = fd' := Option.some.inj (htarget.symm.trans htarget')
      subst fd'
      exact absurd (Pid.eq_of_val_cast (hrecorded'.symm.trans hrecorded)) hq
    · intro hq' fd' hfd' _
      rw [hproc] at hq' hfd'
      by_cases heq : fd' = fd
      · subst fd'
        exact ⟨p, Ne.symm hq, hrecorded⟩
      · exact h.unlinked hq' fd' hfd' (by rw [htarget]; simpa using Ne.symm heq)
    · intro hq' fd' oldPid hpc
      rw [hproc] at hq' hpc
      exact h.checked hq' fd' oldPid hpc
    · intro hq' fd' hfd'
      rw [hproc] at hq' hfd'
      obtain ⟨hnamed, hvacant⟩ := h.claimed hq' fd' hfd'
      have heq : fd = fd' := Option.some.inj (htarget.symm.trans hnamed)
      subst fd'
      exact absurd hrecorded (hvacant p halive)
    · intro hq' fd' hpc
      rw [hproc] at hq' hpc
      exact h.emptied hq' fd' hpc
    · rw [hproc]
      exact h.counted

theorem inv_exit {s : State} (hinv : Inv s) {p : Pid} (halive : (s.proc p).alive = true) (hidle : (s.proc p).pc = .idle)
    (hdepth : 0 < (s.proc p).depth) : Inv (s.exit p) := by
  obtain ⟨fd, htarget, hrecorded⟩ := (hinv.proc p).owner ⟨halive, Or.inl hdepth⟩
  rw [State.exit]
  split
  · rename_i hcount
    rw [htarget]
    exact inv_unlink hinv hidle halive htarget hrecorded hcount
  · have hcounted := (hinv.proc p).counted
    rw [hidle, if_pos rfl] at hcounted
    refine hinv.setProc (fun h => h) (Coherent.of_no_file (by simp [hidle, Pc.fd]) (fun _ => ?_) ?_)
    · exact ⟨fd, htarget, hrecorded⟩
    · simp [hidle]
      omega

theorem inv_die {s : State} (hinv : Inv s) (p : Pid) : Inv (s.die p) := by
  refine ⟨hinv.target_lt, fun q => ?_⟩
  by_cases hq : q = p
  · subst q
    have h := hinv.proc p
    refine ⟨?_, ?_, ?_, ?_, ?_, ?_, ?_, ?_⟩
    · simpa [State.die] using h.bound
    · simp [State.die]
    · simp [State.die, State.Owns]
    · simp [State.die]
    · simp [State.die]
    · simp [State.die]
    · simp [State.die]
    · simpa [State.die] using h.counted
  · refine (hinv.proc q).frame_files (State.setProc_proc_ne s hq _)
      (State.alive_of_setProc { s.proc p with alive := false } (fun h => absurd h (by simp))) rfl rfl rfl (fun fd hfd => ?_)
    have hne : s.holder fd ≠ some p := by
      rw [hfd]
      simpa using hq
    exact (if_neg hne).trans hfd

/-- Every step but the take-over of an unlinked file keeps the invariant. -/
theorem inv_step {s t : State} {a : Pid × Act} (hinv : Inv s) (hguard : takesOverUnlinked s a = false)
    (hstep : s.step a = some t) : Inv t := by
  obtain ⟨p, act⟩ := a
  rw [State.step] at hstep
  split at hstep
  · rename_i halive
    cases act with
    | enter =>
        obtain ⟨hidle, heq⟩ := Option.ite_none_right_eq_some.mp hstep
        rw [Option.some.injEq] at heq
        subst heq
        exact inv_enter hinv hidle
    | exit =>
        obtain ⟨⟨hidle, hdepth⟩, heq⟩ := Option.ite_none_right_eq_some.mp hstep
        rw [Option.some.injEq] at heq
        subst heq
        exact inv_exit hinv halive hidle hdepth
    | advance => exact inv_advance hinv halive hguard hstep
    | fail => exact inv_failCall hinv hstep
    | die =>
        have heq := Option.some.inj hstep
        subst heq
        exact inv_die hinv p
  · exact absurd hstep (by simp)

/-! ### Mutual exclusion -/

/-- In every state reached by steps none of which takes over an unlinked file, at most one live process is inside. -/
theorem mutualExclusion_of_no_takeover (s : State)
    (hreach : system.Reachable (fun s a => takesOverUnlinked s a = false) s) (p q : Pid)
    (hp : s.Inside p) (hq : s.Inside q) : p = q := by
  have hinv : Inv s := hreach.invariant (fun _ h => inv_of_init h) (fun _ _ _ hs hguard hstep => inv_step hs hguard hstep)
  exact hinv.owns_unique ⟨hp.1, Or.inl hp.2⟩ ⟨hq.1, Or.inl hq.2⟩

/-- All processes are alive and nobody has entered; the target is missing. -/
def quiet : State where
  target := none
  content := fun _ => []
  holder := fun _ => none
  fresh := 0
  proc := fun _ => { alive := true, blocking := false, count := 0, depth := 0, pc := .idle }

theorem quiet_init : quiet.Init := ⟨by simp [quiet], fun _ => rfl, fun _ => rfl, fun _ => rfl, fun _ => rfl⟩

/-- The first process crashes inside, and the second takes over its lock file. -/
def crashRun : List (Pid × Act) :=
  (1, .enter) :: List.replicate 6 (1, .advance) ++ (1, .die) :: (2, .enter) :: List.replicate 8 (2, .advance)

theorem mutualExclusion_after_crash :
    ∃ s, system.Reachable (fun s a => takesOverUnlinked s a = false) s ∧ s.Inside 2 ∧ ∀ q, s.Inside q → q = 2 := by
  have hrun : (system.exec (fun s a => takesOverUnlinked s a = false) quiet crashRun).any
      (fun s => (s.proc 2).alive && decide (0 < (s.proc 2).depth)) = true := by decide +kernel
  obtain ⟨s, hreach, hinside⟩ := System.exists_reachable_of_exec quiet_init hrun
  have hinside : s.Inside 2 := by simpa [State.Inside] using hinside
  exact ⟨s, hreach, hinside, fun q hq => mutualExclusion_of_no_takeover s hreach q 2 hq hinside⟩

/-- The second process opens the file of the first one, which exits and dies before the second looks into it. The second takes over the unlinked file, and the third finds no file at all and creates its own. -/
def takeoverRun : List (Pid × Act) :=
  (1, .enter) :: List.replicate 6 (1, .advance) ++ (2, .enter) :: (2, .advance) :: (1, .exit) :: (1, .die) ::
    List.replicate 7 (2, .advance) ++ (3, .enter) :: List.replicate 6 (3, .advance)

theorem not_mutualExclusion :
    ¬ ∀ s, system.Reachable System.anyStep s → ∀ p q, s.Inside p → s.Inside q → p = q := by
  intro hexclusion
  have hrun : (system.exec System.anyStep quiet takeoverRun).any (fun s =>
      ((s.proc 2).alive && decide (0 < (s.proc 2).depth)) && ((s.proc 3).alive && decide (0 < (s.proc 3).depth))) = true := by
    decide +kernel
  obtain ⟨s, hreach, hinside⟩ := System.exists_reachable_of_exec quiet_init hrun
  have hboth : s.Inside 2 ∧ s.Inside 3 := by simpa [State.Inside] using hinside
  have heq := hexclusion s hreach 2 3 hboth.1 hboth.2
  exact absurd heq (by decide)

end ProcessLock

end Dnf
