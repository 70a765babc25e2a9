import Dnf.Cli.Main

/-!
# What the exit status says

An exit status is the one that the command wants, and then all of the transaction was done; or it is 1 or 200, and then the command's own last step was not reached or an exception ended the run. 200 is for exceptions of the lock.
-/

namespace Dnf.Cli.Main

open Foundation Foundation.Effect
open Gated (Entry)

variable {ω : Type} {o : Outside ω}

def Class.exitStatus (c : Class) : Int := if c.isA .lockError then 200 else 1

/-- Nothing was to be resolved, or the transaction was done. -/
inductive Completed : List (Stage ω) → List Entry → Prop
  | idle : Completed [] []
  | transacted (base items log) (h : base.Done items log) : Completed [.resolving, .transacted base items] log

/-- The transaction was not done, at least not to its normal end; without a demand nothing was changed. -/
inductive Refused : List (Stage ω) → List Entry → Prop
  | idle : Refused [] []
  | resolving (log) : Refused [.resolving] log

def Stopped (stages : List (Stage ω)) (log : List Entry) : Prop := Refused stages log ∨ Completed stages log

def Finished (status : Int) (stages : List (Stage ω)) (log : List Entry) : Prop := ∃ before, stages = before ++ [.finished status] ∧ Completed before log

def Interrupted (stages : List (Stage ω)) (log : List Entry) : Prop := Stopped stages log ∨ ∃ status, Finished status stages log

def Raised (c : Class) (stages : List (Stage ω)) (log : List Entry) : Prop := ∃ before, stages = before ++ [.raised c] ∧ Interrupted before log

/-! ### The parts of a program -/

/-- What holds of the state, whatever the calls do to the world. -/
def About (F : List (Stage ω) → List Entry → Prop) (s : State ω) : Prop := F s.stages s.gated.log

variable {F G : List (Stage ω) → List Entry → Prop}

theorem About.mono {s : State ω} (hs : About F s) (h : ∀ stages log, F stages log → G stages log) : About G s := h s.stages s.gated.log hs

/-- The start of the transaction, as the signature check wants it. -/
def Quiet (stages : List (Stage ω)) (s : State ω) : Prop := s.stages = stages ∧ s.gated.log = [] ∧ s.gated.gpg.trace = []

theorem call_triple {P : State ω → Prop} (hP : ∀ s world, P s → P (s.setWorld world)) {α : Type} (x : Call ω α) :
    Triple P (call x) (fun _ => P) (fun _ => P) := by
  intro s hs
  rw [call]
  cases x s.world with
  | mk result world =>
      cases result with
      | ok a => exact hP s world hs
      | error c => exact hP s world hs

theorem about_call {α : Type} (x : Call ω α) : Triple (About F) (call x) (fun _ => About F) (fun _ => About F) :=
  call_triple (fun _ _ hs => hs) x

theorem quiet_call {α : Type} (stages : List (Stage ω)) (x : Call ω α) : Triple (Quiet stages) (call x) (fun _ => Quiet stages) (fun _ => Quiet stages) :=
  call_triple (fun _ _ hs => hs) x

/-! ### The transaction -/

theorem refused_of_quiet {s : State ω} (hs : Quiet [] s) : About Refused s := by
  rw [About, hs.1, hs.2.1]
  exact .idle

theorem refused_of_resolving {s : State ω} (hs : s.stages = [.resolving]) : About Refused s := by
  rw [About, hs]
  exact .resolving _

/-- The transaction was done in full. -/
def Transacted (stages : List (Stage ω)) (log : List Entry) : Prop := ∃ base items, stages = [.resolving, .transacted base items] ∧ base.Done items log

theorem completed_of_transacted {stages : List (Stage ω)} {log : List Entry} (h : Transacted stages log) : Completed stages log := by
  obtain ⟨base, items, rfl, hdone⟩ := h
  exact .transacted base items log hdone

theorem doTransaction_triple : Triple (Quiet [.resolving]) o.doTransaction (fun _ => About Transacted) (fun _ => About fun stages _ => stages = [.resolving]) := by
  intro s hs
  have hends := @Gated.BaseCli.doTransaction_triple ω (o.base s.world) ((o.transaction s.world).getD []) s.gated
    (Gated.BaseCli.knows_unsigned hs.2.1 hs.2.2)
  rw [Outside.doTransaction]
  cases hrun : (o.base s.world).doTransaction ((o.transaction s.world).getD []) s.gated with
  | ok _ t =>
      rw [hrun] at hends
      exact ⟨_, _, by rw [hs.1]; rfl, hends.2⟩
  | error e t => exact hs.1

/-- `resolving` returns 0 only after the transaction. -/
def Resolved (ret : Int) (s : State ω) : Prop := if ret = 0 then About Completed s else ret = 1 ∧ About Refused s

theorem transact_triple : Triple (Quiet [.resolving]) o.transact Resolved (fun _ => About Stopped) := by
  refine Triple.tryCatch (Triple.bind doTransaction_triple fun _ => Triple.pure fun s hs => ?_) fun c => ?_
  · rw [Resolved, if_pos rfl]
    exact hs.mono fun _ _ => completed_of_transacted
  · have hone : ∀ s : State ω, About (fun stages _ => stages = [.resolving]) s → Resolved 1 s := by
      intro s hs
      rw [Resolved, if_neg (by decide)]
      exact ⟨rfl, refused_of_resolving hs⟩
    refine Triple.ite (fun _ => Triple.pure hone) fun _ => Triple.ite (fun _ => ?_) fun _ => Triple.ite (fun _ => Triple.pure hone) fun _ => ?_
    · refine Triple.bind ((about_call _).weaken (fun _ hs => hs) (fun _ _ hs => hs) fun _ _ hs => Or.inl (refused_of_resolving hs)) fun _ => Triple.pure hone
    · exact Triple.throw fun _ hs => Or.inl (refused_of_resolving hs)

theorem runResolving_triple : Triple (Quiet [.resolving]) o.runResolving Resolved (fun _ => About Stopped) := by
  have hcall : ∀ x : Call ω Unit, Triple (Quiet [.resolving]) (call x) (fun _ => Quiet [.resolving]) (fun _ => About Stopped) :=
    fun x => (quiet_call _ x).weaken (fun _ hs => hs) (fun _ _ hs => hs) fun _ _ hs => Or.inl (refused_of_resolving hs.1)
  have hensure : Triple (Quiet [.resolving]) o.ensureTransaction (fun _ => Quiet [.resolving]) (fun _ => About Stopped) :=
    Triple.bind (M := fun _ => Quiet [.resolving]) (Triple.get fun _ hs => hs) fun s => Triple.ite (fun _ => hcall _) fun _ => Triple.pure fun _ hs => hs
  exact Triple.bind hensure fun _ => Triple.bind (hcall _) fun _ => transact_triple

theorem resolvingStage_triple : Triple (Quiet []) o.resolvingStage Resolved (fun _ => About Stopped) := by
  refine Triple.bind (M := fun _ => Quiet []) (Triple.get fun _ hs => hs) fun s => Triple.ite (fun _ => ?_) fun _ => Triple.pure fun s hs => ?_
  · refine Triple.bind (M := fun _ => Quiet [.resolving]) (Triple.modify fun s hs => ⟨?_, hs.2⟩) fun _ => ?_
    · show s.stages ++ [.resolving] = [.resolving]
      rw [hs.1, List.nil_append]
    · refine Triple.tryCatch runResolving_triple fun c => Triple.ite (fun _ => ?_) fun _ => Triple.throw fun _ hs => hs
      exact Triple.bind (about_call _) fun _ => Triple.throw fun _ hs => hs
  · rw [Resolved, if_pos rfl, About, hs.1, hs.2.1]
    exact .idle

/-! ### The command -/

/-- How a run inside of `main` ends. -/
def Ended (status : Int) (s : State ω) : Prop := About (Finished status) s ∨ status = 1 ∧ About Refused s

theorem finish_triple : Triple (About Completed) o.finish Ended (fun _ => About Stopped) := by
  refine Triple.bind ((about_call _).weaken (fun _ hs => hs) (fun _ _ hs => hs) fun _ _ hs => Or.inr hs) fun _ => ?_
  refine Triple.bind (M := fun _ => About Completed) (Triple.get fun _ hs => hs) fun s => ?_
  refine Triple.bind (M := fun _ => About (Finished (o.successExitStatus s.world))) (Triple.modify fun t ht => ⟨_, rfl, ht⟩) fun _ => ?_
  exact Triple.pure fun _ hs => .inl hs

theorem runCommand_triple : Triple (Quiet []) o.runCommand
    (fun ended s => if ended = none then Quiet [] s else ended = some 1 ∧ Quiet [] s) (fun _ => Quiet []) := by
  refine Triple.tryCatch (Triple.bind (quiet_call _ _) fun _ => Triple.pure fun s hs => ?_) fun c => ?_
  · rwa [if_pos rfl]
  · refine Triple.ite (fun _ => Triple.throw fun _ hs => hs) fun _ => Triple.ite (fun _ => Triple.pure fun s hs => ?_) fun _ => Triple.throw fun _ hs => hs
    rw [if_neg (by simp)]
    exact ⟨rfl, hs⟩

theorem cliRun_triple : Triple (Quiet []) o.cliRun Ended (fun _ => About Stopped) := by
  have hcall : ∀ {α : Type} (x : Call ω α), Triple (Quiet []) (call x) (fun _ => Quiet []) (fun _ => About Stopped) :=
    fun x => (quiet_call _ x).weaken (fun _ hs => hs) (fun _ _ hs => hs) fun _ _ hs => Or.inl (refused_of_quiet hs)
  have hleave : Triple (Quiet []) o.leaveUnreadable (fun _ => Quiet []) (fun _ => About Stopped) :=
    Triple.bind (hcall _) fun readable => Triple.ite (fun _ => Triple.pure fun _ hs => hs) fun _ => hcall _
  refine Triple.bind hleave fun _ => ?_
  refine Triple.bind (runCommand_triple.weaken (fun _ hs => hs) (fun _ _ hs => hs) fun _ _ hs => Or.inl (refused_of_quiet hs)) fun ended => ?_
  cases ended with
  | some status => exact Triple.pure fun s hs => .inr ⟨Option.some.inj hs.1, refused_of_quiet hs.2⟩
  | none =>
      refine Triple.bind resolvingStage_triple fun ret => Triple.ite (fun hzero => ?_) fun hret => Triple.pure fun s hs => ?_
      · exact finish_triple.weaken (fun s hs => by rwa [Resolved, if_pos hzero] at hs) (fun _ _ hs => hs) fun _ _ hs => hs
      · rw [Resolved, if_neg hret] at hs
        exact .inr hs

theorem mainOfBase_triple : Triple (Quiet []) o.mainOfBase Ended (fun _ => About Stopped) := by
  have hquiet : ∀ s : State ω, Quiet [] s → About Stopped s := fun _ hs => .inl (refused_of_quiet hs)
  refine Triple.bind ((quiet_call _ _).weaken (fun _ hs => hs) (fun _ _ hs => hs) fun _ => hquiet) fun _ => ?_
  have hconfigured : Triple (Quiet []) o.configured (fun ended s => (ended = none ∨ ended = some 1) ∧ Quiet [] s) (fun _ => About Stopped) := by
    refine Triple.tryCatch (Triple.bind (quiet_call _ _) fun _ => Triple.pure fun _ hs => ⟨.inl rfl, hs⟩) fun c => ?_
    exact Triple.ite (fun _ => Triple.pure fun _ hs => ⟨.inr rfl, hs⟩) fun _ => Triple.throw hquiet
  refine Triple.bind hconfigured fun ended => ?_
  cases ended with
  | some status =>
      refine Triple.pure fun s hs => .inr ⟨?_, refused_of_quiet hs.2⟩
      exact Option.some.inj (hs.1.resolve_left (by simp))
  | none => exact cliRun_triple.weaken (fun _ hs => hs.2) (fun _ _ hs => hs) fun _ _ hs => hs

/-! ### The whole run -/

theorem interrupted_of_ended {status : Int} {s : State ω} (hs : Ended status s) : About Interrupted s :=
  hs.elim (fun h => .inr ⟨status, h⟩) fun h => .inl (.inl h.2)

theorem withBase_triple : Triple (Quiet []) (o.withBase o.mainOfBase) Ended (fun _ => About Interrupted) := by
  have hbody : Triple (Quiet []) (tryCatch o.mainOfBase fun c => do
      call o.close
      throw c) Ended (fun _ => About Interrupted) := by
    refine Triple.tryCatch mainOfBase_triple fun c => ?_
    refine Triple.bind (M := fun _ => About Interrupted) ?_ fun _ => Triple.throw fun _ hs => hs
    exact (about_call _).weaken (fun _ hs => hs) (fun _ _ hs => .inl hs) fun _ _ hs => .inl hs
  refine Triple.bind hbody fun status => Triple.bind (M := fun _ => Ended status) ?_ fun _ => Triple.pure fun _ hs => hs
  exact (call_triple (fun _ _ hs => hs) _).weaken (fun _ hs => hs) (fun _ _ hs => hs) fun _ _ hs => interrupted_of_ended hs

def Returned (status : Int) (s : State ω) : Prop := Ended status s ∨ ∃ c, status = c.exitStatus ∧ About (Raised c) s

def Uncaught (c : Class) (s : State ω) : Prop := ∃ c', (c' = .other ∧ c = .other ∨ c'.isA .processLockError) ∧ About (Raised c') s

theorem isA_lockError_of_processLockError {c : Class} (h : c.isA .processLockError = true) : c.isA .lockError = true := by
  revert h
  cases c <;> decide

theorem eq_other {c : Class} (hlock : c.isA .lockError ≠ true) (herror : c.isA .error ≠ true) (hhawkey : c.isA .hawkeyException ≠ true)
    (hlibdnf : c.isA .libdnfError ≠ true) (hio : c.isA .ioError ≠ true) (hkeyboard : c.isA .keyboardInterrupt ≠ true) : c = .other := by
  revert hlock herror hhawkey hlibdnf hio hkeyboard
  cases c <;> decide

theorem handle_triple (c : Class) : Triple (About Interrupted) (o.handle c) Returned Uncaught := by
  refine Triple.bind (M := fun _ => About (Raised c)) (Triple.modify fun s hs => ⟨s.stages, rfl, hs⟩) fun _ => ?_
  have hother : c.isA .lockError ≠ true → ∀ s : State ω, About (Raised c) s → Returned 1 s :=
    fun hlock s hs => .inr ⟨c, by rw [Class.exitStatus, if_neg hlock], hs⟩
  have hlock : c.isA .lockError = true → ∀ s : State ω, About (Raised c) s → Returned 200 s :=
    fun hlock s hs => .inr ⟨c, by rw [Class.exitStatus, if_pos hlock], hs⟩
  refine Triple.ite (fun hprocess => ?_) fun _ => Triple.ite (fun h => Triple.pure (hlock h)) fun h => ?_
  · refine Triple.bind ((about_call _).weaken (fun _ hs => hs) (fun _ _ hs => hs) fun _ _ hs => ⟨c, .inr hprocess, hs⟩) fun _ => ?_
    exact Triple.pure (hlock (isA_lockError_of_processLockError hprocess))
  refine Triple.ite (fun _ => Triple.pure (hother h)) fun _ => Triple.ite (fun _ => Triple.pure (hother h)) fun herror => ?_
  refine Triple.ite (fun _ => Triple.pure (hother h)) fun hhawkey => Triple.ite (fun _ => Triple.pure (hother h)) fun hlibdnf => ?_
  refine Triple.ite (fun _ => Triple.pure (hother h)) fun hio => Triple.ite (fun _ => Triple.pure (hother h)) fun hkeyboard => ?_
  have hother := eq_other h herror hhawkey hlibdnf hio hkeyboard
  exact Triple.throw fun s hs => ⟨c, .inl ⟨hother, hother⟩, hs⟩

theorem main_triple : Triple (Quiet []) o.main Returned Uncaught := by
  refine Triple.tryCatch (F := fun _ => About Interrupted) (Triple.bind (M := fun _ => Quiet []) ?_ fun _ => ?_) handle_triple
  · exact (quiet_call _ _).weaken (fun _ hs => hs) (fun _ _ hs => hs) fun _ _ hs => .inl (Or.inl (refused_of_quiet hs))
  · exact withBase_triple.weaken (fun _ hs => hs) (fun _ _ hs => .inl hs) fun _ _ hs => hs

/-- `main` returns the status the command wants after its last step, and then the transaction was either not demanded or done to its end; or 1, and it was not; or the status of an exception that ended the run, 200 for those of the lock and 1 for all others. An exception leaves `main` only if no clause names it, or while the owner of the lock is shown. -/
theorem main_status (o : Outside ω) (gpg : Gpg.State ω) :
    match o.main { gated := { gpg := gpg.fresh } } with
    | .ok status t => About (Finished status) t ∨ status = 1 ∧ About Refused t ∨ ∃ c, status = c.exitStatus ∧ About (Raised c) t
    | .error c t => ∃ c', (c' = .other ∧ c = .other ∨ c'.isA .processLockError) ∧ About (Raised c') t := by
  have hends := main_triple (o := o) { gated := { gpg := gpg.fresh } } ⟨rfl, rfl, rfl⟩
  cases hrun : o.main { gated := { gpg := gpg.fresh } } with
  | ok status t =>
      rw [hrun] at hends
      exact or_assoc.mp hends
  | error c t =>
      rw [hrun] at hends
      exact hends

end Dnf.Cli.Main
