import Dnf.Shell.Shell
import Dnf.Transaction.Conservation

/-!
# A failed resolve

`run` resolves and commits. The resolve prints an unsolvable goal and returns, so the commit takes whatever earlier lines have left: an older transaction, changed modules, group and environment records. It commits nothing only where nothing is left, or where a gate on the way refuses it. Which of the two happens is decided before the resolve, because an unsolvable goal changes nothing but the goal.
-/

namespace Dnf.Shell

open Foundation Foundation.Effect
open Transaction (Item Goal)

variable {Job Change : Type}

/-! ### What a commit writes -/

theorem final_refuse_bind (condition : Bool) (x : ShellProg Job Change Unit) (s : State Job Change) :
    final ((refuse condition >>= fun _ => x) s) = if condition then s else final (x s) := by
  cases condition <;> rfl

theorem final_refuse (condition : Bool) (s : State Job Change) : final (refuse condition s) = s := by
  cases condition <;> rfl

def Gates.rpmOpens (gates : Gates) : Bool := !(gates.populateFails || gates.checkFails || gates.testFails || gates.test)

/-- The gates that matter in a session all let it pass. -/
def Gates.opens (gates : Gates) (s : Session Job Change) : Bool :=
  !(!gates.moduleStreamSwitch && gates.switchedStreams) && (bootcCheck gates s).isOk && !gates.promptRefused && !gates.downloadonly &&
    (!s.hasTransaction || !((s.rpm.any fun tsi => History.isForward tsi.action) && gates.downloadFails) && !gates.gpgFails && gates.rpmOpens)

def State.commit (s : State Job Change) : State Job Change :=
  if s.session.hasTransaction then s.saveModules.write (.rpm s.session.rpm s.session.history.items) else s.saveModules.saveRecords

theorem final_runRpm (gates : Gates) (s : State Job Change) :
    final (runRpm gates s) = if gates.rpmOpens then s.saveModules.write (.rpm s.session.rpm s.session.history.items) else s := by
  have hwrite : final ((if gates.test then pure () else do
      modify fun s => s.saveModules.write (.rpm s.session.rpm s.session.history.items)
      refuse gates.runFails : ShellProg Job Change Unit) s) =
      if gates.test then s else s.saveModules.write (.rpm s.session.rpm s.session.history.items) := by
    cases gates.test with
    | true => rfl
    | false => exact final_refuse _ _
  rw [runRpm, Gates.rpmOpens, final_refuse_bind, final_refuse_bind, final_refuse_bind, hwrite]
  cases gates.populateFails <;> cases gates.checkFails <;> cases gates.testFails <;> cases gates.test <;> rfl

theorem final_baseDoTransaction (gates : Gates) (s : State Job Change) :
    final (baseDoTransaction gates s) = if !s.session.hasTransaction || gates.rpmOpens then s.commit else s := by
  show final ((if s.session.hasTransaction then runRpm gates else modify fun s => s.saveModules.saveRecords : ShellProg Job Change Unit) s) = _
  rw [State.commit]
  cases htransaction : s.session.hasTransaction with
  | true => exact final_runRpm gates s
  | false => rfl

theorem final_download_bind (gates : Gates) (session : Session Job Change) (x : ShellProg Job Change Unit) (s : State Job Change) :
    final ((download gates session >>= fun _ => x) s) =
      if !session.hasTransaction || !((session.rpm.any fun tsi => History.isForward tsi.action) && gates.downloadFails) && !gates.gpgFails
      then final (x s) else s := by
  rw [download]
  cases session.hasTransaction with
  | false => rfl
  | true =>
      simp only [if_true, bind_assoc, final_refuse_bind]
      cases (session.rpm.any fun tsi => History.isForward tsi.action) && gates.downloadFails <;> cases gates.gpgFails <;> rfl

theorem final_lift_bind (check : Except Exc Unit) (x : ShellProg Job Change Unit) (s : State Job Change) :
    final ((lift check >>= fun _ => x) s) = if check.isOk then final (x s) else s := by
  cases check <;> rfl

theorem final_confirm (gates : Gates) (s : State Job Change) : final (confirm gates s.session s) =
    if (bootcCheck gates s.session).isOk && !gates.promptRefused && !gates.downloadonly &&
      (!s.session.hasTransaction || !((s.session.rpm.any fun tsi => History.isForward tsi.action) && gates.downloadFails) && !gates.gpgFails && gates.rpmOpens)
    then s.commit else s := by
  have hcommit : final ((if gates.downloadonly then pure () else baseDoTransaction gates : ShellProg Job Change Unit) s) =
      if !gates.downloadonly && (!s.session.hasTransaction || gates.rpmOpens) then s.commit else s := by
    cases gates.downloadonly with
    | true => rfl
    | false => exact final_baseDoTransaction gates s
  rw [confirm, final_lift_bind, final_refuse_bind, final_download_bind, hcommit]
  cases (bootcCheck gates s.session).isOk <;> cases gates.promptRefused <;> cases gates.downloadonly <;> cases s.session.hasTransaction <;>
    cases gates.gpgFails <;> cases gates.rpmOpens <;> cases (s.session.rpm.any fun tsi => History.isForward tsi.action) && gates.downloadFails <;> rfl

/-- A commit is written where there is something to do and the gates are open. -/
theorem final_cliDoTransaction (gates : Gates) (s : State Job Change) :
    final (cliDoTransaction gates s) = if s.session.pending && gates.opens s.session then s.commit else s := by
  have hpending : final ((do
      let session := (← get).session
      if session.pending then confirm gates session else pure () : ShellProg Job Change Unit) s) =
      if s.session.pending then final (confirm gates s.session s) else s := by
    show final ((if s.session.pending then confirm gates s.session else pure () : ShellProg Job Change Unit) s) = _
    cases s.session.pending <;> rfl
  rw [cliDoTransaction, final_refuse_bind, hpending, final_confirm, Gates.opens]
  cases !gates.moduleStreamSwitch && gates.switchedStreams <;> cases s.session.pending <;> rfl

theorem saveModules_log (s : State Job Change) :
    s.saveModules.log = s.log ++ if s.session.modules.isEmpty then [] else [⟨s.resolved, .modules s.session.modules⟩] := by
  rw [State.saveModules]
  cases s.session.modules.isEmpty with
  | true => exact (List.append_nil _).symm
  | false => rfl

theorem saveModules_resolved (s : State Job Change) : s.saveModules.resolved = s.resolved := by
  rw [State.saveModules]
  split_ifs <;> rfl

/-- A commit writes something, marked with whether the last resolve succeeded. -/
theorem commit_log {s : State Job Change} (hpending : s.session.pending = true) :
    ∃ entry rest, s.commit.log = s.log ++ entry :: rest ∧ ∀ other ∈ entry :: rest, other.resolved = s.resolved := by
  have hwrite : ∀ commit : Commit Change, ∃ entry rest,
      (s.saveModules.write commit).log = s.log ++ entry :: rest ∧ ∀ other ∈ entry :: rest, other.resolved = s.resolved := by
    intro commit
    rw [State.write, saveModules_log, saveModules_resolved, List.append_assoc]
    cases s.session.modules.isEmpty with
    | true => exact ⟨_, [], rfl, by simp⟩
    | false => exact ⟨_, [_], rfl, by simp⟩
  rw [State.commit]
  rw [Session.pending] at hpending
  cases htransaction : s.session.hasTransaction with
  | true => exact hwrite _
  | false =>
      rw [if_neg Bool.false_ne_true, State.saveRecords, saveModules_session]
      cases hrecords : s.session.hasRecords with
      | true => exact hwrite _
      | false =>
          rw [htransaction, hrecords, Bool.false_or, Bool.or_false, Bool.not_eq_true'] at hpending
          rw [if_neg Bool.false_ne_true, saveModules_log, hpending]
          exact ⟨_, [], rfl, by simp⟩

/-! ### One line -/

variable (base : Transaction.Base)

/-- A `run` whose resolve fails finds nothing to commit or is refused. -/
def Safe (s : State Job Change) : Action Job Change → Prop
  | .run resolver gates => resolver.run (resolver.prepared s.session) = none → s.session.limitation = none →
      ¬(s.session.pending = true ∧ gates.opens s.session = true)
  | _ => True

theorem shellResolve_eq (resolver : Resolver Job Change) (s : State Job Change) :
    shellResolve base resolver s =
      match resolve base resolver s.session with
      | .ok _ session => .ok () { s with session := session, resolved := true }
      | .error .depsolveError session => .ok () { s with session := session, resolved := false }
      | .error e session => .error e { s with session := session, resolved := false } := by
  show (match resolve base resolver s.session with
    | .ok _ session => _
    | .error .depsolveError session => _
    | .error e session => _ : ShellProg Job Change Unit) s = _
  cases resolve base resolver s.session with
  | ok _ session => rfl
  | error e session => cases e <;> rfl

theorem shellResolve_error {resolver : Resolver Job Change} {s : State Job Change} {e : Exc} {session : Session Job Change}
    (h : resolve base resolver s.session = .error e session) (he : e ≠ .depsolveError) :
    shellResolve base resolver s = .error e { s with session := session, resolved := false } := by
  rw [shellResolve_eq, h]
  cases e with
  | depsolveError => exact absurd rfl he
  | _ => rfl

theorem ofItems_ne_depsolveError (e : Transaction.Exc) : Exc.ofItems e ≠ .depsolveError := by
  cases e <;> decide

theorem limitation_ne_depsolveError {s : Session Job Change} {e : Exc} (h : s.limitation = some e) : e ≠ .depsolveError := by
  rw [Session.limitation, Option.ite_none_right_eq_some] at h
  obtain ⟨_, h⟩ := h
  cases hlimit : rpmLimitations s.rpm with
  | error e' =>
      rw [hlimit, Option.some.injEq] at h
      rw [← h]
      exact ofItems_ne_depsolveError e'
  | ok source =>
      rw [hlimit] at h
      cases source with
      | false => cases h
      | true =>
          cases h
          decide

/-- `_resolve` writes nothing and remembers how the resolve ended. -/
theorem shellResolve_cases (resolver : Resolver Job Change) (s : State Job Change) :
    (∃ goal session, resolver.run (resolver.prepared s.session) = some goal ∧
      shellResolve base resolver s = .ok () { s with session := session, resolved := true }) ∨
    (resolver.run (resolver.prepared s.session) = none ∧ s.session.limitation = none ∧
      shellResolve base resolver s = .ok () { s with session := resolver.prepared s.session, resolved := false }) ∨
    ∃ e session, shellResolve base resolver s = .error e { s with session := session, resolved := false } ∧
      (resolver.run (resolver.prepared s.session) = none → s.session.limitation ≠ none) := by
  cases hrun : resolver.run (resolver.prepared s.session) with
  | none =>
      have hresolve := resolve_unsolvable base hrun
      have hprepared : (resolver.prepared s.session).limitation = s.session.limitation := rfl
      rw [hprepared] at hresolve
      cases hlimit : s.session.limitation with
      | none =>
          rw [hlimit, Option.getD_none] at hresolve
          refine .inr (.inl ⟨rfl, rfl, ?_⟩)
          rw [shellResolve_eq, hresolve]
      | some e =>
          rw [hlimit, Option.getD_some] at hresolve
          exact .inr (.inr ⟨e, _, shellResolve_error base hresolve (limitation_ne_depsolveError hlimit), fun _ => Option.some_ne_none e⟩)
  | some goal =>
      have hresolve := resolve_solved base hrun
      cases hitems : base.goal2transaction goal s.session.rpm with
      | error e items =>
          rw [hitems] at hresolve
          exact .inr (.inr ⟨_, _, shellResolve_error base hresolve (ofItems_ne_depsolveError e), fun h => by cases h⟩)
      | ok _ items =>
          rw [hitems] at hresolve
          dsimp only at hresolve
          cases hlimit : ((resolver.prepared s.session).setTransaction items).limitation with
          | some e =>
              rw [hlimit] at hresolve
              exact .inr (.inr ⟨e, _, shellResolve_error base hresolve (limitation_ne_depsolveError hlimit), fun h => by cases h⟩)
          | none =>
              rw [hlimit] at hresolve
              have hshell := shellResolve_eq base resolver s
              rw [hresolve] at hshell
              exact .inl ⟨goal, _, rfl, hshell⟩

/-- The end of `run`: the session is cleaned, unless an exception ends the shell. -/
theorem commit_clean_cases (gates : Gates) (s : State Job Change) :
    (do
      tryCatch (cliDoTransaction gates) handleError
      modify fun s => s.mapSession Session.clean : ShellProg Job Change Unit) s = .ok () ((final (cliDoTransaction gates s)).mapSession Session.clean) ∨
    ∃ e, (do
      tryCatch (cliDoTransaction gates) handleError
      modify fun s => s.mapSession Session.clean : ShellProg Job Change Unit) s = .error e (final (cliDoTransaction gates s)) := by
  rw [bind_apply, tryCatch_apply]
  cases cliDoTransaction gates s with
  | ok a t => exact .inl rfl
  | error e t =>
      dsimp only
      rw [handleError]
      cases e.isError with
      | true => exact .inl rfl
      | false => exact .inr ⟨e, rfl⟩

theorem final_commit_clean (gates : Gates) (s : State Job Change) :
    (final ((do
      tryCatch (cliDoTransaction gates) handleError
      modify fun s => s.mapSession Session.clean : ShellProg Job Change Unit) s)).log = (final (cliDoTransaction gates s)).log := by
  rcases commit_clean_cases gates s with h | ⟨e, h⟩
  · rw [h]
    rfl
  · rw [h]
    rfl

/-- What a line writes, and when all of it follows a resolve that succeeded. -/
theorem line_log (s : State Job Change) (action : Action Job Change) :
    ∃ entries, (final (line base action s)).log = s.log ++ entries ∧ ((∀ entry ∈ entries, entry.resolved = true) ↔ Safe s action) := by
  have hnothing : ∀ t : State Job Change, t.log = s.log →
      ∃ entries, t.log = s.log ++ entries ∧ ((∀ entry ∈ entries, entry.resolved = true) ↔ True) := by
    intro t ht
    exact ⟨[], by rw [ht, List.append_nil], iff_of_true (fun entry hentry => absurd hentry List.not_mem_nil) trivial⟩
  have hresolve : ∀ resolver : Resolver Job Change, (final (shellResolve base resolver s)).log = s.log := by
    intro resolver
    obtain ⟨goal, session, _, h⟩ | ⟨_, _, h⟩ | ⟨e, session, h, _⟩ := shellResolve_cases base resolver s
    all_goals rw [h]; rfl
  cases action with
  | command command => exact hnothing _ rfl
  | resolvedep resolver => exact hnothing _ (hresolve resolver)
  | list resolver => exact hnothing _ (hresolve resolver)
  | reset => exact hnothing _ rfl
  | repo => exact hnothing _ rfl
  | run resolver gates =>
      rw [line, Safe, bind_apply]
      obtain ⟨goal, session, hrun, h⟩ | ⟨hrun, hlimit, h⟩ | ⟨e, session, h, hlimit⟩ := shellResolve_cases base resolver s
      · rw [h]
        dsimp only
        rw [final_commit_clean, final_cliDoTransaction]
        have hsafe : resolver.run (resolver.prepared s.session) = none → s.session.limitation = none →
            ¬(s.session.pending = true ∧ gates.opens s.session = true) := fun hnone => by rw [hrun] at hnone; cases hnone
        rw [iff_true_intro hsafe]
        split_ifs with hcommit
        · rw [Bool.and_eq_true] at hcommit
          obtain ⟨entry, rest, hlog, hentries⟩ := commit_log hcommit.1
          exact ⟨entry :: rest, hlog, iff_of_true hentries trivial⟩
        · exact hnothing _ rfl
      · rw [h]
        dsimp only
        rw [final_commit_clean, final_cliDoTransaction]
        have hsafe : (resolver.run (resolver.prepared s.session) = none → s.session.limitation = none →
            ¬(s.session.pending = true ∧ gates.opens s.session = true)) ↔ ¬(s.session.pending = true ∧ gates.opens s.session = true) :=
          ⟨fun hclosed => hclosed hrun hlimit, fun hclosed _ _ => hclosed⟩
        rw [hsafe, ← Bool.and_eq_true]
        change ∃ entries, (if s.session.pending && gates.opens s.session then _ else _ : State Job Change).log = _ ∧ _
        split_ifs with hcommit
        · obtain ⟨entry, rest, hlog, hentries⟩ := commit_log (s := { s with session := resolver.prepared s.session, resolved := false })
            (Bool.and_eq_true _ _ ▸ hcommit).1
          refine ⟨entry :: rest, hlog, iff_of_false (fun hall => ?_) (not_not_intro hcommit)⟩
          have hentry := hentries entry List.mem_cons_self
          rw [hall entry List.mem_cons_self] at hentry
          cases hentry
        · exact ⟨[], (List.append_nil _).symm, iff_of_true (fun entry hentry => absurd hentry List.not_mem_nil) hcommit⟩
      · rw [h]
        refine ⟨[], (List.append_nil _).symm, iff_of_true (fun entry hentry => absurd hentry List.not_mem_nil) ?_⟩
        exact fun hnone hlimit' => absurd hlimit' (hlimit hnone)

/-! ### Whole sessions -/

theorem next_log {s t : State Job Change} {action : Action Job Change} (hnext : (shell base).next s action = some t) :
    ∃ entries, t.log = s.log ++ entries ∧ ((∀ entry ∈ entries, entry.resolved = true) ↔ Safe s action) := by
  obtain ⟨entries, hlog, hsafe⟩ := line_log base s action
  refine ⟨entries, ?_, hsafe⟩
  rw [← hlog]
  rw [shell, Option.ite_none_right_eq_some] at hnext
  obtain ⟨_, hnext⟩ := hnext
  cases hline : line base action s with
  | ok a u =>
      rw [hline, Option.some.injEq] at hnext
      rw [← hnext]
      rfl
  | error e u =>
      rw [hline, Option.some.injEq] at hnext
      rw [← hnext]
      rfl

theorem run_log_subset {start s : State Job Change} {actions : List (Action Job Change)}
    (hrun : (shell base).Run System.anyStep start actions s) : start.log ⊆ s.log := by
  induction hrun with
  | nil s => exact List.Subset.refl _
  | cons _ hnext _ ih =>
      obtain ⟨entries, hlog, _⟩ := next_log base hnext
      rw [hlog] at ih
      exact List.Subset.trans (List.subset_append_left _ _) ih

def State.CommitsResolved (s : State Job Change) : Prop := ∀ entry ∈ s.log, entry.resolved = true

/-- In a session nothing is committed after a failed resolve exactly where every `run` with a failed resolve finds nothing to commit or is refused. -/
theorem session_commitsResolved_iff (start s : State Job Change) (actions : List (Action Job Change)) (hstart : (shell base).Init start)
    (hrun : (shell base).Run System.anyStep start actions s) : s.CommitsResolved ↔ (shell base).Run Safe start actions s := by
  have hlog : start.CommitsResolved := by
    obtain ⟨allowErasing, rfl⟩ := hstart
    exact fun entry hentry => absurd hentry List.not_mem_nil
  clear hstart
  constructor
  · intro hresolved
    induction hrun with
    | nil s => exact .nil s
    | cons _ hnext hrest ih =>
        obtain ⟨entries, heq, hsafe⟩ := next_log base hnext
        have hentries := fun entry hentry => hresolved entry (run_log_subset base hrest hentry)
        rw [heq] at hentries
        refine .cons (hsafe.mp fun entry hentry => hentries entry (List.mem_append_right _ hentry)) hnext (ih ?_ hresolved)
        rw [State.CommitsResolved, heq]
        exact hentries
  · intro hsafe
    refine hsafe.invariant (fun s action t hs hguard hnext => ?_) hlog
    obtain ⟨entries, heq, hentries⟩ := next_log base hnext
    rw [State.CommitsResolved, heq]
    intro entry hentry
    rcases List.mem_append.mp hentry with hentry | hentry
    · exact hs entry hentry
    · exact hentries.mpr hguard entry hentry

/-- The transaction is listed, and `run` cannot resolve it any more. -/
def spiceLines : List (Action Unit Unit) :=
  [.list ⟨fun _ => [], fun _ => some Transaction.Base.spiceGoal, fun _ _ => []⟩, .run ⟨fun _ => [], fun _ => none, fun _ _ => []⟩ {}]

def spiceStart : State Unit Unit := { session := {} }

theorem spiceLines_isSome : ((shell Transaction.Base.spiceBase).exec System.anyStep spiceStart spiceLines).isSome = true := by decide +kernel

def spiceEnd : State Unit Unit := ((shell Transaction.Base.spiceBase).exec System.anyStep spiceStart spiceLines).get spiceLines_isSome

theorem session_commitsResolved_iff_spice :
    spiceEnd.CommitsResolved ↔ (shell Transaction.Base.spiceBase).Run Safe spiceStart spiceLines spiceEnd :=
  session_commitsResolved_iff Transaction.Base.spiceBase spiceStart spiceEnd spiceLines ⟨false, rfl⟩ (System.run_of_exec (Option.some_get _).symm)

theorem not_session_commitsResolved :
    ∃ s, (shell Transaction.Base.spiceBase : System (State Unit Unit) (Action Unit Unit)).Reachable System.anyStep s ∧ ¬s.CommitsResolved := by
  have hexec : ((shell Transaction.Base.spiceBase).exec System.anyStep spiceStart spiceLines).any (fun s => s.log.any fun entry => !entry.resolved) = true := by
    decide +kernel
  have hinit : (shell Transaction.Base.spiceBase).Init spiceStart := ⟨false, rfl⟩
  obtain ⟨s, hs, htest⟩ := System.exists_reachable_of_exec hinit hexec
  refine ⟨s, hs, fun hall => ?_⟩
  obtain ⟨entry, hentry, hresolved⟩ := List.any_eq_true.mp htest
  rw [hall entry hentry] at hresolved
  cases hresolved

end Dnf.Shell
