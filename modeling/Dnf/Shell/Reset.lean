import Dnf.Foundation.Lockstep
import Dnf.Shell.FailedResolve

/-!
# What a reset forgets

A reset clears the goal, the comps transaction, the open history transaction, the transaction and, with the sack, the module container. Two things survive it: the security filters, which live in `_update_security_options`, and the demand to allow erasing, which a command makes on a copy of the demands that the shell then keeps. Nothing else that a line does survives, and both only grow, so a session is as new after a reset exactly where no command has added a filter or made the demand.
-/

namespace Dnf.Shell

open Foundation Foundation.Effect

variable {Job Change : Type} (base : Transaction.Base)

def Session.kept (s : Session Job Change) : SecurityOptions × Bool := (s.updateSecurityOptions, s.allowErasing)

theorem clean_eq (s : Session Job Change) : s.clean = { updateSecurityOptions := s.updateSecurityOptions, allowErasing := s.allowErasing } := rfl

theorem marks_kept (s : Session Job Change) (marks : List (Mark Job Change)) : (s.marks base marks).kept = s.kept := by
  induction marks generalizing s with
  | nil => rfl
  | cons mark rest ih =>
      rw [Session.marks, List.foldl_cons, ← Session.marks, ih]
      cases mark <;> rfl

theorem resolve_kept (resolver : Resolver Job Change) (s : Session Job Change) : (final (resolve base resolver s)).kept = s.kept := by
  cases hrun : resolver.run (resolver.prepared s) with
  | none =>
      rw [resolve_unsolvable base hrun]
      rfl
  | some goal =>
      rw [resolve_solved base hrun]
      cases base.goal2transaction goal s.rpm with
      | error e items => rfl
      | ok _ items =>
          dsimp only
          cases ((resolver.prepared s).setTransaction items).limitation <;> rfl

theorem shellResolve_session (resolver : Resolver Job Change) (s : State Job Change) :
    (final (shellResolve base resolver s)).session = final (resolve base resolver s.session) := by
  rw [shellResolve, bind_apply, get_apply]
  dsimp only
  cases resolve base resolver s.session with
  | ok got session => rfl
  | error e session => cases e <;> rfl

theorem commit_session (s : State Job Change) : s.commit.session = s.session := by
  rw [State.commit]
  split_ifs
  · exact saveModules_session s
  · rw [State.saveRecords]
    split_ifs <;> exact saveModules_session s

/-- What a command leaves for later sessions. -/
theorem onecmd_kept (s : Session Job Change) (command : Command Job Change) :
    (s.onecmd base command).kept = (s.updateSecurityOptions ∪ command.pairs, s.allowErasing || command.configure.demandsErasing) := by
  rw [Session.onecmd, marks_kept, Session.filter, Command.pairs, Session.demand]
  cases command.filter with
  | none => cases command.configure.demandsErasing <;> simp [Session.kept]
  | some opts => cases command.configure.demandsErasing <;> simp [Session.kept, Session.addSecurityFilters]

theorem line_kept (s : State Job Change) (action : Action Job Change) :
    (final (line base action s)).session.kept = match action with
      | .command command => (s.session.updateSecurityOptions ∪ command.pairs, s.session.allowErasing || command.configure.demandsErasing)
      | _ => s.session.kept := by
  have hresolve : ∀ resolver, (final (shellResolve base resolver s)).session.kept = s.session.kept := fun resolver => by
    rw [shellResolve_session, resolve_kept]
  cases action with
  | command command => exact onecmd_kept base s.session command
  | resolvedep resolver => exact hresolve resolver
  | list resolver => exact hresolve resolver
  | reset => rfl
  | repo => rfl
  | run resolver gates =>
      have hkept := hresolve resolver
      rw [line, bind_apply]
      cases hresult : shellResolve base resolver s with
      | error e t =>
          rw [hresult] at hkept
          exact hkept
      | ok a t =>
          rw [hresult] at hkept
          dsimp only
          have hcli : (final (cliDoTransaction gates t)).session = t.session := by
            rw [final_cliDoTransaction]
            split_ifs
            · exact commit_session t
            · rfl
          rcases commit_clean_cases gates t with h | ⟨e, h⟩
          · rw [h]
            show (final (cliDoTransaction gates t)).session.clean.kept = _
            rw [hcli]
            exact hkept
          · rw [h]
            show (final (cliDoTransaction gates t)).session.kept = _
            rw [hcli]
            exact hkept

/-! ### Whole sessions -/

theorem next_eq {s t : State Job Change} {action : Action Job Change} (hnext : (shell base).next s action = some t) :
    s.running = true ∧ t.session = (final (line base action s)).session ∧ (t.running = true → ∃ a, line base action s = .ok a t) := by
  rw [shell, Option.ite_none_right_eq_some] at hnext
  obtain ⟨hrunning, hnext⟩ := hnext
  refine ⟨hrunning, ?_⟩
  cases hline : line base action s with
  | ok a u =>
      rw [hline, Option.some.injEq] at hnext
      rw [← hnext]
      exact ⟨rfl, fun _ => ⟨a, rfl⟩⟩
  | error e u =>
      rw [hline, Option.some.injEq] at hnext
      rw [← hnext]
      exact ⟨rfl, fun h => by cases h⟩

/-- What is kept grows with the commands of the session. -/
theorem run_kept {start s : State Job Change} {lines : List (Action Job Change)} (hrun : (shell base).Run System.anyStep start lines s) :
    (s.session.updateSecurityOptions = ∅ ↔ start.session.updateSecurityOptions = ∅ ∧ ∀ command, .command command ∈ lines → command.pairs = ∅) ∧
    (s.session.allowErasing = true ↔ start.session.allowErasing = true ∨ ∃ command, .command command ∈ lines ∧ command.configure.demandsErasing = true) := by
  induction hrun with
  | nil s => simp
  | @cons s t u action rest _ hnext _ ih =>
      have hkept := line_kept base s action
      rw [← (next_eq base hnext).2.1] at hkept
      obtain ⟨hoptions, herasing⟩ := ih
      rw [hoptions, herasing]
      cases action with
      | command command =>
          rw [Session.kept, Prod.mk.injEq] at hkept
          rw [hkept.1, hkept.2, Finset.union_eq_empty, Bool.or_eq_true]
          simp only [List.mem_cons, Action.command.injEq, forall_eq_or_imp, or_and_right, exists_or, exists_eq_left, and_assoc, or_assoc]
          exact ⟨trivial, trivial⟩
      | _ =>
          rw [Session.kept, Session.kept, Prod.mk.injEq] at hkept
          rw [hkept.1, hkept.2]
          simp only [List.mem_cons, reduceCtorEq, false_or]
          exact ⟨trivial, trivial⟩

/-! ### The session decides what follows -/

/-- The log and the last resolve are not read. -/
def State.Agrees (s s' : State Job Change) : Prop := s.session = s'.session ∧ s.running = s'.running

theorem mapSession_lockstep (f : Session Job Change → Session Job Change) : Lockstep State.Agrees (modify fun s => s.mapSession f : ShellProg Job Change Unit) :=
  Lockstep.modify fun _ _ h => ⟨congrArg f h.1, h.2⟩

theorem refuse_lockstep (condition : Bool) : Lockstep State.Agrees (refuse condition : ShellProg Job Change Unit) :=
  Lockstep.ite (Lockstep.throw _) (Lockstep.pure _)

theorem runRpm_lockstep (gates : Gates) : Lockstep State.Agrees (runRpm gates : ShellProg Job Change Unit) := by
  refine Lockstep.bind (refuse_lockstep _) fun _ => Lockstep.bind (refuse_lockstep _) fun _ => Lockstep.bind (refuse_lockstep _) fun _ => ?_
  refine Lockstep.ite (Lockstep.pure _) (Lockstep.bind (Lockstep.modify fun s s' h => ⟨?_, ?_⟩) fun _ => refuse_lockstep _)
  · exact (saveModules_session s).trans (h.1.trans (saveModules_session s').symm)
  · exact (saveModules_running s).trans (h.2.trans (saveModules_running s').symm)

theorem saveRecords_agrees (s : State Job Change) : s.saveModules.saveRecords.Agrees s := by
  rw [State.saveRecords]
  split_ifs
  · exact ⟨saveModules_session s, saveModules_running s⟩
  · exact ⟨saveModules_session s, saveModules_running s⟩

theorem baseDoTransaction_lockstep (gates : Gates) : Lockstep State.Agrees (baseDoTransaction gates : ShellProg Job Change Unit) := by
  have hbranches : ∀ has : Bool, Lockstep State.Agrees
      (if has then runRpm gates else modify fun s => s.saveModules.saveRecords : ShellProg Job Change Unit) := by
    refine fun has => Lockstep.ite (runRpm_lockstep gates) (Lockstep.modify fun s s' h => ?_)
    have hs := saveRecords_agrees s
    have hs' := saveRecords_agrees s'
    exact ⟨hs.1.trans (h.1.trans hs'.1.symm), hs.2.trans (h.2.trans hs'.2.symm)⟩
  exact Lockstep.read (g := fun s => s.session.hasTransaction) (fun _ _ h => congrArg Session.hasTransaction h.1) hbranches

theorem confirm_lockstep (gates : Gates) (session : Session Job Change) : Lockstep State.Agrees (confirm gates session) := by
  have hcheck : Lockstep State.Agrees (lift (bootcCheck gates session) : ShellProg Job Change Unit) := by
    cases bootcCheck gates session with
    | error e => exact Lockstep.throw e
    | ok a => exact Lockstep.pure a
  have hdownload : Lockstep State.Agrees (download gates session) :=
    Lockstep.ite (Lockstep.bind (refuse_lockstep _) fun _ => refuse_lockstep _) (Lockstep.pure _)
  refine Lockstep.bind hcheck fun _ => Lockstep.bind (refuse_lockstep _) fun _ => Lockstep.bind hdownload fun _ => ?_
  exact Lockstep.ite (Lockstep.pure _) (baseDoTransaction_lockstep gates)

theorem cliDoTransaction_lockstep (gates : Gates) : Lockstep State.Agrees (cliDoTransaction gates : ShellProg Job Change Unit) := by
  have hpending : ∀ session : Session Job Change, Lockstep State.Agrees (if session.pending then confirm gates session else pure ()) :=
    fun session => Lockstep.ite (confirm_lockstep gates session) (Lockstep.pure _)
  exact Lockstep.bind (refuse_lockstep _) fun _ => Lockstep.read (g := State.session) (fun _ _ h => h.1) hpending

theorem shellResolve_lockstep (resolver : Resolver Job Change) : Lockstep State.Agrees (shellResolve base resolver) := by
  intro s s' h
  rw [shellResolve, bind_apply, bind_apply, get_apply, get_apply]
  dsimp only
  rw [h.1]
  cases resolve base resolver s'.session with
  | ok got session => exact ⟨rfl, rfl, h.2⟩
  | error e session => cases e <;> exact ⟨rfl, rfl, h.2⟩

theorem line_lockstep (action : Action Job Change) : Lockstep State.Agrees (line base action) := by
  cases action with
  | command command => exact mapSession_lockstep _
  | resolvedep resolver => exact shellResolve_lockstep base resolver
  | list resolver => exact shellResolve_lockstep base resolver
  | reset => exact mapSession_lockstep _
  | repo => exact mapSession_lockstep _
  | run resolver gates =>
      refine Lockstep.bind (shellResolve_lockstep base resolver) fun _ => Lockstep.bind (Lockstep.tryCatch (cliDoTransaction_lockstep gates) fun e => ?_) fun _ => ?_
      · exact Lockstep.ite (Lockstep.pure _) (Lockstep.throw _)
      · exact mapSession_lockstep _

theorem next_lockstep (s s' : State Job Change) (action : Action Job Change) (t : State Job Change) (h : s.Agrees s')
    (hnext : (shell base).next s action = some t) : ∃ t', (shell base).next s' action = some t' ∧ t.Agrees t' := by
  rw [shell, Option.ite_none_right_eq_some] at hnext
  obtain ⟨hrunning, hnext⟩ := hnext
  have hend := line_lockstep base action s s' h
  simp only [shell, ← h.2, hrunning, if_true]
  cases hline : line base action s with
  | ok a u =>
      rw [hline] at hend hnext
      cases hline' : line base action s' with
      | error e u' =>
          rw [hline'] at hend
          exact hend.elim
      | ok a' u' =>
          rw [hline'] at hend
          cases hnext
          exact ⟨u', rfl, hend.2⟩
  | error e u =>
      rw [hline] at hend hnext
      cases hline' : line base action s' with
      | ok a' u' =>
          rw [hline'] at hend
          exact hend.elim
      | error e' u' =>
          rw [hline'] at hend
          cases hnext
          exact ⟨_, rfl, hend.2.1, rfl⟩

/-- The session is as it was at the start, and later lines do in it what they do there. -/
def State.Forgot (start t : State Job Change) : Prop :=
  t.session = start.session ∧
    ∀ later t', (shell base).Run System.anyStep t later t' → ∃ u, (shell base).Run System.anyStep start later u ∧ u.session = t'.session

def Action.cleans : Action Job Change → Bool
  | .reset => true
  | .run _ _ => true
  | _ => false

theorem clean_of_cleans {s t : State Job Change} {action : Action Job Change} (hcleans : action.cleans = true)
    (hnext : (shell base).next s action = some t) (hrunning : t.running = true) :
    t.session = { updateSecurityOptions := s.session.updateSecurityOptions, allowErasing := s.session.allowErasing } := by
  have hkept := line_kept base s action
  rw [← (next_eq base hnext).2.1] at hkept
  have hclean : ∃ u : Session Job Change, t.session = u.clean := by
    obtain ⟨_, hsession, hok⟩ := next_eq base hnext
    obtain ⟨a, hline⟩ := hok hrunning
    rw [hsession, hline]
    cases action with
    | reset =>
        cases hline
        exact ⟨_, rfl⟩
    | run resolver gates =>
        rw [line, bind_apply] at hline
        cases hresolve : shellResolve base resolver s with
        | error e u =>
            rw [hresolve] at hline
            cases hline
        | ok b u =>
            rw [hresolve] at hline
            dsimp only at hline
            rcases commit_clean_cases gates u with h | ⟨e, h⟩
            · rw [h] at hline
              cases hline
              exact ⟨_, rfl⟩
            · rw [h] at hline
              cases hline
    | _ => cases hcleans
  obtain ⟨u, hu⟩ := hclean
  rw [hu, clean_eq] at hkept ⊢
  have hsame : u.updateSecurityOptions = s.session.updateSecurityOptions ∧ u.allowErasing = s.session.allowErasing := by
    cases action with
    | reset => exact Prod.mk.injEq .. ▸ hkept
    | run resolver gates => exact Prod.mk.injEq .. ▸ hkept
    | _ => cases hcleans
  rw [hsame.1, hsame.2]

/-- A reset or a completed run forgets everything exactly where no command added a security filter, or demanded to allow erasing where it was not allowed at the start. -/
theorem forgot_iff (start s t : State Job Change) (lines : List (Action Job Change)) (action : Action Job Change) (hstart : (shell base).Init start)
    (hrun : (shell base).Run System.anyStep start lines s) (hcleans : action.cleans = true) (hnext : (shell base).next s action = some t)
    (hrunning : t.running = true) :
    State.Forgot base start t ↔ ∀ command, .command command ∈ lines →
      command.pairs = ∅ ∧ (command.configure.demandsErasing = true → start.session.allowErasing = true) := by
  obtain ⟨hoptions, herasing⟩ := run_kept base hrun
  have hsession := clean_of_cleans base hcleans hnext hrunning
  obtain ⟨allowErasing, rfl⟩ := hstart
  have hforgot : State.Forgot base { session := { allowErasing := allowErasing } } t ↔
      s.session.updateSecurityOptions = ∅ ∧ s.session.allowErasing = allowErasing := by
    constructor
    · rintro ⟨heq, _⟩
      rw [hsession, Session.mk.injEq] at heq
      exact ⟨heq.2.2.2.2.2.2.1, heq.2.2.2.2.2.2.2⟩
    · rintro ⟨hempty, hsame⟩
      rw [hempty, hsame] at hsession
      refine ⟨hsession, fun later t' hlater => ?_⟩
      have hagrees : t.Agrees { session := { allowErasing := allowErasing } } := ⟨hsession, hrunning⟩
      obtain ⟨u, hu, hend⟩ := hlater.lockstep (next_lockstep base) hagrees
      exact ⟨u, hu, hend.1.symm⟩
  have hsame : s.session.allowErasing = allowErasing ↔
      ∀ command, .command command ∈ lines → command.configure.demandsErasing = true → allowErasing = true := by
    rw [Bool.eq_iff_iff, herasing, or_iff_left_iff_imp]
    exact ⟨fun h command hmem hdemands => h ⟨command, hmem, hdemands⟩, fun h ⟨command, hmem, hdemands⟩ => h command hmem hdemands⟩
  rw [hforgot, hoptions, hsame]
  exact ⟨fun h command hmem => ⟨h.1.2 command hmem, h.2 command hmem⟩,
    fun h => ⟨⟨rfl, fun command hmem => (h command hmem).1⟩, fun command hmem => (h command hmem).2⟩⟩

def removeCommand : Command Unit Unit := ⟨.remove false false, none, fun _ => [.job ()]⟩

def installCommand : Command Unit Unit := ⟨.other, some { security := true }, fun _ => [.job ()]⟩

def lineStart : State Unit Unit := { session := {} }

def lineEnd (command : Command Unit Unit) : State Unit Unit := lineStart.mapSession fun session => session.onecmd Transaction.Base.spiceBase command

theorem run_lineEnd (command : Command Unit Unit) :
    (shell Transaction.Base.spiceBase).Run System.anyStep lineStart [.command command] (lineEnd command) := .cons trivial rfl (.nil _)

theorem forgot_iff_remove : State.Forgot Transaction.Base.spiceBase lineStart ((lineEnd removeCommand).mapSession Session.clean) ↔
    ∀ command, Action.command command ∈ [Action.command removeCommand] →
      command.pairs = ∅ ∧ (command.configure.demandsErasing = true → lineStart.session.allowErasing = true) :=
  forgot_iff Transaction.Base.spiceBase lineStart (lineEnd removeCommand) ((lineEnd removeCommand).mapSession Session.clean) [.command removeCommand] .reset
    ⟨false, rfl⟩ (run_lineEnd removeCommand) rfl rfl rfl

/-- After a removal, and after an installation of security updates, a reset leaves a session that is not new. -/
theorem not_forgot :
    ((shell Transaction.Base.spiceBase).Run System.anyStep lineStart [.command removeCommand, .reset] ((lineEnd removeCommand).mapSession Session.clean) ∧
      ¬State.Forgot Transaction.Base.spiceBase lineStart ((lineEnd removeCommand).mapSession Session.clean)) ∧
    ((shell Transaction.Base.spiceBase).Run System.anyStep lineStart [.command installCommand, .reset] ((lineEnd installCommand).mapSession Session.clean) ∧
      ¬State.Forgot Transaction.Base.spiceBase lineStart ((lineEnd installCommand).mapSession Session.clean)) := by
  refine ⟨⟨.cons trivial rfl (.cons trivial rfl (.nil _)), fun h => ?_⟩, .cons trivial rfl (.cons trivial rfl (.nil _)), fun h => ?_⟩
  · have herasing := congrArg Session.allowErasing h.1
    cases herasing
  · have hoptions := congrArg Session.updateSecurityOptions h.1
    exact absurd hoptions (by decide)

end Dnf.Shell
