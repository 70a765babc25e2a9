import Dnf.Groups.Bunch
import Dnf.Transaction.Goal

/-!
# The session of a base

What marking requests and resolves of one `Base` collect: the jobs of the goal, the comps transaction, the group, environment and package items of the open history transaction, the pending changes of the module container, the security filters, and the demand to allow erasing. `_transaction` is a view of the open history transaction, so there is nothing to store but whether it is set.

What hawkey, libcomps and libdnf make of a request depends on the session and is a parameter. Jobs and module changes are values of any types.
-/

namespace Dnf.Shell

open Foundation Foundation.Effect
open History hiding Swdb
open Groups (TransactionBunch)
open Transaction (Item Goal Package installSet)

/-- `DepsolveError`, the other errors of dnf, and what Python itself raises. -/
inductive Exc
  | depsolveError
  | error
  | indexError
  | runtimeError
  | typeError
  deriving DecidableEq

def Exc.isError : Exc → Bool
  | .depsolveError => true
  | .error => true
  | _ => false

def Exc.ofItems : Transaction.Exc → Exc
  | .indexError => .indexError
  | .runtimeError => .runtimeError

/-- A dictionary of nonempty sets, as the set of its pairs. -/
abbrev SecurityOptions := Finset (String × String)

structure Session (Job Change : Type) where
  goal : List Job := []
  compsTrans : TransactionBunch := {}
  history : SwdbInterface := {}
  rpm : List Item := []
  transaction : Bool := false
  modules : List Change := []
  updateSecurityOptions : SecurityOptions := ∅
  allowErasing : Bool := false

variable {Job Change : Type}

abbrev Prog (Job Change : Type) := EStateM Exc (Session Job Change)

/-- The changes a request makes: a job of the goal, `_add_comps_trans`, a group or environment record, `history.set_reason` and a change of the module container. -/
inductive Mark (Job Change : Type)
  | job (job : Job)
  | comps (bunch : TransactionBunch)
  | record (kind : Kind) (call : Call) (obj : CompsItem)
  | reason (pkg : Package) (reason : Reason)
  | module (change : Change)

/-- A change of reason is an item of the transaction. -/
def Mark.isReason : Mark Job Change → Bool
  | .reason _ _ => true
  | _ => false

section Base

variable (base : Transaction.Base)

def Session.mark (s : Session Job Change) : Mark Job Change → Session Job Change
  | .job job => { s with goal := s.goal ++ [job] }
  | .comps bunch => { s with compsTrans := s.compsTrans.iadd bunch }
  | .record kind call obj => { s with history := s.history.call kind call obj }
  | .reason pkg reason => { s with rpm := final (Transaction.setReason base.swdb pkg reason s.rpm) }
  | .module change => { s with modules := s.modules ++ [change] }

def Session.marks (s : Session Job Change) (list : List (Mark Job Change)) : Session Job Change := list.foldl (Session.mark base) s

/-! ### `resolve` -/

/-- What the libraries do in one resolve: the jobs of the comps transaction, of the protected packages and of the excludes, the run of the goal, and the modules enabled for its packages. -/
structure Resolver (Job Change : Type) where
  jobs : Session Job Change → List Job
  run : Session Job Change → Option Goal
  enabled : Session Job Change → Goal → List Change

/-- `_rpm_limitations`: a source package would be installed. -/
def rpmLimitations (items : List Item) : Except Transaction.Exc Bool := do
  let installs ← installSet items
  pure (∃ pkg ∈ installs, pkg.nevra.arch = "src")

/-- `self._transaction is not None and len(self._transaction) > 0`. -/
def Session.hasTransaction (s : Session Job Change) : Bool := s.transaction && !s.rpm.isEmpty

/-- The check of the transaction, which may be an older one. -/
def Session.limitation (s : Session Job Change) : Option Exc :=
  if s.hasTransaction then
    match rpmLimitations s.rpm with
    | .ok true => some .error
    | .ok false => none
    | .error e => some (.ofItems e)
  else none

/-- The end of a resolve: the check overrides the exception. -/
def finishResolve (exc : Option Exc) : Prog Job Change Unit := do
  match (← get).limitation.or exc with
  | some e => throw e
  | none => pure ()

def Session.setTransaction (s : Session Job Change) (items : List Item) : Session Job Change := { s with rpm := items, transaction := true }

def Session.changeModules (s : Session Job Change) (changes : List Change) : Session Job Change := { s with modules := s.modules ++ changes }

/-- `_goal2transaction` on the items of the session. -/
def setTransaction (goal : Goal) : Prog Job Change Unit := do
  let s ← get
  match base.goal2transaction goal s.rpm with
  | .ok () items => set (s.setTransaction items)
  | .error e items =>
      set { s with rpm := items }
      throw (.ofItems e)

/-- `resolve`, once the goal has run. -/
def resolveGoal (resolver : Resolver Job Change) : Option Goal → Prog Job Change Bool
  | none => do
      finishResolve (some .depsolveError)
      pure false
  | some goal => do
      setTransaction base goal
      finishResolve none
      modify fun s => s.changeModules (resolver.enabled s goal)
      pure (← get).hasTransaction

def resolve (resolver : Resolver Job Change) : Prog Job Change Bool := do
  modify fun s => { s with goal := s.goal ++ resolver.jobs s }
  resolveGoal base resolver (resolver.run (← get))

/-! ### One resolve -/

def Resolver.prepared (resolver : Resolver Job Change) (s : Session Job Change) : Session Job Change := { s with goal := s.goal ++ resolver.jobs s }

theorem resolve_apply (resolver : Resolver Job Change) (s : Session Job Change) :
    resolve base resolver s = resolveGoal base resolver (resolver.run (resolver.prepared s)) (resolver.prepared s) := rfl

theorem finishResolve_apply (exc : Option Exc) (s : Session Job Change) :
    finishResolve exc s = match s.limitation.or exc with
      | some e => .error e s
      | none => .ok () s := by
  show (match s.limitation.or exc with
    | some e => throw e
    | none => pure () : Prog Job Change Unit) s = _
  cases s.limitation.or exc <;> rfl

theorem setTransaction_apply (goal : Goal) (s : Session Job Change) :
    setTransaction base goal s = match base.goal2transaction goal s.rpm with
      | .ok () items => .ok () (s.setTransaction items)
      | .error e items => .error (.ofItems e) { s with rpm := items } := by
  show (match base.goal2transaction goal s.rpm with
    | .ok () items => set (s.setTransaction items)
    | .error e items => do
        set { s with rpm := items }
        throw (.ofItems e) : Prog Job Change Unit) s = _
  cases base.goal2transaction goal s.rpm <;> rfl

/-- An unsolvable goal changes nothing but the goal. -/
theorem resolve_unsolvable {resolver : Resolver Job Change} {s : Session Job Change} (hrun : resolver.run (resolver.prepared s) = none) :
    resolve base resolver s = .error ((resolver.prepared s).limitation.getD .depsolveError) (resolver.prepared s) := by
  rw [resolve_apply, hrun, resolveGoal, bind_apply, finishResolve_apply]
  cases (resolver.prepared s).limitation <;> rfl

/-- A solved goal sets the transaction, which is then checked. -/
theorem resolve_solved {resolver : Resolver Job Change} {s : Session Job Change} {goal : Goal} (hrun : resolver.run (resolver.prepared s) = some goal) :
    resolve base resolver s = match base.goal2transaction goal s.rpm with
      | .error e items => .error (.ofItems e) { resolver.prepared s with rpm := items }
      | .ok () items =>
          let t := (resolver.prepared s).setTransaction items
          match t.limitation with
          | some e => .error e t
          | none => .ok (t.changeModules (resolver.enabled t goal)).hasTransaction (t.changeModules (resolver.enabled t goal)) := by
  rw [resolve_apply, hrun, resolveGoal, bind_apply, setTransaction_apply, show (resolver.prepared s).rpm = s.rpm from rfl]
  cases base.goal2transaction goal s.rpm with
  | error e items => rfl
  | ok _ items =>
      simp only [bind_apply, finishResolve_apply, Option.or_none]
      cases ((resolver.prepared s).setTransaction items).limitation <;> rfl

end Base

/-! ### Resetting -/

/-- `SwdbInterface.close`. -/
def Session.closeHistory (s : Session Job Change) : Session Job Change := { s with history := {}, rpm := [] }

/-- `reset(sack=True, goal=True)`; the module container goes with the sack. -/
def Session.reset (s : Session Job Change) : Session Job Change :=
  { s.closeHistory with goal := [], modules := [], compsTrans := {}, transaction := false }

/-- `fill_sack`, as far as the session goes. -/
def Session.fillSack (s : Session Job Change) : Session Job Change := s.reset

/-- `ShellCommand._clean`; `_finalize_base` closes the history. -/
def Session.clean (s : Session Job Change) : Session Job Change :=
  ({ s.closeHistory with transaction := false } : Session Job Change).fillSack

end Dnf.Shell
