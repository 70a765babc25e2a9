import Dnf.Transaction.RpmTransaction

/-!
# `_goal2transaction`

The result of a goal is five lists of packages and, for each new package, the packages it replaces. Each package of a list adds an item and the items of what it replaces; how the replaced packages are picked and filtered differs from list to list. What a package adds is an `Entry`, which does not depend on the items before it, so the items of a whole result are its entries, recorded one after another.
-/

namespace Dnf.Transaction

open History Foundation Foundation.Effect

/-- What is asked of a goal that was solved. -/
structure Goal where
  listDowngrades : List Package
  listReinstalls : List Package
  listInstalls : List Package
  listUpgrades : List Package
  listErasures : List Package
  listObsoleted : List Package
  obsoletedByPackage : Package → List Package
  getReason : Package → Reason

/-- The history, the packages of the sack and whether a package provides one of `installonlypkgs`. -/
structure Base where
  swdb : Swdb
  sack : List Package
  isInstallonly : Package → Bool

namespace Base

variable (base : Base) (goal : Goal)

def goalDowngrade (pkg : Package) : Prog Unit :=
  match goal.obsoletedByPackage pkg with
  | [] => throw .indexError
  | downgraded :: obs => addDowngrade base.swdb pkg downgraded obs

/-- The package with the same NEVRA comes first; of several, the last one. -/
def reinstallObsoletes (pkg : Package) : List Package :=
  (goal.obsoletedByPackage pkg).foldl (fun obsoletes obsPkg =>
    if obsPkg.nevra.text = pkg.nevra.text then obsPkg :: obsoletes else obsoletes ++ [obsPkg]) []

def goalReinstall (pkg : Package) : Prog Unit :=
  match reinstallObsoletes goal pkg with
  | [] => throw .indexError
  | reinstalled :: obsoletes => addReinstall base.swdb pkg reinstalled obsoletes

/-- Obsoleted packages that are upgraded or downgraded by another package are left to it. -/
def keepObsoleted (pkg : Package) (obs : List Package) : List Package :=
  obs.filter fun i => i ∈ goal.listObsoleted ∨ i.name = pkg.name

/-- An installonly package, and one of its name is installed. -/
def installonlyInstalled (pkg : Package) : Bool :=
  base.isInstallonly pkg && base.sack.any fun other => other.installed && base.isInstallonly other && other.name == pkg.name

/-- The best of the reason and the reasons of the obsoleted packages. -/
def inheritReason (reason : Reason) (obs : List Package) : Reason :=
  obs.foldl (fun reason obsolete =>
    if base.swdb.reasonCompare reason (base.swdb.getReason obsolete) = -1 then base.swdb.getReason obsolete else reason) reason

def installReason (pkg : Package) : Reason := if base.installonlyInstalled pkg then base.swdb.getReason pkg else goal.getReason pkg

def goalInstall (pkg : Package) : Prog Unit :=
  let obs := keepObsoleted goal pkg (goal.obsoletedByPackage pkg)
  addInstall base.swdb pkg obs (some (base.inheritReason (base.installReason goal pkg) obs))

/-- The upgraded package, the first with a matching name or else the first one, and the others. -/
def pickUpgraded (pkg : Package) (obs : List Package) : Option (Package × List Package) :=
  match obs.find? fun i => i.name == pkg.name with
  | some upgraded => some (upgraded, obs.erase upgraded)
  | none =>
      match obs with
      | [] => none
      | first :: rest => some (first, rest)

def goalUpgrade (pkg : Package) : Prog Unit :=
  match pickUpgraded pkg (goal.obsoletedByPackage pkg) with
  | none => throw .indexError
  | some (upgraded, obs) =>
      let obs := keepObsoleted goal pkg obs
      if base.isInstallonly pkg then addInstall base.swdb pkg obs none
      else addUpgrade base.swdb pkg upgraded obs

/-- An installed package of the same name and architecture that stays. -/
def remaining (pkg : Package) : Option Package :=
  base.sack.find? fun other => other.installed ∧ other ∉ goal.listErasures ∧ other.nevra.name = pkg.nevra.name ∧ other.nevra.arch = pkg.nevra.arch

def goalErase (pkg : Package) : Prog Unit := do
  match base.remaining goal pkg with
  | some remaining => setReason base.swdb remaining (base.swdb.getReason remaining)
  | none => pure ()
  addRemove base.swdb pkg (goal.getReason pkg)

def goal2transaction : Prog Unit := do
  goal.listDowngrades.forM (base.goalDowngrade goal)
  goal.listReinstalls.forM (base.goalReinstall goal)
  goal.listInstalls.forM (base.goalInstall goal)
  goal.listUpgrades.forM (base.goalUpgrade goal)
  goal.listErasures.forM (base.goalErase goal)

end Base

/-! ### Entries -/

/-- What is added for one package: a new package with what it replaces, each with its own action, a removal or a change of reason. -/
inductive Entry
  | add (pkg : Package) (action : Action) (reason : Reason) (replaced : List (Package × Action))
  | remove (pkg : Package) (reason : Reason)
  | change (pkg : Package) (reason : Reason)

def replacedItem (swdb : Swdb) (n : Nat) (replaced : Package × Action) : Item :=
  ⟨replaced.1.nevra, getRepoid replaced.1, replaced.2, swdb.getReason replaced.1, .unknown, some replaced.1, some n⟩

/-- The items of an entry that is recorded after `n` items. -/
def Entry.items (swdb : Swdb) (n : Nat) : Entry → List Item
  | .add pkg action reason replaced => ⟨pkg.nevra, getRepoid pkg, action, reason, .unknown, some pkg, none⟩ :: replaced.map (replacedItem swdb n)
  | .remove pkg reason => [⟨pkg.nevra, getRepoid pkg, .remove, if reason = .unknown then .user else reason, .unknown, some pkg, none⟩]
  | .change pkg reason => [⟨pkg.nevra, swdb.rpmRepo pkg.nevra.text, .reasonChange, reason, .done, none, none⟩]

def record (swdb : Swdb) (items : List Item) (entries : List Entry) : List Item :=
  entries.foldl (fun items entry => items ++ entry.items swdb items.length) items

/-- A step of the loops: its entries or the exception that ends the loops. -/
abbrev Step := Except Exc (List Entry)

def runSteps (swdb : Swdb) : List Step → Prog Unit
  | [] => pure ()
  | .ok entries :: rest => do
      modify fun items => record swdb items entries
      runSteps swdb rest
  | .error e :: _ => throw e

section Steps

variable (swdb : Swdb)

theorem record_append (items : List Item) (entries entries' : List Entry) :
    record swdb items (entries ++ entries') = record swdb (record swdb items entries) entries' := by
  rw [record, List.foldl_append]
  rfl

theorem addObsoleted_eq (obsoleted : List Package) (n : Nat) (items : List Item) :
    addObsoleted swdb obsoleted n items = .ok () (items ++ obsoleted.map fun obs => replacedItem swdb n (obs, .obsoleted)) := by
  induction obsoleted generalizing items with
  | nil =>
      rw [List.map_nil, List.append_nil]
      rfl
  | cons obs rest ih =>
      have hrest := ih (items ++ [replacedItem swdb n (obs, .obsoleted)])
      rw [List.append_assoc, List.singleton_append] at hrest
      exact hrest

/-- The replaced packages of a downgrade, a reinstall or an upgrade. -/
def replacing (old : Package) (action : Action) (obsoleted : List Package) : List (Package × Action) :=
  (old, action) :: obsoleted.map fun obs => (obs, .obsoleted)

theorem addReplacing_eq (pkg old : Package) (action action' : Action) (obsoleted : List Package) (items : List Item) :
    (do
      let tiNew ← new swdb pkg action none none
      let _ ← new swdb old action' none (some tiNew)
      addObsoleted swdb obsoleted tiNew : Prog Unit) items =
      .ok () (record swdb items [.add pkg action (swdb.getReason pkg) (replacing old action' obsoleted)]) := by
  have hobsoleted := addObsoleted_eq swdb obsoleted items.length
    (items ++ [⟨pkg.nevra, getRepoid pkg, action, swdb.getReason pkg, .unknown, some pkg, none⟩] ++ [replacedItem swdb items.length (old, action')])
  refine hobsoleted.trans ?_
  simp [record, Entry.items, replacing, Function.comp_def, replacedItem]

theorem addInstall_eq (pkg : Package) (obsoleted : List Package) (reason : Option Reason) (items : List Item) :
    addInstall swdb pkg obsoleted reason items =
      .ok () (record swdb items [.add pkg .install (reason.getD .user) (obsoleted.map fun obs => (obs, .obsoleted))]) := by
  have hobsoleted := addObsoleted_eq swdb obsoleted items.length
    (items ++ [⟨pkg.nevra, getRepoid pkg, .install, reason.getD .user, .unknown, some pkg, none⟩])
  refine hobsoleted.trans ?_
  simp [record, Entry.items, Function.comp_def]

theorem runSteps_append (steps steps' : List Step) :
    runSteps swdb (steps ++ steps') = (runSteps swdb steps >>= fun _ => runSteps swdb steps') := by
  induction steps with
  | nil => rfl
  | cons step rest ih =>
      cases step with
      | error e => rfl
      | ok entries =>
          rw [List.cons_append, runSteps, ih, runSteps]
          rfl

/-- A loop runs the steps of its packages. -/
theorem forM_eq_runSteps {body : Package → Prog Unit} {step : Package → Step}
    (hbody : ∀ pkg items, body pkg items = runSteps swdb [step pkg] items) (list : List Package) :
    list.forM body = runSteps swdb (list.map step) := by
  induction list with
  | nil => rfl
  | cons pkg rest ih =>
      change _ = runSteps swdb ([step pkg] ++ rest.map step)
      rw [runSteps_append, ← ih]
      exact congrArg (fun first => first >>= fun _ => rest.forM body) (funext (hbody pkg))

/-- The entries of the steps before the first exception. -/
def recorded : List Step → List Entry
  | .ok entries :: rest => entries ++ recorded rest
  | _ => []

def raised : List Step → Option Exc
  | [] => none
  | .ok _ :: rest => raised rest
  | .error e :: _ => some e

/-- What the steps record and how they end, neither of which depends on the items before. -/
theorem runSteps_eq (steps : List Step) (items : List Item) :
    runSteps swdb steps items = match raised steps with
      | none => .ok () (record swdb items (recorded steps))
      | some e => .error e (record swdb items (recorded steps)) := by
  induction steps generalizing items with
  | nil => rfl
  | cons step rest ih =>
      cases step with
      | error e => rfl
      | ok entries =>
          rw [recorded, raised, record_append]
          exact ih _

/-- Where no step raises, the entries of all steps are recorded. -/
theorem runSteps_ok (entries : List (List Entry)) (items : List Item) :
    runSteps swdb (entries.map .ok) items = .ok () (record swdb items entries.flatten) := by
  induction entries generalizing items with
  | nil => rfl
  | cons first rest ih =>
      rw [List.flatten_cons, record_append]
      exact ih _

theorem Entry.items_length (entry : Entry) (n : Nat) : (entry.items swdb n).length = (entry.items swdb 0).length := by
  cases entry with
  | _ => simp [Entry.items]

/-- How many items there are does not depend on where they are recorded. -/
theorem length_record (items : List Item) (entries : List Entry) :
    (record swdb items entries).length = items.length + (record swdb [] entries).length := by
  induction entries using List.reverseRecOn with
  | nil => rfl
  | append_singleton entries entry ih =>
      rw [record_append, record_append]
      show (record swdb items entries ++ _).length = items.length + (record swdb [] entries ++ _).length
      rw [List.length_append, List.length_append, ih, entry.items_length, entry.items_length swdb (record swdb [] entries).length]
      omega

end Steps

namespace Base

variable (base : Base) (goal : Goal)

def downgradeStep (pkg : Package) : Step :=
  match goal.obsoletedByPackage pkg with
  | [] => .error .indexError
  | downgraded :: obs => .ok [.add pkg .downgrade (base.swdb.getReason pkg) (replacing downgraded .downgraded obs)]

def reinstallStep (pkg : Package) : Step :=
  match reinstallObsoletes goal pkg with
  | [] => .error .indexError
  | reinstalled :: obsoletes => .ok [.add pkg .reinstall (base.swdb.getReason pkg) (replacing reinstalled .reinstalled obsoletes)]

def installObsoletes (pkg : Package) : List Package := keepObsoleted goal pkg (goal.obsoletedByPackage pkg)

def installEntry (pkg : Package) : Entry :=
  .add pkg .install (base.inheritReason (base.installReason goal pkg) (installObsoletes goal pkg))
    ((installObsoletes goal pkg).map fun obs => (obs, .obsoleted))

/-- An installonly package is installed next to the one it would upgrade. -/
def upgradeEntry (pkg upgraded : Package) (obs : List Package) : Entry :=
  if base.isInstallonly pkg then .add pkg .install .user ((keepObsoleted goal pkg obs).map fun obs => (obs, .obsoleted))
  else .add pkg .upgrade (base.swdb.getReason pkg) (replacing upgraded .upgraded (keepObsoleted goal pkg obs))

def upgradeStep (pkg : Package) : Step :=
  match pickUpgraded pkg (goal.obsoletedByPackage pkg) with
  | none => .error .indexError
  | some (upgraded, obs) => .ok [base.upgradeEntry goal pkg upgraded obs]

def eraseEntries (pkg : Package) : List Entry :=
  (base.remaining goal pkg).toList.map (fun remaining => .change remaining (base.swdb.getReason remaining)) ++
    [.remove pkg (goal.getReason pkg)]

def steps : List Step :=
  goal.listDowngrades.map (base.downgradeStep goal) ++ (goal.listReinstalls.map (base.reinstallStep goal) ++
    (goal.listInstalls.map (fun pkg => .ok [base.installEntry goal pkg]) ++ (goal.listUpgrades.map (base.upgradeStep goal) ++
      goal.listErasures.map fun pkg => .ok (base.eraseEntries goal pkg))))

theorem goalDowngrade_eq (pkg : Package) (items : List Item) :
    base.goalDowngrade goal pkg items = runSteps base.swdb [base.downgradeStep goal pkg] items := by
  rw [goalDowngrade, downgradeStep]
  cases goal.obsoletedByPackage pkg with
  | nil => rfl
  | cons downgraded obs => exact addReplacing_eq base.swdb pkg downgraded .downgrade .downgraded obs items

theorem goalReinstall_eq (pkg : Package) (items : List Item) :
    base.goalReinstall goal pkg items = runSteps base.swdb [base.reinstallStep goal pkg] items := by
  rw [goalReinstall, reinstallStep]
  cases reinstallObsoletes goal pkg with
  | nil => rfl
  | cons reinstalled obsoletes => exact addReplacing_eq base.swdb pkg reinstalled .reinstall .reinstalled obsoletes items

theorem goalInstall_eq (pkg : Package) (items : List Item) :
    base.goalInstall goal pkg items = runSteps base.swdb [.ok [base.installEntry goal pkg]] items :=
  addInstall_eq base.swdb pkg (installObsoletes goal pkg) _ items

theorem goalUpgrade_eq (pkg : Package) (items : List Item) :
    base.goalUpgrade goal pkg items = runSteps base.swdb [base.upgradeStep goal pkg] items := by
  rw [goalUpgrade, upgradeStep]
  rcases pickUpgraded pkg (goal.obsoletedByPackage pkg) with _ | ⟨upgraded, obs⟩
  · rfl
  · simp only [upgradeEntry]
    cases base.isInstallonly pkg with
    | true => exact addInstall_eq base.swdb pkg (keepObsoleted goal pkg obs) none items
    | false => exact addReplacing_eq base.swdb pkg upgraded .upgrade .upgraded (keepObsoleted goal pkg obs) items

theorem goalErase_eq (pkg : Package) (items : List Item) :
    base.goalErase goal pkg items = runSteps base.swdb [.ok (base.eraseEntries goal pkg)] items := by
  rw [goalErase, eraseEntries]
  cases base.remaining goal pkg <;> rfl

/-- The items of a goal are those of its steps, whatever was recorded before. -/
theorem goal2transaction_eq : base.goal2transaction goal = runSteps base.swdb (base.steps goal) := by
  rw [goal2transaction, steps, runSteps_append, runSteps_append, runSteps_append, runSteps_append,
    forM_eq_runSteps base.swdb (base.goalDowngrade_eq goal), forM_eq_runSteps base.swdb (base.goalReinstall_eq goal),
    forM_eq_runSteps base.swdb (base.goalInstall_eq goal), forM_eq_runSteps base.swdb (base.goalUpgrade_eq goal),
    forM_eq_runSteps base.swdb (base.goalErase_eq goal)]

end Base

end Dnf.Transaction
