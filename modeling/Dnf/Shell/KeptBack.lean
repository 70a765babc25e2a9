import Dnf.Cli.Confirmation
import Dnf.Foundation.Fallible
import Dnf.History.Removable
import Dnf.Shell.Session

/-!
# Resolving with group objects kept back

`resolve` prepares the goal before it is solved: the comps transaction is turned into requests, and then either the packages that the user installed are pushed, for an erasure, or the packages of installed groups are to be marked, unless group objects may be upgraded. The method that is to mark them reads an attribute that the comps solver has not had since its history became one object: `__init__` sets `history`, `comps` and `_reason_fn`.
-/

namespace Dnf.KeptBack

open Foundation Foundation.Effect
open Groups (TransactionBunch Entry)
open History (Pending KeyError CompsItem isRemovablePkg EntriesRecorded)
open Transaction (Item Package Goal)
open Shell (Session Resolver)

variable {Other Change : Type}

/-- The requests on a goal: a package to install, an erasure of a package, or another one. -/
inductive Job (Other : Type)
  | install (pkg : Package)
  | erase (pkg : Package) (cleanDeps : Bool)
  | other (job : Other)

/-- `resolve` ends in an exception of the solved part, in the `KeyError` of `is_removable_pkg`, or in an `AttributeError`. -/
inductive Exc
  | resolve (e : Shell.Exc)
  | keyError (key : String)
  | attributeError (name : String)
  deriving DecidableEq

/-- `dnf.exceptions.Error` -/
def Exc.isError : Exc → Bool
  | .resolve e => e.isError
  | _ => false

/-- The configuration, the committed history, and what hawkey makes of the requests. `isErase` says which of the other requests are erasures. -/
structure Conf (Other Change : Type) where
  upgradeGroupObjectsUpgrade : Bool
  cleanRequirementsOnRemove : Bool
  basearch : String
  base : Transaction.Base
  swdb : History.Swdb
  safeToRemove : List Package → List Package
  isErase : Other → Bool
  compsJobs : TransactionBunch → List Other
  userinstalled : Session (Job Other) Change → List Other
  resolver : Resolver (Job Other) Change

variable (conf : Conf Other Change)

/-! ### `_finalize_comps_trans` -/

def basearchonly : Entry → Bool
  | .raw pkg => pkg.basearchonly
  | .trans pkg => pkg.basearchonly

/-- The packages of an entry of a bunch. -/
def query (entry : Entry) : List Package := conf.base.sack.filter fun pkg =>
  pkg.name = entry.name && (!basearchonly entry || pkg.nevra.arch = conf.basearch) && pkg.nevra.arch ≠ "src" && pkg.nevra.arch ≠ "nosrc"

/-- The installed packages of the entries to remove, as a query lists them. -/
def removeQuery (trans : TransactionBunch) : List Package := conf.base.sack.filter fun pkg =>
  pkg.installed && decide (∃ entry ∈ trans.remove, pkg ∈ query conf entry)

/-- `query.filter(pkg=[i for i in query if history.group.is_removable_pkg(i.name)])` -/
def removable (pending : Pending) (pkgs : List Package) : Except KeyError (List Package) := do
  let answers ← pkgs.mapM fun pkg => (isRemovablePkg conf.swdb pending pkg.name).map fun answer => (pkg, answer)
  pure ((answers.filter Prod.snd).map Prod.fst)

/-- `_remove_if_unneeded`, whose query is that of the installed packages. -/
def removeIfUnneeded (pkgs : List Package) (s : Session (Job Other) Change) : Except Exc (Session (Job Other) Change) :=
  if pkgs.isEmpty then .ok s
  else
    match removable conf s.history.group pkgs with
    | .error e => .error (.keyError e.key)
    | .ok unneededHistory =>
        let unneeded := conf.safeToRemove pkgs
        let dependent := unneededHistory.filter (· ∉ unneeded)
        let removed := pkgs.filter fun pkg => pkg ∈ unneeded ∧ pkg ∈ unneededHistory
        .ok { s with
          rpm := dependent.foldl (fun items pkg => final (Transaction.setReason conf.base.swdb pkg .dependency items)) s.rpm
          goal := s.goal ++ removed.map fun pkg => .erase pkg conf.cleanRequirementsOnRemove }

def finalizeCompsTrans (s : Session (Job Other) Change) : Except Exc (Session (Job Other) Change) :=
  removeIfUnneeded conf (removeQuery conf s.compsTrans) { s with goal := s.goal ++ (conf.compsJobs s.compsTrans).map .other }

/-! ### `_exclude_packages_from_installed_groups` -/

/-- A group of a persistor, as the method reads it. -/
structure PersistedGroup where
  installed : Bool
  fullList : List String
  pkgExclude : List String

/-- The attributes of a comps solver. -/
structure Solver where
  history : History.Swdb
  persistor : Option (List PersistedGroup) := none

/-- `_build_comps_solver` -/
def buildCompsSolver : Solver where
  history := conf.swdb

/-- The packages that the method marks. -/
def groupPackages (groups : List PersistedGroup) : List Package :=
  (groups.filter PersistedGroup.installed).flatMap fun group => conf.base.sack.filter fun pkg =>
    pkg.installed && pkg.name ∈ group.fullList && pkg.name ∉ group.pkgExclude

def excludePackagesFromInstalledGroups (solver : Solver) (s : Session (Job Other) Change) : Except Exc (Session (Job Other) Change) :=
  match solver.persistor with
  | none => .error (.attributeError "persistor")
  | some groups => .ok { s with goal := s.goal ++ (groupPackages conf groups).map .install }

/-! ### `resolve` -/

/-- `goal.req_has_erase()` -/
def reqHasErase (s : Session (Job Other) Change) : Bool := s.goal.any fun job =>
  match job with
  | .install _ => false
  | .erase _ _ => true
  | .other job => conf.isErase job

/-- The three branches before the solver. -/
def branch (s : Session (Job Other) Change) : Except Exc (Session (Job Other) Change) :=
  if reqHasErase conf s then .ok { s with goal := s.goal ++ (conf.userinstalled s).map .other }
  else if !conf.upgradeGroupObjectsUpgrade then excludePackagesFromInstalledGroups conf (buildCompsSolver conf) s
  else .ok s

def resolve (s : Session (Job Other) Change) : Except Exc (Session (Job Other) Change × Bool) := do
  let s ← finalizeCompsTrans conf s
  let s ← branch conf s
  match Shell.resolve conf.base conf.resolver s with
  | .ok gotTransaction s => pure (s, gotTransaction)
  | .error e _ => throw (.resolve e)

/-! ### What resolving is to do -/

/-- A group that is installed has the package on record. -/
def OfInstalledGroup (name : String) : Prop := ∃ id record, conf.swdb.getCompsGroupItem id = some record ∧ name ∈ record.members.map (·.name)

/-- The goal has an erase request when the branch is chosen. -/
def ErasureRequested (s : Session (Job Other) Change) : Prop := ∃ t, finalizeCompsTrans conf s = .ok t ∧ reqHasErase conf t = true

structure ResolvesRightly (s : Session (Job Other) Change) : Prop where
  ends : ∀ e, resolve conf s = .error e → e.isError = true
  marks : conf.upgradeGroupObjectsUpgrade = false → ¬ ErasureRequested conf s → ∀ t, finalizeCompsTrans conf s = .ok t →
    ∃ added, branch conf t = .ok { t with goal := t.goal ++ added } ∧
      ∀ pkg, Job.install pkg ∈ added ↔ pkg ∈ conf.base.sack ∧ pkg.installed = true ∧ OfInstalledGroup conf pkg.name

/-- libdnf answers as documented and keeps a member once, the groups that are to be removed are the recorded ones, the solver replaces what it upgrades, and the items have their packages. -/
structure Assumed (s : Session (Job Other) Change) : Prop where
  documented : conf.swdb.Documented
  once : ∀ id record, conf.swdb.getCompsGroupItem id = some record → (record.members.map (·.name)).Nodup
  removed : ∀ entry ∈ s.history.group.removed.entries, conf.swdb.getCompsGroupItem entry.1 = some entry.2
  solved : ∀ t goal, conf.resolver.run t = some goal → goal.Replaces
  attached : Cli.TransactionTable.Attached s.rpm

variable {conf} {s : Session (Job Other) Change}

/-! ### The comps transaction -/

theorem timesListed_eq_one {record : CompsItem} (honce : (record.members.map (·.name)).Nodup) {name : String} (hlists : record.Lists name) :
    record.timesListed name = 1 := by
  have hpos := CompsItem.lists_iff_timesListed.mp hlists
  have hle : record.timesListed name ≤ (record.members.map (·.name)).count name := by
    rw [CompsItem.timesListed, List.count, List.countP_map]
    exact List.countP_mono_left fun m _ h => by simpa using (of_decide_eq_true h).1
  have hone := List.nodup_iff_count_le_one.mp honce name
  omega

theorem Assumed.entriesRecorded (hassumed : Assumed conf s) (name : String) :
    EntriesRecorded name s.history.group.removed.entries (conf.swdb.getPackageCompsGroups name).toFinset := fun entry hentry hlists => by
  have hrecord := hassumed.removed entry hentry
  refine ⟨timesListed_eq_one (hassumed.once _ _ hrecord) hlists, ?_⟩
  rw [List.mem_toFinset, hassumed.documented.getPackageCompsGroups]
  exact ⟨entry.2, hrecord, hlists⟩

theorem Assumed.exists_removable (hassumed : Assumed conf s) (pkgs : List Package) :
    ∃ unneededHistory, removable conf s.history.group pkgs = .ok unneededHistory := by
  have hask : ∀ pkg ∈ pkgs, ∃ a, ((isRemovablePkg conf.swdb s.history.group pkg.name).map fun answer => (pkg, answer)) = .ok a := fun pkg _ => by
    obtain ⟨listing, hlisting⟩ := History.exists_listing (hassumed.entriesRecorded pkg.name)
    rw [isRemovablePkg, hlisting]
    split_ifs <;> exact ⟨_, rfl⟩
  obtain ⟨answers, hanswers, -⟩ := Fallible.exists_mapM_ok hask
  exact ⟨_, by rw [removable, hanswers]; rfl⟩

theorem attached_setReason {items : List Item} (hattached : Cli.TransactionTable.Attached items) (swdb : Transaction.Swdb) (pkgs : List Package)
    (reason : History.Reason) :
    Cli.TransactionTable.Attached (pkgs.foldl (fun items pkg => final (Transaction.setReason swdb pkg reason items)) items) := by
  induction pkgs generalizing items with
  | nil => exact hattached
  | cons pkg pkgs ih =>
      refine ih fun item hitem haction => ?_
      rcases List.mem_append.mp hitem with hold | hnew
      · exact hattached item hold haction
      · rw [List.mem_singleton.mp hnew] at haction
        exact absurd rfl haction

theorem Assumed.exists_finalized (hassumed : Assumed conf s) :
    ∃ t, finalizeCompsTrans conf s = .ok t ∧ Cli.TransactionTable.Attached t.rpm := by
  rw [finalizeCompsTrans, removeIfUnneeded]
  split_ifs
  · exact ⟨_, rfl, hassumed.attached⟩
  · obtain ⟨unneededHistory, hremovable⟩ := hassumed.exists_removable (removeQuery conf s.compsTrans)
    rw [hremovable]
    exact ⟨_, rfl, attached_setReason hassumed.attached _ _ _⟩

/-! ### The solved part -/

theorem exists_rpmLimitations {items : List Item} (hattached : Cli.TransactionTable.Attached items) :
    ∃ limited, Shell.rpmLimitations items = .ok limited := by
  have hset : Transaction.packageSet History.isForward items = .ok (items.filterMap (Transaction.packageOf History.isForward)).toFinset :=
    Transaction.packageSet_eq fun item hitem hforward => hattached item hitem fun haction => by
      rw [haction] at hforward
      cases hforward
  rw [Shell.rpmLimitations, Transaction.installSet, hset]
  exact ⟨_, rfl⟩

theorem isError_of_limitation {t : Session (Job Other) Change} (hattached : Cli.TransactionTable.Attached t.rpm) {e : Shell.Exc}
    (hlimited : t.limitation = some e) : e.isError = true := by
  obtain ⟨limited, hlimitations⟩ := exists_rpmLimitations hattached
  rw [Session.limitation, hlimitations] at hlimited
  split_ifs at hlimited
  cases limited <;> cases hlimited
  rfl

theorem isError_of_resolve (hsolved : ∀ t goal, conf.resolver.run t = some goal → goal.Replaces) {t u : Session (Job Other) Change}
    (hattached : Cli.TransactionTable.Attached t.rpm) {e : Shell.Exc} (hrun : Shell.resolve conf.base conf.resolver t = .error e u) :
    e.isError = true := by
  cases hgoal : conf.resolver.run (conf.resolver.prepared t) with
  | none =>
      rw [Shell.resolve_unsolvable conf.base hgoal] at hrun
      cases hrun
      cases hlimited : (conf.resolver.prepared t).limitation with
      | none => rfl
      | some e => exact isError_of_limitation (t := conf.resolver.prepared t) hattached hlimited
  | some goal =>
      obtain ⟨entries, hentries, -⟩ := Transaction.Base.exists_entries conf.base (hsolved _ goal hgoal)
      rw [Shell.resolve_solved conf.base hgoal, hentries] at hrun
      have hitems : Cli.TransactionTable.Attached (Transaction.record conf.base.swdb t.rpm entries) :=
        Transaction.forall_mem_record hattached fun entry _ n item hitem => entry.attached n item hitem
      cases hlimited : ((conf.resolver.prepared t).setTransaction (Transaction.record conf.base.swdb t.rpm entries)).limitation with
      | none => simp only [hlimited] at hrun; cases hrun
      | some e' =>
          simp only [hlimited] at hrun
          cases hrun
          exact isError_of_limitation (t := (conf.resolver.prepared t).setTransaction _) hitems hlimited

/-! ### The branches -/

/-- The comps solver has no such attribute, whatever the history. -/
theorem excludePackages_error (conf : Conf Other Change) (t : Session (Job Other) Change) :
    excludePackagesFromInstalledGroups conf (buildCompsSolver conf) t = .error (.attributeError "persistor") := rfl

theorem branch_of_taken {t : Session (Job Other) Change} (hupgrade : conf.upgradeGroupObjectsUpgrade = false) (herase : reqHasErase conf t = false) :
    branch conf t = .error (.attributeError "persistor") := by
  rw [branch, herase, hupgrade]
  exact excludePackages_error conf t

/-- The other branches only add requests. -/
theorem branch_of_not_taken {t : Session (Job Other) Change} (h : conf.upgradeGroupObjectsUpgrade = true ∨ reqHasErase conf t = true) :
    ∃ added, branch conf t = .ok { t with goal := t.goal ++ added } := by
  rw [branch]
  cases herase : reqHasErase conf t with
  | true => exact ⟨_, rfl⟩
  | false =>
      have hupgrade := h.resolve_right (by rw [herase]; decide)
      rw [hupgrade]
      exact ⟨[], by simp⟩

theorem resolve_eq {t : Session (Job Other) Change} (hfinal : finalizeCompsTrans conf s = .ok t) : resolve conf s =
    (branch conf t >>= fun u => match Shell.resolve conf.base conf.resolver u with
      | .ok gotTransaction u => pure (u, gotTransaction)
      | .error e _ => throw (.resolve e)) := by
  rw [resolve, hfinal]
  rfl

/-- Resolving is right exactly where the branch that marks the packages of installed groups is not taken. -/
theorem resolvesRightly_iff (conf : Conf Other Change) (s : Session (Job Other) Change) (hassumed : Assumed conf s) :
    ResolvesRightly conf s ↔ conf.upgradeGroupObjectsUpgrade = true ∨ ErasureRequested conf s := by
  obtain ⟨t, hfinal, hattached⟩ := hassumed.exists_finalized
  have herasure : ErasureRequested conf s ↔ reqHasErase conf t = true := by
    constructor
    · rintro ⟨t', hfinal', herase⟩
      cases hfinal.symm.trans hfinal'
      exact herase
    · exact fun herase => ⟨t, hfinal, herase⟩
  rw [herasure]
  constructor
  · intro hright
    by_contra hnot
    rw [not_or, Bool.not_eq_true, Bool.not_eq_true] at hnot
    have hrun : resolve conf s = .error (.attributeError "persistor") := by
      rw [resolve_eq hfinal, branch_of_taken hnot.1 hnot.2]
      rfl
    exact absurd (hright.ends _ hrun) (by decide)
  · intro hfree
    obtain ⟨added, hbranch⟩ := branch_of_not_taken hfree
    refine ⟨fun e he => ?_, fun hupgrade hnone => ?_⟩
    · rw [resolve_eq hfinal, hbranch] at he
      cases hsolve : Shell.resolve conf.base conf.resolver { t with goal := t.goal ++ added } with
      | ok gotTransaction u =>
          simp only [bind, Except.bind, hsolve] at he
          cases he
      | error e' u =>
          simp only [bind, Except.bind, hsolve] at he
          cases he
          exact isError_of_resolve (t := { t with goal := t.goal ++ added }) hassumed.solved hattached hsolve
    · rw [hupgrade] at hfree
      exact absurd (herasure.mpr (hfree.resolve_left (by decide))) hnone

/-- An upgrade with the setting off: nothing is installed from a group, and the solver upgrades the kernel. -/
def keptConf : Conf Unit Unit where
  upgradeGroupObjectsUpgrade := false
  cleanRequirementsOnRemove := true
  basearch := "x86_64"
  base := Transaction.Base.spiceBase
  swdb := History.baseSwdb
  safeToRemove pkgs := pkgs
  isErase _ := false
  compsJobs _ := []
  userinstalled _ := []
  resolver := ⟨fun _ => [], fun _ => some Transaction.Base.spiceGoal, fun _ _ => []⟩

def upgradeSession : Session (Job Unit) Unit where
  goal := [.other ()]

theorem upgradeSession_assumed : Assumed keptConf upgradeSession where
  documented := History.baseSwdb_documented
  once id record hrecord := by
    obtain ⟨-, heq⟩ := Option.ite_none_right_eq_some.mp hrecord
    cases heq
    decide
  removed entry hentry := by cases hentry
  solved t goal hgoal := by
    cases hgoal
    exact ⟨by decide, by decide, by decide, by decide⟩
  attached item hitem := by cases hitem

theorem resolvesRightly_iff_kernel : ResolvesRightly keptConf upgradeSession ↔
    keptConf.upgradeGroupObjectsUpgrade = true ∨ ErasureRequested keptConf upgradeSession :=
  resolvesRightly_iff keptConf upgradeSession upgradeSession_assumed

/-- The upgrade of the kernel ends in an `AttributeError`. -/
theorem upgradeSession_not_resolvesRightly : Assumed keptConf upgradeSession ∧ ¬ ResolvesRightly keptConf upgradeSession := by
  refine ⟨upgradeSession_assumed, fun hright => ?_⟩
  have hfinal : finalizeCompsTrans keptConf upgradeSession = .ok upgradeSession := by
    have hnone : removeQuery keptConf upgradeSession.compsTrans = [] := by decide
    rw [finalizeCompsTrans, hnone]
    rfl
  have hrun : resolve keptConf upgradeSession = .error (.attributeError "persistor") := by
    rw [resolve_eq hfinal]
    rfl
  exact absurd (hright.ends _ hrun) (by decide)

end Dnf.KeptBack
