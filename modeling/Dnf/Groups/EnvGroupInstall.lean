import Dnf.Groups.Excluding
import Dnf.Groups.ExpandGroups

/-!
# `Base.env_group_install`

The patterns are taken one after the other: what a pattern finds is installed, and one that finds nothing is reported, which is an error in the end where that is wanted. Nothing in between can fail, so an error comes after everything else was marked.
-/

namespace Dnf.Groups

open History Foundation

/-- The query of `env_group_install`. -/
structure CompsQuery.OfAvailable (q : CompsQuery) (solver : Solver) : Prop where
  kinds : q.kinds = ENVIRONMENTS ||| GROUPS
  status : q.status = AVAILABLE
  comps : q.comps = solver.comps
  setOrder : IteratesSets q.setOrder

/-- The arguments of `env_group_install` besides the patterns; `sack` has the names of the packages of the sack. -/
structure InstallArgs where
  types : Nat
  strict : Bool
  sack : List String
  exclude : List String := []
  excludeGroups : List String := []

namespace Solver

variable (solver : Solver) (q : CompsQuery) (args : InstallArgs)

/-- `Base.environment_install` -/
def baseEnvironmentInstall (envId : String) : Prog TransactionBunch := do
  let trans ← solver.environmentInstallExcluding envId args.types args.exclude args.strict args.excludeGroups
  if trans.length = 0 then pure trans
  else do
    addCompsTrans trans
    pure trans

def installFoundGroup (cnt : Nat) (groupId : String) : Prog Nat :=
  if groupId ∈ args.excludeGroups then pure cnt
  else do
    let trans ← solver.baseGroupInstall args.sack groupId args.types args.exclude args.strict
    pure (cnt + trans.length)

def installFoundEnvironment (cnt : Nat) (envId : String) : Prog Nat := do
  let trans ← solver.baseEnvironmentInstall args envId
  pure (cnt + trans.length)

/-- One pattern, with the count so far and whether every pattern has found something. -/
def installPattern (progress : Nat × Bool) (pattern : String) : Prog (Nat × Bool) :=
  match q.get [pattern] with
  | .error _ => pure (progress.1, false)
  | .ok res => do
      let cnt ← res.groups.foldlM (solver.installFoundGroup args) progress.1
      let cnt ← res.environments.foldlM (solver.installFoundEnvironment args) cnt
      pure (cnt, progress.2)

/-- `Base.env_group_install`. -/
def envGroupInstall (patterns : List String) : EStateM BaseExc State Nat := do
  let progress ← EStateM.adaptExcept BaseExc.solver (patterns.foldlM (solver.installPattern q args) (0, true))
  if !progress.2 && args.strict then throw (.error "Nothing to do.") else pure progress.1

end Solver

/-! ### What is installed -/

/-- From one state to another: these packages are picked, these items registered, and nothing is to be removed that was not before. -/
structure Picked (wanted : Package → Prop) (strict : Bool) (items : List Registered) (s t : State) : Prop where
  install : ∀ e, e ∈ t.compsTrans.install ↔ e ∈ s.compsTrans.install ∨ strict = true ∧ ∃ pkg, wanted pkg ∧ e = .raw pkg
  installOpt : ∀ e, e ∈ t.compsTrans.installOpt ↔ e ∈ s.compsTrans.installOpt ∨ strict = false ∧ ∃ pkg, wanted pkg ∧ e = .raw pkg
  upgrade : t.compsTrans.upgrade = s.compsTrans.upgrade
  remove : t.compsTrans.remove ⊆ s.compsTrans.remove
  items : t.history.items = s.history.items ++ items

namespace Picked

variable {wanted wanted' : Package → Prop} {strict : Bool} {items items' : List Registered} {s t u : State}

theorem refl (strict : Bool) (s : State) : Picked (fun _ => False) strict [] s s where
  install := fun _ => (or_iff_left fun h => h.2.elim fun _ h => h.1).symm
  installOpt := fun _ => (or_iff_left fun h => h.2.elim fun _ h => h.1).symm
  upgrade := rfl
  remove := Finset.Subset.refl _
  items := (List.append_nil _).symm

theorem trans (h : Picked wanted strict items s t) (h' : Picked wanted' strict items' t u) :
    Picked (fun pkg => wanted pkg ∨ wanted' pkg) strict (items ++ items') s u where
  install := fun e => by
    rw [h'.install, h.install, or_assoc, ← and_or_left]
    simp only [or_and_right, exists_or]
  installOpt := fun e => by
    rw [h'.installOpt, h.installOpt, or_assoc, ← and_or_left]
    simp only [or_and_right, exists_or]
  upgrade := h'.upgrade.trans h.upgrade
  remove := h'.remove.trans h.remove
  items := by rw [h'.items, h.items, List.append_assoc]

theorem congr (h : Picked wanted strict items s t) (hiff : ∀ pkg, wanted pkg ↔ wanted' pkg) : Picked wanted' strict items s t where
  install := fun e => by simp only [h.install, hiff]
  installOpt := fun e => by simp only [h.installOpt, hiff]
  upgrade := h.upgrade
  remove := h.remove
  items := h.items

/-- A loop whose turns all end well. -/
theorem foldlM {α β : Type} {f : β → α → Prog β} {wantedOf : α → Package → Prop} {itemsOf : α → List Registered} (l : List α)
    (hturn : ∀ a ∈ l, ∀ b s, ∃ b' t, f b a s = .ok b' t ∧ Picked (wantedOf a) strict (itemsOf a) s t) (b : β) (s : State) :
    ∃ b' t, l.foldlM f b s = .ok b' t ∧ Picked (fun pkg => ∃ a ∈ l, wantedOf a pkg) strict (l.flatMap itemsOf) s t := by
  induction l generalizing b s with
  | nil => exact ⟨b, s, rfl, (refl strict s).congr fun pkg => by simp⟩
  | cons a l ih =>
      obtain ⟨b', t, hrun, hpicked⟩ := hturn a List.mem_cons_self b s
      obtain ⟨b'', u, hrest, hpicked'⟩ := ih (fun a' ha' => hturn a' (List.mem_cons_of_mem a ha')) b' t
      refine ⟨b'', u, ?_, (hpicked.trans hpicked').congr fun pkg => by rw [List.exists_mem_cons_iff]⟩
      rw [List.foldlM_cons, Effect.bind_apply, hrun]
      exact hrest

/-- A bunch of picked packages, added to the transaction. -/
theorem of_iadd {bunch : TransactionBunch} (hpicks : Picks wanted strict bunch) (hupgrade : bunch.upgrade = ∅) (hremove : bunch.remove = ∅)
    (hitems : t.history.items = s.history.items ++ items) (htrans : t.compsTrans = s.compsTrans.iadd bunch) : Picked wanted strict items s t where
  install := fun e => by
    rw [htrans]
    show e ∈ s.compsTrans.install ∪ bunch.install ↔ _
    rw [Finset.mem_union, hpicks.install]
  installOpt := fun e => by
    rw [htrans]
    show e ∈ s.compsTrans.installOpt ∪ bunch.installOpt ↔ _
    rw [Finset.mem_union, hpicks.installOpt]
  upgrade := by
    rw [htrans]
    show s.compsTrans.upgrade ∪ bunch.upgrade = _
    rw [hupgrade, Finset.union_empty]
  remove := fun e he => by
    rw [htrans, TransactionBunch.mem_remove_iadd, hremove] at he
    exact he.1.resolve_right (Finset.notMem_empty e)
  items := hitems

/-- An empty bunch is not added, and picks nothing. -/
theorem of_empty {bunch : TransactionBunch} (hpicks : Picks wanted strict bunch) (hempty : bunch.length = 0)
    (hitems : t.history.items = s.history.items ++ items) (htrans : t.compsTrans = s.compsTrans) : Picked wanted strict items s t := by
  simp only [TransactionBunch.length, Nat.add_eq_zero_iff, Finset.card_eq_zero] at hempty
  obtain ⟨⟨⟨hinstall, hinstallOpt⟩, -⟩, -⟩ := hempty
  refine ⟨fun e => ?_, fun e => ?_, by rw [htrans], by rw [htrans], hitems⟩
  · rw [htrans, ← hpicks.install, hinstall]
    exact (or_iff_left (Finset.notMem_empty e)).symm
  · rw [htrans, ← hpicks.installOpt, hinstallOpt]
    exact (or_iff_left (Finset.notMem_empty e)).symm

end Picked

section Installing

variable {solver : Solver} {q : CompsQuery} (args : InstallArgs)

/-- The packages of a group that are wanted. -/
def WantedOfGroup (solver : Solver) (args : InstallArgs) (groupId : String) (pkg : Package) : Prop :=
  ∃ group, solver.comps.groupById groupId = some group ∧ pkg ∈ pkgsOfType solver.codes group args.types

/-- The mandatory groups of an environment, without the excluded ones. -/
def mandatoryGroups (solver : Solver) (args : InstallArgs) (env : Environment) : List Group :=
  (solver.comps.buildGroups env.groupIds).filter fun group => group.id ∉ args.excludeGroups

def WantedOfEnvironment (solver : Solver) (args : InstallArgs) (envId : String) (pkg : Package) : Prop :=
  ∃ env, solver.comps.environmentById envId = some env ∧ ∃ group ∈ mandatoryGroups solver args env, pkg ∈ pkgsOfType solver.codes group args.types

def registeredGroup (solver : Solver) (args : InstallArgs) (groupId : String) : List Registered :=
  ((solver.comps.groupById groupId).map fun group => ⟨.group, .install, solver.newGroup groupId group args.types⟩).toList

def registeredEnvironment (solver : Solver) (args : InstallArgs) (envId : String) : List Registered :=
  match solver.comps.environmentById envId with
  | none => []
  | some env =>
      ⟨.environment, .install, solver.newEnvironment envId env args.types (mandatoryGroups solver args env)
        ((solver.comps.buildGroups env.optionIds).filter fun group => group.id ∉ args.excludeGroups)⟩ ::
        (mandatoryGroups solver args env).flatMap fun group => registeredGroup solver args group.id

theorem groupInstall_apply {groupId : String} {group : Group} (hgroup : solver.comps.groupById groupId = some group) (pkgTypes : Nat) (strict : Bool) (s : State) :
    ∃ bunch, solver.groupInstall groupId pkgTypes strict s =
        .ok bunch { s with history := s.history.call .group .install (solver.newGroup groupId group pkgTypes) } ∧
      Picks (fun pkg => pkg ∈ pkgsOfType solver.codes group pkgTypes) strict bunch ∧ bunch.upgrade = ∅ ∧ bunch.remove = ∅ := by
  obtain ⟨trans, t, hrun, hpicks⟩ := groupInstall_picks pkgTypes strict hgroup s
  have hcongr : Picks (fun pkg => pkg ∈ pkgsOfType solver.codes group pkgTypes) strict trans :=
    hpicks.congr fun pkg => by simp only [Selected, List.mem_singleton, exists_eq_left]
  rw [Solver.groupInstall, hgroup] at hrun ⊢
  obtain ⟨rfl, rfl⟩ := EStateM.Result.ok.inj hrun
  refine ⟨_, rfl, hcongr, ?_, ?_⟩
  · cases strict <;> rfl
  · cases strict <;> rfl

/-- What a bunch is added with, or not. -/
theorem add_apply {wanted : Package → Prop} {items : List Registered} {bunch : TransactionBunch} {s t : State} (hpicks : Picks wanted args.strict bunch)
    (hupgrade : bunch.upgrade = ∅) (hremove : bunch.remove = ∅) (hitems : t.history.items = s.history.items ++ items) (htrans : t.compsTrans = s.compsTrans) :
    ∃ u, (if bunch.length = 0 then pure bunch
        else do
          Solver.addCompsTrans bunch
          pure bunch : Prog TransactionBunch) t = .ok bunch u ∧ Picked wanted args.strict items s u := by
  split_ifs with hempty
  · exact ⟨t, rfl, Picked.of_empty hpicks hempty hitems htrans⟩
  · exact ⟨_, rfl, Picked.of_iadd hpicks hupgrade hremove hitems (by rw [← htrans])⟩

theorem baseGroupInstall_picked {groupId : String} (hgroup : (solver.comps.groupById groupId).isSome = true) (s : State) :
    ∃ bunch t, solver.baseGroupInstall args.sack groupId args.types args.exclude args.strict s = .ok bunch t ∧
      Picked (WantedOfGroup solver args groupId) args.strict (registeredGroup solver args groupId) s t := by
  obtain ⟨group, hgroup⟩ := Option.isSome_iff_exists.mp hgroup
  obtain ⟨bunch, hrun, hpicks, hupgrade, hremove⟩ := groupInstall_apply hgroup args.types args.strict s
  have hwanted : Picks (WantedOfGroup solver args groupId) args.strict bunch :=
    hpicks.congr fun pkg => by simp only [WantedOfGroup, hgroup, Option.some.injEq, exists_eq_left']
  have hitems : (s.history.call .group .install (solver.newGroup groupId group args.types)).items = s.history.items ++ registeredGroup solver args groupId := by
    rw [SwdbInterface.items_call, registeredGroup, hgroup]
    rfl
  obtain ⟨t, hadd, hpicked⟩ := add_apply args (s := s)
    (t := { s with history := s.history.call .group .install (solver.newGroup groupId group args.types) }) hwanted hupgrade hremove hitems rfl
  refine ⟨bunch, t, ?_, hpicked⟩
  rw [Solver.baseGroupInstall, Solver.groupInstallExcluding_eq, Effect.bind_apply, hrun]
  exact hadd

/-- A bunch that only picks, and what its making has left in the state. -/
structure Gathered (wanted : Package → Prop) (strict : Bool) (items : List Registered) (s t : State) (bunch : TransactionBunch) : Prop where
  picks : Picks wanted strict bunch
  upgrade : bunch.upgrade = ∅
  remove : bunch.remove = ∅
  items : t.history.items = s.history.items ++ items
  compsTrans : t.compsTrans = s.compsTrans

theorem remove_iadd_empty {trans other : TransactionBunch} (htrans : trans.remove = ∅) (hother : other.remove = ∅) : (trans.iadd other).remove = ∅ := by
  refine Finset.eq_empty_of_forall_notMem fun e he => ?_
  obtain ⟨hmem, -⟩ := TransactionBunch.mem_remove_iadd.mp he
  rw [htrans, hother] at hmem
  exact hmem.elim (Finset.notMem_empty e) (Finset.notMem_empty e)

/-- The mandatory groups, one after the other. -/
theorem foldlM_gathered {groups : List Group} (hgroups : ∀ group ∈ groups, solver.comps.groupById group.id = some group) {wanted : Package → Prop}
    {items : List Registered} {s t : State} {bunch : TransactionBunch} (h : Gathered wanted args.strict items s t bunch) :
    ∃ bunch' u, (groups.foldlM (fun trans group => do join trans (← solver.groupInstall group.id args.types args.strict)) bunch : Prog TransactionBunch) t =
        .ok bunch' u ∧
      Gathered (fun pkg => wanted pkg ∨ ∃ group ∈ groups, pkg ∈ pkgsOfType solver.codes group args.types) args.strict
        (items ++ groups.flatMap fun group => registeredGroup solver args group.id) s u bunch' := by
  induction groups generalizing wanted items t bunch with
  | nil =>
      refine ⟨bunch, t, rfl, ⟨h.picks.congr fun pkg => by simp, h.upgrade, h.remove, ?_, h.compsTrans⟩⟩
      rw [List.flatMap_nil, List.append_nil, h.items]
  | cons group groups ih =>
      have hgroup := hgroups group List.mem_cons_self
      obtain ⟨other, hrun, hpicks, hupgrade, hremove⟩ := groupInstall_apply hgroup args.types args.strict t
      let joined : State := { t with
        history := t.history.call .group .install (solver.newGroup group.id group args.types)
        accumulated := bunch.iadd other :: t.accumulated }
      have hjoined : Gathered (fun pkg => wanted pkg ∨ pkg ∈ pkgsOfType solver.codes group args.types) args.strict
          (items ++ registeredGroup solver args group.id) s joined (bunch.iadd other) := by
        refine ⟨h.picks.iadd hpicks, ?_, remove_iadd_empty h.remove hremove, ?_, h.compsTrans⟩
        · show bunch.upgrade ∪ other.upgrade = ∅
          rw [h.upgrade, hupgrade, Finset.union_empty]
        · show (t.history.call .group .install _).items = _
          rw [SwdbInterface.items_call, h.items, registeredGroup, hgroup, List.append_assoc]
          rfl
      obtain ⟨bunch', u, hrest, hgathered⟩ := ih (fun g hg => hgroups g (List.mem_cons_of_mem _ hg)) hjoined
      refine ⟨bunch', u, ?_, ⟨hgathered.picks.congr fun pkg => ?_, hgathered.upgrade, hgathered.remove, ?_, hgathered.compsTrans⟩⟩
      · rw [List.foldlM_cons, Effect.bind_apply, Effect.bind_apply, hrun]
        exact hrest
      · rw [List.exists_mem_cons_iff, or_assoc]
      · rw [hgathered.items, List.flatMap_cons, List.append_assoc]

theorem environmentInstall_gathered {envId : String} (henv : (solver.comps.environmentById envId).isSome = true) (s : State) :
    ∃ bunch t, solver.environmentInstall envId args.types args.strict args.excludeGroups s = .ok bunch t ∧
      Gathered (WantedOfEnvironment solver args envId) args.strict (registeredEnvironment solver args envId) s t bunch := by
  obtain ⟨env, henv⟩ := Option.isSome_iff_exists.mp henv
  have hgroups : ∀ group ∈ mandatoryGroups solver args env, solver.comps.groupById group.id = some group :=
    fun group hgroup => groupById_of_mem_buildGroups (List.mem_filter.mp hgroup).1
  let registered : Registered := ⟨.environment, .install, solver.newEnvironment envId env args.types (mandatoryGroups solver args env)
    ((solver.comps.buildGroups env.optionIds).filter fun group => group.id ∉ args.excludeGroups)⟩
  have hnothing : Gathered (fun _ => False) args.strict [registered] s { s with history := s.history.call .environment .install registered.item } {} := by
    refine ⟨⟨fun e => ?_, fun e => ?_⟩, rfl, rfl, SwdbInterface.items_call .., rfl⟩
    · exact iff_of_false (Finset.notMem_empty e) fun h => h.2.elim fun _ h => h.1
    · exact iff_of_false (Finset.notMem_empty e) fun h => h.2.elim fun _ h => h.1
  obtain ⟨bunch, t, hrun, hgathered⟩ := foldlM_gathered args hgroups hnothing
  refine ⟨bunch, t, ?_, ⟨hgathered.picks.congr fun pkg => ?_, hgathered.upgrade, hgathered.remove, ?_, hgathered.compsTrans⟩⟩
  · rw [Solver.environmentInstall, henv]
    exact hrun
  · rw [WantedOfEnvironment, henv, false_or]
    simp only [Option.some.injEq, exists_eq_left']
  · rw [hgathered.items, registeredEnvironment, henv]
    rfl

theorem baseEnvironmentInstall_picked {envId : String} (henv : (solver.comps.environmentById envId).isSome = true) (s : State) :
    ∃ bunch t, solver.baseEnvironmentInstall args envId s = .ok bunch t ∧
      Picked (WantedOfEnvironment solver args envId) args.strict (registeredEnvironment solver args envId) s t := by
  obtain ⟨bunch, t, hrun, hgathered⟩ := environmentInstall_gathered args henv s
  obtain ⟨u, hadd, hpicked⟩ := add_apply args hgathered.picks hgathered.upgrade hgathered.remove hgathered.items hgathered.compsTrans
  refine ⟨bunch, u, ?_, hpicked⟩
  rw [Solver.baseEnvironmentInstall, Solver.environmentInstallExcluding_eq, Effect.bind_apply, hrun]
  exact hadd

/-! ### The patterns -/

def Finds (q : CompsQuery) (pattern : String) : Prop := ¬(q.envs pattern = [] ∧ q.grps pattern = [])

instance (q : CompsQuery) (pattern : String) : Decidable (Finds q pattern) := inferInstanceAs (Decidable ¬_)

/-- The groups that a pattern finds and that are not excluded. -/
def foundGroups (q : CompsQuery) (args : InstallArgs) (pattern : String) : List String := (q.grps pattern).filter (· ∉ args.excludeGroups)

def WantedOfPattern (solver : Solver) (q : CompsQuery) (args : InstallArgs) (pattern : String) (pkg : Package) : Prop :=
  (∃ id ∈ foundGroups q args pattern, WantedOfGroup solver args id pkg) ∨ ∃ id ∈ q.envs pattern, WantedOfEnvironment solver args id pkg

def registeredPattern (solver : Solver) (q : CompsQuery) (args : InstallArgs) (pattern : String) : List Registered :=
  (foundGroups q args pattern).flatMap (registeredGroup solver args) ++ (q.envs pattern).flatMap (registeredEnvironment solver args)

theorem mem_grps_available (hq : q.OfAvailable solver) {pattern id : String} :
    id ∈ q.grps pattern ↔ ∃ group ∈ solver.comps.groupsByPattern q.variants pattern, group.id = id := by
  rw [CompsQuery.grps, hq.kinds, if_pos (by decide), CompsQuery.mem_getIds hq.setOrder, hq.status, and_iff_right (by decide), List.mem_map, hq.comps]
  exact or_iff_left fun h => h.1 (by decide)

theorem mem_envs_available (hq : q.OfAvailable solver) {pattern id : String} :
    id ∈ q.envs pattern ↔ ∃ env ∈ solver.comps.environmentsByPattern q.variants pattern, env.id = id := by
  rw [CompsQuery.envs, hq.kinds, if_pos (by decide), CompsQuery.mem_getIds hq.setOrder, hq.status, and_iff_right (by decide), List.mem_map, hq.comps]
  exact or_iff_left fun h => h.1 (by decide)

theorem isSome_groupById (hq : q.OfAvailable solver) {pattern id : String} (hid : id ∈ q.grps pattern) : (solver.comps.groupById id).isSome = true := by
  obtain ⟨group, hgroup, rfl⟩ := (mem_grps_available hq).mp hid
  exact List.find?_isSome.mpr ⟨group, (byPattern_sublist _ _ _ _ _).subset hgroup, decide_eq_true rfl⟩

theorem isSome_environmentById (hq : q.OfAvailable solver) {pattern id : String} (hid : id ∈ q.envs pattern) :
    (solver.comps.environmentById id).isSome = true := by
  obtain ⟨env, henv, rfl⟩ := (mem_envs_available hq).mp hid
  exact List.find?_isSome.mpr ⟨env, (byPattern_sublist _ _ _ _ _).subset henv, decide_eq_true rfl⟩

theorem flatMap_filter_not_mem {α : Type} (excluded ids : List String) (f : String → List α) :
    (ids.filter (· ∉ excluded)).flatMap f = ids.flatMap fun id => if id ∉ excluded then f id else [] := by
  induction ids with
  | nil => rfl
  | cons id ids ih =>
      rw [List.filter_cons, List.flatMap_cons, ← ih]
      by_cases hid : id ∉ excluded
      · rw [if_pos (decide_eq_true hid), if_pos hid, List.flatMap_cons]
      · rw [if_neg (by simpa using hid), if_neg hid, List.nil_append]

theorem installFoundGroups_picked (hq : q.OfAvailable solver) (pattern : String) (cnt : Nat) (s : State) :
    ∃ cnt' t, (q.grps pattern).foldlM (solver.installFoundGroup args) cnt s = .ok cnt' t ∧
      Picked (fun pkg => ∃ id ∈ foundGroups q args pattern, WantedOfGroup solver args id pkg) args.strict
        ((foundGroups q args pattern).flatMap (registeredGroup solver args)) s t := by
  have hturn : ∀ id ∈ q.grps pattern, ∀ cnt s, ∃ cnt' t, solver.installFoundGroup args cnt id s = .ok cnt' t ∧
      Picked (fun pkg => id ∉ args.excludeGroups ∧ WantedOfGroup solver args id pkg) args.strict
        (if id ∉ args.excludeGroups then registeredGroup solver args id else []) s t := by
    intro id hid cnt s
    by_cases hexcluded : id ∈ args.excludeGroups
    · refine ⟨cnt, s, by rw [Solver.installFoundGroup, if_pos hexcluded]; rfl, ?_⟩
      rw [if_neg (not_not_intro hexcluded)]
      exact (Picked.refl args.strict s).congr fun pkg => iff_of_false not_false fun h => h.1 hexcluded
    · obtain ⟨bunch, t, hrun, hpicked⟩ := baseGroupInstall_picked args (isSome_groupById hq hid) s
      refine ⟨cnt + bunch.length, t, ?_, ?_⟩
      · rw [Solver.installFoundGroup, if_neg hexcluded, Effect.bind_apply, hrun]
        rfl
      · rw [if_pos hexcluded]
        exact hpicked.congr fun pkg => (and_iff_right hexcluded).symm
  obtain ⟨cnt', t, hrun, hpicked⟩ := Picked.foldlM _ hturn cnt s
  refine ⟨cnt', t, hrun, ?_⟩
  have hitems : (foundGroups q args pattern).flatMap (registeredGroup solver args) =
      (q.grps pattern).flatMap fun id => if id ∉ args.excludeGroups then registeredGroup solver args id else [] := by
    exact flatMap_filter_not_mem args.excludeGroups (q.grps pattern) (registeredGroup solver args)
  rw [hitems]
  refine hpicked.congr fun pkg => exists_congr fun id => ?_
  rw [foundGroups, List.mem_filter, decide_eq_true_iff, and_assoc]

theorem installFoundEnvironments_picked (hq : q.OfAvailable solver) (pattern : String) (cnt : Nat) (s : State) :
    ∃ cnt' t, (q.envs pattern).foldlM (solver.installFoundEnvironment args) cnt s = .ok cnt' t ∧
      Picked (fun pkg => ∃ id ∈ q.envs pattern, WantedOfEnvironment solver args id pkg) args.strict
        ((q.envs pattern).flatMap (registeredEnvironment solver args)) s t := by
  refine Picked.foldlM _ (fun id hid cnt s => ?_) cnt s
  obtain ⟨bunch, t, hrun, hpicked⟩ := baseEnvironmentInstall_picked args (isSome_environmentById hq hid) s
  refine ⟨cnt + bunch.length, t, ?_, hpicked⟩
  rw [Solver.installFoundEnvironment, Effect.bind_apply, hrun]
  rfl

theorem installPattern_picked (hq : q.OfAvailable solver) (pattern : String) (progress : Nat × Bool) (s : State) :
    ∃ cnt t, solver.installPattern q args progress pattern s = .ok (cnt, progress.2 && decide (Finds q pattern)) t ∧
      Picked (WantedOfPattern solver q args pattern) args.strict (registeredPattern solver q args pattern) s t := by
  by_cases hnothing : q.envs pattern = [] ∧ q.grps pattern = []
  · refine ⟨progress.1, s, ?_, ?_⟩
    · rw [Solver.installPattern, get_singleton, if_pos hnothing, decide_eq_false (show ¬Finds q pattern from not_not_intro hnothing), Bool.and_false]
      rfl
    · rw [registeredPattern, foundGroups, hnothing.1, hnothing.2]
      refine (Picked.refl args.strict s).congr fun pkg => ?_
      rw [WantedOfPattern, foundGroups, hnothing.1, hnothing.2]
      simp
  · obtain ⟨cnt, t, hgroups, hpicked⟩ := installFoundGroups_picked args hq pattern progress.1 s
    obtain ⟨cnt', u, henvs, hpicked'⟩ := installFoundEnvironments_picked args hq pattern cnt t
    refine ⟨cnt', u, ?_, hpicked.trans hpicked'⟩
    rw [Solver.installPattern, get_singleton, if_neg hnothing, decide_eq_true (show Finds q pattern from hnothing), Bool.and_true]
    dsimp only
    rw [Effect.bind_apply, hgroups]
    dsimp only
    rw [Effect.bind_apply, henvs]
    rfl

theorem foldlM_installPattern (hq : q.OfAvailable solver) (patterns : List String) (progress : Nat × Bool) (s : State) :
    ∃ cnt t, patterns.foldlM (solver.installPattern q args) progress s = .ok (cnt, progress.2 && patterns.all fun pattern => Finds q pattern) t ∧
      Picked (fun pkg => ∃ pattern ∈ patterns, WantedOfPattern solver q args pattern pkg) args.strict
        (patterns.flatMap (registeredPattern solver q args)) s t := by
  induction patterns generalizing progress s with
  | nil => exact ⟨progress.1, s, by rw [List.all_nil, Bool.and_true]; rfl, (Picked.refl args.strict s).congr fun pkg => by simp⟩
  | cons pattern patterns ih =>
      obtain ⟨cnt, t, hrun, hpicked⟩ := installPattern_picked args hq pattern progress s
      obtain ⟨cnt', u, hrest, hpicked'⟩ := ih (cnt, progress.2 && decide (Finds q pattern)) t
      refine ⟨cnt', u, ?_, (hpicked.trans hpicked').congr fun pkg => by rw [List.exists_mem_cons_iff]⟩
      rw [List.foldlM_cons, Effect.bind_apply, hrun]
      dsimp only
      rw [hrest, List.all_cons, Bool.and_assoc]

/-- `env_group_install` picks exactly the packages of the wanted types of what the patterns find, without the excluded groups, and registers the groups and environments in order. It fails only where every pattern is to find something and one does not, and then all this is done. -/
theorem envGroupInstall_picks (solver : Solver) (q : CompsQuery) (hq : q.OfAvailable solver) (args : InstallArgs) (patterns : List String) (s : State) :
    ∃ cnt t, solver.envGroupInstall q args patterns s =
        (if args.strict = true ∧ ∃ pattern ∈ patterns, ¬Finds q pattern then .error (.error "Nothing to do.") t else .ok cnt t) ∧
      Picked (fun pkg => ∃ pattern ∈ patterns, WantedOfPattern solver q args pattern pkg) args.strict
        (patterns.flatMap (registeredPattern solver q args)) s t := by
  obtain ⟨cnt, t, hrun, hpicked⟩ := foldlM_installPattern args hq patterns (0, true) s
  refine ⟨cnt, t, ?_, hpicked⟩
  have hadapt : EStateM.adaptExcept BaseExc.solver (patterns.foldlM (solver.installPattern q args) (0, true)) s =
      .ok (cnt, patterns.all fun pattern => Finds q pattern) t := by
    rw [EStateM.adaptExcept, hrun, Bool.true_and]
  rw [Solver.envGroupInstall, Effect.bind_apply, hadapt]
  dsimp only
  have hcondition : (!(patterns.all fun pattern => decide (Finds q pattern)) && args.strict) = true ↔
      args.strict = true ∧ ∃ pattern ∈ patterns, ¬Finds q pattern := by
    rw [Bool.and_eq_true, and_comm]
    simp
  simp only [hcondition]
  split_ifs <;> rfl

end Installing

/-- What the repositories offer, found by id, name or translated name. -/
def offeredQuery (comps : Comps) : CompsQuery where
  comps := comps
  variants := Fnmatch.asciiVariants
  search _ _ := []
  setOrder := List.dedup
  kinds := CompsQuery.ENVIRONMENTS ||| CompsQuery.GROUPS
  status := CompsQuery.AVAILABLE

/-- The second pattern finds nothing; the group that the first one finds is installed all the same. -/
theorem envGroupInstall_picks_base :
    ∃ t, (solverOf [baseDefinition] baseRecord).envGroupInstall (offeredQuery ⟨[baseDefinition], []⟩) ⟨4, true, [], [], []⟩ ["base", "spices"] ⟨{}, {}, []⟩ =
        .error (.error "Nothing to do.") t ∧
      Picked (fun pkg => ∃ pattern ∈ ["base", "spices"],
          WantedOfPattern (solverOf [baseDefinition] baseRecord) (offeredQuery ⟨[baseDefinition], []⟩) ⟨4, true, [], [], []⟩ pattern pkg) true
        (["base", "spices"].flatMap (registeredPattern (solverOf [baseDefinition] baseRecord) (offeredQuery ⟨[baseDefinition], []⟩) ⟨4, true, [], [], []⟩))
        ⟨{}, {}, []⟩ t := by
  have hq : (offeredQuery ⟨[baseDefinition], []⟩).OfAvailable (solverOf [baseDefinition] baseRecord) := ⟨rfl, rfl, rfl, iteratesSets_dedup⟩
  obtain ⟨cnt, t, hrun, hpicked⟩ := envGroupInstall_picks (solverOf [baseDefinition] baseRecord) (offeredQuery ⟨[baseDefinition], []⟩) hq
    ⟨4, true, [], [], []⟩ ["base", "spices"] ⟨{}, {}, []⟩
  rw [if_pos ⟨rfl, "spices", by simp, by decide +kernel⟩] at hrun
  exact ⟨t, hrun, hpicked⟩

end Dnf.Groups
