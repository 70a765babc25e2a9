import Dnf.Groups.RemovedOnce

/-!
# `Base._expand_groups`

The group specs of an exclusion stand for the groups and environments they find, offered or installed, and for the groups of these environments. What is installed is found through the history, but the groups of an environment are looked up in the repositories only.
-/

namespace Dnf.Groups

open History Foundation

/-- `Environment.groups_iter`: the ids that have no group are only logged. -/
def Comps.groupsIter (comps : Comps) (env : Environment) : List Group := comps.buildGroups (env.groupIds ++ env.optionIds)

section Code

variable (q : CompsQuery)

def addEnvironment (groups : List String) (environmentId : String) : Except BaseExc (List String) :=
  match q.comps.environmentById environmentId with
  | none => .error .attributeError
  | some environment => .ok (groups ++ (q.comps.groupsIter environment).map Group.id)

/-- One spec; a spec that finds nothing is only logged. -/
def expandSpec (groups : List String) (pattern : String) : Except BaseExc (List String) :=
  match q.get [pattern] with
  | .error (.compsError _) => .ok groups
  | .error e => .error (.solver e)
  | .ok res => res.environments.foldlM (addEnvironment q) (groups ++ res.groups ++ res.environments)

/-- `Base._expand_groups`. -/
def expandGroups (groupSpecs : List String) : Except BaseExc (List String) := do
  let groups ← groupSpecs.foldlM (expandSpec q) []
  pure (q.setOrder groups)

end Code

/-- The query of `_expand_groups`. -/
structure CompsQuery.OfAll (q : CompsQuery) : Prop where
  kinds : q.kinds = ENVIRONMENTS ||| GROUPS
  status : q.status = AVAILABLE ||| INSTALLED
  setOrder : IteratesSets q.setOrder

section Matching

variable (q : CompsQuery)

def MatchesEnvironment (spec id : String) : Prop :=
  (∃ env ∈ q.comps.environmentsByPattern q.variants spec, env.id = id) ∨ ∃ item, some item ∈ q.search .environment spec ∧ item.id = id

def MatchesGroup (spec id : String) : Prop :=
  (∃ group ∈ q.comps.groupsByPattern q.variants spec, group.id = id) ∨ ∃ item, some item ∈ q.search .group spec ∧ item.id = id

/-- The group belongs to the environment: as the repositories define it, and if none of them does, as it is installed. -/
def Belongs (swdb : Swdb) (environmentId groupId : String) : Prop :=
  match q.comps.environmentById environmentId with
  | some env => (groupId ∈ env.groupIds ∨ groupId ∈ env.optionIds) ∧ ∃ group ∈ q.comps.groups, group.id = groupId
  | none => groupId ∈ groupIdsOf swdb environmentId

/-- What a spec stands for. -/
def Denotes (swdb : Swdb) (spec id : String) : Prop :=
  MatchesGroup q spec id ∨ MatchesEnvironment q spec id ∨ ∃ environmentId, MatchesEnvironment q spec environmentId ∧ Belongs q swdb environmentId id

variable {q}

theorem mem_getIds_all (hq : q.OfAll) {available : List String} {installed : List (Option CompsItem)} {id : String} :
    id ∈ q.getIds available installed ↔ id ∈ available ∨ ∃ item, some item ∈ installed ∧ item.id = id := by
  rw [CompsQuery.mem_getIds hq.setOrder, hq.status, and_iff_right (by decide), and_iff_right (by decide)]

theorem mem_envs (hq : q.OfAll) {spec id : String} : id ∈ q.envs spec ↔ MatchesEnvironment q spec id := by
  rw [CompsQuery.envs, hq.kinds, if_pos (by decide), mem_getIds_all hq, List.mem_map, MatchesEnvironment]

theorem mem_grps (hq : q.OfAll) {spec id : String} : id ∈ q.grps spec ↔ MatchesGroup q spec id := by
  rw [CompsQuery.grps, hq.kinds, if_pos (by decide), mem_getIds_all hq, List.mem_map, MatchesGroup]

theorem groupById_id {comps : Comps} {id : String} {group : Group} (h : comps.groupById id = some group) : group.id = id :=
  of_decide_eq_true (List.find?_some (p := fun group : Group => decide (group.id = id)) h)

theorem mem_groupsIter {comps : Comps} {env : Environment} {id : String} :
    id ∈ (comps.groupsIter env).map Group.id ↔ (id ∈ env.groupIds ∨ id ∈ env.optionIds) ∧ ∃ group ∈ comps.groups, group.id = id := by
  rw [Comps.groupsIter, Comps.buildGroups, List.mem_map, ← List.mem_append]
  constructor
  · rintro ⟨group, hgroup, rfl⟩
    obtain ⟨id, hid, hfound⟩ := List.mem_filterMap.mp hgroup
    rw [groupById_id hfound]
    exact ⟨hid, group, List.mem_of_find?_eq_some hfound, groupById_id hfound⟩
  · rintro ⟨hid, other, hother, rfl⟩
    have hfound : (comps.groupById other.id).isSome = true := List.find?_isSome.mpr ⟨other, hother, decide_eq_true rfl⟩
    obtain ⟨group, hgroup⟩ := Option.isSome_iff_exists.mp hfound
    exact ⟨group, List.mem_filterMap.mpr ⟨other.id, hid, hgroup⟩, groupById_id hgroup⟩

theorem addEnvironment_ok {swdb : Swdb} {environmentId : String} (h : (q.comps.environmentById environmentId).isSome = true) (groups : List String) :
    ∃ groups', addEnvironment q groups environmentId = .ok groups' ∧ ∀ id, id ∈ groups' ↔ id ∈ groups ∨ Belongs q swdb environmentId id := by
  obtain ⟨env, henv⟩ := Option.isSome_iff_exists.mp h
  refine ⟨groups ++ (q.comps.groupsIter env).map Group.id, by rw [addEnvironment, henv], fun id => ?_⟩
  rw [List.mem_append, mem_groupsIter, Belongs, henv]

theorem addEnvironment_error {environmentId : String} (h : ¬(q.comps.environmentById environmentId).isSome = true) (groups : List String) :
    addEnvironment q groups environmentId = .error .attributeError := by
  rw [addEnvironment, Option.not_isSome_iff_eq_none.mp h]

theorem get_singleton (pat : String) :
    q.get [pat] = if q.envs pat = [] ∧ q.grps pat = [] then .error (.compsError (q.missing pat)) else .ok ⟨q.envs pat, q.grps pat⟩ := by
  rw [CompsQuery.get, List.foldlM_cons, CompsQuery.getPattern]
  split_ifs
  · rfl
  · rfl

theorem expandSpec_eq (groups : List String) (spec : String) : expandSpec q groups spec =
    if q.envs spec = [] ∧ q.grps spec = [] then .ok groups
    else (q.envs spec).foldlM (addEnvironment q) (groups ++ q.grps spec ++ q.envs spec) := by
  rw [expandSpec, get_singleton]
  split_ifs
  · rfl
  · rfl

theorem expandSpec_nothing {spec : String} (h : q.envs spec = [] ∧ q.grps spec = []) (groups : List String) :
    expandSpec q groups spec = .ok groups := by
  rw [expandSpec_eq, if_pos h]

theorem expandSpec_found {spec : String} (h : ¬(q.envs spec = [] ∧ q.grps spec = [])) (groups : List String) :
    expandSpec q groups spec = (q.envs spec).foldlM (addEnvironment q) (groups ++ q.grps spec ++ q.envs spec) := by
  rw [expandSpec_eq, if_neg h]

/-- The environments found are all offered by a repository. -/
def Offered (q : CompsQuery) (spec : String) : Prop :=
  ∀ id, MatchesEnvironment q spec id → (q.comps.environmentById id).isSome = true

theorem expandSpec_ok (swdb : Swdb) (hq : q.OfAll) {spec : String} (h : Offered q spec) (groups : List String) :
    ∃ groups', expandSpec q groups spec = .ok groups' ∧ ∀ id, id ∈ groups' ↔ id ∈ groups ∨ Denotes q swdb spec id := by
  by_cases hnothing : q.envs spec = [] ∧ q.grps spec = []
  · refine ⟨groups, expandSpec_nothing hnothing groups, fun id => ?_⟩
    rw [Denotes]
    simp only [← mem_envs hq, ← mem_grps hq, hnothing.1, hnothing.2, List.not_mem_nil, false_and, exists_false, or_false]
  · rw [expandSpec_found hnothing]
    have hstep : ∀ environmentId ∈ q.envs spec, ∀ gs, ∃ gs', addEnvironment q gs environmentId = .ok gs' ∧
        ∀ id, id ∈ gs' ↔ id ∈ gs ∨ Belongs q swdb environmentId id :=
      fun environmentId hmem gs => addEnvironment_ok (h environmentId ((mem_envs hq).mp hmem)) gs
    obtain ⟨groups', hrun, hmem⟩ := Fallible.foldlM_collects hstep (groups ++ q.grps spec ++ q.envs spec)
    refine ⟨groups', hrun, fun id => ?_⟩
    rw [hmem, List.mem_append, List.mem_append, or_assoc, or_assoc, Denotes, ← mem_envs hq, ← mem_grps hq]
    simp only [mem_envs hq]

theorem expandSpec_error (hq : q.OfAll) {spec : String} (h : ¬Offered q spec) (groups : List String) :
    expandSpec q groups spec = .error .attributeError := by
  obtain ⟨id, hfalse⟩ := not_forall.mp h
  obtain ⟨hmatches, hnone⟩ := Classical.not_imp.mp hfalse
  have hid : id ∈ q.envs spec := (mem_envs hq).mpr hmatches
  have hsome : ¬(q.envs spec = [] ∧ q.grps spec = []) := fun hnothing => List.not_mem_nil (hnothing.1 ▸ hid)
  rw [expandSpec_found hsome]
  refine Fallible.foldlM_raises (fun environmentId _ gs => ?_) ⟨id, hid, fun gs => addEnvironment_error hnone gs⟩ _
  by_cases hin : (q.comps.environmentById environmentId).isSome = true
  · obtain ⟨env, henv⟩ := Option.isSome_iff_exists.mp hin
    exact Or.inl ⟨_, by rw [addEnvironment, henv]⟩
  · exact Or.inr (addEnvironment_error hin gs)

theorem isSome_of_mem {comps : Comps} {env : Environment} (h : env ∈ comps.environments) : (comps.environmentById env.id).isSome = true :=
  List.find?_isSome.mpr ⟨env, h, decide_eq_true rfl⟩

/-- What the repositories offer is offered. -/
theorem offered_iff {spec : String} : Offered q spec ↔ ∀ item, some item ∈ q.search .environment spec → (q.comps.environmentById item.id).isSome = true := by
  constructor
  · exact fun h item hitem => h item.id (Or.inr ⟨item, hitem, rfl⟩)
  · rintro h id (⟨env, henv, rfl⟩ | ⟨item, hitem, rfl⟩)
    · exact isSome_of_mem ((byPattern_sublist _ _ _ _ _).subset henv)
    · exact h item hitem

end Matching

/-- No exception, no repetition, and exactly what the specs stand for. -/
def ExpandsExactly (q : CompsQuery) (swdb : Swdb) (groupSpecs : List String) : Prop :=
  ∃ ids, expandGroups q groupSpecs = .ok ids ∧ ids.Nodup ∧ ∀ id, id ∈ ids ↔ ∃ spec ∈ groupSpecs, Denotes q swdb spec id

/-- The expansion is total and exact iff every installed environment that a spec finds is still offered. -/
theorem expandsExactly_iff {q : CompsQuery} (hq : q.OfAll) (swdb : Swdb) (groupSpecs : List String) :
    ExpandsExactly q swdb groupSpecs ↔
      ∀ spec ∈ groupSpecs, ∀ item, some item ∈ q.search .environment spec → (q.comps.environmentById item.id).isSome = true := by
  simp only [← offered_iff]
  constructor
  · rintro ⟨ids, hrun, -⟩ spec hspec
    by_contra hnot
    have hraises : groupSpecs.foldlM (expandSpec q) [] = .error .attributeError := by
      refine Fallible.foldlM_raises (fun other _ groups => ?_) ⟨spec, hspec, fun groups => expandSpec_error hq hnot groups⟩ []
      by_cases hoffered : Offered q other
      · obtain ⟨groups', hrun', -⟩ := expandSpec_ok swdb hq hoffered groups
        exact Or.inl ⟨groups', hrun'⟩
      · exact Or.inr (expandSpec_error hq hoffered groups)
    rw [expandGroups, hraises] at hrun
    cases hrun
  · intro hoffered
    obtain ⟨groups, hrun, hmem⟩ := Fallible.foldlM_collects (fun spec hspec groups => expandSpec_ok swdb hq (hoffered spec hspec) groups) []
    refine ⟨q.setOrder groups, by rw [expandGroups, hrun]; rfl, (hq.setOrder groups).1, fun id => ?_⟩
    rw [(hq.setOrder groups).2, hmem]
    simp only [List.not_mem_nil, false_or]

/-- `desktop` is installed; a pattern finds an installed item by its id. -/
def desktopQuery (comps : Comps) : CompsQuery where
  comps := comps
  variants := Fnmatch.asciiVariants
  search kind pat := [baseSwdb.getItem kind pat]
  setOrder := List.dedup
  kinds := CompsQuery.ENVIRONMENTS ||| CompsQuery.GROUPS
  status := CompsQuery.AVAILABLE ||| CompsQuery.INSTALLED

theorem desktopQuery_ofAll (comps : Comps) : (desktopQuery comps).OfAll := ⟨rfl, rfl, iteratesSets_dedup⟩

def desktopComps : Comps := ⟨[baseDefinition], [⟨"desktop", "Desktop", "Desktop", ["base"], ["games"]⟩]⟩

theorem expandsExactly_desktop : ExpandsExactly (desktopQuery desktopComps) baseSwdb ["desktop", "base"] := by
  refine (expandsExactly_iff (desktopQuery_ofAll desktopComps) baseSwdb _).mpr fun spec hspec item hitem => ?_
  have hfound : baseSwdb.getItem .environment spec = some item := (List.mem_singleton.mp hitem).symm
  obtain ⟨-, hsame⟩ := Option.ite_none_right_eq_some.mp hfound
  rw [← Option.some.inj hsame]
  decide +kernel

/-- No repository offers the installed environment any more. -/
theorem not_expandsExactly_desktop : ¬ExpandsExactly (desktopQuery ⟨[baseDefinition], []⟩) baseSwdb ["desktop"] := by
  intro hexact
  have hoffered := (expandsExactly_iff (desktopQuery_ofAll _) baseSwdb _).mp hexact "desktop" List.mem_cons_self
    ⟨"desktop", "Desktop", "Desktop", 4, [⟨"base", true, 4⟩]⟩ (List.mem_singleton.mpr rfl)
  revert hoffered
  decide +kernel

end Dnf.Groups
