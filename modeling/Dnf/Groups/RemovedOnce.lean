import Dnf.Foundation.Fallible
import Dnf.Groups.CompsQuery
import Dnf.Groups.Upgrade
import Dnf.History.Removals

/-!
# How often `env_group_remove` registers a removal

The ids that the patterns find are collected without regard to repetitions, and each of them is removed in turn, the environments first. An environment takes with it the groups that no other environment holds any more, and nothing remembers that they are removed. So the registrations are the environments found, the groups that went with them and the groups found, as often as they occur in these lists.
-/

namespace Dnf.Groups

open History Foundation

namespace Solver

variable (solver : Solver)

/-- `Base.environment_remove` and `Base.group_remove`, which return the size of the bunch. -/
def baseRemove (operation : Operation) : Prog Nat := do
  let trans ← solver.perform operation
  addCompsTrans trans
  pure trans.length

def removeAll (operations : List Operation) : Prog Nat :=
  operations.foldlM (fun cnt operation => do pure (cnt + (← solver.baseRemove operation))) 0

/-- `Base.env_group_remove`. -/
def envGroupRemove (q : CompsQuery) (patterns : List String) : EStateM BaseExc State Nat :=
  match q.get patterns with
  | .error _ => throw (.error "No groups marked for removal.")
  | .ok res =>
      EStateM.adaptExcept BaseExc.solver
        (solver.removeAll (res.environments.map .environmentRemove ++ res.groups.map .groupRemove))

end Solver

/-- The registrations that remove the item of a kind and an id. -/
def State.timesRemoved (s : State) (kind : Kind) (id : String) : Nat :=
  s.history.items.countP fun registered => registered.kind = kind ∧ registered.action = .remove ∧ registered.item.id = id

/-- The query of `env_group_remove`. -/
structure CompsQuery.OfInstalled (q : CompsQuery) (solver : Solver) : Prop where
  kinds : q.kinds = ENVIRONMENTS ||| GROUPS
  status : q.status = INSTALLED
  comps : q.comps = solver.comps
  setOrder : q.setOrder = solver.setOrder

/-- libdnf's history: the documented queries over records as they are committed, and a search that finds what is installed. -/
structure Solver.Reads (solver : Solver) (q : CompsQuery) : Prop where
  documented : solver.swdb.Documented
  groups : Committed solver.swdb.getCompsGroupItem
  environments : Committed solver.swdb.getCompsEnvironmentItem
  search : ∀ kind pat item, some item ∈ q.search kind pat → (solver.swdb.getItem kind item.id).isSome = true
  setOrder : IteratesSets solver.setOrder

section Removing

variable (solver : Solver)

/-- The ids of the groups of an installed environment. -/
def groupIdsOf (swdb : Swdb) (envId : String) : List String :=
  match swdb.getCompsEnvironmentItem envId with
  | none => []
  | some record => record.members.map (·.name)

/-- The group is installed, and the environments that hold it are among those removed. -/
def removableAfter (swdb : Swdb) (removed : List String) (groupId : String) : Bool :=
  (swdb.getCompsGroupItem groupId).isSome && (swdb.getCompsGroupEnvironments groupId).all (· ∈ removed)

/-- The groups of an environment that are removed with it, when these environments are removed. -/
def removedWith (removed : List String) (envId : String) : List String :=
  (solver.setOrder (groupIdsOf solver.swdb envId)).filter (removableAfter solver.swdb removed)

/-- The groups removed with some environments, one environment after the other. -/
def containedRemovals (removed : List String) : List String → List String
  | [] => []
  | envId :: rest => removedWith solver (removed ++ [envId]) envId ++ containedRemovals (removed ++ [envId]) rest

variable {solver} {q : CompsQuery} {s : State} {envs groups : List String}

theorem containedRemovals_concat (removed done : List String) (envId : String) :
    containedRemovals solver removed (done ++ [envId]) =
      containedRemovals solver removed done ++ removedWith solver (removed ++ (done ++ [envId])) envId := by
  induction done generalizing removed with
  | nil => exact List.append_nil _
  | cons e done ih =>
      rw [List.cons_append, containedRemovals, containedRemovals, ih, List.append_assoc, List.append_assoc]
      rfl

/-- What has been removed so far. -/
structure Removed (solver : Solver) (s : State) (envs groups : List String) : Prop where
  env : ∃ calls, s.history.env = Pending.after calls ∧ Removals solver.swdb.getCompsEnvironmentItem calls envs
  group : ∃ calls, s.history.group = Pending.after calls ∧ Removals solver.swdb.getCompsGroupItem calls groups
  environments : ∀ id, s.timesRemoved .environment id = envs.count id
  groups : ∀ id, s.timesRemoved .group id = groups.count id

theorem pending_after_concat (calls : List (Call × CompsItem)) (item : CompsItem) :
    (Pending.after calls).record .remove item = Pending.after (calls ++ [(.remove, item)]) := by
  rw [Pending.after, Pending.after, List.foldl_append]
  rfl

theorem timesRemoved_call (s : State) (kind kind' : Kind) (item : CompsItem) (id : String) :
    State.timesRemoved { s with history := s.history.call kind .remove item } kind' id =
      s.timesRemoved kind' id + if kind = kind' ∧ item.id = id then 1 else 0 := by
  rw [State.timesRemoved, SwdbInterface.items_call, List.countP_append, List.countP_singleton, State.timesRemoved]
  congr 1
  exact if_congr (by simp [Call.action]) rfl rfl

theorem count_concat (ids : List String) (id id' : String) : (ids ++ [id]).count id' = ids.count id' + if id = id' then 1 else 0 := by
  rw [List.count_append, List.count_singleton]
  congr 1
  exact if_congr (by simp) rfl rfl

theorem Removed.callGroup (hreads : solver.Reads q) (h : Removed solver s envs groups) {id : String} {record : CompsItem}
    (hrecord : solver.swdb.getCompsGroupItem id = some record) :
    Removed solver { s with history := s.history.call .group .remove record } envs (groups ++ [id]) where
  env := h.env
  group := by
    obtain ⟨calls, hcalls, hremovals⟩ := h.group
    refine ⟨calls ++ [(.remove, record)], ?_, hremovals.concat hreads.groups hrecord⟩
    rw [← pending_after_concat, ← hcalls]
    rfl
  environments := fun id' => by
    have hkind : ¬(Kind.group = Kind.environment ∧ record.id = id') := fun hboth => Kind.noConfusion hboth.1
    rw [timesRemoved_call, h.environments, if_neg hkind, Nat.add_zero]
  groups := fun id' => by
    rw [timesRemoved_call, h.groups, count_concat, hreads.groups.id id record hrecord]
    congr 1
    exact if_congr (and_iff_right rfl) rfl rfl

theorem Removed.callEnv (hreads : solver.Reads q) (h : Removed solver s envs groups) {id : String} {record : CompsItem}
    (hrecord : solver.swdb.getCompsEnvironmentItem id = some record) :
    Removed solver { s with history := s.history.call .environment .remove record } (envs ++ [id]) groups where
  env := by
    obtain ⟨calls, hcalls, hremovals⟩ := h.env
    refine ⟨calls ++ [(.remove, record)], ?_, hremovals.concat hreads.environments hrecord⟩
    rw [← pending_after_concat, ← hcalls]
    rfl
  group := h.group
  environments := fun id' => by
    rw [timesRemoved_call, h.environments, count_concat, hreads.environments.id id record hrecord]
    congr 1
    exact if_congr (and_iff_right rfl) rfl rfl
  groups := fun id' => by
    have hkind : ¬(Kind.environment = Kind.group ∧ record.id = id') := fun hboth => Kind.noConfusion hboth.1
    rw [timesRemoved_call, h.groups, if_neg hkind, Nat.add_zero]

/-- Only the history matters. -/
theorem Removed.congr {t : State} (h : Removed solver s envs groups) (hhistory : t.history = s.history) : Removed solver t envs groups := by
  have htimes : ∀ kind id, t.timesRemoved kind id = s.timesRemoved kind id := by
    intro kind id
    rw [State.timesRemoved, hhistory]
    rfl
  exact ⟨hhistory ▸ h.env, hhistory ▸ h.group, fun id => (htimes _ id).trans (h.environments id), fun id => (htimes _ id).trans (h.groups id)⟩

/-- No exception: the answers are there. -/
def Ends {α : Type} (P : State → Prop) (x : Prog α) (Q : State → Prop) : Prop := Effect.Triple P x (fun _ => Q) fun _ _ => False

theorem groupRemove_ends (hreads : solver.Reads q) {id : String} (hid : (solver.swdb.getCompsGroupItem id).isSome = true) :
    Ends (Removed solver · envs groups) (solver.groupRemove id) (Removed solver · envs (groups ++ [id])) := by
  obtain ⟨record, hrecord⟩ := Option.isSome_iff_exists.mp hid
  intro s hs
  have hcall := hs.callGroup hreads hrecord
  obtain ⟨calls, hcalls, hremovals⟩ := hcall.group
  have hanswers : ∀ pkg ∈ record.members, ∃ b, isRemovablePkg solver.swdb (Pending.after calls) pkg.name = .ok b := fun pkg _ =>
    isRemovablePkg_of_removals hreads.documented hreads.groups hremovals pkg.name
  obtain ⟨removable, hremovable⟩ := Fallible.exists_filterM_ok hanswers
  rw [← hcalls] at hremovable
  rw [Solver.groupRemove, hrecord]
  simp only [callGroup, Effect.bind_apply, Effect.modify_apply, Effect.get_apply, hremovable]
  exact hcall

theorem join_ends (trans other : TransactionBunch) : Ends (Removed solver · envs groups) (join trans other) (Removed solver · envs groups) := by
  intro s hs
  exact hs.congr rfl

theorem addCompsTrans_ends (trans : TransactionBunch) :
    Ends (Removed solver · envs groups) (Solver.addCompsTrans trans) (Removed solver · envs groups) := by
  intro s hs
  exact hs.congr rfl

theorem removeIfRemovable_ends (hreads : solver.Reads q) (trans : TransactionBunch) (id : String) :
    Ends (Removed solver · envs groups) (solver.removeIfRemovable trans id)
      (Removed solver · envs (groups ++ [id].filter (removableAfter solver.swdb envs))) := by
  intro s hs
  obtain ⟨calls, hcalls, hremovals⟩ := hs.env
  have hanswer : isRemovableGroup solver.swdb s.history.env id = .ok (removableAfter solver.swdb envs id) := by
    rw [hcalls, isRemovableGroup_of_removals hreads.documented hreads.environments hremovals]
    rfl
  simp only [Solver.removeIfRemovable, Effect.bind_apply, Effect.get_apply, hanswer]
  cases hremovable : removableAfter solver.swdb envs id with
  | false =>
      rw [List.filter_singleton, hremovable, cond_false, List.append_nil]
      exact hs
  | true =>
      have hinstalled : (solver.swdb.getCompsGroupItem id).isSome = true := (Bool.and_eq_true_iff.mp hremovable).1
      have hremove : Ends (Removed solver · envs groups) (solver.groupRemove id) (Removed solver · envs (groups ++ [id])) :=
        groupRemove_ends hreads hinstalled
      rw [List.filter_singleton, hremovable]
      exact Effect.Triple.bind hremove (fun other => join_ends trans other) s hs

theorem environmentRemove_ends (hreads : solver.Reads q) {id : String} (hid : (solver.swdb.getCompsEnvironmentItem id).isSome = true) :
    Ends (Removed solver · envs groups) (solver.environmentRemove id)
      (Removed solver · (envs ++ [id]) (groups ++ removedWith solver (envs ++ [id]) id)) := by
  obtain ⟨record, hrecord⟩ := Option.isSome_iff_exists.mp hid
  have hids : groupIdsOf solver.swdb id = record.members.map (·.name) := by rw [groupIdsOf, hrecord]
  rw [Solver.environmentRemove, hrecord, removedWith, hids]
  refine Effect.Triple.bind (M := fun _ t => Removed solver t (envs ++ [id]) groups) (fun s hs => hs.callEnv hreads hrecord) fun _ => ?_
  refine (Effect.Triple.foldlM
    (I := fun done _ t => Removed solver t (envs ++ [id]) (groups ++ done.filter (removableAfter solver.swdb (envs ++ [id]))))
    (fun done c _ trans => ?_) ({} : TransactionBunch)).weaken (fun t ht => ?_) (fun _ _ ht => ht) (fun _ _ ht => ht)
  · rw [List.filter_append, ← List.append_assoc]
    exact removeIfRemovable_ends hreads trans c
  · rwa [List.filter_nil, List.append_nil]

theorem baseRemove_ends {operation : Operation} {envs' groups' : List String}
    (h : Ends (Removed solver · envs groups) (solver.perform operation) (Removed solver · envs' groups')) :
    Ends (Removed solver · envs groups) (solver.baseRemove operation) (Removed solver · envs' groups') :=
  Effect.Triple.bind h fun trans => Effect.Triple.bind (addCompsTrans_ends trans) fun _ => Effect.Triple.pure fun _ ht => ht

theorem removeAll_ends (hreads : solver.Reads q) {found found' : List String}
    (hfound : ∀ id ∈ found, (solver.swdb.getCompsEnvironmentItem id).isSome = true)
    (hfound' : ∀ id ∈ found', (solver.swdb.getCompsGroupItem id).isSome = true) :
    Ends (Removed solver · [] []) (solver.removeAll (found.map .environmentRemove ++ found'.map .groupRemove))
      (Removed solver · found (containedRemovals solver [] found ++ found')) := by
  rw [Solver.removeAll, List.foldlM_append, List.foldlM_map]
  refine Effect.Triple.bind (M := fun _ t => Removed solver t found (containedRemovals solver [] found)) ?_ fun cnt => ?_
  · refine Effect.Triple.foldlM (I := fun done _ t => Removed solver t done (containedRemovals solver [] done)) (fun done id hid cnt => ?_) 0
    rw [containedRemovals_concat, List.nil_append]
    exact Effect.Triple.bind (baseRemove_ends (environmentRemove_ends hreads (hfound id hid))) fun _ => Effect.Triple.pure fun _ ht => ht
  · rw [List.foldlM_map]
    refine (Effect.Triple.foldlM (I := fun done _ t => Removed solver t found (containedRemovals solver [] found ++ done))
      (fun done id hid cnt => ?_) cnt).weaken (fun t ht => ?_) (fun _ _ ht => ht) (fun _ _ ht => ht)
    · rw [← List.append_assoc]
      exact Effect.Triple.bind (baseRemove_ends (groupRemove_ends hreads (hfound' id hid))) fun _ => Effect.Triple.pure fun _ ht => ht
    · rwa [List.append_nil]

theorem mem_getIds_installed (hreads : solver.Reads q) (hq : q.OfInstalled solver) {available : List String}
    {installed : List (Option CompsItem)} {id : String} :
    id ∈ q.getIds available installed ↔ ∃ item, some item ∈ installed ∧ item.id = id := by
  rw [CompsQuery.mem_getIds (hq.setOrder ▸ hreads.setOrder), hq.status, or_iff_right (fun h => h.1 (by decide)), and_iff_right (by decide)]

theorem installed_of_mem_envs (hreads : solver.Reads q) (hq : q.OfInstalled solver) {pat id : String} (hid : id ∈ q.envs pat) :
    (solver.swdb.getCompsEnvironmentItem id).isSome = true := by
  rw [CompsQuery.envs, hq.kinds, if_pos (by decide), mem_getIds_installed hreads hq] at hid
  obtain ⟨item, hitem, rfl⟩ := hid
  exact hreads.search .environment pat item hitem

theorem installed_of_mem_grps (hreads : solver.Reads q) (hq : q.OfInstalled solver) {pat id : String} (hid : id ∈ q.grps pat) :
    (solver.swdb.getCompsGroupItem id).isSome = true := by
  rw [CompsQuery.grps, hq.kinds, if_pos (by decide), mem_getIds_installed hreads hq] at hid
  obtain ⟨item, hitem, rfl⟩ := hid
  exact hreads.search .group pat item hitem

/-- What `env_group_remove` registers, as often as it registers it. -/
theorem envGroupRemove_ends (hreads : solver.Reads q) (hq : q.OfInstalled solver) {patterns : List String}
    (hpatterns : ∀ pat ∈ patterns, q.envs pat ≠ [] ∨ q.grps pat ≠ []) (hs : s.history = {}) :
    ∃ cnt t, solver.envGroupRemove q patterns s = .ok cnt t ∧
      (∀ id, t.timesRemoved .environment id = (patterns.flatMap q.envs).count id) ∧
      ∀ id, t.timesRemoved .group id = (containedRemovals solver [] (patterns.flatMap q.envs) ++ patterns.flatMap q.grps).count id := by
  have hstart : Removed solver s [] [] :=
    ⟨⟨[], by rw [hs]; rfl, .nil⟩, ⟨[], by rw [hs]; rfl, .nil⟩, fun id => by rw [State.timesRemoved, hs]; rfl,
      fun id => by rw [State.timesRemoved, hs]; rfl⟩
  have henvs : ∀ id ∈ patterns.flatMap q.envs, (solver.swdb.getCompsEnvironmentItem id).isSome = true := by
    intro id hid
    obtain ⟨pat, -, hid⟩ := List.mem_flatMap.mp hid
    exact installed_of_mem_envs hreads hq hid
  have hgrps : ∀ id ∈ patterns.flatMap q.grps, (solver.swdb.getCompsGroupItem id).isSome = true := by
    intro id hid
    obtain ⟨pat, -, hid⟩ := List.mem_flatMap.mp hid
    exact installed_of_mem_grps hreads hq hid
  have hend := removeAll_ends hreads henvs hgrps s hstart
  rw [Solver.envGroupRemove, CompsQuery.get_eq_ok hpatterns]
  dsimp only
  cases hrun : solver.removeAll
      ((patterns.flatMap q.envs).map .environmentRemove ++ (patterns.flatMap q.grps).map .groupRemove) s with
  | error e t =>
      rw [hrun] at hend
      exact hend.elim
  | ok cnt t =>
      rw [hrun] at hend
      refine ⟨cnt, t, ?_, hend.environments, hend.groups⟩
      rw [EStateM.adaptExcept, hrun]

/-! ### The groups that go with the environments -/

theorem removableAfter_mono {swdb : Swdb} {removed removed' : List String} (hsub : removed ⊆ removed') {id : String}
    (h : removableAfter swdb removed id = true) : removableAfter swdb removed' id = true := by
  rw [removableAfter, Bool.and_eq_true, List.all_eq_true] at h ⊢
  exact ⟨h.1, fun e he => decide_eq_true (hsub (of_decide_eq_true (h.2 e he)))⟩

theorem mem_removedWith (hreads : solver.Reads q) {removed : List String} {envId id : String} :
    id ∈ removedWith solver removed envId ↔ id ∈ groupIdsOf solver.swdb envId ∧ removableAfter solver.swdb removed id = true := by
  rw [removedWith, List.mem_filter, (hreads.setOrder _).2]

/-- A group goes with an environment that has it, as soon as nothing else holds it. -/
theorem mem_containedRemovals (hreads : solver.Reads q) {removed found : List String} {id : String} :
    id ∈ containedRemovals solver removed found ↔ ∃ done envId rest, found = done ++ envId :: rest ∧
      id ∈ groupIdsOf solver.swdb envId ∧ removableAfter solver.swdb (removed ++ (done ++ [envId])) id = true := by
  induction found generalizing removed with
  | nil => exact iff_of_false List.not_mem_nil fun ⟨done, envId, rest, hsplit, _⟩ => by simp at hsplit
  | cons e found ih =>
      rw [containedRemovals, List.mem_append, mem_removedWith hreads, ih]
      constructor
      · rintro (⟨hid, hremovable⟩ | ⟨done, envId, rest, rfl, hid, hremovable⟩)
        · exact ⟨[], e, found, rfl, hid, hremovable⟩
        · exact ⟨e :: done, envId, rest, rfl, hid, by rwa [List.append_assoc] at hremovable⟩
      · rintro ⟨done, envId, rest, hsplit, hid, hremovable⟩
        cases done with
        | nil =>
            obtain ⟨rfl, rfl⟩ := List.cons.inj hsplit
            exact Or.inl ⟨hid, hremovable⟩
        | cons d done =>
            obtain ⟨rfl, rfl⟩ := List.cons.inj hsplit
            exact Or.inr ⟨done, envId, rest, rfl, hid, by rwa [List.append_assoc]⟩

theorem nodup_containedRemovals (hreads : solver.Reads q) {removed found : List String} :
    (containedRemovals solver removed found).Nodup ↔ ∀ done envId rest, found = done ++ envId :: rest →
      ∀ id ∈ groupIdsOf solver.swdb envId, removableAfter solver.swdb (removed ++ (done ++ [envId])) id = true →
        ∀ envId' ∈ rest, id ∉ groupIdsOf solver.swdb envId' := by
  induction found generalizing removed with
  | nil => exact iff_of_true List.nodup_nil fun done envId rest hsplit => by simp at hsplit
  | cons e found ih =>
      have hwith : (removedWith solver (removed ++ [e]) e).Nodup := (hreads.setOrder _).1.filter _
      rw [containedRemovals, List.nodup_append', and_iff_right hwith, ih]
      constructor
      · rintro ⟨hrest, hapart⟩ done envId rest hsplit id hid hremovable envId' henvId' hid'
        cases done with
        | nil =>
            obtain ⟨rfl, rfl⟩ := List.cons.inj hsplit
            obtain ⟨before, after, hbefore⟩ := List.append_of_mem henvId'
            refine hapart ((mem_removedWith hreads).mpr ⟨hid, hremovable⟩) ((mem_containedRemovals hreads).mpr ⟨before, envId', after, hbefore, hid', ?_⟩)
            exact removableAfter_mono (List.subset_append_left _ _) hremovable
        | cons d done =>
            obtain ⟨rfl, rfl⟩ := List.cons.inj hsplit
            exact hrest done envId rest rfl id hid (by rwa [List.append_assoc]) envId' henvId' hid'
      · intro h
        refine ⟨fun done envId rest hsplit id hid hremovable => ?_, fun id hid hid' => ?_⟩
        · exact h (e :: done) envId rest (by rw [hsplit]; rfl) id hid (by rwa [List.append_assoc] at hremovable)
        · obtain ⟨hmember, hremovable⟩ := (mem_removedWith hreads).mp hid
          obtain ⟨done, envId, rest, hsplit, hid', -⟩ := (mem_containedRemovals hreads).mp hid'
          exact h [] e found rfl id hmember hremovable envId (by rw [hsplit]; simp) hid'

/-- An environment that holds the group is the last one to go, or the group is free already. -/
theorem contained_iff (hreads : solver.Reads q) {found : List String} {id : String} :
    id ∈ containedRemovals solver [] found ↔
      (∃ envId ∈ found, id ∈ groupIdsOf solver.swdb envId) ∧ removableAfter solver.swdb found id = true := by
  rw [mem_containedRemovals hreads]
  constructor
  · rintro ⟨done, envId, rest, rfl, hid, hremovable⟩
    refine ⟨⟨envId, by simp, hid⟩, removableAfter_mono ?_ hremovable⟩
    rw [List.nil_append, List.append_cons done envId rest]
    exact List.subset_append_left _ _
  · rintro ⟨⟨envId, henvId, hid⟩, hremovable⟩
    induction found using List.reverseRecOn with
    | nil => cases henvId
    | append_singleton found e ih =>
        by_cases hlast : id ∈ groupIdsOf solver.swdb e
        · exact ⟨found, e, [], rfl, hlast, hremovable⟩
        · have hbefore : removableAfter solver.swdb found id = true := by
            rw [removableAfter, Bool.and_eq_true, List.all_eq_true] at hremovable ⊢
            refine ⟨hremovable.1, fun holder hholder => decide_eq_true ?_⟩
            rcases List.mem_append.mp (of_decide_eq_true (hremovable.2 holder hholder)) with hmem | hmem
            · exact hmem
            · obtain rfl := List.mem_singleton.mp hmem
              obtain ⟨item, hitem, m, hm, hname, -⟩ := (hreads.documented.getCompsGroupEnvironments id holder).mp hholder
              refine absurd ?_ hlast
              rw [groupIdsOf, hitem]
              exact List.mem_map.mpr ⟨m, hm, hname⟩
          have hmem : envId ∈ found := (List.mem_append.mp henvId).resolve_right fun hmem => hlast (List.mem_singleton.mp hmem ▸ hid)
          obtain ⟨done, envId', rest, rfl, hid', hremovable'⟩ := ih hbefore hmem
          exact ⟨done, envId', rest ++ [e], by simp, hid', hremovable'⟩

end Removing

/-! ### Each object once -/

/-- The groups to remove: those found, and those that the environments found hold and nothing else does. -/
def ToRemove (swdb : Swdb) (envs groups : List String) (id : String) : Prop :=
  id ∈ groups ∨ (∃ envId ∈ envs, id ∈ groupIdsOf swdb envId) ∧ removableAfter swdb envs id = true

/-- The run ends normally, with one removal of each object to remove and of nothing else. -/
def RemovesOnce (solver : Solver) (q : CompsQuery) (patterns : List String) (s : State) : Prop :=
  ∃ cnt t, solver.envGroupRemove q patterns s = .ok cnt t ∧
    (∀ id, (id ∈ patterns.flatMap q.envs → t.timesRemoved .environment id = 1) ∧
      (id ∉ patterns.flatMap q.envs → t.timesRemoved .environment id = 0)) ∧
    ∀ id, (ToRemove solver.swdb (patterns.flatMap q.envs) (patterns.flatMap q.grps) id → t.timesRemoved .group id = 1) ∧
      (¬ToRemove solver.swdb (patterns.flatMap q.envs) (patterns.flatMap q.grps) id → t.timesRemoved .group id = 0)

/-- Nothing is found twice, and a group that goes with an environment is neither found nor in an environment that goes later. -/
structure NoOverlap (swdb : Swdb) (envs groups : List String) : Prop where
  environmentsOnce : envs.Nodup
  groupsOnce : groups.Nodup
  contained : ∀ done envId rest, envs = done ++ envId :: rest → ∀ id ∈ groupIdsOf swdb envId,
    removableAfter swdb (done ++ [envId]) id = true → id ∉ groups ∧ ∀ envId' ∈ rest, id ∉ groupIdsOf swdb envId'

section

variable {solver : Solver} {q : CompsQuery} {s : State}

theorem noOverlap_iff (hreads : solver.Reads q) {envs groups : List String} :
    NoOverlap solver.swdb envs groups ↔ envs.Nodup ∧ (containedRemovals solver [] envs ++ groups).Nodup := by
  rw [List.nodup_append', nodup_containedRemovals hreads]
  constructor
  · rintro ⟨henvs, hgroups, hcontained⟩
    refine ⟨henvs, fun done envId rest hsplit id hid hremovable => (hcontained done envId rest hsplit id hid hremovable).2, hgroups, ?_⟩
    intro id hid hgroup
    obtain ⟨done, envId, rest, hsplit, hmember, hremovable⟩ := (mem_containedRemovals hreads).mp hid
    exact (hcontained done envId rest hsplit id hmember hremovable).1 hgroup
  · rintro ⟨henvs, hcontained, hgroups, hapart⟩
    refine ⟨henvs, hgroups, fun done envId rest hsplit id hid hremovable => ⟨fun hgroup => ?_, ?_⟩⟩
    · exact hapart ((mem_containedRemovals hreads).mpr ⟨done, envId, rest, hsplit, hid, hremovable⟩) hgroup
    · exact hcontained done envId rest hsplit id hid hremovable

theorem count_once_iff {ids : List String} {wanted : String → Prop} (hwanted : ∀ id, wanted id ↔ id ∈ ids) :
    (∀ id, (wanted id → ids.count id = 1) ∧ (¬wanted id → ids.count id = 0)) ↔ ids.Nodup := by
  rw [List.nodup_iff_count_le_one]
  refine forall_congr' fun id => ?_
  rw [hwanted, ← List.count_pos_iff]
  omega

/-- `env_group_remove` removes each object once exactly when nothing overlaps. -/
theorem removesOnce_iff (hreads : solver.Reads q) (hq : q.OfInstalled solver) {patterns : List String}
    (hpatterns : ∀ pat ∈ patterns, q.envs pat ≠ [] ∨ q.grps pat ≠ []) (hs : s.history = {}) :
    RemovesOnce solver q patterns s ↔ NoOverlap solver.swdb (patterns.flatMap q.envs) (patterns.flatMap q.grps) := by
  obtain ⟨cnt, t, hrun, henvs, hgroups⟩ := envGroupRemove_ends hreads hq hpatterns hs
  have hwanted : ∀ id, ToRemove solver.swdb (patterns.flatMap q.envs) (patterns.flatMap q.grps) id ↔
      id ∈ containedRemovals solver [] (patterns.flatMap q.envs) ++ patterns.flatMap q.grps := by
    intro id
    rw [List.mem_append, contained_iff hreads, or_comm]
    rfl
  rw [noOverlap_iff hreads, ← count_once_iff fun id => Iff.rfl, ← count_once_iff hwanted]
  simp only [← henvs, ← hgroups]
  constructor
  · rintro ⟨cnt', t', hrun', honce⟩
    obtain ⟨rfl, rfl⟩ := EStateM.Result.ok.inj (hrun.symm.trans hrun')
    exact honce
  · exact fun honce => ⟨cnt, t, hrun, honce⟩

end

/-- An installed environment over an installed group; a pattern finds the item with its id. -/
def desktopSolver : Solver where
  comps := ⟨[], []⟩
  swdb := baseSwdb
  codes := typeCodes
  addMember members member := members ++ [member]
  setOrder := List.dedup

def installedQuery : CompsQuery where
  comps := ⟨[], []⟩
  variants := Fnmatch.asciiVariants
  search kind pat := [baseSwdb.getItem kind pat]
  setOrder := List.dedup
  kinds := CompsQuery.ENVIRONMENTS ||| CompsQuery.GROUPS
  status := CompsQuery.INSTALLED

theorem installedQuery_ofInstalled : installedQuery.OfInstalled desktopSolver := ⟨rfl, rfl, rfl, rfl⟩

theorem committed_single {key : String} {item : CompsItem} (hid : item.id = key) (hnodup : (item.members.map Member.name).Nodup) :
    Committed fun id => if id = key then some item else none where
  id id item' hitem := by
    obtain ⟨rfl, hsame⟩ := Option.ite_none_right_eq_some.mp hitem
    exact Option.some.inj hsame ▸ hid
  nodup id item' hitem := by
    obtain ⟨-, hsame⟩ := Option.ite_none_right_eq_some.mp hitem
    exact Option.some.inj hsame ▸ hnodup

theorem desktopSolver_reads : desktopSolver.Reads installedQuery where
  documented := baseSwdb_documented
  groups := committed_single rfl (by decide)
  environments := committed_single rfl (by decide)
  search kind pat item hitem := by
    have hfound : baseSwdb.getItem kind pat = some item := (List.mem_singleton.mp hitem).symm
    cases kind with
    | group =>
        obtain ⟨-, hsame⟩ := Option.ite_none_right_eq_some.mp hfound
        rw [← Option.some.inj hsame]
        rfl
    | environment =>
        obtain ⟨-, hsame⟩ := Option.ite_none_right_eq_some.mp hfound
        rw [← Option.some.inj hsame]
        rfl
  setOrder := iteratesSets_dedup

theorem removesOnce_desktop : RemovesOnce desktopSolver installedQuery ["desktop"] ⟨{}, {}, []⟩ := by
  refine (removesOnce_iff desktopSolver_reads installedQuery_ofInstalled (by decide +kernel) rfl).mpr ?_
  rw [noOverlap_iff desktopSolver_reads]
  decide +kernel

/-- The group is removed with its environment, and once more because it is found itself. -/
theorem not_removesOnce_desktop_base : (∀ pat ∈ ["desktop", "base"], installedQuery.envs pat ≠ [] ∨ installedQuery.grps pat ≠ []) ∧
    ¬RemovesOnce desktopSolver installedQuery ["desktop", "base"] ⟨{}, {}, []⟩ := by
  have hpatterns : ∀ pat ∈ ["desktop", "base"], installedQuery.envs pat ≠ [] ∨ installedQuery.grps pat ≠ [] := by decide +kernel
  have hoverlap : ¬(["desktop", "base"].flatMap installedQuery.envs).Nodup ∨ ¬(containedRemovals desktopSolver []
      (["desktop", "base"].flatMap installedQuery.envs) ++ ["desktop", "base"].flatMap installedQuery.grps).Nodup := by decide +kernel
  refine ⟨hpatterns, fun honce => not_and_or.mpr hoverlap ?_⟩
  exact (noOverlap_iff desktopSolver_reads).mp ((removesOnce_iff desktopSolver_reads installedQuery_ofInstalled hpatterns rfl).mp honce)

end Dnf.Groups
