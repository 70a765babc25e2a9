import Dnf.Foundation.Transition
import Dnf.Persist.Repos

/-!
# Which expired repositories stay on record

Runs of dnf come one after another. A run reads the record into flags on its repositories and writes it anew when it ends: what it lists then are the repositories that are still enabled, that it has loaded and whose flag is still set. So an id that was stored and whose metadata nobody has refreshed since stays on record exactly if the run that ends has loaded its repository and left it enabled, or has put the id there for another reason, or writes nothing. One invariant carries this: as long as the id is owed, the flag it was turned into is set.
-/

namespace Dnf.Persist

open Foundation

/-- `record` is `expired_repos.json`, and `owed` the ids that were stored there and not refreshed since. -/
structure State where
  record : Finset String
  owed : Finset String
  base : Option Base := none

/-! ### Runs -/

inductive Action
  | start (opts : Opts)
  | processDemands (cacheonly freshestMetadata : Bool)
  | switch (key : String → Bool) (operation : Operation)
  | expire (key : String → Bool)
  | fillSack (loadAvailableRepos : Bool) (fetch : String → Fetch)
  | cleanExpireCache (cached : Finset String)
  | finalize (aged : String → Bool) (saveFails : Bool)
  | close (aged : String → Bool) (saveFails : Bool)

/-- What is done to a base, by a run that is configured. -/
def State.withBase (s : State) (f : Base → State) : Option State := s.base.bind fun b => if b.configured then some (f b) else none

def State.store (s : State) (b : Base) (aged : String → Bool) (saveFails : Bool) : State :=
  match b.storePersistentData aged saveFails with
  | (b, none) => { s with base := some b }
  | (b, some stored) => { record := stored, owed := s.owed ∪ stored, base := some b }

/-- A run that could not be configured can still be closed. -/
def State.next (s : State) : Action → Option State
  | .start opts => if s.base.isNone then some { s with base := some (Base.configure opts s.record) } else none
  | .processDemands cacheonly freshestMetadata => s.withBase fun b => { s with base := some (b.processDemands cacheonly freshestMetadata) }
  | .switch key operation => s.withBase fun b => { s with base := some { b with repos := onMatching key (·.switch operation) b.repos } }
  | .expire key => s.withBase fun b => { s with base := some { b with repos := onMatching key Repo.expire b.repos } }
  | .fillSack loadAvailableRepos fetch => s.withBase fun b =>
      { s with base := some (b.fillSack loadAvailableRepos fetch).1, owed := s.owed \ (b.fillSack loadAvailableRepos fetch).2 }
  | .cleanExpireCache cached => s.withBase fun b => { s with base := some { b with expiredToAdd := b.expiredToAdd ∪ cached } }
  | .finalize aged saveFails => s.withBase fun b => s.store b aged saveFails
  | .close aged saveFails => s.base.map fun b => { s.store b aged saveFails with base := none }

/-- Nothing runs at first, and everything on record is owed. -/
def runs : System State Action where
  Init s := s.base = none ∧ s.owed = s.record
  next := State.next

/-! ### What a run keeps -/

/-- The flags of the repositories with an owed id, as long as the id is not to be added anyway. -/
def Base.Flags (b : Base) (owed : Finset String) : Prop :=
  (b.configured = true → ∀ r ∈ b.repos, r.id ∈ owed → r.expired = true ∨ r.id ∈ b.expiredToAdd) ∧
    (b.configured = false → ∀ r ∈ b.repos, r.metadata = false)

def State.Flags (s : State) : Prop := ∀ b, s.base = some b → b.Flags s.owed

theorem forall_mem_onMatching {P : Repo → Prop} {key : String → Bool} {f : Repo → Repo} {repos : List Repo}
    (hrepos : ∀ r ∈ repos, P r) (hf : ∀ r, P r → P (f r)) : ∀ r ∈ onMatching key f repos, P r := by
  intro r hr
  obtain ⟨r, hmem, rfl⟩ := List.mem_map.mp hr
  split_ifs
  · exact hf r (hrepos r hmem)
  · exact hrepos r hmem

theorem applyReposEd_metadata (strict : Bool) (reposEd : List ((String → Bool) × Operation)) (repos : List Repo)
    (hrepos : ∀ r ∈ repos, r.metadata = false) : ∀ r ∈ (applyReposEd strict reposEd repos).1, r.metadata = false := by
  induction reposEd generalizing repos with
  | nil => exact hrepos
  | cons entry rest ih =>
      rw [applyReposEd]
      split_ifs
      · exact hrepos
      · exact ih _ (forall_mem_onMatching hrepos fun r hr => hr)

theorem expireRecorded_expired {expiredRepos : Option (Finset String)} {repos : List Repo} {r : Repo}
    (hr : r ∈ expireRecorded expiredRepos repos) (hid : ∀ ids, expiredRepos = some ids → r.id ∈ ids) : r.expired = true := by
  cases expiredRepos with
  | none =>
      obtain ⟨r, _, rfl⟩ := List.mem_map.mp hr
      rfl
  | some ids =>
      obtain ⟨r, _, rfl⟩ := List.mem_map.mp hr
      have hid := hid ids rfl
      by_cases hmem : r.id ∈ ids
      · rw [if_pos (decide_eq_true hmem)]
        rfl
      · rw [if_neg (by simpa using hmem)] at hid
        exact absurd hid hmem

/-- What the record lists is flagged where the configuration comes to its end, and where it does not nothing is loaded. -/
theorem configure_flags {owed record : Finset String} (opts : Opts) (hsub : owed ⊆ record) : (Base.configure opts record).Flags owed := by
  have hfresh : ∀ r ∈ opts.repos.map fun conf => ({ conf with } : Repo), r.metadata = false := by
    intro r hr
    obtain ⟨conf, _, rfl⟩ := List.mem_map.mp hr
    rfl
  have hmetadata := applyReposEd_metadata opts.strict opts.reposEd _ hfresh
  rw [Base.configure, configureRepos]
  split
  · rename_i repos happly
    rw [happly] at hmetadata
    exact ⟨fun hconfigured => Bool.noConfusion hconfigured, fun _ => hmetadata⟩
  · refine ⟨fun _ r hr howed => .inl (expireRecorded_expired hr fun ids hids => ?_), fun hconfigured => Bool.noConfusion hconfigured⟩
    rw [getExpiredRepos] at hids
    split_ifs at hids
    rw [← Option.some.inj hids]
    exact hsub howed

theorem Base.Flags.onMatching {b : Base} {owed : Finset String} (hb : b.Flags owed) (hconfigured : b.configured = true) (key : String → Bool)
    {f : Repo → Repo} (hid : ∀ r, (f r).id = r.id) (hexpired : ∀ r, r.expired = true → (f r).expired = true) :
    Base.Flags { b with repos := onMatching key f b.repos } owed := by
  refine ⟨fun _ => forall_mem_onMatching (hb.1 hconfigured) fun r hr howed => ?_, fun hnot => ?_⟩
  · rw [hid] at howed ⊢
    exact (hr howed).imp_left (hexpired r)
  · exact absurd hconfigured (Bool.not_eq_true _ ▸ hnot)

theorem addRepoToSack_flags {owed added : Finset String} (fetch : Fetch) (r : Repo) (hr : r.id ∈ owed → r.expired = true ∨ r.id ∈ added)
    (hid : (addRepoToSack r fetch).repo.id ∈ owed \ (addRepoToSack r fetch).ids) :
    (addRepoToSack r fetch).repo.expired = true ∨ (addRepoToSack r fetch).repo.id ∈ added := by
  cases fetch with
  | fails => exact hr (Finset.mem_sdiff.mp hid).1
  | cached sackLoads => exact hr (Finset.mem_sdiff.mp hid).1
  | downloaded sackLoads => exact absurd (Finset.mem_singleton_self r.id) (Finset.mem_sdiff.mp hid).2

/-- Loading clears the flag of a repository only with a download, and then its id is among the refreshed ones. -/
theorem loadRepos_flags {owed added : Finset String} (fetch : String → Fetch) (repos : List Repo)
    (hrepos : ∀ r ∈ repos, r.id ∈ owed → r.expired = true ∨ r.id ∈ added) :
    ∀ r ∈ (loadRepos fetch repos).1, r.id ∈ owed \ (loadRepos fetch repos).2 → r.expired = true ∨ r.id ∈ added := by
  have hless {ids more : Finset String} {id : String} (hid : id ∈ owed \ (ids ∪ more)) : id ∈ owed \ ids ∧ id ∈ owed \ more := by
    rw [Finset.mem_sdiff, Finset.notMem_union] at hid
    exact ⟨Finset.mem_sdiff.mpr ⟨hid.1, hid.2.1⟩, Finset.mem_sdiff.mpr ⟨hid.1, hid.2.2⟩⟩
  induction repos with
  | nil => exact fun r hr => absurd hr List.not_mem_nil
  | cons r rest ih =>
      obtain ⟨hr, hrest⟩ := List.forall_mem_cons.mp hrepos
      have ih := ih hrest
      have hloaded := addRepoToSack_flags (fetch r.id) r hr
      rw [loadRepos]
      dsimp only
      split_ifs
      · exact List.forall_mem_cons.mpr ⟨fun _ => .inl rfl, fun r hr hid => ih r hr (hless hid).2⟩
      · exact List.forall_mem_cons.mpr ⟨fun _ => .inl rfl, fun r hr hid => hrest r hr (Finset.mem_sdiff.mp hid).1⟩
      · exact List.forall_mem_cons.mpr ⟨fun hid => hloaded (hless hid).1, fun r hr hid => ih r hr (hless hid).2⟩
      · exact List.forall_mem_cons.mpr ⟨fun hid => hr (Finset.mem_sdiff.mp hid).1, ih⟩

/-! ### What storing keeps -/

theorem mem_expired_iff {aged : String → Bool} {b : Base} {id : String} :
    id ∈ b.expired aged ↔ ∃ r ∈ b.repos, r.id = id ∧ r.enabled = true ∧ r.metadata = true ∧ r.isExpired aged = true := by
  simp only [Base.expired, List.mem_toFinset, List.mem_map, List.mem_filter, Bool.and_eq_true]
  constructor
  · rintro ⟨r, ⟨hr, hkept⟩, hid⟩
    exact ⟨r, hr, hid, hkept⟩
  · rintro ⟨r, hr, hid, hkept⟩
    exact ⟨r, ⟨hr, hkept⟩, hid⟩

/-- The id is written if the run has put it on the list, or has loaded its repository and left it enabled. -/
def Base.Stores (b : Base) (id : String) : Prop := id ∈ b.expiredToAdd ∨ ∃ r ∈ b.repos, r.id = id ∧ r.enabled = true ∧ r.metadata = true

/-- An owed id is written exactly if its repository was loaded and left enabled: the flag is still set. -/
theorem mem_stored_iff {b : Base} {owed : Finset String} (hb : b.Flags owed) (aged : String → Bool) {id : String} (hid : id ∈ owed) :
    id ∈ b.expiredToAdd ∪ b.expired aged ↔ b.Stores id := by
  rw [Finset.mem_union, mem_expired_iff, Base.Stores]
  constructor
  · rintro (hadded | ⟨r, hr, heq, henabled, hmetadata, _⟩)
    · exact .inl hadded
    · exact .inr ⟨r, hr, heq, henabled, hmetadata⟩
  · rintro (hadded | ⟨r, hr, rfl, henabled, hmetadata⟩)
    · exact .inl hadded
    · have hconfigured : b.configured = true := by
        by_contra hnot
        rw [hb.2 (Bool.eq_false_of_not_eq_true hnot) r hr] at hmetadata
        cases hmetadata
      rcases hb.1 hconfigured r hr hid with hexpired | hadded
      · refine .inr ⟨r, hr, rfl, henabled, hmetadata, ?_⟩
        rw [Repo.isExpired, hexpired, Bool.true_or]
      · exact .inl hadded

theorem Base.Flags.ofAdded {b : Base} {owed owed' : Finset String} (hb : b.Flags owed) (aged : String → Bool)
    (hsub : owed' ⊆ owed ∪ (b.expiredToAdd ∪ b.expired aged)) : Base.Flags { b with expiredToAdd := b.expiredToAdd ∪ b.expired aged } owed' := by
  refine ⟨fun hconfigured r hr howed => ?_, hb.2⟩
  rcases Finset.mem_union.mp (hsub howed) with howed | hstored
  · exact (hb.1 hconfigured r hr howed).imp_right fun hadded => Finset.mem_union_left _ hadded
  · exact .inr hstored

theorem store_flags {s : State} {b : Base} (hb : b.Flags s.owed) (aged : String → Bool) (saveFails : Bool) : (s.store b aged saveFails).Flags := by
  rintro t ht
  rw [State.store, Base.storePersistentData] at ht ⊢
  split_ifs at ht ⊢ with hcacheonly hfails
  · rwa [← Option.some.inj ht]
  · rw [← Option.some.inj ht]
    exact hb.ofAdded aged Finset.subset_union_left
  · rw [← Option.some.inj ht]
    exact hb.ofAdded aged Finset.Subset.rfl

theorem fillSack_flags {b : Base} {owed : Finset String} (hb : b.Flags owed) (hconfigured : b.configured = true)
    (loadAvailableRepos : Bool) (fetch : String → Fetch) :
    (b.fillSack loadAvailableRepos fetch).1.Flags (owed \ (b.fillSack loadAvailableRepos fetch).2) := by
  rw [Base.fillSack]
  split_ifs
  · exact ⟨fun _ => loadRepos_flags fetch b.repos (hb.1 hconfigured), fun hnot => absurd hconfigured (Bool.not_eq_true _ ▸ hnot)⟩
  · rw [Finset.sdiff_empty]
    exact hb.onMatching hconfigured _ (fun _ => rfl) fun _ hexpired => hexpired

theorem processDemands_flags {b : Base} {owed : Finset String} (hb : b.Flags owed) (hconfigured : b.configured = true)
    (cacheonly freshestMetadata : Bool) : (b.processDemands cacheonly freshestMetadata).Flags owed := by
  rw [Base.processDemands]
  split_ifs
  · exact hb
  · refine ⟨fun _ r hr howed => ?_, fun hnot => absurd hconfigured (Bool.not_eq_true _ ▸ hnot)⟩
    obtain ⟨r, hmem, rfl⟩ := List.mem_map.mp hr
    split_ifs at howed ⊢
    · exact .inl rfl
    · exact hb.1 hconfigured r hmem howed
  · exact hb

/-! ### Every run -/

/-- Between two runs every owed id is on record. -/
def State.Remembers (s : State) : Prop := s.base = none → s.owed ⊆ s.record

/-- A run that ends leaves every owed id on record: it writes the id, or it writes nothing and the id is there. -/
def Kept (s : State) : Action → Prop
  | .close _ saveFails => ∀ b, s.base = some b → ∀ id ∈ s.owed, if b.cacheonly = true ∨ saveFails = true then id ∈ s.record else b.Stores id
  | _ => True

theorem withBase_eq {s t : State} {f : Base → State} (h : s.withBase f = some t) : ∃ b, s.base = some b ∧ b.configured = true ∧ t = f b := by
  obtain ⟨b, hb, hif⟩ := Option.bind_eq_some_iff.mp h
  rw [Option.ite_none_right_eq_some, Option.some.injEq] at hif
  exact ⟨b, hb, hif.1, hif.2.symm⟩

theorem withBase_flags {s t : State} {f : Base → State} (h : s.withBase f = some t) (hs : s.Flags)
    (hf : ∀ b, b.configured = true → b.Flags s.owed → (f b).Flags) : t.Flags := by
  obtain ⟨b, hb, hconfigured, rfl⟩ := withBase_eq h
  exact hf b hconfigured (hs b hb)

theorem flags_of_base {owed record : Finset String} {b : Base} (hb : b.Flags owed) : State.Flags ⟨record, owed, some b⟩ := by
  intro c hc
  rwa [← Option.some.inj hc]

theorem next_flags {s t : State} {action : Action} (hs : s.Flags) (hremembers : s.Remembers) (hnext : s.next action = some t) : t.Flags := by
  cases action with
  | start opts =>
      rw [State.next, Option.ite_none_right_eq_some, Option.some.injEq, Option.isNone_iff_eq_none] at hnext
      obtain ⟨hnone, rfl⟩ := hnext
      exact flags_of_base (configure_flags opts (hremembers hnone))
  | processDemands cacheonly freshestMetadata =>
      exact withBase_flags hnext hs fun b hconfigured hb => flags_of_base (processDemands_flags hb hconfigured cacheonly freshestMetadata)
  | switch key operation =>
      exact withBase_flags hnext hs fun b hconfigured hb => flags_of_base (hb.onMatching hconfigured key (fun _ => rfl) fun _ hexpired => hexpired)
  | expire key =>
      exact withBase_flags hnext hs fun b hconfigured hb => flags_of_base (hb.onMatching hconfigured key (fun _ => rfl) fun _ _ => rfl)
  | fillSack loadAvailableRepos fetch =>
      exact withBase_flags hnext hs fun b hconfigured hb => flags_of_base (fillSack_flags hb hconfigured loadAvailableRepos fetch)
  | cleanExpireCache cached =>
      refine withBase_flags hnext hs fun b hconfigured hb => flags_of_base ⟨fun _ r hr howed => ?_, hb.2⟩
      exact (hb.1 hconfigured r hr howed).imp_right fun hadded => Finset.mem_union_left _ hadded
  | finalize aged saveFails => exact withBase_flags hnext hs fun b _ hb => store_flags hb aged saveFails
  | close aged saveFails =>
      obtain ⟨b, _, rfl⟩ := Option.map_eq_some_iff.mp hnext
      intro b hb
      cases hb

/-- A store leaves every owed id on record, those it has just written included, exactly if it writes those owed before or finds them there. -/
theorem store_subset_iff {s : State} {b : Base} (hb : b.Flags s.owed) (aged : String → Bool) (saveFails : Bool) :
    (s.store b aged saveFails).owed ⊆ (s.store b aged saveFails).record ↔
      ∀ id ∈ s.owed, if b.cacheonly = true ∨ saveFails = true then id ∈ s.record else b.Stores id := by
  rw [State.store, Base.storePersistentData]
  by_cases hcacheonly : b.cacheonly = true
  · simp only [if_pos hcacheonly, if_pos (Or.inl hcacheonly)]
    rfl
  · by_cases hfails : saveFails = true
    · simp only [if_neg hcacheonly, if_pos hfails, if_pos (Or.inr hfails)]
      rfl
    · have hwritten : ¬(b.cacheonly = true ∨ saveFails = true) := not_or.mpr ⟨hcacheonly, hfails⟩
      simp only [if_neg hcacheonly, if_neg hfails, if_neg hwritten]
      rw [Finset.union_subset_iff, and_iff_left Finset.Subset.rfl]
      exact forall₂_congr fun id hid => mem_stored_iff hb aged hid

theorem next_remembers_iff {s t : State} {action : Action} (hs : s.Flags) (hnext : s.next action = some t) : t.Remembers ↔ Kept s action := by
  have hrunning : (∃ b, t.base = some b) → t.Remembers := by
    rintro ⟨b, hb⟩ hnone
    rw [hnone] at hb
    cases hb
  cases action with
  | close aged saveFails =>
      obtain ⟨b, hb, rfl⟩ := Option.map_eq_some_iff.mp hnext
      rw [State.Remembers, Kept, hb]
      simp only [Option.some.injEq, forall_eq', true_imp_iff]
      exact store_subset_iff (hs b hb) aged saveFails
  | start opts =>
      rw [State.next, Option.ite_none_right_eq_some, Option.some.injEq] at hnext
      exact iff_of_true (hrunning ⟨_, congrArg State.base hnext.2.symm⟩) trivial
  | finalize aged saveFails =>
      obtain ⟨b, _, _, rfl⟩ := withBase_eq hnext
      refine iff_of_true (hrunning ?_) trivial
      rw [State.store]
      split
      · exact ⟨_, rfl⟩
      · exact ⟨_, rfl⟩
  | _ =>
      obtain ⟨b, _, _, rfl⟩ := withBase_eq hnext
      exact iff_of_true (hrunning ⟨_, rfl⟩) trivial

def baseos : RepoConf := ⟨"baseos", true, true⟩

def baseosStart : State := { record := {"baseos"}, owed := {"baseos"} }

def fresh : String → Bool := fun _ => false

def loadedRun : List Action := [.start { repos := [baseos] }, .fillSack true fun _ => .cached true, .close fresh false]

/-- The three ways to lose it: it is disabled on the command line, its download fails, or nothing is to be loaded. -/
def disabledRun : List Action :=
  [.start { repos := [baseos], reposEd := [((· == "baseos"), .disable)] }, .fillSack true fun _ => .cached true, .close fresh false]

def failedRun : List Action := [.start { repos := [baseos] }, .fillSack true fun _ => .fails, .close fresh false]

def unloadedRun : List Action := [.start { repos := [baseos] }, .fillSack false fun _ => .fails, .close fresh false]

def State.forgets (s : State) : Bool := s.base.isNone && !decide (s.owed ⊆ s.record)

theorem loadedRun_isSome : (runs.exec System.anyStep baseosStart loadedRun).isSome = true := by decide +kernel

def loadedEnd : State := (runs.exec System.anyStep baseosStart loadedRun).get loadedRun_isSome

theorem not_remembers_of_forgets (s : State) (h : s.forgets = true) : ¬s.Remembers := by
  rw [State.forgets, Bool.and_eq_true, Bool.not_eq_true', decide_eq_false_iff_not, Option.isNone_iff_eq_none] at h
  exact fun hremembers => h.2 (hremembers h.1)

end Dnf.Persist
