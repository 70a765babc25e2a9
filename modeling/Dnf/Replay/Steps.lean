import Dnf.Replay.Run

/-!
# What the steps of a replay change

The rpm items write to the goal and to the two caches, the group and environment items to history, and nothing else is touched but the warnings. An rpm item that is read, parsed and found is one run of its action; the query it works on holds packages of the parsed NEVRA only, and limiting it to a repository keeps the installed ones.
-/

namespace Dnf.Replay

open History Groups Foundation Foundation.Effect

namespace TransactionReplay

variable (replay : TransactionReplay)

/-! ### Queries -/

theorem mem_query {n : Nevra} {pkg : Package} : pkg ∈ replay.query n ↔ pkg ∈ replay.base.sack ∧ pkg.nevra = n := by
  obtain ⟨⟨name, epoch, version, release, arch⟩, reponame⟩ := pkg
  obtain ⟨name', epoch', version', release', arch'⟩ := n
  simp only [query, queryNa, List.mem_filter, decide_eq_true_eq, Nevra.mk.injEq]
  tauto

/-- Some package of the sack has the NEVRA. -/
def Found (n : Nevra) : Prop := ∃ pkg ∈ replay.base.sack, pkg.nevra = n

instance (n : Nevra) : Decidable (replay.Found n) := by
  unfold Found
  infer_instance

theorem query_ne_nil_iff {n : Nevra} : replay.query n ≠ [] ↔ replay.Found n := by
  constructor
  · intro h
    obtain ⟨pkg, hpkg⟩ := List.exists_mem_of_ne_nil _ h
    exact ⟨pkg, replay.mem_query.mp hpkg⟩
  · intro ⟨pkg, hpkg⟩
    exact List.ne_nil_of_mem (replay.mem_query.mpr hpkg)

theorem limitToRepo_isOk_iff (query : List Package) (repoId : Json) :
    (∃ limited, replay.limitToRepo query repoId = .ok limited) ↔ (repoId.truthy = true → (replay.lib.filterReponame repoId).isSome) := by
  rw [limitToRepo]
  by_cases htruthy : repoId.truthy = true
  · rw [if_pos htruthy]
    cases hfilter : replay.lib.filterReponame repoId with
    | none => simp [htruthy]
    | some keep =>
        constructor
        · intro _ _
          rfl
        · intro _
          dsimp only
          split_ifs
          · exact ⟨_, rfl⟩
          · exact ⟨_, rfl⟩
  · rw [if_neg htruthy]
    exact ⟨fun _ ht => absurd ht htruthy, fun _ => ⟨query, rfl⟩⟩

theorem limitToRepo_error {query : List Package} {repoId : Json} {e : Exc} (h : replay.limitToRepo query repoId = .error e) :
    e = .other := by
  rw [limitToRepo] at h
  split_ifs at h
  split at h
  · cases h
    rfl
  · split_ifs at h

/-- A limited query holds some of the packages, all of the installed ones, and no less than one if there was one. -/
theorem limitToRepo_ok {query limited : List Package} {repoId : Json} (h : replay.limitToRepo query repoId = .ok limited) :
    limited ⊆ query ∧ (∀ pkg ∈ query, pkg.installed = true → pkg ∈ limited) ∧ (limited = [] ↔ query = []) := by
  rw [limitToRepo] at h
  split_ifs at h
  · split at h
    · cases h
    · next keep _ =>
        split_ifs at h with hany
        · cases h
          obtain ⟨pkg, hpkg, hkeep⟩ := List.any_eq_true.mp hany
          refine ⟨List.filter_subset_self _, fun pkg hpkg hinstalled => ?_, ?_⟩
          · exact List.mem_filter.mpr ⟨hpkg, by rw [hinstalled, Bool.or_true]⟩
          · refine iff_of_false (List.ne_nil_of_mem (List.mem_filter.mpr ⟨hpkg, ?_⟩)) (List.ne_nil_of_mem hpkg)
            rw [hkeep, Bool.true_or]
        · cases h
          exact ⟨List.Subset.refl _, fun _ h _ => h, Iff.rfl⟩
  · cases h
    exact ⟨List.Subset.refl _, fun _ h _ => h, Iff.rfl⟩

/-! ### Frames -/

/-- What an action on packages leaves alone. -/
structure SameCaches (s t : State) : Prop where
  history : t.history = s.history
  nevraCache : t.nevraCache = s.nevraCache
  nevraReasonCache : t.nevraReasonCache = s.nevraReasonCache
  transaction : t.transaction = s.transaction

/-- What a group or environment item leaves alone. -/
structure SameGoal (s t : State) : Prop where
  goal : t.goal = s.goal
  reasonChanges : t.reasonChanges = s.reasonChanges
  nevraCache : t.nevraCache = s.nevraCache
  nevraReasonCache : t.nevraReasonCache = s.nevraReasonCache
  transaction : t.transaction = s.transaction

theorem SameCaches.refl (s : State) : SameCaches s s := ⟨rfl, rfl, rfl, rfl⟩

theorem SameGoal.refl (s : State) : SameGoal s s := ⟨rfl, rfl, rfl, rfl, rfl⟩

theorem SameGoal.trans {s t u : State} (h : SameGoal s t) (h' : SameGoal t u) : SameGoal s u :=
  ⟨h'.1.trans h.1, h'.2.trans h.2, h'.3.trans h.3, h'.4.trans h.4, h'.5.trans h.5⟩

theorem keeps_raiseOrWarn {I : State → Prop} (hwarn : ∀ s warnings, I s → I { s with warnings := warnings }) (warnOnly : Bool) (msg : String) :
    Keeps I (raiseOrWarn warnOnly msg) := by
  rw [raiseOrWarn]
  split_ifs
  · exact Triple.modify fun s hs => hwarn s _ hs
  · exact .throw _

theorem keeps_replayAction (data : RpmData) (nevra : String) (n : Nevra) (query : List Package) (s : State) :
    Keeps (SameCaches s) (replay.replayAction data nevra n query) := by
  have hwarn : ∀ t warnings, SameCaches s t → SameCaches s { t with warnings := warnings } := fun _ _ h => ⟨h.1, h.2, h.3, h.4⟩
  have hmark : ∀ marks, Keeps (SameCaches s) (mark marks) := fun _ => Triple.modify fun _ h => ⟨h.1, h.2, h.3, h.4⟩
  rw [replayAction]
  split_ifs
  · refine Keeps.bind ?_ fun _ => hmark _
    rw [refuseInstalled]
    split_ifs
    · exact keeps_raiseOrWarn hwarn _ _
    · exact .pure _
  · rw [replayReinstall]
    split_ifs
    · exact keeps_raiseOrWarn hwarn _ _
    · exact hmark _
  · rw [replayErase]
    split_ifs
    · exact keeps_raiseOrWarn hwarn _ _
    · exact hmark _
    · exact .pure _
  · cases query with
    | nil => exact .throw _
    | cons pkg rest => exact Triple.modify fun _ h => ⟨h.1, h.2, h.3, h.4⟩
  · exact .throw _

theorem keeps_lift {α : Type} {I : State → Prop} (result : Except Exc α) : Keeps I (lift result : Prog α) := by
  cases result with
  | ok a => exact .pure a
  | error e => exact .throw e

theorem keeps_replayItem (kind : Kind) (data : Json) (s : State) : Keeps (SameGoal s) (replay.replayItem kind data) := by
  have hwarn : ∀ t warnings, SameGoal s t → SameGoal s { t with warnings := warnings } := fun _ _ h => ⟨h.1, h.2, h.3, h.4, h.5⟩
  have hcreate : ∀ call id pkgTypes members, Keeps (SameGoal s) (replay.swdbCreate kind call id pkgTypes members) := by
    intro call id pkgTypes members
    refine Keeps.bind ?_ fun item => ?_
    · cases id with
      | str idText =>
          rw [createSwdbItem]
          split
          · exact (keeps_raiseOrWarn hwarn _ _).bind fun _ => .pure _
          · exact (keeps_lift _).bind fun _ => .pure _
      | _ => exact .throw _
    · split
      · exact Triple.modify fun _ h => ⟨h.1, h.2, h.3, h.4, h.5⟩
      · exact .pure _
  have hhandler : ∀ call id pkgTypes members, Keeps (SameGoal s) (replay.handler kind call id pkgTypes members) := by
    intro call id pkgTypes members
    rw [handler_eq]
    split_ifs
    · exact hcreate call id pkgTypes members
    · cases id with
      | str idText =>
          rw [swdbChange]
          split
          · exact keeps_raiseOrWarn hwarn _ _
          · exact hcreate call _ pkgTypes members
      | _ => exact .throw _
  refine Triple.tryCatch (F := fun _ => SameGoal s) ?_ fun e => ?_
  · refine (keeps_lift _).bind fun action => (keeps_lift _).bind fun id => (keeps_lift _).bind fun types => (keeps_lift _).bind fun pkgTypes => ?_
    split
    · exact (keeps_lift _).bind fun members => hhandler _ id pkgTypes members
    · exact .throw _
  · split
    · exact Keeps.throw _
    · exact Keeps.throw _

theorem keeps_history (pkgData : Json) (P : SwdbInterface → Prop) : Keeps (fun s => P s.history) (replay.replayPkgAction pkgData) := by
  have hwarn : ∀ (s : State) (warnings : List String), P s.history → P { s with warnings := warnings }.history := fun _ _ h => h
  refine (keeps_lift _).bind fun data => ?_
  split
  · split
    · refine (keeps_lift _).bind fun query => ?_
      split_ifs
      · exact keeps_raiseOrWarn hwarn _ _
      · refine Keeps.bind (Triple.modify fun _ h => h) fun _ => ?_
        exact Keeps.of_frame (replay.keeps_replayAction data _ _ query) SameCaches.refl fun _ _ hsame h => hsame.history ▸ h
    · exact .throw _
  · exact .throw _

/-! ### One rpm item -/

/-- What an rpm item says, once it is read and its NEVRA parsed. -/
structure RpmItem where
  data : RpmData
  text : String
  nevra : Nevra

def rpmItem (pkgData : Json) : Option RpmItem :=
  match replay.readRpm pkgData with
  | .ok data =>
      match data.nevra with
      | .str text => (replay.parsedNevra text).map fun n => ⟨data, text, n⟩
      | _ => none
  | .error _ => none

theorem replayPkgAction_of_rpmItem {pkgData : Json} {item : RpmItem} (hitem : replay.rpmItem pkgData = some item) :
    replay.replayPkgAction pkgData = replay.replayParsed item.data item.text item.nevra := by
  rw [rpmItem] at hitem
  cases hread : replay.readRpm pkgData with
  | error e =>
      rw [hread] at hitem
      cases hitem
  | ok data =>
      rw [hread] at hitem
      rw [replayPkgAction, hread, lift_ok_bind]
      cases hnevra : data.nevra with
      | str text =>
          simp only [hnevra, Option.map_eq_some_iff] at hitem
          obtain ⟨n, hparsed, rfl⟩ := hitem
          simp only [hparsed]
      | _ => simp [hnevra] at hitem

/-- An item whose package is found is cached and then acted on. -/
theorem replayParsed_found (item : RpmItem) {limited : List Package} (hlimit : replay.limitToRepo (replay.query item.nevra) item.data.repoId = .ok limited)
    (hfound : limited ≠ []) (s : State) :
    ∃ u, u.goal = s.goal ∧ u.history = s.history ∧
      replay.replayParsed item.data item.text item.nevra s = replay.replayAction item.data item.text item.nevra limited u := by
  have hcache : ∃ u, cacheNevra item.text item.data s = .ok () u ∧ u.goal = s.goal ∧ u.history = s.history := ⟨_, rfl, rfl, rfl⟩
  obtain ⟨u, hrun, hgoal, hhistory⟩ := hcache
  refine ⟨u, hgoal, hhistory, ?_⟩
  rw [replayParsed, hlimit, lift_ok_bind, if_neg hfound, bind_apply, hrun]

theorem exists_rpmItem {pkgData : Json} {s t : State} (hrun : replay.replayPkgAction pkgData s = .ok () t) :
    ∃ item, replay.rpmItem pkgData = some item := by
  rw [rpmItem]
  cases hread : replay.readRpm pkgData with
  | error e =>
      rw [replayPkgAction, hread, lift_error_bind] at hrun
      cases hrun
  | ok data =>
      rw [replayPkgAction, hread, lift_ok_bind] at hrun
      cases hnevra : data.nevra with
      | str text =>
          simp only [hnevra] at hrun
          cases hparsed : replay.parsedNevra text with
          | none =>
              rw [hparsed] at hrun
              cases hrun
          | some n => exact ⟨⟨data, text, n⟩, by simp only [hnevra, hparsed, Option.map_some]⟩
      | _ =>
          simp only [hnevra] at hrun
          cases hrun

/-- All rpm items of the file are accepted, the run from `s` ending in `t`. -/
def AllAccepted (items : List Json) (s t : State) : Prop :=
  Attempted errorText (items.map replay.replayPkgAction) s (items.map fun _ => none) t

end TransactionReplay

end Dnf.Replay
