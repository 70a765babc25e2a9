import Dnf.Replay.Restore

/-!
# What a replay erases

With unavailable packages skipped, the backward half of an upgrade is not performed: its forward half may have been skipped, and the package would simply be gone. So only the items with the action `Removed` erase then, and otherwise all backward items do. An item that is reached erases the installed packages it matches, whatever became of the items before it; it is reached unless one of them is malformed so that it ends the run.
-/

namespace Dnf.Replay

open History Groups Foundation Foundation.Effect

namespace TransactionReplay

variable (replay : TransactionReplay)

/-- The item has one of the actions and its NEVRA is that of an installed package. -/
def Matches (actions : List String) (pkgData : Json) (pkg : Package) : Prop :=
  ∃ item, replay.rpmItem pkgData = some item ∧ item.data.action.isOneOf actions = true ∧ pkg ∈ replay.base.sack ∧ pkg.installed = true ∧
    pkg.nevra = item.nevra

def erasing : List String := if replay.skipUnavailable then ["Removed"] else eraseActions

/-! ### One item -/

theorem isOneOf_eq_isText (action : Json) (text : String) : action.isOneOf [text] = action.isText text := by
  cases action with
  | str t =>
      show [text].contains t = (t == text)
      rw [List.contains_cons, List.contains_nil, Bool.or_false]
  | _ => rfl

theorem not_erasing {action : Json} (h : action.isOneOf installActions = true ∨ action.isText "Reinstall" = true) :
    action.isOneOf eraseActions = false := by
  cases action with
  | str text =>
      simp only [Json.isOneOf, Json.isText, installActions, List.contains_cons, List.contains_nil, Bool.or_eq_true, beq_iff_eq, Bool.false_eq_true,
        or_false] at h
      rcases h with (rfl | rfl | rfl) | rfl <;> decide
  | _ => rfl

theorem isOneOf_erasing (action : Json) :
    action.isOneOf replay.erasing = true ↔ action.isOneOf eraseActions = true ∧ (replay.skipUnavailable = false ∨ action.isText "Removed" = true) := by
  rw [erasing]
  split_ifs with hskip
  · rw [isOneOf_eq_isText]
    constructor
    · intro h
      refine ⟨?_, .inr h⟩
      cases action with
      | str text =>
          obtain rfl : text = "Removed" := eq_of_beq h
          decide
      | _ => cases h
    · rintro ⟨_, h | h⟩
      · rw [hskip] at h
        cases h
      · exact h
  · simp only [Bool.not_eq_true] at hskip
    simp [hskip]

theorem goal_raiseOrWarn (warnOnly : Bool) (msg : String) (s : State) : (final (raiseOrWarn warnOnly msg s)).goal = s.goal := by
  cases warnOnly <;> rfl

theorem goal_refuseInstalled (data : RpmData) (n : Nevra) (s : State) : (final (replay.refuseInstalled data n s)).goal = s.goal := by
  rw [refuseInstalled]
  split_ifs
  · exact goal_raiseOrWarn replay.options.ignoreInstalled _ s
  · rfl

/-- The action erases the installed packages of its query, if it is one that erases. -/
theorem replayAction_erases (data : RpmData) (nevra : String) (n : Nevra) (query : List Package) (s : State) :
    ∃ marks, (final (replay.replayAction data nevra n query s)).goal = s.goal ++ marks ∧
      ∀ pkg, .erase pkg ∈ marks ↔ data.action.isOneOf replay.erasing = true ∧ pkg ∈ query ∧ pkg.installed = true := by
  have hnone : ∀ {t : State}, t.goal = s.goal → data.action.isOneOf replay.erasing ≠ true →
      ∃ marks, t.goal = s.goal ++ marks ∧ ∀ pkg, .erase pkg ∈ marks ↔ data.action.isOneOf replay.erasing = true ∧ pkg ∈ query ∧ pkg.installed = true := by
    intro t hgoal hnot
    exact ⟨[], by rw [hgoal, List.append_nil], fun pkg => iff_of_false (by simp) fun h => hnot h.1⟩
  have hinstall : ∀ {t : State} {select optional}, t.goal = s.goal ++ [.install select optional] → data.action.isOneOf replay.erasing ≠ true →
      ∃ marks, t.goal = s.goal ++ marks ∧ ∀ pkg, .erase pkg ∈ marks ↔ data.action.isOneOf replay.erasing = true ∧ pkg ∈ query ∧ pkg.installed = true := by
    intro t select optional hgoal hnot
    exact ⟨_, hgoal, fun pkg => iff_of_false (by simp) fun h => hnot h.1⟩
  rw [replayAction]
  split_ifs with h1 h2 h3 h4
  · have hnot : data.action.isOneOf replay.erasing ≠ true := fun h => by
      rw [isOneOf_erasing, not_erasing (.inl h1)] at h
      exact Bool.false_ne_true h.1
    have hrefuse := replay.goal_refuseInstalled data n s
    rw [replayInstall, bind_apply]
    cases hrun : replay.refuseInstalled data n s with
    | ok _ t =>
        rw [hrun, final] at hrefuse
        exact hinstall (congrArg (· ++ _) hrefuse) hnot
    | error e t =>
        rw [hrun, final] at hrefuse
        exact hnone hrefuse hnot
  · have hnot : data.action.isOneOf replay.erasing ≠ true := fun h => by
      rw [isOneOf_erasing, not_erasing (.inr h2)] at h
      exact Bool.false_ne_true h.1
    rw [replayReinstall]
    split_ifs
    · exact hnone (goal_raiseOrWarn _ _ s) hnot
    · exact hinstall rfl hnot
  · rw [replayErase]
    split_ifs with hempty hperform
    · refine ⟨[], by rw [goal_raiseOrWarn, List.append_nil], fun pkg => iff_of_false (by simp) ?_⟩
      rintro ⟨_, hpkg, hinstalled⟩
      exact List.ne_nil_of_mem (List.mem_filter.mpr ⟨hpkg, hinstalled⟩) hempty
    · refine ⟨(query.filter (·.installed)).map Mark.erase, rfl, fun pkg => ?_⟩
      have hone : data.action.isOneOf replay.erasing = true := by
        rw [isOneOf_erasing]
        refine ⟨h3, ?_⟩
        simpa using hperform
      simp [hone]
    · refine hnone rfl fun h => hperform ?_
      rw [isOneOf_erasing] at h
      simpa using h.2
  · have hnot : data.action.isOneOf replay.erasing ≠ true := fun h => h3 (replay.isOneOf_erasing data.action |>.mp h).1
    cases query with
    | nil => exact hnone rfl hnot
    | cons pkg rest => exact hnone rfl hnot
  · exact hnone rfl fun h => h3 (replay.isOneOf_erasing data.action |>.mp h).1

theorem rpmShape_iff_limited {pkgData : Json} {item : RpmItem} (hitem : replay.rpmItem pkgData = some item) :
    replay.RpmShape pkgData ↔ ∃ limited, replay.limitToRepo (replay.query item.nevra) item.data.repoId = .ok limited := by
  rw [rpmItem] at hitem
  cases hread : replay.readRpm pkgData with
  | error e =>
      rw [hread] at hitem
      cases hitem
  | ok data =>
      rw [hread] at hitem
      rw [← replay.settled_replayPkgAction_iff pkgData {}, replay.settled_replayPkgAction_read hread]
      cases hnevra : data.nevra with
      | str text =>
          simp only [hnevra, Option.map_eq_some_iff] at hitem
          obtain ⟨n, hparsed, rfl⟩ := hitem
          simp [hparsed, limitToRepo_isOk_iff]
      | _ => simp [hnevra] at hitem

/-- An item without its values or a NEVRA changes nothing. -/
theorem final_of_rpmItem_none {pkgData : Json} (hitem : replay.rpmItem pkgData = none) (s : State) :
    final (replay.replayPkgAction pkgData s) = s := by
  rw [rpmItem] at hitem
  rw [replayPkgAction]
  cases hread : replay.readRpm pkgData with
  | error e => rfl
  | ok data =>
      rw [hread] at hitem
      rw [lift_ok_bind]
      cases hnevra : data.nevra with
      | str text =>
          simp only [hnevra, Option.map_eq_none_iff] at hitem
          simp only [hitem]
          rfl
      | _ => rfl

/-- An item marks for erasure what it matches with an action that erases, unless it ends the run. -/
theorem replayPkgAction_erases (pkgData : Json) (s : State) :
    ∃ marks, (final (replay.replayPkgAction pkgData s)).goal = s.goal ++ marks ∧
      ∀ pkg, .erase pkg ∈ marks ↔ replay.RpmShape pkgData ∧ replay.Matches replay.erasing pkgData pkg := by
  cases hitem : replay.rpmItem pkgData with
  | none =>
      refine ⟨[], by rw [replay.final_of_rpmItem_none hitem, List.append_nil], fun pkg => iff_of_false (by simp) ?_⟩
      rintro ⟨_, item, hsome, _⟩
      rw [hitem] at hsome
      cases hsome
  | some item =>
      have hmatches : ∀ pkg, replay.Matches replay.erasing pkgData pkg ↔ item.data.action.isOneOf replay.erasing = true ∧
          pkg ∈ replay.query item.nevra ∧ pkg.installed = true := by
        intro pkg
        rw [mem_query]
        constructor
        · rintro ⟨_, hsome, haction, hpkg, hinstalled, hnevra⟩
          obtain rfl := Option.some.inj (hitem.symm.trans hsome)
          exact ⟨haction, ⟨hpkg, hnevra⟩, hinstalled⟩
        · rintro ⟨haction, ⟨hpkg, hnevra⟩, hinstalled⟩
          exact ⟨item, hitem, haction, hpkg, hinstalled, hnevra⟩
      rw [replay.replayPkgAction_of_rpmItem hitem, replayParsed]
      cases hlimit : replay.limitToRepo (replay.query item.nevra) item.data.repoId with
      | error e =>
          refine ⟨[], (List.append_nil _).symm, fun pkg => iff_of_false (by simp) ?_⟩
          rintro ⟨hshape, _⟩
          obtain ⟨limited, hok⟩ := (replay.rpmShape_iff_limited hitem).mp hshape
          rw [hlimit] at hok
          cases hok
      | ok limited =>
          have hshape : replay.RpmShape pkgData := (replay.rpmShape_iff_limited hitem).mpr ⟨limited, hlimit⟩
          obtain ⟨hsubset, hkept, hnil⟩ := replay.limitToRepo_ok hlimit
          have hlimited : ∀ pkg, pkg ∈ limited ∧ pkg.installed = true ↔ pkg ∈ replay.query item.nevra ∧ pkg.installed = true :=
            fun pkg => ⟨fun h => ⟨hsubset h.1, h.2⟩, fun h => ⟨hkept pkg h.1 h.2, h.2⟩⟩
          simp only [lift_ok_bind, hmatches, hshape, true_and, ← hlimited]
          split_ifs with hempty
          · refine ⟨[], by rw [goal_raiseOrWarn, List.append_nil], fun pkg => iff_of_false (by simp) ?_⟩
            rintro ⟨_, hpkg, _⟩
            rw [hempty] at hpkg
            cases hpkg
          · exact replay.replayAction_erases item.data item.text item.nevra limited _

/-! ### The run -/

/-- The item is reached: no item up to it ends the run. -/
def Reached (items : List Json) (pkgData : Json) : Prop :=
  ∃ before after, items = before ++ pkgData :: after ∧ ∀ item ∈ before ++ [pkgData], replay.RpmShape item

theorem reached_cons_iff (first : Json) (rest : List Json) (pkgData : Json) :
    replay.Reached (first :: rest) pkgData ↔ replay.RpmShape first ∧ (pkgData = first ∨ replay.Reached rest pkgData) := by
  constructor
  · rintro ⟨before, after, hitems, hshape⟩
    cases before with
    | nil =>
        obtain ⟨rfl, rfl⟩ := List.cons.inj hitems
        exact ⟨hshape _ (List.mem_singleton_self _), .inl rfl⟩
    | cons x before =>
        obtain ⟨rfl, hrest⟩ := List.cons.inj hitems
        exact ⟨hshape _ List.mem_cons_self, .inr ⟨before, after, hrest, fun item hitem => hshape item (List.mem_cons_of_mem _ hitem)⟩⟩
  · rintro ⟨hfirst, rfl | ⟨before, after, rfl, hshape⟩⟩
    · exact ⟨[], rest, rfl, fun item hitem => List.mem_singleton.mp hitem ▸ hfirst⟩
    · refine ⟨first :: before, after, rfl, fun item hitem => ?_⟩
      rcases List.mem_cons.mp hitem with rfl | hmem
      · exact hfirst
      · exact hshape item hmem

/-- The loop over the rpm items marks what the items it reaches match. -/
theorem collect_erases (items : List Json) (errors : List String) (s : State) :
    ∃ marks, (final (collect errorText replay.replayPkgAction items errors s)).goal = s.goal ++ marks ∧
      ∀ pkg, .erase pkg ∈ marks ↔ ∃ pkgData, replay.Reached items pkgData ∧ replay.Matches replay.erasing pkgData pkg := by
  induction items generalizing errors s with
  | nil =>
      refine ⟨[], (List.append_nil _).symm, fun pkg => iff_of_false (by simp) ?_⟩
      rintro ⟨pkgData, ⟨before, after, hitems, _⟩, _⟩
      exact absurd hitems.symm (by simp)
  | cons first rest ih =>
      obtain ⟨marks, hgoal, hmarks⟩ := replay.replayPkgAction_erases first s
      have hshape := replay.settled_replayPkgAction_iff first s
      have hgo : replay.RpmShape first → ∀ errors' t, t.goal = s.goal ++ marks →
          ∃ marks', (final (collect errorText replay.replayPkgAction rest errors' t)).goal = s.goal ++ marks' ∧
            ∀ pkg, .erase pkg ∈ marks' ↔ ∃ pkgData, replay.Reached (first :: rest) pkgData ∧ replay.Matches replay.erasing pkgData pkg := by
        intro hfirst errors' t ht
        obtain ⟨marks', hgoal', hmarks'⟩ := ih errors' t
        refine ⟨marks ++ marks', by rw [hgoal', ht, List.append_assoc], fun pkg => ?_⟩
        simp only [List.mem_append, hmarks, hmarks', reached_cons_iff, hfirst, true_and, or_and_right, exists_or, exists_eq_left]
      cases hrun : replay.replayPkgAction first s with
      | ok _ t =>
          rw [hrun] at hshape hgoal
          rw [collect_cons_ok hrun]
          exact hgo (hshape.mp trivial) errors t hgoal
      | error e t =>
          rw [hrun] at hshape hgoal
          cases he : errorText e with
          | some error =>
              rw [collect_cons_caught hrun he]
              exact hgo (hshape.mp (Option.isSome_of_eq_some he)) _ t hgoal
          | none =>
              have hfirst : ¬replay.RpmShape first := fun h => by
                have hsome : (errorText e).isSome = true := hshape.mpr h
                rw [he] at hsome
                cases hsome
              rw [collect_cons_uncaught hrun he]
              refine ⟨marks, hgoal, fun pkg => ?_⟩
              simp only [hmarks, reached_cons_iff, hfirst, false_and, exists_false]

theorem run_erases (loaded : Loaded) (s : State) :
    ∃ marks, (final (replay.run loaded s)).goal = s.goal ++ marks ∧
      ∀ pkg, .erase pkg ∈ marks ↔ ∃ pkgData, replay.Reached loaded.rpms pkgData ∧ replay.Matches replay.erasing pkgData pkg := by
  obtain ⟨marks, hgoal, hmarks⟩ := replay.collect_erases loaded.rpms [] s
  refine ⟨marks, ?_, hmarks⟩
  rw [run, bind_apply]
  cases hrun : collect errorText replay.replayPkgAction loaded.rpms [] s with
  | error e t =>
      rw [hrun] at hgoal
      exact hgoal
  | ok errors t =>
      rw [hrun] at hgoal
      have hitems : ∀ kind items errors', Keeps (SameGoal t) (collect errorText (replay.replayItem kind) items errors') :=
        fun kind items errors' => Keeps.collect (fun data => replay.keeps_replayItem kind data t) items errors'
      have hsame : SameGoal t (final (((collect errorText (replay.replayItem .group) loaded.groups errors) >>= fun errors =>
          (collect errorText (replay.replayItem .environment) loaded.environments errors) >>= fun errors =>
            if errors = [] then pure () else throw (.transactionReplayError replay.options.filename errors)) t)) := by
        refine Keeps.final ((hitems .group _ _).bind fun errors => (hitems .environment _ _).bind fun errors => ?_) (.refl t)
        split_ifs
        · exact .pure _
        · exact .throw _
      exact hsame.goal.trans hgoal

/-- What the run marks for erasure: with unavailable packages skipped only what a `Removed` item matches, otherwise all that a backward item matches. -/
def ErasesRightly (loaded : Loaded) (s : State) : Prop :=
  ∃ marks, (final (replay.run loaded s)).goal = s.goal ++ marks ∧
    (replay.options.skipUnavailable = true ∨ replay.base.strict = false →
      ∀ pkg, .erase pkg ∈ marks → ∃ pkgData ∈ loaded.rpms, replay.Matches ["Removed"] pkgData pkg) ∧
    (replay.options.skipUnavailable = false → replay.base.strict = true →
      ∀ pkgData ∈ loaded.rpms, ∀ pkg, replay.Matches eraseActions pkgData pkg → .erase pkg ∈ marks)

theorem mem_of_reached {items : List Json} {pkgData : Json} (h : replay.Reached items pkgData) : pkgData ∈ items := by
  obtain ⟨before, after, rfl, _⟩ := h
  simp

/-- The rule holds exactly if what a backward item matches is matched by one that is reached, unless unavailable packages are skipped. -/
theorem erasesRightly_iff (loaded : Loaded) (s : State) :
    replay.ErasesRightly loaded s ↔
      (replay.options.skipUnavailable = false → replay.base.strict = true → ∀ pkgData ∈ loaded.rpms, ∀ pkg, replay.Matches eraseActions pkgData pkg →
        ∃ reached, replay.Reached loaded.rpms reached ∧ replay.Matches eraseActions reached pkg) := by
  obtain ⟨marks, hgoal, hmarks⟩ := replay.run_erases loaded s
  have hall : replay.options.skipUnavailable = false → replay.base.strict = true → replay.erasing = eraseActions := by
    intro hskip hstrict
    rw [erasing, skipUnavailable, hskip, hstrict]
    rfl
  constructor
  · rintro ⟨marks', hgoal', _, hbackward⟩ hskip hstrict pkgData hpkgData pkg hmatches
    obtain rfl := List.append_cancel_left (hgoal.symm.trans hgoal')
    have hmark := hbackward hskip hstrict pkgData hpkgData pkg hmatches
    rwa [hmarks, hall hskip hstrict] at hmark
  · intro hreached
    refine ⟨marks, hgoal, fun hskip pkg hmark => ?_, fun hskip hstrict pkgData hpkgData pkg hmatches => ?_⟩
    · obtain ⟨pkgData, hpkgData, hmatches⟩ := (hmarks pkg).mp hmark
      have hremoved : replay.erasing = ["Removed"] := by
        rw [erasing, skipUnavailable]
        rcases hskip with h | h <;> simp [h]
      rw [hremoved] at hmatches
      exact ⟨pkgData, replay.mem_of_reached hpkgData, hmatches⟩
    · rw [hmarks, hall hskip hstrict]
      exact hreached hskip hstrict pkgData hpkgData pkg hmatches

/-- After an item that is no dictionary, an installed package is not erased. -/
theorem not_erasesRightly : ¬spiceReplay.ErasesRightly
    ⟨[.null, rpmObject "Removed" pepperOld.nevra "user" (.str systemRepoName)], [], []⟩ {} := by
  rintro ⟨marks, hgoal, _, hbackward⟩
  have hempty : (final (spiceReplay.run ⟨[.null, rpmObject "Removed" pepperOld.nevra "user" (.str systemRepoName)], [], []⟩ {})).goal.isEmpty = true := by
    decide +kernel
  rw [hgoal] at hempty
  have hmark := hbackward rfl rfl _ (List.mem_cons_of_mem _ (List.mem_singleton_self _)) pepperOld
    ⟨⟨⟨.str "Removed", .str pepperOld.nevra.text, .str systemRepoName, .user⟩, pepperOld.nevra.text, pepperOld.nevra⟩, by rfl, rfl, by decide, rfl, rfl⟩
  obtain rfl : marks = [] := List.isEmpty_iff.mp hempty
  cases hmark

end TransactionReplay

end Dnf.Replay
