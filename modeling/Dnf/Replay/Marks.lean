import Dnf.Replay.Serialize

/-!
# What rpm items put on the goal

A recorded transaction takes a set of packages to another one: its backward items leave it, its forward items enter it. The marks on the goal do the same, erase marks first. A stored rpm item that can be performed is accepted, and its marks are those of its action: a forward item selects packages of its NEVRA, a backward item erases the installed ones, a reason change does neither. So the marks of a list of items add up to two sets, whatever their order.
-/

namespace Dnf.Replay

open History Groups Foundation Foundation.Effect

namespace RecordedTransaction

variable (recorded : RecordedTransaction)

def forward : Set Nevra := {n | ∃ record ∈ recorded.rpms, isForward record.action = true ∧ record.nevra = n}

def backward : Set Nevra := {n | ∃ record ∈ recorded.rpms, isBackward record.action = true ∧ record.nevra = n}

def apply (packages : Set Nevra) : Set Nevra := (packages \ recorded.backward) ∪ recorded.forward

end RecordedTransaction

/-! ### Marks -/

def erased (marks : List Mark) : Set Nevra := {n | ∃ pkg, .erase pkg ∈ marks ∧ pkg.nevra = n}

def selected (marks : List Mark) : Set Nevra := {n | ∃ select optional, .install select optional ∈ marks ∧ ∃ pkg ∈ select, pkg.nevra = n}

/-- The packages after the erase marks and then the install marks. -/
def applyMarks (marks : List Mark) (packages : Set Nevra) : Set Nevra := (packages \ erased marks) ∪ selected marks

theorem erased_append (marks marks' : List Mark) : erased (marks ++ marks') = erased marks ∪ erased marks' := by
  ext n
  simp only [erased, List.mem_append, Set.mem_ofPred_eq, Set.mem_union]
  constructor
  · rintro ⟨pkg, hmark | hmark, hn⟩
    · exact .inl ⟨pkg, hmark, hn⟩
    · exact .inr ⟨pkg, hmark, hn⟩
  · rintro (⟨pkg, hmark, hn⟩ | ⟨pkg, hmark, hn⟩)
    · exact ⟨pkg, .inl hmark, hn⟩
    · exact ⟨pkg, .inr hmark, hn⟩

theorem selected_append (marks marks' : List Mark) : selected (marks ++ marks') = selected marks ∪ selected marks' := by
  ext n
  simp only [selected, List.mem_append, Set.mem_ofPred_eq, Set.mem_union]
  constructor
  · rintro ⟨select, optional, hmark | hmark, hn⟩
    · exact .inl ⟨select, optional, hmark, hn⟩
    · exact .inr ⟨select, optional, hmark, hn⟩
  · rintro (⟨select, optional, hmark, hn⟩ | ⟨select, optional, hmark, hn⟩)
    · exact ⟨select, optional, .inl hmark, hn⟩
    · exact ⟨select, optional, .inr hmark, hn⟩

/-- Packages that all have the same NEVRA, at least one. -/
def OnlyNevra (n : Nevra) (query : List Package) : Prop := query ≠ [] ∧ ∀ pkg ∈ query, pkg.nevra = n

theorem erased_erases {n : Nevra} {query : List Package} (h : OnlyNevra n query) : erased (query.map Mark.erase) = {n} := by
  ext m
  simp only [erased, List.mem_map, Mark.erase.injEq, exists_eq_right, Set.mem_ofPred_eq, Set.mem_singleton_iff]
  constructor
  · rintro ⟨pkg, hpkg, rfl⟩
    exact h.2 pkg hpkg
  · rintro rfl
    obtain ⟨pkg, hpkg⟩ := List.exists_mem_of_ne_nil query h.1
    exact ⟨pkg, hpkg, h.2 pkg hpkg⟩

theorem selected_erases (query : List Package) : selected (query.map Mark.erase) = ∅ := by
  ext m
  simp [selected]

theorem erased_install (query : List Package) (optional : Bool) : erased [.install query optional] = ∅ := by
  ext m
  simp [erased]

theorem selected_install {n : Nevra} {query : List Package} (h : OnlyNevra n query) (optional : Bool) :
    selected [.install query optional] = {n} := by
  ext m
  simp only [selected, List.mem_singleton, Mark.install.injEq, Set.mem_ofPred_eq, Set.mem_singleton_iff]
  constructor
  · rintro ⟨_, _, ⟨rfl, _⟩, pkg, hpkg, rfl⟩
    exact h.2 pkg hpkg
  · rintro rfl
    obtain ⟨pkg, hpkg⟩ := List.exists_mem_of_ne_nil query h.1
    exact ⟨query, optional, ⟨rfl, rfl⟩, pkg, hpkg, h.2 pkg hpkg⟩

/-! ### Stored rpm items -/

/-- An rpm object as a transaction stores it or as its reversal leaves it. -/
structure StoredRpm where
  action : Action
  nevra : Nevra
  reason : String
  repoId : Option String

def StoredRpm.repoValue (stored : StoredRpm) : Json :=
  match stored.repoId with
  | some id => .str id
  | none => .null

def StoredRpm.object (stored : StoredRpm) : Json := rpmObject (actionText stored.action) stored.nevra stored.reason stored.repoValue

namespace TransactionReplay

variable (replay : TransactionReplay)

/-- The item can be performed on the system: its texts are read, and its package is there for what the action does. -/
structure Performable (stored : StoredRpm) : Prop where
  parsed : replay.parsedNevra stored.nevra.text = some stored.nevra
  reason : (replay.lib.stringToReason stored.reason).isSome
  action : stored.action ≠ .obsolete
  found : replay.Found stored.nevra
  available : isForward stored.action = true → ∃ pkg ∈ replay.base.sack, pkg.installed = false ∧ pkg.nevra = stored.nevra
  installed : isBackward stored.action = true → ∃ pkg ∈ replay.base.sack, pkg.installed = true ∧ pkg.nevra = stored.nevra
  notInstalled : stored.action = .install → replay.options.ignoreInstalled = true ∨
    (replay.queryNa stored.nevra).any (·.installed) = false ∨ (replay.queryNa stored.nevra).any replay.base.isInstallonly = true
  repo : stored.action = .reinstall → stored.repoId ≠ some systemRepoName

theorem limitToRepo_repoValue (hlawful : replay.lib.Lawful) (query : List Package) (stored : StoredRpm) :
    ∃ limited, replay.limitToRepo query stored.repoValue = .ok limited := by
  rw [limitToRepo_isOk_iff]
  intro htruthy
  cases hrepo : stored.repoId with
  | none => simp [StoredRpm.repoValue, hrepo, Json.truthy] at htruthy
  | some id => simp [StoredRpm.repoValue, hrepo, hlawful.filterReponame_str]

def readItem (stored : StoredRpm) (reason : Reason) : RpmItem :=
  ⟨⟨.str (actionText stored.action), .str stored.nevra.text, stored.repoValue, reason⟩, stored.nevra.text, stored.nevra⟩

theorem rpmItem_object {stored : StoredRpm} {reason : Reason} (hparsed : replay.parsedNevra stored.nevra.text = some stored.nevra)
    (hreason : replay.lib.stringToReason stored.reason = some reason) :
    replay.rpmItem stored.object = some (readItem stored reason) := by
  rw [rpmItem, StoredRpm.object, replay.readRpm_rpmObject hreason]
  simp only [hparsed, Option.map_some]
  rfl

/-! ### One action -/

/-- The marks of an action, on a query of one NEVRA that suits it. -/
structure MarksOf (action : Action) (n : Nevra) (marks : List Mark) : Prop where
  erased : erased marks = if isBackward action then {n} else ∅
  selected : selected marks = if isForward action then {n} else ∅

theorem refuseInstalled_ok (data : RpmData) {n : Nevra} (h : data.action.isText "Install" = true → replay.options.ignoreInstalled = true ∨
    (replay.queryNa n).any (·.installed) = false ∨ (replay.queryNa n).any replay.base.isInstallonly = true) (s : State) :
    ∃ warnings, replay.refuseInstalled data n s = .ok () { s with warnings := warnings } := by
  rw [refuseInstalled]
  split_ifs with hrefuse
  · rcases h hrefuse.1 with hignore | hnone | honly
    · rw [hignore]
      exact ⟨_, rfl⟩
    · exact absurd hrefuse.2.1 (by simp [hnone])
    · exact absurd honly hrefuse.2.2
  · exact ⟨s.warnings, rfl⟩

/-- The branches of the dispatch, by the action of the item. -/
theorem action_cases {action : Action} (h : action ≠ .obsolete) :
    action ∈ [.install, .upgrade, .downgrade] ∨ action = .reinstall ∨ isBackward action = true ∨ action = .reasonChange := by
  cases action <;> first | exact absurd rfl h | decide

theorem forward_text {action : Action} (h : action ∈ [.install, .upgrade, .downgrade]) :
    (Json.str (actionText action)).isOneOf installActions = true ∧ isForward action = true ∧ isBackward action = false := by
  cases action <;> first | decide | exact absurd h (by decide)

theorem backward_text {action : Action} (h : isBackward action = true) :
    (Json.str (actionText action)).isOneOf installActions = false ∧ (Json.str (actionText action)).isText "Reinstall" = false ∧
      (Json.str (actionText action)).isOneOf eraseActions = true ∧ isForward action = false := by
  cases action <;> first | decide | exact absurd h (by decide)

theorem isText_install {action : Action} (h : (Json.str (actionText action)).isText "Install" = true) : action = .install := by
  cases action <;> first | rfl | exact absurd h (by decide)

/-- An item that can be performed puts the marks of its action on the goal. -/
theorem replayAction_marks (hskip : replay.skipUnavailable = false) {stored : StoredRpm} (hstored : replay.Performable stored) (reason : Reason)
    {query : List Package} (hquery : OnlyNevra stored.nevra query)
    (havailable : stored.action = .reinstall → ∃ pkg ∈ query, pkg.installed = false)
    (hinstalled : isBackward stored.action = true → ∃ pkg ∈ query, pkg.installed = true) (s : State) :
    ∃ t marks, replay.replayAction (readItem stored reason).data stored.nevra.text stored.nevra query s = .ok () t ∧
      t.goal = s.goal ++ marks ∧ MarksOf stored.action stored.nevra marks := by
  have hfilter : ∀ {p : Package → Bool}, (∃ pkg ∈ query, p pkg = true) → OnlyNevra stored.nevra (query.filter p) := by
    intro p ⟨pkg, hpkg, hp⟩
    exact ⟨List.ne_nil_of_mem (List.mem_filter.mpr ⟨hpkg, hp⟩), fun pkg hpkg => hquery.2 pkg (List.mem_of_mem_filter hpkg)⟩
  rw [replayAction, show (readItem stored reason).data.action = .str (actionText stored.action) from rfl]
  rcases action_cases hstored.action with hinstall | hreinstall | hbackward | hchange
  · obtain ⟨htext, hforward, hnot⟩ := forward_text hinstall
    obtain ⟨warnings, hrefuse⟩ := replay.refuseInstalled_ok (readItem stored reason).data (fun h => hstored.notInstalled (isText_install h)) s
    rw [if_pos htext, replayInstall, bind_apply, hrefuse]
    refine ⟨_, [.install query (!replay.base.strict)], rfl, rfl, ?_, ?_⟩
    · rw [erased_install, hnot, if_neg Bool.false_ne_true]
    · rw [selected_install hquery, hforward, if_pos rfl]
  · have hfound := hfilter (p := fun pkg => !pkg.installed) (by simpa using havailable hreinstall)
    rw [hreinstall, if_neg (by decide), if_pos (by decide), replayReinstall, if_neg hfound.1]
    refine ⟨_, [.install (query.filter fun pkg => !pkg.installed) (!replay.base.strict)], rfl, rfl, ?_, ?_⟩
    · rw [erased_install]
      rfl
    · rw [selected_install hfound]
      rfl
  · obtain ⟨hnotInstall, hnotReinstall, htext, hnot⟩ := backward_text hbackward
    have hfound := hfilter (hinstalled hbackward)
    rw [if_neg (by simp [hnotInstall]), if_neg (by simp [hnotReinstall]), if_pos htext, replayErase, if_neg hfound.1, if_pos (by simp [hskip])]
    refine ⟨_, (query.filter (·.installed)).map Mark.erase, rfl, rfl, ?_, ?_⟩
    · rw [erased_erases hfound, hbackward, if_pos rfl]
    · rw [selected_erases, hnot, if_neg Bool.false_ne_true]
  · obtain ⟨pkg, rest, rfl⟩ := List.exists_cons_of_ne_nil hquery.1
    rw [hchange, if_neg (by decide), if_neg (by decide), if_neg (by decide), if_pos (by decide)]
    refine ⟨_, [], rfl, (List.append_nil _).symm, ?_, ?_⟩
    · ext n
      simp [erased, isBackward]
    · ext n
      simp [selected, isForward]

/-- Limited to a repository that is not `@System`, a query still holds a package to install again. -/
theorem exists_available_limited (hlawful : replay.lib.Lawful) {stored : StoredRpm} (hrepo : stored.repoId ≠ some systemRepoName)
    {query limited : List Package} (hlimit : replay.limitToRepo query stored.repoValue = .ok limited)
    (havailable : ∃ pkg ∈ query, pkg.installed = false) : ∃ pkg ∈ limited, pkg.installed = false := by
  rw [limitToRepo] at hlimit
  split_ifs at hlimit
  · cases hstored : stored.repoId with
    | none => simp_all [StoredRpm.repoValue, Json.truthy]
    | some id =>
        simp only [StoredRpm.repoValue, hstored, hlawful.filterReponame_str] at hlimit
        split_ifs at hlimit with hany
        · cases hlimit
          obtain ⟨pkg, hpkg, hkeep⟩ := List.any_eq_true.mp hany
          refine ⟨pkg, List.mem_filter.mpr ⟨hpkg, by rw [hkeep, Bool.true_or]⟩, ?_⟩
          rw [Package.installed, eq_of_beq hkeep, beq_eq_false_iff_ne]
          exact fun h => hrepo (hstored.trans (congrArg some h))
        · cases hlimit
          exact havailable
  · cases hlimit
    exact havailable

/-! ### A list of items -/

theorem replayPkgAction_marks (hlawful : replay.lib.Lawful) (hskip : replay.skipUnavailable = false) {stored : StoredRpm}
    (hstored : replay.Performable stored) (s : State) :
    ∃ t marks, replay.replayPkgAction stored.object s = .ok () t ∧ t.history = s.history ∧ t.goal = s.goal ++ marks ∧
      MarksOf stored.action stored.nevra marks := by
  obtain ⟨reason, hreason⟩ := Option.isSome_iff_exists.mp hstored.reason
  obtain ⟨limited, hlimit⟩ := replay.limitToRepo_repoValue hlawful (replay.query stored.nevra) stored
  obtain ⟨hsubset, hkept, hnil⟩ := replay.limitToRepo_ok hlimit
  have hlimited : OnlyNevra stored.nevra limited :=
    ⟨fun h => replay.query_ne_nil_iff.mpr hstored.found (hnil.mp h), fun pkg hpkg => (replay.mem_query.mp (hsubset hpkg)).2⟩
  have hforReinstall : stored.action = .reinstall → ∃ pkg ∈ limited, pkg.installed = false := by
    intro h
    obtain ⟨pkg, hpkg, hnot, hnevra⟩ := hstored.available (by rw [h]; rfl)
    exact replay.exists_available_limited hlawful (hstored.repo h) hlimit ⟨pkg, replay.mem_query.mpr ⟨hpkg, hnevra⟩, hnot⟩
  have hforErase : isBackward stored.action = true → ∃ pkg ∈ limited, pkg.installed = true := by
    intro h
    obtain ⟨pkg, hpkg, hinstalled, hnevra⟩ := hstored.installed h
    exact ⟨pkg, hkept pkg (replay.mem_query.mpr ⟨hpkg, hnevra⟩) hinstalled, hinstalled⟩
  obtain ⟨u, hgoal, hhistory, hparsed⟩ := replay.replayParsed_found (readItem stored reason) hlimit hlimited.1 s
  obtain ⟨t, marks, hrun, hmarked, hmarks⟩ := replay.replayAction_marks hskip hstored reason hlimited hforReinstall hforErase u
  have hsame := (replay.keeps_replayAction (readItem stored reason).data stored.nevra.text stored.nevra limited u).ok (.refl u) hrun
  refine ⟨t, marks, ?_, hsame.history.trans hhistory, hmarked.trans (by rw [hgoal]), hmarks⟩
  rw [replay.replayPkgAction_of_rpmItem (replay.rpmItem_object hstored.parsed hreason), hparsed]
  exact hrun

/-- The packages the backward items of a list name. -/
def backwardOf (items : List StoredRpm) : Set Nevra := {n | ∃ stored ∈ items, isBackward stored.action = true ∧ stored.nevra = n}

def forwardOf (items : List StoredRpm) : Set Nevra := {n | ∃ stored ∈ items, isForward stored.action = true ∧ stored.nevra = n}

/-- Items that can all be performed are all accepted, and what they mark adds up. -/
theorem performAll (hlawful : replay.lib.Lawful) (hskip : replay.skipUnavailable = false) {items : List StoredRpm}
    (hitems : ∀ stored ∈ items, replay.Performable stored) (s : State) :
    ∃ t, replay.AllAccepted (items.map StoredRpm.object) s t ∧ t.history = s.history ∧
      erased t.goal = erased s.goal ∪ backwardOf items ∧ selected t.goal = selected s.goal ∪ forwardOf items := by
  induction items generalizing s with
  | nil =>
      refine ⟨s, .nil, rfl, ?_, ?_⟩
      · ext n
        simp [backwardOf]
      · ext n
        simp [forwardOf]
  | cons stored rest ih =>
      obtain ⟨u, marks, hrun, hhistory, hgoal, hmarks⟩ := replay.replayPkgAction_marks hlawful hskip (hitems stored List.mem_cons_self) s
      obtain ⟨t, haccepted, hhistory', herased, hselected⟩ := ih (fun x hx => hitems x (List.mem_cons_of_mem _ hx)) u
      refine ⟨t, .accept hrun haccepted, hhistory'.trans hhistory, ?_, ?_⟩
      · rw [herased, hgoal, erased_append, hmarks.erased, Set.union_assoc]
        congr 1
        ext n
        cases hb : isBackward stored.action <;> simp [backwardOf, hb, @eq_comm _ n]
      · rw [hselected, hgoal, selected_append, hmarks.selected, Set.union_assoc]
        congr 1
        ext n
        cases hf : isForward stored.action <;> simp [forwardOf, hf, @eq_comm _ n]

end TransactionReplay

end Dnf.Replay
