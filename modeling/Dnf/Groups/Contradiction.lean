import Dnf.Groups.Upgrade

/-!
# When an accumulated bunch contradicts itself

`+=` is meant to keep a package that is installed or upgraded out of `remove`. It compares objects, so it only does when the two objects agree in every field. The plan is therefore free of contradictions exactly when every package the group operations drop, and some operation also picks, is a package an upgrade picks with the very same fields.

The steps recorded with a bunch explain it: what it installs and upgrades is what its steps enter, and what it removes is what they drop and do not enter. Each operation of the solver returns such a bunch, `+=` preserves it, and the condition is read off.
-/

namespace Dnf.Groups

open History Foundation.Effect

/-! ### What a step enters and drops -/

namespace GroupStep

variable (codes : TypeCodes)

/-- The packages the selected types pick from the definition. -/
def picks : GroupStep → Finset Package
  | .install group pkgTypes => pkgsOfType codes group pkgTypes
  | .upgrade record group => pkgsOfType codes group record.packageTypes
  | .remove _ _ => ∅

/-- The elements the step puts into the sets to install and to upgrade. -/
def entries : GroupStep → Finset Entry
  | .install group pkgTypes => (pkgsOfType codes group pkgTypes).image Entry.raw
  | .upgrade record group => ofPackages codes (pkgsOfType codes group record.packageTypes)
  | .remove _ _ => ∅

/-- What the step asks to remove: names an upgrade no longer picks, and the removable packages of a removed group. -/
def drops : GroupStep → Finset CompsTransPkg
  | .install _ _ => ∅
  | .upgrade record group =>
      ((record.members.map (·.name)).toFinset.filter
        fun name => name ∉ (pkgsOfType codes group record.packageTypes).image (·.name)).image .ofName
  | .remove _ removable => removable.toFinset.image (.ofSwdb codes)

/-- The step is an upgrade that picks a package with the same fields. -/
def Renews (pkg : CompsTransPkg) : GroupStep → Prop
  | .upgrade record group => ∃ p ∈ pkgsOfType codes group record.packageTypes, CompsTransPkg.ofComps codes p = pkg
  | _ => False

variable {codes}

theorem trans_mem_entries {step : GroupStep} {pkg : CompsTransPkg} : .trans pkg ∈ step.entries codes ↔ step.Renews codes pkg := by
  cases step with
  | install group pkgTypes => simp [entries, Renews]
  | upgrade record group => simp [entries, Renews, ofPackages]
  | remove record removable => simp [entries, Renews]

theorem exists_entry_named {step : GroupStep} {name : String} :
    (∃ e ∈ step.entries codes, e.name = name) ↔ ∃ p ∈ step.picks codes, p.name = name := by
  cases step with
  | install group pkgTypes => simp [entries, picks, Entry.name]
  | upgrade record group => simp [entries, picks, ofPackages, Entry.name, CompsTransPkg.ofComps]
  | remove record removable => simp [entries, picks]

end GroupStep

/-! ### The condition -/

/-- No package name is in `remove` and also installed or upgraded. -/
def NoContradiction (trans : TransactionBunch) : Prop := ∀ e ∈ trans.remove, ∀ f ∈ trans.forward, f.name ≠ e.name

/-- Whatever one step drops and some step picks by name, an upgrade picks with the same fields. -/
def Compatible (codes : TypeCodes) (steps : List GroupStep) : Prop :=
  ∀ dropping ∈ steps, ∀ pkg ∈ dropping.drops codes,
    (∃ picking ∈ steps, ∃ p ∈ picking.picks codes, p.name = pkg.name) → ∃ renewing ∈ steps, renewing.Renews codes pkg

/-- The bunch is what its steps make of it. -/
structure Explained (codes : TypeCodes) (trans : TransactionBunch) : Prop where
  forward : ∀ e, e ∈ trans.forward ↔ ∃ step ∈ trans.steps, e ∈ step.entries codes
  remove : ∀ e, e ∈ trans.remove ↔
    (∃ step ∈ trans.steps, ∃ pkg ∈ step.drops codes, e = .trans pkg) ∧ ¬∃ step ∈ trans.steps, e ∈ step.entries codes

variable {codes : TypeCodes} {trans other : TransactionBunch}

theorem Explained.compatible_iff (h : Explained codes trans) : NoContradiction trans ↔ Compatible codes trans.steps := by
  have hnamed : ∀ name, (∃ f ∈ trans.forward, f.name = name) ↔ ∃ step ∈ trans.steps, ∃ p ∈ step.picks codes, p.name = name := by
    intro name
    simp only [h.forward, ← GroupStep.exists_entry_named]
    constructor
    · intro ⟨f, ⟨step, hstep, hf⟩, hname⟩
      exact ⟨step, hstep, f, hf, hname⟩
    · intro ⟨step, hstep, f, hf, hname⟩
      exact ⟨f, ⟨step, hstep, hf⟩, hname⟩
  constructor
  · intro hfree step hstep pkg hpkg hpicked
    by_contra hrenewed
    have hremove : .trans pkg ∈ trans.remove := by
      refine (h.remove _).mpr ⟨⟨step, hstep, pkg, hpkg, rfl⟩, ?_⟩
      simpa only [GroupStep.trans_mem_entries] using hrenewed
    obtain ⟨f, hf, hname⟩ := (hnamed pkg.name).mpr hpicked
    exact hfree _ hremove f hf hname
  · intro hcompatible e he f hf hname
    obtain ⟨⟨step, hstep, pkg, hpkg, rfl⟩, hnot⟩ := (h.remove e).mp he
    obtain ⟨renewing, hrenewing, hrenews⟩ := hcompatible step hstep pkg hpkg ((hnamed pkg.name).mp ⟨f, hf, hname⟩)
    exact hnot ⟨renewing, hrenewing, GroupStep.trans_mem_entries.mpr hrenews⟩

theorem Explained.empty : Explained codes {} :=
  ⟨fun e => by simp [TransactionBunch.forward], fun e => by simp⟩

/-- `+=` keeps bunches explained: what was subtracted stays entered. -/
theorem Explained.iadd (h : Explained codes trans) (hother : Explained codes other) : Explained codes (trans.iadd other) := by
  have hsteps : ∀ P : GroupStep → Prop,
      (∃ step ∈ (trans.iadd other).steps, P step) ↔ (∃ step ∈ trans.steps, P step) ∨ ∃ step ∈ other.steps, P step := by
    intro P
    rw [TransactionBunch.iadd]
    simp only [List.mem_append, or_and_right, exists_or]
  have hforward : ∀ e, e ∈ (trans.iadd other).forward ↔ ∃ step ∈ (trans.iadd other).steps, e ∈ step.entries codes := by
    intro e
    rw [TransactionBunch.forward_iadd, Finset.mem_union, h.forward, hother.forward, hsteps]
  have hsubtract : ∀ dropped dropped' entered entered' : Prop,
      (dropped ∧ ¬entered ∨ dropped' ∧ ¬entered') ∧ ¬(entered ∨ entered') ↔ (dropped ∨ dropped') ∧ ¬(entered ∨ entered') := by tauto
  refine ⟨hforward, fun e => ?_⟩
  rw [TransactionBunch.mem_remove_iadd, hforward, hsteps, hsteps, h.remove, hother.remove]
  exact hsubtract _ _ _ _

/-! ### The operations of the solver -/

variable (solver : Solver)

theorem explained_of_step (step : GroupStep) (hsteps : trans.steps = [step]) (hforward : ∀ e, e ∈ trans.forward ↔ e ∈ step.entries codes)
    (hremove : ∀ e, e ∈ trans.remove ↔ ∃ pkg ∈ step.drops codes, e = .trans pkg)
    (hdisjoint : ∀ pkg ∈ step.drops codes, .trans pkg ∉ step.entries codes) : Explained codes trans := by
  refine ⟨fun e => ?_, fun e => ?_⟩
  · rw [hforward, hsteps]
    simp only [List.mem_singleton, exists_eq_left]
  · rw [hremove, hsteps]
    simp only [List.mem_singleton, exists_eq_left]
    refine (and_iff_left_of_imp ?_).symm
    intro ⟨pkg, hpkg, he⟩
    exact he ▸ hdisjoint pkg hpkg

theorem explained_groupInstall (group : Group) (pkgTypes : Nat) (strict : Bool) :
    Explained codes (if strict then { install := (pkgsOfType codes group pkgTypes).image .raw, steps := [.install group pkgTypes] }
      else { installOpt := (pkgsOfType codes group pkgTypes).image .raw, steps := [.install group pkgTypes] }) := by
  cases strict with
  | true => exact explained_of_step _ rfl (by simp [TransactionBunch.forward, GroupStep.entries]) (by simp [GroupStep.drops]) (by simp [GroupStep.drops])
  | false => exact explained_of_step _ rfl (by simp [TransactionBunch.forward, GroupStep.entries]) (by simp [GroupStep.drops]) (by simp [GroupStep.drops])

theorem explained_groupRemove (record : CompsItem) (removable : List Member) :
    Explained codes { remove := removable.toFinset.image fun pkg => .trans (.ofSwdb codes pkg), steps := [.remove record removable] } := by
  refine explained_of_step _ rfl (by simp [TransactionBunch.forward, GroupStep.entries]) (fun e => ?_) (by simp [GroupStep.entries])
  simp only [GroupStep.drops, Finset.mem_image, exists_exists_and_eq_and]
  exact exists_congr fun pkg => and_congr_right fun _ => eq_comm

/-- An upgrade removes only names it does not pick. -/
theorem explained_upgradeBunch (record : CompsItem) (group : Group) : Explained solver.codes (solver.upgradeBunch record group) := by
  have hentries : ∀ e, e ∈ (GroupStep.upgrade record group).entries solver.codes ↔
      ∃ pkg, PickedFromGroup solver.codes record group pkg ∧ e = .trans (.ofComps solver.codes pkg) := by
    intro e
    simp only [GroupStep.entries, ofPackages, Finset.mem_image, mem_pkgsOfType, PickedFromGroup, eq_comm]
  have hdrops : ∀ pkg, pkg ∈ (GroupStep.upgrade record group).drops solver.codes ↔
      ∃ name, (InRecord record name ∧ ¬∃ p, PickedFromGroup solver.codes record group p ∧ p.name = name) ∧ pkg = .ofName name := by
    intro pkg
    simp only [GroupStep.drops, Finset.mem_image, Finset.mem_filter, List.mem_toFinset, List.mem_map, mem_pkgsOfType, PickedFromGroup,
      InRecord, eq_comm (a := pkg)]
  refine explained_of_step (.upgrade record group) rfl (fun e => ?_) (fun e => ?_) fun pkg hpkg hentry => ?_
  · have hopt : (solver.upgradeBunch record group).installOpt = ∅ := rfl
    rw [TransactionBunch.forward, hopt, Finset.union_empty, Finset.mem_union, mem_upgradeBunch_install, mem_upgradeBunch_upgrade, hentries]
    constructor
    · intro hmem
      obtain ⟨pkg, hpkg, -, he⟩ | ⟨pkg, hpkg, -, he⟩ := hmem
      · exact ⟨pkg, hpkg, he⟩
      · exact ⟨pkg, hpkg, he⟩
    · rintro ⟨pkg, hpkg, he⟩
      by_cases hin : InRecord record pkg.name
      · exact Or.inr ⟨pkg, hpkg, hin, he⟩
      · exact Or.inl ⟨pkg, hpkg, hin, he⟩
  · rw [mem_upgradeBunch_remove]
    simp only [hdrops]
    constructor
    · rintro ⟨name, hname, he⟩
      exact ⟨_, ⟨name, hname, rfl⟩, he⟩
    · rintro ⟨_, ⟨name, hname, hpkg⟩, he⟩
      exact ⟨name, hname, hpkg ▸ he⟩
  · obtain ⟨name, ⟨-, hnot⟩, rfl⟩ := (hdrops pkg).mp hpkg
    obtain ⟨p, hp, heq⟩ := (hentries _).mp hentry
    exact hnot ⟨p, hp, (congrArg Entry.name heq).symm⟩

/-- Every bunch of a state is explained: the transaction's own and every value a `+=` produced. -/
def StateExplained (codes : TypeCodes) (s : State) : Prop :=
  Explained codes s.compsTrans ∧ ∀ trans ∈ s.accumulated, Explained codes trans

/-- A program that keeps the state explained and returns an explained bunch. -/
def ReturnsExplained (codes : TypeCodes) (x : Prog TransactionBunch) : Prop :=
  Triple (StateExplained codes) x (fun trans s => StateExplained codes s ∧ Explained codes trans) (fun _ => StateExplained codes)

theorem callGroup_keeps (call : Call) (obj : CompsItem) : Keeps (StateExplained codes) (callGroup call obj) :=
  Triple.modify fun _ hs => hs

theorem callEnv_keeps (call : Call) (obj : CompsItem) : Keeps (StateExplained codes) (callEnv call obj) :=
  Triple.modify fun _ hs => hs

theorem join_explained (h : Explained codes trans) (hother : Explained codes other) : ReturnsExplained codes (join trans other) := by
  refine Triple.bind (M := fun _ => StateExplained codes) (Triple.modify fun s hs => ⟨hs.1, fun bunch hbunch => ?_⟩) fun _ =>
    Triple.pure fun s hs => ⟨hs, h.iadd hother⟩
  rw [List.mem_cons] at hbunch
  obtain rfl | hbunch := hbunch
  · exact h.iadd hother
  · exact hs.2 bunch hbunch

/-- `trans += operation(..)`. -/
theorem join_operation_explained (h : Explained codes trans) {x : Prog TransactionBunch} (hx : ReturnsExplained codes x) :
    ReturnsExplained codes (do join trans (← x)) := by
  refine Triple.bind hx fun other => ?_
  intro s ⟨hs, hother⟩
  exact join_explained h hother s hs

namespace Solver

theorem groupInstall_explained (groupId : String) (pkgTypes : Nat) (strict : Bool) :
    ReturnsExplained solver.codes (solver.groupInstall groupId pkgTypes strict) := by
  rw [Solver.groupInstall]
  split
  · exact Triple.throw fun _ hs => hs
  · exact Triple.bind (callGroup_keeps _ _) fun _ => Triple.pure fun _ hs => ⟨hs, explained_groupInstall _ pkgTypes strict⟩

theorem groupRemove_explained (groupId : String) : ReturnsExplained solver.codes (solver.groupRemove groupId) := by
  rw [Solver.groupRemove]
  split
  · exact Triple.throw fun _ hs => hs
  · refine Triple.bind (callGroup_keeps _ _) fun _ => Triple.bind (M := fun _ => StateExplained _) (Triple.get fun _ hs => hs) fun s => ?_
    split
    · exact Triple.throw fun _ hs => hs
    · exact Triple.pure fun _ hs => ⟨hs, explained_groupRemove _ _⟩

theorem groupUpgrade_explained (groupId : String) : ReturnsExplained solver.codes (solver.groupUpgrade groupId) := by
  rw [Solver.groupUpgrade]
  split
  · exact Triple.throw fun _ hs => hs
  · exact Triple.throw fun _ hs => hs
  · exact Triple.bind (callGroup_keeps _ _) fun _ => Triple.pure fun _ hs => ⟨hs, explained_upgradeBunch solver _ _⟩

/-- A loop that accumulates into a bunch. -/
theorem foldlM_explained {γ : Type} {f : TransactionBunch → γ → Prog TransactionBunch} (cs : List γ)
    (hf : ∀ trans c, Explained codes trans → ReturnsExplained codes (f trans c)) (h : Explained codes trans) :
    ReturnsExplained codes (cs.foldlM f trans) := by
  refine (Triple.foldlM (I := fun _ trans s => StateExplained codes s ∧ Explained codes trans) (fun _ c _ trans => ?_) trans).weaken
    (fun _ hs => ⟨hs, h⟩) (fun _ _ hs => hs) fun _ _ hs => hs
  intro s ⟨hs, htrans⟩
  exact hf trans c htrans s hs

theorem environmentInstall_explained (envId : String) (pkgTypes : Nat) (strict : Bool) (excludeGroups : List String) :
    ReturnsExplained solver.codes (solver.environmentInstall envId pkgTypes strict excludeGroups) := by
  rw [Solver.environmentInstall]
  split
  · exact Triple.throw fun _ hs => hs
  · refine Triple.bind (callEnv_keeps _ _) fun _ => foldlM_explained _ (fun trans group htrans => ?_) .empty
    exact join_operation_explained htrans (solver.groupInstall_explained _ _ _)

theorem removeIfRemovable_explained (groupId : String) (h : Explained solver.codes trans) :
    ReturnsExplained solver.codes (solver.removeIfRemovable trans groupId) := by
  refine Triple.bind (M := fun _ => StateExplained _) (Triple.get fun _ hs => hs) fun s => ?_
  split
  · exact Triple.throw fun _ hs => hs
  · exact Triple.pure fun _ hs => ⟨hs, h⟩
  · exact join_operation_explained h (solver.groupRemove_explained _)

theorem environmentRemove_explained (envId : String) : ReturnsExplained solver.codes (solver.environmentRemove envId) := by
  rw [Solver.environmentRemove]
  split
  · exact Triple.throw fun _ hs => hs
  · exact Triple.bind (callEnv_keeps _ _) fun _ =>
      foldlM_explained _ (fun trans groupId htrans => solver.removeIfRemovable_explained groupId htrans) .empty

theorem upgradeMandatory_explained (oldSet : List String) (pkgTypes : Nat) (group : Group) (h : Explained solver.codes trans) :
    ReturnsExplained solver.codes (solver.upgradeMandatory oldSet pkgTypes trans group) :=
  Triple.ite
    (fun _ => Triple.ite (fun _ => join_operation_explained h (solver.groupUpgrade_explained _)) fun _ => Triple.pure fun _ hs => ⟨hs, h⟩)
    fun _ => join_operation_explained h (solver.groupInstall_explained _ _ _)

theorem upgradeOptional_explained (oldSet : List String) (group : Group) (h : Explained solver.codes trans) :
    ReturnsExplained solver.codes (solver.upgradeOptional oldSet trans group) :=
  Triple.ite (fun _ => join_operation_explained h (solver.groupUpgrade_explained _)) fun _ => Triple.pure fun _ hs => ⟨hs, h⟩

theorem environmentUpgrade_explained (envId : String) : ReturnsExplained solver.codes (solver.environmentUpgrade envId) := by
  rw [Solver.environmentUpgrade]
  split
  · exact Triple.throw fun _ hs => hs
  · exact Triple.throw fun _ hs => hs
  · refine Triple.bind (foldlM_explained _ (fun trans group htrans => solver.upgradeMandatory_explained _ _ group htrans) .empty) fun mandatory => ?_
    refine Triple.bind (M := fun trans s => StateExplained solver.codes s ∧ Explained solver.codes trans) ?_ fun trans => ?_
    · intro s ⟨hs, hmandatory⟩
      exact foldlM_explained _ (fun trans group htrans => solver.upgradeOptional_explained _ group htrans) hmandatory s hs
    · refine Triple.bind (M := fun _ s => StateExplained solver.codes s ∧ Explained solver.codes trans) (Triple.modify fun _ hs => hs) fun _ => ?_
      exact Triple.pure fun _ hs => hs

theorem perform_explained (operation : Operation) : ReturnsExplained solver.codes (solver.perform operation) := by
  cases operation with
  | groupInstall groupId pkgTypes strict => exact solver.groupInstall_explained groupId pkgTypes strict
  | groupRemove groupId => exact solver.groupRemove_explained groupId
  | groupUpgrade groupId => exact solver.groupUpgrade_explained groupId
  | environmentInstall envId pkgTypes strict excludeGroups => exact solver.environmentInstall_explained envId pkgTypes strict excludeGroups
  | environmentRemove envId => exact solver.environmentRemove_explained envId
  | environmentUpgrade envId => exact solver.environmentUpgrade_explained envId

theorem addCompsTrans_keeps (h : Explained codes trans) : Keeps (StateExplained codes) (addCompsTrans trans) := by
  refine Triple.bind (M := fun s t => StateExplained codes t ∧ Explained codes s.compsTrans) (Triple.get fun s hs => ⟨hs, hs.1⟩) fun s => ?_
  refine Triple.bind (M := fun trans t => StateExplained codes t ∧ Explained codes trans) ?_ fun trans =>
    Triple.modify fun t ht => ⟨ht.2, ht.1.2⟩
  intro t ⟨ht, hs⟩
  exact join_explained hs h t ht

/-- One operation of the transaction keeps every bunch explained, however it ends. -/
theorem step_keeps (operation : Operation) : Keeps (StateExplained solver.codes) (solver.step operation) := by
  refine Triple.bind (solver.perform_explained operation) fun trans => Triple.ite (fun _ => Triple.pure fun _ hs => hs.1) fun _ => ?_
  intro s ⟨hs, htrans⟩
  exact addCompsTrans_keeps htrans s hs

theorem run_explained (operations : List Operation) {s : State} (hs : StateExplained solver.codes s) :
    StateExplained solver.codes (solver.run operations s) := by
  induction operations generalizing s with
  | nil => exact hs
  | cons operation operations ih => exact ih ((solver.step_keeps operation).final hs)

/-- Upgrading `base`, which no longer has `pepper`, and installing `spices`, which has it. -/
def droppingBase : Group := ⟨"base", "Base", "Base", [⟨"tour", .mandatory, false, none⟩]⟩

def spices : Group := ⟨"spices", "Spices", "Spices", [⟨"pepper", .mandatory, false, none⟩]⟩

end Solver

end Dnf.Groups
