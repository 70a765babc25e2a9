import Dnf.Cli.DoTransaction

/-!
# Transactions with reason changes

Of the loops of a run only that of the drift check asks every item for its package. So a run meets the `KeyError` of a reason change exactly where it gets to that check.
-/

namespace Dnf.Cli.DoTransaction

open Foundation
open History (Action isForward isBackward)
open Transaction (Item Package installSet removeSet packageSet populateItem)
open TransactionTable

/-- Items of `RPMTransaction.new` and of `set_reason`. -/
structure Mixed (items : List Item) : Prop where
  attached : Attached items
  bare : ∀ item ∈ items, item.action = .reasonChange → item.pkg = none

def OwnsProtected (conf : Conf) (item : Item) : Prop :=
  ∃ pkg, item.pkg = some pkg ∧ ∃ path ∈ conf.files pkg, ∃ pattern ∈ conf.usrDriftProtectedPaths, Fnmatch.fnmatch path pattern = true

/-- The run gets to the drift check. -/
def driftChecked (conf : Conf) (items : List Item) : Bool :=
  !(!conf.moduleStreamSwitch && conf.switchedStreams) && pending conf items && isBootcTransaction conf && conf.persistence ≠ .persist &&
    !(!conf.writable && conf.persistence = .auto)

structure NeverBreaks (conf : Conf) (items : List Item) : Prop where
  run : doTransaction conf items ≠ .error .keyError
  table : conf.output.listTransaction (some (ofItems items)) ≠ .error .keyError
  installed : ∃ set, installSet items = .ok set
  removed : ∃ set, removeSet items = .ok set
  populated : populateRpmTs conf items ≠ .error .keyError
  verified : ∃ banners, verifyTransaction items = .ok banners
  drift : driftChecked conf items = true → (driftCheck conf items = .error .cliError ↔ ∃ item ∈ items, OwnsProtected conf item)

variable {conf : Conf} {items : List Item}

/-! ### Loops that pass reason changes over -/

theorem Mixed.exists_ask (hmixed : Mixed items) {tsi : Item} (htsi : tsi ∈ items) (haction : tsi.action ≠ .reasonChange) :
    ∃ pkg, ask tsi = .ok pkg ∧ tsi.pkg = some pkg := by
  obtain ⟨pkg, hpkg⟩ := Option.ne_none_iff_exists'.mp (hmixed.attached tsi htsi haction)
  exact ⟨pkg, by rw [ask, hpkg], hpkg⟩

theorem ne_reasonChange_of_forward {action : Action} (h : isForward action = true) : action ≠ .reasonChange := by
  rintro rfl
  cases h

theorem ne_reasonChange_of_backward {action : Action} (h : isBackward action = true) : action ≠ .reasonChange := by
  rintro rfl
  cases h

theorem Mixed.exists_sortItems (hmixed : Mixed items) : ∃ sorted, sortItems items = .ok sorted := by
  refine Fallible.exists_foldlM_ok (fun tsi htsi sorted => ?_) ({} : Sorted)
  rw [sortItem]
  split_ifs with hforward hbackward
  · obtain ⟨pkg, hpkg, -⟩ := hmixed.exists_ask htsi (ne_reasonChange_of_forward hforward)
    rw [hpkg]
    exact ⟨_, rfl⟩
  · obtain ⟨pkg, hpkg, -⟩ := hmixed.exists_ask htsi (ne_reasonChange_of_backward (Bool.and_eq_true_iff.mp hbackward).1)
    rw [hpkg]
    exact ⟨_, rfl⟩
  · exact ⟨_, rfl⟩

theorem Mixed.exists_listTransaction (hmixed : Mixed items) (output : Output) :
    ∃ shown, output.listTransaction (some (ofItems items)) = .ok shown := by
  have hlisted : ∀ slot ∈ Output.tables, ∃ listed, SectionOf output (ofItems items) slot listed := fun slot hslot => by
    obtain ⟨kind, hkind⟩ := exists_kind hslot
    refine exists_sectionOf output (fun tsi htsi haction => ?_) hkind
    obtain ⟨item, hitem, hsame, -, hpkg⟩ := exists_of_mem_ofItems htsi
    rw [hpkg]
    exact hmixed.attached item hitem (hsame ▸ haction)
  choose! listed hlisted using hlisted
  have hrows : ∀ slot ∈ Output.tables, output.packageSection (ofItems items) slot = .ok (.packages slot, (listed slot).map Prod.snd) :=
    fun slot hslot => (hlisted slot hslot).run
  obtain ⟨shown, hrun, -⟩ := listTransaction_shown output hrows
  exact ⟨shown, hrun⟩

theorem Mixed.exists_packageSet (hmixed : Mixed items) (actions : Action → Bool) (hactions : actions .reasonChange = false) :
    ∃ set, packageSet actions items = .ok set := by
  refine ⟨_, Transaction.packageSet_eq fun tsi htsi haction => hmixed.attached tsi htsi fun hreason => ?_⟩
  rw [hreason, hactions] at haction
  cases haction

theorem refuse_ne {condition : Bool} {e e' : Exc} (he : e ≠ e') : refuse condition e ≠ .error e' := by
  cases condition with
  | false => exact fun h => by cases h
  | true => exact fun h => he (Except.error.inj h)

theorem populateItem_reasonChange {tsi : Item} (n : Nat) (haction : tsi.action = .reasonChange) : populateItem tsi n = none := by
  rw [populateItem, haction]

theorem Mixed.populateRpmTs_ne (hmixed : Mixed items) (conf : Conf) : populateRpmTs conf items ≠ .error .keyError := by
  refine Fallible.bind_ne (Fallible.mapM_ne fun entry hentry => ?_) fun calls =>
    Fallible.bind_ne (refuse_ne (by decide)) fun _ h => by cases h
  rw [populate]
  cases hcall : populateItem entry.1 entry.2 with
  | none => exact fun h => by cases h
  | some call =>
      have haction : entry.1.action ≠ .reasonChange := fun h => by
        rw [populateItem_reasonChange entry.2 h] at hcall
        cases hcall
      obtain ⟨pkg, hpkg, -⟩ := hmixed.exists_ask (List.fst_mem_of_mem_zipIdx hentry) haction
      rw [hpkg]
      refine Fallible.bind_ne (fun h => by cases h) fun pkg => ?_
      split_ifs
      · exact Fallible.bind_ne (refuse_ne (by decide)) fun _ h => by cases h
      · exact fun h => by cases h

theorem Mixed.exists_verifyTransaction (hmixed : Mixed items) : ∃ banners, verifyTransaction items = .ok banners := by
  have hask : ∀ tsi ∈ items.filter fun tsi => tsi.action ≠ .reasonChange, ∃ pkg, ask tsi = .ok pkg := by
    intro tsi htsi
    obtain ⟨hmem, haction⟩ := List.mem_filter.mp htsi
    obtain ⟨pkg, hpkg, -⟩ := hmixed.exists_ask hmem (of_decide_eq_true haction)
    exact ⟨pkg, hpkg⟩
  obtain ⟨banners, hrun, -⟩ := Fallible.exists_mapM_ok hask
  exact ⟨banners, hrun⟩

/-! ### The drift check -/

theorem protectedPaths_ne_nil_iff {tsi : Item} {pkg : Package} (hpkg : tsi.pkg = some pkg) :
    ∃ found, protectedPaths conf tsi = .ok found ∧ (found ≠ [] ↔ OwnsProtected conf tsi) := by
  refine ⟨_, by rw [protectedPaths, ask, hpkg]; rfl, ?_⟩
  rw [Ne, List.flatMap_eq_nil_iff]
  constructor
  · intro h
    push Not at h
    obtain ⟨path, hpath, hpatterns⟩ := h
    obtain ⟨pattern, hpattern⟩ := List.exists_mem_of_ne_nil _ fun hnil => hpatterns (List.map_eq_nil_iff.mpr hnil)
    obtain ⟨hmem, hmatch⟩ := List.mem_filter.mp hpattern
    exact ⟨pkg, hpkg, path, List.mem_mergeSort.mp hpath, pattern, hmem, hmatch⟩
  · rintro ⟨pkg', hpkg', path, hpath, pattern, hpattern, hmatch⟩ hnil
    obtain rfl : pkg' = pkg := Option.some.inj (hpkg'.symm.trans hpkg)
    have hnone := List.map_eq_nil_iff.mp (hnil path (List.mem_mergeSort.mpr hpath))
    exact List.not_mem_nil (hnone ▸ List.mem_filter.mpr ⟨hpattern, hmatch⟩)

/-- Without reason changes the check aborts where a protected path is owned. -/
theorem Mixed.driftCheck_eq (hmixed : Mixed items) (conf : Conf) (hnone : ∀ tsi ∈ items, tsi.action ≠ .reasonChange) :
    (driftCheck conf items = .error .cliError ↔ ∃ tsi ∈ items, OwnsProtected conf tsi) ∧ driftCheck conf items ≠ .error .keyError := by
  have hask : ∀ tsi ∈ items, ∃ found, protectedPaths conf tsi = .ok found ∧ (found ≠ [] ↔ OwnsProtected conf tsi) := fun tsi htsi => by
    obtain ⟨pkg, -, hpkg⟩ := hmixed.exists_ask htsi (hnone tsi htsi)
    exact protectedPaths_ne_nil_iff hpkg
  choose! found hfound using hask
  have hrun : items.mapM (protectedPaths conf) = .ok (items.map found) := Fallible.mapM_ok fun tsi htsi => (hfound tsi htsi).1
  have hiff : (items.map found).flatten ≠ [] ↔ ∃ tsi ∈ items, OwnsProtected conf tsi := by
    rw [Ne, List.flatten_eq_nil_iff, List.forall_mem_map]
    push Not
    exact ⟨fun ⟨tsi, htsi, h⟩ => ⟨tsi, htsi, (hfound tsi htsi).2.mp h⟩, fun ⟨tsi, htsi, h⟩ => ⟨tsi, htsi, (hfound tsi htsi).2.mpr h⟩⟩
  have hcheck : driftCheck conf items = refuse (!(items.map found).flatten.isEmpty) .cliError := by
    rw [driftCheck, hrun]
    rfl
  rw [hcheck, ← hiff]
  refine ⟨?_, refuse_ne (by decide)⟩
  cases hpaths : (items.map found).flatten with
  | nil => exact iff_of_false (fun h => by cases h) (not_not.mpr rfl)
  | cons path rest => exact iff_of_true rfl (List.cons_ne_nil _ _)

/-- A reason change is asked for its files. -/
theorem Mixed.driftCheck_keyError (hmixed : Mixed items) (conf : Conf) {tsi : Item} (htsi : tsi ∈ items) (haction : tsi.action = .reasonChange) :
    driftCheck conf items = .error .keyError := by
  have hrun : items.mapM (protectedPaths conf) = .error .keyError := by
    refine Fallible.mapM_error (fun other _ e' h => ?_) ⟨tsi, htsi, by rw [protectedPaths, ask, hmixed.bare tsi htsi haction]; rfl⟩
    rw [protectedPaths, ask] at h
    cases hpkg : other.pkg with
    | some pkg =>
        rw [hpkg] at h
        cases h
    | none =>
        rw [hpkg] at h
        exact (Except.error.inj h).symm
  rw [driftCheck, hrun]
  rfl

/-! ### The whole run -/

theorem bootcCheck_ne (h : (isBootcTransaction conf && conf.persistence ≠ .persist && !(!conf.writable && conf.persistence = .auto)) = true →
    driftCheck conf items ≠ .error .keyError) : bootcCheck conf items ≠ .error .keyError := by
  rw [bootcCheck]
  split_ifs with hbootc
  · by_cases hpersist : conf.persistence = .persist
    · rw [decide_eq_true hpersist]
      exact fun h => by cases h
    · by_cases hauto : (!conf.writable && conf.persistence = .auto) = true
      · rw [decide_eq_false hpersist, hauto]
        exact fun h => by cases h
      · refine Fallible.bind_ne (refuse_ne (by decide)) fun _ => Fallible.bind_ne (refuse_ne (by decide)) fun _ => h ?_
        simp [hbootc, hpersist, hauto]
  · exact refuse_ne (by decide)

theorem Mixed.baseDoTransaction_ne (hmixed : Mixed items) (conf : Conf) : baseDoTransaction conf items ≠ .error .keyError := by
  obtain ⟨installed, hinstalled⟩ := hmixed.exists_packageSet isForward rfl
  obtain ⟨removed, hremoved⟩ := hmixed.exists_packageSet isBackward rfl
  obtain ⟨banners, hbanners⟩ := hmixed.exists_verifyTransaction
  rw [baseDoTransaction, packagesOf, packagesOf, installSet, removeSet, hinstalled, hremoved, hbanners]
  cases items.isEmpty with
  | true => exact fun h => by cases h
  | false =>
      refine Fallible.bind_ne (hmixed.populateRpmTs_ne conf) fun _ => Fallible.bind_ne (refuse_ne (by decide)) fun _ => ?_
      cases conf.test with
      | true => exact fun h => by cases h
      | false => exact Fallible.bind_ne (refuse_ne (by decide)) fun _ h => by cases h

theorem Mixed.confirmed_ne (hmixed : Mixed items) (sorted : Sorted) (hcheck : bootcCheck conf items ≠ .error .keyError) :
    confirmed conf items sorted ≠ .error .keyError := by
  refine Fallible.bind_ne hcheck fun _ => Fallible.bind_ne (refuse_ne (by decide)) fun _ => Fallible.bind_ne ?_ fun _ => ?_
  · rw [download]
    split_ifs
    · exact fun h => by cases h
    · exact refuse_ne (by decide)
  · split_ifs
    · exact fun h => by cases h
    · exact Fallible.bind_ne (hmixed.baseDoTransaction_ne conf) fun _ h => by cases h

theorem Mixed.doTransaction_ne (hmixed : Mixed items) (hcheck : driftChecked conf items = true → driftCheck conf items ≠ .error .keyError) :
    doTransaction conf items ≠ .error .keyError := by
  obtain ⟨shown, hshown⟩ := hmixed.exists_listTransaction conf.output
  obtain ⟨sorted, hsorted⟩ := hmixed.exists_sortItems
  rw [doTransaction, hshown, hsorted]
  cases hswitch : !conf.moduleStreamSwitch && conf.switchedStreams with
  | true => exact fun h => by cases h
  | false =>
      refine Fallible.bind_ne (x := confirmPending conf items sorted) ?_ fun _ h => by cases h
      rw [confirmPending]
      split_ifs with hpending
      · refine hmixed.confirmed_ne sorted (bootcCheck_ne fun hgates => hcheck ?_)
        rw [driftChecked, hswitch, hpending]
        simpa only [Bool.not_false, Bool.true_and] using hgates
      · exact fun h => by cases h

theorem Mixed.doTransaction_keyError (hmixed : Mixed items) (hchecked : driftChecked conf items = true)
    (hcheck : driftCheck conf items = .error .keyError) : doTransaction conf items = .error .keyError := by
  obtain ⟨shown, hshown⟩ := hmixed.exists_listTransaction conf.output
  obtain ⟨sorted, hsorted⟩ := hmixed.exists_sortItems
  simp only [driftChecked, Bool.and_eq_true, Bool.not_eq_true', decide_eq_true_eq] at hchecked
  obtain ⟨⟨⟨⟨hswitch, hpending⟩, hbootc⟩, hpersist⟩, hauto⟩ := hchecked
  have hbootcCheck : bootcCheck conf items = .error .keyError := by
    rw [bootcCheck, if_pos hbootc, decide_eq_false hpersist, hauto, hcheck]
    rfl
  have hconfirm : confirmPending conf items sorted = .error .keyError := by
    rw [confirmPending, if_pos hpending, confirmed, hbootcCheck]
    rfl
  rw [doTransaction, hswitch, hshown, hsorted]
  exact congrArg (fun ran => ran >>= fun ran => pure (Ended.mk shown (reports conf items sorted) ran)) hconfirm

/-- A run breaks exactly where it gets to the drift check with a reason change. -/
theorem neverBreaks_iff (conf : Conf) (items : List Item) (hmixed : Mixed items) :
    NeverBreaks conf items ↔ ¬ (driftChecked conf items = true ∧ ∃ tsi ∈ items, tsi.action = .reasonChange) := by
  constructor
  · rintro hnever ⟨hchecked, tsi, htsi, haction⟩
    exact hnever.run (hmixed.doTransaction_keyError hchecked (hmixed.driftCheck_keyError conf htsi haction))
  · intro hfree
    have hdrift (hchecked : driftChecked conf items = true) :
        (driftCheck conf items = .error .cliError ↔ ∃ tsi ∈ items, OwnsProtected conf tsi) ∧ driftCheck conf items ≠ .error .keyError :=
      hmixed.driftCheck_eq conf fun tsi htsi haction => hfree ⟨hchecked, tsi, htsi, haction⟩
    obtain ⟨shown, hshown⟩ := hmixed.exists_listTransaction conf.output
    exact {
      run := hmixed.doTransaction_ne fun hchecked => (hdrift hchecked).2
      table := fun h => by rw [hshown] at h; cases h
      installed := hmixed.exists_packageSet _ rfl
      removed := hmixed.exists_packageSet _ rfl
      populated := hmixed.populateRpmTs_ne conf
      verified := hmixed.exists_verifyTransaction
      drift := fun hchecked => (hdrift hchecked).1 }

/-- Of two kernels one is removed, and the reason of the other is kept. -/
def keptKernel : List Item :=
  [⟨Transaction.Base.kernel.nevra, "@System", .remove, .user, .unknown, some Transaction.Base.kernel, none⟩,
    ⟨Transaction.Base.kernelNew.nevra, "main", .reasonChange, .user, .done, none, none⟩]

/-- A transient transaction on a bootc system without protected paths. -/
def bootcConf : Conf where
  output := spiceOutput
  moduleStreamSwitch := false
  switchedStreams := false
  downloadonly := false
  bootcSystem := true
  installrootIsRoot := true
  persistence := .transient
  writable := false
  usrDriftProtectedPaths := []
  files _ := ["/boot/vmlinuz"]
  size _ := some 0
  installsize _ := some 0
  verifyLocalPkg _ := some false
  promptRefused := false
  downloadFails := false
  gpgFails := false
  hasHeader _ := true
  testFailSafe _ := false
  checkFails := false
  testFails := false
  test := false
  runFails := false

theorem keptKernel_mixed : Mixed keptKernel := by
  constructor
  · unfold Attached
    decide
  · decide

theorem neverBreaks_iff_kernel : NeverBreaks bootcConf keptKernel ↔
    ¬ (driftChecked bootcConf keptKernel = true ∧ ∃ tsi ∈ keptKernel, tsi.action = .reasonChange) :=
  neverBreaks_iff bootcConf keptKernel keptKernel_mixed

/-- The removal is refused with a `KeyError`, though no path is protected. -/
theorem keptKernel_not_neverBreaks : Mixed keptKernel ∧ ¬ NeverBreaks bootcConf keptKernel ∧
    doTransaction bootcConf keptKernel = .error .keyError := by
  have hcheck : driftCheck bootcConf keptKernel = .error .keyError :=
    keptKernel_mixed.driftCheck_keyError bootcConf (List.mem_cons_of_mem _ List.mem_cons_self) rfl
  have hrun := keptKernel_mixed.doTransaction_keyError (by decide) hcheck
  exact ⟨keptKernel_mixed, fun h => h.run hrun, hrun⟩

/-! ### Items of the goal -/

theorem record_bare {swdb : Transaction.Swdb} {before : List Item} {entries : List Transaction.Entry}
    (hbefore : ∀ item ∈ before, item.action = .reasonChange → item.pkg = none) (hproper : ∀ entry ∈ entries, entry.Proper) :
    ∀ item ∈ Transaction.record swdb before entries, item.action = .reasonChange → item.pkg = none := by
  refine Transaction.forall_mem_record hbefore fun entry hentry n item hitem haction => ?_
  have hentry := hproper entry hentry
  cases entry with
  | remove pkg reason =>
      rw [List.mem_singleton.mp hitem] at haction
      cases haction
  | change pkg reason => rw [List.mem_singleton.mp hitem]
  | add pkg action reason replaced =>
      rcases List.mem_cons.mp hitem with rfl | hitem
      · exact absurd haction (ne_reasonChange_of_forward hentry.1)
      · obtain ⟨old, hold, rfl⟩ := List.mem_map.mp hitem
        exact absurd haction (ne_reasonChange_of_backward (hentry.2 old hold))

theorem runSteps_bare {swdb : Transaction.Swdb} {steps : List Transaction.Step}
    (hproper : ∀ entries, .ok entries ∈ steps → ∀ entry ∈ entries, entry.Proper) {before : List Item}
    (hbefore : ∀ item ∈ before, item.action = .reasonChange → item.pkg = none) :
    ∀ item ∈ Effect.final (Transaction.runSteps swdb steps before), item.action = .reasonChange → item.pkg = none := by
  induction steps generalizing before with
  | nil => exact hbefore
  | cons step rest ih =>
      cases step with
      | error e => exact hbefore
      | ok entries =>
          exact ih (fun entries' hentries' => hproper entries' (List.mem_cons_of_mem _ hentries'))
            (record_bare hbefore (hproper entries List.mem_cons_self))

/-- The items of any goal, after those of `set_reason`. -/
theorem goal2transaction_mixed (base : Transaction.Base) (goal : Transaction.Goal) {before : List Item} (hbefore : Mixed before) :
    Mixed (Effect.final (base.goal2transaction goal before)) := by
  rw [Transaction.Base.goal2transaction_eq]
  exact {
    attached := runSteps_attached base.swdb _ hbefore.attached
    bare := runSteps_bare (fun entries hstep entry hentry => (Transaction.Base.records_of_mem_steps hstep hentry).proper) hbefore.bare }

end Dnf.Cli.DoTransaction
