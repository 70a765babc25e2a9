import Dnf.Shell.Session
import Dnf.Transaction.Conservation

/-!
# The transaction of the last resolve

The open history transaction is created once and emptied by a reset, and every resolve appends to it. How many items a goal appends does not depend on what is there, so the items after a resolve are those of its goal exactly where there were none before. A session therefore starts with the right transaction, keeps it up as long as its events record nothing, and loses it with the second goal that records something.
-/

namespace Dnf.Shell

open Foundation Foundation.Effect
open Transaction (Item Goal Package Entry Step record recorded raised runSteps_eq length_record)
open Transaction.Base (reinstallObsoletes reinstallObsoletes_ne_nil pickUpgraded pickUpgraded_isSome)

variable {Job Change : Type} (base : Transaction.Base)

/-! ### What a goal records -/

/-- A goal that records nothing: it lists no package, or nothing is replaced by the first one, which had to replace something. -/
def silent (goal : Goal) : Bool :=
  match goal.listDowngrades, goal.listReinstalls, goal.listInstalls, goal.listUpgrades with
  | pkg :: _, _, _, _ => (goal.obsoletedByPackage pkg).isEmpty
  | [], pkg :: _, _, _ => (goal.obsoletedByPackage pkg).isEmpty
  | [], [], _ :: _, _ => false
  | [], [], [], pkg :: _ => (goal.obsoletedByPackage pkg).isEmpty
  | [], [], [], [] => goal.listErasures.isEmpty

theorem recorded_downgrade (goal : Goal) (pkg : Package) (rest : List Step) :
    recorded (base.downgradeStep goal pkg :: rest) = [] ↔ goal.obsoletedByPackage pkg = [] := by
  rw [Transaction.Base.downgradeStep]
  cases goal.obsoletedByPackage pkg with
  | nil => exact iff_of_true rfl rfl
  | cons old obs => exact iff_of_false (List.cons_ne_nil _ _) (List.cons_ne_nil _ _)

theorem recorded_reinstall (goal : Goal) (pkg : Package) (rest : List Step) :
    recorded (base.reinstallStep goal pkg :: rest) = [] ↔ goal.obsoletedByPackage pkg = [] := by
  rw [Transaction.Base.reinstallStep]
  by_cases hobs : goal.obsoletedByPackage pkg = []
  · have hnil : reinstallObsoletes goal pkg = [] := by rw [reinstallObsoletes, hobs, List.foldl_nil]
    rw [hnil]
    exact iff_of_true rfl hobs
  · obtain ⟨old, obs, hcons⟩ := List.exists_cons_of_ne_nil (reinstallObsoletes_ne_nil hobs)
    rw [hcons]
    exact iff_of_false (List.cons_ne_nil _ _) hobs

theorem recorded_upgrade (goal : Goal) (pkg : Package) (rest : List Step) :
    recorded (base.upgradeStep goal pkg :: rest) = [] ↔ goal.obsoletedByPackage pkg = [] := by
  rw [Transaction.Base.upgradeStep]
  by_cases hobs : goal.obsoletedByPackage pkg = []
  · rw [hobs]
    exact iff_of_true rfl rfl
  · obtain ⟨upgraded, obs, hpick⟩ := pickUpgraded_isSome pkg hobs
    rw [hpick]
    exact iff_of_false (List.cons_ne_nil _ _) hobs

theorem recorded_steps_eq_nil_iff (goal : Goal) : recorded (base.steps goal) = [] ↔ silent goal = true := by
  rw [Transaction.Base.steps, silent]
  cases goal.listDowngrades with
  | cons pkg rest => exact (recorded_downgrade base goal pkg _).trans List.isEmpty_iff.symm
  | nil =>
      cases goal.listReinstalls with
      | cons pkg rest => exact (recorded_reinstall base goal pkg _).trans List.isEmpty_iff.symm
      | nil =>
          cases goal.listInstalls with
          | cons pkg rest => exact iff_of_false (List.cons_ne_nil _ _) Bool.false_ne_true
          | nil =>
              cases goal.listUpgrades with
              | cons pkg rest => exact (recorded_upgrade base goal pkg _).trans List.isEmpty_iff.symm
              | nil =>
                  cases goal.listErasures with
                  | nil => exact iff_of_true rfl rfl
                  | cons pkg rest =>
                      refine iff_of_false (fun hnil => ?_) Bool.false_ne_true
                      rw [List.map_nil, List.nil_append, List.map_nil, List.nil_append, List.map_nil, List.nil_append, List.map_nil, List.nil_append,
                        List.map_cons, recorded, Transaction.Base.eraseEntries, List.append_assoc, List.append_eq_nil_iff] at hnil
                      exact List.cons_ne_nil _ _ hnil.2

theorem final_goal2transaction (goal : Goal) (items : List Item) :
    final (base.goal2transaction goal items) = record base.swdb items (recorded (base.steps goal)) := by
  rw [Transaction.Base.goal2transaction_eq, runSteps_eq]
  cases raised (base.steps goal) <;> rfl

theorem record_eq_nil_iff {swdb : Transaction.Swdb} {items : List Item} {entries : List Entry} :
    record swdb items entries = [] ↔ items = [] ∧ entries = [] := by
  refine ⟨fun hnil => ?_, fun ⟨hitems, hentries⟩ => by rw [hitems, hentries]; rfl⟩
  induction entries using List.reverseRecOn with
  | nil => exact ⟨hnil, rfl⟩
  | append_singleton entries entry ih =>
      rw [Transaction.record_concat, List.append_eq_nil_iff] at hnil
      exact absurd hnil.2 (List.ne_nil_of_length_pos (entry.items_length_pos swdb _))

/-- A goal leaves no item exactly where there was none and it records none. -/
theorem final_goal2transaction_eq_nil_iff (goal : Goal) (items : List Item) :
    final (base.goal2transaction goal items) = [] ↔ items = [] ∧ silent goal = true := by
  rw [final_goal2transaction, record_eq_nil_iff, recorded_steps_eq_nil_iff]

/-- The items of a goal are those it has in an empty transaction exactly where the transaction is empty. -/
theorem goal2transaction_from_nil_iff {goal : Goal} {before items : List Item} (hrun : base.goal2transaction goal before = .ok () items) :
    base.goal2transaction goal [] = .ok () items ↔ before = [] := by
  rw [Transaction.Base.goal2transaction_eq, runSteps_eq] at hrun ⊢
  cases hraised : raised (base.steps goal) with
  | some e =>
      rw [hraised] at hrun
      cases hrun
  | none =>
      rw [hraised] at hrun
      obtain rfl : record base.swdb before (recorded (base.steps goal)) = items := by
        injection hrun
      refine ⟨fun hnil => ?_, fun hbefore => by rw [hbefore]⟩
      injection hnil with _ hitems
      have hlength := length_record base.swdb before (recorded (base.steps goal))
      rw [← hitems] at hlength
      exact List.length_eq_zero_iff.mp (by omega)

/-! ### Resolves -/

/-- The items after a resolve are those of its goal, however it ends. -/
theorem final_resolve_rpm {resolver : Resolver Job Change} {s : Session Job Change} {goal : Goal} (hrun : resolver.run (resolver.prepared s) = some goal) :
    (final (resolve base resolver s)).rpm = final (base.goal2transaction goal s.rpm) := by
  rw [resolve_solved base hrun]
  cases base.goal2transaction goal s.rpm with
  | error e items => rfl
  | ok _ items =>
      dsimp only
      cases ((resolver.prepared s).setTransaction items).limitation <;> rfl

/-- A resolve that succeeds has a goal, and its items are what the goal adds. -/
theorem resolve_ok {resolver : Resolver Job Change} {s t : Session Job Change} {got : Bool} (hok : resolve base resolver s = .ok got t) :
    ∃ goal, resolver.run (resolver.prepared s) = some goal ∧ base.goal2transaction goal s.rpm = .ok () t.rpm := by
  cases hrun : resolver.run (resolver.prepared s) with
  | none =>
      rw [resolve_unsolvable base hrun] at hok
      cases hok
  | some goal =>
      refine ⟨goal, rfl, ?_⟩
      rw [resolve_solved base hrun] at hok
      cases hitems : base.goal2transaction goal s.rpm with
      | error e items =>
          rw [hitems] at hok
          cases hok
      | ok _ items =>
          rw [hitems] at hok
          dsimp only at hok
          cases hlimit : ((resolver.prepared s).setTransaction items).limitation with
          | some e =>
              rw [hlimit] at hok
              cases hok
          | none =>
              rw [hlimit] at hok
              cases hok
              rfl

/-! ### Requests and resolves -/

inductive Event (Job Change : Type)
  | request (marks : List (Mark Job Change))
  | resolve (resolver : Resolver Job Change)

/-- The caller goes on after an exception. -/
def Session.event (s : Session Job Change) : Event Job Change → Session Job Change
  | .request marks => s.marks base marks
  | .resolve resolver => final (resolve base resolver s)

def Session.after (s : Session Job Change) (events : List (Event Job Change)) : Session Job Change := events.foldl (Session.event base) s

/-- An event that adds no package item: the request changes no reason, the goal is unsolvable or records nothing. -/
def Event.Silent (s : Session Job Change) : Event Job Change → Prop
  | .request marks => ∀ mark ∈ marks, mark.isReason = false
  | .resolve resolver => ∀ goal, resolver.run (resolver.prepared s) = some goal → silent goal = true

theorem mark_rpm_eq_nil_iff (s : Session Job Change) (mark : Mark Job Change) : (s.mark base mark).rpm = [] ↔ s.rpm = [] ∧ mark.isReason = false := by
  cases mark with
  | reason pkg reason => exact iff_of_false (List.append_ne_nil_of_right_ne_nil _ (List.cons_ne_nil _ _)) fun h => Bool.noConfusion h.2
  | _ => exact (and_iff_left rfl).symm

theorem marks_rpm_eq_nil_iff (s : Session Job Change) (marks : List (Mark Job Change)) :
    (s.marks base marks).rpm = [] ↔ s.rpm = [] ∧ ∀ mark ∈ marks, mark.isReason = false := by
  induction marks generalizing s with
  | nil => exact (and_iff_left fun mark hmark => absurd hmark List.not_mem_nil).symm
  | cons mark rest ih =>
      rw [Session.marks, List.foldl_cons, ← Session.marks, ih, mark_rpm_eq_nil_iff, List.forall_mem_cons, and_assoc]

theorem event_rpm_eq_nil_iff (s : Session Job Change) (event : Event Job Change) : (s.event base event).rpm = [] ↔ s.rpm = [] ∧ event.Silent s := by
  cases event with
  | request marks => exact marks_rpm_eq_nil_iff base s marks
  | resolve resolver =>
      rw [Session.event, Event.Silent]
      cases hrun : resolver.run (resolver.prepared s) with
      | none =>
          rw [resolve_unsolvable base hrun]
          exact (and_iff_left fun goal hgoal => by cases hgoal).symm
      | some goal =>
          rw [final_resolve_rpm base hrun, final_goal2transaction_eq_nil_iff]
          exact and_congr_right fun _ => ⟨fun hsilent goal' hgoal' => by cases hgoal'; exact hsilent, fun h => h goal rfl⟩

/-- There are no items as long as every event was silent. -/
theorem after_rpm_eq_nil_iff {start : Session Job Change} (hstart : start.rpm = []) (events : List (Event Job Change)) :
    (start.after base events).rpm = [] ↔ ∀ before event later, events = before ++ event :: later → event.Silent (start.after base before) := by
  induction events using List.reverseRecOn with
  | nil => exact iff_of_true hstart fun before event later heq => absurd heq (by simp)
  | append_singleton events last ih =>
      rw [Session.after, List.foldl_append, List.foldl_cons, List.foldl_nil, ← Session.after, event_rpm_eq_nil_iff, ih]
      constructor
      · rintro ⟨hearlier, hlast⟩ before event later heq
        rcases List.eq_nil_or_concat later with rfl | ⟨later, other, rfl⟩
        · obtain ⟨hbefore, hcons⟩ := List.append_inj' heq rfl
          rw [List.cons.injEq] at hcons
          rw [← hbefore, ← hcons.1]
          exact hlast
        · rw [List.concat_eq_append, ← List.cons_append, ← List.append_assoc] at heq
          exact hearlier before event later (List.append_inj' heq rfl).1
      · intro h
        refine ⟨fun before event later heq => h before event (later ++ [last]) (by rw [heq, List.append_assoc, List.cons_append]), h events last [] rfl⟩

/-- After a resolve that succeeds the items are those its goal has in an empty transaction. -/
def Derived (s : Session Job Change) (resolver : Resolver Job Change) : Prop :=
  ∀ got t, resolve base resolver s = .ok got t → ∃ goal, resolver.run (resolver.prepared s) = some goal ∧ base.goal2transaction goal [] = .ok () t.rpm

theorem derived_iff {s : Session Job Change} {resolver : Resolver Job Change} :
    Derived base s resolver ↔ ((∃ got t, resolve base resolver s = .ok got t) → s.rpm = []) := by
  constructor
  · rintro hderived ⟨got, t, hok⟩
    obtain ⟨goal, hrun, hitems⟩ := resolve_ok base hok
    obtain ⟨goal', hrun', hderived⟩ := hderived got t hok
    rw [hrun, Option.some.injEq] at hrun'
    subst hrun'
    exact (goal2transaction_from_nil_iff base hitems).mp hderived
  · intro hnil got t hok
    obtain ⟨goal, hrun, hitems⟩ := resolve_ok base hok
    exact ⟨goal, hrun, (goal2transaction_from_nil_iff base hitems).mpr (hnil ⟨got, t, hok⟩)⟩

def spiceResolver : Resolver Unit Unit := ⟨fun _ => [], fun _ => some Transaction.Base.spiceGoal, fun _ _ => []⟩

end Dnf.Shell
