import Mathlib.Data.Finset.Basic
import Mathlib.Data.List.Basic

/-!
# How the history shows what failed

`history list` has a place for two marks. A transaction that is not done gets `#` in both, and a change of the rpm database before or after it takes one of them away. `history info` says `Success` or gives the codes, and reads the codes of a merged block with `not all`, where one code of zero is enough.
-/

namespace Dnf.Cli.HistoryOutcomes

/-- `libdnf.transaction.TransactionItemState`, which is also the state of a transaction. -/
inductive State
  | unknown
  | done
  | error
  deriving DecidableEq

/-- A recorded transaction. `isOutput` is whether there is console output. -/
structure Trans where
  tid : Nat
  state : State
  isOutput : Bool
  rpmdbVersionBegin : String
  rpmdbVersionEnd : String
  deriving DecidableEq

/-- `TransactionWrapper.return_code` -/
def Trans.returnCode (transaction : Trans) : Nat := if transaction.state ≠ .done then 1 else 0

/-! ### `history list` -/

/-- A `TransactionWrapper` with its two flags. -/
structure Listed where
  transaction : Trans
  alteredLtRpmdb : Bool
  alteredGtRpmdb : Bool

/-- The flags that `SwdbInterface.old` sets: each version is compared with that of the neighbour in the list. -/
def populate (previous : Option Trans) : List Trans → List Listed
  | [] => []
  | transaction :: rest =>
      { transaction := transaction
        alteredLtRpmdb := previous.any fun other => transaction.rpmdbVersionBegin ≠ other.rpmdbVersionEnd
        alteredGtRpmdb := rest.head?.any fun other => other.rpmdbVersionBegin ≠ transaction.rpmdbVersionEnd } ::
      populate (some transaction) rest

/-- The requested transactions, all of them when none is named. -/
def requested (history : List Trans) (tids : Finset Int) : List Trans :=
  if tids = ∅ then history else history.filter fun transaction => (transaction.tid : Int) ∈ tids

/-- `SwdbInterface.old` -/
def old (history : List Trans) (tids : Finset Int) : List Listed := (populate none (requested history tids)).reverse

/-- `lmark` and `rmark` of `historyListCmd`. -/
def Listed.marks (listed : Listed) : Char × Char :=
  let mark := if listed.transaction.returnCode ≠ 0 then '#' else if listed.transaction.isOutput then 'E' else ' '
  (if listed.alteredGtRpmdb then '>' else mark, if listed.alteredLtRpmdb then '<' else mark)

/-- A line of the table: its transaction and its marks. -/
def historyListCmd (history : List Trans) (tids : Finset Int) (reverse : Bool) : List (Trans × Char × Char) :=
  let transactions := if reverse then (old history tids).reverse else old history tids
  transactions.map fun listed => (listed.transaction, listed.marks)

/-! ### `history info` -/

/-- What `_historyInfoCmd` shows: a transaction, or a block that a first one was merged with others into. -/
inductive Wrapper
  | single (transaction : Trans)
  | merged (first : Trans) (rest : List Trans)

def Wrapper.transactions : Wrapper → List Trans
  | .single transaction => [transaction]
  | .merged first rest => first :: rest

/-- The line `Return-Code    :`. -/
inductive CodeLine
  | success
  | failure (code : Nat)
  | failures (codes : List Nat)
  deriving DecidableEq

/-- The choice of the line. The codes are numbers, so `Aborted` is never printed. -/
def Wrapper.codeLine : Wrapper → CodeLine
  | .single transaction => if transaction.returnCode ≠ 0 then .failure transaction.returnCode else .success
  | .merged first rest =>
      let codes := (first :: rest).map Trans.returnCode
      if !codes.all (· ≠ 0) then .success else .failures codes

/-- The line with the codes. -/
def Wrapper.failureLine : Wrapper → CodeLine
  | .single transaction => .failure transaction.returnCode
  | .merged first rest => .failures ((first :: rest).map Trans.returnCode)

/-! ### What is shown rightly -/

def AllDone (transactions : List Trans) : Prop := ∀ transaction ∈ transactions, transaction.state = .done

instance (transactions : List Trans) : Decidable (AllDone transactions) := inferInstanceAs (Decidable (∀ transaction ∈ transactions, _))

/-- `Success` for what is done as a whole, and the codes for the rest. -/
def Wrapper.ShowsRightly (shown : Wrapper) : Prop :=
  shown.codeLine = if AllDone shown.transactions then .success else shown.failureLine

/-- The lines are those of the requested transactions, and `#` stands in those of the transactions that are not done. -/
def ListsRightly (history : List Trans) (tids : Finset Int) (reverse : Bool) : Prop :=
  (historyListCmd history tids reverse).map (·.1) =
      (if reverse then requested history tids else (requested history tids).reverse) ∧
    ∀ row ∈ historyListCmd history tids reverse, (row.2.1 = '#' ∨ row.2.2 = '#') ↔ row.1.state ≠ .done

/-- A transaction that is not done, with a gap to the one before it and to the one after it. -/
def HiddenBetween (previous transaction next : Trans) : Prop :=
  transaction.state ≠ .done ∧ transaction.rpmdbVersionBegin ≠ previous.rpmdbVersionEnd ∧ next.rpmdbVersionBegin ≠ transaction.rpmdbVersionEnd

theorem returnCode_ne_zero_iff {transaction : Trans} : transaction.returnCode ≠ 0 ↔ transaction.state ≠ .done := by
  rw [Trans.returnCode]
  by_cases hdone : transaction.state = .done
  · rw [if_neg (not_not.mpr hdone)]
    exact ⟨fun h => absurd rfl h, fun h => absurd hdone h⟩
  · rw [if_pos hdone]
    exact ⟨fun _ => hdone, fun _ => by decide⟩

/-- A mark is `#` unless the transaction is done or both marks are taken. -/
theorem marks_eq_hash_iff (listed : Listed) : (listed.marks.1 = '#' ∨ listed.marks.2 = '#') ↔
    listed.transaction.state ≠ .done ∧ ¬ (listed.alteredLtRpmdb = true ∧ listed.alteredGtRpmdb = true) := by
  rw [Listed.marks, ← returnCode_ne_zero_iff]
  by_cases hcode : listed.transaction.returnCode ≠ 0
  · rw [if_pos hcode]
    cases listed.alteredLtRpmdb <;> cases listed.alteredGtRpmdb <;> simp [hcode]
  · rw [if_neg hcode]
    cases listed.alteredLtRpmdb <;> cases listed.alteredGtRpmdb <;> cases listed.transaction.isOutput <;> simp [hcode]

theorem populate_transaction (previous : Option Trans) (transactions : List Trans) :
    (populate previous transactions).map Listed.transaction = transactions := by
  induction transactions generalizing previous with
  | nil => simp [populate]
  | cons transaction rest ih => rw [populate, List.map_cons, ih]

/-- Somewhere in the list there is a transaction that is hidden between its neighbours. -/
def Hides (transactions : List Trans) : Prop :=
  ∃ front previous transaction next back, transactions = front ++ previous :: transaction :: next :: back ∧
    HiddenBetween previous transaction next

theorem hides_cons_iff {first : Trans} {transactions : List Trans} : Hides (first :: transactions) ↔
    (∃ transaction next back, transactions = transaction :: next :: back ∧ HiddenBetween first transaction next) ∨
      Hides transactions := by
  constructor
  · rintro ⟨front, previous, transaction, next, back, heq, hidden⟩
    cases front with
    | nil =>
        obtain ⟨rfl, hrest⟩ := List.cons.inj heq
        exact Or.inl ⟨transaction, next, back, hrest, hidden⟩
    | cons head front => exact Or.inr ⟨front, previous, transaction, next, back, (List.cons.inj heq).2, hidden⟩
  · rintro (⟨transaction, next, back, rfl, hidden⟩ | ⟨front, previous, transaction, next, back, rfl, hidden⟩)
    · exact ⟨[], first, transaction, next, back, rfl, hidden⟩
    · exact ⟨first :: front, previous, transaction, next, back, rfl, hidden⟩

/-- A transaction that is not done has both flags. -/
def Listed.Covered (listed : Listed) : Prop :=
  listed.transaction.state ≠ .done ∧ listed.alteredLtRpmdb = true ∧ listed.alteredGtRpmdb = true

theorem covered_iff (previous : Option Trans) (transaction : Trans) (rest : List Trans) :
    Listed.Covered ⟨transaction, previous.any fun other => transaction.rpmdbVersionBegin ≠ other.rpmdbVersionEnd,
      rest.head?.any fun other => other.rpmdbVersionBegin ≠ transaction.rpmdbVersionEnd⟩ ↔
      ∃ before next back, previous = some before ∧ rest = next :: back ∧ HiddenBetween before transaction next := by
  cases previous with
  | none => simp [Listed.Covered]
  | some before =>
      cases rest with
      | nil => simp [Listed.Covered]
      | cons next back => simp [Listed.Covered, HiddenBetween]

theorem exists_covered_iff (previous : Option Trans) (transactions : List Trans) :
    (∃ listed ∈ populate previous transactions, listed.Covered) ↔ Hides (previous.toList ++ transactions) := by
  induction transactions generalizing previous with
  | nil =>
      have hnone : ∀ transactions : List Trans, transactions.length ≤ 1 → ¬ Hides transactions := by
        rintro transactions hlength ⟨front, before, transaction, next, back, rfl, -⟩
        simp only [List.length_append, List.length_cons] at hlength
        omega
      refine iff_of_false (by simp [populate]) (hnone _ ?_)
      cases previous <;> simp
  | cons transaction rest ih =>
      have htail := ih (some transaction)
      rw [Option.toList_some, List.singleton_append] at htail
      rw [populate, List.exists_mem_cons_iff, covered_iff, htail]
      cases previous with
      | none => simp
      | some before =>
          rw [Option.toList_some, List.singleton_append, @hides_cons_iff before]
          simp

/-! ### The two commands -/

theorem mem_historyListCmd {history : List Trans} {tids : Finset Int} {reverse : Bool} {row : Trans × Char × Char} :
    row ∈ historyListCmd history tids reverse ↔
      ∃ listed ∈ populate none (requested history tids), (listed.transaction, listed.marks) = row := by
  cases reverse <;> simp [historyListCmd, old]

theorem historyListCmd_transactions (history : List Trans) (tids : Finset Int) (reverse : Bool) :
    (historyListCmd history tids reverse).map (·.1) =
      if reverse then requested history tids else (requested history tids).reverse := by
  have hmap : ∀ rows : List Listed, (rows.map fun listed => (listed.transaction, listed.marks)).map (·.1) =
      rows.map Listed.transaction := fun rows => List.map_map
  cases reverse with
  | false =>
      rw [historyListCmd, old, hmap, if_neg (by decide), if_neg (by decide), List.map_reverse, populate_transaction]
  | true =>
      rw [historyListCmd, old, hmap, if_pos rfl, if_pos rfl, List.reverse_reverse, populate_transaction]

theorem listsRightly_iff (history : List Trans) (tids : Finset Int) (reverse : Bool) :
    ListsRightly history tids reverse ↔ ¬ Hides (requested history tids) := by
  have hhides := exists_covered_iff none (requested history tids)
  rw [Option.toList_none, List.nil_append] at hhides
  rw [← hhides, ListsRightly, and_iff_right (historyListCmd_transactions history tids reverse)]
  constructor
  · rintro h ⟨listed, hlisted, hstate, hcovered⟩
    have hrow := h _ (mem_historyListCmd.mpr ⟨listed, hlisted, rfl⟩)
    exact ((marks_eq_hash_iff listed).mp (hrow.mpr hstate)).2 hcovered
  · intro h row hrow
    obtain ⟨listed, hlisted, rfl⟩ := mem_historyListCmd.mp hrow
    rw [marks_eq_hash_iff]
    exact ⟨fun hmark => hmark.1, fun hstate => ⟨hstate, fun hboth => h ⟨listed, hlisted, hstate, hboth⟩⟩⟩

/-- A transaction, or a block whose transactions are all done or all not done. -/
def Wrapper.Uniform : Wrapper → Prop
  | .single _ => True
  | .merged first rest => AllDone (first :: rest) ∨ ∀ transaction ∈ first :: rest, transaction.state ≠ .done

theorem all_codes_iff (transactions : List Trans) :
    (transactions.map Trans.returnCode).all (· ≠ 0) = true ↔ ∀ transaction ∈ transactions, transaction.state ≠ .done := by
  rw [List.all_map, List.all_eq_true]
  simp only [Function.comp_apply, decide_eq_true_eq, returnCode_ne_zero_iff]

theorem showsRightly_iff (shown : Wrapper) : shown.ShowsRightly ↔ shown.Uniform := by
  cases shown with
  | single transaction =>
      refine iff_of_true ?_ trivial
      rw [Wrapper.ShowsRightly, Wrapper.codeLine, Wrapper.transactions]
      by_cases hdone : transaction.state = .done
      · have hall : AllDone [transaction] := fun other hother => List.mem_singleton.mp hother ▸ hdone
        rw [if_neg fun h => returnCode_ne_zero_iff.mp h hdone, if_pos hall]
      · have hall : ¬ AllDone [transaction] := fun h => hdone (h transaction (List.mem_singleton_self _))
        rw [if_pos (returnCode_ne_zero_iff.mpr hdone), if_neg hall]
        rfl
  | merged first rest =>
      have hfirst : first ∈ first :: rest := List.mem_cons_self ..
      rw [Wrapper.ShowsRightly, Wrapper.codeLine, Wrapper.transactions, Wrapper.Uniform]
      by_cases hnone : ∀ transaction ∈ first :: rest, transaction.state ≠ .done
      · -- every code is set: the codes are printed, and have to be
        have hall : ¬ AllDone (first :: rest) := fun h => hnone first hfirst (h first hfirst)
        simp only [(all_codes_iff _).mpr hnone, if_neg hall]
        exact iff_of_true rfl (Or.inr hnone)
      · -- one code is zero: `Success`
        have hcodes : ((first :: rest).map Trans.returnCode).all (· ≠ 0) = false := by
          rw [Bool.eq_false_iff]
          exact fun h => hnone ((all_codes_iff _).mp h)
        simp only [hcodes, or_iff_left hnone]
        by_cases hall : AllDone (first :: rest)
        · rw [if_pos hall]
          exact iff_of_true rfl hall
        · rw [if_neg hall]
          refine iff_of_false (fun h => ?_) hall
          cases h

end Dnf.Cli.HistoryOutcomes
