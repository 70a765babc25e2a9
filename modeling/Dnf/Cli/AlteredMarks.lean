import Dnf.Cli.HistoryOutcomes

/-!
# Marks of transactions whose neighbours were not asked for

`SwdbInterface.old` leaves out what was not asked for and then compares each transaction with its neighbour in what is left. The marks are about the history as a whole, where a transaction begins with the rpm database that the one before it has left. Both agree if nothing is left out next to a transaction, or if the comparison happens to give the same answer with the nearest transaction that is left.
-/

namespace Dnf.Cli.HistoryOutcomes

/-- `not tids or i.tid in tids` -/
def selected (tids : Finset Int) (transaction : Trans) : Bool := tids = ∅ || (transaction.tid : Int) ∈ tids

theorem requested_eq (history : List Trans) (tids : Finset Int) : requested history tids = history.filter (selected tids) := by
  rw [requested]
  split_ifs with hempty
  · exact (List.filter_eq_self.mpr fun transaction _ => by rw [selected, decide_eq_true hempty, Bool.true_or]).symm
  · refine List.filter_congr fun transaction _ => ?_
    rw [selected, decide_eq_false hempty, Bool.false_or]

/-! ### The whole history -/

/-- A transaction and those immediately before and after it. -/
structure Place where
  previous : Option Trans
  transaction : Trans
  next : Option Trans

def places (previous : Option Trans) : List Trans → List Place
  | [] => []
  | transaction :: rest => ⟨previous, transaction, rest.head?⟩ :: places (some transaction) rest

/-- The rpm database was changed between the two transactions. -/
def Altered (previous transaction : Trans) : Prop := transaction.rpmdbVersionBegin ≠ previous.rpmdbVersionEnd

instance (previous transaction : Trans) : Decidable (Altered previous transaction) := inferInstanceAs (Decidable (_ ≠ _))

def Place.listed (place : Place) : Listed where
  transaction := place.transaction
  alteredLtRpmdb := place.previous.any fun other => Altered other place.transaction
  alteredGtRpmdb := place.next.any fun other => Altered place.transaction other

/-- The selected transactions, newest first, with the marks that they have in the whole history. -/
def MarksNeighbours (history : List Trans) (tids : Finset Int) : Prop :=
  old history tids = (((places none history).filter fun place => selected tids place.transaction).map Place.listed).reverse

/-! ### The nearest transactions that are left -/

/-- Where the transaction next to a selected one is left out, the nearest selected one stands for it. -/
def LeavesOutNoGap (history : List Trans) (tids : Finset Int) : Prop :=
  ∀ front transaction back, history = front ++ transaction :: back → selected tids transaction = true →
    (∀ other, front.getLast? = some other → selected tids other = false →
      (Altered other transaction ↔ ∃ nearest, (front.filter (selected tids)).getLast? = some nearest ∧ Altered nearest transaction)) ∧
    (∀ other, back.head? = some other → selected tids other = false →
      (Altered transaction other ↔ ∃ nearest, (back.filter (selected tids)).head? = some nearest ∧ Altered transaction nearest))

section Nearest

variable (keep : Trans → Bool)

/-- The comparisons with the neighbours and those with the nearest transactions that are kept. -/
def Nearest (before : List Trans) (transaction : Trans) (back : List Trans) : Prop :=
  ((before.filter keep).getLast?.any fun other => Altered other transaction) = before.getLast?.any (fun other => Altered other transaction) ∧
    ((back.filter keep).head?.any fun other => Altered transaction other) = back.head?.any fun other => Altered transaction other

variable {keep}

theorem getLast?_filter_concat (before : List Trans) {other : Trans} (h : keep other = true) :
    ((before ++ [other]).filter keep).getLast? = some other := by
  rw [List.filter_append, List.filter_singleton, h]
  exact List.getLast?_concat

theorem filter_concat_of_not (before : List Trans) {other : Trans} (h : keep other = false) :
    (before ++ [other]).filter keep = before.filter keep := by
  rw [List.filter_append, List.filter_singleton, h]
  exact List.append_nil _

theorem any_iff {transactions : Option Trans} {test : Trans → Bool} : transactions.any test = true ↔ ∃ other, transactions = some other ∧ test other = true := by
  cases transactions with
  | none => simp
  | some other => simp

/-- A neighbour that is kept is the nearest one; only one that is left out makes a difference. -/
theorem any_nearest_iff (keep : Trans → Bool) {nearest next : Option Trans} {test : Trans → Bool} (hnone : next = none → nearest = none)
    (hkept : ∀ other, next = some other → keep other = true → nearest = some other) :
    nearest.any test = next.any test ↔
      ∀ other, next = some other → keep other = false → (test other = true ↔ ∃ left, nearest = some left ∧ test left = true) := by
  cases next with
  | none =>
      rw [hnone rfl]
      exact iff_of_true rfl fun other hother => by cases hother
  | some other =>
      have hany : (some other).any test = test other := rfl
      cases hkeep : keep other with
      | true =>
          rw [hkept other rfl hkeep]
          refine iff_of_true rfl fun other' hother' hnot => ?_
          rw [← Option.some.inj hother', hkeep] at hnot
          cases hnot
      | false =>
          rw [Bool.eq_iff_iff, any_iff, hany]
          constructor
          · rintro hsame other' hother' -
            rw [← Option.some.inj hother']
            exact hsame.symm
          · exact fun h => (h other rfl hkeep).symm

theorem nearest_iff {before : List Trans} {transaction : Trans} {back : List Trans} :
    Nearest keep before transaction back ↔
      (∀ other, before.getLast? = some other → keep other = false →
        (Altered other transaction ↔ ∃ nearest, (before.filter keep).getLast? = some nearest ∧ Altered nearest transaction)) ∧
      (∀ other, back.head? = some other → keep other = false →
        (Altered transaction other ↔ ∃ nearest, (back.filter keep).head? = some nearest ∧ Altered transaction nearest)) := by
  rw [Nearest, any_nearest_iff keep, any_nearest_iff keep]
  · simp only [decide_eq_true_eq]
  · intro hnone
    rw [List.head?_eq_none_iff.mp hnone]
    rfl
  · intro other hother hkeep
    obtain ⟨rest, rfl⟩ := List.head?_eq_some_iff.mp hother
    rw [List.filter_cons_of_pos hkeep]
    rfl
  · intro hnone
    rw [List.getLast?_eq_none_iff.mp hnone]
    rfl
  · intro other hother hkeep
    obtain ⟨front, rfl⟩ := List.getLast?_eq_some_iff.mp hother
    exact getLast?_filter_concat front hkeep

/-- Each transaction that is kept is compared as it is in the whole list, `before` being what has been passed. -/
theorem populate_filter_iff (before transactions : List Trans) :
    populate (before.filter keep).getLast? (transactions.filter keep) =
        ((places before.getLast? transactions).filter fun place => keep place.transaction).map Place.listed ↔
      ∀ front transaction back, transactions = front ++ transaction :: back → keep transaction = true →
        Nearest keep (before ++ front) transaction back := by
  induction transactions generalizing before with
  | nil => exact iff_of_true rfl fun front transaction back heq => by cases front <;> cases heq
  | cons transaction rest ih =>
      have htail := ih (before ++ [transaction])
      rw [List.getLast?_concat] at htail
      have hsplit : (∀ front t back, transaction :: rest = front ++ t :: back → keep t = true → Nearest keep (before ++ front) t back) ↔
          (keep transaction = true → Nearest keep before transaction rest) ∧
            ∀ front t back, rest = front ++ t :: back → keep t = true → Nearest keep (before ++ [transaction] ++ front) t back := by
        constructor
        · intro h
          refine ⟨fun hkeep => ?_, fun front t back heq hkeep => ?_⟩
          · exact List.append_nil before ▸ h [] transaction rest rfl hkeep
          · rw [List.append_assoc]
            exact h (transaction :: front) t back (congrArg _ heq) hkeep
        · rintro ⟨hhead, hrest⟩ front t back heq hkeep
          cases front with
          | nil =>
              obtain ⟨rfl, rfl⟩ := List.cons.inj heq
              rw [List.append_nil]
              exact hhead hkeep
          | cons first front =>
              obtain ⟨hsame, hback⟩ := List.cons.inj heq
              have hnearest := hrest front t back hback hkeep
              rwa [List.append_assoc, List.singleton_append, hsame] at hnearest
      rw [hsplit, ← htail, places, List.filter_cons, List.filter_cons]
      dsimp only
      cases hkeep : keep transaction with
      | true =>
          rw [if_pos rfl, if_pos rfl, populate, List.map_cons, List.cons_eq_cons, getLast?_filter_concat before hkeep]
          refine and_congr_left fun _ => ?_
          rw [Place.listed, Listed.mk.injEq, Nearest]
          exact ⟨fun h _ => h.2, fun h => ⟨rfl, h rfl⟩⟩
      | false =>
          rw [if_neg Bool.false_ne_true, if_neg Bool.false_ne_true, filter_concat_of_not before hkeep]
          exact (and_iff_right fun h => by cases h).symm

end Nearest

theorem marksNeighbours_iff (history : List Trans) (tids : Finset Int) : MarksNeighbours history tids ↔ LeavesOutNoGap history tids := by
  have hpopulate := @populate_filter_iff (selected tids) [] history
  rw [MarksNeighbours, old, requested_eq, List.reverse_inj]
  refine hpopulate.trans ?_
  simp only [List.nil_append, nearest_iff]
  rfl

theorem marksNeighbours_all (history : List Trans) : MarksNeighbours history ∅ := by
  refine (marksNeighbours_iff history ∅).mpr fun front transaction back _ _ => ⟨fun other _ hnot => ?_, fun other _ hnot => ?_⟩
  · cases hnot
  · cases hnot

/-- Between the first and the third transaction the rpm database is not what the first one left, as the second one is left out. -/
theorem not_marksNeighbours :
    ¬MarksNeighbours [⟨1, .done, false, "a", "b"⟩, ⟨2, .done, false, "b", "c"⟩, ⟨3, .done, false, "c", "d"⟩] {1, 3} := by
  intro h
  have hmarks := congrArg (List.map Listed.alteredLtRpmdb) h
  revert hmarks
  decide

end Dnf.Cli.HistoryOutcomes
