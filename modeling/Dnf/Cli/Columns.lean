import Dnf.Foundation.Transition
import Mathlib.Algebra.BigOperators.Group.List.Basic
import Mathlib.Algebra.GroupWithZero.Nat
import Mathlib.Algebra.Ring.Int.Defs
import Mathlib.Data.List.Sort

/-!
# The widths of columns

`Output.calcColumns` gives the columns of a table their widths. It starts from the minimums and widens one column at a time to the length of its next longer field, that of the column where the space that is left helps most fields; what is left when it helps none is spread over the columns. The last column may start without width, and then the space before it is only taken when it gets one.
-/

namespace Dnf.Cli

open Foundation

/-- The lengths of the fields of a column, with how many fields have each. -/
abbrev Histogram := List (Nat × Nat)

/-- `sorted(pdata[d].items())` -/
def sortFields (fields : Histogram) : Histogram :=
  fields.insertionSort fun a b => a.1 < b.1 ∨ (a.1 = b.1 ∧ a.2 ≤ b.2)

/-- The variables of the loop; `left` is its `total_width`. -/
structure Layout where
  columns : List Int
  data : List Histogram
  left : Int
  deriving DecidableEq

/-- `_calc_columns_spaces_helps` -/
def calcColumnsSpacesHelps (current : Int) (dataTups : Histogram) (left : Int) : Nat :=
  match dataTups with
  | [] => 0
  | tup :: rest => if left < tup.1 - current then 0 else tup.2 + calcColumnsSpacesHelps current rest left

def Layout.helps (l : Layout) (d : Nat) : Nat := calcColumnsSpacesHelps (l.columns.getD d 0) (l.data.getD d []) l.left

/-- One round of the loop that looks for the best column, with `helps` and `val` of it so far. -/
def Layout.consider (cols : Nat) (l : Layout) (best : Nat × Nat) (d : Nat) : Nat × Nat :=
  if l.helps d = 0 then best
  else if best.1 ≠ 0 ∧ d = cols - 1 ∧ l.helps d < 2 * best.1 then best
  else if l.helps d < best.1 then best
  else (l.helps d, d)

def Layout.best (cols : Nat) (l : Layout) : Nat × Nat := (List.range cols).foldl (l.consider cols) (0, 0)

/-- The column moves up to its next field. -/
def Layout.widen (cols : Nat) (l : Layout) (val : Nat) : Layout :=
  match l.data.getD val [] with
  | [] => l
  | field :: rest =>
      let width := l.columns.getD val 0
      let diff := field.1 - width
      { columns := l.columns.set val (width + diff)
        data := l.data.set val rest
        left := (if width = 0 ∧ val = cols - 1 then l.left - 1 else l.left) - diff }

inductive ColumnsExc
  | zeroDivision
  | index
  deriving DecidableEq

/-- The space that is left goes to the columns with longer fields, in equal parts. -/
def Layout.spreadOverflowed (l : Layout) : Layout :=
  let overflowed := l.data.countP (· ≠ [])
  if overflowed = 0 then l
  else
    let norm := l.left / overflowed
    { l with columns := List.zipWith (fun width fields => if fields ≠ [] then width + norm else width) l.columns l.data, left := l.left - overflowed * norm }

/-- The rest goes to all columns but the last in equal parts, and what then remains to the remainder column. -/
def Layout.spread (cols remainderColumn : Nat) (l : Layout) : Except ColumnsExc (List Int) :=
  let l := l.spreadOverflowed
  if cols - 1 = 0 then .error .zeroDivision
  else if remainderColumn < l.columns.length then
    let norm := l.left / (cols - 1 : Nat)
    .ok (((l.columns.take (cols - 1)).map (· + norm) ++ l.columns.drop (cols - 1)).modify remainderColumn (· + (l.left - (cols - 1 : Nat) * norm)))
  else .error .index

/-- The loop. Each round but the last takes a field away, so the fields are enough fuel. -/
def calcLoop (cols remainderColumn : Nat) : Nat → Layout → Option (Except ColumnsExc (List Int))
  | 0, _ => none
  | fuel + 1, l =>
      if l.left ≤ 0 then some (.ok l.columns)
      else if (l.best cols).1 = 0 then some (l.spread cols remainderColumn)
      else calcLoop cols remainderColumn fuel (l.widen cols (l.best cols).2)

def Layout.fields (l : Layout) : Nat := (l.data.map List.length).sum

/-- The terminal: its width as far as it is known, and the width that is assumed of it. -/
structure Term where
  realColumns : Int
  columns : Int

def defaultColumns (cols : Nat) : List Int := List.replicate (cols - 1) 1 ++ [0]

/-- The longest field of the column, or a little more than the minimum where there is none. -/
def fullColumn (fields : Histogram) (minimum : Int) : Int := (fields.getLast?.map fun field => (field.1 : Int)).getD (minimum + 1)

def fullColumns (indentLength : Nat) (data : List Histogram) (columns : List Int) : List Int :=
  (List.zipWith fullColumn data columns).modify 0 (· + indentLength * 2)

/-- What the loop starts from: `total_width` without the minimums, the spaces between the columns and the indent. -/
def startLayout (data : List Histogram) (columns : List Int) (totalWidth : Int) (indentWidth : Nat) : Layout :=
  { columns, data
    left := totalWidth - (columns.sum + (data.length - 1) + indentWidth) + if columns.getLast? = some 0 then 1 else 0 }

/-- Either the widths are returned at once, for an output that is no terminal, or the loop starts. -/
def calcStart (term : Term) (data : List Histogram) (columns : List Int) (totalWidth : Option Int) (indentLength indentWidth : Nat) : List Int ⊕ Layout :=
  let total := totalWidth.getD term.realColumns
  if total = 0 then
    if (fullColumns indentLength data columns).sum > term.columns then .inl (fullColumns indentLength data columns)
    else .inr (startLayout data columns term.columns indentWidth)
  else .inr (startLayout data columns total indentWidth)

/-- `Output.calcColumns`, for at least one column. The indent is given by its length and by its width on the terminal; `none` would be a loop without end. -/
def calcColumns (term : Term) (data : List Histogram) (columns : Option (List Int)) (remainderColumn : Nat) (totalWidth : Option Int)
    (indentLength indentWidth : Nat) : Option (Except ColumnsExc (List Int)) :=
  let data := data.map sortFields
  let columns := columns.getD (defaultColumns data.length)
  if data = [] then some (.error .index)
  else
    match calcStart term data columns totalWidth indentLength indentWidth with
    | .inl widths => some (.ok widths)
    | .inr l => calcLoop data.length remainderColumn (l.fields + 1) l

/-! ### The steps of the loop -/

/-- The loop as far as it widens columns; an action is the column that is widened. -/
def columnsSystem (cols : Nat) : System Layout Nat where
  Init _ := True
  next l val := if 0 < l.left ∧ (l.best cols).1 ≠ 0 ∧ (l.best cols).2 = val then some (l.widen cols val) else none

variable {cols : Nat}

theorem helps_ne_zero {l : Layout} {d : Nat} (h : l.helps d ≠ 0) :
    ∃ field rest, l.data.getD d [] = field :: rest ∧ (field.1 : Int) - l.columns.getD d 0 ≤ l.left := by
  rw [Layout.helps] at h
  cases hdata : l.data.getD d [] with
  | nil =>
      rw [hdata] at h
      exact absurd rfl h
  | cons field rest =>
      rw [hdata, calcColumnsSpacesHelps] at h
      split_ifs at h with hleft
      · exact absurd rfl h
      · exact ⟨field, rest, rfl, Int.not_lt.mp hleft⟩

theorem consider_spec {l : Layout} {best : Nat × Nat} {d : Nat} (hd : d < cols) (hbest : best.1 ≠ 0 → l.helps best.2 ≠ 0 ∧ best.2 < cols) :
    (l.consider cols best d).1 ≠ 0 → l.helps (l.consider cols best d).2 ≠ 0 ∧ (l.consider cols best d).2 < cols := by
  rw [Layout.consider]
  split_ifs with hzero hlast hless
  · exact hbest
  · exact hbest
  · exact hbest
  · exact fun _ => ⟨hzero, hd⟩

theorem best_spec {l : Layout} (h : (l.best cols).1 ≠ 0) : l.helps (l.best cols).2 ≠ 0 ∧ (l.best cols).2 < cols := by
  have hloop : ∀ ds : List Nat, (∀ d ∈ ds, d < cols) → ∀ best : Nat × Nat, (best.1 ≠ 0 → l.helps best.2 ≠ 0 ∧ best.2 < cols) →
      (ds.foldl (l.consider cols) best).1 ≠ 0 → l.helps (ds.foldl (l.consider cols) best).2 ≠ 0 ∧ (ds.foldl (l.consider cols) best).2 < cols := by
    intro ds
    induction ds with
    | nil => exact fun _ _ hbest => hbest
    | cons d ds ih =>
        intro hds best hbest
        exact ih (fun d' hd' => hds d' (List.mem_cons_of_mem _ hd')) _ (consider_spec (hds d List.mem_cons_self) hbest)
  exact hloop (List.range cols) (fun d hd => List.mem_range.mp hd) (0, 0) (fun h0 => absurd rfl h0) h

/-- What a step does: the column gets the length of its next field, for which there is space, and the last column takes one for the space before it. -/
structure Widens (cols : Nat) (l : Layout) (val : Nat) (t : Layout) (field : Nat × Nat) (rest : Histogram) : Prop where
  spaceLeft : 0 < l.left
  inRange : val < cols
  next : l.data.getD val [] = field :: rest
  fits : (field.1 : Int) - l.columns.getD val 0 ≤ l.left
  columns : t.columns = l.columns.set val field.1
  data : t.data = l.data.set val rest
  taken : t.left = (if l.columns.getD val 0 = 0 ∧ val = cols - 1 then l.left - 1 else l.left) - (field.1 - l.columns.getD val 0)

theorem next_cases {l t : Layout} {val : Nat} (h : (columnsSystem cols).next l val = some t) : ∃ field rest, Widens cols l val t field rest := by
  rw [columnsSystem] at h
  dsimp only at h
  split_ifs at h with hstep
  obtain ⟨hleft, hbest, rfl⟩ := hstep
  obtain ⟨hhelps, hval⟩ := best_spec hbest
  obtain ⟨field, rest, hdata, hfits⟩ := helps_ne_zero hhelps
  have ht := Option.some.inj h
  rw [Layout.widen, hdata] at ht
  refine ⟨field, rest, hleft, hval, hdata, hfits, ?_, ?_, ?_⟩
  · rw [← ht]
    exact congrArg (l.columns.set _) (by omega)
  · rw [← ht]
  · rw [← ht]

/-- As many widths and histograms as columns. -/
structure Sized (cols : Nat) (l : Layout) : Prop where
  columns : l.columns.length = cols
  data : l.data.length = cols

theorem Sized.next {l t : Layout} {val : Nat} (hl : Sized cols l) (h : (columnsSystem cols).next l val = some t) : Sized cols t := by
  obtain ⟨field, rest, hwidens⟩ := next_cases h
  exact ⟨by rw [hwidens.columns, List.length_set, hl.columns], by rw [hwidens.data, List.length_set, hl.data]⟩

theorem sum_set_add {M : Type} [AddCommMonoid M] (xs : List M) {n : Nat} (hn : n < xs.length) (x : M) : (xs.set n x).sum + xs.getD n 0 = xs.sum + x := by
  induction xs generalizing n with
  | nil => cases hn
  | cons y xs ih =>
      cases n with
      | zero => rw [List.set_cons_zero, List.sum_cons, List.sum_cons, List.getD_cons_zero, add_comm x, add_comm y, add_right_comm]
      | succ n => rw [List.set_cons_succ, List.sum_cons, List.sum_cons, List.getD_cons_succ, add_assoc, ih (Nat.lt_of_succ_lt_succ hn), add_assoc]

theorem fields_next {l t : Layout} {val : Nat} (hl : Sized cols l) (h : (columnsSystem cols).next l val = some t) : t.fields + 1 = l.fields := by
  obtain ⟨field, rest, hwidens⟩ := next_cases h
  have hval : val < (l.data.map List.length).length := by rw [List.length_map, hl.data]; exact hwidens.inRange
  have hsum := sum_set_add (l.data.map List.length) hval rest.length
  have hhere : (l.data.map List.length).getD val 0 = rest.length + 1 := by
    have hnext := hwidens.next
    rw [List.getD_eq_getElem?_getD] at hnext ⊢
    rw [List.getElem?_map]
    cases hat : l.data[val]? with
    | none =>
        rw [hat] at hnext
        cases hnext
    | some fields =>
        rw [hat] at hnext
        exact congrArg List.length hnext
  rw [Layout.fields, Layout.fields, hwidens.data, List.map_set]
  omega

theorem columnsSystem_deterministic (cols : Nat) : (columnsSystem cols).Deterministic := by
  intro l val val' t u ht hu
  rw [columnsSystem] at ht hu
  dsimp only at ht hu
  split_ifs at ht with hstep
  split_ifs at hu with hstep'
  exact hstep.2.2.symm.trans hstep'.2.2

/-- The loop is a run of steps that cannot go on; it returns the widths, or spreads what is left. -/
theorem calcLoop_run (remainderColumn : Nat) {fuel : Nat} {l : Layout} (hl : Sized cols l) (hfuel : l.fields < fuel) :
    ∃ vals t, (columnsSystem cols).Run System.anyStep l vals t ∧ (∀ val, (columnsSystem cols).next t val = none) ∧ Sized cols t ∧
      ((t.left ≤ 0 ∧ calcLoop cols remainderColumn fuel l = some (.ok t.columns)) ∨
        (0 < t.left ∧ calcLoop cols remainderColumn fuel l = some (t.spread cols remainderColumn))) := by
  induction fuel generalizing l with
  | zero => exact absurd hfuel (Nat.not_lt_zero _)
  | succ fuel ih =>
      rw [calcLoop]
      by_cases hleft : l.left ≤ 0
      · exact ⟨[], l, .nil l, fun val => if_neg fun h => Int.not_le.mpr h.1 hleft, hl, .inl ⟨hleft, if_pos hleft⟩⟩
      · rw [if_neg hleft]
        by_cases hbest : (l.best cols).1 = 0
        · exact ⟨[], l, .nil l, fun val => if_neg fun h => h.2.1 hbest, hl, .inr ⟨Int.not_le.mp hleft, if_pos hbest⟩⟩
        · rw [if_neg hbest]
          have hnext : (columnsSystem cols).next l (l.best cols).2 = some (l.widen cols (l.best cols).2) :=
            if_pos ⟨Int.not_le.mp hleft, hbest, rfl⟩
          have hfields := fields_next hl hnext
          obtain ⟨vals, t, hrun, hend⟩ := ih (hl.next hnext) (by omega)
          exact ⟨(l.best cols).2 :: vals, t, .cons trivial hnext hrun, hend⟩

end Dnf.Cli
