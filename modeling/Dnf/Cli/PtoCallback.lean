import Dnf.Cli.AlignedRows
import Dnf.I18n.ChopStr
import Mathlib.Data.List.GetD

/-!
# The summary after a transaction

`_pto_callback` tries eight columns, then seven, down to two. For each number it keeps the cells that are still free: a text that makes its column wider pays for that, and the number is given up as soon as a text costs all that is left. The cells left over are shared among the columns. Where no number fits there is one column, and a text may be wider than the terminal.
-/

namespace Dnf.Cli.PtoCallback

open Foundation
open Foundation.PercentFormat
open Dnf.Cli.FmtColumns
open Dnf.I18n

/-- The variables of the loop of `_fits_in_cols`. -/
structure Fitting where
  left : Int
  colLens : List Nat
  col : Nat

/-- One message; `none` is `return []`. -/
def Fitting.add (fitting : Fitting) (msg : List Char) : Option Fitting :=
  let col := (fitting.col + 1) % fitting.colLens.length
  if fitting.colLens.getD fitting.col 0 < msg.length then
    let diff := msg.length - fitting.colLens.getD fitting.col 0
    if fitting.left ≤ diff then none
    else some { left := fitting.left - diff, colLens := fitting.colLens.set fitting.col msg.length, col := col }
  else some { fitting with col := col }

/-- `_fits_in_cols` -/
def fitsInCols (columns : Int) (msgs : List (List Char)) (num : Nat) : List Int :=
  if msgs.length < num then []
  else
    let left := columns - ((num - 1) + 2)
    if left ≤ 0 then []
    else
      match msgs.foldlM Fitting.add ⟨left, List.replicate num 0, 0⟩ with
      | none => []
      | some fitting => fitting.colLens.map fun (len : Nat) => -((len : Int) + fitting.left / num)

/-- The first number of columns that fits, else one column. -/
def chooseCols (columns : Int) (msgs : List (List Char)) : List Int :=
  (([8, 7, 6, 5, 4, 3, 2].map (fitsInCols columns msgs)).find? (· ≠ [])).getD [-(columns - 2)]

/-- `zip(current_msgs, cols)` -/
def rowColumns (currentMsgs : List (List Char)) (cols : List Int) : List Column :=
  List.zipWith (fun msg width => { value := msg, width := width }) currentMsgs cols

section Rows

variable (wide : Char → Bool) (term : FmtColumns.Term) (printable : Char → Bool)

/-- The loop that prints the rows; `none` is an exception of `fmtColumns`. -/
def printRows (cols : List Int) (hcols : cols ≠ []) (msgs : List (List Char)) : Option (List (List Char)) :=
  if msgs = [] then some []
  else
    (fmtColumns wide term printable (rowColumns (msgs.take cols.length) cols) [] []).bind fun row =>
      (printRows cols hcols (msgs.drop cols.length)).map ((' ' :: ' ' :: row) :: ·)
termination_by msgs.length
decreasing_by
  have := List.length_pos_iff.mpr hcols
  have : msgs.length ≠ 0 := by simpa using ‹¬msgs = []›
  rw [List.length_drop]
  omega

theorem chooseCols_ne_nil (columns : Int) (msgs : List (List Char)) : chooseCols columns msgs ≠ [] := by
  rw [chooseCols]
  cases hfind : ([8, 7, 6, 5, 4, 3, 2].map (fitsInCols columns msgs)).find? (· ≠ []) with
  | none => exact List.cons_ne_nil _ _
  | some cols => simpa using List.find?_some hfind

/-- `_pto_callback`, for the texts `str(tsi)` of the transaction items. -/
def ptoCallback (columns : Int) (action : List Char) (msgs : List (List Char)) : Option (List (List Char)) :=
  if msgs = [] then some []
  else (printRows wide term printable (chooseCols columns msgs) (chooseCols_ne_nil columns msgs) msgs).map ((action ++ [':']) :: ·)

end Rows

/-! ### The budget -/

section Budget

/-- The messages handled so far lie in their columns, and what the columns take is no longer left. -/
structure Fitting.Pays (num : Nat) (budget : Int) (handled : List (List Char)) (fitting : Fitting) : Prop where
  num_eq : fitting.colLens.length = num
  positive : 0 < fitting.left
  balance : fitting.left + (fitting.colLens.sum : Int) = budget
  col : fitting.col = handled.length % num
  covers : ∀ i, ∀ h : i < handled.length, handled[i].length ≤ fitting.colLens.getD (i % num) 0

variable {num : Nat} {budget : Int} {handled msgs : List (List Char)} {fitting fitting' : Fitting} {msg : List Char}

theorem sum_set_add_getD (lens : List Nat) (k len : Nat) (hk : k < lens.length) : (lens.set k len).sum + lens.getD k 0 = lens.sum + len := by
  induction lens generalizing k with
  | nil => exact absurd hk (Nat.not_lt_zero k)
  | cons first lens ih =>
      cases k with
      | zero =>
          rw [List.set_cons_zero, List.getD_cons_zero, List.sum_cons, List.sum_cons]
          omega
      | succ k =>
          have := ih k (Nat.lt_of_succ_lt_succ hk)
          rw [List.set_cons_succ, List.getD_cons_succ, List.sum_cons, List.sum_cons]
          omega

theorem getD_set (lens : List Nat) (k j len : Nat) (hk : k < lens.length) : (lens.set k len).getD j 0 = if j = k then len else lens.getD j 0 := by
  rw [List.getD_eq_getElem?_getD, List.getElem?_set, List.getD_eq_getElem?_getD]
  by_cases hj : j = k
  · subst hj
    simp [hk]
  · rw [if_neg (Ne.symm hj), if_neg hj]

/-- Columns that only grow still cover what they covered. -/
theorem Fitting.Pays.covers_add (hpays : fitting.Pays num budget handled) {lens : List Nat} (hgrow : ∀ k, fitting.colLens.getD k 0 ≤ lens.getD k 0)
    (hmsg : msg.length ≤ lens.getD (handled.length % num) 0) (i : Nat) (hi : i < (handled ++ [msg]).length) :
    (handled ++ [msg])[i].length ≤ lens.getD (i % num) 0 := by
  rw [List.length_append, List.length_singleton] at hi
  obtain hfront | hlast := Nat.lt_or_eq_of_le (Nat.le_of_lt_succ hi)
  · rw [List.getElem_append_left hfront]
    exact (hpays.covers i hfront).trans (hgrow _)
  · subst hlast
    rw [List.getElem_append_right (Nat.le_refl _)]
    simpa using hmsg

theorem Fitting.Pays.add (hpays : fitting.Pays num budget handled) (hnum : 0 < num) (hadd : fitting.add msg = some fitting') :
    fitting'.Pays num budget (handled ++ [msg]) := by
  have hcol : fitting.col < fitting.colLens.length := by
    rw [hpays.col, hpays.num_eq]
    exact Nat.mod_lt _ hnum
  have hnext : (fitting.col + 1) % fitting.colLens.length = (handled ++ [msg]).length % num := by
    rw [hpays.num_eq, hpays.col, List.length_append, List.length_singleton, Nat.mod_add_mod]
  rw [Fitting.add] at hadd
  by_cases hwider : fitting.colLens.getD fitting.col 0 < msg.length
  · rw [if_pos hwider] at hadd
    by_cases hleft : fitting.left ≤ (msg.length - fitting.colLens.getD fitting.col 0 : Nat)
    · rw [if_pos hleft] at hadd
      exact absurd hadd (by simp)
    · rw [if_neg hleft, Option.some.injEq] at hadd
      subst hadd
      have hsum := sum_set_add_getD fitting.colLens fitting.col msg.length hcol
      have hbalance := hpays.balance
      have hget (k : Nat) := getD_set fitting.colLens fitting.col k msg.length hcol
      have hpositive : 0 < fitting.left - (msg.length - fitting.colLens.getD fitting.col 0 : Nat) := by omega
      refine ⟨by rw [List.length_set, hpays.num_eq], hpositive, by simp only; omega, hnext, hpays.covers_add ?_ ?_⟩
      · intro k
        rw [hget]
        split
        · rename_i hk
          rw [hk]
          exact hwider.le
        · exact Nat.le_refl _
      · rw [hget, if_pos hpays.col.symm]
  · rw [if_neg hwider, Option.some.injEq] at hadd
    subst hadd
    exact ⟨hpays.num_eq, hpays.positive, hpays.balance, hnext, hpays.covers_add (fun _ => Nat.le_refl _) (hpays.col ▸ Nat.le_of_not_lt hwider)⟩

theorem Fitting.Pays.addAll (hpays : fitting.Pays num budget handled) (hnum : 0 < num) (hrun : msgs.foldlM Fitting.add fitting = some fitting') :
    fitting'.Pays num budget (handled ++ msgs) := by
  induction msgs generalizing fitting handled with
  | nil =>
      rw [List.foldlM_nil] at hrun
      obtain rfl := Option.some.inj hrun
      rwa [List.append_nil]
  | cons msg msgs ih =>
      rw [List.foldlM_cons] at hrun
      obtain ⟨next, hadd, hrest⟩ := Option.bind_eq_some_iff.mp hrun
      rw [← List.singleton_append, ← List.append_assoc]
      exact ih (hpays.add hnum hadd) hrest

end Budget

/-- Columns of which every text fits the one it is printed in, and all of them the terminal with the blanks between them and the indentation. -/
structure FitColumns (columns : Int) (msgs : List (List Char)) (cols : List Int) : Prop where
  covers : ∀ i, ∀ h : i < msgs.length, msgs[i].length ≤ (cols.getD (i % cols.length) 0).natAbs
  width : ((cols.map Int.natAbs).sum + cols.length + 1 : Nat) ≤ columns

theorem sum_map_add (lens : List Nat) (share : Nat) : (lens.map (· + share)).sum = lens.sum + lens.length * share := by
  induction lens with
  | nil => simp
  | cons len lens ih =>
      rw [List.map_cons, List.sum_cons, ih, List.sum_cons, List.length_cons, Nat.succ_mul]
      omega

/-- Where columns are returned, they come from the loop over the messages. -/
theorem fitsInCols_eq {columns : Int} {msgs : List (List Char)} {num : Nat} (hfits : fitsInCols columns msgs num ≠ []) :
    ∃ fitting, (0 < columns - ((num - 1) + 2)) ∧ msgs.foldlM Fitting.add ⟨columns - ((num - 1) + 2), List.replicate num 0, 0⟩ = some fitting ∧
      fitsInCols columns msgs num = fitting.colLens.map fun (len : Nat) => -((len : Int) + fitting.left / num) := by
  revert hfits
  simp only [fitsInCols]
  split_ifs with hshort hleft
  · intro h
    exact absurd rfl h
  · intro h
    exact absurd rfl h
  · cases hrun : msgs.foldlM Fitting.add ⟨columns - ((num - 1) + 2), List.replicate num 0, 0⟩ with
    | none =>
        intro h
        exact absurd rfl h
    | some fitting => exact fun _ => ⟨fitting, by omega, rfl, rfl⟩

theorem fitsInCols_fit {columns : Int} {msgs : List (List Char)} {num : Nat} (hnum : 0 < num) (hfits : fitsInCols columns msgs num ≠ []) :
    (fitsInCols columns msgs num).length = num ∧ FitColumns columns msgs (fitsInCols columns msgs num) := by
  obtain ⟨fitting, hleft, hrun, hcols⟩ := fitsInCols_eq hfits
  have hstart : Fitting.Pays num (columns - ((num - 1) + 2)) [] ⟨columns - ((num - 1) + 2), List.replicate num 0, 0⟩ :=
    ⟨List.length_replicate, hleft, by simp, (Nat.zero_mod num).symm, fun i h => absurd h (Nat.not_lt_zero i)⟩
  have hpays := hstart.addAll hnum hrun
  rw [List.nil_append] at hpays
  -- what is left over is shared
  obtain ⟨share, hshare⟩ : ∃ share : Nat, fitting.left / num = share := Int.eq_ofNat_of_zero_le (Int.ediv_nonneg (Int.le_of_lt hpays.positive) (Int.natCast_nonneg num))
  have hlen : (fitsInCols columns msgs num).length = num := by rw [hcols, List.length_map, hpays.num_eq]
  have hrooms : (fitsInCols columns msgs num).map Int.natAbs = fitting.colLens.map (· + share) := by
    rw [hcols, List.map_map, hshare]
    refine List.map_congr_left fun len _ => ?_
    rw [Function.comp_apply]
    omega
  refine ⟨hlen, ?_, ?_⟩
  · intro i hi
    have hcovers := hpays.covers i hi
    have hk : i % num < fitting.colLens.length := by
      rw [hpays.num_eq]
      exact Nat.mod_lt i hnum
    rw [List.getD_eq_getElem _ _ hk] at hcovers
    have hroom : ((fitsInCols columns msgs num).getD (i % num) 0).natAbs = fitting.colLens[i % num] + share := by
      rw [hcols, List.getD_eq_getElem _ _ (by rwa [List.length_map]), List.getElem_map, hshare]
      omega
    rw [hlen, hroom]
    omega
  · have hdiv : (num : Int) * (fitting.left / num) ≤ fitting.left := Int.mul_ediv_self_le (by omega)
    have hbalance := hpays.balance
    rw [hrooms, sum_map_add, hpays.num_eq, hlen]
    rw [hshare] at hdiv
    simp only [Int.natCast_add, Int.natCast_mul]
    omega

theorem chooseCols_fit {columns : Int} {msgs : List (List Char)} :
    (2 ≤ (chooseCols columns msgs).length ∧ FitColumns columns msgs (chooseCols columns msgs)) ∨ (chooseCols columns msgs).length = 1 := by
  rw [chooseCols]
  cases hfind : ([8, 7, 6, 5, 4, 3, 2].map (fitsInCols columns msgs)).find? (· ≠ []) with
  | none => exact Or.inr rfl
  | some cols =>
      obtain ⟨num, hnum, rfl⟩ := List.mem_map.mp (List.mem_of_find?_eq_some hfind)
      have hne : fitsInCols columns msgs num ≠ [] := by simpa using List.find?_some hfind
      have htwo : 2 ≤ num := by
        simp only [List.mem_cons, List.not_mem_nil, or_false] at hnum
        omega
      obtain ⟨hlen, hfit⟩ := fitsInCols_fit (by omega) hne
      exact Or.inl ⟨by rw [Option.getD_some, hlen]; exact htwo, hfit⟩

/-! ### A row -/

section Row

variable {wide : Char → Bool} {term : FmtColumns.Term} {printable : Char → Bool} {column : Column} {columns inner : List Column}

/-- The text of a column, with blanks around it. -/
def Prints (text piece : List Char) : Prop := ∃ m n, piece = blanks m ++ text ++ blanks n

def Fits (wide : Char → Bool) (column : Column) : Prop := exactWidth wide column.value ≤ column.room

theorem prints_padding (left : Bool) (text : List Char) (n m : Nat) :
    Prints text ((if left then text ++ blanks n else blanks n ++ text) ++ blanks m) := by
  cases left
  · exact ⟨n, m, rfl⟩
  · refine ⟨0, n + m, ?_⟩
    rw [show blanks (n + m) = blanks n ++ blanks m from List.replicate_add n m ' ', ← List.append_assoc]
    rfl

/-- A value that fits adds itself, padded, and a blank; a column without width adds the value alone. -/
theorem add_fits (hblank : wide ' ' = false) (hoff : column.highlight = .off) (hfits : Fits wide column) (row : Row) :
    ∃ part args piece, (row.add wide term column).msg = row.msg ++ part ∧ (row.add wide term column).data = row.data ++ args ∧
      Converts printable part args piece ∧ Prints column.value piece ∧ exactWidth wide piece ≤ column.room + 1 := by
  by_cases hwidth : column.width = 0
  · refine ⟨['%', 's'], [column.value], column.value, by simp [Row.add, hwidth], by simp [Row.add, hwidth], converts_s _, ?_, Nat.le_succ_of_le hfits⟩
    exact ⟨0, 0, by simp [blanks]⟩
  · have hroom : exactWidth wide column.value ≤ column.room := hfits
    have hraw : raw (column.segments wide term row.totalWidth) =
        (if decide (column.width < 0) then column.value ++ blanks (column.room - exactWidth wide column.value)
          else blanks (column.room - exactWidth wide column.value) ++ column.value) ++ blanks 1 := by
      rw [Column.segments, if_pos hroom]
      by_cases hleft : column.width < 0 <;> simp [raw, hoff, FmtColumns.Term.highlight, blanks, hleft]
    refine ⟨column.part wide row.totalWidth, column.args wide term, raw (column.segments wide term row.totalWidth),
      by rw [row.add_eq hwidth], by rw [row.add_eq hwidth], converts_part, ?_, ?_⟩
    · rw [hraw]
      exact prints_padding _ _ _ _
    · rw [hraw]
      split <;> rw [exactWidth_append, exactWidth_append, exactWidth_blanks hblank, exactWidth_blanks hblank] <;> omega

theorem addAll_fits (hblank : wide ' ' = false) (hoff : ∀ column ∈ inner, column.highlight = .off) (hfits : ∀ column ∈ inner, Fits wide column) :
    ∃ pieces, Converts printable (addAll wide term [] inner).msg (addAll wide term [] inner).data pieces.flatten ∧
      List.Forall₂ (fun column => Prints column.value) inner pieces ∧ exactWidth wide pieces.flatten ≤ (inner.map fun column => column.room + 1).sum := by
  induction inner using List.reverseRecOn with
  | nil => exact ⟨[], converts_nil, .nil, Nat.le_refl _⟩
  | append_singleton inner column ih =>
      obtain ⟨pieces, hconverts, hprints, hwidth⟩ := ih (fun c hc => hoff c (List.mem_append_left _ hc)) fun c hc => hfits c (List.mem_append_left _ hc)
      have hcolumn : column ∈ inner ++ [column] := List.mem_append_right _ (List.mem_singleton_self column)
      obtain ⟨part, args, piece, hmsg, hdata, hpart, hpiece, hroom⟩ :=
        @add_fits wide term printable column hblank (hoff column hcolumn) (hfits column hcolumn) (addAll wide term [] inner)
      refine ⟨pieces ++ [piece], ?_, List.rel_append hprints (.cons hpiece .nil), ?_⟩
      · rw [addAll_append, hmsg, hdata, List.flatten_append, List.flatten_singleton]
        exact hconverts.append hpart
      · rw [List.flatten_append, List.flatten_singleton, exactWidth_append, List.map_append, List.sum_append, List.map_singleton, List.sum_singleton]
        omega

theorem lastValue_prints (hblank : wide ' ' = false) (hoff : column.highlight = .off) :
    Prints column.value (lastValue wide term column) ∧ (Fits wide column → exactWidth wide (lastValue wide term column) ≤ column.room) := by
  have hlast : lastValue wide term column = I18n.fillExactWidth wide column.value column.room none (decide (column.width < 0)) [] [] := by
    rw [fillExactWidth_none]
    simp [lastValue, fmtColumnAlignWidth_eq, hoff, FmtColumns.Term.highlight]
  have hwidth := I18n.exactWidth_fillExactWidth hblank column.value column.room none (decide (column.width < 0))
  rw [← hlast] at hwidth
  constructor
  · have hprints := prints_padding (decide (column.width < 0)) column.value (column.room - exactWidth wide column.value) 0
    rw [show blanks 0 = [] from rfl, List.append_nil] at hprints
    rw [hlast, I18n.fillExactWidth_eq]
    convert hprints using 3
    all_goals simp [chopStr]
  · intro hfits
    have hroom : exactWidth wide column.value ≤ column.room := hfits
    rw [show (chopStr wide column.value none).1 = exactWidth wide column.value from rfl] at hwidth
    omega

/-- A row whose inner columns fit is printed in full; where the last one fits too, it takes what its columns take. -/
theorem fmtColumns_fits (hblank : wide ' ' = false) (last : Column) (hoff : ∀ column ∈ inner ++ [last], column.highlight = .off)
    (hfits : ∀ column ∈ inner, Fits wide column) :
    ∃ pieces, fmtColumns wide term printable (inner ++ [last]) [] [] = some pieces.flatten ∧
      List.Forall₂ (fun column => Prints column.value) (inner ++ [last]) pieces ∧
      (Fits wide last → exactWidth wide pieces.flatten + 1 ≤ ((inner ++ [last]).map fun column => column.room + 1).sum) := by
  obtain ⟨pieces, hconverts, hprints, hwidth⟩ : ∃ pieces, Converts printable (addAll wide term [] inner).msg (addAll wide term [] inner).data pieces.flatten ∧
      List.Forall₂ (fun column => Prints column.value) inner pieces ∧ exactWidth wide pieces.flatten ≤ (inner.map fun column => column.room + 1).sum :=
    addAll_fits hblank (fun c hc => hoff c (List.mem_append_left _ hc)) hfits
  obtain ⟨hlast, hroom⟩ := @lastValue_prints wide term last hblank (hoff last (List.mem_append_right _ (List.mem_singleton_self last)))
  refine ⟨pieces ++ [lastValue wide term last], ?_, List.rel_append hprints (.cons hlast .nil), ?_⟩
  · rw [fmtColumns_append, List.flatten_append, List.flatten_singleton]
    exact (hconverts.append (converts_s (lastValue wide term last))).format
  · intro hfit
    have := hroom hfit
    rw [List.flatten_append, List.flatten_singleton, exactWidth_append, List.map_append, List.sum_append, List.map_singleton, List.sum_singleton]
    omega

end Row

/-! ### All rows -/

section Rows

variable {wide : Char → Bool} {term : FmtColumns.Term} {printable : Char → Bool} {columns : Int} {cols : List Int} {msgs row : List (List Char)} {line : List Char}

/-- A line shows the texts of a row behind its indentation, each in blanks. -/
def PrintsRow (row : List (List Char)) (line : List Char) : Prop :=
  ∃ pieces, List.Forall₂ Prints row pieces ∧ line = ' ' :: ' ' :: pieces.flatten

/-- Every text of a row fits its column, and the line fits the terminal. -/
def FitsRow (wide : Char → Bool) (columns : Int) (cols : List Int) (row : List (List Char)) (line : List Char) : Prop :=
  row.length ≤ cols.length ∧ (∀ cell ∈ row.zip cols, cell.1.length ≤ cell.2.natAbs) ∧ exactWidth wide line ≤ columns

theorem map_value_rowColumns (hlen : row.length ≤ cols.length) : (rowColumns row cols).map Column.value = row := by
  induction row generalizing cols with
  | nil => rfl
  | cons text row ih =>
      cases cols with
      | nil => exact absurd hlen (Nat.not_succ_le_zero _)
      | cons width cols => exact congrArg (text :: ·) (ih (Nat.le_of_succ_le_succ hlen))

theorem sum_rowColumns_le (row : List (List Char)) (cols : List Int) :
    ((rowColumns row cols).map fun column => column.room + 1).sum ≤ (cols.map Int.natAbs).sum + cols.length := by
  induction row generalizing cols with
  | nil => exact Nat.zero_le _
  | cons text row ih =>
      cases cols with
      | nil => exact Nat.zero_le _
      | cons width cols =>
          have := ih cols
          have hcons : (rowColumns (text :: row) (width :: cols)).map (fun column => column.room + 1) =
              (width.natAbs + 1) :: (rowColumns row cols).map fun column => column.room + 1 := rfl
          rw [hcons, List.sum_cons, List.map_cons, List.sum_cons, List.length_cons]
          omega

theorem length_rowColumns (hlen : row.length ≤ cols.length) : (rowColumns row cols).length = row.length := by
  rw [rowColumns, List.length_zipWith, Nat.min_eq_left hlen]

theorem mem_rowColumns {column : Column} (hcolumn : column ∈ rowColumns row cols) :
    (column.value, column.width) ∈ row.zip cols ∧ column.highlight = .off := by
  rw [rowColumns, ← List.map_uncurry_zip_eq_zipWith, List.mem_map] at hcolumn
  obtain ⟨cell, hcell, rfl⟩ := hcolumn
  exact ⟨hcell, rfl⟩

theorem exactWidth_of_cells (hcells : ∀ c ∈ line, wide c = false) : exactWidth wide line = line.length := by
  induction line with
  | nil => rfl
  | cons c line ih =>
      rw [exactWidth_cons, ih fun d hd => hcells d (List.mem_cons_of_mem c hd), exactWidthChar, if_neg (by simp [hcells c (List.mem_cons_self ..)]),
        List.length_cons, Nat.add_comm]

/-- The first row of covered texts is covered. -/
theorem covers_row (hcovers : ∀ i, ∀ h : i < msgs.length, msgs[i].length ≤ (cols.getD (i % cols.length) 0).natAbs) :
    ∀ cell ∈ (msgs.take cols.length).zip cols, cell.1.length ≤ cell.2.natAbs := by
  intro cell hcell
  obtain ⟨k, hk, rfl⟩ := List.mem_iff_getElem.mp hcell
  have hlen := hk
  rw [List.length_zip, List.length_take] at hlen
  have hcols : k < cols.length := by omega
  have := hcovers k (by omega)
  rw [Nat.mod_eq_of_lt hcols, List.getD_eq_getElem _ _ hcols] at this
  rwa [List.getElem_zip, List.getElem_take]

/-- So are the texts of the rows after it. -/
theorem covers_rest (hcovers : ∀ i, ∀ h : i < msgs.length, msgs[i].length ≤ (cols.getD (i % cols.length) 0).natAbs) (i : Nat)
    (hi : i < (msgs.drop cols.length).length) : (msgs.drop cols.length)[i].length ≤ (cols.getD (i % cols.length) 0).natAbs := by
  have hlen := hi
  rw [List.length_drop] at hlen
  have := hcovers (cols.length + i) (by omega)
  rwa [Nat.add_mod_left, ← List.getElem_drop] at this

/-- One row: complete, and within its columns where there are several. -/
theorem fmtColumns_row (hblank : wide ' ' = false) (hrow : row ≠ []) (hlen : row.length ≤ cols.length) (hcells : ∀ text ∈ row, ∀ c ∈ text, wide c = false)
    (hfit : cols.length = 1 ∨ ((∀ cell ∈ row.zip cols, cell.1.length ≤ cell.2.natAbs) ∧ ((cols.map Int.natAbs).sum + cols.length + 1 : Nat) ≤ columns)) :
    ∃ text, fmtColumns wide term printable (rowColumns row cols) [] [] = some text ∧ PrintsRow row (' ' :: ' ' :: text) ∧
      (2 ≤ cols.length → FitsRow wide columns cols row (' ' :: ' ' :: text)) := by
  have hlength := length_rowColumns hlen
  have hne : rowColumns row cols ≠ [] := by
    rw [← List.length_pos_iff, hlength]
    exact List.length_pos_iff.mpr hrow
  have hvalues := map_value_rowColumns hlen
  have hsum := sum_rowColumns_le row cols
  have hall (hcovers : ∀ cell ∈ row.zip cols, cell.1.length ≤ cell.2.natAbs) : ∀ column ∈ rowColumns row cols, Fits wide column := by
    intro column hcolumn
    have hcell := (mem_rowColumns hcolumn).1
    rw [Fits, exactWidth_of_cells (hcells _ (List.of_mem_zip hcell).1)]
    exact hcovers _ hcell
  have hoff : ∀ column ∈ rowColumns row cols, column.highlight = .off := fun column hcolumn => (mem_rowColumns hcolumn).2
  obtain ⟨inner, last, hsplit⟩ := (List.eq_nil_or_concat' (rowColumns row cols)).resolve_left hne
  rw [hsplit] at hlength hvalues hsum hall hoff ⊢
  have hinner : ∀ column ∈ inner, Fits wide column := by
    intro column hcolumn
    rcases hfit with hone | ⟨hcovers, -⟩
    · -- the only column is the last one
      rw [List.length_append, List.length_singleton] at hlength
      rw [List.length_eq_zero_iff.mp (show inner.length = 0 by omega)] at hcolumn
      cases hcolumn
    · exact hall hcovers column (List.mem_append_left _ hcolumn)
  obtain ⟨pieces, hformat, hprints, hwidth⟩ := @fmtColumns_fits wide term printable inner hblank last hoff hinner
  refine ⟨pieces.flatten, hformat, ⟨pieces, ?_, rfl⟩, ?_⟩
  · rw [← hvalues]
    exact List.forall₂_map_left_iff.mpr hprints
  · intro hseveral
    obtain ⟨hcovers, hbudget⟩ := hfit.resolve_left (by omega)
    have := hwidth (hall hcovers last (List.mem_append_right _ (List.mem_singleton_self last)))
    have hone : exactWidthChar wide ' ' = 1 := if_neg (by simp [hblank])
    refine ⟨hlen, hcovers, ?_⟩
    rw [exactWidth_cons, exactWidth_cons, hone]
    omega

theorem printRows_spec (hblank : wide ' ' = false) (hcols : cols ≠ []) (hcells : ∀ text ∈ msgs, ∀ c ∈ text, wide c = false)
    (hfit : cols.length = 1 ∨ FitColumns columns msgs cols) :
    ∃ rows lines, printRows wide term printable cols hcols msgs = some lines ∧ rows.flatten = msgs ∧ List.Forall₂ PrintsRow rows lines ∧
      (2 ≤ cols.length → List.Forall₂ (FitsRow wide columns cols) rows lines) := by
  induction hn : msgs.length using Nat.strong_induction_on generalizing msgs with
  | _ n ih =>
    rw [printRows]
    by_cases hmsgs : msgs = []
    · exact ⟨[], [], if_pos hmsgs, hmsgs.symm, .nil, fun _ => .nil⟩
    · rw [if_neg hmsgs]
      have hpos := List.length_pos_iff.mpr hcols
      have hlong := List.length_pos_iff.mpr hmsgs
      obtain ⟨text, hformat, hprints, hfits⟩ : ∃ text, fmtColumns wide term printable (rowColumns (msgs.take cols.length) cols) [] [] = some text ∧
          PrintsRow (msgs.take cols.length) (' ' :: ' ' :: text) ∧ (2 ≤ cols.length → FitsRow wide columns cols (msgs.take cols.length) (' ' :: ' ' :: text)) := by
        apply fmtColumns_row hblank
        · rw [← List.length_pos_iff, List.length_take]
          omega
        · exact List.length_take_le _ _
        · exact fun row hrow => hcells row (List.mem_of_mem_take hrow)
        · exact hfit.imp_right fun hfit => ⟨covers_row hfit.covers, hfit.width⟩
      obtain ⟨rows, lines, hrun, hflatten, hall, hwithin⟩ := ih (msgs.drop cols.length).length (by rw [List.length_drop]; omega)
        (fun row hrow => hcells row (List.mem_of_mem_drop hrow)) (hfit.imp_right fun hfit => ⟨covers_rest hfit.covers, hfit.width⟩) rfl
      refine ⟨msgs.take cols.length :: rows, (' ' :: ' ' :: text) :: lines, ?_, ?_, .cons hprints hall, fun h => .cons (hfits h) (hwithin h)⟩
      · rw [hformat, Option.bind_some, hrun]
        rfl
      · rw [List.flatten_cons, hflatten, List.take_append_drop]

/-- Under the header every text once and in order, and where there are several columns every text in its column and every line within the terminal. -/
theorem ptoCallback_complete (hblank : wide ' ' = false) (columns : Int) (action : List Char) (hmsgs : msgs ≠ [])
    (hcells : ∀ text ∈ msgs, ∀ c ∈ text, wide c = false) :
    ∃ rows lines, ptoCallback wide term printable columns action msgs = some ((action ++ [':']) :: lines) ∧ rows.flatten = msgs ∧
      List.Forall₂ PrintsRow rows lines ∧
      (2 ≤ (chooseCols columns msgs).length → List.Forall₂ (FitsRow wide columns (chooseCols columns msgs)) rows lines) := by
  obtain ⟨rows, lines, hrun, hflatten, hprints, hfits⟩ : ∃ rows lines,
      printRows wide term printable (chooseCols columns msgs) (chooseCols_ne_nil columns msgs) msgs = some lines ∧ rows.flatten = msgs ∧
        List.Forall₂ PrintsRow rows lines ∧
        (2 ≤ (chooseCols columns msgs).length → List.Forall₂ (FitsRow wide columns (chooseCols columns msgs)) rows lines) :=
    printRows_spec hblank _ hcells (chooseCols_fit.symm.imp_right And.right)
  refine ⟨rows, lines, ?_, hflatten, hprints, hfits⟩
  rw [ptoCallback, if_neg hmsgs, hrun]
  rfl

/-- Two items on a terminal of twelve columns share a line. -/
theorem ptoCallback_complete_two :
    ∃ rows lines, ptoCallback (fun _ => false) ⟨[], [], fun _ => none, fun _ => none, fun _ => none⟩ (fun _ => true) 12 ['U', 'p'] [['a', '1'], ['b']] =
        some (['U', 'p', ':'] :: lines) ∧ rows.flatten = [['a', '1'], ['b']] ∧
      List.Forall₂ (FitsRow (fun _ => false) 12 (chooseCols 12 [['a', '1'], ['b']])) rows lines := by
  obtain ⟨rows, lines, hrun, hflatten, -, hfits⟩ := @ptoCallback_complete (fun _ => false) ⟨[], [], fun _ => none, fun _ => none, fun _ => none⟩ (fun _ => true)
    [['a', '1'], ['b']] rfl 12 ['U', 'p'] (by decide) (by simp)
  exact ⟨rows, lines, hrun, hflatten, hfits (by decide)⟩

end Rows

end Dnf.Cli.PtoCallback
