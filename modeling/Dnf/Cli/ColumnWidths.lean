import Dnf.Cli.Columns
import Mathlib.Data.List.Forall2
import Mathlib.Order.Basic

/-!
# What the widths of columns come to

No step of the loop loses space: what a column gets is taken from what is left, and the spreading at the end uses up the rest. So the widths fill the line, but the space before the last column is taken only by a step that widens it from nothing. Such a step may also make a column narrower, where its next field is shorter than its minimum.
-/

namespace Dnf.Cli

open Foundation

variable {cols : Nat}

/-! ### Spreading what is left -/

/-- No column of the first list is wider than that of the second. -/
abbrev Covers (minimums widths : List Int) : Prop := List.Forall₂ (· ≤ ·) minimums widths

theorem covers_refl (widths : List Int) : Covers widths widths := List.forall₂_same.mpr fun width _ => Int.le_refl width

theorem Covers.trans {xs ys zs : List Int} (h : Covers xs ys) (h' : Covers ys zs) : Covers xs zs := by
  induction h generalizing zs with
  | nil => exact h'
  | cons hle _ ih =>
      cases h' with
      | cons hle' hrest => exact .cons (Int.le_trans hle hle') (ih hrest)

/-- The second list is wider by this amount in all, and none of its columns is narrower. -/
structure WiderBy (amount : Int) (xs ys : List Int) : Prop where
  covers : Covers xs ys
  sum : ys.sum = xs.sum + amount

theorem widerBy_refl (xs : List Int) : WiderBy 0 xs xs := ⟨covers_refl xs, (Int.add_zero _).symm⟩

theorem WiderBy.trans {m n : Int} {xs ys zs : List Int} (h : WiderBy m xs ys) (h' : WiderBy n ys zs) : WiderBy (m + n) xs zs :=
  ⟨h.covers.trans h'.covers, by rw [h'.sum, h.sum, Int.add_assoc]⟩

theorem widerBy_zipWith {norm : Int} (hnorm : 0 ≤ norm) {columns : List Int} {data : List Histogram} (hlength : columns.length = data.length) :
    WiderBy (data.countP (· ≠ []) * norm) columns (List.zipWith (fun width fields => if fields ≠ [] then width + norm else width) columns data) := by
  induction columns generalizing data with
  | nil =>
      obtain rfl := List.eq_nil_of_length_eq_zero hlength.symm
      exact ⟨.nil, by simp⟩
  | cons width columns ih =>
      cases data with
      | nil => cases hlength
      | cons fields data =>
          have hrest := ih (Nat.succ.inj hlength)
          by_cases hfields : fields = []
          · rw [List.zipWith_cons_cons, if_neg (not_not_intro hfields), List.countP_cons_of_neg (by simp [hfields])]
            refine ⟨.cons (Int.le_refl _) hrest.covers, ?_⟩
            rw [List.sum_cons, List.sum_cons, hrest.sum, Int.add_assoc]
          · rw [List.zipWith_cons_cons, if_pos hfields, List.countP_cons_of_pos (by simp [hfields])]
            refine ⟨.cons (Int.le_add_of_nonneg_right hnorm) hrest.covers, ?_⟩
            rw [List.sum_cons, List.sum_cons, hrest.sum, Int.natCast_add, Int.add_mul, Int.natCast_one, Int.one_mul]
            omega

theorem widerBy_map {norm : Int} (hnorm : 0 ≤ norm) (columns : List Int) : WiderBy (columns.length * norm) columns (columns.map (· + norm)) := by
  induction columns with
  | nil => exact ⟨.nil, by simp⟩
  | cons width columns ih =>
      refine ⟨.cons (Int.le_add_of_nonneg_right hnorm) ih.covers, ?_⟩
      rw [List.map_cons, List.sum_cons, List.sum_cons, ih.sum, List.length_cons, Int.natCast_add, Int.add_mul, Int.natCast_one, Int.one_mul]
      omega

theorem widerBy_append {m n : Int} {xs ys xs' ys' : List Int} (h : WiderBy m xs ys) (h' : WiderBy n xs' ys') : WiderBy (m + n) (xs ++ xs') (ys ++ ys') :=
  ⟨List.rel_append h.covers h'.covers, by rw [List.sum_append, List.sum_append, h.sum, h'.sum]; omega⟩

theorem widerBy_modify {amount : Int} (hamount : 0 ≤ amount) {columns : List Int} {d : Nat} (hd : d < columns.length) :
    WiderBy amount columns (columns.modify d (· + amount)) := by
  induction columns generalizing d with
  | nil => cases hd
  | cons width columns ih =>
      cases d with
      | zero =>
          rw [List.modify_zero_cons]
          refine ⟨.cons (Int.le_add_of_nonneg_right hamount) (covers_refl columns), ?_⟩
          rw [List.sum_cons, List.sum_cons]
          omega
      | succ d =>
          rw [List.modify_succ_cons]
          have hrest := ih (Nat.lt_of_succ_lt_succ hd)
          refine ⟨.cons (Int.le_refl _) hrest.covers, ?_⟩
          rw [List.sum_cons, List.sum_cons, hrest.sum]
          omega

theorem spreadOverflowed_spec {l : Layout} (hl : Sized cols l) (hleft : 0 ≤ l.left) :
    0 ≤ l.spreadOverflowed.left ∧ l.spreadOverflowed.left ≤ l.left ∧ WiderBy (l.left - l.spreadOverflowed.left) l.columns l.spreadOverflowed.columns := by
  rw [Layout.spreadOverflowed]
  dsimp only
  split_ifs with hnone
  · exact ⟨hleft, Int.le_refl _, by rw [Int.sub_self]; exact widerBy_refl _⟩
  · have hpos : (0 : Int) < (l.data.countP (· ≠ []) : Nat) := Int.natCast_pos.mpr (Nat.pos_of_ne_zero hnone)
    have hnorm : 0 ≤ l.left / (l.data.countP (· ≠ []) : Nat) := Int.ediv_nonneg hleft (Int.le_of_lt hpos)
    have hwider := widerBy_zipWith hnorm (hl.columns.trans hl.data.symm)
    have hle : (l.data.countP (· ≠ []) : Nat) * (l.left / (l.data.countP (· ≠ []) : Nat)) ≤ l.left := Int.mul_ediv_self_le (Int.ne_of_gt hpos)
    have hmul := Int.mul_nonneg (Int.le_of_lt hpos) hnorm
    refine ⟨Int.sub_nonneg_of_le hle, Int.sub_le_self _ hmul, ?_⟩
    rw [Int.sub_sub_self]
    exact hwider

/-- Two columns or more take all that is left, and none becomes narrower. -/
theorem spread_spec {l : Layout} {remainderColumn : Nat} (hl : Sized cols l) (hleft : 0 ≤ l.left) {widths : List Int}
    (h : l.spread cols remainderColumn = .ok widths) : WiderBy l.left l.columns widths := by
  obtain ⟨hleft', hless, hwider⟩ := spreadOverflowed_spec hl hleft
  have hlength : l.spreadOverflowed.columns.length = cols := (hwider.covers.length_eq).symm.trans hl.columns
  rw [Layout.spread] at h
  dsimp only at h
  split_ifs at h with hone hrange
  obtain rfl := Except.ok.inj h
  generalize l.spreadOverflowed = l' at hleft' hless hwider hlength hrange
  have hpos : (0 : Int) < (cols - 1 : Nat) := Int.natCast_pos.mpr (Nat.pos_of_ne_zero hone)
  have hnorm : 0 ≤ l'.left / (cols - 1 : Nat) := Int.ediv_nonneg hleft' (Int.le_of_lt hpos)
  have hle : (cols - 1 : Nat) * (l'.left / (cols - 1 : Nat)) ≤ l'.left := Int.mul_ediv_self_le (Int.ne_of_gt hpos)
  have hshares := widerBy_append (widerBy_map hnorm (l'.columns.take (cols - 1))) (widerBy_refl (l'.columns.drop (cols - 1)))
  rw [List.take_append_drop, List.length_take, hlength, Nat.min_eq_left (Nat.sub_le cols 1)] at hshares
  have hrest := widerBy_modify (Int.sub_nonneg_of_le hle) (hshares.covers.length_eq ▸ hrange)
  have hall := (hwider.trans hshares).trans hrest
  have hamount : l.left - l'.left + ((cols - 1 : Nat) * (l'.left / (cols - 1 : Nat)) + 0) +
      (l'.left - (cols - 1 : Nat) * (l'.left / (cols - 1 : Nat))) = l.left := by omega
  rwa [hamount] at hall

theorem exists_spread {l : Layout} {remainderColumn : Nat} (hl : Sized cols l) (hleft : 0 ≤ l.left) (hcols : 2 ≤ cols) (hremainder : remainderColumn < cols) :
    ∃ widths, l.spread cols remainderColumn = .ok widths := by
  obtain ⟨-, -, hwider⟩ := spreadOverflowed_spec hl hleft
  have hlength : l.spreadOverflowed.columns.length = cols := (hwider.covers.length_eq).symm.trans hl.columns
  have hmore : cols - 1 ≠ 0 := by omega
  rw [Layout.spread]
  dsimp only
  rw [if_neg hmore, if_pos (hlength ▸ hremainder)]
  exact ⟨_, rfl⟩

/-! ### The line is not overrun -/

/-- The widths and what is left come to at most `space`; where one too many has been taken, to less. -/
structure Within (space : Int) (l : Layout) : Prop where
  filled : l.columns.sum + l.left ≤ space
  overdrawn : -1 ≤ l.left
  lacking : l.left = -1 → l.columns.sum + l.left ≤ space - 1

/-- The step takes the space before the last column. -/
def TakesSpace (cols : Nat) (l : Layout) (val : Nat) : Prop := l.columns.getD val 0 = 0 ∧ val = cols - 1

instance (cols : Nat) (l : Layout) (val : Nat) : Decidable (TakesSpace cols l val) := inferInstanceAs (Decidable (_ ∧ _))

theorem filled_next {l t : Layout} {val : Nat} (hl : Sized cols l) (h : (columnsSystem cols).next l val = some t) :
    (t.columns.sum + t.left = l.columns.sum + l.left - if TakesSpace cols l val then 1 else 0) ∧ (-if TakesSpace cols l val then 1 else 0) ≤ t.left := by
  obtain ⟨field, rest, hwidens⟩ := next_cases h
  have hsum := sum_set_add l.columns (hl.columns ▸ hwidens.inRange) (field.1 : Int)
  have hfits := hwidens.fits
  have htaken := hwidens.taken
  rw [← hwidens.columns] at hsum
  by_cases hspace : TakesSpace cols l val
  · rw [if_pos (show _ ∧ _ from hspace)] at htaken
    rw [if_pos hspace]
    omega
  · rw [if_neg (show ¬(_ ∧ _) from hspace)] at htaken
    rw [if_neg hspace]
    omega

theorem Within.next {space : Int} {l t : Layout} {val : Nat} (hl : Sized cols l) (hwithin : Within space l) (h : (columnsSystem cols).next l val = some t) :
    Within space t := by
  obtain ⟨hsum, hleft⟩ := filled_next hl h
  have hfilled := hwithin.filled
  split_ifs at hsum hleft <;> exact ⟨by omega, by omega, by omega⟩

/-- A step that takes the space before the last column, and has room for it, leaves less to be filled. -/
theorem Within.next_takes {space : Int} {l t : Layout} {val : Nat} (hl : Sized cols l) (hwithin : Within space l)
    (h : (columnsSystem cols).next l val = some t) (hspace : TakesSpace cols l val) (hroom : 0 ≤ t.left) : Within (space - 1) t := by
  obtain ⟨hsum, -⟩ := filled_next hl h
  have hfilled := hwithin.filled
  rw [if_pos hspace] at hsum
  exact ⟨by omega, by omega, by omega⟩

theorem run_within {space : Int} {l t : Layout} {vals : List Nat} (hrun : (columnsSystem cols).Run System.anyStep l vals t) (hl : Sized cols l)
    (hwithin : Within space l) : Sized cols t ∧ Within space t := by
  have hstep : ∀ s val t, Sized cols s ∧ Within space s → System.anyStep s val → (columnsSystem cols).next s val = some t → Sized cols t ∧ Within space t :=
    fun _ _ _ hinv _ hnext => ⟨hinv.1.next hnext, hinv.2.next hinv.1 hnext⟩
  exact hrun.invariant hstep ⟨hl, hwithin⟩

/-- In the run of the loop a step takes the space before the last column, and has room for it. -/
def TakesSpaceInTime (cols : Nat) (start : Layout) : Prop :=
  ∃ vals l t, (columnsSystem cols).Run System.anyStep start vals l ∧ TakesSpace cols l (cols - 1) ∧ (columnsSystem cols).next l (cols - 1) = some t ∧ 0 ≤ t.left

/-- What the loop returns fills the space. -/
theorem calcLoop_within {space : Int} {l : Layout} {remainderColumn : Nat} (hcols : 2 ≤ cols) (hremainder : remainderColumn < cols) (hl : Sized cols l)
    (hwithin : Within space l) : ∃ widths, calcLoop cols remainderColumn (l.fields + 1) l = some (.ok widths) ∧ widths.sum ≤ space ∧
      (TakesSpaceInTime cols l → widths.sum ≤ space - 1) := by
  obtain ⟨vals, t, hrun, hstuck, ht, hend⟩ := calcLoop_run remainderColumn hl (Nat.lt_succ_self _)
  have hwidths : ∃ widths, calcLoop cols remainderColumn (l.fields + 1) l = some (.ok widths) ∧ ∀ limit, Within limit t → widths.sum ≤ limit := by
    rcases hend with ⟨hleft, hresult⟩ | ⟨hleft, hresult⟩
    · refine ⟨t.columns, hresult, fun limit hlimit => ?_⟩
      have hfilled := hlimit.filled
      have hoverdrawn := hlimit.overdrawn
      by_cases hlacking : t.left = -1
      · have hless := hlimit.lacking hlacking
        omega
      · omega
    · obtain ⟨widths, hspread⟩ := exists_spread ht (Int.le_of_lt hleft) hcols hremainder
      refine ⟨widths, hresult.trans (congrArg some hspread), fun limit hlimit => ?_⟩
      rw [(spread_spec ht (Int.le_of_lt hleft) hspread).sum]
      exact hlimit.filled
  obtain ⟨widths, hresult, hsum⟩ := hwidths
  refine ⟨widths, hresult, hsum space (run_within hrun hl hwithin).2, ?_⟩
  rintro ⟨vals', u, v, hrun', htakes, hnext, hroom⟩
  obtain ⟨hu, hwithin'⟩ := run_within hrun' hl hwithin
  obtain ⟨vals'', hrest⟩ := (hrun.through (columnsSystem_deterministic cols) hstuck (hrun'.snoc hnext))
  exact hsum (space - 1) (run_within hrest (hu.next hnext) (hwithin'.next_takes hu hnext htakes hroom)).2

theorem sum_defaultColumns {n : Nat} (hn : 1 ≤ n) : (defaultColumns n).sum = n - 1 ∧ (defaultColumns n).length = n := by
  have hones : ∀ k : Nat, (List.replicate k (1 : Int)).sum = k := by
    intro k
    induction k with
    | zero => rfl
    | succ k ih => rw [List.replicate_succ, List.sum_cons, ih, Int.add_comm, Int.natCast_succ]
  rw [defaultColumns, List.sum_append, hones, List.length_append, List.length_replicate]
  simp only [List.sum_cons, List.sum_nil, List.length_singleton]
  omega

/-- With the default minimums and room for them, the loop ends. The widths fit the line if the last column is widened in time; if it is left without width, they do without the space before it. -/
theorem calcColumns_fits (term : Term) (data : List Histogram) (hcols : 2 ≤ data.length) (remainderColumn : Nat) (hremainder : remainderColumn < data.length)
    (totalWidth : Int) (indentLength indentWidth : Nat)
    (htotal : (defaultColumns data.length).sum + (data.length - 1) + indentWidth ≤ totalWidth) :
    ∃ widths, calcColumns term data none remainderColumn (some totalWidth) indentLength indentWidth = some (.ok widths) ∧
      (TakesSpaceInTime data.length (startLayout (data.map sortFields) (defaultColumns data.length) totalWidth indentWidth) →
        widths.sum + (data.length - 1) + indentWidth ≤ totalWidth) ∧
      (widths.getLast? = some 0 → widths.sum + (data.length - 2) + indentWidth ≤ totalWidth) := by
  obtain ⟨hsum, hlength⟩ := sum_defaultColumns (n := data.length) (by omega)
  have hlast : (defaultColumns data.length).getLast? = some 0 := List.getLast?_concat ..
  let start := startLayout (data.map sortFields) (defaultColumns data.length) totalWidth indentWidth
  have hsized : Sized data.length start := ⟨hlength, List.length_map _⟩
  have hleft : start.left = totalWidth - ((defaultColumns data.length).sum + (data.length - 1) + indentWidth) + 1 := by
    rw [show start = startLayout (data.map sortFields) (defaultColumns data.length) totalWidth indentWidth from rfl, startLayout, hlast, if_pos rfl, List.length_map]
  have hwithin : Within (totalWidth - (data.length - 1) - indentWidth + 1) start :=
    ⟨by rw [hleft, show start.columns = defaultColumns data.length from rfl]; omega, by omega, by omega⟩
  obtain ⟨widths, hresult, hspace, hpaid⟩ := calcLoop_within hcols hremainder hsized hwithin
  refine ⟨widths, ?_, fun htakes => ?_, fun _ => ?_⟩
  · have hne : data.map sortFields ≠ [] := fun hnil => by rw [List.map_eq_nil_iff.mp hnil] at hcols; exact absurd hcols (by decide)
    have hnonzero : totalWidth ≠ 0 := by omega
    rw [calcColumns, if_neg hne, calcStart, Option.getD_some, if_neg hnonzero, List.length_map, Option.getD_none]
    exact hresult
  · have hfits := hpaid htakes
    omega
  · omega

/-- Two columns, the second of them with short fields: the first is widened, then the second, in time. -/
theorem calcColumns_fits_two :
    ∃ widths, calcColumns ⟨80, 80⟩ [[(5, 3)], [(2, 1)]] none 0 (some 20) 0 0 = some (.ok widths) ∧
      (TakesSpaceInTime 2 (startLayout ([[(5, 3)], [(2, 1)]].map sortFields) (defaultColumns 2) 20 0) → widths.sum + (2 - 1) + 0 ≤ 20) ∧
      (widths.getLast? = some 0 → widths.sum + (2 - 2) + 0 ≤ 20) :=
  calcColumns_fits ⟨80, 80⟩ [[(5, 3)], [(2, 1)]] (by decide) 0 (by decide) 20 0 0 (by decide)

/-- A last column without fields is left without width, and the other takes the whole line. -/
theorem not_fits_empty_last : ((defaultColumns 2).sum + (2 - 1) + 0 ≤ 10) ∧
    ¬∃ widths, calcColumns ⟨80, 80⟩ [[(5, 1)], []] none 0 (some 10) 0 0 = some (.ok widths) ∧ widths.sum + (2 - 1) + 0 ≤ 10 := by
  refine ⟨by decide, ?_⟩
  rintro ⟨widths, hwidths, hfits⟩
  have hresult : calcColumns ⟨80, 80⟩ [[(5, 1)], []] none 0 (some 10) 0 0 = some (.ok [10, 0]) := by decide +kernel
  obtain rfl := Except.ok.inj (Option.some.inj (hresult.symm.trans hwidths))
  exact absurd hfits (by decide)

/-! ### The minimums -/

/-- The column is widened to a field that is no shorter than its minimum. -/
def LongEnough (minimums : List Int) (l : Layout) (val : Nat) : Prop := ∀ field ∈ (l.data.getD val []).head?, minimums.getD val 0 ≤ (field.1 : Int)

theorem covers_set_iff {minimums widths : List Int} (h : Covers minimums widths) {n : Nat} (hn : n < widths.length) (x : Int) :
    Covers minimums (widths.set n x) ↔ minimums.getD n 0 ≤ x := by
  induction h generalizing n with
  | nil => cases hn
  | @cons minimum width minimums widths hle hrest ih =>
      cases n with
      | zero => exact List.forall₂_cons.trans (and_iff_left hrest)
      | succ n => exact List.forall₂_cons.trans ((and_iff_right hle).trans (ih (Nat.lt_of_succ_lt_succ hn)))

theorem covers_next_iff {minimums : List Int} {l t : Layout} {val : Nat} (hl : Sized cols l) (h : Covers minimums l.columns)
    (hnext : (columnsSystem cols).next l val = some t) : Covers minimums t.columns ↔ LongEnough minimums l val := by
  obtain ⟨field, rest, hwidens⟩ := next_cases hnext
  rw [hwidens.columns, covers_set_iff h (hl.columns ▸ hwidens.inRange), LongEnough, hwidens.next, List.head?_cons]
  simp

/-- Every layout of the run has the minimums exactly if every step widens to a field that is long enough. -/
theorem run_covers_iff {minimums : List Int} {start : Layout} (hstart : Sized cols start) (hcovers : Covers minimums start.columns) :
    (∀ vals l, (columnsSystem cols).Run System.anyStep start vals l → Covers minimums l.columns) ↔
      ∀ vals l val t, (columnsSystem cols).Run System.anyStep start vals l → (columnsSystem cols).next l val = some t → LongEnough minimums l val := by
  have hsized : ∀ vals l, (columnsSystem cols).Run System.anyStep start vals l → Sized cols l := fun vals l hrun =>
    hrun.invariant (fun _ _ _ hinv _ hnext => hinv.next hnext) hstart
  constructor
  · intro h vals l val t hrun hnext
    exact (covers_next_iff (hsized vals l hrun) (h vals l hrun) hnext).mp (h (vals ++ [val]) t (hrun.snoc hnext))
  · intro h vals l hrun
    clear hsized
    induction hrun with
    | nil s => exact hcovers
    | cons _ hnext _ ih =>
        have hlong := h [] _ _ _ (.nil _) hnext
        refine ih (hstart.next hnext) ((covers_next_iff hstart hcovers hnext).mpr hlong) fun vals l val t hrun hnext' => ?_
        exact h (_ :: vals) l val t (.cons trivial hnext hrun) hnext'

/-- The longest field of the column, if it has any, is no shorter than the minimum, which `extra` may help to reach. -/
def FullLongEnough (extra : Int) (fields : Histogram) (minimum : Int) : Prop := ∀ field ∈ fields.getLast?, minimum ≤ (field.1 : Int) + extra

/-- The first column has the indent twice. -/
def AllFullLongEnough (indentLength : Nat) : List Histogram → List Int → Prop
  | fields :: data, minimum :: minimums => FullLongEnough (indentLength * 2) fields minimum ∧ List.Forall₂ (FullLongEnough 0) data minimums
  | _, _ => True

theorem le_fullColumn_iff (fields : Histogram) (minimum : Int) (extra : Nat) : minimum ≤ fullColumn fields minimum + extra ↔ FullLongEnough extra fields minimum := by
  rw [fullColumn, FullLongEnough]
  cases fields.getLast? with
  | none => exact iff_of_true (by rw [Option.map_none, Option.getD_none]; omega) fun field hfield => by cases hfield
  | some field => simp

theorem covers_zipWith_iff {data : List Histogram} {minimums : List Int} (hlength : minimums.length = data.length) :
    Covers minimums (List.zipWith fullColumn data minimums) ↔ List.Forall₂ (FullLongEnough 0) data minimums := by
  induction data generalizing minimums with
  | nil =>
      obtain rfl := List.eq_nil_of_length_eq_zero hlength
      exact iff_of_true .nil .nil
  | cons fields data ih =>
      cases minimums with
      | nil => cases hlength
      | cons minimum minimums =>
          have hhere := le_fullColumn_iff fields minimum 0
          rw [Int.natCast_zero, Int.add_zero] at hhere
          exact List.forall₂_cons.trans ((and_congr hhere (ih (Nat.succ.inj hlength))).trans List.forall₂_cons.symm)

theorem covers_fullColumns_iff (indentLength : Nat) {data : List Histogram} {minimums : List Int} (hlength : minimums.length = data.length) :
    Covers minimums (fullColumns indentLength data minimums) ↔ AllFullLongEnough indentLength data minimums := by
  rw [fullColumns]
  rcases data with _ | ⟨fields, data⟩
  · obtain rfl := List.eq_nil_of_length_eq_zero hlength
    exact iff_of_true .nil trivial
  · rcases minimums with _ | ⟨minimum, minimums⟩
    · cases hlength
    · exact List.forall₂_cons.trans (and_congr (le_fullColumn_iff fields minimum (indentLength * 2)) (covers_zipWith_iff (Nat.succ.inj hlength)))

/-- The minimums are kept: by what is returned, and by each layout of the loop. -/
def KeepsMinimums (term : Term) (data : List Histogram) (minimums : List Int) (remainderColumn : Nat) (totalWidth : Option Int)
    (indentLength indentWidth : Nat) : Prop :=
  (∀ widths, calcColumns term data (some minimums) remainderColumn totalWidth indentLength indentWidth = some (.ok widths) → Covers minimums widths) ∧
    ∀ start, calcStart term (data.map sortFields) minimums totalWidth indentLength indentWidth = .inr start →
      ∀ vals l, (columnsSystem data.length).Run System.anyStep start vals l → Covers minimums l.columns

/-- Every step of the loop widens to a field that is long enough; or the longest fields are, where no loop is needed. -/
def StepsLongEnough (data : List Histogram) (minimums : List Int) (indentLength : Nat) : List Int ⊕ Layout → Prop
  | .inl _ => AllFullLongEnough indentLength (data.map sortFields) minimums
  | .inr start => ∀ vals l val t, (columnsSystem data.length).Run System.anyStep start vals l → (columnsSystem data.length).next l val = some t →
      LongEnough minimums l val

theorem calcStart_inr {term : Term} {data : List Histogram} {columns : List Int} {totalWidth : Option Int} {indentLength indentWidth : Nat} {start : Layout}
    (h : calcStart term data columns totalWidth indentLength indentWidth = .inr start) : start.columns = columns ∧ start.data = data := by
  rw [calcStart] at h
  split_ifs at h <;> exact Sum.inr.inj h ▸ ⟨rfl, rfl⟩

theorem calcStart_inl {term : Term} {data : List Histogram} {columns widths : List Int} {totalWidth : Option Int} {indentLength indentWidth : Nat}
    (h : calcStart term data columns totalWidth indentLength indentWidth = .inl widths) : widths = fullColumns indentLength data columns := by
  rw [calcStart] at h
  split_ifs at h
  exact (Sum.inl.inj h).symm

/-- What the loop returns is at least as wide as the columns of all its layouts are sure to be. -/
theorem covers_calcLoop {minimums widths : List Int} {start : Layout} {remainderColumn : Nat} (hstart : Sized cols start)
    (hcovers : ∀ vals l, (columnsSystem cols).Run System.anyStep start vals l → Covers minimums l.columns)
    (h : calcLoop cols remainderColumn (start.fields + 1) start = some (.ok widths)) : Covers minimums widths := by
  obtain ⟨vals, t, hrun, -, ht, ⟨-, hresult⟩ | ⟨hleft, hresult⟩⟩ := calcLoop_run remainderColumn hstart (Nat.lt_succ_self _)
  · obtain rfl := Except.ok.inj (Option.some.inj (hresult.symm.trans h))
    exact hcovers vals t hrun
  · exact (hcovers vals t hrun).trans (spread_spec ht (Int.le_of_lt hleft) (Option.some.inj (hresult.symm.trans h))).covers

/-- It is so exactly if every step of the loop widens its column to a field that is no shorter than the minimum of the column. -/
theorem keepsMinimums_iff (term : Term) (data : List Histogram) (minimums : List Int) (hlength : minimums.length = data.length) (remainderColumn : Nat)
    (totalWidth : Option Int) (indentLength indentWidth : Nat) :
    KeepsMinimums term data minimums remainderColumn totalWidth indentLength indentWidth ↔
      StepsLongEnough data minimums indentLength (calcStart term (data.map sortFields) minimums totalWidth indentLength indentWidth) := by
  have hlength' : minimums.length = (data.map sortFields).length := hlength.trans (List.length_map _).symm
  rw [KeepsMinimums, calcColumns, Option.getD_some]
  cases hstart : calcStart term (data.map sortFields) minimums totalWidth indentLength indentWidth with
  | inl full =>
      obtain rfl := calcStart_inl hstart
      rw [StepsLongEnough, ← covers_fullColumns_iff indentLength hlength', and_iff_left fun start h => by cases h]
      by_cases hnil : data.map sortFields = []
      · obtain rfl := List.map_eq_nil_iff.mp hnil
        obtain rfl := List.eq_nil_of_length_eq_zero hlength
        exact iff_of_true (fun widths h => by cases h) .nil
      · rw [if_neg hnil]
        exact ⟨fun h => h _ rfl, fun h widths hwidths => Except.ok.inj (Option.some.inj hwidths) ▸ h⟩
  | inr start =>
      obtain ⟨hcolumns, hdata⟩ := calcStart_inr hstart
      have hsized : Sized data.length start := ⟨hcolumns ▸ hlength, by rw [hdata, List.length_map]⟩
      rw [StepsLongEnough, ← run_covers_iff hsized (hcolumns ▸ covers_refl minimums)]
      refine ⟨fun h => h.2 start rfl, fun h => ⟨fun widths hwidths => ?_, fun start' heq => Sum.inr.inj heq ▸ h⟩⟩
      split at hwidths
      · cases hwidths
      · rw [List.length_map] at hwidths
        exact covers_calcLoop hsized h hwidths

theorem keepsMinimums_iff_two : KeepsMinimums ⟨80, 80⟩ [[(3, 1)], [(28, 1)]] [2, 1] 0 (some 40) 0 0 ↔
    StepsLongEnough [[(3, 1)], [(28, 1)]] [2, 1] 0 (calcStart ⟨80, 80⟩ ([[(3, 1)], [(28, 1)]].map sortFields) [2, 1] (some 40) 0 0) :=
  keepsMinimums_iff ⟨80, 80⟩ [[(3, 1)], [(28, 1)]] [2, 1] (by decide) 0 (some 40) 0 0

/-- The first column has one short field. It gives space away, and the second takes it. -/
theorem not_keepsMinimums_short : ¬KeepsMinimums ⟨80, 80⟩ [[(3, 1)], [(28, 1)]] [10, 1] 0 (some 32) 0 0 := by
  intro h
  have hcovers := h.1 [3, 28] (by decide +kernel)
  cases hcovers with
  | cons hle _ => exact absurd hle (by decide)

end Dnf.Cli
