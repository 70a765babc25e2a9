import Dnf.Cli.FmtColumns

/-!
# Rows stay aligned

Each column adds a part to the format and the texts of that part to the arguments, so that together they convert to the segments of the column. A value that fits leaves the cursor behind its column, and one that does not fit leaves it there on the next line.

The text in front of the row is where this goes wrong: it is read as a format and counted in characters.
-/

namespace Dnf.Cli.FmtColumns

open Foundation
open Foundation.PercentFormat

section Segments

variable (segments rest : List Segment)

@[simp] theorem raw_append : raw (segments ++ rest) = raw segments ++ raw rest := List.flatMap_append

@[simp] theorem shown_append : shown (segments ++ rest) = shown segments ++ shown rest := List.flatMap_append

end Segments

section Cursor

variable {wide : Char → Bool} {start : Nat} {text : List Char}

theorem cursor_append (rest : List Char) : cursor wide start (text ++ rest) = cursor wide (cursor wide start text) rest := List.foldl_append

theorem cursor_line (hline : '\n' ∉ text) : cursor wide start text = start + exactWidth wide text := by
  induction text generalizing start with
  | nil => rfl
  | cons c text ih =>
      obtain ⟨hc, htext⟩ := not_or.mp (List.mem_cons.not.mp hline)
      rw [cursor, List.foldl_cons, if_neg (Ne.symm hc)]
      rw [← cursor, ih htext, exactWidth, exactWidth, List.map_cons, List.sum_cons, Nat.add_assoc]

theorem exactWidth_blanks (hblank : wide ' ' = false) (n : Nat) : exactWidth wide (blanks n) = n := by
  rw [exactWidth, blanks, List.map_replicate, List.sum_replicate, exactWidthChar, if_neg (by simp [hblank])]
  exact Nat.mul_one n

theorem line_blanks (n : Nat) : '\n' ∉ blanks n := fun hmem => absurd (List.eq_of_mem_replicate hmem) (by decide)

theorem cursor_blanks (hblank : wide ' ' = false) (n : Nat) : cursor wide start (blanks n) = start + n := by
  rw [cursor_line (line_blanks n), exactWidth_blanks hblank]

end Cursor

/-! ### One column -/

section Column

variable (wide : Char → Bool) (term : Term) (column : Column) (totalWidth : Nat)

/-- What a column adds to the format. -/
def Column.part : List Char :=
  if exactWidth wide column.value ≤ column.room then ['%', 's', '%', 's', '%', 's', '%', 's', ' ']
  else ['%', 's', '%', 's', '%', 's', '\n'] ++ blanks (totalWidth + column.room + 1)

/-- What it adds to the arguments. -/
def Column.args : List (List Char) :=
  if exactWidth wide column.value ≤ column.room then
    if column.width < 0 then
      [(term.highlight column.highlight).1, column.value, blanks (column.room - exactWidth wide column.value), (term.highlight column.highlight).2]
    else [(term.highlight column.highlight).1, blanks (column.room - exactWidth wide column.value), column.value, (term.highlight column.highlight).2]
  else [(term.highlight column.highlight).1, column.value, (term.highlight column.highlight).2]

def Column.segments : List Segment :=
  if exactWidth wide column.value ≤ column.room then
    if column.width < 0 then
      [.control (term.highlight column.highlight).1, .text column.value, .text (blanks (column.room - exactWidth wide column.value)),
        .control (term.highlight column.highlight).2, .text [' ']]
    else
      [.control (term.highlight column.highlight).1, .text (blanks (column.room - exactWidth wide column.value)), .text column.value,
        .control (term.highlight column.highlight).2, .text [' ']]
  else
    [.control (term.highlight column.highlight).1, .text column.value, .control (term.highlight column.highlight).2,
      .text ('\n' :: blanks (totalWidth + column.room + 1))]

/-- The percent signs that a column has to print. -/
def Column.percents : Nat :=
  PercentFormat.percents column.value + PercentFormat.percents (term.highlight column.highlight).1 + PercentFormat.percents (term.highlight column.highlight).2

variable {wide term column totalWidth}

theorem fmtColumnAlignWidth_eq (column : Column) : fmtColumnAlignWidth column.width = (decide (column.width < 0), column.room) := by
  unfold fmtColumnAlignWidth Column.room
  split_ifs with hleft
  · rw [decide_eq_true hleft, show (-column.width).toNat = column.width.natAbs by omega]
  · rw [decide_eq_false hleft, show column.width.toNat = column.width.natAbs by omega]

theorem Row.add_eq (row : Row) (hwidth : column.width ≠ 0) :
    row.add wide term column = ⟨row.msg ++ column.part wide row.totalWidth, row.data ++ column.args wide term, row.totalWidth + column.room + 1⟩ := by
  by_cases hfits : exactWidth wide column.value ≤ column.room
  · simp only [Row.add, if_neg hwidth, fmtColumnAlignWidth_eq, Column.part, Column.args, decide_eq_true_eq, if_pos hfits]
  · simp only [Row.add, if_neg hwidth, fmtColumnAlignWidth_eq, Column.part, Column.args, if_neg hfits]

theorem converts_part {printable : Char → Bool} :
    Converts printable (column.part wide totalWidth) (column.args wide term) (raw (column.segments wide term totalWidth)) := by
  have hblank : Converts printable [' '] [] [' '] := converts_plain (by decide)
  have hline (n : Nat) : Converts printable ('\n' :: blanks n) [] ('\n' :: blanks n) := by
    refine converts_plain (not_or.mpr ?_ ∘ List.mem_cons.mp)
    exact ⟨by decide, fun hmem => absurd (List.eq_of_mem_replicate hmem) (by decide)⟩
  have hargs (a b c d : List Char) : Converts printable ['%', 's', '%', 's', '%', 's', '%', 's', ' '] [a, b, c, d] (a ++ (b ++ (c ++ (d ++ [' '])))) :=
    (converts_s a).append ((converts_s b).append ((converts_s c).append ((converts_s d).append hblank)))
  unfold Column.part Column.args Column.segments
  split_ifs with hfits hleft
  · exact hargs _ _ _ _
  · exact hargs _ _ _ _
  · have hraw (a b c d : List Char) : raw [.control a, .text b, .control c, .text d] = a ++ (b ++ (c ++ d)) :=
      congrArg (fun rest => a ++ (b ++ (c ++ rest))) (List.append_nil d)
    rw [hraw]
    exact (converts_s _).append ((converts_s _).append ((converts_s _).append (hline _)))

theorem padding_of_lt (hfits : ¬exactWidth wide column.value ≤ column.room) : column.padding wide = 0 := by
  unfold Column.padding
  split_ifs
  · rfl
  · exact Nat.sub_eq_zero_of_le (Nat.le_of_not_le hfits)

theorem showsInner_segments : column.ShowsInner wide term (column.segments wide term totalWidth) := by
  unfold Column.ShowsInner Column.segments
  split_ifs with hfits hleft
  · have hpadding : column.padding wide = 0 := if_pos hleft
    refine ⟨column.room - exactWidth wide column.value + 1, ?_, rfl⟩
    rw [hpadding, show blanks (column.room - exactWidth wide column.value + 1) = _ ++ [' '] from List.replicate_succ']
    rfl
  · have hpadding : column.padding wide = column.room - exactWidth wide column.value := if_neg hleft
    refine ⟨1, ?_, rfl⟩
    rw [hpadding, List.append_assoc]
    rfl
  · refine ⟨totalWidth + column.room + 1, ?_, rfl⟩
    rw [padding_of_lt hfits]
    exact congrArg (column.value ++ ·) (List.append_nil _)

theorem cursor_segments (hblank : wide ' ' = false) (hline : '\n' ∉ column.value) :
    cursor wide totalWidth (shown (column.segments wide term totalWidth)) = totalWidth + column.room + 1 := by
  unfold Column.segments
  split_ifs with hfits hleft
  · have hshown (room : Nat) : shown [.control (term.highlight column.highlight).1, .text column.value, .text (blanks room), .control (term.highlight column.highlight).2, .text [' ']] =
        column.value ++ (blanks room ++ blanks 1) := rfl
    rw [hshown, cursor_append, cursor_append, cursor_blanks hblank, cursor_blanks hblank, cursor_line hline]
    omega
  · have hshown (room : Nat) : shown [.control (term.highlight column.highlight).1, .text (blanks room), .text column.value, .control (term.highlight column.highlight).2, .text [' ']] =
        blanks room ++ (column.value ++ blanks 1) := rfl
    rw [hshown, cursor_append, cursor_append, cursor_blanks hblank, cursor_blanks hblank, cursor_line hline]
    omega
  · have hshown (room : Nat) : shown [.control (term.highlight column.highlight).1, .text column.value, .control (term.highlight column.highlight).2, .text ('\n' :: blanks room)] =
        column.value ++ (['\n'] ++ blanks room) := congrArg (column.value ++ ·) (List.append_nil _)
    rw [hshown, cursor_append, cursor_append, cursor_blanks hblank]
    exact Nat.zero_add _

theorem percents_part : percents (column.part wide totalWidth) = (column.args wide term).length := by
  unfold Column.part Column.args
  split_ifs
  · rfl
  · rfl
  · rw [percents_append, blanks, percents_blanks]
    rfl

theorem percents_args : ((column.args wide term).map percents).sum = column.percents term := by
  have hblanks : percents (blanks (column.room - exactWidth wide column.value)) = 0 := percents_blanks _
  unfold Column.args Column.percents
  split_ifs <;> simp only [List.map_cons, List.map_nil, List.sum_cons, List.sum_nil, hblanks] <;> omega

variable (wide term column) in
def Column.lastSegments : List Segment :=
  if column.room ≤ exactWidth wide column.value then
    [.control (term.highlight column.highlight).1, .text column.value, .control (term.highlight column.highlight).2]
  else if column.width < 0 then
    [.control (term.highlight column.highlight).1, .text column.value, .control (term.highlight column.highlight).2,
      .text (blanks (column.room - exactWidth wide column.value))]
  else
    [.text (blanks (column.room - exactWidth wide column.value)), .control (term.highlight column.highlight).1, .text column.value,
      .control (term.highlight column.highlight).2]

theorem raw_lastSegments : raw (column.lastSegments wide term) = lastValue wide term column := by
  simp only [Column.lastSegments, lastValue, fillExactWidth, fmtColumnAlignWidth_eq, decide_eq_true_eq]
  split_ifs <;> simp [raw]

theorem percents_lastValue : percents (lastValue wide term column) = column.percents term := by
  have hblanks (n : Nat) : percents (blanks n) = 0 := percents_blanks n
  simp only [lastValue, fillExactWidth, fmtColumnAlignWidth_eq, Column.percents]
  split_ifs <;> simp only [percents_append, hblanks] <;> omega

theorem showsLast_lastSegments : column.ShowsLast wide term (column.lastSegments wide term) := by
  unfold Column.ShowsLast Column.lastSegments
  split_ifs with hfull hleft
  · have hpadding : column.padding wide = 0 := by
      unfold Column.padding
      split_ifs
      · rfl
      · exact Nat.sub_eq_zero_of_le hfull
    refine ⟨0, ?_, rfl⟩
    rw [hpadding]
    rfl
  · have hpadding : column.padding wide = 0 := if_pos hleft
    refine ⟨column.room - exactWidth wide column.value, ?_, rfl⟩
    rw [hpadding]
    exact congrArg (column.value ++ ·) (List.append_nil _)
  · have hpadding : column.padding wide = column.room - exactWidth wide column.value := if_neg hleft
    refine ⟨0, ?_, rfl⟩
    rw [hpadding, List.append_assoc]
    rfl

theorem percents_raw (segments : List Segment) : percents (raw segments) = percents (shown segments) + ((codes segments).map percents).sum := by
  induction segments with
  | nil => rfl
  | cons segment segments ih =>
      have hraw : raw (segment :: segments) = raw [segment] ++ raw segments := raw_append [segment] segments
      have hshown : shown (segment :: segments) = shown [segment] ++ shown segments := shown_append [segment] segments
      rw [hraw, hshown, percents_append, percents_append, ih]
      cases segment with
      | text text =>
          have hcodes : codes (.text text :: segments) = codes segments := rfl
          have htext : raw [.text text] = shown [.text text] := rfl
          rw [hcodes, htext]
          omega
      | control code =>
          have hcodes : codes (.control code :: segments) = code :: codes segments := rfl
          have hcode : raw [.control code] = code := List.append_nil code
          have hnone : shown [.control code] = [] := rfl
          rw [hcodes, hcode, hnone, List.map_cons, List.sum_cons]
          have hzero : percents [] = 0 := rfl
          omega

theorem percents_le_of_shows {after : List Char} {segments : List Segment} (hshows : column.Shows wide term after segments) :
    column.percents term ≤ percents (raw segments) := by
  rw [percents_raw, hshows.shown, hshows.codes]
  simp only [percents_append, List.map_cons, List.map_nil, List.sum_cons, List.sum_nil, Column.percents]
  omega

end Column

/-! ### The loop -/

section Run

variable (wide : Char → Bool) (term : Term) (printable : Char → Bool) (msg : List Char)

/-- The row after the columns of `inner`. -/
structure Row.Describes (inner : List Column) (segments : List (List Segment)) (row : Row) : Prop where
  converts : ∃ part, row.msg = msg ++ part ∧ Converts printable part row.data (raw segments.flatten)
  shows : List.Forall₂ (Column.ShowsInner wide term) inner segments
  offsets : cursor wide 0 msg = msg.length → ∀ k ≤ inner.length,
    cursor wide 0 (msg ++ shown (segments.take k).flatten) = msg.length + ((inner.take k).map fun column => column.room + 1).sum
  totalWidth : row.totalWidth = msg.length + (inner.map fun column => column.room + 1).sum
  percents_msg : percents row.msg = percents msg + row.data.length
  percents_data : (row.data.map percents).sum = (inner.map (Column.percents term)).sum

variable {wide term printable msg} {inner : List Column} {segments : List (List Segment)} {row : Row} {column : Column}

theorem Row.Describes.add (hrow : row.Describes wide term printable msg inner segments) (hblank : wide ' ' = false) (hwidth : column.width ≠ 0)
    (hline : '\n' ∉ column.value) :
    (row.add wide term column).Describes wide term printable msg (inner ++ [column]) (segments ++ [column.segments wide term row.totalWidth]) := by
  have hlength : inner.length = segments.length := hrow.shows.length_eq
  rw [row.add_eq hwidth]
  constructor
  case converts =>
    obtain ⟨part, hmsg, hpart⟩ := hrow.converts
    refine ⟨part ++ column.part wide row.totalWidth, by rw [hmsg, List.append_assoc], ?_⟩
    rw [List.flatten_append, raw_append, List.flatten_singleton]
    exact hpart.append converts_part
  case shows => exact List.rel_append hrow.shows (.cons showsInner_segments .nil)
  case offsets =>
    intro hmsg k hk
    rw [List.length_append, List.length_singleton] at hk
    obtain hinner | hlast := Nat.lt_or_eq_of_le hk
    · have hle := Nat.le_of_lt_succ hinner
      rw [List.take_append_of_le_length (hlength ▸ hle), List.take_append_of_le_length hle]
      exact hrow.offsets hmsg k hle
    · have hall := hrow.offsets hmsg inner.length (Nat.le_refl _)
      rw [List.take_length, hlength, List.take_length, ← hrow.totalWidth] at hall
      rw [List.take_of_length_le (by rw [List.length_append, List.length_singleton]; omega),
        List.take_of_length_le (by rw [List.length_append, List.length_singleton]; omega), List.flatten_append, shown_append, ← List.append_assoc,
        cursor_append, hall, List.flatten_singleton, cursor_segments hblank hline, hrow.totalWidth, List.map_append, List.sum_append, List.map_singleton,
        List.sum_singleton]
      omega
  case totalWidth =>
    rw [List.map_append, List.sum_append, ← Nat.add_assoc, ← hrow.totalWidth]
    exact Nat.add_assoc _ _ _
  case percents_msg =>
    rw [percents_append, hrow.percents_msg, @percents_part wide term, List.length_append, Nat.add_assoc]
  case percents_data =>
    rw [List.map_append, List.sum_append, hrow.percents_data, percents_args, List.map_append, List.sum_append]
    rfl

theorem addAll_append : addAll wide term msg (inner ++ [column]) = (addAll wide term msg inner).add wide term column := List.foldl_concat _ _ column inner

theorem addAll_describes (hblank : wide ' ' = false) (hwidth : ∀ column ∈ inner, column.width ≠ 0) (hline : ∀ column ∈ inner, '\n' ∉ column.value) :
    ∃ segments, (addAll wide term msg inner).Describes wide term printable msg inner segments := by
  induction inner using List.reverseRecOn with
  | nil =>
      refine ⟨[], ⟨[], (List.append_nil msg).symm, converts_nil⟩, .nil, fun hmsg k _ => ?_, rfl, rfl, rfl⟩
      rw [List.take_nil, List.take_nil]
      exact (congrArg (cursor wide 0) (List.append_nil msg)).trans hmsg
  | append_singleton inner column ih =>
      obtain ⟨segments, hrow⟩ := ih (fun c hc => hwidth c (List.mem_append_left _ hc)) fun c hc => hline c (List.mem_append_left _ hc)
      have hcolumn : column ∈ inner ++ [column] := List.mem_append_right _ (List.mem_singleton_self column)
      refine ⟨segments ++ [column.segments wide term (addAll wide term msg inner).totalWidth], ?_⟩
      rw [addAll_append]
      exact hrow.add hblank (hwidth column hcolumn) (hline column hcolumn)

theorem fmtColumns_append (inner : List Column) (last : Column) (ending : List Char) :
    fmtColumns wide term printable (inner ++ [last]) msg ending =
      percentFormat printable none ((addAll wide term msg inner).msg ++ (['%', 's'] ++ ending)) ((addAll wide term msg inner).data ++ [lastValue wide term last]) := by
  rw [fmtColumns, List.getLast?_concat, List.dropLast_concat]

theorem percents_le_of_forall₂ (hinner : List.Forall₂ (Column.ShowsInner wide term) inner segments) :
    (inner.map (Column.percents term)).sum ≤ percents (raw segments.flatten) := by
  induction hinner with
  | nil => exact Nat.le_refl _
  | cons hcolumn _ ih =>
      obtain ⟨n, hshows⟩ := hcolumn
      rw [List.map_cons, List.sum_cons, List.flatten_cons, raw_append, percents_append]
      exact Nat.add_le_add (percents_le_of_shows hshows) ih

/-- A row that is aligned and complete prints the percent signs of all columns, and there are not enough of them when the texts around the row have some. -/
theorem percents_of_keepsAligned {columns : List Column} {ending : List Char} (hblank : wide ' ' = false) (hwidth : ∀ column ∈ columns, column.width ≠ 0)
    (hline : ∀ column ∈ columns, '\n' ∉ column.value) (h : KeepsAligned wide term columns msg ending (fmtColumns wide term printable columns msg ending)) :
    percents msg + percents ending = 0 := by
  obtain ⟨inner, last, segments, final, rfl, houtput, hinner, ⟨n, hlast⟩, -⟩ := h
  have hmem (column : Column) (hcolumn : column ∈ inner) : column ∈ inner ++ [last] := List.mem_append_left _ hcolumn
  obtain ⟨_, hrow⟩ : ∃ segments, (addAll wide term msg inner).Describes wide term printable msg inner segments :=
    addAll_describes hblank (fun c hc => hwidth c (hmem c hc)) fun c hc => hline c (hmem c hc)
  rw [fmtColumns_append] at houtput
  have hformat := percents_percentFormat_le none _ _ _ houtput
  have hspec : percents ['%', 's'] = 1 := rfl
  have hinner_le := percents_le_of_forall₂ hinner
  have hlast_le := percents_le_of_shows hlast
  simp only [percents_append, hrow.percents_msg, hspec, List.length_append, List.length_singleton, List.map_append, List.map_singleton, List.sum_append,
    List.sum_singleton, hrow.percents_data, percents_lastValue, Option.isSome_none, Bool.false_eq_true, if_false] at hformat
  omega

/-- The row keeps its columns aligned exactly when there is one, the texts around it have no percent sign, and the text in front of it takes as many cells as it has characters. -/
theorem keepsAligned_iff {columns : List Column} {ending : List Char} (hblank : wide ' ' = false) (hwidth : ∀ column ∈ columns, column.width ≠ 0)
    (hline : ∀ column ∈ columns, '\n' ∉ column.value) :
    KeepsAligned wide term columns msg ending (fmtColumns wide term printable columns msg ending) ↔
      columns ≠ [] ∧ '%' ∉ msg ∧ '%' ∉ ending ∧ cursor wide 0 msg = msg.length := by
  constructor
  · intro h
    have hpercents := percents_of_keepsAligned hblank hwidth hline h
    obtain ⟨inner, last, segments, final, rfl, -, -, -, hoffsets⟩ := h
    refine ⟨List.concat_ne_nil last inner, percents_eq_zero_iff.mp (by omega), percents_eq_zero_iff.mp (by omega), ?_⟩
    have hfirst := hoffsets 0 (Nat.zero_le _)
    rwa [List.take_zero, List.flatten_nil, List.take_zero, show shown [] = [] from rfl, List.append_nil] at hfirst
  · intro ⟨hcolumns, hmsg, hending, hcursor⟩
    obtain ⟨inner, last, rfl⟩ := (List.eq_nil_or_concat' columns).resolve_left hcolumns
    have hmem (column : Column) (hcolumn : column ∈ inner) : column ∈ inner ++ [last] := List.mem_append_left _ hcolumn
    obtain ⟨segments, hrow⟩ : ∃ segments, (addAll wide term msg inner).Describes wide term printable msg inner segments :=
      addAll_describes hblank (fun c hc => hwidth c (hmem c hc)) fun c hc => hline c (hmem c hc)
    obtain ⟨part, hpart, hconverts⟩ := hrow.converts
    refine ⟨inner, last, segments, last.lastSegments wide term, rfl, ?_, hrow.shows, showsLast_lastSegments, hrow.offsets hcursor⟩
    have hall := (converts_plain hmsg).append (hconverts.append ((converts_s (lastValue wide term last)).append (converts_plain hending)))
    rw [fmtColumns_append, hpart, raw_lastSegments]
    simpa using hall.format

/-- `fmtColumns([('a', 3), ('b', 2)], ' ')`. -/
theorem keepsAligned_iff_two :
    KeepsAligned (fun _ => false) ⟨[], [], fun _ => none, fun _ => none, fun _ => none⟩ [⟨['a'], 3, .off⟩, ⟨['b'], 2, .off⟩] [' '] []
        (fmtColumns (fun _ => false) ⟨[], [], fun _ => none, fun _ => none, fun _ => none⟩ (fun _ => true) [⟨['a'], 3, .off⟩, ⟨['b'], 2, .off⟩] [' '] []) ↔
      [⟨['a'], 3, .off⟩, ⟨['b'], 2, .off⟩] ≠ ([] : List Column) ∧ '%' ∉ [' '] ∧ '%' ∉ ([] : List Char) ∧
        cursor (fun _ => false) 0 [' '] = [' '].length :=
  keepsAligned_iff rfl (by simp) (by simp)

/-- `fmtColumns([('a', 3), ('b', 2)], '50% ')` raises a `TypeError`. -/
theorem not_keepsAligned_percent :
    ¬KeepsAligned (fun _ => false) ⟨[], [], fun _ => none, fun _ => none, fun _ => none⟩ [⟨['a'], 3, .off⟩, ⟨['b'], 2, .off⟩] ['5', '0', '%', ' '] []
        (fmtColumns (fun _ => false) ⟨[], [], fun _ => none, fun _ => none, fun _ => none⟩ (fun _ => true) [⟨['a'], 3, .off⟩, ⟨['b'], 2, .off⟩]
          ['5', '0', '%', ' '] []) := by
  have hnone : fmtColumns (fun _ => false) ⟨[], [], fun _ => none, fun _ => none, fun _ => none⟩ (fun _ => true) [⟨['a'], 3, .off⟩, ⟨['b'], 2, .off⟩]
      ['5', '0', '%', ' '] [] = none := by decide
  rw [hnone]
  intro h
  obtain ⟨_, _, _, _, _, houtput, _⟩ := h
  cases houtput

end Run

end Dnf.Cli.FmtColumns
