import Dnf.Foundation.PercentFormat
import Dnf.Foundation.PyStr
import Mathlib.Data.List.Forall2

/-!
# Rows of a table

`Output.fmtColumns` prints the values of a row in columns. It builds the row as a format, which begins as the text in front of the row, with a list of the texts that the format takes; a value that is too wide for its column is followed by a line break and the blanks up to the next column. The last value is only filled up to its width.
-/

namespace Dnf.Cli.FmtColumns

open Foundation
open Foundation.PercentFormat (percentFormat)

def blanks (n : Nat) : List Char := List.replicate n ' '

section Width

-- Whether `unicodedata.east_asian_width` of the character is `W` or `F`.
variable (wide : Char → Bool)

/-- `_exact_width_char` -/
def exactWidthChar (uchar : Char) : Nat := if wide uchar then 2 else 1

def exactWidth (msg : List Char) : Nat := (msg.map (exactWidthChar wide)).sum

/-- `fill_exact_width` without `chop`; `hibeg` and `hiend` are its `prefix` and `suffix`. -/
def fillExactWidth (msg : List Char) (fill : Nat) (left : Bool) (hibeg hiend : List Char) : List Char :=
  let width := exactWidth wide msg
  if fill ≤ width then hibeg ++ msg ++ hiend
  else if left then hibeg ++ msg ++ hiend ++ blanks (fill - width)
  else blanks (fill - width) ++ hibeg ++ msg ++ hiend

end Width

/-- The codes of a terminal. `MODE` always has `bold` and `normal`. -/
structure Term where
  bold : List Char
  normal : List Char
  mode : List Char → Option (List Char)
  fgColor : List Char → Option (List Char)
  bgColor : List Char → Option (List Char)

/-- What a column asks for: nothing, a true value that is no text, or a text. -/
inductive Highlight
  | off
  | on
  | names (text : List Char)

/-- `highlight.replace(',', ' ').split()` -/
def splitNames (text : List Char) : List (List Char) :=
  ((text.map fun c => if c = ',' then ' ' else c).splitOnP fun c => PyStr.isSpace c.toNat).filter (· ≠ [])

def Term.addName (term : Term) (hibeg high : List Char) : List Char :=
  if high = ['n', 'o', 'r', 'm', 'a', 'l'] then []
  else
    match term.mode high with
    | some code => hibeg ++ code
    | none =>
        match term.fgColor high with
        | some code => hibeg ++ code
        | none =>
            let named := if ['f', 'g', ':'].isPrefixOf high then term.fgColor (high.drop 3) else none
            match named with
            | some code => hibeg ++ code
            | none =>
                let named := if ['b', 'g', ':'].isPrefixOf high then term.bgColor (high.drop 3) else none
                hibeg ++ named.getD []

/-- `_highlight` -/
def Term.highlight (term : Term) (highlight : Highlight) : List Char × List Char :=
  let hibeg :=
    match highlight with
    | .off => []
    | .on => term.bold
    | .names text =>
        if text = [] then []
        else if text = ['b', 'o', 'l', 'd'] then term.bold
        else if text = ['n', 'o', 'r', 'm', 'a', 'l'] then []
        else (splitNames text).foldl term.addName []
  (hibeg, if hibeg = [] then [] else term.normal)

/-- An element of `columns`: `ucd` of the value, the width, and the highlighting that a third member asks for. -/
structure Column where
  value : List Char
  width : Int
  highlight : Highlight := .off

/-- `_fmt_column_align_width`: whether the column is aligned to the left, and its width. -/
def fmtColumnAlignWidth (width : Int) : Bool × Nat :=
  if width < 0 then (true, (-width).toNat) else (false, width.toNat)

/-- The variables of the loop. -/
structure Row where
  msg : List Char
  data : List (List Char)
  totalWidth : Nat

variable (wide : Char → Bool) (term : Term) (printable : Char → Bool)

/-- One turn of the loop. -/
def Row.add (row : Row) (column : Column) : Row :=
  let (hibeg, hiend) := term.highlight column.highlight
  if column.width = 0 then { row with msg := row.msg ++ ['%', 's'], data := row.data ++ [column.value] }
  else
    let (alignLeft, width) := fmtColumnAlignWidth column.width
    let valWidth := exactWidth wide column.value
    if valWidth ≤ width then
      { msg := row.msg ++ ['%', 's', '%', 's', '%', 's', '%', 's', ' ']
        data := row.data ++
          if alignLeft then [hibeg, column.value, blanks (width - valWidth), hiend]
          else [hibeg, blanks (width - valWidth), column.value, hiend]
        totalWidth := row.totalWidth + width + 1 }
    else
      { msg := row.msg ++ (['%', 's', '%', 's', '%', 's', '\n'] ++ blanks (row.totalWidth + width + 1))
        data := row.data ++ [hibeg, column.value, hiend]
        totalWidth := row.totalWidth + width + 1 }

def addAll (msg : List Char) (columns : List Column) : Row := columns.foldl (Row.add wide term) ⟨msg, [], msg.length⟩

/-- The last value, filled up to its width. -/
def lastValue (column : Column) : List Char :=
  let (hibeg, hiend) := term.highlight column.highlight
  let (alignLeft, width) := fmtColumnAlignWidth column.width
  fillExactWidth wide column.value width alignLeft hibeg hiend

/-- `ending` is the argument `end`; `none` is an exception, the `IndexError` of an empty row or one of the format. -/
def fmtColumns (columns : List Column) (msg ending : List Char) : Option (List Char) :=
  match columns.getLast? with
  | none => none
  | some last =>
      let row := addAll wide term msg columns.dropLast
      percentFormat printable none (row.msg ++ (['%', 's'] ++ ending)) (row.data ++ [lastValue wide term last])

/-! ### What a row shows -/

/-- A piece of the row: a text, or a code that the terminal does not show. -/
inductive Segment
  | text (shown : List Char)
  | control (code : List Char)

def raw (segments : List Segment) : List Char :=
  segments.flatMap fun
    | .text shown => shown
    | .control code => code

def shown (segments : List Segment) : List Char :=
  segments.flatMap fun
    | .text shown => shown
    | .control _ => []

def codes (segments : List Segment) : List (List Char) :=
  segments.flatMap fun
    | .text _ => []
    | .control code => [code]

/-- The display offset after a text that begins at `start`. -/
def cursor (start : Nat) (text : List Char) : Nat :=
  text.foldl (fun offset c => if c = '\n' then 0 else offset + exactWidthChar wide c) start

def Column.room (column : Column) : Nat := column.width.natAbs

/-- The blanks in front of a value that is aligned to the right. -/
def Column.padding (column : Column) : Nat :=
  if column.width < 0 then 0 else column.room - exactWidth wide column.value

/-- The segments show the value in full, behind its padding and in front of `after`. -/
structure Column.Shows (column : Column) (after : List Char) (segments : List Segment) : Prop where
  shown : shown segments = blanks (column.padding wide) ++ column.value ++ after
  codes : codes segments = [(term.highlight column.highlight).1, (term.highlight column.highlight).2]

/-- Directly after a value that is wider than its column stands a line break, after any other none. -/
def Column.ShowsInner (column : Column) (segments : List Segment) : Prop :=
  ∃ n, column.Shows wide term (if exactWidth wide column.value ≤ column.room then blanks n else '\n' :: blanks n) segments

def Column.ShowsLast (column : Column) (segments : List Segment) : Prop :=
  ∃ n, column.Shows wide term (blanks n) segments

/-- Every value in full and in order between the text in front of the row and the text at its end, and each column at its display offset. -/
def KeepsAligned (columns : List Column) (msg ending : List Char) (output : Option (List Char)) : Prop :=
  ∃ (inner : List Column) (last : Column) (segments : List (List Segment)) (final : List Segment),
    columns = inner ++ [last] ∧
    output = some (msg ++ (raw segments.flatten ++ (raw final ++ ending))) ∧
    List.Forall₂ (Column.ShowsInner wide term) inner segments ∧
    last.ShowsLast wide term final ∧
    ∀ k ≤ inner.length, cursor wide 0 (msg ++ shown (segments.take k).flatten) = msg.length + ((inner.take k).map fun column => column.room + 1).sum

end Dnf.Cli.FmtColumns
