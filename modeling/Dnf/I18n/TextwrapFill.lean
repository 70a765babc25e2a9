import Dnf.I18n.ChopStr
import Mathlib.Data.List.DropRight

/-!
# Wrapping a text

`textwrap_fill` goes through the lines of a text. What it has wrapped but not yet ended is kept in `indent`, where the next line goes on unless a new line is forced: by a list item, by an empty line, or by the beginning of a block that is indented further.
-/

namespace Dnf.I18n

open Dnf.Cli.FmtColumns (exactWidth blanks)

/-- `text.rstrip(' ')` -/
def rstripBlanks (text : List Char) : List Char := text.rdropWhile (· = ' ')

/-- `text.lstrip(' ')` -/
def lstripBlanks (text : List Char) : List Char := text.dropWhile (· = ' ')

/-- The characters that a list item may begin with. -/
def isListChr (c : Char) : Bool := ['-', '*', '.', 'o', '\u2022', '\u2023', '\u2218'].contains c

/-- The test in front of it, which is meant for the first byte of a character: `'\xe2'` is `â`. -/
def isListByte (c : Char) : Bool := ['-', '*', '.', 'o', '\u00e2'].contains c

section Wrap

variable (wide : Char → Bool)

/-- `_indent_at_beg`: the spaces at the beginning, and how far the text of a list item is indented. -/
def indentAtBeg (line : List Char) : Nat × Nat :=
  let count := (line.takeWhile (· = ' ')).length
  match _hrest : line.dropWhile (· = ' ') with
  | [] => (count, 0)
  | byte :: rest =>
      if isListByte byte then
        match (chopStr wide (byte :: rest) (some 1)).2 with
        | [c] =>
            if isListChr c then
              let below := indentAtBeg rest
              let nxt := if below.2 ≠ 0 then below.2 else below.1
              if nxt ≠ 0 then (count, count + 1 + nxt) else (count, 0)
            else (count, 0)
        | _ => (count, 0)
      else (count, 0)
termination_by line.length
decreasing_by
  have hlength := (List.dropWhile_suffix (fun c => decide (c = ' ')) (l := line)).length_le
  rw [_hrest, List.length_cons] at hlength
  exact hlength

/-- The variables of the loop. -/
structure Wrapping where
  ret : List (List Char)
  indent : List Char
  wrapLast : Bool
  csab : Nat
  cspcIndent : Nat

variable (width : Int) (initialIndent subsequentIndent : List Char)

/-- One word. -/
def addWord (spcs : Nat) (s : List (List Char) × List Char) (word : List Char) : List (List Char) × List Char :=
  let (ret, line) := s
  if width < exactWidth wide (line ++ word) ∧ exactWidth wide subsequentIndent < exactWidth wide line then
    (ret ++ [rstripBlanks line], subsequentIndent ++ blanks spcs ++ word ++ [' '])
  else (ret, line ++ word ++ [' '])

/-- The end of what has been wrapped. -/
def Wrapping.flush (s : Wrapping) : Wrapping :=
  { s with ret := s.ret ++ [rstripBlanks s.indent], indent := subsequentIndent, wrapLast := false }

/-- Whether a new line is forced. -/
def Wrapping.forceNl (s : Wrapping) (line : List Char) : Bool :=
  let (csab, cspcIndent) := indentAtBeg wide line
  (s.wrapLast && cspcIndent ≠ 0) || (s.wrapLast && csab = line.length) ||
    (s.wrapLast && s.cspcIndent = 0 && 4 ≤ csab && csab ≠ s.csab)

/-- A line that fits is a line of its own, any other one is wrapped. -/
def Wrapping.place (s : Wrapping) (csab cspcIndent : Nat) (line : List Char) : Wrapping :=
  if exactWidth wide (s.indent ++ line) ≤ width then
    { ret := s.ret ++ [s.indent ++ line], indent := subsequentIndent, wrapLast := false, csab := csab, cspcIndent := cspcIndent }
  else
    let spcs := if cspcIndent = 0 && 4 ≤ csab then csab else cspcIndent
    let (ret, line) := (line.splitOn ' ').foldl (addWord wide width subsequentIndent spcs) (s.ret, s.indent)
    { ret := ret, indent := rstripBlanks line ++ [' '], wrapLast := true, csab := csab, cspcIndent := cspcIndent }

/-- One turn of the loop. -/
def Wrapping.step (s : Wrapping) (line : List Char) : Wrapping :=
  let line := rstripBlanks line
  let (csab, cspcIndent) := indentAtBeg wide line
  let s := if s.forceNl wide line then s.flush subsequentIndent else s
  let line := if csab = line.length then [] else line
  if s.wrapLast then s.place wide width subsequentIndent csab s.cspcIndent (lstripBlanks line)
  else s.place wide width subsequentIndent csab cspcIndent line

def startWrapping : Wrapping := { ret := [], indent := initialIndent, wrapLast := false, csab := 0, cspcIndent := 0 }

/-- What has been wrapped, ended. -/
def Wrapping.finish (s : Wrapping) : List (List Char) := if s.wrapLast then s.ret ++ [rstripBlanks s.indent] else s.ret

/-- `ret`, for the lines of a text. -/
def wrapLines (lines : List (List Char)) : List (List Char) :=
  (lines.foldl (Wrapping.step wide width subsequentIndent) (startWrapping initialIndent)).finish

/-- The lines of a text, with tabs as blanks. -/
def sourceLines (text : List Char) : List (List Char) :=
  ((text.rdropWhile (· = '\n')).flatMap fun c => if c = '\t' then blanks 8 else [c]).splitOn '\n'

/-- `textwrap_fill` -/
def textwrapFill (text : List Char) : List Char :=
  ['\n'].intercalate (wrapLines wide width initialIndent subsequentIndent (sourceLines text))

end Wrap

end Dnf.I18n
