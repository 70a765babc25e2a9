import Mathlib.Data.List.Basic

/-!
# Python's `str.format`

`text.format(argument)` for one argument that has texts as attributes. A replacement field names an attribute of the argument, with a specification of how to fill it up to a width; a doubled brace stands for a brace. Other field names, conversions and fields inside of a specification are left out. A part of a format that gives a certain text, whatever follows, can be put in front of any other.
-/

namespace Foundation.StrFormat

section Spec

-- The value of a decimal digit, and the largest width.
variable (decimal : Char → Option Nat) (maxsize : Nat)

def number (digits : List Char) : Nat := digits.foldl (fun n c => n * 10 + (decimal c).getD 0) 0

def isAlign (c : Char) : Bool := c == '<' || c == '>' || c == '=' || c == '^'

def pad (fill align : Char) (width : Nat) (text : List Char) : List Char :=
  let missing := width - text.length
  if align = '>' then List.replicate missing fill ++ text
  else if align = '^' then List.replicate (missing / 2) fill ++ text ++ List.replicate (missing - missing / 2) fill
  else text ++ List.replicate missing fill

/-- What follows the alignment: a zero to fill with, the width, the precision and the type. -/
def formatAligned (fill? : Option Char) (align : Char) (spec text : List Char) : Option (List Char) :=
  let zero := fill? = none ∧ spec.head? = some '0'
  let fill := fill?.getD (if zero then '0' else ' ')
  let spec := if zero then spec.tail else spec
  let width := number decimal (spec.takeWhile fun c => (decimal c).isSome)
  if align = '=' ∨ maxsize < width then none
  else
    match spec.dropWhile fun c => (decimal c).isSome with
    | [] => some (pad fill align width text)
    | c :: rest =>
        if c = 's' ∧ rest = [] then some (pad fill align width text)
        else if c = '.' then
          let digits := rest.takeWhile fun c => (decimal c).isSome
          let kind := rest.dropWhile fun c => (decimal c).isSome
          if digits = [] ∨ maxsize < number decimal digits ∨ (kind ≠ [] ∧ kind ≠ ['s']) then none
          else some (pad fill align width (text.take (number decimal digits)))
        else none

/-- `format(text, spec)` -/
def formatSpec (spec text : List Char) : Option (List Char) :=
  match spec with
  | [] => some text
  | [c] => if isAlign c then formatAligned decimal maxsize none c [] text else formatAligned decimal maxsize none '<' [c] text
  | fill :: align :: rest =>
      if isAlign align then formatAligned decimal maxsize (some fill) align rest text
      else if isAlign fill then formatAligned decimal maxsize none fill (align :: rest) text
      else formatAligned decimal maxsize none '<' (fill :: align :: rest) text

end Spec

section Format

variable (decimal : Char → Option Nat) (maxsize : Nat) (attr : List Char → List Char)

/-- A replacement field. -/
def field (name spec : List Char) : Option (List Char) :=
  match name with
  | '0' :: '.' :: key => if key = [] ∨ '.' ∈ key then none else formatSpec decimal maxsize spec (attr key)
  | _ => none

/-- Where in a format the reading is; an opening brace begins a name. -/
inductive State
  | literal
  | closing
  | name (read : List Char)
  | spec (name read : List Char)

def strFormat : State → List Char → Option (List Char)
  | .literal, [] => some []
  | .literal, c :: format =>
      if c = '{' then strFormat (.name []) format
      else if c = '}' then strFormat .closing format
      else (strFormat .literal format).map (c :: ·)
  | .closing, [] => none
  | .closing, c :: format => if c = '}' then (strFormat .literal format).map ('}' :: ·) else none
  | .name _, [] => none
  | .name read, c :: format =>
      if c = '{' then if read = [] then (strFormat .literal format).map ('{' :: ·) else none
      else if c = '}' then (field decimal maxsize attr read []).bind fun text => (strFormat .literal format).map (text ++ ·)
      else if c = ':' then strFormat (.spec read []) format
      else if c = '!' ∨ c = '[' then none
      else strFormat (.name (read ++ [c])) format
  | .spec _ _, [] => none
  | .spec name read, c :: format =>
      if c = '}' then (field decimal maxsize attr name read).bind fun text => (strFormat .literal format).map (text ++ ·)
      else if c = '{' then none
      else strFormat (.spec name (read ++ [c])) format

theorem strFormat_literal (c : Char) (format : List Char) : strFormat decimal maxsize attr .literal (c :: format) =
    if c = '{' then strFormat decimal maxsize attr (.name []) format
    else if c = '}' then strFormat decimal maxsize attr .closing format
    else (strFormat decimal maxsize attr .literal format).map (c :: ·) := rfl

theorem strFormat_closing (c : Char) (format : List Char) : strFormat decimal maxsize attr .closing (c :: format) =
    if c = '}' then (strFormat decimal maxsize attr .literal format).map ('}' :: ·) else none := rfl

theorem strFormat_name_cons (read : List Char) (c : Char) (format : List Char) : strFormat decimal maxsize attr (.name read) (c :: format) =
    if c = '{' then if read = [] then (strFormat decimal maxsize attr .literal format).map ('{' :: ·) else none
    else if c = '}' then (field decimal maxsize attr read []).bind fun text => (strFormat decimal maxsize attr .literal format).map (text ++ ·)
    else if c = ':' then strFormat decimal maxsize attr (.spec read []) format
    else if c = '!' ∨ c = '[' then none
    else strFormat decimal maxsize attr (.name (read ++ [c])) format := rfl

theorem strFormat_spec_cons (name read : List Char) (c : Char) (format : List Char) : strFormat decimal maxsize attr (.spec name read) (c :: format) =
    if c = '}' then (field decimal maxsize attr name read).bind fun text => (strFormat decimal maxsize attr .literal format).map (text ++ ·)
    else if c = '{' then none
    else strFormat decimal maxsize attr (.spec name (read ++ [c])) format := rfl

/-! ### Parts of formats -/

/-- The part of the format gives this text, or its field raises. -/
def Formats (part : List Char) (text : Option (List Char)) : Prop :=
  ∀ format, strFormat decimal maxsize attr .literal (part ++ format) =
    text.bind fun text => (strFormat decimal maxsize attr .literal format).map (text ++ ·)

/-- The braces of a text, doubled. -/
def escape (text : List Char) : List Char := text.flatMap fun c => if c = '{' ∨ c = '}' then [c, c] else [c]

variable {decimal maxsize attr} {part part' text name spec : List Char} {text? text?' : Option (List Char)}

theorem formats_nil : Formats decimal maxsize attr [] (some []) := fun _ => Option.map_id'.symm

theorem Formats.append (h : Formats decimal maxsize attr part text?) (h' : Formats decimal maxsize attr part' text?') :
    Formats decimal maxsize attr (part ++ part') (text?.bind fun text => text?'.map (text ++ ·)) := by
  intro format
  rw [List.append_assoc, h]
  cases text? with
  | none => rfl
  | some text =>
      rw [Option.bind_some, Option.bind_some, h']
      cases text?' with
      | none => rfl
      | some text' =>
          rw [Option.bind_some, Option.map_map]
          simp only [Function.comp_def, Option.map_some, Option.bind_some, List.append_assoc]

theorem Formats.format (h : Formats decimal maxsize attr part text?) : strFormat decimal maxsize attr .literal part = text? := by
  have hall := h []
  rw [List.append_nil] at hall
  rw [hall]
  cases text? with
  | none => rfl
  | some text => exact congrArg some (List.append_nil text)

theorem formats_escape (text : List Char) : Formats decimal maxsize attr (escape text) (some text) := by
  induction text with
  | nil => exact formats_nil
  | cons c text ih =>
      intro format
      rw [escape, List.flatMap_cons, List.append_assoc, Option.bind_some]
      have hrest := ih format
      rw [Option.bind_some, escape] at hrest
      split_ifs with hc
      · rcases hc with rfl | rfl
        · rw [List.cons_append, strFormat_literal, if_pos rfl, List.cons_append, strFormat_name_cons, if_pos rfl, if_pos rfl, List.nil_append, hrest, Option.map_map]
          rfl
        · rw [List.cons_append, strFormat_literal, if_neg (by decide), if_pos rfl, List.cons_append, strFormat_closing, if_pos rfl, List.nil_append, hrest, Option.map_map]
          rfl
      · obtain ⟨hopen, hclose⟩ := not_or.mp hc
        rw [List.cons_append, strFormat_literal, if_neg hopen, if_neg hclose, List.nil_append, hrest, Option.map_map]
        rfl

/-- The characters of a name that the reading goes through. -/
def IsName (name : List Char) : Prop := ∀ c ∈ name, c ∉ ['{', '}', ':', '!', '[']

theorem strFormat_name (hname : IsName name) (read format : List Char) :
    strFormat decimal maxsize attr (.name read) (name ++ format) = strFormat decimal maxsize attr (.name (read ++ name)) format := by
  induction name generalizing read with
  | nil => rw [List.append_nil, List.nil_append]
  | cons c name ih =>
      have hc := hname c List.mem_cons_self
      simp only [List.mem_cons, List.not_mem_nil, or_false, not_or] at hc
      rw [List.cons_append, strFormat_name_cons, if_neg hc.1, if_neg hc.2.1, if_neg hc.2.2.1, if_neg (not_or.mpr hc.2.2.2), ih fun d hd => hname d (List.mem_cons_of_mem _ hd),
        List.append_assoc, List.singleton_append]

theorem strFormat_spec (hspec : ∀ c ∈ spec, c ∉ ['{', '}']) (read format : List Char) :
    strFormat decimal maxsize attr (.spec name read) (spec ++ format) = strFormat decimal maxsize attr (.spec name (read ++ spec)) format := by
  induction spec generalizing read with
  | nil => rw [List.append_nil, List.nil_append]
  | cons c spec ih =>
      have hc := hspec c List.mem_cons_self
      simp only [List.mem_cons, List.not_mem_nil, or_false, not_or] at hc
      rw [List.cons_append, strFormat_spec_cons, if_neg hc.2, if_neg hc.1, ih fun d hd => hspec d (List.mem_cons_of_mem _ hd), List.append_assoc, List.singleton_append]

theorem formats_field (hname : IsName name) :
    Formats decimal maxsize attr ('{' :: (name ++ ['}'])) (field decimal maxsize attr name []) := by
  intro format
  rw [List.cons_append, strFormat_literal, if_pos rfl, List.append_assoc, strFormat_name hname, List.nil_append, List.singleton_append,
    strFormat_name_cons, if_neg (by decide), if_pos rfl]

theorem formats_field_spec (hname : IsName name) (hspec : ∀ c ∈ spec, c ∉ ['{', '}']) :
    Formats decimal maxsize attr ('{' :: (name ++ (':' :: (spec ++ ['}'])))) (field decimal maxsize attr name spec) := by
  intro format
  rw [List.cons_append, strFormat_literal, if_pos rfl, List.append_assoc, strFormat_name hname, List.nil_append, List.cons_append, strFormat_name_cons,
    if_neg (by decide), if_neg (by decide), if_pos rfl, List.append_assoc, strFormat_spec hspec, List.nil_append, List.singleton_append, strFormat_spec_cons,
    if_pos rfl]

end Format

end Foundation.StrFormat
