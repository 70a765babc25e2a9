import Mathlib.Algebra.BigOperators.Group.List.Basic
import Mathlib.Algebra.GroupWithZero.Nat
import Mathlib.Data.List.Basic

/-!
# Python's `%` operator on texts

`format % args`, for a tuple of texts. A specification is a percent sign, flags, a width, a precision, a length and a conversion; `%%` stands for a percent sign. Every argument must be converted, and in order. A part of a format that converts certain arguments and nothing else can be put in front of any other: such parts compose.
-/

namespace Foundation.PercentFormat

/-- How far the reading of a specification has come. -/
inductive Stage
  | start
  | flags
  | width
  | precision
  | length
  deriving DecidableEq

structure Spec where
  stage : Stage := .start
  left : Bool := false
  width : Nat := 0
  precision : Option Nat := none

inductive Reading
  | more (spec : Spec)
  | percent
  | conversion (spec : Spec) (c : Char)
  | unsupported

def digit (c : Char) : Nat := c.toNat - '0'.toNat

/-- One character of a specification. A mapping key and a width or a precision of `*` are for other arguments than texts. -/
def Spec.read (spec : Spec) (c : Char) : Reading :=
  if spec.stage = .start ∧ c = '%' then .percent
  else
    match spec.stage with
    | .start | .flags =>
        if c = '-' then .more { spec with stage := .flags, left := true }
        else if c ∈ ['+', ' ', '#', '0'] then .more { spec with stage := .flags }
        else if c.isDigit then .more { spec with stage := .width, width := digit c }
        else if c = '.' then .more { spec with stage := .precision, precision := some 0 }
        else if c ∈ ['h', 'l', 'L'] then .more { spec with stage := .length }
        else if c ∈ ['(', '*'] then .unsupported
        else .conversion spec c
    | .width =>
        if c.isDigit then .more { spec with width := spec.width * 10 + digit c }
        else if c = '.' then .more { spec with stage := .precision, precision := some 0 }
        else if c ∈ ['h', 'l', 'L'] then .more { spec with stage := .length }
        else .conversion spec c
    | .precision =>
        if c.isDigit then .more { spec with precision := some (spec.precision.getD 0 * 10 + digit c) }
        else if c ∈ ['h', 'l', 'L'] then .more { spec with stage := .length }
        else .conversion spec c
    | .length => .conversion spec c

section Format

-- Whether a character that is not ASCII is printable.
variable (printable : Char → Bool)

def hexDigit (n : Nat) : Char := ['0', '1', '2', '3', '4', '5', '6', '7', '8', '9', 'a', 'b', 'c', 'd', 'e', 'f'].getD n '0'

def hex (digits n : Nat) : List Char := (List.range digits).reverse.map fun place => hexDigit (n / 16 ^ place % 16)

def escape (c : Char) : List Char :=
  if c.toNat ≤ 0xff then '\\' :: 'x' :: hex 2 c.toNat
  else if c.toNat ≤ 0xffff then '\\' :: 'u' :: hex 4 c.toNat
  else '\\' :: 'U' :: hex 8 c.toNat

def reprChar (quote c : Char) : List Char :=
  if c = quote ∨ c = '\\' then ['\\', c]
  else if c = '\t' then ['\\', 't']
  else if c = '\n' then ['\\', 'n']
  else if c = '\r' then ['\\', 'r']
  else if c.toNat < 0x20 ∨ c.toNat = 0x7f then escape c
  else if c.toNat < 0x7f ∨ printable c then [c]
  else escape c

def apostrophe : Char := Char.ofNat 39

/-- The quote is an apostrophe, unless the text has apostrophes and no quotation marks. -/
def repr (text : List Char) : List Char :=
  let quote := if apostrophe ∈ text ∧ '"' ∉ text then '"' else apostrophe
  [quote] ++ text.flatMap (reprChar printable quote) ++ [quote]

def ascii (text : List Char) : List Char := (repr printable text).flatMap fun c => if c.toNat < 0x80 then [c] else escape c

def pad (spec : Spec) (text : List Char) : List Char :=
  let blanks := List.replicate (spec.width - text.length) ' '
  if spec.left then text ++ blanks else blanks ++ text

/-- A conversion of a text; `none` is the `TypeError` of a conversion that needs a number, or the `ValueError` of one that does not exist. -/
def convert (spec : Spec) (c : Char) (arg : List Char) : Option (List Char) :=
  let cut (text : List Char) := (spec.precision.map text.take).getD text
  if c = 's' then some (pad spec (cut arg))
  else if c = 'r' then some (pad spec (cut (repr printable arg)))
  else if c = 'a' then some (pad spec (cut (ascii printable arg)))
  else if c = 'c' ∧ arg.length = 1 then some (pad spec arg)
  else none

/-- `format % args`, from the middle of a specification or between two; `none` is an exception. -/
def percentFormat : Option Spec → List Char → List (List Char) → Option (List Char)
  | none, [], [] => some []
  | none, [], _ :: _ => none
  | none, c :: format, args =>
      if c = '%' then percentFormat (some {}) format args
      else (percentFormat none format args).map (c :: ·)
  | some _, [], _ => none
  | some spec, c :: format, args =>
      match spec.read c with
      | .more spec => percentFormat (some spec) format args
      | .percent => (percentFormat none format args).map ('%' :: ·)
      | .unsupported => none
      | .conversion spec c =>
          match args with
          | [] => none
          | arg :: args => (convert printable spec c arg).bind fun text => (percentFormat none format args).map (text ++ ·)

theorem percentFormat_nil : percentFormat printable none [] [] = some [] := rfl

theorem percentFormat_literal (c : Char) (format : List Char) (args : List (List Char)) : percentFormat printable none (c :: format) args =
    if c = '%' then percentFormat printable (some {}) format args else (percentFormat printable none format args).map (c :: ·) := by
  cases args <;> rfl

theorem percentFormat_spec (spec : Spec) (c : Char) (format : List Char) (args : List (List Char)) : percentFormat printable (some spec) (c :: format) args =
    match spec.read c with
    | .more spec => percentFormat printable (some spec) format args
    | .percent => (percentFormat printable none format args).map ('%' :: ·)
    | .unsupported => none
    | .conversion spec c =>
        match args with
        | [] => none
        | arg :: args => (convert printable spec c arg).bind fun text => (percentFormat printable none format args).map (text ++ ·) := rfl

/-! ### Parts of formats -/

/-- The part of the format converts these arguments to this text, whatever follows. -/
def Converts (part : List Char) (args : List (List Char)) (text : List Char) : Prop :=
  ∀ format rest, percentFormat printable none (part ++ format) (args ++ rest) = (percentFormat printable none format rest).map (text ++ ·)

variable {printable} {part part' text text' : List Char} {args args' : List (List Char)}

theorem converts_nil : Converts printable [] [] [] := fun _ _ => Option.map_id'.symm

theorem Converts.append (h : Converts printable part args text) (h' : Converts printable part' args' text') :
    Converts printable (part ++ part') (args ++ args') (text ++ text') := by
  intro format rest
  rw [List.append_assoc, List.append_assoc, h, h', Option.map_map]
  simp only [Function.comp_def, List.append_assoc]

theorem Converts.format (h : Converts printable part args text) : percentFormat printable none part args = some text := by
  have hall := h [] []
  rwa [List.append_nil, List.append_nil, percentFormat_nil, Option.map_some, List.append_nil] at hall

theorem converts_plain (hplain : '%' ∉ text) : Converts printable text [] text := by
  induction text with
  | nil => exact converts_nil
  | cons c text ih =>
      obtain ⟨hc, hrest⟩ := not_or.mp (List.mem_cons.not.mp hplain)
      intro format rest
      rw [List.cons_append, percentFormat_literal, if_neg (Ne.symm hc), ih hrest, Option.map_map]
      rfl

theorem converts_s (arg : List Char) : Converts printable ['%', 's'] [arg] arg := by
  intro format rest
  have hread : ({} : Spec).read 's' = .conversion {} 's' := rfl
  have hconvert : convert printable {} 's' arg = some arg := by simp [convert, pad]
  rw [List.cons_append, List.cons_append, List.nil_append, percentFormat_literal, if_pos rfl, percentFormat_spec, hread]
  exact congrArg (·.bind fun text => (percentFormat printable none format rest).map (text ++ ·)) hconvert

/-! ### Percent signs

A percent sign of the result stands in an argument or comes from two of the format; each argument takes one more.
-/

def percents (text : List Char) : Nat := text.count '%'

@[simp] theorem percents_append (text rest : List Char) : percents (text ++ rest) = percents text + percents rest := List.count_append

theorem percents_cons (c : Char) (text : List Char) : percents (c :: text) = percents [c] + percents text := percents_append [c] text

@[simp] theorem percents_cons_percent (text : List Char) : percents ('%' :: text) = percents text + 1 := List.count_cons_self

@[simp] theorem percents_blanks (n : Nat) : percents (List.replicate n ' ') = 0 := List.count_replicate.trans (if_neg (by decide))

theorem percents_eq_zero_iff : percents text = 0 ↔ '%' ∉ text := List.count_eq_zero

theorem percents_flatMap_le {f : Char → List Char} (hf : ∀ c, percents (f c) ≤ percents [c]) (text : List Char) :
    percents (text.flatMap f) ≤ percents text := by
  induction text with
  | nil => exact Nat.le_refl 0
  | cons c text ih =>
      rw [List.flatMap_cons, percents_append, percents_cons]
      exact Nat.add_le_add (hf c) ih

theorem hexDigit_ne_percent {n : Nat} (hn : n < 16) : hexDigit n ≠ '%' := by
  have hall : ∀ n < 16, hexDigit n ≠ '%' := by decide
  exact hall n hn

theorem percents_hex (digits n : Nat) : percents (hex digits n) = 0 := by
  rw [percents_eq_zero_iff, hex, List.mem_map]
  exact fun ⟨place, _, hplace⟩ => hexDigit_ne_percent (Nat.mod_lt _ (by decide)) hplace

theorem percents_escape (c : Char) : percents (escape c) = 0 := by
  have hletters (letter : Char) (hletter : letter ≠ '%') (digits : Nat) : percents ('\\' :: letter :: hex digits c.toNat) = 0 := by
    rw [percents_eq_zero_iff, List.mem_cons, List.mem_cons]
    exact not_or.mpr ⟨by decide, not_or.mpr ⟨hletter.symm, percents_eq_zero_iff.mp (percents_hex digits c.toNat)⟩⟩
  unfold escape
  split_ifs
  · exact hletters 'x' (by decide) 2
  · exact hletters 'u' (by decide) 4
  · exact hletters 'U' (by decide) 8

theorem percents_reprChar_le (quote c : Char) : percents (reprChar printable quote c) ≤ percents [c] := by
  unfold reprChar
  split_ifs
  · rw [percents_cons]
    exact Nat.le_of_eq (Nat.zero_add _)
  · exact Nat.zero_le _
  · exact Nat.zero_le _
  · exact Nat.zero_le _
  · exact Nat.le_trans (Nat.le_of_eq (percents_escape c)) (Nat.zero_le _)
  · exact Nat.le_refl _
  · exact Nat.le_trans (Nat.le_of_eq (percents_escape c)) (Nat.zero_le _)

theorem percents_repr_le (text : List Char) : percents (repr printable text) ≤ percents text := by
  have hquotation : percents ['"'] = 0 := rfl
  have hapostrophe : percents [apostrophe] = 0 := rfl
  simp only [repr, percents_append]
  split_ifs
  · rw [hquotation, Nat.zero_add, Nat.add_zero]
    exact percents_flatMap_le (percents_reprChar_le _) text
  · rw [hapostrophe, Nat.zero_add, Nat.add_zero]
    exact percents_flatMap_le (percents_reprChar_le _) text

theorem percents_ascii_le (text : List Char) : percents (ascii printable text) ≤ percents text := by
  refine Nat.le_trans (percents_flatMap_le (fun c => ?_) _) (percents_repr_le text)
  split_ifs
  · exact Nat.le_refl _
  · exact Nat.le_trans (Nat.le_of_eq (percents_escape c)) (Nat.zero_le _)

theorem percents_pad (spec : Spec) (text : List Char) : percents (pad spec text) = percents text := by
  unfold pad
  split_ifs
  · rw [percents_append, percents_blanks, Nat.add_zero]
  · rw [percents_append, percents_blanks, Nat.zero_add]

theorem percents_cut_le (precision : Option Nat) (text : List Char) : percents ((precision.map text.take).getD text) ≤ percents text := by
  cases precision with
  | none => exact Nat.le_refl _
  | some n => exact (List.take_sublist n text).count_le '%'

theorem percents_convert_le {spec : Spec} {c : Char} {arg text : List Char} (htext : convert printable spec c arg = some text) :
    percents text ≤ percents arg := by
  have hpad (shown : List Char) (hshown : percents shown ≤ percents arg) :
      percents (pad spec ((spec.precision.map shown.take).getD shown)) ≤ percents arg :=
    Nat.le_trans (Nat.le_of_eq (percents_pad spec _)) (Nat.le_trans (percents_cut_le spec.precision shown) hshown)
  unfold convert at htext
  split_ifs at htext
  · exact Option.some.inj htext ▸ hpad arg (Nat.le_refl _)
  · exact Option.some.inj htext ▸ hpad _ (percents_repr_le arg)
  · exact Option.some.inj htext ▸ hpad _ (percents_ascii_le arg)
  · exact Option.some.inj htext ▸ Nat.le_of_eq (percents_pad spec arg)

theorem Spec.read_percent {spec : Spec} {c : Char} (hread : spec.read c = .percent) : c = '%' := by
  by_contra hc
  rw [Spec.read, if_neg fun hstart => hc hstart.2] at hread
  cases hstage : spec.stage <;> simp only [hstage, reduceCtorEq] at hread <;> split_ifs at hread

/-- The induction is on the format; a specification that has begun has its percent sign behind it. -/
theorem percents_percentFormat_le : ∀ (open? : Option Spec) (format : List Char) (args : List (List Char)) (text : List Char),
    percentFormat printable open? format args = some text →
      2 * percents text + args.length ≤ percents format + (if open?.isSome then 1 else 0) + 2 * (args.map percents).sum
  | none, [], [], text, htext => by
      cases htext
      exact Nat.le_refl 0
  | none, [], _ :: _, _, htext => by cases htext
  | none, c :: format, args, text, htext => by
      rw [percentFormat_literal] at htext
      split_ifs at htext with hc
      · have hrest := percents_percentFormat_le (some {}) format args text htext
        rw [hc, percents_cons_percent]
        simpa using hrest
      · obtain ⟨rest, hrest, rfl⟩ := Option.map_eq_some_iff.mp htext
        have hle := percents_percentFormat_le none format args rest hrest
        rw [percents_cons c rest, percents_cons c format, percents_eq_zero_iff.mpr (by simpa using Ne.symm hc), Nat.zero_add, Nat.zero_add]
        exact hle
  | some _, [], _, _, htext => by cases htext
  | some spec, c :: format, args, text, htext => by
      rw [percentFormat_spec] at htext
      cases hread : spec.read c with
      | more spec' =>
          rw [hread] at htext
          have hle := percents_percentFormat_le (some spec') format args text htext
          rw [percents_cons c format]
          simp only [Option.isSome_some, if_true] at hle ⊢
          omega
      | percent =>
          rw [hread] at htext
          obtain ⟨rest, hrest, rfl⟩ := Option.map_eq_some_iff.mp htext
          have hle := percents_percentFormat_le none format args rest hrest
          rw [Spec.read_percent hread, percents_cons_percent, percents_cons_percent]
          simp only [Option.isSome_none, Option.isSome_some, Bool.false_eq_true, if_false, if_true] at hle ⊢
          omega
      | unsupported =>
          rw [hread] at htext
          cases htext
      | conversion spec' c' =>
          rw [hread] at htext
          cases args with
          | nil => cases htext
          | cons arg args =>
              obtain ⟨shown, hshown, hmap⟩ := Option.bind_eq_some_iff.mp htext
              obtain ⟨rest, hrest, rfl⟩ := Option.map_eq_some_iff.mp hmap
              have hle := percents_percentFormat_le none format args rest hrest
              have harg := percents_convert_le hshown
              rw [percents_append, percents_cons c format, List.length_cons, List.map_cons, List.sum_cons]
              simp only [Option.isSome_none, Option.isSome_some, Bool.false_eq_true, if_false, if_true] at hle ⊢
              omega

end Format

end Foundation.PercentFormat
