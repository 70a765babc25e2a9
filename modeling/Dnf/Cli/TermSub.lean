import Dnf.Foundation.Segments
import Mathlib.Data.List.Basic

/-!
# Highlighting

`Term.sub` puts a pair of markers around each occurrence of a needle, one needle after the other. A later needle is looked for in what the earlier ones have left, markers included. To tell where a character of the output comes from, the same substitutions are done on a text whose characters know whether they are from the haystack or from a marker.
-/

namespace Dnf.Cli.TermSub

open Foundation.Segments

/-- `re.sub(re.escape(needle), render, haystack)` -/
def reSub (same : Char → Char → Bool) (needle : List Char) (render : List Char → List Char) (haystack : List Char) : List Char :=
  (segments same needle haystack).flatMap fun
    | .skip c => [c]
    | .hit group => render group

/-- How characters are compared; with `re.I` it is up to `re`. -/
def compares (icase : Char → Char → Bool) (ignoreCase : Bool) (c d : Char) : Bool := if ignoreCase then icase c d else c = d

/-- `Term.sub`, with the default `escape`. -/
def sub (enabled : Bool) (icase : Char → Char → Bool) (haystack beg fin : List Char) (needles : List (List Char)) (ignoreCase : Bool) : List Char :=
  if !enabled then haystack
  else needles.foldl (fun haystack needle => reSub (compares icase ignoreCase) needle (fun group => beg ++ group ++ fin) haystack) haystack

/-! ### Where the characters come from -/

/-- A place of the haystack, or of a marker of the pair that was put in as the one of a number. -/
inductive Origin
  | text (pos : Nat)
  | marker (pair : Nat) (closing : Bool) (i : Nat)
  deriving DecidableEq

structure Glyph where
  char : Char
  origin : Origin
  deriving DecidableEq

def Glyph.isText (g : Glyph) : Bool :=
  match g.origin with
  | .text _ => true
  | .marker _ _ _ => false

def annotate (origin : Nat → Origin) (text : List Char) : List Glyph := text.mapIdx fun i c => ⟨c, origin i⟩

def glyphs (haystack : List Char) : List Glyph := annotate .text haystack

def marker (pair : Nat) (closing : Bool) (text : List Char) : List Glyph := annotate (.marker pair closing) text

/-- What is left without the markers. -/
def original (text : List Glyph) : List Glyph := text.filter Glyph.isText

/-- The text so far, and for each pair the needle and what the pair was put around. -/
structure Highlighting where
  text : List Glyph
  pairs : List (List Char × List Glyph)

section Run

variable (same : Char → Char → Bool) (beg fin : List Char)

/-- The pieces with a pair around each occurrence. -/
def weave : Nat → List (Segment Glyph) → List Glyph
  | _, [] => []
  | pair, .skip g :: rest => g :: weave pair rest
  | pair, .hit group :: rest => marker pair false beg ++ group ++ marker pair true fin ++ weave (pair + 1) rest

def groups (segs : List (Segment Glyph)) : List (List Glyph) :=
  segs.filterMap fun
    | .skip _ => none
    | .hit group => some group

def Highlighting.segments (s : Highlighting) (needle : List Char) : List (Segment Glyph) :=
  Foundation.Segments.segments (fun c g => same c g.char) needle s.text

/-- The substitution for one needle. -/
def Highlighting.step (s : Highlighting) (needle : List Char) : Highlighting where
  text := weave beg fin s.pairs.length (s.segments same needle)
  pairs := s.pairs ++ (groups (s.segments same needle)).map fun group => (needle, group)

def highlight (haystack : List Char) (needles : List (List Char)) : Highlighting :=
  needles.foldl (Highlighting.step same beg fin) { text := glyphs haystack, pairs := [] }

end Run

/-! ### The annotated text is that of `Term.sub` -/

section Erase

variable {same : Char → Char → Bool} {beg fin : List Char}

theorem char_annotate (origin : Nat → Origin) (text : List Char) : (annotate origin text).map Glyph.char = text := by
  refine List.ext_getElem? fun i => ?_
  rw [annotate, List.getElem?_map, List.getElem?_mapIdx, Option.map_map]
  exact congrFun Option.map_id _

theorem char_weave (pair : Nat) (segs : List (Segment Glyph)) : (weave beg fin pair segs).map Glyph.char =
    (segs.map (Segment.map Glyph.char)).flatMap fun
      | .skip c => [c]
      | .hit group => beg ++ group ++ fin := by
  induction segs generalizing pair with
  | nil => rfl
  | cons seg rest ih =>
      cases seg with
      | skip g =>
          rw [weave, List.map_cons, ih]
          rfl
      | hit group =>
          rw [weave, List.map_append, List.map_append, List.map_append, marker, marker, char_annotate, char_annotate, ih]
          rfl

theorem char_step (s : Highlighting) (needle : List Char) :
    (s.step same beg fin needle).text.map Glyph.char = reSub same needle (fun group => beg ++ group ++ fin) (s.text.map Glyph.char) := by
  rw [reSub, @segments_map Glyph Char Char (fun c g => same c g.char) same Glyph.char fun _ _ => rfl]
  exact char_weave _ _

/-- The output. -/
theorem char_highlight (icase : Char → Char → Bool) (haystack : List Char) (needles : List (List Char)) (ignoreCase : Bool) :
    (highlight (compares icase ignoreCase) beg fin haystack needles).text.map Glyph.char = sub true icase haystack beg fin needles ignoreCase := by
  have hrun (s : Highlighting) : (needles.foldl (Highlighting.step (compares icase ignoreCase) beg fin) s).text.map Glyph.char =
      needles.foldl (fun haystack needle => reSub (compares icase ignoreCase) needle (fun group => beg ++ group ++ fin) haystack) (s.text.map Glyph.char) := by
    induction needles generalizing s with
    | nil => rfl
    | cons needle needles ih => rw [List.foldl_cons, List.foldl_cons, ih, char_step]
  rw [highlight, hrun, glyphs, char_annotate]
  rfl

end Erase

end Dnf.Cli.TermSub
