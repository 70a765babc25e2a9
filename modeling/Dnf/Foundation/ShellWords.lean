import Mathlib.Data.List.Basic

/-!
# The words of a shell command

A shell reads a simple command character by character and takes it apart into words. Text between single quotes stands for itself, text between double quotes too as long as nothing in it is expanded. This reader refuses whatever makes the shell do more than find words: expansions, patterns, escapes, redirections and several commands. What `quote` makes of a text is read as that text, wherever it stands outside of quotes.
-/

namespace Foundation.ShellWords

inductive Mode
  | plain
  | single
  | double
  deriving DecidableEq

/-- The words that are finished, and the one that has begun. -/
structure Reading where
  mode : Mode := .plain
  words : List (List Char) := []
  word : Option (List Char) := none
  deriving DecidableEq

/-- What `shlex.quote` finds safe; none of these is special to a shell. -/
def isSafe (c : Char) : Bool := c.isAlphanum || c ∈ ['_', '@', '%', '+', '=', ':', ',', '.', '/', '-']

def backquote : Char := Char.ofNat 96

namespace Reading

def put (s : Reading) (text : List Char) : Reading := { s with word := some (s.word.getD [] ++ text) }

/-- The end of a word. -/
def cut (s : Reading) : Reading :=
  match s.word with
  | none => s
  | some word => { s with words := s.words ++ [word], word := none }

def next (s : Reading) (c : Char) : Option Reading :=
  match s.mode with
  | .plain =>
      if c = ' ' ∨ c = '\t' then some s.cut
      else if c = '\'' then some { s.put [] with mode := .single }
      else if c = '"' then some { s.put [] with mode := .double }
      else if isSafe c then some (s.put [c])
      else none
  | .single => if c = '\'' then some { s with mode := .plain } else some (s.put [c])
  | .double =>
      if c = '"' then some { s with mode := .plain }
      else if c ∈ ['$', '\\', backquote] then none
      else some (s.put [c])

def scan (s : Reading) (text : List Char) : Option Reading := text.foldlM next s

def finish (s : Reading) : Option (List (List Char)) := if s.mode = .plain then some s.cut.words else none

end Reading

/-- The words of a command that is nothing but words. -/
def shellWords (command : List Char) : Option (List (List Char)) := (Reading.scan {} command).bind Reading.finish

/-- `shlex.quote` -/
def quote (text : List Char) : List Char :=
  if text = [] then ['\'', '\'']
  else if text.all isSafe then text
  else '\'' :: ((text.flatMap fun c => if c = '\'' then ['\'', '"', '\'', '"', '\''] else [c]) ++ ['\''])

namespace Reading

theorem scan_nil (s : Reading) : s.scan [] = some s := rfl

theorem scan_cons (s : Reading) (c : Char) (text : List Char) : s.scan (c :: text) = (s.next c).bind fun t => t.scan text := List.foldlM_cons

theorem scan_append (s : Reading) (text text' : List Char) : s.scan (text ++ text') = (s.scan text).bind fun t => t.scan text' := List.foldlM_append

theorem put_put (s : Reading) (text text' : List Char) : (s.put text).put text' = s.put (text ++ text') := by
  rw [put, put, put, Option.getD_some, List.append_assoc]

theorem put_mode (s : Reading) (mode : Mode) (text : List Char) : ({ s with mode := mode } : Reading).put text = { s.put text with mode := mode } := rfl

theorem scan_safe {s : Reading} (hs : s.mode = .plain) {c : Char} (hc : isSafe c = true) : s.next c = some (s.put [c]) := by
  have hne : ∀ d, isSafe d = false → c ≠ d := by
    rintro d hd rfl
    rw [hc] at hd
    cases hd
  rw [next, hs]
  dsimp only
  rw [if_neg (not_or.mpr ⟨hne ' ' (by decide), hne '\t' (by decide)⟩), if_neg (hne '\'' (by decide)), if_neg (hne '"' (by decide)), if_pos hc]

theorem scan_all_safe {s : Reading} (hs : s.mode = .plain) {text : List Char} (hne : text ≠ []) (htext : text.all isSafe = true) :
    s.scan text = some (s.put text) := by
  induction text generalizing s with
  | nil => exact absurd rfl hne
  | cons c text ih =>
      rw [List.all_cons, Bool.and_eq_true] at htext
      rw [scan_cons, scan_safe hs htext.1, Option.bind_some]
      cases text with
      | nil => rfl
      | cons d text => rw [@ih (s.put [c]) hs (List.cons_ne_nil d text) htext.2, put_put, List.singleton_append]

/-- Between single quotes, a quote of the text leaves them, is quoted in the other way, and enters them again. -/
theorem scan_single {s : Reading} (hs : s.mode = .single) (text : List Char) :
    s.scan (text.flatMap fun c => if c = '\'' then ['\'', '"', '\'', '"', '\''] else [c]) = some (if text = [] then s else s.put text) := by
  induction text generalizing s with
  | nil => rfl
  | cons c text ih =>
      have hchar : s.scan (if c = '\'' then ['\'', '"', '\'', '"', '\''] else [c]) = some (s.put [c]) := by
        split_ifs with hc
        · subst hc
          simp [scan_cons, scan_nil, next, hs, put, backquote]
        · rw [scan_cons, next, hs]
          dsimp only
          rw [if_neg hc, Option.bind_some, scan_nil]
      rw [List.flatMap_cons, scan_append, hchar, Option.bind_some, @ih (s.put [c]) hs, if_neg (List.cons_ne_nil c text)]
      split_ifs with htext
      · rw [htext]
      · rw [put_put, List.singleton_append]

theorem scan_quote {s : Reading} (hs : s.mode = .plain) (text : List Char) : s.scan (quote text) = some (s.put text) := by
  rw [quote]
  split_ifs with hempty hsafe
  · subst hempty
    simp [scan_cons, scan_nil, next, hs, put]
  · exact scan_all_safe hs hempty hsafe
  · have hopen : s.next '\'' = some { s.put [] with mode := .single } := by
      rw [next, hs]
      rfl
    have hclose : ({ s.put text with mode := .single } : Reading).scan ['\''] = some (s.put text) := by
      obtain ⟨mode, words, word⟩ := s
      cases hs
      rfl
    rw [scan_cons, hopen, Option.bind_some, scan_append, scan_single rfl, if_neg hempty, Option.bind_some, put_mode, put_put, List.nil_append, hclose]

end Reading

end Foundation.ShellWords
