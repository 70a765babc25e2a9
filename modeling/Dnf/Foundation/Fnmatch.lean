import Mathlib.Data.List.Basic

/-!
# Shell patterns

`fnmatch` of a system whose names are case-sensitive. `*` is any text, `?` one character, and a set in brackets one of its characters or, after `!`, one that is not among them; two characters with a hyphen between them are a range, and a `]` that comes first belongs to the set. A bracket that is never closed stands for itself.
-/

namespace Foundation.Fnmatch

inductive Token
  | char (c : Char)
  | any
  | star
  | set (negated : Bool) (ranges : List (Char × Char))
  deriving DecidableEq

def ranges : List Char → List (Char × Char)
  | first :: '-' :: last :: rest => (first, last) :: ranges rest
  | c :: rest => (c, c) :: ranges rest
  | [] => []

/-- The set after a bracket, and what follows its end. -/
def bracket (pat : List Char) : Option (Token × List Char) :=
  let negated := pat.head? = some '!'
  let pat := if negated then pat.tail else pat
  let first := pat.take 1
  match (pat.drop 1).span (· ≠ ']') with
  | (_, []) => none
  | (body, _ :: rest) => some (.set negated (ranges (first ++ body)), rest)

def tokens : Nat → List Char → List Token
  | 0, _ => []
  | _, [] => []
  | fuel + 1, c :: pat =>
      match c with
      | '*' => .star :: tokens fuel pat
      | '?' => .any :: tokens fuel pat
      | '[' =>
          match bracket pat with
          | some (token, rest) => token :: tokens fuel rest
          | none => .char '[' :: tokens fuel pat
      | c => .char c :: tokens fuel pat

/-- Each token is shorter than what is left of the pattern, whose length is enough fuel. -/
def translate (pat : List Char) : List Token := tokens pat.length pat

def inRanges (ranges : List (Char × Char)) (c : Char) : Bool := ranges.any fun range => range.1 ≤ c && c ≤ range.2

def Token.accepts : Token → Char → Bool
  | .char c, c' => c' = c
  | .any, _ => true
  | .star, _ => false
  | .set negated ranges, c => inRanges ranges c != negated

/-- `rest` accepts some end of the name. -/
def someSuffix (rest : List Char → Bool) : List Char → Bool
  | [] => rest []
  | c :: name => rest (c :: name) || someSuffix rest name

def run : List Token → List Char → Bool
  | [], name => name.isEmpty
  | .star :: tokens, name => someSuffix (run tokens) name
  | _ :: _, [] => false
  | token :: tokens, c :: name => token.accepts c && run tokens name

def fnmatch (name pat : String) : Bool := run (translate pat.toList) name.toList

example : fnmatch "/etc/ssh/sshd_config" "/etc/[!a-r]*/ssh?_*" = true := by decide +kernel
example : fnmatch "a]" "[]]]" = false ∧ fnmatch "]]" "[]]]" = true ∧ fnmatch "[a" "[a" = true := by decide +kernel

/-- A text that is taken for a pattern where both are allowed. -/
def isGlobPattern (pattern : String) : Bool := pattern.toList.any fun c => c = '*' || c = '[' || c = '?'

/-! ### Without regard to case

`variants` lists the characters that differ from a character in case only, with itself.
-/

section IgnoringCase

variable (variants : Char → List Char)

def Token.acceptsIgnoringCase : Token → Char → Bool
  | .char c, c' => c ∈ variants c'
  | .any, _ => true
  | .star, _ => false
  | .set negated ranges, c => (variants c).any (inRanges ranges) != negated

def runIgnoringCase : List Token → List Char → Bool
  | [], name => name.isEmpty
  | .star :: tokens, name => someSuffix (runIgnoringCase tokens) name
  | _ :: _, [] => false
  | token :: tokens, c :: name => token.acceptsIgnoringCase variants c && runIgnoringCase tokens name

def fnmatchIgnoringCase (name pat : String) : Bool := runIgnoringCase variants (translate pat.toList) name.toList

variable {variants} {c : Char}

theorem exists_of_someSuffix {rest : List Char → Bool} {name : List Char} (h : someSuffix rest name = true) :
    ∃ suffix, suffix <:+ name ∧ rest suffix = true := by
  induction name with
  | nil => exact ⟨[], List.suffix_refl [], h⟩
  | cons c' name ih =>
      rcases Bool.or_eq_true_iff.mp h with hhere | hlater
      · exact ⟨c' :: name, List.suffix_refl _, hhere⟩
      · obtain ⟨suffix, hsuffix, hrest⟩ := ih hlater
        exact ⟨suffix, hsuffix.trans (List.suffix_cons c' name), hrest⟩

/-- A character that stands for itself is in what the pattern accepts. -/
theorem mem_of_runIgnoringCase {ts : List Token} {name : List Char} (hc : .char c ∈ ts) (h : runIgnoringCase variants ts name = true) :
    ∃ c' ∈ name, c ∈ variants c' := by
  induction ts generalizing name with
  | nil => cases hc
  | cons t ts ih =>
      by_cases hstar : t = .star
      · subst hstar
        obtain ⟨suffix, hsuffix, hrest⟩ := exists_of_someSuffix h
        obtain ⟨c', hc', hvariant⟩ := ih ((List.mem_cons.mp hc).resolve_left Token.noConfusion) hrest
        exact ⟨c', hsuffix.subset hc', hvariant⟩
      · cases name with
        | nil => cases t <;> first | exact absurd rfl hstar | cases h
        | cons c' name =>
            have hboth : t.acceptsIgnoringCase variants c' = true ∧ runIgnoringCase variants ts name = true := by
              cases t <;> first | exact absurd rfl hstar | exact Bool.and_eq_true_iff.mp h
            rcases List.mem_cons.mp hc with rfl | hmem
            · exact ⟨c', List.mem_cons_self, of_decide_eq_true hboth.1⟩
            · obtain ⟨c'', hc'', hvariant⟩ := ih hmem hboth.2
              exact ⟨c'', List.mem_cons_of_mem _ hc'', hvariant⟩

/-- Without brackets each character is read for itself. -/
theorem char_mem_tokens {pat : List Char} {fuel : Nat} (hfuel : pat.length ≤ fuel) (hbracket : '[' ∉ pat) (hc : c ∈ pat) (hplain : c ≠ '*' ∧ c ≠ '?') :
    .char c ∈ tokens fuel pat := by
  induction pat generalizing fuel with
  | nil => cases hc
  | cons d pat ih =>
      obtain ⟨fuel, rfl⟩ := Nat.exists_eq_add_one.mpr (Nat.lt_of_lt_of_le (Nat.succ_pos pat.length) hfuel)
      have hd : d ≠ '[' := fun heq => hbracket (heq ▸ List.mem_cons_self)
      have hrest : c ∈ pat → .char c ∈ tokens fuel pat := fun hmem =>
        ih (Nat.le_of_succ_le_succ hfuel) (fun hmem' => hbracket (List.mem_cons_of_mem _ hmem')) hmem
      rw [tokens.eq_def]
      dsimp only
      rcases List.mem_cons.mp hc with rfl | hmem
      · split
        · exact absurd rfl hplain.1
        · exact absurd rfl hplain.2
        · exact absurd rfl hd
        · exact List.mem_cons_self
      · split
        · exact List.mem_cons_of_mem _ (hrest hmem)
        · exact List.mem_cons_of_mem _ (hrest hmem)
        · exact absurd rfl hd
        · exact List.mem_cons_of_mem _ (hrest hmem)

theorem mem_of_fnmatchIgnoringCase {name pat : String} (hbracket : '[' ∉ pat.toList) (hc : c ∈ pat.toList) (hplain : c ≠ '*' ∧ c ≠ '?')
    (h : fnmatchIgnoringCase variants name pat = true) : ∃ c' ∈ name.toList, c ∈ variants c' :=
  mem_of_runIgnoringCase (char_mem_tokens (Nat.le_refl _) hbracket hc hplain) h

end IgnoringCase

/-- The letters of ASCII. -/
def asciiVariants (c : Char) : List Char := [c, c.toLower, c.toUpper]

example : fnmatchIgnoringCase asciiVariants "Base-X" "b[A-Z]se*x" = true := by decide +kernel

end Foundation.Fnmatch
