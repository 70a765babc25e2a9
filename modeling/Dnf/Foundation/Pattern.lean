import Mathlib.Data.List.Basic

/-!
# Regular expressions, as a backtracking matcher runs them

The part of the language in which only single characters are repeated. A pattern is run on a text and has a list of matches, in the order in which they are tried: a repetition takes as much as it can first. `re.match` is the first match; it starts at the beginning of the text and need not reach its end.
-/

namespace Foundation

/-- `ending` is `$`, and `group` the group that is asked for. -/
inductive Pattern
  | empty
  | one (p : Char → Bool)
  | many (p : Char → Bool)
  | seq (first second : Pattern)
  | either (first second : Pattern)
  | group (body : Pattern)
  | ending

namespace Pattern

structure Found where
  group : Option (List Char) := none
  taken : List Char
  rest : List Char
  deriving DecidableEq

/-- The ways to take characters that satisfy `p`, the longest first. -/
def spans (p : Char → Bool) : List Char → List Found
  | [] => [{ taken := [], rest := [] }]
  | c :: text =>
      if p c then (spans p text).map (fun found => { found with taken := c :: found.taken }) ++ [{ taken := [], rest := c :: text }]
      else [{ taken := [], rest := c :: text }]

def andThen (first second : Found) : Found :=
  { group := second.group.or first.group, taken := first.taken ++ second.taken, rest := second.rest }

def runs : Pattern → List Char → List Found
  | empty, text => [{ taken := [], rest := text }]
  | one _, [] => []
  | one p, c :: text => if p c then [{ taken := [c], rest := text }] else []
  | many p, text => spans p text
  | seq first second, text => (first.runs text).flatMap fun found => (second.runs found.rest).map (andThen found)
  | either first second, text => first.runs text ++ second.runs text
  | group body, text => (body.runs text).map fun found => { found with group := some found.taken }
  | ending, text => if text = [] ∨ text = ['\n'] then [{ taken := [], rest := text }] else []

theorem spans_nil (p : Char → Bool) : spans p [] = [{ taken := [], rest := [] }] := rfl

theorem spans_cons (p : Char → Bool) (c : Char) (text : List Char) : spans p (c :: text) =
    if p c then (spans p text).map (fun found => { found with taken := c :: found.taken }) ++ [{ taken := [], rest := c :: text }]
    else [{ taken := [], rest := c :: text }] := rfl

theorem runs_empty (text : List Char) : empty.runs text = [{ taken := [], rest := text }] := rfl

theorem runs_one_cons (p : Char → Bool) (c : Char) (text : List Char) :
    (one p).runs (c :: text) = if p c then [{ taken := [c], rest := text }] else [] := rfl

theorem runs_many (p : Char → Bool) (text : List Char) : (many p).runs text = spans p text := rfl

theorem runs_ending (text : List Char) : ending.runs text = if text = [] ∨ text = ['\n'] then [{ taken := [], rest := text }] else [] := rfl

/-- `re.match` -/
def reMatch (p : Pattern) (text : List Char) : Option Found := (p.runs text).head?

/-! ### Derived patterns -/

def char (c : Char) : Pattern := one (· = c)

/-- `.` -/
def dot (c : Char) : Bool := c ≠ '\n'

def word : List Char → Pattern
  | [] => empty
  | c :: text => seq (char c) (word text)

def times (p : Char → Bool) : Nat → Pattern
  | 0 => empty
  | n + 1 => seq (one p) (times p n)

def plus (p : Char → Bool) : Pattern := seq (one p) (many p)

def optional (body : Pattern) : Pattern := either body empty

def oneOf : List Pattern → Pattern
  | [] => one fun _ => false
  | [p] => p
  | p :: q :: rest => either p (oneOf (q :: rest))

theorem word_cons (c : Char) (text : List Char) : word (c :: text) = seq (char c) (word text) := rfl

theorem times_zero (p : Char → Bool) : times p 0 = empty := rfl

theorem times_succ (p : Char → Bool) (n : Nat) : times p (n + 1) = seq (one p) (times p n) := rfl

theorem oneOf_nil : oneOf [] = one fun _ => false := rfl

theorem oneOf_singleton (p : Pattern) : oneOf [p] = p := rfl

theorem oneOf_cons (p q : Pattern) (rest : List Pattern) : oneOf (p :: q :: rest) = either p (oneOf (q :: rest)) := rfl

/-! ### What is matched -/

/-- `taken` can be taken where `rest` follows it. -/
def Matches (p : Pattern) (group : Option (List Char)) (taken rest : List Char) : Prop := ⟨group, taken, rest⟩ ∈ p.runs (taken ++ rest)

variable {p : Char → Bool} {group : Option (List Char)} {taken rest text : List Char} {first second body : Pattern}

theorem mem_spans {found : Found} : found ∈ spans p text ↔ found.group = none ∧ (∀ c ∈ found.taken, p c = true) ∧ text = found.taken ++ found.rest := by
  obtain ⟨group, taken, rest⟩ := found
  induction text generalizing taken with
  | nil =>
      rw [spans_nil, List.mem_singleton, Found.mk.injEq]
      constructor
      · rintro ⟨rfl, rfl, rfl⟩
        exact ⟨rfl, fun c hc => absurd hc List.not_mem_nil, rfl⟩
      · rintro ⟨rfl, -, heq⟩
        obtain ⟨rfl, rfl⟩ := List.append_eq_nil_iff.mp heq.symm
        exact ⟨rfl, rfl, rfl⟩
  | cons c text ih =>
      have hnone : (⟨group, taken, rest⟩ : Found) = { taken := [], rest := c :: text } → group = none ∧ (∀ c ∈ taken, p c = true) ∧ c :: text = taken ++ rest := by
        rintro ⟨⟩
        exact ⟨rfl, fun c hc => absurd hc List.not_mem_nil, rfl⟩
      rw [spans_cons]
      constructor
      · intro hmem
        split_ifs at hmem with hp
        · rcases List.mem_append.mp hmem with hmem | hmem
          · obtain ⟨⟨group', taken', rest'⟩, hfound, heq⟩ := List.mem_map.mp hmem
            obtain ⟨rfl, rfl, rfl⟩ := Found.mk.inj heq
            obtain ⟨hgroup, hall, rfl⟩ := (ih taken').mp hfound
            exact ⟨hgroup, fun d hd => (List.mem_cons.mp hd).elim (fun hdc => hdc ▸ hp) (hall d), rfl⟩
          · exact hnone (List.mem_singleton.mp hmem)
        · exact hnone (List.mem_singleton.mp hmem)
      · rintro ⟨hgroup, hall, heq⟩
        dsimp only at hgroup hall heq
        subst hgroup
        cases taken with
        | nil =>
            obtain rfl : c :: text = rest := heq
            split_ifs
            · exact List.mem_append_right _ (List.mem_singleton_self _)
            · exact List.mem_singleton_self _
        | cons d taken =>
            obtain ⟨rfl, rfl⟩ := List.cons.inj heq
            rw [if_pos (hall c List.mem_cons_self)]
            refine List.mem_append_left _ (List.mem_map.mpr ⟨⟨none, taken, rest⟩, (ih taken).mpr ⟨rfl, fun d hd => hall d (List.mem_cons_of_mem c hd), rfl⟩, rfl⟩)

/-- A match divides the text. -/
theorem taken_append_rest {p : Pattern} {found : Found} (h : found ∈ p.runs text) : found.taken ++ found.rest = text := by
  induction p generalizing text found with
  | empty =>
      obtain rfl := List.mem_singleton.mp h
      rfl
  | one p =>
      cases text with
      | nil => exact absurd h List.not_mem_nil
      | cons c text =>
          rw [runs_one_cons] at h
          split_ifs at h
          · obtain rfl := List.mem_singleton.mp h
            rfl
          · exact absurd h List.not_mem_nil
  | many p => exact (mem_spans.mp h).2.2.symm
  | seq first second ihf ihs =>
      obtain ⟨f, hf, hmem⟩ := List.mem_flatMap.mp h
      obtain ⟨g, hg, rfl⟩ := List.mem_map.mp hmem
      rw [andThen, List.append_assoc, ihs hg, ihf hf]
  | either first second ihf ihs => exact (List.mem_append.mp h).elim ihf ihs
  | group body ih =>
      obtain ⟨f, hf, rfl⟩ := List.mem_map.mp h
      exact @ih text f hf
  | ending =>
      rw [runs_ending] at h
      split_ifs at h
      · obtain rfl := List.mem_singleton.mp h
        rfl
      · exact absurd h List.not_mem_nil

theorem matches_of_mem {p : Pattern} {found : Found} (h : found ∈ p.runs text) : p.Matches found.group found.taken found.rest := by
  rw [Matches, taken_append_rest h]
  exact h

@[simp]
theorem matches_empty : empty.Matches group taken rest ↔ group = none ∧ taken = [] := by
  simp only [Matches, runs_empty, List.mem_singleton, Found.mk.injEq]
  refine and_congr_right fun _ => ⟨fun h => h.1, fun h => ⟨h, ?_⟩⟩
  rw [h, List.nil_append]

@[simp]
theorem matches_one : (one p).Matches group taken rest ↔ group = none ∧ ∃ c, p c = true ∧ taken = [c] := by
  rw [Matches]
  constructor
  · intro h
    cases htext : taken ++ rest with
    | nil =>
        rw [htext] at h
        exact absurd h List.not_mem_nil
    | cons c text =>
        rw [htext, runs_one_cons] at h
        split_ifs at h with hp
        · obtain ⟨rfl, rfl, rfl⟩ := Found.mk.inj (List.mem_singleton.mp h)
          exact ⟨rfl, c, hp, rfl⟩
        · exact absurd h List.not_mem_nil
  · rintro ⟨rfl, c, hp, rfl⟩
    rw [List.singleton_append, runs_one_cons, if_pos hp]
    exact List.mem_singleton_self _

@[simp]
theorem matches_many : (many p).Matches group taken rest ↔ group = none ∧ ∀ c ∈ taken, p c = true := by
  rw [Matches, runs_many, mem_spans]
  exact ⟨fun h => ⟨h.1, h.2.1⟩, fun h => ⟨h.1, h.2, rfl⟩⟩

/-- In a sequence each part takes its own text. -/
@[simp]
theorem matches_seq : (seq first second).Matches group taken rest ↔
    ∃ t t' g g', taken = t ++ t' ∧ group = g'.or g ∧ first.Matches g t (t' ++ rest) ∧ second.Matches g' t' rest := by
  constructor
  · intro h
    obtain ⟨⟨g, t, r⟩, hf, hmem⟩ := List.mem_flatMap.mp h
    obtain ⟨⟨g', t', r'⟩, hs, heq⟩ := List.mem_map.mp hmem
    obtain ⟨rfl, rfl, rfl⟩ := Found.mk.inj heq
    have hrest := taken_append_rest hs
    dsimp only at hrest
    refine ⟨t, t', g, g', rfl, rfl, ?_, matches_of_mem hs⟩
    rw [hrest]
    exact matches_of_mem hf
  · rintro ⟨t, t', g, g', rfl, rfl, hf, hs⟩
    refine List.mem_flatMap.mpr ⟨⟨g, t, t' ++ rest⟩, ?_, List.mem_map.mpr ⟨⟨g', t', rest⟩, hs, rfl⟩⟩
    rw [List.append_assoc]
    exact hf

@[simp]
theorem matches_either : (either first second).Matches group taken rest ↔ first.Matches group taken rest ∨ second.Matches group taken rest :=
  List.mem_append

@[simp]
theorem matches_group : (Pattern.group body).Matches group taken rest ↔ group = some taken ∧ ∃ g, body.Matches g taken rest := by
  constructor
  · intro h
    obtain ⟨⟨g, t, r⟩, hbody, heq⟩ := List.mem_map.mp h
    obtain ⟨rfl, rfl, rfl⟩ := Found.mk.inj heq
    exact ⟨rfl, g, matches_of_mem hbody⟩
  · rintro ⟨rfl, g, hbody⟩
    exact List.mem_map.mpr ⟨⟨g, taken, rest⟩, hbody, rfl⟩

@[simp]
theorem matches_ending : ending.Matches group taken rest ↔ group = none ∧ taken = [] ∧ (rest = [] ∨ rest = ['\n']) := by
  rw [Matches, runs_ending]
  constructor
  · intro h
    split_ifs at h with hend
    · obtain ⟨rfl, rfl, hrest⟩ := Found.mk.inj (List.mem_singleton.mp h)
      exact ⟨rfl, rfl, hend⟩
    · exact absurd h List.not_mem_nil
  · rintro ⟨rfl, rfl, hend⟩
    rw [List.nil_append, if_pos hend]
    exact List.mem_singleton_self _

theorem Matches.seq {g g' : Option (List Char)} {t t' : List Char} (hfirst : first.Matches g t (t' ++ rest)) (hsecond : second.Matches g' t' rest) :
    (seq first second).Matches (g'.or g) (t ++ t') rest :=
  matches_seq.mpr ⟨t, t', g, g', rfl, rfl, hfirst, hsecond⟩

theorem matches_char (c : Char) : (char c).Matches group taken rest ↔ group = none ∧ taken = [c] := by
  rw [char, matches_one]
  refine and_congr_right fun _ => ⟨?_, fun h => ⟨c, decide_eq_true rfl, h⟩⟩
  rintro ⟨d, hd, rfl⟩
  rw [of_decide_eq_true hd]

theorem matches_word (w : List Char) : (word w).Matches group taken rest ↔ group = none ∧ taken = w := by
  induction w generalizing group taken with
  | nil => exact matches_empty
  | cons c w ih =>
      rw [word_cons, char]
      constructor
      · intro h
        obtain ⟨t, t', g, g', rfl, rfl, hf, hs⟩ := matches_seq.mp h
        obtain ⟨rfl, d, hd, rfl⟩ := matches_one.mp hf
        obtain ⟨rfl, rfl⟩ := ih.mp hs
        exact ⟨rfl, by rw [of_decide_eq_true hd, List.singleton_append]⟩
      · rintro ⟨rfl, rfl⟩
        exact Matches.seq (matches_one.mpr ⟨rfl, c, decide_eq_true rfl, rfl⟩) (ih.mpr ⟨rfl, rfl⟩)

theorem matches_times (n : Nat) : (times p n).Matches group taken rest ↔ group = none ∧ taken.length = n ∧ ∀ c ∈ taken, p c = true := by
  induction n generalizing group taken with
  | zero =>
      rw [times_zero, matches_empty, List.length_eq_zero_iff]
      exact and_congr_right fun _ => ⟨fun h => ⟨h, by simp [h]⟩, fun h => h.1⟩
  | succ n ih =>
      rw [times_succ]
      constructor
      · intro h
        obtain ⟨t, t', g, g', rfl, rfl, hf, hs⟩ := matches_seq.mp h
        obtain ⟨rfl, c, hc, rfl⟩ := matches_one.mp hf
        obtain ⟨rfl, hlength, hall⟩ := ih.mp hs
        refine ⟨rfl, by rw [List.singleton_append, List.length_cons, hlength], fun d hd => ?_⟩
        exact (List.mem_cons.mp hd).elim (fun hdc => hdc ▸ hc) (hall d)
      · rintro ⟨rfl, hlength, hall⟩
        cases taken with
        | nil => exact absurd hlength (by simp)
        | cons c taken =>
            refine Matches.seq (t := [c]) (matches_one.mpr ⟨rfl, c, hall c List.mem_cons_self, rfl⟩) (ih.mpr ⟨rfl, Nat.succ.inj hlength, fun d hd => ?_⟩)
            exact hall d (List.mem_cons_of_mem c hd)

theorem matches_plus : (plus p).Matches group taken rest ↔ group = none ∧ taken ≠ [] ∧ ∀ c ∈ taken, p c = true := by
  rw [plus]
  constructor
  · intro h
    obtain ⟨t, t', g, g', rfl, rfl, hf, hs⟩ := matches_seq.mp h
    obtain ⟨rfl, c, hc, rfl⟩ := matches_one.mp hf
    obtain ⟨rfl, hall⟩ := matches_many.mp hs
    exact ⟨rfl, by simp, fun d hd => (List.mem_cons.mp hd).elim (fun hdc => hdc ▸ hc) (hall d)⟩
  · rintro ⟨rfl, hne, hall⟩
    cases taken with
    | nil => exact absurd rfl hne
    | cons c taken =>
        exact Matches.seq (t := [c]) (matches_one.mpr ⟨rfl, c, hall c List.mem_cons_self, rfl⟩)
          (matches_many.mpr ⟨rfl, fun d hd => hall d (List.mem_cons_of_mem c hd)⟩)

theorem matches_optional : (optional body).Matches group taken rest ↔ body.Matches group taken rest ∨ group = none ∧ taken = [] := by
  rw [optional, matches_either, matches_empty]

theorem matches_oneOf (ps : List Pattern) : (oneOf ps).Matches group taken rest ↔ ∃ p ∈ ps, p.Matches group taken rest := by
  induction ps with
  | nil => simp [oneOf_nil]
  | cons p ps ih =>
      cases ps with
      | nil => simp [oneOf_singleton]
      | cons q ps =>
          rw [oneOf_cons, matches_either, ih]
          exact (List.exists_mem_cons_iff (fun p => p.Matches group taken rest) p (q :: ps)).symm

theorem matches_oneOf_word (words : List (List Char)) : (oneOf (words.map word)).Matches group taken rest ↔ group = none ∧ taken ∈ words := by
  rw [matches_oneOf]
  constructor
  · rintro ⟨p, hp, h⟩
    obtain ⟨w, hw, rfl⟩ := List.mem_map.mp hp
    obtain ⟨rfl, rfl⟩ := (matches_word w).mp h
    exact ⟨rfl, hw⟩
  · rintro ⟨rfl, hw⟩
    exact ⟨word taken, List.mem_map_of_mem hw, (matches_word taken).mpr ⟨rfl, rfl⟩⟩

/-! ### The first match -/

theorem exists_reMatch_iff {p : Pattern} : (∃ found, p.reMatch text = some found) ↔ ∃ group taken rest, text = taken ++ rest ∧ p.Matches group taken rest := by
  constructor
  · rintro ⟨found, hfound⟩
    have hmem := List.mem_of_mem_head? hfound
    exact ⟨found.group, found.taken, found.rest, (taken_append_rest hmem).symm, matches_of_mem hmem⟩
  · rintro ⟨group, taken, rest, rfl, h⟩
    exact ⟨_, List.head?_eq_some_head (List.ne_nil_of_mem h)⟩

theorem matches_of_reMatch {p : Pattern} {found : Found} (h : p.reMatch text = some found) :
    text = found.taken ++ found.rest ∧ p.Matches found.group found.taken found.rest := by
  have hmem := List.mem_of_mem_head? h
  exact ⟨(taken_append_rest hmem).symm, matches_of_mem hmem⟩

end Pattern

end Foundation
