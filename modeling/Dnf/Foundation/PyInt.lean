import Mathlib.Data.Nat.Basic

/-!
# Python's `int` of a text, and `str` of a natural number

`int` strips blanks at both ends and reads an optional sign and decimal digits, where one underscore may stand between two digits. A character is a byte here: above 127 nothing is a digit or a blank. `pyInt_decimal` is the one law the rest needs: reading what `str` wrote gives the number back.
-/

namespace Foundation

def isBlank (c : Char) : Bool := c == ' ' || (9 ≤ c.toNat && c.toNat ≤ 13)

def strip (text : List Char) : List Char := ((text.dropWhile isBlank).reverse.dropWhile isBlank).reverse

/-- Decimal digits with single underscores between them; `afterDigit` is whether a digit was just read. -/
def readDigits (value : Nat) (afterDigit : Bool) : List Char → Option Nat
  | [] => if afterDigit then some value else none
  | c :: cs =>
      if c.isDigit then readDigits (10 * value + (c.toNat - 48)) true cs
      else if c = '_' ∧ afterDigit then readDigits value false cs
      else none

/-- `int(text)`; `none` is the `ValueError`. -/
def pyInt (text : List Char) : Option Int :=
  match strip text with
  | '-' :: digits => (readDigits 0 false digits).map fun n => -(n : Int)
  | '+' :: digits => (readDigits 0 false digits).map fun n => (n : Int)
  | digits => (readDigits 0 false digits).map fun n => (n : Int)

/-- `str(n)`. -/
def decimal (n : Nat) : List Char := Nat.toDigits 10 n

theorem isDigit_of_mem_decimal {n : Nat} {c : Char} (hc : c ∈ decimal n) : c.isDigit = true :=
  Nat.isDigit_of_mem_toDigits (by decide) (by decide) hc

theorem decimal_ne_nil (n : Nat) : decimal n ≠ [] := Nat.toDigits_ne_nil

theorem isBlank_of_isDigit {c : Char} (hc : c.isDigit = true) : isBlank c = false := by
  simp only [Char.isDigit, ge_iff_le, Bool.and_eq_true, decide_eq_true_eq] at hc
  obtain ⟨hlow, hhigh⟩ := hc
  have hlow' : 48 ≤ c.toNat := hlow
  have hne : c ≠ ' ' := by
    intro hc
    subst hc
    exact absurd hlow' (by decide)
  simp only [isBlank, Bool.or_eq_false_iff, beq_eq_false_iff_ne, Bool.and_eq_false_iff,
    decide_eq_false_iff_not]
  exact ⟨hne, Or.inr (by omega)⟩

theorem dropWhile_isBlank {text : List Char} (h : ∀ c ∈ text, c.isDigit = true) :
    text.dropWhile isBlank = text := by
  cases text with
  | nil => rfl
  | cons c cs =>
      have hc := isBlank_of_isDigit (h c (List.mem_cons_self ..))
      rw [List.dropWhile_cons, hc, if_neg (by decide)]

theorem strip_digits {text : List Char} (h : ∀ c ∈ text, c.isDigit = true) : strip text = text := by
  rw [strip, dropWhile_isBlank h, dropWhile_isBlank, List.reverse_reverse]
  intro c hc
  exact h c (List.mem_reverse.mp hc)

theorem readDigits_nil (value : Nat) (afterDigit : Bool) : readDigits value afterDigit [] = if afterDigit then some value else none := rfl

theorem readDigits_cons (value : Nat) (afterDigit : Bool) (c : Char) (cs : List Char) : readDigits value afterDigit (c :: cs) =
    if c.isDigit then readDigits (10 * value + (c.toNat - 48)) true cs else if c = '_' ∧ afterDigit then readDigits value false cs else none := rfl

theorem readDigits_digits {text : List Char} (h : ∀ c ∈ text, c.isDigit = true) (hne : text ≠ [])
    (value : Nat) (afterDigit : Bool) :
    readDigits value afterDigit text = some (Nat.ofDigitChars 10 text value) := by
  induction text generalizing value afterDigit with
  | nil => exact absurd rfl hne
  | cons c cs ih =>
      have hc := h c (List.mem_cons_self ..)
      rw [readDigits_cons, if_pos hc, Nat.ofDigitChars_cons]
      cases cs with
      | nil => rw [readDigits_nil, if_pos rfl, Nat.ofDigitChars_nil]; rfl
      | cons d ds => exact ih (fun x hx => h x (List.mem_cons_of_mem _ hx)) (by simp) _ _

/-- Reading what `str` wrote gives the number back. -/
theorem pyInt_decimal (n : Nat) : pyInt (decimal n) = some (n : Int) := by
  have hdigits : ∀ c ∈ decimal n, c.isDigit = true := fun c hc => isDigit_of_mem_decimal hc
  have hread : readDigits 0 false (decimal n) = some n := by
    rw [readDigits_digits hdigits (decimal_ne_nil n), decimal, Nat.ofDigitChars_ten_toDigits]
  rw [pyInt, strip_digits hdigits]
  split
  · rename_i digits heq
    have := hdigits '-' (by rw [heq]; exact List.mem_cons_self ..)
    exact absurd this (by decide)
  · rename_i digits heq
    have := hdigits '+' (by rw [heq]; exact List.mem_cons_self ..)
    exact absurd this (by decide)
  · rw [hread]
    rfl

/-! ### What `int` reads -/

theorem mem_readDigits {value n : Nat} {afterDigit : Bool} {text : List Char} (h : readDigits value afterDigit text = some n) {c : Char} (hc : c ∈ text) :
    c.isDigit = true ∨ c = '_' := by
  induction text generalizing value afterDigit with
  | nil => cases hc
  | cons d text ih =>
      rw [readDigits_cons] at h
      split_ifs at h with hdigit hunderscore
      · rcases List.mem_cons.mp hc with rfl | hc
        · exact .inl hdigit
        · exact ih h hc
      · rcases List.mem_cons.mp hc with rfl | hc
        · exact .inr hunderscore.1
        · exact ih h hc

/-- A number is written with digits, underscores, signs and blanks. -/
def isNumeral (c : Char) : Bool := c.isDigit || c = '_' || c = '-' || c = '+' || isBlank c

theorem mem_strip_or_isBlank {text : List Char} {c : Char} (hc : c ∈ text) : c ∈ strip text ∨ isBlank c = true := by
  have hdrop : ∀ text : List Char, c ∈ text → c ∈ text.dropWhile isBlank ∨ isBlank c = true := by
    intro text hc
    rw [← List.takeWhile_append_dropWhile (p := isBlank) (l := text)] at hc
    exact (List.mem_append.mp hc).symm.imp_right fun h => List.all_eq_true.mp List.all_takeWhile c h
  rcases hdrop text hc with hleft | hblank
  · rcases hdrop _ (List.mem_reverse.mpr hleft) with hright | hblank
    · exact .inl (List.mem_reverse.mpr hright)
    · exact .inr hblank
  · exact .inr hblank

/-- A number is a sign, if any, and digits. -/
theorem exists_readDigits_of_pyInt {text : List Char} {n : Int} (h : pyInt text = some n) :
    ∃ (signs digits : List Char) (value : Nat), strip text = signs ++ digits ∧ (signs = ['-'] ∧ n = -(value : Int) ∨ (signs = ['+'] ∨ signs = []) ∧ n = value) ∧
      readDigits 0 false digits = some value := by
  rw [pyInt] at h
  split at h
  · rename_i digits heq
    cases hread : readDigits 0 false digits with
    | none =>
        rw [hread] at h
        cases h
    | some value =>
        rw [hread] at h
        exact ⟨['-'], digits, value, heq, .inl ⟨rfl, (Option.some.inj h).symm⟩, hread⟩
  · rename_i digits heq
    cases hread : readDigits 0 false digits with
    | none =>
        rw [hread] at h
        cases h
    | some value =>
        rw [hread] at h
        exact ⟨['+'], digits, value, heq, .inr ⟨.inl rfl, (Option.some.inj h).symm⟩, hread⟩
  · cases hread : readDigits 0 false (strip text) with
    | none =>
        rw [hread] at h
        cases h
    | some value =>
        rw [hread] at h
        exact ⟨[], strip text, value, rfl, .inr ⟨.inr rfl, (Option.some.inj h).symm⟩, hread⟩

theorem isNumeral_of_pyInt {text : List Char} {n : Int} (h : pyInt text = some n) {c : Char} (hc : c ∈ text) : isNumeral c = true := by
  obtain ⟨signs, digits, value, hstrip, hsigns, hread⟩ := exists_readDigits_of_pyInt h
  rcases mem_strip_or_isBlank hc with hmem | hblank
  · rw [hstrip] at hmem
    rcases List.mem_append.mp hmem with hsign | hdigit
    · rcases hsigns with ⟨rfl, -⟩ | ⟨rfl | rfl, -⟩
      · rw [List.mem_singleton.mp hsign]
        rfl
      · rw [List.mem_singleton.mp hsign]
        rfl
      · cases hsign
    · rcases mem_readDigits hread hdigit with hdigit | rfl
      · rw [isNumeral, hdigit]
        rfl
      · rfl
  · rw [isNumeral, hblank, Bool.or_true]

theorem strip_minus (text : List Char) : ∃ rest, strip ('-' :: text) = '-' :: rest := by
  have hdrop : List.dropWhile isBlank ('-' :: text) = '-' :: text := rfl
  rw [strip, hdrop, List.reverse_cons, List.dropWhile_append]
  split_ifs
  · exact ⟨[], rfl⟩
  · rw [List.reverse_append]
    exact ⟨_, rfl⟩

/-- With a minus in front, nothing positive is read. -/
theorem pyInt_minus_le {text : List Char} {n : Int} (h : pyInt ('-' :: text) = some n) : n ≤ 0 := by
  obtain ⟨rest, hrest⟩ := strip_minus text
  obtain ⟨signs, digits, value, hstrip, hsigns, hread⟩ := exists_readDigits_of_pyInt h
  rw [hrest] at hstrip
  rcases hsigns with ⟨-, rfl⟩ | ⟨rfl | rfl, -⟩
  · omega
  · cases hstrip
  · rw [List.nil_append] at hstrip
    rw [← hstrip] at hread
    cases hread

theorem pyInt_nil : pyInt [] = none := by decide

end Foundation
