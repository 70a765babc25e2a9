import Dnf.Cli.AlignedRows

/-!
# Chopping and filling in display cells

`chop_str` takes characters while their cells stay within the limit, so a double width character may leave the last cell of the limit free. `fill_exact_width` chops a text and fills it with blanks on the other side of it.
-/

namespace Dnf.I18n

open Dnf.Cli.FmtColumns (exactWidth exactWidthChar blanks exactWidth_blanks)

variable (wide : Char → Bool)

/-- The loop of `chop_str`. -/
def chopLoop (chop : Int) (width : Nat) (choppedMsg : List Char) : List Char → Nat × List Char
  | [] => (width, choppedMsg)
  | char :: msg =>
      if chop < (width + exactWidthChar wide char : Nat) then (width, choppedMsg)
      else chopLoop chop (width + exactWidthChar wide char) (choppedMsg ++ [char]) msg

/-- `chop_str` -/
def chopStr (msg : List Char) (chop : Option Int) : Nat × List Char :=
  match chop with
  | none => (exactWidth wide msg, msg)
  | some chop => chopLoop wide chop 0 [] msg

/-- `fill_exact_width` -/
def fillExactWidth (msg : List Char) (fill : Int) (chop : Option Int) (left : Bool) (front back : List Char) : List Char :=
  let (width, msg) := chopStr wide msg chop
  if fill ≤ width then front ++ msg ++ back
  else
    let extra := blanks (fill - width).toNat
    if left then front ++ msg ++ back ++ extra else extra ++ front ++ msg ++ back

/-- The tables fill without chopping. -/
theorem fillExactWidth_none (msg : List Char) (fill : Nat) (left : Bool) (front back : List Char) :
    fillExactWidth wide msg fill none left front back = Dnf.Cli.FmtColumns.fillExactWidth wide msg fill left front back := by
  rw [fillExactWidth, Dnf.Cli.FmtColumns.fillExactWidth, chopStr]
  simp only [Int.ofNat_le, Int.toNat_sub]

/-- The text is the longest start of `msg` within the limit. Below zero no start is. -/
structure LongestWithin (msg : List Char) (chop : Int) (chopped : List Char) : Prop where
  start : chopped <+: msg
  within : 0 ≤ chop → exactWidth wide chopped ≤ chop
  longest : ∀ other, other <+: msg → exactWidth wide other ≤ chop → other <+: chopped
  negative : chop < 0 → chopped = []

variable {wide}

@[simp] theorem exactWidth_nil : exactWidth wide [] = 0 := rfl

@[simp] theorem exactWidth_cons (c : Char) (msg : List Char) : exactWidth wide (c :: msg) = exactWidthChar wide c + exactWidth wide msg := by
  rw [exactWidth, List.map_cons, List.sum_cons, exactWidth]

@[simp] theorem exactWidth_append (msg msg' : List Char) : exactWidth wide (msg ++ msg') = exactWidth wide msg + exactWidth wide msg' := by
  rw [exactWidth, List.map_append, List.sum_append, exactWidth, exactWidth]

theorem one_le_exactWidthChar (c : Char) : 1 ≤ exactWidthChar wide c := by
  rw [exactWidthChar]
  split <;> omega

theorem chopLoop_nil (chop : Int) (width : Nat) (chopped : List Char) : chopLoop wide chop width chopped [] = (width, chopped) := rfl

theorem chopLoop_cons (chop : Int) (width : Nat) (chopped : List Char) (char : Char) (msg : List Char) :
    chopLoop wide chop width chopped (char :: msg) =
      if chop < (width + exactWidthChar wide char : Nat) then (width, chopped)
      else chopLoop wide chop (width + exactWidthChar wide char) (chopped ++ [char]) msg := rfl

/-- What the rest of the loop adds: the characters that still fit. -/
theorem chopLoop_spec (chop : Int) (width : Nat) (chopped msg : List Char) :
    ∃ fitting, chopLoop wide chop width chopped msg = (width + exactWidth wide fitting, chopped ++ fitting) ∧ fitting <+: msg ∧
      (width ≤ chop → (width + exactWidth wide fitting : Nat) ≤ chop) ∧
      ∀ other, other <+: msg → (width + exactWidth wide other : Nat) ≤ chop → other <+: fitting := by
  induction msg generalizing width chopped with
  | nil =>
      refine ⟨[], by simp [chopLoop_nil], List.prefix_refl [], by simp, ?_⟩
      intro other hother _
      exact hother
  | cons char msg ih =>
      rw [chopLoop_cons]
      by_cases hstop : chop < (width + exactWidthChar wide char : Nat)
      · rw [if_pos hstop]
        refine ⟨[], by simp, List.nil_prefix, by simp, ?_⟩
        intro other hother hwidth
        -- a longer start would hold `char`
        cases other with
        | nil => exact List.prefix_refl []
        | cons c other =>
            obtain ⟨rfl, -⟩ := List.cons_prefix_cons.mp hother
            rw [exactWidth_cons] at hwidth
            omega
      · rw [if_neg hstop]
        obtain ⟨fitting, hloop, hstart, hwithin, hlongest⟩ := ih (width + exactWidthChar wide char) (chopped ++ [char])
        refine ⟨char :: fitting, ?_, List.cons_prefix_cons.mpr ⟨rfl, hstart⟩, ?_, ?_⟩
        · rw [hloop, exactWidth_cons, Nat.add_assoc, List.append_assoc, List.singleton_append]
        · intro _
          have := hwithin (by omega)
          rwa [exactWidth_cons, ← Nat.add_assoc]
        · intro other hother hwidth
          cases other with
          | nil => exact List.nil_prefix
          | cons c other =>
              obtain ⟨rfl, hrest⟩ := List.cons_prefix_cons.mp hother
              rw [exactWidth_cons, ← Nat.add_assoc] at hwidth
              exact List.cons_prefix_cons.mpr ⟨rfl, hlongest other hrest hwidth⟩

theorem chopStr_fst (msg : List Char) (chop : Option Int) : (chopStr wide msg chop).1 = exactWidth wide (chopStr wide msg chop).2 := by
  cases chop with
  | none => rfl
  | some chop =>
      obtain ⟨fitting, hloop, -⟩ := @chopLoop_spec wide chop 0 [] msg
      rw [chopStr, hloop, Nat.zero_add, List.nil_append]

theorem chopStr_longestWithin (msg : List Char) (chop : Int) : LongestWithin wide msg chop (chopStr wide msg (some chop)).2 := by
  obtain ⟨fitting, hloop, hstart, hwithin, hlongest⟩ := @chopLoop_spec wide chop 0 [] msg
  rw [chopStr, hloop, List.nil_append]
  refine ⟨hstart, fun h => by simpa using hwithin h, fun other hother hwidth => hlongest other hother (by simpa using hwidth), ?_⟩
  intro hnegative
  cases msg with
  | nil => exact List.prefix_nil.mp hstart
  | cons char msg =>
      rw [chopLoop_cons, if_pos (by omega)] at hloop
      exact (congrArg Prod.snd hloop).symm

/-- The text at the side asked for, and blanks for the cells that it leaves free. -/
theorem fillExactWidth_eq (msg : List Char) (fill : Int) (chop : Option Int) (left : Bool) :
    fillExactWidth wide msg fill chop left [] [] =
      if left then (chopStr wide msg chop).2 ++ blanks (fill - (chopStr wide msg chop).1).toNat
      else blanks (fill - (chopStr wide msg chop).1).toNat ++ (chopStr wide msg chop).2 := by
  rw [fillExactWidth]
  by_cases hfill : fill ≤ (chopStr wide msg chop).1
  · have hnone : (fill - (chopStr wide msg chop).1).toNat = 0 := by omega
    cases left <;> simp [hfill, hnone, blanks]
  · cases left <;> simp [hfill]

theorem exactWidth_fillExactWidth (hblank : wide ' ' = false) (msg : List Char) (fill : Int) (chop : Option Int) (left : Bool) :
    exactWidth wide (fillExactWidth wide msg fill chop left [] []) = max fill (chopStr wide msg chop).1 := by
  have hwidth := @chopStr_fst wide msg chop
  rw [fillExactWidth_eq]
  cases left <;> simp only [Bool.false_eq_true, if_false, if_true, exactWidth_append, exactWidth_blanks hblank, ← hwidth] <;> omega

/-- The longest start within the limit with its width, and the exact width of the filled text with the text at its side. A blank takes one cell. -/
theorem chop_fill_exact (hblank : wide ' ' = false) (msg : List Char) :
    (∀ chop : Int, (chopStr wide msg (some chop)).1 = exactWidth wide (chopStr wide msg (some chop)).2 ∧
        LongestWithin wide msg chop (chopStr wide msg (some chop)).2) ∧
      (∀ (fill : Int) (chop : Option Int) (left : Bool),
        exactWidth wide (fillExactWidth wide msg fill chop left [] []) = max fill (chopStr wide msg chop).1 ∧
          ∃ n, fillExactWidth wide msg fill chop left [] [] =
            if left then (chopStr wide msg chop).2 ++ blanks n else blanks n ++ (chopStr wide msg chop).2) ∧
      ∀ (n : Nat) (left : Bool), exactWidth wide (fillExactWidth wide msg n (some n) left [] []) = n := by
  refine ⟨fun chop => ⟨chopStr_fst msg (some chop), chopStr_longestWithin msg chop⟩,
    fun fill chop left => ⟨exactWidth_fillExactWidth hblank msg fill chop left, _, fillExactWidth_eq msg fill chop left⟩, ?_⟩
  intro n left
  have hfilled := exactWidth_fillExactWidth hblank msg n (some n) left
  have hwithin := (@chopStr_longestWithin wide msg n).within (Int.natCast_nonneg n)
  rw [← chopStr_fst] at hwithin
  omega

/-- Of `重uř` three cells hold two characters, and five are filled with one blank. -/
theorem chop_fill_exact_test :
    chopStr (fun c => c = '重') ['重', 'u', 'ř'] (some 3) = (3, ['重', 'u']) ∧
      exactWidth (fun c => c = '重') (fillExactWidth (fun c => c = '重') ['重', 'u', 'ř'] 5 (some 10) true [] []) = 5 := by
  refine ⟨by decide, ?_⟩
  have hfilled := ((@chop_fill_exact (fun c => c = '重') (by decide) ['重', 'u', 'ř']).2.1 5 (some 10) true).1
  have hwidth : (chopStr (fun c => c = '重') ['重', 'u', 'ř'] (some 10)).1 = 4 := by decide
  rw [hwidth] at hfilled
  omega

end Dnf.I18n
