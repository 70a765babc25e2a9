import Dnf.Foundation.Lines
import Dnf.Foundation.Strip
import Dnf.Foundation.Words
import Dnf.I18n.TextwrapFill

/-!
# Wrapping keeps the words and the width

With indents of blanks, each line that is ended either fits or is a word behind its indentation. What is still being wrapped is blanks, or such a line with blanks after it: a word is put on a new line as soon as it does not fit behind another word.
-/

namespace Dnf.I18n

open Foundation Foundation.Words
open Dnf.Cli.FmtColumns (exactWidth exactWidthChar blanks exactWidth_blanks)

/-- The blanks between the words of a text. -/
def isBlankChar (c : Char) : Bool := c = ' ' || c = '\t' || c = '\n'

/-- The blank-separated words. -/
def blankWords (text : List Char) : List (List Char) := words isBlankChar text

/-- Blanks and a word. -/
def SingleWord (line : List Char) : Prop := ∃ n word, line = blanks n ++ word ∧ word ≠ [] ∧ ∀ c ∈ word, isBlankChar c = false

/-- A line within the width, or a single word behind its indentation. -/
def FitsWidth (wide : Char → Bool) (width : Int) (line : List Char) : Prop := exactWidth wide line ≤ width ∨ SingleWord line

section Lines

variable {line word : List Char}

theorem isBlankChar_of_mem_blanks {n : Nat} {c : Char} (hc : c ∈ blanks n) : isBlankChar c = true := by
  rw [List.eq_of_mem_replicate hc]
  rfl

theorem blanks_add (m n : Nat) : blanks (m + n) = blanks m ++ blanks n := List.replicate_add m n ' '

theorem blankWords_rstripBlanks (line : List Char) : blankWords (rstripBlanks line) = blankWords line :=
  words_rdropWhile (fun c hc => by rw [of_decide_eq_true hc]; rfl) line

theorem blankWords_lstripBlanks (line : List Char) : blankWords (lstripBlanks line) = blankWords line :=
  words_dropWhile (fun c hc => by rw [of_decide_eq_true hc]; rfl) line

theorem rstripBlanks_append_blanks (line : List Char) (n : Nat) : rstripBlanks (line ++ blanks n) = rstripBlanks line :=
  Strip.rdropWhile_append_replicate line n

theorem rstripBlanks_of_getLast (hlast : line.getLast? ≠ some ' ') : rstripBlanks line = line := Strip.rdropWhile_of_getLast hlast

theorem getLast_rstripBlanks (line : List Char) : (rstripBlanks line).getLast? ≠ some ' ' := Strip.getLast_rdropWhile line

theorem blankWords_blanks (n : Nat) : blankWords (blanks n) = [] := words_of_all fun _ hc => isBlankChar_of_mem_blanks hc

end Lines

/-! ### What is being wrapped -/

section Partial

variable {wide : Char → Bool} {width : Int} {n : Nat} {line word : List Char} {ret : List (List Char)} {spcs : Nat}

/-- A line of the output. -/
structure Entry (wide : Char → Bool) (width : Int) (line : List Char) : Prop where
  fits : FitsWidth wide width line
  newline : '\n' ∉ line

/-- A line that could be ended, wider than the indentation, and blanks. -/
inductive HasWord (wide : Char → Bool) (width : Int) (n : Nat) : List Char → Prop
  | intro (core : List Char) (m : Nat) : core.getLast? ≠ some ' ' → n < exactWidth wide core → Entry wide width core →
      HasWord wide width n (core ++ blanks (m + 1))

/-- Blanks, at least the indentation, or a line with a word. -/
inductive Partial (wide : Char → Bool) (width : Int) (n : Nat) : List Char → Prop
  | blank (m : Nat) : n ≤ m → Partial wide width n (blanks m)
  | word {line : List Char} : HasWord wide width n line → Partial wide width n line

theorem entry_nil (hwidth : (n : Int) < width) : Entry wide width [] :=
  ⟨Or.inl (show ((0 : Nat) : Int) ≤ width by omega), List.not_mem_nil⟩

theorem HasWord.entry (h : HasWord wide width n line) : Entry wide width (rstripBlanks line) := by
  cases h with
  | intro core m hlast _ hentry =>
      rw [rstripBlanks_append_blanks, rstripBlanks_of_getLast hlast]
      exact hentry

theorem Partial.entry (hwidth : (n : Int) < width) (h : Partial wide width n line) : Entry wide width (rstripBlanks line) := by
  cases h with
  | blank m _ =>
      rw [← List.nil_append (blanks m), rstripBlanks_append_blanks]
      exact entry_nil hwidth
  | word h => exact h.entry

theorem HasWord.rstripBlanks_append (h : HasWord wide width n line) : HasWord wide width n (rstripBlanks line ++ [' ']) := by
  cases h with
  | intro core m hlast hwide hentry =>
      rw [rstripBlanks_append_blanks, rstripBlanks_of_getLast hlast]
      exact .intro core 0 hlast hwide hentry

theorem Partial.newline (h : Partial wide width n line) : '\n' ∉ line := by
  cases h with
  | blank m _ => exact Dnf.Cli.FmtColumns.line_blanks m
  | word h =>
      cases h with
      | intro core m _ _ hentry =>
          rw [List.mem_append]
          exact not_or.mpr ⟨hentry.newline, Dnf.Cli.FmtColumns.line_blanks (m + 1)⟩

theorem blankWords_rstripBlanks_append (line : List Char) : blankWords (rstripBlanks line ++ [' ']) = blankWords line :=
  (words_append_all (fun _ hc => List.mem_singleton.mp hc ▸ rfl) _).trans (blankWords_rstripBlanks line)

/-- Behind it a new word begins. -/
theorem Partial.blankWords_append (h : Partial wide width n line) (text : List Char) : blankWords (line ++ text) = blankWords line ++ blankWords text := by
  refine words_append (fun c hc => ?_) text
  cases h with
  | blank m _ => exact isBlankChar_of_mem_blanks (List.mem_of_getLast? hc)
  | word h =>
      cases h with
      | intro core m _ _ _ =>
          rw [blanks_add, ← List.append_assoc] at hc
          rw [show blanks 1 = [' '] from rfl, List.getLast?_concat, Option.some.injEq] at hc
          exact hc ▸ rfl

/-- One more blank. -/
theorem Partial.append_blank (h : Partial wide width n line) : Partial wide width n (line ++ [' ']) := by
  cases h with
  | blank m hm => exact blanks_add m 1 ▸ .blank (m + 1) (Nat.le_succ_of_le hm)
  | word h =>
      cases h with
      | intro core m hlast hwide hentry =>
          have hword : HasWord wide width n (core ++ blanks (m + 1 + 1)) := .intro core (m + 1) hlast hwide hentry
          rw [blanks_add, ← List.append_assoc] at hword
          exact .word hword

/-- The word of a source line: no blank in it, nor anything that ends a line. -/
def IsWord (word : List Char) : Prop := ∀ c ∈ word, isBlankChar c = false

theorem IsWord.newline (hword : IsWord word) : '\n' ∉ word := fun hmem => Bool.noConfusion ((hword '\n' hmem).symm.trans (by rfl : isBlankChar '\n' = true))

theorem IsWord.getLast (hword : IsWord word) (hne : word ≠ []) (front : List Char) : (front ++ word).getLast? ≠ some ' ' := by
  rw [List.getLast?_append_of_ne_nil _ hne]
  intro hlast
  exact Bool.noConfusion ((hword ' ' (List.mem_of_getLast? hlast)).symm.trans (by rfl : isBlankChar ' ' = true))

theorem one_le_exactWidth (hne : word ≠ []) : 1 ≤ exactWidth wide word := by
  obtain ⟨c, rest, rfl⟩ := List.exists_cons_of_ne_nil hne
  rw [exactWidth_cons]
  exact (one_le_exactWidthChar c).trans (Nat.le_add_right _ _)

/-- A word behind blanks alone. -/
theorem hasWord_single (hblank : wide ' ' = false) (hword : IsWord word) (hne : word ≠ []) {m : Nat} (hm : n ≤ m) :
    HasWord wide width n (blanks m ++ word ++ [' ']) := by
  refine .intro (blanks m ++ word) 0 (hword.getLast hne _) ?_ ⟨Or.inr ⟨m, word, rfl, hne, hword⟩, ?_⟩
  · have := @one_le_exactWidth wide word hne
    rw [exactWidth_append, exactWidth_blanks hblank]
    omega
  · rw [List.mem_append]
    exact not_or.mpr ⟨Dnf.Cli.FmtColumns.line_blanks m, hword.newline⟩

/-- A word that is put behind what is being wrapped fits, or there are only blanks in front of it. -/
theorem Partial.append_word (hblank : wide ' ' = false) (h : Partial wide width n line) (hword : IsWord word) (hne : word ≠ [])
    (hfits : exactWidth wide (line ++ word) ≤ width ∨ exactWidth wide line ≤ n) : HasWord wide width n (line ++ word ++ [' ']) := by
  cases h with
  | blank m hm => exact hasWord_single hblank hword hne hm
  | word h =>
      cases h with
      | intro core m hlast hwide hentry =>
          have hline : exactWidth wide (core ++ blanks (m + 1)) = exactWidth wide core + (m + 1) := by rw [exactWidth_append, exactWidth_blanks hblank]
          have hfit := hfits.resolve_right (by omega)
          have hmem : '\n' ∉ core ++ blanks (m + 1) ++ word := by
            rw [List.mem_append, List.mem_append]
            exact not_or.mpr ⟨not_or.mpr ⟨hentry.newline, Dnf.Cli.FmtColumns.line_blanks (m + 1)⟩, hword.newline⟩
          refine .intro (core ++ blanks (m + 1) ++ word) 0 (hword.getLast hne _) ?_ ⟨Or.inl hfit, hmem⟩
          rw [exactWidth_append, hline]
          omega

/-- What one word does. -/
theorem addWord_spec (hblank : wide ' ' = false) (hwidth : (n : Int) < width) (hret : ∀ e ∈ ret, Entry wide width e) (h : Partial wide width n line)
    (hword : IsWord word) {s : List (List Char) × List Char} (hs : addWord wide width (blanks n) spcs (ret, line) word = s) :
    (∀ e ∈ s.1, Entry wide width e) ∧ Partial wide width n s.2 ∧ (word ≠ [] → HasWord wide width n s.2) ∧
      s.1.flatMap blankWords ++ blankWords s.2 = ret.flatMap blankWords ++ blankWords line ++ blankWords word := by
  subst hs
  have hstop : blankWords [' '] = [] := blankWords_blanks 1
  rw [addWord]
  split_ifs with hbreak
  · have hstart : blanks n ++ blanks spcs = blanks (n + spcs) := (blanks_add n spcs).symm
    have hpartial : Partial wide width n (blanks (n + spcs)) := .blank _ (Nat.le_add_right n spcs)
    refine ⟨?_, ?_, ?_, ?_⟩
    · intro e he
      rcases List.mem_append.mp he with hold | hnew
      · exact hret e hold
      · rw [List.mem_singleton.mp hnew]
        exact h.entry hwidth
    · rw [hstart]
      by_cases hne : word = []
      · rw [hne, List.append_nil]
        exact hpartial.append_blank
      · exact .word (hasWord_single hblank hword hne (Nat.le_add_right n spcs))
    · intro hne
      rw [hstart]
      exact hasWord_single hblank hword hne (Nat.le_add_right n spcs)
    · rw [hstart, List.flatMap_append, List.flatMap_singleton, blankWords_rstripBlanks]
      rw [List.append_assoc (blanks _), hpartial.blankWords_append, blankWords_blanks, List.nil_append]
      congr 1
      exact words_append_all (fun c hc => List.mem_singleton.mp hc ▸ rfl) word
  · have hfits : exactWidth wide (line ++ word) ≤ width ∨ exactWidth wide line ≤ n := by
      rw [exactWidth_blanks hblank] at hbreak
      omega
    refine ⟨hret, ?_, ?_, ?_⟩
    · by_cases hne : word = []
      · rw [hne, List.append_nil]
        exact h.append_blank
      · exact .word (h.append_word hblank hword hne hfits)
    · exact fun hne => h.append_word hblank hword hne hfits
    · rw [List.append_assoc line, h.blankWords_append, ← List.append_assoc]
      congr 1
      exact words_append_all (fun c hc => List.mem_singleton.mp hc ▸ rfl) word

theorem foldl_addWord (hblank : wide ' ' = false) (hwidth : (n : Int) < width) (words : List (List Char)) (hwords : ∀ word ∈ words, IsWord word)
    (hret : ∀ e ∈ ret, Entry wide width e) (h : Partial wide width n line) {s : List (List Char) × List Char}
    (hs : words.foldl (addWord wide width (blanks n) spcs) (ret, line) = s) :
    (∀ e ∈ s.1, Entry wide width e) ∧ (words.getLast? ≠ some [] → words ≠ [] → HasWord wide width n s.2) ∧
      s.1.flatMap blankWords ++ blankWords s.2 = ret.flatMap blankWords ++ blankWords line ++ words.flatMap blankWords := by
  induction words generalizing ret line with
  | nil =>
      subst hs
      exact ⟨hret, fun _ hne => absurd rfl hne, (List.append_nil _).symm⟩
  | cons word words ih =>
      rw [List.foldl_cons] at hs
      obtain ⟨hret', hpartial, hhas, hwords'⟩ := @addWord_spec wide width n line word ret spcs hblank hwidth hret h (hwords word List.mem_cons_self) _ rfl
      obtain ⟨hret'', hhas', hall⟩ := ih (fun w hw => hwords w (List.mem_cons_of_mem _ hw)) hret' hpartial hs
      refine ⟨hret'', ?_, ?_⟩
      · intro hlast _
        by_cases hnil : words = []
        · subst hnil
          subst hs
          exact hhas fun hword => hlast (congrArg some hword)
        · rw [List.getLast?_cons_of_ne_nil hnil] at hlast
          exact hhas' hlast hnil
      · rw [hall, hwords', List.flatMap_cons, List.append_assoc _ (blankWords word)]

end Partial

/-! ### The loop -/

section Loop

variable {wide : Char → Bool} {width : Int} {n : Nat} {s : Wrapping} {line : List Char} {done : List (List Char)}

/-- The lines that are ended, what is being wrapped, and the words of both. -/
structure Wrapping.Keeps (wide : Char → Bool) (width : Int) (n : Nat) (done : List (List Char)) (s : Wrapping) : Prop where
  entries : ∀ e ∈ s.ret, Entry wide width e
  indent : if s.wrapLast then HasWord wide width n s.indent else s.indent = blanks n
  words : s.ret.flatMap blankWords ++ blankWords s.indent = done

theorem Wrapping.Keeps.isPartial (h : s.Keeps wide width n done) : Partial wide width n s.indent := by
  have hindent := h.indent
  split_ifs at hindent
  · exact .word hindent
  · rw [hindent]
    exact .blank n (Nat.le_refl n)

/-- The text of a source line: the only blanks in it are spaces. -/
def IsLine (line : List Char) : Prop := ∀ c ∈ line, isBlankChar c = true → c = ' '

theorem Wrapping.Keeps.flush (h : s.Keeps wide width n done) (hwidth : (n : Int) < width) : (s.flush (blanks n)).Keeps wide width n done := by
  refine ⟨?_, rfl, ?_⟩
  · intro e he
    rcases List.mem_append.mp he with hold | hnew
    · exact h.entries e hold
    · rw [List.mem_singleton.mp hnew]
      exact h.isPartial.entry hwidth
  · have hwords := h.words
    simp only [Wrapping.flush]
    rw [List.flatMap_append, List.flatMap_singleton, blankWords_rstripBlanks, blankWords_blanks, List.append_nil]
    exact hwords

/-- A line is placed. It has no blanks at its end, and where it is empty nothing is being wrapped. -/
theorem Wrapping.Keeps.place (h : s.Keeps wide width n done) (hblank : wide ' ' = false) (hwidth : (n : Int) < width) (hline : IsLine line)
    (hlast : line.getLast? ≠ some ' ') (hempty : line = [] → s.wrapLast = false) (csab cspcIndent : Nat) :
    (s.place wide width (blanks n) csab cspcIndent line).Keeps wide width n (done ++ blankWords line) := by
  rw [Wrapping.place]
  by_cases hfits : exactWidth wide (s.indent ++ line) ≤ width
  · rw [if_pos hfits]
    refine ⟨?_, rfl, ?_⟩
    · intro e he
      rcases List.mem_append.mp he with hold | hnew
      · exact h.entries e hold
      · rw [List.mem_singleton.mp hnew]
        refine ⟨Or.inl hfits, ?_⟩
        rw [List.mem_append]
        refine not_or.mpr ⟨h.isPartial.newline, fun hmem => ?_⟩
        exact absurd (hline '\n' hmem rfl) (by decide)
    · simp only
      rw [List.flatMap_append, List.flatMap_singleton, h.isPartial.blankWords_append, blankWords_blanks, List.append_nil, ← List.append_assoc, h.words]
  · rw [if_neg hfits]
    have hne : line ≠ [] := by
      intro hnil
      have hindent := h.indent
      rw [hempty hnil, if_neg (by simp)] at hindent
      rw [hnil, List.append_nil, hindent, exactWidth_blanks hblank] at hfits
      omega
    have hpieces : ∀ word ∈ line.splitOn ' ', IsWord word := by
      intro word hword c hc
      by_contra hsep
      have hspace := hline c (mem_of_mem_splitOn hword hc) (by simpa using hsep)
      exact not_mem_of_mem_splitOn hword (hspace ▸ hc)
    have hend : (line.splitOn ' ').getLast? ≠ some [] := by
      rw [ne_eq, getLast?_splitOn_eq_nil_iff]
      rintro (hnil | ⟨front, hfront⟩)
      · exact hne hnil
      · exact hlast (hfront ▸ List.getLast?_concat)
    obtain ⟨hret, hhas, hwords⟩ := @foldl_addWord wide width n s.indent s.ret _ hblank hwidth _ hpieces h.entries h.isPartial _ rfl
    have hword := hhas hend (List.splitOn_ne_nil ' ' line)
    refine ⟨hret, ?_, ?_⟩
    · exact hword.rstripBlanks_append
    · simp only
      rw [blankWords_rstripBlanks_append, hwords, h.words]
      exact congrArg (done ++ ·) (flatMap_words_splitOn rfl line)

theorem rstripBlanks_sublist (line : List Char) : (rstripBlanks line).Sublist line := (List.rdropWhile_prefix _ line).sublist

theorem lstripBlanks_suffix (line : List Char) : lstripBlanks line <:+ line := List.dropWhile_suffix _

theorem getLast_lstripBlanks (hlast : line.getLast? ≠ some ' ') : (lstripBlanks line).getLast? ≠ some ' ' := by
  obtain ⟨front, hfront⟩ := lstripBlanks_suffix line
  cases hnil : lstripBlanks line with
  | nil => exact nofun
  | cons c rest =>
      rw [hnil] at hfront
      rwa [← hfront, List.getLast?_append_of_ne_nil _ (List.cons_ne_nil c rest)] at hlast

theorem indentAtBeg_fst (wide : Char → Bool) (line : List Char) : (indentAtBeg wide line).1 = (line.takeWhile (· = ' ')).length := by
  rw [indentAtBeg]
  split
  · rfl
  · split
    · split
      · split
        · simp only
          split_ifs <;> rfl
        · rfl
      · rfl
    · rfl

/-- A line of as many spaces as it has characters has nothing else. -/
theorem eq_blanks_of_indentAtBeg (h : (indentAtBeg wide line).1 = line.length) : line = blanks line.length := by
  rw [indentAtBeg_fst] at h
  have hall : line.takeWhile (· = ' ') = line := (List.takeWhile_prefix _).eq_of_length h
  refine List.eq_replicate_iff.mpr ⟨rfl, fun c hc => ?_⟩
  rw [← hall] at hc
  simpa using List.mem_takeWhile_imp hc

/-- A line that is empty but for spaces has lost them by then. -/
theorem ite_nil_eq (hlast : line.getLast? ≠ some ' ') : (if (indentAtBeg wide line).1 = line.length then [] else line) = line := by
  split_ifs with hall
  · have hblanks := eq_blanks_of_indentAtBeg hall
    cases hn : line.length with
    | zero => exact (List.length_eq_zero_iff.mp hn).symm
    | succ k =>
        rw [hblanks, hn, blanks, List.getLast?_replicate, if_neg (Nat.succ_ne_zero k)] at hlast
        exact absurd rfl hlast
  · rfl

/-- The three ways of a line: behind what had to be ended, behind what is being wrapped, and on its own. -/
theorem step_eq (wide : Char → Bool) (width : Int) (subsequentIndent : List Char) (s : Wrapping) (source : List Char) {line : List Char}
    (hline : rstripBlanks source = line) : s.step wide width subsequentIndent source =
      if s.forceNl wide line then (s.flush subsequentIndent).place wide width subsequentIndent (indentAtBeg wide line).1 (indentAtBeg wide line).2 line
      else if s.wrapLast then s.place wide width subsequentIndent (indentAtBeg wide line).1 s.cspcIndent (lstripBlanks line)
      else s.place wide width subsequentIndent (indentAtBeg wide line).1 (indentAtBeg wide line).2 line := by
  subst hline
  rw [Wrapping.step]
  simp only
  rw [ite_nil_eq (getLast_rstripBlanks source)]
  by_cases hforce : s.forceNl wide (rstripBlanks source) = true
  · rw [if_pos hforce, if_pos hforce, if_neg (by simp [Wrapping.flush])]
  · rw [if_neg hforce, if_neg hforce]

theorem Wrapping.Keeps.step (h : s.Keeps wide width n done) (hblank : wide ' ' = false) (hwidth : (n : Int) < width) (hline : IsLine line) :
    (s.step wide width (blanks n) line).Keeps wide width n (done ++ blankWords line) := by
  rw [← blankWords_rstripBlanks line, step_eq wide width (blanks n) s line rfl]
  have hlast := getLast_rstripBlanks line
  have hplain : IsLine (rstripBlanks line) := fun c hc => hline c ((rstripBlanks_sublist line).subset hc)
  generalize rstripBlanks line = line at hlast hplain ⊢
  split_ifs with hforce hwrap
  · exact (h.flush hwidth).place hblank hwidth hplain hlast (fun _ => rfl) _ _
  · rw [← blankWords_lstripBlanks line]
    refine h.place hblank hwidth (fun c hc => hplain c ((lstripBlanks_suffix line).subset hc)) (getLast_lstripBlanks hlast) (fun hnil => ?_) _ _
    -- the end of a paragraph would have been forced
    have hall : (indentAtBeg wide line).1 = line.length := by
      rw [indentAtBeg_fst]
      have hsplit := congrArg List.length (List.takeWhile_append_dropWhile (p := fun c => decide (c = ' ')) (l := line))
      rw [show line.dropWhile (fun c => decide (c = ' ')) = [] from hnil, List.append_nil] at hsplit
      exact hsplit
    exact absurd (by simp [Wrapping.forceNl, hwrap, hall]) hforce
  · exact h.place hblank hwidth hplain hlast (fun _ => by simpa using hwrap) _ _

theorem Wrapping.Keeps.run (h : s.Keeps wide width n done) (hblank : wide ' ' = false) (hwidth : (n : Int) < width) {lines : List (List Char)}
    (hlines : ∀ line ∈ lines, IsLine line) : (lines.foldl (Wrapping.step wide width (blanks n)) s).Keeps wide width n (done ++ lines.flatMap blankWords) := by
  induction lines generalizing s done with
  | nil => exact (List.append_nil done).symm ▸ h
  | cons line lines ih =>
      have := ih (h.step hblank hwidth (hlines line List.mem_cons_self)) fun l hl => hlines l (List.mem_cons_of_mem _ hl)
      rwa [List.append_assoc, ← List.flatMap_cons] at this

/-- Every line of the output, and the words of all of them. -/
theorem wrapLines_keeps (hblank : wide ' ' = false) (hwidth : (n : Int) < width) {lines : List (List Char)} (hlines : ∀ line ∈ lines, IsLine line) :
    (∀ e ∈ wrapLines wide width (blanks n) (blanks n) lines, Entry wide width e) ∧
      (wrapLines wide width (blanks n) (blanks n) lines).flatMap blankWords = lines.flatMap blankWords := by
  have hstart : (startWrapping (blanks n)).Keeps wide width n [] := ⟨nofun, rfl, blankWords_blanks n⟩
  have hrun := hstart.run hblank hwidth hlines
  rw [List.nil_append] at hrun
  rw [wrapLines, Wrapping.finish]
  split_ifs with hwrap
  · have hflushed := hrun.flush hwidth
    have hwords := hflushed.words
    rw [show (Wrapping.flush (blanks n) _).indent = blanks n from rfl, blankWords_blanks, List.append_nil] at hwords
    exact ⟨hflushed.entries, hwords⟩
  · have hindent := hrun.indent
    rw [if_neg hwrap] at hindent
    have hwords := hrun.words
    rw [hindent, blankWords_blanks, List.append_nil] at hwords
    exact ⟨hrun.entries, hwords⟩

end Loop

/-! ### The text -/

theorem isLine_of_mem_sourceLines {text line : List Char} (hline : line ∈ sourceLines text) : IsLine line := by
  intro c hc hsep
  have hmem := mem_of_mem_splitOn hline hc
  obtain ⟨d, -, hd⟩ := List.mem_flatMap.mp hmem
  have hnewline : c ≠ '\n' := fun h => not_mem_of_mem_splitOn hline (h ▸ hc)
  split_ifs at hd with htab
  · exact List.eq_of_mem_replicate hd
  · rw [List.mem_singleton] at hd
    subst hd
    simpa [isBlankChar, htab, hnewline] using hsep

theorem blankWords_sourceLines (text : List Char) : (sourceLines text).flatMap blankWords = blankWords text := by
  have htabs : blankWords ((text.rdropWhile (· = '\n')).flatMap fun c => if c = '\t' then blanks 8 else [c]) = blankWords (text.rdropWhile (· = '\n')) := by
    refine words_flatMap (fun c hc => ?_) (fun c hc => ?_) _
    · split_ifs
      · exact ⟨by decide, fun d hd => isBlankChar_of_mem_blanks hd⟩
      · exact ⟨List.cons_ne_nil c [], fun d hd => List.mem_singleton.mp hd ▸ hc⟩
    · rw [if_neg fun h => by rw [h] at hc; exact Bool.noConfusion hc]
  rw [sourceLines]
  refine (flatMap_words_splitOn rfl _).trans (htabs.trans ?_)
  exact words_rdropWhile (fun c hc => by rw [of_decide_eq_true hc]; rfl) text

/-- With indents of blanks below the width, no word is lost, and every line is within the width or a word behind its indentation. -/
theorem textwrapFill_words {wide : Char → Bool} {width : Int} {n : Nat} (hblank : wide ' ' = false) (hwidth : (n : Int) < width) (text : List Char) :
    blankWords (textwrapFill wide width (blanks n) (blanks n) text) = blankWords text ∧
      ∀ line ∈ (textwrapFill wide width (blanks n) (blanks n) text).splitOn '\n', FitsWidth wide width line := by
  obtain ⟨hentries, hwords⟩ := wrapLines_keeps hblank hwidth fun line hline => @isLine_of_mem_sourceLines text line hline
  rw [blankWords_sourceLines] at hwords
  constructor
  · exact (words_intercalate rfl _).trans hwords
  · intro line hline
    rw [textwrapFill] at hline
    by_cases hnone : wrapLines wide width (blanks n) (blanks n) (sourceLines text) = []
    · rw [hnone] at hline
      rw [List.mem_singleton.mp hline]
      exact (entry_nil hwidth).fits
    · rw [List.splitOn_intercalate '\n' (fun e he => (hentries e he).newline) hnone] at hline
      exact (hentries line hline).fits

/-- Two words of five characters on a terminal of seven columns. -/
theorem textwrapFill_words_two :
    blankWords (textwrapFill (fun _ => false) 7 (blanks 2) (blanks 2) ['1', '2', '3', '4', '5', ' ', '6', '7', '8', '9', '0']) =
      [['1', '2', '3', '4', '5'], ['6', '7', '8', '9', '0']] :=
  (@textwrapFill_words (fun _ => false) 7 2 rfl (by decide) ['1', '2', '3', '4', '5', ' ', '6', '7', '8', '9', '0']).1.trans (by decide)

end Dnf.I18n
