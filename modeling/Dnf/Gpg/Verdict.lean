import Dnf.Foundation.Lines
import Dnf.Gpg.Rpmkeys

/-!
# The verdict on a package

`processRpmOutput` reads the lines one by one into four flags. The loop has a closed form, a condition on every line and one flag for each kind of line that occurs, and the verdict is read off it: which fault is the gravest, and that the order of the lines does not matter.
-/

namespace Dnf.Gpg

open Foundation

/-! ### Lines -/

def Bad (line : List Char) : Prop := ": BAD".toList <:+: line
def NoKey (line : List Char) : Prop := ": NOKEY".toList <:+ line
def NotTrusted (line : List Char) : Prop := ": NOTTRUSTED".toList <:+ line
def NotFound (line : List Char) : Prop := ": NOTFOUND".toList <:+ line
def Ok (line : List Char) : Prop := ": OK".toList <:+ line

/-- A line that says a signature is fine, by a trusted key. -/
def TrustedSig (line : List Char) : Prop := Ok line ∧ "ignature,".toList <:+: line

/-- A line that ends in one of the four known ways. -/
def Recognised (line : List Char) : Prop := NoKey line ∨ NotTrusted line ∨ NotFound line ∨ Ok line

/-- A line that the loop gets past. -/
def Readable (line : List Char) : Prop := ¬ Bad line ∧ Recognised line

instance (line : List Char) : Decidable (Bad line) := inferInstanceAs (Decidable (_ <:+: _))
instance (line : List Char) : Decidable (NoKey line) := inferInstanceAs (Decidable (_ <:+ _))
instance (line : List Char) : Decidable (NotTrusted line) := inferInstanceAs (Decidable (_ <:+ _))
instance (line : List Char) : Decidable (NotFound line) := inferInstanceAs (Decidable (_ <:+ _))
instance (line : List Char) : Decidable (Ok line) := inferInstanceAs (Decidable (_ <:+ _))
instance (line : List Char) : Decidable (TrustedSig line) := inferInstanceAs (Decidable (_ ∧ _))
instance (line : List Char) : Decidable (Recognised line) := inferInstanceAs (Decidable (_ ∨ _))
instance (line : List Char) : Decidable (Readable line) := inferInstanceAs (Decidable (_ ∧ _))

/-- Two endings of one line, neither of which ends the other, cannot both be there. -/
theorem not_suffix_of_suffix {left right line : List Char} (hleft : ¬ left <:+ right)
    (hright : ¬ right <:+ left) (h : left <:+ line) : ¬ right <:+ line := by
  intro h'
  rcases List.suffix_or_suffix_of_suffix h h' with hlr | hrl
  · exact hleft hlr
  · exact hright hrl

/-- The flags after a readable line. -/
def Verdicts.mark (seen : Verdicts) (line : List Char) : Verdicts where
  trustedSig := seen.trustedSig || decide (TrustedSig line)
  missingKey := seen.missingKey || decide (NoKey line)
  notTrusted := seen.notTrusted || decide (NotTrusted line)
  notSigned := seen.notSigned || decide (NotFound line)

/-- `readLine` in these words. -/
theorem readLine_unfold (seen : Verdicts) (line : List Char) : readLine seen line =
    if Bad line then none
    else if NoKey line then some { seen with missingKey := true }
    else if NotTrusted line then some { seen with notTrusted := true }
    else if NotFound line then some { seen with notSigned := true }
    else if TrustedSig line then some { seen with trustedSig := true }
    else if Ok line then some seen
    else none := rfl

theorem readLine_eq (seen : Verdicts) (line : List Char) :
    readLine seen line = if Readable line then some (seen.mark line) else none := by
  by_cases hbad : Bad line
  · rw [readLine_unfold, if_pos hbad, if_neg fun h => h.1 hbad]
  by_cases hnokey : NoKey line
  · have hnottrusted : ¬ NotTrusted line := not_suffix_of_suffix (by decide) (by decide) hnokey
    have hnotfound : ¬ NotFound line := not_suffix_of_suffix (by decide) (by decide) hnokey
    have hok : ¬ Ok line := not_suffix_of_suffix (by decide) (by decide) hnokey
    rw [readLine_unfold, if_neg hbad, if_pos hnokey, if_pos ⟨hbad, Or.inl hnokey⟩]
    simp [Verdicts.mark, TrustedSig, hnokey, hnottrusted, hnotfound, hok]
  by_cases hnottrusted : NotTrusted line
  · have hnotfound : ¬ NotFound line := not_suffix_of_suffix (by decide) (by decide) hnottrusted
    have hok : ¬ Ok line := not_suffix_of_suffix (by decide) (by decide) hnottrusted
    rw [readLine_unfold, if_neg hbad, if_neg hnokey, if_pos hnottrusted, if_pos ⟨hbad, Or.inr (Or.inl hnottrusted)⟩]
    simp [Verdicts.mark, TrustedSig, hnokey, hnottrusted, hnotfound, hok]
  by_cases hnotfound : NotFound line
  · have hok : ¬ Ok line := not_suffix_of_suffix (by decide) (by decide) hnotfound
    rw [readLine_unfold, if_neg hbad, if_neg hnokey, if_neg hnottrusted, if_pos hnotfound,
      if_pos ⟨hbad, Or.inr (Or.inr (Or.inl hnotfound))⟩]
    simp [Verdicts.mark, TrustedSig, hnokey, hnottrusted, hnotfound, hok]
  by_cases hok : Ok line
  · have hread : Readable line := ⟨hbad, Or.inr (Or.inr (Or.inr hok))⟩
    rw [readLine_unfold, if_neg hbad, if_neg hnokey, if_neg hnottrusted, if_neg hnotfound]
    by_cases hsig : TrustedSig line
    · rw [if_pos hsig, if_pos hread]
      simp [Verdicts.mark, hsig, hnokey, hnottrusted, hnotfound]
    · rw [if_neg hsig, if_pos hok, if_pos hread]
      simp [Verdicts.mark, hsig, hnokey, hnottrusted, hnotfound]
  · have hunread : ¬ Readable line := fun h => by
      rcases h.2 with h | h | h | h
      · exact hnokey h
      · exact hnottrusted h
      · exact hnotfound h
      · exact hok h
    rw [readLine_unfold, if_neg hbad, if_neg hnokey, if_neg hnottrusted, if_neg hnotfound,
      if_neg fun h => hok h.1, if_neg hok, if_neg hunread]

/-! ### The loop -/

/-- The flags after all lines of `lines`, when each can be read. -/
def Verdicts.markAll (seen : Verdicts) (lines : List (List Char)) : Verdicts where
  trustedSig := seen.trustedSig || lines.any (TrustedSig ·)
  missingKey := seen.missingKey || lines.any (NoKey ·)
  notTrusted := seen.notTrusted || lines.any (NotTrusted ·)
  notSigned := seen.notSigned || lines.any (NotFound ·)

theorem foldlM_readLine (seen : Verdicts) (lines : List (List Char)) :
    lines.foldlM readLine seen = if ∀ line ∈ lines, Readable line then some (seen.markAll lines) else none := by
  induction lines generalizing seen with
  | nil => simp [Verdicts.markAll]
  | cons line lines ih =>
      rw [List.foldlM_cons, readLine_eq]
      by_cases hline : Readable line
      · rw [if_pos hline]
        simp only [Option.bind_eq_bind, Option.bind_some, ih, List.forall_mem_cons, hline, true_and]
        simp only [Verdicts.markAll, Verdicts.mark, List.any_cons, Bool.or_assoc]
      · rw [if_neg hline, if_neg fun h => hline (h line (List.mem_cons_self ..))]
        rfl

/-! ### The verdict -/

/-- The lines between the first one and the piece after the last newline. -/
def resultLines (stdout : List Char) : List (List Char) := (stdout.splitOn '\n').tail.dropLast

/-- The output as it must look: the line `-:`, at least one result line, and a newline at the end. -/
structure WellFormed (stdout : List Char) : Prop where
  first : (stdout.splitOn '\n').head? = some "-:".toList
  result : resultLines stdout ≠ []
  newline : "\n".toList <:+ stdout

/-- Nothing can be told from the output, or the child died. -/
def Damaged (returncode : Int) (stdout : List Char) : Prop :=
  (returncode ≥ 2 ∨ returncode < 0) ∨ ¬ WellFormed stdout ∨ ∃ line ∈ resultLines stdout, ¬ Readable line

instance (stdout : List Char) : Decidable (WellFormed stdout) :=
  decidable_of_iff (_ ∧ _ ∧ _) ⟨fun h => ⟨h.1, h.2.1, h.2.2⟩, fun h => ⟨h.first, h.result, h.newline⟩⟩

instance (returncode : Int) (stdout : List Char) : Decidable (Damaged returncode stdout) :=
  inferInstanceAs (Decidable (_ ∨ _))

/-- The gravest fault of an output, as a number of `checkSig`. -/
def gravestFault (returncode : Int) (stdout : List Char) : Nat :=
  if Damaged returncode stdout then 2
  else if ∃ line ∈ resultLines stdout, NoKey line then 1
  else if (¬ ∃ line ∈ resultLines stdout, TrustedSig line) ∧ ∃ line ∈ resultLines stdout, NotTrusted line then 3
  else if ∃ line ∈ resultLines stdout, NotFound line then 4
  else if returncode ≠ 0 then 2
  else 0

/-- What an output without fault looks like. -/
structure Accepted (returncode : Int) (stdout : List Char) : Prop where
  exit : returncode = 0
  form : WellFormed stdout
  fine : ∀ line ∈ resultLines stdout, ¬ Bad line ∧
    (Ok line ∨ (NotTrusted line ∧ ∃ sig ∈ resultLines stdout, TrustedSig sig))

theorem length_lt_three_iff {stdout : List Char} (hlast : (stdout.splitOn '\n').getLast? = some [])
    (hfirst : (stdout.splitOn '\n').head? = some "-:".toList) :
    (stdout.splitOn '\n').length < 3 ↔ resultLines stdout = [] := by
  rw [resultLines, ← List.length_eq_zero_iff, List.length_dropLast, List.length_tail]
  have hne : (stdout.splitOn '\n').length ≠ 1 := by
    intro hone
    obtain ⟨piece, hpiece⟩ := List.length_eq_one_iff.mp hone
    rw [hpiece] at hlast hfirst
    rw [List.getLast?_singleton] at hlast
    rw [List.head?_cons, hlast] at hfirst
    exact absurd hfirst (by decide)
  omega

/-- The test before the loop. -/
theorem malformed_iff (stdout : List Char) :
    ((stdout.splitOn '\n').length < 3 ∨ (stdout.splitOn '\n').head? ≠ some "-:".toList ∨
      (stdout.splitOn '\n').getLast? ≠ some []) ↔ ¬ WellFormed stdout := by
  by_cases hfirst : (stdout.splitOn '\n').head? = some "-:".toList
  · by_cases hlast : (stdout.splitOn '\n').getLast? = some []
    · have hnewline : "\n".toList <:+ stdout := by
        rcases (getLast?_splitOn_eq_nil_iff '\n' stdout).mp hlast with hnil | hnewline
        · rw [hnil] at hfirst
          exact absurd hfirst (by decide)
        · exact hnewline
      rw [length_lt_three_iff hlast hfirst]
      constructor
      · rintro (h | h | h) hform
        · exact hform.result h
        · exact h hfirst
        · exact h hlast
      · intro hform
        by_contra hnone
        exact hform ⟨hfirst, fun h => hnone (Or.inl h), hnewline⟩
    · refine ⟨fun _ hform => hlast ?_, fun _ => Or.inr (Or.inr hlast)⟩
      exact (getLast?_splitOn_eq_nil_iff '\n' stdout).mpr (Or.inr hform.newline)
  · exact ⟨fun _ hform => hfirst hform.first, fun _ => Or.inr (Or.inl hfirst)⟩

theorem damaged_zero_iff (stdout : List Char) :
    Damaged 0 stdout ↔ ¬ WellFormed stdout ∨ ∃ line ∈ resultLines stdout, ¬ Readable line := by
  rw [Damaged]
  refine ⟨fun h => h.resolve_left ?_, Or.inr⟩
  decide

theorem processRpmOutput_eq (stdout : List Char) :
    processRpmOutput (stdout.splitOn '\n') = gravestFault 0 stdout := by
  rw [processRpmOutput, gravestFault]
  by_cases hform : WellFormed stdout
  · rw [if_neg fun h => (malformed_iff stdout).mp h hform, ← resultLines, foldlM_readLine]
    by_cases hread : ∀ line ∈ resultLines stdout, Readable line
    · have hsound : ¬ Damaged 0 stdout := by
        rw [damaged_zero_iff]
        rintro (h | ⟨line, hline, h⟩)
        · exact h hform
        · exact h (hread line hline)
      rw [if_pos hread, if_neg hsound]
      simp only [Verdicts.markAll, Bool.false_or, List.any_eq_true, decide_eq_true_eq,
        Bool.and_eq_true, Bool.not_eq_true', ← Bool.not_eq_true, ne_eq, not_true_eq_false, if_false]
    · rw [if_neg hread, if_pos]
      push Not at hread
      exact (damaged_zero_iff stdout).mpr (Or.inr hread)
  · rw [if_pos ((malformed_iff stdout).mpr hform), if_pos ((damaged_zero_iff stdout).mpr (Or.inl hform))]

theorem rpmkeysResult_eq_gravestFault (returncode : Int) (stdout : List Char) :
    rpmkeysResult returncode stdout = gravestFault returncode stdout := by
  rw [rpmkeysResult]
  by_cases hfatal : returncode ≥ 2 ∨ returncode < 0
  · have hdamaged : Damaged returncode stdout := Or.inl hfatal
    rw [if_pos hfatal, gravestFault, if_pos hdamaged]
  · have hdamaged : Damaged returncode stdout ↔ Damaged 0 stdout := by
      rw [damaged_zero_iff, Damaged, or_iff_right hfatal]
    rw [if_neg hfatal, processRpmOutput_eq]
    simp only [gravestFault, hdamaged]
    by_cases hfault : Damaged 0 stdout
    · simp only [if_pos hfault]
      rfl
    by_cases hnokey : ∃ line ∈ resultLines stdout, NoKey line
    · simp only [if_neg hfault, if_pos hnokey]
      rfl
    by_cases hnottrusted : (¬ ∃ line ∈ resultLines stdout, TrustedSig line) ∧ ∃ line ∈ resultLines stdout, NotTrusted line
    · simp only [if_neg hfault, if_neg hnokey, if_pos hnottrusted]
      rfl
    by_cases hnotfound : ∃ line ∈ resultLines stdout, NotFound line
    · simp only [if_neg hfault, if_neg hnokey, if_neg hnottrusted, if_pos hnotfound]
      rfl
    -- the lines have no fault, and the exit code is looked at
    · simp only [if_neg hfault, if_neg hnokey, if_neg hnottrusted, if_neg hnotfound]
      rfl

/-- No fault is left exactly when the output is as it must be and each line is fine. -/
theorem gravestFault_eq_zero_iff (returncode : Int) (stdout : List Char) :
    gravestFault returncode stdout = 0 ↔ Accepted returncode stdout := by
  constructor
  · intro hzero
    have hsound : ¬ Damaged returncode stdout := fun h => by
      rw [gravestFault, if_pos h] at hzero
      exact absurd hzero (by decide)
    rw [gravestFault, if_neg hsound] at hzero
    split_ifs at hzero with hnokey hnottrusted hnotfound hexit
    refine ⟨not_not.mp hexit, by_contra fun h => hsound (Or.inr (Or.inl h)), fun line hline => ?_⟩
    have hread : Readable line := by_contra fun h => hsound (Or.inr (Or.inr ⟨line, hline, h⟩))
    refine ⟨hread.1, ?_⟩
    rcases hread.2 with h | h | h | h
    · exact absurd ⟨line, hline, h⟩ hnokey
    · exact Or.inr ⟨h, by_contra fun hsig => hnottrusted ⟨hsig, line, hline, h⟩⟩
    · exact absurd ⟨line, hline, h⟩ hnotfound
    · exact Or.inl h
  · rintro ⟨hexit, hform, hfine⟩
    have hsound : ¬ Damaged returncode stdout := by
      rintro (h | h | ⟨line, hline, h⟩)
      · omega
      · exact h hform
      · refine h ⟨(hfine line hline).1, ?_⟩
        rcases (hfine line hline).2 with hok | ⟨hnottrusted, -⟩
        · exact Or.inr (Or.inr (Or.inr hok))
        · exact Or.inr (Or.inl hnottrusted)
    -- a fine line ends in one of two ways, so it ends in none of the others
    have hother : ∀ ending : List Char, ¬ ": OK".toList <:+ ending → ¬ ending <:+ ": OK".toList →
        ¬ ": NOTTRUSTED".toList <:+ ending → ¬ ending <:+ ": NOTTRUSTED".toList →
        ¬ ∃ line ∈ resultLines stdout, ending <:+ line := by
      rintro ending hok hok' htrust htrust' ⟨line, hline, h⟩
      rcases (hfine line hline).2 with hend | ⟨hend, -⟩
      · exact not_suffix_of_suffix hok hok' hend h
      · exact not_suffix_of_suffix htrust htrust' hend h
    have hnokey : ¬ ∃ line ∈ resultLines stdout, NoKey line :=
      hother _ (by decide) (by decide) (by decide) (by decide)
    have hnotfound : ¬ ∃ line ∈ resultLines stdout, NotFound line :=
      hother _ (by decide) (by decide) (by decide) (by decide)
    have hnottrusted : ¬ ((¬ ∃ line ∈ resultLines stdout, TrustedSig line) ∧
        ∃ line ∈ resultLines stdout, NotTrusted line) := by
      rintro ⟨hnone, line, hline, htrust⟩
      rcases (hfine line hline).2 with hok | ⟨-, hsig⟩
      · exact not_suffix_of_suffix (by decide) (by decide) hok htrust
      · exact hnone hsig
    rw [gravestFault, if_neg hsound, if_neg hnokey, if_neg hnottrusted, if_neg hnotfound, if_neg (not_not.mpr hexit)]

/-! ### The order of the lines -/

/-- Two outputs that differ in the order of their result lines only. -/
structure SameLines (stdout stdout' : List Char) : Prop where
  first : (stdout.splitOn '\n').head? = (stdout'.splitOn '\n').head?
  results : (resultLines stdout).Perm (resultLines stdout')
  newline : "\n".toList <:+ stdout ↔ "\n".toList <:+ stdout'

namespace SameLines

variable {stdout stdout' : List Char}

theorem wellFormed_iff (h : SameLines stdout stdout') : WellFormed stdout ↔ WellFormed stdout' := by
  have hresult : resultLines stdout ≠ [] ↔ resultLines stdout' ≠ [] := by
    rw [← List.length_pos_iff, ← List.length_pos_iff, h.results.length_eq]
  constructor
  · rintro ⟨hfirst, hne, hnewline⟩
    exact ⟨h.first ▸ hfirst, hresult.mp hne, h.newline.mp hnewline⟩
  · rintro ⟨hfirst, hne, hnewline⟩
    exact ⟨h.first ▸ hfirst, hresult.mpr hne, h.newline.mpr hnewline⟩

theorem exists_iff (h : SameLines stdout stdout') (p : List Char → Prop) :
    (∃ line ∈ resultLines stdout, p line) ↔ ∃ line ∈ resultLines stdout', p line := by
  simp only [h.results.mem_iff]

theorem gravestFault_eq (h : SameLines stdout stdout') (returncode : Int) :
    gravestFault returncode stdout = gravestFault returncode stdout' := by
  have hdamaged : Damaged returncode stdout ↔ Damaged returncode stdout' := by
    rw [Damaged, Damaged, h.wellFormed_iff, h.exists_iff]
  simp only [gravestFault, hdamaged, h.exists_iff]

end SameLines

/-- Outputs made of the same lines in two orders are such outputs. -/
theorem sameLines_of_perm {first : List Char} {lines lines' : List (List Char)} (hfirst : '\n' ∉ first)
    (hlines : ∀ line ∈ lines, '\n' ∉ line) (hperm : lines.Perm lines') :
    SameLines (['\n'].intercalate (first :: (lines ++ [[]]))) (['\n'].intercalate (first :: (lines' ++ [[]]))) := by
  have hsplit : ∀ lines : List (List Char), (∀ line ∈ lines, '\n' ∉ line) →
      (['\n'].intercalate (first :: (lines ++ [[]]))).splitOn '\n' = first :: (lines ++ [[]]) := by
    intro lines hlines
    refine List.splitOn_intercalate '\n' (fun line hline => ?_) (by simp)
    rcases List.mem_cons.mp hline with rfl | hline
    · exact hfirst
    rcases List.mem_append.mp hline with hline | hline
    · exact hlines line hline
    · rw [List.mem_singleton.mp hline]
      exact List.not_mem_nil
  have hlines' : ∀ line ∈ lines', '\n' ∉ line := fun line hline => hlines line (hperm.mem_iff.mpr hline)
  have hnewline : ∀ lines : List (List Char), (∀ line ∈ lines, '\n' ∉ line) →
      "\n".toList <:+ ['\n'].intercalate (first :: (lines ++ [[]])) := by
    intro lines hlines
    have hlast := (getLast?_splitOn_eq_nil_iff '\n' (['\n'].intercalate (first :: (lines ++ [[]])))).mp
      (by rw [hsplit lines hlines, ← List.cons_append, List.getLast?_concat])
    refine hlast.resolve_left fun hnil => ?_
    have := hsplit lines hlines
    rw [hnil] at this
    simp at this
  refine ⟨by rw [hsplit lines hlines, hsplit lines' hlines']; rfl, ?_, iff_of_true (hnewline lines hlines) (hnewline lines' hlines')⟩
  rw [resultLines, resultLines, hsplit lines hlines, hsplit lines' hlines']
  simpa using hperm

/-- The verdict is the gravest fault; it is 0 only for an output without fault, and the order of the result lines does not change it. -/
theorem rpmkeysResult_verdict (returncode : Int) (stdout : List Char) :
    (rpmkeysResult returncode stdout = 0 ↔ Accepted returncode stdout) ∧
      rpmkeysResult returncode stdout = gravestFault returncode stdout ∧
      ∀ stdout', SameLines stdout stdout' → rpmkeysResult returncode stdout' = rpmkeysResult returncode stdout := by
  refine ⟨?_, rpmkeysResult_eq_gravestFault returncode stdout, fun stdout' hsame => ?_⟩
  · rw [rpmkeysResult_eq_gravestFault, gravestFault_eq_zero_iff]
  · rw [rpmkeysResult_eq_gravestFault, rpmkeysResult_eq_gravestFault, hsame.gravestFault_eq]

end Dnf.Gpg
