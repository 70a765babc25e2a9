import Dnf.I18n.WrappedWords

/-!
# List items in a wrapped text

A list item should begin a line of the output. The test for it looks at the first byte of a bullet, as it was in a text of bytes: of the bullets only `-`, `*`, `.` and `o` pass. Another bullet behind a wrapped paragraph is wrapped with it, unless something else ends the paragraph.
-/

namespace Dnf.I18n

open Foundation
open Dnf.Cli.FmtColumns (exactWidth exactWidthChar blanks)

section Items

variable (wide : Char → Bool) (width : Int) (initialIndent subsequentIndent : List Char)

/-- The state of the loop after some lines. -/
def wrapState (lines : List (List Char)) : Wrapping := lines.foldl (Wrapping.step wide width subsequentIndent) (startWrapping initialIndent)

/-- One of the two indents and blanks. -/
def OnlyIndent (line : List Char) : Prop := ∃ ind ∈ [initialIndent, subsequentIndent], ∃ n, line = rstripBlanks (ind ++ blanks n)

/-- A bullet behind one of the two indents and blanks. -/
def StartsItem (bullet : Char) (line : List Char) : Prop := ∃ ind ∈ [initialIndent, subsequentIndent], ∃ n more, line = ind ++ blanks n ++ bullet :: more

/-- The output for the lines in front of the item stays as it is, and, perhaps behind lines with the indent alone, a line begins with the bullet. -/
def KeepsOwnLine (text : List Char) (before : List (List Char)) (bullet : Char) : Prop :=
  ∃ heads line rest, wrapLines wide width initialIndent subsequentIndent (sourceLines text) =
      wrapLines wide width initialIndent subsequentIndent before ++ heads ++ line :: rest ∧
    (∀ e ∈ heads, OnlyIndent initialIndent subsequentIndent e) ∧ StartsItem initialIndent subsequentIndent bullet line

/-- The bullet passes the test of its first byte, nothing is being wrapped, a block begins, or the bullet does not fit behind what is being wrapped. -/
def SetOff (s : Wrapping) (n : Nat) (bullet : Char) : Prop :=
  isListByte bullet = true ∨ s.wrapLast = false ∨ (s.cspcIndent = 0 ∧ 4 ≤ n ∧ n ≠ s.csab) ∨
    (width < exactWidth wide (s.indent ++ [bullet]) ∧ exactWidth wide subsequentIndent < exactWidth wide s.indent)

end Items

/-! ### What is being wrapped begins the next line -/

section Pending

variable {wide : Char → Bool} {width : Int} {initialIndent subsequentIndent : List Char} {front line : List Char} {ret : List (List Char)}
  {spcs : Nat} {s : Wrapping}

theorem prefix_rstripBlanks (h : front <+: line) (hlast : front.getLast? ≠ some ' ') : front <+: rstripBlanks line := by
  obtain ⟨n, hn⟩ := Strip.exists_append_replicate ' ' line
  rw [hn] at h
  rcases List.prefix_or_prefix_of_prefix h (List.prefix_append _ _) with hfront | ⟨tail, rfl⟩
  · exact hfront
  · have htail := (List.prefix_append_right_inj _).mp h
    cases tail with
    | nil => exact (List.append_nil (line.rdropWhile (· = ' '))).symm ▸ List.prefix_refl _
    | cons c rest =>
        -- it would end in a blank
        rw [List.getLast?_append_of_ne_nil _ (List.cons_ne_nil c rest), List.getLast?_eq_some_getLast (List.cons_ne_nil c rest)] at hlast
        exact absurd (congrArg some (List.eq_of_mem_replicate (htail.subset (List.getLast_mem _)))) hlast

/-- Behind `ret`: either nothing is added and what is being wrapped begins so, or the first line that is added does. -/
def Begins (front : List Char) (ret ret' : List (List Char)) (line : List Char) : Prop :=
  (ret' = ret ∧ front <+: line) ∨ ∃ e more, ret' = ret ++ e :: more ∧ front <+: e

theorem foldl_addWord_ret (words : List (List Char)) (ret : List (List Char)) (line : List Char) :
    ∃ more, (words.foldl (addWord wide width subsequentIndent spcs) (ret, line)).1 = ret ++ more := by
  induction words generalizing ret line with
  | nil => exact ⟨[], (List.append_nil ret).symm⟩
  | cons word words ih =>
      rw [List.foldl_cons, addWord]
      split_ifs
      · obtain ⟨more, hmore⟩ := ih (ret ++ [rstripBlanks line]) (subsequentIndent ++ blanks spcs ++ word ++ [' '])
        exact ⟨rstripBlanks line :: more, by rw [hmore, List.append_assoc]; rfl⟩
      · exact ih ret (line ++ word ++ [' '])

theorem foldl_addWord_begins (hlast : front.getLast? ≠ some ' ') (h : front <+: line) (words : List (List Char)) :
    Begins front ret (words.foldl (addWord wide width subsequentIndent spcs) (ret, line)).1
      (words.foldl (addWord wide width subsequentIndent spcs) (ret, line)).2 := by
  induction words generalizing line with
  | nil => exact Or.inl ⟨rfl, h⟩
  | cons word words ih =>
      rw [List.foldl_cons, addWord]
      split_ifs
      · obtain ⟨more, hmore⟩ := @foldl_addWord_ret wide width subsequentIndent spcs words (ret ++ [rstripBlanks line])
          (subsequentIndent ++ blanks spcs ++ word ++ [' '])
        exact Or.inr ⟨_, more, by rw [hmore, List.append_assoc]; rfl, prefix_rstripBlanks h hlast⟩
      · exact ih ((h.trans (List.prefix_append _ _)).trans (List.prefix_append _ _))

theorem place_ret (s : Wrapping) (csab cspcIndent : Nat) (line : List Char) :
    ∃ more, (s.place wide width subsequentIndent csab cspcIndent line).ret = s.ret ++ more := by
  rw [Wrapping.place]
  split
  · exact ⟨_, rfl⟩
  · exact foldl_addWord_ret _ _ _

/-- The state `s'` comes after `s`, where `front` began what was being wrapped. -/
def Wrapping.Begins (front : List Char) (s s' : Wrapping) : Prop :=
  (s'.ret = s.ret ∧ s'.wrapLast = true ∧ front <+: s'.indent) ∨ ∃ e more, s'.ret = s.ret ++ e :: more ∧ front <+: e

/-- From the words of a line to the state that keeps what is left of them. -/
theorem Begins.wrapping {words : List (List Char) × List Char} (h : Begins front ret words.1 words.2) (hlast : front.getLast? ≠ some ' ') (s : Wrapping)
    (csab cspcIndent : Nat) :
    Wrapping.Begins front { s with ret := ret }
      { ret := words.1, indent := rstripBlanks words.2 ++ [' '], wrapLast := true, csab := csab, cspcIndent := cspcIndent } := by
  rcases h with ⟨hret, hfront⟩ | hmore
  · exact Or.inl ⟨hret, rfl, (prefix_rstripBlanks hfront hlast).trans (List.prefix_append _ _)⟩
  · exact Or.inr hmore

theorem place_begins (hlast : front.getLast? ≠ some ' ') (h : front <+: s.indent) (csab cspcIndent : Nat) (line : List Char) :
    s.Begins front (s.place wide width subsequentIndent csab cspcIndent line) := by
  rw [Wrapping.place]
  split
  · exact Or.inr ⟨_, [], rfl, h.trans (List.prefix_append _ _)⟩
  · exact (foldl_addWord_begins hlast h (line.splitOn ' ')).wrapping hlast s _ _

theorem step_ret (s : Wrapping) (line : List Char) : ∃ more, (s.step wide width subsequentIndent line).ret = s.ret ++ more := by
  rw [step_eq wide width subsequentIndent s line rfl]
  split_ifs
  · obtain ⟨more, hmore⟩ := @place_ret wide width subsequentIndent (s.flush subsequentIndent)
      (indentAtBeg wide (rstripBlanks line)).1 (indentAtBeg wide (rstripBlanks line)).2 (rstripBlanks line)
    exact ⟨rstripBlanks s.indent :: more, hmore.trans (List.append_assoc _ _ _)⟩
  · exact place_ret _ _ _ _
  · exact place_ret _ _ _ _

theorem step_begins (hlast : front.getLast? ≠ some ' ') (h : front <+: s.indent) (hwrap : s.wrapLast = true) (line : List Char) :
    s.Begins front (s.step wide width subsequentIndent line) := by
  rw [step_eq wide width subsequentIndent s line rfl]
  split_ifs
  · obtain ⟨more, hmore⟩ := @place_ret wide width subsequentIndent (s.flush subsequentIndent)
      (indentAtBeg wide (rstripBlanks line)).1 (indentAtBeg wide (rstripBlanks line)).2 (rstripBlanks line)
    exact Or.inr ⟨_, more, hmore.trans (List.append_assoc _ _ _), prefix_rstripBlanks h hlast⟩
  · exact place_begins hlast h _ _ _

theorem run_ret (s : Wrapping) (lines : List (List Char)) : ∃ more, (lines.foldl (Wrapping.step wide width subsequentIndent) s).finish = s.ret ++ more := by
  induction lines generalizing s with
  | nil =>
      rw [List.foldl_nil, Wrapping.finish]
      split_ifs
      · exact ⟨_, rfl⟩
      · exact ⟨[], (List.append_nil _).symm⟩
  | cons line lines ih =>
      obtain ⟨more, hmore⟩ := ih (s.step wide width subsequentIndent line)
      obtain ⟨first, hfirst⟩ := @step_ret wide width subsequentIndent s line
      exact ⟨first ++ more, by rw [List.foldl_cons, hmore, hfirst, List.append_assoc]⟩

/-- What begins what is being wrapped begins the next line of the output. -/
theorem run_begins (hlast : front.getLast? ≠ some ' ') (h : front <+: s.indent) (hwrap : s.wrapLast = true) (lines : List (List Char)) :
    ∃ e rest, (lines.foldl (Wrapping.step wide width subsequentIndent) s).finish = s.ret ++ e :: rest ∧ front <+: e := by
  induction lines generalizing s with
  | nil => exact ⟨rstripBlanks s.indent, [], if_pos hwrap, prefix_rstripBlanks h hlast⟩
  | cons line lines ih =>
      rw [List.foldl_cons]
      rcases @step_begins wide width subsequentIndent front s hlast h hwrap line with ⟨hret, hwrap', hindent⟩ | ⟨e, more, hret, he⟩
      · exact hret ▸ ih hindent hwrap'
      · obtain ⟨rest, hrest⟩ := @run_ret wide width subsequentIndent (s.step wide width subsequentIndent line) lines
        exact ⟨e, more ++ rest, by rw [hrest, hret, List.append_assoc]; rfl, he⟩

/-- The same for a state that comes after another one. -/
theorem Wrapping.Begins.run {s' : Wrapping} (hbegins : s.Begins front s') (hlast : front.getLast? ≠ some ' ') (lines : List (List Char)) :
    ∃ e rest, (lines.foldl (Wrapping.step wide width subsequentIndent) s').finish = s.ret ++ e :: rest ∧ front <+: e := by
  rcases hbegins with ⟨hret, hwrap, hindent⟩ | ⟨e, more, hret, he⟩
  · exact hret ▸ run_begins hlast hindent hwrap lines
  · obtain ⟨rest, hrest⟩ := @run_ret wide width subsequentIndent s' lines
    exact ⟨e, more ++ rest, by rw [hrest, hret, List.append_assoc]; rfl, he⟩

end Pending

/-! ### The item -/

section Item

variable {wide : Char → Bool} {width : Int} {initialIndent subsequentIndent rest : List Char} {bullet : Char} {n spcs : Nat} {s : Wrapping}
  {ret : List (List Char)}

theorem bullet_ne_blank (hbullet : isListChr bullet = true) : bullet ≠ ' ' := by
  rintro rfl
  exact absurd hbullet (by decide)

theorem rstripBlanks_append {front body : List Char} (hbody : ∃ c ∈ body, c ≠ ' ') : rstripBlanks (front ++ body) = front ++ rstripBlanks body := by
  obtain ⟨k, hk⟩ := Strip.exists_append_replicate ' ' body
  have hne : rstripBlanks body ≠ [] := by
    intro hnil
    obtain ⟨c, hc, hblank⟩ := hbody
    rw [hk, show body.rdropWhile (· = ' ') = [] from hnil, List.nil_append] at hc
    exact hblank (List.eq_of_mem_replicate hc)
  conv => lhs; rw [hk, ← List.append_assoc]
  refine (rstripBlanks_append_blanks _ k).trans (rstripBlanks_of_getLast ?_)
  rw [List.getLast?_append_of_ne_nil _ (show body.rdropWhile (· = ' ') ≠ [] from hne)]
  exact getLast_rstripBlanks body

theorem takeWhile_blanks (hbullet : isListChr bullet = true) :
    (blanks n ++ bullet :: rest).takeWhile (· = ' ') = blanks n ∧ (blanks n ++ bullet :: rest).dropWhile (· = ' ') = bullet :: rest := by
  have hall : ∀ c ∈ blanks n, decide (c = ' ') = true := fun c hc => decide_eq_true (List.eq_of_mem_replicate hc)
  have hne := bullet_ne_blank hbullet
  constructor
  · rw [List.takeWhile_append_of_pos hall, List.takeWhile_cons_of_neg (by simpa using hne), List.append_nil]
  · rw [List.dropWhile_append_of_pos hall, List.dropWhile_cons_of_neg (by simpa using hne)]

theorem splitOn_item (hbullet : isListChr bullet = true) : (blanks n ++ bullet :: ' ' :: rest).splitOn ' ' = List.replicate n [] ++ [bullet] :: rest.splitOn ' ' := by
  induction n with
  | zero =>
      refine (List.splitOn_append_cons_self [bullet] rest).trans ?_
      rw [List.splitOn_eq_singleton (by simpa using (bullet_ne_blank hbullet).symm)]
      rfl
  | succ n ih =>
      refine (List.splitOn_append_cons_self [] (blanks n ++ bullet :: ' ' :: rest)).trans ?_
      rw [ih]
      rfl

theorem chopStr_one {c : Char} (hc : wide c = false) (rest : List Char) : (chopStr wide (c :: rest) (some 1)).2 = [c] := by
  have hone : exactWidthChar wide c = 1 := if_neg (by simp [hc])
  rw [chopStr, chopLoop, hone, if_neg (by decide)]
  cases rest with
  | nil => rfl
  | cons d rest =>
      have := @one_le_exactWidthChar wide d
      rw [chopLoop, if_pos (by omega)]
      rfl

/-- The text of an item is indented where its bullet passes the test of the first byte. -/
theorem indentAtBeg_item (hbullet : isListChr bullet = true) (hwide : wide bullet = false) :
    ((indentAtBeg wide (blanks n ++ bullet :: ' ' :: rest)).2 ≠ 0 ↔ isListByte bullet = true) := by
  have hdrop := (@takeWhile_blanks (' ' :: rest) bullet n hbullet).2
  rw [indentAtBeg]
  split
  · rename_i hnil
    rw [hdrop] at hnil
    cases hnil
  · rename_i byte below hcons
    rw [hdrop] at hcons
    obtain ⟨rfl, rfl⟩ := List.cons.inj hcons
    split_ifs with hbyte
    · refine iff_of_true ?_ hbyte
      rw [chopStr_one hwide]
      simp only [hbullet, if_true]
      have hcount : (indentAtBeg wide (' ' :: rest)).1 ≠ 0 := by
        rw [indentAtBeg_fst, List.takeWhile_cons_of_pos (by simp)]
        exact Nat.succ_ne_zero _
      split_ifs <;> simp_all
    · exact iff_of_false (by simp) hbyte

theorem indentAtBeg_item_fst (hbullet : isListChr bullet = true) : (indentAtBeg wide (blanks n ++ bullet :: ' ' :: rest)).1 = n := by
  rw [indentAtBeg_fst, (takeWhile_blanks hbullet).1, blanks, List.length_replicate]

theorem forceNl_item (hbullet : isListChr bullet = true) (hwide : wide bullet = false) (s : Wrapping) :
    s.forceNl wide (blanks n ++ bullet :: ' ' :: rest) = true ↔
      s.wrapLast = true ∧ (isListByte bullet = true ∨ (s.cspcIndent = 0 ∧ 4 ≤ n ∧ n ≠ s.csab)) := by
  have hindent := @indentAtBeg_item wide rest bullet n hbullet hwide
  have hfst : (indentAtBeg wide (blanks n ++ bullet :: ' ' :: rest)).1 = n := indentAtBeg_item_fst hbullet
  have hlength : n ≠ (blanks n ++ bullet :: ' ' :: rest).length := by
    rw [List.length_append, blanks, List.length_replicate, List.length_cons]
    omega
  rw [← hindent]
  simp only [Wrapping.forceNl, hfst, Bool.or_eq_true, Bool.and_eq_true, decide_eq_true_eq]
  tauto

/-- The words of the spaces in front of an item only make lines of the indent. -/
theorem foldl_addWord_blanks (n : Nat) {ind : List Char} (hind : ind ∈ [initialIndent, subsequentIndent]) (k : Nat) :
    ∃ heads, (∀ e ∈ heads, OnlyIndent initialIndent subsequentIndent e) ∧ ∃ ind' ∈ [initialIndent, subsequentIndent], ∃ k',
      (List.replicate n []).foldl (addWord wide width subsequentIndent spcs) (ret, ind ++ blanks k) = (ret ++ heads, ind' ++ blanks k') := by
  induction n generalizing ret ind k with
  | zero => exact ⟨[], fun _ h => absurd h List.not_mem_nil, ind, hind, k, by rw [List.append_nil]; rfl⟩
  | succ n ih =>
      rw [List.replicate_succ, List.foldl_cons, addWord]
      split_ifs
      · obtain ⟨heads, hheads, ind', hind', k', hrun⟩ := @ih (ret ++ [rstripBlanks (ind ++ blanks k)]) subsequentIndent (by simp) (spcs + 1)
        refine ⟨rstripBlanks (ind ++ blanks k) :: heads, ?_, ind', hind', k', ?_⟩
        · intro e he
          rcases List.mem_cons.mp he with rfl | hold
          · exact ⟨ind, hind, k, rfl⟩
          · exact hheads e hold
        · rw [blanks_add, ← List.append_assoc] at hrun
          rw [List.append_nil, show [' '] = blanks 1 from rfl, hrun, List.append_assoc]
          rfl
      · obtain ⟨heads, hheads, ind', hind', k', hrun⟩ := @ih ret ind hind (k + 1)
        refine ⟨heads, hheads, ind', hind', k', ?_⟩
        rw [blanks_add, ← List.append_assoc] at hrun
        rw [List.append_nil, show [' '] = blanks 1 from rfl, hrun]

theorem getLast_bullet (hbullet : isListChr bullet = true) (front : List Char) : (front ++ [bullet]).getLast? ≠ some ' ' := by
  rw [List.getLast?_concat]
  exact fun h => bullet_ne_blank hbullet (Option.some.inj h)

theorem startsItem_of_prefix {front line : List Char} (hfront : StartsItem initialIndent subsequentIndent bullet front) (h : front <+: line) :
    StartsItem initialIndent subsequentIndent bullet line := by
  obtain ⟨ind, hind, k, more, rfl⟩ := hfront
  obtain ⟨tail, rfl⟩ := h
  exact ⟨ind, hind, k, more ++ tail, by rw [List.append_assoc _ _ tail]; rfl⟩

theorem startsItem_bullet {ind : List Char} (hind : ind ∈ [initialIndent, subsequentIndent]) (k : Nat) :
    StartsItem initialIndent subsequentIndent bullet (ind ++ blanks k ++ [bullet]) := ⟨ind, hind, k, [], rfl⟩

/-- The words of an item behind an indent: where its bullet is added, a line begins with it. -/
theorem foldl_addWord_item (hbullet : isListChr bullet = true) {ind : List Char} (hind : ind ∈ [initialIndent, subsequentIndent]) (ret : List (List Char)) :
    ∃ heads front, (∀ e ∈ heads, OnlyIndent initialIndent subsequentIndent e) ∧ StartsItem initialIndent subsequentIndent bullet front ∧
      front.getLast? ≠ some ' ' ∧
      Begins front (ret ++ heads)
        (((blanks n ++ bullet :: ' ' :: rest).splitOn ' ').foldl (addWord wide width subsequentIndent spcs) (ret, ind)).1
        (((blanks n ++ bullet :: ' ' :: rest).splitOn ' ').foldl (addWord wide width subsequentIndent spcs) (ret, ind)).2 := by
  obtain ⟨heads, hheads, ind', hind', k, hblanks⟩ := @foldl_addWord_blanks wide width initialIndent subsequentIndent spcs ret n ind hind 0
  rw [show ind ++ blanks 0 = ind from List.append_nil ind] at hblanks
  rw [splitOn_item hbullet, List.foldl_append, hblanks, List.foldl_cons, addWord]
  split_ifs
  · refine ⟨heads ++ [rstripBlanks (ind' ++ blanks k)], subsequentIndent ++ blanks spcs ++ [bullet], ?_,
      startsItem_bullet (by simp) spcs, getLast_bullet hbullet _, ?_⟩
    · intro e he
      rcases List.mem_append.mp he with hold | hnew
      · exact hheads e hold
      · exact ⟨ind', hind', k, List.mem_singleton.mp hnew⟩
    · rw [← List.append_assoc]
      exact foldl_addWord_begins (getLast_bullet hbullet _) (List.prefix_append _ _) _
  · exact ⟨heads, ind' ++ blanks k ++ [bullet], hheads, startsItem_bullet hind' k, getLast_bullet hbullet _,
      foldl_addWord_begins (getLast_bullet hbullet _) (List.prefix_append _ _) _⟩

/-- An item that is placed where nothing is being wrapped begins a line, perhaps behind lines of the indent alone. -/
theorem place_item (hbullet : isListChr bullet = true) (hindent : s.indent ∈ [initialIndent, subsequentIndent]) (csab cspcIndent : Nat) :
    ∃ heads front, (∀ e ∈ heads, OnlyIndent initialIndent subsequentIndent e) ∧ StartsItem initialIndent subsequentIndent bullet front ∧
      front.getLast? ≠ some ' ' ∧
      Wrapping.Begins front { s with ret := s.ret ++ heads } (s.place wide width subsequentIndent csab cspcIndent (blanks n ++ bullet :: ' ' :: rest)) := by
  rw [Wrapping.place]
  by_cases hfits : exactWidth wide (s.indent ++ (blanks n ++ bullet :: ' ' :: rest)) ≤ width
  · rw [if_pos hfits]
    refine ⟨[], s.indent ++ blanks n ++ [bullet], fun _ h => absurd h List.not_mem_nil, startsItem_bullet hindent n, getLast_bullet hbullet _,
      Or.inr ⟨s.indent ++ (blanks n ++ bullet :: ' ' :: rest), [], by simp, ' ' :: rest, by simp⟩⟩
  · rw [if_neg hfits]
    obtain ⟨heads, front, hheads, hstarts, hlast, hbegins⟩ := @foldl_addWord_item wide width initialIndent subsequentIndent rest bullet n
      (if cspcIndent = 0 && 4 ≤ csab then csab else cspcIndent) hbullet s.indent hindent s.ret
    exact ⟨heads, front, hheads, hstarts, hlast, hbegins.wrapping hlast s csab cspcIndent⟩

theorem place_wrapped {line : List Char} (hfits : ¬(exactWidth wide (s.indent ++ line) : Int) ≤ width) (csab cspcIndent : Nat) :
    ∃ spcs, s.place wide width subsequentIndent csab cspcIndent line =
      { ret := ((line.splitOn ' ').foldl (addWord wide width subsequentIndent spcs) (s.ret, s.indent)).1
        indent := rstripBlanks ((line.splitOn ' ').foldl (addWord wide width subsequentIndent spcs) (s.ret, s.indent)).2 ++ [' ']
        wrapLast := true, csab := csab, cspcIndent := cspcIndent } := by
  rw [Wrapping.place, if_neg hfits]
  exact ⟨_, rfl⟩

/-- A bullet that does not fit behind what is being wrapped ends it. -/
theorem place_wrapped_narrow (hbullet : isListChr bullet = true) (hnarrow : width < exactWidth wide (s.indent ++ [bullet]))
    (hindent : exactWidth wide subsequentIndent < exactWidth wide s.indent) (csab cspcIndent : Nat) :
    ∃ front, StartsItem initialIndent subsequentIndent bullet front ∧ front.getLast? ≠ some ' ' ∧
      Wrapping.Begins front { s with ret := s.ret ++ [rstripBlanks s.indent] } (s.place wide width subsequentIndent csab cspcIndent (bullet :: ' ' :: rest)) := by
  have hfits : ¬(exactWidth wide (s.indent ++ bullet :: ' ' :: rest) : Int) ≤ width := by
    rw [show s.indent ++ bullet :: ' ' :: rest = (s.indent ++ [bullet]) ++ ' ' :: rest by simp, exactWidth_append]
    omega
  have hsplit : (bullet :: ' ' :: rest).splitOn ' ' = [bullet] :: rest.splitOn ' ' := splitOn_item (n := 0) hbullet
  obtain ⟨spcs, hplace⟩ := @place_wrapped wide width subsequentIndent s _ hfits csab cspcIndent
  rw [hplace, hsplit, List.foldl_cons, addWord, if_pos ⟨hnarrow, hindent⟩]
  exact ⟨_, startsItem_bullet (by simp) spcs, getLast_bullet hbullet _,
    (foldl_addWord_begins (getLast_bullet hbullet _) (List.prefix_append _ _) (rest.splitOn ' ')).wrapping (getLast_bullet hbullet _) s csab cspcIndent⟩

/-- A bullet that fits is joined to it. -/
theorem place_wrapped_joined (hbullet : isListChr bullet = true)
    (hfits : ¬(width < exactWidth wide (s.indent ++ [bullet]) ∧ exactWidth wide subsequentIndent < exactWidth wide s.indent)) (csab cspcIndent : Nat) :
    s.Begins (s.indent ++ [bullet]) (s.place wide width subsequentIndent csab cspcIndent (bullet :: ' ' :: rest)) := by
  have hsplit : (bullet :: ' ' :: rest).splitOn ' ' = [bullet] :: rest.splitOn ' ' := splitOn_item (n := 0) hbullet
  by_cases hline : (exactWidth wide (s.indent ++ bullet :: ' ' :: rest) : Int) ≤ width
  · rw [Wrapping.place, if_pos hline]
    exact Or.inr ⟨_, [], rfl, ' ' :: rest, by simp⟩
  · obtain ⟨spcs, hplace⟩ := @place_wrapped wide width subsequentIndent s _ hline csab cspcIndent
    rw [hplace, hsplit, List.foldl_cons, addWord, if_neg hfits]
    exact (foldl_addWord_begins (getLast_bullet hbullet _) (List.prefix_append _ _) (rest.splitOn ' ')).wrapping (getLast_bullet hbullet _) s csab cspcIndent

end Item

/-! ### Every item -/

section Text

variable {wide : Char → Bool} {width : Int} {initialIndent subsequentIndent : List Char} {before after : List (List Char)} {bullet : Char} {n : Nat}

theorem place_indent (s : Wrapping) (csab cspcIndent : Nat) (line : List Char)
    (h : (s.place wide width subsequentIndent csab cspcIndent line).wrapLast = false) :
    (s.place wide width subsequentIndent csab cspcIndent line).indent = subsequentIndent := by
  by_cases hfits : (exactWidth wide (s.indent ++ line) : Int) ≤ width
  · rw [Wrapping.place, if_pos hfits]
  · obtain ⟨spcs, hplace⟩ := @place_wrapped wide width subsequentIndent s line hfits csab cspcIndent
    rw [hplace] at h
    cases h

theorem step_indent (s : Wrapping) (line : List Char) (h : (s.step wide width subsequentIndent line).wrapLast = false) :
    (s.step wide width subsequentIndent line).indent = subsequentIndent := by
  rw [step_eq wide width subsequentIndent s line rfl] at h ⊢
  split_ifs at h ⊢ <;> exact place_indent _ _ _ _ h

/-- Where nothing is being wrapped, there is only an indent. -/
theorem wrapState_indent (lines : List (List Char)) (h : (wrapState wide width initialIndent subsequentIndent lines).wrapLast = false) :
    (wrapState wide width initialIndent subsequentIndent lines).indent ∈ [initialIndent, subsequentIndent] := by
  rcases List.eq_nil_or_concat lines with rfl | ⟨front, line, rfl⟩
  · exact List.mem_cons_self
  · rw [wrapState, List.concat_eq_append, List.foldl_concat] at h ⊢
    rw [step_indent _ _ h]
    exact List.mem_cons_of_mem _ List.mem_cons_self

theorem keepsOwnLine_of_begins {text front : List Char} {heads : List (List Char)} {s s' : Wrapping}
    (hrun : wrapLines wide width initialIndent subsequentIndent (sourceLines text) = (after.foldl (Wrapping.step wide width subsequentIndent) s').finish)
    (hret : s.ret = wrapLines wide width initialIndent subsequentIndent before ++ heads)
    (hheads : ∀ e ∈ heads, OnlyIndent initialIndent subsequentIndent e) (hstarts : StartsItem initialIndent subsequentIndent bullet front)
    (hlast : front.getLast? ≠ some ' ') (hbegins : s.Begins front s') : KeepsOwnLine wide width initialIndent subsequentIndent text before bullet := by
  obtain ⟨line, rest, hlines, hline⟩ := @Wrapping.Begins.run wide width subsequentIndent front s s' hbegins hlast after
  exact ⟨heads, line, rest, by rw [hrun, hlines, hret], hheads, startsItem_of_prefix hstarts hline⟩

/-- An item that is placed behind the output for the lines before it keeps its own line. -/
theorem keepsOwnLine_of_place {text rest : List Char} {s : Wrapping} {csab cspcIndent : Nat} (hbullet : isListChr bullet = true)
    (hrun : wrapLines wide width initialIndent subsequentIndent (sourceLines text) = (after.foldl (Wrapping.step wide width subsequentIndent)
      (s.place wide width subsequentIndent csab cspcIndent (blanks n ++ bullet :: ' ' :: rest))).finish)
    (hret : s.ret = wrapLines wide width initialIndent subsequentIndent before) (hindent : s.indent ∈ [initialIndent, subsequentIndent]) :
    KeepsOwnLine wide width initialIndent subsequentIndent text before bullet := by
  obtain ⟨heads, front, hheads, hstarts, hlast, hbegins⟩ := @place_item wide width initialIndent subsequentIndent rest bullet n s hbullet hindent csab cspcIndent
  exact keepsOwnLine_of_begins hrun (by rw [hret]) hheads hstarts hlast hbegins

/-- A line that goes on with what is being wrapped is no line of its own. -/
theorem not_keepsOwnLine_of_begins {text : List Char} {s s' : Wrapping}
    (hrun : wrapLines wide width initialIndent subsequentIndent (sourceLines text) = (after.foldl (Wrapping.step wide width subsequentIndent) s').finish)
    (hbefore : wrapLines wide width initialIndent subsequentIndent before = s.ret ++ [rstripBlanks s.indent]) (hlast : (s.indent ++ [bullet]).getLast? ≠ some ' ')
    (hbegins : s.Begins (s.indent ++ [bullet]) s') : ¬KeepsOwnLine wide width initialIndent subsequentIndent text before bullet := by
  rintro ⟨heads, line, rest, houtput, -, -⟩
  obtain ⟨e, more, hlines, he⟩ := @Wrapping.Begins.run wide width subsequentIndent _ s s' hbegins hlast after
  rw [hrun, hlines, hbefore, List.append_assoc, List.append_assoc] at houtput
  obtain ⟨rfl, -⟩ := List.cons.inj (List.append_cancel_left houtput)
  have hlong := he.length_le
  have hshort := (rstripBlanks_sublist s.indent).length_le
  rw [List.length_append, List.length_singleton] at hlong
  omega

/-- An item keeps its own line exactly where something sets it off. -/
theorem keepsOwnLine_iff {text body : List Char} (hlines : sourceLines text = before ++ (blanks n ++ bullet :: ' ' :: body) :: after)
    (hbullet : isListChr bullet = true) (hbody : ∃ c ∈ body, c ≠ ' ') (hwide : wide bullet = false) :
    KeepsOwnLine wide width initialIndent subsequentIndent text before bullet ↔
      SetOff wide width subsequentIndent (wrapState wide width initialIndent subsequentIndent before) n bullet := by
  have hrun : wrapLines wide width initialIndent subsequentIndent (sourceLines text) = (after.foldl (Wrapping.step wide width subsequentIndent)
      ((wrapState wide width initialIndent subsequentIndent before).step wide width subsequentIndent (blanks n ++ bullet :: ' ' :: body))).finish := by
    rw [hlines, wrapLines, List.foldl_append, List.foldl_cons]
    rfl
  have hbefore : wrapLines wide width initialIndent subsequentIndent before = (wrapState wide width initialIndent subsequentIndent before).finish := rfl
  have hindent := @wrapState_indent wide width initialIndent subsequentIndent before
  have hitem : rstripBlanks (blanks n ++ bullet :: ' ' :: body) = blanks n ++ bullet :: ' ' :: rstripBlanks body := by
    have := @rstripBlanks_append (blanks n ++ [bullet, ' ']) body hbody
    simpa using this
  rw [step_eq wide width subsequentIndent _ _ hitem] at hrun
  have hforce := @forceNl_item wide (rstripBlanks body) bullet n hbullet hwide (wrapState wide width initialIndent subsequentIndent before)
  generalize wrapState wide width initialIndent subsequentIndent before = s at hrun hbefore hindent hforce ⊢
  rw [Wrapping.finish] at hbefore
  cases hwrap : s.wrapLast with
  | false =>
      refine iff_of_true ?_ (Or.inr (Or.inl hwrap))
      rw [if_neg fun h => Bool.noConfusion (hwrap.symm.trans (hforce.mp h).1), if_neg (by simp [hwrap])] at hrun
      rw [if_neg (by simp [hwrap])] at hbefore
      exact keepsOwnLine_of_place hbullet hrun hbefore.symm (hindent hwrap)
  | true =>
      rw [if_pos hwrap] at hbefore
      by_cases hforced : s.forceNl wide (blanks n ++ bullet :: ' ' :: rstripBlanks body) = true
      · refine iff_of_true ?_ ((hforce.mp hforced).2.elim Or.inl fun hblock => Or.inr (Or.inr (Or.inl hblock)))
        rw [if_pos hforced] at hrun
        exact keepsOwnLine_of_place hbullet hrun hbefore.symm (List.mem_cons_of_mem _ List.mem_cons_self)
      · rw [if_neg hforced, if_pos hwrap, lstripBlanks, (takeWhile_blanks hbullet).2] at hrun
        have hloose : ¬(isListByte bullet = true ∨ (s.cspcIndent = 0 ∧ 4 ≤ n ∧ n ≠ s.csab)) := fun h => hforced (hforce.mpr ⟨hwrap, h⟩)
        by_cases hnarrow : width < exactWidth wide (s.indent ++ [bullet]) ∧ exactWidth wide subsequentIndent < exactWidth wide s.indent
        · refine iff_of_true ?_ (Or.inr (Or.inr (Or.inr hnarrow)))
          obtain ⟨front, hstarts, hlast, hbegins⟩ := @place_wrapped_narrow wide width initialIndent subsequentIndent (rstripBlanks body) bullet s hbullet
            hnarrow.1 hnarrow.2 (indentAtBeg wide (blanks n ++ bullet :: ' ' :: rstripBlanks body)).1 s.cspcIndent
          have hret : s.ret ++ [rstripBlanks s.indent] = wrapLines wide width initialIndent subsequentIndent before ++ [] := by rw [hbefore, List.append_nil]
          have hnone : ∀ e ∈ ([] : List (List Char)), OnlyIndent initialIndent subsequentIndent e := fun _ h => absurd h List.not_mem_nil
          exact keepsOwnLine_of_begins hrun hret hnone hstarts hlast hbegins
        · refine iff_of_false (not_keepsOwnLine_of_begins hrun hbefore (getLast_bullet hbullet _) (place_wrapped_joined hbullet hnarrow _ _)) ?_
          rintro (hbyte | hfree | hblock | hfar)
          · exact hloose (Or.inl hbyte)
          · exact Bool.noConfusion (hwrap.symm.trans hfree)
          · exact hloose (Or.inr hblock)
          · exact hnarrow hfar

end Text

/-- Two lines, the second one with a bullet in front of it. -/
def twoLines (bullet : Char) : List Char :=
  ['a', 'a', 'a', 'a', ' ', 'b', 'b', 'b', 'b', ' ', 'c', 'c', 'c', 'c', '\n', bullet, ' ', 'd', ' ', 'e']

/-- With `-`, on ten columns. -/
theorem keepsOwnLine_dash :
    KeepsOwnLine (fun _ => false) 10 [] [] (twoLines '-') [['a', 'a', 'a', 'a', ' ', 'b', 'b', 'b', 'b', ' ', 'c', 'c', 'c', 'c']] '-' :=
  (@keepsOwnLine_iff (fun _ => false) 10 [] [] _ [] '-' 0 (twoLines '-') ['d', ' ', 'e'] (by decide) rfl ⟨'d', List.mem_cons_self, by decide⟩ rfl).mpr
    (Or.inl rfl)

/-- With `•` there, the item is the end of the line before it. -/
theorem not_keepsOwnLine_bullet :
    sourceLines (twoLines '\u2022') = [['a', 'a', 'a', 'a', ' ', 'b', 'b', 'b', 'b', ' ', 'c', 'c', 'c', 'c'], ['\u2022', ' ', 'd', ' ', 'e']] ∧
      ¬KeepsOwnLine (fun _ => false) 10 [] [] (twoLines '\u2022') [['a', 'a', 'a', 'a', ' ', 'b', 'b', 'b', 'b', ' ', 'c', 'c', 'c', 'c']] '\u2022' := by
  refine ⟨by decide, ?_⟩
  rintro ⟨heads, line, rest, houtput, -⟩
  have hjoined : wrapLines (fun _ => false) 10 [] [] (sourceLines (twoLines '\u2022')) =
      [['a', 'a', 'a', 'a', ' ', 'b', 'b', 'b', 'b'], ['c', 'c', 'c', 'c', ' ', '\u2022', ' ', 'd', ' ', 'e']] := by decide +kernel
  have hbefore : wrapLines (fun _ => false) 10 [] [] [['a', 'a', 'a', 'a', ' ', 'b', 'b', 'b', 'b', ' ', 'c', 'c', 'c', 'c']] =
      [['a', 'a', 'a', 'a', ' ', 'b', 'b', 'b', 'b'], ['c', 'c', 'c', 'c']] := by decide +kernel
  rw [hjoined, hbefore] at houtput
  cases houtput

end Dnf.I18n
