import Dnf.Repoquery.QueryFormat

/-!
# Query formats are kept

What a query format should give is read off the format itself: the escapes are expanded, an allowed tag gives its value, and everything else stands for itself. `rpm2py_format` gives the same, unless the text has the name of an option that is called otherwise as an attribute, which it changes wherever it stands, or an allowed tag has a width that Python does not take.

That the change is always seen is a matter of counting dashes. A dash that is changed stands behind an `s`, so the tags of the format are still there.
-/

namespace Dnf.Repoquery

open Foundation
open Foundation.StrFormat

/-! ### What a format should give -/

/-- The escapes of a text, read from the left. -/
def expand : List Char → List Char
  | [] => []
  | '\\' :: 'n' :: rest => '\n' :: expand rest
  | '\\' :: 't' :: rest => '\t' :: expand rest
  | c :: rest => c :: expand rest

section Shown

variable (characters : Characters) (value : List Char → List Char)

/-- Whether a tag is filled on its left, and the digits of its width. -/
def fillParts (fill : List Char) : Bool × List Char := if fill.head? = some '-' then (true, fill.tail) else (false, fill)

def Characters.width (fill : List Char) : Nat := number characters.decimal (fillParts fill).2

/-- The value, filled up to the width of the tag; a width that starts with a zero is filled with zeros. -/
def Characters.padded (fill text : List Char) : List Char :=
  pad (if (fillParts fill).2.head? = some '0' then '0' else ' ') (if (fillParts fill).1 then '>' else '<') (characters.width fill) text

def Characters.shown (m : Match) : List Char :=
  if isAllowed (characters.lower m.key) then characters.padded m.fill (value (characters.lower m.key)) else m.group

def Characters.render (found : List (List Char × Match) × List Char) : List Char :=
  found.1.flatMap (fun item => item.1 ++ characters.shown value item.2) ++ found.2

/-- The escapes expanded, the allowed tags replaced by their padded values, and everything else as it is. -/
def Characters.expected (queryformat : List Char) : List Char := characters.render value (characters.finditer [] 0 (expand queryformat))

/-- The format is reproduced for every package. -/
def Characters.KeepsFormat (maxsize : Nat) (queryformat : List Char) : Prop :=
  ∀ value, characters.formatPackage maxsize value queryformat = some (characters.expected value queryformat)

/-- An allowed tag whose width Python does not take. -/
def Characters.TooWide (maxsize : Nat) (m : Match) : Prop := isAllowed (characters.lower m.key) = true ∧ maxsize < characters.width m.fill

end Shown

/-! ### Escapes -/

/-- The head of a text after the replacement of line breaks is the head before, or a line break. -/
theorem head_replace (text : List Char) :
    (replace ['\\', 'n'] ['\n'] text).head? = text.head? ∨ (replace ['\\', 'n'] ['\n'] text).head? = some '\n' :=
  replace_cases (P := fun text replaced => replaced.head? = text.head? ∨ replaced.head? = some '\n') (by decide) (.inl rfl) (fun _ _ => .inr rfl)
    (fun _ _ _ _ => .inl rfl) text

theorem expandEscapes_eq (queryformat : List Char) : expandEscapes queryformat = expand queryformat := by
  have htab (text : List Char) : replace ['\\', 't'] ['\t'] ('\\' :: 't' :: text) = '\t' :: replace ['\\', 't'] ['\t'] text :=
    replace_append_of_ne_nil (by decide) text
  have hline (text : List Char) : replace ['\\', 'n'] ['\n'] ('\\' :: 'n' :: text) = '\n' :: replace ['\\', 'n'] ['\n'] text :=
    replace_append_of_ne_nil (by decide) text
  unfold expandEscapes
  fun_induction expand queryformat with
  | case1 => rfl
  | case2 rest ih => rw [hline, replace_cons_of_not_start (by simp), ih]
  | case3 rest ih =>
      have hskip : replace ['\\', 'n'] ['\n'] ('\\' :: 't' :: rest) = '\\' :: 't' :: replace ['\\', 'n'] ['\n'] rest := by
        rw [replace_cons_of_not_start (by simp), replace_cons_of_not_start (by simp)]
      rw [hskip, htab, ih]
  | case4 c rest hn ht ih =>
      have hnotline : ¬['\\', 'n'] <+: c :: rest := by
        intro ⟨rest', hrest'⟩
        obtain ⟨hc, hrest⟩ := List.cons.inj hrest'
        exact hn rest' hc.symm hrest.symm
      have hnottab : ¬['\\', 't'] <+: c :: replace ['\\', 'n'] ['\n'] rest := by
        intro ⟨rest', hrest'⟩
        obtain ⟨hc, hrest⟩ := List.cons.inj hrest'
        rcases head_replace rest with hhead | hhead
        · rw [← hrest] at hhead
          obtain ⟨rest'', rfl⟩ := List.head?_eq_some_iff.mp hhead.symm
          exact ht rest'' hc.symm rfl
        · rw [← hrest] at hhead
          exact absurd (Option.some.inj hhead) (by decide)
      rw [replace_cons_of_not_start hnotline, replace_cons_of_not_start hnottab, ih]

/-- Only one of the options has another name as an attribute. -/
theorem mapOpts_eq (queryformat : List Char) : mapOpts queryformat = replace "requires-pre".toList "requires_pre".toList queryformat := by
  have hopts : mapOpts queryformat = replace "supplements".toList "supplements".toList (replace "suggests".toList "suggests".toList
      (replace "requires-pre".toList "requires_pre".toList (replace "requires".toList "requires".toList (replace "recommends".toList "recommends".toList
        (replace "provides".toList "provides".toList (replace "obsoletes".toList "obsoletes".toList (replace "enhances".toList "enhances".toList
          (replace "conflicts".toList "conflicts".toList queryformat)))))))) := rfl
  rw [hopts]
  simp only [replace_self (show "supplements".toList ≠ [] by decide), replace_self (show "suggests".toList ≠ [] by decide),
    replace_self (show "requires".toList ≠ [] by decide), replace_self (show "recommends".toList ≠ [] by decide),
    replace_self (show "provides".toList ≠ [] by decide), replace_self (show "obsoletes".toList ≠ [] by decide),
    replace_self (show "enhances".toList ≠ [] by decide), replace_self (show "conflicts".toList ≠ [] by decide)]

/-! ### Matches -/

section Matches

variable {characters : Characters}

theorem isDigit_ascii {c : Char} (hc : c.toNat < 128) : characters.isDigit c = c.isDigit := by
  rw [Characters.isDigit, characters.decimal_ascii c hc]
  split_ifs with h
  · rw [h, Option.isSome_some]
  · rw [Bool.not_eq_true] at h
    rw [h, Option.isSome_none]

theorem inKey_ascii {c : Char} (hc : c.toNat < 128) : characters.inKey c = (c == ':' || c.isAlphanum || c == '_') := by
  rw [Characters.inKey, characters.isWord_ascii c hc, Bool.or_assoc]
  rfl

/-- The parts of a match: a minus or none, digits, and the tag. -/
structure Match.Parts (characters : Characters) (m : Match) (minus digits : List Char) : Prop where
  fill : m.fill = minus ++ digits
  minus : minus = [] ∨ minus = ['-']
  digits : ∀ c ∈ digits, characters.isDigit c = true
  ne_nil : m.key ≠ []
  key : ∀ c ∈ m.key, characters.inKey c = true

theorem Match.Parts.notMem_digits {m : Match} {minus digits : List Char} (hparts : m.Parts characters minus digits) {c : Char} (hc : c.toNat < 128)
    (hdigit : c.isDigit = false) : c ∉ digits := by
  intro hmem
  have htrue := hparts.digits c hmem
  rw [isDigit_ascii hc, hdigit] at htrue
  cases htrue

theorem Match.Parts.notMem_key {m : Match} {minus digits : List Char} (hparts : m.Parts characters minus digits) {c : Char} (hc : c.toNat < 128)
    (hkey : (c == ':' || c.isAlphanum || c == '_') = false) : c ∉ m.key := by
  intro hmem
  have htrue := hparts.key c hmem
  rw [inKey_ascii hc, hkey] at htrue
  cases htrue

theorem matchRest_eq_some {minus text : List Char} {m : Match} (hm : characters.matchRest minus text = some m) (hminus : minus = [] ∨ minus = ['-']) :
    ∃ digits rest, m.Parts characters minus digits ∧ text = digits ++ '{' :: (m.key ++ '}' :: rest) := by
  unfold Characters.matchRest at hm
  split at hm
  · rename_i rest hrest
    dsimp only at hm
    split_ifs at hm with hkey
    obtain rfl := Option.some.inj hm
    obtain ⟨tail, htail⟩ := List.head?_eq_some_iff.mp hkey.2
    refine ⟨text.takeWhile characters.isDigit, tail, ⟨rfl, hminus, fun c hc => List.mem_takeWhile_imp hc, hkey.1, fun c hc => List.mem_takeWhile_imp hc⟩, ?_⟩
    rw [← htail, List.takeWhile_append_dropWhile, ← hrest, List.takeWhile_append_dropWhile]
  · cases hm

theorem matchRest_append {minus digits : List Char} {m : Match} (hparts : m.Parts characters minus digits) (rest : List Char) :
    characters.matchRest minus (digits ++ '{' :: (m.key ++ '}' :: rest)) = some m := by
  have hopen : characters.isDigit '{' = false := isDigit_ascii (by decide)
  have hclose : characters.inKey '}' = false := inKey_ascii (by decide)
  have hdrop : (digits ++ '{' :: (m.key ++ '}' :: rest)).dropWhile characters.isDigit = '{' :: (m.key ++ '}' :: rest) := by
    rw [List.dropWhile_append_of_pos hparts.digits, List.dropWhile_cons_of_neg (by simp [hopen])]
  have htake : (digits ++ '{' :: (m.key ++ '}' :: rest)).takeWhile characters.isDigit = digits := by
    rw [List.takeWhile_append_of_pos hparts.digits, List.takeWhile_cons_of_neg (by simp [hopen]), List.append_nil]
  have hkeydrop : (m.key ++ '}' :: rest).dropWhile characters.inKey = '}' :: rest := by
    rw [List.dropWhile_append_of_pos hparts.key, List.dropWhile_cons_of_neg (by simp [hclose])]
  have hkeytake : (m.key ++ '}' :: rest).takeWhile characters.inKey = m.key := by
    rw [List.takeWhile_append_of_pos hparts.key, List.takeWhile_cons_of_neg (by simp [hclose]), List.append_nil]
  rw [Characters.matchRest, hdrop, htake]
  simp only [hkeydrop, hkeytake]
  rw [if_pos ⟨hparts.ne_nil, rfl⟩, ← hparts.fill]

theorem matchTag_eq_some {text : List Char} {m : Match} (hm : characters.matchTag text = some m) :
    (∃ minus digits, m.Parts characters minus digits) ∧ ∃ rest, text = m.group ++ rest := by
  unfold Characters.matchTag at hm
  split at hm
  · obtain ⟨digits, rest, hparts, htext⟩ := matchRest_eq_some hm (.inr rfl)
    refine ⟨⟨_, _, hparts⟩, rest, ?_⟩
    rw [htext, Match.group, hparts.fill]
    simp
  · obtain ⟨digits, rest, hparts, htext⟩ := matchRest_eq_some hm (.inl rfl)
    refine ⟨⟨_, _, hparts⟩, rest, ?_⟩
    rw [htext, Match.group, hparts.fill]
    simp
  · cases hm

theorem matchTag_append {minus digits : List Char} {m : Match} (hparts : m.Parts characters minus digits) (rest : List Char) :
    characters.matchTag (m.group ++ rest) = some m := by
  have hgroup : m.group ++ rest = '%' :: (minus ++ (digits ++ '{' :: (m.key ++ '}' :: rest))) := by
    rw [Match.group, hparts.fill]
    simp
  have hmatch := matchRest_append hparts rest
  rw [hgroup]
  rcases hparts.minus with rfl | rfl
  · rw [List.nil_append, Characters.matchTag]
    · exact hmatch
    · intro text htext
      cases digits with
      | nil => exact absurd (List.cons.inj htext).1 (by decide)
      | cons c digits =>
          have hdash : '-' ∉ c :: digits := hparts.notMem_digits (by decide) rfl
          exact hdash ((List.cons.inj htext).1 ▸ List.mem_cons_self)
  · exact hmatch

theorem finditer_nil (spos : List Char) (skip : Nat) : characters.finditer spos skip [] = ([], spos) := by
  cases skip <;> rfl

theorem finditer_zero (spos : List Char) (c : Char) (rest : List Char) : characters.finditer spos 0 (c :: rest) =
    match characters.matchTag (c :: rest) with
    | some m =>
        let (items, tail) := characters.finditer [] (m.group.length - 1) rest
        ((spos, m) :: items, tail)
    | none => characters.finditer (spos ++ [c]) 0 rest := rfl

theorem finditer_some {spos : List Char} {c : Char} {rest : List Char} {m : Match} (hm : characters.matchTag (c :: rest) = some m) :
    characters.finditer spos 0 (c :: rest) =
      ((spos, m) :: (characters.finditer [] (m.group.length - 1) rest).1, (characters.finditer [] (m.group.length - 1) rest).2) := by
  rw [finditer_zero, hm]

theorem finditer_none {spos : List Char} {c : Char} {rest : List Char} (hm : characters.matchTag (c :: rest) = none) :
    characters.finditer spos 0 (c :: rest) = characters.finditer (spos ++ [c]) 0 rest := by
  rw [finditer_zero, hm]

/-- The parts of all matches. -/
def Characters.AllParts (items : List (List Char × Match)) : Prop := ∀ item ∈ items, ∃ minus digits, item.2.Parts characters minus digits

theorem allParts_finditer (spos : List Char) (skip : Nat) (text : List Char) : characters.AllParts (characters.finditer spos skip text).1 := by
  induction text generalizing spos skip with
  | nil =>
      rw [finditer_nil]
      exact fun item hitem => absurd hitem List.not_mem_nil
  | cons c rest ih =>
      cases skip with
      | succ skip => exact ih spos skip
      | zero =>
          cases hm : characters.matchTag (c :: rest) with
          | none =>
              rw [finditer_none hm]
              exact ih _ 0
          | some m =>
              rw [finditer_some hm]
              exact List.forall_mem_cons.mpr ⟨(matchTag_eq_some hm).1, ih [] _⟩

end Matches

/-! ### The format of Python -/

section Python

variable {characters : Characters} {maxsize : Nat} {value : List Char → List Char}

instance (m : Match) : Decidable (characters.TooWide maxsize m) := inferInstanceAs (Decidable (_ ∧ _))

theorem brackets_eq_escape (txt : List Char) : brackets txt = escape txt := by
  rw [brackets, replace_singleton, replace_singleton, List.flatMap_assoc, escape]
  congr 1
  funext c
  by_cases hopen : c = '{'
  · rw [if_pos hopen, if_pos (Or.inl hopen), hopen]
    rfl
  · rw [if_neg hopen, List.flatMap_singleton]
    by_cases hclose : c = '}'
    · rw [if_pos hclose, if_pos (Or.inr hclose), hclose]
    · rw [if_neg hclose, if_neg (not_or.mpr ⟨hopen, hclose⟩)]

theorem number_zero (digits : List Char) : number characters.decimal ('0' :: digits) = number characters.decimal digits := by
  rw [number, List.foldl_cons, characters.decimal_ascii '0' (by decide)]
  rfl

theorem not_isAlign {c : Char} (hc : characters.isDigit c = true) : isAlign c = false := by
  by_contra halign
  have hnot : c.toNat < 128 ∧ c.isDigit = false := by
    simp only [isAlign, Bool.not_eq_false, Bool.or_eq_true, beq_iff_eq] at halign
    rcases halign with ((rfl | rfl) | rfl) | rfl <;> decide
  rw [isDigit_ascii hnot.1, hnot.2] at hc
  cases hc

theorem formatAligned_digits {align : Char} (halign : align ≠ '=') {digits : List Char} (hdigits : ∀ c ∈ digits, characters.isDigit c = true) (text : List Char) :
    formatAligned characters.decimal maxsize none align digits text =
      if maxsize < number characters.decimal digits then none
      else some (pad (if digits.head? = some '0' then '0' else ' ') align (number characters.decimal digits) text) := by
  have hall (digits : List Char) (hdigits : ∀ c ∈ digits, characters.isDigit c = true) :
      (digits.takeWhile fun c => (characters.decimal c).isSome) = digits ∧ (digits.dropWhile fun c => (characters.decimal c).isSome) = [] :=
    ⟨List.takeWhile_eq_self_iff.mpr hdigits, List.dropWhile_eq_nil_iff.mpr hdigits⟩
  by_cases hzero : digits.head? = some '0'
  · obtain ⟨rest, rfl⟩ := List.head?_eq_some_iff.mp hzero
    obtain ⟨htake, hdrop⟩ := hall rest fun c hc => hdigits c (List.mem_cons_of_mem _ hc)
    simp only [formatAligned, hzero, and_self, if_true, List.tail_cons, htake, hdrop, halign, false_or, number_zero, Option.getD_none]
  · obtain ⟨htake, hdrop⟩ := hall digits hdigits
    simp only [formatAligned, hzero, and_false, if_false, htake, hdrop, halign, false_or, Option.getD_none]

theorem formatSpec_digits {align : Char} (halign : align = '<' ∨ align = '>') {digits : List Char} (hdigits : ∀ c ∈ digits, characters.isDigit c = true)
    (text : List Char) :
    formatSpec characters.decimal maxsize (align :: digits) text =
      if maxsize < number characters.decimal digits then none
      else some (pad (if digits.head? = some '0' then '0' else ' ') align (number characters.decimal digits) text) := by
  have hisAlign : isAlign align = true := by rcases halign with rfl | rfl <;> rfl
  have hne : align ≠ '=' := by rcases halign with rfl | rfl <;> decide
  rw [← formatAligned_digits hne hdigits]
  cases digits with
  | nil => rw [formatSpec, if_pos hisAlign]
  | cons c digits =>
      have hc := not_isAlign (hdigits c List.mem_cons_self)
      rw [formatSpec, if_neg (by simp [hc]), if_pos hisAlign]

theorem allowed_chars {key : List Char} (hkey : isAllowed key = true) : key ≠ [] ∧ ∀ c ∈ key, c ∉ ['{', '}', ':', '!', '[', '.'] := by
  have hall : (allowedQueryTags.all fun key => key ≠ [] && key.all fun c => c ∉ ['{', '}', ':', '!', '[', '.']) = true := by decide
  simpa only [Bool.and_eq_true, decide_eq_true_eq, List.all_eq_true] using List.all_eq_true.mp hall key (List.contains_iff_mem.mp hkey)

theorem field_allowed {key : List Char} (hkey : isAllowed key = true) (spec : List Char) :
    field characters.decimal maxsize value ('0' :: '.' :: key) spec = formatSpec characters.decimal maxsize spec (value key) := by
  obtain ⟨hne, hchars⟩ := allowed_chars hkey
  exact if_neg (not_or.mpr ⟨hne, fun hdot => hchars '.' hdot (by decide)⟩)

theorem isName_allowed {key : List Char} (hkey : isAllowed key = true) : IsName ('0' :: '.' :: key) := by
  refine List.forall_mem_cons.mpr ⟨by decide, List.forall_mem_cons.mpr ⟨by decide, fun c hc hmem => ?_⟩⟩
  exact (allowed_chars hkey).2 c hc (List.mem_append_left ['.'] hmem)

theorem fillParts_eq {m : Match} {minus digits : List Char} (hparts : m.Parts characters minus digits) : fillParts m.fill = (decide (minus ≠ []), digits) := by
  rw [fillParts, hparts.fill]
  rcases hparts.minus with rfl | rfl
  · have hhead : (([] : List Char) ++ digits).head? ≠ some '-' := by
      intro hhead
      obtain ⟨rest, hdigits⟩ := List.head?_eq_some_iff.mp hhead
      have hdash : '-' ∉ digits := hparts.notMem_digits (by decide) rfl
      rw [List.nil_append] at hdigits
      exact hdash (hdigits ▸ List.mem_cons_self)
    rw [if_neg hhead]
    rfl
  · rw [List.singleton_append, List.head?_cons, if_pos rfl]
    rfl

/-- The specification of a tag with a width or a minus. -/
theorem fmtRepl_of_fill {m : Match} {minus digits : List Char} (hparts : m.Parts characters minus digits) (hkey : isAllowed (characters.lower m.key) = true)
    (hfill : m.fill ≠ []) :
    characters.fmtRepl m =
      '{' :: ('0' :: '.' :: characters.lower m.key ++ (':' :: ((if minus ≠ [] then '>' else '<') :: digits ++ ['}']))) := by
  have hdash : '-' ∉ digits := hparts.notMem_digits (by decide) rfl
  rw [Characters.fmtRepl, if_neg (by simp [hkey])]
  rcases hparts.minus with rfl | rfl
  · have hdigits : m.fill = digits := hparts.fill
    cases digits with
    | nil => exact absurd hdigits hfill
    | cons c rest =>
        simp only [hdigits, if_neg (fun hc : c = '-' => hdash (hc ▸ List.mem_cons_self)), ne_eq, not_true_eq_false, if_false]
        simp
  · simp only [hparts.fill, List.singleton_append, if_true, ne_eq, List.cons_ne_nil, not_false_eq_true]
    simp

theorem formats_fmtRepl {m : Match} {minus digits : List Char} (hparts : m.Parts characters minus digits) :
    Formats characters.decimal maxsize value (characters.fmtRepl m) (if characters.TooWide maxsize m then none else some (characters.shown value m)) := by
  by_cases hkey : isAllowed (characters.lower m.key) = true
  · have hshown : characters.shown value m = characters.padded m.fill (value (characters.lower m.key)) := if_pos hkey
    have hwide : characters.TooWide maxsize m ↔ maxsize < characters.width m.fill := and_iff_right hkey
    simp only [hwide, hshown]
    by_cases hfill : m.fill = []
    · have hrepl : characters.fmtRepl m = '{' :: ('0' :: '.' :: characters.lower m.key ++ ['}']) := by
        simp [Characters.fmtRepl, hkey, hfill]
      have hpadded (text : List Char) : characters.padded [] text = text := by
        have hwidth : characters.width [] = 0 := rfl
        simp [Characters.padded, hwidth, fillParts, pad]
      have hwidth : ¬maxsize < characters.width m.fill := by
        rw [hfill]
        exact Nat.not_lt_zero _
      rw [if_neg hwidth, hfill, hpadded, hrepl]
      have hfield : Formats characters.decimal maxsize value _ _ := formats_field (isName_allowed hkey)
      rwa [field_allowed hkey] at hfield
    · have halign : (if minus ≠ [] then '>' else '<') = '<' ∨ (if minus ≠ [] then '>' else '<') = '>' := by
        split_ifs
        · exact .inr rfl
        · exact .inl rfl
      have hspec : ∀ c ∈ (if minus ≠ [] then '>' else '<') :: digits, c ∉ ['{', '}'] := by
        refine List.forall_mem_cons.mpr ⟨?_, fun c hc hmem => ?_⟩
        · split_ifs <;> decide
        · simp only [List.mem_cons, List.not_mem_nil, or_false] at hmem
          rcases hmem with rfl | rfl
          · exact hparts.notMem_digits (by decide) rfl hc
          · exact hparts.notMem_digits (by decide) rfl hc
      have hfield : Formats characters.decimal maxsize value _ _ := formats_field_spec (isName_allowed hkey) hspec
      rw [field_allowed hkey, formatSpec_digits halign hparts.digits] at hfield
      rw [fmtRepl_of_fill hparts hkey hfill, Characters.padded, Characters.width, fillParts_eq hparts]
      simpa using hfield
  · have hshown : characters.shown value m = m.group := if_neg hkey
    have hwide : ¬characters.TooWide maxsize m := fun h => hkey h.1
    rw [if_neg hwide, hshown, Characters.fmtRepl, if_pos (by simp [hkey]), brackets_eq_escape]
    exact formats_escape m.group

theorem formats_items {items : List (List Char × Match)} (hitems : characters.AllParts items) (tail : List Char) :
    Formats characters.decimal maxsize value (items.flatMap (fun item => brackets item.1 ++ characters.fmtRepl item.2) ++ brackets tail)
      (if ∀ item ∈ items, ¬characters.TooWide maxsize item.2 then some (characters.render value (items, tail)) else none) := by
  induction items with
  | nil =>
      rw [if_pos fun item hitem => absurd hitem List.not_mem_nil, brackets_eq_escape]
      exact formats_escape tail
  | cons item items ih =>
      obtain ⟨⟨_, _, hparts⟩, hrest⟩ := List.forall_mem_cons.mp hitems
      have hliteral : Formats characters.decimal maxsize value _ _ := formats_escape item.1
      rw [← brackets_eq_escape] at hliteral
      have hall := (hliteral.append (formats_fmtRepl hparts)).append (ih hrest)
      rw [List.flatMap_cons, List.append_assoc]
      convert hall using 1
      simp only [List.forall_mem_cons]
      by_cases hwide : characters.TooWide maxsize item.2
      · rw [if_neg (fun h => h.1 hwide), if_pos hwide]
        rfl
      · by_cases hothers : ∀ item ∈ items, ¬characters.TooWide maxsize item.2
        · rw [if_pos ⟨hwide, hothers⟩, if_neg hwide, if_pos hothers]
          simp [Characters.render]
        · rw [if_neg (fun h => hothers h.2), if_neg hwide, if_neg hothers]
          rfl

theorem formatPackage_eq (queryformat : List Char) :
    characters.formatPackage maxsize value queryformat =
      if ∀ item ∈ (characters.finditer [] 0 (mapOpts (expandEscapes queryformat))).1, ¬characters.TooWide maxsize item.2 then
        some (characters.render value (characters.finditer [] 0 (mapOpts (expandEscapes queryformat))))
      else none :=
  (formats_items (allParts_finditer [] 0 (mapOpts (expandEscapes queryformat))) _).format

end Python

/-! ### Counting dashes -/

section Dashes

variable {characters : Characters}

def dashes (text : List Char) : Nat := text.count '-'

@[simp] theorem dashes_append (text rest : List Char) : dashes (text ++ rest) = dashes text + dashes rest := List.count_append

theorem dashes_cons (c : Char) (text : List Char) : dashes (c :: text) = dashes [c] + dashes text := dashes_append [c] text

theorem dashes_eq_zero {text : List Char} (htext : '-' ∉ text) : dashes text = 0 := List.count_eq_zero_of_not_mem htext

/-- The dashes of a tag that are not printed for an empty value. -/
def Characters.weight (m : Match) : Nat := if isAllowed (characters.lower m.key) then dashes m.fill else 0

theorem dashes_group {m : Match} {minus digits : List Char} (hparts : m.Parts characters minus digits) : dashes m.group = dashes m.fill := by
  have hkey : dashes m.key = 0 := dashes_eq_zero (hparts.notMem_key (by decide) rfl)
  have hpercent : dashes ['%'] = 0 := rfl
  have hopen : dashes ['{'] = 0 := rfl
  have hclose : dashes ['}'] = 0 := rfl
  rw [Match.group, dashes_cons, dashes_append, dashes_cons '{', dashes_append, hkey, hpercent, hopen, hclose]
  omega

theorem dashes_pad {fill align : Char} (hfill : fill ≠ '-') (width : Nat) (text : List Char) : dashes (pad fill align width text) = dashes text := by
  have hzero (n : Nat) : dashes (List.replicate n fill) = 0 := dashes_eq_zero fun hmem => hfill (List.eq_of_mem_replicate hmem).symm
  simp only [pad]
  split_ifs <;> simp only [dashes_append, hzero] <;> omega

/-- An allowed tag with an empty value has no dash. -/
theorem dashes_shown {m : Match} {minus digits : List Char} (hparts : m.Parts characters minus digits) :
    dashes (characters.shown (fun _ => []) m) + characters.weight m = dashes m.group := by
  rw [dashes_group hparts]
  by_cases hkey : isAllowed (characters.lower m.key) = true
  · have hfill : (if (fillParts m.fill).2.head? = some '0' then '0' else ' ') ≠ '-' := by split_ifs <;> decide
    rw [Characters.shown, if_pos hkey, Characters.weight, if_pos hkey, Characters.padded, dashes_pad hfill]
    exact Nat.zero_add _
  · rw [Characters.shown, if_neg hkey, Characters.weight, if_neg hkey, dashes_group hparts]
    exact Nat.add_zero _

def Characters.weightAt (text : List Char) : Nat := ((characters.matchTag text).map characters.weight).getD 0

/-- The dashes of all tags of a text, wherever they begin. -/
def Characters.totalWeight : List Char → Nat
  | [] => 0
  | c :: rest => characters.weightAt (c :: rest) + Characters.totalWeight rest

theorem weightAt_of_ne {c : Char} (hc : c ≠ '%') (rest : List Char) : characters.weightAt (c :: rest) = 0 := by
  have hnone : characters.matchTag (c :: rest) = none := by
    unfold Characters.matchTag
    split
    · rename_i heq
      exact absurd (List.cons.inj heq).1 hc
    · rename_i heq
      exact absurd (List.cons.inj heq).1 hc
    · rfl
  rw [Characters.weightAt, hnone]
  rfl

theorem totalWeight_append {text : List Char} (htext : '%' ∉ text) (rest : List Char) : characters.totalWeight (text ++ rest) = characters.totalWeight rest := by
  induction text with
  | nil => rfl
  | cons c text ih =>
      obtain ⟨hc, htext⟩ := not_or.mp (List.mem_cons.not.mp htext)
      rw [List.cons_append, Characters.totalWeight, weightAt_of_ne (Ne.symm hc), ih htext, Nat.zero_add]

theorem percent_tail_group {m : Match} {minus digits : List Char} (hparts : m.Parts characters minus digits) : '%' ∉ m.group.tail := by
  have hdigits : '%' ∉ digits := hparts.notMem_digits (by decide) rfl
  have hkey : '%' ∉ m.key := hparts.notMem_key (by decide) rfl
  have hminus : '%' ∉ minus := by
    rcases hparts.minus with rfl | rfl <;> decide
  rw [Match.group, List.tail_cons, hparts.fill]
  simp only [List.mem_append, List.mem_cons, List.not_mem_nil, or_false, not_or]
  exact ⟨⟨hminus, hdigits⟩, by decide, hkey, by decide⟩

/-- What a search finds with empty values, and the dashes of its tags, are the dashes of the text. -/
theorem dashes_render (spos : List Char) (skip : Nat) (text : List Char) :
    dashes (characters.render (fun _ => []) (characters.finditer spos skip text)) + characters.totalWeight (text.drop skip) =
      dashes spos + dashes (text.drop skip) := by
  induction text generalizing spos skip with
  | nil =>
      rw [finditer_nil, List.drop_nil]
      rfl
  | cons c rest ih =>
      cases skip with
      | succ skip => exact ih spos skip
      | zero =>
          rw [List.drop_zero]
          cases hm : characters.matchTag (c :: rest) with
          | none =>
              have hrest := ih (spos ++ [c]) 0
              have hweight : characters.weightAt (c :: rest) = 0 := by
                rw [Characters.weightAt, hm]
                rfl
              rw [List.drop_zero, dashes_append] at hrest
              rw [finditer_none hm, Characters.totalWeight, hweight, dashes_cons c rest]
              omega
          | some m =>
              obtain ⟨⟨_, _, hparts⟩, rest', htext⟩ := matchTag_eq_some hm
              have hgroup : m.group = c :: m.group.tail := by
                rw [Match.group] at htext ⊢
                rw [(List.cons.inj htext).1]
                rfl
              have hrest : rest = m.group.tail ++ rest' := by
                rw [hgroup] at htext
                exact (List.cons.inj htext).2
              have hdrop : rest.drop (m.group.length - 1) = rest' := by
                rw [hrest, ← List.length_tail, List.drop_left]
              have hweight : characters.weightAt (c :: rest) = characters.weight m := by
                rw [Characters.weightAt, hm]
                rfl
              have hfound := ih [] (m.group.length - 1)
              have htotal : characters.totalWeight rest = characters.totalWeight rest' := by
                rw [hrest, totalWeight_append (percent_tail_group hparts)]
              have hrender (found : List (List Char × Match) × List Char) :
                  characters.render (fun _ => []) ((spos, m) :: found.1, found.2) =
                    spos ++ (characters.shown (fun _ => []) m ++ characters.render (fun _ => []) found) := by
                simp [Characters.render]
              rw [hdrop] at hfound
              rw [finditer_some hm, hrender, Characters.totalWeight, hweight, htotal, htext, dashes_append, dashes_append, dashes_append,
                ← dashes_shown hparts]
              have hnil : dashes [] = 0 := rfl
              omega

/-- Some dashes are changed to underscores, none of them behind a percent sign. -/
inductive Dashed : Char → List Char → List Char → Prop
  | nil {previous} : Dashed previous [] []
  | same {previous c text changed} (h : Dashed c text changed) : Dashed previous (c :: text) (c :: changed)
  | dash {previous text changed} (hprevious : previous ≠ '%') (h : Dashed '_' text changed) : Dashed previous ('-' :: text) ('_' :: changed)

theorem Dashed.append {previous : Char} {part rest changed : List Char} (h : Dashed previous (part ++ rest) changed) (hpart : '-' ∉ part) :
    ∃ last rest', changed = part ++ rest' ∧ Dashed last rest rest' := by
  induction part generalizing previous changed with
  | nil => exact ⟨previous, changed, rfl, h⟩
  | cons c part ih =>
      obtain ⟨hc, hpart⟩ := not_or.mp (List.mem_cons.not.mp hpart)
      cases h with
      | same h =>
          obtain ⟨last, rest', rfl, hrest⟩ := ih h hpart
          exact ⟨last, rest', rfl, hrest⟩
      | dash => exact absurd rfl hc

/-- A tag is still there. -/
theorem Dashed.group {previous : Char} {m : Match} {minus digits rest changed : List Char} (hparts : m.Parts characters minus digits)
    (h : Dashed previous (m.group ++ rest) changed) : ∃ rest', changed = m.group ++ rest' := by
  have hdigits : '-' ∉ digits := hparts.notMem_digits (by decide) rfl
  have hkey : '-' ∉ m.key := hparts.notMem_key (by decide) rfl
  have hbehind : '-' ∉ digits ++ '{' :: (m.key ++ ['}']) := by
    simp only [List.mem_append, List.mem_cons, List.not_mem_nil, or_false, not_or]
    exact ⟨hdigits, by decide, hkey, by decide⟩
  have hgroup : m.group = '%' :: (minus ++ (digits ++ '{' :: (m.key ++ ['}']))) := by rw [Match.group, hparts.fill, List.append_assoc]
  rw [hgroup] at h ⊢
  cases h with
  | same h =>
      rcases hparts.minus with rfl | rfl
      · obtain ⟨_, rest', rfl, _⟩ := h.append hbehind
        exact ⟨rest', rfl⟩
      · cases h with
        | same h =>
            obtain ⟨_, rest', rfl, _⟩ := h.append hbehind
            exact ⟨rest', rfl⟩
        | dash hprevious => exact absurd rfl hprevious

theorem totalWeight_le {previous : Char} {text changed : List Char} (h : Dashed previous text changed) :
    characters.totalWeight text ≤ characters.totalWeight changed := by
  induction h with
  | nil => exact Nat.le_refl _
  | @same previous c text changed h ih =>
      refine Nat.add_le_add ?_ ih
      cases hm : characters.matchTag (c :: text) with
      | none =>
          rw [Characters.weightAt, hm]
          exact Nat.zero_le _
      | some m =>
          obtain ⟨⟨_, _, hparts⟩, rest, hrest⟩ := matchTag_eq_some hm
          have hdashed : Dashed previous (m.group ++ rest) (c :: changed) := hrest ▸ .same h
          obtain ⟨rest', hrest'⟩ := hdashed.group hparts
          rw [Characters.weightAt, Characters.weightAt, hm, hrest', matchTag_append hparts]
  | dash _ _ ih =>
      rw [Characters.totalWeight, Characters.totalWeight, weightAt_of_ne (by decide), Nat.zero_add]
      exact ih.trans (Nat.le_add_left _ _)

/-- The name of the option that `rpm2py_format` changes. -/
def requiresPre : List Char := "requires-pre".toList

def mapped (text : List Char) : List Char := replace requiresPre "requires_pre".toList text

theorem dashed_mapped (text : List Char) : ∀ previous, Dashed previous text (mapped text) := by
  refine replace_cases (P := fun text changed => ∀ previous, Dashed previous text changed) (by decide) (fun _ => .nil) (fun rest ih previous => ?_)
    (fun c rest _ ih previous => .same (ih c)) text
  have hbehind : Dashed 's' ('-' :: 'p' :: 'r' :: 'e' :: rest) ('_' :: 'p' :: 'r' :: 'e' :: replace requiresPre "requires_pre".toList rest) :=
    .dash (by decide) (.same (.same (.same (ih 'e'))))
  exact .same (.same (.same (.same (.same (.same (.same (.same hbehind)))))))

theorem dashes_mapped (text : List Char) : dashes (mapped text) ≤ dashes text ∧ (requiresPre <:+: text → dashes (mapped text) < dashes text) := by
  refine replace_cases (P := fun text changed => dashes changed ≤ dashes text ∧ (requiresPre <:+: text → dashes changed < dashes text)) (by decide)
    ⟨Nat.le_refl _, fun h => absurd (List.infix_nil.mp h) (by decide)⟩ (fun rest ih => ?_) (fun c rest hfront ih => ?_) text
  · have hold : dashes requiresPre = 1 := by decide
    have hnew : dashes "requires_pre".toList = 0 := by decide
    rw [dashes_append, dashes_append, hold, hnew]
    omega
  · rw [dashes_cons c rest, dashes_cons c]
    refine ⟨Nat.add_le_add_left ih.1 _, fun h => Nat.add_lt_add_left (ih.2 ?_) _⟩
    exact (List.infix_cons_iff.mp h).resolve_left hfront

/-- With empty values the changed text gives fewer dashes than it should. -/
theorem render_mapped_ne {text : List Char} (hinside : requiresPre <:+: text) :
    characters.render (fun _ => []) (characters.finditer [] 0 (mapped text)) ≠ characters.render (fun _ => []) (characters.finditer [] 0 text) := by
  intro heq
  have hchanged := @dashes_render characters [] 0 (mapped text)
  have htext := @dashes_render characters [] 0 text
  have hweight : characters.totalWeight text ≤ characters.totalWeight (mapped text) := totalWeight_le (dashed_mapped text 'x')
  have hless := (dashes_mapped text).2 hinside
  rw [List.drop_zero, heq] at hchanged
  rw [List.drop_zero] at htext
  omega

end Dashes

section Kept

variable {characters : Characters} {maxsize : Nat} {queryformat : List Char}

theorem formatPackage_expand (value : List Char → List Char) :
    characters.formatPackage maxsize value queryformat =
      if ∀ item ∈ (characters.finditer [] 0 (mapped (expand queryformat))).1, ¬characters.TooWide maxsize item.2 then
        some (characters.render value (characters.finditer [] 0 (mapped (expand queryformat))))
      else none := by
  have hmapped : mapOpts (expandEscapes queryformat) = mapped (expand queryformat) := by
    rw [mapOpts_eq, expandEscapes_eq]
    rfl
  rw [formatPackage_eq, hmapped]

theorem keepsFormat_iff_expand :
    characters.KeepsFormat maxsize queryformat ↔
      ¬requiresPre <:+: expand queryformat ∧ ∀ item ∈ (characters.finditer [] 0 (expand queryformat)).1, ¬characters.TooWide maxsize item.2 := by
  constructor
  · intro hkeeps
    have hempty := hkeeps fun _ => []
    rw [formatPackage_expand] at hempty
    split_ifs at hempty with hwide
    have hinside : ¬requiresPre <:+: expand queryformat := fun h => render_mapped_ne h (Option.some.inj hempty)
    have hmapped : mapped (expand queryformat) = expand queryformat := replace_of_not_inside hinside
    exact ⟨hinside, hmapped ▸ hwide⟩
  · intro ⟨hinside, hwide⟩ value
    have hmapped : mapped (expand queryformat) = expand queryformat := replace_of_not_inside hinside
    rw [formatPackage_expand, hmapped, if_pos hwide]
    rfl

/-- A query format is reproduced for every package exactly when its text does not have `requires-pre` and no allowed tag is wider than Python takes. -/
theorem keepsFormat_iff (characters : Characters) (maxsize : Nat) (queryformat : List Char) :
    characters.KeepsFormat maxsize queryformat ↔
      ¬requiresPre <:+: expand queryformat ∧ ∀ item ∈ (characters.finditer [] 0 (expand queryformat)).1,
        characters.lower item.2.key ∈ allowedQueryTags → characters.width item.2.fill ≤ maxsize := by
  rw [keepsFormat_iff_expand]
  simp only [Characters.TooWide, isAllowed, List.contains_iff_mem, not_and, Nat.not_lt]

/-- Python's characters, without those that are not ASCII. -/
def asciiCharacters : Characters where
  decimal c := if c.isDigit then some (c.toNat - 48) else none
  isWord c := c.isAlphanum || c == '_'
  lower := List.map Char.toLower
  decimal_ascii _ _ := rfl
  isWord_ascii _ _ := rfl

/-- The format `requires-pre: %{name}` is printed with an underscore. -/
theorem not_keepsFormat_requiresPre : ¬asciiCharacters.KeepsFormat 9223372036854775807 "requires-pre: %{name}".toList := by
  rw [keepsFormat_iff_expand]
  exact fun h => h.1 ⟨[], ": %{name}".toList, by decide⟩

end Kept

end Dnf.Repoquery
