import Dnf.Gpg.Armor

/-!
# The key that is checked and the key that is imported

`procgpgkey` finds the data of every armored block. The other two readers count lines from the markers and from the end of the text, so they find the same data in some blocks only: those of `ArmoredBlock.Regular`, and no others.
-/

namespace Dnf.Gpg

open Foundation

/-! ### `_query_db_for_gpg_keys` -/

/-- A line that ends the headers of a description. -/
def isSpaceLine (line : Line) : Bool := (PyStr.ofChars line).all PyStr.isSpace

/-- The lines after the first blank one. -/
def afterBlank (lines : List Line) : List Line := (lines.dropWhile (!isSpaceLine ·)).tail

/-- The lines of a description that are taken for its key. -/
def descriptionBody (lines : List Line) : List Line := afterBlank (lines.take (lines.length - 3))

theorem keyLines_false (lines : List PyStr) : Dnssec.keyLines false lines = lines := by
  induction lines with
  | nil => rfl
  | cons line lines ih => rw [Dnssec.keyLines, if_neg (by decide), ih]

theorem keyLines_ofChars (lines : List Line) :
    Dnssec.keyLines true (lines.map PyStr.ofChars) = (afterBlank lines).map PyStr.ofChars := by
  induction lines with
  | nil => rfl
  | cons line lines ih =>
      rw [List.map_cons, Dnssec.keyLines, if_pos rfl, afterBlank, List.dropWhile_cons, ← isSpaceLine]
      by_cases hspace : isSpaceLine line = true
      · rw [if_pos hspace, keyLines_false, hspace]
        rfl
      · rw [if_neg hspace, ih, if_pos (by simp [hspace])]
        rfl

theorem keyStr_ofChars (text : List Char) :
    Dnssec.keyStr (PyStr.ofChars text) = PyStr.ofChars (descriptionBody (text.splitOn '\n')).flatten := by
  simp only [Dnssec.keyStr, PyStr.splitOn_ofChars, List.length_map, ← List.map_take, keyLines_ofChars]
  rw [PyStr.ofChars, List.map_flatten]
  rfl

theorem afterBlank_take {front : List Line} (hfront : ∀ line ∈ front, isSpaceLine line = false) {blank : Line}
    (hblank : isSpaceLine blank = true) (rest : List Line) (n : Nat) :
    afterBlank ((front ++ blank :: rest).take n) = rest.take (n - (front.length + 1)) := by
  induction front generalizing n with
  | nil =>
      cases n with
      | zero => rfl
      | succ n =>
          rw [List.nil_append, List.take_succ_cons, afterBlank, List.dropWhile_cons, hblank]
          rfl
  | cons line front ih =>
      cases n with
      | zero =>
          rw [Nat.zero_sub]
          rfl
      | succ n =>
          have hline := hfront line (List.mem_cons_self ..)
          have hrest := ih (fun other hother => hfront other (List.mem_cons_of_mem _ hother)) n
          rw [List.cons_append, List.take_succ_cons, List.length_cons, Nat.add_sub_add_right, ← hrest, afterBlank,
            List.dropWhile_cons, hline]
          rfl

/-! ### What is asked of the readers -/

/-- The key text of `from_rpm_key_object` decodes to `binary`, and the description gives the same text. `decode` is how the rpm library reads the bytes of a tag. -/
def SameKey (decode : List Char → PyStr) (userid : List Char) (packager : PyStr) (text binary : List Char) : Prop :=
  ∃ info, KeyInfo.fromRpmKeyObject userid text = .ok info ∧ Base64.decode info.key = some binary ∧
    ∃ email, Dnssec.keyOfHeader ⟨some packager, some (decode text)⟩ = .ok (some ⟨email, some info.key⟩)

def Ascii (text : List Char) : Prop := ∀ c ∈ text, c.toNat < 128

theorem fromRpmKeyObject_eq_ok_iff {userid text : List Char} {email : List Char} (hemail : searchEmail userid = some email)
    (info : KeyInfo) : KeyInfo.fromRpmKeyObject userid text = .ok info ↔
      Ascii text ∧ info = ⟨email, (armorBody (text.splitOn '\n')).flatten⟩ := by
  rw [KeyInfo.fromRpmKeyObject, hemail]
  by_cases hascii : text.all (·.toNat < 128) = true
  · have hascii' : Ascii text := fun c hc => of_decide_eq_true (List.all_eq_true.mp hascii c hc)
    simp only [if_pos hascii, Except.ok.injEq]
    exact ⟨fun h => ⟨hascii', h.symm⟩, fun h => h.2.symm⟩
  · simp only [if_neg hascii]
    constructor
    · intro h
      cases h
    · rintro ⟨h, -⟩
      exact absurd (List.all_eq_true.mpr fun c hc => decide_eq_true (h c hc)) hascii

theorem ascii_descriptionBody {text : List Char} (h : Ascii text) : Ascii (descriptionBody (text.splitOn '\n')).flatten := by
  intro c hc
  obtain ⟨line, hline, hmem⟩ := List.mem_flatten.mp hc
  have hsub : line ∈ text.splitOn '\n' :=
    List.mem_of_mem_take ((List.dropWhile_suffix _).subset (List.mem_of_mem_tail hline))
  exact h c (mem_of_mem_splitOn hsub hmem)

/-- On a text that can be read at all, both key texts are slices of its lines. -/
theorem sameKey_iff_slices {decode : List Char → PyStr} (hdecode : ∀ text, Ascii text → decode text = PyStr.ofChars text)
    {userid : List Char} (huserid : (searchEmail userid).isSome = true) {packager : PyStr}
    (hpackager : (Dnssec.searchEmail packager).isSome = true) (text binary : List Char) :
    SameKey decode userid packager text binary ↔
      Ascii text ∧ Base64.decode (armorBody (text.splitOn '\n')).flatten = some binary ∧
        (descriptionBody (text.splitOn '\n')).flatten = (armorBody (text.splitOn '\n')).flatten := by
  obtain ⟨email, hemail⟩ := Option.isSome_iff_exists.mp huserid
  obtain ⟨address, haddress⟩ := Option.isSome_iff_exists.mp hpackager
  have hheader : Ascii text → Dnssec.keyOfHeader ⟨some packager, some (decode text)⟩ =
      .ok (some ⟨some address, some (descriptionBody (text.splitOn '\n')).flatten⟩) := by
    intro hascii
    have hencode : PyStr.encodeAscii (Dnssec.keyStr (decode text)) = some (descriptionBody (text.splitOn '\n')).flatten := by
      rw [hdecode text hascii, keyStr_ofChars, PyStr.encodeAscii_ofChars, if_pos]
      exact List.all_eq_true.mpr fun c hc => decide_eq_true (ascii_descriptionBody hascii c hc)
    simp only [Dnssec.keyOfHeader, haddress, hencode]
  constructor
  · rintro ⟨info, hinfo, hbinary, other, hother⟩
    obtain ⟨hascii, rfl⟩ := (fromRpmKeyObject_eq_ok_iff hemail info).mp hinfo
    refine ⟨hascii, hbinary, ?_⟩
    rw [hheader hascii, Except.ok.injEq, Option.some.injEq, Dnssec.KeyInfo.mk.injEq, Option.some.injEq] at hother
    exact hother.2
  · rintro ⟨hascii, hbinary, hsame⟩
    exact ⟨_, (fromRpmKeyObject_eq_ok_iff hemail _).mpr ⟨hascii, rfl⟩, hbinary, some address, by rw [hheader hascii, hsame]⟩

/-! ### Plain line ends -/

namespace ArmoredBlock

variable (block : ArmoredBlock)

/-- The lines after the blank one, up to the end marker. -/
def inner : List Line := block.data ++ block.crcLines

theorem isSpaceLine_blank : isSpaceLine block.blank = true := by
  rw [isSpaceLine, PyStr.ofChars, List.all_map, List.all_eq_true]
  intro c hc
  have := block.hblank c hc
  simp only [isBlank, Bool.or_eq_true, beq_iff_eq, Bool.and_eq_true, decide_eq_true_eq] at this
  rcases this with rfl | ⟨hlow, hhigh⟩
  · decide
  · simp [PyStr.isSpace, hlow, hhigh]

theorem isSpaceLine_cons_of_isAlphabet {c : Char} (hc : Base64.isAlphabet c = true) (rest : Line) :
    isSpaceLine (c :: rest) = false := by
  have hspace : PyStr.isSpace c.toNat = false :=
    @Base64.forall_isAlphabet (fun c => PyStr.isSpace c.toNat = false) (by decide) c hc
  rw [isSpaceLine, PyStr.ofChars, List.map_cons, List.all_cons, hspace, Bool.false_and]

theorem isSpaceLine_header {line : Line} (h : IsHeader line) : isSpaceLine line = false := by
  obtain ⟨c, rest, rfl, hc⟩ := h.eq_cons
  exact isSpaceLine_cons_of_isAlphabet hc rest

theorem lines_eq : block.lines =
    (block.before ++ beginMarker :: block.headers) ++ block.blank :: (block.inner ++ endMarker :: block.after) := by
  simp only [lines, body, inner, List.append_assoc, List.cons_append]

/-- Without a blank line in the text before, the description is read from the data on. -/
theorem descriptionBody_lines (hbefore : ∀ line ∈ block.before, isSpaceLine line = false) :
    descriptionBody block.lines =
      (block.inner ++ endMarker :: block.after).take ((block.inner ++ endMarker :: block.after).length - 3) := by
  have hfront : ∀ line ∈ block.before ++ beginMarker :: block.headers, isSpaceLine line = false := by
    intro line hline
    rcases List.mem_append.mp hline with hmem | hmem
    · exact hbefore line hmem
    rcases List.mem_cons.mp hmem with rfl | hmem
    · decide
    · exact isSpaceLine_header (block.hheaders line hmem)
  have hlength : ((block.before ++ beginMarker :: block.headers) ++ block.blank :: (block.inner ++ endMarker :: block.after)).length =
      (block.before ++ beginMarker :: block.headers).length + ((block.inner ++ endMarker :: block.after).length + 1) :=
    List.length_append
  rw [descriptionBody, lines_eq, afterBlank_take hfront block.isSpaceLine_blank, hlength]
  congr 1
  omega

theorem isSeen_of_mem_inner {line : Line} (hline : line ∈ block.inner) : ∀ c ∈ line, Base64.isSeen c = true := by
  rcases List.mem_append.mp hline with hdata | hcrc
  · exact block.isSeen_of_mem_data hdata
  · exact block.isSeen_of_mem_crcLines hcrc

/-! Dashes: none between the blank line and the end marker. -/

theorem count_dash_eq_zero {lines : List Line} (h : ∀ line ∈ lines, '-' ∉ line) : lines.flatten.count '-' = 0 := by
  rw [List.count_eq_zero]
  intro hmem
  obtain ⟨line, hline, hdash⟩ := List.mem_flatten.mp hmem
  exact h line hline hdash

theorem dash_not_mem {line : Line} (hline : line ∈ block.blank :: block.inner) : '-' ∉ line := by
  intro hdash
  rcases List.mem_cons.mp hline with rfl | hinner
  · cases block.hblank _ hdash
  · cases block.isSeen_of_mem_inner hinner _ hdash

theorem length_inner_pos : 0 < block.inner.length := by
  have := List.length_pos_iff.mpr block.data_ne_nil
  rw [inner, List.length_append]
  omega

/-! The slice of `from_rpm_key_object`, by the number of headers. -/

theorem inner_ne_nil : block.inner ≠ [] := List.length_pos_iff.mp block.length_inner_pos

theorem armorBody_no_header (h : block.headers = []) : armorBody block.lines = block.inner.dropLast := by
  rw [armorBody_lines, body, h, List.nil_append, ← inner, List.dropLast_cons_of_ne_nil block.inner_ne_nil, List.tail_cons]

theorem armorBody_header {first : Line} {headers : List Line} (h : block.headers = first :: headers) :
    armorBody block.lines = headers ++ block.blank :: block.inner.dropLast := by
  rw [armorBody_lines, body, h, ← inner, List.dropLast_append_of_ne_nil (List.cons_ne_nil _ _),
    List.dropLast_cons_of_ne_nil block.inner_ne_nil, List.cons_append, List.tail_cons]

theorem dropLast_inner_crc {crc : Line} (h : block.crc = some crc) : block.inner.dropLast = block.data := by
  rw [inner, crcLines, h]
  exact List.dropLast_concat

theorem dropLast_inner_no_crc (h : block.crc = none) : block.inner.dropLast = block.full := by
  rw [inner, crcLines, h, data]
  exact (congrArg List.dropLast (List.append_nil _)).trans List.dropLast_concat

theorem count_dash_armorBody :
    (armorBody block.lines).flatten.count '-' ≤ block.headers.flatten.count '-' := by
  have hinner : block.inner.dropLast.flatten.count '-' = 0 := count_dash_eq_zero fun line hline =>
    block.dash_not_mem (List.mem_cons_of_mem _ (List.mem_of_mem_dropLast hline))
  have hblank : block.blank.count '-' = 0 := List.count_eq_zero.mpr (block.dash_not_mem (List.mem_cons_self ..))
  cases hheaders : block.headers with
  | nil =>
      rw [block.armorBody_no_header hheaders, hinner]
      exact Nat.zero_le _
  | cons first headers =>
      rw [block.armorBody_header hheaders]
      simp only [List.flatten_append, List.flatten_cons, List.count_append]
      omega

/-- A blank line in the text before puts the begin marker into the key of the description. -/
theorem descriptionBody_ne_of_blank_before {line : Line} (hline : line ∈ block.before) (hspace : isSpaceLine line = true) :
    (descriptionBody block.lines).flatten ≠ (armorBody block.lines).flatten := by
  obtain ⟨blank, hfind⟩ := Option.isSome_iff_exists.mp (List.find?_isSome.mpr ⟨line, hline, hspace⟩)
  obtain ⟨hblank, front, rest, hsplit, hfront⟩ := List.find?_eq_some_iff_append.mp hfind
  have hfront' : ∀ other ∈ front, isSpaceLine other = false := fun other hother => by simpa using hfront other hother
  -- what follows that line: the lines up to the headers, then at least three more
  have hlines : block.lines = front ++ blank :: ((rest ++ beginMarker :: block.headers) ++
      (block.blank :: (block.inner ++ endMarker :: block.after))) := by
    rw [lines_eq, hsplit]
    simp only [List.append_assoc, List.cons_append]
  have hbody : descriptionBody block.lines = (rest ++ beginMarker :: block.headers) ++
      (block.blank :: (block.inner ++ endMarker :: block.after)).take (block.inner.length + block.after.length - 1) := by
    have hpos := block.length_inner_pos
    rw [descriptionBody, hlines, afterBlank_take hfront' hblank, List.take_append, List.take_of_length_le]
    · congr 2
      simp only [List.length_append, List.length_cons]
      omega
    · simp only [List.length_append, List.length_cons]
      omega
  intro heq
  have hcount := congrArg (List.count '-') heq
  have hbegin : beginMarker.count '-' = 10 := by decide
  have hslice := block.count_dash_armorBody
  rw [hbody] at hcount
  simp only [List.flatten_append, List.flatten_cons, List.count_append, hbegin] at hcount
  omega

/-- With a second header the slice starts with the name of a header; no key of a description does. -/
theorem descriptionBody_ne_of_headers (hbefore : ∀ line ∈ block.before, isSpaceLine line = false) {first second : Line}
    {headers : List Line} (h : block.headers = first :: second :: headers) :
    (descriptionBody block.lines).flatten ≠ (armorBody block.lines).flatten := by
  obtain ⟨key, value, hsecond, -, hkey⟩ := block.hheaders second (by simp [h])
  rw [block.armorBody_header h, block.descriptionBody_lines hbefore, List.take_append, List.flatten_append, List.cons_append,
    List.flatten_cons, hsecond]
  generalize (block.inner ++ endMarker :: block.after).length - 3 = n
  intro heq
  have hfront : ':' ∉ (block.inner.take n).flatten := by
    intro hmem
    obtain ⟨line, hline, hcolon⟩ := List.mem_flatten.mp hmem
    cases block.isSeen_of_mem_inner (List.mem_of_mem_take hline) _ hcolon
  -- what follows the data there starts with a dash
  have hback : ∀ c rest, ((endMarker :: block.after).take (n - block.inner.length)).flatten = c :: rest → c = '-' := by
    intro c rest hback
    cases hm : n - block.inner.length with
    | zero =>
        rw [hm] at hback
        cases hback
    | succ m =>
        rw [hm, List.take_succ_cons, List.flatten_cons] at hback
        exact (Option.some.inj (congrArg List.head? hback)).symm
  rw [List.append_assoc, List.append_eq_append_iff] at heq
  rcases heq with ⟨more, hkeyEq, hrest⟩ | ⟨more, hfrontEq, hrest⟩
  · cases more with
    | nil => cases hback _ _ hrest
    | cons c more =>
        have := hkey c (hkeyEq ▸ List.mem_append_right _ (List.mem_cons_self ..))
        rw [hback _ _ hrest] at this
        cases this
  · cases more with
    | nil => cases hback _ _ hrest.symm
    | cons c more =>
        have hcolon := (List.cons.inj hrest).1
        exact hfront (hfrontEq ▸ List.mem_append_right _ (hcolon ▸ List.mem_cons_self ..))

theorem data_eq_cons : ∃ c rest lines, block.data = (c :: rest) :: lines ∧ Base64.isAlphabet c = true := by
  cases hdata : block.data with
  | nil => exact absurd hdata block.data_ne_nil
  | cons line lines =>
      obtain ⟨c, rest, rfl, hc⟩ := block.eq_cons_of_mem_data (hdata ▸ List.mem_cons_self ..)
      exact ⟨c, rest, lines, rfl, hc⟩

/-- With one header the slice starts with the blank line, which has to be empty. -/
theorem descriptionBody_ne_of_blank (hbefore : ∀ line ∈ block.before, isSpaceLine line = false) {first : Line}
    (h : block.headers = [first]) (hblank : block.blank ≠ []) :
    (descriptionBody block.lines).flatten ≠ (armorBody block.lines).flatten := by
  obtain ⟨c, rest, lines, hdata, hc⟩ := block.data_eq_cons
  rw [block.armorBody_header h, block.descriptionBody_lines hbefore, List.nil_append, List.flatten_cons, inner, hdata]
  generalize (((c :: rest) :: lines ++ block.crcLines) ++ endMarker :: block.after).length - 3 = n
  intro heq
  cases hb : block.blank with
  | nil => exact hblank hb
  | cons d tail =>
      have hd := block.hblank d (hb ▸ List.mem_cons_self ..)
      rw [hb] at heq
      cases n with
      | zero => cases heq
      | succ n =>
          rw [List.cons_append, List.cons_append, List.take_succ_cons, List.flatten_cons] at heq
          have hcd : c = d := Option.some.inj (congrArg List.head? heq)
          rw [← hcd, isBlank_of_isAlphabet hc] at hd
          cases hd

theorem flatten_data : block.data.flatten = (block.full.flatten ++ block.last) ++ List.replicate block.pads '=' := by
  rw [data, List.flatten_append, List.flatten_singleton, List.append_assoc]

theorem isAlphabet_of_mem_full {c : Char} (hc : c ∈ block.full.flatten) : Base64.isAlphabet c = true := by
  obtain ⟨line, hline, hmem⟩ := List.mem_flatten.mp hc
  exact (block.hfull line hline).2 c hmem

/-- A proper part of the data decodes to something else. -/
theorem decode_ne_of_length_lt {binary part : List Char} (hbinary : Base64.decode block.data.flatten = some binary)
    (hpart : ∀ c ∈ part, Base64.isAlphabet c = true) (hlt : part.length < (block.full.flatten ++ block.last).length) :
    Base64.decode part ≠ some binary := by
  rw [flatten_data] at hbinary
  refine Base64.decode_ne_of_lt (fun c hc => ?_) hpart hlt hbinary
  rcases List.mem_append.mp hc with hfull | hlast
  · exact block.isAlphabet_of_mem_full hfull
  · exact block.hlast.2 c hlast

theorem length_last_pos : 0 < block.last.length := List.length_pos_iff.mpr block.hlast.1

/-- With a checksum the description gives the data exactly when one piece follows the block. -/
theorem descriptionBody_eq_data_iff (hbefore : ∀ line ∈ block.before, isSpaceLine line = false) {crc : Line}
    (hcrc : block.crc = some crc) :
    (descriptionBody block.lines).flatten = block.data.flatten ↔ block.after.length = 1 := by
  have hlines : block.inner ++ endMarker :: block.after = block.data ++ ('=' :: crc) :: endMarker :: block.after := by
    rw [inner, crcLines, hcrc, List.append_assoc]
    rfl
  have hpos := List.length_pos_iff.mpr block.data_ne_nil
  rw [block.descriptionBody_lines hbefore, hlines, List.length_append, List.length_cons, List.length_cons]
  have hlast := block.length_last_pos
  rcases Nat.lt_trichotomy block.after.length 1 with hnone | hone | hmore
  · refine iff_of_false (fun heq => ?_) (by omega)
    rw [List.take_append_of_le_length (by omega), show block.data.length + (block.after.length + 1 + 1) - 3 = block.data.length - 1 by omega,
      ← List.dropLast_eq_take, data, List.dropLast_concat, ← data, flatten_data] at heq
    have := congrArg List.length heq
    simp only [List.length_append] at this
    omega
  · refine iff_of_true ?_ hone
    rw [List.take_append_of_le_length (by omega), List.take_of_length_le (by omega)]
  · refine iff_of_false (fun heq => ?_) (by omega)
    rw [List.take_append, List.take_of_length_le (by omega),
      show block.data.length + (block.after.length + 1 + 1) - 3 - block.data.length = (block.after.length - 2) + 1 by omega,
      List.take_succ_cons, List.flatten_append, List.flatten_cons] at heq
    have := congrArg List.length heq
    simp only [List.length_append, List.length_cons] at this
    omega

end ArmoredBlock

/-! ### Carriage returns -/

def withReturn (line : Line) : Line := line ++ ['\r']

theorem withReturns_concat (lines : List Line) (final : Line) : withReturns (lines ++ [final]) = lines.map withReturn ++ [final] := by
  match lines with
  | [] => rfl
  | [line] => rfl
  | line :: next :: lines =>
      have := withReturns_concat (next :: lines) final
      rw [List.cons_append] at this
      rw [List.cons_append, List.cons_append, withReturns, this]
      rfl

theorem not_mem_map_withReturn {marker : Line} (hmarker : '\r' ∉ marker) (lines : List Line) : marker ∉ lines.map withReturn := by
  intro hmem
  obtain ⟨line, -, hline⟩ := List.mem_map.mp hmem
  exact hmarker (hline ▸ List.mem_append_right _ (List.mem_singleton_self _))

/-- Each line brings one carriage return. -/
theorem count_return {lines : List Line} (h : ∀ line ∈ lines, '\r' ∉ line) :
    (lines.map withReturn).flatten.count '\r' = lines.length := by
  induction lines with
  | nil => rfl
  | cons line lines ih =>
      have hline := List.count_eq_zero.mpr (h line (List.mem_cons_self ..))
      have hrest := ih fun other hother => h other (List.mem_cons_of_mem _ hother)
      rw [List.map_cons, List.flatten_cons, List.count_append, hrest, withReturn, List.count_append, hline, List.length_cons]
      have : List.count '\r' ['\r'] = 1 := by decide
      omega

/-- The lines of a description with carriage returns, without them. -/
def returnedBody (lines : List Line) : List Line :=
  ((lines.take (lines.length - 2)).dropWhile fun line => !isSpaceLine (withReturn line)).tail

theorem descriptionBody_withReturns (lines : List Line) (final : Line) :
    descriptionBody (lines.map withReturn ++ [final]) = (returnedBody lines).map withReturn := by
  have htake : (lines.map withReturn ++ [final]).take ((lines.map withReturn ++ [final]).length - 3) =
      (lines.take (lines.length - 2)).map withReturn := by
    rw [List.length_append, List.length_map, List.length_singleton, List.take_append_of_le_length (by rw [List.length_map]; omega),
      List.map_take]
    congr 1
  rw [descriptionBody, htake, afterBlank, List.dropWhile_map, returnedBody, List.map_tail]
  rfl

/-- The texts of two sets of returned lines are equal only if they are as many. -/
theorem length_eq_of_flatten_eq {left right : List Line} (hleft : ∀ line ∈ left, '\r' ∉ line) (hright : ∀ line ∈ right, '\r' ∉ line)
    (h : (left.map withReturn).flatten = (right.map withReturn).flatten) : left.length = right.length := by
  rw [← count_return hleft, ← count_return hright, h]

theorem mem_of_mem_returnedBody {lines : List Line} {line : Line} (h : line ∈ returnedBody lines) : line ∈ lines :=
  List.mem_of_mem_take ((List.dropWhile_suffix _).subset (List.mem_of_mem_tail h))

theorem length_returnedBody_le (lines : List Line) : (returnedBody lines).length ≤ lines.length - 3 := by
  have := (List.dropWhile_suffix (l := lines.take (lines.length - 2)) fun line => !isSpaceLine (withReturn line)).length_le
  rw [List.length_take] at this
  rw [returnedBody, List.length_tail]
  omega

/-- A line in front of a text that is also in the text with a line behind it has the dashes of that line, and so has the text. -/
theorem ne_beginMarker_of_shift {line back : Line} {lines : List Line} (hback : '-' ∉ back)
    (h : ((line :: lines).map withReturn).flatten = ((lines ++ [back]).map withReturn).flatten) : beginMarker ∉ line :: lines := by
  have hbegin : '-' ∈ beginMarker := by decide
  rw [List.map_cons, List.flatten_cons, List.map_append, List.flatten_append] at h
  have hcount := congrArg (List.count '-') h
  have hzero : ((([back] : List Line).map withReturn).flatten).count '-' = 0 := by
    rw [List.count_eq_zero]
    simp [withReturn, hback]
  rw [List.count_append, List.count_append, hzero, Nat.add_zero, Nat.add_eq_right, List.count_eq_zero] at hcount
  intro hmem
  rcases List.mem_cons.mp hmem with rfl | hmem
  · exact hcount (List.mem_append_left _ hbegin)
  · refine not_mem_of_append_eq_append h (by simp [withReturn]) hcount ?_
    exact List.mem_flatten.mpr ⟨_, List.mem_map_of_mem hmem, List.mem_append_left _ hbegin⟩

/-- One line further on, lines with the marker among them give another text. -/
theorem ne_of_shift {back : Line} (hback : '-' ∉ back) (before inside : List Line) :
    ((before ++ beginMarker :: inside).map withReturn).flatten ≠
      ((before ++ beginMarker :: (inside ++ [back])).tail.map withReturn).flatten := by
  intro heq
  cases before with
  | nil => exact ne_beginMarker_of_shift hback heq (List.mem_cons_self ..)
  | cons line before =>
      have hmove : (line :: before ++ beginMarker :: (inside ++ [back])).tail = (before ++ beginMarker :: inside) ++ [back] := by
        rw [List.cons_append, List.tail_cons, List.append_assoc, List.cons_append]
      rw [hmove] at heq
      exact ne_beginMarker_of_shift hback heq (by simp)

namespace ArmoredBlock

variable (block : ArmoredBlock)

theorem length_body : 2 ≤ block.body.length := by
  have := block.length_inner_pos
  rw [body, ← inner, List.length_append, List.length_cons]
  omega

/-- The last line of the body but one has no dash. -/
theorem body_eq_concat_concat : ∃ inside back last, block.body = inside ++ [back, last] ∧ '-' ∉ back := by
  have hne : block.blank :: block.inner.dropLast ≠ [] := List.cons_ne_nil _ _
  refine ⟨block.headers ++ (block.blank :: block.inner.dropLast).dropLast, (block.blank :: block.inner.dropLast).getLast hne,
    block.inner.getLast block.inner_ne_nil, ?_, ?_⟩
  · have hsplit : block.blank :: block.inner = (block.blank :: block.inner.dropLast).dropLast ++
        [(block.blank :: block.inner.dropLast).getLast hne, block.inner.getLast block.inner_ne_nil] := by
      rw [← List.singleton_append (l := [block.inner.getLast block.inner_ne_nil]), ← List.append_assoc,
        List.dropLast_concat_getLast, List.cons_append, List.dropLast_concat_getLast]
    rw [body, ← inner, hsplit, List.append_assoc]
  · refine block.dash_not_mem ?_
    rcases List.mem_cons.mp (List.getLast_mem hne) with hblank | hdata
    · exact List.mem_cons.mpr (Or.inl hblank)
    · exact List.mem_cons_of_mem _ (List.mem_of_mem_dropLast hdata)

/-- With carriage returns and a newline at the end neither marker is found. -/
theorem descriptionBody_ne_of_newline {ended : List Line} {final : Line} (hlines : block.lines = ended ++ [final])
    (hfinal : final ∈ block.after) :
    (descriptionBody (withReturns block.lines)).flatten ≠ (armorBody (withReturns block.lines)).flatten := by
  have hlength : 3 ≤ ended.length := by
    have := congrArg List.length hlines
    have hbody := block.length_body
    have hafter := List.length_pos_of_mem hfinal
    simp only [lines, List.length_append, List.length_cons, List.length_nil] at this
    omega
  have hreturn : ∀ line ∈ ended, '\r' ∉ line := fun line hline =>
    (block.ends_of_mem_lines (hlines ▸ List.mem_append_left _ hline)).2
  have hplain := ne_marker_of_isPlain (block.hafter final hfinal)
  have hmarker : ∀ marker : Line, '\r' ∉ marker → final ≠ marker → marker ∉ ended.map withReturn ++ [final] := by
    intro marker hmarker hne hmem
    rcases List.mem_append.mp hmem with hended | hlast
    · exact not_mem_map_withReturn hmarker ended hended
    · exact hne (List.mem_singleton.mp hlast).symm
  have harmor : armorBody (ended.map withReturn ++ [final]) = (ended.drop 2).map withReturn := by
    rw [armorBody_eq_drop, lastIndexOf_of_not_mem (hmarker beginMarker (by decide) hplain.1),
      lastIndexOf_of_not_mem (hmarker endMarker (by decide) hplain.2)]
    simp only [if_true, Nat.zero_add]
    rw [List.length_append, List.length_singleton, Nat.add_sub_cancel, List.take_left, List.map_drop]
  rw [hlines, withReturns_concat, descriptionBody_withReturns, harmor]
  intro heq
  have := length_eq_of_flatten_eq (fun line hline => hreturn line (mem_of_mem_returnedBody hline))
    (fun line hline => hreturn line (List.mem_of_mem_drop hline)) heq
  have hle := length_returnedBody_le ended
  rw [List.length_drop] at this
  omega

/-- With carriage returns and no newline at the end the end marker alone is found. -/
theorem armorBody_no_newline {ended : List Line} (hlines : block.lines = ended ++ [endMarker]) (hlength : 3 ≤ ended.length) :
    armorBody (withReturns block.lines) = (ended.dropLast.drop 2).map withReturn := by
  have hbegin : beginMarker ∉ ended.map withReturn ++ [endMarker] := by
    intro hmem
    rcases List.mem_append.mp hmem with hmap | hlast
    · exact not_mem_map_withReturn (by decide) ended hmap
    · exact absurd (List.mem_singleton.mp hlast) (by decide)
  rw [hlines, withReturns_concat, armorBody_eq_drop, lastIndexOf_of_not_mem hbegin, lastIndexOf_append_cons _ List.not_mem_nil,
    List.length_map, if_neg (by omega), List.take_append_of_le_length (by rw [List.length_map]; omega), Nat.zero_add,
    ← List.map_take, List.dropLast_eq_take, List.map_drop]

theorem descriptionBody_ne_of_no_newline {ended : List Line} (hended : ended = block.before ++ beginMarker :: block.body)
    (hlines : block.lines = ended ++ [endMarker]) (hlength : 4 ≤ ended.length) :
    (descriptionBody (withReturns block.lines)).flatten ≠ (armorBody (withReturns block.lines)).flatten := by
  obtain ⟨inside, back, last, hbody, hback⟩ := block.body_eq_concat_concat
  have hreturn : ∀ line ∈ ended, '\r' ∉ line := fun line hline =>
    (block.ends_of_mem_lines (hlines ▸ List.mem_append_left _ hline)).2
  rw [block.armorBody_no_newline hlines (by omega), hlines, withReturns_concat, descriptionBody_withReturns]
  intro heq
  have hcount := length_eq_of_flatten_eq (fun line hline => hreturn line (mem_of_mem_returnedBody hline))
    (fun line hline => hreturn line (List.mem_of_mem_dropLast (List.mem_of_mem_drop hline))) heq
  rw [List.length_drop, List.length_dropLast] at hcount
  -- so the first line of all is the blank one, and the block comes after it
  have hkept : (ended.take (ended.length - 2)).dropWhile (fun line => !isSpaceLine (withReturn line)) = ended.take (ended.length - 2) := by
    refine (List.dropWhile_suffix _).eq_of_length_le ?_
    rw [returnedBody, List.length_tail] at hcount
    rw [List.length_take]
    omega
  have htail : returnedBody ended = (ended.take (ended.length - 2)).tail := by rw [returnedBody, hkept]
  cases hbefore : block.before with
  | nil =>
      rw [hbefore, List.nil_append] at hended
      obtain ⟨n, hn⟩ := Nat.exists_eq_add_of_le' (show 1 ≤ ended.length - 2 by omega)
      rw [hn, hended, List.take_succ_cons, List.dropWhile_cons, if_pos (by decide)] at hkept
      have := congrArg List.length hkept
      have hle := (List.dropWhile_suffix (l := block.body.take n) fun line => !isSpaceLine (withReturn line)).length_le
      rw [List.length_cons] at this
      omega
  | cons first before =>
      have hsplit : ended = (first :: (before ++ beginMarker :: inside)) ++ [back, last] := by
        rw [hended, hbefore, hbody]
        simp only [List.append_assoc, List.cons_append]
      have hfirst : (ended.take (ended.length - 2)).tail = before ++ beginMarker :: inside := by
        rw [hsplit, List.length_append, List.length_cons (a := back), List.length_singleton, Nat.add_sub_cancel, List.take_left,
          List.tail_cons]
      have hsecond : ended.dropLast.drop 2 = (before ++ beginMarker :: (inside ++ [back])).tail := by
        have : ended = (first :: (before ++ beginMarker :: (inside ++ [back]))) ++ [last] := by
          rw [hsplit]
          simp only [List.append_assoc, List.cons_append, List.nil_append]
        rw [this, List.dropLast_concat, List.drop_succ_cons, List.drop_one]
      rw [htail, hfirst, hsecond] at heq
      exact ne_of_shift hback before inside heq

/-- With carriage returns the two texts differ, or both are empty. -/
theorem not_same_of_crlf {binary : List Char} (hbinary : Base64.decode block.data.flatten = some binary) :
    ¬ (Base64.decode (armorBody (withReturns block.lines)).flatten = some binary ∧
      (descriptionBody (withReturns block.lines)).flatten = (armorBody (withReturns block.lines)).flatten) := by
  rintro ⟨hdecode, hsame⟩
  rcases List.eq_nil_or_concat block.after with hafter | ⟨after, final, hafter⟩
  · have hlines : block.lines = (block.before ++ beginMarker :: block.body) ++ [endMarker] := by
      rw [lines, hafter, List.append_assoc, List.cons_append]
    have hlength : 3 ≤ (block.before ++ beginMarker :: block.body).length := by
      have := block.length_body
      rw [List.length_append, List.length_cons]
      omega
    rcases Nat.lt_or_ge 3 (block.before ++ beginMarker :: block.body).length with hlong | hshort
    · exact block.descriptionBody_ne_of_no_newline rfl hlines hlong hsame
    · have hempty : (block.before ++ beginMarker :: block.body).dropLast.drop 2 = [] := by
        refine List.drop_eq_nil_of_le ?_
        rw [List.length_dropLast]
        omega
      rw [block.armorBody_no_newline hlines hlength, hempty] at hdecode
      refine block.decode_ne_of_length_lt hbinary (fun c hc => ?_) ?_ hdecode
      · cases hc
      · have := block.length_last_pos
        rw [List.length_append, List.map_nil, List.flatten_nil, List.length_nil]
        omega
  · rw [List.concat_eq_append] at hafter
    have hlines : block.lines = (block.before ++ beginMarker :: (block.body ++ endMarker :: after)) ++ [final] := by
      rw [lines, hafter]
      simp only [List.append_assoc, List.cons_append]
    exact block.descriptionBody_ne_of_newline hlines (hafter ▸ List.mem_append_right _ (List.mem_singleton_self _)) hsame

/-- With plain line ends, the condition on the block. -/
theorem same_iff_of_plain {binary : List Char} (hbinary : Base64.decode block.data.flatten = some binary) :
    (Base64.decode (armorBody block.lines).flatten = some binary ∧
      (descriptionBody block.lines).flatten = (armorBody block.lines).flatten) ↔
      block.crc.isSome = true ∧ (block.headers = [] ∨ (block.headers.length = 1 ∧ block.blank = [])) ∧
        (∀ line ∈ block.before, isSpaceLine line = false) ∧ block.after.length = 1 := by
  by_cases hbefore : ∀ line ∈ block.before, isSpaceLine line = false
  · -- the headers decide whether the slice starts with the data
    by_cases hheaders : block.headers = [] ∨ (block.headers.length = 1 ∧ block.blank = [])
    · have hslice : (armorBody block.lines).flatten = block.inner.dropLast.flatten := by
        rcases hheaders with hnone | ⟨hone, hblank⟩
        · rw [block.armorBody_no_header hnone]
        · obtain ⟨header, hheader⟩ := List.length_eq_one_iff.mp hone
          rw [block.armorBody_header hheader, hblank]
          rfl
      rw [hslice]
      cases hcrc : block.crc with
      | none =>
          refine iff_of_false (fun h => ?_) fun h => by cases h.1
          rw [block.dropLast_inner_no_crc hcrc] at h
          refine block.decode_ne_of_length_lt hbinary (fun c hc => block.isAlphabet_of_mem_full hc) ?_ h.1
          have := block.length_last_pos
          rw [List.length_append]
          omega
      | some crc =>
          rw [block.dropLast_inner_crc hcrc, block.descriptionBody_eq_data_iff hbefore hcrc]
          exact ⟨fun h => ⟨rfl, hheaders, hbefore, h.2⟩, fun h => ⟨hbinary, h.2.2.2⟩⟩
    · refine iff_of_false (fun h => ?_) fun h => hheaders h.2.1
      cases hlist : block.headers with
      | nil => exact hheaders (Or.inl hlist)
      | cons first headers =>
          cases headers with
          | nil =>
              have hblank : block.blank ≠ [] := fun hblank => hheaders (Or.inr ⟨by rw [hlist]; rfl, hblank⟩)
              exact block.descriptionBody_ne_of_blank hbefore hlist hblank h.2
          | cons second headers => exact block.descriptionBody_ne_of_headers hbefore hlist h.2
  · refine iff_of_false (fun h => ?_) fun h => hbefore h.2.2.1
    push Not at hbefore
    obtain ⟨line, hline, hspace⟩ := hbefore
    exact block.descriptionBody_ne_of_blank_before hline (by simpa using hspace) h.2

end ArmoredBlock

/-- The block as all three readers take it alike: plain line ends, ASCII, a checksum, no header or one with an empty blank line after it, no blank line in the text before, and exactly one piece after the newline that ends the block. -/
structure ArmoredBlock.Regular (block : ArmoredBlock) (crlf : Bool) : Prop where
  plain : crlf = false
  ascii : Ascii (block.text crlf)
  crc : block.crc.isSome = true
  headers : block.headers = [] ∨ (block.headers.length = 1 ∧ block.blank = [])
  before : ∀ line ∈ block.before, isSpaceLine line = false
  after : block.after.length = 1

/-- The key that is checked is the key that is imported exactly for the regular blocks. -/
theorem sameKey_iff_regular {decode : List Char → PyStr} (hdecode : ∀ text, Ascii text → decode text = PyStr.ofChars text)
    {userid : List Char} (huserid : (searchEmail userid).isSome = true) {packager : PyStr}
    (hpackager : (Dnssec.searchEmail packager).isSome = true) (block : ArmoredBlock) (crlf : Bool) {binary : List Char}
    (hbinary : procgpgkey (block.text crlf) = some binary) :
    SameKey decode userid packager (block.text crlf) binary ↔ block.Regular crlf := by
  rw [block.procgpgkey_text] at hbinary
  rw [sameKey_iff_slices hdecode huserid hpackager, block.splitOn_text]
  cases crlf with
  | true =>
      refine iff_of_false (fun h => ?_) fun h => by cases h.plain
      exact block.not_same_of_crlf hbinary ⟨h.2.1, h.2.2⟩
  | false =>
      rw [if_neg (by decide), block.same_iff_of_plain hbinary]
      constructor
      · rintro ⟨hascii, hcrc, hheaders, hbefore, hafter⟩
        exact ⟨rfl, hascii, hcrc, hheaders, hbefore, hafter⟩
      · rintro ⟨-, hascii, hcrc, hheaders, hbefore, hafter⟩
        exact ⟨hascii, hcrc, hheaders, hbefore, hafter⟩

/-- A block of one line of data, with a checksum and the headers that are given. -/
def sampleBlock (headers : List Line) (hheaders : ∀ line ∈ headers, IsHeader line)
    (hends : ∀ line ∈ headers, '\n' ∉ line ∧ '\r' ∉ line) : ArmoredBlock where
  before := []
  headers := headers
  blank := []
  full := []
  last := "QUJD".toList
  pads := 0
  crc := some "abcd".toList
  after := [[]]
  hbefore := by simp
  hheaders := hheaders
  hblank := by simp
  hfull := by simp
  hlast := ⟨by decide, List.all_eq_true.mp (by decide)⟩
  hcrc := by
    intro line hline
    rw [← Option.mem_some.mp hline]
    exact List.all_eq_true.mp (by decide)
  hafter := by
    intro line hline
    rw [List.mem_singleton.mp hline]
    exact ⟨by decide, by decide⟩
  hends := by
    intro line hline
    rcases List.mem_append.mp hline with hheader | hrest
    · exact hends line hheader
    · have : line = [] := by simpa using hrest
      rw [this]
      exact ⟨List.not_mem_nil, List.not_mem_nil⟩

theorem sameKey_iff_regular_sample : SameKey PyStr.ofChars "<k@e.org>".toList (PyStr.ofChars "<k@e.org>".toList)
    ((sampleBlock [] (by simp) (by simp)).text false) "ABC".toList := by
  refine (sameKey_iff_regular (fun text _ => rfl) (by decide) (by decide) (sampleBlock [] (by simp) (by simp)) false
    (by decide +kernel)).mpr ⟨rfl, ?_, rfl, Or.inl rfl, ?_, rfl⟩
  · have hall : ((sampleBlock [] (by simp) (by simp)).text false).all (fun c => decide (c.toNat < 128)) = true := by decide +kernel
    exact fun c hc => of_decide_eq_true (List.all_eq_true.mp hall c hc)
  · exact fun line hline => by cases hline

def twoHeaders : ArmoredBlock :=
  sampleBlock ["Version: 1".toList, "Comment: 2".toList]
    (by
      intro line hline
      rcases List.mem_pair.mp hline with rfl | rfl
      · exact ⟨"Version".toList, "1".toList, by decide, by decide, List.all_eq_true.mp (by decide)⟩
      · exact ⟨"Comment".toList, "2".toList, by decide, by decide, List.all_eq_true.mp (by decide)⟩)
    (by simp)

/-- The second header is taken for a part of the key. -/
theorem twoHeaders_not_sameKey : ¬ ∀ (block : ArmoredBlock) (crlf : Bool) (binary : List Char),
    procgpgkey (block.text crlf) = some binary →
      SameKey PyStr.ofChars "<k@e.org>".toList (PyStr.ofChars "<k@e.org>".toList) (block.text crlf) binary := by
  intro h
  obtain ⟨info, hinfo, hkey, -⟩ := h twoHeaders false "ABC".toList (by decide +kernel)
  have hread : KeyInfo.fromRpmKeyObject "<k@e.org>".toList (twoHeaders.text false) =
      .ok ⟨"k@e.org".toList, "Comment: 2QUJD".toList⟩ := by rfl
  rw [hread] at hinfo
  cases hinfo
  exact absurd hkey (by decide)

end Dnf.Gpg
