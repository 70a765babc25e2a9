import Dnf.Foundation.Base64
import Dnf.Foundation.Lines
import Dnf.Gpg.Check
import Dnf.Gpg.ImportedKeys
import Mathlib.Data.List.TakeWhile

/-!
# Armored key blocks and their three readers

An armored public key block has optional parts: header lines, a checksum, text around it, either kind of line end. `procgpgkey` goes through it line by line, `KeyInfo.from_rpm_key_object` cuts a fixed number of lines off at both ends, and `_query_db_for_gpg_keys` drops the last three lines of the whole text. Here it is said which lines each of them takes from a block.
-/

namespace Dnf.Gpg

open Foundation

abbrev Line := List Char

def beginMarker : Line := "-----BEGIN PGP PUBLIC KEY BLOCK-----".toList
def endMarker : Line := "-----END PGP PUBLIC KEY BLOCK-----".toList

/-- `procgpgkey`; `none` is the exception of the base64 decoder. -/
def procgpgkey (rawkey : List Char) : Option (List Char) :=
  Base64.decode (keyBlock false false ((normaliseNewlines rawkey).splitOn '\n'))

/-- The program of `gpgsigcheck` runs this function, when the decoder is that of the standard library. -/
theorem base_procgpgkey_eq {ω : Type} (base : Base ω) (hdecode : base.outside.b64decode = Base64.decode) (rawkey : List Char) :
    base.procgpgkey rawkey = match procgpgkey rawkey with
      | some binary => pure binary
      | none => throw (.valueError "Invalid base64-encoded string") := by
  rw [Base.procgpgkey, hdecode]
  rfl

/-- A line that is not one of the two markers of a block. -/
def IsPlain (line : Line) : Prop := ¬ beginMarker <+: line ∧ ¬ endMarker <+: line

def IsHeader (line : Line) : Prop :=
  ∃ key value, line = key ++ ':' :: ' ' :: value ∧ key ≠ [] ∧ ∀ c ∈ key, c.isAlphanum = true

/-- A nonempty line of base64 without padding. -/
def IsData (line : Line) : Prop := line ≠ [] ∧ ∀ c ∈ line, Base64.isAlphabet c = true

/-- An armored block with the text around it. `last` is the last line of the data, without the padding; `after` are the pieces after the newline that ends the block, none when no newline does. -/
structure ArmoredBlock where
  before : List Line
  headers : List Line
  blank : Line
  full : List Line
  last : Line
  pads : Nat
  crc : Option Line
  after : List Line
  hbefore : ∀ line ∈ before, IsPlain line
  hheaders : ∀ line ∈ headers, IsHeader line
  hblank : ∀ c ∈ blank, isBlank c = true
  hfull : ∀ line ∈ full, IsData line
  hlast : IsData last
  hcrc : ∀ line ∈ crc, ∀ c ∈ line, Base64.isAlphabet c = true
  hafter : ∀ line ∈ after, IsPlain line
  hends : ∀ line ∈ before ++ headers ++ blank :: after, '\n' ∉ line ∧ '\r' ∉ line

/-- The lines with a carriage return before each newline between them. -/
def withReturns : List Line → List Line
  | [] => []
  | [line] => [line]
  | line :: next :: lines => (line ++ ['\r']) :: withReturns (next :: lines)

namespace ArmoredBlock

variable (block : ArmoredBlock)

def data : List Line := block.full ++ [block.last ++ List.replicate block.pads '=']

def crcLines : List Line := block.crc.toList.map ('=' :: ·)

/-- What stands between the markers. -/
def body : List Line := block.headers ++ block.blank :: (block.data ++ block.crcLines)

def lines : List Line := block.before ++ beginMarker :: (block.body ++ endMarker :: block.after)

/-- The block as a text, with the one or the other kind of line end. -/
def text (crlf : Bool) : List Char := ['\n'].intercalate (if crlf then withReturns block.lines else block.lines)

end ArmoredBlock

/-! ### Lines of a block -/

/-- A line that starts with a letter, a digit or a character of the alphabet is no marker. -/
theorem isPlain_cons {c : Char} (hc : c ≠ '-') (line : Line) : IsPlain (c :: line) := by
  constructor
  · intro h
    exact hc (List.cons_prefix_cons.mp h).1.symm
  · intro h
    exact hc (List.cons_prefix_cons.mp h).1.symm

theorem strip_cons_ne_nil {c : Char} (hc : isBlank c = false) (line : Line) : strip (c :: line) ≠ [] := by
  rw [strip, List.dropWhile_cons, if_neg (by rw [hc]; decide)]
  intro h
  have hall : ∀ d ∈ (c :: line).reverse, isBlank d = true := by
    rw [← List.dropWhile_eq_nil_iff]
    exact List.reverse_eq_nil_iff.mp h
  rw [hall c (List.mem_reverse.mpr (List.mem_cons_self ..))] at hc
  cases hc

theorem strip_eq_nil {line : Line} (hline : ∀ c ∈ line, isBlank c = true) : strip line = [] := by
  rw [strip, List.dropWhile_eq_nil_iff.mpr hline]
  rfl

theorem isBlank_of_isAlphabet {c : Char} (hc : Base64.isAlphabet c = true) : isBlank c = false :=
  @Base64.forall_isAlphabet (fun c => isBlank c = false) (by decide) c hc

theorem ne_dash_of_isAlphabet {c : Char} (hc : Base64.isAlphabet c = true) : c ≠ '-' := by
  rintro rfl
  cases hc

theorem isAlphabet_of_isAlphanum {c : Char} (hc : c.isAlphanum = true) : Base64.isAlphabet c = true := by
  rw [Base64.isAlphabet, hc]
  rfl

/-- A header line starts with a character of the alphabet. -/
theorem IsHeader.eq_cons {line : Line} (h : IsHeader line) : ∃ c rest, line = c :: rest ∧ Base64.isAlphabet c = true := by
  obtain ⟨key, value, rfl, hkey, hall⟩ := h
  cases key with
  | nil => exact absurd rfl hkey
  | cons c key => exact ⟨c, _, rfl, isAlphabet_of_isAlphanum (hall c (List.mem_cons_self ..))⟩

/-- So does a data line, also with padding after it. -/
theorem IsData.append_eq_cons {line : Line} (h : IsData line) (padding : Line) :
    ∃ c rest, line ++ padding = c :: rest ∧ Base64.isAlphabet c = true := by
  obtain ⟨hne, hall⟩ := h
  cases line with
  | nil => exact absurd rfl hne
  | cons c line => exact ⟨c, _, rfl, hall c (List.mem_cons_self ..)⟩

namespace ArmoredBlock

variable (block : ArmoredBlock)

theorem eq_cons_of_mem_data {line : Line} (hline : line ∈ block.data) :
    ∃ c rest, line = c :: rest ∧ Base64.isAlphabet c = true := by
  rcases List.mem_append.mp hline with hfull | hlast
  · obtain ⟨c, rest, heq, hc⟩ := (block.hfull line hfull).append_eq_cons []
    exact ⟨c, rest, by rw [← heq, List.append_nil], hc⟩
  · rw [List.mem_singleton.mp hlast]
    exact block.hlast.append_eq_cons _

theorem isSeen_of_mem_data {line : Line} (hline : line ∈ block.data) : ∀ c ∈ line, Base64.isSeen c = true := by
  intro c hc
  rw [Base64.isSeen, Bool.or_eq_true]
  rcases List.mem_append.mp hline with hfull | hlast
  · exact Or.inr ((block.hfull line hfull).2 c hc)
  · rw [List.mem_singleton.mp hlast] at hc
    rcases List.mem_append.mp hc with hbody | hpad
    · exact Or.inr (block.hlast.2 c hbody)
    · exact Or.inl (beq_iff_eq.mpr (List.eq_of_mem_replicate hpad))

theorem eq_cons_of_mem_crcLines {line : Line} (hline : line ∈ block.crcLines) :
    ∃ rest, line = '=' :: rest ∧ ∀ c ∈ rest, Base64.isAlphabet c = true := by
  obtain ⟨rest, hrest, rfl⟩ := List.mem_map.mp hline
  exact ⟨rest, rfl, block.hcrc rest (Option.mem_toList.mp hrest)⟩

theorem isSeen_of_mem_crcLines {line : Line} (hline : line ∈ block.crcLines) : ∀ c ∈ line, Base64.isSeen c = true := by
  obtain ⟨rest, rfl, hrest⟩ := block.eq_cons_of_mem_crcLines hline
  intro c hc
  rcases List.mem_cons.mp hc with rfl | hc
  · rfl
  · rw [Base64.isSeen, hrest c hc, Bool.or_true]

/-! ### `procgpgkey` -/

/-- `keyBlock` with the markers by their names. -/
theorem keyBlock_cons (inblock pastheaders : Bool) (line : Line) (lines : List Line) :
    keyBlock inblock pastheaders (line :: lines) =
      if beginMarker <+: line then keyBlock true pastheaders lines
      else if inblock ∧ strip line = [] then keyBlock inblock true lines
      else if inblock ∧ endMarker <+: line then []
      else if pastheaders ∧ "=".toList <+: line then []
      else if pastheaders then line ++ '\n' :: keyBlock inblock pastheaders lines
      else keyBlock inblock pastheaders lines := rfl

theorem keyBlock_before {lines : List Line} (hlines : ∀ line ∈ lines, IsPlain line) (rest : List Line) :
    keyBlock false false (lines ++ rest) = keyBlock false false rest := by
  induction lines with
  | nil => rfl
  | cons line lines ih =>
      rw [List.cons_append, keyBlock_cons, if_neg (hlines line (List.mem_cons_self ..)).1,
        if_neg (by simp), if_neg (by simp), if_neg (by simp), if_neg (by simp)]
      exact ih fun other hother => hlines other (List.mem_cons_of_mem _ hother)

/-- A line of the block that is neither blank nor a marker. -/
theorem keyBlock_line {c : Char} (hc : Base64.isAlphabet c = true) (rest : Line) (pastheaders : Bool) (lines : List Line) :
    keyBlock true pastheaders ((c :: rest) :: lines) =
      if pastheaders then (c :: rest) ++ '\n' :: keyBlock true pastheaders lines
      else keyBlock true pastheaders lines := by
  have hplain := isPlain_cons (ne_dash_of_isAlphabet hc) rest
  have hpad : ¬ "=".toList <+: c :: rest := by
    intro h
    rw [← (List.cons_prefix_cons.mp h).1] at hc
    cases hc
  rw [keyBlock_cons, if_neg hplain.1, if_neg fun h => strip_cons_ne_nil (isBlank_of_isAlphabet hc) rest h.2,
    if_neg fun h => hplain.2 h.2, if_neg fun h => hpad h.2]

theorem keyBlock_headers {headers : List Line} (hheaders : ∀ line ∈ headers, IsHeader line) (rest : List Line) :
    keyBlock true false (headers ++ rest) = keyBlock true false rest := by
  induction headers with
  | nil => rfl
  | cons line headers ih =>
      obtain ⟨c, value, rfl, hc⟩ := (hheaders line (List.mem_cons_self ..)).eq_cons
      rw [List.cons_append, keyBlock_line hc, if_neg (by decide)]
      exact ih fun other hother => hheaders other (List.mem_cons_of_mem _ hother)

theorem keyBlock_data {data : List Line} (hdata : ∀ line ∈ data, ∃ c rest, line = c :: rest ∧ Base64.isAlphabet c = true)
    {rest : List Line} (hrest : keyBlock true true rest = []) :
    keyBlock true true (data ++ rest) = data.flatMap (· ++ ['\n']) := by
  induction data with
  | nil => exact hrest
  | cons line data ih =>
      obtain ⟨c, tail, rfl, hc⟩ := hdata line (List.mem_cons_self ..)
      rw [List.cons_append, keyBlock_line hc, if_pos rfl, ih fun other hother => hdata other (List.mem_cons_of_mem _ hother),
        List.flatMap_cons, List.append_assoc]
      rfl

/-- The lines that `procgpgkey` decodes are those of the data. -/
theorem keyBlock_lines : keyBlock false false block.lines = block.data.flatMap (· ++ ['\n']) := by
  have hend : keyBlock true true (block.crcLines ++ endMarker :: block.after) = [] := by
    cases hcrc : block.crcLines with
    | nil => rfl
    | cons line rest =>
        obtain ⟨tail, rfl, -⟩ := block.eq_cons_of_mem_crcLines (hcrc ▸ List.mem_cons_self ..)
        have hplain := isPlain_cons (show '=' ≠ '-' by decide) tail
        rw [List.cons_append, keyBlock_cons, if_neg hplain.1,
          if_neg fun h => strip_cons_ne_nil (show isBlank '=' = false by decide) tail h.2, if_neg fun h => hplain.2 h.2,
          if_pos ⟨rfl, tail, rfl⟩]
  have hblank : ¬ beginMarker <+: block.blank := by
    rintro ⟨rest, hrest⟩
    have := block.hblank '-' (hrest ▸ List.mem_append_left _ (by decide))
    cases this
  rw [lines, body, keyBlock_before block.hbefore, keyBlock_cons, if_pos (List.prefix_refl _), List.append_assoc,
    keyBlock_headers block.hheaders, List.cons_append, keyBlock_cons, if_neg hblank,
    if_pos ⟨rfl, strip_eq_nil block.hblank⟩, List.append_assoc]
  exact keyBlock_data (fun line hline => block.eq_cons_of_mem_data hline) hend

/-! ### The text and its lines -/

theorem ends_of_mem_lines {line : Line} (hline : line ∈ block.lines) : '\n' ∉ line ∧ '\r' ∉ line := by
  have hends : ∀ other ∈ block.before ++ block.headers ++ block.blank :: block.after, line = other → '\n' ∉ line ∧ '\r' ∉ line :=
    fun other hother heq => heq ▸ block.hends other hother
  have hseen : (∀ c ∈ line, Base64.isSeen c = true) → '\n' ∉ line ∧ '\r' ∉ line := by
    refine fun hall => ⟨fun h => ?_, fun h => ?_⟩
    · cases hall _ h
    · cases hall _ h
  simp only [lines, body, List.mem_append, List.mem_cons] at hline
  simp only [List.mem_append, List.mem_cons] at hends
  rcases hline with hbefore | rfl | (hheader | rfl | hdata | hcrc) | rfl | hafter
  · exact hends line (Or.inl (Or.inl hbefore)) rfl
  · decide
  · exact hends line (Or.inl (Or.inr hheader)) rfl
  · exact hends _ (Or.inr (Or.inl rfl)) rfl
  · exact hseen (block.isSeen_of_mem_data hdata)
  · exact hseen (block.isSeen_of_mem_crcLines hcrc)
  · decide
  · exact hends line (Or.inr (Or.inr hafter)) rfl

theorem lines_ne_nil : block.lines ≠ [] := by
  rw [lines]
  exact List.append_ne_nil_of_right_ne_nil _ (List.cons_ne_nil _ _)

end ArmoredBlock

theorem withReturns_ne_nil {lines : List Line} (h : lines ≠ []) : withReturns lines ≠ [] := by
  match lines with
  | [] => exact absurd rfl h
  | [line] => exact h
  | line :: next :: lines => exact List.cons_ne_nil _ _

theorem not_mem_withReturns {lines : List Line} (h : ∀ line ∈ lines, '\n' ∉ line) : ∀ line ∈ withReturns lines, '\n' ∉ line := by
  match lines with
  | [] => exact h
  | [line] => exact h
  | first :: next :: lines =>
      intro line hline
      rcases List.mem_cons.mp hline with rfl | hrest
      · have := h first (List.mem_cons_self ..)
        simp [this]
      · exact not_mem_withReturns (fun other hother => h other (List.mem_cons_of_mem _ hother)) line hrest

theorem normaliseNewlines_nil : normaliseNewlines [] = [] := rfl

theorem normaliseNewlines_crlf (cs : List Char) : normaliseNewlines ('\r' :: '\n' :: cs) = '\n' :: normaliseNewlines cs := rfl

theorem normaliseNewlines_newline (cs : List Char) : normaliseNewlines ('\n' :: cs) = '\n' :: normaliseNewlines cs := rfl

/-- A text without carriage returns is left alone at its front. -/
theorem normaliseNewlines_append {text : List Char} (h : '\r' ∉ text) (rest : List Char) :
    normaliseNewlines (text ++ rest) = text ++ normaliseNewlines rest := by
  induction text with
  | nil => rfl
  | cons c text ih =>
      have hc : c ≠ '\r' := fun heq => h (heq ▸ List.mem_cons_self ..)
      have hrest := ih fun hmem => h (List.mem_cons_of_mem _ hmem)
      rw [List.cons_append, List.cons_append, normaliseNewlines, hrest]
      · exact fun _ heq => absurd heq hc
      · exact fun heq => absurd heq hc

theorem normaliseNewlines_withReturns {lines : List Line} (h : ∀ line ∈ lines, '\r' ∉ line) :
    normaliseNewlines (['\n'].intercalate (withReturns lines)) = ['\n'].intercalate lines := by
  match lines with
  | [] => rfl
  | [line] =>
      have := normaliseNewlines_append (h line (List.mem_cons_self ..)) []
      simpa [withReturns, normaliseNewlines_nil] using this
  | line :: next :: lines =>
      have hrest := normaliseNewlines_withReturns fun other hother => h other (List.mem_cons_of_mem line hother)
      have hline := normaliseNewlines_append (h line (List.mem_cons_self ..))
        ('\r' :: '\n' :: ['\n'].intercalate (withReturns (next :: lines)))
      rw [withReturns, List.intercalate_cons_of_ne_nil (withReturns_ne_nil (List.cons_ne_nil _ _)),
        List.intercalate_cons_cons, ← hrest]
      simpa [normaliseNewlines_crlf] using hline

theorem normaliseNewlines_intercalate {lines : List Line} (h : ∀ line ∈ lines, '\r' ∉ line) :
    normaliseNewlines (['\n'].intercalate lines) = ['\n'].intercalate lines := by
  match lines with
  | [] => rfl
  | [line] =>
      have := normaliseNewlines_append (h line (List.mem_cons_self ..)) []
      simpa [normaliseNewlines_nil] using this
  | line :: next :: lines =>
      have hrest := normaliseNewlines_intercalate fun other hother => h other (List.mem_cons_of_mem line hother)
      have hline := normaliseNewlines_append (h line (List.mem_cons_self ..)) ('\n' :: ['\n'].intercalate (next :: lines))
      rw [List.intercalate_cons_cons, List.append_assoc, List.singleton_append, hline]
      simp [normaliseNewlines_newline, hrest]

namespace ArmoredBlock

variable (block : ArmoredBlock)

/-- The pieces of the text between its newlines. -/
theorem splitOn_text (crlf : Bool) :
    (block.text crlf).splitOn '\n' = if crlf then withReturns block.lines else block.lines := by
  have hlines : ∀ line ∈ block.lines, '\n' ∉ line := fun line hline => (block.ends_of_mem_lines hline).1
  rw [text]
  cases crlf with
  | false => exact List.splitOn_intercalate '\n' hlines block.lines_ne_nil
  | true => exact List.splitOn_intercalate '\n' (not_mem_withReturns hlines) (withReturns_ne_nil block.lines_ne_nil)

theorem normaliseNewlines_text (crlf : Bool) : normaliseNewlines (block.text crlf) = block.text false := by
  have hlines : ∀ line ∈ block.lines, '\r' ∉ line := fun line hline => (block.ends_of_mem_lines hline).2
  cases crlf with
  | false => exact normaliseNewlines_intercalate hlines
  | true => exact normaliseNewlines_withReturns hlines

theorem filter_flatMap_newline (lines : List Line) :
    (lines.flatMap (· ++ ['\n'])).filter Base64.isSeen = lines.flatten.filter Base64.isSeen := by
  induction lines with
  | nil => rfl
  | cons line lines ih =>
      rw [List.flatMap_cons, List.flatten_cons, List.filter_append, List.filter_append, List.filter_append, ih]
      simp [Base64.isSeen, Base64.isAlphabet]

/-- Whatever the line ends, `procgpgkey` decodes the data. -/
theorem procgpgkey_text (crlf : Bool) : procgpgkey (block.text crlf) = Base64.decode block.data.flatten := by
  rw [procgpgkey, normaliseNewlines_text, splitOn_text, if_neg (by decide), keyBlock_lines]
  exact Base64.decode_congr (filter_flatMap_newline block.data)

end ArmoredBlock

/-! ### `KeyInfo.from_rpm_key_object` -/

theorem lastIndexOf_foldl_of_not_mem {marker : Line} {lines : List Line} (h : marker ∉ lines) (n found : Nat) :
    (lines.zipIdx n).foldl (fun found line => if line.1 = marker then line.2 else found) found = found := by
  induction lines generalizing n with
  | nil => rfl
  | cons line lines ih =>
      have hne : line ≠ marker := fun heq => h (heq ▸ List.mem_cons_self ..)
      rw [List.zipIdx_cons, List.foldl_cons, if_neg hne]
      exact ih (fun hmem => h (List.mem_cons_of_mem _ hmem)) _

theorem lastIndexOf_of_not_mem {marker : Line} {lines : List Line} (h : marker ∉ lines) : lastIndexOf marker lines = 0 :=
  lastIndexOf_foldl_of_not_mem h 0 0

theorem lastIndexOf_append_cons {marker : Line} (front : List Line) {rest : List Line} (h : marker ∉ rest) :
    lastIndexOf marker (front ++ marker :: rest) = front.length := by
  rw [lastIndexOf, List.zipIdx_append, List.foldl_append, List.zipIdx_cons, List.foldl_cons, if_pos rfl,
    lastIndexOf_foldl_of_not_mem h, Nat.zero_add]

/-- The slice with the markers by their names. -/
theorem armorBody_eq_drop (key : List Line) : armorBody key =
    (key.take (if lastIndexOf endMarker key = 0 then key.length - 1 else lastIndexOf endMarker key - 1)).drop
      (lastIndexOf beginMarker key + 2) := rfl

/-- What the slice takes from lines with both markers. -/
theorem armorBody_eq (before body after : List Line) (hbegin : beginMarker ∉ body ++ endMarker :: after)
    (hend : endMarker ∉ after) (hbody : body ≠ []) :
    armorBody (before ++ beginMarker :: (body ++ endMarker :: after)) = body.dropLast.tail := by
  have hstart : lastIndexOf beginMarker (before ++ beginMarker :: (body ++ endMarker :: after)) = before.length :=
    lastIndexOf_append_cons before hbegin
  have hstop : lastIndexOf endMarker (before ++ beginMarker :: (body ++ endMarker :: after)) = before.length + 1 + body.length := by
    have hsplit : before ++ beginMarker :: (body ++ endMarker :: after) =
        (before ++ beginMarker :: body) ++ endMarker :: after := by
      rw [List.append_assoc, List.cons_append]
    rw [hsplit, lastIndexOf_append_cons _ hend, List.length_append, List.length_cons]
    omega
  have hlength : 0 < body.length := List.length_pos_iff.mpr hbody
  rw [armorBody_eq_drop, hstart, hstop, if_neg (by omega), List.take_append, List.take_of_length_le (by omega),
    show before.length + 1 + body.length - 1 - before.length = (body.length - 1) + 1 by omega, List.take_succ_cons,
    List.take_append_of_le_length (by omega), ← List.dropLast_eq_take, List.drop_append, List.drop_eq_nil_of_le (by omega),
    List.nil_append, show before.length + 2 - before.length = 2 by omega, List.drop_succ_cons, List.drop_one]

namespace ArmoredBlock

variable (block : ArmoredBlock)

theorem ne_marker_of_isPlain {line : Line} (h : IsPlain line) : line ≠ beginMarker ∧ line ≠ endMarker := by
  constructor
  · rintro rfl
    exact h.1 (List.prefix_refl _)
  · rintro rfl
    exact h.2 (List.prefix_refl _)

/-- No line between the markers is a marker. -/
theorem isPlain_of_mem_body {line : Line} (hline : line ∈ block.body) : IsPlain line := by
  simp only [body, List.mem_append, List.mem_cons] at hline
  rcases hline with hheader | rfl | hdata | hcrc
  · obtain ⟨c, rest, rfl, hc⟩ := (block.hheaders line hheader).eq_cons
    exact isPlain_cons (ne_dash_of_isAlphabet hc) rest
  · cases hblank : block.blank with
    | nil => exact ⟨by decide, by decide⟩
    | cons c rest =>
        refine isPlain_cons ?_ rest
        rintro rfl
        have := block.hblank '-' (hblank ▸ List.mem_cons_self ..)
        cases this
  · obtain ⟨c, rest, rfl, hc⟩ := block.eq_cons_of_mem_data hdata
    exact isPlain_cons (ne_dash_of_isAlphabet hc) rest
  · obtain ⟨rest, rfl, -⟩ := block.eq_cons_of_mem_crcLines hcrc
    exact isPlain_cons (by decide) rest

theorem data_ne_nil : block.data ≠ [] := by
  rw [data]
  exact List.append_ne_nil_of_right_ne_nil _ (List.cons_ne_nil _ _)

theorem body_ne_nil : block.body ≠ [] := by
  rw [body]
  exact List.append_ne_nil_of_right_ne_nil _ (List.cons_ne_nil _ _)

theorem beginMarker_not_mem : beginMarker ∉ block.body ++ endMarker :: block.after := by
  intro hmem
  rcases List.mem_append.mp hmem with hbody | hmem
  · exact (ne_marker_of_isPlain (block.isPlain_of_mem_body hbody)).1 rfl
  rcases List.mem_cons.mp hmem with heq | hafter
  · exact absurd heq (by decide)
  · exact (ne_marker_of_isPlain (block.hafter _ hafter)).1 rfl

theorem endMarker_not_mem_after : endMarker ∉ block.after :=
  fun hmem => (ne_marker_of_isPlain (block.hafter _ hmem)).2 rfl

/-- With plain line ends the slice is the body without its first and its last line. -/
theorem armorBody_lines : armorBody block.lines = block.body.dropLast.tail :=
  armorBody_eq block.before block.body block.after block.beginMarker_not_mem block.endMarker_not_mem_after block.body_ne_nil

end ArmoredBlock

end Dnf.Gpg
