import Mathlib.Data.List.Basic
import Mathlib.Data.Nat.Basic

/-!
# Reading base64

The decoder of `binascii.a2b_base64` when it is not strict: characters outside the alphabet are skipped, and a padding that completes the group of four ends the data. What is needed of it is that it sees nothing but the alphabet and the padding, and how long its result is.
-/

namespace Foundation.Base64

def isAlphabet (c : Char) : Bool := c.isAlphanum || c == '+' || c == '/'

theorem isAlphabet_lt {c : Char} (hc : isAlphabet c = true) : c.toNat < 128 := by
  have hranges : (decide (c.val ≥ 'A'.val ∧ c.val ≤ 'Z'.val) || decide (c.val ≥ 'a'.val) && decide (c.val ≤ 'z'.val) ||
      decide (c.val ≥ '0'.val) && decide (c.val ≤ '9'.val) || c == '+' || c == '/') = true := hc
  simp only [Bool.or_eq_true, Bool.and_eq_true, decide_eq_true_eq, beq_iff_eq] at hranges
  rcases hranges with (((⟨-, hhigh⟩ | ⟨-, hhigh⟩) | ⟨-, hhigh⟩) | rfl) | rfl
  · exact Nat.lt_of_le_of_lt (UInt32.le_iff_toNat_le.mp hhigh) (by decide)
  · exact Nat.lt_of_le_of_lt (UInt32.le_iff_toNat_le.mp hhigh) (by decide)
  · exact Nat.lt_of_le_of_lt (UInt32.le_iff_toNat_le.mp hhigh) (by decide)
  · decide
  · decide

/-- What is checked on the alphabet holds of it. -/
theorem forall_isAlphabet {P : Char → Prop} (h : ∀ n < 128, isAlphabet (Char.ofNat n) = true → P (Char.ofNat n)) {c : Char}
    (hc : isAlphabet c = true) : P c := by
  have hcode := h c.toNat (isAlphabet_lt hc)
  rw [Char.ofNat_toNat] at hcode
  exact hcode hc

/-- The six bits of a character of the alphabet. -/
def sextet (c : Char) : Nat :=
  if c.isUpper then c.toNat - 65
  else if c.isLower then c.toNat - 71
  else if c.isDigit then c.toNat + 4
  else if c = '+' then 62
  else 63

/-- `a2b_base64` with `quadPos` characters of the current group read, `pads` of its padding, and `leftchar` the bits not written yet. -/
def a2b (quadPos pads leftchar : Nat) : List Char → Option (List Char)
  | [] => if quadPos = 0 then some [] else none
  | c :: cs =>
      if c = '=' then
        if quadPos ≥ 2 then
          if quadPos + (pads + 1) ≥ 4 then some [] else a2b quadPos (pads + 1) leftchar cs
        else a2b quadPos pads leftchar cs
      else if isAlphabet c then
        if quadPos = 0 then a2b 1 0 (sextet c) cs
        else if quadPos = 1 then (a2b 2 0 (sextet c % 16) cs).map (Char.ofNat (leftchar * 4 + sextet c / 16) :: ·)
        else if quadPos = 2 then (a2b 3 0 (sextet c % 4) cs).map (Char.ofNat (leftchar * 16 + sextet c / 4) :: ·)
        else (a2b 0 0 0 cs).map (Char.ofNat (leftchar * 64 + sextet c) :: ·)
      else a2b quadPos pads leftchar cs

/-- `base64.decodebytes` and `base64.b64decode`; `none` is `binascii.Error`. -/
def decode (text : List Char) : Option (List Char) := a2b 0 0 0 text

/-- The characters that the decoder looks at. -/
def isSeen (c : Char) : Bool := c == '=' || isAlphabet c

theorem isAlphabet_pad : isAlphabet '=' = false := by decide

theorem a2b_filter (text : List Char) (quadPos pads leftchar : Nat) :
    a2b quadPos pads leftchar (text.filter isSeen) = a2b quadPos pads leftchar text := by
  induction text generalizing quadPos pads leftchar with
  | nil => rfl
  | cons c text ih =>
      rw [List.filter_cons]
      by_cases hpad : c = '='
      · rw [if_pos (by rw [isSeen, hpad]; rfl), a2b, a2b]
        simp only [hpad, if_true, ih]
      · by_cases halphabet : isAlphabet c = true
        · rw [if_pos (by rw [isSeen, halphabet, Bool.or_true]), a2b, a2b]
          simp only [hpad, if_false, halphabet, if_true, ih]
        · rw [if_neg (by simp [isSeen, hpad, halphabet]), ih, a2b, if_neg hpad, if_neg halphabet]

/-- Texts that differ in skipped characters only are decoded alike. -/
theorem decode_congr {left right : List Char} (h : left.filter isSeen = right.filter isSeen) : decode left = decode right := by
  rw [decode, decode, ← a2b_filter left, h, a2b_filter right]

/-- The bytes that `n` characters of the alphabet give. -/
def decodedLength (n : Nat) : Nat := 3 * (n / 4) + (n % 4 - 1)

/-- The characters of the alphabet at the front are all read, whatever follows them. -/
theorem a2b_append {body : List Char} (hbody : ∀ c ∈ body, isAlphabet c = true) (rest : List Char)
    {quadPos : Nat} (hquad : quadPos < 4) (pads leftchar : Nat) :
    ∃ front pads' leftchar', front.length + decodedLength quadPos = decodedLength (quadPos + body.length) ∧
      a2b quadPos pads leftchar (body ++ rest) =
        (a2b ((quadPos + body.length) % 4) pads' leftchar' rest).map (front ++ ·) := by
  induction body generalizing quadPos pads leftchar with
  | nil =>
      refine ⟨[], pads, leftchar, by rw [List.length_nil, Nat.zero_add, Nat.add_zero], ?_⟩
      rw [List.length_nil, Nat.add_zero, Nat.mod_eq_of_lt hquad, List.nil_append]
      exact Option.map_id'.symm
  | cons c body ih =>
      have hc := hbody c (List.mem_cons_self ..)
      have hpad : c ≠ '=' := by
        rintro rfl
        rw [isAlphabet_pad] at hc
        cases hc
      have htail : ∀ d ∈ body, isAlphabet d = true := fun d hd => hbody d (List.mem_cons_of_mem _ hd)
      rw [List.cons_append, a2b, if_neg hpad, if_pos hc, List.length_cons]
      match quadPos, hquad with
      | 0, _ =>
          obtain ⟨front, pads', leftchar', hlength, hrun⟩ := @ih htail 1 (by decide) 0 (sextet c)
          refine ⟨front, pads', leftchar', ?_, ?_⟩
          · simp only [decodedLength] at hlength ⊢
            omega
          · rw [if_pos rfl, hrun, show 0 + (body.length + 1) = 1 + body.length by omega]
      | 1, _ =>
          obtain ⟨front, pads', leftchar', hlength, hrun⟩ := @ih htail 2 (by decide) 0 (sextet c % 16)
          refine ⟨Char.ofNat (leftchar * 4 + sextet c / 16) :: front, pads', leftchar', ?_, ?_⟩
          · simp only [decodedLength, List.length_cons] at hlength ⊢
            omega
          · rw [if_neg (by decide), if_pos rfl, hrun, Option.map_map,
              show 1 + (body.length + 1) = 2 + body.length by omega]
            rfl
      | 2, _ =>
          obtain ⟨front, pads', leftchar', hlength, hrun⟩ := @ih htail 3 (by decide) 0 (sextet c % 4)
          refine ⟨Char.ofNat (leftchar * 16 + sextet c / 4) :: front, pads', leftchar', ?_, ?_⟩
          · simp only [decodedLength, List.length_cons] at hlength ⊢
            omega
          · rw [if_neg (by decide), if_neg (by decide), if_pos rfl, hrun, Option.map_map,
              show 2 + (body.length + 1) = 3 + body.length by omega]
            rfl
      | 3, _ =>
          obtain ⟨front, pads', leftchar', hlength, hrun⟩ := @ih htail 0 (by decide) 0 0
          refine ⟨Char.ofNat (leftchar * 64 + sextet c) :: front, pads', leftchar', ?_, ?_⟩
          · simp only [decodedLength, List.length_cons] at hlength ⊢
            omega
          · rw [if_neg (by decide), if_neg (by decide), if_neg (by decide), hrun, Option.map_map,
              show (3 + (body.length + 1)) % 4 = (0 + body.length) % 4 by omega]
            rfl

/-- Padding alone writes nothing, and completes no group of one character. -/
theorem a2b_replicate_pad {quadPos pads leftchar count : Nat} {out : List Char}
    (h : a2b quadPos pads leftchar (List.replicate count '=') = some out) :
    out = [] ∧ quadPos ≠ 1 ∧ (count = 0 → quadPos = 0) := by
  induction count generalizing pads with
  | zero =>
      rw [List.replicate_zero, a2b] at h
      split_ifs at h with hquad
      cases h
      exact ⟨rfl, by omega, fun _ => hquad⟩
  | succ count ih =>
      rw [List.replicate_succ, a2b, if_pos rfl] at h
      split_ifs at h with htwo hfour
      · cases h
        exact ⟨rfl, by omega, fun hzero => absurd hzero (Nat.succ_ne_zero count)⟩
      · obtain ⟨hout, hquad, -⟩ := ih h
        exact ⟨hout, hquad, fun hzero => absurd hzero (Nat.succ_ne_zero count)⟩
      · obtain ⟨hout, hquad, -⟩ := ih h
        exact ⟨hout, hquad, fun hzero => absurd hzero (Nat.succ_ne_zero count)⟩

/-- What was decoded has the length that the number of characters says, and no group was left with one character. -/
theorem length_of_decode {body out : List Char} {count : Nat} (hbody : ∀ c ∈ body, isAlphabet c = true)
    (h : decode (body ++ List.replicate count '=') = some out) :
    out.length = decodedLength body.length ∧ body.length % 4 ≠ 1 ∧ (count = 0 → body.length % 4 = 0) := by
  obtain ⟨front, pads, leftchar, hlength, hrun⟩ := a2b_append hbody (List.replicate count '=') (show 0 < 4 by decide) 0 0
  rw [decode, hrun] at h
  obtain ⟨rest, hrest, hout⟩ := Option.map_eq_some_iff.mp h
  obtain ⟨hnil, hquad, hzero⟩ := a2b_replicate_pad hrest
  rw [Nat.zero_add] at hlength hquad hzero
  refine ⟨?_, hquad, hzero⟩
  rw [← hout, hnil, List.append_nil, ← hlength]
  rfl

/-- Fewer characters do not decode to the same bytes. -/
theorem decode_ne_of_lt {body body' : List Char} {count : Nat} (hbody : ∀ c ∈ body, isAlphabet c = true)
    (hbody' : ∀ c ∈ body', isAlphabet c = true) (hlt : body'.length < body.length) {out : List Char}
    (h : decode (body ++ List.replicate count '=') = some out) : decode body' ≠ some out := by
  intro h'
  rw [← List.append_nil body', ← @List.replicate_zero _ '='] at h'
  obtain ⟨hlength, hone, -⟩ := length_of_decode hbody h
  obtain ⟨hlength', -, hzero⟩ := length_of_decode hbody' h'
  have hgroup := hzero rfl
  rw [hlength, decodedLength, decodedLength] at hlength'
  omega

example : decode "QUI=\n".toList = some "AB".toList := by decide

end Foundation.Base64
