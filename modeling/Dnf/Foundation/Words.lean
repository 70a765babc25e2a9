import Mathlib.Data.List.DropRight
import Mathlib.Data.List.Induction
import Mathlib.Data.List.Infix

/-!
# The words of a text

The words of a text are what stands between separators, without the empty pieces. How many separators there are between two words, and which ones, makes no difference, so a text keeps its words when it is stripped, cut into lines or joined from them.
-/

namespace Foundation

variable {α : Type}

/-- `text` between the characters of which `sep` is true. -/
def words (sep : α → Bool) (text : List α) : List (List α) := (text.splitOnP sep).filter (· ≠ [])

namespace Words

variable {sep : α → Bool} {c : α} {text front back : List α}

@[simp] theorem words_nil : words sep ([] : List α) = [] := rfl

theorem words_append_cons (hc : sep c = true) (front back : List α) : words sep (front ++ c :: back) = words sep front ++ words sep back := by
  rw [words, List.splitOnP_append_cons front back hc, List.filter_append, words, words]

theorem words_cons (hc : sep c = true) (text : List α) : words sep (c :: text) = words sep text := words_append_cons hc [] text

theorem words_append_of_all (hfront : ∀ c ∈ front, sep c = true) (text : List α) : words sep (front ++ text) = words sep text := by
  induction front with
  | nil => rfl
  | cons c front ih =>
      rw [List.cons_append, words_cons (hfront c List.mem_cons_self)]
      exact ih fun d hd => hfront d (List.mem_cons_of_mem c hd)

theorem words_of_all (h : ∀ c ∈ text, sep c = true) : words sep text = [] := by
  have := words_append_of_all h []
  rwa [List.append_nil] at this

theorem words_append_all (hback : ∀ c ∈ back, sep c = true) (text : List α) : words sep (text ++ back) = words sep text := by
  cases back with
  | nil => rw [List.append_nil]
  | cons c back =>
      rw [words_append_cons (hback c List.mem_cons_self), words_of_all fun d hd => hback d (List.mem_cons_of_mem c hd), List.append_nil]

/-- Behind a separator, or at the beginning, a new word begins. -/
theorem words_append (hfront : ∀ c, front.getLast? = some c → sep c = true) (back : List α) : words sep (front ++ back) = words sep front ++ words sep back := by
  induction front using List.reverseRecOn with
  | nil => rfl
  | append_singleton front c _ =>
      have hc := hfront c List.getLast?_concat
      have hstop := words_append_cons hc front []
      rw [words_nil, List.append_nil] at hstop
      rw [List.append_assoc, List.singleton_append, words_append_cons hc, hstop]

theorem words_rdropWhile {p : α → Bool} (hp : ∀ c, p c = true → sep c = true) (text : List α) : words sep (text.rdropWhile p) = words sep text := by
  have hsplit : text.rdropWhile p ++ text.rtakeWhile p = text := List.rdropWhile_append_rtakeWhile
  conv => rhs; rw [← hsplit]
  exact (words_append_all (fun c hc => hp c (List.mem_rtakeWhile_imp hc)) _).symm

theorem words_dropWhile {p : α → Bool} (hp : ∀ c, p c = true → sep c = true) (text : List α) : words sep (text.dropWhile p) = words sep text := by
  have hsplit : text.takeWhile p ++ text.dropWhile p = text := List.takeWhile_append_dropWhile
  conv => rhs; rw [← hsplit]
  exact (words_append_of_all (fun c hc => hp c (List.mem_takeWhile_imp hc)) _).symm

theorem words_intercalate (hc : sep c = true) (lines : List (List α)) : words sep ([c].intercalate lines) = lines.flatMap (words sep) := by
  induction lines with
  | nil => rfl
  | cons line lines ih =>
      cases lines with
      | nil => rw [List.intercalate_singleton, List.flatMap_singleton]
      | cons next lines => rw [List.intercalate_cons_cons, List.append_assoc, List.singleton_append, words_append_cons hc, ih, ← List.flatMap_cons]

theorem flatMap_words_splitOn [DecidableEq α] (hc : sep c = true) (text : List α) : (text.splitOn c).flatMap (words sep) = words sep text := by
  rw [← words_intercalate hc, List.intercalate_splitOn]

/-- Separators that are written in other ways, with separators again, do not change the words. -/
theorem words_flatMap {f : α → List α} (hsep : ∀ c, sep c = true → f c ≠ [] ∧ ∀ d ∈ f c, sep d = true) (hother : ∀ c, sep c = false → f c = [c])
    (text : List α) : words sep (text.flatMap f) = words sep text := by
  induction hn : text.length using Nat.strong_induction_on generalizing text with
  | _ n ih =>
    have hplain (front : List α) (hfront : ∀ c ∈ front, sep c = false) : front.flatMap f = front := by
      induction front with
      | nil => rfl
      | cons c front ih => rw [List.flatMap_cons, hother c (hfront c List.mem_cons_self), ih fun d hd => hfront d (List.mem_cons_of_mem c hd)]; rfl
    have hsplit : text.takeWhile (!sep ·) ++ text.dropWhile (!sep ·) = text := List.takeWhile_append_dropWhile
    have hfront : ∀ c ∈ text.takeWhile (!sep ·), sep c = false := fun c hc => by simpa using List.mem_takeWhile_imp hc
    cases hrest : text.dropWhile (!sep ·) with
    | nil =>
        rw [hrest, List.append_nil] at hsplit
        rw [hplain text (hsplit ▸ hfront)]
    | cons c back =>
        have hc : sep c = true := by
          have := List.head?_dropWhile_not (fun c => !sep c) text
          rw [hrest] at this
          simpa using this
        obtain ⟨hne, hall⟩ := hsep c hc
        obtain ⟨d, rest, hd⟩ := List.exists_cons_of_ne_nil hne
        rw [hrest] at hsplit
        rw [← hsplit, List.flatMap_append, List.flatMap_cons, hplain _ hfront, hd, List.cons_append,
          words_append_cons (hall d (hd ▸ List.mem_cons_self)), words_append_of_all fun e he => hall e (hd ▸ List.mem_cons_of_mem d he),
          words_append_cons hc, ih back.length _ back rfl]
        rw [← hn, ← hsplit, List.length_append, List.length_cons]
        omega

end Words

end Foundation
