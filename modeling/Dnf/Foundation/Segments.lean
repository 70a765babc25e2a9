import Mathlib.Data.List.Forall2
import Mathlib.Data.List.Infix

/-!
# The occurrences of a text in a text

A text falls into the occurrences of a needle, taken from the left so that they do not overlap, and the elements between them. An empty needle occurs in front of every element and at the end. What is compared is an element of the needle with one of the text, so that a text may carry more than its characters.
-/

namespace Foundation.Segments

variable {α β γ : Type}

/-- An element between the occurrences, or an occurrence. -/
inductive Segment (α : Type)
  | skip (a : α)
  | hit (group : List α)

def Segment.text : Segment α → List α
  | .skip a => [a]
  | .hit group => group

def Segment.map (f : α → γ) : Segment α → Segment γ
  | .skip a => .skip (f a)
  | .hit group => .hit (group.map f)

section Search

variable (same : β → α → Bool)

def startsWith : List β → List α → Bool
  | [], _ => true
  | _ :: _, [] => false
  | b :: needle, a :: text => same b a && startsWith needle text

/-- For a needle that is not empty; the number says how much of an occurrence is left. -/
def segmentsFrom (needle : List β) : Nat → List α → List (Segment α)
  | _, [] => []
  | 0, a :: rest =>
      if startsWith same needle (a :: rest) then .hit ((a :: rest).take needle.length) :: segmentsFrom needle (needle.length - 1) rest
      else .skip a :: segmentsFrom needle 0 rest
  | left + 1, _ :: rest => segmentsFrom needle left rest

/-- For the empty needle. -/
def gaps : List α → List (Segment α)
  | [] => [.hit []]
  | a :: rest => .hit [] :: .skip a :: gaps rest

def segments (needle : List β) (text : List α) : List (Segment α) :=
  match needle with
  | [] => gaps text
  | b :: needle => segmentsFrom same (b :: needle) 0 text

end Search

variable {same : β → α → Bool} {needle : List β} {text : List α}

theorem startsWith_nil (text : List α) : startsWith same [] text = true := rfl

theorem startsWith_cons (b : β) (needle : List β) (a : α) (text : List α) :
    startsWith same (b :: needle) (a :: text) = (same b a && startsWith same needle text) := rfl

theorem segmentsFrom_nil (left : Nat) : segmentsFrom same needle left [] = [] := by cases left <;> rfl

theorem segmentsFrom_cons (a : α) (rest : List α) : segmentsFrom same needle 0 (a :: rest) =
    if startsWith same needle (a :: rest) then .hit ((a :: rest).take needle.length) :: segmentsFrom same needle (needle.length - 1) rest
    else .skip a :: segmentsFrom same needle 0 rest := rfl

theorem gaps_nil : gaps ([] : List α) = [.hit []] := rfl

theorem gaps_cons (a : α) (rest : List α) : gaps (a :: rest) = .hit [] :: .skip a :: gaps rest := rfl

theorem forall₂_of_startsWith (h : startsWith same needle text = true) : List.Forall₂ (fun b a => same b a = true) needle (text.take needle.length) := by
  induction needle generalizing text with
  | nil => exact .nil
  | cons b needle ih =>
      cases text with
      | nil => cases h
      | cons a text =>
          rw [startsWith_cons, Bool.and_eq_true] at h
          exact .cons h.1 (ih h.2)

theorem text_segmentsFrom (b : β) (left : Nat) (text : List α) : (segmentsFrom same (b :: needle) left text).flatMap Segment.text = text.drop left := by
  induction text generalizing left with
  | nil => rw [segmentsFrom_nil, List.drop_nil, List.flatMap_nil]
  | cons a rest ih =>
      cases left with
      | zero =>
          rw [segmentsFrom_cons]
          split_ifs
          · rw [List.flatMap_cons, ih]
            exact List.take_append_drop (b :: needle).length (a :: rest)
          · rw [List.flatMap_cons, ih]
            rfl
      | succ left => exact ih left

/-- The pieces of a text give it again. -/
theorem text_segments (needle : List β) (text : List α) : (segments same needle text).flatMap Segment.text = text := by
  cases needle with
  | nil =>
      rw [segments]
      induction text with
      | nil => rfl
      | cons a rest ih =>
          rw [gaps_cons, List.flatMap_cons, List.flatMap_cons, ih]
          rfl
  | cons b needle => exact text_segmentsFrom b 0 text

theorem matches_of_mem_segmentsFrom {group : List α} {left : Nat} (h : .hit group ∈ segmentsFrom same needle left text) :
    List.Forall₂ (fun b a => same b a = true) needle group := by
  induction text generalizing left with
  | nil => cases h
  | cons a rest ih =>
      cases left with
      | zero =>
          rw [segmentsFrom_cons] at h
          split_ifs at h with hstart
          · rcases List.mem_cons.mp h with heq | hrest
            · exact Segment.hit.inj heq ▸ forall₂_of_startsWith hstart
            · exact ih hrest
          · exact ih ((List.mem_cons.mp h).resolve_left nofun)
      | succ left => exact ih h

theorem eq_nil_of_mem_gaps {group : List α} (h : .hit group ∈ gaps text) : group = [] := by
  induction text with
  | nil => exact Segment.hit.inj (List.mem_singleton.mp h)
  | cons a rest ih =>
      rcases List.mem_cons.mp h with heq | hrest
      · exact Segment.hit.inj heq
      · exact ih ((List.mem_cons.mp hrest).resolve_left nofun)

/-- An occurrence is one of the needle. -/
theorem matches_of_mem_segments {group : List α} (h : .hit group ∈ segments same needle text) :
    List.Forall₂ (fun b a => same b a = true) needle group := by
  cases needle with
  | nil => exact eq_nil_of_mem_gaps h ▸ .nil
  | cons b needle => exact matches_of_mem_segmentsFrom h

/-! ### Texts that carry more -/

variable {same' : β → γ → Bool} {f : α → γ}

theorem startsWith_map (hsame : ∀ b a, same' b (f a) = same b a) (needle : List β) (text : List α) :
    startsWith same' needle (text.map f) = startsWith same needle text := by
  induction needle generalizing text with
  | nil => rw [startsWith_nil, startsWith_nil]
  | cons b needle ih =>
      cases text with
      | nil => rfl
      | cons a text => rw [List.map_cons, startsWith_cons, startsWith_cons, hsame, ih]

theorem segmentsFrom_map (hsame : ∀ b a, same' b (f a) = same b a) (needle : List β) (left : Nat) (text : List α) :
    segmentsFrom same' needle left (text.map f) = (segmentsFrom same needle left text).map (Segment.map f) := by
  induction text generalizing left with
  | nil => rw [List.map_nil, segmentsFrom_nil, segmentsFrom_nil, List.map_nil]
  | cons a rest ih =>
      cases left with
      | zero =>
          rw [List.map_cons, segmentsFrom_cons, segmentsFrom_cons, ← List.map_cons, startsWith_map hsame]
          split_ifs
          · rw [List.map_cons, ih, ← List.map_cons, ← List.map_take]
            rfl
          · rw [List.map_cons, ih]
            rfl
      | succ left => exact ih left

/-- The search sees of an element only what is compared. -/
theorem segments_map (hsame : ∀ b a, same' b (f a) = same b a) (needle : List β) (text : List α) :
    segments same' needle (text.map f) = (segments same needle text).map (Segment.map f) := by
  cases needle with
  | nil =>
      rw [segments, segments]
      induction text with
      | nil => rfl
      | cons a rest ih =>
          rw [List.map_cons, gaps_cons, ih]
          rfl
  | cons b needle => exact segmentsFrom_map hsame (b :: needle) 0 text

end Foundation.Segments
