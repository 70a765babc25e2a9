import Mathlib.Data.List.Basic

/-!
# Loops in `Except`

A loop that asks something of each element of a list ends well if every element answers, and then it has the answers. If all that an element can raise is one exception, then the loop raises it as soon as one element does.
-/

namespace Foundation.Fallible

variable {ε α β : Type}

theorem ok_bind (a : α) (f : α → Except ε β) : (Except.ok a >>= f) = f a := rfl

theorem mapM_ok {ask : α → Except ε β} {answer : α → β} {items : List α} (hask : ∀ x ∈ items, ask x = .ok (answer x)) :
    items.mapM ask = .ok (items.map answer) := by
  induction items with
  | nil => rfl
  | cons x items ih =>
      rw [List.mapM_cons, hask x List.mem_cons_self, ih fun y hy => hask y (List.mem_cons_of_mem _ hy)]
      rfl

theorem forall₂_of_mapM {ask : α → Except ε β} {items : List α} {answers : List β} (h : items.mapM ask = .ok answers) :
    List.Forall₂ (fun x a => ask x = .ok a) items answers := by
  induction items generalizing answers with
  | nil =>
      rw [List.mapM_nil] at h
      cases h
      exact .nil
  | cons x items ih =>
      rw [List.mapM_cons] at h
      cases hx : ask x with
      | error e =>
          rw [hx] at h
          cases h
      | ok a =>
          rw [hx] at h
          cases hrest : items.mapM ask with
          | error e =>
              rw [hrest] at h
              cases h
          | ok rest =>
              rw [hrest] at h
              cases h
              exact .cons hx (ih hrest)

theorem eq_map_of_mapM {ask : α → Except ε β} {answer : α → β} (hask : ∀ x a, ask x = .ok a → a = answer x) {items : List α} {answers : List β}
    (h : items.mapM ask = .ok answers) : answers = items.map answer := by
  have hall := forall₂_of_mapM h
  clear h
  induction hall with
  | nil => rfl
  | cons hx _ ih => rw [List.map_cons, ← hask _ _ hx, ← ih]

theorem map_eq_of_mapM {ask : α → Except ε β} {question : β → α} (hask : ∀ x a, ask x = .ok a → question a = x) {items : List α} {answers : List β}
    (h : items.mapM ask = .ok answers) : answers.map question = items := by
  have hall := forall₂_of_mapM h
  clear h
  induction hall with
  | nil => rfl
  | cons hx _ ih => rw [List.map_cons, hask _ _ hx, ih]

/-- What a loop that ended well has is what some element answered. -/
theorem exists_of_mem_mapM {ask : α → Except ε β} {items : List α} {answers : List β} (h : items.mapM ask = .ok answers) :
    ∀ a ∈ answers, ∃ x ∈ items, ask x = .ok a := by
  induction items generalizing answers with
  | nil =>
      obtain rfl := Except.ok.inj h
      exact fun a ha => absurd ha List.not_mem_nil
  | cons x items ih =>
      rw [List.mapM_cons] at h
      cases hx : ask x with
      | error e =>
          rw [hx] at h
          cases h
      | ok first =>
          rw [hx, ok_bind] at h
          cases hrest : items.mapM ask with
          | error e =>
              rw [hrest] at h
              cases h
          | ok rest =>
              rw [hrest, ok_bind] at h
              obtain rfl := Except.ok.inj h
              intro a ha
              rcases List.mem_cons.mp ha with rfl | ha
              · exact ⟨x, List.mem_cons_self, hx⟩
              · obtain ⟨y, hy, hask⟩ := ih hrest a ha
                exact ⟨y, List.mem_cons_of_mem x hy, hask⟩

theorem mem_mapM_iff {ask : α → Except ε β} {items : List α} {answers : List β} (h : items.mapM ask = .ok answers) (a : β) :
    a ∈ answers ↔ ∃ x ∈ items, ask x = .ok a := by
  refine ⟨exists_of_mem_mapM h a, ?_⟩
  have hall := forall₂_of_mapM h
  clear h
  rintro ⟨x, hx, hask⟩
  induction hall with
  | nil => cases hx
  | @cons y b items answers hy _ ih =>
      rcases List.mem_cons.mp hx with rfl | hx
      · rw [hask] at hy
        exact List.mem_cons.mpr (.inl (Except.ok.inj hy))
      · exact List.mem_cons_of_mem b (ih hx)

theorem exists_mapM_ok {ask : α → Except ε β} {items : List α} (hask : ∀ x ∈ items, ∃ a, ask x = .ok a) :
    ∃ answers, items.mapM ask = .ok answers ∧ List.Forall₂ (fun x a => ask x = .ok a) items answers := by
  induction items with
  | nil => exact ⟨[], rfl, .nil⟩
  | cons x items ih =>
      obtain ⟨a, ha⟩ := hask x List.mem_cons_self
      obtain ⟨answers, hanswers, hall⟩ := ih fun y hy => hask y (List.mem_cons_of_mem _ hy)
      refine ⟨a :: answers, ?_, .cons ha hall⟩
      rw [List.mapM_cons, ha, hanswers]
      rfl

theorem mapM_error {ask : α → Except ε β} {items : List α} {e : ε} (hask : ∀ x ∈ items, ∀ e', ask x = .error e' → e' = e)
    (hraises : ∃ x ∈ items, ask x = .error e) : items.mapM ask = .error e := by
  induction items with
  | nil =>
      obtain ⟨x, hx, -⟩ := hraises
      cases hx
  | cons x items ih =>
      rw [List.mapM_cons]
      cases hanswer : ask x with
      | error e' =>
          rw [hask x List.mem_cons_self e' hanswer]
          rfl
      | ok a =>
          obtain ⟨y, hy, hraise⟩ := hraises
          have hmem : y ∈ items := (List.mem_cons.mp hy).resolve_left fun heq => by
            rw [heq, hanswer] at hraise
            cases hraise
          rw [ih (fun z hz => hask z (List.mem_cons_of_mem _ hz)) ⟨y, hmem, hraise⟩]
          rfl

theorem bind_ne {x : Except ε α} {f : α → Except ε β} {e : ε} (hx : x ≠ .error e) (hf : ∀ a, f a ≠ .error e) : (x >>= f) ≠ .error e := by
  cases x with
  | error e' => exact fun h => hx (congrArg Except.error (Except.error.inj h))
  | ok a => exact hf a

theorem mapM_ne {ask : α → Except ε β} {items : List α} {e : ε} (hask : ∀ x ∈ items, ask x ≠ .error e) : items.mapM ask ≠ .error e := by
  induction items with
  | nil => exact fun h => by cases h
  | cons x items ih =>
      rw [List.mapM_cons]
      exact bind_ne (hask x List.mem_cons_self) fun a =>
        bind_ne (ih fun y hy => hask y (List.mem_cons_of_mem _ hy)) fun answers h => by cases h

theorem exists_of_mapM_error {ask : α → Except ε β} {items : List α} {e : ε} (h : items.mapM ask = .error e) : ∃ x ∈ items, ask x = .error e := by
  by_contra hnone
  exact mapM_ne (fun x hx hask => hnone ⟨x, hx, hask⟩) h

theorem exists_foldlM_ok {σ : Type} {step : σ → α → Except ε σ} {items : List α} (hstep : ∀ x ∈ items, ∀ s, ∃ t, step s x = .ok t) (s : σ) :
    ∃ t, items.foldlM step s = .ok t := by
  induction items generalizing s with
  | nil => exact ⟨s, rfl⟩
  | cons x items ih =>
      obtain ⟨t, ht⟩ := hstep x List.mem_cons_self s
      rw [List.foldlM_cons, ht]
      exact ih (fun y hy => hstep y (List.mem_cons_of_mem _ hy)) t

/-- A loop that adds the things related to each element. -/
theorem foldlM_collects {step : List β → α → Except ε (List β)} {related : α → β → Prop} {items : List α}
    (hstep : ∀ x ∈ items, ∀ ys, ∃ ys', step ys x = .ok ys' ∧ ∀ y, y ∈ ys' ↔ y ∈ ys ∨ related x y) (ys : List β) :
    ∃ ys', items.foldlM step ys = .ok ys' ∧ ∀ y, y ∈ ys' ↔ y ∈ ys ∨ ∃ x ∈ items, related x y := by
  induction items generalizing ys with
  | nil => exact ⟨ys, rfl, fun y => by simp⟩
  | cons x items ih =>
      obtain ⟨ys₁, hfirst, hmem₁⟩ := hstep x List.mem_cons_self ys
      obtain ⟨ys₂, hrest, hmem₂⟩ := ih (fun z hz => hstep z (List.mem_cons_of_mem _ hz)) ys₁
      refine ⟨ys₂, ?_, fun y => ?_⟩
      · rw [List.foldlM_cons, hfirst]
        exact hrest
      · rw [hmem₂, hmem₁, List.exists_mem_cons_iff, or_assoc]

/-- A loop raises its one exception if some element always does. -/
theorem foldlM_raises {σ : Type} {step : σ → α → Except ε σ} {items : List α} {e : ε}
    (hstep : ∀ x ∈ items, ∀ s, (∃ t, step s x = .ok t) ∨ step s x = .error e) (hraises : ∃ x ∈ items, ∀ s, step s x = .error e) (s : σ) :
    items.foldlM step s = .error e := by
  induction items generalizing s with
  | nil =>
      obtain ⟨x, hx, -⟩ := hraises
      cases hx
  | cons x items ih =>
      rw [List.foldlM_cons]
      rcases hstep x List.mem_cons_self s with ⟨t, ht⟩ | herror
      · obtain ⟨y, hy, hraise⟩ := hraises
        have hmem : y ∈ items := (List.mem_cons.mp hy).resolve_left fun heq => by
          rw [← heq, hraise s] at ht
          cases ht
        rw [ht]
        exact ih (fun z hz => hstep z (List.mem_cons_of_mem _ hz)) ⟨y, hmem, hraise⟩ t
      · rw [herror]
        rfl

theorem filterAuxM_cons (ask : α → Except ε Bool) (x : α) (items kept : List α) :
    (x :: items).filterAuxM ask kept = ask x >>= fun b => items.filterAuxM ask (cond b (x :: kept) kept) := rfl

theorem filterM_eq_bind (ask : α → Except ε Bool) (items : List α) :
    items.filterM ask = items.filterAuxM ask [] >>= fun kept => pure kept.reverse := rfl

/-- A filter whose test answers ends well. -/
theorem exists_filterM_ok {ask : α → Except ε Bool} {items : List α} (hask : ∀ x ∈ items, ∃ b, ask x = .ok b) :
    ∃ kept, items.filterM ask = .ok kept := by
  have hauxiliary : ∀ kept, ∃ kept', items.filterAuxM ask kept = .ok kept' := by
    induction items with
    | nil => exact fun kept => ⟨kept, rfl⟩
    | cons x items ih =>
        intro kept
        obtain ⟨b, hb⟩ := hask x List.mem_cons_self
        rw [filterAuxM_cons, hb]
        exact ih (fun y hy => hask y (List.mem_cons_of_mem _ hy)) _
  obtain ⟨kept, hkept⟩ := hauxiliary []
  refine ⟨kept.reverse, ?_⟩
  rw [filterM_eq_bind, hkept]
  rfl

theorem filterM_of_ok {ask : α → Except ε Bool} {answer : α → Bool} {items : List α} (hask : ∀ x ∈ items, ask x = .ok (answer x)) :
    items.filterM ask = .ok (items.filter answer) := by
  have hauxiliary : ∀ kept, items.filterAuxM ask kept = .ok ((items.filter answer).reverse ++ kept) := by
    induction items with
    | nil => exact fun kept => rfl
    | cons x items ih =>
        intro kept
        rw [filterAuxM_cons, hask x List.mem_cons_self, ok_bind, ih fun y hy => hask y (List.mem_cons_of_mem _ hy), List.filter_cons]
        cases answer x with
        | false => rfl
        | true => rw [if_pos rfl, List.reverse_cons, List.append_assoc, List.singleton_append]; rfl
  rw [filterM_eq_bind, hauxiliary, List.append_nil]
  exact congrArg Except.ok (List.reverse_reverse _)

/-- A filter raises if its test does on some element. -/
theorem filterM_ne_ok {ask : α → Except ε Bool} {items : List α} (hask : ∃ x ∈ items, ∃ e, ask x = .error e) (kept : List α) :
    items.filterM ask ≠ .ok kept := by
  have hauxiliary : ∀ sofar kept, items.filterAuxM ask sofar ≠ .ok kept := by
    induction items with
    | nil =>
        obtain ⟨x, hx, -⟩ := hask
        cases hx
    | cons x items ih =>
        intro sofar kept h
        rw [filterAuxM_cons] at h
        cases hx : ask x with
        | error e =>
            rw [hx] at h
            cases h
        | ok b =>
            rw [hx, ok_bind] at h
            refine ih ?_ _ kept h
            obtain ⟨y, hy, e, he⟩ := hask
            rcases List.mem_cons.mp hy with rfl | hy
            · rw [hx] at he
              cases he
            · exact ⟨y, hy, e, he⟩
  intro h
  rw [filterM_eq_bind] at h
  cases hrun : items.filterAuxM ask [] with
  | error e =>
      rw [hrun] at h
      cases h
  | ok result => exact hauxiliary [] result hrun

end Foundation.Fallible
