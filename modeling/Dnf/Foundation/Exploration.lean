import Mathlib.Data.Finset.Insert
import Mathlib.Logic.Relation

/-!
# Depth-first exploration

A search that lists every element it meets and goes on below an element only the first time, with one set of the elements seen for the whole search. The successors of an element are listed when it is entered, whether or not they have been seen, so below a root stands what the root leads to and nothing else.
-/

namespace Foundation

open Relation

variable {α : Type} [DecidableEq α]

/-- The search from the elements of `start` and with `seen` seen before: what it lists, what it enters, and what it has seen in the end. -/
inductive Explores (next : α → List α) : List α → Finset α → List α → List α → Finset α → Prop
  | nil {seen} : Explores next [] seen [] [] seen
  | again {a start seen listed entered seen'} (ha : a ∈ seen) (hrest : Explores next start seen listed entered seen') :
      Explores next (a :: start) seen (a :: listed) entered seen'
  | enter {a start seen below first between others second seen'} (ha : a ∉ seen) (hbelow : Explores next (next a) (insert a seen) below first between)
      (hrest : Explores next start between others second seen') :
      Explores next (a :: start) seen (a :: (below ++ others)) (a :: (first ++ second)) seen'

namespace Explores

variable {next : α → List α} {start listed entered : List α} {seen seen' : Finset α}

theorem subset (h : Explores next start seen listed entered seen') : seen ⊆ seen' := by
  induction h with
  | nil => exact Finset.Subset.refl _
  | again _ _ ih => exact ih
  | enter _ _ _ ihbelow ihrest => exact ((Finset.subset_insert _ _).trans ihbelow).trans ihrest

theorem lists_start (h : Explores next start seen listed entered seen') : ∀ a ∈ start, a ∈ listed := by
  induction h with
  | nil => exact fun a ha => absurd ha List.not_mem_nil
  | again _ _ ih =>
      intro a ha
      rcases List.mem_cons.mp ha with rfl | hrest
      · exact List.mem_cons_self
      · exact List.mem_cons_of_mem _ (ih a hrest)
  | enter _ _ _ _ ihrest =>
      intro a ha
      rcases List.mem_cons.mp ha with rfl | hrest
      · exact List.mem_cons_self
      · exact List.mem_cons_of_mem _ (List.mem_append_right _ (ihrest a hrest))

/-- Whatever is listed has been seen in the end. -/
theorem listed_seen (h : Explores next start seen listed entered seen') : ∀ a ∈ listed, a ∈ seen' := by
  induction h with
  | nil => exact fun a ha => absurd ha List.not_mem_nil
  | again ha hrest ih =>
      intro b hb
      rcases List.mem_cons.mp hb with rfl | hb
      · exact hrest.subset ha
      · exact ih b hb
  | enter _ hbelow hrest ihbelow ihrest =>
      intro b hb
      rcases List.mem_cons.mp hb with rfl | hb
      · exact hrest.subset (hbelow.subset (Finset.mem_insert_self _ _))
      · rcases List.mem_append.mp hb with hb | hb
        · exact hrest.subset (ihbelow b hb)
        · exact ihrest b hb

/-- The successors of what the search has entered are all listed. -/
theorem closed (h : Explores next start seen listed entered seen') : ∀ a ∈ seen', a ∈ seen ∨ ∀ b ∈ next a, b ∈ listed := by
  induction h with
  | nil => exact fun a ha => .inl ha
  | again _ _ ih => exact fun b hb => (ih b hb).imp_right fun hall c hc => List.mem_cons_of_mem _ (hall c hc)
  | @enter a _ _ _ _ _ _ _ _ _ hbelow _ ihbelow ihrest =>
      intro b hb
      rcases ihrest b hb with hbetween | hall
      · rcases ihbelow b hbetween with hinsert | hall
        · rcases Finset.mem_insert.mp hinsert with rfl | hseen
          · exact .inr fun c hc => List.mem_cons_of_mem _ (List.mem_append_left _ (hbelow.lists_start c hc))
          · exact .inl hseen
        · exact .inr fun c hc => List.mem_cons_of_mem _ (List.mem_append_left _ (hall c hc))
      · exact .inr fun c hc => List.mem_cons_of_mem _ (List.mem_append_right _ (hall c hc))

/-- What holds of the start and passes to successors holds of all that is listed. -/
theorem listed_of {P : α → Prop} (hnext : ∀ a b, P a → b ∈ next a → P b) (h : Explores next start seen listed entered seen') :
    (∀ a ∈ start, P a) → ∀ a ∈ listed, P a := by
  induction h with
  | nil => exact fun _ a ha => absurd ha List.not_mem_nil
  | again _ _ ih =>
      intro hstart b hb
      rcases List.mem_cons.mp hb with rfl | hb
      · exact hstart _ List.mem_cons_self
      · exact ih (fun c hc => hstart c (List.mem_cons_of_mem _ hc)) b hb
  | enter _ _ _ ihbelow ihrest =>
      intro hstart b hb
      have ha := hstart _ List.mem_cons_self
      rcases List.mem_cons.mp hb with rfl | hb
      · exact ha
      · rcases List.mem_append.mp hb with hb | hb
        · exact ihbelow (fun c hc => hnext _ c ha hc) b hb
        · exact ihrest (fun c hc => hstart c (List.mem_cons_of_mem _ hc)) b hb

theorem entered_new (h : Explores next start seen listed entered seen') : ∀ a ∈ entered, a ∉ seen ∧ a ∈ seen' := by
  induction h with
  | nil => exact fun a ha => absurd ha List.not_mem_nil
  | again _ _ ih => exact ih
  | enter ha hbelow hrest ihbelow ihrest =>
      intro b hb
      rcases List.mem_cons.mp hb with rfl | hb
      · exact ⟨ha, hrest.subset (hbelow.subset (Finset.mem_insert_self _ _))⟩
      · rcases List.mem_append.mp hb with hb | hb
        · obtain ⟨hnew, hbetween⟩ := ihbelow b hb
          exact ⟨fun hseen => hnew (Finset.mem_insert_of_mem hseen), hrest.subset hbetween⟩
        · obtain ⟨hnew, hseen'⟩ := ihrest b hb
          exact ⟨fun hseen => hnew (hbelow.subset (Finset.mem_insert_of_mem hseen)), hseen'⟩

theorem nodup_entered (h : Explores next start seen listed entered seen') : entered.Nodup := by
  induction h with
  | nil => exact List.nodup_nil
  | again _ _ ih => exact ih
  | enter _ hbelow hrest ihbelow ihrest =>
      refine List.nodup_cons.mpr ⟨fun hmem => ?_, ihbelow.append ihrest fun b hfirst hsecond => (hrest.entered_new b hsecond).1 (hbelow.entered_new b hfirst).2⟩
      rcases List.mem_append.mp hmem with hfirst | hsecond
      · exact (hbelow.entered_new _ hfirst).1 (Finset.mem_insert_self _ _)
      · exact (hrest.entered_new _ hsecond).1 (hbelow.subset (Finset.mem_insert_self _ _))

variable {root : α}

/-- Below a root stands exactly what it leads to. -/
theorem mem_listed_iff (h : Explores next (next root) {root} listed entered seen') {a : α} :
    a ∈ listed ↔ TransGen (fun b c => c ∈ next b) root a := by
  constructor
  · exact h.listed_of (fun b c hb hc => hb.tail hc) (fun b hb => .single hb) a
  · intro hreach
    induction hreach with
    | single hfirst => exact h.lists_start _ hfirst
    | tail _ hlast ih =>
        rcases h.closed _ (h.listed_seen _ ih) with hroot | hall
        · exact h.lists_start _ (Finset.mem_singleton.mp hroot ▸ hlast)
        · exact hall _ hlast

theorem nodup_root_entered (h : Explores next (next root) {root} listed entered seen') : (root :: entered).Nodup :=
  List.nodup_cons.mpr ⟨fun hmem => (h.entered_new root hmem).1 (Finset.mem_singleton_self root), h.nodup_entered⟩

end Explores

end Foundation
