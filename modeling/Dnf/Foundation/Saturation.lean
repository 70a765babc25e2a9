import Mathlib.Data.Finset.Union
import Mathlib.Data.Finset.SDiff
import Mathlib.Data.Finset.Card
import Mathlib.Logic.Relation

/-!
# Saturation of a finite set

A search that keeps what it has found and goes on from what was new in the last round. It ends because everything it finds lies in one finite set, and what it ends with are the elements that the start leads to. The invariant is about the elements found before the last round: all that they lead to in one step has been found already.
-/

namespace Foundation

open Relation

variable {α : Type} [DecidableEq α]

theorem card_sdiff_union_lt {bound found done : Finset α} (hfound : found ⊆ bound) (hnew : (found \ done).Nonempty) :
    (bound \ (found ∪ done)).card < (bound \ done).card := by
  obtain ⟨a, ha⟩ := hnew
  rw [Finset.mem_sdiff] at ha
  refine Finset.card_lt_card (Finset.ssubset_iff_of_subset (Finset.sdiff_subset_sdiff (Finset.Subset.refl _) Finset.subset_union_right) |>.mpr ?_)
  exact ⟨a, Finset.mem_sdiff.mpr ⟨hfound ha.1, ha.2⟩, fun h => (Finset.mem_sdiff.mp h).2 (Finset.mem_union_left _ ha.1)⟩

/-- The search in `bound` along `next`, from the elements of `select` and with `done` found before. -/
def saturate (bound : Finset α) (next : α → Finset α) (select done : Finset α) : Finset α :=
  if ((select.biUnion next ∩ bound) \ done).Nonempty then
    saturate bound next ((select.biUnion next ∩ bound) \ done) (select.biUnion next ∩ bound ∪ done)
  else select.biUnion next ∩ bound ∪ done
termination_by (bound \ done).card
decreasing_by exact card_sdiff_union_lt Finset.inter_subset_right ‹_›

theorem saturate_eq (bound : Finset α) (next : α → Finset α) (select done : Finset α) :
    saturate bound next select done =
      if ((select.biUnion next ∩ bound) \ done).Nonempty then
        saturate bound next ((select.biUnion next ∩ bound) \ done) (select.biUnion next ∩ bound ∪ done)
      else select.biUnion next ∩ bound ∪ done :=
  saturate.eq_1 bound next select done

/-- By the rounds of the search. -/
theorem saturate_rounds (bound : Finset α) (next : α → Finset α) {motive : Finset α → Finset α → Prop}
    (new : ∀ select done, ((select.biUnion next ∩ bound) \ done).Nonempty →
      motive ((select.biUnion next ∩ bound) \ done) (select.biUnion next ∩ bound ∪ done) → motive select done)
    (last : ∀ select done, ¬((select.biUnion next ∩ bound) \ done).Nonempty → motive select done) (select done : Finset α) : motive select done :=
  saturate.induct bound next motive new last select done

theorem saturate_of_new {bound : Finset α} {next : α → Finset α} {select done : Finset α}
    (hnew : ((select.biUnion next ∩ bound) \ done).Nonempty) :
    saturate bound next select done =
      saturate bound next ((select.biUnion next ∩ bound) \ done) (select.biUnion next ∩ bound ∪ done) := by
  rw [saturate_eq, if_pos hnew]

theorem saturate_of_not_new {bound : Finset α} {next : α → Finset α} {select done : Finset α}
    (hnew : ¬((select.biUnion next ∩ bound) \ done).Nonempty) :
    saturate bound next select done = select.biUnion next ∩ bound ∪ done := by
  rw [saturate_eq, if_neg hnew]

/-- One step of the search. -/
def Leads (bound : Finset α) (next : α → Finset α) (a b : α) : Prop := b ∈ next a ∧ b ∈ bound

theorem mem_found_iff {bound : Finset α} {next : α → Finset α} {select : Finset α} {b : α} :
    b ∈ select.biUnion next ∩ bound ↔ ∃ a ∈ select, Leads bound next a b := by
  simp only [Finset.mem_inter, Finset.mem_biUnion, Leads]
  tauto

/-- What has been found before the last round leads nowhere new in one step. -/
def Followed (bound : Finset α) (next : α → Finset α) (select done : Finset α) : Prop :=
  ∀ a ∈ done, a ∈ select ∨ ∀ b, Leads bound next a b → b ∈ done

variable {bound : Finset α} {next : α → Finset α}

theorem subset_saturate (select done : Finset α) : done ⊆ saturate bound next select done := by
  induction select, done using saturate_rounds bound next with
  | new select done hnew ih =>
      rw [saturate_of_new hnew]
      exact Finset.subset_union_right.trans ih
  | last select done hnew =>
      rw [saturate_of_not_new hnew]
      exact Finset.subset_union_right

theorem Followed.step {select done : Finset α} (hfollowed : Followed bound next select done) :
    Followed bound next ((select.biUnion next ∩ bound) \ done) (select.biUnion next ∩ bound ∪ done) := by
  intro a ha
  by_cases hdone : a ∈ done
  · refine Or.inr fun b hb => Finset.mem_union.mpr ?_
    rcases hfollowed a hdone with hselect | hclosed
    · exact Or.inl (mem_found_iff.mpr ⟨a, hselect, hb⟩)
    · exact Or.inr (hclosed b hb)
  · rcases Finset.mem_union.mp ha with hfound | hdone'
    · exact Or.inl (Finset.mem_sdiff.mpr ⟨hfound, hdone⟩)
    · exact absurd hdone' hdone

/-- From the elements found so far, a chain of steps leads to what has been found or passes through what is new. -/
theorem Followed.chain {select done : Finset α} (hfollowed : Followed bound next select done) {a b : α}
    (ha : a ∈ select) (hchain : TransGen (Leads bound next) a b) :
    b ∈ select.biUnion next ∩ bound ∪ done ∨
      ∃ c ∈ (select.biUnion next ∩ bound) \ done, TransGen (Leads bound next) c b := by
  induction hchain with
  | single hstep => exact Or.inl (Finset.mem_union_left _ (mem_found_iff.mpr ⟨a, ha, hstep⟩))
  | tail _ hstep ih =>
      rcases ih with hmem | ⟨c, hc, hchain⟩
      · rcases hfollowed.step _ hmem with hnew | hclosed
        · exact Or.inr ⟨_, hnew, .single hstep⟩
        · exact Or.inl (hclosed _ hstep)
      · exact Or.inr ⟨c, hc, hchain.tail hstep⟩

theorem mem_saturate_iff {select done : Finset α} (hfollowed : Followed bound next select done) {b : α} :
    b ∈ saturate bound next select done ↔ b ∈ done ∨ ∃ a ∈ select, TransGen (Leads bound next) a b := by
  induction select, done using saturate_rounds bound next with
  | new select done hnew ih =>
      rw [saturate_of_new hnew, ih hfollowed.step, Finset.mem_union, mem_found_iff]
      constructor
      · rintro ((⟨a, ha, hstep⟩ | hdone) | ⟨c, hc, hchain⟩)
        · exact Or.inr ⟨a, ha, .single hstep⟩
        · exact Or.inl hdone
        · obtain ⟨a, ha, hstep⟩ := mem_found_iff.mp (Finset.mem_sdiff.mp hc).1
          exact Or.inr ⟨a, ha, hchain.head hstep⟩
      · rintro (hdone | ⟨a, ha, hchain⟩)
        · exact Or.inl (Or.inr hdone)
        · have hchain := hfollowed.chain ha hchain
          rwa [Finset.mem_union, mem_found_iff] at hchain
  | last select done hnew =>
      rw [saturate_of_not_new hnew, Finset.mem_union, mem_found_iff]
      constructor
      · rintro (⟨a, ha, hstep⟩ | hdone)
        · exact Or.inr ⟨a, ha, .single hstep⟩
        · exact Or.inl hdone
      · rintro (hdone | ⟨a, ha, hchain⟩)
        · exact Or.inr hdone
        · rcases hfollowed.chain ha hchain with hmem | ⟨c, hc, _⟩
          · rwa [Finset.mem_union, mem_found_iff] at hmem
          · exact absurd ⟨c, hc⟩ hnew

end Foundation
