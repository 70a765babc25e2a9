import Mathlib.Data.List.Chain

/-!
# Marks in one pass

A pass goes once through a list. Each entry that is marked when its turn comes marks what it leads to, which may be an entry whose turn has passed. So in the end an element is marked if a chain leads to it from a mark of the beginning, and the chain goes forward in the list.
-/

namespace Foundation.OnePass

variable {α : Type} (leads : α → α → Prop)

/-- The marks after the turn of `a`. -/
def turn (marked : α → Prop) (a : α) : α → Prop := fun x => marked x ∨ (marked a ∧ leads a x)

def Chained (order : List α) (marked : α → Prop) (x : α) : Prop :=
  ∃ a chain, (a :: chain).Sublist order ∧ marked a ∧ List.IsChain leads (a :: (chain ++ [x]))

variable {leads} {marked : α → Prop} {order : List α} {o x : α}

theorem Chained.later (h : Chained leads order marked x) : Chained leads (o :: order) marked x := by
  obtain ⟨a, chain, hsublist, ha, hchain⟩ := h
  exact ⟨a, chain, hsublist.cons o, ha, hchain⟩

/-- A chain in what follows `o` either starts from an old mark or continues one that starts at `o`. -/
theorem chained_turn : Chained leads order (turn leads marked o) x ∨ turn leads marked o x ↔ marked x ∨ Chained leads (o :: order) marked x := by
  constructor
  · rintro (⟨a, chain, hsublist, ha | ⟨ho, hleads⟩, hchain⟩ | hx | ⟨ho, hleads⟩)
    · exact .inr (Chained.later ⟨a, chain, hsublist, ha, hchain⟩)
    · exact .inr ⟨o, a :: chain, hsublist.cons_cons o, ho, List.isChain_cons_cons.mpr ⟨hleads, hchain⟩⟩
    · exact .inl hx
    · exact .inr ⟨o, [], (List.nil_sublist order).cons_cons o, ho, List.isChain_pair.mpr hleads⟩
  · rintro (hx | ⟨a, chain, hsublist, ha, hchain⟩)
    · exact .inr (.inl hx)
    · cases hsublist with
      | cons _ hsublist => exact .inl ⟨a, chain, hsublist, .inl ha, hchain⟩
      | cons_cons _ hsublist =>
          cases chain with
          | nil => exact .inr (.inr ⟨ha, List.isChain_pair.mp hchain⟩)
          | cons b chain =>
              obtain ⟨hleads, hchain⟩ := List.isChain_cons_cons.mp hchain
              exact .inl ⟨b, chain, hsublist, .inr ⟨ha, hleads⟩, hchain⟩

theorem foldl_turn (order : List α) (marked : α → Prop) (x : α) :
    order.foldl (turn leads) marked x ↔ marked x ∨ Chained leads order marked x := by
  induction order generalizing marked with
  | nil =>
      refine ⟨.inl, ?_⟩
      rintro (hx | ⟨a, chain, hsublist, -⟩)
      · exact hx
      · cases hsublist
  | cons o order ih => rw [List.foldl_cons, ih, ← chained_turn, or_comm]

end Foundation.OnePass
