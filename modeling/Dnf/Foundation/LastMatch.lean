import Mathlib.Data.List.Basic

/-!
# The last match wins

A sequence of operations, each with a key and a value, is applied to a cell in order: an operation whose key accepts the cell writes its value there. If a write leaves nothing of the one before it, the cell holds at the end what the last operation that accepts it writes, and nothing else about the sequence matters.
-/

namespace Foundation

variable {κ α ν σ : Type} (accepts : κ → α → Bool)

def lastMatch (ops : List (κ × ν)) (x : α) : Option ν := ((ops.filter fun op => accepts op.1 x).getLast?).map Prod.snd

/-- The cell of `x`, after the operations. -/
def overwritten (write : σ → ν → σ) (ops : List (κ × ν)) (x : α) (cell : σ) : σ :=
  ops.foldl (fun held op => if accepts op.1 x then write held op.2 else held) cell

variable {accepts} {ops ops' : List (κ × ν)} {x : α} {new : ν}

theorem lastMatch_append (ops ops' : List (κ × ν)) (x : α) :
    lastMatch accepts (ops ++ ops') x = (lastMatch accepts ops' x).or (lastMatch accepts ops x) := by
  rw [lastMatch, lastMatch, lastMatch, List.filter_append, List.getLast?_append]
  cases ((ops'.filter fun op => accepts op.1 x).getLast?) <;> rfl

theorem lastMatch_singleton (op : κ × ν) (x : α) : lastMatch accepts [op] x = if accepts op.1 x then some op.2 else none := by
  rw [lastMatch, List.filter_singleton]
  cases accepts op.1 x <;> rfl

theorem lastMatch_eq_none : lastMatch accepts ops x = none ↔ ∀ op ∈ ops, accepts op.1 x = false := by
  rw [lastMatch, Option.map_eq_none_iff, List.getLast?_eq_none_iff, List.filter_eq_nil_iff]
  exact forall₂_congr fun op _ => Bool.not_eq_true _ ▸ Iff.rfl

theorem mem_of_lastMatch (h : lastMatch accepts ops x = some new) : ∃ op ∈ ops, accepts op.1 x = true ∧ op.2 = new := by
  obtain ⟨op, hlast, hvalue⟩ := Option.map_eq_some_iff.mp h
  obtain ⟨hmem, haccepts⟩ := List.mem_filter.mp (List.mem_of_getLast? hlast)
  exact ⟨op, hmem, haccepts, hvalue⟩

theorem lastMatch_append_self (ops : List (κ × ν)) (x : α) : lastMatch accepts (ops ++ ops) x = lastMatch accepts ops x := by
  rw [lastMatch_append, Option.or_self]

/-- Among operations of one value only the keys that occur matter. -/
theorem lastMatch_congr (hvalue : ∀ op ∈ ops ++ ops', op.2 = new) (hkeys : ∀ key, key ∈ ops.map Prod.fst ↔ key ∈ ops'.map Prod.fst) :
    lastMatch accepts ops x = lastMatch accepts ops' x := by
  have hsome : ∀ {some₁ some₂ : List (κ × ν)}, (∀ op ∈ some₁ ++ some₂, op.2 = new) → (∀ key, key ∈ some₁.map Prod.fst → key ∈ some₂.map Prod.fst) →
      ∀ {v : ν}, lastMatch accepts some₁ x = some v → lastMatch accepts some₂ x = some v := by
    intro some₁ some₂ hvalue hsub v h
    obtain ⟨op, hop, haccepts, rfl⟩ := mem_of_lastMatch h
    obtain ⟨op', hop', hkey⟩ := List.mem_map.mp (hsub op.1 (List.mem_map_of_mem hop))
    cases hlast : lastMatch accepts some₂ x with
    | none => exact absurd (hkey ▸ lastMatch_eq_none.mp hlast op' hop') (by rw [haccepts]; exact Bool.noConfusion)
    | some w =>
        obtain ⟨last, hmem, -, rfl⟩ := mem_of_lastMatch hlast
        rw [hvalue last (List.mem_append_right _ hmem), hvalue op (List.mem_append_left _ hop)]
  have hswap : ∀ op ∈ ops' ++ ops, op.2 = new := fun op hop => hvalue op (List.mem_append.mpr (List.mem_append.mp hop).symm)
  exact Option.ext fun v => ⟨hsome hvalue fun key => (hkeys key).mp, hsome hswap fun key => (hkeys key).mpr⟩

theorem overwritten_eq_lastMatch {write : σ → ν → σ} (hwrite : ∀ cell v w, write (write cell v) w = write cell w) (ops : List (κ × ν)) (x : α) (cell : σ) :
    overwritten accepts write ops x cell = (lastMatch accepts ops x).elim cell (write cell) := by
  induction ops generalizing cell with
  | nil => rfl
  | cons op ops ih =>
      rw [show op :: ops = [op] ++ ops from rfl, lastMatch_append, lastMatch_singleton]
      refine (ih (if accepts op.1 x then write cell op.2 else cell)).trans ?_
      cases hlast : lastMatch accepts ops x with
      | none => cases accepts op.1 x <;> rfl
      | some v =>
          cases accepts op.1 x with
          | false => rfl
          | true => exact hwrite cell op.2 v

end Foundation
