import Mathlib.Data.List.Basic

/-!
# Results kept for later

A computation whose result is kept under a slot of its key, and only where it says so. A kept entry answers for every key of the slot, so it has to know more than the one result it was made from. Where it does, nobody can tell the computation with the kept entries from the one without.
-/

namespace Foundation

structure Memo (κ σ ε ρ : Type) where
  slot : κ → σ
  compute : κ → ρ
  hit : ε → κ → ρ
  keep : κ → ρ → Option ε

namespace Memo

variable {κ σ ε ρ : Type} [BEq σ] [LawfulBEq σ] (memo : Memo κ σ ε ρ)

/-- One request: the result, and the entries after it. -/
def step (entries : List (σ × ε)) (key : κ) : ρ × List (σ × ε) :=
  match entries.lookup (memo.slot key) with
  | some entry => (memo.hit entry key, entries)
  | none =>
      let result := memo.compute key
      (result, match memo.keep key result with
        | some entry => (memo.slot key, entry) :: entries
        | none => entries)

/-- The results of requests made one after the other. -/
def run (entries : List (σ × ε)) : List κ → List ρ
  | [] => []
  | key :: keys => (memo.step entries key).1 :: run (memo.step entries key).2 keys

/-- What is kept for a key answers every key of its slot as the computation does. -/
def Sound : Prop :=
  ∀ key entry, memo.keep key (memo.compute key) = some entry →
    ∀ other, memo.slot other = memo.slot key → memo.hit entry other = memo.compute other

/-- Each entry answers for its slot as the computation does. -/
def Agrees (entries : List (σ × ε)) : Prop :=
  ∀ key entry, entries.lookup (memo.slot key) = some entry → memo.hit entry key = memo.compute key

variable {memo} {entries : List (σ × ε)}

omit [LawfulBEq σ] in
theorem agrees_nil : memo.Agrees [] := by
  intro key entry hlookup
  cases hlookup

omit [LawfulBEq σ] in
theorem Agrees.step_fst (h : memo.Agrees entries) (key : κ) : (memo.step entries key).1 = memo.compute key := by
  rw [step]
  cases hlookup : entries.lookup (memo.slot key) with
  | some entry => exact h key entry hlookup
  | none => rfl

theorem Agrees.step_snd (h : memo.Agrees entries) (hsound : memo.Sound) (key : κ) : memo.Agrees (memo.step entries key).2 := by
  rw [step]
  cases hlookup : entries.lookup (memo.slot key) with
  | some entry => exact h
  | none =>
      cases hkeep : memo.keep key (memo.compute key) with
      | none =>
          simp only [hkeep]
          exact h
      | some entry =>
          simp only [hkeep]
          intro other found hfound
          by_cases hslot : memo.slot other = memo.slot key
          · rw [hslot, List.lookup_cons_self] at hfound
            cases hfound
            exact hsound key entry hkeep other hslot
          · rw [List.lookup_cons, beq_false_of_ne hslot] at hfound
            exact h other found hfound

theorem Agrees.run_eq_map (h : memo.Agrees entries) (hsound : memo.Sound) (keys : List κ) :
    memo.run entries keys = keys.map memo.compute := by
  induction keys generalizing entries with
  | nil => rfl
  | cons key keys ih => rw [run, List.map_cons, h.step_fst, ih (h.step_snd hsound key)]

/-- From no entries on, every request gets the computed result. -/
theorem run_nil (hsound : memo.Sound) (keys : List κ) : memo.run [] keys = keys.map memo.compute :=
  agrees_nil.run_eq_map hsound keys

end Memo

end Foundation
