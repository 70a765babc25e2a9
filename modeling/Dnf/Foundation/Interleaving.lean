import Mathlib.Algebra.BigOperators.Group.List.Basic
import Mathlib.Algebra.Order.BigOperators.Group.List
import Mathlib.Algebra.Order.Ring.Int
import Mathlib.Data.Int.Basic
import Mathlib.Data.List.Induction
import Mathlib.Logic.Function.Basic

/-!
# Interleaved events of several parties

Each event belongs to one party, and each party has a phase of its own that only its events change. However the events are interleaved, the phase of a party is what its own events make of it, and a total over all parties changes by what the party of the event contributes.
-/

namespace Foundation.Interleaving

variable {κ ε φ : Type} [DecidableEq κ] (party : ε → κ) (step : φ → ε → φ) (start : φ)

/-- The events of one party. -/
def own (events : List ε) (k : κ) : List ε := events.filter fun e => party e = k

def phaseOf (events : List ε) (k : κ) : φ := (own party events k).foldl step start

theorem own_concat (events : List ε) (e : ε) (k : κ) :
    own party (events ++ [e]) k = if party e = k then own party events k ++ [e] else own party events k := by
  rw [own, List.filter_append]
  split_ifs with hk
  · rw [List.filter_singleton, decide_eq_true hk]
    rfl
  · rw [List.filter_singleton, decide_eq_false hk]
    exact List.append_nil _

/-- An event changes the phase of its party. -/
theorem phaseOf_concat (events : List ε) (e : ε) :
    phaseOf party step start (events ++ [e]) =
      Function.update (phaseOf party step start events) (party e) (step (phaseOf party step start events (party e)) e) := by
  funext k
  rw [phaseOf, own_concat]
  by_cases hk : party e = k
  · subst hk
    rw [if_pos rfl, Function.update_self, List.foldl_append]
    rfl
  · rw [if_neg hk, Function.update_of_ne (Ne.symm hk)]
    rfl

/-- What holds at the start and is kept by each event of a run holds after every part of the run that has been handled. -/
theorem prefix_induction {P : List ε → Prop} {events : List ε} (hnil : P [])
    (hstep : ∀ done e, done ++ [e] <+: events → P done → P (done ++ [e])) (done : List ε) (hdone : done <+: events) : P done := by
  induction done using List.reverseRecOn with
  | nil => exact hnil
  | append_singleton done e ih => exact hstep done e hdone (ih ((List.prefix_append done [e]).trans hdone))

/-! ### Totals -/

def total (amount : κ → φ → Int) (parties : List κ) (phase : κ → φ) : Int := (parties.map fun k => amount k (phase k)).sum

theorem total_update (amount : κ → φ → Int) {parties : List κ} (hnodup : parties.Nodup) {k : κ} (hk : k ∈ parties) (phase : κ → φ) (p : φ) :
    total amount parties (Function.update phase k p) = total amount parties phase + (amount k p - amount k (phase k)) := by
  have hrest : (parties.erase k).map (fun j => amount j (Function.update phase k p j)) = (parties.erase k).map fun j => amount j (phase j) := by
    refine List.map_congr_left fun j hj => ?_
    rw [Function.update_of_ne (hnodup.mem_erase_iff.mp hj).1]
  have hbefore := List.sum_map_erase (fun j => amount j (phase j)) hk
  have hafter := List.sum_map_erase (fun j => amount j (Function.update phase k p j)) hk
  rw [hrest, Function.update_self] at hafter
  rw [total, total, ← hbefore, ← hafter]
  omega

omit [DecidableEq κ] in
/-- A total to which each party contributes at most one is the number of the parties exactly if each contributes one. -/
theorem total_eq_length_iff {amount : κ → φ → Int} {parties : List κ} {phase : κ → φ} (hle : ∀ k ∈ parties, amount k (phase k) ≤ 1) :
    total amount parties phase = parties.length ↔ ∀ k ∈ parties, amount k (phase k) = 1 := by
  induction parties with
  | nil => exact iff_of_true rfl fun k hk => by cases hk
  | cons k parties ih =>
      have hhead := hle k List.mem_cons_self
      have hrest : total amount parties phase ≤ parties.length := by
        have hbound := List.sum_le_card_nsmul (parties.map fun k => amount k (phase k)) 1 fun a ha => by
          obtain ⟨j, hj, rfl⟩ := List.mem_map.mp ha
          exact hle j (List.mem_cons_of_mem _ hj)
        rwa [List.length_map, nsmul_one] at hbound
      have hsplit : total amount (k :: parties) phase = amount k (phase k) + total amount parties phase := List.sum_cons
      rw [List.forall_mem_cons, ← ih fun j hj => hle j (List.mem_cons_of_mem _ hj), hsplit, List.length_cons]
      omega

end Foundation.Interleaving
