import Mathlib.Data.List.Sort
import Mathlib.Data.Prod.Lex
import Dnf.Foundation.OnePass
import Dnf.Cli.RepoSelection

/-!
# Debug and source repositories

`_enable_sub_repos` goes through the repositories by priority and cost. Whether one is enabled is looked up when its turn comes, so a repository that the pass has enabled enables its own sub-repositories if they are not behind it.
-/

namespace Dnf.Repos.SubRepos

open Foundation
open Cli (getMatching)

structure Repo where
  id : String
  priority : Int
  cost : Int
  enabled : Bool
  deriving DecidableEq

/-- `RepoDict.values`: sorted by priority and cost. -/
def values (repos : List Repo) : List Repo := repos.insertionSort fun a b => toLex (a.priority, a.cost) ≤ toLex (b.priority, b.cost)

def isEnabled (repos : List Repo) (id : String) : Bool := repos.any fun r => r.id == id && r.enabled

/-- All repositories that match are enabled. -/
def enableMatching (key : String) (repos : List Repo) : List Repo :=
  repos.map fun found => if getMatching key found.id then { found with enabled := true } else found

/-- `_enable_sub_repos` -/
def enableSubRepos (subNameFn : String → String) (repos : List Repo) : List Repo :=
  ((values repos).map Repo.id).foldl (fun now id => if isEnabled now id then enableMatching (subNameFn id) now else now) repos

/-- `rpms` takes the place of a final `-rpms`, and `plain` follows any other name. -/
def subName (rpms plain name : String) : String :=
  if "-rpms".toList <:+ name.toList then String.ofList (name.toList.take (name.toList.length - 5)) ++ rpms else name ++ plain

def debugName : String → String := subName "-debug-rpms" "-debuginfo"

def sourceName : String → String := subName "-source-rpms" "-source"

example : debugName "base-rpms" = "base-debug-rpms" ∧ sourceName "base" = "base-source" := by decide +kernel

def enableDebugRepos : List Repo → List Repo := enableSubRepos debugName

def enableSourceRepos : List Repo → List Repo := enableSubRepos sourceName

/-! ### One pass -/

/-- A listed repository that `id` enables. -/
def Leads (subNameFn : String → String) (repos : List Repo) (id found : String) : Prop :=
  found ∈ repos.map Repo.id ∧ getMatching (subNameFn id) found = true

theorem isEnabled_iff {repos : List Repo} {id : String} : isEnabled repos id = true ↔ ∃ r ∈ repos, r.id = id ∧ r.enabled = true := by
  simp only [isEnabled, List.any_eq_true, Bool.and_eq_true, beq_iff_eq]

theorem isEnabled_enableMatching {key id : String} {repos : List Repo} :
    isEnabled (enableMatching key repos) id = true ↔ isEnabled repos id = true ∨ (id ∈ repos.map Repo.id ∧ getMatching key id = true) := by
  simp only [isEnabled_iff, enableMatching, List.mem_map]
  constructor
  · rintro ⟨_, ⟨r, hr, rfl⟩, hid, henabled⟩
    by_cases hmatches : getMatching key r.id = true
    · rw [if_pos hmatches] at hid
      exact .inr ⟨⟨r, hr, hid⟩, by rw [← hid]; exact hmatches⟩
    · rw [if_neg hmatches] at hid henabled
      exact .inl ⟨r, hr, hid, henabled⟩
  · rintro (⟨r, hr, hid, henabled⟩ | ⟨⟨r, hr, rfl⟩, hmatches⟩)
    · refine ⟨_, ⟨r, hr, rfl⟩, ?_⟩
      by_cases hmatches : getMatching key r.id = true
      · rw [if_pos hmatches]
        exact ⟨hid, rfl⟩
      · rw [if_neg hmatches]
        exact ⟨hid, henabled⟩
    · refine ⟨_, ⟨r, hr, rfl⟩, ?_⟩
      rw [if_pos hmatches]
      exact ⟨rfl, rfl⟩

/-- A repository, but for whether it is enabled. -/
def Repo.settings (r : Repo) : String × Int × Int := (r.id, r.priority, r.cost)

theorem settings_enableMatching (key : String) (repos : List Repo) : (enableMatching key repos).map Repo.settings = repos.map Repo.settings := by
  rw [enableMatching, List.map_map]
  refine List.map_congr_left fun r _ => ?_
  rw [Function.comp_apply]
  split <;> rfl

theorem ids_of_settings {repos repos' : List Repo} (h : repos'.map Repo.settings = repos.map Repo.settings) :
    repos'.map Repo.id = repos.map Repo.id := by
  have hids : ∀ l : List Repo, l.map Repo.id = (l.map Repo.settings).map Prod.fst := fun l => by rw [List.map_map]; rfl
  rw [hids, hids, h]

variable (subNameFn : String → String) (repos : List Repo)

theorem pass_spec (order : List String) (now : List Repo) (hnow : now.map Repo.settings = repos.map Repo.settings) :
    (order.foldl (fun now id => if isEnabled now id then enableMatching (subNameFn id) now else now) now).map Repo.settings = repos.map Repo.settings ∧
    ∀ id, isEnabled (order.foldl (fun now id => if isEnabled now id then enableMatching (subNameFn id) now else now) now) id = true ↔
      order.foldl (OnePass.turn (Leads subNameFn repos)) (fun id => isEnabled now id = true) id := by
  induction order generalizing now with
  | nil => exact ⟨hnow, fun id => Iff.rfl⟩
  | cons o order ih =>
      rw [List.foldl_cons, List.foldl_cons]
      have hturn : (fun id => isEnabled (if isEnabled now o then enableMatching (subNameFn o) now else now) id = true) =
          OnePass.turn (Leads subNameFn repos) (fun id => isEnabled now id = true) o := by
        funext id
        refine propext ?_
        rw [OnePass.turn, Leads, ← ids_of_settings hnow]
        by_cases ho : isEnabled now o = true
        · rw [if_pos ho, isEnabled_enableMatching]
          exact or_congr_right (and_iff_right ho).symm
        · rw [if_neg ho]
          exact (or_iff_left fun h => ho h.1).symm
      rw [← hturn]
      refine ih _ ?_
      split
      · rw [settings_enableMatching, hnow]
      · exact hnow

/-- Afterwards a repository is enabled if it was before, or if a chain of listed sub-repositories that goes forward in the order of priority and cost leads to it from one that was. Nothing else of the repositories changes. -/
theorem enableSubRepos_enabled :
    (enableSubRepos subNameFn repos).map Repo.settings = repos.map Repo.settings ∧
    ∀ id, isEnabled (enableSubRepos subNameFn repos) id = true ↔
      isEnabled repos id = true ∨ OnePass.Chained (Leads subNameFn repos) ((values repos).map Repo.id) (fun id => isEnabled repos id = true) id := by
  obtain ⟨hsettings, henabled⟩ := pass_spec subNameFn repos ((values repos).map Repo.id) repos rfl
  exact ⟨hsettings, fun id => (henabled id).trans (OnePass.foldl_turn _ _ id)⟩

end Dnf.Repos.SubRepos
