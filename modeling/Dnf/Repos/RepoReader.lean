import Mathlib.Data.List.Sort
import Mathlib.Data.List.Lex
import Mathlib.Data.Char
import Dnf.Conf.SplitPath

/-!
# Repositories from the configuration files

`RepoReader` goes through the main configuration and then through the `.repo` files of all directories, sorted by their paths, and `read_all_repos` adds to the dictionary what it yields. A section may be refused, a file may be malformed, and an option of the command line may not suit a repository: what this does to the rest depends on where it happens.
-/

namespace Dnf.Repos

abbrev Path := List Char

/-- What `parser.read` finds. -/
inductive Content
  | malformed
  | unreadable
  | sections (ids : List String)

structure Repo where
  id : String
  sectionId : String
  repofile : Path
  deriving DecidableEq

/-- `configures` says that `_configure_from_options` does not raise, `verifies` the same of `repo._repo.verify`. -/
structure RepoReader where
  read : Path → Content
  substitute : String → String
  validId : String → Bool
  populates : Path → String → Bool
  configures : String → Bool
  verifies : Repo → Bool

namespace RepoReader

variable (reader : RepoReader)

/-- `_build_repo`; `none` is a `RepoError` or a `ConfigError`. -/
def buildRepo (repofn : Path) (id : String) : Option Repo :=
  if reader.validId (reader.substitute id) && reader.populates repofn id then some ⟨reader.substitute id, id, repofn⟩ else none

/-- The loop of `_get_repos`: what it yields, and whether it raises. -/
def getSections (repofn : Path) : List String → List Repo × Bool
  | [] => ([], false)
  | id :: ids =>
      if id = "main" then getSections repofn ids
      else
        match reader.buildRepo repofn id with
        | none => getSections repofn ids
        | some repo =>
            if reader.configures repo.id then (repo :: (getSections repofn ids).1, (getSections repofn ids).2) else ([], true)

def getRepos (repofn : Path) : List Repo × Bool :=
  match reader.read repofn with
  | .malformed => ([], true)
  | .unreadable => ([], false)
  | .sections ids => reader.getSections repofn ids

/-- `dnf.util.split_path(x[:-5])` -/
def sortKey (path : Path) : List (List Char) := Conf.SplitPath.splitPath (path.take (path.length - 5))

/-- The files of all directories, as `glob` lists them, and then sorted. -/
def repoConfigs (listings : List (List Path)) : List Path := listings.flatten.insertionSort fun a b => sortKey a ≤ sortKey b

/-- `__iter__`: an exception of the main configuration ends it. -/
def iter (main : Path) (listings : List (List Path)) : List Repo × Bool :=
  if (reader.getRepos main).2 then ((reader.getRepos main).1, true)
  else ((reader.getRepos main).1 ++ (repoConfigs listings).flatMap fun repofn => (reader.getRepos repofn).1, false)

/-- `RepoDict.add`; `none` is the `ConfigError`. -/
def add (repos : List Repo) (repo : Repo) : Option (List Repo) :=
  if repos.any fun r => r.id == repo.id then none else if reader.verifies repo then some (repos ++ [repo]) else none

/-- `read_all_repos`: the dictionary, and whether it raises. -/
def readAllRepos (main : Path) (listings : List (List Path)) (repos : List Repo) : List Repo × Bool :=
  ((reader.iter main listings).1.foldl (fun repos repo => (reader.add repos repo).getD repos) repos, (reader.iter main listings).2)

/-! ### What a file offers -/

/-- The repositories that the sections of a file describe. -/
def described (repofn : Path) : List Repo :=
  match reader.read repofn with
  | .sections ids => (ids.filter (· ≠ "main")).filterMap (reader.buildRepo repofn)
  | _ => []

/-- They are offered up to the first one that the options do not suit. -/
def offered (repofn : Path) : List Repo := (reader.described repofn).takeWhile fun repo => reader.configures repo.id

def Raises (repofn : Path) : Prop := reader.read repofn = .malformed ∨ ∃ repo ∈ reader.described repofn, reader.configures repo.id = false

theorem getSections_eq (repofn : Path) (ids : List String) :
    reader.getSections repofn ids =
      ((((ids.filter (· ≠ "main")).filterMap (reader.buildRepo repofn)).takeWhile fun repo => reader.configures repo.id),
        ((ids.filter (· ≠ "main")).filterMap (reader.buildRepo repofn)).any fun repo => !reader.configures repo.id) := by
  induction ids with
  | nil => rfl
  | cons id ids ih =>
      rw [getSections]
      by_cases hmain : id = "main"
      · rw [if_pos hmain, ih, List.filter_cons_of_neg (by simpa using hmain)]
      · rw [if_neg hmain, List.filter_cons_of_pos (by simpa using hmain)]
        cases hbuilt : reader.buildRepo repofn id with
        | none => rw [ih, List.filterMap_cons_none hbuilt]
        | some repo =>
            rw [List.filterMap_cons_some hbuilt, List.takeWhile_cons, List.any_cons]
            dsimp only
            cases hconfigures : reader.configures repo.id with
            | true => rw [if_pos rfl, if_pos rfl, ih, Bool.not_true, Bool.false_or]
            | false => rw [if_neg Bool.false_ne_true, if_neg Bool.false_ne_true, Bool.not_false, Bool.true_or]

theorem getRepos_offered (repofn : Path) : (reader.getRepos repofn).1 = reader.offered repofn := by
  rw [getRepos, offered, described]
  cases reader.read repofn with
  | malformed => rfl
  | unreadable => rfl
  | sections ids =>
      dsimp only
      rw [getSections_eq]

theorem getRepos_raises (repofn : Path) : (reader.getRepos repofn).2 = true ↔ reader.Raises repofn := by
  rw [getRepos, Raises, described]
  cases hread : reader.read repofn with
  | malformed => simp
  | unreadable => simp
  | sections ids =>
      dsimp only
      rw [getSections_eq, List.any_eq_true]
      simp only [Bool.not_eq_true', reduceCtorEq, false_or]

/-! ### What gets into the dictionary -/

theorem find_add (repos : List Repo) (repo : Repo) (id : String) :
    ((reader.add repos repo).getD repos).find? (fun r => r.id == id) =
      (repos.find? fun r => r.id == id).or (if repo.id == id && reader.verifies repo then some repo else none) := by
  rw [add]
  by_cases hlisted : (repos.any fun r => r.id == repo.id) = true
  · rw [if_pos hlisted, Option.getD_none]
    by_cases hid : repo.id = id
    · subst hid
      obtain ⟨r, hr⟩ := Option.isSome_iff_exists.mp (List.find?_isSome.mpr (List.any_eq_true.mp hlisted))
      rw [hr, Option.some_or]
    · rw [beq_eq_false_iff_ne.mpr hid, Bool.false_and, if_neg Bool.false_ne_true, Option.or_none]
  · rw [if_neg hlisted]
    cases hverifies : reader.verifies repo with
    | false => rw [if_neg Bool.false_ne_true, Option.getD_none, Bool.and_false, if_neg Bool.false_ne_true, Option.or_none]
    | true =>
        rw [if_pos rfl, Option.getD_some, List.find?_append, Bool.and_true, List.find?_singleton]

theorem find_foldl_add (offers repos : List Repo) (id : String) :
    (offers.foldl (fun repos repo => (reader.add repos repo).getD repos) repos).find? (fun r => r.id == id) =
      (repos.find? fun r => r.id == id).or (offers.find? fun r => r.id == id && reader.verifies r) := by
  induction offers generalizing repos with
  | nil => rw [List.foldl_nil, List.find?_nil, Option.or_none]
  | cons repo offers ih =>
      rw [List.foldl_cons, ih, find_add, Option.or_assoc, List.find?_cons]
      cases repo.id == id && reader.verifies repo with
      | true => rw [if_pos rfl, Option.some_or]
      | false => rw [if_neg Bool.false_ne_true, Option.none_or]

theorem nodup_add {repos : List Repo} (repo : Repo) (h : (repos.map Repo.id).Nodup) :
    (((reader.add repos repo).getD repos).map Repo.id).Nodup := by
  rw [add]
  split_ifs with hlisted hverifies
  · exact h
  · rw [Option.getD_some, List.map_append, List.map_singleton, List.nodup_append]
    refine ⟨h, List.nodup_singleton _, fun id hid other hother => ?_⟩
    rw [List.mem_singleton.mp hother]
    rintro rfl
    obtain ⟨r, hr, hid⟩ := List.mem_map.mp hid
    exact hlisted (List.any_eq_true.mpr ⟨r, hr, beq_iff_eq.mpr hid⟩)
  · exact h

theorem nodup_foldl_add {offers repos : List Repo} (h : (repos.map Repo.id).Nodup) :
    ((offers.foldl (fun repos repo => (reader.add repos repo).getD repos) repos).map Repo.id).Nodup := by
  induction offers generalizing repos with
  | nil => exact h
  | cons repo offers ih => exact ih (reader.nodup_add repo h)

/-! ### The order of the files -/

theorem pairwise_repoConfigs (listings : List (List Path)) : (repoConfigs listings).Pairwise fun a b => sortKey a ≤ sortKey b := by
  have : Std.Total fun a b : Path => sortKey a ≤ sortKey b := ⟨fun a b => le_total _ _⟩
  have : IsTrans Path fun a b => sortKey a ≤ sortKey b := ⟨fun _ _ _ hab hbc => le_trans hab hbc⟩
  exact List.pairwise_insertionSort _ _

/-- Where a key belongs to one file, the files come in one order, however they are listed. -/
theorem repoConfigs_of_perm {listings listings' : List (List Path)} (hperm : listings'.flatten.Perm listings.flatten)
    (hkeys : Set.InjOn sortKey {path | path ∈ listings.flatten}) : repoConfigs listings' = repoConfigs listings := by
  have hsorted : ∀ l : List (List Path), (repoConfigs l).Perm l.flatten := fun l => List.perm_insertionSort _ _
  refine List.Perm.eq_of_pairwise (fun a b ha hb hab hba => ?_) (pairwise_repoConfigs listings') (pairwise_repoConfigs listings)
    ((hsorted listings').trans (hperm.trans (hsorted listings).symm))
  have ha : a ∈ listings.flatten := hperm.subset ((hsorted listings').subset ha)
  have hb : b ∈ listings.flatten := (hsorted listings).subset hb
  exact hkeys ha hb (le_antisymm hab hba)

/-! ### The dictionary -/

instance (repofn : Path) : Decidable (reader.Raises repofn) := decidable_of_iff _ (reader.getRepos_raises repofn)

/-- All repositories that are offered, in order: what fails in a file does not matter to the files after it, but in the main configuration it does. -/
def offers (main : Path) (listings : List (List Path)) : List Repo :=
  reader.offered main ++ if reader.Raises main then [] else (repoConfigs listings).flatMap reader.offered

theorem iter_eq (main : Path) (listings : List (List Path)) : reader.iter main listings = (reader.offers main listings, decide (reader.Raises main)) := by
  rw [iter, offers, getRepos_offered]
  by_cases hraises : reader.Raises main
  · rw [if_pos ((reader.getRepos_raises main).mpr hraises), if_pos hraises, List.append_nil, decide_eq_true hraises]
  · rw [if_neg fun h => hraises ((reader.getRepos_raises main).mp h), if_neg hraises, decide_eq_false hraises]
    simp only [getRepos_offered]

/-- An id stands for what it stood for before, and otherwise for the first repository of that id that is offered and verified; the ids stay distinct; and unless two listed files share a key, it does not matter in which order, and by which directory, they are listed. -/
theorem readAllRepos_outcome (main : Path) (listings : List (List Path)) (repos : List Repo) (hids : (repos.map Repo.id).Nodup) :
    (∀ id, ((reader.readAllRepos main listings repos).1.find? fun r => r.id == id) =
      (repos.find? fun r => r.id == id).or ((reader.offers main listings).find? fun r => r.id == id && reader.verifies r)) ∧
    ((reader.readAllRepos main listings repos).1.map Repo.id).Nodup ∧
    ((reader.readAllRepos main listings repos).2 = true ↔ reader.Raises main) ∧
    ∀ listings' : List (List Path), listings'.flatten.Perm listings.flatten → Set.InjOn sortKey {path | path ∈ listings.flatten} →
      reader.readAllRepos main listings' repos = reader.readAllRepos main listings repos := by
  have hread : ∀ l, reader.readAllRepos main l repos =
      ((reader.offers main l).foldl (fun repos repo => (reader.add repos repo).getD repos) repos, decide (reader.Raises main)) := by
    intro l
    rw [readAllRepos, iter_eq]
  refine ⟨fun id => ?_, ?_, ?_, fun listings' hperm hkeys => ?_⟩
  · rw [hread]
    exact reader.find_foldl_add _ repos id
  · rw [hread]
    exact reader.nodup_foldl_add hids
  · rw [hread, decide_eq_true_iff]
  · rw [hread, hread, offers, offers, repoConfigs_of_perm hperm hkeys]

/-- Each file describes `fedora`, and its last section has a bad id. -/
def twice : RepoReader where
  read _ := .sections ["main", "fedora", "?"]
  substitute := id
  validId id := id != "?"
  populates _ _ := true
  configures _ := true
  verifies _ := true

theorem readAllRepos_outcome_twice :
    ((twice.readAllRepos ['c'] [[['f', '.', 'r', 'e', 'p', 'o']]] []).1.find? fun r => r.id == "fedora") = some ⟨"fedora", "fedora", ['c']⟩ :=
  ((readAllRepos_outcome twice ['c'] [[['f', '.', 'r', 'e', 'p', 'o']]] [] List.nodup_nil).1 "fedora").trans (by decide)

end RepoReader

end Dnf.Repos
