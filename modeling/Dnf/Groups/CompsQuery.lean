import Mathlib.Data.List.ReduceOption
import Dnf.Foundation.Fnmatch
import Dnf.Groups.Solver

/-!
# `CompsQuery` and `_by_pattern`

A pattern finds what has it as its id or its name, and only where there is nothing like that it is read as a shell pattern. A `CompsQuery` asks the repositories, the history or both, for groups, environments or both, and puts what each pattern finds at the end of two lists.
-/

namespace Dnf.Groups

open History Foundation

/-- What a pattern is compared with. -/
structure Keys (α : Type) where
  id : α → String
  name : α → Option String
  uiName : α → Option String

def globMatches (variants : Char → List Char) (caseSensitive : Bool) (pattern text : String) : Bool :=
  if caseSensitive then Fnmatch.fnmatch text pattern else Fnmatch.fnmatchIgnoringCase variants text pattern

/-- `_by_pattern`; the set of what is found is listed in the order of `sqn`. -/
def byPattern {α : Type} (variants : Char → List Char) (keys : Keys α) (pattern : String) (caseSensitive : Bool) (sqn : List α) : List α :=
  let exact := sqn.filter fun g => keys.name g = some pattern || keys.id g = pattern
  if exact.isEmpty = false then exact
  else sqn.filter fun g =>
    globMatches variants caseSensitive pattern (keys.id g) || (keys.name g).any (globMatches variants caseSensitive pattern) ||
      (keys.uiName g).any (globMatches variants caseSensitive pattern)

theorem byPattern_sublist {α : Type} (variants : Char → List Char) (keys : Keys α) (pattern : String) (caseSensitive : Bool) (sqn : List α) :
    (byPattern variants keys pattern caseSensitive sqn).Sublist sqn := by
  rw [byPattern]
  split_ifs
  · exact List.filter_sublist
  · exact List.filter_sublist

def groupKeys : Keys Group := ⟨Group.id, fun group => some group.name, fun group => some group.uiName⟩

def environmentKeys : Keys Environment := ⟨Environment.id, fun env => some env.name, fun env => some env.uiName⟩

def Comps.groupsByPattern (comps : Comps) (variants : Char → List Char) (pattern : String) : List Group :=
  byPattern variants groupKeys pattern false comps.groups

def Comps.environmentsByPattern (comps : Comps) (variants : Char → List Char) (pattern : String) : List Environment :=
  byPattern variants environmentKeys pattern false comps.environments

namespace CompsQuery

def AVAILABLE : Nat := 1

def INSTALLED : Nat := 2

def ENVIRONMENTS : Nat := 1

def GROUPS : Nat := 2

end CompsQuery

/-- The iteration of a set: each element once. -/
def IteratesSets (setOrder : List String → List String) : Prop := ∀ ids, (setOrder ids).Nodup ∧ ∀ id, id ∈ setOrder ids ↔ id ∈ ids

theorem iteratesSets_dedup : IteratesSets List.dedup := fun ids => ⟨List.nodup_dedup ids, fun _ => List.mem_dedup⟩

/-- `search` is `search_by_pattern` of the persistors, where an item may be of another kind and is passed over. `variants` lists the characters that are alike without regard to case; `setOrder` lists the set of some ids in the order in which it is iterated. -/
structure CompsQuery where
  comps : Comps
  variants : Char → List Char
  search : Kind → String → List (Option CompsItem)
  setOrder : List String → List String
  kinds : Nat
  status : Nat

structure Found where
  environments : List String
  groups : List String
  deriving DecidableEq

namespace CompsQuery

variable (q : CompsQuery)

/-- `_get_groups` and `_get_envs`. -/
def getIds (available : List String) (installed : List (Option CompsItem)) : List String :=
  q.setOrder ((if q.status &&& AVAILABLE ≠ 0 then available else []) ++
    (if q.status &&& INSTALLED ≠ 0 then installed.reduceOption.map CompsItem.id else []))

def envs (pat : String) : List String :=
  if q.kinds &&& ENVIRONMENTS ≠ 0 then q.getIds ((q.comps.environmentsByPattern q.variants pat).map Environment.id) (q.search .environment pat) else []

def grps (pat : String) : List String :=
  if q.kinds &&& GROUPS ≠ 0 then q.getIds ((q.comps.groupsByPattern q.variants pat).map Group.id) (q.search .group pat) else []

def missing (pat : String) : String :=
  if q.status = INSTALLED then "Module or Group '" ++ pat ++ "' is not installed."
  else if q.status = AVAILABLE then "Module or Group '" ++ pat ++ "' is not available."
  else "Module or Group '" ++ pat ++ "' does not exist."

/-- One pattern of `get`. -/
def getPattern (res : Found) (pat : String) : Except Exc Found :=
  if q.envs pat = [] ∧ q.grps pat = [] then .error (.compsError (q.missing pat))
  else .ok ⟨res.environments ++ q.envs pat, res.groups ++ q.grps pat⟩

def get (patterns : List String) : Except Exc Found := patterns.foldlM q.getPattern ⟨[], []⟩

variable {q}

/-- What is offered and what is installed, as far as the query asks for it. -/
theorem mem_getIds (hset : IteratesSets q.setOrder) {available : List String} {installed : List (Option CompsItem)} {id : String} :
    id ∈ q.getIds available installed ↔ (q.status &&& AVAILABLE ≠ 0 ∧ id ∈ available) ∨
      (q.status &&& INSTALLED ≠ 0 ∧ ∃ item, some item ∈ installed ∧ item.id = id) := by
  rw [getIds, (hset _).2, List.mem_append]
  refine or_congr ?_ ?_
  · by_cases havailable : q.status &&& AVAILABLE ≠ 0
    · rw [if_pos havailable, and_iff_right havailable]
    · rw [if_neg havailable]
      exact iff_of_false List.not_mem_nil fun h => havailable h.1
  · by_cases hinstalled : q.status &&& INSTALLED ≠ 0
    · rw [if_pos hinstalled, and_iff_right hinstalled, List.mem_map]
      simp only [List.reduceOption_mem_iff]
    · rw [if_neg hinstalled]
      exact iff_of_false List.not_mem_nil fun h => hinstalled h.1

/-- If each pattern finds something, the query finds what they find, one after the other. -/
theorem get_eq_ok {patterns : List String} (h : ∀ pat ∈ patterns, q.envs pat ≠ [] ∨ q.grps pat ≠ []) :
    q.get patterns = .ok ⟨patterns.flatMap q.envs, patterns.flatMap q.grps⟩ := by
  have hfold : ∀ res : Found, patterns.foldlM q.getPattern res =
      .ok ⟨res.environments ++ patterns.flatMap q.envs, res.groups ++ patterns.flatMap q.grps⟩ := by
    induction patterns with
    | nil =>
        intro res
        rw [List.flatMap_nil, List.flatMap_nil, List.append_nil, List.append_nil]
        rfl
    | cons pat patterns ih =>
        intro res
        have hpat : ¬(q.envs pat = [] ∧ q.grps pat = []) := not_and_or.mpr (h pat List.mem_cons_self)
        rw [List.foldlM_cons, getPattern, if_neg hpat]
        refine (ih (fun p hp => h p (List.mem_cons_of_mem _ hp)) _).trans ?_
        rw [List.flatMap_cons, List.flatMap_cons, List.append_assoc, List.append_assoc]
  exact hfold ⟨[], []⟩

end CompsQuery

/-- `CompsError` apart, what `Base` raises. -/
inductive BaseExc
  | error (value : String)
  | attributeError
  | solver (e : Exc)
  deriving DecidableEq

end Dnf.Groups
