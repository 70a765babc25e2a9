import Mathlib.Data.List.Perm.Basic
import Mathlib.Data.String.Basic
import Dnf.Groups.CompsQuery
import Dnf.History.Removable

/-!
# `_group_lists` and `_environment_lists` of the group command

The lists of `group list` and `group summary` are those of the groups and of the environments that the patterns find, the installed ones and the available ones. `_list` checks the patterns one by one, but the lists are found with one pattern: the patterns with commas between them.
-/

namespace Dnf.Cli.GroupCommand

open Groups History Foundation

/-- A group or an environment of the comps, as far as it is listed. -/
structure CompsObject where
  id : String
  name : Option String
  uiName : Option String
  displayOrder : Option Int
  uservisible : Bool
  deriving DecidableEq

structure CompsData where
  categories : Nat
  groups : List CompsObject
  environments : List CompsObject

def CompsData.length (comps : CompsData) : Nat := comps.categories + comps.groups.length + comps.environments.length

def objectKeys : Keys CompsObject := ⟨CompsObject.id, CompsObject.name, CompsObject.uiName⟩

/-- `_fn_display_order`. -/
def displayOrderOf (group : CompsObject) : Int := group.displayOrder.getD 9223372036854775807

/-- `sorted(…, key=_fn_display_order)`. -/
def sortedByOrder (groups : List CompsObject) : List CompsObject :=
  groups.mergeSort fun group group' => displayOrderOf group ≤ displayOrderOf group'

/-- `util.partition`: the false entries, and the true entries. -/
def partition (pred : CompsObject → Bool) (groups : List CompsObject) : List CompsObject × List CompsObject :=
  (groups.filter fun group => !pred group, groups.filter pred)

section Code

variable (comps : CompsData) (swdb : Swdb) (variants : Char → List Char) (setOrder : List CompsObject → List CompsObject)

/-- `groups_by_pattern` and `environments_by_pattern`; `setOrder` lists the set of what `_by_pattern` finds. -/
def objectsByPattern (groups : List CompsObject) (pattern : String) : List CompsObject :=
  sortedByOrder (setOrder (byPattern variants objectKeys pattern false groups))

/-- The objects a command is about. -/
def objects (groups : List CompsObject) : Option (List String) → List CompsObject
  | none => sortedByOrder groups
  | some patterns => objectsByPattern variants setOrder groups (",".intercalate patterns)

def assertComps : Except Exc Unit :=
  if comps.length = 0 then .error (.compsError "No group data available for configured repositories.") else .ok ()

def isInstalled (kind : Kind) (group : CompsObject) : Bool := (swdb.getItem kind group.id).isSome

def environmentLists (patterns : Option (List String)) : Except Exc (List CompsObject × List CompsObject) := do
  assertComps comps
  pure (partition (fun env => !isInstalled swdb .environment env) (objects variants setOrder comps.environments patterns))

/-- One group of `_group_lists`. -/
def addGroup (uservisible : Bool) (lists : List CompsObject × List CompsObject) (grp : CompsObject) : List CompsObject × List CompsObject :=
  if !uservisible || grp.uservisible then
    if isInstalled swdb .group grp then (lists.1 ++ [grp], lists.2) else (lists.1, lists.2 ++ [grp])
  else lists

def groupLists (uservisible : Bool) (patterns : Option (List String)) : Except Exc (List CompsObject × List CompsObject) := do
  assertComps comps
  pure ((objects variants setOrder comps.groups patterns).foldl (addGroup swdb uservisible) ([], []))

end Code

/-! ### The two lists -/

section Lists

variable {comps : CompsData} {swdb : Swdb} {variants : Char → List Char} {setOrder : List CompsObject → List CompsObject}

theorem foldl_addGroup (uservisible : Bool) (groups : List CompsObject) (lists : List CompsObject × List CompsObject) :
    groups.foldl (addGroup swdb uservisible) lists =
      (lists.1 ++ groups.filter (fun grp => (!uservisible || grp.uservisible) && isInstalled swdb .group grp),
        lists.2 ++ groups.filter (fun grp => (!uservisible || grp.uservisible) && !isInstalled swdb .group grp)) := by
  induction groups generalizing lists with
  | nil => simp
  | cons grp groups ih =>
      rw [List.foldl_cons, ih, addGroup, List.filter_cons, List.filter_cons]
      cases !uservisible || grp.uservisible with
      | false => rfl
      | true => cases isInstalled swdb .group grp <;> simp

/-- The objects found by one of the patterns on its own. -/
def FoundBySome (variants : Char → List Char) (patterns : List String) (groups : List CompsObject) (group : CompsObject) : Prop :=
  ∃ pattern ∈ patterns, group ∈ byPattern variants objectKeys pattern false groups

instance (patterns : List String) (groups : List CompsObject) (group : CompsObject) : Decidable (FoundBySome variants patterns groups group) := by
  unfold FoundBySome
  infer_instance

/-- The objects that are shown, found by one of the patterns and installed, each of them once, and those that are not installed. -/
structure UnionOf (variants : Char → List Char) (patterns : List String) (shown installed : CompsObject → Bool) (groups : List CompsObject)
    (lists : List CompsObject × List CompsObject) : Prop where
  installedList : lists.1.Perm (groups.filter fun group => shown group && decide (FoundBySome variants patterns groups group) && installed group)
  availableList : lists.2.Perm (groups.filter fun group => shown group && decide (FoundBySome variants patterns groups group) && !installed group)

/-- The joined text tells nothing from what the patterns find. -/
def JoinedAgrees (variants : Char → List Char) (patterns : List String) (shown : CompsObject → Bool) (groups : List CompsObject) : Prop :=
  ∀ group ∈ groups, shown group = true →
    (group ∈ byPattern variants objectKeys (",".intercalate patterns) false groups ↔ FoundBySome variants patterns groups group)

theorem byPattern_eq_filter (pattern : String) (groups : List CompsObject) :
    byPattern variants objectKeys pattern false groups =
      groups.filter fun group => group ∈ byPattern variants objectKeys pattern false groups := by
  have hself : ∀ p : CompsObject → Bool, groups.filter p = groups.filter fun group => group ∈ groups.filter p := by
    intro p
    refine List.filter_congr fun group hgroup => ?_
    rw [Bool.eq_iff_iff, decide_eq_true_eq, List.mem_filter, and_iff_right hgroup]
  rw [byPattern]
  split_ifs
  · exact hself _
  · exact hself _

theorem objectsByPattern_perm (hset : ∀ groups, (setOrder groups).Perm groups) (groups : List CompsObject) (pattern : String) :
    (objectsByPattern variants setOrder groups pattern).Perm
      (groups.filter fun group => group ∈ byPattern variants objectKeys pattern false groups) := by
  refine ((List.mergeSort_perm _ _).trans (hset _)).trans ?_
  rw [← byPattern_eq_filter]

theorem perm_filter_iff {α : Type} {p q : α → Bool} {xs : List α} : (xs.filter p).Perm (xs.filter q) ↔ ∀ x ∈ xs, p x = q x := by
  constructor
  · intro hperm x hx
    rw [Bool.eq_iff_iff]
    have hmem := hperm.mem_iff (a := x)
    rwa [List.mem_filter, List.mem_filter, and_iff_right hx, and_iff_right hx] at hmem
  · intro h
    rw [List.filter_congr h]

/-- What the joined text finds, split by what is installed. -/
theorem unionOf_iff {patterns : List String} {shown installed : CompsObject → Bool} {groups found : List CompsObject}
    (hfound : found.Perm (groups.filter fun group => group ∈ byPattern variants objectKeys (",".intercalate patterns) false groups)) :
    UnionOf variants patterns shown installed groups
        (found.filter (fun group => shown group && installed group), found.filter (fun group => shown group && !installed group)) ↔
      JoinedAgrees variants patterns shown groups := by
  have hsplit : ∀ p q : CompsObject → Bool, (found.filter p).Perm (groups.filter q) ↔
      ∀ group ∈ groups, (p group && decide (group ∈ byPattern variants objectKeys (",".intercalate patterns) false groups)) = q group := by
    intro p q
    rw [← perm_filter_iff, ← List.filter_filter]
    exact ⟨fun h => (hfound.filter p).symm.trans h, fun h => (hfound.filter p).trans h⟩
  constructor
  · rintro ⟨hinstalled, havailable⟩ group hgroup hshown
    have hleft := (hsplit _ _).mp hinstalled group hgroup
    have hright := (hsplit _ _).mp havailable group hgroup
    rw [hshown] at hleft hright
    have hsame : decide (group ∈ byPattern variants objectKeys (",".intercalate patterns) false groups) =
        decide (FoundBySome variants patterns groups group) := by
      cases hin : installed group with
      | false => simpa [hin] using hright
      | true => simpa [hin] using hleft
    exact decide_eq_decide.mp hsame
  · intro hagrees
    have hsame : ∀ group ∈ groups, ∀ b : Bool,
        (shown group && b && decide (group ∈ byPattern variants objectKeys (",".intercalate patterns) false groups)) =
          (shown group && decide (FoundBySome variants patterns groups group) && b) := by
      intro group hgroup b
      cases hshown : shown group with
      | false => rfl
      | true =>
          rw [decide_eq_decide.mpr (hagrees group hgroup hshown), Bool.true_and, Bool.true_and, Bool.and_comm]
    exact ⟨(hsplit _ _).mpr fun group hgroup => hsame group hgroup _, (hsplit _ _).mpr fun group hgroup => hsame group hgroup _⟩

/-- Each object that is shown and found by one of the patterns on its own is listed once, and nothing else is. -/
def TreatsAsUnion (comps : CompsData) (swdb : Swdb) (variants : Char → List Char) (setOrder : List CompsObject → List CompsObject) (uservisible : Bool)
    (patterns : List String) : Prop :=
  (∃ lists, groupLists comps swdb variants setOrder uservisible (some patterns) = .ok lists ∧
      UnionOf variants patterns (fun group => !uservisible || group.uservisible) (isInstalled swdb .group) comps.groups lists) ∧
    ∃ lists, environmentLists comps swdb variants setOrder (some patterns) = .ok lists ∧
      UnionOf variants patterns (fun _ => true) (isInstalled swdb .environment) comps.environments lists

theorem groupLists_eq (hcomps : comps.length ≠ 0) (uservisible : Bool) (patterns : List String) :
    groupLists comps swdb variants setOrder uservisible (some patterns) =
      .ok ((objectsByPattern variants setOrder comps.groups (",".intercalate patterns)).filter
          (fun grp => (!uservisible || grp.uservisible) && isInstalled swdb .group grp),
        (objectsByPattern variants setOrder comps.groups (",".intercalate patterns)).filter
          (fun grp => (!uservisible || grp.uservisible) && !isInstalled swdb .group grp)) := by
  rw [groupLists, assertComps, if_neg hcomps, objects]
  refine congrArg Except.ok ?_
  rw [foldl_addGroup, List.nil_append, List.nil_append]

theorem environmentLists_eq (hcomps : comps.length ≠ 0) (patterns : List String) :
    environmentLists comps swdb variants setOrder (some patterns) =
      .ok ((objectsByPattern variants setOrder comps.environments (",".intercalate patterns)).filter
          (fun env => true && isInstalled swdb .environment env),
        (objectsByPattern variants setOrder comps.environments (",".intercalate patterns)).filter
          (fun env => true && !isInstalled swdb .environment env)) := by
  rw [environmentLists, assertComps, if_neg hcomps, objects]
  refine congrArg Except.ok ?_
  simp only [partition, Bool.not_not, Bool.true_and]

theorem joinedAgrees_singleton (pattern : String) (shown : CompsObject → Bool) (groups : List CompsObject) :
    JoinedAgrees variants [pattern] shown groups := by
  intro group _ _
  rw [String.intercalate_singleton, FoundBySome]
  simp only [List.mem_singleton, exists_eq_left]

theorem treatsAsUnion_iff_joinedAgrees (hset : ∀ groups, (setOrder groups).Perm groups) (hcomps : comps.length ≠ 0) (uservisible : Bool)
    (patterns : List String) :
    TreatsAsUnion comps swdb variants setOrder uservisible patterns ↔
      JoinedAgrees variants patterns (fun group => !uservisible || group.uservisible) comps.groups ∧
        JoinedAgrees variants patterns (fun _ => true) comps.environments := by
  rw [TreatsAsUnion, groupLists_eq hcomps, environmentLists_eq hcomps]
  simp only [Except.ok.injEq, exists_eq_left']
  exact and_congr (unionOf_iff (objectsByPattern_perm hset comps.groups _)) (unionOf_iff (objectsByPattern_perm hset comps.environments _))

/-! ### Texts without commas -/

/-- The texts of the objects have no commas and the patterns no brackets, and a comma differs from no character in case only. -/
structure Plain (variants : Char → List Char) (patterns : List String) (groups : List CompsObject) : Prop where
  comma : ∀ c, ',' ∈ variants c → c = ','
  patterns : ∀ pattern ∈ patterns, '[' ∉ pattern.toList
  id : ∀ group ∈ groups, ',' ∉ group.id.toList
  name : ∀ group ∈ groups, ∀ name, group.name = some name → ',' ∉ name.toList
  uiName : ∀ group ∈ groups, ∀ name, group.uiName = some name → ',' ∉ name.toList

theorem comma_mem_joined {first second : String} {rest : List String} : ',' ∈ (",".intercalate (first :: second :: rest)).toList := by
  rw [String.intercalate_cons_cons, String.toList_append, String.toList_append]
  simp

theorem not_mem_joined {patterns : List String} (h : ∀ pattern ∈ patterns, '[' ∉ pattern.toList) : '[' ∉ (",".intercalate patterns).toList := by
  induction patterns with
  | nil => decide +kernel
  | cons first rest ih =>
      cases rest with
      | nil =>
          rw [String.intercalate_singleton]
          exact h first List.mem_cons_self
      | cons second rest =>
          have hrest := ih fun pattern hpattern => h pattern (List.mem_cons_of_mem _ hpattern)
          rw [String.intercalate_cons_cons, String.toList_append, String.toList_append, List.mem_append, List.mem_append]
          rintro ((hfirst | hcomma) | hlater)
          · exact h first List.mem_cons_self hfirst
          · exact absurd hcomma (by decide +kernel)
          · exact hrest hlater

/-- Two patterns with a comma between them find nothing. -/
theorem byPattern_joined_eq_nil {first second : String} {rest : List String} {groups : List CompsObject}
    (h : Plain variants (first :: second :: rest) groups) :
    byPattern variants objectKeys (",".intercalate (first :: second :: rest)) false groups = [] := by
  have hother : ∀ text : String, ',' ∉ text.toList → ",".intercalate (first :: second :: rest) ≠ text := fun text htext heq =>
    htext (heq ▸ comma_mem_joined)
  have hglob : ∀ text : String, ',' ∉ text.toList → globMatches variants false (",".intercalate (first :: second :: rest)) text = false := by
    intro text htext
    refine Bool.eq_false_iff.mpr fun hmatch => ?_
    obtain ⟨c, hc, hvariant⟩ := Fnmatch.mem_of_fnmatchIgnoringCase (not_mem_joined h.patterns) comma_mem_joined ⟨by decide, by decide⟩ hmatch
    exact htext (h.comma c hvariant ▸ hc)
  have hany : ∀ name : Option String, (∀ text, name = some text → ',' ∉ text.toList) →
      name.any (globMatches variants false (",".intercalate (first :: second :: rest))) = false := by
    intro name hname
    cases name with
    | none => rfl
    | some text => exact hglob text (hname text rfl)
  have hexact : groups.filter (fun g => decide (objectKeys.name g = some (",".intercalate (first :: second :: rest))) ||
      decide (objectKeys.id g = ",".intercalate (first :: second :: rest))) = [] := by
    refine List.filter_eq_nil_iff.mpr fun group hgroup hsame => ?_
    rcases Bool.or_eq_true_iff.mp hsame with hname | hid
    · exact hother _ (h.name group hgroup _ (of_decide_eq_true hname)) rfl
    · exact hother _ (h.id group hgroup) (of_decide_eq_true hid).symm
  rw [byPattern, hexact, if_neg (by decide)]
  refine List.filter_eq_nil_iff.mpr fun group hgroup hmatch => ?_
  rw [hglob (objectKeys.id group) (h.id group hgroup), hany (objectKeys.name group) (h.name group hgroup),
    hany (objectKeys.uiName group) (h.uiName group hgroup)] at hmatch
  cases hmatch

theorem joinedAgrees_plain_iff {first second : String} {rest : List String} {shown : CompsObject → Bool} {groups : List CompsObject}
    (h : Plain variants (first :: second :: rest) groups) :
    JoinedAgrees variants (first :: second :: rest) shown groups ↔
      ∀ group ∈ groups, shown group = true → ¬FoundBySome variants (first :: second :: rest) groups group := by
  rw [JoinedAgrees, byPattern_joined_eq_nil h]
  simp only [List.not_mem_nil, false_iff]

end Lists

/-- The patterns are a union when there is one, or when the text that joins them finds among what is shown what they find. Between texts without commas it finds nothing. -/
theorem treatsAsUnion_iff {comps : CompsData} (swdb : Swdb) (variants : Char → List Char) {setOrder : List CompsObject → List CompsObject}
    (hset : ∀ groups, (setOrder groups).Perm groups) (hcomps : comps.length ≠ 0) (uservisible : Bool) (patterns : List String) :
    (TreatsAsUnion comps swdb variants setOrder uservisible patterns ↔
        (∃ pattern, patterns = [pattern]) ∨
          JoinedAgrees variants patterns (fun group => !uservisible || group.uservisible) comps.groups ∧
            JoinedAgrees variants patterns (fun _ => true) comps.environments) ∧
      (2 ≤ patterns.length → Plain variants patterns comps.groups → Plain variants patterns comps.environments →
        (TreatsAsUnion comps swdb variants setOrder uservisible patterns ↔
          (∀ group ∈ comps.groups, (!uservisible || group.uservisible) = true → ¬FoundBySome variants patterns comps.groups group) ∧
            ∀ env ∈ comps.environments, ¬FoundBySome variants patterns comps.environments env)) := by
  have hagrees := @treatsAsUnion_iff_joinedAgrees comps swdb variants setOrder hset hcomps uservisible patterns
  constructor
  · rw [hagrees]
    constructor
    · exact Or.inr
    · rintro (⟨pattern, rfl⟩ | hboth)
      · exact ⟨joinedAgrees_singleton pattern _ _, joinedAgrees_singleton pattern _ _⟩
      · exact hboth
  · intro hlength hgroups henvironments
    match patterns, hlength with
    | first :: second :: rest, _ =>
        rw [hagrees, joinedAgrees_plain_iff hgroups, joinedAgrees_plain_iff henvironments]
        simp only [forall_true_left]

/-- Two groups, of which the history has the first. -/
def twoGroups : CompsData where
  categories := 0
  groups := [⟨"base", some "Base", none, some 1, true⟩, ⟨"tools", some "Tools", none, none, true⟩]
  environments := []

theorem treatsAsUnion_base : TreatsAsUnion twoGroups baseSwdb Fnmatch.asciiVariants id true ["base"] :=
  (treatsAsUnion_iff baseSwdb Fnmatch.asciiVariants (fun _ => .refl _) (by decide) true ["base"]).1.mpr (Or.inl ⟨"base", rfl⟩)

/-- Each pattern is the id of a group, but the lists are empty. -/
theorem not_treatsAsUnion_base_tools : ¬TreatsAsUnion twoGroups baseSwdb Fnmatch.asciiVariants id true ["base", "tools"] := by
  intro hunion
  have hagrees := (treatsAsUnion_iff_joinedAgrees (fun _ => .refl _) (by decide) true ["base", "tools"]).mp hunion
  have hfound := (hagrees.1 ⟨"base", some "Base", none, some 1, true⟩ List.mem_cons_self rfl).mpr ⟨"base", List.mem_cons_self, by decide +kernel⟩
  revert hfound
  decide +kernel

end Dnf.Cli.GroupCommand
