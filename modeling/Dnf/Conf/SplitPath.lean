import Dnf.Foundation.PosixPath

/-!
# Splitting a path

The repo files are ordered by the components of their paths. `split_path` splits off the last component until `os.path.split` gives an empty one, which is how it finds the root; the first split of a path that ends in a slash gives an empty one as well.
-/

namespace Dnf.Conf.SplitPath

open Foundation.PosixPath

/-- The loop of `split_path`. It ends: what is split off makes the rest shorter. -/
def splitLoop (head : List Char) (result : List (List Char)) : List (List Char) :=
  if (split head).2 = [] then
    if (split head).1 ≠ [] ∨ result = [] then (split head).1 :: result else result
  else splitLoop (split head).1 ((split head).2 :: result)
termination_by head.length
decreasing_by
  have htail := List.length_pos_iff.mpr ‹(split head).2 ≠ []›
  have := length_split_le head
  omega

/-- `split_path` -/
def splitPath (path : List Char) : List (List Char) := splitLoop path []

/-- A root, or none, and then components without slashes. -/
def OnlyRootHasSlash (components : List (List Char)) : Prop :=
  ∃ root rest, components = root ++ rest ∧ (root = [] ∨ ∃ n, root = [slashes (n + 1)]) ∧ ∀ component ∈ rest, '/' ∉ component

/-- The components of a path that does not end in a slash. -/
inductive Components : List Char → List (List Char) → Prop
  | name {name} : name ≠ [] → '/' ∉ name → Components name [name]
  | root {name} (n : Nat) : name ≠ [] → '/' ∉ name → Components (slashes (n + 1) ++ name) [slashes (n + 1), name]
  | under {path components name} (n : Nat) : Components path components → name ≠ [] → '/' ∉ name →
      Components (path ++ slashes (n + 1) ++ name) (components ++ [name])

variable {path : List Char} {components : List (List Char)}

theorem Components.ne_nil (h : Components path components) : path ≠ [] := by
  induction h with
  | name hne _ => exact hne
  | root n hne _ => exact List.append_ne_nil_of_right_ne_nil _ hne
  | under n _ hne _ _ => exact List.append_ne_nil_of_right_ne_nil _ hne

theorem Components.getLast (h : Components path components) : path.getLast? ≠ some '/' := by
  cases h with
  | name hne hname => exact @getLast_append_name [] _ hname hne
  | root n hne hname => exact getLast_append_name hname hne
  | under n _ hne hname => exact getLast_append_name hname hne

theorem Components.splitLoop_eq (h : Components path components) (result : List (List Char)) : splitLoop path result = components ++ result := by
  induction h generalizing result with
  | @name name hne hname =>
      have hnil : split [] = ([], []) := rfl
      rw [splitLoop, split_of_name hname, if_neg hne, splitLoop, hnil, if_pos rfl, if_neg (by simp)]
      rfl
  | @root name n hne hname =>
      have hsplit : split (slashes (n + 1) ++ name) = (slashes (n + 1), name) := by
        have := @split_name [] name (n + 1) hname n.succ_pos
        rwa [List.nil_append, List.length_nil, Nat.zero_add, if_neg (by simp)] at this
      rw [splitLoop, hsplit, if_neg hne, splitLoop, split_slashes, if_pos rfl, if_pos (Or.inl (by simp [slashes]))]
      rfl
  | @under path components name n hpath hne hname ih =>
      have hproper : path ++ slashes (n + 1) ≠ slashes (path.length + (n + 1)) := append_slashes_ne hpath.ne_nil hpath.getLast
      have hsplit := @split_name path name (n + 1) hname n.succ_pos
      rw [if_pos hproper, rstrip_of_getLast hpath.getLast] at hsplit
      rw [splitLoop, hsplit, if_neg hne, ih, List.append_assoc, List.singleton_append]

/-- Slash by slash and name by name, from the end. -/
theorem exists_components (hpath : path ≠ []) (hlast : path.getLast? ≠ some '/') : ∃ components, Components path components := by
  induction hlength : path.length using Nat.strong_induction_on generalizing path with
  | _ length ih =>
    obtain ⟨name, hname, hne, hsplit⟩ := exists_name hpath hlast
    rcases hsplit with hwhole | ⟨head, n, hsplit, hhead⟩
    · exact ⟨_, hwhole ▸ Components.name hne hname⟩
    · by_cases hroot : head = []
      · subst hroot
        exact ⟨_, hsplit ▸ Components.root n hne hname⟩
      · obtain ⟨components, hcomponents⟩ := ih head.length (by rw [← hlength, hsplit, List.length_append, List.length_append]; simp [slashes]; omega)
          hroot hhead rfl
        exact ⟨_, hsplit ▸ Components.under n hcomponents hne hname⟩

theorem Components.join_ne_nil (h : Components path components) : components ≠ [] := by
  cases h <;> simp

/-- Joined again it is the same path. The last component is no slash, so `join` puts one in front of the next. -/
theorem Components.samePath (h : Components path components) :
    SamePath (join components) path ∧ join components ≠ [] ∧ (join components).getLast? ≠ some '/' := by
  induction h with
  | @name name hne hname => exact ⟨SamePath.refl name, hne, @getLast_append_name [] name hname hne⟩
  | @root name n hne hname =>
      have hjoin : join [slashes (n + 1), name] = slashes (n + 1) ++ name := by
        have hhead : name.head? ≠ some '/' := fun h => hname (List.mem_of_head? h)
        have hslash : (slashes (n + 1)).getLast? = some '/' := @getLast_append_slashes [] (n + 1) n.succ_pos
        rw [join, List.foldl_cons, List.foldl_nil, joinStep, if_neg hhead, if_pos (Or.inr hslash)]
      rw [hjoin]
      exact ⟨SamePath.refl _, List.append_ne_nil_of_right_ne_nil _ hne, getLast_append_name hname hne⟩
  | @under path components name n hpath hne hname ih =>
      obtain ⟨hsame, hnil, hlast⟩ := ih
      have hjoin : join (components ++ [name]) = join components ++ slashes 1 ++ name := by
        obtain ⟨first, rest, rfl⟩ := List.exists_cons_of_ne_nil hpath.join_ne_nil
        rw [List.cons_append, join, List.foldl_append, List.foldl_cons, List.foldl_nil]
        exact joinStep_name hname hnil hlast
      rw [hjoin]
      refine ⟨⟨?_, ?_⟩, List.append_ne_nil_of_right_ne_nil _ hne, getLast_append_name hname hne⟩
      · rw [List.append_assoc, List.append_assoc, List.head?_append_of_ne_nil _ hnil, List.head?_append_of_ne_nil _ hpath.ne_nil]
        exact hsame.absolute
      · rw [names_append_slashes Nat.one_pos, names_append_slashes n.succ_pos, hsame.names]

theorem Components.onlyRootHasSlash (h : Components path components) : OnlyRootHasSlash components := by
  induction h with
  | @name name hne hname => exact ⟨[], [name], rfl, Or.inl rfl, by simpa using hname⟩
  | @root name n hne hname => exact ⟨[slashes (n + 1)], [name], rfl, Or.inr ⟨n, rfl⟩, by simpa using hname⟩
  | @under path components name n hpath hne hname ih =>
      obtain ⟨root, rest, rfl, hroot, hrest⟩ := ih
      refine ⟨root, rest ++ [name], List.append_assoc _ _ _, hroot, ?_⟩
      intro component hcomponent
      rcases List.mem_append.mp hcomponent with hfront | hlast
      · exact hrest component hfront
      · rw [List.mem_singleton.mp hlast]
        exact hname

/-- A path that ends in a slash is not split any further. -/
theorem splitPath_slash (path : List Char) (n : Nat) (hpath : path.getLast? ≠ some '/') :
    splitPath (path ++ slashes (n + 1)) = if path = [] then [slashes (n + 1)] else [path] := by
  have hsplit := @split_name path [] (n + 1) (by simp) n.succ_pos
  rw [List.append_nil] at hsplit
  by_cases hnil : path = []
  · subst hnil
    rw [List.nil_append, List.length_nil, Nat.zero_add, if_neg (by simp)] at hsplit
    rw [splitPath, List.nil_append, splitLoop, hsplit, if_pos rfl, if_pos (Or.inr rfl), if_pos rfl]
  · have hproper : path ++ slashes (n + 1) ≠ slashes (path.length + (n + 1)) := append_slashes_ne hnil hpath
    rw [if_pos hproper, rstrip_of_getLast hpath] at hsplit
    rw [splitPath, splitLoop, hsplit, if_pos rfl, if_pos (Or.inr rfl), if_neg hnil]

theorem exists_slashes (hlast : path.getLast? = some '/') : ∃ n, path = rstrip path ++ slashes (n + 1) := by
  obtain ⟨n, hn⟩ := eq_rstrip_append path
  cases n with
  | zero =>
      rw [hn, show slashes 0 = [] from rfl, List.append_nil] at hlast
      exact absurd hlast (getLast_rstrip path)
  | succ n => exact ⟨n, hn⟩

/-- A single component that does not end in a slash is no root. -/
theorem onlyRootHasSlash_singleton (hlast : path.getLast? ≠ some '/') : OnlyRootHasSlash [path] ↔ '/' ∉ path := by
  constructor
  · intro ⟨root, rest, hcomponents, hroot, hrest⟩
    rcases hroot with rfl | ⟨k, rfl⟩
    · rw [List.nil_append] at hcomponents
      exact hrest _ (by rw [← hcomponents]; exact List.mem_singleton_self _)
    · rw [List.singleton_append, List.cons.injEq] at hcomponents
      rw [hcomponents.1] at hlast
      exact absurd (@getLast_append_slashes [] (k + 1) k.succ_pos) hlast
  · exact fun hslash => ⟨[], [path], rfl, Or.inl rfl, by simpa using hslash⟩

/-- A path that does not end in a slash is split as it should be. -/
theorem splitPath_of_getLast (hlast : path.getLast? ≠ some '/') : SamePath (join (splitPath path)) path ∧ OnlyRootHasSlash (splitPath path) := by
  by_cases hnil : path = []
  · subst hnil
    have hsplit : splitPath [] = [[]] := by
      have hsplit : split [] = ([], []) := rfl
      rw [splitPath, splitLoop, hsplit, if_pos rfl, if_pos (Or.inr rfl)]
    rw [hsplit]
    exact ⟨SamePath.refl [], [], [[]], rfl, Or.inl rfl, by simp⟩
  · obtain ⟨components, hcomponents⟩ := exists_components hnil hlast
    rw [splitPath, hcomponents.splitLoop_eq, List.append_nil]
    exact ⟨hcomponents.samePath.1, hcomponents.onlyRootHasSlash⟩

/-- The components join to the same path and only a root has a slash exactly when the path does not end in a slash or has no other slashes than those at its end. -/
theorem splitPath_iff (path : List Char) :
    (SamePath (join (splitPath path)) path ∧ OnlyRootHasSlash (splitPath path)) ↔ (path.getLast? ≠ some '/' ∨ '/' ∉ rstrip path) := by
  by_cases hlast : path.getLast? = some '/'
  · obtain ⟨n, hn⟩ := exists_slashes hlast
    have hsplit : splitPath path = if rstrip path = [] then [slashes (n + 1)] else [rstrip path] := by
      conv => lhs; rw [hn]
      exact splitPath_slash (rstrip path) n (getLast_rstrip path)
    by_cases hnil : rstrip path = []
    · rw [hsplit, if_pos hnil, hnil]
      rw [hnil, List.nil_append] at hn
      refine iff_of_true ⟨?_, [slashes (n + 1)], [], rfl, Or.inr ⟨n, rfl⟩, by simp⟩ (Or.inr (by simp))
      rw [hn]
      exact SamePath.refl _
    · have hsame : SamePath (rstrip path) path := by
        conv => rhs; rw [hn]
        exact samePath_append_slashes hnil (n + 1)
      rw [hsplit, if_neg hnil, onlyRootHasSlash_singleton (getLast_rstrip path), or_iff_right (not_not.mpr hlast)]
      exact and_iff_right hsame
  · exact iff_of_true (splitPath_of_getLast hlast) (Or.inl hlast)

/-- `split_path('a/b/')` is `['a/b']`. -/
theorem not_onlyRootHasSlash_ab : ¬OnlyRootHasSlash (splitPath ['a', '/', 'b', '/']) := by
  have hsplit : splitPath ['a', '/', 'b', '/'] = [['a', '/', 'b']] := splitPath_slash ['a', '/', 'b'] 0 (by decide)
  rw [hsplit]
  intro ⟨root, rest, hcomponents, hroot, hrest⟩
  rcases hroot with rfl | ⟨k, rfl⟩
  · rw [List.nil_append] at hcomponents
    exact hrest _ (by rw [← hcomponents]; exact List.mem_singleton_self _) (by decide)
  · rw [List.singleton_append, List.cons.injEq] at hcomponents
    exact absurd hcomponents.1 (by simp [slashes, List.replicate_succ])

end Dnf.Conf.SplitPath
