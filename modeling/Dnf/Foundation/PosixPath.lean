import Dnf.Foundation.Strip

/-!
# Paths as texts

`os.path.split` and `os.path.join` of POSIX. Two texts denote the same path when both are absolute or none is and they have the same names, the pieces between slashes that are not empty: repeated and trailing slashes make no difference.
-/

namespace Foundation.PosixPath

open Strip

/-- `path.rstrip('/')` -/
def rstrip (path : List Char) : List Char := path.rdropWhile (· = '/')

/-- `os.path.split`: a head of slashes alone is kept as it is. -/
def split (path : List Char) : List Char × List Char :=
  let head := path.rdropWhile (· ≠ '/')
  (if head ≠ [] ∧ head ≠ List.replicate head.length '/' then rstrip head else head, path.rtakeWhile (· ≠ '/'))

/-- One turn of the loop of `os.path.join`. -/
def joinStep (path part : List Char) : List Char :=
  if part.head? = some '/' then part
  else if path = [] ∨ path.getLast? = some '/' then path ++ part
  else path ++ '/' :: part

/-- `os.path.join(*parts)`; without parts it would be an exception. -/
def join : List (List Char) → List Char
  | [] => []
  | path :: parts => parts.foldl joinStep path

/-- The names in a path. -/
def names (path : List Char) : List (List Char) := (path.splitOn '/').filter (· ≠ [])

structure SamePath (path path' : List Char) : Prop where
  absolute : path.head? = some '/' ↔ path'.head? = some '/'
  names : names path = names path'

/-- `n` slashes. -/
def slashes (n : Nat) : List Char := List.replicate n '/'

variable {path head name : List Char} {n : Nat}

theorem SamePath.refl (path : List Char) : SamePath path path := ⟨Iff.rfl, rfl⟩

theorem ne_slash_of_mem_name (hname : '/' ∉ name) {c : Char} (hc : c ∈ name) : decide (c ≠ '/') = true :=
  decide_eq_true fun h => hname (h ▸ hc)

/-! ### Slashes at the end -/

theorem rstrip_slashes (head : List Char) (n : Nat) : rstrip (head ++ slashes n) = rstrip head := rdropWhile_append_replicate head n

theorem rstrip_of_getLast (hlast : path.getLast? ≠ some '/') : rstrip path = path := rdropWhile_of_getLast hlast

theorem getLast_rstrip (path : List Char) : (rstrip path).getLast? ≠ some '/' := getLast_rdropWhile path

theorem eq_rstrip_append (path : List Char) : ∃ n, path = rstrip path ++ slashes n := exists_append_replicate '/' path

theorem getLast_append_slashes (hn : 0 < n) : (head ++ slashes n).getLast? = some '/' := by
  obtain ⟨n, rfl⟩ := Nat.exists_eq_succ_of_ne_zero (Nat.ne_of_gt hn)
  rw [show slashes n.succ = slashes n ++ ['/'] from List.replicate_add n 1 '/', ← List.append_assoc, List.getLast?_concat]

theorem getLast_append_name (hname : '/' ∉ name) (hne : name ≠ []) : (head ++ name).getLast? ≠ some '/' := by
  rw [List.getLast?_append_of_ne_nil _ hne]
  exact fun h => hname (List.mem_of_getLast? h)

theorem append_slashes_ne (hhead : head ≠ []) (hlast : head.getLast? ≠ some '/') : head ++ slashes n ≠ slashes (head.length + n) := by
  intro h
  rw [slashes, slashes, List.replicate_add] at h
  rw [List.append_cancel_right h, List.getLast?_replicate, if_neg (mt List.length_eq_zero_iff.mp hhead)] at hlast
  exact hlast rfl

/-- What stands behind the last slash of a path is a name; the slashes in front of it end what it is in. -/
theorem exists_name (hpath : path ≠ []) (hlast : path.getLast? ≠ some '/') :
    ∃ name, '/' ∉ name ∧ name ≠ [] ∧ (path = name ∨ ∃ head n, path = head ++ slashes (n + 1) ++ name ∧ head.getLast? ≠ some '/') := by
  have hboth : path.rdropWhile (· ≠ '/') ++ path.rtakeWhile (· ≠ '/') = path := List.rdropWhile_append_rtakeWhile
  refine ⟨path.rtakeWhile (· ≠ '/'), ?_, ?_, ?_⟩
  · intro hmem
    have hne : decide ('/' ≠ '/') = true := @List.mem_rtakeWhile_imp _ (fun c => decide (c ≠ '/')) path '/' hmem
    exact absurd rfl (of_decide_eq_true hne)
  · intro hnil
    rw [List.rtakeWhile_eq_nil_iff] at hnil
    rw [List.getLast?_eq_some_getLast hpath] at hlast
    exact hnil hpath (decide_eq_true fun h => hlast (congrArg some h))
  · by_cases hnil : path.rdropWhile (· ≠ '/') = []
    · rw [hnil, List.nil_append] at hboth
      exact Or.inl hboth.symm
    · obtain ⟨n, hn⟩ := eq_rstrip_append (path.rdropWhile (· ≠ '/'))
      cases n with
      | zero =>
          -- the head would end in a name
          have hslash := List.rdropWhile_last_not (fun c => decide (c ≠ '/')) path hnil
          have hend := getLast_rstrip (path.rdropWhile (· ≠ '/'))
          rw [show slashes 0 = [] from rfl, List.append_nil] at hn
          rw [← hn, List.getLast?_eq_some_getLast hnil] at hend
          exact absurd (by simpa using hslash) (mt (congrArg some) hend)
      | succ n => exact Or.inr ⟨rstrip (path.rdropWhile (· ≠ '/')), n, by rw [← hn, hboth], getLast_rstrip _⟩

/-! ### `split` -/

theorem split_slashes (n : Nat) : split (slashes n) = (slashes n, []) := by
  have hhead : (slashes n).rdropWhile (· ≠ '/') = slashes n := by
    rw [List.rdropWhile_eq_self_iff]
    intro hne
    simp [slashes]
  have htail : (slashes n).rtakeWhile (· ≠ '/') = [] := by
    rw [List.rtakeWhile_eq_nil_iff]
    intro hne
    simp [slashes]
  rw [split, hhead, htail]
  simp [slashes]

/-- The tail is the name behind the last slash. -/
theorem split_name (hname : '/' ∉ name) (hn : 0 < n) :
    split (head ++ slashes n ++ name) = (if head ++ slashes n ≠ slashes (head.length + n) then rstrip head else head ++ slashes n, name) := by
  have hall : ∀ c ∈ name, decide (c ≠ '/') = true := fun c hc => ne_slash_of_mem_name hname hc
  have hlast := @getLast_append_slashes head n hn
  have hhead : (head ++ slashes n ++ name).rdropWhile (· ≠ '/') = head ++ slashes n := by
    rw [rdropWhile_append_all hall, List.rdropWhile_eq_self_iff]
    intro hne
    rw [List.getLast?_eq_some_getLast hne, Option.some.injEq] at hlast
    simp [hlast]
  have htail : (head ++ slashes n ++ name).rtakeWhile (· ≠ '/') = name := by
    have hboth := List.rdropWhile_append_rtakeWhile (l := head ++ slashes n ++ name) (p := fun c => decide (c ≠ '/'))
    rw [hhead] at hboth
    exact List.append_cancel_left hboth
  have hne : head ++ slashes n ≠ [] := by
    intro h
    rw [h] at hlast
    cases hlast
  rw [split, hhead, htail, rstrip_slashes, List.length_append, show (slashes n).length = n from List.length_replicate]
  simp only [hne, ne_eq, not_false_eq_true, true_and]
  rfl

theorem split_of_name (hname : '/' ∉ name) : split name = ([], name) := by
  have hhead : name.rdropWhile (· ≠ '/') = [] := List.rdropWhile_eq_nil_iff.mpr fun c hc => ne_slash_of_mem_name hname hc
  have htail : name.rtakeWhile (· ≠ '/') = name := List.rtakeWhile_eq_self_iff.mpr fun c hc => ne_slash_of_mem_name hname hc
  rw [split, hhead, htail]
  rfl

theorem length_split_le (path : List Char) : (split path).1.length + (split path).2.length ≤ path.length := by
  have hhead : (split path).1.length ≤ (path.rdropWhile (· ≠ '/')).length := by
    rw [split]
    split_ifs
    · exact (List.rdropWhile_prefix _ _).length_le
    · exact Nat.le_refl _
  have hboth := congrArg List.length (List.rdropWhile_append_rtakeWhile (l := path) (p := fun c => decide (c ≠ '/')))
  rw [List.length_append] at hboth
  exact hboth ▸ Nat.add_le_add_right hhead _

/-! ### Names -/

/-- Slashes separate the names in front of them from those behind them. -/
theorem names_append_slashes (hn : 0 < n) (head tail : List Char) : names (head ++ slashes n ++ tail) = names head ++ names tail := by
  have hcons (tail : List Char) : names ('/' :: tail) = names tail := by
    rw [names, ← List.nil_append ('/' :: tail), List.splitOn_append_cons_self]
    rfl
  have hskip (n : Nat) : names (slashes n ++ tail) = names tail := by
    induction n with
    | zero => rfl
    | succ n ih => exact (hcons _).trans ih
  obtain ⟨n, rfl⟩ := Nat.exists_eq_succ_of_ne_zero (Nat.ne_of_gt hn)
  rw [List.append_assoc, show slashes n.succ ++ tail = '/' :: (slashes n ++ tail) from rfl, names, List.splitOn_append_cons_self, List.filter_append]
  exact congrArg (names head ++ ·) (hskip n)

theorem samePath_append_slashes (hhead : head ≠ []) (n : Nat) : SamePath head (head ++ slashes n) := by
  constructor
  · rw [List.head?_append_of_ne_nil _ hhead]
  · rcases Nat.eq_zero_or_pos n with rfl | hn
    · rw [show slashes 0 = [] from rfl, List.append_nil]
    · have := names_append_slashes hn head []
      rw [List.append_nil] at this
      rw [this]
      exact (List.append_nil _).symm

/-- A name joined to a path. -/
theorem joinStep_name (hname : '/' ∉ name) (hpath : path ≠ []) (hlast : path.getLast? ≠ some '/') : joinStep path name = path ++ slashes 1 ++ name := by
  have hhead : name.head? ≠ some '/' := fun h => hname (List.mem_of_head? h)
  rw [joinStep, if_neg hhead, if_neg (not_or.mpr ⟨hpath, hlast⟩), List.append_assoc]
  rfl

/-! ### `normpath` -/

/-- How many slashes `os.path.normpath` keeps in front. -/
def initialSlashes : List Char → Nat
  | '/' :: '/' :: '/' :: _ => 1
  | '/' :: '/' :: _ => 2
  | '/' :: _ => 1
  | _ => 0

/-- One turn of the loop of `os.path.normpath`. -/
def normStep (absolute : Bool) (names : List (List Char)) (name : List Char) : List (List Char) :=
  if name = [] ∨ name = ['.'] then names
  else if name ≠ ['.', '.'] ∨ (absolute = false ∧ names = []) ∨ names.getLast? = some ['.', '.'] then names ++ [name]
  else names.dropLast

/-- `os.path.normpath` -/
def normpath (path : List Char) : List Char :=
  let names := (path.splitOn '/').foldl (normStep (initialSlashes path ≠ 0)) []
  let text := slashes (initialSlashes path) ++ ['/'].intercalate names
  if text = [] then ['.'] else text

/-- What a directory calls its entries. -/
structure EntryName where
  text : List Char
  ne_nil : text ≠ []
  no_slash : '/' ∉ text
  ne_dot : text ≠ ['.']
  ne_dotdot : text ≠ ['.', '.']

/-- The relative path that goes through some names. -/
def relative (names : List EntryName) : List Char := ['/'].intercalate (names.map EntryName.text)

theorem foldl_normStep (absolute : Bool) (names : List EntryName) (before : List (List Char)) :
    (names.map EntryName.text).foldl (normStep absolute) before = before ++ names.map EntryName.text := by
  induction names generalizing before with
  | nil => exact (List.append_nil before).symm
  | cons name names ih =>
      rw [List.map_cons, List.foldl_cons, normStep, if_neg (not_or.mpr ⟨name.ne_nil, name.ne_dot⟩), if_pos (.inl name.ne_dotdot), ih]
      exact List.append_assoc before [name.text] _

theorem relative_singleton (name : EntryName) : relative [name] = name.text := List.intercalate_singleton

theorem relative_cons {names : List EntryName} (hne : names ≠ []) (name : EntryName) :
    relative (name :: names) = name.text ++ slashes 1 ++ relative names := by
  obtain ⟨next, names, rfl⟩ := List.exists_cons_of_ne_nil hne
  exact List.intercalate_cons_cons

theorem relative_head {names : List EntryName} (hne : names ≠ []) : ∃ c tail, relative names = c :: tail ∧ c ≠ '/' := by
  obtain ⟨name, names, rfl⟩ := List.exists_cons_of_ne_nil hne
  obtain ⟨c, tail, htext⟩ := List.exists_cons_of_ne_nil name.ne_nil
  have hc : c ≠ '/' := fun heq => name.no_slash (htext ▸ heq ▸ List.mem_cons_self)
  by_cases hnil : names = []
  · exact ⟨c, tail, by rw [hnil, relative_singleton, htext], hc⟩
  · exact ⟨c, tail ++ slashes 1 ++ relative names, by rw [relative_cons hnil, htext]; rfl, hc⟩

theorem initialSlashes_of_head {c : Char} {tail : List Char} (hc : c ≠ '/') : initialSlashes (c :: tail) = 0 := by
  rw [initialSlashes]
  all_goals rintro _ heq
  all_goals exact hc (List.cons.inj heq).1

theorem normpath_of_splitOn {path : List Char} {names : List EntryName} (hne : names ≠ []) (hslashes : initialSlashes path = 0)
    (hsplit : (path.splitOn '/').foldl (normStep false) [] = names.map EntryName.text) : normpath path = relative names := by
  obtain ⟨c, tail, hrelative, -⟩ := relative_head hne
  have htext : slashes (initialSlashes path) ++ ['/'].intercalate (names.map EntryName.text) = relative names := by rw [hslashes]; rfl
  rw [normpath]
  simp only [hslashes, ne_eq, not_true_eq_false, decide_false, hsplit]
  rw [hslashes] at htext
  rw [htext, if_neg (by rw [hrelative]; exact List.cons_ne_nil c tail)]

theorem splitOn_relative {names : List EntryName} (hne : names ≠ []) : (relative names).splitOn '/' = names.map EntryName.text := by
  refine List.splitOn_intercalate '/' (fun text htext => ?_) (by simpa using hne)
  obtain ⟨name, -, rfl⟩ := List.mem_map.mp htext
  exact name.no_slash

theorem normpath_relative {names : List EntryName} (hne : names ≠ []) : normpath (relative names) = relative names := by
  obtain ⟨c, tail, hrelative, hc⟩ := relative_head hne
  refine normpath_of_splitOn hne (by rw [hrelative, initialSlashes_of_head hc]) ?_
  rw [splitOn_relative hne, foldl_normStep, List.nil_append]

theorem normpath_dot_relative {names : List EntryName} (hne : names ≠ []) : normpath ('.' :: '/' :: relative names) = relative names := by
  refine normpath_of_splitOn hne (initialSlashes_of_head (by decide)) ?_
  rw [show '.' :: '/' :: relative names = ['.'] ++ '/' :: relative names from rfl, List.splitOn_append_cons_self, splitOn_relative hne,
    List.splitOn_eq_singleton (by decide), List.foldl_append]
  exact (foldl_normStep false names []).trans (List.nil_append _)

theorem relative_concat {names : List EntryName} (hne : names ≠ []) (name : EntryName) :
    relative (names ++ [name]) = relative names ++ slashes 1 ++ name.text := by
  induction names with
  | nil => exact absurd rfl hne
  | cons first names ih =>
      by_cases hnil : names = []
      · rw [hnil, List.singleton_append, relative_cons (List.cons_ne_nil name []), relative_singleton, relative_singleton]
      · rw [List.cons_append, relative_cons (by simp), ih hnil, relative_cons hnil]
        simp only [List.append_assoc]

theorem relative_getLast {names : List EntryName} (hne : names ≠ []) : (relative names).getLast? ≠ some '/' := by
  obtain ⟨front, last, rfl⟩ := List.eq_nil_or_concat names |>.resolve_left hne
  rw [List.concat_eq_append]
  by_cases hfront : front = []
  · rw [hfront, List.nil_append, relative_singleton]
    exact fun h => last.no_slash (List.mem_of_getLast? h)
  · rw [relative_concat hfront]
    exact getLast_append_name last.no_slash last.ne_nil

/-- An entry of a directory joined to the relative path of the directory. -/
theorem join_relative {names : List EntryName} (hne : names ≠ []) (name : EntryName) :
    join [relative names, name.text] = relative (names ++ [name]) := by
  obtain ⟨c, tail, hrelative, -⟩ := relative_head hne
  rw [relative_concat hne, join, List.foldl_cons, List.foldl_nil,
    joinStep_name name.no_slash (by rw [hrelative]; exact List.cons_ne_nil c tail) (relative_getLast hne)]

end Foundation.PosixPath
