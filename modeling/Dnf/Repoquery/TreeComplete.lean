import Dnf.Repoquery.Tree

/-!
# What stands below a root

`tree_seed` ends on every graph of packages, because a package that it expands was not used before, and below a root it prints exactly what the root leads to along the successors that it goes through. What it does not go through are the packages of a listing behind one that is skipped, as the loop returns there instead of going on, and the packages that another of the same name and architecture replaces.
-/

namespace Dnf.Repoquery

open Foundation Relation
open Listing (assign mem_assign)

variable {Package Reldep : Type} [DecidableEq Package] (sack : TreeSack Package Reldep) (opts : TreeOptions) (aquery : Finset Package)

/-! ### What a tree should show -/

/-- The relation that the options choose. -/
def TreeSack.Leads (p q : Package) : Prop :=
  if opts.packageatr ≠ [] then q ∈ sack.packages ∧ ∃ name ∈ sack.attr opts.packageatr p, sack.provides q name = true
  else q ∈ sack.pkgquery opts aquery p

/-- One step to a package that is not skipped. -/
def TreeSack.LeadsTo (p q : Package) : Prop := sack.Leads opts aquery p q ∧ sack.isSkipped q = false

/-- The lines of the roots, each with the lines below it. -/
def trees : List (Line Package) → List (Line Package × List (Line Package))
  | [] => []
  | line :: lines => if line.level = -1 then (line, lines.takeWhile (·.level ≠ -1)) :: trees lines else trees lines

def expandedPackages (lines : List (Line Package)) : List Package := (lines.filter (·.expanded)).map (·.pkg)

/-- There are lines; each root has a tree, no tree expands a package twice, and each package that a root leads to has a twin in its tree. -/
def TreeSack.KeepsTree (query : Finset Package) (output : Option (List (Line Package) × Finset Package)) : Prop :=
  ∃ lines usedpkgs, output = some (lines, usedpkgs) ∧
    (∀ root ∈ query, sack.isSkipped root = false → ∃ tree ∈ trees lines, tree.1.pkg = root) ∧
    ∀ tree ∈ trees lines, (expandedPackages (tree.1 :: tree.2)).Nodup ∧
      ∀ q, TransGen (sack.LeadsTo opts aquery) tree.1.pkg q → ∃ line ∈ tree.2, sack.nameArch line.pkg = sack.nameArch q

/-! ### When it does -/

/-- The packages of a listing in front of the first that is skipped. -/
def TreeSack.inFront (listing : List Package) : List Package := listing.takeWhile fun pkg => !sack.isSkipped pkg

/-- The successors that the tree goes through. -/
def TreeSack.successors (pkg : Package) : List Package := sack.inFront (sack.sorted (sack.pkgquery opts aquery pkg))

/-- No root stands behind one that is skipped, and what a root leads to has a twin that it leads to along the successors the tree goes through. -/
def TreeSack.Uncut (query : Finset Package) : Prop :=
  (∀ root ∈ query, sack.isSkipped root = false → root ∈ sack.inFront (sack.sorted query)) ∧
    ∀ root ∈ sack.inFront (sack.sorted query), ∀ q, TransGen (sack.LeadsTo opts aquery) root q →
      ∃ twin, TransGen (fun a b => b ∈ sack.successors opts aquery a) root twin ∧ sack.nameArch twin = sack.nameArch q

/-! ### The graph is finite -/

omit [DecidableEq Package] in
theorem TreeSack.mem_sorted {query : Finset Package} {p : Package} : p ∈ sack.sorted query ↔ p ∈ query :=
  (List.mem_insertionSort _).trans sack.mem_iterated

omit [DecidableEq Package] in
theorem TreeSack.values_ar (names : List Reldep) : ∀ entry ∈ sack.ar names, entry.2 ∈ sack.packages := by
  have hprovider (name : Reldep) (p : Package) (hp : p ∈ sack.run (sack.filterProvides sack.packages [name])) : p ∈ sack.packages :=
    (Finset.mem_filter.mp (sack.mem_run.mp hp)).1
  have hinner (providers : List Package) (hproviders : ∀ p ∈ providers, p ∈ sack.packages) (ar : List (List Char × Package))
      (har : ∀ entry ∈ ar, entry.2 ∈ sack.packages) :
      ∀ entry ∈ providers.foldl (fun ar p => assign ar (sack.nameArch p) p) ar, entry.2 ∈ sack.packages := by
    induction providers generalizing ar with
    | nil => exact har
    | cons p providers ih =>
        refine ih (fun q hq => hproviders q (List.mem_cons_of_mem _ hq)) _ fun entry hentry => ?_
        rcases mem_assign hentry with hold | rfl
        · exact har entry hold
        · exact hproviders p List.mem_cons_self
  have houter (ar : List (List Char × Package)) (har : ∀ entry ∈ ar, entry.2 ∈ sack.packages) :
      ∀ entry ∈ names.foldl
        (fun ar name => (sack.run (sack.filterProvides sack.packages [name])).foldl (fun ar p => assign ar (sack.nameArch p) p) ar) ar,
        entry.2 ∈ sack.packages := by
    induction names generalizing ar with
    | nil => exact har
    | cons name names ih => exact ih _ (hinner _ (hprovider name) ar har)
  exact houter [] fun entry hentry => absurd hentry List.not_mem_nil

theorem TreeSack.byAllDeps_subset (names : List (List Char)) : sack.byAllDeps opts names aquery false ⊆ aquery := by
  have hdepquery : (aquery.filter fun p => ∃ name ∈ names, sack.requiresGlob p name = true) ∪ sack.filterRequires aquery (sack.resolveNevras names aquery) ⊆ aquery :=
    Finset.union_subset (Finset.filter_subset _ _) (Finset.filter_subset _ _)
  simp only [TreeSack.byAllDeps, Bool.false_eq_true, if_false]
  split_ifs
  · intro p hp
    obtain hselect | ⟨q, hq, hreach⟩ := sack.mem_doRecursiveDeps_iff.mp hp
    · exact hdepquery hselect
    · obtain ⟨_, _, hlast⟩ := TransGen.tail'_iff.mp hreach
      exact hlast.1
  · exact hdepquery

theorem TreeSack.pkgquery_subset (pkg : Package) : sack.pkgquery opts aquery pkg ⊆ sack.packages ∪ aquery := by
  unfold TreeSack.pkgquery
  split_ifs
  · intro p hp
    obtain ⟨entry, hentry, rfl⟩ := List.mem_map.mp (List.mem_toFinset.mp hp)
    exact Finset.mem_union_left _ (sack.values_ar _ entry hentry)
  · exact (sack.byAllDeps_subset opts aquery _).trans Finset.subset_union_right
  · exact (Finset.filter_subset _ _).trans Finset.subset_union_right

/-! ### One listing -/

variable {sack opts aquery}

omit [DecidableEq Package] in
theorem expandedPackages_append (lines others : List (Line Package)) :
    expandedPackages (lines ++ others) = expandedPackages lines ++ expandedPackages others := by
  rw [expandedPackages, List.filter_append, List.map_append]
  rfl

/-- What the search below a package has to do: it ends, it explores the successors, and its lines lie deeper. -/
def Explored (next : Package → List Package) (start : List Package) (usedpkgs : Finset Package) (level : Int)
    (output : Option (List (Line Package) × Finset Package)) : Prop :=
  ∃ lines usedpkgs', output = some (lines, usedpkgs') ∧ Explores next start usedpkgs (lines.map (·.pkg)) (expandedPackages lines) usedpkgs' ∧
    ∀ line ∈ lines, level ≤ line.level

theorem TreeSack.treeLoop_explored {expand : Package → Finset Package → Option (List (Line Package) × Finset Package)} {next : Package → List Package}
    {level : Int} {all : Finset Package} {n : Nat} (hlevel : level ≠ -1)
    (hexpand : ∀ pkg ∈ all, ∀ usedpkgs, pkg ∉ usedpkgs → (all \ usedpkgs).card ≤ n → Explored next (next pkg) (insert pkg usedpkgs) level (expand pkg (insert pkg usedpkgs))) :
    ∀ (pkgs : List Package) (usedpkgs : Finset Package), (∀ pkg ∈ pkgs, pkg ∈ all) → (all \ usedpkgs).card ≤ n →
      Explored next (sack.inFront pkgs) usedpkgs level (sack.treeLoop expand level pkgs usedpkgs)
  | [], usedpkgs, _, _ => ⟨[], usedpkgs, rfl, .nil, fun _ hline => absurd hline List.not_mem_nil⟩
  | pkg :: pkgs, usedpkgs, hall, hcard => by
      have hrest := TreeSack.treeLoop_explored hlevel hexpand pkgs
      have hpkgs (p : Package) (hp : p ∈ pkgs) : p ∈ all := hall p (List.mem_cons_of_mem _ hp)
      rw [TreeSack.treeLoop, if_neg hlevel]
      dsimp only
      by_cases hskipped : sack.isSkipped pkg = true
      · rw [if_pos hskipped, TreeSack.inFront, List.takeWhile_cons_of_neg (by simp [hskipped])]
        exact ⟨[], usedpkgs, rfl, .nil, fun _ hline => absurd hline List.not_mem_nil⟩
      · rw [if_neg hskipped, TreeSack.inFront, List.takeWhile_cons_of_pos (by simp [hskipped])]
        by_cases hused : pkg ∈ usedpkgs
        · obtain ⟨others, usedpkgs', hothers, hexplores, hlevels⟩ := hrest usedpkgs hpkgs hcard
          rw [if_pos hused, hothers]
          exact ⟨_, _, rfl, .again hused hexplores, List.forall_mem_cons.mpr ⟨Int.le_refl _, hlevels⟩⟩
        · obtain ⟨below, between, hbelow, hexploresbelow, hlevelsbelow⟩ := hexpand pkg (hall pkg List.mem_cons_self) usedpkgs hused hcard
          have hsubset : usedpkgs ⊆ between := (Finset.subset_insert _ _).trans hexploresbelow.subset
          obtain ⟨others, usedpkgs', hothers, hexplores, hlevels⟩ :=
            hrest between hpkgs ((Finset.card_le_card (Finset.sdiff_subset_sdiff (Finset.Subset.refl _) hsubset)).trans hcard)
          rw [if_neg hused, hbelow, Option.bind_some, hothers]
          refine ⟨_, _, rfl, ?_, List.forall_mem_cons.mpr ⟨Int.le_refl _, List.forall_mem_append.mpr ⟨hlevelsbelow, hlevels⟩⟩⟩
          rw [List.map_cons, List.map_append]
          have hexpanded : expandedPackages (⟨level, pkg, true⟩ :: (below ++ others)) = pkg :: (expandedPackages below ++ expandedPackages others) :=
            congrArg (pkg :: ·) (expandedPackages_append below others)
          rw [hexpanded]
          exact .enter hused hexploresbelow hexplores

/-- The fuel suffices for the packages that have not been used. -/
theorem TreeSack.treeSeed_explored :
    ∀ (fuel : Nat) (query : Finset Package) (level : Int) (usedpkgs : Finset Package), 0 ≤ level → query ⊆ sack.packages ∪ aquery →
      ((sack.packages ∪ aquery) \ usedpkgs).card < fuel →
        Explored (sack.successors opts aquery) (sack.inFront (sack.sorted query)) usedpkgs level (sack.treeSeed opts aquery fuel query level usedpkgs)
  | 0, _, _, _, _, _, hfuel => absurd hfuel (Nat.not_lt_zero _)
  | fuel + 1, query, level, usedpkgs, hlevel, hquery, hfuel => by
      have hne : level ≠ -1 := by omega
      refine TreeSack.treeLoop_explored hne (fun pkg hpkg usedpkgs hnew hcard => ?_) _ usedpkgs (fun p hp => hquery (sack.mem_sorted.mp hp)) (Nat.le_of_lt_succ hfuel)
      have hless : ((sack.packages ∪ aquery) \ insert pkg usedpkgs).card < ((sack.packages ∪ aquery) \ usedpkgs).card :=
        card_sdiff_union_lt (Finset.singleton_subset_iff.mpr hpkg) ⟨pkg, Finset.mem_sdiff.mpr ⟨Finset.mem_singleton_self pkg, hnew⟩⟩
      obtain ⟨lines, usedpkgs', hlines, hexplores, hlevels⟩ :=
        TreeSack.treeSeed_explored fuel (sack.pkgquery opts aquery pkg) (level + 1) (insert pkg usedpkgs) (by omega) (sack.pkgquery_subset opts aquery pkg)
          (Nat.lt_of_lt_of_le hless hcard)
      exact ⟨lines, usedpkgs', hlines, hexplores, fun line hline => (Int.le_add_one (Int.le_refl level)).trans (hlevels line hline)⟩

/-! ### The roots -/

omit [DecidableEq Package] in
theorem trees_below {below : List (Line Package)} (hlevels : ∀ line ∈ below, 0 ≤ line.level) (others : List (Line Package)) :
    trees (below ++ others) = trees others := by
  induction below with
  | nil => rfl
  | cons line below ih =>
      obtain ⟨hline, hbelow⟩ := List.forall_mem_cons.mp hlevels
      rw [List.cons_append, trees, if_neg (by omega), ih hbelow]

omit [DecidableEq Package] in
theorem takeWhile_below {below others : List (Line Package)} (hlevels : ∀ line ∈ below, 0 ≤ line.level)
    (hothers : others.takeWhile (·.level ≠ -1) = []) : (below ++ others).takeWhile (·.level ≠ -1) = below := by
  rw [List.takeWhile_append_of_pos fun line hline => decide_eq_true (by have := hlevels line hline; omega), hothers, List.append_nil]

/-- Each root starts with nothing used. -/
theorem TreeSack.treeLoop_roots {expand : Package → Finset Package → Option (List (Line Package) × Finset Package)} {next : Package → List Package}
    (hexpand : ∀ pkg, Explored next (next pkg) {pkg} 0 (expand pkg {pkg})) :
    ∀ (pkgs : List Package) (usedpkgs : Finset Package), ∃ lines usedpkgs', sack.treeLoop expand (-1) pkgs usedpkgs = some (lines, usedpkgs') ∧
      lines.takeWhile (·.level ≠ -1) = [] ∧ (trees lines).map (·.1.pkg) = sack.inFront pkgs ∧
      ∀ tree ∈ trees lines, tree.1.expanded = true ∧
        ∃ usedpkgs', Explores next (next tree.1.pkg) {tree.1.pkg} (tree.2.map (·.pkg)) (expandedPackages tree.2) usedpkgs'
  | [], usedpkgs => ⟨[], usedpkgs, rfl, rfl, rfl, fun _ htree => absurd htree List.not_mem_nil⟩
  | pkg :: pkgs, usedpkgs => by
      rw [TreeSack.treeLoop, if_pos rfl]
      dsimp only
      by_cases hskipped : sack.isSkipped pkg = true
      · rw [if_pos hskipped, TreeSack.inFront, List.takeWhile_cons_of_neg (by simp [hskipped])]
        exact ⟨[], ∅, rfl, rfl, rfl, fun _ htree => absurd htree List.not_mem_nil⟩
      · obtain ⟨below, between, hbelow, hexplores, hlevels⟩ := hexpand pkg
        obtain ⟨others, usedpkgs', hothers, hfirst, hroots, htrees⟩ := TreeSack.treeLoop_roots hexpand pkgs between
        rw [if_neg hskipped, if_neg (Finset.notMem_empty pkg), insert_empty_eq, hbelow, Option.bind_some, hothers, TreeSack.inFront,
          List.takeWhile_cons_of_pos (by simp [hskipped])]
        have hlines : trees (⟨-1, pkg, true⟩ :: (below ++ others)) = (⟨-1, pkg, true⟩, below) :: trees others := by
          rw [trees, if_pos rfl, takeWhile_below hlevels hfirst, trees_below hlevels]
        refine ⟨_, _, rfl, rfl, ?_, ?_⟩
        · rw [hlines, List.map_cons, hroots]
          rfl
        · rw [hlines]
          exact List.forall_mem_cons.mpr ⟨⟨rfl, between, hexplores⟩, htrees⟩

theorem TreeSack.treeSeed_roots {query : Finset Package} {fuel : Nat} (hfuel : (sack.packages ∪ aquery).card + 2 ≤ fuel) :
    ∃ lines usedpkgs, sack.treeSeed opts aquery fuel query (-1) ∅ = some (lines, usedpkgs) ∧
      (trees lines).map (·.1.pkg) = sack.inFront (sack.sorted query) ∧
      ∀ tree ∈ trees lines, (expandedPackages (tree.1 :: tree.2)).Nodup ∧
        ∀ q, q ∈ tree.2.map (·.pkg) ↔ TransGen (fun a b => b ∈ sack.successors opts aquery a) tree.1.pkg q := by
  obtain ⟨fuel, rfl⟩ := Nat.exists_eq_add_of_le' (Nat.le_of_add_left_le hfuel : 1 ≤ fuel)
  have hexpand (pkg : Package) :
      Explored (sack.successors opts aquery) (sack.successors opts aquery pkg) {pkg} 0 (sack.treeSeed opts aquery fuel (sack.pkgquery opts aquery pkg) 0 {pkg}) := by
    have hcard : ((sack.packages ∪ aquery) \ {pkg}).card ≤ (sack.packages ∪ aquery).card := Finset.card_le_card Finset.sdiff_subset
    exact TreeSack.treeSeed_explored fuel _ 0 {pkg} (Int.le_refl 0) (sack.pkgquery_subset opts aquery pkg) (by omega)
  obtain ⟨lines, usedpkgs, hlines, _, hroots, htrees⟩ := TreeSack.treeLoop_roots hexpand (sack.sorted query) ∅
  refine ⟨lines, usedpkgs, hlines, hroots, fun tree htree => ?_⟩
  obtain ⟨hexpanded, _, hexplores⟩ := htrees tree htree
  have hroot : expandedPackages (tree.1 :: tree.2) = tree.1.pkg :: expandedPackages tree.2 := by
    rw [expandedPackages, List.filter_cons_of_pos hexpanded]
    rfl
  exact ⟨hroot ▸ hexplores.nodup_root_entered, fun q => hexplores.mem_listed_iff⟩

theorem TreeSack.keepsTree_of_fuel {query : Finset Package} {fuel : Nat} (hfuel : (sack.packages ∪ aquery).card + 2 ≤ fuel) :
    sack.KeepsTree opts aquery query (sack.treeSeed opts aquery fuel query (-1) ∅) ↔ sack.Uncut opts aquery query := by
  obtain ⟨lines, usedpkgs, hlines, hroots, htrees⟩ := @TreeSack.treeSeed_roots _ _ _ sack opts aquery query fuel hfuel
  have hmem (root : Package) : root ∈ sack.inFront (sack.sorted query) ↔ ∃ tree ∈ trees lines, tree.1.pkg = root := by
    rw [← hroots, List.mem_map]
  have htwin (tree : Line Package × List (Line Package)) (htree : tree ∈ trees lines) (q : Package) :
      (∃ line ∈ tree.2, sack.nameArch line.pkg = sack.nameArch q) ↔
        ∃ twin, TransGen (fun a b => b ∈ sack.successors opts aquery a) tree.1.pkg twin ∧ sack.nameArch twin = sack.nameArch q := by
    simp only [← (htrees tree htree).2, List.mem_map]
    exact ⟨fun ⟨line, hline, heq⟩ => ⟨line.pkg, ⟨line, hline, rfl⟩, heq⟩, fun ⟨_, ⟨line, hline, hpkg⟩, heq⟩ => ⟨line, hline, hpkg ▸ heq⟩⟩
  constructor
  · intro ⟨lines', usedpkgs', houtput, hall, htree⟩
    obtain ⟨rfl, -⟩ := Prod.mk.inj (Option.some.inj (hlines.symm.trans houtput))
    refine ⟨fun root hroot hskipped => (hmem root).mpr (hall root hroot hskipped), fun root hroot q hq => ?_⟩
    obtain ⟨tree, hmemtree, rfl⟩ := (hmem root).mp hroot
    exact (htwin tree hmemtree q).mp ((htree tree hmemtree).2 q hq)
  · intro ⟨hall, huncut⟩
    refine ⟨lines, usedpkgs, hlines, fun root hroot hskipped => (hmem root).mp (hall root hroot hskipped), fun tree htree => ⟨(htrees tree htree).1, ?_⟩⟩
    exact fun q hq => (htwin tree htree q).mpr (huncut tree.1.pkg ((hmem tree.1.pkg).mpr ⟨tree, htree, rfl⟩) q hq)

/-- `tree_seed` ends for every query, and what it prints is complete exactly when nothing is cut off that has no twin elsewhere below its root. -/
theorem TreeSack.keepsTree_iff (query : Finset Package) :
    (Enough fun fuel => sack.KeepsTree opts aquery query (sack.treeSeed opts aquery fuel query (-1) ∅)) ↔ sack.Uncut opts aquery query := by
  constructor
  · intro ⟨enough, hkeeps⟩
    exact (sack.keepsTree_of_fuel (Nat.le_max_right enough _)).mp (hkeeps _ (Nat.le_max_left enough _))
  · exact fun huncut => ⟨_, fun fuel hfuel => (sack.keepsTree_of_fuel hfuel).mpr huncut⟩

/-- `app` requires what `lib`, `rpmlib` and `zlib` provide. -/
def skippedSack : TreeSack (Fin 4) Unit where
  requiresPackage _ _ := false
  requires p := if p = 0 then [()] else []
  provides q _ := q ≠ 0
  name
    | 0 => ['a', 'p', 'p']
    | 1 => ['l', 'i', 'b']
    | 2 => ['r', 'p', 'm', 'l', 'i', 'b']
    | 3 => ['z', 'l', 'i', 'b']
  arch _ := ['n', 'o', 'a', 'r', 'c', 'h']
  text _ := ['d', 'e', 'p']
  packages := {0, 1, 2, 3}
  attr _ p := if p = 0 then [()] else []
  requiresGlob _ _ := false
  weakGlob _ _ _ := false
  weakPackage _ _ _ := false
  bestQuery _ := ∅
  run query := (List.finRange 4).filter (· ∈ query)
  iterated query := (List.finRange 4).filter (· ∈ query)
  mem_run := by simp
  mem_iterated := by simp

/-- `repoquery --requires --tree app` prints `lib` below `app`, but not `zlib`. -/
theorem not_keepsTree_skipped :
    ¬Enough fun fuel => skippedSack.KeepsTree ⟨['r', 'e', 'q', 'u', 'i', 'r', 'e', 's'], false, false⟩ {0, 1, 2, 3} {0}
      (skippedSack.treeSeed ⟨['r', 'e', 'q', 'u', 'i', 'r', 'e', 's'], false, false⟩ {0, 1, 2, 3} fuel {0} (-1) ∅) := by
  intro ⟨enough, hkeeps⟩
  obtain ⟨-, huncut⟩ := (skippedSack.keepsTree_of_fuel (Nat.le_max_right enough _)).mp (hkeeps _ (Nat.le_max_left enough _))
  have hzlib : skippedSack.LeadsTo ⟨['r', 'e', 'q', 'u', 'i', 'r', 'e', 's'], false, false⟩ {0, 1, 2, 3} 0 3 := by
    refine ⟨?_, rfl⟩
    exact ⟨by decide, (), List.mem_singleton_self (), rfl⟩
  obtain ⟨twin, htwin, heq⟩ := huncut 0 (by decide) 3 (.single hzlib)
  have hsuccessors : ∀ p q, q ∈ skippedSack.successors ⟨['r', 'e', 'q', 'u', 'i', 'r', 'e', 's'], false, false⟩ {0, 1, 2, 3} p → q = 1 := by decide
  obtain ⟨p, _, hlast⟩ := TransGen.tail'_iff.mp htwin
  rw [hsuccessors p twin hlast] at heq
  exact absurd heq (by decide)

end Dnf.Repoquery
