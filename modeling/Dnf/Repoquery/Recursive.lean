import Dnf.Foundation.Saturation
import Mathlib.Tactic.Common

/-!
# Recursive repoquery

`repoquery --whatrequires --recursive` and `repoquery --requires --resolve --recursive` go on asking until nothing new turns up. A query is the finite set of its packages, and which package requires which, and which provides a dependency, is whatever the sack answers. Both recursions are saturations inside the queried packages, so a chain of dependencies is followed as far as it runs through them.
-/

namespace Dnf.Repoquery

open Foundation Relation

/-- What the sack answers: the packages a package requires, and the dependencies that packages carry and provide. -/
structure Sack (Package Reldep : Type) where
  requiresPackage : Package → Package → Bool
  requires : Package → List Reldep
  provides : Package → Reldep → Bool

variable {Package Reldep : Type} [DecidableEq Package] (sack : Sack Package Reldep)

/-! ### The queries -/

/-- `query_in.filter(requires=query_select)` -/
def Sack.filterRequires (queryIn querySelect : Finset Package) : Finset Package :=
  queryIn.filter fun p => ∃ q ∈ querySelect, sack.requiresPackage p q = true

/-- `query_in.filter(provides=reldeps)` -/
def Sack.filterProvides (queryIn : Finset Package) (reldeps : List Reldep) : Finset Package :=
  queryIn.filter fun p => ∃ d ∈ reldeps, sack.provides p d = true

/-- `done if done else default`: an empty query counts as none. -/
def orElse (done : Option (Finset Package)) (default : Finset Package) : Finset Package :=
  match done with
  | none => default
  | some done => if done.Nonempty then done else default

theorem orElse_some_union {found done : Finset Package} (hnew : (found \ done).Nonempty) (default : Finset Package) :
    orElse (some (found ∪ done)) default = found ∪ done := by
  obtain ⟨a, ha⟩ := hnew
  exact if_pos ⟨a, Finset.mem_union_left _ (Finset.mem_sdiff.mp ha).1⟩

def Sack.doRecursiveDeps (queryIn querySelect : Finset Package) (done : Option (Finset Package)) : Finset Package :=
  if (sack.filterRequires queryIn querySelect \ orElse done querySelect).Nonempty then
    Sack.doRecursiveDeps queryIn (sack.filterRequires queryIn querySelect \ orElse done querySelect)
      (some (sack.filterRequires queryIn querySelect ∪ orElse done querySelect))
  else sack.filterRequires queryIn querySelect ∪ orElse done querySelect
termination_by (queryIn \ orElse done querySelect).card
decreasing_by
  rw [orElse_some_union ‹_›]
  exact card_sdiff_union_lt (Finset.filter_subset _ _) ‹_›

/-- The `for` loop over the packages of `providers`. -/
def Sack.providersOf (queryIn providers : Finset Package) : Finset Package :=
  providers.biUnion fun pkg => sack.filterProvides queryIn (sack.requires pkg)

theorem Sack.providersOf_subset (queryIn providers : Finset Package) : sack.providersOf queryIn providers ⊆ queryIn :=
  Finset.biUnion_subset.mpr fun _ _ => Finset.filter_subset _ _

def Sack.getRecursiveProvidersQuery (queryIn providers : Finset Package) (done : Option (Finset Package)) : Finset Package :=
  if (sack.providersOf queryIn providers \ orElse done ∅).Nonempty then
    sack.providersOf queryIn providers ∪
      Sack.getRecursiveProvidersQuery queryIn (sack.providersOf queryIn providers \ orElse done ∅)
        (some (sack.providersOf queryIn providers ∪ orElse done ∅))
  else sack.providersOf queryIn providers ∪ orElse done ∅
termination_by (queryIn \ orElse done ∅).card
decreasing_by
  rw [orElse_some_union ‹_›]
  exact card_sdiff_union_lt (sack.providersOf_subset _ _) ‹_›

theorem Sack.doRecursiveDeps_step (queryIn querySelect : Finset Package) (done : Option (Finset Package)) :
    sack.doRecursiveDeps queryIn querySelect done =
      if (sack.filterRequires queryIn querySelect \ orElse done querySelect).Nonempty then
        sack.doRecursiveDeps queryIn (sack.filterRequires queryIn querySelect \ orElse done querySelect)
          (some (sack.filterRequires queryIn querySelect ∪ orElse done querySelect))
      else sack.filterRequires queryIn querySelect ∪ orElse done querySelect := by
  rw [Sack.doRecursiveDeps]

theorem Sack.getRecursiveProvidersQuery_step (queryIn providers : Finset Package) (done : Option (Finset Package)) :
    sack.getRecursiveProvidersQuery queryIn providers done =
      if (sack.providersOf queryIn providers \ orElse done ∅).Nonempty then
        sack.providersOf queryIn providers ∪
          sack.getRecursiveProvidersQuery queryIn (sack.providersOf queryIn providers \ orElse done ∅)
            (some (sack.providersOf queryIn providers ∪ orElse done ∅))
      else sack.providersOf queryIn providers ∪ orElse done ∅ := by
  rw [Sack.getRecursiveProvidersQuery]

/-! ### Both are saturations -/

/-- A package of the query that requires `q`. -/
def Sack.RequiredBy (queryIn : Finset Package) (q p : Package) : Prop := p ∈ queryIn ∧ sack.requiresPackage p q = true

/-- A package of the query that provides what `q` requires. -/
def Sack.ProvidedTo (queryIn : Finset Package) (q p : Package) : Prop := p ∈ queryIn ∧ ∃ d ∈ sack.requires q, sack.provides p d = true

omit [DecidableEq Package] in
theorem Sack.leads_requires (queryIn : Finset Package) :
    Leads queryIn (fun q => sack.filterRequires queryIn {q}) = sack.RequiredBy queryIn := by
  ext q p
  simp only [Leads, Sack.filterRequires, Sack.RequiredBy, Finset.mem_filter, Finset.mem_singleton, exists_eq_left]
  tauto

omit [DecidableEq Package] in
theorem Sack.leads_provides (queryIn : Finset Package) :
    Leads queryIn (fun q => sack.filterProvides queryIn (sack.requires q)) = sack.ProvidedTo queryIn := by
  ext q p
  simp only [Leads, Sack.filterProvides, Sack.ProvidedTo, Finset.mem_filter]
  tauto

/-- The filter distributes over the packages asked about. -/
theorem Sack.filterRequires_eq (queryIn querySelect : Finset Package) :
    sack.filterRequires queryIn querySelect = querySelect.biUnion (fun q => sack.filterRequires queryIn {q}) ∩ queryIn := by
  ext p
  rw [mem_found_iff, sack.leads_requires, Sack.filterRequires, Finset.mem_filter]
  simp only [Sack.RequiredBy]
  tauto

theorem Sack.providersOf_eq (queryIn providers : Finset Package) :
    sack.providersOf queryIn providers = providers.biUnion (fun q => sack.filterProvides queryIn (sack.requires q)) ∩ queryIn :=
  (Finset.inter_eq_left.mpr (sack.providersOf_subset queryIn providers)).symm

theorem Sack.doRecursiveDeps_eq_saturate (queryIn querySelect : Finset Package) (done : Option (Finset Package)) :
    sack.doRecursiveDeps queryIn querySelect done =
      saturate queryIn (fun q => sack.filterRequires queryIn {q}) querySelect (orElse done querySelect) := by
  induction querySelect, done using Sack.doRecursiveDeps.induct sack queryIn with
  | case1 querySelect done hnew ih =>
      rw [Sack.doRecursiveDeps_step, if_pos hnew, ih, orElse_some_union hnew]
      rw [sack.filterRequires_eq queryIn querySelect] at hnew ⊢
      exact (saturate_of_new hnew).symm
  | case2 querySelect done hnew =>
      rw [Sack.doRecursiveDeps_step, if_neg hnew]
      rw [sack.filterRequires_eq queryIn querySelect] at hnew ⊢
      exact (saturate_of_not_new hnew).symm

theorem Sack.getRecursiveProvidersQuery_eq_saturate (queryIn providers : Finset Package) (done : Option (Finset Package)) :
    sack.getRecursiveProvidersQuery queryIn providers done =
      saturate queryIn (fun q => sack.filterProvides queryIn (sack.requires q)) providers (orElse done ∅) := by
  induction providers, done using Sack.getRecursiveProvidersQuery.induct sack queryIn with
  | case1 providers done hnew ih =>
      rw [Sack.getRecursiveProvidersQuery_step, if_pos hnew, ih, orElse_some_union hnew]
      rw [sack.providersOf_eq queryIn providers] at hnew ⊢
      rw [saturate_of_new hnew]
      exact Finset.union_eq_right.mpr (Finset.subset_union_left.trans (subset_saturate _ _))
  | case2 providers done hnew =>
      rw [Sack.getRecursiveProvidersQuery_step, if_neg hnew]
      rw [sack.providersOf_eq queryIn providers] at hnew ⊢
      exact (saturate_of_not_new hnew).symm

/-! ### What they return -/

theorem Sack.mem_doRecursiveDeps_iff {queryIn querySelect : Finset Package} {p : Package} :
    p ∈ sack.doRecursiveDeps queryIn querySelect none ↔
      p ∈ querySelect ∨ ∃ q ∈ querySelect, TransGen (sack.RequiredBy queryIn) q p := by
  have hfollowed : Followed queryIn (fun q => sack.filterRequires queryIn {q}) querySelect querySelect := fun _ ha => Or.inl ha
  rw [sack.doRecursiveDeps_eq_saturate, ← sack.leads_requires]
  exact mem_saturate_iff hfollowed

theorem Sack.mem_getRecursiveProvidersQuery_iff {queryIn providers : Finset Package} {p : Package} :
    p ∈ sack.getRecursiveProvidersQuery queryIn providers none ↔ ∃ q ∈ providers, TransGen (sack.ProvidedTo queryIn) q p := by
  have hfollowed : Followed queryIn (fun q => sack.filterProvides queryIn (sack.requires q)) providers ∅ :=
    fun a ha => absurd ha (Finset.notMem_empty a)
  rw [sack.getRecursiveProvidersQuery_eq_saturate, ← sack.leads_provides]
  exact (mem_saturate_iff hfollowed).trans (or_iff_right (Finset.notMem_empty p))

/-- The closures the two recursions compute. -/
theorem Sack.recursive_exact (queryIn : Finset Package) :
    (∀ querySelect p, p ∈ sack.doRecursiveDeps queryIn querySelect none ↔
        p ∈ querySelect ∨ ∃ q ∈ querySelect, TransGen (sack.RequiredBy queryIn) q p) ∧
      ∀ providers p, p ∈ sack.getRecursiveProvidersQuery queryIn providers none ↔
        ∃ q ∈ providers, TransGen (sack.ProvidedTo queryIn) q p :=
  ⟨fun _ _ => sack.mem_doRecursiveDeps_iff, fun _ _ => sack.mem_getRecursiveProvidersQuery_iff⟩

/-- Three packages, each of which requires what the next one provides. -/
def chainSack : Sack (Fin 3) (Fin 3) where
  requiresPackage p q := q.val = p.val + 1
  requires p := if h : p.val + 1 < 3 then [⟨p.val + 1, h⟩] else []
  provides p d := p = d

/-- The first package requires the last one by way of the second, and neither recursion gets there when the second is not among the queried packages. -/
theorem recursive_gap :
    TransGen (fun q p => chainSack.requiresPackage p q = true) 2 0 ∧ 0 ∉ chainSack.doRecursiveDeps {0, 2} {2} none ∧
      TransGen (fun q p => ∃ d ∈ chainSack.requires q, chainSack.provides p d = true) 0 2 ∧
        2 ∉ chainSack.getRecursiveProvidersQuery {0, 2} {0} none := by
  refine ⟨.tail (b := 1) (.single rfl) rfl, ?_, .tail (b := 1) (.single (by decide)) (by decide), ?_⟩
  · rw [Sack.doRecursiveDeps_step]
    decide
  · rw [Sack.getRecursiveProvidersQuery_step]
    decide

end Dnf.Repoquery
