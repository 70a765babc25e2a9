import Dnf.Cli.HistoryInfo
import Mathlib.Data.List.Perm.Lattice
import Mathlib.Tactic.Common

/-!
# Which ranges `history info` merges

The invariant of the pass: the ranges that it has left covered transactions, the rest of the transactions is below all of them, and what is pending is what the current range covers of the transactions seen since. A range is merged exactly if it is the first one or there is a transaction between it and the ranges before.
-/

namespace Dnf.Cli.HistoryInfo

variable {transactions seen rest : List Nat} {ranges before : List Range} {s : Loop}

/-! ### Blocks -/

theorem blocks_append (lines lines' : List Line) : blocks (lines ++ lines') = blocks lines ++ blocks lines' := List.filterMap_append

@[simp] theorem blocks_info (s : Loop) (tids : List Nat) : blocks (s.info tids).lines = blocks s.lines ++ [tids] := by
  unfold Loop.info
  dsimp only
  rw [blocks_append]
  split
  · rfl
  · rfl

theorem blocks_finish (s : Loop) : blocks s.finish = blocks s.lines ++ (s.mobj.map Mobj.tids).toList := by
  unfold Loop.finish
  cases s.mobj with
  | none => exact (List.append_nil _).symm
  | some mobj => exact blocks_info s mobj.tids

/-- A block with one transaction, or with some of those that a merged range covers. -/
def BlockOk (transactions : List Nat) (ranges : List Range) (block : List Nat) : Prop :=
  (∃ tid, block = [tid]) ∨
    block ≠ [] ∧ ∃ before r, Merges transactions ranges before r ∧ ∀ tid ∈ block, r.Covers tid ∧ Below before tid

/-- If the range is merged, all that it covers are in one block. -/
def GroupShown (transactions : List Nat) (blocks : List (List Nat)) (before : List Range) (r : Range) : Prop :=
  (∃ tid ∈ transactions, r.Covers tid ∧ Below before tid) → Separated transactions before r →
    ∃ block ∈ blocks, ∀ tid ∈ transactions, r.Covers tid → Below before tid → tid ∈ block

theorem GroupShown.mono {shown shown' : List (List Nat)} {r : Range} (hgroup : GroupShown transactions shown before r) (hsub : shown ⊆ shown') :
    GroupShown transactions shown' before r := by
  intro hcovered hseparated
  obtain ⟨block, hblock, hmem⟩ := hgroup hcovered hseparated
  exact ⟨block, hsub hblock, hmem⟩

/-! ### The invariant -/

/-- What is pending: nothing, while the range has covered nothing yet or is past; what it covers, merged; or the transaction that it was entered with. -/
inductive Pending (transactions seen rest : List Nat) (before : List Range) (shown : List (List Nat)) (r : Range) (mtids : List Range) :
    Option Mobj → Prop
  | waiting (hunmatched : ∀ tid ∈ seen, r.Covers tid → ¬Below before tid) (hseparated : Separated transactions before r) :
      Pending transactions seen rest before shown r mtids none
  | past (hpast : ∀ tid ∈ rest, (tid : Int) < r.begin) (hshown : GroupShown transactions shown before r)
      (hlast : mtids = [] ∨ ∀ tid ∈ transactions, r.Covers tid → ¬Below before tid) : Pending transactions seen rest before shown r mtids none
  | merging {tids : List Nat} (hmem : ∀ tid, tid ∈ tids ↔ tid ∈ seen ∧ r.Covers tid ∧ Below before tid) (hne : tids ≠ [])
      (hseen : ∀ tid ∈ seen, r.begin ≤ tid) (hseparated : Separated transactions before r) :
      Pending transactions seen rest before shown r mtids (some (.merged tids))
  | kept {tid : Nat} (hmem : tid ∈ seen) (hcovers : r.Covers tid) (hbelow : Below before tid)
      (hmax : ∀ tid' ∈ transactions, Below before tid' → tid' ≤ tid) (hseen : ∀ tid ∈ seen, r.begin ≤ tid) (hbefore : before ≠ []) :
      Pending transactions seen rest before shown r mtids (some (.plain tid))

/-- The ranges before the current one are done with. -/
structure Passed (transactions rest : List Nat) (ranges before : List Range) (s : Loop) : Prop where
  split : ranges = before ++ s.current :: s.mtids
  matched : AllMatched transactions before
  below : ∀ tid ∈ rest, Below before tid
  sound : ∀ block ∈ blocks s.lines, BlockOk transactions ranges block
  shown : ∀ front r back, before = front ++ r :: back → GroupShown transactions (blocks s.lines) front r

structure Inv (transactions seen rest : List Nat) (ranges before : List Range) (s : Loop) : Prop where
  passed : Passed transactions rest ranges before s
  perm : ((blocks s.lines).flatten ++ (s.mobj.map Mobj.tids).getD []).Perm seen
  pending : Pending transactions seen rest before (blocks s.lines) s.current s.mtids s.mobj

/-- A second transaction for a range that was entered by its first. -/
def Clash (transactions : List Nat) (ranges : List Range) : Prop :=
  ∃ before r after, ranges = before ++ r :: after ∧ before ≠ [] ∧ AllMatched transactions before ∧
    ∃ first ∈ transactions, ∃ second ∈ transactions, first ≠ second ∧ r.Covers first ∧ r.Covers second ∧ Below before first ∧ Below before second ∧
      ∀ tid ∈ transactions, Below before tid → tid ≤ first

theorem below_append_iff {r : Range} {tid : Nat} : Below (before ++ [r]) tid ↔ Below before tid ∧ (tid : Int) < r.begin := by
  unfold Below
  rw [List.forall_mem_append, List.forall_mem_singleton]

/-- Two ranges of one list are the same one, or one comes before the other. -/
theorem split_cases {before' after after' : List Range} {r r' : Range} (heq : before ++ r :: after = before' ++ r' :: after') :
    (before' = before ∧ r' = r) ∨ (∃ back, before' = before ++ r :: back) ∨ ∃ back, before = before' ++ r' :: back := by
  rcases List.append_eq_append_iff.mp heq with ⟨mid, hmid, hrest⟩ | ⟨mid, hmid, hrest⟩
  · cases mid with
    | nil =>
        rw [List.nil_append, List.cons.injEq] at hrest
        exact .inl ⟨hmid.trans (List.append_nil _), hrest.1.symm⟩
    | cons x mid =>
        rw [List.cons_append, List.cons.injEq] at hrest
        exact .inr (.inl ⟨mid, hrest.1 ▸ hmid⟩)
  · cases mid with
    | nil =>
        rw [List.nil_append, List.cons.injEq] at hrest
        exact .inl ⟨(hmid.trans (List.append_nil _)).symm, hrest.1⟩
    | cons x mid =>
        rw [List.cons_append, List.cons.injEq] at hrest
        exact .inr (.inr ⟨mid, hrest.1 ▸ hmid⟩)

theorem split_concat {front back : List Range} {r r' : Range} (heq : before ++ [r] = front ++ r' :: back) :
    (front = before ∧ r' = r) ∨ ∃ back, before = front ++ r' :: back := by
  rcases split_cases heq with hsame | ⟨mid, rfl⟩ | hfront
  · exact .inl hsame
  · have hlength := congrArg List.length heq
    simp at hlength
  · exact .inr hfront

theorem allMatched_append {r : Range} (hmatched : AllMatched transactions before) (hr : ∃ tid ∈ transactions, r.Covers tid ∧ Below before tid) :
    AllMatched transactions (before ++ [r]) := by
  intro front r' back heq
  rcases split_concat heq with ⟨rfl, rfl⟩ | ⟨back', hbefore⟩
  · exact hr
  · exact hmatched front r' back' hbefore

theorem lt_begin_or_end_lt {r : Range} {tid : Int} (hcovers : ¬r.Covers tid) : tid < r.begin ∨ r.end < tid := by
  unfold Range.Covers at hcovers
  omega

/-! ### One transaction -/

theorem step_waiting {tid : Nat} (hcovers : s.current.Covers tid) (hmobj : s.mobj = none) :
    s.step tid = some { s with mobj := some (.merged [tid]) } := by
  rw [Loop.step, if_pos hcovers, hmobj]

theorem step_merging {tid : Nat} {tids : List Nat} (hcovers : s.current.Covers tid) (hmobj : s.mobj = some (.merged tids)) :
    s.step tid = some { s with mobj := some (.merged (tid :: tids)) } := by
  rw [Loop.step, if_pos hcovers, hmobj]

theorem step_kept {tid first : Nat} (hcovers : s.current.Covers tid) (hmobj : s.mobj = some (.plain first)) : s.step tid = none := by
  rw [Loop.step, if_pos hcovers, hmobj]

theorem step_single {tid : Nat} (hcovers : ¬s.current.Covers tid) (hmobj : s.mobj = none) : s.step tid = some (s.info [tid]) := by
  rw [Loop.step, if_neg hcovers, hmobj]

/-- The pending block shown and the next range taken, if there is one. -/
def Loop.leave (s : Loop) (mobj : Mobj) : Loop :=
  match s.mtids with
  | [] => { s.info mobj.tids with mobj := none }
  | r :: rest => { s.info mobj.tids with mobj := none, current := r, mtids := rest }

theorem step_leave {tid : Nat} {mobj : Mobj} (hcovers : ¬s.current.Covers tid) (hmobj : s.mobj = some mobj) :
    s.step tid = some (if s.mtids ≠ [] ∧ (s.leave mobj).current.Covers tid then { s.leave mobj with mobj := some (.plain tid) }
      else (s.leave mobj).info [tid]) := by
  rw [Loop.step, if_neg hcovers, hmobj]
  unfold Loop.leave
  cases hmtids : s.mtids with
  | nil => rw [if_neg fun h => h.1 rfl]
  | cons r rest =>
      dsimp only
      by_cases hr : r.Covers tid
      · rw [if_pos hr, if_pos ⟨List.cons_ne_nil _ _, hr⟩]
      · rw [if_neg hr, if_neg fun h => hr h.2]

/-- What the transactions seen and those to come are to a transaction in between. -/
structure Between (transactions seen rest : List Nat) (tid : Nat) : Prop where
  mem_iff : ∀ tid', tid' ∈ transactions ↔ tid' ∈ seen ∨ tid' = tid ∨ tid' ∈ rest
  seen_gt : ∀ tid' ∈ seen, tid < tid'
  rest_lt : ∀ tid' ∈ rest, tid' < tid

theorem between_of_pairwise {tid : Nat} (hpairwise : (seen ++ tid :: rest).Pairwise (· > ·)) : Between (seen ++ tid :: rest) seen rest tid := by
  obtain ⟨_, hrest, hcross⟩ := List.pairwise_append.mp hpairwise
  refine ⟨fun tid' => ?_, fun tid' hseen => hcross tid' hseen tid List.mem_cons_self, fun tid' hmem => (List.pairwise_cons.mp hrest).1 tid' hmem⟩
  rw [List.mem_append, List.mem_cons]

variable {tid : Nat}

theorem Passed.tail (hpassed : Passed transactions (tid :: rest) ranges before s) (mobj : Option Mobj) :
    Passed transactions rest ranges before { s with mobj := mobj } :=
  ⟨hpassed.split, hpassed.matched, fun tid' hrest => hpassed.below tid' (List.mem_cons_of_mem _ hrest), hpassed.sound, hpassed.shown⟩

/-- A block that is in order may be shown. -/
theorem Passed.info (hpassed : Passed transactions rest ranges before s) {tids : List Nat} (hok : BlockOk transactions ranges tids) :
    Passed transactions rest ranges before (s.info tids) where
  split := hpassed.split
  matched := hpassed.matched
  below := hpassed.below
  sound := by
    rw [blocks_info]
    exact List.forall_mem_append.mpr ⟨hpassed.sound, fun block hblock => List.mem_singleton.mp hblock ▸ hok⟩
  shown := by
    rw [blocks_info]
    exact fun front r back hbefore => (hpassed.shown front r back hbefore).mono (List.subset_append_left _ _)

/-- The range covers the transaction, and what is pending is merged with it. -/
theorem inv_merge (hinv : Inv transactions seen (tid :: rest) ranges before s) (hbetween : Between transactions seen rest tid)
    (hcovers : s.current.Covers tid) {tids : List Nat} (htids : (s.mobj.map Mobj.tids).getD [] = tids)
    (hmem : ∀ tid', tid' ∈ tids ↔ tid' ∈ seen ∧ s.current.Covers tid' ∧ Below before tid') (hseparated : Separated transactions before s.current) :
    Inv transactions (seen ++ [tid]) rest ranges before { s with mobj := some (.merged (tid :: tids)) } where
  passed := hinv.passed.tail _
  perm := by
    have hperm := hinv.perm
    rw [htids] at hperm
    exact List.perm_middle.trans ((hperm.cons tid).trans (List.perm_append_singleton tid seen).symm)
  pending := by
    refine .merging (fun tid' => ?_) (List.cons_ne_nil _ _) (fun tid' hseen => ?_) hseparated
    · rw [List.mem_cons, List.mem_append, List.mem_singleton, hmem]
      constructor
      · rintro (rfl | ⟨hseen, hrest⟩)
        · exact ⟨.inr rfl, hcovers, hinv.passed.below _ List.mem_cons_self⟩
        · exact ⟨.inl hseen, hrest⟩
      · rintro ⟨hseen | rfl, hrest⟩
        · exact .inr ⟨hseen, hrest⟩
        · exact .inl rfl
    · rcases List.mem_append.mp hseen with hseen | hself
      · exact hcovers.1.trans (Int.ofNat_le.mpr (hbetween.seen_gt tid' hseen).le)
      · rw [List.mem_singleton.mp hself]
        exact hcovers.1

/-- A transaction outside of the range leaves it waiting, or is past it. -/
theorem Pending.single {shown : List (List Nat)} {r : Range} {mtids : List Range}
    (hpending : Pending transactions seen (tid :: rest) before shown r mtids none) (hbetween : Between transactions seen rest tid)
    (hcovers : ¬r.Covers tid) : Pending transactions (seen ++ [tid]) rest before (shown ++ [[tid]]) r mtids none := by
  cases hpending with
  | waiting hunmatched hseparated =>
      rcases lt_begin_or_end_lt hcovers with hlt | hgt
      · have hpast : ∀ tid' ∈ rest, (tid' : Int) < r.begin := by
          intro tid' hrest
          have hlt' := hbetween.rest_lt tid' hrest
          omega
        have hnever : ∀ tid' ∈ transactions, r.Covers tid' → ¬Below before tid' := by
          intro tid' hmem hcovers'
          rcases (hbetween.mem_iff tid').mp hmem with hseen | rfl | hrest
          · exact hunmatched tid' hseen hcovers'
          · exact absurd hcovers' hcovers
          · exact absurd hcovers'.1 (not_le_of_gt (hpast tid' hrest))
        exact .past hpast (fun ⟨tid', hmem, hcovers', hbelow⟩ => absurd hbelow (hnever tid' hmem hcovers')) (.inr hnever)
      · refine .waiting (fun tid' hmem hcovers' => ?_) hseparated
        rcases List.mem_append.mp hmem with hseen | hself
        · exact hunmatched tid' hseen hcovers'
        · exact absurd (List.mem_singleton.mp hself ▸ hcovers') hcovers
  | past hpast hshown hlast =>
      exact .past (fun tid' hrest => hpast tid' (List.mem_cons_of_mem _ hrest)) (hshown.mono (List.subset_append_left _ _)) hlast

/-- A transaction shown by itself. -/
theorem inv_single (hinv : Inv transactions seen (tid :: rest) ranges before s) (hbetween : Between transactions seen rest tid)
    (hcovers : ¬s.current.Covers tid) (hmobj : s.mobj = none) : Inv transactions (seen ++ [tid]) rest ranges before (s.info [tid]) where
  passed := (hinv.passed.tail s.mobj).info (.inl ⟨tid, rfl⟩)
  perm := by
    have hperm := hinv.perm
    rw [hmobj, Option.map_none, Option.getD_none, List.append_nil] at hperm
    rw [blocks_info, show (s.info [tid]).mobj = none from hmobj, Option.map_none, Option.getD_none, List.append_nil, List.flatten_append,
      List.flatten_singleton]
    exact hperm.append_right [tid]
  pending := by
    have hpending := hinv.pending
    rw [hmobj] at hpending
    rw [blocks_info, show (s.info [tid]).mobj = none from hmobj]
    exact hpending.single hbetween hcovers

/-! ### Leaving a range -/

/-- What is known of a range and the block that is pending when a transaction below it comes. -/
structure Leaves (transactions seen : List Nat) (ranges before : List Range) (s : Loop) (mobj : Mobj) : Prop where
  ok : BlockOk transactions ranges mobj.tids
  matched : ∃ tid ∈ seen, s.current.Covers tid ∧ Below before tid
  seen_ge : ∀ tid ∈ seen, s.current.begin ≤ tid
  shown : GroupShown transactions [mobj.tids] before s.current

theorem lt_begin_of_pending {mobj : Mobj} (hinv : Inv transactions seen (tid :: rest) ranges before s) (hbetween : Between transactions seen rest tid)
    (hcovers : ¬s.current.Covers tid) (hmobj : s.mobj = some mobj) : (tid : Int) < s.current.begin := by
  have hcovered : ∃ tid' ∈ seen, s.current.Covers tid' := by
    have hpending := hinv.pending
    rw [hmobj] at hpending
    cases hpending with
    | merging hmem hne _ _ =>
        obtain ⟨tid', htid'⟩ := List.exists_mem_of_ne_nil _ hne
        exact ⟨tid', ((hmem tid').mp htid').1, ((hmem tid').mp htid').2.1⟩
    | kept hmem hcovers' _ _ _ _ => exact ⟨_, hmem, hcovers'⟩
  obtain ⟨tid', hseen, hcovers'⟩ := hcovered
  have hlt := hbetween.seen_gt tid' hseen
  have hend := hcovers'.2
  rcases lt_begin_or_end_lt hcovers with hlt | hgt
  · exact hlt
  · omega

/-- A range that was entered by its first transaction has none between it and those before. -/
theorem not_separated_of_kept {r : Range} (hcovers : r.Covers tid) (hmax : ∀ tid' ∈ transactions, Below before tid' → tid' ≤ tid)
    (hbefore : before ≠ []) : ¬Separated transactions before r := by
  rintro (hnil | ⟨tid', hmem, hend, hbelow⟩)
  · exact hbefore hnil
  · have hle := hmax tid' hmem hbelow
    have hend' := hcovers.2
    omega

theorem leaves_of_pending {mobj : Mobj} (hinv : Inv transactions seen (tid :: rest) ranges before s) (hbetween : Between transactions seen rest tid)
    (hmobj : s.mobj = some mobj) (hlt : (tid : Int) < s.current.begin) : Leaves transactions seen ranges before s mobj := by
  have hpending := hinv.pending
  rw [hmobj] at hpending
  cases hpending with
  | @merging tids hmem hne hseen hseparated =>
      refine ⟨.inr ⟨hne, before, s.current, ⟨⟨_, hinv.passed.split⟩, hinv.passed.matched, hseparated⟩, fun tid' h => ((hmem tid').mp h).2⟩,
        ?_, hseen, ?_⟩
      · obtain ⟨tid', htid'⟩ := List.exists_mem_of_ne_nil _ hne
        exact ⟨tid', (hmem tid').mp htid'⟩
      · intro _ _
        refine ⟨tids, List.mem_singleton_self _, fun tid' htid' hcovers hbelow => ?_⟩
        have hbegin := hcovers.1
        rcases (hbetween.mem_iff tid').mp htid' with hseen' | rfl | hrest
        · exact (hmem tid').mpr ⟨hseen', hcovers, hbelow⟩
        · omega
        · have hlt' := hbetween.rest_lt tid' hrest
          omega
  | kept hmem hcovers hbelow hmax hseen hbefore =>
      exact ⟨.inl ⟨_, rfl⟩, ⟨_, hmem, hcovers, hbelow⟩, hseen, fun _ hseparated => absurd hseparated (not_separated_of_kept hcovers hmax hbefore)⟩

theorem perm_leave {mobj : Mobj} (hinv : Inv transactions seen rest ranges before s) (hmobj : s.mobj = some mobj) :
    (blocks s.lines ++ [mobj.tids]).flatten.Perm seen := by
  have hperm := hinv.perm
  rwa [hmobj, Option.map_some, Option.getD_some, ← List.flatten_singleton (l := mobj.tids), ← List.flatten_append] at hperm

/-- There is no other range to go on to. -/
theorem inv_leave_last {mobj : Mobj} (hinv : Inv transactions seen (tid :: rest) ranges before s) (hbetween : Between transactions seen rest tid)
    (hleaves : Leaves transactions seen ranges before s mobj) (hlt : (tid : Int) < s.current.begin) (hmobj : s.mobj = some mobj)
    (hmtids : s.mtids = []) : Inv transactions seen (tid :: rest) ranges before (s.leave mobj) := by
  unfold Loop.leave
  rw [hmtids]
  have hpassed := hinv.passed.info hleaves.ok
  refine ⟨⟨hpassed.split, hpassed.matched, hpassed.below, hpassed.sound, hpassed.shown⟩, ?_, ?_⟩
  · dsimp only
    rw [blocks_info, Option.map_none, Option.getD_none, List.append_nil]
    exact perm_leave hinv hmobj
  · dsimp only
    rw [blocks_info]
    refine .past (fun tid' hmem => ?_) (hleaves.shown.mono (List.subset_append_right _ _)) (.inl hmtids)
    rcases List.mem_cons.mp hmem with rfl | hrest
    · exact hlt
    · exact (Int.ofNat_lt.mpr (hbetween.rest_lt tid' hrest)).trans hlt

/-- The range that was left is done with. -/
theorem passed_leave {mobj : Mobj} {r : Range} {mtids : List Range} (hinv : Inv transactions seen (tid :: rest) ranges before s)
    (hbetween : Between transactions seen rest tid) (hleaves : Leaves transactions seen ranges before s mobj) (hlt : (tid : Int) < s.current.begin)
    (hmtids : s.mtids = r :: mtids) : Passed transactions (tid :: rest) ranges (before ++ [s.current]) (s.leave mobj) := by
  unfold Loop.leave
  rw [hmtids]
  have hpassed := hinv.passed.info hleaves.ok
  obtain ⟨tid', hseen, hcovered⟩ := hleaves.matched
  refine ⟨?_, allMatched_append hinv.passed.matched ⟨tid', (hbetween.mem_iff tid').mpr (.inl hseen), hcovered⟩, fun tid' hmem => ?_, hpassed.sound, ?_⟩
  · rw [hinv.passed.split, hmtids, List.append_assoc]
    rfl
  · refine below_append_iff.mpr ⟨hinv.passed.below tid' hmem, ?_⟩
    rcases List.mem_cons.mp hmem with rfl | hrest
    · exact hlt
    · exact (Int.ofNat_lt.mpr (hbetween.rest_lt tid' hrest)).trans hlt
  · intro front r' back heq
    rcases split_concat heq with ⟨rfl, rfl⟩ | ⟨back', hbefore⟩
    · rw [blocks_info]
      exact hleaves.shown.mono (List.subset_append_right _ _)
    · exact hpassed.shown front r' back' hbefore

theorem not_below_of_seen {mobj : Mobj} (hleaves : Leaves transactions seen ranges before s mobj) {tid' : Nat} (hseen : tid' ∈ seen) :
    ¬Below (before ++ [s.current]) tid' := by
  intro hbelow
  exact absurd (hleaves.seen_ge tid' hseen) (not_le_of_gt (below_append_iff.mp hbelow).2)

/-- The next range does not cover the transaction that ended the one before. -/
theorem inv_leave_next {mobj : Mobj} {r : Range} {mtids : List Range} (hinv : Inv transactions seen (tid :: rest) ranges before s)
    (hbetween : Between transactions seen rest tid) (hleaves : Leaves transactions seen ranges before s mobj) (hlt : (tid : Int) < s.current.begin)
    (hmobj : s.mobj = some mobj) (hmtids : s.mtids = r :: mtids) (hcovers : ¬r.Covers tid) :
    Inv transactions seen (tid :: rest) ranges (before ++ [s.current]) (s.leave mobj) := by
  have hpassed := passed_leave hinv hbetween hleaves hlt hmtids
  refine ⟨hpassed, ?_, ?_⟩
  · unfold Loop.leave
    rw [hmtids]
    dsimp only
    rw [blocks_info, Option.map_none, Option.getD_none, List.append_nil]
    exact perm_leave hinv hmobj
  · have hbelow := hpassed.below tid List.mem_cons_self
    unfold Loop.leave
    rw [hmtids]
    dsimp only
    rcases lt_begin_or_end_lt hcovers with hbegin | hend
    · have hpast : ∀ tid' ∈ tid :: rest, (tid' : Int) < r.begin := by
        intro tid' hmem
        rcases List.mem_cons.mp hmem with rfl | hrest
        · exact hbegin
        · exact (Int.ofNat_lt.mpr (hbetween.rest_lt tid' hrest)).trans hbegin
      have hnever : ∀ tid' ∈ transactions, r.Covers tid' → ¬Below (before ++ [s.current]) tid' := by
        intro tid' hmem hcovers'
        rcases (hbetween.mem_iff tid').mp hmem with hseen | hself | hrest
        · exact not_below_of_seen hleaves hseen
        · exact absurd hcovers'.1 (not_le_of_gt (hpast tid' (List.mem_cons.mpr (.inl hself))))
        · exact absurd hcovers'.1 (not_le_of_gt (hpast tid' (List.mem_cons.mpr (.inr hrest))))
      exact .past hpast (fun ⟨tid', hmem, hcovers', hbelow'⟩ => absurd hbelow' (hnever tid' hmem hcovers')) (.inr hnever)
    · exact .waiting (fun tid' hseen _ => not_below_of_seen hleaves hseen) (.inr ⟨tid, (hbetween.mem_iff tid).mpr (.inr (.inl rfl)), hend, hbelow⟩)

/-- It covers this transaction, which is kept. -/
theorem inv_leave_kept {mobj : Mobj} {r : Range} {mtids : List Range} (hinv : Inv transactions seen (tid :: rest) ranges before s)
    (hbetween : Between transactions seen rest tid) (hleaves : Leaves transactions seen ranges before s mobj) (hlt : (tid : Int) < s.current.begin)
    (hmobj : s.mobj = some mobj) (hmtids : s.mtids = r :: mtids) (hcovers : r.Covers tid) :
    Inv transactions (seen ++ [tid]) rest ranges (before ++ [s.current]) { s.leave mobj with mobj := some (.plain tid) } := by
  have hpassed := passed_leave hinv hbetween hleaves hlt hmtids
  refine ⟨hpassed.tail _, ?_, ?_⟩
  · unfold Loop.leave
    rw [hmtids]
    dsimp only
    rw [blocks_info]
    exact (perm_leave hinv hmobj).append_right [tid]
  · have hbelow := hpassed.below tid List.mem_cons_self
    unfold Loop.leave
    rw [hmtids]
    dsimp only
    refine .kept (List.mem_append_right _ (List.mem_singleton_self tid)) hcovers hbelow (fun tid' hmem hbelow' => ?_) (fun tid' hmem => ?_)
      (List.append_ne_nil_of_right_ne_nil _ (List.cons_ne_nil _ _))
    · rcases (hbetween.mem_iff tid').mp hmem with hseen | hself | hrest
      · exact absurd hbelow' (not_below_of_seen hleaves hseen)
      · exact hself.le
      · exact (hbetween.rest_lt tid' hrest).le
    · rcases List.mem_append.mp hmem with hseen | hself
      · exact hcovers.1.trans (Int.ofNat_le.mpr (hbetween.seen_gt tid' hseen).le)
      · exact List.mem_singleton.mp hself ▸ hcovers.1

/-! ### The pass -/

/-- One transaction keeps the invariant, or is the second one of a range that was entered by its first. -/
theorem inv_step (hinv : Inv transactions seen (tid :: rest) ranges before s) (hbetween : Between transactions seen rest tid) :
    (s.step tid = none ∧ Clash transactions ranges) ∨
      ∃ t before', s.step tid = some t ∧ Inv transactions (seen ++ [tid]) rest ranges before' t := by
  by_cases hcovers : s.current.Covers tid
  · have hpending := hinv.pending
    have hbelow := hinv.passed.below tid List.mem_cons_self
    cases hmobj : s.mobj with
    | none =>
        rw [hmobj] at hpending
        cases hpending with
        | waiting hunmatched hseparated =>
            refine .inr ⟨_, before, step_waiting hcovers hmobj, inv_merge hinv hbetween hcovers (by rw [hmobj]; rfl) (fun tid' => ?_) hseparated⟩
            exact iff_of_false List.not_mem_nil fun h => hunmatched tid' h.1 h.2.1 h.2.2
        | past hpast _ _ => exact absurd hcovers.1 (not_le_of_gt (hpast tid List.mem_cons_self))
    | some mobj =>
        rw [hmobj] at hpending
        cases hpending with
        | @merging tids hmem _ _ hseparated =>
            exact .inr ⟨_, before, step_merging hcovers hmobj, inv_merge hinv hbetween hcovers (by rw [hmobj]; rfl) hmem hseparated⟩
        | @kept first hmem hcovers' hbelow' hmax _ hbefore =>
            exact .inl ⟨step_kept hcovers hmobj, before, s.current, s.mtids, hinv.passed.split, hbefore, hinv.passed.matched,
              first, (hbetween.mem_iff first).mpr (.inl hmem), tid, (hbetween.mem_iff tid).mpr (.inr (.inl rfl)), (hbetween.seen_gt first hmem).ne',
              hcovers', hcovers, hbelow', hbelow, hmax⟩
  · cases hmobj : s.mobj with
    | none => exact .inr ⟨_, before, step_single hcovers hmobj, inv_single hinv hbetween hcovers hmobj⟩
    | some mobj =>
        have hlt := lt_begin_of_pending hinv hbetween hcovers hmobj
        have hleaves := leaves_of_pending hinv hbetween hmobj hlt
        right
        rw [step_leave hcovers hmobj]
        cases hmtids : s.mtids with
        | nil =>
            have hleave := inv_leave_last hinv hbetween hleaves hlt hmobj hmtids
            have hcurrent : (s.leave mobj).current = s.current ∧ (s.leave mobj).mobj = none := by
              unfold Loop.leave
              rw [hmtids]
              exact ⟨rfl, rfl⟩
            rw [if_neg fun h => h.1 rfl]
            exact ⟨_, before, rfl, inv_single hleave hbetween (by rwa [hcurrent.1]) hcurrent.2⟩
        | cons r mtids =>
            have hcurrent : (s.leave mobj).current = r ∧ (s.leave mobj).mobj = none := by
              unfold Loop.leave
              rw [hmtids]
              exact ⟨rfl, rfl⟩
            rw [hcurrent.1]
            by_cases hr : r.Covers tid
            · rw [if_pos ⟨List.cons_ne_nil _ _, hr⟩]
              exact ⟨_, before ++ [s.current], rfl, inv_leave_kept hinv hbetween hleaves hlt hmobj hmtids hr⟩
            · rw [if_neg fun h => hr h.2]
              have hleave := inv_leave_next hinv hbetween hleaves hlt hmobj hmtids hr
              exact ⟨_, before ++ [s.current], rfl, inv_single hleave hbetween (by rwa [hcurrent.1]) hcurrent.2⟩

theorem inv_run (hinv : Inv transactions seen rest ranges before s) (hsplit : transactions = seen ++ rest)
    (hpairwise : transactions.Pairwise (· > ·)) : (s.run rest = none ∧ Clash transactions ranges) ∨
      ∃ t before', s.run rest = some t ∧ Inv transactions transactions [] ranges before' t := by
  induction rest generalizing seen before s with
  | nil =>
      rw [List.append_nil] at hsplit
      exact .inr ⟨s, before, rfl, hsplit ▸ hinv⟩
  | cons tid rest ih =>
      have hbetween : Between transactions seen rest tid := by
        rw [hsplit] at hpairwise ⊢
        exact between_of_pairwise hpairwise
      unfold Loop.run
      rcases inv_step hinv hbetween with ⟨hnone, hclash⟩ | ⟨t, before', hstep, hinv'⟩
      · rw [hnone]
        exact .inl ⟨rfl, hclash⟩
      · rw [hstep, Option.bind_some]
        refine ih hinv' ?_
        rw [hsplit, List.append_assoc, List.singleton_append]

theorem inv_start (r : Range) (mtids : List Range) : Inv transactions [] transactions (r :: mtids) [] (Loop.start (r :: mtids)) where
  passed :=
    { split := rfl
      matched := fun front _ _ heq => absurd heq.symm (List.append_ne_nil_of_right_ne_nil front (List.cons_ne_nil _ _))
      below := fun _ _ => nofun
      sound := nofun
      shown := fun front _ _ heq => absurd heq.symm (List.append_ne_nil_of_right_ne_nil front (List.cons_ne_nil _ _)) }
  perm := .refl _
  pending := .waiting (fun _ hmem => absurd hmem List.not_mem_nil) (.inl rfl)

end Dnf.Cli.HistoryInfo
