import Dnf.Cli.MergedRanges

/-!
# The blocks that `history info` shows

At the end of the pass every transaction has been shown once, by itself or with others that a merged range covers. The blocks are those of the ranges exactly if each range with two transactions lies, as far as transactions go, in a merged one. If there is one that does not, the pass either shows its transactions in several blocks or comes upon the second transaction of a range that it entered with the first, which raises.
-/

namespace Dnf.Cli.HistoryInfo

variable {transactions seen rest : List Nat} {ranges before : List Range} {s : Loop}

/-! ### What has been shown at the end -/

/-- Every transaction is shown once, no block has more than a merged range, and each merged range is in one block. -/
structure Outcome (transactions : List Nat) (ranges : List Range) (blocks : List (List Nat)) : Prop where
  once : blocks.flatten.Perm transactions
  sound : ∀ block ∈ blocks, BlockOk transactions ranges block
  grouped : ∀ before r after, ranges = before ++ r :: after → AllMatched transactions before → GroupShown transactions blocks before r

/-- Nothing is past the range that the pass ends with: either a transaction has been seen below it, or the pass has covered nothing of it. -/
theorem grouped_of_after (hinv : Inv transactions transactions [] ranges before s) {back after : List Range} {r : Range}
    (hsplit : ranges = (before ++ s.current :: back) ++ r :: after) (hmatched : AllMatched transactions (before ++ s.current :: back)) :
    ¬Separated transactions (before ++ s.current :: back) r := by
  rintro (hnil | ⟨tid, hmem, _, hbelow⟩)
  · exact absurd hnil (List.append_ne_nil_of_right_ne_nil _ (List.cons_ne_nil _ _))
  have hlt : (tid : Int) < s.current.begin := hbelow s.current (List.mem_append_right _ List.mem_cons_self)
  obtain ⟨tid', hmem', hcovers, hbelow'⟩ := hmatched before s.current back rfl
  have hpending := hinv.pending
  cases hmobj : s.mobj with
  | none =>
      rw [hmobj] at hpending
      cases hpending with
      | waiting hunmatched _ => exact hunmatched tid' hmem' hcovers hbelow'
      | past _ _ hlast =>
          rcases hlast with hlast | hnever
          · have hlength := congrArg List.length (hinv.passed.split.symm.trans hsplit)
            rw [hlast] at hlength
            simp at hlength
          · exact hnever tid' hmem' hcovers hbelow'
  | some mobj =>
      rw [hmobj] at hpending
      cases hpending with
      | merging _ _ hseen _ => exact absurd (hseen tid hmem) (not_le_of_gt hlt)
      | kept _ _ _ _ hseen _ => exact absurd (hseen tid hmem) (not_le_of_gt hlt)

theorem grouped_current (hinv : Inv transactions transactions [] ranges before s) : GroupShown transactions (blocks s.finish) before s.current := by
  rw [blocks_finish]
  have hpending := hinv.pending
  cases hmobj : s.mobj with
  | none =>
      rw [hmobj] at hpending
      cases hpending with
      | waiting hunmatched _ => exact fun ⟨tid, hmem, hcovers, hbelow⟩ => absurd hbelow (hunmatched tid hmem hcovers)
      | past _ hshown _ => exact hshown.mono (List.subset_append_left _ _)
  | some mobj =>
      rw [hmobj] at hpending
      cases hpending with
      | @merging tids hmem _ _ _ =>
          intro _ _
          exact ⟨tids, List.mem_append_right _ (List.mem_singleton_self _), fun tid htid hcovers hbelow => (hmem tid).mpr ⟨htid, hcovers, hbelow⟩⟩
      | kept _ hcovers _ hmax _ hbefore => exact fun _ hseparated => absurd hseparated (not_separated_of_kept hcovers hmax hbefore)

theorem sound_finish (hinv : Inv transactions transactions [] ranges before s) : ∀ block ∈ blocks s.finish, BlockOk transactions ranges block := by
  rw [blocks_finish]
  refine List.forall_mem_append.mpr ⟨hinv.passed.sound, fun block hblock => ?_⟩
  have hpending := hinv.pending
  cases hmobj : s.mobj with
  | none =>
      rw [hmobj] at hblock
      exact absurd hblock List.not_mem_nil
  | some mobj =>
      rw [hmobj] at hpending hblock
      obtain rfl := List.mem_singleton.mp hblock
      cases hpending with
      | merging hmem hne _ hseparated =>
          exact .inr ⟨hne, before, s.current, ⟨⟨_, hinv.passed.split⟩, hinv.passed.matched, hseparated⟩, fun tid htid => ((hmem tid).mp htid).2⟩
      | kept => exact .inl ⟨_, rfl⟩

theorem outcome_of_inv (hinv : Inv transactions transactions [] ranges before s) : Outcome transactions ranges (blocks s.finish) where
  once := by
    have hperm := hinv.perm
    rw [blocks_finish, List.flatten_append]
    cases hmobj : s.mobj with
    | none =>
        rw [hmobj] at hperm
        exact hperm
    | some mobj =>
        rw [hmobj] at hperm
        rwa [Option.map_some, Option.toList_some, List.flatten_singleton]
  sound := sound_finish hinv
  grouped := by
    intro before' r after hsplit hmatched
    rcases split_cases (hinv.passed.split.symm.trans hsplit) with ⟨rfl, rfl⟩ | ⟨back, rfl⟩ | ⟨back, hbefore⟩
    · exact grouped_current hinv
    · exact fun _ hseparated => absurd hseparated (grouped_of_after hinv hsplit hmatched)
    · refine (hinv.passed.shown before' r back hbefore).mono ?_
      rw [blocks_finish]
      exact List.subset_append_left _ _

/-- Without ranges, the pass looks for a range that covers nothing. -/
theorem outcome_nil {shown : List (List Nat)} (houtcome : Outcome transactions [toLex (-1, -1)] shown) : Outcome transactions [] shown where
  once := houtcome.once
  sound := by
    intro block hblock
    rcases houtcome.sound block hblock with hsingle | ⟨hne, before, r, ⟨⟨after, hsplit⟩, _⟩, hcovered⟩
    · exact .inl hsingle
    · obtain ⟨tid, hmem⟩ := List.exists_mem_of_ne_nil block hne
      have hr : r ∈ [toLex (-1, -1)] := hsplit ▸ List.mem_append_right _ List.mem_cons_self
      have hend := (hcovered tid hmem).1.2
      rw [List.mem_singleton.mp hr] at hend
      exact absurd hend (not_le_of_gt (lt_of_lt_of_le (by decide) (Int.natCast_nonneg tid)))
  grouped := fun before _ _ hsplit => absurd hsplit.symm (List.append_ne_nil_of_right_ne_nil before (List.cons_ne_nil _ _))

theorem not_clash_singleton {r : Range} : ¬Clash transactions [r] := by
  rintro ⟨before, r', after, hsplit, hbefore, _⟩
  have hlength := congrArg List.length hsplit
  have hpos := List.length_pos_iff.mpr hbefore
  simp at hlength
  omega

theorem run_start (hpairwise : transactions.Pairwise (· > ·)) (ranges : List Range) :
    ((Loop.start ranges).run transactions = none ∧ Clash transactions ranges) ∨
      ∃ s, (Loop.start ranges).run transactions = some s ∧ Outcome transactions ranges (blocks s.finish) := by
  cases ranges with
  | nil =>
      rcases inv_run (inv_start (toLex (-1, -1)) []) rfl hpairwise with ⟨_, hclash⟩ | ⟨s, before, hrun, hinv⟩
      · exact absurd hclash not_clash_singleton
      · exact .inr ⟨s, hrun, outcome_nil (outcome_of_inv hinv)⟩
  | cons r mtids =>
      rcases inv_run (inv_start r mtids) rfl hpairwise with hclash | ⟨s, before, hrun, hinv⟩
      · exact .inl hclash
      · exact .inr ⟨s, hrun, outcome_of_inv hinv⟩

/-! ### Blocks and ranges -/

/-- A range that is merged covers nothing but what is below the ranges before it. -/
theorem below_of_separated {r : Range} (hseparated : Separated transactions before r) {tid : Nat} (hcovers : r.Covers tid) : Below before tid := by
  intro r' hr'
  rcases hseparated with hnil | ⟨tid', _, hend, hbelow⟩
  · rw [hnil] at hr'
    exact absurd hr' List.not_mem_nil
  · have hlt := hbelow r' hr'
    have hend' := hcovers.2
    omega

theorem not_clash (hmerge : RangesMerge transactions ranges) : ¬Clash transactions ranges := by
  rintro ⟨before, r, after, hsplit, hbefore, _, first, hfirst, second, hsecond, hne, hcovers, hcovers', hbelow, _, hmax⟩
  have hr : r ∈ ranges := hsplit ▸ List.mem_append_right _ List.mem_cons_self
  obtain ⟨before', merging, ⟨⟨after', hsplit'⟩, _, hseparated⟩, hcovered⟩ := hmerge r hr ⟨first, hfirst, second, hsecond, hne, hcovers, hcovers'⟩
  have hmerging := hcovered first hfirst hcovers
  rcases split_cases (hsplit.symm.trans hsplit') with ⟨rfl, rfl⟩ | ⟨back, rfl⟩ | ⟨back, hback⟩
  · exact not_separated_of_kept hcovers hmax hbefore hseparated
  · exact absurd hcovers.1 (not_le_of_gt (below_of_separated hseparated hmerging r (List.mem_append_right _ List.mem_cons_self)))
  · exact absurd hmerging.1 (not_le_of_gt (hbelow merging (hback ▸ List.mem_append_right _ List.mem_cons_self)))

theorem rangesMerge_of_shownRightly {mtids : Finset Range} {shown : List (List Nat)} (houtcome : Outcome transactions ranges shown)
    (hmtids : ∀ r, r ∈ ranges ↔ r ∈ mtids) (hright : ShownRightly transactions mtids shown) : RangesMerge transactions ranges := by
  rintro r hr ⟨tid, htid, tid', htid', hne, hcovers, hcovers'⟩
  obtain ⟨block, hblock, hmem⟩ := hright.merged r ((hmtids r).mp hr) ⟨tid, htid, hcovers⟩
  rcases houtcome.sound block hblock with ⟨single, rfl⟩ | ⟨_, before, merging, hmerges, hcovered⟩
  · exact absurd ((List.mem_singleton.mp (hmem tid htid hcovers)).trans (List.mem_singleton.mp (hmem tid' htid' hcovers')).symm) hne
  · exact ⟨before, merging, hmerges, fun tid htid hcovers => (hcovered tid (hmem tid htid hcovers)).1⟩

/-- Of disjoint ranges, the one that covers the later transaction is above the other. -/
theorem end_lt_begin {r r' : Range} (hdisjoint : ∀ i, ¬(r.Covers i ∧ r'.Covers i)) {tid tid' : Nat} (hlt : tid < tid') (hcovers : r.Covers tid)
    (hcovers' : r'.Covers tid') : r.end < r'.begin := by
  have hself := hdisjoint tid
  have hbegin := hdisjoint r'.begin
  unfold Range.Covers at *
  omega

theorem apart_of_lt (hsorted : ranges.Pairwise fun r r' => r'.begin ≤ r.begin) {r r' merging : Range} (hr' : r' ∈ ranges)
    (hmerges : Merges transactions ranges before merging) (hdisjoint : ∀ i, ¬(r.Covers i ∧ r'.Covers i)) {tid tid' : Nat} (hlt : tid < tid')
    (hmerging : merging.Covers tid) (hbelow : Below before tid') (hcovers : r.Covers tid) (hcovers' : r'.Covers tid') : False := by
  obtain ⟨⟨after, rfl⟩, _, _⟩ := hmerges
  have hend := end_lt_begin hdisjoint hlt hcovers hcovers'
  have hbegin : merging.begin < r'.begin := lt_of_le_of_lt (hmerging.1.trans hcovers.2) hend
  rcases List.mem_append.mp hr' with hbefore | hafter
  · exact absurd hcovers'.1 (not_le_of_gt (hbelow r' hbefore))
  · rcases List.mem_cons.mp hafter with rfl | hafter
    · exact lt_irrefl _ hbegin
    · have hle := (List.pairwise_cons.mp (List.pairwise_append.mp hsorted).2.1).1 r' hafter
      omega

theorem shownRightly_of_rangesMerge {mtids : Finset Range} {shown : List (List Nat)} (houtcome : Outcome transactions ranges shown)
    (hmtids : ∀ r, r ∈ ranges ↔ r ∈ mtids) (hsorted : ranges.Pairwise fun r r' => r'.begin ≤ r.begin) (hmerge : RangesMerge transactions ranges) :
    ShownRightly transactions mtids shown where
  once := houtcome.once
  merged := by
    rintro r hr ⟨tid, htid, hcovers⟩
    by_cases htwo : ∃ tid ∈ transactions, ∃ tid' ∈ transactions, tid ≠ tid' ∧ r.Covers tid ∧ r.Covers tid'
    · obtain ⟨before, merging, ⟨⟨after, hsplit⟩, hmatched, hseparated⟩, hcovered⟩ := hmerge r ((hmtids r).mpr hr) htwo
      have hbelow := fun (tid : Nat) htid (hcovers : r.Covers tid) => below_of_separated hseparated (hcovered tid htid hcovers)
      obtain ⟨block, hblock, hmem⟩ := houtcome.grouped before merging after hsplit hmatched
        ⟨tid, htid, hcovered tid htid hcovers, hbelow tid htid hcovers⟩ hseparated
      exact ⟨block, hblock, fun tid htid hcovers => hmem tid htid (hcovered tid htid hcovers) (hbelow tid htid hcovers)⟩
    · obtain ⟨block, hblock, hmem⟩ := List.mem_flatten.mp (houtcome.once.mem_iff.mpr htid)
      refine ⟨block, hblock, fun tid' htid' hcovers' => ?_⟩
      by_cases heq : tid = tid'
      · exact heq ▸ hmem
      · exact absurd ⟨tid, htid, tid', htid', heq, hcovers, hcovers'⟩ htwo
  apart := by
    intro r hr r' hr' hdisjoint block hblock tid hmem tid' hmem' hcovers hcovers'
    rcases houtcome.sound block hblock with ⟨single, rfl⟩ | ⟨_, before, merging, hmerges, hcovered⟩
    · rw [List.mem_singleton.mp hmem] at hcovers
      rw [List.mem_singleton.mp hmem'] at hcovers'
      exact hdisjoint single ⟨hcovers, hcovers'⟩
    · rcases lt_trichotomy tid tid' with hlt | rfl | hgt
      · exact apart_of_lt hsorted ((hmtids r').mpr hr') hmerges hdisjoint hlt (hcovered tid hmem).1 (hcovered tid' hmem').2 hcovers hcovers'
      · exact hdisjoint tid ⟨hcovers, hcovers'⟩
      · exact apart_of_lt hsorted ((hmtids r).mpr hr) hmerges (fun i h => hdisjoint i h.symm) hgt (hcovered tid' hmem').1 (hcovered tid hmem).2
          hcovers' hcovers
  alone := by
    intro tid htid hnone
    obtain ⟨block, hblock, hmem⟩ := List.mem_flatten.mp (houtcome.once.mem_iff.mpr htid)
    rcases houtcome.sound block hblock with ⟨single, rfl⟩ | ⟨_, before, merging, ⟨⟨after, hsplit⟩, _⟩, hcovered⟩
    · rwa [List.mem_singleton.mp hmem]
    · exact absurd (hcovered tid hmem).1 (hnone merging ((hmtids merging).mp (hsplit ▸ List.mem_append_right _ List.mem_cons_self)))

/-! ### The command -/

theorem mem_popped {mtids : Finset Range} {r : Range} : r ∈ popped mtids ↔ r ∈ mtids := by
  rw [popped, List.mem_reverse, Finset.mem_sort]

theorem popped_sorted (mtids : Finset Range) : (popped mtids).Pairwise fun r r' => r'.begin ≤ r.begin := by
  rw [popped, List.pairwise_reverse]
  exact (mtids.pairwise_sort (· ≤ ·)).imp fun hle => Prod.Lex.monotone_fst _ _ hle

theorem transactions_pairwise (history : Swdb) (tids : Finset Int) : (history.transactions tids).Pairwise (· > ·) := by
  unfold Swdb.transactions
  split
  · cases history.last with
    | none => exact List.Pairwise.nil
    | some last => exact List.pairwise_singleton _ last
  · exact List.pairwise_reverse.mpr (history.sorted.filter _)

theorem exists_last {history : Swdb} {tids : Finset Int} (htransactions : history.transactions tids ≠ []) : ∃ last, history.last = some last := by
  cases hlast : history.last with
  | some last => exact ⟨last, rfl⟩
  | none =>
      have hempty : history.tids = [] := List.getLast?_eq_none_iff.mp hlast
      refine absurd ?_ htransactions
      unfold Swdb.transactions Swdb.old
      rw [hlast, hempty]
      split <;> rfl

theorem historyInfoCmd_of_last {history : Swdb} {tids : Finset Int} {mtids : Finset Range} {last : Nat} (hlast : history.last = some last) :
    historyInfoCmd history tids mtids = match (Loop.start (popped mtids)).run (history.transactions tids) with
      | none => .error .attributeError
      | some s => .ok s.finish := by
  cases hrun : (Loop.start (popped mtids)).run (history.transactions tids) with
  | none => simp only [historyInfoCmd, hlast, hrun]
  | some s => simp only [historyInfoCmd, hlast, hrun]

/-- The ranges are shown rightly exactly if each that covers two transactions has what it covers in a range that the pass merges. -/
theorem historyInfoCmd_right_iff (history : Swdb) (tids : Finset Int) (mtids : Finset Range) :
    InfoRight history tids mtids ↔ RangesMerge (history.transactions tids) (popped mtids) := by
  by_cases htransactions : history.transactions tids = []
  · rw [InfoRight, htransactions]
    refine iff_of_true (fun h => absurd rfl h) ?_
    rintro _ _ ⟨tid, hmem, _⟩
    exact absurd hmem List.not_mem_nil
  obtain ⟨last, hlast⟩ := exists_last htransactions
  rw [InfoRight, historyInfoCmd_of_last hlast]
  rcases run_start (transactions_pairwise history tids) (popped mtids) with ⟨hrun, hclash⟩ | ⟨s, hrun, houtcome⟩
  · rw [hrun]
    refine iff_of_false (fun hright => ?_) fun hmerge => not_clash hmerge hclash
    obtain ⟨lines, herror, _⟩ := hright htransactions
    cases herror
  · rw [hrun]
    constructor
    · intro hright
      obtain ⟨lines, hlines, hshown⟩ := hright htransactions
      cases hlines
      exact rangesMerge_of_shownRightly houtcome (fun _ => mem_popped) hshown
    · intro hmerge _
      exact ⟨s.finish, rfl, shownRightly_of_rangesMerge houtcome (fun _ => mem_popped) (popped_sorted mtids) hmerge⟩

def fiveTransactions : Swdb where
  tids := [1, 2, 3, 4, 5]
  sorted := by decide

theorem popped_pair {r r' : Range} (hlt : r < r') : popped {r, r'} = [r', r] := by
  have hle : ∀ b ∈ ({r'} : Finset Range), r ≤ b := fun b hb => Finset.mem_singleton.mp hb ▸ hlt.le
  rw [popped, Finset.sort_insert _ hle (Finset.notMem_singleton.mpr hlt.ne), Finset.sort_singleton]
  rfl

/-- A range that another transaction separates from the one before is merged. -/
example : historyInfoCmd fiveTransactions {1, 2, 3, 4, 5} {toLex (1, 2), toLex (4, 5)} =
    .ok [.info [4, 5], .rule, .info [3], .rule, .info [1, 2]] := by
  rw [historyInfoCmd_of_last rfl, popped_pair (by decide)]
  decide +kernel

/-- Ranges that follow each other: the second is entered with its first transaction, which its second cannot be merged into. -/
theorem adjacent_not_infoRight : ¬InfoRight fiveTransactions {1, 2, 3, 4} {toLex (1, 2), toLex (3, 4)} := by
  intro hright
  have hraised : historyInfoCmd fiveTransactions {1, 2, 3, 4} {toLex (1, 2), toLex (3, 4)} = .error .attributeError := by
    rw [historyInfoCmd_of_last rfl, popped_pair (by decide)]
    decide +kernel
  obtain ⟨lines, hlines, _⟩ := hright (by decide +kernel)
  rw [hraised] at hlines
  cases hlines

end Dnf.Cli.HistoryInfo
