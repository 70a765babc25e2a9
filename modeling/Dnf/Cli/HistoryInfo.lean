import Mathlib.Data.Prod.Lex
import Mathlib.Data.Finset.Sort
import Mathlib.Data.Int.Order.Basic

/-!
# `history info`

`Output.historyInfoCmd` shows the requested transactions, the latest first, and merges those of one range into one block. It goes over the transactions once, with the ranges on a stack, the highest on top, and goes on to the next range when it has left the one before. A range that is entered by the very transaction that ends the one before keeps this transaction as it is, without the wrapper that others could be merged into; and a range with no transaction in it is never left.
-/

namespace Dnf.Cli.HistoryInfo

/-- A pair of a begin and an end, which compare as tuples do. -/
abbrev Range := Int ×ₗ Int

def Range.begin (r : Range) : Int := (ofLex r).1

def Range.end (r : Range) : Int := (ofLex r).2

/-- `tid >= bmtid and tid <= emtid` -/
def Range.Covers (r : Range) (tid : Int) : Prop := tid ≥ r.begin ∧ tid ≤ r.end

instance (r : Range) (tid : Int) : Decidable (r.Covers tid) := by
  unfold Range.Covers
  infer_instance

/-- The ids of the transactions, as `listTransactions` has them. -/
structure Swdb where
  tids : List Nat
  sorted : tids.Pairwise (· < ·)

def Swdb.last (history : Swdb) : Option Nat := history.tids.getLast?

/-- The requested ones that there are, the latest first. -/
def Swdb.old (history : Swdb) (tids : Finset Int) : List Nat := (history.tids.filter fun tid : Nat => (tid : Int) ∈ tids).reverse

/-- What `historyInfoCmd` goes over: without ids it is the last transaction. -/
def Swdb.transactions (history : Swdb) (tids : Finset Int) : List Nat :=
  if tids = ∅ then history.last.toList else history.old tids

/-- What is pending to be shown: a `MergedTransactionWrapper`, which lists its ids in ascending order, or a transaction. -/
inductive Mobj
  | merged (tids : List Nat)
  | plain (tid : Nat)

def Mobj.tids : Mobj → List Nat
  | .merged tids => tids
  | .plain tid => [tid]

inductive Line
  | rule
  | info (tids : List Nat)
  deriving DecidableEq

structure Loop where
  current : Range
  mtids : List Range
  mobj : Option Mobj
  done : Bool
  lines : List Line

/-- `_historyInfoCmd`, after a rule unless it is the first. -/
def Loop.info (s : Loop) (tids : List Nat) : Loop :=
  { s with lines := s.lines ++ (if s.done then [.rule, .info tids] else [.info tids]), done := true }

/-- The body of the loop. A plain transaction has no `merge`, which is an `AttributeError`. -/
def Loop.step (s : Loop) (tid : Nat) : Option Loop :=
  if s.current.Covers tid then
    match s.mobj with
    | none => some { s with mobj := some (.merged [tid]) }
    | some (.merged tids) => some { s with mobj := some (.merged (tid :: tids)) }
    | some (.plain _) => none
  else
    match s.mobj with
    | none => some (s.info [tid])
    | some mobj =>
        let shown := { s.info mobj.tids with mobj := none }
        match s.mtids with
        | [] => some (shown.info [tid])
        | r :: rest =>
            if r.Covers tid then some { shown with current := r, mtids := rest, mobj := some (.plain tid) }
            else some ({ shown with current := r, mtids := rest }.info [tid])

def Loop.run (s : Loop) : List Nat → Option Loop
  | [] => some s
  | tid :: tids => (s.step tid).bind fun t => t.run tids

def Loop.finish (s : Loop) : List Line :=
  match s.mobj with
  | none => s.lines
  | some mobj => (s.info mobj.tids).lines

/-- `mtids = sorted(mtids)`, popped from its end. -/
def popped (mtids : Finset Range) : List Range := (mtids.sort (· ≤ ·)).reverse

def Loop.start : List Range → Loop
  | [] => { current := toLex (-1, -1), mtids := [], mobj := none, done := false, lines := [] }
  | r :: rest => { current := r, mtids := rest, mobj := none, done := false, lines := [] }

inductive InfoError
  | failedHistoryInfo
  | attributeError
  deriving DecidableEq

def historyInfoCmd (history : Swdb) (tids : Finset Int) (mtids : Finset Range) : Except InfoError (List Line) :=
  match history.last with
  | none => .error .failedHistoryInfo
  | some _ =>
      match (Loop.start (popped mtids)).run (history.transactions tids) with
      | none => .error .attributeError
      | some s => .ok s.finish

/-! ### What is to be shown -/

def Line.tids : Line → Option (List Nat)
  | .rule => none
  | .info tids => some tids

/-- The ids that each block is about. -/
def blocks (lines : List Line) : List (List Nat) := lines.filterMap Line.tids

structure ShownRightly (transactions : List Nat) (mtids : Finset Range) (blocks : List (List Nat)) : Prop where
  once : blocks.flatten.Perm transactions
  merged : ∀ r ∈ mtids, (∃ tid ∈ transactions, r.Covers tid) → ∃ block ∈ blocks, ∀ tid ∈ transactions, r.Covers tid → tid ∈ block
  apart : ∀ r ∈ mtids, ∀ r' ∈ mtids, (∀ i, ¬(r.Covers i ∧ r'.Covers i)) →
    ∀ block ∈ blocks, ∀ tid ∈ block, ∀ tid' ∈ block, r.Covers tid → ¬r'.Covers tid'
  alone : ∀ tid ∈ transactions, (∀ r ∈ mtids, ¬r.Covers tid) → [tid] ∈ blocks

/-- The transactions, if there are any, are shown, and as the ranges say. -/
def InfoRight (history : Swdb) (tids : Finset Int) (mtids : Finset Range) : Prop :=
  history.transactions tids ≠ [] →
    ∃ lines, historyInfoCmd history tids mtids = .ok lines ∧ ShownRightly (history.transactions tids) mtids (blocks lines)

/-! ### The ranges that merge -/

/-- Below each of the ranges. -/
def Below (before : List Range) (tid : Nat) : Prop := ∀ r ∈ before, (tid : Int) < r.begin

/-- Each of the ranges, which come one after another, covers a transaction below those before it. -/
def AllMatched (transactions : List Nat) (before : List Range) : Prop :=
  ∀ front r back, before = front ++ r :: back → ∃ tid ∈ transactions, r.Covers tid ∧ Below front tid

/-- The range `r`, which comes after `before`, is the first, or there is a transaction between it and those before. -/
def Separated (transactions : List Nat) (before : List Range) (r : Range) : Prop :=
  before = [] ∨ ∃ tid ∈ transactions, r.end < tid ∧ Below before tid

/-- The pass gets to the range `r`, through those before it, and merges what it covers. -/
def Merges (transactions : List Nat) (ranges before : List Range) (r : Range) : Prop :=
  (∃ after, ranges = before ++ r :: after) ∧ AllMatched transactions before ∧ Separated transactions before r

/-- Each range that covers two transactions has all that it covers in a range that the pass merges. -/
def RangesMerge (transactions : List Nat) (ranges : List Range) : Prop :=
  ∀ r ∈ ranges, (∃ tid ∈ transactions, ∃ tid' ∈ transactions, tid ≠ tid' ∧ r.Covers tid ∧ r.Covers tid') →
    ∃ before merging, Merges transactions ranges before merging ∧ ∀ tid ∈ transactions, r.Covers tid → merging.Covers tid

end Dnf.Cli.HistoryInfo
