import Dnf.Foundation.Fallible
import Dnf.Foundation.PyInt
import Mathlib.Data.Finset.Sort
import Mathlib.Data.Int.Interval

/-!
# Transaction ids on the command line

`_args2transaction_ids` reads each argument as a transaction id, a range of them, or else the name of a package. A `Spec` is an argument together with how it is to be read, and every text is one: the code returns what the specs denote, whatever their order and whichever end of a range comes first.
-/

namespace Dnf.Cli.TransactionSpecs

open Foundation

inductive Exc
  | cliError
  deriving DecidableEq

/-- `'..' in t` -/
def hasDots : List Char → Bool
  | '.' :: '.' :: _ => true
  | _ :: cs => hasDots cs
  | [] => false

/-- `t.split('..', maxsplit)`, with the part read so far in reverse. -/
def splitDots : Nat → List Char → List Char → List (List Char)
  | 0, part, text => [part.reverse ++ text]
  | maxsplit + 1, part, '.' :: '.' :: cs => part.reverse :: splitDots maxsplit [] cs
  | maxsplit + 1, part, c :: cs => splitDots (maxsplit + 1) (c :: part) cs
  | _ + 1, part, [] => [part.reverse]

def lastText : List Char := ['l', 'a', 's', 't']

/-- The text that is handed to `int`. -/
def offsetText (s : List Char) : List Char :=
  if s = lastText then ['0']
  else if (lastText ++ ['-']).isPrefixOf s then s.drop 4
  else s

/-- An id that is not positive counts from the last transaction. -/
def fromLast (last id : Int) : Int := if id ≤ 0 then id + last else id

/-- `str2transaction_id`; `none` is the `ValueError`. -/
def str2transactionId (last : Int) (s : List Char) : Option Int := (pyInt (offsetText s)).map (fromLast last)

/-- `range(begin, end + 1)`, as a set. -/
def idRange (begin_ end_ : Int) : Finset Int := ((List.range (end_ + 1 - begin_).toNat).map fun i : Nat => begin_ + i).toFinset

theorem mem_idRange {begin_ end_ id : Int} : id ∈ idRange begin_ end_ ↔ begin_ ≤ id ∧ id ≤ end_ := by
  rw [idRange, List.mem_toFinset, List.mem_map]
  constructor
  · rintro ⟨i, hi, rfl⟩
    rw [List.mem_range] at hi
    omega
  · rintro ⟨hbegin, hend⟩
    refine ⟨(id - begin_).toNat, ?_, by omega⟩
    rw [List.mem_range]
    omega

/-- `tids` and `merged_tids`. -/
structure Tids where
  tids : Finset Int
  merged : Finset (Int × Int)

section Args

variable (last : Int) (search : List Char → List Int) (requireOne : Bool)

def addRange (begin_ end_ : Int) (acc : Tids) : Except Exc Tids :=
  if requireOne = true ∧ begin_ ≠ end_ then .error .cliError
  else
    let (begin_, end_) := if begin_ > end_ then (end_, begin_) else (begin_, end_)
    .ok ⟨acc.tids ∪ idRange begin_ end_, insert (begin_, end_) acc.merged⟩

def addTransaction (acc : Tids) (t : List Char) : Except Exc Tids :=
  if hasDots t then
    match splitDots 2 [] t with
    | [begin_, end_] =>
        match str2transactionId last begin_ with
        | none => .error .cliError
        | some begin_ =>
            match str2transactionId last end_ with
            | none => .error .cliError
            | some end_ => addRange requireOne begin_ end_ acc
    | _ => .error .cliError
  else
    match str2transactionId last t with
    | some id => .ok ⟨insert id acc.tids, acc.merged⟩
    | none =>
        if search t ≠ [] then .ok ⟨acc.tids ∪ (search t).toFinset, acc.merged⟩
        else if requireOne then .error .cliError
        else .ok acc

/-- `_args2transaction_ids`, where `last` is the id of the last transaction and `search` finds the transactions of a package. -/
def args2transactionIds (transactions : List (List Char)) : Except Exc (List Int × Finset (Int × Int)) := do
  let acc ← transactions.foldlM (addTransaction last search requireOne) ⟨∅, ∅⟩
  .ok (acc.tids.sort (· ≥ ·), acc.merged)

end Args

/-! ### What the arguments mean -/

/-- A number, `last`, or `last-` and a number. -/
inductive Point
  | number (numeral : List Char) (n : Int) (h : pyInt numeral = some n)
  | last
  | lastMinus (numeral : List Char) (n : Int) (h : pyInt ('-' :: numeral) = some (-n))

namespace Point

def text : Point → List Char
  | number numeral _ _ => numeral
  | last => lastText
  | lastMinus numeral _ _ => lastText ++ '-' :: numeral

def id (lastId : Int) : Point → Int
  | number _ n _ => if 0 < n then n else lastId + n
  | last => lastId
  | lastMinus _ n _ => lastId - n

end Point

/-- A transaction, the transactions between two of them, or those of a package. What has two dots and is no range is malformed. -/
inductive Spec
  | point (p : Point)
  | range (a b : Point)
  | package (name : List Char) (hdots : hasDots name = false) (hpoint : ∀ p : Point, p.text ≠ name)
  | malformed (t : List Char) (hdots : hasDots t = true) (hrange : ∀ a b : Point, a.text ++ '.' :: '.' :: b.text ≠ t)

namespace Spec

variable (lastId : Int) (search : List Char → List Int)

def text : Spec → List Char
  | point p => p.text
  | range a b => a.text ++ '.' :: '.' :: b.text
  | package name _ _ => name
  | malformed t _ _ => t

/-- The transaction ids that the argument stands for. -/
def denotes : Spec → Finset Int
  | point p => {p.id lastId}
  | range a b => idRange (min (a.id lastId) (b.id lastId)) (max (a.id lastId) (b.id lastId))
  | package name _ _ => (search name).toFinset
  | malformed _ _ _ => ∅

/-- The interval of a range, with the lower end first. -/
def interval : Spec → Finset (Int × Int)
  | range a b => {(min (a.id lastId) (b.id lastId), max (a.id lastId) (b.id lastId))}
  | _ => ∅

/-- Where only one transaction is asked for, a range of several and a package without any are errors. -/
def Refused (requireOne : Bool) : Spec → Prop
  | point _ => False
  | range a b => requireOne = true ∧ a.id lastId ≠ b.id lastId
  | package name _ _ => requireOne = true ∧ search name = []
  | malformed _ _ _ => True

end Spec

/-! ### Splitting at the dots -/

theorem hasDots_cons {c : Char} (hc : c ≠ '.') (cs : List Char) : hasDots (c :: cs) = hasDots cs := by
  rw [hasDots]
  rintro cs' rfl
  exact absurd rfl hc

theorem hasDots_of_notMem {text : List Char} (h : '.' ∉ text) : hasDots text = false := by
  induction text with
  | nil => rfl
  | cons c cs ih =>
      rw [List.mem_cons, not_or] at h
      rw [hasDots_cons (Ne.symm h.1), ih h.2]

theorem hasDots_range {a : List Char} (ha : '.' ∉ a) (b : List Char) : hasDots (a ++ '.' :: '.' :: b) = true := by
  induction a with
  | nil => rfl
  | cons c cs ih =>
      rw [List.mem_cons, not_or] at ha
      rw [List.cons_append, hasDots_cons (Ne.symm ha.1), ih ha.2]

theorem splitDots_zero (part text : List Char) : splitDots 0 part text = [part.reverse ++ text] := by
  cases text <;> rfl

theorem splitDots_nil (maxsplit : Nat) (part : List Char) : splitDots (maxsplit + 1) part [] = [part.reverse] := rfl

theorem splitDots_dots (maxsplit : Nat) (part cs : List Char) :
    splitDots (maxsplit + 1) part ('.' :: '.' :: cs) = part.reverse :: splitDots maxsplit [] cs := rfl

theorem splitDots_read {c : Char} {cs : List Char} (hne : ∀ cs', c = '.' → cs = '.' :: cs' → False) (maxsplit : Nat) (part : List Char) :
    splitDots (maxsplit + 1) part (c :: cs) = splitDots (maxsplit + 1) (c :: part) cs := by
  rw [splitDots]
  exact hne

theorem splitDots_cons {maxsplit : Nat} {part : List Char} {c : Char} (hc : c ≠ '.') (cs : List Char) :
    splitDots (maxsplit + 1) part (c :: cs) = splitDots (maxsplit + 1) (c :: part) cs :=
  splitDots_read (fun _ heq => absurd heq hc) maxsplit part

theorem splitDots_of_notMem {text : List Char} (h : '.' ∉ text) (maxsplit : Nat) (part : List Char) :
    splitDots (maxsplit + 1) part text = [part.reverse ++ text] := by
  induction text generalizing part with
  | nil => rw [splitDots_nil, List.append_nil]
  | cons c cs ih =>
      rw [List.mem_cons, not_or] at h
      rw [splitDots_cons (Ne.symm h.1), ih h.2, List.reverse_cons, List.append_assoc, List.singleton_append]

theorem splitDots_range {a b : List Char} (ha : '.' ∉ a) (hb : '.' ∉ b) : splitDots 2 [] (a ++ '.' :: '.' :: b) = [a, b] := by
  have hsplit : ∀ part, splitDots 2 part (a ++ '.' :: '.' :: b) = [part.reverse ++ a, b] := by
    induction a with
    | nil =>
        intro part
        rw [List.nil_append, splitDots_dots, splitDots_of_notMem hb, List.append_nil]
        rfl
    | cons c cs ih =>
        intro part
        rw [List.mem_cons, not_or] at ha
        rw [List.cons_append, splitDots_cons (Ne.symm ha.1), ih ha.2, List.reverse_cons, List.append_assoc, List.singleton_append]
  exact hsplit []

/-- There is a part, and the parts are what stands around the dots. -/
theorem splitDots_joined (maxsplit : Nat) (part text : List Char) : splitDots maxsplit part text ≠ [] ∧
    (['.', '.'] : List Char).intercalate (splitDots maxsplit part text) = part.reverse ++ text := by
  induction maxsplit, part, text using splitDots.induct with
  | case1 part text =>
      rw [splitDots_zero]
      exact ⟨List.cons_ne_nil _ _, List.intercalate_singleton⟩
  | case2 part maxsplit cs ih =>
      rw [splitDots_dots]
      refine ⟨List.cons_ne_nil _ _, ?_⟩
      rw [List.intercalate_cons_of_ne_nil ih.1, ih.2, List.append_assoc]
      rfl
  | case3 part maxsplit c cs hne ih =>
      rw [splitDots_read hne]
      refine ⟨ih.1, ?_⟩
      rw [ih.2, List.reverse_cons, List.append_assoc, List.singleton_append]
  | case4 part maxsplit =>
      rw [splitDots_nil, List.append_nil]
      exact ⟨List.cons_ne_nil _ _, List.intercalate_singleton⟩

/-! ### Reading a point -/

theorem offsetText_of_notMem {s : List Char} (h : 'l' ∉ s) : offsetText s = s := by
  rw [offsetText, if_neg, if_neg]
  · intro hprefix
    exact h ((List.isPrefixOf_iff_prefix.mp hprefix).subset List.mem_cons_self)
  · intro heq
    exact h (heq ▸ List.mem_cons_self)

theorem offsetText_last : offsetText lastText = ['0'] := if_pos rfl

theorem offsetText_lastMinus (numeral : List Char) : offsetText (lastText ++ '-' :: numeral) = '-' :: numeral := by
  rw [offsetText, if_neg, if_pos]
  · rfl
  · exact List.isPrefixOf_iff_prefix.mpr ⟨numeral, List.append_assoc _ _ _⟩
  · intro heq
    cases heq

theorem Point.notMem_dot (p : Point) : '.' ∉ p.text := by
  cases p with
  | number numeral n h =>
      intro hdot
      exact absurd (isNumeral_of_pyInt h hdot) (by decide)
  | last => decide
  | lastMinus numeral n h =>
      intro hdot
      rcases List.mem_append.mp hdot with hlast | hnumeral
      · exact absurd hlast (by decide)
      · exact absurd (isNumeral_of_pyInt h hnumeral) (by decide)

theorem str2transactionId_text (last : Int) (p : Point) : str2transactionId last p.text = some (p.id last) := by
  cases p with
  | number numeral n h =>
      have hl : 'l' ∉ numeral := fun hl => absurd (isNumeral_of_pyInt h hl) (by decide)
      rw [str2transactionId, Point.text, offsetText_of_notMem hl, h, Option.map_some, fromLast, Point.id]
      split_ifs with hle hpos hpos
      · omega
      · rw [Int.add_comm]
      · rfl
      · omega
  | last =>
      rw [str2transactionId, Point.text, offsetText_last]
      exact congrArg some (Int.zero_add last)
  | lastMinus numeral n h =>
      rw [str2transactionId, Point.text, offsetText_lastMinus, h, Option.map_some, fromLast, if_pos (pyInt_minus_le h), Point.id,
        Int.add_comm, ← Int.sub_eq_add_neg]

/-- What is read as an id is a point. -/
theorem exists_point {last id : Int} {s : List Char} (h : str2transactionId last s = some id) : ∃ p : Point, p.text = s := by
  obtain ⟨n, hn, -⟩ := Option.map_eq_some_iff.mp h
  rw [offsetText] at hn
  split_ifs at hn with hlast hprefix
  · exact ⟨.last, hlast.symm⟩
  · obtain ⟨numeral, rfl⟩ := List.isPrefixOf_iff_prefix.mp hprefix
    refine ⟨.lastMinus numeral (-n) ?_, (List.append_assoc lastText ['-'] numeral).symm⟩
    rw [Int.neg_neg]
    exact hn
  · exact ⟨.number s n hn, rfl⟩

/-! ### Reading an argument -/

/-- Every text is an argument that can be read in one of the four ways. -/
theorem exists_spec (t : List Char) : ∃ spec : Spec, spec.text = t := by
  cases hdots : hasDots t with
  | true =>
      by_cases hrange : ∃ a b : Point, a.text ++ '.' :: '.' :: b.text = t
      · obtain ⟨a, b, hab⟩ := hrange
        exact ⟨.range a b, hab⟩
      · exact ⟨.malformed t hdots fun a b hab => hrange ⟨a, b, hab⟩, rfl⟩
  | false =>
      by_cases hpoint : ∃ p : Point, p.text = t
      · obtain ⟨p, hp⟩ := hpoint
        exact ⟨.point p, hp⟩
      · exact ⟨.package t hdots fun p hp => hpoint ⟨p, hp⟩, rfl⟩

section Reading

variable (last : Int) (search : List Char → List Int) (requireOne : Bool)

theorem addRange_eq {a b : Int} (h : ¬(requireOne = true ∧ a ≠ b)) (acc : Tids) :
    addRange requireOne a b acc = .ok ⟨acc.tids ∪ idRange (min a b) (max a b), acc.merged ∪ {(min a b, max a b)}⟩ := by
  rw [addRange, if_neg h, Finset.union_comm acc.merged, Finset.singleton_union]
  rcases le_or_gt a b with hle | hlt
  · rw [if_neg (not_lt.mpr hle), min_eq_left hle, max_eq_right hle]
  · rw [if_pos hlt, min_eq_right hlt.le, max_eq_left hlt.le]

theorem str2transactionId_of_not_point {name : List Char} (hpoint : ∀ p : Point, p.text ≠ name) : str2transactionId last name = none := by
  cases hread : str2transactionId last name with
  | none => rfl
  | some id =>
      obtain ⟨p, hp⟩ := exists_point hread
      exact absurd hp (hpoint p)

theorem addTransaction_malformed (acc : Tids) {t : List Char} (hdots : hasDots t = true) (hrange : ∀ a b : Point, a.text ++ '.' :: '.' :: b.text ≠ t) :
    addTransaction last search requireOne acc t = .error .cliError := by
  have hjoin := (splitDots_joined 2 [] t).2
  rw [addTransaction, hdots, if_pos rfl]
  split
  · rename_i begin_ end_ hparts
    rw [hparts] at hjoin
    cases hbegin : str2transactionId last begin_ with
    | none => rfl
    | some first =>
        cases hend : str2transactionId last end_ with
        | none => rfl
        | some second =>
            obtain ⟨a, rfl⟩ := exists_point hbegin
            obtain ⟨b, rfl⟩ := exists_point hend
            exact absurd (by simpa using hjoin) (hrange a b)
  · rfl

/-- An argument adds what it denotes, unless it is refused. -/
theorem addTransaction_text (spec : Spec) (acc : Tids) :
    (spec.Refused last search requireOne ∧ addTransaction last search requireOne acc spec.text = .error .cliError) ∨
      ¬spec.Refused last search requireOne ∧
        addTransaction last search requireOne acc spec.text = .ok ⟨acc.tids ∪ spec.denotes last search, acc.merged ∪ spec.interval last⟩ := by
  cases spec with
  | point p =>
      refine .inr ⟨not_false, ?_⟩
      rw [Spec.text, addTransaction, hasDots_of_notMem p.notMem_dot, if_neg Bool.false_ne_true, str2transactionId_text, Spec.denotes]
      dsimp only [Spec.interval]
      rw [Finset.union_empty, Finset.union_comm acc.tids, Finset.singleton_union]
  | range a b =>
      rw [Spec.text, addTransaction, hasDots_range a.notMem_dot, if_pos rfl, splitDots_range a.notMem_dot b.notMem_dot]
      simp only [str2transactionId_text]
      by_cases hrefused : requireOne = true ∧ a.id last ≠ b.id last
      · refine .inl ⟨hrefused, ?_⟩
        rw [addRange, if_pos hrefused]
      · exact .inr ⟨hrefused, addRange_eq requireOne hrefused acc⟩
  | package name hdots hpoint =>
      rw [Spec.text, addTransaction, hdots, if_neg Bool.false_ne_true, str2transactionId_of_not_point last hpoint, Spec.denotes, Spec.Refused]
      dsimp only [Spec.interval]
      rw [Finset.union_empty]
      by_cases hfound : search name = []
      · rw [if_neg (not_not.mpr hfound), hfound, List.toFinset_nil, Finset.union_empty]
        cases requireOne with
        | true => exact .inl ⟨⟨rfl, rfl⟩, rfl⟩
        | false => exact .inr ⟨fun h => Bool.false_ne_true h.1, rfl⟩
      · rw [if_pos hfound]
        exact .inr ⟨fun h => hfound h.2, rfl⟩
  | malformed t hdots hrange =>
      exact .inl ⟨trivial, addTransaction_malformed last search requireOne acc hdots hrange⟩

/-! ### All arguments -/

def unionOf {α : Type} [DecidableEq α] (f : Spec → Finset α) (specs : List Spec) : Finset α := specs.foldr (fun spec union => f spec ∪ union) ∅

theorem mem_unionOf {α : Type} [DecidableEq α] {f : Spec → Finset α} {specs : List Spec} {x : α} : x ∈ unionOf f specs ↔ ∃ spec ∈ specs, x ∈ f spec := by
  induction specs with
  | nil => exact iff_of_false (Finset.notMem_empty x) fun ⟨spec, hspec, _⟩ => by cases hspec
  | cons spec specs ih =>
      rw [List.exists_mem_cons_iff, ← ih]
      exact Finset.mem_union

theorem foldlM_texts (specs : List Spec) (acc : Tids) :
    ((∃ spec ∈ specs, spec.Refused last search requireOne) ∧
        (specs.map Spec.text).foldlM (addTransaction last search requireOne) acc = .error .cliError) ∨
      (¬∃ spec ∈ specs, spec.Refused last search requireOne) ∧
        (specs.map Spec.text).foldlM (addTransaction last search requireOne) acc =
          .ok ⟨acc.tids ∪ unionOf (Spec.denotes last search) specs, acc.merged ∪ unionOf (Spec.interval last) specs⟩ := by
  induction specs generalizing acc with
  | nil =>
      refine .inr ⟨?_, ?_⟩
      · rintro ⟨spec, hspec, -⟩
        cases hspec
      show Except.ok acc = .ok ⟨acc.tids ∪ ∅, acc.merged ∪ ∅⟩
      rw [Finset.union_empty, Finset.union_empty]
  | cons spec specs ih =>
      rw [List.map_cons, List.foldlM_cons, List.exists_mem_cons_iff]
      rcases addTransaction_text last search requireOne spec acc with ⟨hrefused, hadd⟩ | ⟨haccepted, hadd⟩
      · rw [hadd]
        exact .inl ⟨.inl hrefused, rfl⟩
      · rw [hadd, Fallible.ok_bind, or_iff_right haccepted]
        refine (ih _).imp_right fun ⟨hnone, hall⟩ => ⟨hnone, ?_⟩
        rw [hall, Finset.union_assoc, Finset.union_assoc]
        rfl

theorem foldlM_texts_empty (specs : List Spec) :
    ((∃ spec ∈ specs, spec.Refused last search requireOne) ∧
        (specs.map Spec.text).foldlM (addTransaction last search requireOne) ⟨∅, ∅⟩ = .error .cliError) ∨
      (¬∃ spec ∈ specs, spec.Refused last search requireOne) ∧
        (specs.map Spec.text).foldlM (addTransaction last search requireOne) ⟨∅, ∅⟩ =
          .ok ⟨unionOf (Spec.denotes last search) specs, unionOf (Spec.interval last) specs⟩ := by
  have hrun := foldlM_texts last search requireOne specs ⟨∅, ∅⟩
  simp only [Finset.empty_union] at hrun
  exact hrun

/-- The same arguments in another order, or with the ends of a range exchanged. -/
inductive Rearranged : List Spec → List Spec → Prop
  | perm {specs specs' : List Spec} : specs.Perm specs' → Rearranged specs specs'
  | reverse (front back : List Spec) (a b : Point) : Rearranged (front ++ .range a b :: back) (front ++ .range b a :: back)
  | chain {specs specs' specs'' : List Spec} : Rearranged specs specs' → Rearranged specs' specs'' → Rearranged specs specs''

variable {last search requireOne}

/-- What is said of an argument whichever end of a range comes first is said of the rearranged arguments, too. -/
theorem Rearranged.exists_iff {P : Spec → Prop} (hP : ∀ a b, P (.range a b) ↔ P (.range b a)) {specs specs' : List Spec} (h : Rearranged specs specs') :
    (∃ spec ∈ specs, P spec) ↔ ∃ spec ∈ specs', P spec := by
  induction h with
  | perm hperm => exact exists_congr fun spec => and_congr_left fun _ => hperm.mem_iff
  | reverse front back a b => simp only [List.mem_append, List.mem_cons, or_and_right, exists_or, exists_eq_left, hP a b]
  | chain _ _ ih ih' => exact ih.trans ih'

theorem Rearranged.refused_iff {specs specs' : List Spec} (h : Rearranged specs specs') :
    (∃ spec ∈ specs, spec.Refused last search requireOne) ↔ ∃ spec ∈ specs', spec.Refused last search requireOne :=
  h.exists_iff fun _ _ => and_congr_right fun _ => ne_comm

theorem Rearranged.denotes_eq {specs specs' : List Spec} (h : Rearranged specs specs') :
    unionOf (Spec.denotes last search) specs = unionOf (Spec.denotes last search) specs' := by
  ext id
  rw [mem_unionOf, mem_unionOf]
  refine h.exists_iff fun a b => ?_
  rw [Spec.denotes, Spec.denotes, min_comm, max_comm]

theorem Rearranged.interval_eq {specs specs' : List Spec} (h : Rearranged specs specs') :
    unionOf (Spec.interval last) specs = unionOf (Spec.interval last) specs' := by
  ext i
  rw [mem_unionOf, mem_unionOf]
  refine h.exists_iff fun a b => ?_
  rw [Spec.interval, Spec.interval, min_comm, max_comm]

theorem args2transactionIds_rearranged {specs specs' : List Spec} (h : Rearranged specs specs') :
    args2transactionIds last search requireOne (specs'.map Spec.text) = args2transactionIds last search requireOne (specs.map Spec.text) := by
  rw [args2transactionIds, args2transactionIds]
  rcases foldlM_texts_empty last search requireOne specs with ⟨hrefused, hrun⟩ | ⟨haccepted, hrun⟩
  · rcases foldlM_texts_empty last search requireOne specs' with ⟨-, hrun'⟩ | ⟨haccepted', -⟩
    · rw [hrun, hrun']
    · exact absurd (h.refused_iff.mp hrefused) haccepted'
  · rcases foldlM_texts_empty last search requireOne specs' with ⟨hrefused', -⟩ | ⟨-, hrun'⟩
    · exact absurd (h.refused_iff.mpr hrefused') haccepted
    · rw [hrun, hrun', h.denotes_eq, h.interval_eq]

theorem interval_le {spec : Spec} {i : Int × Int} (h : i ∈ spec.interval last) : i.1 ≤ i.2 := by
  cases spec with
  | range a b =>
      rw [Finset.mem_singleton.mp h]
      exact min_le_max
  | point p => cases h
  | package name hdots hpoint => cases h
  | malformed t hdots hrange => cases h

end Reading

end Dnf.Cli.TransactionSpecs
