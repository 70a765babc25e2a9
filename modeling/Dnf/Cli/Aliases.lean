import Dnf.Foundation.Effect
import Dnf.Foundation.Fuel
import Mathlib.Data.Finset.SDiff
import Mathlib.Data.Finset.Card
import Mathlib.Logic.Relation

/-!
# Alias resolution

`_resolve` keeps a stack of the aliases it is expanding and a side list of the options it has passed. What it is meant to do is a rewriting of the command line: options at the front are set aside, an alias at the front is replaced by its value, and a mark behind the value tells where the expansion ends. The stack is then the list of the marks that are still ahead, and a result is empty exactly if the innermost expansion came to its mark. That an alias is expanded again only behind its own mark makes the recursion end.
-/

namespace Dnf.Cli

open Foundation Effect Relation

abbrev Word := String

/-- `arg and arg[0] != '-'` fails: an option, or an empty word. -/
def isOption (arg : Word) : Bool :=
  match arg.toList with
  | [] => true
  | c :: _ => c == '-'

/-- `arg.startswith('\\')` -/
def escaped (arg : Word) : Bool := arg.toList.head? == some '\\'

/-- `arg[1:]` -/
def unescape (arg : Word) : Word := String.ofList (arg.toList.drop 1)

/-- `dnf.exceptions.Error`, the `IndexError` of an empty list, and a recursion that was cut off. -/
inductive Raised
  | error (msg : String)
  | indexError
  | outOfFuel
  deriving DecidableEq

def infiniteRecursion : Raised := .error "Aliases contain infinite recursion"

structure Aliases where
  aliases : List (Word × List Word)
  enabled : Bool := true

/-- The variables of `_resolve`; the top of the stack comes first. -/
structure Resolving where
  stack : List Word := []
  prefixOptions : List Word := []
  deriving DecidableEq

def storePrefix (args : List Word) : EStateM Raised Resolving (List Word) := do
  modify fun s => { s with prefixOptions := s.prefixOptions ++ args.takeWhile isOption }
  pure (args.dropWhile isOption)

/-- `stack.pop()` -/
def popStack : EStateM Raised Resolving Unit := do
  let s ← get
  if s.stack = [] then throw .indexError else set { s with stack := s.stack.tail }

/-- The `\` of the first word is stripped. -/
def stripFirst : List Word → EStateM Raised Resolving (List Word)
  | [] => throw .indexError
  | word :: rest => pure (if escaped word then unescape word :: rest else word :: rest)

/-- The end of an alias or of the resolving. -/
def endSuffix (suffix : List Word) : EStateM Raised Resolving (List Word) :=
  tryCatch (do popStack; stripFirst suffix) fun
    | .indexError => pure suffix
    | e => throw e

def Aliases.subresolve (self : Aliases) : Nat → List Word → EStateM Raised Resolving (List Word)
  | 0, _ => throw .outOfFuel
  | fuel + 1, args => do
      let suffix ← storePrefix args
      match suffix with
      | [] => endSuffix []
      | word :: rest =>
          match self.aliases.lookup word with
          | none => endSuffix (word :: rest)
          | some value =>
              if escaped word then endSuffix (word :: rest)
              else do
                let s ← get
                if word ∈ s.stack then throw infiniteRecursion
                set { s with stack := word :: s.stack }
                let currentAliasResult ← self.subresolve fuel value
                if currentAliasResult = [] then self.subresolve fuel rest else pure (currentAliasResult ++ rest)

def Aliases._resolve (self : Aliases) (fuel : Nat) (args : List Word) : Except Raised (List Word) :=
  match self.subresolve fuel args {} with
  | .ok suffix s => .ok (s.prefixOptions ++ suffix)
  | .error e _ => .error e

/-- The arguments, and what was logged as an error. -/
def Aliases.resolve (self : Aliases) (fuel : Nat) (args : List Word) : Except Raised (List Word × Option String) :=
  if self.enabled then
    match self._resolve fuel args with
    | .ok args' => .ok (args', none)
    | .error (.error msg) => .ok (args, some (msg ++ ", using original arguments."))
    | .error e => .error e
  else .ok (args, none)

/-! ### Rewriting -/

/-- A word of the command line, or the mark behind the value of an alias. -/
inductive Token
  | word (w : Word)
  | endOf (name : Word)
  deriving DecidableEq

/-- The options set aside so far, and what is still to be rewritten. -/
structure Line where
  options : List Word
  rest : List Token

def words : List Token → List Word
  | [] => []
  | .word w :: rest => w :: words rest
  | .endOf _ :: rest => words rest

/-- The aliases whose expansion is in progress, the innermost first. -/
def inProgress : List Token → List Word
  | [] => []
  | .word _ :: rest => inProgress rest
  | .endOf name :: rest => name :: inProgress rest

/-- One rewriting of the line. -/
inductive Rewrite (self : Aliases) : Line → Line → Prop
  | option {options w rest} (hoption : isOption w = true) : Rewrite self ⟨options, .word w :: rest⟩ ⟨options ++ [w], rest⟩
  | mark {options name rest} : Rewrite self ⟨options, .endOf name :: rest⟩ ⟨options, rest⟩
  | expand {options w value rest} (hword : isOption w = false) (halias : self.aliases.lookup w = some value) (hescaped : escaped w = false)
      (hfresh : w ∉ inProgress rest) : Rewrite self ⟨options, .word w :: rest⟩ ⟨options, value.map .word ++ .endOf w :: rest⟩

inductive Outcome
  | loops
  | ends (args : List Word)
  deriving DecidableEq

/-- Rewriting stops: nothing is left, the first word is no alias or escaped, or it leads back to an alias in progress. -/
inductive Stops (self : Aliases) : Line → Outcome → Prop
  | empty {options} : Stops self ⟨options, []⟩ (.ends options)
  | word {options w rest} (hword : isOption w = false) (hstop : self.aliases.lookup w = none ∨ escaped w = true) :
      Stops self ⟨options, .word w :: rest⟩
        (.ends (options ++ (if escaped w = true ∧ inProgress rest ≠ [] then unescape w else w) :: words rest))
  | loop {options w value rest} (hword : isOption w = false) (halias : self.aliases.lookup w = some value) (hescaped : escaped w = false)
      (hagain : w ∈ inProgress rest) : Stops self ⟨options, .word w :: rest⟩ .loops

/-- Rewriting the arguments comes to this end. -/
def Aliases.Rewrites (self : Aliases) (args : List Word) (outcome : Outcome) : Prop :=
  ∃ line, ReflTransGen (Rewrite self) ⟨[], args.map .word⟩ line ∧ Stops self line outcome

/-! ### Marks and words -/

@[simp] theorem words_word (w : Word) (l : List Token) : words (.word w :: l) = w :: words l := rfl

@[simp] theorem words_endOf (name : Word) (l : List Token) : words (.endOf name :: l) = words l := rfl

@[simp] theorem inProgress_word (w : Word) (l : List Token) : inProgress (.word w :: l) = inProgress l := rfl

@[simp] theorem inProgress_endOf (name : Word) (l : List Token) : inProgress (.endOf name :: l) = name :: inProgress l := rfl

@[simp] theorem words_append (l m : List Token) : words (l ++ m) = words l ++ words m := by
  induction l with
  | nil => rfl
  | cons t l ih => cases t <;> simp [ih]

@[simp] theorem inProgress_append (l m : List Token) : inProgress (l ++ m) = inProgress l ++ inProgress m := by
  induction l with
  | nil => rfl
  | cons t l ih => cases t <;> simp [ih]

@[simp] theorem words_map_word (l : List Word) : words (l.map .word) = l := by
  induction l with
  | nil => rfl
  | cons w l ih => rw [List.map_cons, words_word, ih]

@[simp] theorem inProgress_map_word (l : List Word) : inProgress (l.map .word) = [] := by
  induction l with
  | nil => rfl
  | cons w l ih => rw [List.map_cons, inProgress_word, ih]

theorem inProgress_words_append (l : List Word) (ahead : List Token) : inProgress (l.map .word ++ ahead) = inProgress ahead := by
  rw [inProgress_append, inProgress_map_word, List.nil_append]

/-! ### Rewriting is deterministic -/

variable {self : Aliases}

theorem rewrite_rightUnique : Relator.RightUnique (Rewrite self) := by
  intro a b c hab hac
  cases hab with
  | option hoption =>
      cases hac with
      | option => rfl
      | expand hword => exact absurd hoption (by simp [hword])
  | mark =>
      cases hac
      rfl
  | expand hword halias =>
      cases hac with
      | option hoption => exact absurd hoption (by simp [hword])
      | expand _ halias' =>
          rw [halias, Option.some.injEq] at halias'
          rw [halias']

theorem not_rewrite_of_stops {a b : Line} {outcome : Outcome} (hstops : Stops self a outcome) : ¬Rewrite self a b := by
  intro hrewrite
  cases hstops with
  | empty => cases hrewrite
  | word hword hstop =>
      cases hrewrite with
      | option hoption => exact absurd hoption (by simp [hword])
      | expand _ halias hescaped => exact absurd hstop (by simp [halias, hescaped])
  | loop hword _ _ hagain =>
      cases hrewrite with
      | option hoption => exact absurd hoption (by simp [hword])
      | expand _ _ _ hfresh => exact hfresh hagain

theorem stops_unique {a : Line} {outcome outcome' : Outcome} (h : Stops self a outcome) (h' : Stops self a outcome') : outcome = outcome' := by
  cases h with
  | empty =>
      cases h'
      rfl
  | word hword hstop =>
      cases h' with
      | word => rfl
      | loop _ halias hescaped => exact absurd hstop (by simp [halias, hescaped])
  | loop _ halias hescaped =>
      cases h' with
      | word _ hstop => exact absurd hstop (by simp [halias, hescaped])
      | loop => rfl

theorem eq_of_stops {a b : Line} {outcome : Outcome} (hstops : Stops self a outcome) (hrun : ReflTransGen (Rewrite self) a b) : b = a := by
  rcases hrun.cases_head with heq | ⟨_, hstep, _⟩
  · exact heq.symm
  · exact absurd hstep (not_rewrite_of_stops hstops)

theorem rewrites_unique {args : List Word} {outcome outcome' : Outcome} (h : self.Rewrites args outcome) (h' : self.Rewrites args outcome') :
    outcome = outcome' := by
  obtain ⟨a, hrun, hstops⟩ := h
  obtain ⟨b, hrun', hstops'⟩ := h'
  have hsame : a = b := by
    rcases hrun.total_of_right_unique rewrite_rightUnique hrun' with hab | hba
    · exact (eq_of_stops hstops hab).symm
    · exact eq_of_stops hstops' hba
  subst hsame
  exact stops_unique hstops hstops'

/-! ### One call -/

theorem endSuffix_nil (s : Resolving) : endSuffix [] s = .ok [] { s with stack := s.stack.tail } := by
  obtain ⟨stack, options⟩ := s
  cases stack <;> rfl

theorem endSuffix_cons (word : Word) (rest : List Word) (s : Resolving) :
    endSuffix (word :: rest) s =
      .ok ((if escaped word = true ∧ s.stack ≠ [] then unescape word else word) :: rest) { s with stack := s.stack.tail } := by
  obtain ⟨stack, options⟩ := s
  cases stack with
  | nil =>
      rw [if_neg (by simp)]
      rfl
  | cons name stack =>
      show EStateM.Result.ok (if escaped word then unescape word :: rest else word :: rest) _ = _
      cases hescaped : escaped word
      · rw [if_neg (by simp), if_neg (by simp)]
      · rw [if_pos rfl, if_pos ⟨rfl, List.cons_ne_nil _ _⟩]

/-- What a call sees when the options at the front are set aside. -/
def Resolving.stored (s : Resolving) (args : List Word) : Resolving :=
  { s with prefixOptions := s.prefixOptions ++ args.takeWhile isOption }

theorem subresolve_succ (self : Aliases) (fuel : Nat) (args : List Word) (s : Resolving) :
    self.subresolve (fuel + 1) args s =
      (match args.dropWhile isOption with
        | [] => endSuffix []
        | word :: rest =>
            match self.aliases.lookup word with
            | none => endSuffix (word :: rest)
            | some value =>
                if escaped word then endSuffix (word :: rest)
                else do
                  let s ← get
                  if word ∈ s.stack then throw infiniteRecursion
                  set { s with stack := word :: s.stack }
                  let currentAliasResult ← self.subresolve fuel value
                  if currentAliasResult = [] then self.subresolve fuel rest else pure (currentAliasResult ++ rest) :
        EStateM Raised Resolving (List Word)) (s.stored args) := rfl

theorem subresolve_nil {args : List Word} (hsuffix : args.dropWhile isOption = []) (fuel : Nat) (s : Resolving) :
    self.subresolve (fuel + 1) args s = .ok [] ⟨s.stack.tail, (s.stored args).prefixOptions⟩ := by
  rw [subresolve_succ, hsuffix]
  exact endSuffix_nil _

theorem subresolve_word {args rest : List Word} {word : Word} (hsuffix : args.dropWhile isOption = word :: rest)
    (hstop : self.aliases.lookup word = none ∨ escaped word = true) (fuel : Nat) (s : Resolving) :
    self.subresolve (fuel + 1) args s =
      .ok ((if escaped word = true ∧ s.stack ≠ [] then unescape word else word) :: rest) ⟨s.stack.tail, (s.stored args).prefixOptions⟩ := by
  rw [subresolve_succ, hsuffix]
  dsimp only
  cases halias : self.aliases.lookup word with
  | none => exact endSuffix_cons word rest _
  | some value =>
      have hescaped := hstop.resolve_left (by simp [halias])
      simp only [if_pos hescaped]
      exact endSuffix_cons word rest _

theorem subresolve_loop {args rest value : List Word} {word : Word} (hsuffix : args.dropWhile isOption = word :: rest)
    (halias : self.aliases.lookup word = some value) (hescaped : escaped word = false) (fuel : Nat) {s : Resolving} (hagain : word ∈ s.stack) :
    self.subresolve (fuel + 1) args s = .error infiniteRecursion (s.stored args) := by
  rw [subresolve_succ, hsuffix]
  simp only [halias, hescaped, Bool.false_eq_true, if_false, bind_apply, get_apply]
  rw [if_pos (show word ∈ (s.stored args).stack from hagain)]
  rfl

theorem subresolve_expand {args rest value : List Word} {word : Word} (hsuffix : args.dropWhile isOption = word :: rest)
    (halias : self.aliases.lookup word = some value) (hescaped : escaped word = false) (fuel : Nat) {s : Resolving} (hfresh : word ∉ s.stack) :
    self.subresolve (fuel + 1) args s =
      match self.subresolve fuel value { s.stored args with stack := word :: s.stack } with
      | .ok result t => if result = [] then self.subresolve fuel rest t else .ok (result ++ rest) t
      | .error e t => .error e t := by
  rw [subresolve_succ, hsuffix]
  simp only [halias, hescaped, Bool.false_eq_true, if_false, bind_apply, get_apply]
  rw [if_neg (show word ∉ (s.stored args).stack from hfresh)]
  rw [bind_apply, set_apply]
  dsimp only
  rw [bind_apply, Resolving.stored]
  dsimp only
  cases self.subresolve fuel value ⟨word :: s.stack, s.prefixOptions ++ args.takeWhile isOption⟩ with
  | error e t => rfl
  | ok result t =>
      dsimp only
      split_ifs
      · rfl
      · rfl

theorem rewrites_options (options args : List Word) (ahead : List Token) :
    ReflTransGen (Rewrite self) ⟨options, args.map .word ++ ahead⟩
      ⟨options ++ args.takeWhile isOption, (args.dropWhile isOption).map .word ++ ahead⟩ := by
  induction args generalizing options with
  | nil =>
      rw [List.takeWhile_nil, List.append_nil]
      exact .refl
  | cons w args ih =>
      cases hoption : isOption w
      · rw [List.takeWhile_cons_of_neg (by simp [hoption]), List.dropWhile_cons_of_neg (by simp [hoption]), List.append_nil]
      · rw [List.takeWhile_cons_of_pos hoption, List.dropWhile_cons_of_pos hoption, List.append_cons]
        exact .head (.option hoption) (ih _)

/-! ### The recursion follows the rewriting -/

/-- With enough fuel a call ends: it has rewritten its words away and taken the innermost alias from the stack, or rewriting stops in them, or it loops. `ahead` is what follows the words in the line. -/
inductive Resolves (self : Aliases) (s : Resolving) (args : List Word) (ahead : List Token) : Prop
  | emptied {options : List Word} (hrun : Enough fun fuel => self.subresolve fuel args s = .ok [] ⟨s.stack.tail, options⟩)
      (hrewrites : ReflTransGen (Rewrite self) ⟨s.prefixOptions, args.map .word ++ ahead⟩ ⟨options, ahead⟩)
  | stopped {suffix : List Word} {t : Resolving} {line : Line} (hne : suffix ≠ [])
      (hrun : Enough fun fuel => self.subresolve fuel args s = .ok suffix t)
      (hrewrites : ReflTransGen (Rewrite self) ⟨s.prefixOptions, args.map .word ++ ahead⟩ line)
      (hstops : Stops self line (.ends (t.prefixOptions ++ (suffix ++ words ahead))))
  | looped {t : Resolving} {line : Line}
      (hrun : Enough fun fuel => self.subresolve fuel args s = .error infiniteRecursion t)
      (hrewrites : ReflTransGen (Rewrite self) ⟨s.prefixOptions, args.map .word ++ ahead⟩ line) (hstops : Stops self line .loops)

/-- The aliases that are not being expanded. -/
def Aliases.idle (self : Aliases) (stack : List Word) : Finset Word := (self.aliases.map Prod.fst).toFinset \ stack.toFinset

theorem card_idle_cons_lt {word : Word} {value : List Word} {stack : List Word} (halias : self.aliases.lookup word = some value)
    (hfresh : word ∉ stack) : (self.idle (word :: stack)).card < (self.idle stack).card := by
  have hmem : word ∈ self.aliases.map Prod.fst := by
    by_contra hnot
    have hnone : self.aliases.lookup word = none :=
      List.lookup_eq_none_iff.mpr fun entry hentry => bne_iff_ne.mpr fun heq => hnot (List.mem_map.mpr ⟨entry, hentry, heq.symm⟩)
    rw [halias] at hnone
    cases hnone
  refine Finset.card_lt_card (Finset.ssubset_iff_of_subset (Finset.sdiff_subset_sdiff (Finset.Subset.refl _) ?_) |>.mpr ?_)
  · exact fun name hname => List.mem_toFinset.mpr (List.mem_cons_of_mem _ (List.mem_toFinset.mp hname))
  · exact ⟨word, by simpa [hfresh] using hmem, by simp⟩

theorem Resolves.of_options {s : Resolving} {args : List Word} {ahead : List Token} (hsuffix : args.dropWhile isOption = []) :
    Resolves self s args ahead := by
  have hrewrites := @rewrites_options self s.prefixOptions args ahead
  rw [hsuffix] at hrewrites
  exact .emptied (Enough.of_succ <| .of_forall fun fuel => subresolve_nil hsuffix fuel s) hrewrites

theorem Resolves.of_word {s : Resolving} {args rest : List Word} {word : Word} {ahead : List Token}
    (hsuffix : args.dropWhile isOption = word :: rest) (hword : isOption word = false)
    (hstop : self.aliases.lookup word = none ∨ escaped word = true) (hahead : inProgress ahead = s.stack) : Resolves self s args ahead := by
  have hrewrites := @rewrites_options self s.prefixOptions args ahead
  rw [hsuffix] at hrewrites
  refine .stopped (List.cons_ne_nil _ _) (Enough.of_succ <| .of_forall fun fuel => subresolve_word hsuffix hstop fuel s) hrewrites ?_
  have hstops := @Stops.word self (s.prefixOptions ++ args.takeWhile isOption) word (rest.map .word ++ ahead) hword hstop
  rw [inProgress_append, inProgress_map_word, List.nil_append, hahead, words_append, words_map_word] at hstops
  exact hstops

theorem Resolves.of_loop {s : Resolving} {args rest value : List Word} {word : Word} {ahead : List Token}
    (hsuffix : args.dropWhile isOption = word :: rest) (hword : isOption word = false) (halias : self.aliases.lookup word = some value)
    (hescaped : escaped word = false) (hagain : word ∈ s.stack) (hahead : inProgress ahead = s.stack) : Resolves self s args ahead := by
  have hrewrites := @rewrites_options self s.prefixOptions args ahead
  rw [hsuffix] at hrewrites
  refine .looped (Enough.of_succ <| .of_forall fun fuel => subresolve_loop hsuffix halias hescaped fuel hagain) hrewrites ?_
  have hagain : word ∈ inProgress (rest.map .word ++ ahead) := by rwa [inProgress_words_append, hahead]
  exact .loop hword halias hescaped hagain

/-- A call that goes on with the words behind. -/
theorem Resolves.of_call {s s' : Resolving} {args rest : List Word} {ahead : List Token}
    (hcall : Enough fun fuel => self.subresolve (fuel + 1) args s = self.subresolve fuel rest s') (hstack : s'.stack = s.stack)
    (hto : ReflTransGen (Rewrite self) ⟨s.prefixOptions, args.map .word ++ ahead⟩ ⟨s'.prefixOptions, rest.map .word ++ ahead⟩)
    (hrest : Resolves self s' rest ahead) : Resolves self s args ahead := by
  cases hrest with
  | emptied hrun hrewrites =>
      rw [hstack] at hrun
      exact .emptied ((hcall.and hrun).mono fun _ h => h.1.trans h.2).of_succ (hto.trans hrewrites)
  | stopped hne hrun hrewrites hstops =>
      exact .stopped hne ((hcall.and hrun).mono fun _ h => h.1.trans h.2).of_succ (hto.trans hrewrites) hstops
  | looped hrun hrewrites hstops =>
      exact .looped ((hcall.and hrun).mono fun _ h => h.1.trans h.2).of_succ (hto.trans hrewrites) hstops

/-- An alias is expanded: the call for its value comes first, and what that leaves over decides how the words behind it are treated. -/
theorem Resolves.of_expand {s : Resolving} {args rest value : List Word} {word : Word} {ahead : List Token}
    (hsuffix : args.dropWhile isOption = word :: rest) (hword : isOption word = false) (halias : self.aliases.lookup word = some value)
    (hescaped : escaped word = false) (hfresh : word ∉ s.stack) (hahead : inProgress ahead = s.stack)
    (hvalue : Resolves self { s.stored args with stack := word :: s.stack } value (.endOf word :: (rest.map .word ++ ahead)))
    (hrest : ∀ options, Resolves self ⟨s.stack, options⟩ rest ahead) : Resolves self s args ahead := by
  have hrewrites := @rewrites_options self s.prefixOptions args ahead
  rw [hsuffix] at hrewrites
  have hexpand : Rewrite self ⟨(s.stored args).prefixOptions, (word :: rest).map .word ++ ahead⟩
      ⟨(s.stored args).prefixOptions, value.map .word ++ .endOf word :: (rest.map .word ++ ahead)⟩ := by
    have hfresh : word ∉ inProgress (rest.map .word ++ ahead) := by rwa [inProgress_words_append, hahead]
    exact .expand hword halias hescaped hfresh
  have hto := hrewrites.tail hexpand
  have hcall := fun fuel => subresolve_expand hsuffix halias hescaped fuel hfresh
  cases hvalue with
  | @emptied options hrun hvalueRewrites =>
      -- the mark of the expansion is reached, and the words behind it are resolved in its place
      have hmark := (hto.trans hvalueRewrites).tail .mark
      have hgoesOn : Enough fun fuel => self.subresolve (fuel + 1) args s = self.subresolve fuel rest ⟨s.stack, options⟩ := by
        refine hrun.mono fun fuel hrun => ?_
        rw [hcall, hrun]
        exact if_pos rfl
      exact .of_call hgoesOn rfl hmark (hrest options)
  | @stopped suffix t line hne hrun hvalueRewrites hstops =>
      have hends : Enough fun fuel => self.subresolve (fuel + 1) args s = .ok (suffix ++ rest) t := by
        refine hrun.mono fun fuel hrun => ?_
        rw [hcall, hrun]
        exact if_neg hne
      refine .stopped (List.append_ne_nil_of_left_ne_nil hne rest) hends.of_succ (hto.trans hvalueRewrites) ?_
      rw [List.append_assoc]
      simpa only [words_endOf, words_append, words_map_word] using hstops
  | @looped t line hrun hvalueRewrites hstops =>
      have hraises : Enough fun fuel => self.subresolve (fuel + 1) args s = .error infiniteRecursion t := by
        refine hrun.mono fun fuel hrun => ?_
        rw [hcall, hrun]
      exact .looped hraises.of_succ (hto.trans hvalueRewrites) hstops

/-- The stack holds the aliases in progress. An expansion takes an alias from those that are idle, and the words behind it are fewer. -/
theorem resolves (self : Aliases) (s : Resolving) (args : List Word) (ahead : List Token) (hahead : inProgress ahead = s.stack) :
    Resolves self s args ahead := by
  cases hsuffix : args.dropWhile isOption with
  | nil => exact .of_options hsuffix
  | cons word rest =>
      have hword : isOption word = false := by
        have hhead := List.head?_dropWhile_not isOption args
        rw [hsuffix] at hhead
        exact hhead
      have hshorter : rest.length < args.length := by
        have hlength := (List.dropWhile_sublist isOption (l := args)).length_le
        rw [hsuffix, List.length_cons] at hlength
        exact hlength
      cases halias : self.aliases.lookup word with
      | none => exact .of_word hsuffix hword (Or.inl halias) hahead
      | some value =>
          cases hescaped : escaped word with
          | true => exact .of_word hsuffix hword (Or.inr hescaped) hahead
          | false =>
              by_cases hstack : word ∈ s.stack
              · exact .of_loop hsuffix hword halias hescaped hstack hahead
              · have hidle := card_idle_cons_lt halias hstack
                refine .of_expand hsuffix hword halias hescaped hstack hahead ?_ fun options => ?_
                · exact resolves self _ value _ (by rw [inProgress_endOf, inProgress_words_append, hahead])
                · exact resolves self _ rest _ hahead
termination_by ((self.idle s.stack).card, args.length)
decreasing_by
  · exact Prod.Lex.left _ _ hidle
  · exact Prod.Lex.right _ hshorter

/-- What `_resolve` gives for an outcome of the rewriting. -/
def Outcome.result : Outcome → Except Raised (List Word)
  | .loops => .error infiniteRecursion
  | .ends args => .ok args

theorem Outcome.result_injective {outcome outcome' : Outcome} (h : outcome.result = outcome'.result) : outcome = outcome' := by
  cases outcome <;> cases outcome' <;> simp_all [Outcome.result]

theorem exists_rewrites (self : Aliases) (args : List Word) :
    ∃ outcome, self.Rewrites args outcome ∧ Enough fun fuel => self._resolve fuel args = outcome.result := by
  cases resolves self {} args [] rfl with
  | emptied hrun hrewrites =>
      refine ⟨.ends _, ⟨_, by simpa using hrewrites, .empty⟩, hrun.mono fun fuel hrun => ?_⟩
      rw [Aliases._resolve, hrun]
      exact congrArg _ (List.append_nil _)
  | stopped _ hrun hrewrites hstops =>
      rw [show words [] = [] from rfl, List.append_nil] at hstops
      refine ⟨.ends _, ⟨_, by simpa using hrewrites, hstops⟩, hrun.mono fun fuel hrun => ?_⟩
      rw [Aliases._resolve, hrun]
      rfl
  | looped hrun hrewrites hstops =>
      refine ⟨.loops, ⟨_, by simpa using hrewrites, hstops⟩, hrun.mono fun fuel hrun => ?_⟩
      rw [Aliases._resolve, hrun]
      rfl

/-- With enough fuel `_resolve` ends, and it raises or returns what the rewriting of the arguments comes to; `resolve` falls back on the arguments. -/
theorem resolve_rewrites (self : Aliases) (args : List Word) : Enough fun fuel =>
    (∃ outcome : Outcome, self._resolve fuel args = outcome.result) ∧ (self._resolve fuel args = .error infiniteRecursion ↔ self.Rewrites args .loops) ∧
      (∀ result, self._resolve fuel args = .ok result ↔ self.Rewrites args (.ends result)) ∧
      (self._resolve fuel args = .error infiniteRecursion → ∃ log, self.resolve fuel args = .ok (args, log)) := by
  obtain ⟨outcome, hrewrites, hrun⟩ := exists_rewrites self args
  have hiff : ∀ outcome' : Outcome, outcome.result = outcome'.result ↔ self.Rewrites args outcome' := by
    refine fun outcome' => ⟨fun heq => ?_, fun hrewrites' => congrArg _ (rewrites_unique hrewrites hrewrites')⟩
    rwa [← Outcome.result_injective heq]
  refine hrun.mono fun fuel hrun => ?_
  refine ⟨⟨outcome, hrun⟩, ?_, fun result => ?_, fun hraises => ?_⟩
  · rw [hrun]
    exact hiff .loops
  · rw [hrun]
    exact hiff (.ends result)
  · rw [Aliases.resolve, hraises]
    split_ifs
    · exact ⟨_, rfl⟩
    · exact ⟨none, rfl⟩

/-- The options of both aliases, in the order met, and the rest behind the word that the last one left. -/
example : ((Aliases.mk [("FORCE", ["--skip-broken", "inst"]), ("inst", ["-y", "\\install"])] true).resolve 9 ["-q", "FORCE", "mc"]).toOption =
    some (["-q", "--skip-broken", "-y", "install", "mc"], none) := by decide +kernel

end Dnf.Cli
