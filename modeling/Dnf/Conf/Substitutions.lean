import Dnf.Foundation.Writes

/-!
# `Substitutions`

Variables are loaded from the environment and from the files of the vars directories, in the order the operating system lists them. Setting `releasever` also sets the two variables derived from it, so the entries of one source are independent of their order exactly if none of them writes a key that another one writes differently.
-/

namespace Dnf.Conf

open Foundation

/-- The variables, as the dictionary they are kept in. -/
abbrev Substitutions := AList (fun _ : String => String)

structure ReadOnlyVariableError where
  variableName : String
  deriving DecidableEq

def readOnlyVariables : List String := []

def isReadOnly (key : String) : Bool := readOnlyVariables.contains key

/-- The two variables derived from `releasever`. -/
inductive Part
  | major
  | minor
  deriving DecidableEq

def Part.key : Part → String
  | .major => "releasever_major"
  | .minor => "releasever_minor"

def Part.of {α : Type} : Part → α × α → α
  | .major => Prod.fst
  | .minor => Prod.snd

section Loading

-- libdnf's `ConfigParser.splitReleasever`
variable (splitReleasever : String → String × String)

def setItem (subst : Substitutions) (key value : String) : Except ReadOnlyVariableError Substitutions :=
  if isReadOnly key then .error ⟨key⟩
  else
    let subst := subst.insert key value
    if key = "releasever" ∧ value ≠ "" then
      .ok ((subst.insert "releasever_major" (splitReleasever value).1).insert "releasever_minor" (splitReleasever value).2)
    else .ok subst

/-- `ENVIRONMENT_VARS_RE`: the dollar sign also matches before a newline at the end. -/
def isEnvironmentVar (key : String) : Bool :=
  let isVariable (name : List Char) : Bool := !name.isEmpty && name.all fun c => c.isAlphanum || c == '_'
  let name := key.toList.drop 8
  key.toList.take 8 == "DNF_VAR_".toList && (isVariable name || (name.getLast? == some '\n' && isVariable name.dropLast))

def numericvars : List String := (List.range 10).map fun num => "DNF" ++ toString num

def updateFromEnv (environ : List (String × String)) (subst : Substitutions) : Except ReadOnlyVariableError Substitutions :=
  environ.foldlM (fun subst entry =>
    if isEnvironmentVar entry.1 then setItem splitReleasever subst (String.ofList (entry.1.toList.drop 8)) entry.2
    else if entry.1 ∈ numericvars then setItem splitReleasever subst entry.1 entry.2
    else pure subst) subst

/-- What a name in a vars directory stands for; the text of a file is read with its newlines translated. -/
inductive VarFile
  | notAFile
  | unreadable
  | text (content : String)

/-- The first line, without its newline. -/
def VarFile.val : VarFile → Option String
  | .text content => some (String.ofList (content.toList.takeWhile (· ≠ '\n')))
  | _ => none

def updateFromDir (fsvars : List (String × VarFile)) (subst : Substitutions) : Except ReadOnlyVariableError Substitutions :=
  fsvars.foldlM (fun subst entry =>
    match entry.2.val with
    | some val => setItem splitReleasever subst entry.1 val
    | none => pure subst) subst

/-- `update_from_etc`; a directory that cannot be listed is skipped. -/
def updateFromEtc (varsdir : List (Option (List (String × VarFile)))) (subst : Substitutions) : Except ReadOnlyVariableError Substitutions :=
  varsdir.foldlM (fun subst fsvars =>
    match fsvars with
    | some fsvars => updateFromDir splitReleasever fsvars subst
    | none => pure subst) subst

/-! ### The writes of an entry -/

/-- Setting a variable writes its key, and setting `releasever` the keys of its parts. -/
def writes (entry : String × String) : List (String × String) :=
  if entry.1 = "releasever" ∧ entry.2 ≠ "" then
    [entry, (Part.key .major, (splitReleasever entry.2).1), (Part.key .minor, (splitReleasever entry.2).2)]
  else [entry]

theorem setItem_eq (subst : Substitutions) (key value : String) :
    setItem splitReleasever subst key value = .ok (Log.store subst (writes splitReleasever (key, value))) := by
  have hwritable : isReadOnly key = false := rfl
  rw [setItem, hwritable, if_neg Bool.false_ne_true, writes]
  split_ifs <;> rfl

def envVariable (entry : String × String) : Option (String × String) :=
  if isEnvironmentVar entry.1 then some (String.ofList (entry.1.toList.drop 8), entry.2)
  else if entry.1 ∈ numericvars then some entry
  else none

def fileVariable (entry : String × VarFile) : Option (String × String) := entry.2.val.map fun val => (entry.1, val)

/-- A loop that sets the variable of each entry stores the writes of the variables. -/
theorem foldlM_setItem {ω : Type} (variableOf : ω → Option (String × String)) {step : Substitutions → ω → Except ReadOnlyVariableError Substitutions}
    (hstep : ∀ subst entry, step subst entry = match variableOf entry with
      | some assignment => setItem splitReleasever subst assignment.1 assignment.2
      | none => pure subst) (entries : List ω) (subst : Substitutions) :
    entries.foldlM step subst = .ok (Log.store subst (entries.flatMap fun entry => (variableOf entry).toList.flatMap (writes splitReleasever))) := by
  induction entries generalizing subst with
  | nil => rfl
  | cons entry rest ih =>
      have hfirst : step subst entry = .ok (Log.store subst ((variableOf entry).toList.flatMap (writes splitReleasever))) := by
        rw [hstep]
        cases variableOf entry with
        | none => rfl
        | some assignment => simp only [setItem_eq, Option.toList_some, List.flatMap_singleton]
      rw [List.foldlM_cons, hfirst, List.flatMap_cons, Log.store_append]
      exact ih _

theorem updateFromEnv_eq (environ : List (String × String)) (subst : Substitutions) :
    updateFromEnv splitReleasever environ subst =
      .ok (Log.store subst (environ.flatMap fun entry => (envVariable entry).toList.flatMap (writes splitReleasever))) := by
  apply foldlM_setItem
  intro subst entry
  rw [envVariable]
  split_ifs <;> rfl

theorem updateFromDir_eq (fsvars : List (String × VarFile)) (subst : Substitutions) :
    updateFromDir splitReleasever fsvars subst =
      .ok (Log.store subst (fsvars.flatMap fun entry => (fileVariable entry).toList.flatMap (writes splitReleasever))) := by
  apply foldlM_setItem
  intro subst entry
  rw [fileVariable]
  cases entry.2.val <;> rfl

/-! ### The order of the entries -/

/-- Every order of the entries gives the same mapping. -/
def OrderFree {ω : Type} (load : List ω → Except ReadOnlyVariableError Substitutions) (entries : List ω) : Prop :=
  ∀ entries' : List ω, entries'.Perm entries →
    ∃ subst subst', load entries = .ok subst ∧ load entries' = .ok subst' ∧ ∀ key, subst'.lookup key = subst.lookup key

/-- No variable is set to two values, and a part of `releasever` that is set as well is the part derived from it. -/
structure Consistent {ω : Type} (variableOf : ω → Option (String × String)) (entries : List ω) : Prop where
  single : ∀ x ∈ entries, ∀ y ∈ entries, ∀ key value value', variableOf x = some (key, value) → variableOf y = some (key, value') → value = value'
  derived : ∀ x ∈ entries, ∀ y ∈ entries, ∀ (part : Part) releasever value, variableOf x = some ("releasever", releasever) → releasever ≠ "" →
    variableOf y = some (part.key, value) → value = part.of (splitReleasever releasever)

theorem mem_writes_iff {entry : String × String} {key value : String} :
    (key, value) ∈ writes splitReleasever entry ↔ entry = (key, value) ∨
      (entry.1 = "releasever" ∧ entry.2 ≠ "" ∧ ∃ part : Part, key = part.key ∧ value = part.of (splitReleasever entry.2)) := by
  have hparts : ∀ {p : Part → Prop}, (∃ part, p part) ↔ p .major ∨ p .minor := by
    intro p
    constructor
    · rintro ⟨part, h⟩
      cases part
      · exact .inl h
      · exact .inr h
    · rintro (h | h)
      · exact ⟨_, h⟩
      · exact ⟨_, h⟩
  rw [writes, hparts]
  split_ifs with hreleasever
  · simp [hreleasever, Part.of, eq_comm]
  · rw [List.mem_singleton, eq_comm, or_iff_left fun h => hreleasever ⟨h.1, h.2.1⟩]

theorem part_key_ne_releasever (part : Part) : part.key ≠ "releasever" := by
  cases part <;> decide

/-- One entry writes each key once. -/
theorem writes_single {entry : String × String} {key value value' : String} (h : (key, value) ∈ writes splitReleasever entry)
    (h' : (key, value') ∈ writes splitReleasever entry) : value = value' := by
  rw [mem_writes_iff] at h h'
  rcases h with rfl | ⟨hkey, _, part, rfl, rfl⟩
  · rcases h' with h' | ⟨hkey, _, part, hpart, _⟩
    · exact (Prod.mk.inj h').2
    · exact absurd (hpart.symm.trans hkey) (part_key_ne_releasever part)
  · rcases h' with rfl | ⟨_, _, part', hpart, rfl⟩
    · exact absurd hkey (part_key_ne_releasever part)
    · have hsame : part = part' := by
        cases part <;> cases part' <;> first | rfl | exact absurd hpart (by decide)
      rw [hsame]

theorem agree_iff_consistent {ω : Type} (variableOf : ω → Option (String × String)) (entries : List ω) :
    Log.Agree (fun entry => (variableOf entry).toList.flatMap (writes splitReleasever)) entries ↔ Consistent splitReleasever variableOf entries := by
  have hmem : ∀ x key value, (key, value) ∈ (variableOf x).toList.flatMap (writes splitReleasever) ↔
      ∃ entry, variableOf x = some entry ∧ (key, value) ∈ writes splitReleasever entry := by
    intro x key value
    simp only [List.mem_flatMap, Option.mem_toList]
  constructor
  · intro hagree
    constructor
    · intro x hx y hy key value value' hvalue hvalue'
      apply hagree x hx y hy key value value'
      · exact (hmem x key value).mpr ⟨_, hvalue, (mem_writes_iff _).mpr (.inl rfl)⟩
      · exact (hmem y key value').mpr ⟨_, hvalue', (mem_writes_iff _).mpr (.inl rfl)⟩
    · intro x hx y hy part releasever value hreleasever hne hvalue
      apply hagree y hy x hx part.key value
      · exact (hmem y part.key value).mpr ⟨_, hvalue, (mem_writes_iff _).mpr (.inl rfl)⟩
      · exact (hmem x part.key _).mpr ⟨_, hreleasever, (mem_writes_iff _).mpr (.inr ⟨rfl, hne, part, rfl, rfl⟩)⟩
  · intro hconsistent x hx y hy key value value' h h'
    obtain ⟨⟨name, text⟩, hx', hvalue⟩ := (hmem x key value).mp h
    obtain ⟨⟨name', text'⟩, hy', hvalue'⟩ := (hmem y key value').mp h'
    have hvalue'' := (mem_writes_iff _).mp hvalue'
    rcases (mem_writes_iff _).mp hvalue with heq | ⟨rfl, hne, part, rfl, rfl⟩
    · obtain ⟨rfl, rfl⟩ := Prod.mk.inj heq
      rcases hvalue'' with heq' | ⟨rfl, hne', part', rfl, rfl⟩
      · obtain ⟨rfl, rfl⟩ := Prod.mk.inj heq'
        exact hconsistent.single x hx y hy _ _ _ hx' hy'
      · exact hconsistent.derived y hy x hx part' _ _ hy' hne' hx'
    · rcases hvalue'' with heq' | ⟨rfl, hne', part', _, _⟩
      · obtain ⟨rfl, rfl⟩ := Prod.mk.inj heq'
        exact (hconsistent.derived x hx y hy part _ _ hx' hne hy').symm
      · obtain rfl := hconsistent.single x hx y hy _ _ _ hx' hy'
        exact writes_single splitReleasever hvalue hvalue'

/-- A loop that stores the writes of its entries does so in any order exactly if the entries are consistent. -/
theorem orderFree_iff {ω : Type} (variableOf : ω → Option (String × String)) (entries : List ω) (subst : Substitutions)
    {load : List ω → Except ReadOnlyVariableError Substitutions}
    (hload : ∀ entries, load entries = .ok (Log.store subst (entries.flatMap fun entry => (variableOf entry).toList.flatMap (writes splitReleasever)))) :
    OrderFree load entries ↔ Consistent splitReleasever variableOf entries := by
  have hone : ∀ x ∈ entries, ∀ key value value', (key, value) ∈ (variableOf x).toList.flatMap (writes splitReleasever) →
      (key, value') ∈ (variableOf x).toList.flatMap (writes splitReleasever) → value = value' := by
    intro x _ key value value' h h'
    cases hx : variableOf x with
    | none =>
        rw [hx] at h
        cases h
    | some entry =>
        rw [hx, Option.toList_some, List.flatMap_singleton] at h h'
        exact writes_single splitReleasever h h'
  rw [← agree_iff_consistent, ← Log.last_perm_iff hone]
  constructor
  · intro horder entries' hperm key
    obtain ⟨_, _, hrun, hrun', hsame⟩ := horder entries' hperm
    obtain rfl := Except.ok.inj ((hload entries).symm.trans hrun)
    obtain rfl := Except.ok.inj ((hload entries').symm.trans hrun')
    have hkey := hsame key
    rw [Log.lookup_store, Log.lookup_store] at hkey
    have hnone : Log.last (entries'.flatMap fun entry => (variableOf entry).toList.flatMap (writes splitReleasever)) key = none ↔
        Log.last (entries.flatMap fun entry => (variableOf entry).toList.flatMap (writes splitReleasever)) key = none :=
      Log.last_eq_none_perm hperm key
    cases hlast : Log.last (entries.flatMap fun entry => (variableOf entry).toList.flatMap (writes splitReleasever)) key with
    | none => exact hnone.mpr hlast
    | some value =>
        cases hlast' : Log.last (entries'.flatMap fun entry => (variableOf entry).toList.flatMap (writes splitReleasever)) key with
        | none => exact absurd (hnone.mp hlast') (by simp [hlast])
        | some value' =>
            rw [hlast, hlast'] at hkey
            exact hkey
  · intro hlast entries' hperm
    refine ⟨_, _, hload entries, hload entries', fun key => ?_⟩
    rw [Log.lookup_store, Log.lookup_store, hlast entries' hperm key]

theorem updateFromEtc_singleton (fsvars : List (String × VarFile)) (subst : Substitutions) :
    updateFromEtc splitReleasever [some fsvars] subst = updateFromDir splitReleasever fsvars subst := by
  rw [updateFromEtc, List.foldlM_cons]
  simp only [updateFromDir_eq]
  rfl

/-- Loading the environment and loading one directory do not depend on the order exactly if both are consistent. -/
theorem loading_orderFree_iff (environ : List (String × String)) (fsvars : List (String × VarFile)) (subst : Substitutions) :
    (OrderFree (fun environ => updateFromEnv splitReleasever environ ∅) environ ∧
      OrderFree (fun fsvars => updateFromEtc splitReleasever [some fsvars] subst) fsvars) ↔
    (Consistent splitReleasever envVariable environ ∧ Consistent splitReleasever fileVariable fsvars) := by
  apply and_congr
  · exact orderFree_iff splitReleasever envVariable environ ∅ fun entries => updateFromEnv_eq splitReleasever entries ∅
  · apply orderFree_iff splitReleasever fileVariable fsvars subst
    intro entries
    rw [updateFromEtc_singleton, updateFromDir_eq]

end Loading

/-- Up to the first dot and from there on. -/
def splitAtDot (releasever : String) : String × String :=
  let chars := releasever.toList
  (String.ofList (chars.takeWhile (· ≠ '.')), String.ofList ((chars.dropWhile (· ≠ '.')).drop 1))

/-- Listed first, an explicit `releasever_major` is overwritten by what `releasever` derives. -/
theorem not_orderFree_of_values {ω : Type} {load : List ω → Except ReadOnlyVariableError Substitutions} {x y : ω} {key : String}
    {value value' : Option String} (hload : (load [x, y]).toOption.map (·.lookup key) = some value)
    (hload' : (load [y, x]).toOption.map (·.lookup key) = some value') (hne : value ≠ value') : ¬OrderFree load [x, y] := by
  intro horder
  obtain ⟨subst, subst', hrun, hrun', hsame⟩ := horder [y, x] (List.Perm.swap x y [])
  rw [hrun] at hload
  rw [hrun'] at hload'
  exact hne ((Option.some.inj hload).symm.trans ((hsame key).symm.trans (Option.some.inj hload')))

/-- Listed before `releasever`, an explicit `releasever_major` is overwritten by the derived one. -/
theorem not_loading_orderFree :
    ¬OrderFree (fun environ => updateFromEnv splitAtDot environ ∅) [("DNF_VAR_releasever", "8.5"), ("DNF_VAR_releasever_major", "7")] ∧
    ¬OrderFree (fun fsvars => updateFromEtc splitAtDot [some fsvars] ∅) [("releasever", .text "8.5\n"), ("releasever_major", .text "7\n")] := by
  have henv : (updateFromEnv splitAtDot [("DNF_VAR_releasever", "8.5"), ("DNF_VAR_releasever_major", "7")] ∅).toOption.map
      (·.lookup "releasever_major") = some (some "7") := by decide +kernel
  have henv' : (updateFromEnv splitAtDot [("DNF_VAR_releasever_major", "7"), ("DNF_VAR_releasever", "8.5")] ∅).toOption.map
      (·.lookup "releasever_major") = some (some "8") := by decide +kernel
  have hetc : (updateFromEtc splitAtDot [some [("releasever", .text "8.5\n"), ("releasever_major", .text "7\n")]] ∅).toOption.map
      (·.lookup "releasever_major") = some (some "7") := by decide +kernel
  have hetc' : (updateFromEtc splitAtDot [some [("releasever_major", .text "7\n"), ("releasever", .text "8.5\n")]] ∅).toOption.map
      (·.lookup "releasever_major") = some (some "8") := by decide +kernel
  exact ⟨not_orderFree_of_values henv henv' (by decide), not_orderFree_of_values hetc hetc' (by decide)⟩

end Dnf.Conf
