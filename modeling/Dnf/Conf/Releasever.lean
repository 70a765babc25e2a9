import Mathlib.Data.List.ReduceOption
import Dnf.Conf.Substitutions

/-!
# `$releasever` after the configuration is read

`_read_conf_file` saves the two parts of `$releasever`, assigns it, which derives them anew, and assigns the saved parts again unless the command line or the detection overrides them. A saved part may itself have been derived, from a value that is no longer the final one, and where none was saved the assignment of `None` drops the derived part again.
-/

namespace Dnf.Conf

open Foundation

inductive Exc
  | readOnlyVariable (error : ReadOnlyVariableError)
  | error (text : String)
  deriving DecidableEq

/-- Release version and the overrides of its parts. -/
structure Releasevers where
  releasever : Option String
  major : Option String
  minor : Option String

def Releasevers.part (vers : Releasevers) : Part → Option String
  | .major => vers.major
  | .minor => vers.minor

/-- What the configuration is read from: the environment, the detected architecture with its base, the vars directories and the rpm database of a root. -/
structure System where
  environ : List (String × String)
  arch : String
  basearch : String
  varsdir : List (Option (List (String × VarFile)))
  installroot : String
  detectReleasevers : String → Except Exc Releasevers

section Reading

variable (splitReleasever : String → String × String)

/-- The assignments of a mapping, as they raise. -/
def assigned (result : Except ReadOnlyVariableError Substitutions) : Except Exc Substitutions := result.mapError Exc.readOnlyVariable

/-- The substitutions of a new `MainConf`. -/
def newConf (system : System) : Except Exc Substitutions := do
  let subst ← assigned (updateFromEnv splitReleasever system.environ ∅)
  let subst ← assigned (setItem splitReleasever subst "arch" system.arch)
  assigned (setItem splitReleasever subst "basearch" system.basearch)

/-- The setters of `releasever`, `releasever_major` and `releasever_minor`: `None` deletes the variable. -/
def setVariable (key : String) (val : Option String) (subst : Substitutions) : Except Exc Substitutions :=
  match val with
  | none => .ok (subst.erase key)
  | some val => assigned (setItem splitReleasever subst key val)

def orElse (args : List (Option String)) : Option String := args.reduceOption.head?

/-- The release version is detected if none is given or configured, and in the root `/` if that is given for it. -/
def detected (system : System) (opts : Releasevers) (configured : Option String) : Except Exc Releasevers :=
  if opts.releasever = none ∧ configured = none then system.detectReleasevers system.installroot
  else if opts.releasever = some "/" then system.detectReleasevers "/"
  else .ok ⟨opts.releasever, none, none⟩

/-- `_read_conf_file`, from the variables on. -/
def readConfFile (system : System) (opts : Releasevers) (conf : Substitutions) : Except Exc Substitutions := do
  let conf ← assigned (updateFromEtc splitReleasever system.varsdir conf)
  let det ← detected system opts (conf.lookup "releasever")
  let oldMajor := conf.lookup "releasever_major"
  let oldMinor := conf.lookup "releasever_minor"
  let conf ← setVariable splitReleasever "releasever" (orElse [det.releasever, conf.lookup "releasever"]) conf
  let conf ← setVariable splitReleasever "releasever_major" (orElse [opts.major, det.major, oldMajor]) conf
  setVariable splitReleasever "releasever_minor" (orElse [opts.minor, det.minor, oldMinor]) conf

def configure (system : System) (opts : Releasevers) : Except Exc Substitutions := do
  let conf ← newConf splitReleasever system
  readConfFile splitReleasever system opts conf

/-! ### The configured variables -/

/-- The variables that are set before the command line is looked at, in their order. -/
def System.assignments (system : System) : List (String × String) :=
  system.environ.filterMap envVariable ++ [("arch", system.arch), ("basearch", system.basearch)] ++
    (system.varsdir.reduceOption.flatMap fun fsvars => fsvars.filterMap fileVariable)

def System.configured (system : System) (key : String) : Option String := Log.last system.assignments key

theorem flatMap_toList {ω : Type} (variableOf : ω → Option (String × String)) (entries : List ω) :
    (entries.flatMap fun entry => (variableOf entry).toList.flatMap (writes splitReleasever)) =
      (entries.filterMap variableOf).flatMap (writes splitReleasever) := by
  induction entries with
  | nil => rfl
  | cons entry rest ih =>
      rw [List.flatMap_cons, ih, List.filterMap_cons]
      cases variableOf entry with
      | none => rfl
      | some assignment => rw [Option.toList_some, List.flatMap_singleton, List.flatMap_cons]

theorem updateFromEtc_eq (varsdir : List (Option (List (String × VarFile)))) (subst : Substitutions) :
    updateFromEtc splitReleasever varsdir subst =
      .ok (Log.store subst ((varsdir.reduceOption.flatMap fun fsvars => fsvars.filterMap fileVariable).flatMap (writes splitReleasever))) := by
  induction varsdir generalizing subst with
  | nil => rfl
  | cons dir rest ih =>
      rw [updateFromEtc, List.foldlM_cons]
      cases dir with
      | none => exact ih subst
      | some fsvars =>
          change (updateFromDir splitReleasever fsvars subst >>= fun subst => updateFromEtc splitReleasever rest subst) = _
          rw [updateFromDir_eq, flatMap_toList, List.reduceOption_cons_of_some, List.flatMap_cons, List.flatMap_append, Log.store_append]
          exact ih _

/-- The variables before the command line is looked at. -/
def loaded (system : System) : Substitutions := Log.store ∅ (system.assignments.flatMap (writes splitReleasever))

theorem newConf_etc (system : System) {β : Type} (f : Substitutions → Except Exc β) :
    (do
      let conf ← newConf splitReleasever system
      let conf ← assigned (updateFromEtc splitReleasever system.varsdir conf)
      f conf) = f (loaded splitReleasever system) := by
  rw [newConf, updateFromEnv_eq, flatMap_toList]
  simp only [setItem_eq, assigned, updateFromEtc_eq, loaded, System.assignments, List.flatMap_append, Log.store_append, List.flatMap_cons, List.flatMap_nil]
  rfl

/-! ### What a variable holds -/

/-- The entry sets the part: explicitly or through a `releasever` that is not empty. -/
def sets (part : Part) (entry : String × String) : Bool := entry.1 = part.key ∨ (entry.1 = "releasever" ∧ entry.2 ≠ "")

def partOf (part : Part) (entry : String × String) : String := if entry.1 = part.key then entry.2 else part.of (splitReleasever entry.2)

theorem last_writes_part (part : Part) (entry : String × String) :
    Log.last (writes splitReleasever entry) part.key = if sets part entry then some (partOf splitReleasever part entry) else none := by
  have hone : ∀ {value}, (part.key, value) ∈ writes splitReleasever entry → Log.last (writes splitReleasever entry) part.key = some value :=
    fun hmem => Log.last_of_mem hmem fun _ h => writes_single splitReleasever h hmem
  rw [partOf]
  split_ifs with hsets hkey
  · exact hone ((mem_writes_iff _).mpr (.inl (Prod.ext hkey rfl)))
  · obtain ⟨hreleasever, hne⟩ := (of_decide_eq_true hsets).resolve_left hkey
    exact hone ((mem_writes_iff _).mpr (.inr ⟨hreleasever, hne, part, rfl, rfl⟩))
  · rw [Log.last_eq_none_iff]
    intro value hmem
    apply hsets
    rw [sets, decide_eq_true_eq]
    rcases (mem_writes_iff _).mp hmem with heq | ⟨hreleasever, hne, _⟩
    · exact .inl (congrArg Prod.fst heq)
    · exact .inr ⟨hreleasever, hne⟩

theorem last_writes_releasever (entry : String × String) :
    Log.last (writes splitReleasever entry) "releasever" = Log.last [entry] "releasever" := by
  have hself : entry ∈ writes splitReleasever entry := (mem_writes_iff _).mpr (.inl rfl)
  have hconcat := Log.last_concat [] entry "releasever"
  rw [List.nil_append, Log.last_nil] at hconcat
  rw [hconcat]
  split_ifs with hkey
  · rw [← hkey]
    exact Log.last_of_mem hself fun _ h => writes_single splitReleasever h hself
  · rw [Log.last_eq_none_iff]
    intro value hmem
    rcases (mem_writes_iff _).mp hmem with heq | ⟨hreleasever, _⟩
    · exact hkey (congrArg Prod.fst heq)
    · exact hkey hreleasever

theorem lookup_loaded_releasever (system : System) : (loaded splitReleasever system).lookup "releasever" = system.configured "releasever" := by
  rw [loaded, Log.lookup_store, AList.lookup_empty, Option.or_none, System.configured]
  induction system.assignments using List.reverseRecOn with
  | nil => rfl
  | append_singleton log entry ih =>
      rw [List.flatMap_append, Log.last_append, Log.last_append, ih, List.flatMap_singleton, last_writes_releasever]

theorem lookup_loaded_part (system : System) (part : Part) :
    (loaded splitReleasever system).lookup part.key = (system.assignments.filter (sets part)).getLast?.map (partOf splitReleasever part) := by
  rw [loaded, Log.lookup_store, AList.lookup_empty, Option.or_none]
  induction system.assignments using List.reverseRecOn with
  | nil => rfl
  | append_singleton log entry ih =>
      rw [List.flatMap_append, Log.last_append, ih, List.flatMap_singleton, last_writes_part, List.filter_append, List.filter_singleton]
      cases hsets : sets part entry with
      | true => simp
      | false => simp

/-- The last entry that sets the part is explicit only if its value is the last explicit one. -/
theorem configured_of_last {system : System} {part : Part} {entry : String × String}
    (hlast : (system.assignments.filter (sets part)).getLast? = some entry) (hkey : entry.1 = part.key) :
    system.configured part.key = some entry.2 := by
  rw [System.configured]
  revert hlast
  induction system.assignments using List.reverseRecOn with
  | nil => simp
  | append_singleton log entry' ih =>
      rw [List.filter_append, List.filter_singleton, Log.last_concat]
      cases hsets : sets part entry' with
      | true =>
          intro hlast
          obtain rfl : entry' = entry := by simpa using hlast
          rw [if_pos hkey]
      | false =>
          intro hlast
          have hne : entry'.1 ≠ part.key := fun h => by
            rw [sets, decide_eq_false_iff_not] at hsets
            exact hsets (.inl h)
          rw [if_neg hne]
          exact ih (by simpa using hlast)

theorem configured_eq_none_of_last {system : System} {part : Part} (hlast : (system.assignments.filter (sets part)).getLast? = none) :
    system.configured part.key = none := by
  rw [System.configured, Log.last_eq_none_iff]
  intro value hmem
  rw [List.getLast?_eq_none_iff, List.filter_eq_nil_iff] at hlast
  exact hlast _ hmem (decide_eq_true (.inl rfl))

/-! ### The rule -/

/-- The value a part should have: that of the command line, else the detected override, else the configured one, else what the final `releasever` derives; so it has one whenever `releasever` has. -/
structure Right (system : System) (opts det : Releasevers) (conf : Substitutions) (part : Part) : Prop where
  value : conf.lookup part.key = orElse [opts.part part, det.part part, system.configured part.key,
    (conf.lookup "releasever").map fun releasever => part.of (splitReleasever releasever)]
  defined : (conf.lookup "releasever").isSome → (conf.lookup part.key).isSome

/-- Both parts are right after the configuration is read, if it is. -/
def ReleaseverRight (system : System) (opts : Releasevers) : Prop :=
  ∀ conf, configure splitReleasever system opts = .ok conf → ∀ det, detected system opts (system.configured "releasever") = .ok det →
    ∀ part, Right splitReleasever system opts det conf part

/-- What is configured already gives the part its right value, for this final `releasever`. -/
def Settled (system : System) (part : Part) (final : Option String) : Prop :=
  match (system.assignments.filter (sets part)).getLast? with
  | none => final = none
  | some entry => entry.1 = part.key ∨
      match system.configured part.key with
      | some explicit => part.of (splitReleasever entry.2) = explicit
      | none => ∀ releasever, final = some releasever → part.of (splitReleasever releasever) = part.of (splitReleasever entry.2)

theorem orElse_cons (arg : Option String) (args : List (Option String)) : orElse (arg :: args) = arg.or (orElse args) := by
  cases arg <;> rfl

theorem lookup_setVariable {key : String} (hkey : key ≠ "releasever") (val : Option String) (subst : Substitutions) :
    ∃ subst', setVariable splitReleasever key val subst = .ok subst' ∧
      ∀ key', subst'.lookup key' = if key' = key then val else subst.lookup key' := by
  cases val with
  | none =>
      refine ⟨_, rfl, fun key' => ?_⟩
      split_ifs with h
      · rw [h, AList.lookup_erase]
      · rw [AList.lookup_erase_ne h]
  | some val =>
      rw [setVariable, setItem_eq, writes, if_neg fun h => hkey h.1]
      refine ⟨_, rfl, fun key' => ?_⟩
      show (subst.insert key val).lookup key' = _
      split_ifs with h
      · rw [h, AList.lookup_insert]
      · rw [AList.lookup_insert_ne h]

theorem lookup_setReleasever (val : Option String) (subst : Substitutions) :
    ∃ subst', setVariable splitReleasever "releasever" val subst = .ok subst' ∧ subst'.lookup "releasever" = val := by
  cases val with
  | none => exact ⟨_, rfl, AList.lookup_erase _ _⟩
  | some val =>
      rw [setVariable, setItem_eq]
      refine ⟨_, rfl, ?_⟩
      rw [Log.lookup_store, last_writes_releasever]
      rfl

/-- What the three variables are in the end, if the detection does not fail. -/
theorem configure_ok {system : System} {opts det : Releasevers} (hdet : detected system opts (system.configured "releasever") = .ok det) :
    ∃ conf, configure splitReleasever system opts = .ok conf ∧ conf.lookup "releasever" = orElse [det.releasever, system.configured "releasever"] ∧
      ∀ part : Part, conf.lookup part.key = orElse [opts.part part, det.part part, (loaded splitReleasever system).lookup part.key] := by
  obtain ⟨first, hfirst, hreleasever⟩ := lookup_setReleasever splitReleasever (orElse [det.releasever, system.configured "releasever"])
    (loaded splitReleasever system)
  obtain ⟨second, hsecond, hmajor⟩ := lookup_setVariable splitReleasever (show "releasever_major" ≠ "releasever" by decide)
    (orElse [opts.major, det.major, (loaded splitReleasever system).lookup "releasever_major"]) first
  obtain ⟨conf, hconf, hminor⟩ := lookup_setVariable splitReleasever (show "releasever_minor" ≠ "releasever" by decide)
    (orElse [opts.minor, det.minor, (loaded splitReleasever system).lookup "releasever_minor"]) second
  refine ⟨conf, ?_, ?_, fun part => ?_⟩
  · simp only [configure, readConfFile]
    rw [newConf_etc, lookup_loaded_releasever, hdet]
    simp only [bind, Except.bind, hfirst, hsecond, hconf]
  · rw [hminor, if_neg (by decide), hmajor, if_neg (by decide), hreleasever]
  · rw [hminor, hmajor]
    cases part with
    | major =>
        rw [if_neg (by decide), if_pos (show Part.major.key = "releasever_major" from rfl)]
        rfl
    | minor =>
        rw [if_pos (show Part.minor.key = "releasever_minor" from rfl)]
        rfl

theorem orElse_singleton (arg : Option String) : orElse [arg] = arg := by
  cases arg <;> rfl

/-- An entry that sets a part without being explicit is a `releasever` that is configured. -/
theorem configured_releasever_of_last {system : System} {part : Part} {entry : String × String}
    (hlast : (system.assignments.filter (sets part)).getLast? = some entry) (hkey : entry.1 ≠ part.key) :
    ∃ releasever, system.configured "releasever" = some releasever := by
  obtain ⟨hmem, hsets⟩ := List.mem_filter.mp (List.mem_of_getLast? hlast)
  obtain ⟨hreleasever, _⟩ := (of_decide_eq_true hsets).resolve_left hkey
  rw [← Option.ne_none_iff_exists', System.configured, Ne, Log.last_eq_none_iff]
  exact fun hnone => hnone entry.2 (hreleasever ▸ hmem)

theorem right_iff_settled {system : System} {opts det : Releasevers} {conf : Substitutions} {part : Part} (hopts : opts.part part = none)
    (hdet : det.part part = none) (hreleasever : conf.lookup "releasever" = orElse [det.releasever, system.configured "releasever"])
    (hlookup : conf.lookup part.key = (loaded splitReleasever system).lookup part.key) :
    Right splitReleasever system opts det conf part ↔
      Settled splitReleasever system part (orElse [det.releasever, system.configured "releasever"]) := by
  rw [lookup_loaded_part] at hlookup
  have hvalue : Right splitReleasever system opts det conf part ↔ (conf.lookup part.key = (system.configured part.key).or
      ((conf.lookup "releasever").map fun releasever => part.of (splitReleasever releasever)) ∧
        ((conf.lookup "releasever").isSome → (conf.lookup part.key).isSome)) := by
    constructor
    · intro hright
      have hspec := hright.value
      rw [hopts, hdet, orElse_cons, orElse_cons, orElse_cons, orElse_singleton, Option.none_or, Option.none_or] at hspec
      exact ⟨hspec, hright.defined⟩
    · intro ⟨hspec, hdefined⟩
      refine ⟨?_, hdefined⟩
      rw [hopts, hdet, orElse_cons, orElse_cons, orElse_cons, orElse_singleton, Option.none_or, Option.none_or, hspec]
  rw [hvalue, Settled, ← hreleasever]
  cases hlast : (system.assignments.filter (sets part)).getLast? with
  | none =>
      rw [hlast] at hlookup
      rw [hlookup, configured_eq_none_of_last hlast]
      cases conf.lookup "releasever" <;> simp
  | some entry =>
      rw [hlast, Option.map_some] at hlookup
      rw [hlookup, partOf]
      by_cases hkey : entry.1 = part.key
      · rw [if_pos hkey, configured_of_last hlast hkey]
        exact iff_of_true ⟨rfl, fun _ => rfl⟩ (.inl hkey)
      · obtain ⟨configured, hconfigured⟩ := configured_releasever_of_last hlast hkey
        have hfinal : ∃ releasever, conf.lookup "releasever" = some releasever := by
          rw [hreleasever, hconfigured, orElse_cons, orElse_singleton]
          cases det.releasever with
          | none => exact ⟨configured, rfl⟩
          | some releasever => exact ⟨releasever, rfl⟩
        obtain ⟨releasever, hfinal⟩ := hfinal
        rw [if_neg hkey, hfinal]
        cases system.configured part.key with
        | some explicit => simp [hkey]
        | none => simp [hkey, eq_comm]

/-- The parts are right exactly if each of them is overridden or settled by what is configured. -/
theorem releaseverRight_iff (system : System) (opts : Releasevers) :
    ReleaseverRight splitReleasever system opts ↔
      ∀ det, detected system opts (system.configured "releasever") = .ok det → ∀ part, (opts.part part).isSome ∨ (det.part part).isSome ∨
        Settled splitReleasever system part (orElse [det.releasever, system.configured "releasever"]) := by
  have hpart : ∀ det conf part, conf.lookup "releasever" = orElse [det.releasever, system.configured "releasever"] →
      conf.lookup part.key = orElse [opts.part part, det.part part, (loaded splitReleasever system).lookup part.key] →
      (Right splitReleasever system opts det conf part ↔ (opts.part part).isSome ∨ (det.part part).isSome ∨
        Settled splitReleasever system part (orElse [det.releasever, system.configured "releasever"])) := by
    intro det conf part hreleasever hlookup
    have hdefined : (∃ value, conf.lookup part.key = some value) → ((conf.lookup "releasever").isSome → (conf.lookup part.key).isSome) :=
      fun ⟨value, h⟩ _ => Option.isSome_of_eq_some h
    cases hopts : opts.part part with
    | some value =>
        have hvalue : conf.lookup part.key = some value := by rw [hlookup, hopts, orElse_cons, Option.some_or]
        refine iff_of_true ⟨?_, hdefined ⟨value, hvalue⟩⟩ (.inl rfl)
        rw [hvalue, hopts, orElse_cons, Option.some_or]
    | none =>
        cases hdet : det.part part with
        | some value =>
            have hvalue : conf.lookup part.key = some value := by rw [hlookup, hopts, hdet, orElse_cons, orElse_cons, Option.none_or, Option.some_or]
            refine iff_of_true ⟨?_, hdefined ⟨value, hvalue⟩⟩ (.inr (.inl rfl))
            rw [hvalue, hopts, hdet, orElse_cons, orElse_cons, Option.none_or, Option.some_or]
        | none =>
            rw [hopts, hdet, orElse_cons, orElse_cons, orElse_singleton, Option.none_or, Option.none_or] at hlookup
            rw [right_iff_settled splitReleasever hopts hdet hreleasever hlookup]
            simp
  constructor
  · intro hright det hdet part
    obtain ⟨conf, hconf, hreleasever, hlookup⟩ := configure_ok splitReleasever hdet
    exact (hpart det conf part hreleasever (hlookup part)).mp (hright conf hconf det hdet part)
  · intro hsettled conf hconf det hdet part
    obtain ⟨conf', hconf', hreleasever, hlookup⟩ := configure_ok splitReleasever hdet
    obtain rfl := Except.ok.inj (hconf.symm.trans hconf')
    exact (hpart det conf part hreleasever (hlookup part)).mpr (hsettled det hdet part)

end Reading

/-- A system where nothing is configured and no release version is detected. -/
def bareSystem : System := ⟨[], "x86_64", "x86_64", [some []], "/", fun _ => .ok ⟨none, none, none⟩⟩

/-- Given on the command line, a release version has no parts; with another one in the environment, it has the parts of that one. -/
theorem not_releaseverRight :
    ¬ReleaseverRight splitAtDot bareSystem ⟨some "9.2", none, none⟩ ∧
    ¬ReleaseverRight splitAtDot { bareSystem with environ := [("DNF_VAR_releasever", "8.5")] } ⟨some "9.2", none, none⟩ := by
  have hdet : ∀ environ, detected { bareSystem with environ := environ } ⟨some "9.2", none, none⟩
      (System.configured { bareSystem with environ := environ } "releasever") = .ok ⟨some "9.2", none, none⟩ := by
    intro environ
    rw [detected, if_neg fun h => nomatch h.1]
    exact if_neg (by decide)
  constructor
  · intro hright
    obtain ⟨conf, hconf, hreleasever, hlookup⟩ := configure_ok splitAtDot (hdet [])
    have hdefined := (hright conf hconf _ (hdet []) .major).defined
    rw [hreleasever, hlookup .major] at hdefined
    exact absurd (hdefined (by decide)) (by decide +kernel)
  · intro hright
    obtain ⟨conf, hconf, hreleasever, hlookup⟩ := configure_ok splitAtDot (hdet [("DNF_VAR_releasever", "8.5")])
    have hvalue := (hright conf hconf _ (hdet [("DNF_VAR_releasever", "8.5")]) .major).value
    rw [hreleasever, hlookup .major] at hvalue
    exact absurd hvalue (by decide +kernel)

end Dnf.Conf
