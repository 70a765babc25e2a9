import Dnf.Modules.ModuleDict
import Mathlib.Data.Finset.Union

/-!
# Modules that are removed

`ModuleBase.remove` uninstalls profiles and then removes the packages of these profiles that no other installed profile has. The installed profiles are looked up by the name of the module: which of its streams is enabled is not asked.
-/

namespace Dnf.Modules

open Foundation Effect Listing

/-- The container with the installed profiles, as pairs of a module's name and a profile's. -/
structure Installed (σ : Type) where
  container : σ
  profiles : List (String × String)

variable {σ : Type}

/-- `getInstalledProfiles`, as a set. -/
def Installed.getInstalledProfiles (s : Installed σ) (moduleName : String) : List String :=
  ((s.profiles.filter fun installed => installed.1 = moduleName).map Prod.snd).dedup

def Installed.uninstall (s : Installed σ) (m : Module) (profile : String) : Installed σ :=
  { s with profiles := s.profiles.filter fun installed => installed ≠ (m.name, profile) }

/-- `getInstalledPkgNames`; `content` has the packages of an installed profile. -/
def Installed.getInstalledPkgNames (content : String × String → Finset String) (s : Installed σ) : Finset String :=
  s.profiles.toFinset.biUnion content

/-- `_get_latest` -/
def getLatest : List Module → Option Module
  | [] => none
  | first :: rest => some (rest.foldl (fun latest m => if m.versionNum > latest.versionNum then m else latest) first)

/-- The loop over the profiles that a spec asks for. -/
def removeProfiles (latest : Module) (installed : List String) : List Profile → Finset String → Installed σ → Finset String × Installed σ
  | [], names, s => (names, s)
  | profile :: rest, names, s =>
      if profile.name ∈ installed then removeProfiles latest installed rest (names ∪ profile.content.toFinset) (s.uninstall latest profile.name)
      else removeProfiles latest installed rest names s

/-- The loop over the installed profiles, where a spec asks for none. -/
def removeInstalled (latest : Module) : List String → Finset String → Installed σ → Finset String × Installed σ
  | [], names, s => (names, s)
  | profileString :: rest, names, s =>
      removeInstalled latest rest (names ∪ ((latest.getProfiles profileString).flatMap Profile.content).toFinset) (s.uninstall latest profileString)

/-- `_get_package_name_set_and_remove_profiles`, with `remove`. `profile` is empty where the spec has none. -/
def getPackageNameSetAndRemoveProfiles (moduleList : List Module) (profile : String) (s : Installed σ) : Finset String × Installed σ :=
  match getLatest moduleList with
  | none => (∅, s)
  | some latest =>
      let installed := s.getInstalledProfiles latest.name
      if installed = [] then (∅, s)
      else if profile ≠ "" then removeProfiles latest installed (latest.getProfiles profile) ∅ s
      else removeInstalled latest installed ∅ s

/-- The loops over the streams of a module, and over the modules of the dict. -/
def removeStreams (profile : String) : StreamDict → Installed σ → Finset String × Installed σ
  | [], s => (∅, s)
  | entry :: rest, s =>
      let here := getPackageNameSetAndRemoveProfiles entry.2 profile s
      let later := removeStreams profile rest here.2
      (here.1 ∪ later.1, later.2)

def removeModules (profile : String) : List (String × StreamDict) → Installed σ → Finset String × Installed σ
  | [], s => (∅, s)
  | entry :: rest, s =>
      let here := removeStreams profile entry.2 s
      let later := removeModules profile rest here.2
      (here.1 ∪ later.1, later.2)

section Remove

variable (c : Container σ) (sortStreams : List String → List String)

/-- What is known of the specs that are done: those that match no module, those that match no profile, and the packages. -/
structure Progress where
  noMatchSpecs : List String := []
  noMatchProfiles : List String := []
  removePackageSet : Finset String := ∅

/-- One round of the loop over the specs. `getModules` has the modules that a spec matches and the profile it names. -/
def removeSpec (getModules : String → List Module × String) (progress : Progress) (spec : String) : EStateM Exc (Installed σ) Progress := fun s =>
  match getModules spec with
  | ([], _) => .ok { progress with noMatchSpecs := progress.noMatchSpecs ++ [spec] } s
  | (moduleList, profile) =>
      match createModuleDictAndEnable c sortStreams moduleList spec false s.container with
      | .error e t => .error e { s with container := t }
      | .ok moduleDict t =>
          let result := removeModules profile moduleDict { s with container := t }
          .ok { progress with
            noMatchProfiles := if result.1 = ∅ then progress.noMatchProfiles ++ [spec] else progress.noMatchProfiles
            removePackageSet := progress.removePackageSet ∪ result.1 } result.2

/-- `ModuleBase.remove`: the specs without a match, and the packages that `_remove_if_unneeded` is called with. -/
def remove {Package : Type} (getModules : String → List Module × String) (content : String × String → Finset String) (name : Package → String)
    (installed : List Package) (moduleSpecs : List String) : EStateM Exc (Installed σ) (List String × List Package) := do
  let progress ← moduleSpecs.foldlM (removeSpec c sortStreams getModules) {}
  let s ← get
  pure (progress.noMatchSpecs, installed.filter fun p => name p ∈ progress.removePackageSet \ s.getInstalledPkgNames content)

end Remove

/-! ### What the loops uninstall -/

/-- A spec with this profile asks for the installed profile, if `latest` is the module it means. -/
def asksFor (latest : Module) (profile : String) (e : String × String) : Prop :=
  e.1 = latest.name ∧ (profile = "" ∨ ∃ p ∈ latest.getProfiles profile, p.name = e.2)

theorem mem_uninstall {s : Installed σ} {m : Module} {profile : String} {e : String × String} :
    e ∈ (s.uninstall m profile).profiles ↔ e ∈ s.profiles ∧ ¬(e.1 = m.name ∧ e.2 = profile) := by
  rw [Installed.uninstall, List.mem_filter, decide_eq_true_iff, Ne, Prod.ext_iff]

theorem mem_getInstalledProfiles {s : Installed σ} {moduleName profile : String} :
    profile ∈ s.getInstalledProfiles moduleName ↔ (moduleName, profile) ∈ s.profiles := by
  rw [Installed.getInstalledProfiles, List.mem_dedup, List.mem_map]
  constructor
  · rintro ⟨e, he, rfl⟩
    obtain ⟨hmem, hname⟩ := List.mem_filter.mp he
    exact of_decide_eq_true hname ▸ hmem
  · exact fun hmem => ⟨_, List.mem_filter.mpr ⟨hmem, decide_eq_true rfl⟩, rfl⟩

/-- The state after a loop differs in the profiles only, and lacks those that `gone` says. -/
structure Without (gone : String × String → Prop) (s t : Installed σ) : Prop where
  container : t.container = s.container
  profiles : ∀ e, e ∈ t.profiles ↔ e ∈ s.profiles ∧ ¬gone e

theorem Without.none {gone : String × String → Prop} (s : Installed σ) (h : ∀ e ∈ s.profiles, ¬gone e) : Without gone s s :=
  ⟨rfl, fun e => (and_iff_left_of_imp (h e)).symm⟩

theorem Without.andThen {gone gone' all : String × String → Prop} {s t u : Installed σ} (h : Without gone s t) (h' : Without gone' t u)
    (hall : ∀ e ∈ s.profiles, all e ↔ gone e ∨ gone' e) : Without all s u := by
  refine ⟨h'.container.trans h.container, fun e => ?_⟩
  rw [h'.profiles, h.profiles, and_assoc]
  exact and_congr_right fun he => by rw [hall e he, not_or]

theorem without_uninstall (s : Installed σ) (m : Module) (profile : String) : Without (fun e => e.1 = m.name ∧ e.2 = profile) s (s.uninstall m profile) :=
  ⟨rfl, fun _ => mem_uninstall⟩

theorem removeProfiles_without (latest : Module) (installed : List String) (profiles : List Profile) (names : Finset String) (s : Installed σ) :
    Without (fun e => e.1 = latest.name ∧ e.2 ∈ installed ∧ ∃ p ∈ profiles, p.name = e.2) s (removeProfiles latest installed profiles names s).2 := by
  induction profiles generalizing names s with
  | nil => exact .none s fun e _ h => by obtain ⟨-, -, p, hp, -⟩ := h; cases hp
  | cons profile rest ih =>
      rw [removeProfiles]
      split
      · next hmem =>
          refine (without_uninstall s latest profile.name).andThen (ih _ _) fun e _ => ?_
          rw [List.exists_mem_cons_iff]
          constructor
          · rintro ⟨hname, hin, heq | hlater⟩
            exacts [.inl ⟨hname, heq.symm⟩, .inr ⟨hname, hin, hlater⟩]
          · rintro (⟨hname, heq⟩ | ⟨hname, hin, hlater⟩)
            exacts [⟨hname, heq ▸ hmem, .inl heq.symm⟩, ⟨hname, hin, .inr hlater⟩]
      · next hmem =>
          refine ⟨(ih names s).container, fun e => ((ih names s).profiles e).trans (and_congr_right fun _ => not_congr ?_)⟩
          refine and_congr_right fun _ => and_congr_right fun hin => ?_
          rw [List.exists_mem_cons_iff, or_iff_right]
          rintro heq
          exact hmem (heq ▸ hin)

theorem removeInstalled_without (latest : Module) (installed : List String) (names : Finset String) (s : Installed σ) :
    Without (fun e => e.1 = latest.name ∧ e.2 ∈ installed) s (removeInstalled latest installed names s).2 := by
  induction installed generalizing names s with
  | nil => exact .none s fun e _ h => List.not_mem_nil h.2
  | cons profile rest ih =>
      refine (without_uninstall s latest profile).andThen (ih _ _) fun e _ => ?_
      rw [List.mem_cons, and_or_left]

/-- What a spec takes away of the modules of one stream: the profiles it asks for, by the name of the module. -/
theorem getPackageName_without (moduleList : List Module) (profile : String) (s : Installed σ) :
    Without (fun e => ∃ latest, getLatest moduleList = some latest ∧ asksFor latest profile e) s (getPackageNameSetAndRemoveProfiles moduleList profile s).2 := by
  rw [getPackageNameSetAndRemoveProfiles]
  cases hlatest : getLatest moduleList with
  | none => exact .none s fun e _ h => by obtain ⟨latest, h, -⟩ := h; cases h
  | some latest =>
      have hin : ∀ e ∈ s.profiles, e.1 = latest.name → e.2 ∈ s.getInstalledProfiles latest.name := fun e he hname =>
        mem_getInstalledProfiles.mpr (hname ▸ he)
      have hgone : ∀ e, (∃ latest', some latest = some latest' ∧ asksFor latest' profile e) ↔ asksFor latest profile e := fun e => by simp
      simp only [hgone]
      split_ifs with hnone hprofile
      · refine .none s fun e he h => ?_
        have hmem := hin e he h.1
        rw [hnone] at hmem
        cases hmem
      · refine ⟨(removeProfiles_without latest _ _ _ s).container, fun e => ((removeProfiles_without latest _ _ _ s).profiles e).trans ?_⟩
        refine and_congr_right fun he => not_congr (and_congr_right fun hname => ?_)
        rw [or_iff_right hprofile, and_iff_right (hin e he hname)]
      · refine ⟨(removeInstalled_without latest _ _ s).container, fun e => ((removeInstalled_without latest _ _ s).profiles e).trans ?_⟩
        refine and_congr_right fun he => not_congr (and_congr_right fun hname => ?_)
        exact iff_of_true (hin e he hname) (.inl (not_not.mp hprofile))

theorem removeStreams_without (profile : String) (streams : StreamDict) (s : Installed σ) :
    Without (fun e => ∃ stream ∈ streams, ∃ latest, getLatest stream.2 = some latest ∧ asksFor latest profile e) s (removeStreams profile streams s).2 := by
  induction streams generalizing s with
  | nil => exact .none s fun e _ h => by obtain ⟨stream, h, -⟩ := h; cases h
  | cons stream rest ih => exact (getPackageName_without stream.2 profile s).andThen (ih _) fun e _ => List.exists_mem_cons_iff ..

theorem removeModules_without (profile : String) (dict : List (String × StreamDict)) (s : Installed σ) :
    Without (fun e => ∃ entry ∈ dict, ∃ stream ∈ entry.2, ∃ latest, getLatest stream.2 = some latest ∧ asksFor latest profile e) s
      (removeModules profile dict s).2 := by
  induction dict generalizing s with
  | nil => exact .none s fun e _ h => by obtain ⟨stream, h, -⟩ := h; cases h
  | cons entry rest ih => exact (removeStreams_without profile entry.2 s).andThen (ih _) fun e _ => List.exists_mem_cons_iff ..

/-! ### What the specs uninstall -/

section Specs

variable (c : Container σ) (sortStreams : List String → List String) (getModules : String → List Module × String)

/-- The modules that a spec is resolved to, without enabling anything. -/
def pickModules (spec : String) (s : σ) : Except Exc (List (String × StreamDict)) :=
  match createModuleDictAndEnable c sortStreams (getModules spec).1 spec false s with
  | .ok dict _ => .ok dict
  | .error e _ => .error e

/-- The spec matches modules, but they cannot be resolved. -/
def raises (s : σ) (spec : String) : Bool := !(getModules spec).1.isEmpty && !(pickModules c sortStreams getModules spec s).isOk

/-- The spec asks for the installed profile. -/
def SpecAsksFor (s : σ) (spec : String) (e : String × String) : Prop :=
  (getModules spec).1 ≠ [] ∧ ∃ dict, pickModules c sortStreams getModules spec s = .ok dict ∧
    ∃ entry ∈ dict, ∃ stream ∈ entry.2, ∃ latest, getLatest stream.2 = some latest ∧ asksFor latest (getModules spec).2 e

variable {c sortStreams getModules}

theorem keeps_createModuleDict (moduleList : List Module) (spec : String) (s : σ) :
    Keeps (· = s) (createModuleDictAndEnable c sortStreams moduleList spec false) := by
  have hasserted : ∀ kept, Keeps (· = s) (asserted (σ := σ) kept) := fun kept => Triple.ite (fun _ => Keeps.pure kept) fun _ => Keeps.throw _
  have hkeys : ∀ moduleName streams, Keeps (· = s) (enableKeys c false moduleName streams) := by
    intro moduleName streams
    induction streams with
    | nil => exact Keeps.pure ()
    | cons entry rest ih => exact Keeps.bind (Keeps.pure ()) fun _ => ih
  have hkeep : ∀ moduleName streams, Keeps (· = s) (keepStream c sortStreams spec false moduleName streams) := by
    intro moduleName streams
    refine Triple.bind (M := fun _ t => t = s) (Triple.get fun _ h => h) fun t => Keeps.bind ?_ fun stream => Keeps.bind (Keeps.pure ()) fun _ => Keeps.pure _
    cases chooseStream c sortStreams spec moduleName (streams.map Prod.fst) t with
    | ok stream => exact Keeps.pure stream
    | error e => exact Keeps.throw e
  have hround : ∀ moduleName streams, Keeps (· = s) (resolveModule c sortStreams spec false moduleName streams) := fun moduleName streams =>
    Triple.ite (fun _ => Keeps.bind (hkeep moduleName streams) hasserted) fun _ => Keeps.bind (hkeys moduleName streams) fun _ => hasserted streams
  rw [createModuleDictAndEnable]
  induction moduleDict moduleList with
  | nil => exact Keeps.pure []
  | cons entry rest ih => exact Keeps.bind (hround entry.1 entry.2) fun kept => Keeps.bind ih fun dict => Keeps.pure _

/-- One round of the loop over the specs. -/
theorem removeSpec_spec (progress : Progress) (spec : String) (s : Installed σ) :
    (raises c sortStreams getModules s.container spec = true ∧ ∃ e, removeSpec c sortStreams getModules progress spec s = .error e s) ∨
      (raises c sortStreams getModules s.container spec = false ∧ ∃ progress' t, removeSpec c sortStreams getModules progress spec s = .ok progress' t ∧
        Without (SpecAsksFor c sortStreams getModules s.container spec) s t) := by
  rcases hget : getModules spec with ⟨moduleList, profile⟩
  cases moduleList with
  | nil =>
      refine .inr ⟨by rw [raises, hget]; rfl, { progress with noMatchSpecs := progress.noMatchSpecs ++ [spec] }, s, by rw [removeSpec, hget], ?_⟩
      exact .none s fun e _ h => h.1 (by rw [hget])
  | cons m rest =>
      have hkeeps := @keeps_createModuleDict _ c sortStreams (m :: rest) spec s.container s.container rfl
      rw [raises, removeSpec]
      simp only [pickModules, hget]
      cases hcreate : createModuleDictAndEnable c sortStreams (m :: rest) spec false s.container with
      | error e t =>
          rw [hcreate] at hkeeps
          obtain rfl := hkeeps
          exact .inl ⟨rfl, e, rfl⟩
      | ok dict t =>
          rw [hcreate] at hkeeps
          obtain rfl := hkeeps
          refine .inr ⟨rfl, _, _, rfl, ?_⟩
          have hwithout := removeModules_without profile dict s
          refine ⟨hwithout.container, fun e => (hwithout.profiles e).trans (and_congr_right fun _ => not_congr ?_)⟩
          rw [SpecAsksFor, pickModules, hget]
          dsimp only
          rw [hcreate]
          constructor
          · exact fun h => ⟨List.cons_ne_nil m rest, dict, rfl, h⟩
          · rintro ⟨-, dict', hdict, h⟩
            exact Except.ok.inj hdict ▸ h

/-- The specs that `remove` comes to: those before the first that cannot be resolved. -/
def reached (c : Container σ) (sortStreams : List String → List String) (getModules : String → List Module × String) (s : σ) (moduleSpecs : List String) : List String :=
  moduleSpecs.takeWhile fun spec => !raises c sortStreams getModules s spec

theorem removeSpecs_without (moduleSpecs : List String) (progress : Progress) (s : Installed σ) :
    Without (fun e => ∃ spec ∈ reached c sortStreams getModules s.container moduleSpecs, SpecAsksFor c sortStreams getModules s.container spec e) s
      (final (moduleSpecs.foldlM (removeSpec c sortStreams getModules) progress s)) := by
  induction moduleSpecs generalizing progress s with
  | nil => exact .none s fun e _ h => by obtain ⟨spec, h, -⟩ := h; cases h
  | cons spec rest ih =>
      rw [List.foldlM_cons, bind_apply, reached, List.takeWhile_cons]
      rcases @removeSpec_spec _ c sortStreams getModules progress spec s with
        ⟨hraises, e, hrun⟩ | ⟨hends, progress', t, hrun, hwithout⟩
      · rw [hraises, hrun]
        exact .none s fun e _ h => by obtain ⟨spec, h, -⟩ := h; cases h
      · have hrest := ih progress' t
        rw [hwithout.container] at hrest
        rw [hends, hrun]
        exact hwithout.andThen hrest fun e _ => List.exists_mem_cons_iff ..

end Specs

/-! ### Only what was named -/

section Named

variable {Package : Type} (c : Container σ) (sortStreams : List String → List String) (getModules : String → List Module × String)
  (content : String × String → Finset String) (name : Package → String) (installed : List Package)

/-- The enabled stream of the module is among the streams that one of the specs matches. -/
def EnabledNamed (s : σ) (moduleSpecs : List String) (moduleName : String) : Prop :=
  ∃ spec ∈ moduleSpecs, ∃ m ∈ (getModules spec).1, m.name = moduleName ∧ m.stream = c.getEnabledStream s moduleName

/-- However `remove` ends, it has uninstalled profiles of named streams only, and no package of a profile that is left is to be removed. -/
def RemovesNamed (s : Installed σ) (moduleSpecs : List String) : Prop :=
  (∀ e ∈ s.profiles, e ∉ (final (remove c sortStreams getModules content name installed moduleSpecs s)).profiles →
      EnabledNamed c getModules s.container moduleSpecs e.1) ∧
    ∀ noMatch removed t, remove c sortStreams getModules content name installed moduleSpecs s = .ok (noMatch, removed) t →
      ∀ p ∈ removed, ∀ e ∈ t.profiles, name p ∉ content e

theorem final_remove (s : Installed σ) (moduleSpecs : List String) :
    final (remove c sortStreams getModules content name installed moduleSpecs s) = final (moduleSpecs.foldlM (removeSpec c sortStreams getModules) {} s) := by
  rw [remove, bind_apply]
  cases moduleSpecs.foldlM (removeSpec c sortStreams getModules) {} s <;> rfl

/-- The packages are taken out of those of the profiles that are left when all is uninstalled. -/
theorem remove_keeps (s t : Installed σ) (moduleSpecs : List String) {noMatch : List String} {removed : List Package}
    (h : remove c sortStreams getModules content name installed moduleSpecs s = .ok (noMatch, removed) t) :
    ∀ p ∈ removed, ∀ e ∈ t.profiles, name p ∉ content e := by
  rw [remove, bind_apply] at h
  cases hrun : moduleSpecs.foldlM (removeSpec c sortStreams getModules) {} s with
  | error e u =>
      rw [hrun] at h
      cases h
  | ok progress u =>
      rw [hrun] at h
      obtain ⟨hresult, rfl⟩ := EStateM.Result.ok.inj h
      obtain ⟨-, rfl⟩ := Prod.mk.inj hresult
      intro p hp e he hcontent
      have hkept := (Finset.mem_sdiff.mp (of_decide_eq_true (List.mem_filter.mp hp).2)).2
      exact hkept (Finset.mem_biUnion.mpr ⟨e, List.mem_toFinset.mpr he, hcontent⟩)

/-- It is so exactly if, of each module of which a spec asks for an installed profile, the enabled stream is among those that some spec matches. -/
theorem removesNamed_iff (s : Installed σ) (moduleSpecs : List String) : RemovesNamed c sortStreams getModules content name installed s moduleSpecs ↔
    ∀ e ∈ s.profiles, (∃ spec ∈ reached c sortStreams getModules s.container moduleSpecs, SpecAsksFor c sortStreams getModules s.container spec e) →
      EnabledNamed c getModules s.container moduleSpecs e.1 := by
  rw [RemovesNamed, and_iff_left fun noMatch removed t h => remove_keeps c sortStreams getModules content name installed s t moduleSpecs h, final_remove]
  refine forall₂_congr fun e he => imp_congr_left ?_
  rw [(removeSpecs_without moduleSpecs {} s).profiles, not_and, not_not, imp_iff_right he]

end Named

/-- Stream 12 is enabled and has the profile `default` installed; `nodejs:10` is removed. -/
theorem not_removesNamed_other_stream : ¬RemovesNamed
    ⟨fun _ _ => .enabled, fun _ _ => "12", fun _ _ => "", fun _ _ s => .ok s⟩ id
    (fun _ => ([⟨"nodejs", "10", 1, fun _ => [⟨"default", ["nodejs", "npm"]⟩]⟩], "")) (fun _ => {"nodejs", "npm"}) (fun package : String => package) ["nodejs", "npm"]
    ⟨(), [("nodejs", "default")]⟩ ["nodejs:10"] := by
  intro h
  obtain ⟨spec, -, m, hm, -, hstream⟩ := h.1 ("nodejs", "default") List.mem_cons_self (by decide)
  rw [List.mem_singleton.mp hm] at hstream
  exact absurd hstream (by decide)

end Dnf.Modules
