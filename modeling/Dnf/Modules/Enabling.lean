import Dnf.Modules.ModuleDict

/-!
# Enabling, all or nothing

Where a spec matches modules of several names, the loop of `_create_module_dict_and_enable` enables a stream of one name before it looks at the next. A name that cannot be resolved raises, and `_resolve_specs_enable` goes on with what has been enabled until then.
-/

namespace Dnf.Modules

open Foundation Effect Listing

variable {σ : Type} {c : Container σ} {sortStreams : List String → List String} {spec : String}

/-- Nothing that the loop asks about the module has changed. -/
structure Same (c : Container σ) (s t : σ) (moduleName : String) : Prop where
  state : c.getModuleState t moduleName = c.getModuleState s moduleName
  enabledStream : c.getEnabledStream t moduleName = c.getEnabledStream s moduleName
  defaultStream : c.getDefaultStream t moduleName = c.getDefaultStream s moduleName
  enables : ∀ stream, (c.enable moduleName stream t).isOk = (c.enable moduleName stream s).isOk

/-- Enabling is about one module and one of its streams. -/
structure Container.Lawful (c : Container σ) : Prop where
  state : ∀ {moduleName stream s t}, c.enable moduleName stream s = .ok t → c.getModuleState t moduleName = .enabled
  enabledStream : ∀ {moduleName stream s t}, c.enable moduleName stream s = .ok t → c.getEnabledStream t moduleName = stream
  others : ∀ {moduleName stream s t other}, c.enable moduleName stream s = .ok t → other ≠ moduleName → Same c s t other

theorem Same.refl (s : σ) (moduleName : String) : Same c s s moduleName := ⟨rfl, rfl, rfl, fun _ => rfl⟩

theorem Same.trans {s t u : σ} {moduleName : String} (h : Same c s t moduleName) (h' : Same c t u moduleName) : Same c s u moduleName where
  state := h'.state.trans h.state
  enabledStream := h'.enabledStream.trans h.enabledStream
  defaultStream := h'.defaultStream.trans h.defaultStream
  enables stream := (h'.enables stream).trans (h.enables stream)

/-! ### One round -/

section Round

variable (c sortStreams spec)

/-- The stream of the name that is kept. -/
def keptStream (moduleName : String) (streams : StreamDict) (s : σ) : Except Exc String :=
  match streams with
  | [] => .error .assertion
  | [entry] => .ok entry.1
  | first :: second :: rest => chooseStream c sortStreams spec moduleName ((first :: second :: rest).map Prod.fst) s

/-- The stream that a round keeps and enables, and the state after it. -/
def resolution (moduleName : String) (streams : StreamDict) (s : σ) : Except Exc (String × σ) :=
  (keptStream c sortStreams spec moduleName streams s).bind fun stream =>
    match c.enable moduleName stream s with
    | .ok t => .ok (stream, t)
    | .error text => .error (.runtime text)

/-- The stream that a round keeps, if it raises nothing. -/
def resolved (s : σ) (entry : String × StreamDict) : Option String :=
  match resolution c sortStreams spec entry.1 entry.2 s with
  | .ok kept => some kept.1
  | .error _ => none

end Round

theorem filter_key_eq {κ ν : Type} [DecidableEq κ] {d : List (κ × ν)} (hd : (d.map Prod.fst).Nodup) {entry : κ × ν} (hentry : entry ∈ d) :
    d.filter (fun e => e.1 = entry.1) = [entry] := by
  induction d with
  | nil => cases hentry
  | cons first rest ih =>
      obtain ⟨hfirst, hrest⟩ := List.nodup_cons.mp hd
      rcases List.mem_cons.mp hentry with rfl | hmem
      · have hnone : rest.filter (fun e => e.1 = entry.1) = [] :=
          List.filter_eq_nil_iff.mpr fun e he heq => hfirst (of_decide_eq_true heq ▸ List.mem_map_of_mem he)
        rw [List.filter_cons, if_pos (decide_eq_true rfl), hnone]
      · rw [List.filter_cons_of_neg ?_, ih hrest hmem]
        exact fun heq => hfirst (of_decide_eq_true heq ▸ List.mem_map_of_mem hmem)

theorem chooseStream_mem {moduleName stream : String} {streams : List String} {s : σ}
    (h : chooseStream c sortStreams spec moduleName streams s = .ok stream) : stream ∈ streams := by
  rw [chooseStream] at h
  split at h
  · cases h
  · dsimp only at h
    generalize (if c.getModuleState s moduleName = .enabled then c.getEnabledStream s moduleName else c.getDefaultStream s moduleName) = kept at h
    split_ifs at h with hmissing
    obtain rfl := Except.ok.inj h
    exact not_not.mp (not_or.mp hmissing).2

theorem keptStream_mem {moduleName stream : String} {streams : StreamDict} {s : σ}
    (h : keptStream c sortStreams spec moduleName streams s = .ok stream) : stream ∈ streams.map Prod.fst := by
  rcases streams with _ | ⟨first, _ | ⟨second, rest⟩⟩
  · cases h
  · exact Except.ok.inj h ▸ List.mem_cons_self
  · exact chooseStream_mem h

theorem keepStream_error {moduleName : String} {streams : StreamDict} {s : σ} {e : Exc} (enable : Bool)
    (h : chooseStream c sortStreams spec moduleName (streams.map Prod.fst) s = .error e) :
    keepStream c sortStreams spec enable moduleName streams s = .error e s := by
  rw [keepStream, bind_apply, get_apply]
  dsimp only
  rw [h, lift_error_bind, throw_apply]

theorem keepStream_ok {moduleName stream : String} {streams : StreamDict} {s : σ} (enable : Bool)
    (h : chooseStream c sortStreams spec moduleName (streams.map Prod.fst) s = .ok stream) :
    keepStream c sortStreams spec enable moduleName streams s =
      match enableIf c enable moduleName stream s with
        | .ok _ t => .ok (streams.filter fun entry => entry.1 = stream) t
        | .error e t => .error e t := by
  rw [keepStream, bind_apply, get_apply]
  dsimp only
  rw [h, lift_ok_bind, bind_apply]
  cases enableIf c enable moduleName stream s <;> rfl

/-- What one round does, when it enables. -/
theorem resolveModule_enable {streams : StreamDict} (hstreams : (streams.map Prod.fst).Nodup) (moduleName : String) (s : σ) :
    resolveModule c sortStreams spec true moduleName streams s = match resolution c sortStreams spec moduleName streams s with
      | .ok kept => .ok (streams.filter fun entry => entry.1 = kept.1) kept.2
      | .error e => .error e s := by
  rcases streams with _ | ⟨first, _ | ⟨second, rest⟩⟩
  · rfl
  · have hone : ¬[first].length > 1 := Nat.lt_irrefl 1
    have hfilter := filter_key_eq hstreams List.mem_cons_self
    rw [resolveModule, resolution, keptStream, if_neg hone, bind_apply, enableKeys, bind_apply, enableIf, if_pos rfl, enableStream, Except.bind]
    cases henable : c.enable moduleName first.1 s with
    | error text => rfl
    | ok t =>
        dsimp only
        rw [hfilter]
        rfl
  · have hseveral : (first :: second :: rest).length > 1 := Nat.succ_lt_succ (Nat.succ_pos _)
    have hkept : keptStream c sortStreams spec moduleName (first :: second :: rest) s =
        chooseStream c sortStreams spec moduleName ((first :: second :: rest).map Prod.fst) s := rfl
    rw [resolveModule, resolution, hkept, if_pos hseveral, bind_apply]
    generalize first :: second :: rest = streams at hstreams ⊢
    cases hchoose : chooseStream c sortStreams spec moduleName (streams.map Prod.fst) s with
    | error e =>
        rw [keepStream_error true hchoose]
        rfl
    | ok stream =>
        obtain ⟨entry, hentry, rfl⟩ := List.mem_map.mp (chooseStream_mem hchoose)
        have hfilter := filter_key_eq hstreams hentry
        rw [keepStream_ok true hchoose, enableIf, if_pos rfl, enableStream, Except.bind]
        cases henable : c.enable moduleName entry.1 s with
        | error text => rfl
        | ok t =>
            dsimp only
            rw [hfilter]
            rfl

theorem keptStream_congr {s t : σ} {moduleName : String} (h : Same c s t moduleName) (streams : StreamDict) :
    keptStream c sortStreams spec moduleName streams t = keptStream c sortStreams spec moduleName streams s := by
  rcases streams with _ | ⟨first, _ | ⟨second, rest⟩⟩
  · rfl
  · rfl
  · rw [keptStream, keptStream, chooseStream, chooseStream, h.state, h.enabledStream, h.defaultStream]

/-- What a round does to a module is settled by what the container has for that module. -/
theorem resolved_congr {s t : σ} {entry : String × StreamDict} (h : Same c s t entry.1) :
    resolved c sortStreams spec t entry = resolved c sortStreams spec s entry := by
  rw [resolved, resolved, resolution, resolution, keptStream_congr h]
  cases keptStream c sortStreams spec entry.1 entry.2 s with
  | error e => rfl
  | ok stream =>
      have henables := h.enables stream
      dsimp only [Except.bind]
      cases hs : c.enable entry.1 stream s <;> cases ht : c.enable entry.1 stream t <;> rw [hs, ht] at henables <;> first | rfl | cases henables

theorem resolved_none {s : σ} {entry : String × StreamDict} {e : Exc} (h : resolution c sortStreams spec entry.1 entry.2 s = .error e) :
    resolved c sortStreams spec s entry = none := by
  rw [resolved, h]

theorem resolved_some {s u : σ} {entry : String × StreamDict} {stream : String} (h : resolution c sortStreams spec entry.1 entry.2 s = .ok (stream, u)) :
    resolved c sortStreams spec s entry = some stream ∧ c.enable entry.1 stream s = .ok u := by
  refine ⟨by rw [resolved, h], ?_⟩
  rw [resolution] at h
  cases hkept : keptStream c sortStreams spec entry.1 entry.2 s with
  | error e =>
      rw [hkept] at h
      cases h
  | ok kept =>
      rw [hkept, Except.bind] at h
      cases henable : c.enable entry.1 kept s with
      | error text =>
          rw [henable] at h
          cases h
      | ok t =>
          rw [henable] at h
          obtain ⟨rfl, rfl⟩ := Prod.mk.inj (Except.ok.inj h)
          exact henable

/-! ### The loop -/

/-- From `t` to `u` the streams of these names have been enabled, and nothing else. -/
structure Enabled (c : Container σ) (sortStreams : List String → List String) (spec : String) (s t u : σ) (entries : List (String × StreamDict)) : Prop where
  kept : ∀ entry ∈ entries, ∀ stream, resolved c sortStreams spec s entry = some stream →
    c.getModuleState u entry.1 = .enabled ∧ c.getEnabledStream u entry.1 = stream
  others : ∀ moduleName, moduleName ∉ entries.map Prod.fst → Same c t u moduleName

theorem resolveModules_enable (hc : c.Lawful) {s : σ} {entries : List (String × StreamDict)} (hnodup : (entries.map Prod.fst).Nodup)
    (hdict : ∀ entry ∈ entries, (entry.2.map Prod.fst).Nodup) {t : σ} (hsame : ∀ entry ∈ entries, Same c s t entry.1) :
    (∃ u, resolveModules c sortStreams spec true entries t =
          .ok (entries.map fun entry => (entry.1, entry.2.filter fun e => some e.1 = resolved c sortStreams spec s entry)) u ∧
        (∀ entry ∈ entries, (resolved c sortStreams spec s entry).isSome = true) ∧ Enabled c sortStreams spec s t u entries) ∨
      ∃ e u, resolveModules c sortStreams spec true entries t = .error e u ∧
        (∃ entry ∈ entries, resolved c sortStreams spec s entry = none) ∧
        Enabled c sortStreams spec s t u (entries.takeWhile fun entry => (resolved c sortStreams spec s entry).isSome) := by
  induction entries generalizing t with
  | nil =>
      exact .inl ⟨t, rfl, fun _ h => absurd h List.not_mem_nil, fun _ h => absurd h List.not_mem_nil, fun moduleName _ => .refl t moduleName⟩
  | cons entry entries ih =>
      obtain ⟨hentry, hnodup⟩ := List.nodup_cons.mp hnodup
      have hround := @resolveModule_enable _ c sortStreams spec _ (hdict entry List.mem_cons_self) entry.1 t
      have hresolved : resolved c sortStreams spec t entry = resolved c sortStreams spec s entry := resolved_congr (hsame entry List.mem_cons_self)
      rw [resolveModules, bind_apply, hround]
      cases hresolution : resolution c sortStreams spec entry.1 entry.2 t with
      | error e =>
          have hnone := hresolved ▸ resolved_none hresolution
          refine .inr ⟨e, t, rfl, ⟨entry, List.mem_cons_self, hnone⟩, ?_⟩
          rw [List.takeWhile_cons, hnone]
          exact ⟨fun _ h => absurd h List.not_mem_nil, fun moduleName _ => .refl t moduleName⟩
      | ok kept =>
          obtain ⟨stream, t'⟩ := kept
          obtain ⟨hsome, henable⟩ := resolved_some hresolution
          rw [hresolved] at hsome
          have hother : ∀ {moduleName}, moduleName ≠ entry.1 → Same c t t' moduleName := hc.others henable
          have hsame' : ∀ e ∈ entries, Same c s t' e.1 := fun e he =>
            (hsame e (List.mem_cons_of_mem _ he)).trans (hother fun heq => hentry (heq ▸ List.mem_map_of_mem he))
          -- the loop that follows leaves this module alone
          have hextend : ∀ {u done}, done ⊆ entries → Enabled c sortStreams spec s t' u done → Enabled c sortStreams spec s t u (entry :: done) := by
            intro u done hdone h
            have hkeeps : Same c t' u entry.1 := h.others entry.1 fun hmem => hentry (List.map_subset _ hdone hmem)
            refine ⟨fun e he kept hkept => ?_, fun moduleName hnot => ?_⟩
            · rcases List.mem_cons.mp he with rfl | he
              · obtain rfl := Option.some.inj (hsome.symm.trans hkept)
                exact ⟨hkeeps.state.trans (hc.state henable), hkeeps.enabledStream.trans (hc.enabledStream henable)⟩
              · exact h.kept e he kept hkept
            · obtain ⟨hne, hnot⟩ := not_or.mp (List.mem_cons.not.mp hnot)
              exact (hother hne).trans (h.others moduleName hnot)
          dsimp only
          rw [bind_apply]
          rcases ih hnodup (fun e he => hdict e (List.mem_cons_of_mem _ he)) hsame' with ⟨u, hrun, hall, henabled⟩ | ⟨e, u, hrun, hfails, henabled⟩
          · refine .inl ⟨u, ?_, ?_, hextend (List.Subset.refl _) henabled⟩
            · rw [hrun, List.map_cons, hsome]
              simp only [Option.some.injEq]
              rfl
            · exact List.forall_mem_cons.mpr ⟨by rw [hsome]; rfl, hall⟩
          · refine .inr ⟨e, u, ?_, ?_, ?_⟩
            · rw [hrun]
            · obtain ⟨failing, hmem, hnone⟩ := hfails
              exact ⟨failing, List.mem_cons_of_mem _ hmem, hnone⟩
            · rw [List.takeWhile_cons, hsome]
              exact hextend (List.takeWhile_subset _) henabled

/-! ### All or nothing -/

/-- The enabled state of the module is what it was. -/
def Untouched (c : Container σ) (s u : σ) (moduleName : String) : Prop :=
  c.getModuleState u moduleName = c.getModuleState s moduleName ∧ c.getEnabledStream u moduleName = c.getEnabledStream s moduleName

/-- What is returned for one name, and enabled: one stream, with modules that the spec matches. Of several streams it is the enabled one, or else the default one. -/
def OneStream (c : Container σ) (moduleList : List Module) (s u : σ) (entry : String × StreamDict) : Prop :=
  ∃ stream modules, entry.2 = [(stream, modules)] ∧ modules ≠ [] ∧ (∀ m ∈ modules, m ∈ moduleList ∧ m.name = entry.1 ∧ m.stream = stream) ∧
    c.getModuleState u entry.1 = .enabled ∧ c.getEnabledStream u entry.1 = stream ∧
    ((∃ m ∈ moduleList, m.name = entry.1 ∧ m.stream ≠ stream) →
      stream = if c.getModuleState s entry.1 = .enabled then c.getEnabledStream s entry.1 else c.getDefaultStream s entry.1)

structure AllEnabled (c : Container σ) (moduleList : List Module) (s u : σ) (dict : List (String × StreamDict)) : Prop where
  nodup : (dict.map Prod.fst).Nodup
  names : ∀ moduleName, moduleName ∈ dict.map Prod.fst ↔ ∃ m ∈ moduleList, m.name = moduleName
  streams : ∀ entry ∈ dict, OneStream c moduleList s u entry
  others : ∀ moduleName, moduleName ∉ dict.map Prod.fst → Untouched c s u moduleName

def AllOrNothing (c : Container σ) (sortStreams : List String → List String) (moduleList : List Module) (spec : String) (s : σ) : Prop :=
  (∀ dict u, createModuleDictAndEnable c sortStreams moduleList spec true s = .ok dict u → AllEnabled c moduleList s u dict) ∧
    ∀ e u, createModuleDictAndEnable c sortStreams moduleList spec true s = .error e u → ∀ moduleName, Untouched c s u moduleName

theorem chooseStream_eq {moduleName stream : String} {streams : List String} {s : σ}
    (h : chooseStream c sortStreams spec moduleName streams s = .ok stream) :
    stream = if c.getModuleState s moduleName = .enabled then c.getEnabledStream s moduleName else c.getDefaultStream s moduleName := by
  rw [chooseStream] at h
  split at h
  · cases h
  · dsimp only at h
    generalize (if c.getModuleState s moduleName = .enabled then c.getEnabledStream s moduleName else c.getDefaultStream s moduleName) = kept at h ⊢
    split_ifs at h with hmissing
    exact (Except.ok.inj h).symm

/-- A stream that is kept is one of the streams of the name, and chosen if there are others. -/
theorem resolved_spec {s : σ} {entry : String × StreamDict} {stream : String} (h : resolved c sortStreams spec s entry = some stream) :
    stream ∈ entry.2.map Prod.fst ∧ ((∃ other ∈ entry.2.map Prod.fst, other ≠ stream) →
      stream = if c.getModuleState s entry.1 = .enabled then c.getEnabledStream s entry.1 else c.getDefaultStream s entry.1) := by
  rw [resolved, resolution] at h
  cases hkept : keptStream c sortStreams spec entry.1 entry.2 s with
  | error e =>
      rw [hkept] at h
      cases h
  | ok kept =>
      rw [hkept, Except.bind] at h
      cases henable : c.enable entry.1 kept s with
      | error text =>
          rw [henable] at h
          cases h
      | ok t =>
          rw [henable] at h
          obtain rfl := Option.some.inj h
          refine ⟨keptStream_mem hkept, ?_⟩
          rintro ⟨other, hother, hne⟩
          generalize entry.2 = streams at hkept hother
          rcases streams with _ | ⟨first, _ | ⟨second, rest⟩⟩
          · cases hkept
          · obtain rfl := Except.ok.inj hkept
            exact absurd (List.mem_singleton.mp hother) hne
          · exact chooseStream_eq hkept

theorem oneStream_of_resolved {moduleList : List Module} {s u : σ} {entry : String × StreamDict} (hentry : entry ∈ moduleDict moduleList) {stream : String}
    (hresolved : resolved c sortStreams spec s entry = some stream)
    (hkept : c.getModuleState u entry.1 = .enabled ∧ c.getEnabledStream u entry.1 = stream) :
    OneStream c moduleList s u (entry.1, entry.2.filter fun e => some e.1 = resolved c sortStreams spec s entry) := by
  obtain ⟨moduleName, streams⟩ := entry
  obtain ⟨rfl, -⟩ := (mem_moduleDict moduleList moduleName streams).mp hentry
  obtain ⟨hmem, hchosen⟩ := resolved_spec hresolved
  obtain ⟨⟨stream', modules⟩, hkey, rfl⟩ := List.mem_map.mp hmem
  obtain ⟨hmodules, hne⟩ := (mem_streamDict _ _ _).mp hkey
  refine ⟨stream', modules, ?_, hne, ?_, hkept.1, hkept.2, ?_⟩
  · rw [hresolved]
    simp only [Option.some.injEq]
    exact filter_key_eq (nodup_streamDict _) hkey
  · intro m hm
    rw [hmodules, ofName, List.mem_filter, List.mem_filter] at hm
    exact ⟨hm.1.1, of_decide_eq_true hm.1.2, of_decide_eq_true hm.2⟩
  · rintro ⟨m, hm, hname, hstream⟩
    have hsome : m ∈ (ofName moduleName moduleList).filter fun m' => m'.stream = m.stream :=
      List.mem_filter.mpr ⟨List.mem_filter.mpr ⟨hm, decide_eq_true hname⟩, decide_eq_true rfl⟩
    exact hchosen ⟨m.stream, List.mem_map.mpr ⟨(m.stream, _), (mem_streamDict _ _ _).mpr ⟨rfl, List.ne_nil_of_mem hsome⟩, rfl⟩, hstream⟩

theorem mem_names (moduleList : List Module) (moduleName : String) :
    moduleName ∈ (moduleDict moduleList).map Prod.fst ↔ ∃ m ∈ moduleList, m.name = moduleName := by
  have hmatched : ofName moduleName moduleList ≠ [] ↔ ∃ m ∈ moduleList, m.name = moduleName := by
    rw [ofName, Ne, List.filter_eq_nil_iff]
    simp
  rw [← hmatched, List.mem_map]
  constructor
  · rintro ⟨⟨name, streams⟩, hentry, rfl⟩
    exact ((mem_moduleDict moduleList name streams).mp hentry).2
  · exact fun hne => ⟨(moduleName, _), (mem_moduleDict moduleList moduleName _).mpr ⟨rfl, hne⟩, rfl⟩

/-- It is so exactly if each name that the spec matches resolves, or each of those before the first that does not has been enabled before, with the stream it resolves to. -/
theorem allOrNothing_iff (hc : c.Lawful) (moduleList : List Module) (spec : String) (s : σ) : AllOrNothing c sortStreams moduleList spec s ↔
    (∀ entry ∈ moduleDict moduleList, (resolved c sortStreams spec s entry).isSome = true) ∨
      ∀ entry ∈ (moduleDict moduleList).takeWhile fun entry => (resolved c sortStreams spec s entry).isSome, ∀ stream,
        resolved c sortStreams spec s entry = some stream → c.getModuleState s entry.1 = .enabled ∧ c.getEnabledStream s entry.1 = stream := by
  have hdict : ∀ entry ∈ moduleDict moduleList, (entry.2.map Prod.fst).Nodup := by
    rintro ⟨moduleName, streams⟩ hentry
    rw [((mem_moduleDict moduleList moduleName streams).mp hentry).1]
    exact nodup_streamDict _
  have hrun := @resolveModules_enable _ c sortStreams spec hc s (moduleDict moduleList) (nodup_moduleDict moduleList) hdict s fun entry _ => .refl s entry.1
  rw [AllOrNothing, createModuleDictAndEnable]
  rcases hrun with ⟨u, hok, hall, henabled⟩ | ⟨e, u, herror, ⟨entry, hentry, hnone⟩, henabled⟩
  · refine iff_of_true ⟨fun dict t h => ?_, fun e t h => ?_⟩ (.inl hall)
    · obtain ⟨rfl, rfl⟩ := EStateM.Result.ok.inj (hok.symm.trans h)
      have hkeys : ((moduleDict moduleList).map fun entry => (entry.1, entry.2.filter fun e => some e.1 = resolved c sortStreams spec s entry)).map Prod.fst =
          (moduleDict moduleList).map Prod.fst := by
        rw [List.map_map]
        rfl
      refine ⟨hkeys ▸ nodup_moduleDict moduleList, fun moduleName => hkeys ▸ mem_names moduleList moduleName, ?_, ?_⟩
      · intro entry hentry
        obtain ⟨entry, hmem, rfl⟩ := List.mem_map.mp hentry
        obtain ⟨stream, hstream⟩ := Option.isSome_iff_exists.mp (hall entry hmem)
        exact oneStream_of_resolved hmem hstream (henabled.kept entry hmem stream hstream)
      · intro moduleName hnot
        have hsame := henabled.others moduleName (hkeys ▸ hnot)
        exact ⟨hsame.state, hsame.enabledStream⟩
    · rw [hok] at h
      cases h
  · have hnotAll : ¬∀ entry ∈ moduleDict moduleList, (resolved c sortStreams spec s entry).isSome = true := by
      intro hall
      have hsome := hall entry hentry
      rw [hnone] at hsome
      cases hsome
    rw [or_iff_right hnotAll]
    constructor
    · rintro ⟨-, hraises⟩ done hdone stream hstream
      obtain ⟨hstate, henabledStream⟩ := henabled.kept done hdone stream hstream
      obtain ⟨hsame, hsameStream⟩ := hraises e u herror done.1
      exact ⟨hsame.symm.trans hstate, hsameStream.symm.trans henabledStream⟩
    · refine fun hbefore => ⟨fun dict t h => ?_, fun e' t h => ?_⟩
      · rw [herror] at h
        cases h
      · obtain ⟨rfl, rfl⟩ := EStateM.Result.error.inj (herror.symm.trans h)
        intro moduleName
        by_cases hmem : moduleName ∈ ((moduleDict moduleList).takeWhile fun entry => (resolved c sortStreams spec s entry).isSome).map Prod.fst
        · obtain ⟨done, hdone, rfl⟩ := List.mem_map.mp hmem
          obtain ⟨stream, hstream⟩ := Option.isSome_iff_exists.mp (List.all_eq_true.mp List.all_takeWhile done hdone)
          obtain ⟨hstate, henabledStream⟩ := henabled.kept done hdone stream hstream
          obtain ⟨hstate', henabledStream'⟩ := hbefore done hdone stream hstream
          exact ⟨hstate.trans hstate'.symm, henabledStream.trans henabledStream'.symm⟩
        · have hsame := henabled.others moduleName hmem
          exact ⟨hsame.state, hsame.enabledStream⟩

/-! ### A container that is a table -/

/-- A state has, for each module, whether it is enabled or what else, and the stream if it is. Enabling never raises. -/
def tableContainer (getDefaultStream : String → String) : Container (String → ModuleState × String) where
  getModuleState s moduleName := (s moduleName).1
  getEnabledStream s moduleName := (s moduleName).2
  getDefaultStream _ := getDefaultStream
  enable moduleName stream s := .ok fun other => if other = moduleName then (.enabled, stream) else s other

theorem tableContainer_lawful (getDefaultStream : String → String) : (tableContainer getDefaultStream).Lawful where
  state {moduleName stream s t} h := by
    rw [← Except.ok.inj h]
    exact congrArg Prod.fst (if_pos rfl)
  enabledStream {moduleName stream s t} h := by
    rw [← Except.ok.inj h]
    exact congrArg Prod.snd (if_pos rfl)
  others {moduleName stream s t other} h hne := by
    rw [← Except.ok.inj h]
    exact ⟨congrArg Prod.fst (if_neg hne), congrArg Prod.snd (if_neg hne), rfl, fun _ => rfl⟩

theorem allOrNothing_iff_default : AllOrNothing (tableContainer fun _ => "18") id [⟨"nodejs", "18", 0, fun _ => []⟩, ⟨"nodejs", "20", 0, fun _ => []⟩] "nodejs"
      (fun _ => (.default, "")) ↔
    (∀ entry ∈ moduleDict [⟨"nodejs", "18", 0, fun _ => []⟩, ⟨"nodejs", "20", 0, fun _ => []⟩],
        (resolved (tableContainer fun _ => "18") id "nodejs" (fun _ => (.default, "")) entry).isSome = true) ∨
      ∀ entry ∈ (moduleDict [⟨"nodejs", "18", 0, fun _ => []⟩, ⟨"nodejs", "20", 0, fun _ => []⟩]).takeWhile fun entry =>
          (resolved (tableContainer fun _ => "18") id "nodejs" (fun _ => (.default, "")) entry).isSome, ∀ stream,
        resolved (tableContainer fun _ => "18") id "nodejs" (fun _ => (.default, "")) entry = some stream →
          (tableContainer fun _ => "18").getModuleState (fun _ => (.default, "")) entry.1 = .enabled ∧
            (tableContainer fun _ => "18").getEnabledStream (fun _ => (.default, "")) entry.1 = stream :=
  allOrNothing_iff (tableContainer_lawful _) _ _ _

/-- `perl` has one stream and is enabled; then `php` has two, and neither is enabled or default. -/
theorem not_allOrNothing_two_names : ¬AllOrNothing (tableContainer fun _ => "") id
    [⟨"perl", "5.36", 0, fun _ => []⟩, ⟨"php", "8.1", 0, fun _ => []⟩, ⟨"php", "8.2", 0, fun _ => []⟩] "p*" (fun _ => (.unknown, "")) := by
  intro h
  have huntouched := (h.2 _ _ rfl "perl").1
  revert huntouched
  decide

end Dnf.Modules
