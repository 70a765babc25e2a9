import Dnf.Transaction.Callback

/-!
# The element a callback is about

What a callback keeps for the next one cannot be told from a search: it is used only for an element with the text it was found under. So every callback is about its key's item or about the element that rpm has announced last, after any events. Along the way no output of a scriptlet is lost.
-/

namespace Dnf.Transaction.Callback

open Foundation Foundation.Effect
open History (Action)

variable {rpm : Rpm}

/-- The package and the action of an element without a key of its own. -/
def Rpm.searched (rpm : Rpm) (te : Te) (cbkey : Key) : Except Exc (Package × Action) :=
  if (rpm.itemsOf te).isEmpty then .error (.runtimeError cbkey) else firstOf (rpm.itemsOf te)

def Rpm.concerned (rpm : Rpm) (te : Option Te) (cbkey : Key) : Except Exc (Package × Action) :=
  match cbkey with
  | .tsi tsi => firstOf [tsi]
  | cbkey =>
      match te with
      | none => .error .indexError
      | some te => rpm.searched te cbkey

/-! ### The cache -/

/-- Where the cache answers, it answers as the search does. -/
def Sound (rpm : Rpm) (cache : Option (List Item)) : Prop := ∀ te items, cached cache te = some items → items = rpm.itemsOf te ∧ items ≠ []

theorem itemsOf_congr {te te' : Te} (h : te.nevra = te'.nevra) : rpm.itemsOf te = rpm.itemsOf te' := by
  rw [Rpm.itemsOf, Rpm.itemsOf, h]

theorem sound_none : Sound rpm none := by
  intro te items h
  cases h

theorem sound_itemsOf (te : Te) : Sound rpm (some (rpm.itemsOf te)) := by
  intro te' items h
  cases hfound : rpm.itemsOf te with
  | nil =>
      rw [hfound] at h
      cases h
  | cons tsi rest =>
      have hmem : tsi ∈ rpm.itemsOf te := hfound ▸ List.mem_cons_self
      rw [Rpm.itemsOf, List.mem_filter, Bool.and_eq_true, beq_iff_eq] at hmem
      rw [hfound, cached, Option.ite_none_right_eq_some, Option.some.injEq] at h
      obtain ⟨htext, rfl⟩ := h
      refine ⟨?_, List.cons_ne_nil _ _⟩
      rw [← hfound]
      exact itemsOf_congr (hmem.2.2.symm.trans htext)

/-- A callback finds what a search finds, and keeps what a search would find again. -/
theorem firstItem_apply (cbkey : Key) {s : State} (hsound : Sound rpm s.tsiCache) :
    ∃ cache, Sound rpm cache ∧ firstItem rpm cbkey s = lift (rpm.concerned s.teList[s.teIndex]? cbkey) { s with tsiCache := cache } := by
  have hsearch : ∀ key, ∃ cache, Sound rpm cache ∧ (searchCbkey rpm key >>= fun items => lift (firstOf items)) s =
      lift (match s.teList[s.teIndex]? with
        | none => .error .indexError
        | some te => rpm.searched te key) { s with tsiCache := cache } := by
    intro key
    rw [bind_apply, searchCbkey, bind_apply, get_apply]
    dsimp only
    cases hte : s.teList[s.teIndex]? with
    | none => exact ⟨s.tsiCache, hsound, rfl⟩
    | some te =>
        dsimp only
        rw [Rpm.searched]
        cases hcached : cached s.tsiCache te with
        | some items =>
            obtain ⟨rfl, hne⟩ := hsound te items hcached
            refine ⟨s.tsiCache, hsound, ?_⟩
            rw [List.isEmpty_eq_false_iff.mpr hne]
            rfl
        | none =>
            dsimp only
            by_cases hempty : (rpm.itemsOf te).isEmpty = true
            · rw [if_pos hempty, if_pos hempty]
              exact ⟨s.tsiCache, hsound, rfl⟩
            · rw [if_neg hempty, if_neg hempty]
              exact ⟨some (rpm.itemsOf te), sound_itemsOf te, rfl⟩
  cases cbkey with
  | tsi tsi =>
      refine ⟨s.tsiCache, hsound, ?_⟩
      rw [firstItem, extractCbkey, Rpm.concerned]
      cases hpkg : pkgOf tsi with
      | error e => rw [firstOf, hpkg]; rfl
      | ok pkg => rfl
  | name name => exact hsearch (.name name)
  | none => exact hsearch .none

/-! ### One callback -/

def State.show (s : State) (shown : Shown) : State := { s with shown := s.shown ++ [shown] }

def State.fault (s : State) (e : Exc) : State := { s with faults := s.faults ++ [e] }

/-- The end of a callback that needed to know what it is about. -/
def State.settle (s : State) (cache : Option (List Item)) (first : Except Exc (Package × Action)) (g : Package × Action → State → State) : State :=
  match first with
  | .ok first => g first { s with tsiCache := cache }
  | .error e => State.fault { s with tsiCache := cache } e

def State.read (s : State) : State :=
  if s.pipe = "" then s else { s with pipe := "", shown := s.shown ++ [.scriptout s.pipe], logged := s.logged ++ [s.pipe] }

def State.opens (s : State) (rpm : Rpm) (file : Except String Nat) (first : Package × Action) : State :=
  match file with
  | .error e => s.show (.error ("Error: Cannot open file " ++ rpm.localPkg first.1 ++ ": " ++ e))
  | .ok fd =>
      let s := { s with fd := some fd, opened := s.opened ++ [fd] }
      if s.transRunning then { s with totalInstalled := s.totalInstalled + 1, installedPkgNames := insert first.1.name s.installedPkgNames } else s

def State.progress (s : State) (amount total : Nat) (first : Package × Action) : State :=
  s.show (.progress (.package first.1) (.item first.2) (some amount) (some total) (some s.completeActions) (some s.totalActions))

def State.script (s : State) (about : About) : State :=
  s.show (.progress about .scriptlet (some 100) (some 100) (some s.scriptNumbers.1) (some s.scriptNumbers.2))

def Rpm.about (rpm : Rpm) (s : State) (key : Key) : Except Exc (Package × Action) := rpm.concerned s.teList[s.teIndex]? key

/-- A callback that searches each time, and leaves `cache` behind where it has searched. -/
def plain (rpm : Rpm) (cache : Option (List Item)) (s : State) : Event → State
  | .write text => { s with pipe := s.pipe ++ text }
  | .transStart total => if rpm.test then { s with totalActions := total } else { s with totalActions := total, transRunning := true, teList := rpm.ts }
  | .transProgress amount total => s.show (.progress (.text "") .preparation (some (amount + 1)) (some total) (some 1) (some 1))
  | .elemProgress key index =>
      let s := { s with teIndex := index, completeActions := s.completeActions + 1 }
      if rpm.test then s else s.settle cache (rpm.about s key) fun first s => s.show (.filelog first.1 first.2)
  | .instOpenFile key file => s.settle cache (rpm.about s key) fun first s => s.opens rpm file first
  | .instCloseFile =>
      match s.fd with
      | none => s.fault .attributeError
      | some fd => { s with fd := none, closed := s.closed ++ [fd] }
  | .instStop =>
      if rpm.test || !s.transRunning then s
      else if s.completeActions = s.totalActions then s.read.show (.progress .none .post none none none none) else s.read
  | .instProgress amount total key => s.settle cache (rpm.about s key) fun first s => s.progress amount total first
  | .uninstStart => { s with totalRemoved := s.totalRemoved + 1 }
  | .uninstStop => if rpm.test then s else s.read
  | .uninstProgress amount total key => s.settle cache (rpm.about s key) fun first s => s.progress amount total first
  | .cpioError key => s.settle cache (rpm.about s key) fun first s => s.show (.error (cpioMessage first.1))
  | .unpackError key => s.read.settle cache (rpm.about s key) fun first s => s.show (.error (unpackMessage first.1))
  | .scriptError amount key => s.settle cache (rpm.about s key) fun first s => s.show (.error (scriptMessage rpm amount first.1))
  | .scriptStart key =>
      if key = .none ∧ s.teList.isEmpty then s.script (.text "None") else s.settle cache (rpm.about s key) fun first s => s.script (.package first.1)
  | .scriptStop => s.read
  | .other => s

theorem read_tsiCache (s : State) : s.read.tsiCache = s.tsiCache := by
  rw [State.read]
  split_ifs <;> rfl

theorem read_about (s : State) (key : Key) : rpm.about s.read key = rpm.about s key := by
  rw [State.read]
  split_ifs <;> rfl

/-- What a callback does after its search is a change of the state. -/
theorem settles {s : State} (t : State) (event : Event) (key : Key) (g : Package × Action → State → State) (hsound : Sound rpm s.tsiCache)
    (hhandle : handle rpm event t = (firstItem rpm key >>= fun first => modify (g first)) s) :
    ∃ cache, Sound rpm cache ∧ step rpm t event = s.settle cache (rpm.about s key) g := by
  obtain ⟨cache, hcache, hfirst⟩ := firstItem_apply key hsound
  refine ⟨cache, hcache, ?_⟩
  rw [step, callback, tryCatch_apply, hhandle, bind_apply, hfirst, ← Rpm.about]
  cases rpm.about s key with
  | ok first => rfl
  | error e => rfl

/-- Every callback ends as one that searches each time. -/
theorem step_plain (event : Event) {s : State} (hsound : Sound rpm s.tsiCache) :
    ∃ cache, Sound rpm cache ∧ step rpm s event = plain rpm cache s event := by
  have hdone : ∀ {t : State} {event : Event}, handle rpm event s = .ok () t → step rpm s event = t := by
    intro t event hhandle
    rw [step, callback, tryCatch_apply, hhandle]
    rfl
  cases event with
  | write text => exact ⟨none, sound_none, rfl⟩
  | transStart total => exact ⟨none, sound_none, rfl⟩
  | transProgress amount total => exact ⟨none, sound_none, rfl⟩
  | elemProgress key index =>
      cases htest : rpm.test with
      | true =>
          refine ⟨none, sound_none, hdone ?_⟩
          simp only [handle, elemProgress, plain, htest]
          rfl
      | false =>
          let u : State := { s with teIndex := index, completeActions := s.completeActions + 1 }
          have hu : Sound rpm u.tsiCache := hsound
          obtain ⟨cache, hcache, hstep⟩ := settles s (.elemProgress key index) key (fun first s => s.show (.filelog first.1 first.2)) hu
            (by simp only [handle, elemProgress, htest]; rfl)
          refine ⟨cache, hcache, ?_⟩
          rw [hstep, plain, htest]
          rfl
  | instOpenFile key file =>
      refine settles s (.instOpenFile key file) key (fun first s => s.opens rpm file first) hsound ?_
      cases file with
      | error e => rfl
      | ok fd => rfl
  | instCloseFile =>
      refine ⟨none, sound_none, ?_⟩
      rw [step, callback, tryCatch_apply, handle, instCloseFile, bind_apply, get_apply, plain]
      dsimp only
      cases s.fd with
      | none => rfl
      | some fd => rfl
  | instStop =>
      refine ⟨none, sound_none, hdone ?_⟩
      rw [handle, instStop, bind_apply, get_apply, plain]
      dsimp only
      split_ifs <;> rfl
  | instProgress amount total key => exact settles s (.instProgress amount total key) key (fun first s => s.progress amount total first) hsound rfl
  | uninstStart => exact ⟨none, sound_none, rfl⟩
  | uninstStop =>
      refine ⟨none, sound_none, hdone ?_⟩
      rw [handle, plain]
      split_ifs <;> rfl
  | uninstProgress amount total key => exact settles s (.uninstProgress amount total key) key (fun first s => s.progress amount total first) hsound rfl
  | cpioError key => exact settles s (.cpioError key) key (fun first s => s.show (.error (cpioMessage first.1))) hsound rfl
  | unpackError key =>
      obtain ⟨cache, hcache, hstep⟩ := settles s (.unpackError key) key (fun first s => s.show (.error (unpackMessage first.1)))
        (s := s.read) (by rwa [read_tsiCache]) rfl
      exact ⟨cache, hcache, by rw [hstep, read_about, plain]⟩
  | scriptError amount key => exact settles s (.scriptError amount key) key (fun first s => s.show (.error (scriptMessage rpm amount first.1))) hsound rfl
  | scriptStart key =>
      by_cases hnone : key = .none ∧ s.teList.isEmpty
      · refine ⟨none, sound_none, hdone ?_⟩
        rw [handle, scriptStart, bind_apply, get_apply, plain, if_pos hnone]
        dsimp only
        rw [if_pos hnone]
        rfl
      · obtain ⟨cache, hcache, hfirst⟩ := firstItem_apply key hsound
        refine ⟨cache, hcache, ?_⟩
        rw [step, callback, tryCatch_apply, handle, scriptStart, bind_apply, get_apply, plain, if_neg hnone]
        dsimp only
        rw [if_neg hnone, bind_apply, hfirst, ← Rpm.about]
        cases rpm.about s key with
        | ok first => rfl
        | error e => rfl
  | scriptStop => exact ⟨none, sound_none, rfl⟩
  | other => exact ⟨none, sound_none, rfl⟩

/-! ### Any run -/

def Event.announced : Event → Option Nat
  | .elemProgress _ index => some index
  | _ => none

def Event.total : Event → Option Nat
  | .transStart total => some total
  | _ => none

def Event.text : Event → String
  | .write text => text
  | _ => ""

def Shown.msgs : Shown → Option String
  | .scriptout msgs => some msgs
  | _ => none

/-- The elements are known from the start of a transaction that is no test. -/
def Rpm.started (rpm : Rpm) (events : List Event) : Bool := !rpm.test && events.any fun event => event.total.isSome

def announced (events : List Event) : List Nat := events.filterMap Event.announced

/-- The element that was announced last. -/
def Rpm.current (rpm : Rpm) (events : List Event) : Option Te :=
  if rpm.started events then rpm.ts[(announced events).getLast?.getD 0]? else none

/-- The state after the events, but for what is found in the transaction. -/
structure Follows (rpm : Rpm) (events : List Event) (s : State) : Prop where
  sound : Sound rpm s.tsiCache
  running : s.transRunning = rpm.started events
  teList : s.teList = if rpm.started events then rpm.ts else []
  teIndex : s.teIndex = (announced events).getLast?.getD 0
  completeActions : s.completeActions = (announced events).length
  totalActions : s.totalActions = (events.filterMap Event.total).getLast?.getD 0
  logged : s.shown.filterMap Shown.msgs = s.logged
  output : String.join s.logged ++ s.pipe = String.join (events.map Event.text)

theorem follows_nil : Follows rpm [] {} := by
  refine ⟨sound_none, ?_, ?_, rfl, rfl, rfl, rfl, rfl⟩
  · simp [Rpm.started]
  · simp [Rpm.started]

/-- What the numbers and the elements of a state are. -/
def State.numbers (s : State) : Bool × List Te × Nat × Nat × Nat := (s.transRunning, s.teList, s.teIndex, s.completeActions, s.totalActions)

def State.spoken (s : State) : List String × List String × String := (s.shown.filterMap Shown.msgs, s.logged, s.pipe)

theorem show_spoken {shown : Shown} (hshown : shown.msgs = none) (s : State) : (s.show shown).spoken = s.spoken := by
  simp [State.show, State.spoken, hshown]

/-- `t` differs from `s` in what is shown of items and in what only files and counters need. -/
structure Framed (s t : State) : Prop where
  numbers : t.numbers = s.numbers
  spoken : t.spoken = s.spoken
  tsiCache : t.tsiCache = s.tsiCache

theorem framed_show {shown : Shown} (hshown : shown.msgs = none) (s : State) : Framed s (s.show shown) := ⟨rfl, show_spoken hshown s, rfl⟩

theorem settle_frame (s : State) (cache : Option (List Item)) (first : Except Exc (Package × Action)) {g : Package × Action → State → State}
    (hg : ∀ first t, Framed t (g first t)) : Framed { s with tsiCache := cache } (s.settle cache first g) := by
  cases first with
  | ok first => exact hg first _
  | error e => exact ⟨rfl, rfl, rfl⟩

theorem opens_frame (file : Except String Nat) (first : Package × Action) (s : State) : Framed s (s.opens rpm file first) := by
  cases file with
  | error e => exact framed_show rfl s
  | ok fd =>
      rw [State.opens]
      split_ifs <;> exact ⟨rfl, rfl, rfl⟩

/-- From `s` to `t` the text is written, and nothing of what was written is lost. -/
def Says (s t : State) (text : String) : Prop :=
  (s.shown.filterMap Shown.msgs = s.logged → t.shown.filterMap Shown.msgs = t.logged) ∧ String.join t.logged ++ t.pipe = String.join s.logged ++ s.pipe ++ text

theorem says_of_spoken {s t : State} (h : t.spoken = s.spoken) : Says s t "" := by
  rw [State.spoken, State.spoken, Prod.mk.injEq, Prod.mk.injEq] at h
  rw [Says, h.1, h.2.1, h.2.2, String.append_empty]
  exact ⟨id, rfl⟩

theorem says_read (s : State) : Says s s.read "" := by
  rw [State.read]
  split_ifs with hempty
  · exact says_of_spoken rfl
  · refine ⟨fun h => ?_, ?_⟩
    · rw [List.filterMap_append, h]
      rfl
    · simp [String.join_append]

theorem Says.then_spoken {s t u : State} {text : String} (h : Says s t text) (hspoken : u.spoken = t.spoken) : Says s u text := by
  rw [State.spoken, State.spoken, Prod.mk.injEq, Prod.mk.injEq] at hspoken
  rw [Says, hspoken.1, hspoken.2.1, hspoken.2.2]
  exact h

theorem read_numbers (s : State) : s.read.numbers = s.numbers := by
  rw [State.read]
  split_ifs <;> rfl

/-- What the later callbacks need is as after `s`; the cache may be a new one. -/
structure Carries (cache : Option (List Item)) (s t : State) (text : String) : Prop where
  numbers : t.numbers = s.numbers
  output : Says s t text
  tsiCache : t.tsiCache = s.tsiCache ∨ t.tsiCache = cache

theorem Framed.carries {cache : Option (List Item)} {s t : State} (h : Framed s t) : Carries cache s t "" :=
  ⟨h.numbers, says_of_spoken h.spoken, .inl h.tsiCache⟩

theorem carries_settle (s : State) (cache : Option (List Item)) (first : Except Exc (Package × Action)) {g : Package × Action → State → State}
    (hg : ∀ first t, Framed t (g first t)) : Carries cache s (s.settle cache first g) "" := by
  have hframed := settle_frame s cache first hg
  exact ⟨hframed.numbers, says_of_spoken hframed.spoken, .inr hframed.tsiCache⟩

theorem carries_read (cache : Option (List Item)) (s : State) : Carries cache s s.read "" := ⟨read_numbers s, says_read s, .inl (read_tsiCache s)⟩

theorem Carries.then_framed {cache : Option (List Item)} {s t u : State} {text : String} (h : Carries cache s t text) (hframed : Framed t u) :
    Carries cache s u text :=
  ⟨hframed.numbers.trans h.numbers, h.output.then_spoken hframed.spoken, hframed.tsiCache ▸ h.tsiCache⟩

/-- The numbers only change at the start of the transaction and when an element is announced. -/
theorem plain_carries (rpm : Rpm) (cache : Option (List Item)) (s : State) {event : Event} (hannounced : event.announced = none) (htotal : event.total = none) :
    Carries cache s (plain rpm cache s event) event.text := by
  cases event with
  | write text => exact ⟨rfl, ⟨id, String.append_assoc.symm⟩, .inl rfl⟩
  | transStart total => cases htotal
  | transProgress amount total => exact (framed_show rfl s).carries
  | elemProgress key index => cases hannounced
  | instOpenFile key file => exact carries_settle s cache _ (opens_frame file)
  | instCloseFile =>
      rw [plain]
      cases s.fd <;> exact ⟨rfl, says_of_spoken rfl, .inl rfl⟩
  | instStop =>
      rw [plain]
      split_ifs
      · exact ⟨rfl, says_of_spoken rfl, .inl rfl⟩
      · exact (carries_read cache s).then_framed (framed_show rfl _)
      · exact carries_read cache s
  | instProgress amount total key => exact carries_settle s cache _ fun _ => framed_show rfl
  | uninstStart => exact ⟨rfl, says_of_spoken rfl, .inl rfl⟩
  | uninstStop =>
      rw [plain]
      split_ifs
      · exact ⟨rfl, says_of_spoken rfl, .inl rfl⟩
      · exact carries_read cache s
  | uninstProgress amount total key => exact carries_settle s cache _ fun _ => framed_show rfl
  | cpioError key => exact carries_settle s cache _ fun _ => framed_show rfl
  | unpackError key =>
      have hframed := settle_frame s.read cache (rpm.about s key) (g := fun first s => s.show (.error (unpackMessage first.1))) fun _ => framed_show rfl
      exact ⟨hframed.numbers.trans (read_numbers s), (says_read s).then_spoken hframed.spoken, .inr hframed.tsiCache⟩
  | scriptError amount key => exact carries_settle s cache _ fun _ => framed_show rfl
  | scriptStart key =>
      rw [plain]
      split_ifs
      · exact (framed_show rfl s).carries
      · exact carries_settle s cache _ fun _ t => framed_show rfl t
  | scriptStop => exact carries_read cache s
  | other => exact ⟨rfl, says_of_spoken rfl, .inl rfl⟩

theorem started_concat (events : List Event) (event : Event) :
    rpm.started (events ++ [event]) = (rpm.started events || !rpm.test && event.total.isSome) := by
  simp [Rpm.started, Bool.and_or_distrib_left]

theorem announced_concat (events : List Event) (event : Event) : announced (events ++ [event]) = announced events ++ event.announced.toList := by
  rw [announced, List.filterMap_append]
  rfl

theorem Follows.carried {events events' : List Event} {s t : State} {text : String} {cache : Option (List Item)} (h : Follows rpm events s)
    (hcache : Sound rpm cache) (hcarries : Carries cache s t text) (hstarted : rpm.started events' = rpm.started events)
    (hlist : announced events' = announced events) (htotals : events'.filterMap Event.total = events.filterMap Event.total)
    (htext : String.join (events'.map Event.text) = String.join (events.map Event.text) ++ text) : Follows rpm events' t := by
  have hnumbers := hcarries.numbers
  simp only [State.numbers, Prod.mk.injEq] at hnumbers
  obtain ⟨hrunning, hteList, hteIndex, hcomplete, htotalActions⟩ := hnumbers
  refine ⟨?_, ?_, ?_, ?_, ?_, ?_, hcarries.output.1 h.logged, ?_⟩
  · rcases hcarries.tsiCache with heq | heq
    · exact heq ▸ h.sound
    · exact heq ▸ hcache
  · rw [hrunning, h.running, hstarted]
  · rw [hteList, h.teList, hstarted]
  · rw [hteIndex, h.teIndex, hlist]
  · rw [hcomplete, h.completeActions, hlist]
  · rw [htotalActions, h.totalActions, htotals]
  · rw [hcarries.output.2, h.output, htext]

theorem Follows.transStart {events : List Event} {s : State} (h : Follows rpm events s) (cache : Option (List Item)) (total : Nat) :
    Follows rpm (events ++ [.transStart total]) (plain rpm cache s (.transStart total)) := by
  have hlist : announced (events ++ [.transStart total]) = announced events := by rw [announced_concat]; exact List.append_nil _
  have htext : String.join ((events ++ [Event.transStart total]).map Event.text) = String.join (events.map Event.text) := by simp [String.join_append, Event.text]
  have hrunning := h.running
  have hteList := h.teList
  rw [plain]
  split_ifs with htest
  · refine ⟨h.sound, ?_, ?_, ?_, ?_, by simp [Event.total], h.logged, ?_⟩
    · simp [hrunning, Rpm.started, htest]
    · simp [hteList, Rpm.started, htest]
    · rw [hlist, ← h.teIndex]
    · rw [hlist, ← h.completeActions]
    · rw [htext, ← h.output]
  · refine ⟨h.sound, ?_, ?_, ?_, ?_, by simp [Event.total], h.logged, ?_⟩
    · simp [Rpm.started, htest, Event.total]
    · simp [Rpm.started, htest, Event.total]
    · rw [hlist, ← h.teIndex]
    · rw [hlist, ← h.completeActions]
    · rw [htext, ← h.output]

theorem Follows.announce {events : List Event} {s : State} (h : Follows rpm events s) (key : Key) (index : Nat) :
    Follows rpm (events ++ [.elemProgress key index]) { s with teIndex := index, completeActions := s.completeActions + 1 } := by
  have hlist : announced (events ++ [.elemProgress key index]) = announced events ++ [index] := announced_concat _ _
  have hstarted : rpm.started (events ++ [.elemProgress key index]) = rpm.started events := by simp [started_concat, Event.total]
  refine ⟨h.sound, ?_, ?_, ?_, ?_, ?_, h.logged, ?_⟩
  · rw [hstarted, ← h.running]
  · rw [hstarted, ← h.teList]
  · rw [hlist, List.getLast?_concat, Option.getD_some]
  · rw [hlist, List.length_append, ← h.completeActions, List.length_singleton]
  · rw [List.filterMap_append, h.totalActions]
    exact congrArg (fun list => list.getLast?.getD 0) (List.append_nil _).symm
  · simp [String.join_append, Event.text, h.output]

theorem announce_carries (rpm : Rpm) (cache : Option (List Item)) (s : State) (key : Key) (index : Nat) :
    Carries cache { s with teIndex := index, completeActions := s.completeActions + 1 } (plain rpm cache s (.elemProgress key index)) "" := by
  rw [plain]
  split_ifs
  · exact ⟨rfl, says_of_spoken rfl, .inl rfl⟩
  · exact carries_settle _ cache _ fun _ => framed_show rfl

theorem Follows.step {events : List Event} {s : State} (h : Follows rpm events s) (event : Event) : Follows rpm (events ++ [event]) (step rpm s event) := by
  obtain ⟨cache, hcache, hstep⟩ := step_plain event h.sound
  rw [hstep]
  have hother : event.announced = none → event.total = none → Follows rpm (events ++ [event]) (plain rpm cache s event) := by
    intro hannounced htotal
    refine h.carried hcache (plain_carries rpm cache s hannounced htotal) ?_ ?_ ?_ ?_
    · simp [started_concat, htotal]
    · simp [announced_concat, hannounced]
    · simp [htotal]
    · simp [String.join_append]
  cases event with
  | transStart total => exact h.transStart cache total
  | elemProgress key index => exact (h.announce key index).carried hcache (announce_carries rpm cache s key index) rfl rfl rfl (String.append_empty).symm
  | _ => exact hother rfl rfl

theorem follows_run (events : List Event) : Follows rpm events (run rpm events) := by
  induction events using List.reverseRecOn with
  | nil => exact follows_nil
  | append_singleton events event ih =>
      rw [run, List.foldl_append]
      exact ih.step event

/-- After any events a callback is about the item that is its key, or else about the items under the NEVRA of the element announced last; the elements announced so far are counted; and what scriptlets wrote has been shown and logged in order, but for what is still in the pipe. -/
theorem callback_concerns (rpm : Rpm) (events : List Event) :
    (∀ key, ∃ cache, firstItem rpm key (run rpm events) =
      lift (rpm.concerned (rpm.current events) key) { run rpm events with tsiCache := cache }) ∧
    (run rpm events).completeActions = (announced events).length ∧
    (run rpm events).totalActions = (events.filterMap Event.total).getLast?.getD 0 ∧
    (run rpm events).shown.filterMap Shown.msgs = (run rpm events).logged ∧
    String.join (run rpm events).logged ++ (run rpm events).pipe = String.join (events.map Event.text) := by
  have h := @follows_run rpm events
  refine ⟨fun key => ?_, h.completeActions, h.totalActions, h.logged, h.output⟩
  obtain ⟨cache, _, hfirst⟩ := firstItem_apply key h.sound
  have hcurrent : (run rpm events).teList[(run rpm events).teIndex]? = rpm.current events := by
    rw [h.teList, h.teIndex, Rpm.current]
    split_ifs <;> rfl
  exact ⟨cache, hcurrent ▸ hfirst⟩

end Dnf.Transaction.Callback
