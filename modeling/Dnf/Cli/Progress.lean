import Dnf.Foundation.Interleaving
import Mathlib.Data.List.AList

/-!
# The counters of `MultiFileProgressMeter`

The meter keeps what it shows: the number of finished files, the number of bytes, the names of the active downloads, and for each of them the bytes that were reported last. Times, rates and what is written to the screen are left out.

A payload is waiting, active with some bytes, or ended; an end counts unless the payload was still waiting and its file was not there already. The meter shows the phases of all payloads together, in whatever order their events arrive.
-/

namespace Dnf.Cli.Progress

open Foundation

inductive Status
  | ok
  | failed
  | alreadyExists
  | mirror
  | drpm
  deriving DecidableEq

/-- `text` is `unicode(payload)`. -/
structure Payload where
  text : String
  downloadSize : Int
  deriving DecidableEq

inductive Event
  | progress (payload : Payload) (done : Int)
  | finish (payload : Payload) (status : Status)
  deriving DecidableEq

structure Meter where
  doneDrpm : Int
  doneFiles : Int
  doneSize : Int
  active : List String
  state : AList fun _ : String => Int

namespace Meter

def start : Meter := ⟨0, 0, 0, [], ∅⟩

def progress (payload : Payload) (done : Int) (meter : Meter) : Meter :=
  let meter :=
    if payload.text ∈ meter.state then meter
    else { meter with state := meter.state.insert payload.text 0, active := meter.active ++ [payload.text] }
  let old := (meter.state.lookup payload.text).getD 0
  { meter with state := meter.state.insert payload.text done, doneSize := meter.doneSize + (done - old) }

/-- `end`; `none` is the `ValueError` of `self.active.remove`. -/
def finish (payload : Payload) (status : Status) (meter : Meter) : Option Meter :=
  if status = .mirror then some meter
  else if status = .drpm then some { meter with doneDrpm := meter.doneDrpm + 1 }
  else
    match meter.state.lookup payload.text with
    | some done =>
        if payload.text ∈ meter.active then
          some { meter with
            state := meter.state.erase payload.text
            active := meter.active.erase payload.text
            doneFiles := meter.doneFiles + 1
            doneSize := meter.doneSize + (payload.downloadSize - done) }
        else none
    | none =>
        if status = .alreadyExists then
          some { meter with doneFiles := meter.doneFiles + 1, doneSize := meter.doneSize + payload.downloadSize }
        else some meter

def handle (meter : Meter) : Event → Option Meter
  | .progress payload done => some (meter.progress payload done)
  | .finish payload status => meter.finish payload status

def run (events : List Event) : Option Meter := events.foldlM handle start

end Meter

namespace Event

def payload : Event → Payload
  | progress payload _ => payload
  | finish payload _ => payload

/-- A success, a failure, or a file that exists already. -/
def terminal : Event → Bool
  | progress _ _ => false
  | finish _ status => status = .ok || status = .failed || status = .alreadyExists

/-- A progress report, or a mirror that failed. -/
def pending : Event → Bool
  | progress _ _ => true
  | finish _ status => status = .mirror

def isProgress : Event → Bool
  | progress _ _ => true
  | finish _ _ => false

def isSkip : Event → Bool
  | progress _ _ => false
  | finish _ status => status = .alreadyExists

end Event

/-! ### The phases of one payload -/

inductive Phase
  | waiting
  | active (done : Int)
  | ended (counted : Bool)

namespace Phase

def done : Phase → Option Int
  | waiting => none
  | active done => some done
  | ended _ => none

def isEnded : Phase → Bool
  | waiting => false
  | active _ => false
  | ended _ => true

def files : Phase → Int
  | ended true => 1
  | _ => 0

def size (downloadSize : Int) : Phase → Int
  | waiting => 0
  | active done => done
  | ended counted => if counted then downloadSize else 0

def step : Phase → Event → Phase
  | ended counted, _ => ended counted
  | _, .progress _ done => active done
  | waiting, .finish _ status => if status = .alreadyExists then ended true else if status = .mirror ∨ status = .drpm then waiting else ended false
  | active done, .finish _ status => if status = .mirror ∨ status = .drpm then active done else ended true

end Phase

def phaseOf (events : List Event) : Payload → Phase := Interleaving.phaseOf Event.payload Phase.step .waiting events

/-- What the meter shows of the phases of the payloads. -/
structure Shows (payloads : List Payload) (phase : Payload → Phase) (meter : Meter) : Prop where
  lookup : ∀ p ∈ payloads, meter.state.lookup p.text = (phase p).done
  known : ∀ text ∈ meter.state, ∃ p ∈ payloads, p.text = text
  active : ∀ text, text ∈ meter.active ↔ text ∈ meter.state
  nodup : meter.active.Nodup
  files : meter.doneFiles = Interleaving.total (fun _ => Phase.files) payloads phase
  size : meter.doneSize = Interleaving.total (fun p => Phase.size p.downloadSize) payloads phase

namespace Shows

variable {payloads : List Payload} {phase : Payload → Phase} {meter : Meter} {p : Payload}

theorem start (payloads : List Payload) : Shows payloads (fun _ => .waiting) .start where
  lookup := fun _ _ => rfl
  known := fun text htext => absurd htext (AList.notMem_empty text)
  active := fun text => iff_of_false List.not_mem_nil (AList.notMem_empty text)
  nodup := .nil
  files := by
    rw [Interleaving.total]
    exact (List.sum_map_zero).symm
  size := by
    rw [Interleaving.total]
    exact (List.sum_map_zero).symm

/-- A new phase of one payload, from what the meter says about its name and what it adds to the counters. -/
theorem update (h : Shows payloads phase meter) (hnames : (payloads.map Payload.text).Nodup) (hp : p ∈ payloads) {next : Meter} {ph : Phase}
    (hlookup : next.state.lookup p.text = ph.done) (hother : ∀ text ≠ p.text, next.state.lookup text = meter.state.lookup text)
    (hactive : ∀ text, text ∈ next.active ↔ text ∈ next.state) (hnodup : next.active.Nodup)
    (hfiles : next.doneFiles = meter.doneFiles + (ph.files - (phase p).files))
    (hsize : next.doneSize = meter.doneSize + (ph.size p.downloadSize - (phase p).size p.downloadSize)) :
    Shows payloads (Function.update phase p ph) next where
  lookup := fun q hq => by
    by_cases hqp : q = p
    · rw [hqp, Function.update_self, hlookup]
    · have htext : q.text ≠ p.text := fun heq => hqp (List.inj_on_of_nodup_map hnames hq hp heq)
      rw [Function.update_of_ne hqp, hother q.text htext, h.lookup q hq]
  known := fun text htext => by
    by_cases heq : text = p.text
    · exact ⟨p, hp, heq.symm⟩
    · apply h.known
      rw [← AList.lookup_isSome, ← hother text heq]
      exact AList.lookup_isSome.mpr htext
  active := hactive
  nodup := hnodup
  files := by rw [hfiles, h.files, Interleaving.total_update _ hnames.of_map hp]
  size := by rw [hsize, h.size, Interleaving.total_update _ hnames.of_map hp]

/-- A payload of which nothing is known yet. -/
theorem notMem_of_done_eq_none (h : Shows payloads phase meter) (hp : p ∈ payloads) (hdone : (phase p).done = none) :
    p.text ∉ meter.state := by
  rw [← AList.lookup_eq_none, h.lookup p hp, hdone]

theorem mem_of_active (h : Shows payloads phase meter) (hp : p ∈ payloads) {done : Int} (hdone : (phase p).done = some done) :
    p.text ∈ meter.state := by
  rw [← AList.lookup_isSome, h.lookup p hp, hdone]
  rfl

/-- Nothing changes as long as the phase stays the same. -/
theorem unchanged (h : Shows payloads phase meter) {ph : Phase} (hph : phase p = ph) : Shows payloads (Function.update phase p ph) meter := by
  rw [← hph, Function.update_eq_self]
  exact h

theorem progress (h : Shows payloads phase meter) (hnames : (payloads.map Payload.text).Nodup) (hp : p ∈ payloads) (done : Int)
    (hopen : (phase p).isEnded = false) : Shows payloads (Function.update phase p (.active done)) (meter.progress p done) := by
  cases hphase : phase p with
  | ended counted =>
      rw [hphase] at hopen
      cases hopen
  | waiting =>
      have hnot : p.text ∉ meter.state := h.notMem_of_done_eq_none hp (by rw [hphase]; rfl)
      have hmeter : meter.progress p done =
          { meter with
            state := (meter.state.insert p.text 0).insert p.text done
            active := meter.active ++ [p.text]
            doneSize := meter.doneSize + (done - 0) } := by
        rw [Meter.progress, if_neg hnot]
        dsimp only
        rw [AList.lookup_insert]
        rfl
      rw [hmeter]
      refine h.update hnames hp (AList.lookup_insert _) (fun text hne => ?_) (fun text => ?_) ?_ ?_ ?_
      · rw [AList.lookup_insert_ne hne, AList.lookup_insert_ne hne]
      · rw [List.mem_append, List.mem_singleton, h.active, AList.mem_insert, AList.mem_insert, ← or_assoc, or_self, or_comm]
      · exact List.nodup_append.mpr ⟨h.nodup, List.nodup_singleton _, fun a ha b hb heq =>
          hnot ((h.active _).mp (List.mem_singleton.mp hb ▸ heq ▸ ha))⟩
      · rw [hphase]
        exact (Int.add_zero _).symm
      · rw [hphase]
        rfl
  | active old =>
      have hmem : p.text ∈ meter.state := h.mem_of_active hp (by rw [hphase]; rfl)
      have hmeter : meter.progress p done =
          { meter with state := meter.state.insert p.text done, doneSize := meter.doneSize + (done - old) } := by
        rw [Meter.progress, if_pos hmem, h.lookup p hp, hphase]
        rfl
      rw [hmeter]
      refine h.update hnames hp (AList.lookup_insert _) (fun text hne => AList.lookup_insert_ne hne) (fun text => ?_) h.nodup ?_ ?_
      · rw [h.active, AList.mem_insert]
        exact ⟨.inr, fun hor => hor.elim (fun heq => heq ▸ hmem) id⟩
      · rw [hphase]
        exact (Int.add_zero _).symm
      · rw [hphase]
        rfl

/-- An end that is neither a mirror's nor a rebuilt delta's. -/
theorem finish (h : Shows payloads phase meter) (hnames : (payloads.map Payload.text).Nodup) (hp : p ∈ payloads) {status : Status}
    (hmirror : status ≠ .mirror) (hdrpm : status ≠ .drpm) (hopen : (phase p).isEnded = false) :
    ∃ next, meter.finish p status = some next ∧ Shows payloads (Function.update phase p ((phase p).step (.finish p status))) next := by
  rw [Meter.finish, if_neg hmirror, if_neg hdrpm, h.lookup p hp]
  cases hphase : phase p with
  | ended counted =>
      rw [hphase] at hopen
      cases hopen
  | waiting =>
      have hnone : meter.state.lookup p.text = none := by
        rw [h.lookup p hp, hphase]
        rfl
      have hother : ¬(status = .mirror ∨ status = .drpm) := not_or.mpr ⟨hmirror, hdrpm⟩
      dsimp only [Phase.done, Phase.step]
      rw [if_neg hother]
      split_ifs with hexists
      · refine ⟨_, rfl, h.update hnames hp hnone (fun _ _ => rfl) h.active h.nodup ?_ ?_⟩
        · rw [hphase]
          rfl
        · rw [hphase]
          exact congrArg (meter.doneSize + ·) (Int.sub_zero p.downloadSize).symm
      · refine ⟨_, rfl, h.update hnames hp hnone (fun _ _ => rfl) h.active h.nodup ?_ ?_⟩
        · rw [hphase]
          exact (Int.add_zero _).symm
        · rw [hphase]
          exact (Int.add_zero _).symm
  | active done =>
      have hmem : p.text ∈ meter.state := h.mem_of_active hp (by rw [hphase]; rfl)
      dsimp only [Phase.done, Phase.step]
      rw [if_pos ((h.active _).mpr hmem), if_neg (not_or.mpr ⟨hmirror, hdrpm⟩)]
      refine ⟨_, rfl, h.update hnames hp (AList.lookup_erase _ _) (fun text hne => AList.lookup_erase_ne hne) (fun text => ?_) (h.nodup.erase _)
        ?_ ?_⟩
      · rw [h.nodup.mem_erase_iff, h.active, AList.mem_erase]
      · rw [hphase]
        rfl
      · rw [hphase]
        rfl

theorem handle (h : Shows payloads phase meter) (hnames : (payloads.map Payload.text).Nodup) {e : Event} (he : e.pending ∨ e.terminal)
    (hp : e.payload ∈ payloads) (hopen : (phase e.payload).isEnded = false) :
    ∃ next, meter.handle e = some next ∧ Shows payloads (Function.update phase e.payload ((phase e.payload).step e)) next := by
  cases e with
  | progress p done =>
      refine ⟨_, rfl, ?_⟩
      have hstep : (phase p).step (.progress p done) = .active done := by
        cases hphase : phase p with
        | ended counted =>
            rw [Event.payload, hphase] at hopen
            cases hopen
        | waiting => rfl
        | active old => rfl
      rw [Event.payload, hstep]
      exact h.progress hnames hp done hopen
  | finish p status =>
      by_cases hmirror : status = .mirror
      · subst hmirror
        refine ⟨meter, rfl, h.unchanged ?_⟩
        show phase p = (phase p).step (.finish p .mirror)
        cases phase p <;> rfl
      · refine h.finish hnames hp hmirror (fun hdrpm => ?_) hopen
        subst hdrpm
        exact he.elim (fun h => by cases h) fun h => by cases h

end Shows

/-! ### Runs -/

/-- Any number of progress reports and failed mirrors of each payload, and then one end of it. -/
structure WellFormed (payloads : List Payload) (events : List Event) : Prop where
  payload : ∀ e ∈ events, e.payload ∈ payloads
  ends : ∀ p ∈ payloads, ∃ before last, Interleaving.own Event.payload events p = before ++ [last] ∧
    (∀ e ∈ before, e.pending = true) ∧ last.terminal = true

def Reported (p : Payload) (events : List Event) : Prop := ∃ done, Event.progress p done ∈ events

def Ended (p : Payload) (events : List Event) : Prop := ∃ e ∈ events, e.payload = p ∧ e.terminal = true

namespace Phase

theorem not_terminal_of_pending {e : Event} (h : e.pending = true) : e.terminal = false := by
  cases e with
  | progress p done => rfl
  | finish p status =>
      rw [of_decide_eq_true h]
      rfl

theorem isEnded_step_of_pending {phase : Phase} {e : Event} (h : e.pending = true) : (phase.step e).isEnded = phase.isEnded := by
  cases e with
  | progress p done => cases phase <;> rfl
  | finish p status =>
      rw [of_decide_eq_true h]
      cases phase <;> rfl

theorem isEnded_foldl_of_pending {events : List Event} (h : ∀ e ∈ events, e.pending = true) (phase : Phase) :
    (events.foldl step phase).isEnded = phase.isEnded := by
  induction events generalizing phase with
  | nil => rfl
  | cons e events ih =>
      rw [List.foldl_cons, ih fun e' he' => h e' (List.mem_cons_of_mem _ he'), isEnded_step_of_pending (h e List.mem_cons_self)]

/-- Before its end, a payload is active if it has reported progress. -/
theorem done_foldl_of_pending {events : List Event} (h : ∀ e ∈ events, e.pending = true) :
    (events.foldl step .waiting).done.isSome = events.any Event.isProgress := by
  induction events using List.reverseRecOn with
  | nil => rfl
  | append_singleton events e ih =>
      have hrest := ih fun e' he' => h e' (List.mem_append_left _ he')
      have hopen := isEnded_foldl_of_pending (fun e' he' => h e' (List.mem_append_left _ he')) .waiting
      rw [List.foldl_append, List.any_append, ← hrest]
      have he := h e (List.mem_append_right _ List.mem_cons_self)
      cases hphase : events.foldl step .waiting with
      | ended counted =>
          rw [hphase] at hopen
          cases hopen
      | waiting =>
          cases e with
          | progress p done => rfl
          | finish p status =>
              rw [of_decide_eq_true he]
              rfl
      | active done =>
          cases e with
          | progress p done => rfl
          | finish p status =>
              rw [of_decide_eq_true he]
              rfl

/-- An end counts if the payload was active, or its file was there already. -/
theorem step_terminal {phase : Phase} {e : Event} (he : e.terminal = true) (hopen : phase.isEnded = false) :
    phase.step e = .ended (phase.done.isSome || e.isSkip) := by
  cases e with
  | progress p done => cases he
  | finish p status =>
      cases phase with
      | ended counted => cases hopen
      | waiting =>
          cases status with
          | ok | failed | alreadyExists => rfl
          | mirror | drpm => cases he
      | active done =>
          cases status with
          | ok | failed | alreadyExists => rfl
          | mirror | drpm => cases he

end Phase

section Runs

variable {payloads : List Payload} {events : List Event} {p : Payload}

theorem own_prefix {done : List Event} (h : done <+: events) (p : Payload) :
    Interleaving.own Event.payload done p <+: Interleaving.own Event.payload events p := h.filter _

theorem mem_own {e : Event} : e ∈ Interleaving.own Event.payload events p ↔ e ∈ events ∧ e.payload = p := by
  rw [Interleaving.own, List.mem_filter, decide_eq_true_iff]

/-- The events of a payload before the last one leave it open. -/
theorem WellFormed.isEnded_eq_false (h : WellFormed payloads events) {done : List Event} {e : Event} (hdone : done ++ [e] <+: events) :
    (phaseOf done e.payload).isEnded = false := by
  have hmem : e ∈ events := hdone.subset (List.mem_append_right _ List.mem_cons_self)
  obtain ⟨before, last, hown, hpending, -⟩ := h.ends e.payload (h.payload e hmem)
  have hprefix := own_prefix hdone e.payload
  rw [Interleaving.own_concat, if_pos rfl, hown] at hprefix
  have hshort : Interleaving.own Event.payload done e.payload <+: before := by
    rcases List.prefix_concat_iff.mp hprefix with heq | hlt
    · exact (List.append_inj' heq rfl).1 ▸ List.prefix_rfl
    · exact (List.prefix_append _ [e]).trans hlt
  exact Phase.isEnded_foldl_of_pending (fun e' he' => hpending e' (hshort.subset he')) .waiting

/-- After every part of the events the meter shows the phases. -/
theorem exists_shows (hnames : (payloads.map Payload.text).Nodup) (h : WellFormed payloads events) {done : List Event} (hdone : done <+: events) :
    ∃ meter, Meter.run done = some meter ∧ Shows payloads (phaseOf done) meter := by
  refine Interleaving.prefix_induction (P := fun done => ∃ meter, Meter.run done = some meter ∧ Shows payloads (phaseOf done) meter)
    ⟨_, rfl, Shows.start payloads⟩ (fun done e hprefix hmeter => ?_) done hdone
  obtain ⟨meter, hrun, hshows⟩ := hmeter
  have hmem : e ∈ events := hprefix.subset (List.mem_append_right _ List.mem_cons_self)
  have hkind : e.pending ∨ e.terminal := by
    obtain ⟨before, last, hown, hpending, hterminal⟩ := h.ends e.payload (h.payload e hmem)
    have howned : e ∈ before ++ [last] := hown ▸ mem_own.mpr ⟨hmem, rfl⟩
    rcases List.mem_append.mp howned with hbefore | hlast
    · exact .inl (hpending e hbefore)
    · exact .inr (List.mem_singleton.mp hlast ▸ hterminal)
  obtain ⟨next, hnext, hshows⟩ := hshows.handle hnames hkind (h.payload e hmem) (h.isEnded_eq_false hprefix)
  refine ⟨next, ?_, ?_⟩
  · rw [Meter.run, List.foldlM_append]
    show (Meter.run done).bind _ = _
    rw [hrun]
    exact (bind_pure (meter.handle e)).trans hnext
  · rw [phaseOf, Interleaving.phaseOf_concat]
    exact hshows

theorem reported_iff {done : List Event} : Reported p done ↔ (Interleaving.own Event.payload done p).any Event.isProgress = true := by
  rw [List.any_eq_true]
  constructor
  · rintro ⟨bytes, hmem⟩
    exact ⟨_, mem_own.mpr ⟨hmem, rfl⟩, rfl⟩
  · rintro ⟨e, he, hprogress⟩
    obtain ⟨hmem, hpayload⟩ := mem_own.mp he
    cases e with
    | progress q bytes => exact ⟨bytes, hpayload ▸ hmem⟩
    | finish q status => cases hprogress

theorem ended_iff {done : List Event} : Ended p done ↔ ∃ e ∈ Interleaving.own Event.payload done p, e.terminal = true := by
  constructor
  · rintro ⟨e, hmem, hpayload, hterminal⟩
    exact ⟨e, mem_own.mpr ⟨hmem, hpayload⟩, hterminal⟩
  · rintro ⟨e, he, hterminal⟩
    obtain ⟨hmem, hpayload⟩ := mem_own.mp he
    exact ⟨e, hmem, hpayload, hterminal⟩

/-- The phase of a payload all of whose events have been handled. -/
theorem phaseOf_ended {done before : List Event} {last : Event} (hown : Interleaving.own Event.payload done p = before ++ [last])
    (hpending : ∀ e ∈ before, e.pending = true) (hterminal : last.terminal = true) :
    phaseOf done p = .ended (before.any Event.isProgress || last.isSkip) := by
  have hopen : (before.foldl Phase.step .waiting).isEnded = false := Phase.isEnded_foldl_of_pending hpending .waiting
  rw [phaseOf, Interleaving.phaseOf, hown, List.foldl_append, List.foldl_cons, List.foldl_nil, Phase.step_terminal hterminal hopen,
    Phase.done_foldl_of_pending hpending]

/-- The meter counts an end that follows progress or a file that was there already. -/
theorem counted_iff {done before : List Event} {last : Event} (hown : Interleaving.own Event.payload done p = before ++ [last])
    (hpending : ∀ e ∈ before, e.pending = true) (hterminal : last.terminal = true) :
    (before.any Event.isProgress || last.isSkip) = true ↔ Reported p done ∨ Event.finish p .alreadyExists ∈ done := by
  rw [Bool.or_eq_true, reported_iff, hown, List.any_append, Bool.or_eq_true]
  have hlast : ¬[last].any Event.isProgress = true := by
    cases last with
    | progress q bytes => cases hterminal
    | finish q status => exact Bool.false_ne_true
  rw [or_iff_left hlast]
  refine or_congr_right ⟨fun hskip => ?_, fun hmem => ?_⟩
  · have hmem := mem_own.mp (hown ▸ List.mem_append_right before List.mem_cons_self : last ∈ Interleaving.own Event.payload done p)
    cases last with
    | progress q bytes => cases hskip
    | finish q status =>
        rw [of_decide_eq_true hskip] at hmem
        exact hmem.2 ▸ hmem.1
  · have howned : Event.finish p .alreadyExists ∈ before ++ [last] := hown ▸ mem_own.mpr ⟨hmem, rfl⟩
    rcases List.mem_append.mp howned with hbefore | hmem
    · cases hpending _ hbefore
    · rw [← List.mem_singleton.mp hmem]
      rfl

/-- At every moment the active payloads are those that have reported progress and not ended. -/
theorem WellFormed.done_isSome_iff (h : WellFormed payloads events) {done : List Event} (hdone : done <+: events) (hp : p ∈ payloads) :
    (phaseOf done p).done.isSome = true ↔ Reported p done ∧ ¬Ended p done := by
  obtain ⟨before, last, hown, hpending, hterminal⟩ := h.ends p hp
  have hprefix := own_prefix hdone p
  rw [hown] at hprefix
  rcases List.prefix_concat_iff.mp hprefix with hall | hbefore
  · rw [phaseOf_ended hall hpending hterminal]
    refine iff_of_false Bool.false_ne_true fun hopen => hopen.2 (ended_iff.mpr ⟨last, ?_, hterminal⟩)
    exact hall ▸ List.mem_append_right before List.mem_cons_self
  · have hsub : ∀ e ∈ Interleaving.own Event.payload done p, e.pending = true := fun e he => hpending e (hbefore.subset he)
    rw [phaseOf, Interleaving.phaseOf, Phase.done_foldl_of_pending hsub, ← reported_iff]
    refine (and_iff_left fun hended => ?_).symm
    obtain ⟨e, he, hterminal⟩ := ended_iff.mp hended
    rw [Phase.not_terminal_of_pending (hsub e he)] at hterminal
    cases hterminal

theorem Shows.mem_active {phase : Payload → Phase} {meter : Meter} (h : Shows payloads phase meter) {text : String} :
    text ∈ meter.active ↔ ∃ p ∈ payloads, p.text = text ∧ (phase p).done.isSome = true := by
  rw [h.active]
  constructor
  · intro hmem
    obtain ⟨p, hp, rfl⟩ := h.known text hmem
    exact ⟨p, hp, rfl, h.lookup p hp ▸ AList.lookup_isSome.mpr hmem⟩
  · rintro ⟨p, hp, rfl, hsome⟩
    rw [← h.lookup p hp] at hsome
    exact AList.lookup_isSome.mp hsome

/-- What the counters are to be in the end, and `active` at every moment. -/
def Accounted (payloads : List Payload) (events : List Event) : Prop :=
  (∃ meter, Meter.run events = some meter ∧ meter.doneFiles = payloads.length ∧ meter.doneSize = (payloads.map Payload.downloadSize).sum) ∧
    ∀ done, done <+: events → ∃ meter, Meter.run done = some meter ∧ meter.active.Nodup ∧
      ∀ text, text ∈ meter.active ↔ ∃ p ∈ payloads, p.text = text ∧ Reported p done ∧ ¬Ended p done

theorem WellFormed.active (h : WellFormed payloads events) (hnames : (payloads.map Payload.text).Nodup) {done : List Event}
    (hdone : done <+: events) : ∃ meter, Meter.run done = some meter ∧ meter.active.Nodup ∧
      ∀ text, text ∈ meter.active ↔ ∃ p ∈ payloads, p.text = text ∧ Reported p done ∧ ¬Ended p done := by
  obtain ⟨meter, hrun, hshows⟩ := exists_shows hnames h hdone
  refine ⟨meter, hrun, hshows.nodup, fun text => hshows.mem_active.trans ?_⟩
  exact exists_congr fun p => and_congr_right fun hp => and_congr_right fun _ => h.done_isSome_iff hdone hp

theorem accounted_iff (hnames : (payloads.map Payload.text).Nodup) (h : WellFormed payloads events) :
    Accounted payloads events ↔ ∀ p ∈ payloads, Reported p events ∨ Event.finish p .alreadyExists ∈ events := by
  obtain ⟨meter, hrun, hshows⟩ := exists_shows hnames h List.prefix_rfl
  have hphase : ∀ p ∈ payloads, ∃ counted, phaseOf events p = .ended counted ∧
      (counted = true ↔ Reported p events ∨ Event.finish p .alreadyExists ∈ events) := by
    intro p hp
    obtain ⟨before, last, hown, hpending, hterminal⟩ := h.ends p hp
    exact ⟨_, phaseOf_ended hown hpending hterminal, counted_iff hown hpending hterminal⟩
  have hfiles : meter.doneFiles = payloads.length ↔ ∀ p ∈ payloads, (phaseOf events p).files = 1 := by
    rw [hshows.files]
    refine Interleaving.total_eq_length_iff fun p hp => ?_
    obtain ⟨counted, heq, -⟩ := hphase p hp
    rw [heq]
    cases counted <;> decide
  constructor
  · rintro ⟨⟨meter', hrun', hcount, -⟩, -⟩ p hp
    rw [Option.some.inj (hrun'.symm.trans hrun)] at hcount
    obtain ⟨counted, heq, hiff⟩ := hphase p hp
    have hone := hfiles.mp hcount p hp
    rw [heq] at hone
    cases counted with
    | true => exact hiff.mp rfl
    | false => cases hone
  · intro hall
    have hcounted : ∀ p ∈ payloads, phaseOf events p = .ended true := by
      intro p hp
      obtain ⟨counted, heq, hiff⟩ := hphase p hp
      rw [heq, hiff.mpr (hall p hp)]
    refine ⟨⟨meter, hrun, hfiles.mpr fun p hp => ?_, ?_⟩, fun done hdone => h.active hnames hdone⟩
    · rw [hcounted p hp]
      rfl
    · rw [hshows.size, Interleaving.total]
      refine congrArg List.sum (List.map_congr_left fun p hp => ?_)
      rw [hcounted p hp]
      rfl

end Runs

/-- A download that reported progress, and then a file that was there already. -/
theorem accounted_two_payloads :
    Accounted [⟨"foo", 10⟩, ⟨"bar", 20⟩]
      [.progress ⟨"foo", 10⟩ 5, .finish ⟨"bar", 20⟩ .mirror, .finish ⟨"foo", 10⟩ .ok, .finish ⟨"bar", 20⟩ .alreadyExists] := by
  refine (accounted_iff (by decide) ⟨by decide, fun p hp => ?_⟩).mpr fun p hp => ?_
  · simp only [List.mem_cons, List.not_mem_nil, or_false] at hp
    rcases hp with rfl | rfl
    · exact ⟨[.progress ⟨"foo", 10⟩ 5], .finish ⟨"foo", 10⟩ .ok, by decide, by decide, rfl⟩
    · exact ⟨[.finish ⟨"bar", 20⟩ .mirror], .finish ⟨"bar", 20⟩ .alreadyExists, by decide, by decide, rfl⟩
  · simp only [List.mem_cons, List.not_mem_nil, or_false] at hp
    rcases hp with rfl | rfl
    · exact .inl ⟨5, by decide⟩
    · exact .inr (by decide)

/-- A download that fails before it has reported progress is not counted. -/
theorem failure_without_progress_uncounted :
    (([⟨"foo", 10⟩] : List Payload).map Payload.text).Nodup ∧ WellFormed [⟨"foo", 10⟩] [.finish ⟨"foo", 10⟩ .failed] ∧
      ¬Accounted [⟨"foo", 10⟩] [.finish ⟨"foo", 10⟩ .failed] := by
  refine ⟨by decide, ⟨by decide, fun p hp => ?_⟩, fun haccounted => ?_⟩
  · rw [List.mem_singleton.mp hp]
    exact ⟨[], .finish ⟨"foo", 10⟩ .failed, rfl, by decide, rfl⟩
  · obtain ⟨⟨meter, hrun, hfiles, -⟩, -⟩ := haccounted
    rw [← Option.some.inj hrun] at hfiles
    cases hfiles

end Dnf.Cli.Progress
