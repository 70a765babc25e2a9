import Dnf.Automatic.Plan

/-!
# dnf-automatic keeps to its plan

Each part of the program realises its part of the plan, from the inside out. What `main` adds is the error report: it follows what was done until the exception, and nothing follows it.
-/

namespace Dnf.Automatic

open Foundation Foundation.Effect
open Gpg (Exc Call)
open Transaction (ItemState)

variable {ω : Type} (auto : Program ω) {conf : Config} {emitters : List Emitter} {l : List Entry}

namespace Program

/-! ### Reports -/

theorem deliver_keeps (emitter : Emitter) (msg : Message) : Keeps (At auto conf emitters l) (auto.deliver emitter msg) :=
  Triple.tryCatch (call_keeps worldless_at _) fun _ => Triple.ite (fun _ => Triple.pure fun _ hs => hs) fun _ => Triple.throw fun _ hs => hs

theorem commitOne_triple (emitter : Emitter) :
    Triple (At auto conf emitters l) (auto.commitOne emitter) (fun _ => At auto conf emitters (l ++ [.sent emitter]))
      (fun _ => Cut auto conf l [.sent emitter]) := by
  have hcut : ∀ {α : Type} {x : Prog ω α}, Keeps (At auto conf emitters l) x →
      Triple (At auto conf emitters l) x (fun _ => At auto conf emitters l) (fun _ => Cut auto conf l [.sent emitter]) :=
    fun hx => hx.weaken (fun _ hs => hs) (fun _ _ hs => hs) fun _ _ hs => hs.cut
  refine Triple.bind (hcut (call_keeps worldless_at _)) fun now => ?_
  cases emitter.message now with
  | error e => exact Triple.throw fun _ hs => hs.cut
  | ok msg =>
      rw [lift_ok_bind]
      refine Triple.bind (M := fun _ => At auto conf emitters (l ++ [.sent emitter])) ?_ fun _ => ?_
      · refine Triple.modify fun s hs => ⟨hs.conf_eq, hs.emitters_eq, congrArg (· ++ [Entry.sent emitter]) hs.log_eq, hs.configured, fun pkgs hmem => ?_⟩
        rcases List.mem_append.mp hmem with hmem | hmem
        · exact hs.cleared pkgs hmem
        · exact absurd (List.mem_singleton.mp hmem) (by simp)
      · exact (auto.deliver_keeps emitter msg).weaken (fun _ hs => hs) (fun _ _ hs => hs) fun _ _ hs => ⟨[.sent emitter], emitters, List.prefix_refl _, hs⟩

theorem commitAll_triple (es : List Emitter) :
    Triple (At auto conf emitters l) (auto.commitAll es) (fun _ => At auto conf emitters (l ++ reports es)) (fun _ => Cut auto conf l (reports es)) := by
  induction es generalizing l with
  | nil => exact Triple.pure fun _ hs => (List.append_nil l).symm ▸ hs
  | cons e es ih =>
      refine Triple.bind ((auto.commitOne_triple e).weaken (fun _ hs => hs) (fun _ _ hs => hs) fun _ _ hs => hs.append (reports es)) fun _ => ?_
      exact (@ih (l ++ [.sent e])).weaken (fun _ hs => hs) (fun _ _ hs => List.append_cons l (.sent e) (reports es) ▸ hs) fun _ s hs => @Cut.shift ω auto conf l [.sent e] (reports es) s hs

theorem commit_triple :
    Triple (At auto conf emitters l) auto.commit (fun _ => At auto conf emitters (l ++ reports emitters)) (fun _ => Cut auto conf l (reports emitters)) := by
  intro s hs
  rw [commit, bind_apply, get_apply]
  dsimp only
  rw [hs.emitters_eq]
  exact auto.commitAll_triple emitters s hs

theorem commit_realises {N : List Entry → List Emitter → Prop} {P : List Entry → Prop} (hN : N (reports emitters) emitters) (hP : P (reports emitters)) :
    Realises auto conf emitters l auto.commit N P :=
  auto.commit_triple.weaken (fun _ hs => hs) (fun _ _ hs => ⟨reports emitters, emitters, hN, hs⟩) fun _ _ hs => ⟨reports emitters, hP, hs⟩

/-! ### The signature check -/

theorem onGpg_triple {α : Type} {x : Gpg.Prog ω α} {R : Gpg.State ω → Prop} {S : α → Gpg.State ω → Prop} {F : Exc → Gpg.State ω → Prop}
    (hx : Triple R x S F) (G : Option Config → Option (List Emitter) → List Entry → Prop) :
    Triple (fun s => R s.gpg ∧ G s.conf s.emitters s.log) (onGpg x) (fun a s => S a s.gpg ∧ G s.conf s.emitters s.log)
      (fun e s => F e s.gpg ∧ G s.conf s.emitters s.log) := by
  rintro s ⟨hR, hG⟩
  have hend := hx s.gpg hR
  rw [onGpg]
  cases hrun : x s.gpg with
  | ok a t =>
      rw [hrun] at hend
      exact ⟨hend, hG⟩
  | error e t =>
      rw [hrun] at hend
      exact ⟨hend, hG⟩

/-- The packages checked so far have passed, if all of them gave 0. -/
def AllPassed (done : List Gpg.Package) (ok : Bool) (trace : List Gpg.Event) : Prop := ok = true → ∀ po ∈ done, auto.gpg.Passed po trace

theorem gpgsigcheckOne_triple (done : List Gpg.Package) (po : Gpg.Package) (ok : Bool) (G : Option Config → Option (List Emitter) → List Entry → Prop) :
    Triple (fun s => auto.AllPassed done ok s.gpg.trace ∧ G s.conf s.emitters s.log) (auto.gpgsigcheckOne ok po)
      (fun ok s => auto.AllPassed (done ++ [po]) ok s.gpg.trace ∧ G s.conf s.emitters s.log) (fun _ s => G s.conf s.emitters s.log) := by
  have hsurvives : Gpg.Survives auto.gpg.conf po fun trace => ok = true → ∀ q ∈ done, q ≠ po → auto.gpg.Passed q trace := by
    have hother : ∀ q, q ≠ po → Gpg.Survives auto.gpg.conf po (auto.gpg.Passed q) := fun q hq =>
      Gpg.survives_lastCheckSig auto.gpg.conf hq fun result => auto.gpg.checkEnabled q = true → result = some 0
    exact ⟨fun trace r h hok q hq hne => (hother q hne).checked trace r (h hok q hq hne),
      fun trace key r h hok q hq hne => (hother q hne).verified trace key r (h hok q hq hne),
      fun trace key r h hok q hq hne => (hother q hne).asked trace key r (h hok q hq hne),
      fun trace key happroved h hok q hq hne => (hother q hne).imported trace key happroved (h hok q hq hne)⟩
  have hchecked := (onGpg_triple (auto.gpg.sigCheckPkg_spec hsurvives) G).weaken (P := fun s => auto.AllPassed done ok s.gpg.trace ∧ G s.conf s.emitters s.log)
    (fun s hs => ⟨fun hok q hq _ => hs.1 hok q hq, hs.2⟩) (fun _ _ hs => hs) fun _ _ hs => hs.2
  refine Triple.bind hchecked fun result => Triple.pure fun s ⟨⟨hdone, hpassed⟩, hG⟩ => ⟨fun hok q hq => ?_, hG⟩
  split_ifs at hok with hresult
  rw [ne_eq, not_not] at hresult
  by_cases hpo : q = po
  · exact hpo ▸ hpassed hresult
  · exact hdone hok q ((List.mem_append.mp hq).resolve_right fun hmem => hpo (List.mem_singleton.mp hmem)) hpo

theorem gpgsigcheck_triple (hunsigned : ∀ pkgs, .signed pkgs ∉ l) (pkgs : List Gpg.Package) :
    Triple (At auto conf emitters l) (auto.gpgsigcheck pkgs) (fun _ => At auto conf emitters (l ++ [.signed pkgs])) (fun _ => At auto conf emitters l) := by
  let G : Option Config → Option (List Emitter) → List Entry → Prop := fun c es log =>
    c = some conf ∧ es = some emitters ∧ log = l ∧ emitters.map (fun emitter => emitter.kind.option) = conf.emitVia
  have hat : ∀ s : State ω, G s.conf s.emitters s.log → At auto conf emitters l s := fun s hs =>
    ⟨hs.1, hs.2.1, hs.2.2.1, hs.2.2.2, fun pkgs hmem => absurd (hs.2.2.1 ▸ hmem) (hunsigned pkgs)⟩
  have hloop := Triple.foldlM (f := auto.gpgsigcheckOne) (l := pkgs) (E := fun _ => At auto conf emitters l)
    (I := fun done ok s => auto.AllPassed done ok s.gpg.trace ∧ G s.conf s.emitters s.log) (fun done po _ ok => ?_) true
  · refine Triple.bind (hloop.weaken (fun s hs => ⟨fun _ q hq => absurd hq List.not_mem_nil, hs.conf_eq, hs.emitters_eq, hs.log_eq, hs.configured⟩)
      (fun _ _ hs => hs) fun _ _ hs => hs) fun ok => Triple.ite (fun hok => ?_) fun _ => Triple.throw fun s hs => hat s hs.2
    refine Triple.modify fun s ⟨hpassed, hconf, hemitters, hlog, hconfigured⟩ =>
      ⟨hconf, hemitters, congrArg (· ++ [Entry.signed pkgs]) hlog, hconfigured, fun pkgs' hmem => ?_⟩
    rcases List.mem_append.mp hmem with hmem | hmem
    · exact absurd (hlog ▸ hmem) (hunsigned pkgs')
    · obtain rfl := Entry.signed.inj (List.mem_singleton.mp hmem)
      exact hpassed hok
  · exact (auto.gpgsigcheckOne_triple done po ok G).weaken (fun _ hs => hs) (fun _ _ hs => hs) fun _ s hs => hat s hs

theorem gpgsigcheck_bind {N : List Entry → List Emitter → Prop} {P : List Entry → Prop} {p : List Entry} (hp : P p) (hunsigned : ∀ pkgs, .signed pkgs ∉ l) (pkgs : List Gpg.Package)
    {f : Unit → Prog ω Unit} (hf : Realises auto conf emitters (l ++ [.signed pkgs]) (f ()) (fun p => N (.signed pkgs :: p)) fun p => P (.signed pkgs :: p)) :
    Realises auto conf emitters l (auto.gpgsigcheck pkgs >>= f) N P := by
  refine Triple.bind ((auto.gpgsigcheck_triple hunsigned pkgs).weaken (fun _ hs => hs) (fun _ _ hs => hs) fun _ _ hs => ⟨p, hp, hs.cut⟩) fun _ => ?_
  refine hf.weaken (fun _ hs => hs) (fun _ s ⟨p, emitters', hp, hs⟩ => ?_) fun _ s ⟨p, hp, hs⟩ => ?_
  · exact ⟨.signed pkgs :: p, emitters', hp, List.append_cons l (.signed pkgs) p ▸ hs⟩
  · exact ⟨.signed pkgs :: p, hp, hs.shift⟩

/-! ### The upgrade -/

theorem transact_realises (hunsigned : ∀ pkgs, .signed pkgs ∉ l) (pkgs : List Gpg.Package) :
    Realises auto conf emitters l (auto.transact pkgs) (fun p _ => ∃ states, .error ∉ states ∧ p = transactPlan emitters pkgs states)
      fun p => ∃ states, p = transactPlan emitters pkgs states := by
  refine auto.gpgsigcheck_bind ⟨[], rfl⟩ hunsigned pkgs ?_
  refine Realises.enter_bind (by simp) (Realises.call_bind ⟨[], rfl⟩ fun _ => Realises.call_bind ⟨[], rfl⟩ fun states => ?_)
  refine Realises.enter_bind (by simp) (Triple.ite (fun herror => ?_) fun herror => ?_)
  · exact Realises.throw (p := []) ⟨states, (transactPlan_error emitters pkgs herror).symm⟩ _
  · have hplan := (transactPlan_ok emitters pkgs herror).symm
    refine Realises.notify_bind (p := reports (emitters.map Emitter.toldApplied)) (g := Emitter.toldApplied) ?_ ?_ ?_ ?_
    · exact ⟨states, hplan⟩
    · intro emitter emitter' h
      rw [Emitter.notifyApplied] at h
      split_ifs at h
      exact (Except.ok.inj h).symm
    · exact fun _ => rfl
    · exact auto.commit_realises ⟨states, herror, hplan⟩ ⟨states, hplan⟩

theorem reboot_realises (commands : Commands) :
    Realises auto conf emitters l (auto.reboot commands) (fun p _ => ∃ needed, p = rebootPlan commands needed) fun p => ∃ needed, p = rebootPlan commands needed := by
  have hreboot : ∀ needed, rebootPlan commands needed = [.rebooting commands.rebootCommand] →
      Realises auto conf emitters l (do
        enter (.rebooting commands.rebootCommand)
        let exitCode ← call (auto.outside.system commands.rebootCommand)
        if exitCode ≠ 0 then throw (.error ("reboot command returned nonzero exit code: " ++ toString exitCode)) else pure ())
        (fun p _ => ∃ needed, p = rebootPlan commands needed) fun p => ∃ needed, p = rebootPlan commands needed := by
    intro needed hplan
    refine Realises.enter_bind (by simp) (Realises.call_bind (p := []) ⟨needed, hplan.symm⟩ fun exitCode => ?_)
    exact Triple.ite (fun _ => Realises.throw (p := []) ⟨needed, hplan.symm⟩ _) fun _ => Realises.done ⟨needed, hplan.symm⟩
  rw [reboot]
  cases hkind : commands.reboot with
  | never => exact Realises.done ⟨false, by rw [rebootPlan, hkind]⟩
  | whenChanged => exact hreboot true (by rw [rebootPlan, hkind])
  | whenNeeded =>
      refine Realises.call_bind ⟨false, rfl⟩ fun wanted => ?_
      cases wanted with
      | true => exact hreboot true (by rw [rebootPlan, hkind, if_pos rfl])
      | false => exact Realises.done ⟨false, by rw [rebootPlan, hkind, if_neg Bool.false_ne_true]⟩

theorem inhibited_realises {N : List Entry → List Emitter → Prop} {P : List Entry → Prop} {p : List Entry} (hp : P p) (hNP : ∀ p es, N p es → P p) {x : Prog ω Unit}
    (hx : Realises auto conf emitters l x N P) (systemdInhibit : Bool) : Realises auto conf emitters l (auto.inhibited systemdInhibit x) N P :=
  Triple.ite (fun _ => Realises.call_bind hp fun _ => hx.leaving hNP _) fun _ => hx

theorem apply_realises (hunsigned : ∀ pkgs, .signed pkgs ∉ l) (commands : Commands) (pkgs : List Gpg.Package) :
    Realises auto conf emitters l (auto.apply commands pkgs)
      (fun p _ => ∃ states needed, .error ∉ states ∧ p = applyPlan commands emitters pkgs states needed)
      fun p => ∃ states needed, p = applyPlan commands emitters pkgs states needed := by
  refine Realises.seq (auto.inhibited_realises ⟨[], rfl⟩ (fun p _ ⟨states, _, hp⟩ => ⟨states, hp⟩) (auto.transact_realises hunsigned pkgs) commands.systemdInhibit) ?_ ?_
  · rintro p ⟨states, rfl⟩
    exact ⟨_, states, false, rfl⟩
  · rintro p emitters' ⟨states, herror, rfl⟩
    refine (auto.reboot_realises commands).mono ?_ ?_
    · rintro q _ ⟨needed, rfl⟩
      exact ⟨states, needed, herror, by rw [applyPlan, if_neg herror]⟩
    · rintro q ⟨needed, rfl⟩
      exact ⟨states, needed, by rw [applyPlan, if_neg herror]⟩

theorem download_realises (hunsigned : ∀ pkgs, .signed pkgs ∉ l) (commands : Commands) (items : List Item) :
    Realises auto conf emitters l (auto.download commands items)
      (fun p _ => ∃ a : Answers, a.items = items ∧ p = downloadPlan commands emitters a) fun p => ∃ a : Answers, a.items = items ∧ p = downloadPlan commands emitters a := by
  let blank : Answers := ⟨items, "", [], false⟩
  refine Realises.lift_bind ⟨blank, rfl, rfl⟩ fun pkgs hpkgs => ?_
  have hplan : ∀ states needed, downloadPlan commands emitters ⟨items, "", states, needed⟩ = .downloading pkgs :: .downloaded ::
      if commands.applyUpdates then applyPlan commands (emitters.map Emitter.toldDownloaded) pkgs states needed
      else reports (emitters.map Emitter.toldDownloaded) := by
    intro states needed
    rw [downloadPlan, hpkgs]
  refine Realises.enter_bind (by simp) (Realises.call_bind ⟨blank, rfl, (hplan [] false).symm⟩ fun _ => Realises.enter_bind (by simp) ?_)
  refine Realises.notify_bind (g := Emitter.toldDownloaded) (p := _) ⟨blank, rfl, (hplan [] false).symm⟩ ?_ (fun _ => rfl) (Triple.ite (fun happly => ?_) fun happly => ?_)
  · intro emitter emitter' h
    rw [Emitter.notifyDownloaded] at h
    split_ifs at h
    exact (Except.ok.inj h).symm
  · refine (auto.apply_realises (fun pkgs' hmem => ?_) commands pkgs).mono ?_ ?_
    · simp only [List.mem_append, List.mem_singleton, reduceCtorEq, or_false] at hmem
      exact hunsigned pkgs' hmem
    · rintro p _ ⟨states, needed, _, rfl⟩
      exact ⟨⟨items, "", states, needed⟩, rfl, by rw [hplan, if_pos happly]⟩
    · rintro p ⟨states, needed, rfl⟩
      exact ⟨⟨items, "", states, needed⟩, rfl, by rw [hplan, if_pos happly]⟩
  · refine auto.commit_realises ⟨blank, rfl, ?_⟩ ⟨blank, rfl, ?_⟩
    all_goals rw [hplan, if_neg happly]

theorem report_realises (hunsigned : ∀ pkgs, .signed pkgs ∉ l) (commands : Commands) (items : List Item) :
    Realises auto conf emitters l (auto.report commands items)
      (fun p _ => ∃ a : Answers, a.items = items ∧ p = reportPlan commands emitters a) fun p => ∃ a : Answers, a.items = items ∧ p = reportPlan commands emitters a := by
  refine Realises.call_bind ⟨⟨items, "", [], false⟩, rfl, rfl⟩ fun lst => ?_
  refine Realises.notify_bind (g := Emitter.told lst) (p := _) ⟨⟨items, lst, [], false⟩, rfl, rfl⟩ ?_ (fun _ => rfl) (Triple.ite (fun hdownload => ?_) fun hdownload => ?_)
  · exact fun emitter emitter' h => (Except.ok.inj h).symm
  · have hplan : ∀ a : Answers, downloadPlan commands (emitters.map (Emitter.told lst)) a = reportPlan commands emitters { a with lst := lst } := by
      intro a
      rw [reportPlan, if_pos hdownload]
      rfl
    refine (auto.download_realises hunsigned commands items).mono ?_ ?_
    · rintro p _ ⟨a, rfl, rfl⟩
      exact ⟨{ a with lst := lst }, rfl, hplan a⟩
    · rintro p ⟨a, rfl, rfl⟩
      exact ⟨{ a with lst := lst }, rfl, hplan a⟩
  · refine auto.commit_realises ⟨⟨items, lst, [], false⟩, rfl, ?_⟩ ⟨⟨items, lst, [], false⟩, rfl, ?_⟩
    all_goals rw [reportPlan, if_neg hdownload]

theorem upgrade_realises (upgradeType : String) :
    Realises auto conf emitters l (auto.upgrade upgradeType) (fun p es => upgradePlan upgradeType = some p ∧ es = emitters) fun p => upgradePlan upgradeType = some p ∨ p = [] := by
  refine Triple.ite (fun hsecurity => ?_) fun hsecurity => Triple.ite (fun hdefault => ?_) fun hdefault => Realises.throw (p := []) (.inr rfl) _
  · have hplan : upgradePlan upgradeType = some [.filtered, .marked] := if_pos hsecurity
    exact Realises.enter_bind (by simp) (Realises.call_bind (p := [.marked]) (.inl hplan) fun _ => Realises.enter_bind (by simp) (Realises.call_done (p := []) ⟨hplan, rfl⟩ (.inl hplan)))
  · have hplan : upgradePlan upgradeType = some [.marked] := (if_neg hsecurity).trans (if_pos hdefault)
    exact Realises.enter_bind (by simp) (Realises.call_done (p := []) ⟨hplan, rfl⟩ (.inl hplan))

theorem session_realises (conf : Config) :
    Realises auto conf emitters [] (auto.session conf) (fun p _ => ∃ a, p = plan conf emitters a) fun p => ∃ a, p = plan conf emitters a := by
  let blank : Answers := ⟨[], "", [], false⟩
  refine Realises.call_bind ⟨blank, rfl⟩ fun _ => Realises.seq (auto.upgrade_realises conf.commands.upgradeType) ?_ ?_
  · rintro p (hp | rfl)
    · exact ⟨_, blank, by rw [plan, hp]⟩
    · exact ⟨_, blank, List.nil_append _⟩
  · rintro p es ⟨hp, rfl⟩
    have hplan : ∀ a, p ++ resolvedPlan conf.commands es a = plan conf es a := by
      intro a
      rw [plan, hp]
    have hunsigned : ∀ pkgs, .signed pkgs ∉ p := by
      intro pkgs hmem
      rw [upgradePlan] at hp
      split_ifs at hp
      all_goals
        obtain rfl := Option.some.inj hp
        simp at hmem
    refine Realises.call_bind ⟨blank, hplan blank⟩ fun items => Realises.enter_bind (by simp) (Triple.ite (fun hempty => ?_) fun hempty => ?_)
    · refine Realises.done ⟨⟨items, "", [], false⟩, ?_⟩
      rw [← hplan, resolvedPlan, if_pos hempty]
    · have hrest : ∀ a : Answers, a.items = items → p ++ .resolved items :: reportPlan conf.commands es a = plan conf es a := by
        rintro a rfl
        rw [← hplan, resolvedPlan, if_neg hempty]
      refine (auto.report_realises (fun pkgs hmem => ?_) conf.commands items).mono ?_ ?_
      · simp only [List.nil_append, List.mem_append, List.mem_singleton, reduceCtorEq, or_false] at hmem
        exact hunsigned pkgs hmem
      · rintro q _ ⟨a, ha, rfl⟩
        exact ⟨a, hrest a ha⟩
      · rintro q ⟨a, ha, rfl⟩
        exact ⟨a, hrest a ha⟩

/-! ### The whole program -/

/-- The emitters of a configuration that `AutomaticConfig` can give. -/
def Configured (opts : Opts) (conf : Config) (es : List Emitter) : Prop :=
  (∃ loaded, conf = opts.effective loaded) ∧ buildEmitters conf.systemName conf.emitVia = .ok es

/-- A beginning of a plan, and the log when an exception reaches `main`. -/
def Stopped (opts : Opts) (s : State ω) : Prop :=
  s.log = [] ∧ (s.conf = none ∨ s.emitters = none) ∨ ∃ conf es a, Configured opts conf es ∧ Cut auto conf [] (plan conf es a) s

/-- Nothing has been configured. -/
def Blank (s : State ω) : Prop := s.log = [] ∧ s.conf = none ∧ s.emitters = none

theorem configure_triple (opts : Opts) :
    Triple Blank (auto.configure opts) (fun conf s => Blank s ∧ ∃ loaded, conf = opts.effective loaded) (fun _ => Blank) := by
  have hkeeps : ∀ {α : Type} (x : Call ω α), Keeps (Blank (ω := ω)) (call x) := fun x => call_keeps (fun _ _ hs => hs) x
  have hcheck : Keeps Blank (auto.checkPath opts) := by
    rw [checkPath]
    cases opts.confPath with
    | none => exact Keeps.pure _
    | some filename =>
        refine Keeps.bind (hkeeps _) fun _ => Triple.ite (fun _ => ?_) fun _ => Keeps.throw _
        exact Keeps.bind (hkeeps _) fun _ => Triple.ite (fun _ => Keeps.pure _) fun _ => Keeps.throw _
  exact Triple.bind hcheck fun _ => Triple.bind (hkeeps _) fun loaded => Triple.pure fun _ hs => ⟨hs, loaded, rfl⟩

theorem body_triple (opts : Opts) :
    Triple Blank (auto.body opts) (fun _ s => ∃ conf es a emitters', Configured opts conf es ∧ At auto conf emitters' (plan conf es a) s)
      (fun _ => auto.Stopped opts) := by
  refine Triple.bind ((auto.configure_triple opts).weaken (fun _ hs => hs) (fun _ _ hs => hs) fun _ s hs => .inl ⟨hs.1, .inl hs.2.1⟩) fun conf => ?_
  rintro s ⟨⟨hlog, hconf, hemitters⟩, hloaded⟩
  rw [bind_apply, modify_apply]
  dsimp only
  cases hes : buildEmitters conf.systemName conf.emitVia with
  | error e => exact .inl ⟨hlog, .inr hemitters⟩
  | ok es =>
      have hat : At auto conf es [] { s with conf := some conf, emitters := some es } :=
        ⟨rfl, rfl, hlog, Fallible.map_eq_of_mapM (fun _ _ h => option_of_buildEmitter h) hes, fun pkgs hmem => absurd (hlog ▸ hmem) List.not_mem_nil⟩
      have hsession := (@session_realises _ auto es conf).leaving (fun _ _ hp => hp) auto.outside.close
      refine (hsession.weaken (P := At auto conf es []) (fun _ hs => hs) (fun _ t ⟨p, es', ⟨a, hp⟩, ht⟩ => ?_) fun _ t ⟨p, ⟨a, hp⟩, ht⟩ => ?_) _ hat
      · exact ⟨conf, es, a, es', ⟨hloaded, hes⟩, hp ▸ ht⟩
      · exact .inr ⟨conf, es, a, ⟨hloaded, hes⟩, hp ▸ ht⟩

/-- All emitters that were configured know of the error. -/
structure Told (conf : Config) (es : List Emitter) : Prop where
  wanted : conf.sendErrorMessages = true
  configured : es.map (fun emitter => emitter.kind.option) = conf.emitVia
  error : ∀ emitter ∈ es, emitter.error = true

theorem told_notifyError {s : State ω} (h : At auto conf emitters l s) (hwanted : conf.sendErrorMessages = true) (msg : String) :
    Told conf (emitters.map fun emitter => emitter.notifyError msg) := by
  refine ⟨hwanted, ?_, fun emitter hmem => ?_⟩
  · rw [List.map_map]
    exact h.configured
  · obtain ⟨emitter, _, rfl⟩ := List.mem_map.mp hmem
    rfl

/-- The log of a run that an exception stopped: a beginning of a plan, and what there is of the error reports. -/
def Failed (opts : Opts) (sent : List Entry → List Entry → Prop) (s : State ω) : Prop :=
  s.log = [] ∧ (s.conf = none ∨ s.emitters = none) ∨
    ∃ conf es a done failed, s.conf = some conf ∧ Configured opts conf es ∧ done <+: plan conf es a ∧ s.log = done ++ failed ∧
      (conf.sendErrorMessages = false ∧ failed = [] ∨ ∃ told, Told conf told ∧ sent failed (reports told))

/-- Without a report. -/
theorem failed_of_stopped {opts : Opts} {s : State ω} (h : auto.Stopped opts s) : Failed opts (· <+: ·) s ∧ Cleared auto s := by
  rcases h with ⟨hlog, hnone⟩ | ⟨conf, es, a, hconfigured, k, emitters, hk, hat⟩
  · exact ⟨.inl ⟨hlog, hnone⟩, fun pkgs hmem => absurd (hlog ▸ hmem) List.not_mem_nil⟩
  · refine ⟨.inr ⟨conf, es, a, k, [], hat.conf_eq, hconfigured, hk, (hat.log_eq.trans (List.nil_append k)).trans (List.append_nil k).symm, ?_⟩, hat.cleared⟩
    cases hwanted : conf.sendErrorMessages with
    | false => exact .inl ⟨rfl, rfl⟩
    | true => exact .inr ⟨_, auto.told_notifyError hat hwanted "", List.nil_prefix⟩

theorem reportError_triple (opts : Opts) (msg : String) :
    Triple (auto.Stopped opts) (auto.reportError msg) (fun _ s => Failed opts (· = ·) s ∧ Cleared auto s)
      (fun _ s => Failed opts (· <+: ·) s ∧ Cleared auto s) := by
  rintro s (⟨hlog, hnone⟩ | ⟨conf, es, a, hconfigured, k, emitters, hk, hat⟩)
  · have hsilent : (s.conf.any Config.sendErrorMessages && s.emitters.isSome) = false := by
      rcases hnone with hnone | hnone
      · rw [hnone, Option.any_none, Bool.false_and]
      · rw [hnone, Option.isSome_none, Bool.and_false]
    rw [reportError, bind_apply, get_apply]
    dsimp only
    rw [hsilent, if_neg Bool.false_ne_true]
    exact ⟨.inl ⟨hlog, hnone⟩, fun pkgs hmem => absurd (hlog ▸ hmem) List.not_mem_nil⟩
  · rw [List.nil_append] at hat
    have hasked : (s.conf.any Config.sendErrorMessages && s.emitters.isSome) = conf.sendErrorMessages := by
      rw [hat.conf_eq, hat.emitters_eq, Option.any_some, Option.isSome_some, Bool.and_true]
    rw [reportError, bind_apply, get_apply]
    dsimp only
    rw [hasked]
    cases hwanted : conf.sendErrorMessages with
    | false => exact ⟨.inr ⟨conf, es, a, k, [], hat.conf_eq, hconfigured, hk, hat.log_eq.trans (List.append_nil k).symm, .inl ⟨hwanted, rfl⟩⟩, hat.cleared⟩
    | true =>
        have htold := auto.told_notifyError hat hwanted msg
        have hreport : Realises auto conf emitters k (do notify (fun emitter => .ok (emitter.notifyError msg)); auto.commit)
            (fun p _ => p = reports (emitters.map fun emitter => emitter.notifyError msg)) fun p => p = reports (emitters.map fun emitter => emitter.notifyError msg) :=
          Realises.notify_bind rfl (fun _ _ h => (Except.ok.inj h).symm) (fun _ => rfl) (auto.commit_realises rfl rfl)
        refine (hreport.weaken (P := At auto conf emitters k) (fun _ hs => hs) (fun _ t ⟨p, emitters', hp, ht⟩ => ?_) fun _ t ⟨p, hp, q, emitters', hq, ht⟩ => ?_) s hat
        · exact ⟨.inr ⟨conf, es, a, k, p, ht.conf_eq, hconfigured, hk, ht.log_eq, .inr ⟨_, htold, hp⟩⟩, ht.cleared⟩
        · exact ⟨.inr ⟨conf, es, a, k, q, ht.conf_eq, hconfigured, hk, ht.log_eq, .inr ⟨_, htold, hp ▸ hq⟩⟩, ht.cleared⟩

/-- How a run may end. -/
def Outcome (opts : Opts) : EStateM.Result Exc (State ω) Nat → Prop
  | .ok code s =>
      (code = 0 ∧ (∃ conf es a, s.conf = some conf ∧ Configured opts conf es ∧ s.log = plan conf es a) ∨ code = 1 ∧ Failed opts (· = ·) s) ∧ Cleared auto s
  | .error _ s => Failed opts (· <+: ·) s ∧ Cleared auto s

end Program

end Dnf.Automatic
