import Dnf.Automatic.Main
import Dnf.Foundation.Fallible

/-!
# What dnf-automatic may do

The plan is what a run does from its configuration on when nothing goes wrong: a list of log entries, for the answers that the run gets. A run that is interrupted has done a beginning of a plan, and its error reports come after that. The rules say which plans a program realises from a given log.
-/

namespace Dnf.Automatic

open Foundation Foundation.Effect
open Gpg (Exc Call)
open Transaction (ItemState)

/-! ### The plan -/

def reports (emitters : List Emitter) : List Entry := emitters.map Entry.sent

def Emitter.told (lst : String) (emitter : Emitter) : Emitter := { emitter with availableMsg := some lst }

def Emitter.toldDownloaded (emitter : Emitter) : Emitter := { emitter with downloaded := true }

def Emitter.toldApplied (emitter : Emitter) : Emitter := { emitter with applied := true }

/-- What a run is told: the transaction, its listing, the states of its items in the end, and whether a reboot is needed. -/
structure Answers where
  items : List Item
  lst : String
  states : List ItemState
  needed : Bool

def rebootPlan (commands : Commands) (needed : Bool) : List Entry :=
  match commands.reboot with
  | .never => []
  | .whenChanged => [.rebooting commands.rebootCommand]
  | .whenNeeded => if needed then [.rebooting commands.rebootCommand] else []

def transactPlan (emitters : List Emitter) (pkgs : List Gpg.Package) (states : List ItemState) : List Entry :=
  .signed pkgs :: .running :: .finished states :: if .error ∈ states then [] else reports (emitters.map Emitter.toldApplied)

theorem transactPlan_error (emitters : List Emitter) (pkgs : List Gpg.Package) {states : List ItemState} (h : .error ∈ states) :
    transactPlan emitters pkgs states = [.signed pkgs, .running, .finished states] := by
  rw [transactPlan, if_pos h]

theorem transactPlan_ok (emitters : List Emitter) (pkgs : List Gpg.Package) {states : List ItemState} (h : .error ∉ states) :
    transactPlan emitters pkgs states = .signed pkgs :: .running :: .finished states :: reports (emitters.map Emitter.toldApplied) := by
  rw [transactPlan, if_neg h]

/-- The reboot is for a transaction without errors only. -/
def applyPlan (commands : Commands) (emitters : List Emitter) (pkgs : List Gpg.Package) (states : List ItemState) (needed : Bool) : List Entry :=
  transactPlan emitters pkgs states ++ if .error ∈ states then [] else rebootPlan commands needed

def downloadPlan (commands : Commands) (emitters : List Emitter) (a : Answers) : List Entry :=
  match installSet a.items with
  | .error _ => []
  | .ok pkgs =>
      .downloading pkgs :: .downloaded ::
        if commands.applyUpdates then applyPlan commands (emitters.map Emitter.toldDownloaded) pkgs a.states a.needed
        else reports (emitters.map Emitter.toldDownloaded)

def reportPlan (commands : Commands) (emitters : List Emitter) (a : Answers) : List Entry :=
  if commands.downloadUpdates then downloadPlan commands (emitters.map (Emitter.told a.lst)) a else reports (emitters.map (Emitter.told a.lst))

/-- Other types of an upgrade raise. -/
def upgradePlan (upgradeType : String) : Option (List Entry) :=
  if upgradeType = "security" then some [.filtered, .marked] else if upgradeType = "default" then some [.marked] else none

def resolvedPlan (commands : Commands) (emitters : List Emitter) (a : Answers) : List Entry :=
  .resolved a.items :: if a.items.isEmpty then [] else reportPlan commands emitters a

def plan (conf : Config) (emitters : List Emitter) (a : Answers) : List Entry :=
  match upgradePlan conf.commands.upgradeType with
  | none => []
  | some p => p ++ resolvedPlan conf.commands emitters a

/-! ### Realising a plan -/

variable {ω : Type} (auto : Program ω)

/-- The packages of a passed signature check have passed it. -/
def Cleared (s : State ω) : Prop := ∀ pkgs, .signed pkgs ∈ s.log → ∀ po ∈ pkgs, auto.gpg.Passed po s.gpg.trace

structure At (conf : Config) (emitters : List Emitter) (l : List Entry) (s : State ω) : Prop where
  conf_eq : s.conf = some conf
  emitters_eq : s.emitters = some emitters
  log_eq : s.log = l
  configured : emitters.map (fun emitter => emitter.kind.option) = conf.emitVia
  cleared : Cleared auto s

/-- Somewhere in the plan `p`. -/
def Cut (conf : Config) (l p : List Entry) (s : State ω) : Prop := ∃ k emitters, k <+: p ∧ At auto conf emitters (l ++ k) s

/-- From the log `l` the program does what is in `N`, with the emitters it leaves, or it raises somewhere in what is in `P`. -/
def Realises (conf : Config) (emitters : List Emitter) (l : List Entry) (x : Prog ω Unit) (N : List Entry → List Emitter → Prop)
    (P : List Entry → Prop) : Prop :=
  Triple (At auto conf emitters l) x (fun _ s => ∃ p emitters', N p emitters' ∧ At auto conf emitters' (l ++ p) s)
    (fun _ s => ∃ p, P p ∧ Cut auto conf l p s)

variable {auto} {conf : Config} {emitters : List Emitter} {l : List Entry} {N N' : List Entry → List Emitter → Prop} {P P' : List Entry → Prop}

theorem At.cut {p : List Entry} {s : State ω} (h : At auto conf emitters l s) : Cut auto conf l p s :=
  ⟨[], emitters, List.nil_prefix, (List.append_nil l).symm ▸ h⟩

theorem Cut.append {p : List Entry} (q : List Entry) {s : State ω} (h : Cut auto conf l p s) : Cut auto conf l (p ++ q) s := by
  obtain ⟨k, emitters, hk, hs⟩ := h
  exact ⟨k, emitters, hk.trans (List.prefix_append p q), hs⟩

theorem Cut.shift {p q : List Entry} {s : State ω} (h : Cut auto conf (l ++ p) q s) : Cut auto conf l (p ++ q) s := by
  obtain ⟨k, emitters, hk, hs⟩ := h
  exact ⟨p ++ k, emitters, (List.prefix_append_right_inj p).mpr hk, (List.append_assoc l p k) ▸ hs⟩

/-- A property that the world does not matter for. -/
def Worldless (R : State ω → Prop) : Prop := ∀ s world, R s → R { s with gpg := { s.gpg with world := world } }

theorem worldless_at : Worldless (At auto conf emitters l) := fun _ _ h => ⟨h.conf_eq, h.emitters_eq, h.log_eq, h.configured, h.cleared⟩

theorem worldless_cut {p : List Entry} : Worldless (Cut auto conf l p) := by
  rintro s world ⟨k, emitters, hk, hs⟩
  exact ⟨k, emitters, hk, worldless_at s world hs⟩

theorem call_keeps {α : Type} {R : State ω → Prop} (hR : Worldless R) (x : Call ω α) : Keeps R (call x) := by
  intro s hs
  rw [call, onGpg, Gpg.perform]
  cases x s.gpg.world with
  | mk result world =>
      cases result with
      | ok a => exact hR s world hs
      | error e => exact hR s world hs

theorem leaving_triple {α : Type} {R : State ω → Prop} {S : α → State ω → Prop} {F : State ω → Prop} {x : Prog ω α} (leave : Call ω Unit)
    (hx : Triple R x S fun _ => F) (hS : ∀ a, Worldless (S a)) (hF : Worldless F) (hSF : ∀ a s, S a s → F s) :
    Triple R (leaving leave x) S fun _ => F := by
  have hhandled : Triple R (tryCatch x fun e => do call leave; throw e) S fun _ => F :=
    Triple.tryCatch hx fun e => Triple.bind (call_keeps hF leave) fun _ => Triple.throw fun _ hs => hs
  refine Triple.bind hhandled fun a => Triple.bind (M := fun _ => S a) ?_ fun _ => Triple.pure fun _ hs => hs
  exact (call_keeps (hS a) leave).weaken (fun _ hs => hs) (fun _ _ hs => hs) fun _ s hs => hSF a s hs

namespace Realises

variable {x : Prog ω Unit}

theorem mono (h : Realises auto conf emitters l x N P) (hN : ∀ p es, N p es → N' p es) (hP : ∀ p, P p → P' p) :
    Realises auto conf emitters l x N' P' :=
  h.weaken (fun _ hs => hs) (fun _ _ ⟨p, es, hp, hs⟩ => ⟨p, es, hN p es hp, hs⟩) fun _ _ ⟨p, hp, hs⟩ => ⟨p, hP p hp, hs⟩

theorem done (hN : N [] emitters) : Realises auto conf emitters l (pure ()) N P :=
  Triple.pure fun _ hs => ⟨[], emitters, hN, (List.append_nil l).symm ▸ hs⟩

theorem throw {p : List Entry} (hp : P p) (e : Exc) : Realises auto conf emitters l (throw e) N P := Triple.throw fun _ hs => ⟨p, hp, hs.cut⟩

theorem lift_bind {α : Type} {a? : Except Exc α} {f : α → Prog ω Unit} {p : List Entry} (hp : P p)
    (hf : ∀ a, a? = .ok a → Realises auto conf emitters l (f a) N P) : Realises auto conf emitters l (lift a? >>= f) N P := by
  cases a? with
  | ok a => exact hf a rfl
  | error e => exact throw hp e

theorem call_bind {α : Type} {c : Call ω α} {f : α → Prog ω Unit} {p : List Entry} (hp : P p)
    (hf : ∀ a, Realises auto conf emitters l (f a) N P) : Realises auto conf emitters l (call c >>= f) N P := by
  have hcall : Triple (At auto conf emitters l) (call c) (fun _ => At auto conf emitters l) (fun _ s => ∃ p, P p ∧ Cut auto conf l p s) :=
    (call_keeps worldless_at c).weaken (fun _ hs => hs) (fun _ _ hs => hs) fun _ _ hs => ⟨p, hp, hs.cut⟩
  exact Triple.bind hcall hf

theorem call_done {c : Call ω Unit} {p : List Entry} (hN : N [] emitters) (hp : P p) : Realises auto conf emitters l (call c) N P :=
  (call_keeps worldless_at c).weaken (fun _ hs => hs) (fun _ _ hs => ⟨[], emitters, hN, (List.append_nil l).symm ▸ hs⟩) fun _ _ hs => ⟨p, hp, hs.cut⟩

/-- A program before the rest: it may raise in a beginning of a plan of the whole. -/
theorem seq {M : List Entry → List Emitter → Prop} {T : List Entry → Prop} {f : Unit → Prog ω Unit} (hx : Realises auto conf emitters l x N P) (hcut : ∀ p, P p → ∃ q, T (p ++ q))
    (hf : ∀ p emitters', N p emitters' → Realises auto conf emitters' (l ++ p) (f ()) (fun q => M (p ++ q)) fun q => T (p ++ q)) :
    Realises auto conf emitters l (x >>= f) M T := by
  refine Triple.bind (hx.weaken (fun _ hs => hs) (fun _ _ hs => hs) fun _ s ⟨p, hp, hs⟩ => ?_) fun _ s ⟨p, emitters', hp, hs⟩ => ?_
  · obtain ⟨q, hq⟩ := hcut p hp
    exact ⟨p ++ q, hq, hs.append q⟩
  · refine (hf p emitters' hp).weaken (P := At auto conf emitters' (l ++ p)) (fun _ hs => hs) (fun _ t ⟨q, emitters'', hq, ht⟩ => ?_) (fun _ t ⟨q, hq, ht⟩ => ?_) s hs
    · exact ⟨p ++ q, emitters'', hq, (List.append_assoc l p q) ▸ ht⟩
    · exact ⟨p ++ q, hq, ht.shift⟩

/-- An entry before the rest of the program. -/
theorem enter_bind {entry : Entry} {f : Unit → Prog ω Unit} (hplain : ∀ pkgs, entry ≠ .signed pkgs)
    (hf : Realises auto conf emitters (l ++ [entry]) (f ()) (fun p => N (entry :: p)) fun p => P (entry :: p)) :
    Realises auto conf emitters l (enter entry >>= f) N P := by
  have henter : Triple (At auto conf emitters l) (enter entry) (fun _ => At auto conf emitters (l ++ [entry]))
      (fun _ s => ∃ p, P p ∧ Cut auto conf l p s) := by
    refine Triple.modify fun s hs => ⟨hs.conf_eq, hs.emitters_eq, congrArg (· ++ [entry]) hs.log_eq, hs.configured, fun pkgs hmem => ?_⟩
    rcases List.mem_append.mp hmem with hmem | hmem
    · exact hs.cleared pkgs hmem
    · exact absurd (List.mem_singleton.mp hmem).symm (hplain pkgs)
  refine Triple.bind henter fun _ => hf.weaken (fun _ hs => hs) (fun _ s ⟨p, emitters', hp, hs⟩ => ?_) fun _ s ⟨p, hp, hs⟩ => ?_
  · exact ⟨entry :: p, emitters', hp, List.append_cons l entry p ▸ hs⟩
  · exact ⟨entry :: p, hp, hs.shift⟩

/-- The methods of the emitters raise, or change each of them. -/
theorem notify_bind {method : Emitter → Except Exc Emitter} {g : Emitter → Emitter} {f : Unit → Prog ω Unit} {p : List Entry} (hp : P p)
    (hmethod : ∀ emitter emitter', method emitter = .ok emitter' → emitter' = g emitter) (hkind : ∀ emitter, (g emitter).kind = emitter.kind)
    (hf : Realises auto conf (emitters.map g) l (f ()) N P) : Realises auto conf emitters l (Program.notify method >>= f) N P := by
  have hnotify : Triple (At auto conf emitters l) (Program.notify method) (fun _ => At auto conf (emitters.map g) l)
      (fun _ s => ∃ p, P p ∧ Cut auto conf l p s) := by
    intro s hs
    rw [Program.notify, bind_apply, get_apply]
    dsimp only
    rw [hs.emitters_eq, Option.getD_some]
    cases hnext : emitters.mapM method with
    | error e => exact ⟨p, hp, hs.cut⟩
    | ok emitters' =>
        rw [lift_ok_bind]
        refine ⟨hs.conf_eq, congrArg some (Fallible.eq_map_of_mapM hmethod hnext), hs.log_eq, ?_, hs.cleared⟩
        rw [List.map_map]
        simp only [Function.comp_def, hkind]
        exact hs.configured
  exact Triple.bind hnotify fun _ => hf

theorem leaving (h : Realises auto conf emitters l x N P) (hNP : ∀ p es, N p es → P p) (leave : Call ω Unit) :
    Realises auto conf emitters l (Automatic.leaving leave x) N P := by
  refine leaving_triple leave h ?_ ?_ ?_
  · rintro _ s world ⟨p, emitters', hp, hs⟩
    exact ⟨p, emitters', hp, worldless_at s world hs⟩
  · rintro s world ⟨p, hp, hs⟩
    exact ⟨p, hp, worldless_cut s world hs⟩
  · rintro _ s ⟨p, emitters', hp, hs⟩
    exact ⟨p, hNP p emitters' hp, p, emitters', List.prefix_refl p, hs⟩

end Realises

end Dnf.Automatic
