import Dnf.Lock.Exclusion

/-!
# Several locks on one file

Each `build_*_lock` call makes an object of its own, and nothing keeps a process from entering several objects with the same target inside each other: the file then names the process already, which lets any of them in. Each object removes the file when its own count comes back to zero. One process with one thread is enough here, and no other process is alive: `with` blocks are left in the opposite order, so an exit is that of the object entered last.
-/

namespace Dnf.ProcessLock.Nested

open Foundation

variable {Object : Type} [DecidableEq Object]

/-- `file` is the lock file if there is one, `entered` are the objects whose blocks the process is inside, the innermost first, and `raised` whether a call raised. -/
structure State (Object : Type) where
  file : Option (List Char)
  count : Object → Int
  entered : List Object := []
  raised : Bool := false

inductive Action (Object : Type)
  | enter (o : Object)
  | exit

/-- What `_try_lock` leaves in the file when it finds `text` there; a malformed file raises. No other process is alive, and the own one is not dead. -/
def lockedText (myPid : Pid) (text : List Char) : Option (List Char) :=
  if text.take 20 = [] then some (decimal myPid.val)
  else
    match pyInt (text.take 20) with
    | none => none
    | some oldPid => if oldPid = myPid.val then some text else some (decimal myPid.val)

/-- `__enter__` opens the file with `O_CREAT`. -/
def State.enter (myPid : Pid) (s : State Object) (o : Object) : State Object :=
  match lockedText myPid (s.file.getD []) with
  | none => { s with file := some (s.file.getD []), count := Function.update s.count o (s.count o + 1), raised := true }
  | some text => { s with file := some text, count := Function.update s.count o (s.count o + 1), entered := o :: s.entered }

/-- `__exit__`: `os.unlink` of a missing file raises. -/
def State.exit (s : State Object) (o : Object) (rest : List Object) : State Object :=
  if s.count o = 1 ∧ s.file = none then { s with entered := rest, raised := true }
  else
    { s with file := if s.count o = 1 then none else s.file, count := Function.update s.count o (s.count o - 1), entered := rest }

def State.next (myPid : Pid) (s : State Object) : Action Object → Option (State Object)
  | .enter o => some (s.enter myPid o)
  | .exit =>
      match s.entered with
      | [] => none
      | o :: rest => some (s.exit o rest)

/-- A missing file, an empty one, or one with the pid of a process that is dead. -/
def Stale (myPid : Pid) (file : Option (List Char)) : Prop :=
  ∀ text, file = some text → text.take 20 = [] ∨ ∃ oldPid, pyInt (text.take 20) = some oldPid ∧ oldPid ≠ (myPid.val : Int)

def nested (Object : Type) [DecidableEq Object] (myPid : Pid) : System (State Object) (Action Object) where
  Init s := s.entered = [] ∧ s.raised = false ∧ (∀ o, s.count o = 0) ∧ Stale myPid s.file
  next := State.next myPid

/-- The lock file exists and contains the pid. -/
def State.Holds (myPid : Pid) (s : State Object) : Prop := ∃ text, s.file = some text ∧ pyInt (text.take 20) = some (myPid.val : Int)

/-- The file is the process's exactly if some object is entered, and nothing was raised. -/
def State.Kept (myPid : Pid) (s : State Object) : Prop := (s.Holds myPid ↔ s.entered ≠ []) ∧ s.raised = false

/-- No object is left for good while another one is entered. -/
def LastOut (s : State Object) : Action Object → Prop
  | .enter _ => True
  | .exit => ∀ o rest, s.entered = o :: rest → o ∈ rest ∨ rest = []

/-! ### The invariant -/

structure Inv (myPid : Pid) (s : State Object) : Prop where
  counted : ∀ o, s.count o = s.entered.count o
  free : s.entered = [] → Stale myPid s.file
  kept : s.Kept myPid

theorem count_cons {count : Object → Int} {l : List Object} (hcounted : ∀ o, count o = l.count o) (o o' : Object) :
    Function.update count o (count o + 1) o' = (o :: l).count o' := by
  by_cases ho : o' = o
  · subst ho
    rw [Function.update_self, List.count_cons_self, hcounted]
    push_cast
    rfl
  · rw [Function.update_of_ne ho, List.count_cons_of_ne (Ne.symm ho), hcounted]

theorem count_tail {count : Object → Int} {o : Object} {rest : List Object} (hcounted : ∀ o', count o' = (o :: rest).count o') (o' : Object) :
    Function.update count o (count o - 1) o' = rest.count o' := by
  have hcounted := hcounted o'
  by_cases ho : o' = o
  · subst ho
    rw [List.count_cons_self] at hcounted
    rw [Function.update_self, hcounted]
    push_cast
    omega
  · rw [List.count_cons_of_ne (Ne.symm ho)] at hcounted
    rw [Function.update_of_ne ho, hcounted]

omit [DecidableEq Object] in
theorem not_holds_of_stale {myPid : Pid} {s : State Object} (hstale : Stale myPid s.file) : ¬s.Holds myPid := by
  rintro ⟨text, hfile, hpid⟩
  rcases hstale text hfile with hempty | ⟨oldPid, hold, hne⟩
  · rw [hempty] at hpid
    exact absurd hpid (by rw [show pyInt [] = none from rfl]; exact nofun)
  · rw [hpid, Option.some.injEq] at hold
    exact hne hold.symm

theorem inv_init {myPid : Pid} {s : State Object} (hinit : (nested Object myPid).Init s) : Inv myPid s := by
  obtain ⟨hentered, hraised, hcount, hstale⟩ := hinit
  refine ⟨fun o => ?_, fun _ => hstale, iff_of_false (not_holds_of_stale hstale) (not_not_intro hentered), hraised⟩
  rw [hcount, hentered, List.count_nil]
  rfl

/-- A file that is free or the process's own lets the process in, and has its pid afterwards. -/
theorem exists_lockedText {myPid : Pid} {s : State Object} (hinv : Inv myPid s) :
    ∃ text, lockedText myPid (s.file.getD []) = some text ∧ pyInt (text.take 20) = some (myPid.val : Int) := by
  have hwritten : pyInt ((decimal myPid.val).take 20) = some (myPid.val : Int) := by
    rw [take_decimal, pyInt_decimal]
  rw [lockedText]
  by_cases hempty : (s.file.getD []).take 20 = []
  · exact ⟨_, if_pos hempty, hwritten⟩
  rw [if_neg hempty]
  cases hfile : s.file with
  | none => exact absurd (by rw [hfile]; rfl) hempty
  | some text =>
      rw [hfile, Option.getD_some] at hempty
      rw [Option.getD_some]
      by_cases hentered : s.entered = []
      · obtain ⟨oldPid, hold, hne⟩ := (hinv.free hentered text hfile).resolve_left hempty
        rw [hold]
        exact ⟨_, if_neg hne, hwritten⟩
      · obtain ⟨text', hfile', hpid⟩ := hinv.kept.1.mpr hentered
        rw [hfile, Option.some.injEq] at hfile'
        subst hfile'
        rw [hpid]
        exact ⟨_, if_pos rfl, hpid⟩

theorem inv_enter {myPid : Pid} {s : State Object} (hinv : Inv myPid s) (o : Object) : Inv myPid (s.enter myPid o) := by
  obtain ⟨text, htext, hpid⟩ := exists_lockedText hinv
  rw [State.enter, htext]
  dsimp only
  exact ⟨count_cons hinv.counted o, fun h => absurd h (List.cons_ne_nil _ _), iff_of_true ⟨text, rfl, hpid⟩ (List.cons_ne_nil _ _), hinv.kept.2⟩

theorem file_ne_none {myPid : Pid} {s : State Object} (hinv : Inv myPid s) (hentered : s.entered ≠ []) : s.file ≠ none := by
  obtain ⟨text, hfile, _⟩ := hinv.kept.1.mpr hentered
  rw [hfile]
  exact nofun

/-- The step equation of an exit: the file goes with the last block of the object. -/
theorem exit_eq {myPid : Pid} {s : State Object} (hinv : Inv myPid s) {o : Object} {rest : List Object} (hentered : s.entered = o :: rest) :
    s.exit o rest = { s with
      file := if o ∈ rest then s.file else none
      count := Function.update s.count o (s.count o - 1)
      entered := rest } := by
  have hcount : s.count o = rest.count o + 1 := by
    rw [hinv.counted, hentered, List.count_cons_self]
    push_cast
    rfl
  have hlast : s.count o = 1 ↔ o ∉ rest := by
    rw [hcount, ← List.count_eq_zero]
    omega
  rw [State.exit, if_neg (fun h => file_ne_none hinv (by simp [hentered]) h.2)]
  by_cases ho : o ∈ rest
  · rw [if_neg (fun h => hlast.mp h ho), if_pos ho]
  · rw [if_pos (hlast.mpr ho), if_neg ho]

theorem kept_exit_iff {myPid : Pid} {s : State Object} (hinv : Inv myPid s) {o : Object} {rest : List Object} (hentered : s.entered = o :: rest) :
    (s.exit o rest).Kept myPid ↔ o ∈ rest ∨ rest = [] := by
  rw [exit_eq hinv hentered, State.Kept, State.Holds]
  dsimp only
  by_cases ho : o ∈ rest
  · rw [if_pos ho]
    refine iff_of_true ⟨?_, hinv.kept.2⟩ (Or.inl ho)
    exact iff_of_true (hinv.kept.1.mpr (by simp [hentered])) (List.ne_nil_of_mem ho)
  · rw [if_neg ho]
    simp [ho, hinv.kept.2]

theorem inv_exit {myPid : Pid} {s : State Object} (hinv : Inv myPid s) {o : Object} {rest : List Object} (hentered : s.entered = o :: rest)
    (hlast : o ∈ rest ∨ rest = []) : Inv myPid (s.exit o rest) := by
  have hkept := (kept_exit_iff hinv hentered).mpr hlast
  rw [exit_eq hinv hentered] at hkept ⊢
  refine ⟨count_tail (hentered ▸ hinv.counted), fun hrest => ?_, hkept⟩
  have hrest : rest = [] := hrest
  rw [hrest, if_neg List.not_mem_nil]
  exact fun text htext => absurd htext nofun

theorem exists_of_exit {myPid : Pid} {s t : State Object} (hnext : (nested Object myPid).next s .exit = some t) :
    ∃ o rest, s.entered = o :: rest ∧ t = s.exit o rest := by
  simp only [nested, State.next] at hnext
  split at hnext
  · cases hnext
  · exact ⟨_, _, ‹_›, (Option.some.inj hnext).symm⟩

/-- Along a run the file is right exactly if each object is left for good only when no other one is entered. -/
theorem kept_iff_lastOut {myPid : Pid} {start t : State Object} {as : List (Action Object)} (hinit : (nested Object myPid).Init start)
    (hrun : (nested Object myPid).Run System.anyStep start as t) :
    (nested Object myPid).Always (State.Kept myPid) start as ↔ (nested Object myPid).Run LastOut start as t := by
  have hinv := inv_init hinit
  refine System.Run.always_iff ?_ ?_ hrun hinv hinv.kept
  · rintro s a t hinv - hnext
    cases a with
    | enter o =>
        cases hnext
        exact iff_of_true (inv_enter hinv o).kept trivial
    | exit =>
        obtain ⟨o, rest, hentered, rfl⟩ := exists_of_exit hnext
        rw [kept_exit_iff hinv hentered, LastOut, hentered]
        simp
  · rintro s a t hinv - hgood hnext
    cases a with
    | enter o =>
        cases hnext
        exact inv_enter hinv o
    | exit =>
        obtain ⟨o, rest, hentered, rfl⟩ := exists_of_exit hnext
        exact inv_exit hinv hentered (hgood o rest hentered)

/-- One object entered again inside its own block. -/
def reentrant : List (Action Bool) := [.enter true, .enter true, .exit, .exit]

/-- Another object entered and left inside the block of the first. -/
def nestedTwo : List (Action Bool) := [.enter true, .enter false, .exit, .exit]

def missing : State Bool := { file := none, count := fun _ => 0 }

theorem reentrant_isSome : ((nested Bool 4711).exec System.anyStep missing reentrant).isSome = true := by decide +kernel

theorem kept_iff_lastOut_reentrant :
    (nested Bool 4711).Always (State.Kept 4711) missing reentrant ↔
      (nested Bool 4711).Run LastOut missing reentrant (((nested Bool 4711).exec System.anyStep missing reentrant).get reentrant_isSome) :=
  kept_iff_lastOut ⟨rfl, rfl, fun _ => rfl, nofun⟩ (System.run_of_exec (Option.some_get _).symm)

theorem not_kept_of_raised (s : State Bool) (hraised : s.raised = true) : ¬s.Kept 4711 := by
  rintro ⟨_, hnot⟩
  rw [hraised] at hnot
  exact absurd hnot (by decide)

/-- The inner object removes the file, and the exit of the outer one raises. -/
theorem nestedTwo_not_kept :
    (∃ s, (nested Bool 4711).Run System.anyStep missing nestedTwo s) ∧ ¬(nested Bool 4711).Always (State.Kept 4711) missing nestedTwo :=
  System.not_always_of_exec not_kept_of_raised (by decide +kernel)

end Dnf.ProcessLock.Nested
