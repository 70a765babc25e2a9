import Dnf.Logging.Rotation
import Mathlib.Data.List.Nodup

/-!
# Only full logs are rotated

As long as a process rotates the file that it has open, the file is one that it found full, and files do not shrink. A process whose file was rotated by another one in the meantime rotates a file that nobody has looked at.
-/

namespace Dnf.Logging

open Foundation
open ProcessLock (Pid Inode)

/-! ### What is to hold -/

/-- Every rollover moved away a file that had reached the limit, and another one each time. A file that was moved away keeps its place among the backups until `backupCount` more are. -/
structure State.RotatesRightly (maxBytes backupCount : Nat) (s : State) : Prop where
  full : ∀ r ∈ s.rotations, maxBytes ≤ r.size + r.record.length
  once : (s.rotations.map Rotation.file).Nodup
  kept : ∀ k < backupCount, ∀ r, s.rotations[k]? = some r → s.backups (k + 1) = some r.file

/-- The process is about to rotate, and the file at the path is not the one it has open. -/
def rollsStale (s : State) (a : Pid × Act) : Bool :=
  match a.2, (s.handler a.1).phase with
  | .advance, .rolling _ => (s.handler a.1).stream != s.base
  | _, _ => false

/-! ### What a step does -/

/-- On the way from the size check to the rollover. -/
def Phase.Wants (record : Record) : Phase → Prop
  | .locking r => r = record
  | .stating r => r = record
  | .rolling r => r = record
  | _ => False

namespace State

variable {s t : State} {maxBytes backupCount : Nat}

/-- The open file is full for the record that the rollover is for. -/
def Vetted (s : State) (maxBytes : Nat) (h : Handler) : Prop :=
  ∀ record, h.phase.Wants record → ∃ file, h.stream = some file ∧ maxBytes ≤ s.size file + record.length

/-- The changes that a step can make. -/
inductive Change (s : State) (maxBytes backupCount : Nat) (p : Pid) : Act → State → Prop
  | handler {act : Act} {lock : ProcessLock.State} {h : Handler} (hstream : h.stream = none ∨ h.stream = (s.handler p).stream)
      (hvetted : s.Vetted maxBytes h) : Change s maxBytes backupCount p act { s.setHandler p h with lock := lock }
  | opened {act : Act} {phase : Phase} (hwants : ∀ record, ¬phase.Wants record) :
      Change s maxBytes backupCount p act (s.openStream p phase)
  | wrote {act : Act} (stream : Inode) (bytes : Nat) : Change s maxBytes backupCount p act
      { s.setPhase p .idle with size := Function.update s.size stream (s.size stream + bytes) }
  | rotated {record : Record} (hphase : (s.handler p).phase = .rolling record) :
      Change s maxBytes backupCount p .advance (s.rotate backupCount p record)

theorem Vetted.idle {stream : Option Inode} : s.Vetted maxBytes { stream := stream, phase := .idle } := nofun

theorem Change.phase {p : Pid} {a : Act} {phase : Phase} (hvetted : s.Vetted maxBytes { s.handler p with phase := phase }) :
    Change s maxBytes backupCount p a (s.setPhase p phase) :=
  .handler (.inr rfl) hvetted

theorem Change.lockStep {p : Pid} {a : Act} {act : ProcessLock.Act} {phase : ProcessLock.Proc → ProcessLock.Proc → Phase}
    (hstep : s.lockStep p act phase = some t) (hvetted : ∀ before after, s.Vetted maxBytes { s.handler p with phase := phase before after }) :
    Change s maxBytes backupCount p a t := by
  obtain ⟨lock, _, rfl⟩ := Option.map_eq_some_iff.mp hstep
  exact .handler (.inr rfl) (hvetted _ _)

/-- Inside the lock or waiting for it, a process is there for the record that it checked. -/
theorem Vetted.entered {record : Record} {stream : Option Inode} (hvetted : s.Vetted maxBytes { stream := stream, phase := .locking record })
    (before after : ProcessLock.Proc) : s.Vetted maxBytes { stream := stream, phase := entered record before after } := by
  unfold State.entered
  split
  · exact hvetted
  · split
    · exact hvetted
    · split
      · exact nofun
      · exact nofun

theorem Vetted.exited {record : Record} {raised : Bool} {stream : Option Inode} (before after : ProcessLock.Proc) :
    s.Vetted maxBytes { stream := stream, phase := exited record raised before after } := by
  unfold State.exited
  split
  · exact nofun
  · exact nofun

theorem change_checkSize {p : Pid} {record : Record} (hstep : s.checkSize maxBytes p record = some t) :
    Change s maxBytes backupCount p .advance t := by
  unfold checkSize at hstep
  cases hstream : (s.handler p).stream with
  | none =>
      rw [hstream, Option.some.injEq] at hstep
      subst hstep
      exact .opened fun _ => not_false
  | some stream =>
      rw [hstream] at hstep
      dsimp only at hstep
      split at hstep
      · rename_i hfull
        refine Change.lockStep hstep fun _ _ record' hwants => ⟨stream, hstream, ?_⟩
        rw [← show record = record' from hwants]
        exact hfull.2
      · rw [Option.some.injEq] at hstep
        subst hstep
        exact .phase nofun

theorem change_write {p : Pid} {record : Record} : Change s maxBytes backupCount p .advance (s.write p record) := by
  unfold write
  split
  · exact .opened fun _ => not_false
  · exact .wrote _ _

theorem change_advance {p : Pid} (hvetted : s.Vetted maxBytes (s.handler p)) (hstep : s.advance maxBytes backupCount p = some t) :
    Change s maxBytes backupCount p .advance t := by
  unfold advance at hstep
  unfold Vetted at hvetted
  cases hphase : (s.handler p).phase with
  | idle =>
      rw [hphase] at hstep
      cases hstep
  | checking record =>
      rw [hphase] at hstep
      exact change_checkSize hstep
  | locking record =>
      rw [hphase] at hstep hvetted
      exact Change.lockStep hstep (Vetted.entered hvetted)
  | stating record =>
      rw [hphase] at hstep hvetted
      cases hstep
      refine .phase ?_
      split
      · exact hvetted
      · exact nofun
  | rolling record =>
      rw [hphase] at hstep
      cases hstep
      exact .rotated hphase
  | reopening record =>
      rw [hphase] at hstep
      cases hstep
      exact .opened fun _ => not_false
  | unlocking record raised =>
      rw [hphase] at hstep
      exact Change.lockStep hstep Vetted.exited
  | writing record =>
      rw [hphase] at hstep
      cases hstep
      exact change_write

theorem change_failCall {p : Pid} (hvetted : s.Vetted maxBytes (s.handler p)) (hstep : s.failCall p = some t) :
    Change s maxBytes backupCount p .fail t := by
  unfold failCall at hstep
  unfold Vetted at hvetted
  cases hphase : (s.handler p).phase with
  | idle =>
      rw [hphase] at hstep
      cases hstep
  | locking record =>
      rw [hphase] at hstep hvetted
      exact Change.lockStep hstep (Vetted.entered hvetted)
  | rolling record =>
      rw [hphase] at hstep
      cases hstep
      exact .handler (.inl rfl) nofun
  | unlocking record raised =>
      rw [hphase] at hstep
      cases hstep
  | checking record | stating record | reopening record | writing record =>
      rw [hphase] at hstep
      cases hstep
      exact .phase nofun

theorem change_next {p : Pid} {act : Act} (hvetted : s.Vetted maxBytes (s.handler p)) (hstep : s.next maxBytes backupCount (p, act) = some t) :
    Change s maxBytes backupCount p act t := by
  unfold next at hstep
  rw [Option.ite_none_right_eq_some] at hstep
  obtain ⟨_, hstep⟩ := hstep
  split at hstep
  · rw [Option.ite_none_right_eq_some, Option.some.injEq] at hstep
    rw [← hstep.2]
    exact .opened fun _ => not_false
  · cases hstep
    exact .phase nofun
  · obtain rfl : act = .advance := ‹_›
    exact change_advance hvetted hstep
  · obtain rfl : act = .fail := ‹_›
    exact change_failCall hvetted hstep
  · exact Change.lockStep hstep fun _ _ => hvetted
  · cases hstep

/-! ### The invariant -/

/-- The stream, if it is open, is a file that there has been. -/
def Known (fresh : Inode) (h : Handler) : Prop := ∀ file, h.stream = some file → file < fresh

structure Inv (maxBytes backupCount : Nat) (s : State) : Prop where
  base_lt : ∀ file, s.base = some file → file < s.fresh
  known : ∀ p, Known s.fresh (s.handler p)
  vetted : ∀ p, s.Vetted maxBytes (s.handler p)
  moved : ∀ r ∈ s.rotations, r.file < s.fresh ∧ s.base ≠ some r.file
  rightly : s.RotatesRightly maxBytes backupCount

theorem inv_init (hinit : s.Init) : Inv maxBytes backupCount s where
  base_lt := hinit.base_lt
  known p file hstream := by
    rw [hinit.stream] at hstream
    cases hstream
  vetted p record hwants := by
    rw [hinit.phase] at hwants
    exact hwants.elim
  moved r hr := by
    rw [hinit.rotations] at hr
    exact absurd hr List.not_mem_nil
  rightly := by
    refine ⟨?_, ?_, ?_⟩
    · rw [hinit.rotations]
      exact fun r hr => absurd hr List.not_mem_nil
    · rw [hinit.rotations]
      exact List.nodup_nil
    · rw [hinit.rotations]
      exact nofun

/-- Files only grow, so what was full for a record stays so. -/
theorem Vetted.grow {h : Handler} (hvetted : s.Vetted maxBytes h) (hgrow : ∀ file, h.stream = some file → s.size file ≤ t.size file) :
    t.Vetted maxBytes h := by
  intro record hwants
  obtain ⟨file, hstream, hfull⟩ := hvetted record hwants
  exact ⟨file, hstream, hfull.trans (Nat.add_le_add_right (hgrow file hstream) _)⟩

/-- A property of the handlers, after one of them changed. -/
theorem forall_update_handler {P : Handler → Prop} {p : Pid} {h : Handler} (hother : ∀ q, P (s.handler q)) (hself : P h) (q : Pid) :
    P (Function.update s.handler p h q) := by
  by_cases hq : q = p
  · subst hq
    rwa [Function.update_self]
  · rw [Function.update_of_ne hq]
    exact hother q

theorem RotatesRightly.congr (hrightly : s.RotatesRightly maxBytes backupCount) (hrotations : t.rotations = s.rotations)
    (hbackups : t.backups = s.backups) : t.RotatesRightly maxBytes backupCount := by
  refine ⟨?_, ?_, ?_⟩
  · rw [hrotations]
    exact hrightly.full
  · rw [hrotations]
    exact hrightly.once
  · rw [hrotations, hbackups]
    exact hrightly.kept

theorem inv_handler (hinv : Inv maxBytes backupCount s) {p : Pid} {lock : ProcessLock.State} {h : Handler}
    (hstream : h.stream = none ∨ h.stream = (s.handler p).stream) (hvetted : s.Vetted maxBytes h) :
    Inv maxBytes backupCount { s.setHandler p h with lock := lock } where
  base_lt := hinv.base_lt
  known := by
    refine forall_update_handler (P := Known s.fresh) hinv.known fun file hfile => ?_
    rcases hstream with hnone | hsame
    · rw [hnone] at hfile
      cases hfile
    · exact hinv.known p file (hsame.symm.trans hfile)
  vetted := forall_update_handler (P := s.Vetted maxBytes) hinv.vetted hvetted
  moved := hinv.moved
  rightly := hinv.rightly.congr rfl rfl

theorem inv_openStream (hinv : Inv maxBytes backupCount s) (p : Pid) {phase : Phase} (hwants : ∀ record, ¬phase.Wants record) :
    Inv maxBytes backupCount (s.openStream p phase) := by
  unfold openStream
  cases hbase : s.base with
  | some file =>
      exact {
        base_lt := hinv.base_lt
        known := forall_update_handler (P := Known s.fresh) hinv.known fun file' hfile => Option.some.inj hfile ▸ hinv.base_lt file hbase
        vetted := forall_update_handler (P := s.Vetted maxBytes) hinv.vetted fun record hw => absurd hw (hwants record)
        moved := hinv.moved
        rightly := hinv.rightly.congr rfl rfl }
  | none =>
      have hgrow : ∀ file, file < s.fresh → s.size file ≤ Function.update s.size s.fresh 0 file := by
        intro file hlt
        rw [Function.update_of_ne hlt.ne]
      exact {
        base_lt := fun file hfile => Option.some.inj hfile ▸ Nat.lt_succ_self _
        known := forall_update_handler (P := Known (s.fresh + 1)) (fun q file hfile => Nat.lt_succ_of_lt (hinv.known q file hfile))
          fun file hfile => Option.some.inj hfile ▸ Nat.lt_succ_self _
        vetted := by
          refine forall_update_handler (P := State.Vetted _ maxBytes) (fun q => ?_) fun record hw => absurd hw (hwants record)
          exact (hinv.vetted q).grow fun file hfile => hgrow file (hinv.known q file hfile)
        moved := fun r hr => ⟨Nat.lt_succ_of_lt (hinv.moved r hr).1, fun h => (hinv.moved r hr).1.ne' (Option.some.inj h)⟩
        rightly := hinv.rightly.congr rfl rfl }

theorem inv_write (hinv : Inv maxBytes backupCount s) (p : Pid) (stream : Inode) (bytes : Nat) :
    Inv maxBytes backupCount { s.setPhase p .idle with size := Function.update s.size stream (s.size stream + bytes) } where
  base_lt := hinv.base_lt
  known := forall_update_handler (P := Known s.fresh) hinv.known (hinv.known p)
  vetted := by
    refine forall_update_handler (P := State.Vetted _ maxBytes) (fun q => (hinv.vetted q).grow fun file _ => ?_) nofun
    dsimp only
    by_cases hfile : file = stream
    · rw [hfile, Function.update_self]
      exact Nat.le_add_right _ _
    · rw [Function.update_of_ne hfile]
  moved := hinv.moved
  rightly := hinv.rightly.congr rfl rfl

/-! ### The rollover -/

theorem shift_of_lt {count j : Nat} (hlt : count + 1 < j) (backups : Nat → Option Inode) : shift count backups j = backups j := by
  induction count generalizing backups with
  | zero => rfl
  | succ count ih =>
      unfold shift
      cases hbackup : backups (count + 1) with
      | none => exact ih (Nat.lt_of_succ_lt hlt) backups
      | some file =>
          dsimp only
          rw [ih (Nat.lt_of_succ_lt hlt), Function.update_of_ne (by omega), Function.update_of_ne (by omega)]

/-- A backup in the range of the loop moves up by one. -/
theorem shift_succ {count j : Nat} (hpos : 0 < j) (hle : j ≤ count) {backups : Nat → Option Inode} {file : Inode} (hfile : backups j = some file) :
    shift count backups (j + 1) = some file := by
  induction count generalizing backups with
  | zero => exact absurd hpos (Nat.not_lt.mpr hle)
  | succ count ih =>
      unfold shift
      by_cases hj : j = count + 1
      · rw [← hj, hfile]
        dsimp only
        rw [shift_of_lt (by omega), Function.update_of_ne (by omega), hj, Function.update_self]
      · have hle : j ≤ count := by omega
        cases hbackup : backups (count + 1) with
        | none => exact ih hle hfile
        | some file' =>
            refine ih hle ?_
            rw [Function.update_of_ne hj, Function.update_of_ne (by omega), hfile]

theorem kept_rotate (hrightly : s.RotatesRightly maxBytes backupCount) {r : Rotation} {file : Inode} (hr : r.file = file) (k : Nat)
    (hk : k < backupCount) (r' : Rotation) (hr' : (r :: s.rotations)[k]? = some r') :
    Function.update (shift (backupCount - 1) s.backups) 1 (some file) (k + 1) = some r'.file := by
  cases k with
  | zero =>
      rw [List.getElem?_cons_zero, Option.some.injEq] at hr'
      rw [Function.update_self, ← hr', hr]
  | succ k =>
      rw [List.getElem?_cons_succ] at hr'
      rw [Function.update_of_ne (by omega)]
      exact shift_succ (Nat.succ_pos k) (by omega) (hrightly.kept k (by omega) r' hr')

/-- The file that the process has open is the one that it moves away, and it was found full. -/
theorem inv_rotate (hinv : Inv maxBytes backupCount s) {p : Pid} {record : Record} (hphase : (s.handler p).phase = .rolling record)
    (hstream : (s.handler p).stream = s.base) : Inv maxBytes backupCount (s.rotate backupCount p record) := by
  obtain ⟨file, hfile, hfull⟩ := hinv.vetted p record (by rw [hphase]; exact rfl)
  have hbase : s.base = some file := hstream.symm.trans hfile
  have hclosed := @inv_handler s maxBytes backupCount hinv p s.lock { stream := none, phase := .reopening record } (.inl rfl) nofun
  unfold rotate
  by_cases hcount : backupCount > 0
  · simp only [if_pos hcount, hbase]
    exact {
      base_lt := nofun
      known := hclosed.known
      vetted := hclosed.vetted
      moved := by
        intro r hr
        refine ⟨?_, nofun⟩
        rcases List.mem_cons.mp hr with rfl | hr
        · exact hinv.base_lt file hbase
        · exact (hinv.moved r hr).1
      rightly := {
        full := by
          intro r hr
          rcases List.mem_cons.mp hr with rfl | hr
          · exact hfull
          · exact hinv.rightly.full r hr
        once := by
          refine List.nodup_cons.mpr ⟨fun hmem => ?_, hinv.rightly.once⟩
          obtain ⟨r, hr, heq⟩ := List.mem_map.mp hmem
          exact (hinv.moved r hr).2 (by rw [hbase, heq])
        kept := kept_rotate hinv.rightly rfl } }
  · simp only [if_neg hcount]
    exact hclosed

theorem inv_step {a : Pid × Act} (hinv : Inv maxBytes backupCount s) (hguard : rollsStale s a = false)
    (hstep : s.next maxBytes backupCount a = some t) : Inv maxBytes backupCount t := by
  obtain ⟨p, act⟩ := a
  cases change_next (hinv.vetted p) hstep with
  | handler hstream hvetted => exact inv_handler hinv hstream hvetted
  | opened hwants => exact inv_openStream hinv p hwants
  | wrote stream bytes => exact inv_write hinv p stream bytes
  | rotated hphase =>
      unfold rollsStale at hguard
      simp only [hphase] at hguard
      exact inv_rotate hinv hphase (by simpa using hguard)

end State

/-! ### Runs -/

/-- In every state reached by steps none of which rotates a file that the process does not have open, only full files were rotated. -/
theorem rotatesRightly_of_not_rollsStale (maxBytes backupCount : Nat) (s : State)
    (hreach : (system maxBytes backupCount).Reachable (fun s a => rollsStale s a = false) s) : s.RotatesRightly maxBytes backupCount := by
  have hinv : State.Inv maxBytes backupCount s :=
    hreach.invariant (fun _ hinit => State.inv_init hinit) fun _ _ _ hinv hguard hstep => State.inv_step hinv hguard hstep
  exact hinv.rightly

/-- A log file of nine bytes, and nobody who logs yet. -/
def nineBytes : State where
  lock :=
    { target := none
      content := fun _ => []
      holder := fun _ => none
      fresh := 0
      proc := fun _ => { alive := true, blocking := false, count := 0, depth := 0, pc := .idle } }
  size _ := 9
  fresh := 1
  base := some 0
  backups _ := none
  rotations := []
  handler _ := { stream := none, phase := .idle }

theorem nineBytes_init : nineBytes.Init where
  lock := ⟨nofun, fun _ => rfl, fun _ => rfl, fun _ => rfl, fun _ => rfl⟩
  blocking _ := rfl
  base_lt _ hbase := Option.some.inj hbase ▸ Nat.zero_lt_one
  rotations := rfl
  stream _ := rfl
  phase _ := rfl

/-- Entering the lock takes six operations, and the rollover with the write five. -/
def loggedByOne : List (Pid × Act) :=
  (1, .start) :: (1, .emit ⟨1, 1⟩) :: List.replicate 12 (1, .advance)

theorem rotatesRightly_loggedByOne :
    ∃ s : State, s.rotations.length = 1 ∧ s.RotatesRightly 10 2 := by
  have hrun : ((system 10 2).exec (fun s a => rollsStale s a = false) nineBytes loggedByOne).any
      (fun s => decide (s.rotations.length = 1)) = true := by decide +kernel
  obtain ⟨s, hreach, hlength⟩ := System.exists_reachable_of_exec nineBytes_init hrun
  exact ⟨s, of_decide_eq_true hlength, rotatesRightly_of_not_rollsStale 10 2 s hreach⟩

/-- Two processes find the file full, and the second rotates the one that the first has begun. -/
def loggedByTwo : List (Pid × Act) :=
  (1, .start) :: (2, .start) :: (1, .emit ⟨1, 1⟩) :: (2, .emit ⟨1, 1⟩) :: (1, .advance) :: (2, .advance) ::
    List.replicate 11 (1, .advance) ++ List.replicate 8 (2, .advance)

theorem not_rotatesRightly : ¬∀ s, (system 10 2).Reachable System.anyStep s → s.RotatesRightly 10 2 := by
  intro hrightly
  have hrun : ((system 10 2).exec System.anyStep nineBytes loggedByTwo).any
      (fun s => s.rotations.any fun r => decide (r.size + r.record.length < 10)) = true := by decide +kernel
  obtain ⟨s, hreach, hearly⟩ := System.exists_reachable_of_exec nineBytes_init hrun
  obtain ⟨r, hr, hlt⟩ := List.any_eq_true.mp hearly
  exact absurd ((hrightly s hreach).full r hr) (Nat.not_le.mpr (of_decide_eq_true hlt))

end Dnf.Logging
