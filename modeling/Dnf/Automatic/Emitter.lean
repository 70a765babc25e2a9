import Dnf.Gpg.Check

/-!
# The emitters of dnf-automatic

An emitter remembers what it was told and turns the furthest of it into a message. All emitters of a run are told the same.
-/

namespace Dnf.Automatic

open Gpg (Exc)

inductive Kind
  | email
  | stdio
  | motd
  | command
  | commandEmail
  deriving DecidableEq

/-- The option of the configuration that asks for an emitter. -/
def Kind.option : Kind → String
  | .email => "email"
  | .stdio => "stdio"
  | .motd => "motd"
  | .command => "command"
  | .commandEmail => "command_email"

structure Emitter where
  kind : Kind
  systemName : String
  applied : Bool := false
  availableMsg : Option String := none
  downloaded : Bool := false
  error : Bool := false
  errorMsg : Option String := none
  deriving DecidableEq

structure Message where
  subject : Option String
  body : Option String

/-- `'\n'.join(msg)`, which wants strings. -/
def joined (msg : List (Option String)) : Except Exc String :=
  match msg.mapM id with
  | some lines => .ok ("\n".intercalate lines)
  | none => .error (.other "TypeError")

namespace Emitter

variable (self : Emitter)

/-- `self._available_msg` as a condition. -/
def available : Bool := self.availableMsg.any (· ≠ "")

def prepareMsg (now : String) : Except Exc (Option String) :=
  if self.error then (joined [some ("An error has occured on: '" ++ self.systemName ++ "'"), self.errorMsg]).map some
  else if self.applied then
    (joined [some ("The following updates have been applied on '" ++ self.systemName ++ "':"), self.availableMsg,
      some ("Updates completed at " ++ now)]).map some
  else if self.downloaded then
    (joined [some ("The following updates were downloaded on '" ++ self.systemName ++ "':"), self.availableMsg]).map some
  else if self.available then
    (joined [some ("The following updates are available on '" ++ self.systemName ++ "':"), self.availableMsg]).map some
  else .ok none

/-- The subject of an `EmailEmitter`. -/
def subject : Option String :=
  if self.error then some ("An error has occured on '" ++ self.systemName ++ "'.")
  else if self.applied then some ("Updates applied on '" ++ self.systemName ++ "'.")
  else if self.downloaded then some ("Updates downloaded on '" ++ self.systemName ++ "'.")
  else if self.available then some ("Updates available on '" ++ self.systemName ++ "'.")
  else none

/-- `_prepare_msg` of the emitter's class. -/
def message (now : String) : Except Exc Message :=
  match self.kind with
  | .email | .commandEmail => (self.prepareMsg now).map (Message.mk self.subject)
  | .stdio | .motd | .command => (self.prepareMsg now).map (Message.mk none)

def notifyAvailable (msg : String) : Except Exc Emitter := .ok { self with availableMsg := some msg }

def notifyDownloaded : Except Exc Emitter := if self.available then .ok { self with downloaded := true } else .error (.other "AssertionError")

def notifyApplied : Except Exc Emitter := if self.available then .ok { self with applied := true } else .error (.other "AssertionError")

def notifyError (msg : String) : Emitter := { self with error := true, errorMsg := some msg }

end Emitter

/-- One turn of the loop of `build_emitters`. -/
def buildEmitter (systemName name : String) : Except Exc Emitter :=
  if name = "email" then .ok { kind := .email, systemName := systemName }
  else if name = "stdio" then .ok { kind := .stdio, systemName := systemName }
  else if name = "motd" then .ok { kind := .motd, systemName := systemName }
  else if name = "command" then .ok { kind := .command, systemName := systemName }
  else if name = "command_email" then .ok { kind := .commandEmail, systemName := systemName }
  else .error (.error ("Unknown emitter option: " ++ name))

def buildEmitters (systemName : String) (emitVia : List String) : Except Exc (List Emitter) := emitVia.mapM (buildEmitter systemName)

theorem option_of_buildEmitter {systemName name : String} {emitter : Emitter} (h : buildEmitter systemName name = .ok emitter) :
    emitter.kind.option = name := by
  rw [buildEmitter] at h
  split_ifs at h with hemail hstdio hmotd hcommand hcommandEmail
  all_goals
    obtain rfl := Except.ok.inj h
    exact Eq.symm ‹_›

end Dnf.Automatic
