import Dnf.Foundation.ShellWords
import Dnf.Automatic.Emitter

/-!
# The command of a command emitter

The command format of the configuration is filled with quoted texts and given to a shell. The template reading of a format is what its author means: the shell takes the literal text apart into words, and a field outside of quotes puts its text into the word where it stands, or the texts of its list into as many words. The shell finds just these words in the command, whatever the texts are.
-/

namespace Dnf.Automatic

open Foundation.ShellWords

/-- What a field may name: a text, or a list of texts. -/
inductive Value
  | text (value : List Char)
  | list (value : List (List Char))

/-- `ShellQuotedLists.__getitem__` -/
def Value.getitem : Value → List Char
  | .text value => quote value
  | .list value => [' '].intercalate (value.map quote)

/-! ### Formats -/

inductive Piece
  | literal (c : Char)
  | field (name : List Char)
  deriving DecidableEq

/-- Where in a format the reading is. -/
inductive Place
  | literal
  | closing
  | name (read : List Char)

/-- The pieces of a format. Fields are plain names: conversions, specifications and attributes are left out. -/
def pieces : Place → List Char → Option (List Piece)
  | .literal, [] => some []
  | .literal, c :: format =>
      if c = '{' then pieces (.name []) format
      else if c = '}' then pieces .closing format
      else (pieces .literal format).map (.literal c :: ·)
  | .closing, [] => none
  | .closing, c :: format => if c = '}' then (pieces .literal format).map (.literal '}' :: ·) else none
  | .name _, [] => none
  | .name read, c :: format =>
      if c = '{' then if read = [] then (pieces .literal format).map (.literal '{' :: ·) else none
      else if c = '}' then if read = [] then none else (pieces .literal format).map (.field read :: ·)
      else if c ∈ [':', '!', '[', '.'] then none
      else pieces (.name (read ++ [c])) format

def fill (msg : List Char → Option Value) : List Piece → Option (List Char)
  | [] => some []
  | .literal c :: format => (fill msg format).map (c :: ·)
  | .field name :: format => (msg name).bind fun value => (fill msg format).map (value.getitem ++ ·)

/-- `command_fmt.format_map(ShellQuotedLists(msg))` -/
def formatMap (msg : List Char → Option Value) (commandFmt : List Char) : Option (List Char) := (pieces .literal commandFmt).bind (fill msg)

/-! ### The template -/

/-- A value where a word may stand. -/
def give (s : Reading) : Value → Reading
  | .text value => s.put value
  | .list [] => s
  | .list (first :: rest) => rest.foldl (fun s value => s.cut.put value) (s.put first)

def template (msg : List Char → Option Value) : Reading → List Piece → Option Reading
  | s, [] => some s
  | s, .literal c :: format => (s.next c).bind fun t => template msg t format
  | s, .field name :: format => if s.mode = .plain then (msg name).bind fun value => template msg (give s value) format else none

def templateWords (msg : List Char → Option Value) (commandFmt : List Char) : Option (List (List Char)) :=
  (pieces .literal commandFmt).bind fun format => (template msg {} format).bind Reading.finish

theorem put_mode_plain {s : Reading} (hs : s.mode = .plain) (text : List Char) : (s.put text).mode = .plain := hs

theorem cut_mode (s : Reading) : s.cut.mode = s.mode := by
  rw [Reading.cut]
  split <;> rfl

theorem scan_rest {s : Reading} (hs : s.mode = .plain) (values : List (List Char)) :
    s.scan (values.flatMap fun value => ' ' :: quote value) = some (values.foldl (fun s value => s.cut.put value) s) := by
  induction values generalizing s with
  | nil => rfl
  | cons value values ih =>
      have hcut : s.cut.mode = .plain := (cut_mode s).trans hs
      have hblank : s.next ' ' = some s.cut := by
        rw [Reading.next, hs]
        rfl
      rw [List.flatMap_cons, List.cons_append, Reading.scan_cons, hblank, Option.bind_some, Reading.scan_append, Reading.scan_quote hcut, Option.bind_some,
        @ih (s.cut.put value) hcut, List.foldl_cons]

theorem intercalate_quote (first : List Char) (rest : List (List Char)) :
    [' '].intercalate ((first :: rest).map quote) = quote first ++ rest.flatMap fun value => ' ' :: quote value := by
  induction rest generalizing first with
  | nil => simp [List.intercalate]
  | cons value rest ih =>
      rw [List.flatMap_cons, List.cons_append, ← ih value]
      simp [List.intercalate]

/-- What is filled in gives the shell the value, and nothing else. -/
theorem scan_getitem {s : Reading} (hs : s.mode = .plain) (value : Value) : s.scan value.getitem = some (give s value) := by
  cases value with
  | text value => exact Reading.scan_quote hs value
  | list values =>
      cases values with
      | nil => rfl
      | cons first rest =>
          rw [Value.getitem, intercalate_quote, Reading.scan_append, Reading.scan_quote hs, Option.bind_some, scan_rest (put_mode_plain hs first)]
          rfl

theorem scan_fill {msg : List Char → Option Value} {format : List Piece} {s t : Reading} (h : template msg s format = some t) :
    ∃ command, fill msg format = some command ∧ s.scan command = some t := by
  induction format generalizing s with
  | nil => exact ⟨[], rfl, h⟩
  | cons piece format ih =>
      cases piece with
      | literal c =>
          rw [template, Option.bind_eq_some_iff] at h
          obtain ⟨u, hnext, hrest⟩ := h
          obtain ⟨command, hfill, hscan⟩ := ih hrest
          exact ⟨c :: command, by rw [fill, hfill, Option.map_some], by rw [Reading.scan_cons, hnext, Option.bind_some, hscan]⟩
      | field name =>
          rw [template, Option.ite_none_right_eq_some, Option.bind_eq_some_iff] at h
          obtain ⟨hplain, value, hvalue, hrest⟩ := h
          obtain ⟨command, hfill, hscan⟩ := ih hrest
          exact ⟨value.getitem ++ command, by rw [fill, hvalue, Option.bind_some, hfill, Option.map_some],
            by rw [Reading.scan_append, scan_getitem hplain, Option.bind_some, hscan]⟩

/-- Where the author of a format can read it as a template, the shell finds the words of the template in the command. -/
theorem shellWords_formatMap {msg : List Char → Option Value} {commandFmt : List Char} {words : List (List Char)}
    (h : templateWords msg commandFmt = some words) : ∃ command, formatMap msg commandFmt = some command ∧ shellWords command = some words := by
  rw [templateWords, Option.bind_eq_some_iff] at h
  obtain ⟨format, hformat, h⟩ := h
  obtain ⟨s, htemplate, hfinish⟩ := Option.bind_eq_some_iff.mp h
  obtain ⟨command, hfill, hscan⟩ := scan_fill htemplate
  refine ⟨command, by rw [formatMap, hformat, Option.bind_some, hfill], ?_⟩
  rw [shellWords, hscan, Option.bind_some, hfinish]

/-! ### What the shell sees -/

structure CommandConfig where
  commandFormat : List Char
  emailFrom : List Char
  emailTo : List (List Char)

/-- `_prepare_msg` of a `CommandEmitter` or a `CommandEmailEmitter`; a message without a body cannot be quoted. -/
def Emitter.dictionary (self : Emitter) (conf : CommandConfig) (msg : Message) (name : List Char) : Option Value :=
  if name = "body".toList then msg.body.map fun body => .text body.toList
  else if self.kind ≠ .commandEmail then none
  else if name = "subject".toList then msg.subject.map fun subject => .text subject.toList
  else if name = "email_from".toList then some (.text conf.emailFrom)
  else if name = "email_to".toList then some (.list conf.emailTo)
  else none

/-- What `commit` gives to the shell. -/
def Emitter.command (self : Emitter) (conf : CommandConfig) (now : String) : Option (List Char) :=
  match self.message now with
  | .ok msg => formatMap (self.dictionary conf msg) conf.commandFormat
  | .error _ => none

/-- Whatever the message of the emitter is, the shell sees the words of the configured template. -/
theorem shellWords_command {self : Emitter} {conf : CommandConfig} {now : String} {msg : Message} {words : List (List Char)}
    (hmsg : self.message now = .ok msg) (hwords : templateWords (self.dictionary conf msg) conf.commandFormat = some words) :
    ∃ command, self.command conf now = some command ∧ shellWords command = some words := by
  obtain ⟨command, hformat, hshell⟩ := shellWords_formatMap hwords
  refine ⟨command, ?_, hshell⟩
  rw [Emitter.command, hmsg]
  exact hformat

/-- The default format of `command_email`, for a host with an awkward name. -/
def mail : CommandConfig where
  commandFormat := "mail -Ssendwait -s {subject} -r {email_from} {email_to}".toList
  emailFrom := "root".toList
  emailTo := ["root".toList, "a b".toList]

def awkward : Emitter := { kind := .commandEmail, systemName := "it's; $(reboot)", availableMsg := some "pepper" }

theorem shellWords_mail : ∃ command, awkward.command mail "" = some command ∧ shellWords command =
    some (["mail", "-Ssendwait", "-s", "Updates available on 'it's; $(reboot)'.", "-r", "root", "root", "a b"].map String.toList) :=
  shellWords_command rfl (by decide +kernel)

end Dnf.Automatic
