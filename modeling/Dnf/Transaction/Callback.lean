import Dnf.Foundation.Effect
import Dnf.Transaction.Sync

/-!
# The callback of the rpm transaction

rpm calls back for every element it starts, for the progress of the element, for its files and for its scriptlets. A callback finds the items of the element by the text of its NEVRA and keeps what it has found for the next one. An exception is logged and never reaches rpm.

The scriptlets write to a pipe, from which the callbacks read. Every display is told the same, so there is one list of what is shown.
-/

namespace Dnf.Transaction.Callback

open Foundation Foundation.Effect
open History (Action)

/-- An element of the rpm transaction, with the parts of its NEVRA. -/
structure Te where
  n : String
  e : Option String
  v : String
  r : String
  a : String

def Te.nevra (te : Te) : String := teNevra te.n te.e te.v te.r te.a

/-- The key of a callback: the item of a new package, the name of a package that goes, or none. -/
inductive Key
  | tsi (tsi : Item)
  | name (name : String)
  | none
  deriving DecidableEq

/-- `RPM_ACTIONS_SET` -/
def rpmActionsSet : Action → Bool
  | .reinstall => false
  | .reasonChange => false
  | _ => true

inductive Exc
  | indexError
  | keyError
  | attributeError
  | runtimeError (cbkey : Key)
  deriving DecidableEq

/-- What an operation is about: nothing, a text, or a package. -/
inductive About
  | none
  | text (text : String)
  | package (pkg : Package)
  deriving DecidableEq

inductive Doing
  | item (action : Action)
  | scriptlet
  | preparation
  | post
  deriving DecidableEq

/-- The calls on a display. -/
inductive Shown
  | progress (about : About) (action : Doing) (tiDone tiTotal tsDone tsTotal : Option Nat)
  | filelog (pkg : Package) (action : Action)
  | scriptout (msgs : String)
  | error (message : String)
  deriving DecidableEq

/-- What the callback can see: `transaction` is that of the base, `ts` are the elements of `base._ts`. -/
structure Rpm where
  test : Bool
  transaction : List Item
  ts : List Te
  localPkg : Package → String
  tagnames : Nat → Option String

/-- `logged` is what went to the history, `faults` are the exceptions that were logged, and `opened` and `closed` the file descriptors. -/
structure State where
  transRunning : Bool := false
  fd : Option Nat := none
  totalActions : Nat := 0
  totalInstalled : Nat := 0
  completeActions : Nat := 0
  installedPkgNames : Finset String := ∅
  totalRemoved : Nat := 0
  teList : List Te := []
  teIndex : Nat := 0
  tsiCache : Option (List Item) := none
  pipe : String := ""
  shown : List Shown := []
  logged : List String := []
  opened : List Nat := []
  closed : List Nat := []
  faults : List Exc := []

/-- A scriptlet writes, or rpm calls back. An attempt to open a file ends with a file descriptor or with the text of an `IOError`. -/
inductive Event
  | write (text : String)
  | transStart (total : Nat)
  | transProgress (amount total : Nat)
  | elemProgress (key : Key) (index : Nat)
  | instOpenFile (key : Key) (file : Except String Nat)
  | instCloseFile
  | instStop
  | instProgress (amount total : Nat) (key : Key)
  | uninstStart
  | uninstStop
  | uninstProgress (amount total : Nat) (key : Key)
  | cpioError (key : Key)
  | unpackError (key : Key)
  | scriptError (amount : Nat) (key : Key)
  | scriptStart (key : Key)
  | scriptStop
  | other
  deriving DecidableEq

abbrev Prog := EStateM Exc State

variable (rpm : Rpm)

/-- `tsi.pkg` -/
def pkgOf (tsi : Item) : Except Exc Package :=
  match tsi.pkg with
  | some pkg => .ok pkg
  | none => .error .keyError

/-- The search of `_extract_cbkey`, which passes over `REINSTALL` so that it finds `REINSTALLED`. -/
def Rpm.itemsOf (te : Te) : List Item := rpm.transaction.filter fun tsi => rpmActionsSet tsi.action && tsi.nevra.text == te.nevra

def cached (cache : Option (List Item)) (te : Te) : Option (List Item) :=
  match cache with
  | some (tsi :: items) => if tsi.nevra.text = te.nevra then some (tsi :: items) else none
  | _ => none

/-- `_extract_cbkey` for the element that is being processed. -/
def searchCbkey (cbkey : Key) : Prog (List Item) := do
  let s ← get
  match s.teList[s.teIndex]? with
  | none => throw .indexError
  | some te =>
      match cached s.tsiCache te with
      | some items => pure items
      | none =>
          if (rpm.itemsOf te).isEmpty then throw (.runtimeError cbkey)
          else do
            set { s with tsiCache := some (rpm.itemsOf te) }
            pure (rpm.itemsOf te)

def extractCbkey (cbkey : Key) : Prog (List Item) :=
  match cbkey with
  | .tsi tsi => do
      let _ ← lift (pkgOf tsi)
      pure [tsi]
  | cbkey => searchCbkey rpm cbkey

/-- The package and the action of `transaction_list[0]`. -/
def firstOf : List Item → Except Exc (Package × Action)
  | [] => .error .indexError
  | tsi :: _ => (pkgOf tsi).map fun pkg => (pkg, tsi.action)

def firstItem (cbkey : Key) : Prog (Package × Action) := do
  let transactionList ← extractCbkey rpm cbkey
  lift (firstOf transactionList)

def display (shown : Shown) : Prog Unit := modify fun s => { s with shown := s.shown ++ [shown] }

/-- What has been written since the last time goes to the displays and to the history, if it is anything. -/
def scriptout : Prog Unit := modify fun s =>
  if s.pipe = "" then s else { s with pipe := "", shown := s.shown ++ [.scriptout s.pipe], logged := s.logged ++ [s.pipe] }

def transStart (total : Nat) : Prog Unit := modify fun s =>
  if rpm.test then { s with totalActions := total } else { s with totalActions := total, transRunning := true, teList := rpm.ts }

def elemProgress (key : Key) (index : Nat) : Prog Unit := do
  modify fun s => { s with teIndex := index, completeActions := s.completeActions + 1 }
  if rpm.test then pure ()
  else do
    let first ← firstItem rpm key
    display (.filelog first.1 first.2)

def instOpenFile (key : Key) (file : Except String Nat) : Prog Unit := do
  let first ← firstItem rpm key
  match file with
  | .error e => display (.error ("Error: Cannot open file " ++ rpm.localPkg first.1 ++ ": " ++ e))
  | .ok fd => modify fun s =>
      let s := { s with fd := some fd, opened := s.opened ++ [fd] }
      if s.transRunning then { s with totalInstalled := s.totalInstalled + 1, installedPkgNames := insert first.1.name s.installedPkgNames } else s

def instCloseFile : Prog Unit := do
  let s ← get
  match s.fd with
  | none => throw .attributeError
  | some fd => set { s with fd := none, closed := s.closed ++ [fd] }

/-- rpm does not say when the scriptlets after the transaction start. -/
def instStop : Prog Unit := do
  let s ← get
  if rpm.test || !s.transRunning then pure ()
  else do
    scriptout
    if s.completeActions = s.totalActions then display (.progress .none .post none none none none) else pure ()

/-- `_instProgress` and `_uninst_progress`. -/
def itemProgress (amount total : Nat) (key : Key) : Prog Unit := do
  let first ← firstItem rpm key
  let s ← get
  display (.progress (.package first.1) (.item first.2) (some amount) (some total) (some s.completeActions) (some s.totalActions))

/-- `_cpioError`, `_unpackError` and `_scriptError`, which differ in their texts. -/
def elementError (message : Package → String) (key : Key) : Prog Unit := do
  let first ← firstItem rpm key
  display (.error (message first.1))

def cpioMessage (pkg : Package) : String := "Error in cpio payload of rpm package " ++ pkg.nevra.text

def unpackMessage (pkg : Package) : String := "Error unpacking rpm package " ++ pkg.nevra.text

def scriptMessage (amount : Nat) (pkg : Package) : String :=
  "Error in " ++ (rpm.tagnames amount).getD "<unknown>" ++ " scriptlet in rpm package " ++ pkg.name

/-- The numbers of `_script_start`, before the first element 1 of 1. -/
def State.scriptNumbers (s : State) : Nat × Nat :=
  if s.totalActions ≠ 0 ∧ s.completeActions ≠ 0 then (s.completeActions, s.totalActions) else (1, 1)

def scriptStart (key : Key) : Prog Unit := do
  let s ← get
  let pkg ← if key = .none ∧ s.teList.isEmpty then pure (About.text "None") else do
    let first ← firstItem rpm key
    pure (.package first.1)
  display (.progress pkg .scriptlet (some 100) (some 100) (some s.scriptNumbers.1) (some s.scriptNumbers.2))

/-- The branches of `callback`. -/
def handle : Event → Prog Unit
  | .write text => modify fun s => { s with pipe := s.pipe ++ text }
  | .transStart total => transStart rpm total
  | .transProgress amount total => display (.progress (.text "") .preparation (some (amount + 1)) (some total) (some 1) (some 1))
  | .elemProgress key index => elemProgress rpm key index
  | .instOpenFile key file => instOpenFile rpm key file
  | .instCloseFile => instCloseFile
  | .instStop => instStop rpm
  | .instProgress amount total key => itemProgress rpm amount total key
  | .uninstStart => modify fun s => { s with totalRemoved := s.totalRemoved + 1 }
  | .uninstStop => if rpm.test then pure () else scriptout
  | .uninstProgress amount total key => itemProgress rpm amount total key
  | .cpioError key => elementError rpm cpioMessage key
  | .unpackError key => do
      scriptout
      elementError rpm unpackMessage key
  | .scriptError amount key => elementError rpm (scriptMessage rpm amount) key
  | .scriptStart key => scriptStart rpm key
  | .scriptStop => scriptout
  | .other => pure ()

/-- `callback`, with `except Exception`. -/
def callback (event : Event) : Prog Unit :=
  tryCatch (handle rpm event) fun e => modify fun s => { s with faults := s.faults ++ [e] }

def step (s : State) (event : Event) : State := final (callback rpm event s)

/-- A run of rpm from a new `RPMTransaction` on. -/
def run (events : List Event) : State := events.foldl (step rpm) {}

end Dnf.Transaction.Callback
