import Dnf.Foundation.Json
import Dnf.Foundation.PyInt
import Dnf.History.Persistor

/-!
# What a replay calls

A replay hands texts to hawkey, which reads NEVRAs and filters queries, and to libdnf, which converts reasons and package types and builds the objects for history. These functions are one record, a parameter of everything that follows. `Lawful` states what the round trips rely on, and `plain` is a library that has it, for runs on concrete transactions.
-/

namespace Dnf.Replay

open History Foundation

/-- Name, epoch, version, release and architecture. -/
structure Nevra where
  name : String
  epoch : Nat
  version : String
  release : String
  arch : String
  deriving DecidableEq

/-- `str(pkg)` and `getNEVRA`: an epoch of 0 is left out. -/
def Nevra.text (n : Nevra) : String :=
  n.name ++ "-" ++ (if n.epoch = 0 then "" else toString n.epoch ++ ":") ++ n.version ++ "-" ++ n.release ++ "." ++ n.arch

/-- A possibility of `Subject.get_nevra_possibilities`. -/
structure ParsedNevra where
  name : String
  epoch : Option Nat
  version : String
  release : String
  arch : String

def ParsedNevra.nevra (parsed : ParsedNevra) : Nevra := ⟨parsed.name, parsed.epoch.getD 0, parsed.version, parsed.release, parsed.arch⟩

/-- `subject` gives the NEVRA possibilities of a text; `filterReponame` is what a query filtered by a repository id keeps, `none` where the id is nothing hawkey accepts; `addMember` is `addPackage` and `addGroup`; `actionName` is `getActionName`. -/
structure Library where
  str : Json → String
  int : String → Option Int
  subject : String → List ParsedNevra
  filterReponame : Json → Option (String → Bool)
  actionName : Action → String
  reasonToString : Reason → String
  stringToReason : String → Option Reason
  reasonCompare : Reason → Reason → Int
  compsPackageTypeToString : Nat → String
  stringToCompsPackageType : String → Except String Nat
  addMember : List Member → Member → List Member

/-- The names of the actions, as the stored format and `action_map` have them. -/
def actionText : Action → String
  | .install => "Install"
  | .downgrade => "Downgrade"
  | .downgraded => "Downgraded"
  | .obsolete => "Obsolete"
  | .obsoleted => "Obsoleted"
  | .upgrade => "Upgrade"
  | .upgraded => "Upgraded"
  | .remove => "Removed"
  | .reinstall => "Reinstall"
  | .reinstalled => "Reinstalled"
  | .reasonChange => "Reason Change"

namespace Library

/-- The documented behaviour the round trips rely on. -/
structure Lawful (lib : Library) : Prop where
  int_zero : lib.int "0" = some 0
  actionName_eq : ∀ action, lib.actionName action = actionText action
  stringToReason_reasonToString : ∀ reason, lib.stringToReason (lib.reasonToString reason) = some reason
  filterReponame_str : ∀ id, lib.filterReponame (.str id) = some fun reponame => reponame == id

/-- The type or the mask is read back from its text. -/
def Converts (lib : Library) (types : Nat) : Prop :=
  lib.stringToCompsPackageType (lib.compsPackageTypeToString types) = .ok types

instance (lib : Library) (types : Nat) : Decidable (lib.Converts types) := by
  unfold Converts
  infer_instance

/-- The members an object has after they were added one by one. -/
def addMembers (lib : Library) (members : List Member) : List Member := members.foldl lib.addMember []

/-! ### A concrete library -/

/-- The reasons, the stronger ones later. -/
def reasonTexts : List (Reason × String) :=
  [(.unknown, "unknown"), (.clean, "clean"), (.weakDependency, "weak-dependency"), (.dependency, "dependency"), (.group, "group"), (.user, "user")]

def typeTexts : List (Nat × String) := [(1, "conditional"), (2, "default"), (4, "mandatory"), (8, "optional")]

/-- The part of a text before the last separator and the part after it. -/
def splitLast (sep : Char) (text : List Char) : Option (List Char × List Char) :=
  match text.reverse.span (· ≠ sep) with
  | (after, _ :: before) => some (before.reverse, after.reverse)
  | (_, []) => none

/-- A text of the form `name-epoch:version-release.arch`, where the epoch may be left out. -/
def parseNevra (text : String) : Option ParsedNevra := do
  let (nevr, arch) ← splitLast '.' text.toList
  let (nev, release) ← splitLast '-' nevr
  let (name, ev) ← splitLast '-' nev
  match ev.span (· ≠ ':') with
  | (epoch, _ :: version) => do
      let epoch ← pyInt epoch
      pure ⟨.ofList name, some epoch.toNat, .ofList version, .ofList release, .ofList arch⟩
  | (version, []) => pure ⟨.ofList name, none, .ofList version, .ofList release, .ofList arch⟩

/-- A library that reads what it writes. Adding a member under a name that is there already replaces the old one. -/
def plain : Library where
  str
    | .str text => text
    | .int n => toString n
    | _ => ""
  int text := pyInt text.toList
  subject text := (parseNevra text).toList
  filterReponame
    | .str id => some fun reponame => reponame == id
    | _ => none
  actionName := actionText
  reasonToString reason := (reasonTexts.lookup reason).getD ""
  stringToReason text := (reasonTexts.find? (·.2 == text)).map (·.1)
  reasonCompare a b := reasonTexts.findIdx (·.1 == a) - (reasonTexts.findIdx (·.1 == b) : Int)
  compsPackageTypeToString types := ", ".intercalate ((typeTexts.filter fun type => types &&& type.1 ≠ 0).map (·.2))
  stringToCompsPackageType text :=
    match typeTexts.find? (·.2 == text) with
    | some type => .ok type.1
    | none => .error ("Invalid comps package type \"" ++ text ++ "\".")
  addMember members member :=
    if members.any (·.name == member.name) then members.map fun m => if m.name = member.name then member else m
    else members ++ [member]

theorem plain_lawful : plain.Lawful where
  int_zero := by decide
  actionName_eq _ := rfl
  stringToReason_reasonToString reason := by cases reason <;> decide
  filterReponame_str _ := rfl

end Library

end Dnf.Replay
