import Dnf.Foundation.Effect
import Dnf.Listing.Dicts

/-!
# One stream of each module

`ModuleBase._create_module_dict_and_enable` sorts the modules that a spec matches by their names and streams. Where several streams of a name match it keeps the one that is enabled, or the default one, and if asked to it enables the stream of each name. The container of the modules is a library's; it is given by what it answers about a module and by what enabling does to it.
-/

namespace Dnf.Modules

open Foundation Effect Listing

structure Profile where
  name : String
  content : List String

/-- A module package of the container. -/
structure Module where
  name : String
  stream : String
  versionNum : Nat := 0
  getProfiles : String → List Profile := fun _ => []

inductive ModuleState
  | unknown
  | enabled
  | disabled
  | default
  deriving DecidableEq

/-- `ModulePackageContainer`, of states `σ`. Where `enable` raises, with a text, it has changed nothing. -/
structure Container (σ : Type) where
  getModuleState : σ → String → ModuleState
  getEnabledStream : σ → String → String
  getDefaultStream : σ → String → String
  enable : String → String → σ → Except String σ

inductive Exc
  | enableMultipleStreams (text : String)
  | runtime (text : String)
  | assertion
  deriving DecidableEq

/-- The modules of one name by their streams. -/
abbrev StreamDict := List (String × List Module)

def addStream (streams : StreamDict) (m : Module) : StreamDict := assign streams m.stream ((streams.lookup m.stream).getD [] ++ [m])

/-- The modules by their names and streams. -/
def moduleDict (moduleList : List Module) : List (String × StreamDict) :=
  moduleList.foldl (fun d m => assign d m.name (addStream ((d.lookup m.name).getD []) m)) []

section Create

variable {σ : Type} (c : Container σ) (sortStreams : List String → List String)

def cannotEnableMore (moduleName : String) : Exc :=
  .enableMultipleStreams ("Cannot enable more streams from module '" ++ moduleName ++ "' at the same time")

def noneEnabledOrDefault (moduleName spec : String) (streams : List String) : Exc :=
  .enableMultipleStreams ("Argument '" ++ spec ++ "' matches " ++ toString streams.length ++ " streams ('" ++ "', '".intercalate (sortStreams streams) ++
    "') of module '" ++ moduleName ++ "', but none of the streams are enabled or default")

/-- The stream that is kept where several match. -/
def chooseStream (spec moduleName : String) (streams : List String) (s : σ) : Except Exc String :=
  if c.getModuleState s moduleName ≠ .default ∧ c.getModuleState s moduleName ≠ .enabled ∧ c.getModuleState s moduleName ≠ .disabled then
    .error (noneEnabledOrDefault sortStreams moduleName spec streams)
  else
    let stream := if c.getModuleState s moduleName = .enabled then c.getEnabledStream s moduleName else c.getDefaultStream s moduleName
    if stream = "" ∨ stream ∉ streams then .error (cannotEnableMore moduleName) else .ok stream

def enableStream (moduleName stream : String) : EStateM Exc σ Unit := fun s =>
  match c.enable moduleName stream s with
  | .ok t => .ok () t
  | .error text => .error (.runtime text) s

def enableIf (enable : Bool) (moduleName stream : String) : EStateM Exc σ Unit := if enable then enableStream c moduleName stream else pure ()

/-- Several streams match. Only one key of the dict is the stream that is kept, so the order of the loop over them makes no difference. -/
def keepStream (spec : String) (enable : Bool) (moduleName : String) (streamDict : StreamDict) : EStateM Exc σ StreamDict := do
  let s ← get
  let stream ← lift (chooseStream c sortStreams spec moduleName (streamDict.map Prod.fst) s)
  enableIf c enable moduleName stream
  pure (streamDict.filter fun entry => entry.1 = stream)

def enableKeys (enable : Bool) (moduleName : String) : StreamDict → EStateM Exc σ Unit
  | [] => pure ()
  | entry :: rest => do
      enableIf c enable moduleName entry.1
      enableKeys enable moduleName rest

def asserted (kept : StreamDict) : EStateM Exc σ StreamDict := if kept.length = 1 then pure kept else throw .assertion

/-- One round of the loop. -/
def resolveModule (spec : String) (enable : Bool) (moduleName : String) (streamDict : StreamDict) : EStateM Exc σ StreamDict :=
  if streamDict.length > 1 then do
    let kept ← keepStream c sortStreams spec enable moduleName streamDict
    asserted kept
  else do
    enableKeys c enable moduleName streamDict
    asserted streamDict

def resolveModules (spec : String) (enable : Bool) : List (String × StreamDict) → EStateM Exc σ (List (String × StreamDict))
  | [] => pure []
  | (moduleName, streamDict) :: rest => do
      let kept ← resolveModule c sortStreams spec enable moduleName streamDict
      let moduleDict ← resolveModules spec enable rest
      pure ((moduleName, kept) :: moduleDict)

/-- `ModuleBase._create_module_dict_and_enable` -/
def createModuleDictAndEnable (moduleList : List Module) (spec : String) (enable : Bool) : EStateM Exc σ (List (String × StreamDict)) :=
  resolveModules c sortStreams spec enable (moduleDict moduleList)

end Create

/-! ### The dicts -/

section Dicts

/-- The streams of the modules. -/
def streamDict (modules : List Module) : StreamDict := modules.foldl addStream []

def ofName (moduleName : String) (moduleList : List Module) : List Module := moduleList.filter fun m => m.name = moduleName

theorem nodup_streamDict (modules : List Module) : ((streamDict modules).map Prod.fst).Nodup :=
  nodup_keys_foldl_record Module.stream (fun held m => some (held.getD [] ++ [m])) modules List.nodup_nil

theorem mem_streamDict (modules : List Module) (stream : String) (entry : List Module) :
    (stream, entry) ∈ streamDict modules ↔ entry = modules.filter (fun m => m.stream = stream) ∧ entry ≠ [] := by
  refine (mem_foldl_record Module.stream (fun held m => some (held.getD [] ++ [m])) modules stream entry).trans ?_
  rw [foldl_keep_all]
  split
  · next hnil => rw [hnil]; simp
  · next hne =>
      constructor
      · intro h
        obtain rfl := Option.some.inj h
        exact ⟨rfl, hne⟩
      · exact fun h => congrArg some h.1.symm

theorem nodup_moduleDict (moduleList : List Module) : ((moduleDict moduleList).map Prod.fst).Nodup :=
  nodup_keys_foldl_record Module.name (fun held m => some (addStream (held.getD []) m)) moduleList List.nodup_nil

theorem mem_moduleDict (moduleList : List Module) (moduleName : String) (streams : StreamDict) :
    (moduleName, streams) ∈ moduleDict moduleList ↔ streams = streamDict (ofName moduleName moduleList) ∧ ofName moduleName moduleList ≠ [] := by
  refine (mem_foldl_record Module.name (fun held m => some (addStream (held.getD []) m)) moduleList moduleName streams).trans ?_
  rw [foldl_keep_getD addStream]
  split
  · next hnil => simp [ofName, hnil]
  · next hne =>
      constructor
      · intro h
        obtain rfl := Option.some.inj h
        exact ⟨rfl, hne⟩
      · exact fun h => congrArg some h.1.symm

end Dicts

end Dnf.Modules
