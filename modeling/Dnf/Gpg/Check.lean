import Dnf.Foundation.Effect
import Dnf.Foundation.PyInt
import Dnf.Gpg.Rpmkeys
import Dnf.Gpg.Dnssec

/-!
# `gpgsigcheck` and what it calls

The functions are those of `base.py` and `cli/cli.py`, as programs over one state: the set of repositories whose keys were tried, the flags of the rpm transaction, the DNSSEC cache and the world. Everything outside (the rpmkeys child, downloads, the rpm database, the resolver, the user) is a call that may answer anything, may raise, and moves the world on, so the answers may differ each time and depend on all that came before.

The state also records what the argument is about: each `checkSig` result, each DNSSEC result, each answer of a callback and each key handed to `pgpImportPubkey`, newest first.
-/

namespace Dnf.Gpg

open Foundation

/-- The exceptions `gpgsigcheck` tells apart: `dnf.exceptions.Error` and its subclasses, `ValueError` and its subclasses, and the rest. -/
inductive Exc
  | error (value : String)
  | invalidInstalledGPGKeyError (value : String)
  | valueError (value : String)
  | other (name : String)
  deriving DecidableEq

/-- `str(e)`. -/
def Exc.text : Exc → String
  | .error value => value
  | .invalidInstalledGPGKeyError value => value
  | .valueError value => value
  | .other name => name

/-- The clause `except (dnf.exceptions.Error, ValueError)`. -/
def Exc.isCaught : Exc → Bool
  | .other _ => false
  | _ => true

structure Conf where
  assumeyes : Bool
  assumeno : Bool
  gpgkeyDnsVerification : Bool
  localpkgGpgcheck : Bool
  installroot : String

structure Repo where
  id : String
  name : String
  gpgcheck : Bool
  gpgkey : List String

/-- A package; `text` is `str(po)` and `localPkg` the path of its file. -/
structure Package where
  text : String
  repoid : String
  localPkg : String
  deriving DecidableEq

def Package.fromCmdline (po : Package) : Bool := po.repoid == "@commandline"

structure Key where
  id_ : String
  fingerprint : String
  rawKey : List Char
  timestamp : Int
  url : String
  userid : List Char
  deriving DecidableEq

/-- `Key.short_id`: the last eight characters, padded with zeros. -/
def Key.shortId (key : Key) : List Char :=
  let digits := key.id_.toList.drop (key.id_.toList.length - 8)
  List.replicate (8 - digits.length) '0' ++ digits

def Key.rpmId (key : Key) : List Char := key.shortId.map Char.toLower

structure PubkeyHeader where
  version : List Char
  release : List Char

inductive Event
  | checked (po : Package) (sigresult : Nat)
  | verified (key : Key) (result : Validity)
  | asked (po : Package) (key : Key) (answer : Bool)
  | imported (key : Key)
  deriving DecidableEq

structure State (ω : Type) where
  world : ω
  repoSetImportedGpgKeys : List String
  tsFlags : Nat
  dnsCache : DnsCache
  trace : List Event

/-- The state at the start of a call, with nothing recorded. -/
def State.fresh {ω : Type} (s : State ω) : State ω := { s with trace := [] }

abbrev Prog (ω : Type) := EStateM Exc (State ω)

/-- A call that leaves the program. -/
abbrev Call (ω α : Type) := ω → Except Exc α × ω

/-- A callback that asks whether a key should be imported. -/
abbrev Askcb (ω : Type) := Package → Key → Call ω Bool

/-- What the code calls and does not contain. `rpmkeys` runs the child on an open package, `download` fetches a url and parses the keys in it, `resolve` is the query for an e-mail address. -/
structure Outside (ω : Type) where
  openPackage : String → Call ω Unit
  hasRpmkeys : Call ω Bool
  rpmkeys : String → String → Call ω (Int × List Char)
  download : String → Repo → Call ω (List Key)
  gpgPubkeys : Call ω (List PubkeyHeader)
  int16 : List Char → Option Int
  resolve : List Char → Call ω DnsAnswer
  b64decode : List Char → Option (List Char)
  pgpImportPubkey : List Char → Call ω Int
  userconfirm : Call ω Bool

structure Base (ω : Type) where
  conf : Conf
  repos : List Repo
  /-- `sys.stdin and sys.stdin.isatty()`. -/
  isatty : Bool
  outside : Outside ω

variable {ω : Type}

def perform {α : Type} (call : Call ω α) : Prog ω α := fun s =>
  match call s.world with
  | (.ok a, world) => .ok a { s with world := world }
  | (.error e, world) => .error e { s with world := world }

def emit (event : Event) : Prog ω Unit := modify fun s => { s with trace := event :: s.trace }

def rpmtransFlagTest : Nat := 1

/-- `isTsFlagSet(rpm.RPMTRANS_FLAG_TEST)`. -/
def State.testFlag (s : State ω) : Bool := s.tsFlags &&& rpmtransFlagTest ≠ 0

def setFlags (flags : Nat) : Prog ω Unit := modify fun s => { s with tsFlags := flags }

def basename (path : String) : String := String.ofList (path.toList.reverse.takeWhile (· ≠ '/')).reverse

/-! ### `misc.py` and `crypto.py` -/

/-- `re.sub(b'\r\n?', b'\n', rawkey)`. -/
def normaliseNewlines : List Char → List Char
  | '\r' :: '\n' :: cs => '\n' :: normaliseNewlines cs
  | '\r' :: cs => '\n' :: normaliseNewlines cs
  | c :: cs => c :: normaliseNewlines cs
  | [] => []

/-- The loop of `procgpgkey` over the lines of the armored key. -/
def keyBlock (inblock pastheaders : Bool) : List (List Char) → List Char
  | [] => []
  | line :: lines =>
      if "-----BEGIN PGP PUBLIC KEY BLOCK-----".toList <+: line then keyBlock true pastheaders lines
      else if inblock ∧ strip line = [] then keyBlock inblock true lines
      else if inblock ∧ "-----END PGP PUBLIC KEY BLOCK-----".toList <+: line then []
      else if pastheaders ∧ "=".toList <+: line then []
      else if pastheaders then line ++ '\n' :: keyBlock inblock pastheaders lines
      else keyBlock inblock pastheaders lines

structure KeyLoop where
  keyInstalled : Bool
  userCbFail : Bool

namespace Base

variable (base : Base ω)

def procgpgkey (rawkey : List Char) : Prog ω (List Char) :=
  match base.outside.b64decode (keyBlock false false ((normaliseNewlines rawkey).splitOn '\n')) with
  | some binary => pure binary
  | none => throw (.valueError "Invalid base64-encoded string")

def keyInstalled (keyid : List Char) (timestamp : Int) : Prog ω Int := do
  let headers ← perform base.outside.gpgPubkeys
  match headers.find? (·.version = keyid) with
  | none => pure (-1)
  | some hdr =>
      match base.outside.int16 hdr.release with
      | none => throw (.valueError "invalid literal for int() with base 16")
      | some installedts => pure (if installedts = timestamp then 0 else if installedts < timestamp then 1 else 2)

def retrieve (keyurl : String) (repo : Repo) : Prog ω (List Key) := do
  let keyinfos ← perform (base.outside.download keyurl repo)
  pure (keyinfos.map fun keyinfo => { keyinfo with url := keyurl })

/-! ### Checking a signature -/

/-- `checkSig`, with `_verifyPackageUsingRpmkeys`. -/
def checkSig (package : String) : Prog ω Nat := do
  perform (base.outside.openPackage package)
  let found ← perform base.outside.hasRpmkeys
  if found then
    let child ← perform (base.outside.rpmkeys package base.conf.installroot)
    pure (rpmkeysResult child.1 child.2)
  else pure 2

/-- `self.repos[repoid]`. -/
def findRepo (repoid : String) : Option Repo := base.repos.find? (·.id = repoid)

/-- `check` and `hasgpgkey` of `_sig_check_pkg`. -/
def checkSettings (po : Package) : Prog ω (Bool × Bool) :=
  if po.fromCmdline then pure (base.conf.localpkgGpgcheck, false)
  else match base.findRepo po.repoid with
    | some repo => pure (repo.gpgcheck, !repo.gpgkey.isEmpty)
    | none => throw (.other "KeyError")

/-- The table of `_sig_check_pkg`: its result and its message for a result of `checkSig`. -/
def sigMessage (localfn : String) (hasgpgkey : Bool) : Nat → Option (Nat × String)
  | 0 => some (0, "")
  | 1 => some (if hasgpgkey then 1 else 2, "Public key for " ++ localfn ++ " is not installed")
  | 2 => some (2, "Problem opening package " ++ localfn)
  | 3 => some (if hasgpgkey then 1 else 2, "Public key for " ++ localfn ++ " is not trusted")
  | 4 => some (2, "Package " ++ localfn ++ " is not signed")
  | _ => none

def sigCheckPkg (po : Package) : Prog ω (Nat × String) := do
  let settings ← base.checkSettings po
  if settings.1 then
    let sigresult ← base.checkSig po.localPkg
    emit (.checked po sigresult)
    match sigMessage (basename po.localPkg) settings.2 sigresult with
    | some result => pure result
    | none => throw (.other "UnboundLocalError")
  else pure (0, "")

/-! ### Importing keys -/

/-- `DNSSECKeyVerification.verify`, from the key's user id on; `none` when the verification is off. -/
def dnsVerification (info : Key) : Prog ω (Option Validity) := do
  if base.conf.gpgkeyDnsVerification then
    match KeyInfo.fromRpmKeyObject info.userid info.rawKey with
    | .error .dnssecError => throw (.error "None")
    | .error .unicodeDecodeError => throw (.valueError "ordinal not in range(128)")
    | .ok inputKey =>
        let s ← get
        match s.dnsCache.lookup inputKey.email with
        | some keyUnion =>
            let dnsResult := cacheHit keyUnion inputKey
            emit (.verified info dnsResult)
            pure (some dnsResult)
        | none =>
            let answer ← perform (base.outside.resolve inputKey.email)
            let dnsResult := answer.validity inputKey
            modify fun s => { s with dnsCache := s.dnsCache.store inputKey dnsResult }
            emit (.verified info dnsResult)
            pure (some dnsResult)
  else pure none

def consult (ask : Askcb ω) (po : Package) (info : Key) : Prog ω Bool := do
  let answer ← perform (ask po info)
  emit (.asked po info answer)
  pure answer

/-- `rc` of `_get_key_for_package`. -/
def approval (po : Package) (askcb fullaskcb : Option (Askcb ω)) (info : Key) (dnsResult : Option Validity) : Prog ω Bool :=
  if base.conf.assumeno then pure false
  else if base.conf.assumeyes then
    if base.conf.gpgkeyDnsVerification then
      pure (dnsResult == some .valid || dnsResult == some .provenNonexistence)
    else pure true
  else match fullaskcb, askcb with
    | some ask, _ => consult ask po info
    | none, some ask => consult ask po info
    | none, none => pure false

def provKeyData (po : Package) (repo : Repo) (msg : String) : String :=
  msg ++ ". Failing package is: " ++ po.text ++ "\n " ++ "GPG Keys are configured as: " ++ ", ".intercalate repo.gpgkey

/-- The import of a key, with the test flag of the transaction removed around it. -/
def importKey (po : Package) (repo : Repo) (info : Key) : Prog ω Unit := do
  let orig ← get
  setFlags (if orig.testFlag then orig.tsFlags - rpmtransFlagTest else orig.tsFlags)
  let pubkey ← base.procgpgkey info.rawKey
  emit (.imported info)
  let result ← perform (base.outside.pgpImportPubkey pubkey)
  setFlags orig.tsFlags
  if result ≠ 0 then
    throw (.error (provKeyData po repo ("Key import failed (code " ++ toString result ++ ")")))

/-- One key of one url. -/
def offerKey (po : Package) (askcb fullaskcb : Option (Askcb ω)) (repo : Repo) (loop : KeyLoop) (info : Key) : Prog ω KeyLoop := do
  let installed ← base.keyInstalled info.rpmId info.timestamp
  if installed ≥ 0 then pure loop
  else
    let dnsResult ← base.dnsVerification info
    let rc ← base.approval po askcb fullaskcb info dnsResult
    if rc then
      base.importKey po repo info
      pure { loop with keyInstalled := true }
    else pure { loop with userCbFail := true }

/-- One url of the repository. -/
def offerKeys (po : Package) (askcb fullaskcb : Option (Askcb ω)) (repo : Repo) (loop : KeyLoop) (keyurl : String) : Prog ω KeyLoop := do
  let keys ← base.retrieve keyurl repo
  keys.foldlM (base.offerKey po askcb fullaskcb repo) loop

def getKeyForPackage (po : Package) (askcb fullaskcb : Option (Askcb ω)) : Prog ω Unit :=
  if po.fromCmdline then throw (.valueError ("Unable to retrieve a key for a commandline package: " ++ po.text))
  else match base.findRepo po.repoid with
    | none => throw (.other "KeyError")
    | some repo => do
        let s ← get
        let keyInstalled := s.repoSetImportedGpgKeys.contains repo.id
        let keyurls := if keyInstalled then [] else repo.gpgkey
        modify fun s => { s with repoSetImportedGpgKeys := s.repoSetImportedGpgKeys.insert repo.id }
        let loop ← keyurls.foldlM (base.offerKeys po askcb fullaskcb repo) ⟨keyInstalled, false⟩
        if loop.keyInstalled then
          let result ← base.sigCheckPkg po
          if result.1 ≠ 0 then throw (.error (provKeyData po repo result.2))
        else if loop.userCbFail then throw (.error "Didn't install any keys")
        else
          throw (.invalidInstalledGPGKeyError (provKeyData po repo
            ("The GPG keys listed for the \"" ++ repo.name ++ "\" repository are already installed but they are not correct for this package.\nCheck that the correct key URLs are configured for this repository.")))

/-! ### The gate -/

/-- One package of `gpgsigcheck`; the value is `error_messages`. -/
def checkPackage (errorMessages : List String) (po : Package) : Prog ω (List String) := do
  let result ← base.sigCheckPkg po
  if result.1 = 0 then pure errorMessages
  else if result.1 = 1 then
    let ay := base.conf.assumeyes && !base.conf.assumeno
    if !base.isatty && !ay then
      throw (.error "Refusing to automatically import keys when running unattended.\nUse \"-y\" to override.")
    else
      tryCatch
        (do
          base.getKeyForPackage po (some fun _ _ => base.outside.userconfirm) none
          pure errorMessages)
        fun e => if e.isCaught then pure (errorMessages ++ [e.text]) else throw e
  else pure (errorMessages ++ [result.2])

def gpgsigcheck (pkgs : List Package) : Prog ω Unit := do
  let errorMessages ← pkgs.foldlM base.checkPackage []
  if errorMessages ≠ [] then throw (.error "GPG check FAILED")

end Base

end Dnf.Gpg
