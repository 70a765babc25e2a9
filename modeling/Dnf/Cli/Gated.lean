import Dnf.Cli.DoTransaction
import Dnf.Foundation.Guarded
import Dnf.Gpg.FailClosed

/-!
# From a resolved transaction to rpm

`BaseCli.do_transaction` with the download, the signature check and `Base.do_transaction` as programs over one state. Everything that asks or changes the system leaves an entry in the log: the answer of the user, the checksums, the downloads, the signature check, the module states, the group records and the run of rpm.

What the program calls outside of dnf is a parameter, and so are all answers. The gates of `Conf` that are answers are not read here.
-/

namespace Dnf.Cli.Gated

open Foundation Foundation.Effect
open History (isForward)
open Transaction (Item Package TsCall)

inductive Exc
  | cli (e : TransactionTable.Exc)
  | transactionCheckError
  | outside (e : Gpg.Exc)

inductive Entry
  | agreed
  | writable
  | verified (pkg : Package)
  | downloaded (pkgs : List Package)
  | signed (pkgs : List Package)
  | saved
  | recorded
  | ran (calls : List TsCall)
  | succeeded

structure State (ω : Type) where
  gpg : Gpg.State ω
  log : List Entry := []

abbrev Prog (ω : Type) := EStateM Exc (State ω)

/-- What is called outside of dnf. An answer of rpm is whether there were problems. -/
structure Outside (ω : Type) where
  makeWritable : Gpg.Call ω Unit
  verifyLocalPkg : Package → Gpg.Call ω Bool
  download : List Package → Gpg.Call ω Unit
  rpmCheck : List TsCall → Gpg.Call ω Bool
  rpmTest : List TsCall → Gpg.Call ω Bool
  rpmRun : List TsCall → Gpg.Call ω Bool

/-- `signature` is a package as the signature check sees it. -/
structure BaseCli (ω : Type) where
  gpg : Gpg.Base ω
  conf : DoTransaction.Conf
  cacheonly : Bool
  isLocalPkg : Package → Bool
  signature : Package → Gpg.Package
  outside : Outside ω

variable {ω : Type}

/-- A program of the signature check. -/
def check {α : Type} (x : Gpg.Prog ω α) : Prog ω α := fun s =>
  match x s.gpg with
  | .ok a t => .ok a { s with gpg := t }
  | .error e t => .error (.outside e) { s with gpg := t }

def call {α : Type} (x : Gpg.Call ω α) : Prog ω α := check (Gpg.perform x)

def computed {α : Type} (x : Except TransactionTable.Exc α) : Prog ω α := lift (x.mapError Exc.cli)

def enter (entry : Entry) : Prog ω Unit := modify fun s => { s with log := s.log ++ [entry] }

def refuse (condition : Bool) (e : Exc := .cli .error) : Prog ω Unit := if condition then throw e else pure ()

namespace BaseCli

variable (cli : BaseCli ω)

/-- `_promptWanted` -/
def promptWanted : Bool := !(cli.gpg.conf.assumeyes && !cli.gpg.conf.assumeno)

/-! ### The download -/

/-- One package of `_verification_of_packages`; an exception counts as a wrong checksum. -/
def verifyPkg (allPackagesVerified : Bool) (pkg : Package) : Prog ω Bool := do
  let verified ← tryCatch (call (cli.outside.verifyLocalPkg pkg)) fun _ => pure false
  if verified then do
    enter (.verified pkg)
    pure allPackagesVerified
  else pure false

def verificationOfPackages (pkgList : List Package) : Prog ω Bool := pkgList.foldlM cli.verifyPkg true

def fromCmdline (pkg : Package) : Bool := pkg.reponame == "@commandline"

def selectRemotePkgs (installPkgs : List Package) : Prog ω (List Package) := do
  let localVerified ← cli.verificationOfPackages (installPkgs.filter fun pkg => cli.isLocalPkg pkg && !fromCmdline pkg)
  refuse !localVerified
  let remotePkgs := installPkgs.filter fun pkg => !cli.isLocalPkg pkg
  if cli.cacheonly then do
    let remoteVerified ← cli.verificationOfPackages remotePkgs
    refuse !remoteVerified
    pure []
  else pure remotePkgs

/-- `download_packages`; the copies into `destdir` are left out. -/
def downloadPackages (pkglist : List Package) : Prog ω Unit := do
  let remotePkgs ← cli.selectRemotePkgs pkglist
  if remotePkgs.isEmpty then pure ()
  else do
    call (cli.outside.download remotePkgs)
    enter (.downloaded remotePkgs)

def gpgsigcheck (pkgs : List Package) : Prog ω Unit := do
  check (cli.gpg.gpgsigcheck (pkgs.map cli.signature))
  enter (.signed pkgs)

/-! ### The transaction -/

def rpmTransaction (items : List Item) : Prog ω Unit := do
  let calls ← computed (DoTransaction.populateRpmTs cli.conf items)
  let problems ← call (cli.outside.rpmCheck calls)
  refuse problems .transactionCheckError
  let failed ← call (cli.outside.rpmTest calls)
  refuse failed
  if cli.conf.test then pure ()
  else do
    enter .saved
    enter (.ran calls)
    let failed ← call (cli.outside.rpmRun calls)
    refuse failed
    enter .succeeded

/-- `Base.do_transaction` -/
def baseDoTransaction (items : List Item) : Prog ω Unit :=
  if items.isEmpty then do
    enter .saved
    if cli.conf.output.groupsPending then enter .recorded else pure ()
  else cli.rpmTransaction items

def confirm : Prog ω Unit :=
  if cli.promptWanted then
    if cli.gpg.conf.assumeno then throw (.cli .cliError)
    else do
      let answer ← call cli.gpg.outside.userconfirm
      if answer then enter .agreed else throw (.cli .cliError)
  else pure ()

/-- A bootc system that cannot be written gets a transient overlay. -/
def unlock : Prog ω Unit :=
  if DoTransaction.isBootcTransaction cli.conf && !cli.conf.writable then do
    call cli.outside.makeWritable
    enter .writable
  else pure ()

def download (installPkgs : List Package) : Prog ω Unit := if installPkgs.isEmpty then pure () else cli.downloadPackages installPkgs

def fetch (items : List Item) (installPkgs : List Package) : Prog ω Unit :=
  if items.isEmpty then pure ()
  else do
    cli.download installPkgs
    cli.gpgsigcheck installPkgs

def perform (items : List Item) (installPkgs : List Package) : Prog ω Unit := do
  computed (DoTransaction.bootcCheck cli.conf items)
  cli.confirm
  cli.unlock
  cli.fetch items installPkgs
  if cli.conf.downloadonly then pure () else cli.baseDoTransaction items

/-- `BaseCli.do_transaction`, without what it prints. -/
def doTransaction (items : List Item) : Prog ω Unit := do
  refuse (!cli.conf.moduleStreamSwitch && cli.conf.switchedStreams)
  let sorted ← computed (DoTransaction.sortItems items)
  if DoTransaction.pending cli.conf items then cli.perform items sorted.installPkgs else pure ()

/-- The state after `do_transaction`, however it ends. -/
def outcome (items : List Item) (gpg : Gpg.State ω) : State ω := final (cli.doTransaction items { gpg := gpg.fresh })

end BaseCli

end Dnf.Cli.Gated
