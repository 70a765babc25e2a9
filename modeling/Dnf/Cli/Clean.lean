import Dnf.Foundation.Effect
import Dnf.Foundation.Pattern
import Dnf.Foundation.PosixPath
import Dnf.Persist.ExpiredRepos

/-!
# `clean`

Which files of the cache a type stands for is said by regular expressions on the path below the cache directory. The command walks that directory once, notes the repositories whose metadata is to expire, and removes the files one by one.

The locks around all this are left out.
-/

namespace Dnf.Cli.Clean

open Foundation Foundation.Effect Foundation.PosixPath
open Pattern (Found)

/-! ### `CACHE_FILES` -/

inductive CacheFile
  | metadata
  | packages
  | dbcache
  deriving DecidableEq

/-- `_REPOID_CHARS` -/
def repoidChar (c : Char) : Bool := c.isAlphanum || c ∈ ['-', '_', '.', ':']

/-- `string.hexdigits` -/
def hexdigit (c : Char) : Bool := c.isDigit || 'a' ≤ c && c ≤ 'f' || 'A' ≤ c && c ≤ 'F'

/-- `_CACHEDIR_RE` -/
def cachedirRe : Pattern := .seq (.group (.plus repoidChar)) (.seq (.char '-') (.times hexdigit 16))

def compressions : List (List Char) := [".gz".toList, ".xz".toList, ".bz2".toList, ".zck".toList, ".zst".toList]

/-- The ends of the names of metadata files. -/
def suffixRe : Pattern :=
  .oneOf [.seq (.oneOf [.word "xml".toList, .word "yaml".toList]) (.optional (.oneOf (compressions.map .word))),
    .word "asc".toList, .word "cachecookie".toList, .word "mirrorlist".toList]

def metadataRe : Pattern := .seq cachedirRe (.seq (.char '/') (.seq (.many Pattern.dot) (.seq suffixRe .ending)))

def packagesRe : Pattern :=
  .seq cachedirRe (.seq (.char '/') (.seq (.word "packages".toList) (.seq (.char '/') (.seq (.plus Pattern.dot) (.seq (.word "rpm".toList) .ending)))))

def dbcacheRe : Pattern :=
  .seq (.plus Pattern.dot) (.seq (.char '.') (.seq (.oneOf [.word "solv".toList, .word "solvx".toList])
    (.seq (.optional (.seq (.char '.') (.plus Char.isAlphanum))) .ending)))

def CACHE_FILES : CacheFile → Pattern
  | .metadata => metadataRe
  | .packages => packagesRe
  | .dbcache => dbcacheRe

/-! ### The command -/

inductive CacheType
  | files (kind : CacheFile)
  | expireCache
  deriving DecidableEq

inductive Arg
  | metadata
  | packages
  | dbcache
  | expireCache
  | all

def CACHE_TYPES : Arg → List CacheType
  | .metadata => [.files .metadata, .files .dbcache, .expireCache]
  | .packages => [.files .packages]
  | .dbcache => [.files .dbcache]
  | .expireCache => [.expireCache]
  | .all => [.files .metadata, .files .packages, .files .dbcache]

/-- What `os.walk` yields of a directory: the names below the top that lead to it, and its files. -/
structure Visit where
  root : List EntryName
  files : List EntryName

/-- `os.path.relpath(root, dirpath)` -/
def relpath (root : List EntryName) : List Char := if root = [] then ['.'] else relative root

/-- `_tree` -/
def tree (walk : List Visit) : List (List Char) := walk.flatMap fun visit => visit.files.map fun f => normpath (join [relpath visit.root, f.text])

def matched (p : Pattern) (f : List Char) : Bool := (p.reMatch f).isSome

/-- `_filter`: a file stands there once for each pattern. -/
def filter (files : List (List Char)) (patterns : List Pattern) : List (List Char) :=
  files.flatMap fun f => (patterns.filter fun p => matched p f).map fun _ => f

/-- `_cached_repos` -/
def cachedRepos (files : List (List Char)) : Finset String :=
  (files.filterMap fun f => ((CACHE_FILES .metadata).reMatch f).bind fun found => found.group.map String.ofList).toFinset

structure State where
  files : Finset (List Char)
  base : Persist.Base

inductive Exc
  | osError
  deriving DecidableEq

abbrev Prog := EStateM Exc State

/-- `unlinkFails` is about files that are there. -/
structure CleanCommand where
  cachedir : List Char
  walk : List Visit
  unlinkFails : List Char → Bool

namespace CleanCommand

variable (command : CleanCommand)

def unlinkF (path : List Char) : Prog Unit :=
  if command.unlinkFails path then throw .osError else modify fun s => { s with files := s.files.erase path }

def clean (files : List (List Char)) : Prog Nat :=
  files.foldlM (fun count f => do
    command.unlinkF (join [command.cachedir, f])
    pure (count + 1)) 0

def types (args : List Arg) : List CacheType := (args.flatMap CACHE_TYPES).dedup

/-- `types` without `expire-cache`. -/
def kinds (args : List Arg) : List CacheFile := (types args).filterMap fun
  | .files kind => some kind
  | .expireCache => none

def expire (args : List Arg) (files : List (List Char)) : Prog Unit :=
  if .expireCache ∈ types args then modify fun s => { s with base := { s.base with expiredToAdd := s.base.expiredToAdd ∪ cachedRepos files } }
  else pure ()

def run (args : List Arg) : Prog Nat := do
  expire args (tree command.walk)
  command.clean (filter (tree command.walk) ((kinds args).map CACHE_FILES))

end CleanCommand

end Dnf.Cli.Clean
