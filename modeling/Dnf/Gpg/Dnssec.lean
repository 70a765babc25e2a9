import Mathlib.Data.List.Basic

/-!
# DNSSEC verification of a key

`dnssec.py` looks the e-mail address of a key up in a cache and asks the resolver on a miss. Only two answers are cached: the key the domain publishes, and that it provably publishes none. The resolver is the third-party part; what it answers is a `DnsAnswer`.
-/

namespace Dnf.Gpg

inductive Validity
  | valid
  | revoked
  | provenNonexistence
  | resultNotSecure
  | bogusResult
  | error
  deriving DecidableEq

/-- `KeyInfo`: an e-mail address and the key published for it. -/
structure KeyInfo where
  email : List Char
  key : List Char

/-- The group of `re.search('<(.*@.*)>', _)` when the match starts right before `text`: the line is read up to its last `>`. -/
def emailGroup (text : List Char) : Option (List Char) :=
  let line := text.takeWhile (· ≠ '\n')
  let group := (line.reverse.dropWhile (· ≠ '>')).tail.reverse
  if '@' ∈ group then some group else none

/-- `re.search('<(.*@.*)>', userid)`: the leftmost `<` that starts a match. -/
def searchEmail : List Char → Option (List Char)
  | [] => none
  | c :: text => if c = '<' then (emailGroup text).or (searchEmail text) else searchEmail text

/-- The index of the last line equal to `marker`, or 0. -/
def lastIndexOf (marker : List Char) (lines : List (List Char)) : Nat :=
  lines.zipIdx.foldl (fun found line => if line.1 = marker then line.2 else found) 0

/-- The slice `key[start + 2:stop - 1]`; the bound `-1` counts from the end. -/
def armorBody (key : List (List Char)) : List (List Char) :=
  let start := lastIndexOf "-----BEGIN PGP PUBLIC KEY BLOCK-----".toList key
  let stop := lastIndexOf "-----END PGP PUBLIC KEY BLOCK-----".toList key
  (key.take (if stop = 0 then key.length - 1 else stop - 1)).drop (start + 2)

/-- What `KeyInfo.from_rpm_key_object` raises. -/
inductive KeyInfoError
  | dnssecError
  | unicodeDecodeError

def KeyInfo.fromRpmKeyObject (userid rawKey : List Char) : Except KeyInfoError KeyInfo :=
  match searchEmail userid with
  | none => .error .dnssecError
  | some email =>
      if rawKey.all (·.toNat < 128) then .ok ⟨email, (armorBody (rawKey.splitOn '\n')).flatten⟩
      else .error .unicodeDecodeError

/-- The answer to an OPENPGPKEY query; `data` is the record in base64. -/
structure DnsAnswer where
  status : Int
  bogus : Bool
  secure : Bool
  nxdomain : Bool
  rcodeNoerror : Bool
  havedata : Bool
  data : List Char

/-- The decisions of `DNSSECKeyVerification._cache_miss` once the resolver has answered. -/
def DnsAnswer.validity (result : DnsAnswer) (inputKey : KeyInfo) : Validity :=
  if result.status ≠ 0 then .error
  else if result.bogus then .bogusResult
  else if !result.secure then .resultNotSecure
  else if result.nxdomain || (result.rcodeNoerror && !result.havedata) then .provenNonexistence
  else if !result.havedata then .error
  else if result.data = inputKey.key then .valid
  else .revoked

/-- `DNSSECKeyVerification._cache`; `none` is `NoKey`. -/
abbrev DnsCache := List (List Char × Option (List Char))

def cacheHit (keyUnion : Option (List Char)) (inputKey : KeyInfo) : Validity :=
  match keyUnion with
  | some key => if key = inputKey.key then .valid else .revoked
  | none => .provenNonexistence

/-- What `verify` stores after a miss. -/
def DnsCache.store (cache : DnsCache) (inputKey : KeyInfo) : Validity → DnsCache
  | .valid => (inputKey.email, some inputKey.key) :: cache
  | .provenNonexistence => (inputKey.email, none) :: cache
  | _ => cache

end Dnf.Gpg
