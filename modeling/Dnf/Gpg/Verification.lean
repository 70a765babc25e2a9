import Dnf.Foundation.Effect
import Dnf.Foundation.Memo
import Dnf.Foundation.PyStr
import Dnf.Gpg.Dnssec

/-!
# Verifying a key over DNSSEC

`DNSSECKeyVerification` with all a `KeyInfo` may hold: no address, no key, an address without `@` or one that has no UTF-8 encoding. The resolver answers as it likes and moves the world on; the hash in the name it is asked for is a parameter.

Only two results are cached, and each of them settles every later key of the same address. Where the resolver is a fixed function this makes the cache invisible.
-/

namespace Dnf.Gpg.Dnssec

open Foundation Foundation.Effect

inductive Exc
  | dnssecError (value : String)
  | error (value : String)
  | attributeError
  | unicodeEncodeError
  deriving DecidableEq

/-- `KeyInfo`, with the defaults of its constructor. -/
structure KeyInfo where
  email : Option PyStr := none
  key : Option (List Char) := none
  deriving DecidableEq

/-- What `_cache` holds; `noKey` is an instance of `NoKey`. -/
inductive KeyUnion
  | key (key : List Char)
  | noKey
  deriving DecidableEq

/-- The cache and the world outside. -/
structure State (ω : Type) where
  world : ω
  cache : List (Option PyStr × KeyUnion) := []

/-- The DNS library: whether `import unbound` works, the hash of the local part and the query for a name. -/
structure Dns (ω : Type) where
  available : Bool
  digest : PyStr → PyStr
  resolve : PyStr → ω → DnsAnswer × ω

abbrev Prog (ω : Type) := EStateM Exc (State ω)

/-- `email_address.rsplit("@", 1)[0]`. -/
def localPart (emailAddress : PyStr) : PyStr := (emailAddress.reverse.dropWhile (· ≠ '@'.toNat)).tail.reverse

/-- `email_address.rsplit("@", 1)[1]`. -/
def domain (emailAddress : PyStr) : PyStr := (emailAddress.reverse.takeWhile (· ≠ '@'.toNat)).reverse

def email2location (digest : PyStr → PyStr) (emailAddress : PyStr) : Except Exc PyStr :=
  if '@'.toNat ∉ emailAddress then .error (.dnssecError "Email address must contain exactly one '@' sign.")
  else if (localPart emailAddress).encodesUtf8 then
    .ok (digest (localPart emailAddress) ++ PyStr.ofChars "._openpgpkey.".toList ++ domain emailAddress)
  else .error .unicodeEncodeError

/-- The decisions of `_cache_miss` once the resolver has answered. -/
def validity (result : DnsAnswer) (key : Option (List Char)) : Validity :=
  if result.status ≠ 0 then .error
  else if result.bogus then .bogusResult
  else if !result.secure then .resultNotSecure
  else if result.nxdomain || (result.rcodeNoerror && !result.havedata) then .provenNonexistence
  else if !result.havedata then .error
  else if some result.data = key then .valid
  else .revoked

/-- For a key that is there these are the decisions of `DnsAnswer.validity`. -/
theorem validity_some (result : DnsAnswer) (inputKey : Gpg.KeyInfo) :
    validity result (some inputKey.key) = result.validity inputKey := by
  simp only [validity, DnsAnswer.validity, Option.some.injEq]

/-- `_cache_hit`. -/
def cacheHit (keyUnion : KeyUnion) (inputKeyString : Option (List Char)) : Validity :=
  match keyUnion with
  | .key key => if some key = inputKeyString then .valid else .revoked
  | .noKey => .provenNonexistence

variable {ω : Type} (dns : Dns ω)

def resolve (location : PyStr) : Prog ω DnsAnswer := fun s =>
  let answer := dns.resolve location s.world
  .ok answer.1 { s with world := answer.2 }

/-- `_cache_miss`. -/
def cacheMiss (inputKey : KeyInfo) : Prog ω Validity :=
  if !dns.available then
    throw (.error "Configuration option 'gpgkey_dns_verification' requires python3-unbound (No module named 'unbound')")
  else match inputKey.email with
    | none => pure .error
    | some email => do
        let location ← lift (email2location dns.digest email)
        let result ← resolve dns location
        pure (validity result inputKey.key)

/-- What `verify` puts into the cache after a miss. A `None` put there as a key would be read as no entry. -/
def kept (inputKey : KeyInfo) : Validity → Option KeyUnion
  | .valid => inputKey.key.map .key
  | .provenNonexistence => some .noKey
  | _ => none

/-- The assignment to `_cache[email]`, where there is one. -/
def State.store (s : State ω) (email : Option PyStr) : Option KeyUnion → State ω
  | some keyUnion => { s with cache := (email, keyUnion) :: s.cache }
  | none => s

def verify (inputKey : KeyInfo) : Prog ω Validity := do
  let s ← get
  match s.cache.lookup inputKey.email with
  | some keyUnion => pure (cacheHit keyUnion inputKey.key)
  | none =>
      let result ← cacheMiss dns inputKey
      modify fun s => s.store inputKey.email (kept inputKey result)
      pure result

/-- A verification of one key after the other, each in a `try` of its own. -/
def verifyAll (verifier : KeyInfo → Prog ω Validity) (s : State ω) : List KeyInfo → List (Except Exc Validity)
  | [] => []
  | inputKey :: keys =>
      match verifier inputKey s with
      | .ok result t => .ok result :: verifyAll verifier t keys
      | .error e t => .error e :: verifyAll verifier t keys

/-! ### A fixed resolver -/

section Oracle

variable (available : Bool) (digest : PyStr → PyStr) (answer : PyStr → DnsAnswer)

/-- A resolver whose answer depends on the name alone. -/
def oracle : Dns ω := ⟨available, digest, fun location world => (answer location, world)⟩

/-- The result of `_cache_miss`, as a function of the key. -/
def missResult (inputKey : KeyInfo) : Except Exc Validity :=
  if !available then
    .error (.error "Configuration option 'gpgkey_dns_verification' requires python3-unbound (No module named 'unbound')")
  else match inputKey.email with
    | none => .ok .error
    | some email => (email2location digest email).map fun location => validity (answer location) inputKey.key

theorem cacheMiss_oracle (inputKey : KeyInfo) :
    cacheMiss (oracle available digest answer : Dns ω) inputKey = lift (missResult available digest answer inputKey) := by
  rw [cacheMiss, missResult]
  cases available with
  | false => rfl
  | true =>
      cases inputKey.email with
      | none => rfl
      | some email =>
          simp only [oracle]
          cases email2location digest email <;> rfl

/-- The cache as kept results of `_cache_miss`. -/
def cacheMemo : Memo KeyInfo (Option PyStr) KeyUnion (Except Exc Validity) where
  slot := KeyInfo.email
  compute := missResult available digest answer
  hit := fun keyUnion inputKey => .ok (cacheHit keyUnion inputKey.key)
  keep := fun inputKey result => match result with
    | .ok result => kept inputKey result
    | .error _ => none

theorem verify_oracle (inputKey : KeyInfo) (s : State ω) :
    verify (oracle available digest answer) inputKey s =
      lift ((cacheMemo available digest answer).step s.cache inputKey).1
        { s with cache := ((cacheMemo available digest answer).step s.cache inputKey).2 } := by
  rw [verify, Memo.step, bind_apply, get_apply]
  simp only
  change (match s.cache.lookup inputKey.email with | some keyUnion => _ | none => _ : Prog ω Validity) s = _
  cases hlookup : s.cache.lookup inputKey.email with
  | some keyUnion =>
      simp only [cacheMemo, hlookup]
      rfl
  | none =>
      simp only [cacheMemo, hlookup, cacheMiss_oracle]
      cases missResult available digest answer inputKey with
      | error e => rfl
      | ok result =>
          simp only [bind_apply, modify_apply, pure_apply, lift]
          cases kept inputKey result <;> rfl

theorem verifyAll_lift (result : KeyInfo → Except Exc Validity) (s : State ω) (keys : List KeyInfo) :
    verifyAll (fun inputKey => lift (result inputKey)) s keys = keys.map result := by
  induction keys with
  | nil => rfl
  | cons inputKey keys ih =>
      rw [verifyAll, List.map_cons]
      cases result inputKey with
      | ok r => exact congrArg _ ih
      | error e => exact congrArg _ ih

theorem verifyAll_oracle (s : State ω) (keys : List KeyInfo) :
    verifyAll (verify (oracle available digest answer)) s keys = (cacheMemo available digest answer).run s.cache keys := by
  induction keys generalizing s with
  | nil => rfl
  | cons inputKey keys ih =>
      rw [verifyAll, Memo.run, verify_oracle]
      cases ((cacheMemo available digest answer).step s.cache inputKey).1 with
      | ok result => exact congrArg _ (ih _)
      | error e => exact congrArg _ (ih _)

/-- The answer was secure and proved that there is no record. -/
theorem validity_eq_provenNonexistence {result : DnsAnswer} {key : Option (List Char)}
    (h : validity result key = .provenNonexistence) (other : Option (List Char)) :
    validity result other = .provenNonexistence := by
  unfold validity at h ⊢
  split_ifs at h with hstatus hbogus hsecure hnone
  rw [if_neg hstatus, if_neg hbogus, if_neg hsecure, if_pos hnone]

/-- The answer was secure and held this key, so it decides on every other key. -/
theorem validity_eq_valid {result : DnsAnswer} {key : Option (List Char)} (h : validity result key = .valid) :
    key = some result.data ∧ ∀ other, validity result other = cacheHit (.key result.data) other := by
  unfold validity at h
  split_ifs at h with hstatus hbogus hsecure hnone hdata hkey
  refine ⟨hkey.symm, fun other => ?_⟩
  simp only [validity, cacheHit, if_neg hstatus, if_neg hbogus, if_neg hsecure, if_neg hnone, if_neg hdata]

/-- A result other than an error comes from the resolver, who answers the same for every key of the address. -/
theorem missResult_eq_ok {inputKey : KeyInfo} {result : Validity}
    (h : missResult available digest answer inputKey = .ok result) (hresult : result ≠ .error) :
    ∃ location, validity (answer location) inputKey.key = result ∧ ∀ other : KeyInfo, other.email = inputKey.email →
      missResult available digest answer other = .ok (validity (answer location) other.key) := by
  unfold missResult at h ⊢
  cases available with
  | false => cases h
  | true =>
      cases hemail : inputKey.email with
      | none =>
          rw [hemail] at h
          cases h
          exact absurd rfl hresult
      | some email =>
          rw [hemail] at h
          cases hlocation : email2location digest email with
          | error e =>
              simp only [hlocation] at h
              cases h
          | ok location =>
              simp only [hlocation] at h
              cases h
              refine ⟨location, rfl, fun other hother => ?_⟩
              rw [hother]
              simp only [hlocation]
              rfl

theorem cacheMemo_sound : (cacheMemo available digest answer).Sound := by
  intro inputKey keyUnion hkeep other hslot
  simp only [cacheMemo] at hkeep hslot ⊢
  cases hmiss : missResult available digest answer inputKey with
  | error e =>
      rw [hmiss] at hkeep
      cases hkeep
  | ok result =>
      rw [hmiss] at hkeep
      -- only two results are kept
      have hresult : result = .valid ∨ result = .provenNonexistence := by
        cases result with
        | valid => exact Or.inl rfl
        | provenNonexistence => exact Or.inr rfl
        | _ => cases hkeep
      rcases hresult with rfl | rfl
      · obtain ⟨location, hvalid, hall⟩ := missResult_eq_ok available digest answer hmiss (by decide)
        obtain ⟨hkey, hother⟩ := validity_eq_valid hvalid
        simp only [kept, hkey, Option.map_some, Option.some.injEq] at hkeep
        subst hkeep
        rw [hall other hslot, hother]
      · obtain ⟨location, hnone, hall⟩ := missResult_eq_ok available digest answer hmiss (by decide)
        cases hkeep
        rw [hall other hslot, validity_eq_provenNonexistence hnone]
        rfl

/-- With a fixed resolver each key gets the result it would get without the cache. -/
theorem verifyAll_transparent (world : ω) (keys : List KeyInfo) :
    verifyAll (verify (oracle available digest answer)) ⟨world, []⟩ keys =
      verifyAll (cacheMiss (oracle available digest answer)) ⟨world, []⟩ keys := by
  have hmiss : cacheMiss (oracle available digest answer : Dns ω) =
      fun inputKey => lift (missResult available digest answer inputKey) :=
    funext fun inputKey => cacheMiss_oracle available digest answer inputKey
  rw [verifyAll_oracle, (cacheMemo available digest answer).run_nil (cacheMemo_sound available digest answer),
    hmiss, verifyAll_lift]
  rfl

end Oracle

end Dnf.Gpg.Dnssec
