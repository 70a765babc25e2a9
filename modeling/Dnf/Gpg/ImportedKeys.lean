import Dnf.Gpg.Verification

/-!
# The keys that are already imported

`RpmImportedKeys` reads the `gpg-pubkey` packages of the rpm database: the address from the packager, the key from the description, an armored block. Each key is then verified, and `DnssecError` is the one exception that is caught on the way. The run ends without an exception exactly when each package has what the code takes for granted.
-/

namespace Dnf.Gpg.Dnssec

open Foundation Foundation.Effect

/-- The two tags of a `gpg-pubkey` package that are read; a missing tag is `None`. -/
structure Header where
  packager : Option PyStr
  description : Option PyStr

/-- The group of `re.search('<(.*@.*)>', _)` when the match starts right before `text`. -/
def emailGroup (text : PyStr) : Option PyStr :=
  let line := text.takeWhile (· ≠ '\n'.toNat)
  let group := (line.reverse.dropWhile (· ≠ '>'.toNat)).tail.reverse
  if '@'.toNat ∈ group then some group else none

/-- `re.search('<(.*@.*)>', packager)`. -/
def searchEmail : PyStr → Option PyStr
  | [] => none
  | c :: text => if c = '<'.toNat then (emailGroup text).or (searchEmail text) else searchEmail text

theorem emailGroup_ofChars (text : List Char) :
    emailGroup (PyStr.ofChars text) = (Gpg.emailGroup text).map PyStr.ofChars := by
  simp only [emailGroup, Gpg.emailGroup, PyStr.takeWhile_ofChars, PyStr.dropWhile_ofChars, PyStr.reverse_ofChars,
    PyStr.tail_ofChars, PyStr.mem_ofChars]
  split_ifs <;> rfl

/-- On a text without surrogates it is the search of `KeyInfo.fromRpmKeyObject`. -/
theorem searchEmail_ofChars (text : List Char) :
    searchEmail (PyStr.ofChars text) = (Gpg.searchEmail text).map PyStr.ofChars := by
  induction text with
  | nil => rfl
  | cons c text ih =>
      rw [PyStr.ofChars, List.map_cons, ← PyStr.ofChars, searchEmail, Gpg.searchEmail, ih, emailGroup_ofChars]
      by_cases hc : c = '<'
      · rw [if_pos (congrArg Char.toNat hc), if_pos hc]
        cases Gpg.emailGroup text <;> rfl
      · rw [if_neg fun h => hc (PyStr.toNat_inj.mp h), if_neg hc]

/-- The loop over the lines of the description. -/
def keyLines (inHeaders : Bool) : List PyStr → List PyStr
  | [] => []
  | line :: lines =>
      if inHeaders then
        if line.all PyStr.isSpace then keyLines false lines else keyLines true lines
      else line :: keyLines false lines

/-- `key_str`: the lines but the last three, from the first blank one on. -/
def keyStr (description : PyStr) : PyStr :=
  let lines := description.splitOn '\n'.toNat
  (keyLines true (lines.take (lines.length - 3))).flatten

/-- One package of `_query_db_for_gpg_keys`; `none` is its `continue`. -/
def keyOfHeader (pkg : Header) : Except Exc (Option KeyInfo) :=
  match pkg.packager with
  | none => .ok none
  | some packager =>
      match searchEmail packager with
      | none => .error .attributeError
      | some email =>
          match pkg.description with
          | none => .error .attributeError
          | some description =>
              match (keyStr description).encodeAscii with
              | none => .error .unicodeEncodeError
              | some key => .ok (some ⟨some email, some key⟩)

def queryDbForGpgKeys : List Header → Except Exc (List KeyInfo)
  | [] => .ok []
  | pkg :: packages =>
      match keyOfHeader pkg with
      | .error e => .error e
      | .ok key =>
          match queryDbForGpgKeys packages with
          | .error e => .error e
          | .ok keys => .ok (key.toList ++ keys)

/-- What is logged for a key: a result, or the value of a `DnssecError`. -/
inductive Outcome
  | tested (result : Validity)
  | failed (value : String)
  deriving DecidableEq

variable {ω : Type} (dns : Dns ω)

/-- One key of `check_imported_keys_validity`. -/
def checkKey (key : KeyInfo) : Prog ω Outcome :=
  tryCatch
    (do
      let result ← verify dns key
      pure (.tested result))
    fun e => match e with
      | .dnssecError value => pure (.failed value)
      | e => throw e

def checkKeys : List KeyInfo → Prog ω (List (KeyInfo × Outcome))
  | [] => pure []
  | key :: keys => do
      let outcome ← checkKey dns key
      let rest ← checkKeys keys
      pure ((key, outcome) :: rest)

def checkImportedKeysValidity (packages : List Header) : Prog ω (List (KeyInfo × Outcome)) := do
  let keys ← lift (queryDbForGpgKeys packages)
  checkKeys dns keys

/-! ### The address of a package -/

/-- The e-mail address in angle brackets, where the packager has one. -/
def Header.address (pkg : Header) : Option PyStr := pkg.packager.bind searchEmail

theorem mem_of_emailGroup {text email : PyStr} (h : emailGroup text = some email) : '@'.toNat ∈ email := by
  rw [emailGroup] at h
  split_ifs at h with hmem
  exact Option.some.inj h ▸ hmem

theorem mem_of_searchEmail {text email : PyStr} (h : searchEmail text = some email) : '@'.toNat ∈ email := by
  induction text with
  | nil => cases h
  | cons c text ih =>
      rw [searchEmail] at h
      split_ifs at h with hc
      · rcases Option.or_eq_some_iff.mp h with hgroup | ⟨-, hrest⟩
        · exact mem_of_emailGroup hgroup
        · exact ih hrest
      · exact ih h

/-! ### Reading the packages -/

/-- The packager is missing, or it has an address and the description is there with its key in ASCII. -/
def Readable (pkg : Header) : Prop :=
  pkg.packager = none ∨ ∃ email description, pkg.address = some email ∧ pkg.description = some description ∧
    (keyStr description).all (· < 128) = true

/-- A package that can be read and whose address can be asked for. -/
def Checkable (pkg : Header) : Prop :=
  Readable pkg ∧ ∀ email, pkg.address = some email → (localPart email).encodesUtf8 = true

theorem keyOfHeader_ok {pkg : Header} (h : Readable pkg) :
    ∃ key, keyOfHeader pkg = .ok key ∧ key.toList.map KeyInfo.email = pkg.address.toList.map some := by
  rcases h with hnone | ⟨email, description, hemail, hdescription, hascii⟩
  · refine ⟨none, ?_, ?_⟩
    · rw [keyOfHeader, hnone]
    · rw [Header.address, hnone]
      rfl
  · obtain ⟨packager, hpackager, hsearch⟩ := Option.bind_eq_some_iff.mp hemail
    have hencode : (keyStr description).encodeAscii = some ((keyStr description).map Char.ofNat) := by
      rw [PyStr.encodeAscii, if_pos hascii]
    refine ⟨some ⟨some email, (keyStr description).map Char.ofNat⟩, ?_, ?_⟩
    · simp only [keyOfHeader, hpackager, hsearch, hdescription, hencode]
    · rw [hemail]
      rfl

theorem keyOfHeader_error {pkg : Header} (h : ¬ Readable pkg) : ∃ e, keyOfHeader pkg = .error e := by
  cases hpackager : pkg.packager with
  | none => exact absurd (Or.inl hpackager) h
  | some packager =>
      cases hsearch : searchEmail packager with
      | none => exact ⟨.attributeError, by simp only [keyOfHeader, hpackager, hsearch]⟩
      | some email =>
          cases hdescription : pkg.description with
          | none => exact ⟨.attributeError, by simp only [keyOfHeader, hpackager, hsearch, hdescription]⟩
          | some description =>
              have hencode : (keyStr description).encodeAscii = none := by
                refine if_neg fun hascii => h (Or.inr ⟨email, description, ?_, hdescription, hascii⟩)
                rw [Header.address, hpackager]
                exact hsearch
              exact ⟨.unicodeEncodeError, by simp only [keyOfHeader, hpackager, hsearch, hdescription, hencode]⟩

theorem queryDbForGpgKeys_ok {packages : List Header} (h : ∀ pkg ∈ packages, Readable pkg) :
    ∃ keys, queryDbForGpgKeys packages = .ok keys ∧
      keys.map KeyInfo.email = (packages.filterMap Header.address).map some := by
  induction packages with
  | nil => exact ⟨[], rfl, rfl⟩
  | cons pkg packages ih =>
      obtain ⟨key, hkey, hemail⟩ := keyOfHeader_ok (h pkg (List.mem_cons_self ..))
      obtain ⟨keys, hkeys, hemails⟩ := ih fun other hother => h other (List.mem_cons_of_mem _ hother)
      refine ⟨key.toList ++ keys, ?_, ?_⟩
      · simp only [queryDbForGpgKeys, hkey, hkeys]
      · rw [List.map_append, hemail, hemails, List.filterMap_cons]
        cases pkg.address <;> rfl

theorem queryDbForGpgKeys_error {packages : List Header} {pkg : Header} (hpkg : pkg ∈ packages) (h : ¬ Readable pkg) :
    ∃ e, queryDbForGpgKeys packages = .error e := by
  induction packages with
  | nil => cases hpkg
  | cons first packages ih =>
      rw [queryDbForGpgKeys]
      rcases List.mem_cons.mp hpkg with rfl | hrest
      · obtain ⟨e, he⟩ := keyOfHeader_error h
        rw [he]
        exact ⟨e, rfl⟩
      · obtain ⟨e, he⟩ := ih hrest
        cases keyOfHeader first with
        | error e' => exact ⟨e', rfl⟩
        | ok key =>
            rw [he]
            exact ⟨e, rfl⟩

/-! ### Verifying the keys -/

/-- Every address in the cache has been asked for. -/
def Resolvable (s : State ω) : Prop :=
  ∀ entry ∈ s.cache, ∀ email, entry.1 = some email → (localPart email).encodesUtf8 = true

theorem Resolvable.store {s : State ω} (h : Resolvable s) {email : PyStr} (hencode : (localPart email).encodesUtf8 = true)
    (keyUnion : Option KeyUnion) : Resolvable (s.store (some email) keyUnion) := by
  cases keyUnion with
  | none => exact h
  | some keyUnion =>
      intro entry hentry other hother
      rcases List.mem_cons.mp hentry with rfl | hold
      · cases hother
        exact hencode
      · exact h entry hold other hother

variable {dns}

theorem email2location_ok (digest : PyStr → PyStr) {email : PyStr} (hat : '@'.toNat ∈ email)
    (hencode : (localPart email).encodesUtf8 = true) : ∃ location, email2location digest email = .ok location := by
  rw [email2location, if_neg (not_not.mpr hat), if_pos hencode]
  exact ⟨_, rfl⟩

theorem verify_ok (hdns : dns.available = true) {email : PyStr} (hat : '@'.toNat ∈ email)
    (hencode : (localPart email).encodesUtf8 = true) (key : Option (List Char)) {s : State ω} (hs : Resolvable s) :
    ∃ result t, verify dns ⟨some email, key⟩ s = .ok result t ∧ Resolvable t := by
  obtain ⟨location, hlocation⟩ := email2location_ok dns.digest hat hencode
  rw [verify, bind_apply, get_apply]
  simp only
  cases hlookup : s.cache.lookup (some email) with
  | some keyUnion => exact ⟨_, s, rfl, hs⟩
  | none =>
      have hmiss : cacheMiss dns ⟨some email, key⟩ s =
          .ok (validity (dns.resolve location s.world).1 key) { s with world := (dns.resolve location s.world).2 } := by
        simp only [cacheMiss, hdns, hlocation]
        rfl
      simp only [bind_apply, hmiss]
      have hkeep : Resolvable { s with world := (dns.resolve location s.world).2 } := hs
      exact ⟨_, _, rfl, hkeep.store hencode _⟩

theorem verify_error (hdns : dns.available = true) {email : PyStr} (hat : '@'.toNat ∈ email)
    (hencode : ¬ (localPart email).encodesUtf8 = true) (key : Option (List Char)) {s : State ω} (hs : Resolvable s) :
    verify dns ⟨some email, key⟩ s = .error .unicodeEncodeError s := by
  have hlocation : email2location dns.digest email = .error .unicodeEncodeError := by
    rw [email2location, if_neg (not_not.mpr hat), if_neg hencode]
  have hlookup : s.cache.lookup (some email) = none := by
    cases hlookup : s.cache.lookup (some email) with
    | none => rfl
    | some keyUnion =>
        obtain ⟨before, after, hcache, -⟩ := List.lookup_eq_some_iff.mp hlookup
        have hmem : (some email, keyUnion) ∈ s.cache := by
          rw [hcache]
          exact List.mem_append_right _ (List.mem_cons_self ..)
        exact absurd (hs _ hmem email rfl) hencode
  have hmiss : cacheMiss dns ⟨some email, key⟩ s = .error .unicodeEncodeError s := by
    simp only [cacheMiss, hdns, hlocation]
    rfl
  rw [verify, bind_apply, get_apply]
  simp only [hlookup, bind_apply, hmiss]

/-- A key with an address, as `_query_db_for_gpg_keys` makes them. -/
def Addressed (key : KeyInfo) : Prop := ∃ email, key.email = some email ∧ '@'.toNat ∈ email

/-- The local part of the address, if there is one, has an encoding. -/
def Encodes (key : KeyInfo) : Prop := ∀ email, key.email = some email → (localPart email).encodesUtf8 = true

theorem checkKey_ok (hdns : dns.available = true) {key : KeyInfo} (haddressed : Addressed key) (hencodes : Encodes key)
    {s : State ω} (hs : Resolvable s) : ∃ outcome t, checkKey dns key s = .ok outcome t ∧ Resolvable t := by
  obtain ⟨email, hemail, hat⟩ := haddressed
  obtain ⟨result, t, hrun, ht⟩ := verify_ok hdns hat (hencodes email hemail) key.key hs
  rw [← hemail] at hrun
  refine ⟨.tested result, t, ?_, ht⟩
  rw [checkKey, tryCatch_apply, bind_apply, hrun]
  rfl

theorem checkKey_error (hdns : dns.available = true) {key : KeyInfo} (haddressed : Addressed key)
    (hencodes : ¬ Encodes key) {s : State ω} (hs : Resolvable s) : ∃ e t, checkKey dns key s = .error e t := by
  obtain ⟨email, hemail, hat⟩ := haddressed
  have hencode : ¬ (localPart email).encodesUtf8 = true := fun h => hencodes fun other hother => by
    rw [hemail] at hother
    exact Option.some.inj hother ▸ h
  have hrun := verify_error hdns hat hencode key.key hs
  rw [← hemail] at hrun
  refine ⟨.unicodeEncodeError, s, ?_⟩
  rw [checkKey, tryCatch_apply, bind_apply, hrun]
  rfl

theorem checkKeys_cons (key : KeyInfo) (keys : List KeyInfo) : checkKeys dns (key :: keys) = (do
    let outcome ← checkKey dns key
    let rest ← checkKeys dns keys
    pure ((key, outcome) :: rest)) := rfl

theorem checkKeys_ok (hdns : dns.available = true) {keys : List KeyInfo} (haddressed : ∀ key ∈ keys, Addressed key)
    (hencodes : ∀ key ∈ keys, Encodes key) {s : State ω} (hs : Resolvable s) :
    ∃ outcomes t, checkKeys dns keys s = .ok outcomes t ∧ outcomes.map Prod.fst = keys := by
  induction keys generalizing s with
  | nil => exact ⟨[], s, rfl, rfl⟩
  | cons key keys ih =>
      obtain ⟨outcome, t, hrun, ht⟩ := checkKey_ok hdns (haddressed key (List.mem_cons_self ..))
        (hencodes key (List.mem_cons_self ..)) hs
      obtain ⟨outcomes, u, hrest, hkeys⟩ := ih (fun other hother => haddressed other (List.mem_cons_of_mem _ hother))
        (fun other hother => hencodes other (List.mem_cons_of_mem _ hother)) ht
      refine ⟨(key, outcome) :: outcomes, u, ?_, congrArg _ hkeys⟩
      simp only [checkKeys_cons, bind_apply, hrun, hrest, pure_apply]

theorem checkKeys_error (hdns : dns.available = true) {keys : List KeyInfo} (haddressed : ∀ key ∈ keys, Addressed key)
    {bad : KeyInfo} (hmem : bad ∈ keys) (hbad : ¬ Encodes bad) {s : State ω} (hs : Resolvable s) :
    ∃ e t, checkKeys dns keys s = .error e t := by
  induction keys generalizing s with
  | nil => cases hmem
  | cons key keys ih =>
      have haddr := haddressed key (List.mem_cons_self ..)
      by_cases hencodes : Encodes key
      · -- this key passes, so the failing one is among the others
        have hrest : bad ∈ keys := (List.mem_cons.mp hmem).resolve_left fun heq => hbad (heq ▸ hencodes)
        obtain ⟨outcome, t, hrun, ht⟩ := checkKey_ok hdns haddr hencodes hs
        obtain ⟨e, u, hfail⟩ := ih (fun other hother => haddressed other (List.mem_cons_of_mem _ hother)) hrest ht
        exact ⟨e, u, by simp only [checkKeys_cons, bind_apply, hrun, hfail]⟩
      · obtain ⟨e, t, hrun⟩ := checkKey_error hdns haddr hencodes hs
        exact ⟨e, t, by simp only [checkKeys_cons, bind_apply, hrun]⟩

/-! ### The keys of the packages -/

theorem at_mem_address {pkg : Header} {email : PyStr} (haddress : pkg.address = some email) : '@'.toNat ∈ email := by
  obtain ⟨packager, -, hsearch⟩ := Option.bind_eq_some_iff.mp haddress
  exact mem_of_searchEmail hsearch

section

variable {packages : List Header} {keys : List KeyInfo} (hemails : keys.map (·.email) = (packages.filterMap Header.address).map some)

include hemails

theorem exists_key_iff (email : PyStr) : (∃ key ∈ keys, key.email = some email) ↔ ∃ pkg ∈ packages, pkg.address = some email := by
  rw [← List.mem_map, hemails, List.mem_map_of_injective fun _ _ => Option.some.inj, List.mem_filterMap]

theorem addressed_of_emails : ∀ key ∈ keys, Addressed key := by
  intro key hkey
  have hsome : key.email ∈ (packages.filterMap Header.address).map some := hemails ▸ List.mem_map_of_mem hkey
  obtain ⟨email, hemail, heq⟩ := List.mem_map.mp hsome
  obtain ⟨pkg, -, haddress⟩ := List.mem_filterMap.mp hemail
  exact ⟨email, heq.symm, at_mem_address haddress⟩

theorem encodes_iff_checkable (hread : ∀ pkg ∈ packages, Readable pkg) : (∀ key ∈ keys, Encodes key) ↔ ∀ pkg ∈ packages, Checkable pkg := by
  constructor
  · intro h pkg hpkg
    refine ⟨hread pkg hpkg, fun email hemail => ?_⟩
    obtain ⟨key, hkey, hkeyEmail⟩ := (exists_key_iff hemails email).mpr ⟨pkg, hpkg, hemail⟩
    exact h key hkey email hkeyEmail
  · intro h key hkey email hemail
    obtain ⟨pkg, hpkg, hpkgEmail⟩ := (exists_key_iff hemails email).mp ⟨key, hkey, hemail⟩
    exact (h pkg hpkg).2 email hpkgEmail

end

/-- The run raises nothing, and tests the keys with an address and no other, exactly when every package can be checked. -/
theorem checkImportedKeysValidity_ok_iff (hdns : dns.available = true) {s : State ω} (hs : Resolvable s)
    (packages : List Header) :
    (∃ outcomes t, checkImportedKeysValidity dns packages s = .ok outcomes t ∧
      outcomes.map (·.1.email) = (packages.filterMap Header.address).map some) ↔ ∀ pkg ∈ packages, Checkable pkg := by
  by_cases hread : ∀ pkg ∈ packages, Readable pkg
  · obtain ⟨keys, hquery, hemails⟩ := queryDbForGpgKeys_ok hread
    have haddressed := addressed_of_emails hemails
    rw [← encodes_iff_checkable hemails hread, checkImportedKeysValidity, hquery, lift_ok_bind]
    constructor
    · rintro ⟨outcomes, t, hrun, -⟩
      by_contra hnot
      push Not at hnot
      obtain ⟨bad, hbadMem, hbad⟩ := hnot
      obtain ⟨e, u, hfail⟩ := checkKeys_error hdns haddressed hbadMem hbad hs
      rw [hfail] at hrun
      cases hrun
    · intro h
      obtain ⟨outcomes, t, hrun, hkeys⟩ := checkKeys_ok hdns haddressed h hs
      refine ⟨outcomes, t, hrun, ?_⟩
      rw [← hemails, ← hkeys, List.map_map]
      rfl
  · push Not at hread
    obtain ⟨pkg, hpkg, hbad⟩ := hread
    obtain ⟨e, he⟩ := queryDbForGpgKeys_error hpkg hbad
    constructor
    · rintro ⟨outcomes, t, hrun, -⟩
      rw [checkImportedKeysValidity, he, lift_error_bind] at hrun
      cases hrun
    · intro h
      exact absurd (h pkg hpkg).1 hbad

/-- A resolver that proves every record absent. -/
def nowhere : Dns Unit := oracle true id fun _ => ⟨0, false, true, true, false, false, []⟩

/-- A packager without an address ends the run. -/
theorem checkImportedKeysValidity_raises : ¬ ∀ dns : Dns Unit, dns.available = true → ∀ packages : List Header,
    ∃ outcomes t, checkImportedKeysValidity dns packages ⟨(), []⟩ = .ok outcomes t ∧
      outcomes.map (·.1.email) = (packages.filterMap Header.address).map some := by
  intro h
  obtain ⟨outcomes, t, hrun, -⟩ := h nowhere rfl [⟨some (PyStr.ofChars "Example Key".toList), some []⟩]
  have hraise : checkImportedKeysValidity nowhere [⟨some (PyStr.ofChars "Example Key".toList), some []⟩] ⟨(), []⟩ =
      .error .attributeError ⟨(), []⟩ := rfl
  rw [hraise] at hrun
  cases hrun

theorem checkImportedKeysValidity_two : ∃ outcomes t,
    checkImportedKeysValidity nowhere [⟨none, none⟩, ⟨some (PyStr.ofChars "Key <k@e.org>".toList), some []⟩] ⟨(), []⟩ =
      .ok outcomes t ∧ outcomes.map (·.1.email) = [some (PyStr.ofChars "k@e.org".toList)] := by
  have hempty : Resolvable (⟨(), []⟩ : State Unit) := fun entry hentry => by cases hentry
  refine (@checkImportedKeysValidity_ok_iff Unit nowhere rfl ⟨(), []⟩ hempty _).mpr ?_
  intro pkg hpkg
  rcases List.mem_pair.mp hpkg with rfl | rfl
  · exact ⟨Or.inl rfl, fun email hemail => by cases hemail⟩
  · have haddress : Header.address ⟨some (PyStr.ofChars "Key <k@e.org>".toList), some []⟩ =
        some (PyStr.ofChars "k@e.org".toList) := by decide
    refine ⟨Or.inr ⟨_, [], haddress, rfl, by decide⟩, fun email hemail => ?_⟩
    rw [haddress] at hemail
    cases hemail
    decide

end Dnf.Gpg.Dnssec
