import Dnf.Gpg.Check

/-!
# The signature gate is fail-closed

When `gpgsigcheck` returns, the last `checkSig` of every package whose check is on gave 0, and every key handed to `pgpImportPubkey` had been approved. Both are statements about the recorded trace, and both follow from one pass over the functions: each keeps any property of the trace that survives the events the function may record for its package. `Survives` lists these events, and an import is on the list only where it was approved.

For the imports the property is that every import so far was approved. For the checks it is that the packages already passed still have 0 as their last result: a later package can record results for itself only.
-/

namespace Dnf.Gpg

open Foundation.Effect

variable {ω : Type}

/-! ### The two properties -/

/-- What allows `key` to be imported right after the events `before`. -/
def Conf.Approved (conf : Conf) (key : Key) (before : List Event) : Prop :=
  conf.assumeno = false ∧
    ((∃ po, before.head? = some (.asked po key true)) ∨
      conf.assumeyes = true ∧ (conf.gpgkeyDnsVerification = true →
        before.head? = some (.verified key .valid) ∨ before.head? = some (.verified key .provenNonexistence)))

/-- Every import of the trace was approved when it happened. -/
def Conf.AllApproved (conf : Conf) (trace : List Event) : Prop :=
  ∀ after key before, trace = after ++ .imported key :: before → conf.Approved key before

/-- The result of the last `checkSig` on a package, if there was one. -/
def lastCheckSig (po : Package) : List Event → Option Nat
  | [] => none
  | .checked q sigresult :: trace => if q = po then some sigresult else lastCheckSig po trace
  | _ :: trace => lastCheckSig po trace

/-- Whether the signature of a package has to be checked. -/
def Base.checkEnabled (base : Base ω) (po : Package) : Bool :=
  if po.fromCmdline then base.conf.localpkgGpgcheck
  else match base.findRepo po.repoid with
    | some repo => repo.gpgcheck
    | none => false

/-- The package passed the gate: nothing to check, or the last check gave 0. -/
def Base.Passed (base : Base ω) (po : Package) (trace : List Event) : Prop :=
  base.checkEnabled po = true → lastCheckSig po trace = some 0

/-- A property of the trace that survives what may be recorded while `po` is handled. -/
structure Survives (conf : Conf) (po : Package) (J : List Event → Prop) : Prop where
  checked : ∀ trace sigresult, J trace → J (.checked po sigresult :: trace)
  verified : ∀ trace key result, J trace → J (.verified key result :: trace)
  asked : ∀ trace key answer, J trace → J (.asked po key answer :: trace)
  imported : ∀ trace key, conf.Approved key trace → J trace → J (.imported key :: trace)

theorem Conf.AllApproved.cons {conf : Conf} {trace : List Event} {event : Event} (h : conf.AllApproved trace)
    (hevent : ∀ key, event = .imported key → conf.Approved key trace) : conf.AllApproved (event :: trace) := by
  intro after key before heq
  cases after with
  | nil =>
      rw [List.nil_append, List.cons.injEq] at heq
      obtain ⟨hhead, rfl⟩ := heq
      exact hevent key hhead
  | cons e after =>
      rw [List.cons_append, List.cons.injEq] at heq
      exact h after key before heq.2

theorem survives_allApproved (conf : Conf) (po : Package) : Survives conf po conf.AllApproved where
  checked _ _ h := h.cons (by simp)
  verified _ _ _ h := h.cons (by simp)
  asked _ _ _ h := h.cons (by simp)
  imported trace key happroved h := h.cons (by
    intro key' heq
    rw [Event.imported.injEq] at heq
    exact heq ▸ happroved)

/-- What is known of the last check of another package survives. -/
theorem survives_lastCheckSig (conf : Conf) {po q : Package} (hne : q ≠ po) (F : Option Nat → Prop) :
    Survives conf po (fun trace => F (lastCheckSig q trace)) where
  checked trace sigresult h := by rwa [lastCheckSig, if_neg (Ne.symm hne)]
  verified _ _ _ h := h
  asked _ _ _ h := h
  imported _ _ _ h := h

theorem survives_true (conf : Conf) (po : Package) : Survives conf po (fun _ => True) :=
  ⟨fun _ _ _ => trivial, fun _ _ _ _ => trivial, fun _ _ _ _ => trivial, fun _ _ _ _ => trivial⟩

/-! ### Each function keeps what survives -/

/-- A property of the trace, as a property of the state. -/
abbrev OnTrace (J : List Event → Prop) : State ω → Prop := fun s => J s.trace

variable {J : List Event → Prop}

theorem perform_keeps {α : Type} (call : Call ω α) : Keeps (OnTrace J) (perform call) := by
  intro s hs
  rw [perform]
  cases call s.world with
  | mk result world =>
      cases result with
      | ok a => exact hs
      | error e => exact hs

theorem setFlags_keeps (flags : Nat) : Keeps (ε := Exc) (OnTrace (ω := ω) J) (setFlags flags) :=
  Triple.modify fun _ hs => hs

theorem emit_triple {event : Event} {P : List Event → Prop} {Q : Unit → State ω → Prop} {E : Exc → State ω → Prop}
    (h : ∀ s : State ω, P s.trace → Q () { s with trace := event :: s.trace }) : Triple (OnTrace P) (emit event) Q E :=
  Triple.modify h

namespace Base

variable (base : Base ω) {po : Package}

theorem procgpgkey_keeps (rawkey : List Char) : Keeps (OnTrace J) (base.procgpgkey rawkey) := by
  rw [procgpgkey]
  split
  · exact Keeps.pure _
  · exact Keeps.throw _

theorem keyInstalled_keeps (keyid : List Char) (timestamp : Int) : Keeps (OnTrace J) (base.keyInstalled keyid timestamp) := by
  refine Keeps.bind (perform_keeps _) fun headers => ?_
  split
  · exact Keeps.pure _
  · split
    · exact Keeps.throw _
    · exact Keeps.pure _

theorem retrieve_keeps (keyurl : String) (repo : Repo) : Keeps (OnTrace J) (base.retrieve keyurl repo) :=
  Keeps.bind (perform_keeps _) fun _ => Keeps.pure _

theorem checkSig_keeps (package : String) : Keeps (OnTrace J) (base.checkSig package) := by
  refine Keeps.bind (perform_keeps _) fun _ => Keeps.bind (perform_keeps _) fun found => ?_
  exact Triple.ite (fun _ => Keeps.bind (perform_keeps _) fun _ => Keeps.pure _) fun _ => Keeps.pure _

/-- The first component of `checkSettings` is whether the check is enabled. -/
theorem checkSettings_spec : Triple (OnTrace J) (base.checkSettings po)
    (fun settings s => J s.trace ∧ settings.1 = base.checkEnabled po) (fun _ => OnTrace J) := by
  rw [checkSettings, checkEnabled]
  by_cases hcmdline : po.fromCmdline = true
  · rw [if_pos hcmdline, if_pos hcmdline]
    exact Triple.pure fun _ hs => ⟨hs, rfl⟩
  · rw [if_neg hcmdline, if_neg hcmdline]
    cases base.findRepo po.repoid with
    | some repo => exact Triple.pure fun _ hs => ⟨hs, rfl⟩
    | none => exact Triple.throw fun _ hs => hs

/-- Only the answer 0 of `checkSig` becomes the result 0. -/
theorem sigMessage_eq_zero {localfn msg : String} {hasgpgkey : Bool} {sigresult : Nat}
    (h : sigMessage localfn hasgpgkey sigresult = some (0, msg)) : sigresult = 0 := by
  match sigresult with
  | 0 => rfl
  | 1 | 3 => cases hasgpgkey <;> simp [sigMessage] at h
  | 2 | 4 => simp [sigMessage] at h
  | n + 5 => simp [sigMessage] at h

theorem sigCheckPkg_spec (hJ : Survives base.conf po J) : Triple (OnTrace J) (base.sigCheckPkg po)
    (fun result s => J s.trace ∧ (result.1 = 0 → base.Passed po s.trace)) (fun _ => OnTrace J) := by
  refine Triple.bind (base.checkSettings_spec) fun settings => Triple.ite (fun henabled => ?_) fun hdisabled => ?_
  · refine Triple.bind (M := fun _ => OnTrace J)
      ((base.checkSig_keeps po.localPkg).weaken (fun _ hs => hs.1) (fun _ _ hs => hs) fun _ _ hs => hs) fun sigresult => ?_
    refine Triple.bind (M := fun _ s => J s.trace ∧ lastCheckSig po s.trace = some sigresult)
      (emit_triple fun s hs => ⟨hJ.checked _ _ hs, by rw [lastCheckSig, if_pos rfl]⟩) fun _ => ?_
    cases hmsg : sigMessage (basename po.localPkg) settings.2 sigresult with
    | none => exact Triple.throw fun _ hs => hs.1
    | some result =>
        refine Triple.pure fun s hs => ⟨hs.1, fun hzero _ => ?_⟩
        obtain ⟨code, msg⟩ := result
        cases hzero
        rw [hs.2, sigMessage_eq_zero hmsg]
  · refine Triple.pure fun s hs => ⟨hs.1, fun _ henabled => ?_⟩
    rw [← hs.2] at henabled
    exact absurd henabled hdisabled

/-- What is known after the verification of `info`: its result was just recorded, or the verification is off. -/
def JustVerified (info : Key) (dnsResult : Option Validity) (trace : List Event) : Prop :=
  (∀ v, dnsResult = some v → trace.head? = some (.verified info v)) ∧
    (dnsResult = none → base.conf.gpgkeyDnsVerification = false)

theorem dnsVerification_spec (hJ : Survives base.conf po J) (info : Key) : Triple (OnTrace J) (base.dnsVerification info)
    (fun dnsResult s => J s.trace ∧ base.JustVerified info dnsResult s.trace) (fun _ => OnTrace J) := by
  have hrecord : ∀ dnsResult, Triple (OnTrace (ω := ω) J) (do emit (.verified info dnsResult); pure (some dnsResult))
      (fun dnsResult s => J s.trace ∧ base.JustVerified info dnsResult s.trace) (fun _ => OnTrace J) := by
    intro dnsResult
    refine Triple.bind (M := fun _ s => J s.trace ∧ s.trace.head? = some (.verified info dnsResult))
      (emit_triple fun s hs => ⟨hJ.verified _ _ _ hs, rfl⟩) fun _ => Triple.pure fun s hs => ⟨hs.1, ?_, by simp⟩
    intro v hv
    rw [← Option.some.inj hv]
    exact hs.2
  refine Triple.ite (fun _ => ?_) fun hoff => Triple.pure fun s hs => ⟨hs, by simp, fun _ => by simpa using hoff⟩
  split
  · exact Triple.throw fun _ hs => hs
  · exact Triple.throw fun _ hs => hs
  · refine Triple.bind (M := fun _ => OnTrace J) (Triple.get fun _ hs => hs) fun s => ?_
    split
    · exact hrecord _
    · refine Triple.bind (perform_keeps _) fun answer => ?_
      exact Triple.bind (M := fun _ => OnTrace J) (Triple.modify fun _ hs => hs) fun _ => hrecord _

theorem consult_spec (hJ : Survives base.conf po J) (hno : base.conf.assumeno = false) (ask : Askcb ω) (info : Key) :
    Triple (OnTrace J) (consult ask po info)
      (fun rc s => J s.trace ∧ (rc = true → base.conf.Approved info s.trace)) (fun _ => OnTrace J) := by
  refine Triple.bind (perform_keeps _) fun answer => ?_
  refine Triple.bind (M := fun _ s => J s.trace ∧ s.trace.head? = some (.asked po info answer))
    (emit_triple fun s hs => ⟨hJ.asked _ _ _ hs, rfl⟩) fun _ => Triple.pure fun s hs => ⟨hs.1, fun hyes => ?_⟩
  subst hyes
  exact ⟨hno, Or.inl ⟨po, hs.2⟩⟩

/-- The three confirmation modes: each says yes only to an approved key. -/
theorem approval_spec (hJ : Survives base.conf po J) (askcb fullaskcb : Option (Askcb ω)) (info : Key)
    (dnsResult : Option Validity) :
    Triple (fun s => J s.trace ∧ base.JustVerified info dnsResult s.trace) (base.approval po askcb fullaskcb info dnsResult)
      (fun rc s => J s.trace ∧ (rc = true → base.conf.Approved info s.trace)) (fun _ => OnTrace J) := by
  refine Triple.ite (fun _ => Triple.pure fun s hs => ⟨hs.1, by simp⟩) fun hno => ?_
  have hno : base.conf.assumeno = false := by simpa using hno
  refine Triple.ite (fun hyes => Triple.ite (fun hdns => ?_) fun hdns => ?_) fun _ => ?_
  · refine Triple.pure fun s hs => ⟨hs.1, fun hrc => ⟨hno, Or.inr ⟨hyes, fun _ => ?_⟩⟩⟩
    rw [Bool.or_eq_true, beq_iff_eq, beq_iff_eq] at hrc
    exact hrc.imp (hs.2.1 _) (hs.2.1 _)
  · exact Triple.pure fun s hs => ⟨hs.1, fun _ => ⟨hno, Or.inr ⟨hyes, fun hdns' => absurd hdns' hdns⟩⟩⟩
  · have hconsult := fun ask => (base.consult_spec hJ hno ask info).weaken
      (P := fun s => J s.trace ∧ base.JustVerified info dnsResult s.trace) (fun _ hs => hs.1) (fun _ _ hs => hs) fun _ _ hs => hs
    split
    · exact hconsult _
    · exact hconsult _
    · exact Triple.pure fun s hs => ⟨hs.1, by simp⟩

theorem importKey_spec (hJ : Survives base.conf po J) (repo : Repo) (info : Key) :
    Triple (fun s => J s.trace ∧ base.conf.Approved info s.trace) (base.importKey po repo info)
      (fun _ => OnTrace J) (fun _ => OnTrace J) := by
  refine Triple.bind (M := fun _ s => J s.trace ∧ base.conf.Approved info s.trace) (Triple.get fun _ hs => hs) fun orig => ?_
  refine Triple.bind (M := fun _ s => J s.trace ∧ base.conf.Approved info s.trace) (Triple.modify fun _ hs => hs) fun _ => ?_
  refine Triple.bind (M := fun _ s => J s.trace ∧ base.conf.Approved info s.trace)
    ((base.procgpgkey_keeps (J := fun trace => J trace ∧ base.conf.Approved info trace) info.rawKey).weaken
      (fun _ hs => hs) (fun _ _ hs => hs) fun _ _ hs => hs.1) fun pubkey => ?_
  refine Triple.bind (M := fun _ => OnTrace J)
    (Triple.modify fun s hs => hJ.imported _ _ hs.2 hs.1) fun _ => ?_
  refine Triple.bind (perform_keeps _) fun result => Triple.bind (setFlags_keeps _) fun _ => ?_
  exact Triple.ite (fun _ => Keeps.throw _) fun _ => Keeps.pure _

theorem offerKey_keeps (hJ : Survives base.conf po J) (askcb fullaskcb : Option (Askcb ω)) (repo : Repo) (loop : KeyLoop)
    (info : Key) : Keeps (OnTrace J) (base.offerKey po askcb fullaskcb repo loop info) := by
  refine Keeps.bind (base.keyInstalled_keeps _ _) fun installed => Triple.ite (fun _ => Keeps.pure _) fun _ => ?_
  refine Triple.bind (base.dnsVerification_spec hJ info) fun dnsResult => ?_
  refine Triple.bind (base.approval_spec hJ askcb fullaskcb info dnsResult) fun rc => Triple.ite (fun hrc => ?_) fun _ => ?_
  · refine Triple.bind (M := fun _ => OnTrace J)
      ((base.importKey_spec hJ repo info).weaken (fun s hs => ⟨hs.1, hs.2 hrc⟩) (fun _ _ hs => hs) fun _ _ hs => hs) fun _ => ?_
    exact Keeps.pure _
  · exact Triple.pure fun _ hs => hs.1

theorem offerKeys_keeps (hJ : Survives base.conf po J) (askcb fullaskcb : Option (Askcb ω)) (repo : Repo) (loop : KeyLoop)
    (keyurl : String) : Keeps (OnTrace J) (base.offerKeys po askcb fullaskcb repo loop keyurl) :=
  Keeps.bind (base.retrieve_keeps keyurl repo) fun _ =>
    Triple.foldlM (I := fun _ _ => OnTrace J) (fun _ info _ loop => base.offerKey_keeps hJ askcb fullaskcb repo loop info) loop

theorem getKeyForPackage_spec (hJ : Survives base.conf po J) (askcb fullaskcb : Option (Askcb ω)) :
    Triple (OnTrace J) (base.getKeyForPackage po askcb fullaskcb)
      (fun _ s => J s.trace ∧ base.Passed po s.trace) (fun _ => OnTrace J) := by
  refine Triple.ite (fun _ => Triple.throw fun _ hs => hs) fun _ => ?_
  split
  · exact Triple.throw fun _ hs => hs
  · rename_i repo _
    refine Triple.bind (M := fun _ => OnTrace J) (Triple.get fun _ hs => hs) fun s => ?_
    refine Triple.bind (M := fun _ => OnTrace J) (Triple.modify fun _ hs => hs) fun _ => ?_
    refine Triple.bind (Triple.foldlM (I := fun _ _ => OnTrace J)
      (fun _ keyurl _ loop => base.offerKeys_keeps hJ askcb fullaskcb repo loop keyurl) _) fun loop => ?_
    refine Triple.ite (fun _ => ?_) fun _ => Triple.ite (fun _ => Triple.throw fun _ hs => hs) fun _ => Triple.throw fun _ hs => hs
    refine Triple.bind (base.sigCheckPkg_spec hJ) fun result => Triple.ite (fun _ => Triple.throw fun _ hs => hs.1) fun hzero => ?_
    exact Triple.pure fun s hs => ⟨hs.1, hs.2 (not_not.mp hzero)⟩

/-- One package of the loop: without a new error message the package has passed. -/
theorem checkPackage_spec (hJ : Survives base.conf po J) (errorMessages : List String) :
    Triple (OnTrace J) (base.checkPackage errorMessages po)
      (fun messages s => J s.trace ∧ (messages = [] → errorMessages = [] ∧ base.Passed po s.trace)) (fun _ => OnTrace J) := by
  refine Triple.bind (base.sigCheckPkg_spec hJ) fun result => Triple.ite (fun hzero => ?_) fun _ => ?_
  · exact Triple.pure fun s hs => ⟨hs.1, fun hnil => ⟨hnil, hs.2 hzero⟩⟩
  refine Triple.ite (fun _ => Triple.ite (fun _ => Triple.throw fun _ hs => hs.1) fun _ => ?_) fun _ => ?_
  · refine Triple.tryCatch (F := fun _ => OnTrace J) ?_ fun e => ?_
    · refine Triple.bind ((base.getKeyForPackage_spec hJ _ none).weaken (fun _ hs => hs.1) (fun _ _ hs => hs) fun _ _ hs => hs)
        fun _ => ?_
      exact Triple.pure fun s hs => ⟨hs.1, fun hnil => ⟨hnil, hs.2⟩⟩
    · exact Triple.ite (fun _ => Triple.pure fun s hs => ⟨hs, by simp⟩) fun _ => Triple.throw fun _ hs => hs
  · exact Triple.pure fun s hs => ⟨hs.1, by simp⟩

/-! ### The gate -/

theorem gpgsigcheck_allApproved (pkgs : List Package) :
    Keeps (OnTrace base.conf.AllApproved) (base.gpgsigcheck pkgs) := by
  refine Triple.bind (Triple.foldlM (I := fun _ _ => OnTrace base.conf.AllApproved) (fun _ po _ errorMessages => ?_) [])
    fun errorMessages => Triple.ite (fun _ => Keeps.throw _) fun _ => Keeps.pure _
  exact (base.checkPackage_spec (survives_allApproved base.conf po) errorMessages).weaken
    (fun _ hs => hs) (fun _ _ hs => hs.1) fun _ _ hs => hs

/-- The loop, as one package `q` of the list sees it: once it is done and no message was added, it has passed and stays so. -/
theorem checkPackage_passed (q po : Package) (done : List Package) (errorMessages : List String) :
    Triple (fun s => errorMessages = [] → q ∈ done → base.Passed q s.trace) (base.checkPackage errorMessages po)
      (fun messages s => messages = [] → q ∈ done ++ [po] → base.Passed q s.trace) (fun _ _ => True) := by
  by_cases hpo : q = po
  · subst hpo
    exact (base.checkPackage_spec (survives_true base.conf q) errorMessages).weaken
      (fun _ _ => trivial) (fun _ _ hs hnil _ => (hs.2 hnil).2) fun _ _ _ => trivial
  · refine (base.checkPackage_spec (survives_lastCheckSig base.conf hpo
      (fun last => errorMessages = [] → q ∈ done → base.checkEnabled q = true → last = some 0)) errorMessages).weaken
      (fun _ hs => hs) (fun messages s hs hnil hq => ?_) fun _ _ _ => trivial
    rw [List.mem_append, List.mem_singleton, or_iff_left hpo] at hq
    exact hs.1 (hs.2 hnil).1 hq

theorem gpgsigcheck_passed (pkgs : List Package) {q : Package} (hq : q ∈ pkgs) :
    Triple (fun _ => True) (base.gpgsigcheck pkgs) (fun _ s => base.Passed q s.trace) (fun _ _ => True) := by
  have hloop := Triple.foldlM (l := pkgs) (fun done po _ errorMessages => base.checkPackage_passed q po done errorMessages) []
  refine Triple.bind (hloop.weaken (fun _ _ _ hnil => absurd hnil List.not_mem_nil) (fun _ _ hs => hs) fun _ _ hs => hs)
    fun errorMessages => Triple.ite (fun _ => Triple.throw fun _ _ => trivial) fun hnil => ?_
  exact Triple.pure fun s hs => hs (not_not.mp hnil) hq

/-- A call that returns: every package whose check is on passed its last `checkSig`, and every imported key was approved. -/
theorem gpgsigcheck_failClosed {pkgs : List Package} {s t : State ω} (hrun : base.gpgsigcheck pkgs s.fresh = .ok () t) :
    (∀ po ∈ pkgs, base.checkEnabled po = true → lastCheckSig po t.trace = some 0) ∧
      ∀ after key before, t.trace = after ++ .imported key :: before → base.conf.Approved key before := by
  have hstart : base.conf.AllApproved s.fresh.trace := by
    intro after key before heq
    exact absurd heq (by simp [State.fresh])
  exact ⟨fun po hpo => (base.gpgsigcheck_passed pkgs hpo).ok trivial hrun,
    (base.gpgsigcheck_allApproved pkgs).ok hstart hrun⟩

end Base

/-- A package of a repository whose one key is not installed yet. -/
def pepper : Package := ⟨"pepper-20-0.x86_64", "main", "/var/cache/dnf/pepper-20-0.x86_64.rpm"⟩

def pepperKey : Key := ⟨"00000000c6daaae9", "", "-----BEGIN PGP PUBLIC KEY BLOCK-----".toList, 0, "file:///key", "Tester <tester@example.com>".toList⟩

/-- The world is whether the key was imported: `rpmkeys` finds it missing before and is content after. -/
def pepperBase : Base Bool where
  conf := ⟨false, false, false, false, "/"⟩
  repos := [⟨"main", "main", true, ["file:///key"]⟩]
  isatty := true
  outside :=
    { openPackage := fun _ imported => (.ok (), imported)
      hasRpmkeys := fun imported => (.ok true, imported)
      rpmkeys := fun _ _ imported =>
        (.ok (if imported then (0, "-:\n    Header V4 RSA/SHA256 Signature, key ID c6daaae9: OK\n".toList)
          else (1, "-:\n    Header V4 RSA/SHA256 Signature, key ID c6daaae9: NOKEY\n".toList)), imported)
      download := fun _ _ imported => (.ok [pepperKey], imported)
      gpgPubkeys := fun imported => (.ok [], imported)
      int16 := fun _ => none
      resolve := fun _ imported => (.ok ⟨1, false, false, false, false, false, []⟩, imported)
      b64decode := fun text => some text
      pgpImportPubkey := fun _ _ => (.ok 0, true)
      userconfirm := fun imported => (.ok true, imported) }

/-- The user agrees, the key is imported, and the package passes. -/
theorem gpgsigcheck_failClosed_pepper :
    ∃ t, pepperBase.gpgsigcheck [pepper] (State.fresh ⟨false, [], 1, [], []⟩) = .ok () t ∧ .imported pepperKey ∈ t.trace ∧
      (∀ po ∈ [pepper], pepperBase.checkEnabled po = true → lastCheckSig po t.trace = some 0) ∧
      ∀ after key before, t.trace = after ++ .imported key :: before → pepperBase.conf.Approved key before := by
  have hrun : okWith (fun _ t => decide (.imported pepperKey ∈ t.trace))
      (pepperBase.gpgsigcheck [pepper] (State.fresh ⟨false, [], 1, [], []⟩)) = true := by decide +kernel
  obtain ⟨_, t, hrun, himported⟩ := exists_of_okWith hrun
  exact ⟨t, hrun, of_decide_eq_true himported, pepperBase.gpgsigcheck_failClosed hrun⟩

end Dnf.Gpg
