import Dnf.Cli.Gated

/-!
# What reaches rpm was agreed to, intact and signed

No change of the system without the user's agreement, and no package for rpm without the two checks: that its file is the one the repository describes, and that its signature is good where the configuration wants one. This holds however the transaction ends.
-/

namespace Dnf.Cli.Gated

open Foundation Foundation.Effect
open History (isForward)
open Transaction (Item Package TsCall)

namespace BaseCli

variable {ω : Type} (cli : BaseCli ω) (items : List Item)

/-- The user agreed, where an agreement is wanted. -/
def Agreed (log : List Entry) : Prop := cli.promptWanted = true → .agreed ∈ log

/-- The file of a package is given on the command line, or has the right checksum, or was downloaded. -/
def Intact (log : List Entry) (pkg : Package) : Prop :=
  cli.isLocalPkg pkg = true ∧ fromCmdline pkg = true ∨ .verified pkg ∈ log ∨ ∃ pkgs, .downloaded pkgs ∈ log ∧ pkg ∈ pkgs

/-- The new packages are intact and went through the signature check. -/
def Cleared (log : List Entry) : Prop :=
  ∀ item ∈ items, isForward item.action = true → ∃ pkg, item.pkg = some pkg ∧ cli.Intact log pkg ∧ ∃ pkgs, .signed pkgs ∈ log ∧ pkg ∈ pkgs

/-- What an entry may come after. -/
def Allowed (before : List Entry) : Entry → Prop
  | .writable => cli.Agreed before ∧ cli.conf.persistence = .transient
  | .saved => cli.Agreed before ∧ cli.conf.downloadonly = false ∧ (items ≠ [] → cli.conf.test = false ∧ cli.Cleared items before)
  | .recorded => cli.Agreed before ∧ cli.conf.downloadonly = false ∧ items = [] ∧ .saved ∈ before
  | .succeeded => ∃ calls, .ran calls ∈ before
  | .ran calls => cli.Agreed before ∧ cli.conf.downloadonly = false ∧ cli.conf.test = false ∧ cli.Cleared items before ∧ .saved ∈ before ∧
      DoTransaction.populateRpmTs cli.conf items = .ok calls
  | _ => True

/-- What a normal end of `do_transaction` says. -/
structure Done (log : List Entry) : Prop where
  agreed : DoTransaction.pending cli.conf items = true → cli.Agreed log
  cleared : items ≠ [] → cli.Cleared items log
  ran : items ≠ [] → cli.conf.downloadonly = false → cli.conf.test = false →
    ∃ calls, DoTransaction.populateRpmTs cli.conf items = .ok calls ∧ .ran calls ∈ log ∧ .succeeded ∈ log
  saved : DoTransaction.pending cli.conf items = true → cli.conf.downloadonly = false → (items ≠ [] → cli.conf.test = false) → .saved ∈ log

/-- In every state: each entry was allowed, each signed package has passed, and each imported key was approved. -/
structure Safe (s : State ω) : Prop where
  guarded : Guarded (cli.Allowed items) s.log
  passed : ∀ pkgs, .signed pkgs ∈ s.log → ∀ pkg ∈ pkgs, cli.gpg.Passed (cli.signature pkg) s.gpg.trace
  approved : cli.gpg.conf.AllApproved s.gpg.trace

/-- Safe, with what is known of the log. -/
def Knows (F : List Entry → Prop) (s : State ω) : Prop := cli.Safe items s ∧ F s.log

/-- What no later entry but that of the signature check can change. -/
def Stable (F : List Entry → Prop) : Prop := ∀ log entry, (∀ pkgs, entry ≠ .signed pkgs) → F log → F (log ++ [entry])

def Unsigned (log : List Entry) : Prop := ∀ pkgs, .signed pkgs ∉ log

variable {cli items} {F : List Entry → Prop}

theorem Intact.mono {before log : List Entry} {pkg : Package} (hintact : cli.Intact before pkg) (hin : ∀ entry ∈ before, entry ∈ log) : cli.Intact log pkg := by
  rcases hintact with hlocal | hverified | ⟨pkgs, hdownloaded, hmem⟩
  · exact .inl hlocal
  · exact .inr (.inl (hin _ hverified))
  · exact .inr (.inr ⟨pkgs, hin _ hdownloaded, hmem⟩)

theorem stable_unsigned : Stable Unsigned := by
  intro log entry hentry h pkgs hmem
  rcases List.mem_append.mp hmem with hmem | hmem
  · exact h pkgs hmem
  · exact hentry pkgs (List.mem_singleton.mp hmem).symm

theorem stable_mem (entry : Entry) : Stable fun log => entry ∈ log := fun _ _ _ h => List.mem_append_left _ h

theorem Stable.and {G : List Entry → Prop} (hF : Stable F) (hG : Stable G) : Stable fun log => F log ∧ G log :=
  fun log entry hentry h => ⟨hF log entry hentry h.1, hG log entry hentry h.2⟩

theorem stable_agreed : Stable cli.Agreed := fun _ _ _ h hwanted => List.mem_append_left _ (h hwanted)

theorem Knows.mono {G : List Entry → Prop} (h : ∀ log, F log → G log) {s : State ω} (hs : cli.Knows items F s) : cli.Knows items G s := ⟨hs.1, h s.log hs.2⟩

/-! ### The parts of a program -/

theorem call_keeps {α : Type} (x : Gpg.Call ω α) : Keeps (cli.Knows items F) (call x) := by
  intro s hs
  have hkept : ∀ world, cli.Knows items F { s with gpg := { s.gpg with world := world } } := fun world => ⟨⟨hs.1.guarded, hs.1.passed, hs.1.approved⟩, hs.2⟩
  rw [call, check, Gpg.perform]
  cases x s.gpg.world with
  | mk result world =>
      cases result with
      | ok a => exact hkept world
      | error e => exact hkept world

theorem call_triple {α : Type} (x : Gpg.Call ω α) : Triple (cli.Knows items F) (call x) (fun _ => cli.Knows items F) (fun _ => cli.Safe items) :=
  (call_keeps x).weaken (fun _ hs => hs) (fun _ _ hs => hs) fun _ _ hs => hs.1

theorem computed_triple {α : Type} (x : Except TransactionTable.Exc α) :
    Triple (cli.Knows items F) (computed x) (fun a s => cli.Knows items F s ∧ x = .ok a) (fun _ => cli.Safe items) := by
  cases x with
  | ok a => exact Triple.pure fun s hs => ⟨hs, rfl⟩
  | error e => exact Triple.throw fun s hs => hs.1

/-- After `refuse` the condition is false. -/
theorem refuse_triple (condition : Bool) (e : Exc) :
    Triple (cli.Knows items F) (refuse condition e) (fun _ s => cli.Knows items F s ∧ condition = false) (fun _ => cli.Safe items) :=
  Triple.ite (fun _ => Triple.throw fun _ hs => hs.1) fun hfalse => Triple.pure fun _ hs => ⟨hs, Bool.eq_false_of_not_eq_true hfalse⟩

theorem enter_triple {entry : Entry} (hplain : ∀ pkgs, entry ≠ .signed pkgs) (hF : Stable F) (hallowed : ∀ log, F log → cli.Allowed items log entry)
    {E : Exc → State ω → Prop} : Triple (cli.Knows items F) (enter entry) (fun _ => cli.Knows items fun log => F log ∧ entry ∈ log) E := by
  refine Triple.modify fun s hs => ⟨⟨hs.1.guarded.concat (hallowed s.log hs.2), fun pkgs hmem => ?_, hs.1.approved⟩, hF s.log entry hplain hs.2, ?_⟩
  · rcases List.mem_append.mp hmem with hmem | hmem
    · exact hs.1.passed pkgs hmem
    · exact absurd (List.mem_singleton.mp hmem).symm (hplain pkgs)
  · exact List.mem_append_right _ (List.mem_singleton_self _)

/-- What is known in a program's precondition may be assumed for all of it. -/
theorem triple_of_fact {α : Type} {P : State ω → Prop} {fact : Prop} {x : Prog ω α} {Q : α → State ω → Prop} {E : Exc → State ω → Prop}
    (h : fact → Triple P x Q E) : Triple (fun s => P s ∧ fact) x Q E := fun s hs => h hs.2 s hs.1

/-! ### The download -/

def AllVerified (done : List Package) (all : Bool) (log : List Entry) : Prop := all = true → ∀ pkg ∈ done, .verified pkg ∈ log

theorem stable_allVerified (done : List Package) (all : Bool) : Stable (AllVerified done all) :=
  fun _ _ _ h hall pkg hpkg => List.mem_append_left _ (h hall pkg hpkg)

theorem verificationOfPackages_triple (hF : Stable F) (pkgList : List Package) :
    Triple (cli.Knows items F) (cli.verificationOfPackages pkgList)
      (fun all => cli.Knows items fun log => F log ∧ AllVerified pkgList all log) (fun _ => cli.Safe items) := by
  have hloop := Triple.foldlM (f := cli.verifyPkg) (l := pkgList) (I := fun done all => cli.Knows items fun log => F log ∧ AllVerified done all log)
    (E := fun _ => cli.Safe items) (fun done pkg _ all => ?_) true
  · exact hloop.weaken (fun _ hs => hs.mono fun _ h => ⟨h, fun _ _ hmem => absurd hmem List.not_mem_nil⟩) (fun _ _ hs => hs) fun _ _ hs => hs
  have hG := hF.and (stable_allVerified done all)
  refine Triple.bind (Triple.tryCatch (call_keeps _) fun _ => Triple.pure fun _ hs => hs) fun verified => Triple.ite (fun _ => ?_) fun _ => ?_
  · refine Triple.bind (enter_triple (fun _ => by simp) hG (by intros; trivial)) fun _ => Triple.pure fun _ hs => hs.mono ?_
    rintro log ⟨⟨hlog, hall⟩, hmem⟩
    refine ⟨hlog, fun htrue pkg' hpkg' => ?_⟩
    rcases List.mem_append.mp hpkg' with hpkg' | hpkg'
    · exact hall htrue pkg' hpkg'
    · exact List.mem_singleton.mp hpkg' ▸ hmem
  · exact Triple.pure fun _ hs => hs.mono fun _ h => ⟨h.1, fun hfalse => absurd hfalse Bool.false_ne_true⟩

def Fetched (cli : BaseCli ω) (pkgs : List Package) (log : List Entry) : Prop := ∀ pkg ∈ pkgs, cli.Intact log pkg

theorem stable_fetched (pkgs : List Package) : Stable (Fetched cli pkgs) := by
  intro log entry _ h pkg hpkg
  rcases h pkg hpkg with hlocal | hverified | ⟨list, hdownloaded, hmem⟩
  · exact .inl hlocal
  · exact .inr (.inl (List.mem_append_left _ hverified))
  · exact .inr (.inr ⟨list, List.mem_append_left _ hdownloaded, hmem⟩)

/-- Selected are the packages that have to be downloaded; the others are intact. -/
theorem selectRemotePkgs_triple (hF : Stable F) (installPkgs : List Package) :
    Triple (cli.Knows items F) (cli.selectRemotePkgs installPkgs)
      (fun remotePkgs => cli.Knows items fun log => F log ∧ ∀ pkg ∈ installPkgs, pkg ∈ remotePkgs ∨ cli.Intact log pkg) (fun _ => cli.Safe items) := by
  refine Triple.bind (verificationOfPackages_triple hF _) fun localVerified => Triple.bind (refuse_triple _ _) fun _ => triple_of_fact fun hlocal => ?_
  have hG := hF.and (stable_allVerified (installPkgs.filter fun pkg => cli.isLocalPkg pkg && !fromCmdline pkg) localVerified)
  have hknown : ∀ log, AllVerified (installPkgs.filter fun pkg => cli.isLocalPkg pkg && !fromCmdline pkg) localVerified log →
      ∀ pkg ∈ installPkgs, cli.isLocalPkg pkg = true → cli.Intact log pkg := by
    intro log hverified pkg hpkg hislocal
    cases hcmdline : fromCmdline pkg with
    | true => exact .inl ⟨hislocal, hcmdline⟩
    | false =>
        refine .inr (.inl (hverified (by simpa using hlocal) pkg (List.mem_filter.mpr ⟨hpkg, ?_⟩)))
        rw [hislocal, hcmdline]
        rfl
  refine Triple.ite (fun _ => ?_) fun _ => Triple.pure fun s hs => hs.mono fun log h => ⟨h.1, fun pkg hpkg => ?_⟩
  · refine Triple.bind (verificationOfPackages_triple hG _) fun remoteVerified => Triple.bind (refuse_triple _ _) fun _ => triple_of_fact fun hremote => ?_
    refine Triple.pure fun s hs => hs.mono fun log h => ⟨h.1.1, fun pkg hpkg => .inr ?_⟩
    cases hislocal : cli.isLocalPkg pkg with
    | true => exact hknown log h.1.2 pkg hpkg hislocal
    | false =>
        refine .inr (.inl (h.2 (by simpa using hremote) pkg (List.mem_filter.mpr ⟨hpkg, ?_⟩)))
        rw [hislocal]
        rfl
  · cases hislocal : cli.isLocalPkg pkg with
    | true => exact .inr (hknown log h.2 pkg hpkg hislocal)
    | false => exact .inl (List.mem_filter.mpr ⟨hpkg, by rw [hislocal]; rfl⟩)

theorem downloadPackages_triple (hF : Stable F) (pkglist : List Package) :
    Triple (cli.Knows items F) (cli.downloadPackages pkglist)
      (fun _ => cli.Knows items fun log => F log ∧ Fetched cli pkglist log) (fun _ => cli.Safe items) := by
  refine Triple.bind (selectRemotePkgs_triple hF pkglist) fun remotePkgs => Triple.ite (fun hempty => ?_) fun _ => ?_
  · refine Triple.pure fun s hs => hs.mono fun log h => ⟨h.1, fun pkg hpkg => ?_⟩
    rw [List.isEmpty_iff.mp hempty] at h
    exact (h.2 pkg hpkg).resolve_left List.not_mem_nil
  · have hG : Stable fun log => F log ∧ ∀ pkg ∈ pkglist, pkg ∈ remotePkgs ∨ cli.Intact log pkg := by
      intro log entry hentry h
      exact ⟨hF log entry hentry h.1, fun pkg hpkg => (h.2 pkg hpkg).imp id fun hintact =>
        @stable_fetched ω cli [pkg] log entry hentry (fun pkg' hpkg' => List.mem_singleton.mp hpkg' ▸ hintact) pkg (List.mem_singleton_self pkg)⟩
    refine Triple.bind (call_triple _) fun _ => ?_
    refine (enter_triple (fun _ => by simp) hG (by intros; trivial)).weaken (fun _ hs => hs) (fun _ _ hs => hs.mono fun log h => ⟨h.1.1, fun pkg hpkg => ?_⟩) fun _ _ hs => hs
    exact (h.1.2 pkg hpkg).elim (fun hmem => .inr (.inr ⟨remotePkgs, h.2, hmem⟩)) id

/-! ### The signature check -/

theorem gpgsigcheck_triple {G : List Entry → Prop} (hunsigned : ∀ log, F log → Unsigned log) (pkgs : List Package) (hG : ∀ log, F log → G (log ++ [.signed pkgs])) :
    Triple (cli.Knows items F) (cli.gpgsigcheck pkgs) (fun _ => cli.Knows items fun log => G log ∧ .signed pkgs ∈ log) (fun _ => cli.Safe items) := by
  intro s hs
  have hnone : ∀ gpg : Gpg.State ω, ∀ pkgs, .signed pkgs ∈ s.log → ∀ pkg ∈ pkgs, cli.gpg.Passed (cli.signature pkg) gpg.trace :=
    fun _ pkgs hmem => absurd hmem (hunsigned s.log hs.2 pkgs)
  have happroved := (cli.gpg.gpgsigcheck_allApproved (pkgs.map cli.signature)).final hs.1.approved
  rw [BaseCli.gpgsigcheck, bind_apply, check]
  cases hrun : cli.gpg.gpgsigcheck (pkgs.map cli.signature) s.gpg with
  | error e t =>
      rw [hrun] at happroved
      exact ⟨hs.1.guarded, hnone t, happroved⟩
  | ok _ t =>
      rw [hrun] at happroved
      refine ⟨⟨hs.1.guarded.concat trivial, fun pkgs' hmem pkg hpkg => ?_, happroved⟩, hG s.log hs.2, List.mem_append_right _ (List.mem_singleton_self _)⟩
      rcases List.mem_append.mp hmem with hmem | hmem
      · exact hnone t pkgs' hmem pkg hpkg
      · obtain rfl := Entry.signed.inj (List.mem_singleton.mp hmem)
        exact (cli.gpg.gpgsigcheck_passed (pkgs'.map cli.signature) (List.mem_map_of_mem hpkg)).ok trivial hrun

/-! ### The transaction -/

theorem installPkgs_of_sortItem {before sorted : DoTransaction.Sorted} {item : Item} (h : DoTransaction.sortItem before item = .ok sorted) :
    before.installPkgs ⊆ sorted.installPkgs ∧ (isForward item.action = true → ∃ pkg, item.pkg = some pkg ∧ pkg ∈ sorted.installPkgs) := by
  rw [DoTransaction.sortItem, DoTransaction.ask] at h
  split_ifs at h with hforward hbackward
  · cases hpkg : item.pkg with
    | none =>
        rw [hpkg] at h
        cases h
    | some pkg =>
        rw [hpkg] at h
        obtain rfl := Except.ok.inj h
        exact ⟨List.subset_append_left _ _, fun _ => ⟨pkg, rfl, List.mem_append_right _ (List.mem_singleton_self pkg)⟩⟩
  · cases hpkg : item.pkg with
    | none =>
        rw [hpkg] at h
        cases h
    | some pkg =>
        rw [hpkg] at h
        obtain rfl := Except.ok.inj h
        exact ⟨List.Subset.refl _, fun hforward' => absurd hforward' hforward⟩
  · obtain rfl := Except.ok.inj h
    exact ⟨List.Subset.refl _, fun hforward' => absurd hforward' hforward⟩

theorem installPkgs_of_sortItems {sorted : DoTransaction.Sorted} (h : DoTransaction.sortItems items = .ok sorted) :
    ∀ item ∈ items, isForward item.action = true → ∃ pkg, item.pkg = some pkg ∧ pkg ∈ sorted.installPkgs := by
  induction items using List.reverseRecOn generalizing sorted with
  | nil => exact fun item hitem => absurd hitem List.not_mem_nil
  | append_singleton items last ih =>
      rw [DoTransaction.sortItems, List.foldlM_append] at h
      cases hitems : items.foldlM DoTransaction.sortItem {} with
      | error e =>
          rw [hitems] at h
          cases h
      | ok before =>
          rw [hitems, Fallible.ok_bind, List.foldlM_cons] at h
          cases hlast : DoTransaction.sortItem before last with
          | error e =>
              rw [hlast] at h
              cases h
          | ok after =>
              rw [hlast] at h
              obtain rfl := Except.ok.inj h
              obtain ⟨hsub, hnew⟩ := installPkgs_of_sortItem hlast
              intro item hitem hforward
              rcases List.mem_append.mp hitem with hitem | hitem
              · obtain ⟨pkg, hpkg, hmem⟩ := ih hitems item hitem hforward
                exact ⟨pkg, hpkg, hsub hmem⟩
              · exact hnew (List.mem_singleton.mp hitem ▸ hforward) |>.imp fun pkg h => ⟨List.mem_singleton.mp hitem ▸ h.1, h.2⟩

theorem transient_of_bootcCheck (h : DoTransaction.bootcCheck cli.conf items = .ok ()) (hbootc : DoTransaction.isBootcTransaction cli.conf = true)
    (hwritable : cli.conf.writable = false) : cli.conf.persistence = .transient := by
  rw [DoTransaction.bootcCheck, if_pos hbootc, hwritable] at h
  cases hpersistence : cli.conf.persistence with
  | auto =>
      rw [hpersistence] at h
      cases h
  | persist =>
      rw [hpersistence] at h
      cases h
  | transient => rfl

theorem confirm_triple (hF : Stable F) : Triple (cli.Knows items F) cli.confirm (fun _ => cli.Knows items fun log => F log ∧ cli.Agreed log) (fun _ => cli.Safe items) := by
  refine Triple.ite (fun hwanted => Triple.ite (fun _ => Triple.throw fun _ hs => hs.1) fun _ => ?_) fun hwanted => ?_
  · refine Triple.bind (call_triple _) fun answer => Triple.ite (fun _ => ?_) fun _ => Triple.throw fun _ hs => hs.1
    exact (enter_triple (fun _ => by simp) hF (by intros; trivial)).weaken (fun _ hs => hs) (fun _ _ hs => hs.mono fun log h => ⟨h.1, fun _ => h.2⟩) fun _ _ hs => hs
  · exact Triple.pure fun s hs => hs.mono fun log h => ⟨h, fun hwanted' => absurd hwanted' hwanted⟩

theorem unlock_triple (hF : Stable F) (hagreed : ∀ log, F log → cli.Agreed log) (hcheck : DoTransaction.bootcCheck cli.conf items = .ok ()) :
    Triple (cli.Knows items F) cli.unlock (fun _ => cli.Knows items F) (fun _ => cli.Safe items) := by
  refine Triple.ite (fun hlocked => ?_) fun _ => Triple.pure fun _ hs => hs
  rw [Bool.and_eq_true, Bool.not_eq_true'] at hlocked
  refine Triple.bind (call_triple _) fun _ => ?_
  have htransient := transient_of_bootcCheck hcheck hlocked.1 hlocked.2
  have hallowed : ∀ log, F log → cli.Allowed items log .writable := fun log hlog => ⟨hagreed log hlog, htransient⟩
  exact (enter_triple (fun _ => by simp) hF hallowed).weaken (fun _ hs => hs) (fun _ _ hs => hs.mono fun log h => h.1) fun _ _ hs => hs

/-- What is known once the new packages have been fetched and checked. -/
def Ready (cli : BaseCli ω) (items : List Item) (log : List Entry) : Prop := cli.Agreed log ∧ (items ≠ [] → cli.Cleared items log)

theorem stable_ready : Stable (Ready cli items) := by
  intro log entry hentry h
  refine ⟨stable_agreed log entry hentry h.1, fun hne item hitem hforward => ?_⟩
  obtain ⟨pkg, hpkg, hintact, pkgs, hsigned, hmem⟩ := h.2 hne item hitem hforward
  have hintact' := @stable_fetched ω cli [pkg] log entry hentry (fun pkg' hpkg' => List.mem_singleton.mp hpkg' ▸ hintact) pkg (List.mem_singleton_self pkg)
  exact ⟨pkg, hpkg, hintact', pkgs, List.mem_append_left _ hsigned, hmem⟩

theorem fetch_triple {installPkgs : List Package} (hsorted : ∀ item ∈ items, isForward item.action = true → ∃ pkg, item.pkg = some pkg ∧ pkg ∈ installPkgs) :
    Triple (cli.Knows items fun log => Unsigned log ∧ cli.Agreed log) (cli.fetch items installPkgs) (fun _ => cli.Knows items (Ready cli items))
      (fun _ => cli.Safe items) := by
  refine Triple.ite (fun hempty => Triple.pure fun s hs => hs.mono fun log h => ⟨h.2, fun hne => absurd (List.isEmpty_iff.mp hempty) hne⟩) fun _ => ?_
  have hF : Stable fun log => Unsigned log ∧ cli.Agreed log := stable_unsigned.and stable_agreed
  have hdownload : Triple (cli.Knows items fun log => Unsigned log ∧ cli.Agreed log) (cli.download installPkgs)
      (fun _ => cli.Knows items fun log => (Unsigned log ∧ cli.Agreed log) ∧ Fetched cli installPkgs log) (fun _ => cli.Safe items) := by
    refine Triple.ite (fun hempty => Triple.pure fun s hs => hs.mono fun log h => ⟨h, fun pkg hpkg => ?_⟩) fun _ => downloadPackages_triple hF installPkgs
    rw [List.isEmpty_iff.mp hempty] at hpkg
    exact absurd hpkg List.not_mem_nil
  refine Triple.bind hdownload fun _ => ?_
  refine (gpgsigcheck_triple (G := fun log => cli.Agreed log ∧ Fetched cli installPkgs log) (fun log h => h.1.1) installPkgs fun log h => ?_).weaken (fun _ hs => hs)
    (fun _ s hs => hs.mono fun log h => ⟨h.1.1, fun _ item hitem hforward => ?_⟩) fun _ _ hs => hs
  · refine ⟨fun hwanted => List.mem_append_left _ (h.1.2 hwanted), fun pkg hpkg => ?_⟩
    rcases h.2 pkg hpkg with hlocal | hverified | ⟨list, hdownloaded, hmem⟩
    · exact .inl hlocal
    · exact .inr (.inl (List.mem_append_left _ hverified))
    · exact .inr (.inr ⟨list, List.mem_append_left _ hdownloaded, hmem⟩)
  · obtain ⟨pkg, hpkg, hmem⟩ := hsorted item hitem hforward
    exact ⟨pkg, hpkg, h.1.2 pkg hmem, installPkgs, h.2, hmem⟩

/-- What is known once rpm has run, where it was to run. -/
def Ran (cli : BaseCli ω) (items : List Item) (log : List Entry) : Prop :=
  cli.conf.test = false → .saved ∈ log ∧ ∃ calls, DoTransaction.populateRpmTs cli.conf items = .ok calls ∧ .ran calls ∈ log ∧ .succeeded ∈ log

theorem rpmTransaction_triple (hdownloadonly : cli.conf.downloadonly = false) (hne : items ≠ []) :
    Triple (cli.Knows items (Ready cli items)) (cli.rpmTransaction items) (fun _ => cli.Knows items fun log => Ready cli items log ∧ Ran cli items log)
      (fun _ => cli.Safe items) := by
  refine Triple.bind (computed_triple _) fun calls => triple_of_fact fun hcalls => ?_
  refine Triple.bind (call_triple _) fun problems => Triple.bind (refuse_triple _ _) fun _ => triple_of_fact fun _ => ?_
  refine Triple.bind (call_triple _) fun failed => Triple.bind (refuse_triple _ _) fun _ => triple_of_fact fun _ => ?_
  refine Triple.ite (fun htest => Triple.pure fun _ hs => hs.mono fun _ h => ⟨h, fun hfalse => absurd htest (by simp [hfalse])⟩) fun htest => ?_
  rw [Bool.not_eq_true] at htest
  have hsaved : ∀ log, Ready cli items log → cli.Allowed items log .saved := fun log h => ⟨h.1, hdownloadonly, fun hne => ⟨htest, h.2 hne⟩⟩
  refine Triple.bind (enter_triple (fun _ => by simp) stable_ready hsaved) fun _ => ?_
  have hran : ∀ log, Ready cli items log ∧ .saved ∈ log → cli.Allowed items log (.ran calls) :=
    fun log h => ⟨h.1.1, hdownloadonly, htest, h.1.2 hne, h.2, hcalls⟩
  refine Triple.bind (enter_triple (fun _ => by simp) (stable_ready.and (stable_mem .saved)) hran) fun _ => ?_
  refine Triple.bind (call_triple _) fun failed => Triple.bind (refuse_triple _ _) fun _ => triple_of_fact fun _ => ?_
  have hG : Stable fun log => (Ready cli items log ∧ .saved ∈ log) ∧ .ran calls ∈ log := (stable_ready.and (stable_mem .saved)).and (stable_mem (.ran calls))
  have hsucceeded : ∀ log, (Ready cli items log ∧ .saved ∈ log) ∧ .ran calls ∈ log → cli.Allowed items log .succeeded := fun log h => ⟨calls, h.2⟩
  refine (enter_triple (fun _ => by simp) hG hsucceeded).weaken (fun _ hs => hs) (fun _ _ hs => hs.mono fun log h => ?_) fun _ _ hs => hs
  exact ⟨h.1.1.1, fun _ => ⟨h.1.1.2, calls, hcalls, h.1.2, h.2⟩⟩

theorem done_of_ran {log : List Entry} (hne : items ≠ []) (hready : Ready cli items log) (hran : Ran cli items log) : cli.Done items log where
  agreed := fun _ => hready.1
  cleared := hready.2
  ran := fun _ _ htest => (hran htest).2
  saved := fun _ _ htest => (hran (htest hne)).1

theorem done_of_saved {log : List Entry} (hnil : items = []) (hready : Ready cli items log) (hsaved : .saved ∈ log) : cli.Done items log where
  agreed := fun _ => hready.1
  cleared := hready.2
  ran := fun hne => absurd hnil hne
  saved := fun _ _ _ => hsaved

theorem done_of_downloadonly {log : List Entry} (hdownloadonly : cli.conf.downloadonly = true) (hready : Ready cli items log) : cli.Done items log where
  agreed := fun _ => hready.1
  cleared := hready.2
  ran := fun _ hfalse => absurd hdownloadonly (by simp [hfalse])
  saved := fun _ hfalse => absurd hdownloadonly (by simp [hfalse])

theorem done_of_not_pending {log : List Entry} (hpending : DoTransaction.pending cli.conf items ≠ true) : cli.Done items log := by
  have hnil : items = [] := by
    by_contra hne
    exact hpending (by simp [DoTransaction.pending, hne])
  exact { agreed := fun h => absurd h hpending, cleared := fun hne => absurd hnil hne, ran := fun hne => absurd hnil hne, saved := fun h => absurd h hpending }

theorem baseDoTransaction_triple (hdownloadonly : cli.conf.downloadonly = false) :
    Triple (cli.Knows items (Ready cli items)) (cli.baseDoTransaction items) (fun _ => cli.Knows items (cli.Done items)) (fun _ => cli.Safe items) := by
  refine Triple.ite (fun hempty => ?_) fun hne => ?_
  · have hnil := List.isEmpty_iff.mp hempty
    have hsaved : ∀ log, Ready cli items log → cli.Allowed items log .saved := fun log h => ⟨h.1, hdownloadonly, fun hne => absurd hnil hne⟩
    refine Triple.bind (enter_triple (fun _ => by simp) stable_ready hsaved) fun _ => Triple.ite (fun _ => ?_) fun _ => ?_
    · have hrecorded : ∀ log, Ready cli items log ∧ .saved ∈ log → cli.Allowed items log .recorded := fun log h => ⟨h.1.1, hdownloadonly, hnil, h.2⟩
      exact (enter_triple (fun _ => by simp) (stable_ready.and (stable_mem .saved)) hrecorded).weaken (fun _ hs => hs)
        (fun _ _ hs => hs.mono fun _ h => done_of_saved hnil h.1.1 h.1.2) fun _ _ hs => hs
    · exact Triple.pure fun _ hs => hs.mono fun _ h => done_of_saved hnil h.1 h.2
  · have hne' : items ≠ [] := fun hnil => hne (List.isEmpty_iff.mpr hnil)
    exact (rpmTransaction_triple hdownloadonly hne').weaken (fun _ hs => hs) (fun _ _ hs => hs.mono fun _ h => done_of_ran hne' h.1 h.2) fun _ _ hs => hs

theorem doTransaction_triple :
    Triple (cli.Knows items Unsigned) (cli.doTransaction items) (fun _ => cli.Knows items (cli.Done items)) (fun _ => cli.Safe items) := by
  refine Triple.bind (refuse_triple _ _) fun _ => triple_of_fact fun _ => Triple.bind (computed_triple _) fun sorted => triple_of_fact fun hsorted => ?_
  refine Triple.ite (fun _ => ?_) fun hpending => Triple.pure fun _ hs => hs.mono fun _ _ => done_of_not_pending hpending
  refine Triple.bind (computed_triple _) fun _ => triple_of_fact fun hcheck => Triple.bind (confirm_triple stable_unsigned) fun _ => ?_
  refine Triple.bind (unlock_triple (stable_unsigned.and stable_agreed) (fun _ h => h.2) hcheck) fun _ => ?_
  refine Triple.bind (fetch_triple (installPkgs_of_sortItems hsorted)) fun _ => Triple.ite (fun hdownloadonly => ?_) fun hdownloadonly => ?_
  · exact Triple.pure fun _ hs => hs.mono fun _ h => done_of_downloadonly hdownloadonly h
  · exact baseDoTransaction_triple (Bool.eq_false_of_not_eq_true hdownloadonly)

/-- Nothing has been done, and no signature checked. -/
theorem knows_unsigned {s : State ω} (hlog : s.log = []) (htrace : s.gpg.trace = []) : cli.Knows items Unsigned s := by
  refine ⟨⟨hlog ▸ guarded_nil, fun pkgs hmem => ?_, fun after key before heq => ?_⟩, fun pkgs hmem => ?_⟩
  · exact absurd (hlog ▸ hmem) List.not_mem_nil
  · exact absurd (htrace ▸ heq) (by simp)
  · exact absurd (hlog ▸ hmem) List.not_mem_nil

/-! ### What reaches rpm -/

theorem populateItem_key {item : Item} {n k : Nat} {call : TsCall} (h : Transaction.populateItem item n = some call) (hk : call.key = some k) :
    n = k ∧ isForward item.action = true := by
  rw [Transaction.populateItem] at h
  cases haction : item.action <;> rw [haction] at h <;> first | cases h; cases hk; exact ⟨rfl, rfl⟩ | cases h; cases hk | cases h

theorem populateItem_of_populate {conf : DoTransaction.Conf} {item : Item} {n : Nat} {call : TsCall} {safe : Bool}
    (h : DoTransaction.populate conf item n = .ok (some call, safe)) : Transaction.populateItem item n = some call := by
  rw [DoTransaction.populate] at h
  cases hitem : Transaction.populateItem item n with
  | none =>
      rw [hitem] at h
      cases h
  | some call' =>
      rw [hitem] at h
      dsimp only at h
      cases hask : DoTransaction.ask item with
      | error e =>
          rw [hask] at h
          cases h
      | ok pkg =>
          rw [hask, Fallible.ok_bind, DoTransaction.refuse] at h
          split_ifs at h with hforward hheader
          · cases h
          · cases h
            rfl
          · cases h
            rfl

/-- The key of a call that installs is the place of a forward item. -/
theorem forward_of_populateRpmTs {calls : List TsCall} (h : DoTransaction.populateRpmTs cli.conf items = .ok calls) {k : Nat}
    (hk : k ∈ calls.filterMap TsCall.key) : ∃ item ∈ items, items[k]? = some item ∧ isForward item.action = true := by
  rw [DoTransaction.populateRpmTs] at h
  cases hmap : items.zipIdx.mapM fun entry => DoTransaction.populate cli.conf entry.1 entry.2 with
  | error e =>
      rw [hmap] at h
      cases h
  | ok found =>
      rw [hmap, Fallible.ok_bind] at h
      have hcalls : found.filterMap Prod.fst = calls := by
        rw [DoTransaction.refuse] at h
        split_ifs at h
        · cases h
        · exact Except.ok.inj h
      obtain ⟨call, hcall, hkey⟩ := List.mem_filterMap.mp hk
      rw [← hcalls] at hcall
      obtain ⟨⟨call', safe⟩, hfound, rfl⟩ := List.mem_filterMap.mp hcall
      obtain ⟨⟨item, n⟩, hentry, hpopulate⟩ := Fallible.exists_of_mem_mapM hmap _ hfound
      obtain ⟨rfl, hforward⟩ := populateItem_key (populateItem_of_populate hpopulate) hkey
      have hat := List.mk_mem_zipIdx_iff_getElem?.mp hentry
      exact ⟨item, List.mem_of_getElem? hat, hat, hforward⟩

/-- However a transaction ends: the system was changed only after the user had agreed and never for a download only; a test saved no module states and did not run rpm; every package that rpm was told to install is from the command line, was downloaded or has the right checksum, and its last signature check gave 0 where one is wanted; and every imported key was approved. -/
theorem doTransaction_safe (cli : BaseCli ω) (items : List Item) (gpg : Gpg.State ω) :
    Guarded (cli.Allowed items) (cli.outcome items gpg).log ∧ cli.gpg.conf.AllApproved (cli.outcome items gpg).gpg.trace ∧
      ∀ calls, .ran calls ∈ (cli.outcome items gpg).log → ∀ k ∈ calls.filterMap TsCall.key, ∃ item pkg, items[k]? = some item ∧ item.pkg = some pkg ∧
        cli.Intact (cli.outcome items gpg).log pkg ∧
          (cli.gpg.checkEnabled (cli.signature pkg) = true → Gpg.lastCheckSig (cli.signature pkg) (cli.outcome items gpg).gpg.trace = some 0) := by
  have hends : Triple (cli.Knows items Unsigned) (cli.doTransaction items) (fun _ => cli.Safe items) (fun _ => cli.Safe items) :=
    doTransaction_triple.weaken (fun _ hs => hs) (fun _ _ hs => hs.1) fun _ _ hs => hs
  have hsafe : cli.Safe items (cli.outcome items gpg) := hends.final (knows_unsigned rfl rfl)
  refine ⟨hsafe.guarded, hsafe.approved, fun calls hran k hk => ?_⟩
  obtain ⟨before, after, hsplit⟩ := List.append_of_mem hran
  obtain ⟨_, _, _, hcleared, _, hcalls⟩ := hsafe.guarded before (.ran calls) after hsplit
  obtain ⟨item, hitem, hat, hforward⟩ := forward_of_populateRpmTs hcalls hk
  obtain ⟨pkg, hpkg, hintact, pkgs, hsigned, hmem⟩ := hcleared item hitem hforward
  have hin : ∀ entry ∈ before, entry ∈ (cli.outcome items gpg).log := fun entry hentry => hsplit ▸ List.mem_append_left _ hentry
  exact ⟨item, pkg, hat, hpkg, hintact.mono hin, hsafe.passed pkgs (hin _ hsigned) pkg hmem⟩

end BaseCli

end Dnf.Cli.Gated
