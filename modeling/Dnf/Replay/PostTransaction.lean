import Dnf.Foundation.Log
import Dnf.Replay.Steps

/-!
# The extras check and the stored reasons

`run` identifies a package by parsing the text of its NEVRA, `post_transaction` by comparing `str(pkg)` with the texts themselves. The two caches are the texts of the accepted items, newest first; so a package that an item names is known to `post_transaction` exactly if some item spells it the way `str(pkg)` does, and the reason it gets is that of the last item that does so, not that of the last item that names it.
-/

namespace Dnf.Replay

open History Groups Foundation Foundation.Effect

namespace TransactionReplay

variable (replay : TransactionReplay)

/-- The item is one whose package must not count as an extra. -/
def RpmItem.listed (item : RpmItem) : Bool := !item.data.action.isText "Reason Change"

/-- The item is one whose reason is stored. -/
def RpmItem.storesReason (item : RpmItem) : Bool := item.data.action.isOneOf reasonActions

/-! ### The caches after a run -/

theorem caches_of_accepted {item : RpmItem} {s t : State} (hrun : replay.replayParsed item.data item.text item.nevra s = .ok () t) :
    t.nevraCache = (if replay.Found item.nevra ∧ item.listed then [item.text] else []) ++ s.nevraCache ∧
      t.nevraReasonCache = (if replay.Found item.nevra ∧ item.storesReason then [(item.text, item.data.reason)] else []) ++ s.nevraReasonCache := by
  rw [replayParsed] at hrun
  cases hlimit : replay.limitToRepo (replay.query item.nevra) item.data.repoId with
  | error e =>
      rw [hlimit, lift_error_bind] at hrun
      cases hrun
  | ok query =>
      obtain ⟨_, _, hnil⟩ := replay.limitToRepo_ok hlimit
      rw [hlimit, lift_ok_bind] at hrun
      by_cases hquery : query = []
      · have hfound : ¬replay.Found item.nevra := by
          rw [← query_ne_nil_iff, not_not]
          exact hnil.mp hquery
        rw [if_pos hquery] at hrun
        have hkeeps : Keeps (SameCaches s) (raiseOrWarn replay.skipUnavailable ("Cannot find rpm nevra \"" ++ item.text ++ "\".")) :=
          keeps_raiseOrWarn (fun _ _ h => ⟨h.1, h.2, h.3, h.4⟩) _ _
        have hsame := hkeeps.ok (.refl s) hrun
        simp only [hfound, false_and, if_false, List.nil_append]
        exact ⟨hsame.nevraCache, hsame.nevraReasonCache⟩
      · have hfound : replay.Found item.nevra := by
          rw [← query_ne_nil_iff]
          exact fun h => hquery (hnil.mpr h)
        rw [if_neg hquery, bind_apply, cacheNevra, modify_apply] at hrun
        have hsame := (replay.keeps_replayAction item.data item.text item.nevra query _).ok (.refl _) hrun
        rw [hsame.nevraCache, hsame.nevraReasonCache]
        simp only [hfound, true_and, RpmItem.listed, RpmItem.storesReason]
        constructor
        · cases item.data.action.isText "Reason Change" <;> rfl
        · cases item.data.action.isOneOf reasonActions <;> rfl

/-- The items of the file that name some package of the sack. -/
def foundItems (items : List Json) : List RpmItem := (items.filterMap replay.rpmItem).filter fun item => replay.Found item.nevra

theorem caches_of_allAccepted {items : List Json} {s t : State} (h : replay.AllAccepted items s t) :
    t.nevraCache = (((replay.foundItems items).filter (·.listed)).map (·.text)).reverse ++ s.nevraCache ∧
      t.nevraReasonCache = (((replay.foundItems items).filter (·.storesReason)).map fun item => (item.text, item.data.reason)).reverse ++ s.nevraReasonCache := by
  induction items generalizing s with
  | nil =>
      cases h
      exact ⟨rfl, rfl⟩
  | cons pkgData rest ih =>
      cases h with
      | accept hrun hrest =>
          obtain ⟨item, hitem⟩ := replay.exists_rpmItem hrun
          rw [replay.replayPkgAction_of_rpmItem hitem] at hrun
          obtain ⟨hcache, hreasons⟩ := replay.caches_of_accepted hrun
          obtain ⟨ihcache, ihreasons⟩ := ih hrest
          rw [ihcache, ihreasons, hcache, hreasons]
          have hfound : replay.foundItems (pkgData :: rest) = (if replay.Found item.nevra then [item] else []) ++ replay.foundItems rest := by
            rw [foundItems, List.filterMap_cons, hitem, List.filter_cons]
            simp only [decide_eq_true_eq]
            split_ifs <;> rfl
          rw [hfound]
          by_cases hf : replay.Found item.nevra
          · constructor
            · cases hl : item.listed <;> simp [hf, hl]
            · cases hr : item.storesReason <;> simp [hf, hr]
          · simp [hf]

/-- The other items leave the caches as the rpm items left them. -/
theorem caches_of_run {loaded : Loaded} {s t : State} (h : replay.AllAccepted loaded.rpms s t) :
    (final (replay.run loaded s)).nevraCache = t.nevraCache ∧ (final (replay.run loaded s)).nevraReasonCache = t.nevraReasonCache := by
  have hloop : ∀ kind items errors, Keeps (SameGoal t) (collect errorText (replay.replayItem kind) items errors) := by
    intro kind items errors
    refine Triple.collect (I := fun _ _ => SameGoal t) (fun _ data _ _ => ?_) errors
    refine (replay.keeps_replayItem kind data t).weaken (fun _ h => h) (fun _ _ h => h) fun e _ h => ?_
    cases errorText e <;> exact h
  have hrest : Keeps (SameGoal t) (do
      let errors ← collect errorText (replay.replayItem .group) loaded.groups []
      let errors ← collect errorText (replay.replayItem .environment) loaded.environments errors
      if errors = [] then pure () else throw (.transactionReplayError replay.options.filename errors)) := by
    refine (hloop .group loaded.groups []).bind fun errors => (hloop .environment loaded.environments errors).bind fun errors => ?_
    split_ifs
    · exact .pure _
    · exact .throw _
  have hnone : (loaded.rpms.map fun _ => (none : Option String)).reduceOption = [] := by
    simp [List.reduceOption]
  have hend := hrest.final (SameGoal.refl t)
  rw [run, bind_apply, Attempted.collect_eq h, hnone]
  exact ⟨hend.nevraCache, hend.nevraReasonCache⟩

/-! ### The loop of `post_transaction` -/

/-- The messages about the items of a resolved transaction. -/
def messages (s : State) (items : List TransactionItem) : List String :=
  items.filterMap fun tsi => tsi.pkg.bind fun pkg => replay.pulledIn s pkg.nevra.text tsi.action

def restored (s : State) (tsi : TransactionItem) : TransactionItem :=
  match tsi.pkg with
  | some pkg => { tsi with reason := replay.restoredReason s pkg.nevra.text tsi.action tsi.reason }
  | none => tsi

theorem postLoop_eq (items : List TransactionItem) (errors : List String) (done : List TransactionItem) (s : State) :
    items.foldlM replay.postItem (errors, done) s =
      .ok (errors ++ (if replay.options.ignoreExtras then [] else replay.messages s items), done ++ items.map (replay.restored s))
        { s with warnings := s.warnings ++ if replay.options.ignoreExtras then replay.messages s items else [] } := by
  induction items generalizing errors done s with
  | nil => simp [messages, pure_apply]
  | cons tsi rest ih =>
      obtain ⟨pkg, action, reason⟩ := tsi
      rw [List.foldlM_cons, bind_apply, postItem, List.map_cons]
      cases pkg with
      | none =>
          simp only [pure_apply]
          rw [ih, List.append_assoc]
          rfl
      | some pkg =>
          simp only [bind_apply, get_apply]
          cases hpulled : replay.pulledIn s pkg.nevra.text action with
          | none =>
              have hmessages : replay.messages s (⟨some pkg, action, reason⟩ :: rest) = replay.messages s rest := by
                simp [messages, hpulled]
              simp only [pure_apply]
              rw [ih, hmessages, List.append_assoc]
              rfl
          | some msg =>
              have hmessages : replay.messages s (⟨some pkg, action, reason⟩ :: rest) = msg :: replay.messages s rest := by
                simp [messages, hpulled]
              rw [hmessages]
              cases hextras : replay.options.ignoreExtras with
              | true =>
                  simp only [if_true, bind_apply, modify_apply, pure_apply]
                  rw [ih, hextras, if_pos rfl, if_pos rfl, List.append_assoc, List.append_assoc]
                  rfl
              | false =>
                  simp only [Bool.false_eq_true, if_false, pure_apply]
                  rw [ih, hextras, if_neg Bool.false_ne_true, if_neg Bool.false_ne_true, List.append_assoc, List.append_assoc]
                  rfl

/-- `post_transaction` reports the messages, as errors or as warnings, and gives every item its reason. -/
theorem postTransaction_eq (s : State) :
    replay.postTransaction s =
      if replay.options.ignoreExtras then
        .ok () { s with transaction := s.transaction.map (replay.restored s), warnings := s.warnings ++ replay.messages s s.transaction }
      else if replay.messages s s.transaction = [] then .ok () { s with transaction := s.transaction.map (replay.restored s) }
      else .error (.transactionReplayError replay.options.filename (replay.messages s s.transaction))
        { s with transaction := s.transaction.map (replay.restored s) } := by
  rw [postTransaction, bind_apply, get_apply]
  simp only [bind_apply, postLoop_eq, modify_apply, List.nil_append]
  cases replay.options.ignoreExtras with
  | true => rfl
  | false =>
      simp only [Bool.false_eq_true, if_false, List.append_nil]
      split_ifs <;> rfl

/-! ### What the two phases agree on -/

/-- The texts `post_transaction` reports from the state `s`: the errors it raises and the warnings it adds. -/
def reports (s : State) : EStateM.Result Exc State Unit → List String
  | .ok _ t => t.warnings.drop s.warnings.length
  | .error (.transactionReplayError _ errors) t => t.warnings.drop s.warnings.length ++ errors
  | .error _ t => t.warnings.drop s.warnings.length

/-- Some item of the file, other than a reason change, names the package. -/
def Listed (items : List Json) (n : Nevra) : Prop := ∃ item ∈ items.filterMap replay.rpmItem, item.listed = true ∧ item.nevra = n

instance (items : List Json) (n : Nevra) : Decidable (replay.Listed items n) := by
  unfold Listed
  infer_instance

/-- The reason stored for a package: that of the last item that names it, among those whose reason is stored. -/
def storedReason (items : List Json) (n : Nevra) : Option Reason :=
  Log.last (((items.filterMap replay.rpmItem).filter (·.storesReason)).map fun item => (item.nevra, item.data.reason)) n

/-- An `INSTALL` or `REMOVE` item takes the stored reason, any other one the stronger of the stored and the computed one. -/
def wantedReason (stored : Reason) (tsi : TransactionItem) : Reason :=
  if tsi.action ∈ [.install, .remove] then stored
  else if replay.lib.reasonCompare stored tsi.reason > 0 then stored else tsi.reason

/-- No package that the file names is reported, and every item of a package with a stored reason has the reason it should. -/
structure PostRight (items : List Json) (s : State) : Prop where
  extras : ∀ tsi ∈ s.transaction, ∀ pkg, tsi.pkg = some pkg → replay.Listed items pkg.nevra →
    extraMessage pkg.nevra.text ∉ reports s (replay.postTransaction s)
  reasons : List.Forall₂ (fun tsi tsi' => ∀ pkg stored, tsi.pkg = some pkg → replay.storedReason items pkg.nevra = some stored →
    tsi'.reason = replay.wantedReason stored tsi) s.transaction (final (replay.postTransaction s)).transaction

/-- The reason stored under a text. -/
def spelledReason (items : List Json) (text : String) : Option Reason :=
  Log.last (((replay.foundItems items).filter (·.storesReason)).map fun item => (item.text, item.data.reason)) text

/-- Every package of the sack that the file names is also spelled the way `str(pkg)` does, by an item that names some package, and the last item to store a reason under that text stores the reason of the last one to name the package. -/
structure SpelledOut (items : List Json) : Prop where
  listed : ∀ pkg ∈ replay.base.sack, replay.Listed items pkg.nevra → ∃ item ∈ replay.foundItems items, item.listed = true ∧ item.text = pkg.nevra.text
  reasons : ∀ pkg ∈ replay.base.sack, ∀ stored, replay.storedReason items pkg.nevra = some stored →
    replay.spelledReason items pkg.nevra.text = some stored

theorem reports_postTransaction (s : State) : reports s (replay.postTransaction s) = replay.messages s s.transaction := by
  rw [postTransaction_eq]
  split_ifs with hextras hnone
  · simp [reports]
  · simp [reports, hnone]
  · simp [reports]

theorem transaction_postTransaction (s : State) : (final (replay.postTransaction s)).transaction = s.transaction.map (replay.restored s) := by
  rw [postTransaction_eq]
  split_ifs <;> rfl

theorem extraMessage_injective {a b : String} (h : extraMessage a = extraMessage b) : a = b := by
  have hprefix := (String.append_left_inj _).mp h
  exact (String.append_right_inj _).mp hprefix

theorem mem_messages_iff {s : State} {items : List TransactionItem} {nevra : String} :
    extraMessage nevra ∈ replay.messages s items ↔ nevra ∉ s.nevraCache ∧ ∃ tsi ∈ items, ∃ pkg, tsi.pkg = some pkg ∧ pkg.nevra.text = nevra ∧
      (¬replay.options.ignoreInstalled ∨ tsi.action ∉ [.upgraded, .downgraded, .reinstalled]) := by
  simp only [messages, List.mem_filterMap, Option.bind_eq_some_iff, pulledIn, Option.ite_none_right_eq_some, Option.some.injEq]
  constructor
  · intro ⟨tsi, htsi, pkg, hpkg, ⟨hcache, haction⟩, hmessage⟩
    obtain rfl := extraMessage_injective hmessage
    exact ⟨hcache, tsi, htsi, pkg, hpkg, rfl, haction⟩
  · intro ⟨hcache, tsi, htsi, pkg, hpkg, htext, haction⟩
    subst htext
    exact ⟨tsi, htsi, pkg, hpkg, ⟨hcache, haction⟩, rfl⟩

/-! ### From the file to the caches -/

section Fresh

variable {loaded : Loaded} {s t : State} (hcache : s.nevraCache = []) (hreasons : s.nevraReasonCache = [])
  (haccepted : replay.AllAccepted loaded.rpms s t)

include hcache haccepted in
theorem mem_nevraCache_iff (text : String) :
    text ∈ (final (replay.run loaded s)).nevraCache ↔ ∃ item ∈ replay.foundItems loaded.rpms, item.listed = true ∧ item.text = text := by
  rw [(replay.caches_of_run haccepted).1, (replay.caches_of_allAccepted haccepted).1, hcache, List.append_nil]
  simp only [List.mem_reverse, List.mem_map, List.mem_filter, and_assoc]

include hreasons haccepted in
theorem lookup_nevraReasonCache (text : String) :
    (final (replay.run loaded s)).nevraReasonCache.lookup text = replay.spelledReason loaded.rpms text := by
  rw [(replay.caches_of_run haccepted).2, (replay.caches_of_allAccepted haccepted).2, hreasons, List.append_nil]
  rfl

include hreasons haccepted in
theorem restored_eq (resolved : List TransactionItem) (pkg : Package) (action : Action) (reason : Reason) :
    (replay.restored { final (replay.run loaded s) with transaction := resolved } ⟨some pkg, action, reason⟩).reason =
      match replay.spelledReason loaded.rpms pkg.nevra.text with
      | some stored => replay.wantedReason stored ⟨some pkg, action, reason⟩
      | none => reason := by
  rw [← replay.lookup_nevraReasonCache hreasons haccepted]
  show replay.restoredReason (final (replay.run loaded s)) pkg.nevra.text action reason = _
  rw [restoredReason]
  cases (final (replay.run loaded s)).nevraReasonCache.lookup pkg.nevra.text with
  | none => rfl
  | some stored =>
      simp only [wantedReason]
      split_ifs <;> simp_all

/-- What the file names, `post_transaction` recognises in every resolved transaction, and it gives the stored reasons, exactly if the file spells the packages out. -/
theorem postRight_iff_spelledOut (loaded : Loaded) (s t : State) (hcache : s.nevraCache = []) (hreasons : s.nevraReasonCache = [])
    (haccepted : replay.AllAccepted loaded.rpms s t) :
    (∀ resolved : List TransactionItem, (∀ tsi ∈ resolved, ∀ pkg, tsi.pkg = some pkg → pkg ∈ replay.base.sack) →
      replay.PostRight loaded.rpms { final (replay.run loaded s) with transaction := resolved }) ↔ replay.SpelledOut loaded.rpms := by
  constructor
  · intro hright
    have hone : ∀ pkg ∈ replay.base.sack, ∀ reason,
        replay.PostRight loaded.rpms { final (replay.run loaded s) with transaction := [⟨some pkg, .install, reason⟩] } := by
      intro pkg hpkg reason
      refine hright _ fun tsi htsi pkg' hpkg' => ?_
      obtain rfl := List.mem_singleton.mp htsi
      obtain rfl := Option.some.inj hpkg'
      exact hpkg
    constructor
    · intro pkg hpkg hlisted
      by_contra hmissing
      refine (hone pkg hpkg .unknown).extras _ List.mem_cons_self pkg rfl hlisted ?_
      rw [reports_postTransaction, mem_messages_iff]
      exact ⟨fun hmem => hmissing ((replay.mem_nevraCache_iff hcache haccepted _).mp hmem), _, List.mem_cons_self, pkg, rfl, rfl, .inr (by simp)⟩
    · intro pkg hpkg stored hstored
      have hreason : ∀ reason, (replay.restored { final (replay.run loaded s) with transaction := [⟨some pkg, .install, reason⟩] }
          ⟨some pkg, .install, reason⟩).reason = stored := by
        intro reason
        have hrestored := (hone pkg hpkg reason).reasons
        rw [transaction_postTransaction] at hrestored
        cases hrestored with
        | cons hfirst _ => exact hfirst pkg stored rfl hstored
      simp only [replay.restored_eq hreasons haccepted] at hreason
      cases hspelled : replay.spelledReason loaded.rpms pkg.nevra.text with
      | none =>
          -- an item keeps whatever reason was computed for it, so two computed reasons refute the statement
          simp only [hspelled] at hreason
          exact absurd ((hreason .unknown).trans (hreason .user).symm) (by decide)
      | some found =>
          simp only [hspelled] at hreason
          rw [← hreason .unknown]
          rfl
  · intro hspelled resolved hsack
    constructor
    · intro tsi htsi pkg hpkg hlisted hmem
      rw [reports_postTransaction, mem_messages_iff] at hmem
      exact hmem.1 ((replay.mem_nevraCache_iff hcache haccepted _).mpr (hspelled.listed pkg (hsack tsi htsi pkg hpkg) hlisted))
    · rw [transaction_postTransaction, List.forall₂_map_right_iff]
      refine List.forall₂_same.mpr fun tsi htsi pkg stored hpkg hstored => ?_
      obtain ⟨_, action, reason⟩ := tsi
      obtain rfl := hpkg
      rw [replay.restored_eq hreasons haccepted, hspelled.reasons pkg (hsack _ htsi pkg rfl) stored hstored]

end Fresh

/-! ### One package in two spellings -/

def pepper : Package := ⟨⟨"pepper", 0, "20", "0", "x86_64"⟩, "main"⟩

/-- A system where `pepper` can be installed. -/
def pepperReplay : TransactionReplay where
  base :=
    { lib := .plain, codes := ⟨fun _ => 4, fun _ => 4⟩, strict := true, sack := [pepper], isInstallonly := fun _ => false, comps := ⟨[], []⟩
      swdb := ⟨fun _ => none, fun _ => none, fun _ => [], fun _ => [], fun _ => .unknown⟩ }
  options := ⟨"transaction.json", false, false, false⟩

/-- An rpm object that installs the package of this text. -/
def installItem (text : String) : Json :=
  .obj [("action", .str "Install"), ("nevra", .str text), ("reason", .str "user"), ("repo_id", .str "main")]

theorem allAccepted_of_okWith (replay : TransactionReplay) (pkgData : Json) (s : State)
    (h : okWith (fun _ _ => true) (replay.replayPkgAction pkgData s) = true) : ∃ t, replay.AllAccepted [pkgData] s t := by
  obtain ⟨_, t, hrun, _⟩ := exists_of_okWith h
  exact ⟨t, .accept hrun .nil⟩

/-- `str(pkg)` leaves out the epoch 0: a file with that spelling is recognised. -/
theorem postRight_pepper : ∃ t, pepperReplay.AllAccepted [installItem "pepper-20-0.x86_64"] {} t ∧
    ∀ resolved : List TransactionItem, (∀ tsi ∈ resolved, ∀ pkg, tsi.pkg = some pkg → pkg ∈ pepperReplay.base.sack) →
      pepperReplay.PostRight [installItem "pepper-20-0.x86_64"]
        { final (pepperReplay.run ⟨[installItem "pepper-20-0.x86_64"], [], []⟩ {}) with transaction := resolved } := by
  obtain ⟨t, haccepted⟩ := allAccepted_of_okWith pepperReplay (installItem "pepper-20-0.x86_64") {} (by decide +kernel)
  refine ⟨t, haccepted, (pepperReplay.postRight_iff_spelledOut ⟨[installItem "pepper-20-0.x86_64"], [], []⟩ {} t rfl rfl haccepted).mpr ⟨?_, ?_⟩⟩
  · intro pkg hpkg _
    obtain rfl := List.mem_singleton.mp hpkg
    decide +kernel
  · intro pkg hpkg stored hstored
    obtain rfl := List.mem_singleton.mp hpkg
    rw [← hstored]
    decide +kernel

/-- The documented format writes the epoch: the package the file installs is reported as an extra. -/
theorem not_postRight_epoch : ∃ t, pepperReplay.AllAccepted [installItem "pepper-0:20-0.x86_64"] {} t ∧
    ¬pepperReplay.PostRight [installItem "pepper-0:20-0.x86_64"]
      { final (pepperReplay.run ⟨[installItem "pepper-0:20-0.x86_64"], [], []⟩ {}) with transaction := [⟨some pepper, .install, .user⟩] } := by
  obtain ⟨t, haccepted⟩ := allAccepted_of_okWith pepperReplay (installItem "pepper-0:20-0.x86_64") {} (by decide +kernel)
  have hlisted : pepperReplay.Listed [installItem "pepper-0:20-0.x86_64"] pepper.nevra := by decide +kernel
  exact ⟨t, haccepted, fun hright => hright.extras _ List.mem_cons_self pepper rfl hlisted (by decide +kernel)⟩

end TransactionReplay

end Dnf.Replay
