import Dnf.Transaction.Announced

/-!
# A whole run of rpm

rpm starts the transaction, runs the scriptlets that come before it, announces one element after the other and calls back for each until the next is announced, and runs the scriptlets that come after. In such a run no callback fails: each element is logged once, its progress is reported under its own number, and each file that is opened is closed.
-/

namespace Dnf.Transaction.Callback

open Foundation Foundation.Effect
open History (Action isForward isBackward)

variable {rpm : Rpm}

/-! ### What rpm calls -/

inductive FileOp
  | failed
  | opened (fd : Nat)
  | closed
  deriving DecidableEq

def Event.fileOp : Event → Option FileOp
  | .instOpenFile _ (.error _) => some .failed
  | .instOpenFile _ (.ok fd) => some (.opened fd)
  | .instCloseFile => some .closed
  | _ => none

/-- A file that could be opened is closed before the next one. -/
inductive Bracketed : List FileOp → Prop
  | nil : Bracketed []
  | failed {ops : List FileOp} (hrest : Bracketed ops) : Bracketed (.failed :: ops)
  | pair (fd : Nat) {ops : List FileOp} (hrest : Bracketed ops) : Bracketed (.opened fd :: .closed :: ops)

def Event.cbkey : Event → Option Key
  | .elemProgress key _ => some key
  | .instOpenFile key _ => some key
  | .instProgress _ _ key => some key
  | .uninstProgress _ _ key => some key
  | .cpioError key => some key
  | .unpackError key => some key
  | .scriptError _ key => some key
  | .scriptStart key => some key
  | _ => none

/-- The progress of an item is reported. -/
def Event.reports : Event → Bool
  | .instProgress _ _ _ => true
  | .uninstProgress _ _ _ => true
  | _ => false

/-- Outside of the elements rpm runs scriptlets of new packages, whose files it has to open for it. -/
structure Event.Outside (event : Event) : Prop where
  announced : event.announced = none
  total : event.total = none
  keys : ∀ key, event.cbkey = some key → ∃ tsi pkg, key = .tsi tsi ∧ tsi.pkg = some pkg
  reports : event.reports = false
  instStop : event ≠ .instStop

/-- Until the next announcement rpm calls back with the key of the element. -/
structure Event.Within (key : Key) (event : Event) : Prop where
  announced : event.announced = none
  total : event.total = none
  keys : ∀ key', event.cbkey = some key' → key' = key

/-- An element and what rpm calls back for it. -/
structure Part where
  key : Key
  inner : List Event

def partsFrom (i : Nat) : List Part → List Event
  | [] => []
  | part :: parts => .elemProgress part.key i :: part.inner ++ partsFrom (i + 1) parts

structure Calls where
  before : List Event
  parts : List Part
  after : List Event

def Calls.events (calls : Calls) : List Event :=
  .transStart calls.parts.length :: calls.before ++ partsFrom 0 calls.parts ++ calls.after

structure Calls.Proper (calls : Calls) : Prop where
  before : ∀ event ∈ calls.before, event.Outside
  inner : ∀ part ∈ calls.parts, ∀ event ∈ part.inner, event.Within part.key
  after : ∀ event ∈ calls.after, event.Outside
  files : Bracketed (calls.events.filterMap Event.fileOp)

/-- The key of an element: the item of a new package, and else no item. -/
def Keyed (items : List Item) (el : Element) (key : Key) : Prop :=
  match el.key with
  | some k => ∃ tsi, items[k]? = some tsi ∧ key = .tsi tsi
  | none => ∀ tsi, key ≠ .tsi tsi

/-- The item that an element stands for: its own, or the first one under its NEVRA. -/
def Rpm.itemOf (rpm : Rpm) (el : Element) : Option Item :=
  match el.key with
  | some k => rpm.transaction[k]?
  | none => rpm.transaction.find? fun tsi => rpmActionsSet tsi.action && tsi.nevra.text == el.nevra

/-- The elements of rpm, in its order, with the keys of their parts. -/
structure Calls.Of (calls : Calls) (rpm : Rpm) (elements : List Element) : Prop where
  nevras : rpm.ts.map Te.nevra = elements.map Element.nevra
  keyed : List.Forall₂ (Keyed rpm.transaction) elements (calls.parts.map Part.key)

/-- The package and the action that an element is shown with. -/
def Stands (rpm : Rpm) (el : Element) (first : Package × Action) : Prop :=
  ∃ tsi, rpm.itemOf el = some tsi ∧ tsi.pkg = some first.1 ∧ tsi.action = first.2

theorem rpmActionsSet_of_isBackward {action : Action} (h : isBackward action = true) : rpmActionsSet action = true := by
  cases action <;> first | rfl | cases h

theorem firstOf_eq {tsi : Item} {pkg : Package} (hpkg : tsi.pkg = some pkg) (rest : List Item) : firstOf (tsi :: rest) = .ok (pkg, tsi.action) := by
  rw [firstOf, pkgOf, hpkg]
  rfl

theorem searched_eq {te : Te} {tsi : Item} {pkg : Package} {rest : List Item} (hitems : rpm.itemsOf te = tsi :: rest) (hpkg : tsi.pkg = some pkg) (cbkey : Key) :
    rpm.searched te cbkey = .ok (pkg, tsi.action) := by
  rw [Rpm.searched, hitems, firstOf_eq hpkg]
  rfl

theorem concerned_eq_searched {key : Key} (hkey : ∀ tsi, key ≠ .tsi tsi) (te : Te) : rpm.concerned (some te) key = rpm.searched te key := by
  cases key with
  | tsi tsi => exact absurd rfl (hkey tsi)
  | name name => rfl
  | none => rfl

/-- Where the elements correspond to the items, a callback knows what it is about. -/
theorem exists_stands {elements : List Element} (hcorresponds : Corresponds rpm.transaction elements)
    (hattached : ∀ tsi ∈ rpm.transaction, tsi.action ≠ .reasonChange → tsi.pkg ≠ none) {el : Element} (hel : el ∈ elements) {te : Te}
    (hte : te.nevra = el.nevra) {key : Key} (hkey : Keyed rpm.transaction el key) :
    ∃ first, rpm.concerned (some te) key = .ok first ∧ Stands rpm el first := by
  rw [Keyed] at hkey
  cases helement : el.key with
  | some k =>
      rw [helement] at hkey
      obtain ⟨tsi, htsi, rfl⟩ := hkey
      obtain ⟨tsi', htsi', hforward⟩ := (hcorresponds.keys k).mp (List.mem_filterMap.mpr ⟨el, hel, helement⟩)
      obtain rfl : tsi = tsi' := Option.some.inj (htsi.symm.trans htsi')
      have hpkg := hattached tsi (List.mem_of_getElem? htsi) fun hreason => by rw [hreason] at hforward; cases hforward
      obtain ⟨pkg, hpkg⟩ := Option.ne_none_iff_exists'.mp hpkg
      refine ⟨(pkg, tsi.action), firstOf_eq hpkg [], tsi, ?_, hpkg, rfl⟩
      rw [Rpm.itemOf, helement]
      exact htsi
  | none =>
      rw [helement] at hkey
      have hmem : el.nevra ∈ (rpm.transaction.filter fun item => isBackward item.action).map fun item => item.nevra.text := by
        rw [← hcorresponds.erasures.mem_iff]
        exact List.mem_map_of_mem (List.mem_filter.mpr ⟨hel, by rw [helement]; rfl⟩)
      obtain ⟨item, hitem, htext⟩ := List.mem_map.mp hmem
      obtain ⟨hitem, hbackward⟩ := List.mem_filter.mp hitem
      have hcandidate : item ∈ rpm.itemsOf te := by
        refine List.mem_filter.mpr ⟨hitem, ?_⟩
        rw [rpmActionsSet_of_isBackward hbackward, htext, hte, beq_self_eq_true, Bool.and_self]
      obtain ⟨tsi, rest, hitems⟩ := List.exists_cons_of_ne_nil (List.ne_nil_of_mem hcandidate)
      have htsi := List.mem_filter.mp (hitems ▸ List.mem_cons_self : tsi ∈ rpm.itemsOf te)
      have hpkg := hattached tsi htsi.1 fun hreason => by
        have hset := htsi.2
        rw [hreason] at hset
        cases hset
      obtain ⟨pkg, hpkg⟩ := Option.ne_none_iff_exists'.mp hpkg
      refine ⟨(pkg, tsi.action), (concerned_eq_searched hkey te).trans (searched_eq hitems hpkg key), tsi, ?_, hpkg, rfl⟩
      rw [Rpm.itemOf, helement, ← hte, ← List.head?_filter]
      exact congrArg List.head? hitems

/-! ### One callback of the run -/

def Shown.filed : Shown → Option (Package × Action)
  | .filelog pkg action => some (pkg, action)
  | _ => none

def Shown.isPost : Shown → Bool
  | .progress _ .post _ _ _ _ => true
  | _ => false

/-- The progress of an item has the number of its element. -/
def Shown.Right (firsts : List (Package × Action)) : Shown → Prop
  | .progress (.package pkg) (.item action) _ _ tsDone tsTotal =>
      tsTotal = some firsts.length ∧ ∃ i, tsDone = some (i + 1) ∧ firsts[i]? = some (pkg, action)
  | _ => True

/-- The file operations that are left, with the file that is open. -/
def Filing (s : State) (ops : List FileOp) : Prop :=
  match s.fd with
  | none => s.opened = s.closed ∧ Bracketed ops
  | some fd => s.opened = s.closed ++ [fd] ∧ ∃ rest, ops = .closed :: rest ∧ Bracketed rest

/-- After the announcement of `i` elements, of which the last one stands for `firsts[i - 1]`. -/
structure At (rpm : Rpm) (firsts : List (Package × Action)) (i posts : Nat) (ops : List FileOp) (s : State) : Prop where
  sound : Sound rpm s.tsiCache
  numbers : s.numbers = (true, rpm.ts, i - 1, i, firsts.length)
  faults : s.faults = []
  filed : s.shown.filterMap Shown.filed = firsts.take i
  right : ∀ shown ∈ s.shown, shown.Right firsts
  posts : s.shown.countP Shown.isPost = posts
  filing : Filing s ops

/-- From `s` to `t` nothing fails, and only entries are added that log no element and have the right numbers. -/
def Adds (firsts : List (Package × Action)) (s t : State) (posts : Nat) : Prop :=
  t.faults = s.faults ∧ ∃ new, t.shown = s.shown ++ new ∧ (∀ shown ∈ new, shown.filed = none ∧ shown.Right firsts) ∧ new.countP Shown.isPost = posts

variable {firsts : List (Package × Action)}

theorem adds_same {s t : State} (hfaults : t.faults = s.faults) (hshown : t.shown = s.shown) : Adds firsts s t 0 :=
  ⟨hfaults, [], by rw [hshown, List.append_nil], fun _ h => absurd h List.not_mem_nil, rfl⟩

theorem adds_show (s : State) {shown : Shown} (hfiled : shown.filed = none) (hright : shown.Right firsts) :
    Adds firsts s (s.show shown) (if shown.isPost then 1 else 0) := by
  refine ⟨rfl, [shown], rfl, fun entry hentry => ?_, List.countP_singleton⟩
  rw [List.mem_singleton.mp hentry]
  exact ⟨hfiled, hright⟩

theorem Adds.trans {s t u : State} {m n : Nat} (h : Adds firsts s t m) (h' : Adds firsts t u n) : Adds firsts s u (m + n) := by
  obtain ⟨hfaults, new, hshown, hnew, hposts⟩ := h
  obtain ⟨hfaults', new', hshown', hnew', hposts'⟩ := h'
  refine ⟨hfaults'.trans hfaults, new ++ new', ?_, fun shown hmem => ?_, ?_⟩
  · rw [hshown', hshown, List.append_assoc]
  · exact (List.mem_append.mp hmem).elim (hnew shown) (hnew' shown)
  · rw [List.countP_append, hposts, hposts']

theorem adds_read (s : State) : Adds firsts s s.read 0 := by
  rw [State.read]
  split_ifs with hempty
  · exact adds_same rfl rfl
  · refine ⟨rfl, [.scriptout s.pipe], rfl, fun shown hshown => ?_, rfl⟩
    rw [List.mem_singleton.mp hshown]
    exact ⟨rfl, trivial⟩

theorem adds_settle (s : State) (cache : Option (List Item)) {first : Package × Action} {about : Except Exc (Package × Action)} (habout : about = .ok first)
    {g : Package × Action → State → State} {posts : Nat} (hg : Adds firsts { s with tsiCache := cache } (g first { s with tsiCache := cache }) posts) :
    Adds firsts s (s.settle cache about g) posts := by
  subst habout
  have hcache : Adds firsts s { s with tsiCache := cache } 0 := adds_same rfl rfl
  exact Nat.zero_add posts ▸ hcache.trans hg

theorem adds_opens (s : State) (file : Except String Nat) (first : Package × Action) : Adds firsts s (s.opens rpm file first) 0 := by
  cases file with
  | error e => exact adds_show s rfl trivial
  | ok fd =>
      rw [State.opens]
      split_ifs <;> exact adds_same rfl rfl

theorem adds_script (s : State) (about : About) : Adds firsts s (s.script about) 0 := by
  rw [State.script]
  exact adds_show s rfl (by cases about <;> trivial)

/-- A callback that announces nothing and knows what it is about. -/
theorem plain_adds (cache : Option (List Item)) {s : State} {event : Event} (hannounced : event.announced = none) (htotal : event.total = none)
    (habout : ∀ key, event.cbkey = some key → ∃ first, rpm.about s key = .ok first ∧ (event.reports = true →
      (Shown.progress (.package first.1) (.item first.2) none none (some s.completeActions) (some s.totalActions)).Right firsts))
    (hopen : event = .instCloseFile → s.fd ≠ none) :
    Adds firsts s (plain rpm cache s event)
      (if event = .instStop ∧ (rpm.test || !s.transRunning) = false ∧ s.completeActions = s.totalActions then 1 else 0) := by
  cases event with
  | write text => exact adds_same rfl rfl
  | transStart total => cases htotal
  | transProgress amount total => exact adds_show s rfl trivial
  | elemProgress key index => cases hannounced
  | instOpenFile key file =>
      obtain ⟨first, hfirst, _⟩ := habout key rfl
      exact adds_settle s cache hfirst (adds_opens _ file first)
  | instCloseFile =>
      rw [plain]
      cases hfd : s.fd with
      | none => exact absurd hfd (hopen rfl)
      | some fd => exact adds_same rfl rfl
  | instStop =>
      rw [plain]
      by_cases hstopped : (rpm.test || !s.transRunning) = true
      · rw [if_pos hstopped, if_neg fun h => by rw [hstopped] at h; cases h.2.1]
        exact adds_same rfl rfl
      · rw [if_neg hstopped]
        rw [Bool.not_eq_true] at hstopped
        by_cases hlast : s.completeActions = s.totalActions
        · rw [if_pos hlast, if_pos ⟨rfl, hstopped, hlast⟩]
          have hpost : Adds firsts s.read (s.read.show (.progress .none .post none none none none)) 1 := adds_show _ rfl trivial
          exact (adds_read s).trans hpost
        · rw [if_neg hlast, if_neg fun h => hlast h.2.2]
          exact adds_read s
  | instProgress amount total key =>
      obtain ⟨first, hfirst, hright⟩ := habout key rfl
      exact adds_settle s cache hfirst (adds_show _ rfl (hright rfl))
  | uninstStart => exact adds_same rfl rfl
  | uninstStop =>
      have hstop : Adds firsts s (if rpm.test then s else s.read) 0 := by
        split_ifs
        · exact adds_same rfl rfl
        · exact adds_read s
      exact hstop
  | uninstProgress amount total key =>
      obtain ⟨first, hfirst, hright⟩ := habout key rfl
      exact adds_settle s cache hfirst (adds_show _ rfl (hright rfl))
  | cpioError key =>
      obtain ⟨first, hfirst, _⟩ := habout key rfl
      exact adds_settle s cache hfirst (adds_show _ rfl trivial)
  | unpackError key =>
      obtain ⟨first, hfirst, _⟩ := habout key rfl
      exact (adds_read s).trans (adds_settle s.read cache hfirst (g := fun first s => s.show (.error (unpackMessage first.1))) (adds_show _ rfl trivial))
  | scriptError amount key =>
      obtain ⟨first, hfirst, _⟩ := habout key rfl
      exact adds_settle s cache hfirst (adds_show _ rfl trivial)
  | scriptStart key =>
      obtain ⟨first, hfirst, _⟩ := habout key rfl
      have hscript : Adds firsts s (plain rpm cache s (.scriptStart key)) 0 := by
        rw [plain]
        split_ifs
        · exact adds_script s _
        · exact adds_settle s cache hfirst (adds_script _ _)
      exact hscript
  | scriptStop => exact adds_read s
  | other => exact adds_same rfl rfl

/-! ### Files -/

def State.files (s : State) : Option Nat × List Nat × List Nat := (s.fd, s.opened, s.closed)

theorem read_files (s : State) : s.read.files = s.files := by
  rw [State.read]
  split_ifs <;> rfl

theorem settle_files (s : State) (cache : Option (List Item)) (first : Except Exc (Package × Action)) {g : Package × Action → State → State}
    (hg : ∀ first t, (g first t).files = t.files) : (s.settle cache first g).files = s.files := by
  cases first with
  | ok first => exact hg first _
  | error e => rfl

theorem plain_files (cache : Option (List Item)) (s : State) {event : Event} (hop : event.fileOp = none) : (plain rpm cache s event).files = s.files := by
  cases event with
  | transStart total =>
      rw [plain]
      split_ifs <;> rfl
  | elemProgress key index =>
      rw [plain]
      split_ifs
      · rfl
      · exact settle_files _ cache _ fun _ _ => rfl
  | instOpenFile key file => cases file <;> cases hop
  | instCloseFile => cases hop
  | instStop =>
      rw [plain]
      split_ifs
      · rfl
      · exact read_files s
      · exact read_files s
  | instProgress amount total key => exact settle_files s cache _ fun _ _ => rfl
  | uninstStop =>
      rw [plain]
      split_ifs
      · rfl
      · exact read_files s
  | uninstProgress amount total key => exact settle_files s cache _ fun _ _ => rfl
  | cpioError key => exact settle_files s cache _ fun _ _ => rfl
  | unpackError key =>
      exact (settle_files s.read cache (rpm.about s key) (g := fun first s => s.show (.error (unpackMessage first.1))) fun _ _ => rfl).trans (read_files s)
  | scriptError amount key => exact settle_files s cache _ fun _ _ => rfl
  | scriptStart key =>
      rw [plain]
      split_ifs
      · rfl
      · exact settle_files s cache _ fun _ _ => rfl
  | scriptStop => exact read_files s
  | _ => rfl

theorem opens_files (s : State) (fd : Nat) (first : Package × Action) : (s.opens rpm (.ok fd) first).files = (some fd, s.opened ++ [fd], s.closed) := by
  rw [State.opens]
  split_ifs <;> rfl

theorem filing_congr {s t : State} {ops : List FileOp} (h : Filing s ops) (hfiles : t.files = s.files) : Filing t ops := by
  simp only [State.files, Prod.mk.injEq] at hfiles
  rw [Filing, hfiles.1, hfiles.2.1, hfiles.2.2]
  exact h

theorem Filing.fd_ne_none {s : State} {ops : List FileOp} (h : Filing s (.closed :: ops)) : s.fd ≠ none := by
  intro hfd
  rw [Filing, hfd] at h
  cases h.2

theorem Filing.fd_eq_none {s : State} {op : FileOp} {ops : List FileOp} (h : Filing s (op :: ops)) (hop : op ≠ .closed) : s.fd = none := by
  cases hfd : s.fd with
  | none => rfl
  | some fd =>
      rw [Filing, hfd] at h
      obtain ⟨_, rest, heq, _⟩ := h
      exact absurd (List.cons.inj heq).1 hop

theorem Filing.nil {s : State} (h : Filing s []) : s.fd = none ∧ s.opened = s.closed := by
  rw [Filing] at h
  cases hfd : s.fd with
  | none =>
      rw [hfd] at h
      exact ⟨rfl, h.1⟩
  | some fd =>
      rw [hfd] at h
      obtain ⟨_, rest, heq, _⟩ := h
      cases heq

/-- The file operation of a callback that knows what it is about is the next one. -/
theorem Filing.plain {s : State} (cache : Option (List Item)) {event : Event} {ops : List FileOp} (h : Filing s (event.fileOp.toList ++ ops))
    (habout : ∀ key, event.cbkey = some key → ∃ first, rpm.about s key = .ok first) : Filing (plain rpm cache s event) ops := by
  cases hop : event.fileOp with
  | none =>
      rw [hop] at h
      exact filing_congr h (plain_files cache s hop)
  | some op =>
      rw [hop, Option.toList_some, List.singleton_append] at h
      cases event with
      | instOpenFile key file =>
          obtain ⟨first, hfirst⟩ := habout key rfl
          rw [Callback.plain, hfirst]
          show Filing (State.opens { s with tsiCache := cache } rpm file first) ops
          cases file with
          | error e =>
              cases hop
              have hfd := h.fd_eq_none (by decide)
              rw [Filing, hfd] at h
              have hclosed : Filing s ops := by
                rw [Filing, hfd]
                refine ⟨h.1, ?_⟩
                cases h.2 with
                | failed hrest => exact hrest
              exact filing_congr hclosed rfl
          | ok fd =>
              cases hop
              have hfd := h.fd_eq_none (fun h => by cases h)
              rw [Filing, hfd] at h
              have hfiles := @opens_files rpm { s with tsiCache := cache } fd first
              simp only [State.files, Prod.mk.injEq] at hfiles
              rw [Filing, hfiles.1, hfiles.2.1, hfiles.2.2]
              refine ⟨congrArg (· ++ [fd]) h.1, ?_⟩
              cases h.2 with
              | pair fd hrest => exact ⟨_, rfl, hrest⟩
      | instCloseFile =>
          cases hop
          obtain ⟨fd, hfd⟩ := Option.ne_none_iff_exists'.mp h.fd_ne_none
          rw [Filing, hfd] at h
          obtain ⟨hopened, rest, heq, hrest⟩ := h
          rw [Callback.plain, hfd]
          exact ⟨hopened, (List.cons.inj heq).2 ▸ hrest⟩
      | _ => cases hop

/-! ### The run -/

/-- What the events of a list need to know with the element `i - 1` before them. -/
def Known (rpm : Rpm) (firsts : List (Package × Action)) (i : Nat) (event : Event) : Prop :=
  event.announced = none ∧ event.total = none ∧ ∀ key, event.cbkey = some key →
    ∃ first, rpm.concerned rpm.ts[i - 1]? key = .ok first ∧ (event.reports = true → ∃ j, i = j + 1 ∧ firsts[j]? = some first)

def isStop (event : Event) : Bool := event = .instStop

theorem At.quiet {i posts : Nat} {ops : List FileOp} {s : State} {event : Event} (htest : rpm.test = false)
    (h : At rpm firsts i posts (event.fileOp.toList ++ ops) s) (hknown : Known rpm firsts i event) :
    At rpm firsts i (posts + if i = firsts.length ∧ isStop event = true then 1 else 0) ops (step rpm s event) := by
  obtain ⟨hannounced, htotal, hkeys⟩ := hknown
  obtain ⟨cache, hcache, hstep⟩ := step_plain event h.sound
  have hnumbers := h.numbers
  simp only [State.numbers, Prod.mk.injEq] at hnumbers
  obtain ⟨hrunning, hteList, hteIndex, hcomplete, htotalActions⟩ := hnumbers
  have habout : ∀ key, rpm.about s key = rpm.concerned rpm.ts[i - 1]? key := by
    intro key
    rw [Rpm.about, hteList, hteIndex]
  have hcarries := plain_carries rpm cache s hannounced htotal
  obtain ⟨hfaults, new, hshown, hnew, hposts⟩ := @plain_adds rpm firsts cache s event hannounced htotal (fun key hkey => by
      obtain ⟨first, hfirst, hreports⟩ := hkeys key hkey
      refine ⟨first, (habout key).trans hfirst, fun hreport => ?_⟩
      obtain ⟨j, hj, hget⟩ := hreports hreport
      exact ⟨congrArg some htotalActions, j, congrArg some (hcomplete.trans hj), hget⟩)
    (fun hclose => by
      subst hclose
      exact h.filing.fd_ne_none)
  rw [hstep]
  refine ⟨?_, hcarries.numbers.trans h.numbers, hfaults.trans h.faults, ?_, ?_, ?_, h.filing.plain cache fun key hkey => ?_⟩
  · rcases hcarries.tsiCache with heq | heq
    · exact heq ▸ h.sound
    · rwa [heq]
  · rw [hshown, List.filterMap_append, h.filed, List.filterMap_eq_nil_iff.mpr fun shown hmem => (hnew shown hmem).1, List.append_nil]
  · intro shown hmem
    rw [hshown] at hmem
    exact (List.mem_append.mp hmem).elim (h.right shown) fun hmem => (hnew shown hmem).2
  · rw [hshown, List.countP_append, h.posts, hposts, htest, hrunning, hcomplete, htotalActions]
    simp [isStop, and_comm]
  · obtain ⟨first, hfirst, _⟩ := hkeys key hkey
    exact ⟨first, (habout key).trans hfirst⟩

theorem At.announce {i posts : Nat} {ops : List FileOp} {s : State} {key : Key} {first : Package × Action} (htest : rpm.test = false)
    (h : At rpm firsts i posts ops s) (hconcerned : rpm.concerned rpm.ts[i]? key = .ok first) (hfirst : firsts[i]? = some first) :
    At rpm firsts (i + 1) posts ops (step rpm s (.elemProgress key i)) := by
  obtain ⟨cache, hcache, hstep⟩ := step_plain (.elemProgress key i) h.sound
  have hnumbers := h.numbers
  simp only [State.numbers, Prod.mk.injEq] at hnumbers
  obtain ⟨hrunning, hteList, hteIndex, hcomplete, htotalActions⟩ := hnumbers
  have habout : rpm.about { s with teIndex := i, completeActions := s.completeActions + 1 } key = .ok first := by
    rw [Rpm.about, hteList]
    exact hconcerned
  rw [hstep, plain, if_neg (by rw [htest]; decide), habout]
  refine ⟨hcache, ?_, h.faults, ?_, ?_, ?_, filing_congr h.filing rfl⟩
  · simp only [State.numbers, State.settle, State.show, hrunning, hteList, hcomplete, htotalActions, Nat.add_sub_cancel]
  · rw [List.take_add_one, hfirst, ← h.filed]
    exact List.filterMap_append
  · intro shown hmem
    refine (List.mem_append.mp hmem).elim (h.right shown) fun hmem => ?_
    rw [List.mem_singleton.mp hmem]
    trivial
  · rw [← h.posts]
    exact List.countP_append

theorem At.run {i posts : Nat} {ops : List FileOp} {s : State} (htest : rpm.test = false) (events : List Event) (hknown : ∀ event ∈ events, Known rpm firsts i event)
    (h : At rpm firsts i posts (events.filterMap Event.fileOp ++ ops) s) :
    At rpm firsts i (posts + if i = firsts.length then events.countP isStop else 0) ops (events.foldl (step rpm) s) := by
  induction events generalizing s posts with
  | nil => simpa using h
  | cons event events ih =>
      obtain ⟨hevent, hrest⟩ := List.forall_mem_cons.mp hknown
      have hops : (event :: events).filterMap Event.fileOp ++ ops = event.fileOp.toList ++ (events.filterMap Event.fileOp ++ ops) := by
        cases hop : event.fileOp <;> simp [hop]
      have hstep := ih hrest ((hops ▸ h).quiet htest hevent)
      have hposts : (posts + if i = firsts.length then (event :: events).countP isStop else 0) =
          (posts + if i = firsts.length ∧ isStop event = true then 1 else 0) + if i = firsts.length then events.countP isStop else 0 := by
        rw [List.countP_cons]
        by_cases hlast : i = firsts.length
        · simp only [hlast, true_and, if_true]
          omega
        · simp [hlast]
      rw [List.foldl_cons, hposts]
      exact hstep

/-- How often the end of an installation is reported for the last element. -/
def lastStops (parts : List Part) : Nat := (parts.getLast?.map fun part => part.inner.countP isStop).getD 0

theorem lastStops_cons (part : Part) (parts : List Part) :
    lastStops (part :: parts) = (if parts.length = 0 then part.inner.countP isStop else 0) + lastStops parts := by
  cases parts with
  | nil => simp [lastStops]
  | cons next parts => simp [lastStops, List.getLast?_cons_cons]

/-- The element at `i` stands for `firsts[i]`, and what rpm calls back until the next one is about it. -/
def Part.Fits (rpm : Rpm) (firsts : List (Package × Action)) (part : Part) (i : Nat) : Prop :=
  (∃ first, firsts[i]? = some first ∧ rpm.concerned rpm.ts[i]? part.key = .ok first) ∧ ∀ event ∈ part.inner, event.Within part.key

theorem Part.Fits.known {part : Part} {i : Nat} (h : part.Fits rpm firsts i) : ∀ event ∈ part.inner, Known rpm firsts (i + 1) event := by
  intro event hevent
  obtain ⟨⟨first, hfirst, hconcerned⟩, hinner⟩ := h
  have hwithin := hinner event hevent
  refine ⟨hwithin.announced, hwithin.total, fun key hkey => ⟨first, ?_, fun _ => ⟨i, rfl, hfirst⟩⟩⟩
  rw [hwithin.keys key hkey]
  exact hconcerned

theorem At.parts (htest : rpm.test = false) (parts : List Part) {i posts : Nat} {ops : List FileOp} {s : State} (hlength : i + parts.length = firsts.length)
    (hfits : ∀ (j : Nat) (part : Part), parts[j]? = some part → part.Fits rpm firsts (i + j))
    (h : At rpm firsts i posts ((partsFrom i parts).filterMap Event.fileOp ++ ops) s) :
    At rpm firsts firsts.length (posts + lastStops parts) ops ((partsFrom i parts).foldl (step rpm) s) := by
  induction parts generalizing i posts s with
  | nil =>
      rw [List.length_nil, Nat.add_zero] at hlength
      subst hlength
      exact h
  | cons part parts ih =>
      have hpart := hfits 0 part rfl
      obtain ⟨first, hfirst, hconcerned⟩ := hpart.1
      have hops : (partsFrom i (part :: parts)).filterMap Event.fileOp ++ ops =
          part.inner.filterMap Event.fileOp ++ ((partsFrom (i + 1) parts).filterMap Event.fileOp ++ ops) := by
        rw [partsFrom, List.filterMap_append, List.filterMap_cons_none rfl, List.append_assoc]
      rw [hops] at h
      have hinner := (h.announce htest hconcerned hfirst).run htest part.inner hpart.known
      rw [List.length_cons] at hlength
      have hrest := ih (by omega) (fun j part' hj => by
        have hnext := hfits (j + 1) part' hj
        rwa [← Nat.add_assoc, Nat.add_right_comm] at hnext) hinner
      rw [partsFrom, List.foldl_append, List.foldl_cons, lastStops_cons]
      have hlast : i + 1 = firsts.length ↔ parts.length = 0 := by omega
      rw [← Nat.add_assoc]
      simpa only [hlast] using hrest

theorem exists_firsts {elements : List Element} (hcorresponds : Corresponds rpm.transaction elements)
    (hattached : ∀ tsi ∈ rpm.transaction, tsi.action ≠ .reasonChange → tsi.pkg ≠ none) {els : List Element} (hels : els ⊆ elements) {keys : List Key}
    (hkeyed : List.Forall₂ (Keyed rpm.transaction) els keys) {tes : List Te} (htes : tes.map Te.nevra = els.map Element.nevra) :
    ∃ firsts, List.Forall₂ (Stands rpm) els firsts ∧
      ∀ (i : Nat) (key : Key), keys[i]? = some key → ∃ first, firsts[i]? = some first ∧ rpm.concerned tes[i]? key = .ok first := by
  induction hkeyed generalizing tes with
  | nil => exact ⟨[], .nil, fun i key hkey => by cases hkey⟩
  | @cons el key els keys hkey _ ih =>
      cases tes with
      | nil => cases htes
      | cons te tes =>
          obtain ⟨hel, hels⟩ := List.cons_subset.mp hels
          rw [List.map_cons, List.map_cons, List.cons.injEq] at htes
          obtain ⟨first, hconcerned, hstands⟩ := exists_stands hcorresponds hattached hel htes.1 hkey
          obtain ⟨firsts, hfirsts, hrest⟩ := ih hels htes.2
          refine ⟨first :: firsts, .cons hstands hfirsts, fun i key' hkey' => ?_⟩
          cases i with
          | zero =>
              rw [List.getElem?_cons_zero, Option.some.injEq] at hkey'
              subst hkey'
              exact ⟨first, rfl, hconcerned⟩
          | succ i => exact hrest i key' hkey'

theorem Event.Outside.known {event : Event} (h : event.Outside) (firsts : List (Package × Action)) (i : Nat) : Known rpm firsts i event := by
  refine ⟨h.announced, h.total, fun key hkey => ?_⟩
  obtain ⟨tsi, pkg, rfl, hpkg⟩ := h.keys key hkey
  exact ⟨(pkg, tsi.action), firstOf_eq hpkg [], fun hreports => absurd hreports (by rw [h.reports]; decide)⟩

theorem countP_isStop_outside {events : List Event} (h : ∀ event ∈ events, event.Outside) : events.countP isStop = 0 := by
  rw [List.countP_eq_zero]
  intro event hevent
  simpa [isStop] using (h event hevent).instStop

/-- In a run of rpm over the elements of a transaction no callback fails: each element is logged once and in order, with the item it stands for; the progress of an item is shown with the number of its element and the number of all elements; the scriptlets after the transaction are announced as often as the end of an installation is reported for the last element; and every file that was opened has been closed. -/
theorem run_calls (rpm : Rpm) (htest : rpm.test = false) (elements : List Element) (hcorresponds : Corresponds rpm.transaction elements)
    (hattached : ∀ tsi ∈ rpm.transaction, tsi.action ≠ .reasonChange → tsi.pkg ≠ none) (calls : Calls) (hof : calls.Of rpm elements)
    (hproper : calls.Proper) :
    ∃ firsts, List.Forall₂ (Stands rpm) elements firsts ∧
      (run rpm calls.events).faults = [] ∧ (run rpm calls.events).shown.filterMap Shown.filed = firsts ∧
      (∀ shown ∈ (run rpm calls.events).shown, shown.Right firsts) ∧
      (run rpm calls.events).shown.countP Shown.isPost = lastStops calls.parts ∧
      (run rpm calls.events).fd = none ∧ (run rpm calls.events).opened = (run rpm calls.events).closed := by
  obtain ⟨firsts, hstands, hconcerned⟩ := exists_firsts hcorresponds hattached (List.Subset.refl elements) hof.keyed hof.nevras
  have hlength : calls.parts.length = firsts.length := by
    rw [← hstands.length_eq, hof.keyed.length_eq, List.length_map]
  have hfits : ∀ (j : Nat) (part : Part), calls.parts[j]? = some part → part.Fits rpm firsts (0 + j) := by
    intro j part hj
    rw [Nat.zero_add]
    exact ⟨hconcerned j part.key (by rw [List.getElem?_map, hj]; rfl), hproper.inner part (List.mem_of_getElem? hj)⟩
  have hops : calls.events.filterMap Event.fileOp = calls.before.filterMap Event.fileOp ++
      ((partsFrom 0 calls.parts).filterMap Event.fileOp ++ (calls.after.filterMap Event.fileOp ++ [])) := by
    rw [Calls.events, List.filterMap_append, List.filterMap_append, List.filterMap_cons_none rfl, List.append_nil, List.append_assoc]
  have hstart : At rpm firsts 0 0 (calls.events.filterMap Event.fileOp) (step rpm {} (.transStart calls.parts.length)) := by
    have hstep : step rpm {} (.transStart calls.parts.length) = { totalActions := calls.parts.length, transRunning := true, teList := rpm.ts } := by
      obtain ⟨cache, _, hplain⟩ := @step_plain rpm (.transStart calls.parts.length) {} sound_none
      rw [hplain, plain, if_neg (by rw [htest]; decide)]
    rw [hstep]
    exact ⟨sound_none, by rw [State.numbers, hlength], rfl, rfl, fun shown h => absurd h List.not_mem_nil, rfl, rfl, hproper.files⟩
  rw [hops] at hstart
  have hbefore := hstart.run htest calls.before fun event hevent => (hproper.before event hevent).known firsts 0
  rw [countP_isStop_outside hproper.before, ite_self] at hbefore
  have hparts := hbefore.parts htest calls.parts (by rw [Nat.zero_add, hlength]) hfits
  have hafter := hparts.run htest calls.after fun event hevent => (hproper.after event hevent).known firsts firsts.length
  rw [countP_isStop_outside hproper.after, ite_self, Nat.add_zero, Nat.zero_add] at hafter
  have hrun : run rpm calls.events = calls.after.foldl (step rpm) ((partsFrom 0 calls.parts).foldl (step rpm)
      (calls.before.foldl (step rpm) (step rpm {} (.transStart calls.parts.length)))) := by
    rw [run, Calls.events, List.foldl_append, List.foldl_append, List.foldl_cons]
  obtain ⟨hfd, hopened⟩ := hafter.filing.nil
  rw [hrun]
  exact ⟨firsts, hstands, hafter.faults, hafter.filed.trans (List.take_length), hafter.right, hafter.posts, hfd, hopened⟩

theorem corresponds_peppers : Corresponds twoPeppers twoErasures := by
  refine ⟨by decide, fun k => ?_, by decide⟩
  rw [show twoErasures.filterMap Element.key = [0] from rfl, List.mem_singleton]
  constructor
  · rintro rfl
    exact ⟨_, rfl, rfl⟩
  · rintro ⟨item, hitem, hforward⟩
    match k with
    | 0 => rfl
    | 1 | 2 =>
        cases hitem
        cases hforward
    | k + 3 => cases hitem

def pepperTe : Te := ⟨"pepper", some "0", "20", "0", "x86_64"⟩

def pepperItem : Item := ⟨Base.pepper.nevra, "@System", .reinstall, .user, .unknown, some Base.pepper, none⟩

def peppersRpm : Rpm where
  test := false
  transaction := twoPeppers
  ts := [pepperTe, pepperTe, pepperTe]
  localPkg _ := "/var/cache/dnf/pepper-20-0.x86_64.rpm"
  tagnames _ := none

/-- Pepper has a scriptlet that runs before the transaction, and one that fails. -/
def peppersCalls : Calls where
  before := [.instOpenFile (.tsi pepperItem) (.ok 5), .scriptStart (.tsi pepperItem), .write "grinding", .scriptStop, .instCloseFile]
  parts := [
    ⟨.name "pepper", [.uninstStart, .uninstProgress 1 2 (.name "pepper"), .uninstStop]⟩,
    ⟨.tsi pepperItem, [.instOpenFile (.tsi pepperItem) (.ok 5), .instProgress 7 9 (.tsi pepperItem), .scriptError 1024 (.tsi pepperItem), .instStop, .instCloseFile]⟩,
    ⟨.name "pepper", [.uninstStart, .cpioError (.name "pepper"), .uninstStop]⟩]
  after := [.scriptStop]

theorem run_calls_peppers :
    ∃ firsts, List.Forall₂ (Stands peppersRpm) twoErasures firsts ∧
      (run peppersRpm peppersCalls.events).faults = [] ∧ (run peppersRpm peppersCalls.events).shown.filterMap Shown.filed = firsts ∧
      (∀ shown ∈ (run peppersRpm peppersCalls.events).shown, shown.Right firsts) ∧
      (run peppersRpm peppersCalls.events).shown.countP Shown.isPost = lastStops peppersCalls.parts ∧
      (run peppersRpm peppersCalls.events).fd = none ∧ (run peppersRpm peppersCalls.events).opened = (run peppersRpm peppersCalls.events).closed := by
  have hitem : ∃ tsi pkg, Key.tsi pepperItem = .tsi tsi ∧ tsi.pkg = some pkg := ⟨_, _, rfl, rfl⟩
  refine run_calls peppersRpm rfl twoErasures corresponds_peppers (by decide) peppersCalls ⟨by decide, ?_⟩ ⟨?_, ?_, ?_, ?_⟩
  · exact .cons (fun tsi h => by cases h) (.cons ⟨pepperItem, rfl, rfl⟩ (.cons (fun tsi h => by cases h) .nil))
  · intro event hevent
    simp only [peppersCalls, List.mem_cons, List.not_mem_nil, or_false] at hevent
    rcases hevent with rfl | rfl | rfl | rfl | rfl <;> exact ⟨rfl, rfl, fun key h => by cases h <;> exact hitem, rfl, by decide⟩
  · intro part hpart event hevent
    simp only [peppersCalls, List.mem_cons, List.not_mem_nil, or_false] at hpart
    rcases hpart with rfl | rfl | rfl <;> simp only [List.mem_cons, List.not_mem_nil, or_false] at hevent
    · rcases hevent with rfl | rfl | rfl <;> exact ⟨rfl, rfl, fun key h => by cases h <;> rfl⟩
    · rcases hevent with rfl | rfl | rfl | rfl | rfl <;> exact ⟨rfl, rfl, fun key h => by cases h <;> rfl⟩
    · rcases hevent with rfl | rfl | rfl <;> exact ⟨rfl, rfl, fun key h => by cases h <;> rfl⟩
  · intro event hevent
    rw [List.mem_singleton.mp hevent]
    exact ⟨rfl, rfl, fun key h => (by cases h), rfl, by decide⟩
  · exact .pair 5 (.pair 5 .nil)

end Dnf.Transaction.Callback
