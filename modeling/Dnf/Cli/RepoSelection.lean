import Dnf.Foundation.Fnmatch
import Dnf.Foundation.LastMatch
import Dnf.Foundation.PyStr
import Dnf.Listing.Dicts
import Dnf.Persist.Repos

/-!
# Repositories chosen on the command line

`--enablerepo`, `--disablerepo`, `--repofrompath` and `--repo` are collected by callbacks of the option parser, and `Cli._configure_repos` makes one sequence of operations of them, which it then applies to the repositories in order. The parser runs twice, once for the command and once for its arguments, and the list of operations is not cleared in between.
-/

namespace Dnf.Cli

open Foundation Fnmatch Listing Persist

/-! ### The options -/

/-- The text after a match of `\s*[,\s]\s*` at its start: blanks and a comma, or at least one blank, with the blanks that follow. -/
def skipSeparator (text : List Char) : Option (List Char) :=
  match text.dropWhile fun c => PyStr.isSpace c.toNat with
  | ',' :: rest => some (rest.dropWhile fun c => PyStr.isSpace c.toNat)
  | rest => if rest.length < text.length then some rest else none

def splitFrom : Nat → List Char → List Char → List (List Char)
  | 0, piece, _ => [piece]
  | _ + 1, piece, [] => [piece]
  | fuel + 1, piece, c :: text =>
      (skipSeparator (c :: text)).elim (splitFrom fuel (piece ++ [c]) text) fun rest => piece :: splitFrom fuel [] rest

/-- `re.split(r'\s*[,\s]\s*', values)` -/
def splitValues (values : String) : List String := (splitFrom (values.toList.length + 1) [] values.toList).map String.ofList

example : splitValues " a,b , ,c d" = ["", "a", "b", "", "c", "d"] := by decide +kernel

/-- An option of the command line with its argument. -/
inductive RepoOption
  | enablerepo (values : String)
  | disablerepo (values : String)
  | repofrompath (values : String)
  | repo (values : String)
  deriving DecidableEq

/-- The options of the parser, as far as they name repositories. -/
structure RepoNamespace where
  reposEd : List (String × Operation) := []
  repofrompath : List (String × String) := []
  repo : List String := []
  deriving DecidableEq

/-- `_RepoCallback` -/
def repoCallback (opts : RepoNamespace) (values : String) (operation : Operation) : RepoNamespace :=
  { opts with reposEd := opts.reposEd ++ (splitValues values).map (·, operation) }

/-- What `_SplitCallback` appends: only the first value can be empty. -/
def splitCallback (values : String) : List String :=
  match splitValues values with
  | [] => []
  | first :: rest => first :: rest.filter (· ≠ "")

/-- `_SplitExtendDictCallback`; `none` is the `ArgumentError`. -/
def splitExtendDictCallback (dct : List (String × String)) (values : String) : Option (List (String × String)) :=
  match values.toList.splitOn ',' with
  | [key, val] => if key = [] ∨ val = [] then none else some (assign dct (String.ofList key) (String.ofList val))
  | _ => none

def RepoOption.act (opts : RepoNamespace) : RepoOption → Option RepoNamespace
  | .enablerepo values => some (repoCallback opts values .enable)
  | .disablerepo values => some (repoCallback opts values .disable)
  | .repofrompath values => (splitExtendDictCallback opts.repofrompath values).map fun dct => { opts with repofrompath := dct }
  | .repo values => some { opts with repo := opts.repo ++ splitCallback values }

def parseKnownArgs (opts : RepoNamespace) (args : List RepoOption) : Option RepoNamespace := args.foldlM RepoOption.act opts

/-- `parse_main_args` and then `parse_command_args`, which starts from the defaults again. The default of `repos_ed` and that of `repofrompath` are the objects that the first call has filled. The name of `repository-packages`, if that is the command, is read last. -/
def parseArgs (args : List RepoOption) (reponame : Option String) : Option RepoNamespace := do
  let main ← parseKnownArgs {} args
  let opts ← parseKnownArgs { reposEd := main.reposEd, repofrompath := main.repofrompath } args
  pure { opts with reposEd := opts.reposEd ++ reponame.toList.map (·, .enable) }

/-! ### `Cli._configure_repos` -/

/-- `RepoDict.get_matching`, as the ids it finds. -/
def getMatching (key id : String) : Bool := if isGlobPattern key then fnmatch id key else id == key

/-- `RepoDict.add`; `none` is the `ConfigError`. -/
def addRepo (verify : Repo → Bool) (repos : List Repo) (repo : Repo) : Option (List Repo) :=
  if repos.any fun r => r.id == repo.id then none else if verify repo then some (repos ++ [repo]) else none

/-- A repository of `--repofrompath`; `enabled` is its state after the options that configure it. -/
def newRepo (enabled : String → Bool) (label : String × String) : Repo := { id := label.1, enabled := enabled label.1 }

/-- `opts.repos_ed`, as the loop finds it. -/
def RepoNamespace.operations (opts : RepoNamespace) : List (String × Operation) :=
  let reposEd := opts.reposEd ++ opts.repofrompath.map fun label => (label.1, .enable)
  if opts.repo = [] then reposEd else ("*", .disable) :: reposEd ++ opts.repo.map (·, .enable)

/-- The loop over `opts.repos_ed`. -/
def selectRepos (strict : Bool) (opts : RepoNamespace) (repos : List Repo) : List Repo × Bool :=
  applyReposEd strict (opts.operations.map fun op => (getMatching op.1, op.2)) repos

/-- From the repositories that are configured to the end of the loop: what it leaves, and whether it came to its end. `none` is an error before it. -/
def RepoNamespace.configureRepos (verify : Repo → Bool) (enabled : String → Bool) (strict : Bool) (opts : RepoNamespace) (configured : List Repo) :
    Option (List Repo × Bool) := do
  let repos ← opts.repofrompath.foldlM (fun repos label => addRepo verify repos (newRepo enabled label)) configured
  pure (selectRepos strict opts repos)

/-! ### Lists of ids -/

/-- A text that can stand in such a list. -/
def Plain (piece : List Char) : Prop := ∀ c ∈ piece, c ≠ ',' ∧ PyStr.isSpace c.toNat = false

theorem skipSeparator_plain {c : Char} {text : List Char} (hc : c ≠ ',' ∧ PyStr.isSpace c.toNat = false) : skipSeparator (c :: text) = none := by
  have hstays : List.dropWhile (fun c => PyStr.isSpace c.toNat) (c :: text) = c :: text := by
    rw [List.dropWhile_cons, hc.2]
    rfl
  rw [skipSeparator, hstays]
  split
  · next heq => exact absurd (List.cons.inj heq).1 hc.1
  · exact if_neg (Nat.lt_irrefl _)

theorem skipSeparator_comma {text : List Char} (htext : ∀ c ∈ text.head?, PyStr.isSpace c.toNat = false) : skipSeparator (',' :: text) = some text := by
  have hstays : List.dropWhile (fun c => PyStr.isSpace c.toNat) text = text := by
    cases text with
    | nil => rfl
    | cons c text =>
        rw [List.dropWhile_cons, htext c rfl]
        rfl
  have hcomma : List.dropWhile (fun c => PyStr.isSpace c.toNat) (',' :: text) = ',' :: text := by
    rw [List.dropWhile_cons]
    rfl
  rw [skipSeparator, hcomma]
  exact congrArg some hstays

theorem splitFrom_plain {word : List Char} (hword : Plain word) (fuel : Nat) (piece text : List Char) :
    splitFrom (word.length + fuel) piece (word ++ text) = splitFrom fuel (piece ++ word) text := by
  induction word generalizing piece with
  | nil => rw [List.length_nil, Nat.zero_add, List.nil_append, List.append_nil]
  | cons c word ih =>
      have hrest : Plain word := fun c' hc' => hword c' (List.mem_cons_of_mem c hc')
      rw [List.length_cons, Nat.succ_add, List.cons_append, splitFrom, skipSeparator_plain (hword c List.mem_cons_self), Option.elim_none, ih hrest,
        List.append_assoc, List.singleton_append]

theorem isSpace_intercalate {pieces : List (List Char)} (hpieces : ∀ piece ∈ pieces, Plain piece) :
    ∀ c ∈ List.intercalate [','] pieces, PyStr.isSpace c.toNat = false := by
  induction pieces with
  | nil => exact fun c hc => absurd hc List.not_mem_nil
  | cons first rest ih =>
      intro c hc
      have hfirst := hpieces first List.mem_cons_self
      cases rest with
      | nil =>
          rw [List.intercalate_singleton] at hc
          exact (hfirst c hc).2
      | cons second rest =>
          rw [List.intercalate_cons_cons, List.append_assoc, List.singleton_append, List.mem_append, List.mem_cons] at hc
          rcases hc with hc | rfl | hc
          · exact (hfirst c hc).2
          · rfl
          · exact ih (fun piece hpiece => hpieces piece (List.mem_cons_of_mem first hpiece)) c hc

theorem splitFrom_intercalate {first : List Char} {rest : List (List Char)} (hfirst : Plain first) (hrest : ∀ piece ∈ rest, Plain piece) :
    splitFrom ((List.intercalate [','] (first :: rest)).length + 1) [] (List.intercalate [','] (first :: rest)) = first :: rest := by
  induction rest generalizing first with
  | nil =>
      have h := splitFrom_plain hfirst 1 [] []
      rw [List.append_nil] at h
      rw [List.intercalate_singleton, h]
      rfl
  | cons second rest ih =>
      have hsecond : ∀ c ∈ (List.intercalate [','] (second :: rest)).head?, PyStr.isSpace c.toNat = false :=
        fun c hc => isSpace_intercalate hrest c (List.mem_of_head? hc)
      have htext : List.intercalate [','] (first :: second :: rest) = first ++ ',' :: List.intercalate [','] (second :: rest) := by
        rw [List.intercalate_cons_cons, List.append_assoc, List.singleton_append]
      rw [htext, List.length_append, List.length_cons, Nat.add_assoc, splitFrom_plain hfirst, splitFrom, skipSeparator_comma hsecond, Option.elim_some,
        ih (hrest second List.mem_cons_self) fun piece hpiece => hrest piece (List.mem_cons_of_mem second hpiece), List.nil_append]

/-- Each id of a list with commas becomes an operation of its own. -/
theorem splitValues_intercalate {ids : List (List Char)} (hne : ids ≠ []) (hids : ∀ id ∈ ids, Plain id) :
    splitValues (String.ofList (List.intercalate [','] ids)) = ids.map String.ofList := by
  obtain ⟨first, rest, rfl⟩ := List.exists_cons_of_ne_nil hne
  rw [splitValues, String.toList_ofList, splitFrom_intercalate (hids first List.mem_cons_self) fun piece hpiece => hids piece (List.mem_cons_of_mem first hpiece)]

/-! ### The effective sequence -/

def RepoOption.edits : RepoOption → List (String × Operation)
  | .enablerepo values => (splitValues values).map (·, .enable)
  | .disablerepo values => (splitValues values).map (·, .disable)
  | _ => []

def RepoOption.label : RepoOption → Option String
  | .repofrompath values => (values.toList.splitOn ',').head?.map String.ofList
  | _ => none

def RepoOption.ids : RepoOption → Option (List String)
  | .repo values => some (splitCallback values)
  | _ => none

def effectiveSequence (args : List RepoOption) (reponame : Option String) : List (String × Operation) :=
  (if args.filterMap RepoOption.ids = [] then [] else [("*", .disable)]) ++
    (args.flatMap RepoOption.edits ++ reponame.toList.map (·, .enable) ++
      ((args.filterMap RepoOption.label).map (·, .enable) ++ (args.filterMap RepoOption.ids).flatten.map (·, .enable)))

/-- The last operation that matches the repository is an enable, or none matches and it was enabled. -/
def SelectedBy (ops : List (String × Operation)) (r : Repo) : Prop :=
  lastMatch getMatching ops r.id = some .enable ∨ (lastMatch getMatching ops r.id = none ∧ r.enabled = true)

/-! ### The parser -/

theorem splitFrom_ne_nil (fuel : Nat) (piece text : List Char) : splitFrom fuel piece text ≠ [] := by
  induction fuel generalizing piece text with
  | zero => exact List.cons_ne_nil _ _
  | succ fuel ih =>
      cases text with
      | nil => exact List.cons_ne_nil _ _
      | cons c text =>
          rw [splitFrom]
          cases skipSeparator (c :: text) with
          | none => exact ih _ _
          | some rest => exact List.cons_ne_nil _ _

theorem splitCallback_ne_nil (values : String) : splitCallback values ≠ [] := by
  obtain ⟨first, rest, hsplit⟩ := List.exists_cons_of_ne_nil
    (show splitValues values ≠ [] from fun hnil => splitFrom_ne_nil _ _ _ (List.map_eq_nil_iff.mp hnil))
  rw [splitCallback, hsplit]
  exact List.cons_ne_nil _ _

theorem splitExtendDictCallback_spec {dct dct' : List (String × String)} {values : String} (h : splitExtendDictCallback dct values = some dct') :
    ∃ label val, (RepoOption.repofrompath values).label = some label ∧ dct' = assign dct label val := by
  rw [splitExtendDictCallback] at h
  rw [RepoOption.label]
  generalize values.toList.splitOn ',' = pieces at h ⊢
  rcases pieces with _ | ⟨key, _ | ⟨val, _ | ⟨third, pieces⟩⟩⟩
  · cases h
  · cases h
  · dsimp only at h
    split_ifs at h
    exact ⟨String.ofList key, String.ofList val, rfl, (Option.some.inj h).symm⟩
  · cases h

/-- What the parser has collected of the options that it has read. -/
structure Collected (start opts : RepoNamespace) (args : List RepoOption) : Prop where
  reposEd : opts.reposEd = start.reposEd ++ args.flatMap RepoOption.edits
  repo : opts.repo = start.repo ++ (args.filterMap RepoOption.ids).flatten
  labels : ∀ label, label ∈ opts.repofrompath.map Prod.fst ↔ label ∈ start.repofrompath.map Prod.fst ∨ label ∈ args.filterMap RepoOption.label

theorem Collected.refl (opts : RepoNamespace) : Collected opts opts [] :=
  ⟨(List.append_nil _).symm, (List.append_nil _).symm, fun _ => ⟨.inl, fun h => h.resolve_right List.not_mem_nil⟩⟩

theorem act_collected {opts opts' : RepoNamespace} {option : RepoOption} (h : option.act opts = some opts') : Collected opts opts' [option] := by
  cases option with
  | enablerepo values =>
      obtain rfl := Option.some.inj h
      exact ⟨by simp [repoCallback, RepoOption.edits], by simp [repoCallback, RepoOption.ids], by simp [repoCallback, RepoOption.label]⟩
  | disablerepo values =>
      obtain rfl := Option.some.inj h
      exact ⟨by simp [repoCallback, RepoOption.edits], by simp [repoCallback, RepoOption.ids], by simp [repoCallback, RepoOption.label]⟩
  | repo values =>
      obtain rfl := Option.some.inj h
      exact ⟨by simp [RepoOption.edits], by simp [RepoOption.ids], by simp [RepoOption.label]⟩
  | repofrompath values =>
      obtain ⟨dct, hdct, rfl⟩ := Option.map_eq_some_iff.mp h
      obtain ⟨label, val, hlabel, rfl⟩ := splitExtendDictCallback_spec hdct
      refine ⟨by simp [RepoOption.edits], by simp [RepoOption.ids], fun key => ?_⟩
      rw [mem_keys_assign, List.filterMap_cons, hlabel, List.filterMap_nil, List.mem_singleton]

theorem Collected.append {start mid opts : RepoNamespace} {args args' : List RepoOption} (h : Collected start mid args) (h' : Collected mid opts args') :
    Collected start opts (args ++ args') where
  reposEd := by rw [h'.reposEd, h.reposEd, List.flatMap_append, List.append_assoc]
  repo := by rw [h'.repo, h.repo, List.filterMap_append, List.flatten_append, List.append_assoc]
  labels label := by rw [h'.labels, h.labels, List.filterMap_append, List.mem_append, or_assoc]

theorem parseKnownArgs_collected {opts opts' : RepoNamespace} {args : List RepoOption} (h : parseKnownArgs opts args = some opts') :
    Collected opts opts' args := by
  induction args generalizing opts with
  | nil => exact Option.some.inj h ▸ .refl opts
  | cons option args ih =>
      rw [parseKnownArgs, List.foldlM_cons] at h
      obtain ⟨mid, hmid, hrest⟩ := Option.bind_eq_some_iff.mp h
      exact (act_collected hmid).append (ih hrest)

/-- What both calls of the parser leave for `_configure_repos`. -/
theorem parseArgs_collected {args : List RepoOption} {reponame : Option String} {opts : RepoNamespace} (h : parseArgs args reponame = some opts) :
    opts.reposEd = args.flatMap RepoOption.edits ++ args.flatMap RepoOption.edits ++ reponame.toList.map (·, .enable) ∧
      opts.repo = (args.filterMap RepoOption.ids).flatten ∧
      ∀ label, label ∈ opts.repofrompath.map Prod.fst ↔ label ∈ args.filterMap RepoOption.label := by
  obtain ⟨main, hmain, hrest⟩ := Option.bind_eq_some_iff.mp h
  obtain ⟨second, hsecond, hopts⟩ := Option.bind_eq_some_iff.mp hrest
  obtain rfl := Option.some.inj hopts
  have hcollected := parseKnownArgs_collected hmain
  have hcollected' := parseKnownArgs_collected hsecond
  refine ⟨?_, hcollected'.repo, fun label => ?_⟩
  · rw [hcollected'.reposEd, hcollected.reposEd, List.nil_append]
  · rw [hcollected'.labels, hcollected.labels]
    simp

/-! ### The selection -/

theorem repo_eq_nil_iff (args : List RepoOption) : (args.filterMap RepoOption.ids).flatten = [] ↔ args.filterMap RepoOption.ids = [] := by
  refine ⟨fun hflat => List.eq_nil_iff_forall_not_mem.mpr fun ids hids => ?_, fun hnil => by rw [hnil]; rfl⟩
  have hnil := List.flatten_eq_nil_iff.mp hflat ids hids
  obtain ⟨option, -, hoption⟩ := List.mem_filterMap.mp hids
  cases option with
  | repo values => exact splitCallback_ne_nil values ((Option.some.inj hoption).trans hnil)
  | enablerepo values => cases hoption
  | disablerepo values => cases hoption
  | repofrompath values => cases hoption

/-- The sequence that the code makes and the one of the command line have the same operations. -/
theorem mem_operations {args : List RepoOption} {reponame : Option String} {opts : RepoNamespace} (h : parseArgs args reponame = some opts)
    (op : String × Operation) : op ∈ opts.operations ↔ op ∈ effectiveSequence args reponame := by
  obtain ⟨hedits, hrepo, hlabels⟩ := parseArgs_collected h
  have hpath : op ∈ opts.repofrompath.map (fun label => (label.1, Operation.enable)) ↔ op ∈ (args.filterMap RepoOption.label).map (·, Operation.enable) := by
    rw [List.mem_map, List.mem_map]
    constructor
    · rintro ⟨label, hlabel, rfl⟩
      exact ⟨label.1, (hlabels label.1).mp (List.mem_map_of_mem hlabel), rfl⟩
    · rintro ⟨label, hlabel, rfl⟩
      obtain ⟨entry, hentry, rfl⟩ := List.mem_map.mp ((hlabels label).mpr hlabel)
      exact ⟨entry, hentry, rfl⟩
  rw [RepoNamespace.operations, effectiveSequence, hedits, hrepo]
  by_cases hids : args.filterMap RepoOption.ids = []
  · rw [if_pos ((repo_eq_nil_iff args).mpr hids), if_pos hids, hids]
    simp only [List.mem_append, hpath, or_self, List.flatten_nil, List.map_nil, List.not_mem_nil, or_false, false_or]
  · rw [if_neg fun hnil => hids ((repo_eq_nil_iff args).mp hnil), if_neg hids]
    simp only [List.cons_append, List.mem_cons, List.mem_append, hpath, or_self, or_assoc, List.nil_append]

/-- They also have the same last match, for every repository. -/
theorem lastMatch_operations {args : List RepoOption} {reponame : Option String} {opts : RepoNamespace} (h : parseArgs args reponame = some opts) (id : String) :
    lastMatch getMatching opts.operations id = lastMatch getMatching (effectiveSequence args reponame) id := by
  obtain ⟨hedits, hrepo, hlabels⟩ := parseArgs_collected h
  have hpaths : lastMatch getMatching (opts.repofrompath.map fun label => (label.1, Operation.enable)) id =
      lastMatch getMatching ((args.filterMap RepoOption.label).map (·, Operation.enable)) id := by
    refine @lastMatch_congr _ _ _ getMatching _ _ id .enable (fun op hop => ?_) fun key => ?_
    · simp only [List.mem_append, List.mem_map] at hop
      rcases hop with ⟨label, -, rfl⟩ | ⟨label, -, rfl⟩ <;> rfl
    · rw [List.map_map, List.map_map]
      simpa using hlabels key
  have hed : lastMatch getMatching opts.reposEd id =
      lastMatch getMatching (args.flatMap RepoOption.edits ++ reponame.toList.map (·, Operation.enable)) id := by
    rw [hedits, lastMatch_append, lastMatch_append_self, ← lastMatch_append]
  rw [RepoNamespace.operations, effectiveSequence, hrepo]
  by_cases hids : args.filterMap RepoOption.ids = []
  · rw [if_pos ((repo_eq_nil_iff args).mpr hids), if_pos hids, hids, List.nil_append, List.flatten_nil, List.map_nil, List.append_nil,
      lastMatch_append, lastMatch_append, hpaths, hed]
  · have hcons : ∀ ops : List (String × Operation), ("*", Operation.disable) :: ops = [("*", .disable)] ++ ops := fun _ => rfl
    rw [if_neg fun hnil => hids ((repo_eq_nil_iff args).mp hnil), if_neg hids, hcons]
    simp only [lastMatch_append, hpaths, hed, Option.or_assoc]

theorem applyReposEd_eq {ops : List (String × Operation)} {strict : Bool} {repos : List Repo}
    (hfound : strict = true → ∀ op ∈ ops, op.2 = .enable → ∃ r ∈ repos, getMatching op.1 r.id = true) :
    applyReposEd strict (ops.map fun op => (getMatching op.1, op.2)) repos =
      (repos.map fun r => overwritten getMatching Repo.switch ops r.id r, true) := by
  induction ops generalizing repos with
  | nil => exact congrArg (·, true) (List.map_id' repos).symm
  | cons op ops ih =>
      have hends : ¬(!(repos.any fun r => getMatching op.1 r.id) && (strict && op.2 == .enable)) = true := by
        intro hraises
        obtain ⟨hunknown, hstrict, henable⟩ : (repos.any fun r => getMatching op.1 r.id) = false ∧ strict = true ∧ op.2 = .enable := by
          simpa [Bool.and_eq_true] using hraises
        obtain ⟨r, hr, hmatches⟩ := hfound hstrict op List.mem_cons_self henable
        exact absurd (List.any_eq_false.mp hunknown r hr) (not_not_intro hmatches)
      have hids : ∀ r : Repo, (if getMatching op.1 r.id then r.switch op.2 else r).id = r.id := fun r => by split <;> rfl
      rw [List.map_cons, applyReposEd, if_neg hends, ih]
      · rw [onMatching, List.map_map]
        refine congrArg (·, true) (List.map_congr_left fun r _ => ?_)
        rw [Function.comp, hids]
        rfl
      · intro hstrict later hlater henable
        obtain ⟨r, hr, hmatches⟩ := hfound hstrict later (List.mem_cons_of_mem _ hlater) henable
        exact ⟨_, List.mem_map_of_mem hr, by rw [hids]; exact hmatches⟩

theorem addRepo_eq {verify : Repo → Bool} {repos repos' : List Repo} {repo : Repo} (h : addRepo verify repos repo = some repos') :
    repos' = repos ++ [repo] := by
  rw [addRepo] at h
  split_ifs at h
  exact (Option.some.inj h).symm

theorem foldlM_addRepo_eq {verify : Repo → Bool} {enabled : String → Bool} {labels : List (String × String)} {repos repos' : List Repo}
    (h : labels.foldlM (fun repos label => addRepo verify repos (newRepo enabled label)) repos = some repos') :
    repos' = repos ++ labels.map (newRepo enabled) := by
  induction labels generalizing repos with
  | nil => exact (Option.some.inj h).symm.trans (List.append_nil repos).symm
  | cons label labels ih =>
      rw [List.foldlM_cons] at h
      obtain ⟨next, hnext, hrest⟩ := Option.bind_eq_some_iff.mp h
      rw [ih hrest, addRepo_eq hnext, List.map_cons, List.append_assoc, List.singleton_append]

/-- Unless an error comes before the loop, or it meets an unknown repository in a strict configuration, each repository is in the end as the last operation on it says. -/
theorem enabled_iff_last_operation (args : List RepoOption) (reponame : Option String) (verify : Repo → Bool) (enabled : String → Bool) (strict : Bool)
    (configured : List Repo) (opts : RepoNamespace) (hopts : parseArgs args reponame = some opts)
    (hadded : opts.configureRepos verify enabled strict configured ≠ none)
    (hfound : strict = true → ∀ op ∈ effectiveSequence args reponame, op.2 = .enable →
      ∃ r ∈ configured ++ opts.repofrompath.map (newRepo enabled), getMatching op.1 r.id = true) :
    ∃ selected, opts.configureRepos verify enabled strict configured = some (selected, true) ∧
      List.Forall₂ (fun r r' : Repo => r'.id = r.id ∧ (r'.enabled = true ↔ SelectedBy (effectiveSequence args reponame) r))
        (configured ++ opts.repofrompath.map (newRepo enabled)) selected := by
  obtain ⟨result, hresult⟩ := Option.ne_none_iff_exists'.mp hadded
  obtain ⟨repos, hrepos, hselect⟩ := Option.bind_eq_some_iff.mp hresult
  obtain rfl := foldlM_addRepo_eq hrepos
  have hloop := applyReposEd_eq fun hstrict op hop => hfound hstrict op ((mem_operations hopts op).mp hop)
  refine ⟨_, hresult.trans (hselect.symm.trans (congrArg some hloop)), ?_⟩
  rw [List.forall₂_map_right_iff]
  refine List.forall₂_same.mpr fun r _ => ?_
  have hwrite : ∀ (r : Repo) (v w : Operation), (r.switch v).switch w = r.switch w := fun _ _ _ => rfl
  rw [overwritten_eq_lastMatch hwrite, lastMatch_operations hopts, SelectedBy]
  rcases lastMatch getMatching (effectiveSequence args reponame) r.id with _ | operation
  · simp
  · cases operation <;> simp [Repo.switch]

theorem enabled_iff_last_operation_overlapping :
    ∃ selected, RepoNamespace.configureRepos (fun _ => true) (fun _ => true) true
        ⟨[("a", .enable), ("b*", .enable), ("*1", .disable), ("a", .enable), ("b*", .enable), ("*1", .disable)], [("local", "/srv")], []⟩
        [{ id := "a1" }, { id := "a", enabled := false }, { id := "b1" }, { id := "b2" }] = some (selected, true) ∧
      List.Forall₂ (fun r r' : Repo => r'.id = r.id ∧ (r'.enabled = true ↔
          SelectedBy (effectiveSequence [.enablerepo "a, b*", .disablerepo "*1", .repofrompath "local,/srv"] none) r))
        [{ id := "a1" }, { id := "a", enabled := false }, { id := "b1" }, { id := "b2" }, { id := "local" }] selected :=
  enabled_iff_last_operation [.enablerepo "a, b*", .disablerepo "*1", .repofrompath "local,/srv"] none (fun _ => true) (fun _ => true) true
    [{ id := "a1" }, { id := "a", enabled := false }, { id := "b1" }, { id := "b2" }]
    ⟨[("a", .enable), ("b*", .enable), ("*1", .disable), ("a", .enable), ("b*", .enable), ("*1", .disable)], [("local", "/srv")], []⟩
    (by decide +kernel) (by simp [RepoNamespace.configureRepos, addRepo, newRepo])
    (fun _ => by decide +kernel)

end Dnf.Cli
