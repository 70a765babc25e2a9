import Dnf.Cli.Clean
import Mathlib.Algebra.GroupWithZero.Nat

/-!
# What `clean` removes and what it expires

First the regular expressions are read as what they say about a path. Then the loop: a file goes exactly if it is of a wanted type, the count has it once for each type, and the first file that cannot be removed ends the loop.
-/

namespace Dnf.Cli.Clean

open Foundation Foundation.Effect Foundation.PosixPath
open Pattern (Found)

/-! ### Cache files in plain words -/

/-- The id of a repository and the hash of its address. -/
structure CacheDir (id hash : List Char) : Prop where
  ne_nil : id ≠ []
  id_chars : ∀ c ∈ id, repoidChar c = true
  length : hash.length = 16
  hash_chars : ∀ c ∈ hash, hexdigit c = true

def InCacheDir (id rest f : List Char) : Prop := ∃ hash, CacheDir id hash ∧ f = id ++ '-' :: (hash ++ '/' :: rest)

/-- A line feed at the end makes no difference. -/
def EndsWith (body suffix f : List Char) : Prop := f = body ++ suffix ∨ f = body ++ suffix ++ ['\n']

def OnOneLine (body : List Char) : Prop := ∀ c ∈ body, c ≠ '\n'

def metadataSuffixes : List (List Char) :=
  (["xml".toList, "yaml".toList].flatMap fun suffix => suffix :: compressions.map (suffix ++ ·)) ++ ["asc".toList, "cachecookie".toList, "mirrorlist".toList]

def MetadataOf (id f : List Char) : Prop :=
  ∃ body suffix rest, InCacheDir id rest f ∧ OnOneLine body ∧ suffix ∈ metadataSuffixes ∧ EndsWith body suffix rest

def PackageOf (id f : List Char) : Prop :=
  ∃ body rest, InCacheDir id ("packages/".toList ++ rest) f ∧ body ≠ [] ∧ OnOneLine body ∧ EndsWith body "rpm".toList rest

/-- The files that libsolv writes, and the temporary ones it leaves behind. -/
def SolvFile (f : List Char) : Prop :=
  ∃ body suffix ext, body ≠ [] ∧ OnOneLine body ∧ suffix ∈ [".solv".toList, ".solvx".toList] ∧
    (ext = [] ∨ ∃ letters, letters ≠ [] ∧ (∀ c ∈ letters, c.isAlphanum = true) ∧ ext = '.' :: letters) ∧ EndsWith body (suffix ++ ext) f

def IsCacheFile : CacheFile → List Char → Prop
  | .metadata, f => ∃ id, MetadataOf id f
  | .packages, f => ∃ id, PackageOf id f
  | .dbcache, f => SolvFile f

/-! ### The regular expressions -/

theorem repoidChar_ne_slash {c : Char} (hc : repoidChar c = true) : c ≠ '/' := by
  rintro rfl
  exact absurd hc (by decide)

theorem hexdigit_ne_slash {c : Char} (hc : hexdigit c = true) : c ≠ '/' := by
  rintro rfl
  exact absurd hc (by decide)

variable {id id' f rest taken : List Char} {group : Option (List Char)}

/-- The directory of a path ends at the first slash, so the id is read off in one way only. -/
theorem inCacheDir_unique {rest' : List Char} (h : InCacheDir id rest f) (h' : InCacheDir id' rest' f) : id = id' := by
  obtain ⟨hash, hdir, rfl⟩ := h
  obtain ⟨hash', hdir', heq⟩ := h'
  have hfront : ∀ {id hash : List Char} (rest : List Char), CacheDir id hash → (id ++ '-' :: (hash ++ '/' :: rest)).takeWhile (· ≠ '/') = id ++ '-' :: hash := by
    intro id hash rest hdir
    rw [show id ++ '-' :: (hash ++ '/' :: rest) = (id ++ '-' :: hash) ++ '/' :: rest by simp]
    rw [List.takeWhile_append_of_pos, List.takeWhile_cons_of_neg (by simp), List.append_nil]
    intro c hc
    rcases List.mem_append.mp hc with hc | hc
    · exact decide_eq_true (repoidChar_ne_slash (hdir.id_chars c hc))
    · rcases List.mem_cons.mp hc with rfl | hc
      · decide
      · exact decide_eq_true (hexdigit_ne_slash (hdir.hash_chars c hc))
  have hboth : id ++ '-' :: hash = id' ++ '-' :: hash' := by rw [← hfront rest hdir, heq, hfront rest' hdir']
  exact (List.append_inj' hboth (by rw [List.length_cons, List.length_cons, hdir.length, hdir'.length])).1

theorem metadataOf_unique (h : MetadataOf id f) (h' : MetadataOf id' f) : id = id' := by
  obtain ⟨_, _, _, hin, _⟩ := h
  obtain ⟨_, _, _, hin', _⟩ := h'
  exact inCacheDir_unique hin hin'

theorem matches_cachedirRe : cachedirRe.Matches group taken rest ↔ ∃ id hash, CacheDir id hash ∧ group = some id ∧ taken = id ++ '-' :: hash := by
  constructor
  · intro h
    obtain ⟨id, dash, g, g', rfl, rfl, hid, hdash⟩ := Pattern.matches_seq.mp h
    obtain ⟨rfl, _, hid⟩ := Pattern.matches_group.mp hid
    obtain ⟨-, hne, hchars⟩ := Pattern.matches_plus.mp hid
    obtain ⟨minus, hash, g, g', rfl, rfl, hminus, hhash⟩ := Pattern.matches_seq.mp hdash
    obtain ⟨rfl, rfl⟩ := (Pattern.matches_char '-').mp hminus
    obtain ⟨rfl, hlength, hhex⟩ := (Pattern.matches_times 16).mp hhash
    exact ⟨id, hash, ⟨hne, hchars, hlength, hhex⟩, rfl, rfl⟩
  · rintro ⟨id, hash, hdir, rfl, rfl⟩
    have hid : (Pattern.group (.plus repoidChar)).Matches (some id) id (('-' :: hash) ++ rest) :=
      Pattern.matches_group.mpr ⟨rfl, none, Pattern.matches_plus.mpr ⟨rfl, hdir.ne_nil, hdir.id_chars⟩⟩
    have hhash : (Pattern.times hexdigit 16).Matches none hash rest := (Pattern.matches_times 16).mpr ⟨rfl, hdir.length, hdir.hash_chars⟩
    exact Pattern.Matches.seq hid (Pattern.Matches.seq (t := ['-']) ((Pattern.matches_char '-').mpr ⟨rfl, rfl⟩) hhash)

theorem matches_suffixRe : suffixRe.Matches group taken rest ↔ group = none ∧ taken ∈ metadataSuffixes := by
  have hformat : ∀ {group taken rest}, (Pattern.oneOf [.word "xml".toList, .word "yaml".toList]).Matches group taken rest ↔
      group = none ∧ taken ∈ ["xml".toList, "yaml".toList] := Pattern.matches_oneOf_word ["xml".toList, "yaml".toList]
  rw [suffixRe, Pattern.matches_oneOf, List.exists_mem_cons_iff, metadataSuffixes, List.mem_append]
  have hwords : (∃ p ∈ [Pattern.word "asc".toList, .word "cachecookie".toList, .word "mirrorlist".toList], p.Matches group taken rest) ↔
      group = none ∧ taken ∈ ["asc".toList, "cachecookie".toList, "mirrorlist".toList] := by
    rw [← Pattern.matches_oneOf]
    exact Pattern.matches_oneOf_word ["asc".toList, "cachecookie".toList, "mirrorlist".toList]
  rw [hwords, and_or_left]
  refine or_congr_left ?_
  constructor
  · intro h
    obtain ⟨format, compression, g, g', rfl, rfl, hf, hc⟩ := Pattern.matches_seq.mp h
    obtain ⟨rfl, hknown⟩ := hformat.mp hf
    rcases Pattern.matches_optional.mp hc with hc | ⟨rfl, rfl⟩
    · obtain ⟨rfl, hpacked⟩ := (Pattern.matches_oneOf_word compressions).mp hc
      exact ⟨rfl, List.mem_flatMap.mpr ⟨format, hknown, List.mem_cons_of_mem _ (List.mem_map_of_mem hpacked)⟩⟩
    · exact ⟨rfl, List.mem_flatMap.mpr ⟨format, hknown, by rw [List.append_nil]; exact List.mem_cons_self⟩⟩
  · rintro ⟨rfl, h⟩
    obtain ⟨format, hf, h⟩ := List.mem_flatMap.mp h
    rcases List.mem_cons.mp h with rfl | h
    · rw [← List.append_nil taken]
      exact Pattern.Matches.seq (hformat.mpr ⟨rfl, hf⟩) (Pattern.matches_optional.mpr (.inr ⟨rfl, rfl⟩))
    · obtain ⟨compression, hc, rfl⟩ := List.mem_map.mp h
      exact Pattern.Matches.seq (hformat.mpr ⟨rfl, hf⟩) (Pattern.matches_optional.mpr (.inl ((Pattern.matches_oneOf_word compressions).mpr ⟨rfl, hc⟩)))

/-- `$` allows for the end of the text, or for a last line feed. -/
theorem endsWith_iff {body suffix : List Char} : EndsWith body suffix f ↔ ∃ rest, f = body ++ suffix ++ rest ∧ (rest = [] ∨ rest = ['\n']) := by
  constructor
  · rintro (rfl | rfl)
    · exact ⟨[], by rw [List.append_nil], .inl rfl⟩
    · exact ⟨['\n'], rfl, .inr rfl⟩
  · rintro ⟨rest, rfl, rfl | rfl⟩
    · exact .inl (by rw [List.append_nil])
    · exact .inr rfl

/-- A pattern that goes to the end, after the directory of a repository. -/
theorem exists_matches_inCacheDir {body : Pattern} :
    (∃ taken rest, f = taken ++ rest ∧ (Pattern.seq cachedirRe (.seq (.char '/') body)).Matches group taken rest) ↔
      ∃ id text, InCacheDir id text f ∧ ∃ g taken rest, text = taken ++ rest ∧ body.Matches g taken rest ∧ group = g.or (some id) := by
  constructor
  · rintro ⟨taken, rest, rfl, h⟩
    obtain ⟨dir, inside, g, g', rfl, rfl, hdir, hinside⟩ := Pattern.matches_seq.mp h
    obtain ⟨id, hash, hcache, rfl, rfl⟩ := matches_cachedirRe.mp hdir
    obtain ⟨slash, path, g, g', rfl, rfl, hslash, hpath⟩ := Pattern.matches_seq.mp hinside
    obtain ⟨rfl, rfl⟩ := (Pattern.matches_char '/').mp hslash
    refine ⟨id, path ++ rest, ⟨hash, hcache, by simp⟩, g', path, rest, rfl, hpath, ?_⟩
    rw [Option.or_none]
  · rintro ⟨id, text, ⟨hash, hcache, rfl⟩, g, taken, rest, rfl, hbody, rfl⟩
    refine ⟨id ++ '-' :: hash ++ (['/'] ++ taken), rest, by simp, ?_⟩
    have hinside := Pattern.Matches.seq (t := ['/']) ((Pattern.matches_char '/').mpr ⟨rfl, rfl⟩) hbody
    rw [Option.or_none] at hinside
    exact Pattern.Matches.seq (matches_cachedirRe.mpr ⟨id, hash, hcache, rfl, rfl⟩) hinside

theorem dot_iff {body : List Char} : (∀ c ∈ body, Pattern.dot c = true) ↔ OnOneLine body := by
  simp only [Pattern.dot, decide_eq_true_iff, OnOneLine]

theorem matches_metadataRe : (∃ taken rest, f = taken ++ rest ∧ metadataRe.Matches group taken rest) ↔ ∃ id, group = some id ∧ MetadataOf id f := by
  rw [metadataRe, exists_matches_inCacheDir]
  constructor
  · rintro ⟨id, text, hin, g, taken, rest, rfl, h, rfl⟩
    obtain ⟨body, tail, g, g', rfl, rfl, hbody, htail⟩ := Pattern.matches_seq.mp h
    obtain ⟨rfl, hdots⟩ := Pattern.matches_many.mp hbody
    obtain ⟨suffix, ending, g, g', rfl, rfl, hsuffix, hending⟩ := Pattern.matches_seq.mp htail
    obtain ⟨rfl, hknown⟩ := matches_suffixRe.mp hsuffix
    obtain ⟨rfl, rfl, hrest⟩ := Pattern.matches_ending.mp hending
    exact ⟨id, rfl, body, suffix, _, hin, dot_iff.mp hdots, hknown, endsWith_iff.mpr ⟨rest, by simp, hrest⟩⟩
  · rintro ⟨id, rfl, body, suffix, text, hin, hbody, hsuffix, hends⟩
    obtain ⟨rest, rfl, hrest⟩ := endsWith_iff.mp hends
    refine ⟨id, _, hin, none, body ++ (suffix ++ []), rest, by simp, ?_, rfl⟩
    have hending := Pattern.matches_ending.mpr ⟨rfl, rfl, hrest⟩
    exact Pattern.Matches.seq (Pattern.matches_many.mpr ⟨rfl, dot_iff.mpr hbody⟩) (Pattern.Matches.seq (matches_suffixRe.mpr ⟨rfl, hsuffix⟩) hending)

theorem matches_packagesRe : (∃ taken rest, f = taken ++ rest ∧ packagesRe.Matches group taken rest) ↔ ∃ id, group = some id ∧ PackageOf id f := by
  rw [packagesRe, exists_matches_inCacheDir]
  constructor
  · rintro ⟨id, text, hin, g, taken, rest, rfl, h, rfl⟩
    obtain ⟨dir, inside, g, g', rfl, rfl, hdir, hinside⟩ := Pattern.matches_seq.mp h
    obtain ⟨rfl, rfl⟩ := (Pattern.matches_word _).mp hdir
    obtain ⟨slash, path, g, g', rfl, rfl, hslash, hpath⟩ := Pattern.matches_seq.mp hinside
    obtain ⟨rfl, rfl⟩ := (Pattern.matches_char '/').mp hslash
    obtain ⟨body, tail, g, g', rfl, rfl, hbody, htail⟩ := Pattern.matches_seq.mp hpath
    obtain ⟨rfl, hne, hdots⟩ := Pattern.matches_plus.mp hbody
    obtain ⟨suffix, ending, g, g', rfl, rfl, hsuffix, hending⟩ := Pattern.matches_seq.mp htail
    obtain ⟨rfl, rfl⟩ := (Pattern.matches_word _).mp hsuffix
    obtain ⟨rfl, rfl, hrest⟩ := Pattern.matches_ending.mp hending
    refine ⟨id, rfl, body, body ++ "rpm".toList ++ rest, ?_, hne, dot_iff.mp hdots, endsWith_iff.mpr ⟨rest, rfl, hrest⟩⟩
    simpa using hin
  · rintro ⟨id, rfl, body, text, hin, hne, hbody, hends⟩
    obtain ⟨rest, rfl, hrest⟩ := endsWith_iff.mp hends
    refine ⟨id, _, hin, none, "packages".toList ++ (['/'] ++ (body ++ ("rpm".toList ++ []))), rest, by simp, ?_, rfl⟩
    have hend := Pattern.Matches.seq ((Pattern.matches_word "rpm".toList).mpr ⟨rfl, rfl⟩) (Pattern.matches_ending.mpr ⟨rfl, rfl, hrest⟩)
    have hname := Pattern.Matches.seq (Pattern.matches_plus.mpr ⟨rfl, hne, dot_iff.mpr hbody⟩) hend
    exact Pattern.Matches.seq ((Pattern.matches_word "packages".toList).mpr ⟨rfl, rfl⟩) (Pattern.Matches.seq ((Pattern.matches_char '/').mpr ⟨rfl, rfl⟩) hname)

/-- The extension of a temporary file. -/
theorem matches_extension : (Pattern.optional (.seq (.char '.') (.plus Char.isAlphanum))).Matches group taken rest ↔
    group = none ∧ (taken = [] ∨ ∃ letters, letters ≠ [] ∧ (∀ c ∈ letters, c.isAlphanum = true) ∧ taken = '.' :: letters) := by
  rw [Pattern.matches_optional]
  constructor
  · rintro (h | ⟨rfl, rfl⟩)
    · obtain ⟨point, letters, g, g', rfl, rfl, hpoint, hletters⟩ := Pattern.matches_seq.mp h
      obtain ⟨rfl, rfl⟩ := (Pattern.matches_char '.').mp hpoint
      obtain ⟨rfl, hne, hall⟩ := Pattern.matches_plus.mp hletters
      exact ⟨rfl, .inr ⟨letters, hne, hall, rfl⟩⟩
    · exact ⟨rfl, .inl rfl⟩
  · rintro ⟨rfl, rfl | ⟨letters, hne, hall, rfl⟩⟩
    · exact .inr ⟨rfl, rfl⟩
    · exact .inl (Pattern.Matches.seq (t := ['.']) ((Pattern.matches_char '.').mpr ⟨rfl, rfl⟩) (Pattern.matches_plus.mpr ⟨rfl, hne, hall⟩))

theorem matches_dbcacheRe : (∃ taken rest, f = taken ++ rest ∧ dbcacheRe.Matches group taken rest) ↔ group = none ∧ SolvFile f := by
  have hsolv : ∀ {group taken rest}, (Pattern.oneOf [.word "solv".toList, .word "solvx".toList]).Matches group taken rest ↔
      group = none ∧ taken ∈ ["solv".toList, "solvx".toList] := Pattern.matches_oneOf_word ["solv".toList, "solvx".toList]
  constructor
  · rintro ⟨taken, rest, rfl, h⟩
    obtain ⟨body, tail, g, g', rfl, rfl, hbody, htail⟩ := Pattern.matches_seq.mp h
    obtain ⟨rfl, hne, hdots⟩ := Pattern.matches_plus.mp hbody
    obtain ⟨point, name, g, g', rfl, rfl, hpoint, hname⟩ := Pattern.matches_seq.mp htail
    obtain ⟨rfl, rfl⟩ := (Pattern.matches_char '.').mp hpoint
    obtain ⟨solv, last, g, g', rfl, rfl, hformat, hlast⟩ := Pattern.matches_seq.mp hname
    obtain ⟨rfl, hknown⟩ := hsolv.mp hformat
    obtain ⟨ext, ending, g, g', rfl, rfl, hext, hending⟩ := Pattern.matches_seq.mp hlast
    obtain ⟨rfl, hletters⟩ := matches_extension.mp hext
    obtain ⟨rfl, rfl, hrest⟩ := Pattern.matches_ending.mp hending
    refine ⟨rfl, body, '.' :: solv, ext, hne, dot_iff.mp hdots, ?_, hletters, endsWith_iff.mpr ⟨rest, by simp, hrest⟩⟩
    exact List.mem_map_of_mem (f := fun suffix => '.' :: suffix) hknown
  · rintro ⟨rfl, body, suffix, ext, hne, hbody, hsuffix, hext, hends⟩
    obtain ⟨rest, rfl, hrest⟩ := endsWith_iff.mp hends
    obtain ⟨solv, hknown, rfl⟩ : ∃ solv ∈ ["solv".toList, "solvx".toList], '.' :: solv = suffix :=
      List.mem_map.mp (show suffix ∈ ["solv".toList, "solvx".toList].map fun suffix => '.' :: suffix from hsuffix)
    refine ⟨body ++ (['.'] ++ (solv ++ (ext ++ []))), rest, by simp, ?_⟩
    have hend := Pattern.Matches.seq (matches_extension.mpr ⟨rfl, hext⟩) (Pattern.matches_ending.mpr ⟨rfl, rfl, hrest⟩)
    have htail := Pattern.Matches.seq ((Pattern.matches_char '.').mpr ⟨rfl, rfl⟩) (Pattern.Matches.seq (hsolv.mpr ⟨rfl, hknown⟩) hend)
    exact Pattern.Matches.seq (Pattern.matches_plus.mpr ⟨rfl, hne, dot_iff.mpr hbody⟩) htail

/-- A regular expression of `CACHE_FILES` finds the files of its kind. -/
theorem matched_iff (kind : CacheFile) : matched (CACHE_FILES kind) f = true ↔ IsCacheFile kind f := by
  have hfound : ∀ p : Pattern, matched p f = true ↔ ∃ group taken rest, f = taken ++ rest ∧ p.Matches group taken rest := by
    intro p
    rw [matched, Option.isSome_iff_exists, Pattern.exists_reMatch_iff]
  rw [hfound]
  cases kind with
  | metadata =>
      refine (exists_congr fun group => matches_metadataRe).trans ⟨?_, ?_⟩
      · rintro ⟨_, id, -, h⟩
        exact ⟨id, h⟩
      · rintro ⟨id, h⟩
        exact ⟨some id, id, rfl, h⟩
  | packages =>
      refine (exists_congr fun group => matches_packagesRe).trans ⟨?_, ?_⟩
      · rintro ⟨_, id, -, h⟩
        exact ⟨id, h⟩
      · rintro ⟨id, h⟩
        exact ⟨some id, id, rfl, h⟩
  | dbcache =>
      refine (exists_congr fun group => matches_dbcacheRe).trans ⟨?_, fun h => ⟨none, rfl, h⟩⟩
      rintro ⟨_, -, h⟩
      exact h

instance (kind : CacheFile) (f : List Char) : Decidable (IsCacheFile kind f) := decidable_of_iff _ (matched_iff kind)

/-- The ids that are read off the paths are those of the repositories with metadata. -/
theorem mem_cachedRepos {files : List (List Char)} {id : String} : id ∈ cachedRepos files ↔ ∃ f ∈ files, MetadataOf id.toList f := by
  rw [cachedRepos, List.mem_toFinset, List.mem_filterMap]
  refine exists_congr fun f => and_congr_right fun _ => ⟨fun h => ?_, fun h => ?_⟩
  · obtain ⟨found, hfound, hgroup⟩ := Option.bind_eq_some_iff.mp h
    obtain ⟨heq, hmatches⟩ := Pattern.matches_of_reMatch hfound
    obtain ⟨repoid, hrepoid, hmetadata⟩ := matches_metadataRe.mp ⟨_, _, heq, hmatches⟩
    rw [hrepoid] at hgroup
    obtain rfl : String.ofList repoid = id := Option.some.inj hgroup
    rwa [String.toList_ofList]
  · obtain ⟨found, hfound⟩ := Option.isSome_iff_exists.mp ((matched_iff (f := f) .metadata).mpr ⟨_, h⟩)
    obtain ⟨heq, hmatches⟩ := Pattern.matches_of_reMatch hfound
    obtain ⟨repoid, hrepoid, hmetadata⟩ := matches_metadataRe.mp ⟨_, _, heq, hmatches⟩
    refine Option.bind_eq_some_iff.mpr ⟨found, hfound, ?_⟩
    rw [hrepoid, Option.map_some, metadataOf_unique hmetadata h, String.ofList_toList]

/-! ### The walk -/

theorem normpath_join (root : List EntryName) (name : EntryName) : normpath (join [relpath root, name.text]) = relative (root ++ [name]) := by
  have hone : ([name] : List EntryName) ≠ [] := List.cons_ne_nil name []
  rw [relpath]
  split_ifs with hroot
  · rw [hroot, List.nil_append, join, List.foldl_cons, List.foldl_nil, joinStep_name name.no_slash (by simp) (by simp)]
    rw [show ['.'] ++ slashes 1 ++ name.text = '.' :: '/' :: relative [name] by rw [relative_singleton]; rfl]
    exact normpath_dot_relative hone
  · rw [join_relative hroot, normpath_relative (by simp)]

/-- The paths of all files that are walked over. -/
theorem mem_tree {walk : List Visit} : f ∈ tree walk ↔ ∃ visit ∈ walk, ∃ name ∈ visit.files, f = relative (visit.root ++ [name]) := by
  simp only [tree, List.mem_flatMap, List.mem_map, normpath_join, eq_comm]

/-! ### The loop -/

namespace CleanCommand

variable {command : CleanCommand} {patterns : List Pattern}

def path (command : CleanCommand) (f : List Char) : List Char := join [command.cachedir, f]

/-- The paths of the files that match. -/
def gone (command : CleanCommand) (patterns : List Pattern) (files : List (List Char)) : Finset (List Char) :=
  ((files.filter fun f => patterns.any fun p => matched p f).map command.path).toFinset

def times (patterns : List Pattern) (f : List Char) : Nat := patterns.countP fun p => matched p f

theorem filter_cons (files : List (List Char)) : filter (f :: files) patterns = List.replicate (times patterns f) f ++ filter files patterns := by
  rw [filter, List.flatMap_cons, List.map_const', ← List.countP_eq_length_filter]
  rfl

def step (command : CleanCommand) (count : Nat) (f : List Char) : Prog Nat := do
  command.unlinkF (command.path f)
  pure (count + 1)

/-- One file, as often as it is listed: the first time decides. -/
theorem foldlM_replicate (n count : Nat) (s : State) : (List.replicate n f).foldlM command.step count s =
    if n = 0 then .ok count s
    else if command.unlinkFails (command.path f) then .error .osError s
    else .ok (count + n) { s with files := s.files.erase (command.path f) } := by
  induction n generalizing count s with
  | zero => rfl
  | succ n ih =>
      rw [if_neg (Nat.succ_ne_zero n), List.replicate_succ, List.foldlM_cons, bind_apply, step, bind_apply, unlinkF]
      split_ifs with hfails
      · rfl
      · show (List.replicate n f).foldlM command.step (count + 1) { s with files := s.files.erase (command.path f) } = _
        rw [ih, if_neg hfails]
        split_ifs with hn
        · rw [hn]
        · rw [Finset.erase_idem, Nat.add_assoc, Nat.add_comm 1 n]

/-- How far the loop comes. -/
inductive Ended (command : CleanCommand) (patterns : List Pattern) (files : List (List Char)) (count : Nat) (s : State) : EStateM.Result Exc State Nat → Prop
  | all (hall : ∀ f ∈ files, times patterns f ≠ 0 → command.unlinkFails (command.path f) = false) :
      Ended command patterns files count s (.ok (count + (files.map (times patterns)).sum) { s with files := s.files \ command.gone patterns files })
  | failed (before f after) (hfiles : files = before ++ f :: after) (hbefore : ∀ g ∈ before, times patterns g ≠ 0 → command.unlinkFails (command.path g) = false)
      (hwanted : times patterns f ≠ 0) (hfails : command.unlinkFails (command.path f) = true) :
      Ended command patterns files count s (.error .osError { s with files := s.files \ command.gone patterns before })

theorem gone_nil : command.gone patterns [] = ∅ := rfl

theorem times_ne_zero : times patterns f ≠ 0 ↔ (patterns.any fun p => matched p f) = true := by
  rw [times, ← Nat.pos_iff_ne_zero, List.countP_pos_iff, List.any_eq_true]

theorem gone_cons (files : List (List Char)) :
    command.gone patterns (f :: files) = if times patterns f = 0 then command.gone patterns files else insert (command.path f) (command.gone patterns files) := by
  rw [gone, List.filter_cons]
  split_ifs with hany htimes htimes
  · exact absurd htimes (times_ne_zero.mpr hany)
  · rw [List.map_cons, List.toFinset_cons, gone]
  · rfl
  · exact absurd (times_ne_zero.mp htimes) hany

theorem not_fails_cons {files : List (List Char)} (hf : times patterns f ≠ 0 → command.unlinkFails (command.path f) = false)
    (hfiles : ∀ g ∈ files, times patterns g ≠ 0 → command.unlinkFails (command.path g) = false) :
    ∀ g ∈ f :: files, times patterns g ≠ 0 → command.unlinkFails (command.path g) = false := by
  intro g hg
  rcases List.mem_cons.mp hg with rfl | hg
  · exact hf
  · exact hfiles g hg

/-- A file that matches nothing changes nothing. -/
theorem Ended.skip {files : List (List Char)} {count : Nat} {s : State} {result : EStateM.Result Exc State Nat} (h : Ended command patterns files count s result)
    (hzero : times patterns f = 0) : Ended command patterns (f :: files) count s result := by
  have hf : times patterns f ≠ 0 → command.unlinkFails (command.path f) = false := fun hne => absurd hzero hne
  cases h with
  | all hall =>
      have hend := @Ended.all command patterns (f :: files) count s (not_fails_cons hf hall)
      rwa [gone_cons, if_pos hzero, List.map_cons, List.sum_cons, hzero, Nat.zero_add] at hend
  | failed before g after hfiles hbefore hwanted hfails =>
      have hend := @Ended.failed command patterns (f :: files) count s (f :: before) g after (by rw [hfiles]; rfl) (not_fails_cons hf hbefore) hwanted hfails
      rwa [gone_cons, if_pos hzero] at hend

/-- A file that is removed before the others. -/
theorem Ended.remove {files : List (List Char)} {count : Nat} {s : State} {result : EStateM.Result Exc State Nat}
    (h : Ended command patterns files (count + times patterns f) { s with files := s.files.erase (command.path f) } result)
    (hwanted : times patterns f ≠ 0) (hok : command.unlinkFails (command.path f) = false) : Ended command patterns (f :: files) count s result := by
  cases h with
  | all hall =>
      have hend := @Ended.all command patterns (f :: files) count s (not_fails_cons (fun _ => hok) hall)
      rwa [gone_cons, if_neg hwanted, Finset.sdiff_insert, ← Finset.erase_sdiff_comm, List.map_cons, List.sum_cons, ← Nat.add_assoc] at hend
  | failed before g after hfiles hbefore hg hfails =>
      have hend := @Ended.failed command patterns (f :: files) count s (f :: before) g after (by rw [hfiles]; rfl) (not_fails_cons (fun _ => hok) hbefore) hg hfails
      rwa [gone_cons, if_neg hwanted, Finset.sdiff_insert, ← Finset.erase_sdiff_comm] at hend

theorem clean_ended (files : List (List Char)) (count : Nat) (s : State) :
    Ended command patterns files count s ((filter files patterns).foldlM command.step count s) := by
  induction files generalizing count s with
  | nil =>
      have hall := @Ended.all command patterns [] count s fun f hf => absurd hf List.not_mem_nil
      rwa [gone_nil, Finset.sdiff_empty] at hall
  | cons f files ih =>
      rw [filter_cons, List.foldlM_append, bind_apply, foldlM_replicate]
      split_ifs with hzero hfails
      · exact (ih count s).skip hzero
      · have hend := @Ended.failed command patterns (f :: files) count s [] f files rfl (fun g hg => absurd hg List.not_mem_nil) hzero hfails
        rwa [gone_nil, Finset.sdiff_empty] at hend
      · exact (ih _ _).remove hzero (Bool.eq_false_of_not_eq_true hfails)

/-! ### The command -/

def Wanted (args : List Arg) (f : List Char) : Prop := ∃ kind ∈ kinds args, IsCacheFile kind f

theorem times_eq (args : List Arg) (f : List Char) : times ((kinds args).map CACHE_FILES) f = (kinds args).countP fun kind => IsCacheFile kind f := by
  rw [times, List.countP_map]
  refine List.countP_congr fun kind _ => ?_
  rw [Function.comp_apply, matched_iff, decide_eq_true_iff]

theorem times_ne_zero_iff {args : List Arg} : times ((kinds args).map CACHE_FILES) f ≠ 0 ↔ Wanted args f := by
  rw [times_eq, ← Nat.pos_iff_ne_zero, List.countP_pos_iff]
  simp only [decide_eq_true_iff, Wanted]

/-- What is left after the wanted of some files are removed. -/
def Left (command : CleanCommand) (args : List Arg) (files : List (List Char)) (before after : Finset (List Char)) : Prop :=
  ∀ path, path ∈ after ↔ path ∈ before ∧ ∀ f ∈ files, Wanted args f → path ≠ join [command.cachedir, f]

theorem left_sdiff_gone (args : List Arg) (files : List (List Char)) (before : Finset (List Char)) :
    command.Left args files before (before \ command.gone ((kinds args).map CACHE_FILES) files) := by
  intro path
  rw [Finset.mem_sdiff, gone, List.mem_toFinset, List.mem_map]
  refine and_congr_right fun _ => ⟨fun h f hf hwanted heq => h ⟨f, List.mem_filter.mpr ⟨hf, ?_⟩, heq.symm⟩, ?_⟩
  · exact times_ne_zero.mp (times_ne_zero_iff.mpr hwanted)
  · rintro h ⟨f, hf, rfl⟩
    obtain ⟨hf, hany⟩ := List.mem_filter.mp hf
    exact h f hf (times_ne_zero_iff.mp (times_ne_zero.mpr hany)) rfl

/-- The repositories with cached metadata are to expire, where this is wanted, and nothing else of the base changes. -/
structure Expired (command : CleanCommand) (args : List Arg) (before after : Persist.Base) : Prop where
  ids : ∀ id, id ∈ after.expiredToAdd ↔ id ∈ before.expiredToAdd ∨ .expireCache ∈ types args ∧ ∃ f ∈ tree command.walk, MetadataOf id.toList f
  others : after = { before with expiredToAdd := after.expiredToAdd }

def expiring (command : CleanCommand) (args : List Arg) (base : Persist.Base) : Persist.Base :=
  if .expireCache ∈ types args then { base with expiredToAdd := base.expiredToAdd ∪ cachedRepos (tree command.walk) } else base

theorem expired_expiring (args : List Arg) (base : Persist.Base) : command.Expired args base (command.expiring args base) := by
  rw [expiring]
  split_ifs with hexpire
  · refine ⟨fun id => ?_, rfl⟩
    rw [Finset.mem_union, mem_cachedRepos]
    exact or_congr_right (and_iff_right hexpire).symm
  · exact ⟨fun id => (or_iff_left fun h => hexpire h.1).symm, rfl⟩

theorem run_eq (args : List Arg) (s : State) : command.run args s =
    (filter (tree command.walk) ((kinds args).map CACHE_FILES)).foldlM command.step 0 { s with base := command.expiring args s.base } := by
  rw [run, bind_apply, expire, expiring]
  split_ifs <;> rfl

/-- What the next run makes of the record: a repository that had cached metadata is flagged. -/
def Refreshes (command : CleanCommand) (args : List Arg) (base : Persist.Base) : Prop :=
  ∀ aged record opts, (base.storePersistentData aged false).2 = some record → (Persist.Base.configure opts record).configured = true →
    .expireCache ∈ types args → ∀ r ∈ (Persist.Base.configure opts record).repos, (∃ f ∈ tree command.walk, MetadataOf r.id.toList f) → r.expired = true

theorem Expired.refreshes {args : List Arg} {before after : Persist.Base} (h : command.Expired args before after) : command.Refreshes args after := by
  intro aged record opts hstored hconfigured hexpire r hr hmetadata
  have hid : r.id ∈ after.expiredToAdd := (h.ids r.id).mpr (.inr ⟨hexpire, hmetadata⟩)
  have hrecord : r.id ∈ record := by
    rw [Persist.Base.storePersistentData] at hstored
    split_ifs at hstored
    exact Option.some.inj hstored ▸ Finset.mem_union_left _ hid
  have hflags := (Persist.configure_flags opts (Finset.Subset.refl record)).1 hconfigured r hr hrecord
  exact hflags.resolve_right (Finset.notMem_empty _)

/-- A run of `clean` removes exactly the cache files of the wanted types and counts each once for each of its types, unless a file cannot be removed: then those before it are gone. In both cases the repositories whose metadata is cached are to expire, where that is wanted, and the next run that finds them on record flags them. -/
theorem run_cleans (command : CleanCommand) (args : List Arg) (s : State) :
    match command.run args s with
    | .ok count t =>
        command.Left args (tree command.walk) s.files t.files ∧
          count = ((tree command.walk).map fun f => (kinds args).countP fun kind => IsCacheFile kind f).sum ∧
          command.Expired args s.base t.base ∧ command.Refreshes args t.base
    | .error _ t => ∃ before f after, tree command.walk = before ++ f :: after ∧ Wanted args f ∧ command.unlinkFails (join [command.cachedir, f]) = true ∧
        (∀ g ∈ before, Wanted args g → command.unlinkFails (join [command.cachedir, g]) = false) ∧ command.Left args before s.files t.files ∧ command.Expired args s.base t.base ∧ command.Refreshes args t.base := by
  have hexpired := @expired_expiring command args s.base
  have hended := @clean_ended command ((kinds args).map CACHE_FILES) (tree command.walk) 0 { s with base := command.expiring args s.base }
  rw [← run_eq] at hended
  generalize command.run args s = result at hended ⊢
  cases hended with
  | all hall =>
      refine ⟨left_sdiff_gone args _ s.files, ?_, hexpired, hexpired.refreshes⟩
      rw [Nat.zero_add]
      exact congrArg List.sum (List.map_congr_left fun f _ => times_eq args f)
  | failed before f after hfiles hbefore hwanted hfails =>
      have hpassed : ∀ g ∈ before, Wanted args g → command.unlinkFails (join [command.cachedir, g]) = false :=
        fun g hg hwanted => hbefore g hg (times_ne_zero_iff.mpr hwanted)
      exact ⟨before, f, after, hfiles, times_ne_zero_iff.mp hwanted, hfails, hpassed, left_sdiff_gone args before s.files, hexpired, hexpired.refreshes⟩

end CleanCommand

end Dnf.Cli.Clean
