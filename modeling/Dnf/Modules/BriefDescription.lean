import Dnf.Cli.FmtColumns
import Dnf.Foundation.PyStr
import Mathlib.Data.Char
import Mathlib.Data.List.Lex
import Mathlib.Data.List.Sort

/-!
# The listing of modules

`_get_brief_description` fills one table with a line for each stream and prints it line by line. The lines have no repository: three counters say with which line the next repository begins, and its header is put in front of that line.

Tables are printed by a library. It prints the headings with the first line that is printed and not again, so `_format_header` takes them from a first print of line 0.
-/

namespace Dnf.Modules.BriefDescription

open Foundation
open Dnf.Cli.FmtColumns (Term)

/-- `ModulePackageContainer` with the repositories that have a name: what they answer about a module. -/
structure Container (Module : Type) where
  getName : Module → List Char
  getStream : Module → List Char
  getSummary : Module → List Char
  getRepoID : Module → List Char
  getProfiles : Module → List (List Char)
  isModuleActive : Module → Bool
  isEnabled : Module → Bool
  isDisabled : Module → Bool
  getDefaultStream : List Char → List Char
  getDefaultProfiles : List Char → List Char → List (List Char)
  getInstalledProfiles : List Char → List (List Char)
  repos : List Char → Option (List Char)

structure TableLine where
  name : List Char
  stream : List Char
  profiles : List Char
  summary : List Char

structure Table where
  infoHidden : Bool
  lines : List TableLine
  headingsPrinted : Bool := false

section Cells

variable {Module : Type} (c : Container Module)

/-- `_module_strs_formatter` -/
def moduleStrsFormatter (m : Module) (markActive : Bool) : List Char × List Char × List Char :=
  let defaultStr := if c.getStream m = c.getDefaultStream (c.getName m) then " [d]".toList else []
  let space := if defaultStr = [] then [' '] else []
  let enabledStr := if c.isEnabled m then space ++ "[e]".toList else []
  let disabledStr := if !c.isEnabled m && c.isDisabled m then space ++ "[x]".toList else []
  -- without a default the mark of a disabled stream is written over
  let disabledStr :=
    if markActive && c.isModuleActive m then (if defaultStr = [] then [' '] else disabledStr) ++ "[a]".toList else disabledStr
  (defaultStr, enabledStr, disabledStr)

/-- `_profile_report_formatter` -/
def profileReportFormatter (m : Module) (defaultProfiles : List (List Char)) (enabledStr : List Char) : List Char :=
  let installedProfiles := c.getInstalledProfiles (c.getName m)
  let sorted := (c.getProfiles m).insertionSort (· ≤ ·)
  let profilesStr := sorted.flatMap fun profile =>
    profile ++ (if defaultProfiles.contains profile then " [d]".toList else []) ++
      if installedProfiles.contains profile && enabledStr ≠ [] then " [i], ".toList else ", ".toList
  profilesStr.dropLast.dropLast

def isSpace (char : Char) : Bool := PyStr.isSpace char.toNat

/-- `_summary_report_formatter` -/
def summaryReportFormatter (summary : List Char) : List Char :=
  (((summary.dropWhile isSpace).reverse.dropWhile isSpace).reverse).map fun char => if char = '\n' then ' ' else char

/-- The module that stands for a stream; `none` is the `IndexError` of an empty list. -/
def chooseModule (nameStreamArch : List Module) : Option Module :=
  match nameStreamArch with
  | [m] => some m
  | modules =>
      match modules.filter c.isModuleActive with
      | m :: _ => some m
      | [] => modules.head?

def tableLine (m : Module) : TableLine :=
  let (defaultStr, enabledStr, disabledStr) := moduleStrsFormatter c m false
  { name := c.getName m
    stream := c.getStream m ++ defaultStr ++ enabledStr ++ disabledStr
    profiles := profileReportFormatter c m (c.getDefaultProfiles (c.getName m) (c.getStream m)) enabledStr
    summary := summaryReportFormatter (c.getSummary m) }

/-- `_create_and_fill_table` -/
def createAndFillTable (verbose : Bool) (latest : List (List (List Module))) : Option Table :=
  (latest.flatten.mapM fun nameStreamArch => (chooseModule c nameStreamArch).map (tableLine c)).map fun lines => { infoHidden := !verbose, lines := lines }

/-- The name of the repository of the first module of a list, or its id where it is not among the repositories. -/
def repoNameOf (latestPerRepo : List (List Module)) : Option (List Char) := do
  let nameStreamArch ← latestPerRepo.head?
  let m ← nameStreamArch.head?
  pure ((c.repos (c.getRepoID m)).getD (c.getRepoID m))

end Cells

section Print

variable {Module : Type} (c : Container Module) (term : Term) (render : Table → Nat → List Char)

/-- `table.toString(line, line)` of one line. -/
def Table.toString (table : Table) (i : Nat) : List Char × Table := (render table i, { table with headingsPrinted := true })

/-- `_format_header` -/
def formatHeader (table : Table) : List Char × Table :=
  let (text, table) := table.toString render 0
  (text.takeWhile (· ≠ '\n') ++ ['\n'], table)

/-- `_format_repoid` -/
def formatRepoid (repoName : List Char) : List Char := term.bold ++ repoName ++ term.normal ++ ['\n']

/-- The variables of the loop. -/
structure Printing where
  table : Table
  currentRepoIdIndex : Nat
  alreadyPrintedLines : Nat
  versions : Nat
  strTable : List Char

def Printing.print (s : Printing) (i : Nat) : Printing :=
  let (text, table) := s.table.toString render i
  { s with table := table, strTable := s.strTable ++ text }

/-- One turn of the loop; `none` is an `IndexError`. -/
def Printing.step (latest : List (List (List Module))) (header : List Char) (s : Printing) (i : Nat) : Option Printing :=
  if s.versions + s.alreadyPrintedLines ≤ i then
    (latest[s.currentRepoIdIndex + 1]?).bind fun latestPerRepo =>
      (repoNameOf c latestPerRepo).map fun repoName =>
        Printing.print render
          { table := s.table
            currentRepoIdIndex := s.currentRepoIdIndex + 1
            alreadyPrintedLines := s.alreadyPrintedLines + s.versions
            versions := latestPerRepo.length
            strTable := s.strTable ++ ['\n'] ++ formatRepoid term repoName ++ header } i
  else some (s.print render i)

def moduleTableHint : List Char := "\n\nHint: [d]efault, [e]nabled, [x]disabled, [i]nstalled".toList

/-- `_get_brief_description`, for what `getLatestModulesPerRepo` returns. -/
def getBriefDescription (verbose : Bool) (latest : List (List (List Module))) : Option (List Char) :=
  match latest with
  | [] => some []
  | latestPerRepo :: _ => do
      let table ← createAndFillTable c verbose latest
      let repoName ← repoNameOf c latestPerRepo
      let (header, table) := formatHeader render table
      let start : Printing :=
        { table := table
          currentRepoIdIndex := 0
          alreadyPrintedLines := 0
          versions := latestPerRepo.length
          strTable := formatRepoid term repoName ++ header }
      let s ← (List.range table.lines.length).foldlM (Printing.step c term render latest header) start
      pure (s.strTable ++ moduleTableHint)

end Print

/-! ### What is chosen -/

section Choice

variable {Module : Type} {c : Container Module} {latest : List (List (List Module))} {latestPerRepo : List (List Module)}

/-- Only active modules, where there are several and one of them is active. -/
theorem exists_chooseModule (nameStreamArch : List Module) (hne : nameStreamArch ≠ []) :
    ∃ m ∈ nameStreamArch, chooseModule c nameStreamArch = some m := by
  unfold chooseModule
  split
  · exact ⟨_, List.mem_singleton_self _, rfl⟩
  · cases hactive : nameStreamArch.filter c.isModuleActive with
    | cons m rest => exact ⟨m, (List.mem_filter.mp (hactive ▸ List.mem_cons_self : m ∈ nameStreamArch.filter c.isModuleActive)).1, rfl⟩
    | nil =>
        obtain ⟨m, rest, rfl⟩ := List.exists_cons_of_ne_nil hne
        exact ⟨m, List.mem_cons_self, rfl⟩

theorem exists_mapM {α β : Type} {f : α → Option β} {items : List α} (hf : ∀ x ∈ items, ∃ y, f x = some y) :
    ∃ answers, items.mapM f = some answers ∧ answers.map some = items.map f := by
  induction items with
  | nil => exact ⟨[], rfl, rfl⟩
  | cons x items ih =>
      obtain ⟨y, hy⟩ := hf x List.mem_cons_self
      obtain ⟨answers, hanswers, hmap⟩ := ih fun z hz => hf z (List.mem_cons_of_mem x hz)
      refine ⟨y :: answers, ?_, ?_⟩
      · rw [List.mapM_cons, hy, hanswers]
        rfl
      · rw [List.map_cons, List.map_cons, hy, hmap]

/-- The table has a line for each stream, in order. -/
theorem createAndFillTable_eq (verbose : Bool) (hmodules : ∀ latestPerRepo ∈ latest, ∀ modules ∈ latestPerRepo, modules ≠ []) :
    ∃ lines, createAndFillTable c verbose latest = some { infoHidden := !verbose, lines := lines } ∧
      lines.map some = latest.flatten.map fun modules => (chooseModule c modules).map (tableLine c) := by
  have hchosen : ∀ modules ∈ latest.flatten, ∃ line, (chooseModule c modules).map (tableLine c) = some line := by
    intro modules hmem
    obtain ⟨latestPerRepo, hrepo, hstream⟩ := List.mem_flatten.mp hmem
    obtain ⟨m, -, hm⟩ := @exists_chooseModule _ c modules (hmodules latestPerRepo hrepo modules hstream)
    exact ⟨tableLine c m, by rw [hm]; rfl⟩
  obtain ⟨lines, hlines, hmap⟩ := exists_mapM hchosen
  exact ⟨lines, by rw [createAndFillTable, hlines]; rfl, hmap⟩

theorem repoNameOf_eq (hstreams : latestPerRepo ≠ []) (hmodules : ∀ modules ∈ latestPerRepo, modules ≠ []) :
    ∃ m ∈ latestPerRepo.flatten, repoNameOf c latestPerRepo = some ((c.repos (c.getRepoID m)).getD (c.getRepoID m)) := by
  obtain ⟨modules, streams, rfl⟩ := List.exists_cons_of_ne_nil hstreams
  obtain ⟨m, rest, rfl⟩ := List.exists_cons_of_ne_nil (hmodules modules List.mem_cons_self)
  exact ⟨m, by simp, rfl⟩

end Choice

/-! ### The loop -/

section Loop

variable {Module : Type} {c : Container Module} {term : Term} {render : Table → Nat → List Char}
  {latest front rest : List (List (List Module))} {header : List Char} {s : Printing} {n start : Nat} {latestPerRepo : List (List Module)}

theorem print_eq (hprinted : s.table.headingsPrinted = true) (i : Nat) :
    s.print render i = { s with strTable := s.strTable ++ render s.table i } := by
  obtain ⟨⟨infoHidden, lines, headingsPrinted⟩, _, _, _, _⟩ := s
  obtain rfl : headingsPrinted = true := hprinted
  rfl

/-- Within a repository the lines follow each other. -/
theorem foldlM_within (hprinted : s.table.headingsPrinted = true) (hwithin : start + n ≤ s.versions + s.alreadyPrintedLines) :
    (List.range' start n).foldlM (Printing.step c term render latest header) s =
      some { s with strTable := s.strTable ++ (List.range' start n).flatMap (render s.table) } := by
  induction n generalizing start s with
  | zero =>
      rw [List.range'_zero, List.flatMap_nil, List.append_nil]
      rfl
  | succ n ih =>
      have hnext : ¬s.versions + s.alreadyPrintedLines ≤ start := by omega
      rw [List.range'_succ, List.foldlM_cons, Printing.step, if_neg hnext, print_eq hprinted]
      refine (@ih { s with strTable := s.strTable ++ render s.table start } (start + 1) hprinted ?_).trans ?_
      · simp only
        omega
      · rw [List.flatMap_cons, ← List.append_assoc]

/-- Its lines below the header of a repository. -/
def block (term : Term) (render : Table → Nat → List Char) (table : Table) (header repoName : List Char) (lines : List Nat) : List Char :=
  formatRepoid term repoName ++ header ++ lines.flatMap (render table)

/-- The first line behind those of a repository is printed below the next header. -/
theorem foldlM_next {repoName : List Char} (hprinted : s.table.headingsPrinted = true) (hget : latest[s.currentRepoIdIndex + 1]? = some latestPerRepo)
    (hname : repoNameOf c latestPerRepo = some repoName) (hstreams : latestPerRepo ≠ []) :
    (List.range' (s.versions + s.alreadyPrintedLines) latestPerRepo.length).foldlM (Printing.step c term render latest header) s =
      some { table := s.table
             currentRepoIdIndex := s.currentRepoIdIndex + 1
             alreadyPrintedLines := s.alreadyPrintedLines + s.versions
             versions := latestPerRepo.length
             strTable := s.strTable ++ '\n' ::
               block term render s.table header repoName (List.range' (s.versions + s.alreadyPrintedLines) latestPerRepo.length) } := by
  obtain ⟨n, hn⟩ := Nat.exists_eq_succ_of_ne_zero (mt List.length_eq_zero_iff.mp hstreams)
  rw [hn, List.range'_succ, List.foldlM_cons, Printing.step, if_pos (Nat.le_refl _), hget, Option.bind_some, hname, Option.map_some]
  rw [print_eq (by exact hprinted)]
  refine (foldlM_within (by exact hprinted) ?_).trans ?_
  · simp only
    omega
  · simp only [block, List.flatMap_cons, List.append_assoc, List.cons_append, List.nil_append, hn]

/-- The numbers of the lines of each repository. -/
def numbered : Nat → List (List (List Module)) → List (List Nat)
  | _, [] => []
  | start, latestPerRepo :: rest => List.range' start latestPerRepo.length :: numbered (start + latestPerRepo.length) rest

theorem numbered_cons (start : Nat) (latestPerRepo : List (List Module)) (rest : List (List (List Module))) :
    numbered start (latestPerRepo :: rest) = List.range' start latestPerRepo.length :: numbered (start + latestPerRepo.length) rest := rfl

theorem flatten_numbered (start : Nat) (latest : List (List (List Module))) : (numbered start latest).flatten = List.range' start latest.flatten.length := by
  induction latest generalizing start with
  | nil => rfl
  | cons latestPerRepo rest ih =>
      rw [numbered_cons, List.flatten_cons, ih, List.flatten_cons, List.length_append, ← List.range'_append_1]

theorem length_numbered (start : Nat) (latest : List (List (List Module))) : (numbered start latest).length = latest.length := by
  induction latest generalizing start with
  | nil => rfl
  | cons latestPerRepo rest ih => rw [numbered_cons, List.length_cons, ih, List.length_cons]

/-- All repositories that follow, each with a line break in front of it. -/
theorem foldlM_rest (hprinted : s.table.headingsPrinted = true) (hlatest : latest = front ++ rest) (hindex : s.currentRepoIdIndex + 1 = front.length)
    (hstreams : ∀ latestPerRepo ∈ rest, latestPerRepo ≠ []) (hnames : ∀ latestPerRepo ∈ rest, ∃ repoName, repoNameOf c latestPerRepo = some repoName) :
    ∃ s' names, (List.range' (s.versions + s.alreadyPrintedLines) rest.flatten.length).foldlM (Printing.step c term render latest header) s = some s' ∧
      rest.map (repoNameOf c) = names.map some ∧
      s'.strTable = s.strTable ++ (List.zipWith (block term render s.table header) names (numbered (s.versions + s.alreadyPrintedLines) rest)).flatMap ('\n' :: ·) := by
  induction rest generalizing s front with
  | nil => exact ⟨s, [], rfl, rfl, (List.append_nil _).symm⟩
  | cons latestPerRepo rest ih =>
      obtain ⟨repoName, hname⟩ := hnames latestPerRepo List.mem_cons_self
      have hget : latest[s.currentRepoIdIndex + 1]? = some latestPerRepo := by
        rw [hlatest, hindex, List.getElem?_append_right (Nat.le_refl _), Nat.sub_self]
        rfl
      have hfirst := @foldlM_next _ c term render latest header s latestPerRepo repoName hprinted hget hname (hstreams latestPerRepo List.mem_cons_self)
      obtain ⟨s', names, hrun, hmap, htext⟩ := @ih (front ++ [latestPerRepo])
        { table := s.table
          currentRepoIdIndex := s.currentRepoIdIndex + 1
          alreadyPrintedLines := s.alreadyPrintedLines + s.versions
          versions := latestPerRepo.length
          strTable := s.strTable ++ '\n' ::
            block term render s.table header repoName (List.range' (s.versions + s.alreadyPrintedLines) latestPerRepo.length) }
        hprinted (by rw [hlatest, List.append_assoc]; rfl) (by simp [hindex])
        (fun g hg => hstreams g (List.mem_cons_of_mem _ hg)) fun g hg => hnames g (List.mem_cons_of_mem _ hg)
      have hcounters : latestPerRepo.length + (s.alreadyPrintedLines + s.versions) = s.versions + s.alreadyPrintedLines + latestPerRepo.length := by omega
      simp only [hcounters] at hrun htext
      refine ⟨s', repoName :: names, ?_, by rw [List.map_cons, List.map_cons, hname, hmap], ?_⟩
      · rw [List.flatten_cons, List.length_append, ← List.range'_append_1, List.foldlM_append, hfirst]
        exact hrun
      · rw [htext, numbered_cons, List.zipWith_cons_cons, List.flatMap_cons, List.append_assoc]

end Loop

/-! ### The whole text -/

section Whole

variable {Module : Type} {c : Container Module} {term : Term} {render : Table → Nat → List Char} {table : Table} {header : List Char}
  {latest : List (List (List Module))} {names : List (List Char)}

/-- A repository of the listing: its header and below it a line for each of its streams. Where all its modules are from one repository, the header has the name of that one. -/
structure Block (c : Container Module) (term : Term) (render : Table → Nat → List Char) (table : Table) (header : List Char)
    (latestPerRepo : List (List Module)) (lines : List Nat) (text : List Char) : Prop where
  filled : lines.map (table.lines[·]?) = latestPerRepo.map fun modules => (chooseModule c modules).map (tableLine c)
  chosen : ∀ modules ∈ latestPerRepo, ∃ m ∈ modules, chooseModule c modules = some m
  shown : ∃ m ∈ latestPerRepo.flatten, text = block term render table header ((c.repos (c.getRepoID m)).getD (c.getRepoID m)) lines
  repo : ∀ id, (∀ m ∈ latestPerRepo.flatten, c.getRepoID m = id) → text = block term render table header ((c.repos id).getD id) lines

theorem map_getElem?_range' {front group back : List (Option TableLine)} (hlines : table.lines.map some = front ++ group ++ back) :
    (List.range' front.length group.length).map (table.lines[·]?) = group := by
  have hget (i : Nat) : table.lines[i]? = ((front ++ group ++ back)[i]?).join := by
    rw [← hlines, List.getElem?_map]
    cases table.lines[i]? <;> rfl
  refine List.ext_getElem (by simp) fun i hi hgroup => ?_
  rw [List.getElem_map, List.getElem_range', Nat.one_mul, hget, List.append_assoc, List.getElem?_append_right (Nat.le_add_right _ _),
    Nat.add_sub_cancel_left, List.getElem?_append_left hgroup, List.getElem?_eq_getElem hgroup]
  rfl

theorem forall₂_block (hstreams : ∀ latestPerRepo ∈ latest, latestPerRepo ≠ [])
    (hmodules : ∀ latestPerRepo ∈ latest, ∀ modules ∈ latestPerRepo, modules ≠ []) (hnames : latest.map (repoNameOf c) = names.map some)
    {front : List (Option TableLine)} (hlines : table.lines.map some = front ++ latest.flatten.map fun modules => (chooseModule c modules).map (tableLine c)) :
    List.Forall₂ (fun latestPerRepo b => Block c term render table header latestPerRepo b.1 b.2) latest
      ((numbered front.length latest).zip (List.zipWith (block term render table header) names (numbered front.length latest))) := by
  induction latest generalizing names front with
  | nil => exact .nil
  | cons latestPerRepo rest ih =>
      cases names with
      | nil => cases hnames
      | cons name names =>
          rw [List.map_cons, List.map_cons, List.cons.injEq] at hnames
          rw [List.flatten_cons, List.map_append, ← List.append_assoc] at hlines
          obtain ⟨m, hm, hname⟩ := repoNameOf_eq (c := c) (hstreams latestPerRepo List.mem_cons_self) (hmodules latestPerRepo List.mem_cons_self)
          obtain rfl : _ = name := Option.some.inj (hname.symm.trans hnames.1)
          refine .cons ⟨?_, ?_, ⟨m, hm, rfl⟩, ?_⟩ ?_
          · have := map_getElem?_range' hlines
            rwa [List.length_map] at this
          · intro modules hmem
            exact exists_chooseModule modules (hmodules latestPerRepo List.mem_cons_self modules hmem)
          · intro id hid
            rw [hid m hm]
          · have := ih (fun g hg => hstreams g (List.mem_cons_of_mem _ hg)) (fun g hg => hmodules g (List.mem_cons_of_mem _ hg)) hnames.2 hlines
            rwa [List.length_append, List.length_map] at this

theorem intercalate_cons (sep text : List Char) (texts : List (List Char)) : sep.intercalate (text :: texts) = text ++ texts.flatMap (sep ++ ·) := by
  induction texts generalizing text with
  | nil => simp
  | cons next texts ih => rw [List.intercalate_cons_cons, ih, List.flatMap_cons, List.append_assoc, List.append_assoc]

end Whole

end Dnf.Modules.BriefDescription
