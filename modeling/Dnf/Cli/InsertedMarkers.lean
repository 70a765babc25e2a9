import Dnf.Cli.TermSub
import Mathlib.Data.List.Chain
import Mathlib.Data.List.Induction
import Mathlib.Data.List.Infix
import Mathlib.Tactic.SplitIfs

/-!
# Highlighting inserts markers and nothing else

As long as no occurrence of a needle has a character of a marker in it, each pair stays as it is put in: around an occurrence of its needle in the haystack. An empty needle occurs between any two characters, also those of a marker.
-/

namespace Dnf.Cli.TermSub

open Foundation.Segments

section Property

variable (same : Char → Char → Bool) (beg fin : List Char)

/-- An occurrence of the needle in the haystack. -/
structure Occurs (haystack needle : List Char) (found : List Glyph) : Prop where
  part : found <:+: glyphs haystack
  compared : List.Forall₂ (fun c g => same c (Glyph.char g) = true) needle found

/-- The markers of a pair stand in the text, each in one piece, with the characters of the haystack between them that the pair was put around. -/
def Placed (text : List Glyph) (pair : Nat) (group : List Glyph) : Prop :=
  ∃ front inside back, text = front ++ marker pair false beg ++ inside ++ marker pair true fin ++ back ∧ original inside = original group

/-- The output is the haystack with pairs of markers, each of them around an occurrence of its needle in the haystack. -/
structure OnlyInserts (icase : Char → Char → Bool) (haystack : List Char) (needles : List (List Char)) (ignoreCase : Bool) : Prop where
  output : (highlight (compares icase ignoreCase) beg fin haystack needles).text.map Glyph.char = sub true icase haystack beg fin needles ignoreCase
  kept : original (highlight (compares icase ignoreCase) beg fin haystack needles).text = glyphs haystack
  around : ∀ pair needle group, (highlight (compares icase ignoreCase) beg fin haystack needles).pairs[pair]? = some (needle, group) →
    needle ∈ needles ∧ Occurs (compares icase ignoreCase) haystack needle (original group) ∧
      Placed beg fin (highlight (compares icase ignoreCase) beg fin haystack needles).text pair group

/-- No occurrence that is found has a character of a marker in it; and before an empty needle there is no pair yet, or no marker has an inside. -/
structure Clear (s : Highlighting) (needle : List Char) : Prop where
  outside : ∀ group, .hit group ∈ s.segments same needle → ∀ g ∈ group, g.isText = true
  gap : needle = [] → s.pairs ≠ [] → beg.length ≤ 1 ∧ fin.length ≤ 1

/-- Each needle is clear of the markers of those before it. -/
def EveryStepClear (haystack : List Char) (needles : List (List Char)) : Prop :=
  ∀ before needle after, needles = before ++ needle :: after → Clear same beg fin (highlight same beg fin haystack before) needle

end Property

section Weave

variable {same : Char → Char → Bool} {beg fin : List Char}

theorem isText_of_mem_glyphs {haystack : List Char} {g : Glyph} (h : g ∈ glyphs haystack) : g.isText = true := by
  obtain ⟨i, hi, rfl⟩ := List.mem_mapIdx.mp h
  rfl

theorem not_isText_of_mem_marker {pair : Nat} {closing : Bool} {text : List Char} {g : Glyph} (h : g ∈ marker pair closing text) : g.isText = false := by
  obtain ⟨i, hi, rfl⟩ := List.mem_mapIdx.mp h
  rfl

theorem original_marker (pair : Nat) (closing : Bool) (text : List Char) : original (marker pair closing text) = [] :=
  List.filter_eq_nil_iff.mpr fun _ hg => Bool.eq_false_iff.mp (not_isText_of_mem_marker hg)

theorem original_append (text text' : List Glyph) : original (text ++ text') = original text ++ original text' := List.filter_append _ _

theorem original_of_all {text : List Glyph} (h : ∀ g ∈ text, g.isText = true) : original text = text := List.filter_eq_self.mpr h

theorem weave_nil (pair : Nat) : weave beg fin pair [] = [] := rfl

theorem weave_skip (pair : Nat) (g : Glyph) (rest : List (Segment Glyph)) : weave beg fin pair (.skip g :: rest) = g :: weave beg fin pair rest := rfl

theorem weave_hit (pair : Nat) (group : List Glyph) (rest : List (Segment Glyph)) : weave beg fin pair (.hit group :: rest) =
    marker pair false beg ++ group ++ marker pair true fin ++ weave beg fin (pair + 1) rest := rfl

/-- Only markers with numbers from the next one on are put in. -/
theorem filter_weave (p : Glyph → Bool) (segs : List (Segment Glyph)) {next : Nat}
    (hp : ∀ pair, next ≤ pair → ∀ closing text, (marker pair closing text).filter p = []) :
    (weave beg fin next segs).filter p = (segs.flatMap Segment.text).filter p := by
  induction segs generalizing next with
  | nil => rfl
  | cons seg rest ih =>
      cases seg with
      | skip g =>
          rw [weave_skip, List.flatMap_cons, List.filter_append, ← ih hp]
          exact List.filter_append [g] _
      | hit group =>
          rw [weave_hit, List.flatMap_cons, List.filter_append, List.filter_append, List.filter_append, hp next le_rfl, hp next le_rfl,
            ih fun pair hpair => hp pair (Nat.le_of_succ_le hpair), List.filter_append, List.nil_append, List.append_nil]
          rfl

theorem original_weave (next : Nat) (segs : List (Segment Glyph)) : original (weave beg fin next segs) = original (segs.flatMap Segment.text) :=
  filter_weave Glyph.isText segs fun pair _ closing text => original_marker pair closing text

theorem weave_append (pair : Nat) (segs segs' : List (Segment Glyph)) :
    weave beg fin pair (segs ++ segs') = weave beg fin pair segs ++ weave beg fin (pair + (groups segs).length) segs' := by
  induction segs generalizing pair with
  | nil => rfl
  | cons seg rest ih =>
      cases seg with
      | skip g => exact congrArg (g :: ·) (ih pair)
      | hit group =>
          have hlength : (groups (.hit group :: rest)).length = (groups rest).length + 1 := rfl
          rw [List.cons_append, weave_hit, ih, weave_hit, hlength, Nat.add_right_comm, ← List.append_assoc, Nat.add_assoc]

theorem weave_skips (pair : Nat) (text : List Glyph) : weave beg fin pair (text.map .skip) = text := by
  induction text with
  | nil => rfl
  | cons g text ih => exact congrArg (g :: ·) ih

/-- A part of the haystack can be cut where the text between has markers. -/
theorem exists_split {text front back : List Glyph} (h : original text = front ++ back) :
    ∃ text₁ text₂, text = text₁ ++ text₂ ∧ original text₁ = front ∧ original text₂ = back := List.filter_eq_append_iff.mp h

/-! ### A marker that no occurrence has a part in -/

theorem exists_skip {segs : List (Segment Glyph)} {front back : List Glyph} {g : Glyph} (houtside : ∀ group, .hit group ∈ segs → ∀ g ∈ group, g.isText = true)
    (hg : g.isText = false) (htext : segs.flatMap Segment.text = front ++ g :: back) :
    ∃ segs₁ segs₂, segs = segs₁ ++ .skip g :: segs₂ ∧ segs₁.flatMap Segment.text = front ∧ segs₂.flatMap Segment.text = back := by
  induction segs generalizing front with
  | nil => exact absurd htext.symm (List.append_ne_nil_of_right_ne_nil _ (List.cons_ne_nil g back))
  | cons seg rest ih =>
      have hrest : ∀ group, .hit group ∈ rest → ∀ g ∈ group, g.isText = true := fun group hgroup => houtside group (List.mem_cons_of_mem _ hgroup)
      rw [List.flatMap_cons] at htext
      -- where the piece ends in front of the marker, the marker is in the rest
      have hlater (front' : List Glyph) (hfront : front = seg.text ++ front') (hback : rest.flatMap Segment.text = front' ++ g :: back) :
          ∃ segs₁ segs₂, seg :: rest = segs₁ ++ .skip g :: segs₂ ∧ segs₁.flatMap Segment.text = front ∧ segs₂.flatMap Segment.text = back := by
        obtain ⟨segs₁, segs₂, hsegs, hfront', hback'⟩ := ih hrest hback
        exact ⟨seg :: segs₁, segs₂, by rw [hsegs]; rfl, by rw [List.flatMap_cons, hfront', hfront], hback'⟩
      rcases List.append_eq_append_iff.mp htext with ⟨front', hfront, hback⟩ | ⟨inside, hseg, hback⟩
      · exact hlater front' hfront hback
      · cases inside with
        | nil => exact hlater [] (by rw [List.append_nil, hseg, List.append_nil]) hback.symm
        | cons x inside =>
            obtain ⟨rfl, hinside⟩ := List.cons.inj hback
            cases seg with
            | skip a =>
                obtain ⟨rfl, hnil⟩ | ⟨front', rfl, hnil⟩ := List.append_eq_cons_iff.mp hseg.symm
                · obtain ⟨rfl, rfl⟩ := List.cons.inj hnil
                  exact ⟨[], rest, rfl, rfl, hinside.symm⟩
                · exact absurd hnil.symm (List.append_ne_nil_of_right_ne_nil _ (List.cons_ne_nil _ _))
            | hit group =>
                have htrue := houtside group List.mem_cons_self g (show g ∈ Segment.text (.hit group) from hseg ▸ List.mem_append_right _ List.mem_cons_self)
                exact Bool.noConfusion (hg.symm.trans htrue)

/-- Behind it, where no occurrence is empty. -/
theorem exists_skips_front {segs : List (Segment Glyph)} {text back : List Glyph} (houtside : ∀ group, .hit group ∈ segs → ∀ g ∈ group, g.isText = true)
    (hne : ∀ group, .hit group ∈ segs → group ≠ []) (hmarker : ∀ g ∈ text, g.isText = false) (htext : segs.flatMap Segment.text = text ++ back) :
    ∃ segs₂, segs = text.map .skip ++ segs₂ ∧ segs₂.flatMap Segment.text = back := by
  induction text generalizing segs with
  | nil => exact ⟨segs, rfl, htext⟩
  | cons g text ih =>
      cases segs with
      | nil => cases htext
      | cons seg rest =>
          cases seg with
          | skip a =>
              obtain ⟨rfl, hrest⟩ := List.cons.inj htext
              obtain ⟨segs₂, rfl, hback⟩ := ih (fun group hgroup => houtside group (List.mem_cons_of_mem _ hgroup))
                (fun group hgroup => hne group (List.mem_cons_of_mem _ hgroup)) (fun g hg => hmarker g (List.mem_cons_of_mem _ hg)) hrest
              exact ⟨segs₂, rfl, hback⟩
          | hit group =>
              obtain ⟨x, group, rfl⟩ := List.exists_cons_of_ne_nil (hne group List.mem_cons_self)
              obtain ⟨rfl, -⟩ := List.cons.inj htext
              exact Bool.noConfusion ((hmarker x List.mem_cons_self).symm.trans (houtside _ List.mem_cons_self x List.mem_cons_self))

theorem exists_skips {segs : List (Segment Glyph)} {front text back : List Glyph} (houtside : ∀ group, .hit group ∈ segs → ∀ g ∈ group, g.isText = true)
    (htight : text.length ≤ 1 ∨ ∀ group, .hit group ∈ segs → group ≠ []) (hmarker : ∀ g ∈ text, g.isText = false) (hne : text ≠ [])
    (htext : segs.flatMap Segment.text = front ++ text ++ back) :
    ∃ segs₁ segs₂, segs = segs₁ ++ text.map .skip ++ segs₂ ∧ segs₁.flatMap Segment.text = front ∧ segs₂.flatMap Segment.text = back := by
  obtain ⟨g, text, rfl⟩ := List.exists_cons_of_ne_nil hne
  rw [List.append_assoc] at htext
  obtain ⟨segs₁, segs₂, rfl, hfront, hback⟩ := exists_skip houtside (hmarker g List.mem_cons_self) htext
  rcases htight with hone | hhits
  · obtain rfl : text = [] := List.length_eq_zero_iff.mp (Nat.le_zero.mp (Nat.le_of_succ_le_succ hone))
    exact ⟨segs₁, segs₂, by rw [List.append_assoc]; rfl, hfront, hback⟩
  · have hlater (group : List Glyph) (hgroup : .hit group ∈ segs₂) : .hit group ∈ segs₁ ++ .skip g :: segs₂ :=
      List.mem_append_right _ (List.mem_cons_of_mem _ hgroup)
    obtain ⟨segs₃, rfl, hlast⟩ := exists_skips_front (fun group hgroup => houtside group (hlater group hgroup))
      (fun group hgroup => hhits group (hlater group hgroup)) (fun g hg => hmarker g (List.mem_cons_of_mem _ hg)) hback
    exact ⟨segs₁, segs₃, by rw [List.append_assoc]; rfl, hfront, hlast⟩

end Weave

/-! ### Pairs that are in the text, and those that are put in -/

section Placing

variable {beg fin : List Char} {segs : List (Segment Glyph)} {pair next : Nat} {group : List Glyph}

theorem length_marker (pair : Nat) (closing : Bool) (text : List Char) : (marker pair closing text).length = text.length := List.length_mapIdx

theorem marker_eq_nil (pair : Nat) (closing : Bool) {text : List Char} : marker pair closing text = [] ↔ text = [] := List.mapIdx_eq_nil_iff

/-- A marker stays in one piece, and what is in front of it and behind it stays there. -/
theorem exists_marker {front back : List Glyph} {closing : Bool} {text : List Char} (houtside : ∀ group, .hit group ∈ segs → ∀ g ∈ group, g.isText = true)
    (htight : text.length ≤ 1 ∨ ∀ group, .hit group ∈ segs → group ≠ []) (htext : segs.flatMap Segment.text = front ++ marker pair closing text ++ back) :
    ∃ front' back', weave beg fin next segs = front' ++ marker pair closing text ++ back' ∧ original front' = original front ∧ original back' = original back := by
  by_cases hnil : marker pair closing text = []
  · rw [hnil, List.append_nil] at htext
    rw [hnil]
    have horiginal : original (weave beg fin next segs) = original front ++ original back := by rw [original_weave, htext, original_append]
    obtain ⟨front', back', hweave, hfront, hback⟩ := exists_split horiginal
    exact ⟨front', back', by rw [List.append_nil]; exact hweave, hfront, hback⟩
  · obtain ⟨segs₁, segs₂, rfl, hfront, hback⟩ := exists_skips houtside (htight.imp_left ((length_marker pair closing text).trans_le ·))
      (fun _ hg => not_isText_of_mem_marker hg) hnil htext
    refine ⟨weave beg fin next segs₁, _, by rw [weave_append, weave_append, weave_skips], ?_, ?_⟩
    · rw [original_weave, hfront]
    · rw [original_weave, hback]

/-- A pair stays as it is put in. -/
theorem Placed.weave {text : List Glyph} (h : Placed beg fin text pair group) (houtside : ∀ group, .hit group ∈ segs → ∀ g ∈ group, g.isText = true)
    (htight : (beg.length ≤ 1 ∧ fin.length ≤ 1) ∨ ∀ group, .hit group ∈ segs → group ≠ []) (htext : segs.flatMap Segment.text = text) (next : Nat) :
    Placed beg fin (weave beg fin next segs) pair group := by
  obtain ⟨front, inside, back, rfl, hinside⟩ := h
  by_cases hfin : marker pair true fin = []
  · -- the place of an empty marker is a cut of what is behind the opening one
    rw [hfin, List.append_nil, List.append_assoc] at htext
    obtain ⟨front', back', hweave, -, hback⟩ := @exists_marker beg fin segs pair next _ _ false beg houtside (htight.imp_left And.left) htext
    obtain ⟨inside', last, rfl, hinside', -⟩ := exists_split (hback.trans (original_append _ _))
    exact ⟨front', inside', last, by rw [hweave, hfin, List.append_nil]; simp only [List.append_assoc], hinside'.trans hinside⟩
  · obtain ⟨segs₁, segs₂, rfl, hfront, -⟩ := exists_skips houtside (htight.imp_left fun h => (length_marker pair true fin).trans_le h.2)
      (fun _ hg => not_isText_of_mem_marker hg) hfin htext
    have hmem (group : List Glyph) (hgroup : .hit group ∈ segs₁) : .hit group ∈ segs₁ ++ (marker pair true fin).map .skip ++ segs₂ :=
      List.mem_append_left _ (List.mem_append_left _ hgroup)
    obtain ⟨front', inside', hweave, -, hinside'⟩ := @exists_marker beg fin segs₁ pair next _ _ false beg (fun group hgroup => houtside group (hmem group hgroup))
      (htight.imp And.left fun h group hgroup => h group (hmem group hgroup)) hfront
    exact ⟨front', inside', _, by rw [weave_append, weave_append, weave_skips, hweave], hinside'.trans hinside⟩

theorem Placed.append_left {text : List Glyph} (h : Placed beg fin text pair group) (front : List Glyph) : Placed beg fin (front ++ text) pair group := by
  obtain ⟨front', inside, back, rfl, hinside⟩ := h
  exact ⟨front ++ front', inside, back, by simp only [List.append_assoc], hinside⟩

/-- A pair that is put in stands around what it is put around. -/
theorem placed_weave {k : Nat} (h : (groups segs)[k]? = some group) (next : Nat) : Placed beg fin (weave beg fin next segs) (next + k) group := by
  induction segs generalizing k next with
  | nil => cases h
  | cons seg rest ih =>
      cases seg with
      | skip g => exact (ih h next).append_left [g]
      | hit group' =>
          cases k with
          | zero =>
              obtain rfl := Option.some.inj h
              exact ⟨[], group', weave beg fin (next + 1) rest, rfl, rfl⟩
          | succ k =>
              have hrest := ih (k := k) h (next + 1)
              rw [Nat.add_right_comm] at hrest
              exact hrest.append_left _

end Placing

/-! ### Clear steps -/

section Clear

variable {same : Char → Char → Bool} {beg fin haystack needle : List Char} {needles : List (List Char)} {s : Highlighting} {group : List Glyph}

theorem mem_groups {segs : List (Segment Glyph)} : group ∈ groups segs ↔ .hit group ∈ segs := by
  rw [groups, List.mem_filterMap]
  constructor
  · rintro ⟨seg, hseg, hgroup⟩
    cases seg with
    | skip g => cases hgroup
    | hit group' => exact Option.some.inj hgroup ▸ hseg
  · exact fun h => ⟨.hit group, h, rfl⟩

theorem Highlighting.text_segments (s : Highlighting) (needle : List Char) : (s.segments same needle).flatMap Segment.text = s.text :=
  Foundation.Segments.text_segments needle s.text

theorem Highlighting.part_of_hit (h : .hit group ∈ s.segments same needle) : group <:+: s.text := by
  obtain ⟨segs₁, segs₂, hsegs⟩ := List.append_of_mem h
  refine ⟨segs₁.flatMap Segment.text, segs₂.flatMap Segment.text, ?_⟩
  rw [← @Highlighting.text_segments same s needle, hsegs, List.flatMap_append, List.flatMap_cons, List.append_assoc]
  rfl

/-- What is found in a text outside of its markers is in the haystack. -/
theorem Clear.occurs (h : Clear same beg fin s needle) (hkept : original s.text = glyphs haystack) (hgroup : .hit group ∈ s.segments same needle) :
    Occurs same haystack needle (original group) := by
  constructor
  · exact hkept ▸ (s.part_of_hit hgroup).filter _
  · rw [original_of_all (h.outside group hgroup)]
    exact matches_of_mem_segments hgroup

/-- Where nothing has gone wrong. -/
structure Highlighting.Good (same : Char → Char → Bool) (beg fin haystack : List Char) (needles : List (List Char)) (s : Highlighting) : Prop where
  kept : original s.text = glyphs haystack
  around : ∀ pair needle group, s.pairs[pair]? = some (needle, group) →
    needle ∈ needles ∧ Occurs same haystack needle (original group) ∧ Placed beg fin s.text pair group

theorem original_step (s : Highlighting) (needle : List Char) : original (s.step same beg fin needle).text = original s.text := by
  rw [Highlighting.step, original_weave, s.text_segments]

theorem Highlighting.Good.step (hs : s.Good same beg fin haystack needles) (hneedle : needle ∈ needles) (hclear : Clear same beg fin s needle) :
    (s.step same beg fin needle).Good same beg fin haystack needles := by
  refine ⟨(original_step s needle).trans hs.kept, fun pair needle' group hpair => ?_⟩
  rw [Highlighting.step] at hpair
  rcases Nat.lt_or_ge pair s.pairs.length with hold | hnew
  · rw [List.getElem?_append_left hold] at hpair
    obtain ⟨hmem, hoccurs, hplaced⟩ := hs.around pair needle' group hpair
    refine ⟨hmem, hoccurs, hplaced.weave hclear.outside ?_ (s.text_segments needle) _⟩
    by_cases hempty : needle = []
    · exact Or.inl (hclear.gap hempty (List.ne_nil_of_length_pos (Nat.zero_lt_of_lt hold)))
    · refine Or.inr fun group hgroup hnil => hempty ?_
      exact List.forall₂_nil_right_iff.mp (hnil ▸ matches_of_mem_segments hgroup)
  · rw [List.getElem?_append_right hnew, List.getElem?_map, Option.map_eq_some_iff] at hpair
    obtain ⟨group', hgroup, heq⟩ := hpair
    obtain ⟨rfl, rfl⟩ := Prod.mk.inj heq
    refine ⟨hneedle, hclear.occurs hs.kept (mem_groups.mp (List.mem_of_getElem? hgroup)), ?_⟩
    have hplaced := @placed_weave beg fin _ group' _ hgroup s.pairs.length
    rwa [Nat.add_sub_of_le hnew] at hplaced

theorem highlight_concat (haystack : List Char) (needles : List (List Char)) (needle : List Char) :
    highlight same beg fin haystack (needles ++ [needle]) = (highlight same beg fin haystack needles).step same beg fin needle := List.foldl_concat ..

/-- Clear steps keep everything as it should be. -/
theorem good_highlight (h : EveryStepClear same beg fin haystack needles) {front : List (List Char)} (hfront : front <+: needles) :
    (highlight same beg fin haystack front).Good same beg fin haystack needles := by
  induction front using List.reverseRecOn with
  | nil => exact ⟨original_of_all fun _ => isText_of_mem_glyphs, fun _ _ _ hpair => nomatch hpair⟩
  | append_singleton front needle ih =>
      obtain ⟨after, hafter⟩ := hfront
      rw [List.append_assoc] at hafter
      rw [highlight_concat]
      exact (ih ⟨_, hafter⟩).step (hafter ▸ List.mem_append_right _ List.mem_cons_self) (h front needle after hafter.symm)

end Clear

/-! ### Steps that are not clear -/

/-- From the haystack, or from a pair with a smaller number. -/
def Glyph.older (n : Nat) (g : Glyph) : Bool :=
  match g.origin with
  | .text _ => true
  | .marker pair _ _ => pair < n

section Older

variable {same : Char → Char → Bool} {beg fin haystack needle : List Char} {s : Highlighting} {group : List Glyph} {n next pair : Nat} {closing : Bool}
  {text : List Char} {g : Glyph}

theorem older_of_mem_marker (h : g ∈ marker pair closing text) : g.older n = decide (pair < n) := by
  obtain ⟨i, hi, rfl⟩ := List.mem_mapIdx.mp h
  rfl

theorem older_of_isText (h : g.isText = true) (n : Nat) : g.older n = true := by
  obtain ⟨char, origin⟩ := g
  cases origin with
  | text pos => rfl
  | marker => cases h

theorem Glyph.older_mono {m n : Nat} (hmn : m ≤ n) (h : g.older m = true) : g.older n = true := by
  obtain ⟨char, origin⟩ := g
  cases origin with
  | text pos => rfl
  | marker pair closing i => exact decide_eq_true ((of_decide_eq_true h).trans_le hmn)

theorem filter_older_marker (h : n ≤ pair) (closing : Bool) (text : List Char) : (marker pair closing text).filter (Glyph.older n) = [] := by
  refine List.filter_eq_nil_iff.mpr fun g hg => ?_
  rw [older_of_mem_marker hg, decide_eq_true_iff]
  exact Nat.not_lt.mpr h

/-- The pairs of a text have the numbers up to how many they are. -/
theorem older_of_mem_weave {segs : List (Segment Glyph)} (hsegs : ∀ g ∈ segs.flatMap Segment.text, g.older next = true) :
    ∀ g ∈ weave beg fin next segs, g.older (next + (groups segs).length) = true := by
  induction segs generalizing next with
  | nil => exact nofun
  | cons seg rest ih =>
      rw [List.flatMap_cons] at hsegs
      cases seg with
      | skip a =>
          intro g hg
          rcases List.mem_cons.mp hg with rfl | hrest
          · exact Glyph.older_mono (Nat.le_add_right _ _) (hsegs g List.mem_cons_self)
          · exact ih (fun g hg => hsegs g (List.mem_cons_of_mem _ hg)) g hrest
      | hit group =>
          have hnew : next < next + (groups (.hit group :: rest)).length := Nat.lt_add_of_pos_right (Nat.succ_pos _)
          intro g hg
          rw [weave_hit, List.mem_append, List.mem_append, List.mem_append] at hg
          rcases hg with ((hbeg | hgroup) | hfin) | hrest
          · exact (older_of_mem_marker hbeg).trans (decide_eq_true hnew)
          · exact Glyph.older_mono hnew.le (hsegs g (List.mem_append_left _ hgroup))
          · exact (older_of_mem_marker hfin).trans (decide_eq_true hnew)
          · have hlater := @ih (next + 1) (fun g hg => Glyph.older_mono (Nat.le_succ _) (hsegs g (List.mem_append_right _ hg))) g hrest
            rwa [Nat.add_right_comm] at hlater

def Highlighting.Older (s : Highlighting) : Prop := ∀ g ∈ s.text, g.older s.pairs.length = true

theorem Highlighting.Older.step (hs : s.Older) (needle : List Char) : (s.step same beg fin needle).Older := by
  have hweave := @older_of_mem_weave beg fin s.pairs.length (s.segments same needle) (by rwa [s.text_segments])
  intro g hg
  rw [Highlighting.step, List.length_append, List.length_map]
  exact hweave g hg

/-- The pairs so far stay, and so does the text without later pairs. -/
theorem run_steps (needles : List (List Char)) (s : Highlighting) : (∃ more, (needles.foldl (Highlighting.step same beg fin) s).pairs = s.pairs ++ more) ∧
    ∀ n ≤ s.pairs.length, (needles.foldl (Highlighting.step same beg fin) s).text.filter (Glyph.older n) = s.text.filter (Glyph.older n) := by
  induction needles generalizing s with
  | nil => exact ⟨⟨[], (List.append_nil _).symm⟩, fun _ _ => rfl⟩
  | cons needle needles ih =>
      obtain ⟨⟨more, hmore⟩, htext⟩ := ih (s.step same beg fin needle)
      refine ⟨⟨(groups (s.segments same needle)).map (fun group => (needle, group)) ++ more, by rw [List.foldl_cons, hmore, ← List.append_assoc]; rfl⟩, fun n hn => ?_⟩
      rw [List.foldl_cons, htext n (by rw [Highlighting.step, List.length_append]; exact Nat.le_add_right_of_le hn), Highlighting.step,
        filter_weave (Glyph.older n) _ fun pair hpair => filter_older_marker (hn.trans hpair), s.text_segments]

theorem older_highlight (haystack : List Char) (needles : List (List Char)) : (highlight same beg fin haystack needles).Older := by
  induction needles using List.reverseRecOn with
  | nil => exact fun g hg => older_of_isText (isText_of_mem_glyphs hg) _
  | append_singleton needles needle ih =>
      rw [highlight_concat]
      exact ih.step needle

theorem new_pair (hn : n ≤ next) : ∀ g ∈ marker next false beg ++ marker next true fin, g.older n = false := by
  intro g hg
  rcases List.mem_append.mp hg with hbeg | hfin
  · exact (older_of_mem_marker hbeg).trans (decide_eq_false (Nat.not_lt.mpr hn))
  · exact (older_of_mem_marker hfin).trans (decide_eq_false (Nat.not_lt.mpr hn))

theorem isChain_append_new {block text : List Glyph} (hblock : ∀ g ∈ block, g.older n = false)
    (htext : text.IsChain fun g g' => g.older n = true → g'.older n = false) :
    (block ++ text).IsChain fun g g' => g.older n = true → g'.older n = false := by
  induction block with
  | nil => exact htext
  | cons g block ih =>
      refine (ih fun g hg => hblock g (List.mem_cons_of_mem _ hg)).cons fun g' _ hold => ?_
      exact Bool.noConfusion ((hblock g List.mem_cons_self).symm.trans hold)

/-- With an empty needle a new marker stands behind every character, also behind one of a marker. -/
theorem isChain_weave_gaps (hmarkers : beg ++ fin ≠ []) (text : List Glyph) (hn : n ≤ next) :
    (weave beg fin next (gaps text)).IsChain (fun g g' => g.older n = true → g'.older n = false) ∧
      ∀ g ∈ (weave beg fin next (gaps text)).head?, g.older n = false := by
  induction text generalizing next with
  | nil =>
      have hnew : ∀ g ∈ marker next false beg ++ marker next true fin, g.older n = false := new_pair hn
      rw [gaps_nil, weave_hit, weave_nil, List.append_nil, List.append_nil]
      exact ⟨(List.append_nil (marker next false beg ++ _)) ▸ isChain_append_new hnew .nil, fun g hg => hnew g (List.mem_of_mem_head? hg)⟩
  | cons g rest ih =>
      obtain ⟨hchain, hhead⟩ := ih (Nat.le_succ_of_le hn)
      have hweave : weave beg fin next (gaps (g :: rest)) =
          (marker next false beg ++ marker next true fin) ++ g :: weave beg fin (next + 1) (gaps rest) := by
        rw [gaps_cons, weave_hit, weave_skip, List.append_nil]
      rw [hweave]
      constructor
      · exact isChain_append_new (new_pair hn) (hchain.cons fun g' hg' _ => hhead g' hg')
      · intro g' hg'
        rw [List.head?_append_of_ne_nil _ ?_] at hg'
        · exact new_pair hn g' (List.mem_of_mem_head? hg')
        · rw [ne_eq, List.append_eq_nil_iff, marker_eq_nil, marker_eq_nil, ← List.append_eq_nil_iff]
          exact hmarkers

/-- A marker with an inside does not outlast an empty needle. -/
theorem length_le_of_part (hpair : pair < s.pairs.length) (hmarkers : beg ++ fin ≠ [])
    (hpart : marker pair closing text <:+: (s.step same beg fin []).text) : text.length ≤ 1 := by
  match text, hpart with
  | [], _ => exact Nat.zero_le 1
  | [_], _ => exact le_rfl
  | c :: d :: text, hpart =>
      have hchain := (@isChain_weave_gaps beg fin s.pairs.length s.pairs.length hmarkers s.text le_rfl).1
      rw [Highlighting.step, show s.segments same [] = gaps s.text from rfl] at hpart
      have hold : ∀ g ∈ marker pair closing (c :: d :: text), g.older s.pairs.length = true := fun g hg =>
        (older_of_mem_marker hg).trans (decide_eq_true hpair)
      obtain ⟨tail, hmarker⟩ : ∃ tail, marker pair closing (c :: d :: text) = ⟨c, .marker pair closing 0⟩ :: ⟨d, .marker pair closing 1⟩ :: tail :=
        ⟨_, by rw [marker, annotate, List.mapIdx_cons, List.mapIdx_cons]⟩
      have hpiece := hchain.infix hpart
      rw [hmarker] at hpiece hold
      have hnew := (List.isChain_cons_cons.mp hpiece).1 (hold _ List.mem_cons_self)
      exact Bool.noConfusion (hnew.symm.trans (hold _ (List.mem_cons_of_mem _ List.mem_cons_self)))

/-- A marker that is in one piece in the end has been so all along. -/
theorem part_of_run {needles : List (List Char)} (holder : s.Older) (hpair : pair < s.pairs.length)
    (hpart : marker pair closing text <:+: (needles.foldl (Highlighting.step same beg fin) s).text) : marker pair closing text <:+: s.text := by
  have hfiltered := hpart.filter (Glyph.older s.pairs.length)
  rw [(run_steps needles s).2 _ le_rfl, List.filter_eq_self.mpr holder] at hfiltered
  rwa [List.filter_eq_self.mpr fun g hg => (older_of_mem_marker hg).trans (decide_eq_true hpair)] at hfiltered

/-- Around what is found outside of the haystack there is no occurrence in it. -/
theorem isText_of_occurs (hgroup : .hit group ∈ s.segments same needle) (h : Occurs same haystack needle (original group)) : ∀ g ∈ group, g.isText = true := by
  have hlength : (original group).length = group.length := h.compared.length_eq.symm.trans (matches_of_mem_segments hgroup).length_eq
  exact List.length_filter_eq_length_iff.mp hlength

end Older

/-! ### Needles that share nothing with the markers -/

section Apart

variable {same : Char → Char → Bool} {beg fin haystack : List Char} {needles : List (List Char)} {g : Glyph} {next : Nat}

theorem char_mem_of_mem_marker {pair : Nat} {closing : Bool} {text : List Char} (h : g ∈ marker pair closing text) : g.char ∈ text :=
  char_annotate (.marker pair closing) text ▸ List.mem_map_of_mem h

theorem char_of_mem_weave {segs : List (Segment Glyph)} (h : g ∈ weave beg fin next segs) : g ∈ segs.flatMap Segment.text ∨ g.char ∈ beg ++ fin := by
  induction segs generalizing next with
  | nil => cases h
  | cons seg rest ih =>
      rw [List.flatMap_cons, List.mem_append]
      cases seg with
      | skip a =>
          rcases List.mem_cons.mp h with rfl | hrest
          · exact Or.inl (Or.inl List.mem_cons_self)
          · exact (ih hrest).imp_left Or.inr
      | hit group =>
          rw [weave_hit, List.mem_append, List.mem_append, List.mem_append] at h
          rcases h with ((hbeg | hgroup) | hfin) | hrest
          · exact Or.inr (List.mem_append_left _ (char_mem_of_mem_marker hbeg))
          · exact Or.inl (Or.inl hgroup)
          · exact Or.inr (List.mem_append_right _ (char_mem_of_mem_marker hfin))
          · exact (ih hrest).imp_left Or.inr

theorem char_of_mem_highlight (needles : List (List Char)) : ∀ g ∈ (highlight same beg fin haystack needles).text, g.isText = true ∨ g.char ∈ beg ++ fin := by
  induction needles using List.reverseRecOn with
  | nil => exact fun g hg => Or.inl (isText_of_mem_glyphs hg)
  | append_singleton needles needle ih =>
      rw [highlight_concat]
      intro g hg
      rcases char_of_mem_weave hg with hold | hnew
      · rw [Highlighting.text_segments] at hold
        exact ih g hold
      · exact Or.inr hnew

/-- No needle is empty or has a character that a marker has. -/
theorem everyStepClear_of_apart (hne : [] ∉ needles) (hapart : ∀ needle ∈ needles, ∀ c ∈ needle, ∀ d ∈ beg ++ fin, same c d = false) :
    EveryStepClear same beg fin haystack needles := by
  intro before needle after hneedles
  have hmem : needle ∈ needles := hneedles ▸ List.mem_append_right _ List.mem_cons_self
  refine ⟨fun group hgroup g hg => ?_, fun hempty => absurd (hempty ▸ hmem) hne⟩
  refine (char_of_mem_highlight before g ((Highlighting.part_of_hit hgroup).subset hg)).resolve_right fun hmarker => ?_
  obtain ⟨k, hk, rfl⟩ := List.getElem_of_mem hg
  have hmatches := matches_of_mem_segments hgroup
  have hsame := hmatches.get (hmatches.length_eq ▸ hk) hk
  exact Bool.noConfusion ((hapart needle hmem _ (List.get_mem needle _) _ hmarker).symm.trans hsame)

end Apart

/-! ### The exact condition -/

section Exact

variable {beg fin haystack : List Char} {needles : List (List Char)}

theorem Highlighting.Good.outside {same : Char → Char → Bool} {s : Highlighting} {needle : List Char} {after : List (List Char)} {group : List Glyph}
    (h : (after.foldl (Highlighting.step same beg fin) (s.step same beg fin needle)).Good same beg fin haystack needles)
    (hgroup : .hit group ∈ s.segments same needle) : ∀ g ∈ group, g.isText = true := by
  obtain ⟨⟨more, hpairs⟩, -⟩ := @run_steps same beg fin after (s.step same beg fin needle)
  have hmem : (needle, group) ∈ (after.foldl (Highlighting.step same beg fin) (s.step same beg fin needle)).pairs := by
    rw [hpairs]
    exact List.mem_append_left _ (List.mem_append_right _ (List.mem_map_of_mem (mem_groups.mpr hgroup)))
  obtain ⟨pair, hpair⟩ := List.mem_iff_getElem?.mp hmem
  exact isText_of_occurs hgroup (h.around pair needle group hpair).2.1

theorem Highlighting.Good.gap {same : Char → Char → Bool} {s : Highlighting} {after : List (List Char)}
    (h : (after.foldl (Highlighting.step same beg fin) (s.step same beg fin [])).Good same beg fin haystack needles) (holder : s.Older) (hne : s.pairs ≠ []) :
    beg.length ≤ 1 ∧ fin.length ≤ 1 := by
  obtain ⟨⟨first, group⟩, pairs, hfirst⟩ := List.exists_cons_of_ne_nil hne
  obtain ⟨⟨more, hpairs⟩, -⟩ := @run_steps same beg fin after (s.step same beg fin [])
  have hpair : (after.foldl (Highlighting.step same beg fin) (s.step same beg fin [])).pairs[0]? = some (first, group) := by
    rw [hpairs, Highlighting.step, hfirst]
    rfl
  obtain ⟨front, inside, back, htext, -⟩ := (h.around 0 first group hpair).2.2
  have hpos : 0 < s.pairs.length := List.length_pos_iff.mpr hne
  -- both markers of the first pair are still there after the empty needle
  have hpart {closing : Bool} {text : List Char} (hpart : marker 0 closing text <:+: (after.foldl (Highlighting.step same beg fin) (s.step same beg fin [])).text) :
      marker 0 closing text <:+: (s.step same beg fin []).text := by
    refine part_of_run (holder.step []) ?_ hpart
    rw [Highlighting.step, List.length_append]
    exact Nat.add_pos_left hpos _
  by_cases hmarkers : beg ++ fin = []
  · obtain ⟨rfl, rfl⟩ := List.append_eq_nil_iff.mp hmarkers
    exact ⟨Nat.zero_le 1, Nat.zero_le 1⟩
  · have hbeg : marker 0 false beg <:+: (after.foldl (Highlighting.step same beg fin) (s.step same beg fin [])).text :=
      ⟨front, inside ++ marker 0 true fin ++ back, by rw [htext]; simp only [List.append_assoc]⟩
    exact ⟨length_le_of_part hpos hmarkers (hpart hbeg), length_le_of_part hpos hmarkers (hpart ⟨_, back, htext.symm⟩)⟩

/-- Only markers are put in, around occurrences in the haystack, exactly where each needle is clear of the markers of those before it. -/
theorem onlyInserts_iff (icase : Char → Char → Bool) (ignoreCase : Bool) :
    OnlyInserts beg fin icase haystack needles ignoreCase ↔ EveryStepClear (compares icase ignoreCase) beg fin haystack needles := by
  constructor
  · intro h before needle after hneedles
    have hgood : (highlight (compares icase ignoreCase) beg fin haystack needles).Good (compares icase ignoreCase) beg fin haystack needles := ⟨h.kept, h.around⟩
    rw [show highlight (compares icase ignoreCase) beg fin haystack needles =
        after.foldl (Highlighting.step (compares icase ignoreCase) beg fin)
          ((highlight (compares icase ignoreCase) beg fin haystack before).step (compares icase ignoreCase) beg fin needle) by
      rw [hneedles, highlight, List.foldl_append, List.foldl_cons]
      rfl] at hgood
    refine ⟨fun group hgroup => hgood.outside hgroup, ?_⟩
    rintro rfl hne
    exact hgood.gap (older_highlight haystack before) hne
  · intro h
    have hgood := good_highlight h List.prefix_rfl
    exact ⟨char_highlight icase haystack needles ignoreCase, hgood.kept, hgood.around⟩

end Exact

/-! ### A needle in a marker -/

def boldBeg : List Char := ['\x1b', '[', '1', 'm']

def boldFin : List Char := ['\x1b', '[', '0', 'm']

/-- `1` is in the marker that has been put in front of `a`: the output is not the haystack with markers around `a`. -/
theorem not_onlyInserts_one :
    sub true (fun c d => c.toLower = d.toLower) ['a'] boldBeg boldFin [['a'], ['1']] false =
        ['\x1b', '['] ++ boldBeg ++ ['1'] ++ boldFin ++ ['m', 'a'] ++ boldFin ∧
      ¬OnlyInserts boldBeg boldFin (fun c d => c.toLower = d.toLower) ['a'] [['a'], ['1']] false := by
  refine ⟨by decide, fun h => ?_⟩
  have hpair : (highlight (compares (fun c d => c.toLower = d.toLower) false) boldBeg boldFin ['a'] [['a'], ['1']]).pairs[1]? =
      some (['1'], [⟨'1', .marker 0 false 2⟩]) := by decide
  -- of what the pair is put around nothing is from the haystack
  cases (h.around 1 _ _ hpair).2.1.compared

end Dnf.Cli.TermSub
