/-
Where the scan finds code spans, and where it does not.

The leaves of a document and the pieces of their content are the landmarks of the scan.
The parser knows where each code span stands; the scan looks for it again behind the
landmark before it.  So it finds all of them exactly when each is in sight in its turn.
That fails when a run of backticks that the parser has passed over stands in the way: one
in the destination or the title of a link, in an image, or behind a backslash and other
backticks.
-/
import DirectiveFences.Proofs.Inert
import DirectiveFences.Proofs.Recording
import DirectiveFences.Stage

namespace DirectiveFences.Scan

open Markdown
open Text (split lineStart)

/-! ## The landmarks of a text -/

/-- A piece of the content of a block that ends at `limit`. -/
def pieceMark (limit : Nat) (content : List Placed) : Piece → Landmark
  | .code ticks _ start stop => .code ticks limit (sourceRange content start stop)
  | .html cs _ _ => .html limit cs
  | .autolink _ _ => .autolink limit

/-- A leaf and the pieces of its content. -/
def leafMarks (lines : Array Range) (keys : List (List Char)) : Leaf → List Landmark
  | .literal _ first last => ((blockRange? lines first last).map Landmark.literal).toList
  | .prose first last content =>
    match blockRange? lines first last with
    | some r =>
      .prose r :: (Inline.pieces keys (content.map (·.1))).map (pieceMark r.stop content)
    | none => []

/-- What the scan comes upon in a text. -/
def marks (text : List Char) : List Landmark :=
  let r := blocksOf text
  r.leaves.flatMap (leafMarks (lineRanges text) r.labels)

/-- Where a piece stands in the source, if it is a code span. -/
def spanOf? (content : List Placed) : Piece → Option Range
  | .code _ _ start stop => some (sourceRange content start stop)
  | _ => none

/-- The code spans of a leaf, where they stand in the source. -/
def leafSpans (keys : List (List Char)) : Leaf → List Range
  | .literal _ _ _ => []
  | .prose _ _ content => (Inline.pieces keys (content.map (·.1))).filterMap (spanOf? content)

/-- The code spans of a text, where they stand in the source. -/
def codeSpans (text : List Char) : List Range :=
  let r := blocksOf text
  r.leaves.flatMap (leafSpans r.labels)

/-! ## The scan passes the landmarks -/

/-- Where the scan is after some landmarks. -/
def walk (source : Array Char) (c : Nat) (ms : List Landmark) : Nat :=
  ms.foldl (fun c m => (m.meet source c).1) c

section

variable {source : Array Char}

theorem found_append (source : Array Char) (c : Nat) (ms ms' : List Landmark) :
    found source c (ms ++ ms') = found source c ms ++ found source (walk source c ms) ms' := by
  induction ms generalizing c with
  | nil => rfl
  | cons m ms ih =>
      rw [List.cons_append, found, found, ih, List.append_assoc]
      rfl

theorem walk_append (source : Array Char) (c : Nat) (ms ms' : List Landmark) :
    walk source c (ms ++ ms') = walk source (walk source c ms) ms' :=
  List.foldl_append

/-- The scan has passed some landmarks between two points. -/
structure Passes (source : Array Char) (p p' : Progress) (ms : List Landmark) : Prop where
  cursor : p'.cursor = walk source p.cursor ms
  ranges : p'.ranges = (found source p.cursor ms).reverse ++ p.ranges

theorem Passes.nil (p : Progress) : Passes source p p [] :=
  ⟨rfl, rfl⟩

theorem Passes.append {p p' p'' : Progress} {ms ms' : List Landmark} (h : Passes source p p' ms)
    (h' : Passes source p' p'' ms') : Passes source p p'' (ms ++ ms') := by
  refine ⟨?_, ?_⟩
  · rw [walk_append, ← h.cursor, h'.cursor]
  · rw [found_append, List.reverse_append, List.append_assoc, ← h.cursor, ← h.ranges, h'.ranges]

theorem passes_of_meet {p p' : Progress} {m : Landmark}
    (hcursor : p'.cursor = (m.meet source p.cursor).1)
    (hranges : p'.ranges = (m.meet source p.cursor).2.toList ++ p.ranges) :
    Passes source p p' [m] := by
  refine ⟨hcursor, ?_⟩
  rw [hranges, found, found, List.append_nil]
  cases (m.meet source p.cursor).2 <;> rfl

theorem passes_piece (source : Array Char) (r : Range) (content : List Placed) (p : Progress)
    (q : Piece) : Passes source p (piece source r p q) [pieceMark r.stop content q] := by
  refine passes_of_meet ?_ ?_ <;> cases q with
  | html | autolink => rfl
  | code n _ start stop =>
      simp only [piece, pieceMark, Landmark.meet]
      cases CodeSpan.find? source (List.replicate n '`') p.cursor r.stop <;> rfl

theorem passes_pieces (source : Array Char) (r : Range) (content : List Placed) (ps : List Piece)
    (p : Progress) :
    Passes source p (ps.foldl (piece source r) p) (ps.map (pieceMark r.stop content)) := by
  induction ps generalizing p with
  | nil => exact Passes.nil p
  | cons q ps ih => exact (passes_piece source r content p q).append (ih _)

theorem passes_leaf (source : Array Char) (lines : Array Range) (keys : List (List Char))
    (p : Progress) (leaf : Leaf) :
    Passes source p (region source lines p (leaf.region keys)) (leafMarks lines keys leaf) := by
  cases leaf with
  | literal kind first last =>
      rw [Leaf.region, region, leafMarks]
      cases blockRange? lines first last with
      | none => exact Passes.nil p
      | some r => exact passes_of_meet rfl rfl
  | prose first last content =>
      rw [Leaf.region, region, leafMarks]
      cases blockRange? lines first last with
      | none => exact Passes.nil p
      | some r =>
          have hprose : Passes source p { p with cursor := max p.cursor r.start } [.prose r] :=
            passes_of_meet rfl rfl
          exact hprose.append (passes_pieces source r content _ _)

theorem passes_leaves (source : Array Char) (lines : Array Range) (keys : List (List Char))
    (leaves : List Leaf) (p : Progress) :
    Passes source p ((leaves.map (Leaf.region keys)).foldl (region source lines) p)
      (leaves.flatMap (leafMarks lines keys)) := by
  induction leaves generalizing p with
  | nil => exact Passes.nil p
  | cons leaf leaves ih =>
      rw [List.map_cons, List.foldl_cons, List.flatMap_cons]
      exact (passes_leaf source lines keys p leaf).append (ih _)

end

theorem locate_ranges (text : List Char) :
    (locate text (regions text)).ranges = (found (sourceOf text) 0 (marks text)).reverse := by
  have h := (passes_leaves (sourceOf text) (lineRanges text) (blocksOf text).labels
    (blocksOf text).leaves {}).ranges
  rw [List.append_nil] at h
  exact h

/-! ## The landmarks stand in order -/

section

variable {source : Array Char} {lines : Array Range} {first last : Nat} {l l' : Range}

/-- A landmark between two places. -/
def Landmark.Within (lo hi : Nat) : Landmark → Prop
  | .literal r => lo ≤ r.start ∧ r.stop ≤ hi
  | .code _ limit r => lo ≤ r.start ∧ r.stop ≤ limit ∧ limit ≤ hi
  | _ => True

theorem Landmark.Within.before {lo hi lo' hi' : Nat} {m m' : Landmark} (h : m.Within lo hi)
    (h' : m'.Within lo' hi') (hle : hi ≤ lo') : m.Before m' := by
  cases m with
  | prose | html | autolink => trivial
  | literal r =>
      cases m' with
      | prose | html | autolink => trivial
      | literal s => exact Nat.le_trans h.2 (Nat.le_trans hle h'.1)
      | code n limit s => exact Nat.le_trans h.2 (Nat.le_trans hle h'.1)
  | code n limit r =>
      cases m' with
      | prose | html | autolink => trivial
      | literal s => exact Nat.le_trans h.2.2 (Nat.le_trans hle h'.1)
      | code n' limit' s =>
          obtain ⟨-, hstop, hlimit⟩ := h
          exact Nat.le_succ_of_le
            (Nat.le_trans hstop (Nat.le_trans hlimit (Nat.le_trans hle h'.1)))

theorem exists_opening {content : List Placed} {n i j : Nat}
    (hs : Stands (textOf content) n content.length ⟨i, j⟩) :
    ∃ a, content[i]? = some a ∧ (sourceRange content i j).start = a.2 := by
  have hopen := hs.opening 0 hs.pos
  rw [Nat.add_zero, getElem?_textOf] at hopen
  obtain ⟨a, ha, -⟩ := Option.map_eq_some_iff.mp hopen
  exact ⟨a, ha, placeOf_eq ha⟩

theorem exists_closing {content : List Placed} {n i j : Nat}
    (hs : Stands (textOf content) n content.length ⟨i, j⟩) :
    ∃ b, content[j - 1]? = some b ∧ (sourceRange content i j).stop = b.2 + 1 := by
  have hinside : i + n < j - n := hs.inside
  have hwithin : j ≤ content.length := hs.within
  obtain ⟨b, hb⟩ := exists_getElem? (show j - 1 < content.length by omega)
  exact ⟨b, hb, congrArg Nat.succ (placeOf_eq hb)⟩

theorem stands_of_told {content : List Placed} {n i j lo hi : Nat} {cs : List Char}
    (h : Inline.Told (content.map (·.1)) lo hi (.code n cs i j)) :
    Stands (textOf content) n content.length ⟨i, j⟩ := by
  have hs := h.2.2.2
  rwa [List.length_map] at hs

theorem leafMarks_within (hlines : IsLines source lines) (keys : List (List Char)) {leaf : Leaf}
    (h : leaf.Sound source lines) :
    ∃ l l' : Range, lines[leaf.first]? = some l ∧
      lines[min leaf.last lines.size - 1]? = some l' ∧
      ∀ m ∈ leafMarks lines keys leaf, m.Proper source ∧ m.Within l.start l'.stop := by
  cases h with
  | @literal kind first last l hlt hl hpos =>
      have hfirst := (Array.getElem?_eq_some_iff.mp hl).1
      have hlast : min last lines.size - 1 < lines.size := by omega
      have hl' := Array.getElem?_eq_getElem hlast
      refine ⟨l, _, hl, hl', fun m hm => ?_⟩
      rw [leafMarks, blockRange?_eq_some hlt hl hl'] at hm
      obtain rfl := List.mem_singleton.mp hm
      have hle := hlines.stop_le hl hl' (by omega)
      exact ⟨Nat.lt_of_lt_of_le hpos hle, Nat.le_refl _, Nat.le_refl _⟩
  | @prose first last l l' content hlt hl hl' hlaid hwithin =>
      have hlast := (Array.getElem?_eq_some_iff.mp hl').1
      have hmin : min last lines.size = last := by omega
      have hl'' : lines[min last lines.size - 1]? = some l' := by rwa [hmin]
      refine ⟨l, l', hl, hl'', fun m hm => ?_⟩
      rw [leafMarks, blockRange?_eq_some hlt hl hl''] at hm
      rcases List.mem_cons.mp hm with rfl | hm
      · exact ⟨trivial, trivial⟩
      · obtain ⟨q, hq, rfl⟩ := List.mem_map.mp hm
        cases q with
        | html | autolink => exact ⟨trivial, trivial⟩
        | code n cs i j =>
            have hs := stands_of_told
              ((Inline.pieces_inOrder keys (content.map (·.1))).told _ hq)
            obtain ⟨a, ha, hplace⟩ := exists_opening hs
            have ha := hwithin a (List.mem_of_getElem? ha)
            have hstands := hlaid.stands (fun p hp => (hwithin p hp).2)
              (hlines.within _ l' hl') hs
            exact ⟨hstands, by rw [hplace]; exact ha.1, hstands.within, Nat.le_refl _⟩

theorem leafMarks_pairwise (keys : List (List Char)) {leaf : Leaf}
    (h : leaf.Sound source lines) : (leafMarks lines keys leaf).Pairwise Landmark.Before := by
  cases h with
  | @literal kind first last l hlt hl hpos =>
      rw [leafMarks]
      cases blockRange? lines first last with
      | none => exact .nil
      | some r => exact List.pairwise_singleton ..
  | @prose first last l l' content hlt hl hl' hlaid hwithin =>
      rw [leafMarks]
      cases blockRange? lines first last with
      | none => exact .nil
      | some r =>
          have hpieces := Inline.pieces_inOrder keys (content.map (·.1))
          refine List.pairwise_cons.mpr ⟨fun m _ => trivial, List.pairwise_map.mpr ?_⟩
          refine hpieces.earlier.imp_of_mem fun {p q} hp hq hearlier => ?_
          cases p with
          | html | autolink => trivial
          | code n cs i j =>
              cases q with
              | html | autolink => trivial
              | code n' cs' i' j' =>
                  obtain ⟨a, ha, hstop⟩ := exists_closing (stands_of_told (hpieces.told _ hp))
                  obtain ⟨b, hb, hstart⟩ := exists_opening
                    (stands_of_told (hpieces.told _ hq))
                  show (sourceRange content i j).stop ≤ (sourceRange content i' j').start + 1
                  rw [hstop, hstart]
                  exact Nat.succ_le_succ (hlaid.place_le ha hb (Nat.sub_le_of_le_add hearlier))

theorem mem_leafMarks_prose {keys : List (List Char)} {content : List Placed} {m : Landmark}
    (h : m ∈ leafMarks lines keys (.prose first last content)) :
    (∃ r, m = .prose r) ∨ ∃ limit, ∃ q ∈ Inline.pieces keys (content.map (·.1)),
      m = pieceMark limit content q := by
  rw [leafMarks] at h
  cases hr : blockRange? lines first last with
  | none =>
      rw [hr] at h
      cases h
  | some r =>
      rw [hr] at h
      rcases List.mem_cons.mp h with rfl | h
      · exact Or.inl ⟨r, rfl⟩
      · obtain ⟨q, hq, rfl⟩ := List.mem_map.mp h
        exact Or.inr ⟨r.stop, q, hq, rfl⟩

theorem leafMarks_before (hlines : IsLines source lines) (keys : List (List Char)) {a b : Leaf}
    (ha : a.Sound source lines) (hb : b.Sound source lines) (hab : a.Before b) :
    ∀ m ∈ leafMarks lines keys a, ∀ m' ∈ leafMarks lines keys b, m.Before m' := by
  intro m hm m' hm'
  cases hab with
  | lines hle =>
      obtain ⟨l, l', hl, hl', hmarks⟩ := leafMarks_within hlines keys ha
      obtain ⟨k, k', hk, hk', hmarks'⟩ := leafMarks_within hlines keys hb
      refine (hmarks m hm).2.before (hmarks' m' hm').2 (Nat.le_of_lt (hlines.lt hl' hk ?_))
      have := (Array.getElem?_eq_some_iff.mp hl).1
      have hfirst : a.first < a.last := by cases ha <;> assumption
      omega
  | @cells first last c c' hlt =>
      rcases mem_leafMarks_prose hm with ⟨r, rfl⟩ | ⟨limit, p, hp, rfl⟩
      · trivial
      rcases mem_leafMarks_prose hm' with ⟨r, rfl⟩ | ⟨limit', q, hq, rfl⟩
      · cases p <;> trivial
      have hp := (Inline.pieces_inOrder keys (c.map (·.1))).told p hp
      have hq := (Inline.pieces_inOrder keys (c'.map (·.1))).told q hq
      cases p with
      | html | autolink => trivial
      | code n cs i j =>
          cases q with
          | html | autolink => trivial
          | code n' cs' i' j' =>
              obtain ⟨x, hx, hstop⟩ := exists_closing (stands_of_told hp)
              obtain ⟨y, hy, hstart⟩ := exists_opening (stands_of_told hq)
              show (sourceRange c i j).stop ≤ (sourceRange c' i' j').start + 1
              rw [hstop, hstart]
              exact Nat.succ_le_succ (Nat.le_of_lt
                (hlt x (List.mem_of_getElem? hx) y (List.mem_of_getElem? hy)))

end

theorem marks_proper (text : List Char) : ∀ m ∈ marks text, m.Proper (sourceOf text) := by
  intro m hm
  obtain ⟨leaf, hleaf, hm⟩ := List.mem_flatMap.mp hm
  obtain ⟨l, l', -, -, hmarks⟩ :=
    leafMarks_within (isLines_lineRanges text) _ ((blocksOf_sound text).sound leaf hleaf)
  exact (hmarks m hm).1

theorem marks_pairwise (text : List Char) : (marks text).Pairwise Landmark.Before := by
  have h := blocksOf_sound text
  refine List.pairwise_flatMap.mpr ⟨fun leaf hleaf => ?_, h.before.imp_of_mem fun ha hb hab => ?_⟩
  · exact leafMarks_pairwise _ (h.sound leaf hleaf)
  · exact leafMarks_before (isLines_lineRanges text) _ (h.sound _ ha) (h.sound _ hb) hab

/-! ## What the scan finds -/

/-- The protected ranges are what the scan records, in the order in which it does. -/
theorem ranges_eq_found (text : List Char) :
    ranges text = found (sourceOf text) 0 (marks text) := by
  rw [ranges, sorted_locate (regions_outlined text), locate_ranges, List.reverse_reverse]

theorem codeSpans_iff_marks (text : List Char) (r : Range) :
    r ∈ codeSpans text ↔ ∃ n limit, .code n limit r ∈ marks text := by
  constructor
  · intro h
    obtain ⟨leaf, hleaf, hr⟩ := List.mem_flatMap.mp h
    have hsound := (blocksOf_sound text).sound leaf hleaf
    cases hsound with
    | literal => cases hr
    | @prose first last l l' content hlt hl hl' hlaid hwithin =>
        obtain ⟨q, hq, hspan⟩ := List.mem_filterMap.mp hr
        have hmin : min last (lineRanges text).size = last := by
          have := (Array.getElem?_eq_some_iff.mp hl').1
          omega
        have hblock := blockRange?_eq_some hlt hl (by rwa [hmin])
        cases q with
        | html | autolink => cases hspan
        | code n cs i j =>
            obtain rfl := Option.some.inj hspan
            refine ⟨n, l'.stop, List.mem_flatMap.mpr ⟨_, hleaf, ?_⟩⟩
            rw [leafMarks, hblock]
            exact List.mem_cons_of_mem _ (List.mem_map_of_mem hq)
  · rintro ⟨n, limit, h⟩
    obtain ⟨leaf, hleaf, hm⟩ := List.mem_flatMap.mp h
    refine List.mem_flatMap.mpr ⟨leaf, hleaf, ?_⟩
    cases leaf with
    | literal kind first last =>
        obtain ⟨s, -, hs⟩ := Option.map_eq_some_iff.mp (Option.mem_toList.mp hm)
        cases hs
    | prose first last content =>
        rcases mem_leafMarks_prose hm with ⟨s, hs⟩ | ⟨limit', q, hq, hcode⟩
        · cases hs
        · refine List.mem_filterMap.mpr ⟨q, hq, ?_⟩
          cases q with
          | html | autolink => cases hcode
          | code n' cs i j =>
              obtain ⟨-, -, rfl⟩ := Landmark.code.inj hcode
              rfl

theorem mem_found_of_literal {source : Array Char} {c : Nat} {ms : List Landmark} {r : Range}
    (h : .literal r ∈ ms) : r ∈ found source c ms := by
  induction ms generalizing c with
  | nil => cases h
  | cons m ms ih =>
      rw [found, List.mem_append]
      rcases List.mem_cons.mp h with rfl | h
      · exact Or.inl List.mem_cons_self
      · exact Or.inr (ih h)

/-- What holds of the blocks of literal text holds of all that has to be recorded when it holds of
the code spans. -/
theorem forall_codeSpans_iff {text : List Char} {P : Range → Prop}
    (hliteral : ∀ r, .literal r ∈ marks text → P r) :
    (∀ r ∈ codeSpans text, P r) ↔ ∀ r ∈ places (marks text), P r := by
  constructor
  · intro h r hr
    obtain ⟨m, hm, hplace⟩ := List.mem_filterMap.mp hr
    cases m with
    | prose | html | autolink => cases hplace
    | literal s =>
        obtain rfl := Option.some.inj hplace
        exact hliteral s hm
    | code n limit s =>
        obtain rfl := Option.some.inj hplace
        exact h s ((codeSpans_iff_marks text s).mpr ⟨n, limit, hm⟩)
  · intro h r hr
    obtain ⟨n, limit, hm⟩ := (codeSpans_iff_marks text r).mp hr
    exact h r (List.mem_filterMap.mpr ⟨_, hm, rfl⟩)

theorem codeSpans_subset_iff (text : List Char) :
    (∀ r ∈ codeSpans text, r ∈ ranges text) ↔ InSight (sourceOf text) 0 (marks text) := by
  rw [ranges_eq_found, forall_codeSpans_iff fun r hr => mem_found_of_literal hr]
  exact places_subset_found_iff (marks_proper text) (marks_pairwise text)

theorem codeSpans_covered_iff {text : List Char}
    (halone : ∀ r ∈ codeSpans text, Alone (sourceOf text) r) :
    (∀ r ∈ codeSpans text, ∃ s ∈ ranges text, Covers s r) ↔
      InSight (sourceOf text) 0 (marks text) := by
  rw [ranges_eq_found, forall_codeSpans_iff fun r hr =>
    ⟨r, mem_found_of_literal hr, Covers.refl r⟩]
  refine covered_iff_inSight (marks_proper text) (marks_pairwise text) fun n limit r hr => ?_
  exact halone r ((codeSpans_iff_marks text r).mpr ⟨n, limit, hr⟩)

/-- **The scan finds each code span where it is just when each is in sight.**  The code spans that
the parser lists stand in the source.  All of them are among the protected ranges exactly when each,
in its turn, is the next thing that the scan can take for a code span: no run of as many backticks
stands unescaped between the landmark before it and the span, and no other backtick touches it.
Where no other backtick touches any of them, no protected range covers them otherwise.  And a line
whose first character that is not blank lies in a code span that is covered is written as it
stands. -/
theorem codeSpans_protected_iff_inSight (toggles : Toggles) (text : List Char) :
    (∀ r ∈ codeSpans text, ∃ n limit, Stands (sourceOf text) n limit r) ∧
    ((∀ r ∈ codeSpans text, r ∈ ranges text) ↔ InSight (sourceOf text) 0 (marks text)) ∧
    ((∀ r ∈ codeSpans text, Alone (sourceOf text) r) →
      ((∀ r ∈ codeSpans text, ∃ s ∈ ranges text, Covers s r) ↔
        InSight (sourceOf text) 0 (marks text))) ∧
    ∀ r ∈ codeSpans text, (∃ s ∈ ranges text, Covers s r) →
      ∀ i raw o, (split text)[i]? = some raw → Convert.firstInk? text i = some o →
        r.start ≤ o ∧ o < r.stop →
        let gs := Convert.groupsOf toggles (ranges text).toArray text
        split (Stage.convert toggles text) =
          (gs.take i).flatten ++ raw :: (gs.drop (i + 1)).flatten := by
  refine ⟨fun r hr => ?_, codeSpans_subset_iff text, codeSpans_covered_iff, ?_⟩
  · obtain ⟨n, limit, hm⟩ := (codeSpans_iff_marks text r).mp hr
    exact ⟨n, limit, marks_proper text _ hm⟩
  · rintro r - ⟨s, hs, hcov⟩ i raw o hraw ho hin
    have hinert := @Convert.isInert_of_holds (ranges text).toArray text raw s i o
      (ranges_ordered text) hs hraw ho
      ⟨Nat.le_trans hcov.1 hin.1, Nat.lt_of_lt_of_le hin.2 hcov.2⟩
    exact Convert.split_text_of_isInert toggles hraw hinert

/-- A code span after a link with a backtick in its destination; the second line of the span looks
like the opening fence of a div. -/
def spanAfterLink : List Char :=
  "[x](`) `a\n::: {.n}\nb`".toList

/-- The backtick in the destination is taken for the opening of the span.  So the span is not
protected, and its second line is rewritten. -/
theorem spanAfterLink_missed :
    ⟨7, 21⟩ ∈ codeSpans spanAfterLink ∧
      (∀ s ∈ ranges spanAfterLink, ¬ (s.start ≤ 7 ∧ 21 ≤ s.stop)) ∧
      Convert.firstInk? spanAfterLink 1 = some 10 ∧
      Stage.convert {} spanAfterLink = "[x](`) `a\n:::::div{.n}\nb`".toList := by
  have hspans : codeSpans spanAfterLink = [⟨7, 21⟩] := by decide +kernel
  have hranges : ranges spanAfterLink = [⟨4, 8⟩] :=
    (ranges_eq_recorded _).trans (by decide +kernel)
  refine ⟨?_, ?_, by decide +kernel, ?_⟩
  · rw [hspans]
    exact List.mem_singleton.mpr rfl
  · rw [hranges]
    decide
  · rw [Stage.convert, hranges]
    decide +kernel

end DirectiveFences.Scan
