/-
What the scan records comes in order.

Block ranges are read off line numbers, and the ranges of code spans are looked for in the
text, so nothing in their making keeps them apart.  What does is the cursor: no range that
is recorded ends behind it, and a span is looked for from it on.  A block of literal text
does not ask the cursor where it may begin; there it is the outline of the document that
keeps the cursor from having come further (`Outlined`).  Whether the spans are found, and
whether they are found where they are, plays no part.
-/
import DirectiveFences.Proofs.Bisection
import DirectiveFences.Proofs.Blocks
import DirectiveFences.Proofs.Inlines
import DirectiveFences.Proofs.Landmarks

namespace DirectiveFences

namespace Markdown

/-- The first of the lines that a region takes. -/
def Region.first : Region → Nat
  | literal first _ => first
  | prose first _ _ => first

/-- The line after those that a region takes. -/
def Region.last : Region → Nat
  | literal _ last => last
  | prose _ last _ => last

/-- A region that comes before another one: its lines do, or both are text on the same lines, as the
cells of a table's row are. -/
inductive Region.Before : Region → Region → Prop
  | lines {a b : Region} (h : a.last ≤ b.first) : Before a b
  | cells {first last : Nat} {ps qs : List Piece} :
      Before (prose first last ps) (prose first last qs)

/-- The outline of a text, as far as the scan relies on it: the regions come in the order of their
lines, a block of literal text begins on a line that is not empty, and a code span has a
delimiter. -/
structure Outlined (text : List Char) (rs : List Region) : Prop where
  order : rs.Pairwise Region.Before
  literal : ∀ first last, .literal first last ∈ rs →
    first < last ∧ ∃ raw, (Text.split text)[first]? = some raw ∧ raw ≠ []
  ticks : ∀ first last ps, .prose first last ps ∈ rs →
    ∀ n content start stop, .code n content start stop ∈ ps → 0 < n

theorem Outlined.tail {text : List Char} {reg : Region} {rs : List Region}
    (h : Outlined text (reg :: rs)) : Outlined text rs :=
  ⟨(List.pairwise_cons.mp h.order).2,
    fun first last hmem => h.literal first last (List.mem_cons_of_mem reg hmem),
    fun first last ps hmem => h.ticks first last ps (List.mem_cons_of_mem reg hmem)⟩

end Markdown

namespace Scan

open Markdown
open Text (split lineStart)

/-- The range of some lines of a text, the carriage returns before its line feeds included. -/
structure OfLines (text : List Char) (first last : Nat) (r : Range) : Prop where
  start : r.start = lineStart (split text) first
  stop : ∃ k, first ≤ k ∧ k < last ∧ ∃ raw, (split text)[k]? = some raw ∧
    r.stop = lineStart (split text) k + raw.length

/-- Ranges of a text as they should be, given the regions of the text: none is empty, they lie
within the text, come in the order of their starts and do not overlap, and among them are those of
the blocks of literal text, each of whole lines. -/
structure Tidy (text : List Char) (rs : List Region) (ranges : List Range) : Prop where
  within : ∀ r ∈ ranges, r.start < r.stop ∧ r.stop ≤ text.length
  sorted : ranges.Pairwise fun r s => r.start < s.start
  apart : ranges.Pairwise fun r s => r.stop ≤ s.start
  literal : ∀ first last, .literal first last ∈ rs →
    ∃ r ∈ ranges, OfLines text first last r

/-- The cursor has passed all ranges that are recorded, and each was recorded behind those before
it. -/
structure Progress.InOrder (p : Progress) : Prop where
  proper : ∀ r ∈ p.ranges, r.start < r.stop
  passed : ∀ r ∈ p.ranges, r.stop ≤ p.cursor
  apart : p.ranges.Pairwise fun r s => s.stop ≤ r.start

/-! ## How far the cursor goes -/

theorem findText_lt {source : Array Char} {cs : List Char} {room pos p : Nat}
    (h : findText source cs room pos = some p) : p < pos + room := by
  induction room generalizing pos with
  | zero => cases h
  | succ room ih =>
      rw [findText] at h
      split at h
      · rw [← Option.some.inj h]
        exact Nat.lt_add_of_pos_right (Nat.succ_pos room)
      · have := ih h
        omega

theorem skipHtml_le (source : Array Char) (limit : Nat) (content : List Char) (pos : Nat) :
    skipHtml source limit content pos ≤ max pos limit := by
  rw [skipHtml]
  generalize Text.split content = lines
  induction lines generalizing pos with
  | nil => exact Nat.le_max_left pos limit
  | cons line lines ih =>
      rw [List.foldl_cons]
      refine Nat.le_trans (ih _) ?_
      split
      · rename_i p hp
        have hle := le_of_findText hp
        have hlt := findText_lt hp
        exact Nat.max_le.mpr ⟨Nat.le_trans (by omega) (Nat.le_max_right ..), Nat.le_max_right ..⟩
      · exact Nat.le_refl _

theorem addressEnd_le {source : Array Char} {room pos p : Nat}
    (h : addressEnd source room pos = some p) : p ≤ pos + room := by
  induction room generalizing pos with
  | zero => cases h
  | succ room ih =>
      rw [addressEnd] at h
      split at h
      · cases h
      · split at h
        · rw [← Option.some.inj h]
          omega
        · split at h
          · cases h
          · have := ih h
            omega

theorem skipAutolink_le {source : Array Char} {limit start room pos : Nat}
    (h : pos + room ≤ max start limit) :
    skipAutolink source limit start room pos ≤ max start limit := by
  induction room generalizing pos with
  | zero => exact Nat.le_max_left start limit
  | succ room ih =>
      rw [skipAutolink]
      split
      · rename_i stop hstop
        split at hstop
        · have := addressEnd_le hstop
          omega
        · cases hstop
      · exact ih (by omega)

/-! ## One piece -/

section

variable {source : Array Char} {lines : Array Range} {p : Progress} {r : Range} {c : Nat}

theorem Progress.InOrder.advance (h : p.InOrder) (hc : p.cursor ≤ c) :
    Progress.InOrder { p with cursor := c } :=
  ⟨h.proper, fun r hr => Nat.le_trans (h.passed r hr) hc, h.apart⟩

/-- A range that begins behind the cursor is recorded in order. -/
theorem Progress.InOrder.record (h : p.InOrder) (hstart : p.cursor ≤ r.start)
    (hpos : r.start < r.stop) (hc : r.stop ≤ c) :
    Progress.InOrder { p with cursor := c, ranges := r :: p.ranges } := by
  refine ⟨?_, ?_, List.pairwise_cons.mpr ⟨fun s hs => ?_, h.apart⟩⟩
  · exact List.forall_mem_cons.mpr ⟨hpos, h.proper⟩
  · refine List.forall_mem_cons.mpr ⟨hc, fun s hs => ?_⟩
    have := h.passed s hs
    show s.stop ≤ c
    omega
  · exact Nat.le_trans (h.passed s hs) hstart

/-- The progress made from one point to another: the order is kept, the cursor does not go back and
no further than to `limit`, and nothing recorded is lost. -/
structure Progress.Leads (p p' : Progress) (limit : Nat) : Prop where
  inOrder : p'.InOrder
  le : p.cursor ≤ p'.cursor
  upTo : p'.cursor ≤ max p.cursor limit
  keeps : ∀ r ∈ p.ranges, r ∈ p'.ranges

theorem Progress.Leads.refl (h : p.InOrder) (limit : Nat) : p.Leads p limit :=
  ⟨h, Nat.le_refl _, Nat.le_max_left .., fun _ hr => hr⟩

theorem Progress.Leads.trans {p' p'' : Progress} {limit : Nat} (h : p.Leads p' limit)
    (h' : p'.Leads p'' limit) : p.Leads p'' limit := by
  refine ⟨h'.inOrder, Nat.le_trans h.le h'.le, Nat.le_trans h'.upTo ?_,
    fun r hr => h'.keeps r (h.keeps r hr)⟩
  exact Nat.max_le.mpr ⟨h.upTo, Nat.le_max_right ..⟩

theorem Progress.Leads.mono {p' : Progress} {limit limit' : Nat} (h : p.Leads p' limit)
    (hle : limit ≤ limit') : p.Leads p' limit' :=
  ⟨h.inOrder, h.le, Nat.le_trans h.upTo (by omega), h.keeps⟩

theorem piece_leads (hr : r.stop ≤ source.size) (h : p.InOrder) (q : Piece)
    (hticks : ∀ n content start stop, q = .code n content start stop → 0 < n) :
    p.Leads (piece source r p q) r.stop := by
  cases q with
  | html content start stop =>
      have hle := le_skipHtml source r.stop content p.cursor
      exact ⟨h.advance hle, hle, skipHtml_le .., fun _ hs => hs⟩
  | autolink start stop =>
      have hle : p.cursor ≤ skipAutolink source r.stop p.cursor (r.stop - p.cursor) p.cursor :=
        le_skipAutolink (Nat.le_refl _)
      exact ⟨h.advance hle, hle, skipAutolink_le (by omega), fun _ hs => hs⟩
  | code n content start stop =>
      have hn := hticks n content start stop rfl
      rw [piece]
      split
      · rename_i span hspan
        have hfirst := (CodeSpan.find?_eq_some_iff hn hr).mp hspan
        have hlt := hfirst.start_lt hn
        refine ⟨h.record hfirst.from_ hlt (Nat.le_refl _),
          Nat.le_trans hfirst.from_ (Nat.le_of_lt hlt),
          Nat.le_trans hfirst.stop_le (Nat.le_max_right ..), fun _ hs => ?_⟩
        exact List.mem_cons_of_mem span hs
      · exact ⟨⟨h.proper, h.passed, h.apart⟩, Nat.le_refl _, Nat.le_max_left .., fun _ hs => hs⟩

theorem pieces_lead (hr : r.stop ≤ source.size) (h : p.InOrder) (qs : List Piece)
    (hticks : ∀ n content start stop, .code n content start stop ∈ qs → 0 < n) :
    p.Leads (qs.foldl (piece source r) p) r.stop := by
  induction qs generalizing p with
  | nil => exact Progress.Leads.refl h r.stop
  | cons q qs ih =>
      have hq := piece_leads hr h q fun n content start stop heq =>
        hticks n content start stop (heq ▸ List.mem_cons_self)
      exact hq.trans (ih hq.inOrder fun n content start stop hmem =>
        hticks n content start stop (List.mem_cons_of_mem q hmem))

/-! ## One region -/

theorem of_blockRange? {first last : Nat} (h : blockRange? lines first last = some r) :
    ∃ k, ∃ a b : Range, first ≤ k ∧ k < last ∧ lines[first]? = some a ∧ lines[k]? = some b ∧
      r = ⟨a.start, b.stop⟩ := by
  rw [blockRange?] at h
  split at h
  · rename_i hlt
    split at h
    · rename_i a b ha hb
      exact ⟨min last lines.size - 1, a, b, by omega, by omega, ha, hb, (Option.some.inj h).symm⟩
    · cases h
  · cases h

/-- What a region does to the cursor and to what is recorded.  Its range ends before the lines after
it; the cursor must not have come behind the start of literal text. -/
theorem region_leads (hlines : IsLines source lines) (h : p.InOrder) (reg : Region)
    (hliteral : ∀ first last r, reg = .literal first last →
      blockRange? lines first last = some r → p.cursor ≤ r.start ∧ r.start < r.stop)
    (hticks : ∀ first last ps, reg = .prose first last ps →
      ∀ n content start stop, .code n content start stop ∈ ps → 0 < n) :
    ∃ limit, p.Leads (region source lines p reg) limit ∧ limit ≤ source.size ∧
      ∀ i l, lines[i]? = some l → reg.last ≤ i → limit ≤ l.start := by
  cases reg with
  | literal first last =>
      rw [region]
      split
      · rename_i r hr
        obtain ⟨k, a, b, -, hk, ha, hb, rfl⟩ := of_blockRange? hr
        obtain ⟨hcursor, hpos⟩ := hliteral first last _ rfl hr
        refine ⟨b.stop, ⟨h.record hcursor hpos (Nat.le_max_right ..), Nat.le_max_left ..,
          Nat.le_refl _, fun _ hs => List.mem_cons_of_mem _ hs⟩, hlines.within k b hb,
          fun i l hl hi => Nat.le_of_lt (hlines.lt hb hl (Nat.lt_of_lt_of_le hk hi))⟩
      · exact ⟨0, Progress.Leads.refl h 0, Nat.zero_le _, fun i l _ _ => Nat.zero_le _⟩
  | prose first last ps =>
      rw [region]
      split
      · rename_i r hr
        obtain ⟨k, a, b, hle, hk, ha, hb, rfl⟩ := of_blockRange? hr
        have hstart : a.start ≤ b.stop :=
          Nat.le_trans (hlines.le first a ha) (hlines.stop_le ha hb hle)
        have hadvance : p.Leads { p with cursor := max p.cursor a.start } b.stop :=
          ⟨h.advance (Nat.le_max_left ..), Nat.le_max_left ..,
            Nat.max_le.mpr ⟨Nat.le_max_left .., Nat.le_trans hstart (Nat.le_max_right ..)⟩,
            fun _ hs => hs⟩
        have hwithin := hlines.within k b hb
        have hpieces := @pieces_lead source _ ⟨a.start, b.stop⟩ hwithin hadvance.inOrder ps
          (hticks first last ps rfl)
        exact ⟨b.stop, hadvance.trans hpieces, hwithin,
          fun i l hl hi => Nat.le_of_lt (hlines.lt hb hl (Nat.lt_of_lt_of_le hk hi))⟩
      · exact ⟨0, Progress.Leads.refl h 0, Nat.zero_le _, fun i l _ _ => Nat.zero_le _⟩

/-! ## All regions -/

theorem blockRange?_eq_some {first last : Nat} {l l' : Range} (hlt : first < last)
    (hl : lines[first]? = some l) (hl' : lines[min last lines.size - 1]? = some l') :
    blockRange? lines first last = some ⟨l.start, l'.stop⟩ := by
  have hfirst := (Array.getElem?_eq_some_iff.mp hl).1
  rw [blockRange?, if_pos (Nat.lt_min.mpr ⟨hlt, hfirst⟩), hl, hl']

end

section

variable {text : List Char} {rs : List Region} {p : Progress} {first last : Nat} {r : Range}

theorem exists_literal (h : Outlined text rs) (hmem : .literal first last ∈ rs) :
    ∃ l r : Range, (lineRanges text)[first]? = some l ∧
      blockRange? (lineRanges text) first last = some r ∧ r.start = l.start ∧ r.start < r.stop := by
  obtain ⟨hlt, raw, hraw, hne⟩ := h.literal first last hmem
  have hlines := isLines_lineRanges text
  have hl := getElem?_lineRanges text first
  rw [hraw] at hl
  have hfirst := (Array.getElem?_eq_some_iff.mp hl).1
  have hl' := Array.getElem?_eq_getElem
    (show min last (lineRanges text).size - 1 < (lineRanges text).size by omega)
  have hstop := hlines.stop_le hl hl' (by omega)
  have hpos := List.length_pos_of_ne_nil hne
  exact ⟨_, _, hl, blockRange?_eq_some hlt hl hl', rfl,
    Nat.lt_of_lt_of_le (Nat.lt_add_of_pos_right hpos) hstop⟩

theorem mem_region_literal {source : Array Char} {lines : Array Range}
    (h : blockRange? lines first last = some r) :
    r ∈ (region source lines p (.literal first last)).ranges := by
  rw [region, h]
  exact List.mem_cons_self

/-- The scan of some regions from a point on.  The cursor must not have come behind the start of
literal text that is still to come; each region sees to this for those after it. -/
theorem regions_lead (h : Outlined text rs) (hp : p.InOrder)
    (hahead : ∀ first last l, .literal first last ∈ rs →
      (lineRanges text)[first]? = some l → p.cursor ≤ l.start) :
    p.Leads (rs.foldl (region (sourceOf text) (lineRanges text)) p) (sourceOf text).size ∧
      ∀ first last, .literal first last ∈ rs →
        ∃ r ∈ (rs.foldl (region (sourceOf text) (lineRanges text)) p).ranges,
          blockRange? (lineRanges text) first last = some r := by
  induction rs generalizing p with
  | nil => exact ⟨Progress.Leads.refl hp _, nofun⟩
  | cons reg rs ih =>
      obtain ⟨hlater, -⟩ := List.pairwise_cons.mp h.order
      have hliteral : ∀ first last r, reg = .literal first last →
          blockRange? (lineRanges text) first last = some r →
          p.cursor ≤ r.start ∧ r.start < r.stop := by
        rintro first last r rfl hr
        obtain ⟨l, r', hl, hr', hstart, hpos⟩ := exists_literal h List.mem_cons_self
        obtain rfl := Option.some.inj (hr'.symm.trans hr)
        exact ⟨hstart ▸ hahead first last l List.mem_cons_self hl, hpos⟩
      obtain ⟨limit, hreg, hlimit, hbelow⟩ := region_leads (isLines_lineRanges text) hp reg hliteral
        fun first last ps heq => h.ticks first last ps (by rw [heq]; exact List.mem_cons_self)
      have hnext : ∀ first last l, .literal first last ∈ rs →
          (lineRanges text)[first]? = some l →
          (region (sourceOf text) (lineRanges text) p reg).cursor ≤ l.start := by
        intro first last l hmem hl
        have hcursor := hahead first last l (List.mem_cons_of_mem reg hmem) hl
        cases hlater _ hmem with
        | lines hle =>
            exact Nat.le_trans hreg.upTo (Nat.max_le.mpr ⟨hcursor, hbelow _ l hl hle⟩)
      obtain ⟨hrest, hfound⟩ := ih h.tail hreg.inOrder hnext
      refine ⟨(hreg.mono hlimit).trans hrest, fun first last hmem => ?_⟩
      rcases List.mem_cons.mp hmem with rfl | hmem
      · obtain ⟨-, r, -, hr, -, -⟩ := exists_literal h List.mem_cons_self
        exact ⟨r, hrest.keeps r (mem_region_literal hr), hr⟩
      · exact hfound first last hmem

theorem ofLines_of_blockRange? (h : blockRange? (lineRanges text) first last = some r) :
    OfLines text first last r := by
  obtain ⟨k, a, b, hle, hlt, ha, hb, rfl⟩ := of_blockRange? h
  obtain ⟨-, rfl⟩ := exists_of_lineRanges ha
  obtain ⟨hk, rfl⟩ := exists_of_lineRanges hb
  exact ⟨rfl, k, hle, hlt, _, List.getElem?_eq_getElem hk, rfl⟩

theorem locate_leads (h : Outlined text rs) :
    Progress.Leads {} (locate text rs) (sourceOf text).size ∧
      ∀ first last, .literal first last ∈ rs →
        ∃ r ∈ (locate text rs).ranges, blockRange? (lineRanges text) first last = some r :=
  regions_lead h ⟨nofun, nofun, .nil⟩ fun _ _ _ _ _ => Nat.zero_le _

theorem recorded_ordered (h : Outlined text rs) :
    Range.Ordered (locate text rs).ranges.reverse := by
  have horder := (locate_leads h).1.inOrder
  refine ⟨fun r hr => ?_, List.pairwise_reverse.mpr horder.apart⟩
  exact Nat.le_of_lt (horder.proper r (List.mem_reverse.mp hr))

/-- Sorting leaves the ranges in the order in which they were recorded. -/
theorem sorted_locate (h : Outlined text rs) :
    sorted (locate text rs) = (locate text rs).ranges.reverse :=
  (recorded_ordered h).mergeSort

theorem sorted_locate_tidy (h : Outlined text rs) : Tidy text rs (sorted (locate text rs)) := by
  obtain ⟨hleads, hliteral⟩ := locate_leads h
  have hsize : (locate text rs).cursor ≤ text.length := by
    have := hleads.upTo
    rwa [Nat.zero_max, sourceOf, List.size_toArray, List.length_map] at this
  have hwithin : ∀ r ∈ (locate text rs).ranges, r.start < r.stop ∧ r.stop ≤ text.length :=
    fun r hr => ⟨hleads.inOrder.proper r hr, Nat.le_trans (hleads.inOrder.passed r hr) hsize⟩
  have hapart := List.pairwise_reverse.mpr hleads.inOrder.apart
  rw [sorted_locate h]
  refine ⟨fun r hr => hwithin r (List.mem_reverse.mp hr), ?_, hapart, fun first last hmem => ?_⟩
  · refine hapart.imp_of_mem fun hr _ hle => ?_
    exact Nat.lt_of_lt_of_le (hwithin _ (List.mem_reverse.mp hr)).1 hle
  · obtain ⟨r, hr, hblock⟩ := hliteral first last hmem
    exact ⟨r, List.mem_reverse.mpr hr, ofLines_of_blockRange? hblock⟩

end

/-! ## The outline of a text -/

theorem before_region (keys : List (List Char)) {a b : Leaf} (h : a.Before b) :
    (a.region keys).Before (b.region keys) := by
  cases h with
  | lines hle => cases a <;> cases b <;> exact .lines hle
  | cells hlt => exact .cells

/-- The parser gives an outline. -/
theorem regions_outlined (text : List Char) : Outlined text (regions text) := by
  have hsound := blocksOf_sound text
  refine ⟨List.pairwise_map.mpr (hsound.before.imp fun h => before_region _ h), ?_, ?_⟩
  · intro first last hmem
    obtain ⟨leaf, hleaf, heq⟩ := List.mem_map.mp hmem
    cases hsound.sound leaf hleaf with
    | prose => cases heq
    | literal kind hlt hl hpos =>
        obtain ⟨rfl, rfl⟩ := Region.literal.inj heq
        obtain ⟨hi, rfl⟩ := exists_of_lineRanges hl
        refine ⟨hlt, _, List.getElem?_eq_getElem hi, fun hnil => ?_⟩
        rw [hnil] at hpos
        exact Nat.lt_irrefl _ hpos
  · intro first last ps hmem n content start stop hq
    obtain ⟨leaf, hleaf, heq⟩ := List.mem_map.mp hmem
    cases leaf with
    | literal => cases heq
    | prose first last placed =>
        obtain ⟨-, -, rfl⟩ := Region.prose.inj heq
        exact ((Inline.pieces_inOrder _ _).told _ hq).2.2.2.pos

/-- Nothing is left to be sorted. -/
theorem ranges_eq_recorded (text : List Char) :
    ranges text = (locate text (Markdown.regions text)).ranges.reverse :=
  sorted_locate (regions_outlined text)

theorem ranges_ordered (text : List Char) : Range.Ordered (ranges text) := by
  rw [ranges_eq_recorded]
  exact recorded_ordered (regions_outlined text)

/-- **Protected ranges are tidy.**  None is empty, all lie within the text, they come in the order of
their starts and do not overlap, and those of blocks of literal text are of whole lines.  This is so
for every text, and for every outline of it that another parser might give. -/
theorem protected_ranges_tidy (text : List Char) :
    Tidy text (regions text) (ranges text) ∧
      ∀ rs, Outlined text rs → Tidy text rs (sorted (locate text rs)) :=
  ⟨sorted_locate_tidy (regions_outlined text), fun _ h => sorted_locate_tidy h⟩

end Scan

/-! ## One look for all ranges -/

namespace Range

theorem Ordered.of_isChain {rs : List Range} (hproper : ∀ r ∈ rs, r.start ≤ r.stop)
    (hnext : rs.IsChain fun r s => r.stop ≤ s.start) : Ordered rs := by
  induction rs with
  | nil => exact .nil
  | cons r rs ih =>
      have hrest := ih (fun s hs => hproper s (List.mem_cons_of_mem r hs)) hnext.tail
      refine ⟨hproper, .cons (fun s hs => ?_) hrest.apart⟩
      cases rs with
      | nil => exact absurd hs List.not_mem_nil
      | cons next rs =>
          have hrnext : r.stop ≤ next.start := hnext.rel
          rcases List.mem_cons.mp hs with rfl | hs
          · exact hrnext
          · have hnextProper := hrest.proper next List.mem_cons_self
            have hnextApart := (List.pairwise_cons.mp hrest.apart).1 s hs
            omega

theorem holds_iff {r : Range} {offset : Int} :
    r.holds offset = true ↔ (r.start : Int) ≤ offset ∧ offset < r.stop := by
  rw [holds, Bool.and_eq_true, decide_eq_true_eq, decide_eq_true_eq]

/-- **One look answers for all ranges.**  Of ranges that each end before the next one starts, empty
ones and ones that touch among them, bisection finds one that holds an offset exactly if there is
one; so on the protected ranges of a text it answers as a look at all of them does. -/
theorem isProtected_iff_scan :
    (∀ rs : List Range, (∀ r ∈ rs, r.start ≤ r.stop) →
      (rs.IsChain fun r s => r.stop ≤ s.start) → ∀ offset : Int,
        (isProtected rs.toArray offset = true ↔
          ∃ r ∈ rs, (r.start : Int) ≤ offset ∧ offset < r.stop)) ∧
    ∀ (text : List Char) (offset : Int),
      isProtected (Scan.ranges text).toArray offset = (Scan.ranges text).any (·.holds offset) := by
  constructor
  · intro rs hproper hnext offset
    have hordered : Ordered rs := .of_isChain hproper hnext
    rw [isProtected_iff_exists (by simpa using hordered)]
    simp only [holds_iff]
  · intro text offset
    have hordered := Scan.ranges_ordered text
    rw [Bool.eq_iff_iff, isProtected_iff_exists (by simpa using hordered), List.any_eq_true]

/-- Of two ranges that start at one place the first is empty, and the second is asked. -/
example :
    [0, 2, 4, 5].map (isProtected #[⟨0, 2⟩, ⟨2, 2⟩, ⟨2, 5⟩] ·) = [true, true, true, false] := by
  decide

end Range

end DirectiveFences
