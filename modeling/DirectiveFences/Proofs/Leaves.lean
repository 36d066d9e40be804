/-
The leaves of a document, and where their content stands.

Each rule of the block structure goes on behind the lines of the leaves it gives, and
takes their content from rows that are left of the lines they have the numbers of.
Containers keep both, as they hand on rows that have lost nothing but marks of their own.
So the leaves come in the order of their lines, and all their content is laid out in the
source (`Reading.Sound`).
-/
import DirectiveFences.Markdown.Document
import DirectiveFences.Proofs.Cells

namespace DirectiveFences.Markdown

namespace Leaf

/-- The first of the lines that a leaf takes. -/
def first : Leaf → Nat
  | literal _ first _ => first
  | prose first _ _ => first

/-- The line after those that a leaf takes. -/
def last : Leaf → Nat
  | literal _ _ last => last
  | prose _ last _ => last

/-- A leaf that comes before another one: its lines do, or both are cells of one row. -/
inductive Before : Leaf → Leaf → Prop
  | lines {a b : Leaf} (h : a.last ≤ b.first) : Before a b
  | cells {first last : Nat} {c c' : List Placed} (h : ∀ p ∈ c, ∀ q ∈ c', p.2 < q.2) :
      Before (prose first last c) (prose first last c')

/-- A leaf on lines of the source: literal text begins on a line that is not empty, and the content
of other text is laid out within its lines. -/
inductive Sound (source : Array Char) (lines : Array Range) : Leaf → Prop
  | literal (kind : Literal) {first last : Nat} {l : Range} (hlt : first < last)
      (hl : lines[first]? = some l) (hpos : l.start < l.stop) :
      Sound source lines (literal kind first last)
  | prose {first last : Nat} {l l' : Range} {content : List Placed} (hlt : first < last)
      (hl : lines[first]? = some l) (hl' : lines[last - 1]? = some l')
      (hlaid : Laid source content) (hwithin : ∀ p ∈ content, l.start ≤ p.2 ∧ p.2 < l'.stop) :
      Sound source lines (prose first last content)

end Leaf

/-- What reading from a line on gives, as it should be. -/
structure Reading.Sound (source : Array Char) (lines : Array Range) (line : Nat) (r : Reading) :
    Prop where
  sound : ∀ leaf ∈ r.leaves, leaf.Sound source lines
  from_ : ∀ leaf ∈ r.leaves, line ≤ leaf.first
  upTo : ∀ leaf ∈ r.leaves, leaf.last ≤ r.next
  before : r.leaves.Pairwise Leaf.Before
  le : line ≤ r.next

/-- A frame whose rows are left of the lines that they have the numbers of. -/
structure Frame.Sound (source : Array Char) (lines : Array Range) (f : Frame) : Prop where
  limit : f.limit ≤ f.rows.size
  rows : ∀ (i : Nat) (r : Row), f.rows[i]? = some r →
    ∃ l, lines[i]? = some l ∧ r.LeftOf source l

/-- A block may begin on a line: it is not empty, and one of the frame. -/
structure Frame.Begins (f : Frame) (line stop : Nat) : Prop where
  lt : line < stop
  le : stop ≤ f.limit
  full : f.isEmpty line = false

/-- A reader that gives what it should from every frame. -/
def Reader.Sound (source : Array Char) (lines : Array Range) (read : Reader) : Prop :=
  ∀ f line stop, f.Sound source lines → stop ≤ f.limit →
    (read f line stop).Sound source lines line

section

variable {source : Array Char} {lines : Array Range} {f : Frame} {line stop : Nat} {r r' : Reading}

/-! ## Readings -/

theorem Reading.sound_of_nil (next : Nat) (labels : List (List Char)) (h : line ≤ next) :
    Reading.Sound source lines line ⟨next, [], labels⟩ :=
  ⟨nofun, nofun, nofun, .nil, h⟩

theorem Reading.sound_of_leaf {leaf : Leaf} (next : Nat) (labels : List (List Char))
    (h : leaf.Sound source lines) (hfirst : line ≤ leaf.first) (hlast : leaf.last ≤ next)
    (hle : line ≤ next) : Reading.Sound source lines line ⟨next, [leaf], labels⟩ := by
  refine ⟨?_, ?_, ?_, List.pairwise_singleton .., hle⟩ <;> rw [List.forall_mem_singleton]
  · exact h
  · exact hfirst
  · exact hlast

/-- Reading on after some leaves. -/
theorem Reading.Sound.append (h : r.Sound source lines line) {line' : Nat} (hle : r.next ≤ line')
    (h' : r'.Sound source lines line') (labels : List (List Char)) :
    Reading.Sound source lines line ⟨r'.next, r.leaves ++ r'.leaves, labels⟩ := by
  have hnext : r.next ≤ r'.next := Nat.le_trans hle h'.le
  refine ⟨fun leaf hleaf => ?_, fun leaf hleaf => ?_, fun leaf hleaf => ?_,
    List.pairwise_append.mpr ⟨h.before, h'.before, fun a ha b hb => ?_⟩, Nat.le_trans h.le hnext⟩
  · exact (List.mem_append.mp hleaf).elim (h.sound leaf) (h'.sound leaf)
  · rcases List.mem_append.mp hleaf with hleaf | hleaf
    · exact h.from_ leaf hleaf
    · exact Nat.le_trans (Nat.le_trans h.le hle) (h'.from_ leaf hleaf)
  · rcases List.mem_append.mp hleaf with hleaf | hleaf
    · exact Nat.le_trans (h.upTo leaf hleaf) hnext
    · exact h'.upTo leaf hleaf
  · exact .lines (Nat.le_trans (h.upTo a ha) (Nat.le_trans hle (h'.from_ b hb)))

theorem Reading.Sound.mono (h : r.Sound source lines line) {line' : Nat} (hle : line' ≤ line) :
    r.Sound source lines line' :=
  ⟨h.sound, fun leaf hleaf => Nat.le_trans hle (h.from_ leaf hleaf), h.upTo, h.before,
    Nat.le_trans hle h.le⟩

/-! ## Rows of a frame -/

theorem Frame.Sound.row (h : f.Sound source lines) (hline : line < f.rows.size) :
    ∃ l, lines[line]? = some l ∧ (f.row line).LeftOf source l := by
  refine h.rows line _ ?_
  rw [Frame.row, Array.getElem?_eq_getElem hline]
  rfl

theorem Frame.Sound.row_of_begins (h : f.Sound source lines) (hb : f.Begins line stop) :
    ∃ l, lines[line]? = some l ∧ (f.row line).LeftOf source l :=
  h.row (Nat.lt_of_lt_of_le (Nat.lt_of_lt_of_le hb.lt hb.le) h.limit)

theorem Frame.Begins.line_pos {l : Range} (hb : f.Begins line stop)
    (hrow : (f.row line).LeftOf source l) (hfeed : Unmarked source l.stop) :
    l.start < l.stop := by
  have hfull := hb.full
  rw [Frame.isEmpty, Row.isEmpty, List.isEmpty_eq_false_iff] at hfull
  obtain ⟨p, hp⟩ := List.exists_mem_of_ne_nil _ hfull
  have hspread := hrow.onLine_content.spread hfeed
  exact Nat.lt_of_le_of_lt (hspread.from_ p hp) (hspread.below p hp)

/-- The text of some lines of a frame. -/
theorem Frame.Sound.paragraph (h : f.Sound source lines) (hlines : IsLines source lines)
    {last : Nat} (hlt : line < last) (hlast : last ≤ f.rows.size) :
    (Leaf.prose line last (f.paragraphText line last)).Sound source lines := by
  have hlen : (f.slice line last).length = last - line := by
    rw [Frame.slice, List.length_map, List.length_range']
  obtain ⟨l, l', hl, hl', hspread⟩ := joinRows_spread hlines f.indent (f.slice line last)
    (List.ne_nil_of_length_pos (by omega)) (i := line) fun k r hk => by
      rw [Frame.slice, List.getElem?_map] at hk
      obtain ⟨i, hi, rfl⟩ := Option.map_eq_some_iff.mp hk
      obtain ⟨hlen, rfl⟩ := List.getElem?_eq_some_iff.mp hi
      rw [List.length_range'] at hlen
      rw [List.getElem_range', Nat.one_mul]
      exact h.row (by omega)
  rw [hlen, show line + (last - line) - 1 = last - 1 by omega] at hl'
  have hbefore := hlines.before hl
  refine .prose hlt hl hl' (hspread.laid hbefore).stripPlaced fun p hp => ?_
  have hp := (stripPlaced_sublist _).mem hp
  exact ⟨hspread.from_ p hp, hspread.below p hp⟩

end

end DirectiveFences.Markdown
