/-
The lines of a text, as the scan and the Markdown parser see them.

The scan reads a carriage return as a space, and the parser also replaces NUL characters.
Both leave every backtick, every backslash and every line feed where it is.  So the line
ranges of the scan are the lines of its source, and the parser's rows are what is left of
them before any container has taken something.
-/
import DirectiveFences.Markdown.Document
import DirectiveFences.Proofs.Rows

namespace DirectiveFences

namespace Text

theorem split_map {f : Char → Char} (hf : ∀ c, f c = '\n' ↔ c = '\n') (t : List Char) :
    split (t.map f) = (split t).map (List.map f) := by
  induction t with
  | nil => rfl
  | cons c t ih =>
      rw [List.map_cons]
      by_cases hc : c = '\n'
      · rw [(hf c).mpr hc, hc, split_newline, split_newline, ih]
        rfl
      · cases hsplit : split t with
        | nil => exact absurd hsplit (split_ne_nil t)
        | cons l ls =>
            rw [hsplit] at ih
            rw [split_cons (fun h => hc ((hf c).mp h)) ih, split_cons hc hsplit]
            rfl

theorem lineStart_map (f : Char → Char) (ls : List (List Char)) (i : Nat) :
    lineStart (ls.map (List.map f)) i = lineStart ls i := by
  induction ls generalizing i with
  | nil => rfl
  | cons l ls ih =>
      cases i with
      | zero => rfl
      | succ i => rw [List.map_cons, lineStart_cons_succ, lineStart_cons_succ, ih, List.length_map]

theorem lineStart_append_left {ls : List (List Char)} {i : Nat} (hi : i ≤ ls.length)
    (ls' : List (List Char)) : lineStart (ls ++ ls') i = lineStart ls i := by
  induction ls generalizing i with
  | nil => rw [Nat.le_zero.mp hi, lineStart_zero, lineStart_zero]
  | cons l ls ih =>
      cases i with
      | zero => rfl
      | succ i =>
          rw [List.cons_append, lineStart_cons_succ, lineStart_cons_succ,
            ih (Nat.le_of_succ_le_succ hi)]

theorem lineStart_length_concat (ls : List (List Char)) (l : List Char) :
    lineStart (ls ++ [l]) (ls.length + 1) = lineStart ls ls.length + l.length + 1 := by
  have h := lineStart_succ (show ls.length < (ls ++ [l]).length by simp)
  rw [lineStart_append_left (Nat.le_refl _), List.getElem_concat_length rfl] at h
  exact h

end Text

open Text

namespace Scan

open Markdown

/-- The text as the scan reads it. -/
def sourceOf (text : List Char) : Array Char :=
  (text.map fun c => if c = '\r' then ' ' else c).toArray

/-! ## The ranges of lines -/

theorem foldl_lineRanges (ls : List (List Char)) :
    let acc := ls.foldl (fun (acc : Nat × Array Range) l =>
      (acc.1 + l.length + 1, acc.2.push ⟨acc.1, acc.1 + l.length⟩)) (0, #[])
    acc.1 = lineStart ls ls.length ∧ acc.2.size = ls.length ∧
      ∀ i : Nat, acc.2[i]? = ls[i]?.map fun l =>
        (⟨lineStart ls i, lineStart ls i + l.length⟩ : Range) := by
  induction ls using List.reverseRecOn with
  | nil => exact ⟨rfl, rfl, fun i => rfl⟩
  | append_singleton ls l ih =>
      obtain ⟨hstart, hsize, hget⟩ := ih
      simp only [List.foldl_append, List.foldl_cons, List.foldl_nil, List.length_append,
        List.length_singleton]
      refine ⟨by rw [hstart, lineStart_length_concat], by rw [Array.size_push, hsize],
        fun i => ?_⟩
      rw [Array.getElem?_push, hsize]
      split
      · rename_i heq
        rw [heq, hstart, lineStart_append_left (Nat.le_refl _), List.getElem?_concat_length]
        rfl
      · rename_i hne
        rw [hget]
        rcases Nat.lt_or_ge i ls.length with hlt | hge
        · rw [List.getElem?_append_left hlt, lineStart_append_left (Nat.le_of_lt hlt)]
        · rw [List.getElem?_eq_none hge, List.getElem?_eq_none (by simp; omega)]
          rfl

theorem getElem?_lineRanges (text : List Char) (i : Nat) :
    (lineRanges text)[i]? = (split text)[i]?.map fun l =>
      ⟨lineStart (split text) i, lineStart (split text) i + l.length⟩ :=
  (foldl_lineRanges (split text)).2.2 i

theorem exists_of_lineRanges {text : List Char} {i : Nat} {r : Range}
    (h : (lineRanges text)[i]? = some r) : ∃ hi : i < (split text).length,
      r = ⟨lineStart (split text) i, lineStart (split text) i + (split text)[i].length⟩ := by
  rw [getElem?_lineRanges] at h
  obtain ⟨l, hl, rfl⟩ := Option.map_eq_some_iff.mp h
  obtain ⟨hi, rfl⟩ := List.getElem?_eq_some_iff.mp hl
  exact ⟨hi, rfl⟩

theorem getElem?_sourceOf (text : List Char) (x : Nat) :
    (sourceOf text)[x]? = text[x]?.map fun c => if c = '\r' then ' ' else c := by
  rw [sourceOf, List.getElem?_toArray, List.getElem?_map]

theorem isLines_lineRanges (text : List Char) : IsLines (sourceOf text) (lineRanges text) := by
  refine ⟨fun l hl => ?_, fun i l l' hl hl' => ?_, fun i l hl => ?_, fun i l hl => ?_,
    fun i l hl => ?_⟩
  · obtain ⟨-, rfl⟩ := exists_of_lineRanges hl
    exact lineStart_zero (split text)
  · obtain ⟨hi, rfl⟩ := exists_of_lineRanges hl
    obtain ⟨-, rfl⟩ := exists_of_lineRanges hl'
    exact lineStart_succ hi
  · obtain ⟨-, rfl⟩ := exists_of_lineRanges hl
    exact Nat.le_add_right ..
  · obtain ⟨hi, rfl⟩ := exists_of_lineRanges hl
    have hle := lineStart_add_length_le hi
    rw [join_split] at hle
    simpa [sourceOf] using hle
  · obtain ⟨hi, rfl⟩ := exists_of_lineRanges hl
    have hfeed : ∀ c, text[lineStart (split text) i + (split text)[i].length]? = some c →
        c = '\n' := fun c hc => getElem?_join_lineEnd hi (by rwa [join_split])
    constructor <;>
    · rw [getElem?_sourceOf]
      intro h
      obtain ⟨c, hc, heq⟩ := Option.map_eq_some_iff.mp h
      rw [hfeed c hc] at heq
      exact absurd heq (by decide)

/-! ## The rows of the parser -/

theorem foldl_starts (ls : List (List Char)) :
    let acc := ls.foldl (fun (acc : Nat × List Nat) l =>
      (acc.1 + l.length + 1, acc.1 :: acc.2)) (0, [])
    acc.1 = lineStart ls ls.length ∧ acc.2.reverse = (List.range ls.length).map (lineStart ls) := by
  induction ls using List.reverseRecOn with
  | nil => exact ⟨rfl, rfl⟩
  | append_singleton ls l ih =>
      obtain ⟨hstart, hstarts⟩ := ih
      simp only [List.foldl_append, List.foldl_cons, List.foldl_nil, List.length_append,
        List.length_singleton]
      refine ⟨by rw [hstart, lineStart_length_concat], ?_⟩
      rw [List.reverse_cons, hstarts, hstart, List.range_succ, List.map_append]
      congr 1
      · refine List.map_congr_left fun i hi => ?_
        exact (lineStart_append_left (Nat.le_of_lt (List.mem_range.mp hi)) [l]).symm
      · rw [List.map_singleton, lineStart_append_left (Nat.le_refl _)]

theorem exists_of_rowsOf {cs : List Char} {i : Nat} {r : Row} (h : (rowsOf cs)[i]? = some r) :
    ∃ hi : i < (split cs).length, r = Row.ofSource (lineStart (split cs) i) (split cs)[i] := by
  rw [rowsOf, List.getElem?_map] at h
  obtain ⟨⟨start, l⟩, hzip, rfl⟩ := Option.map_eq_some_iff.mp h
  obtain ⟨hstart, hl⟩ := List.getElem?_zip_eq_some.mp hzip
  rw [(foldl_starts (split cs)).2, List.getElem?_map] at hstart
  obtain ⟨j, hj, rfl⟩ := Option.map_eq_some_iff.mp hstart
  obtain ⟨hi, rfl⟩ := List.getElem?_eq_some_iff.mp hj
  have hi : i < (split cs).length := by simpa using hi
  have hl : (split cs)[i]? = some l := by
    simp only at hl
    split at hl
    · rw [List.getElem?_dropLast] at hl
      split at hl
      · exact hl
      · cases hl
    · exact hl
  rw [List.getElem?_eq_getElem hi] at hl
  exact ⟨hi, by rw [List.getElem_range, Option.some.inj hl]⟩

theorem readable_eq_iff {c m : Char} (hm : m ≠ ' ' ∧ m ≠ '\r' ∧ m ≠ '\ufffd' ∧ m ≠ '\x00') :
    readable c = m ↔ (if c = '\r' then ' ' else c) = m := by
  rw [readable]
  split
  · exact Iff.rfl
  · split
    · rename_i hnul
      exact ⟨fun h => absurd h.symm hm.2.2.1, fun h => absurd (h.symm.trans hnul) hm.2.2.2⟩
    · exact Iff.rfl

theorem readable_eq_newline_iff (c : Char) : readable c = '\n' ↔ c = '\n' := by
  rw [readable_eq_iff (by decide)]
  split
  · rename_i h
    rw [h]
    decide
  · exact Iff.rfl

/-- The parser reads the marks that the scan reads. -/
theorem reads_readable {text : List Char} {x : Nat} {c : Char} (h : text[x]? = some c) :
    Reads (sourceOf text) (readable c, x) := by
  have hsource : (sourceOf text)[x]? = some (if c = '\r' then ' ' else c) := by
    rw [getElem?_sourceOf, h]
    rfl
  constructor
  · rw [hsource, Option.some_inj]
    exact readable_eq_iff (by decide)
  · rw [hsource, Option.some_inj]
    exact readable_eq_iff (by decide)

theorem rowsOf_leftOf {text : List Char} {i : Nat} {r : Row}
    (h : (rowsOf (text.map readable))[i]? = some r) :
    ∃ l, (lineRanges text)[i]? = some l ∧ r.LeftOf (sourceOf text) l := by
  obtain ⟨hi, rfl⟩ := exists_of_rowsOf h
  have hsplit := split_map readable_eq_newline_iff text
  have hi' : i < (split text).length := by
    rwa [hsplit, List.length_map] at hi
  have hline : (split (text.map readable))[i] = (split text)[i].map readable := by
    simp only [hsplit, List.getElem_map]
  have hlen : (split (text.map readable))[i].length = (split text)[i].length := by
    rw [hline, List.length_map]
  have hstart : lineStart (split (text.map readable)) i = lineStart (split text) i := by
    rw [hsplit, lineStart_map]
  refine ⟨⟨lineStart (split text) i, lineStart (split text) i + (split text)[i].length⟩, ?_, ?_⟩
  · rw [getElem?_lineRanges, List.getElem?_eq_getElem hi']
    rfl
  · rw [← hlen, hstart]
    refine Row.leftOf_ofSource ?_ fun k c hc => ?_
    · exact newline_not_mem_of_mem_split (List.getElem_mem hi)
    · rw [hline, List.getElem?_map] at hc
      obtain ⟨d, hd, rfl⟩ := Option.map_eq_some_iff.mp hc
      obtain ⟨hk, rfl⟩ := List.getElem?_eq_some_iff.mp hd
      have := getElem?_join_lineStart_add hi' hk
      rw [join_split] at this
      exact reads_readable this

end Scan

end DirectiveFences
