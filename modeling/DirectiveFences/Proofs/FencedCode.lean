/-
Fenced code from end to end.

A text that is one fenced code block is followed through the whole of the program: its lines
are the rows of the parser, the first row opens a fence, no row of the content closes it and
the last one does; so there is one block of literal text, one protected range over it, and
every line of the block is inert.

An empty row needs care in two places.  At the very end of a source it would end the block,
so the rows have to be shown to end before; and a blank line has no character that could be
protected, so the rules ask about the place behind its blanks, which is still within the range.
-/
import DirectiveFences.Proofs.Inert
import DirectiveFences.Proofs.Recording
import DirectiveFences.Stage

namespace DirectiveFences

open Text

namespace Markdown

/-! ## What closes a fence -/

/-- The columns that some spaces and tabs take at the front of a line, with tab stops every four
columns. -/
def columns (cs : List Char) : Nat :=
  cs.foldl (fun column c => if c = '\t' then column + (4 - column % 4) else column + 1) 0

/-- Whether a line, as it is read, closes a fence of backticks: it is indented by three columns at
most, and has at least as many backticks, and after them spaces and tabs only. -/
def closesTicks (length : Nat) (line : List Char) : Bool :=
  let rest := line.dropWhile isSpace
  let run := (rest.takeWhile (· == '`')).length
  columns (line.takeWhile isSpace) ≤ 3 && length ≤ run && (rest.drop run).all isSpace

/-- Whether a line closes a fence of backticks, a carriage return being read as a space. -/
def closesFence (length : Nat) (line : List Char) : Bool :=
  closesTicks length (line.map fun c => if c = '\r' then ' ' else c)

theorem closesTicks_map {f : Char → Char} (hspace : ∀ c, isSpace (f c) = isSpace c)
    (htab : ∀ c, f c = '\t' ↔ c = '\t') (htick : ∀ c, (f c == '`') = (c == '`')) (length : Nat)
    (line : List Char) : closesTicks length (line.map f) = closesTicks length line := by
  have hcolumns : ∀ (cs : List Char), columns (cs.map f) = columns cs := by
    intro cs
    simp only [columns, List.foldl_map, htab]
  have hspaces : isSpace ∘ f = isSpace := funext hspace
  have hticks : (· == '`') ∘ f = (· == '`') := funext htick
  simp only [closesTicks, List.takeWhile_map, List.dropWhile_map, hspaces, hticks, hcolumns,
    List.length_map, ← List.map_drop, List.all_map]

theorem closesTicks_readable (length : Nat) (line : List Char) :
    closesTicks length (line.map readable) = closesFence length line := by
  have hreadable : readable = (fun c => if c = '\x00' then '\ufffd' else c) ∘
      fun c => if c = '\r' then ' ' else c := by
    funext c
    by_cases hc : c = '\r'
    · simp [readable, hc]
    · simp [readable, hc]
  rw [hreadable, ← List.map_map, closesFence, closesTicks_map]
  all_goals
    intro c
    split
    · rename_i h
      rw [h]
      decide
    · rfl

/-! ## Rows of a source -/

namespace Row

theorem map_zip_range' (start : Nat) (cs : List Char) :
    (cs.zip (List.range' start cs.length)).map (·.1) = cs :=
  List.map_fst_zip (by simp)

theorem lead_ofSource (start : Nat) (cs : List Char) :
    (ofSource start cs).lead.map (·.1) = cs.takeWhile isSpace := by
  conv => rhs; rw [← map_zip_range' start cs, List.takeWhile_map]
  rfl

theorem text_ofSource (start : Nat) (cs : List Char) :
    (ofSource start cs).text = cs.dropWhile isSpace := by
  conv => rhs; rw [← map_zip_range' start cs, List.dropWhile_map]
  rfl

theorem column_ofSource (start : Nat) (cs : List Char) :
    (ofSource start cs).column = columns (cs.takeWhile isSpace) := by
  have hfold : ∀ (ps : List Placed) (n : Nat), columnAfter 0 n ps =
      ((ps.map (·.1)).foldl
        (fun column c => if c = '\t' then column + (4 - column % 4) else column + 1) n : Nat) := by
    intro ps
    induction ps with
    | nil => exact fun n => rfl
    | cons p ps ih =>
        intro n
        have hstep : (n : Int) + width (n + 0) p.1 =
            (if p.1 = '\t' then n + (4 - n % 4) else n + 1 : Nat) := by
          unfold width
          split <;> omega
        rw [columnAfter, List.foldl_cons, hstep]
        exact ih _
  rw [columns, ← lead_ofSource start cs]
  exact hfold (ofSource start cs).lead 0

end Row

theorem length_rowsOf {cs last : List Char} {ls : List (List Char)} (h : split cs = ls ++ [last])
    (hlast : last.all isSpace = true) : (rowsOf cs).length = ls.length := by
  have hwhole : ((split cs).getLast?.map (·.all isSpace)).getD true = true := by
    rw [h, List.getLast?_concat]
    exact hlast
  rw [rowsOf, List.length_map, List.length_zip, (Scan.foldl_starts (split cs)).2, if_pos hwhole, h,
    List.dropLast_concat, List.length_map, List.length_range, List.length_append]
  omega

/-! ## A block of fenced code -/

namespace Frame

theorem row_ofSource {cs last : List Char} {ls : List (List Char)} (h : split cs = ls ++ [last])
    (hlast : last.all isSpace = true) {i : Nat} (hi : i < ls.length) :
    (ofSource cs).row i = Row.ofSource (lineStart (split cs) i) ls[i] := by
  have hlt : i < (rowsOf cs).length := by rwa [length_rowsOf h hlast]
  have hget := List.getElem?_eq_getElem hlt
  obtain ⟨hsplit, heq⟩ := Scan.exists_of_rowsOf hget
  have hline : (split cs)[i] = ls[i] := by
    simp only [h]
    exact List.getElem_append_left hi
  rw [row, ofSource, List.getElem?_toArray, hget, Option.getD_some, heq, hline]

end Frame

namespace Block

variable {f : Frame} {fence : Fence} {stop : Nat}

/-- Whether the block of a fence ends with a line. -/
def closesAt (f : Frame) (fence : Fence) (line : Nat) : Bool :=
  !f.isCode line && fence.isClosedBy (f.row line).text

/-- Fenced code runs up to the first line that closes it, if no empty line at the end of the source
comes before. -/
theorem fenceEnd_eq {last line fuel : Nat} (hline : line ≤ last) (hlast : last < stop)
    (hfuel : last < line + fuel) (hinside : ∀ i, i ≤ last → f.isOutdented i = false)
    (hopen : ∀ i, line ≤ i → i < last →
      (f.row i).stop ≠ f.size ∧ closesAt f fence i = false)
    (hfull : f.isEmpty last = false) (hclose : closesAt f fence last = true) :
    fenceEnd f fence stop fuel line = last + 1 := by
  induction fuel generalizing line with
  | zero => omega
  | succ fuel ih =>
      rw [fenceEnd, if_neg (by omega)]
      simp only
      rcases Nat.lt_or_eq_of_le hline with hlt | rfl
      · obtain ⟨hstop, hnot⟩ := hopen line (Nat.le_refl line) hlt
        have hnext : fenceEnd f fence stop fuel (line + 1) = last + 1 :=
          ih hlt (by omega) fun i hi => hopen i (by omega)
        rw [if_neg hstop, hinside line hline, hnext]
        rw [closesAt] at hnot
        rw [hnot]
        simp
      · rw [Frame.isEmpty] at hfull
        rw [closesAt] at hclose
        rw [hfull, hinside line hline, hclose]
        simp

theorem fence?_replicate {length : Nat} (h : 3 ≤ length) :
    fence? (List.replicate length '`') = some ⟨'`', length⟩ := by
  obtain ⟨n, rfl⟩ : ∃ n, length = n + 1 := ⟨length - 1, by omega⟩
  have htake : (List.replicate n '`').takeWhile (· == '`') = List.replicate n '`' := by simp
  have hdrop : (List.replicate n '`').drop (1 + n - 1) = [] := by simp
  rw [List.replicate_succ, fence?]
  simp only [htake, List.length_replicate, hdrop, List.contains_nil, Bool.and_false, Bool.not_false,
    Bool.and_true, beq_self_eq_true, Bool.true_or, Bool.true_and, decide_eq_true_eq]
  rw [if_pos (by omega), Nat.add_comm]

theorem eq_tick_of_mem_content {r : Row} {length : Nat} (htext : r.text = List.replicate length '`')
    {p : Placed} (hp : p ∈ r.content) : p.1 = '`' := by
  have hmem : p.1 ∈ r.text := List.mem_map_of_mem hp
  rw [htext] at hmem
  exact List.eq_of_mem_replicate hmem

/-- A row of backticks at the front of a document begins fenced code, whatever follows. -/
theorem blockAt_of_ticks (quoted listed : Reader) {length : Nat} (hlength : 3 ≤ length)
    (htext : (f.row 0).text = List.replicate length '`') (hcode : f.isCode 0 = false) :
    blockAt quoted listed f 0 stop =
      ⟨fenceEnd f ⟨'`', length⟩ stop stop 1,
        [.literal .fence 0 (fenceEnd f ⟨'`', length⟩ stop stop 1)], []⟩ := by
  have hfront : frontMatter? f 0 stop = none := by
    have hhead : ((f.row 0).content.head? == some ('-', 0)) = false := by
      refine beq_eq_false_iff_ne.mpr fun hhead => ?_
      exact absurd (eq_tick_of_mem_content htext (List.mem_of_head? hhead)) (by decide)
    rw [frontMatter?, hhead]
    simp
  have hbar : (f.row 0).content.any (·.1 == '|') = false := by
    refine List.any_eq_false.mpr fun p hp => ?_
    rw [eq_tick_of_mem_content htext hp]
    decide
  have htable : table? f 0 stop = none := by
    have hheader : f.tableAt? 0 stop = none := by
      rw [Frame.tableAt?, Table.header?, hbar]
      split
      · rfl
      · split <;> rfl
    rw [table?, hheader]
    rfl
  have hindented : indented? f 0 stop = none := by
    rw [indented?, hcode]
    rfl
  have hfence : f.fenceAt? 0 = some ⟨'`', length⟩ := by
    rw [Frame.fenceAt?, hcode, htext, fence?_replicate hlength]
    rfl
  rw [blockAt, hfront, htable, hindented, fenced?, hfence]
  rfl

theorem closesAt_ofSource {start : Nat} {cs : List Char} {line length : Nat} (hindent : f.indent = 0)
    (hrow : f.row line = Row.ofSource start cs) :
    closesAt f ⟨'`', length⟩ line = closesTicks length cs := by
  have hcode : f.isCode line = !decide (columns (cs.takeWhile isSpace) ≤ 3) := by
    rw [Frame.isCode, hrow, hindent, Row.column_ofSource, ← decide_not, decide_eq_decide]
    omega
  rw [closesAt, hcode, hrow, Row.text_ofSource, closesTicks, Fence.isClosedBy, Bool.not_not,
    Bool.and_assoc]

theorem blocksFrom_of_whole (quoted listed : Reader) {leaf : Leaf} {fuel : Nat} (hpos : 0 < f.limit)
    (hfull : f.isEmpty 0 = false) (hinside : f.isOutdented 0 = false)
    (hblock : blockAt quoted listed f 0 f.limit = ⟨f.limit, [leaf], []⟩) :
    blocksFrom quoted listed f f.limit (fuel + 1) 0 = ⟨f.limit, [leaf], []⟩ := by
  have hskip : f.skipEmpty 0 = 0 := by
    obtain ⟨n, hn⟩ : ∃ n, f.limit - 0 = n + 1 := ⟨f.limit - 1, by omega⟩
    rw [Frame.skipEmpty, hn, Frame.skipEmptyFrom, hfull, Bool.and_false]
    rfl
  have hend : blocksFrom quoted listed f f.limit fuel f.limit = ⟨f.limit, [], []⟩ := by
    cases fuel with
    | zero => rfl
    | succ fuel => rw [blocksFrom, if_pos (Nat.le_refl _)]
  rw [blocksFrom, if_neg (Nat.not_le_of_lt hpos)]
  simp only [hskip, hinside, hblock, Nat.not_le_of_lt hpos, Nat.lt_irrefl, decide_false,
    Bool.false_and, Bool.or_false, Bool.false_eq_true, if_false, hend, List.append_nil]

end Block

/-! ## A text of fenced code -/

/-- A line of backticks. -/
def tickLine (length : Nat) : List Char :=
  List.replicate length '`'

/-- Some content between two lines of backticks, which are lines of their own. -/
def fencedCode (length : Nat) (content : List Char) : List Char :=
  tickLine length ++ '\n' :: (content ++ '\n' :: (tickLine length ++ ['\n']))

theorem newline_not_mem_tickLine (length : Nat) : '\n' ∉ tickLine length := fun h =>
  absurd (List.eq_of_mem_replicate h) (by decide)

/-- The lines that a block of fenced code takes. -/
def fencedLines (length : Nat) (content : List Char) : List (List Char) :=
  tickLine length :: (split content ++ [tickLine length])

theorem split_fencedCode (length : Nat) (content : List Char) :
    split (fencedCode length content) = fencedLines length content ++ [[]] := by
  rw [fencedCode, split_append_newline (newline_not_mem_tickLine length), split_append_break,
    split_append_newline (newline_not_mem_tickLine length), split_nil]
  simp [fencedLines]

theorem length_fencedLines (length : Nat) (content : List Char) :
    (fencedLines length content).length = (split content).length + 2 := by
  simp [fencedLines]

theorem lineStart_fencedCode_succ {length : Nat} {content l : List Char} {i : Nat}
    (hl : (fencedLines length content)[i]? = some l) :
    lineStart (split (fencedCode length content)) (i + 1) =
      lineStart (split (fencedCode length content)) i + l.length + 1 := by
  obtain ⟨hi, rfl⟩ := List.getElem?_eq_some_iff.mp hl
  have hsplit := split_fencedCode length content
  have hi' : i < (split (fencedCode length content)).length := by
    rw [hsplit, List.length_append]
    exact Nat.lt_add_right _ hi
  have hline : (split (fencedCode length content))[i] = (fencedLines length content)[i] := by
    simp only [hsplit]
    exact List.getElem_append_left hi
  rw [lineStart_succ hi', hline]

theorem lineStart_fencedCode_end (length : Nat) (content : List Char) :
    lineStart (split (fencedCode length content)) ((split content).length + 2) =
      (fencedCode length content).length := by
  have hjoin := length_join (split_ne_nil (fencedCode length content))
  rw [join_split, split_fencedCode, List.length_append, List.length_singleton,
    lineStart_length_concat, List.length_nil] at hjoin
  rw [split_fencedCode, ← length_fencedLines length content, lineStart_append_left (Nat.le_refl _)]
  omega

theorem tickLine_of_fencedLines {length : Nat} {content : List Char} {i : Nat}
    (hi : i = 0 ∨ i = (split content).length + 1) :
    (fencedLines length content)[i]? = some (tickLine length) := by
  rcases hi with rfl | rfl
  · rfl
  · simp [fencedLines]

theorem mem_split_of_fencedLines {length : Nat} {content l : List Char} {i : Nat} (hpos : 1 ≤ i)
    (hi : i < (split content).length + 1) (hl : (fencedLines length content)[i]? = some l) :
    l ∈ split content := by
  obtain ⟨j, rfl⟩ : ∃ j, i = j + 1 := ⟨i - 1, by omega⟩
  rw [fencedLines, List.getElem?_cons_succ, List.getElem?_append_left (by omega)] at hl
  exact List.mem_of_getElem? hl

theorem closesTicks_tickLine {length : Nat} (h : 0 < length) :
    closesTicks length (tickLine length) = true := by
  obtain ⟨n, rfl⟩ : ∃ n, length = n + 1 := ⟨length - 1, by omega⟩
  simp [closesTicks, tickLine, List.replicate_succ, isSpace, columns]

theorem map_readable_tickLine (length : Nat) : (tickLine length).map readable = tickLine length := by
  rw [tickLine, List.map_replicate]
  rfl

theorem split_readable_fencedCode (length : Nat) (content : List Char) :
    split ((fencedCode length content).map readable) =
      (fencedLines length content).map (List.map readable) ++ [[]] := by
  rw [split_map Scan.readable_eq_newline_iff, split_fencedCode, List.map_append]
  rfl

section

variable {length : Nat} {content : List Char}

/-- What the parser makes of the text. -/
def fencedFrame (length : Nat) (content : List Char) : Frame :=
  Frame.ofSource ((fencedCode length content).map readable)

theorem row_fencedFrame {l : List Char} {i : Nat} (hl : (fencedLines length content)[i]? = some l) :
    (fencedFrame length content).row i =
      Row.ofSource (lineStart (split (fencedCode length content)) i) (l.map readable) := by
  obtain ⟨hi, rfl⟩ := List.getElem?_eq_some_iff.mp hl
  rw [fencedFrame, Frame.row_ofSource (split_readable_fencedCode length content) rfl
    (by rwa [List.length_map]), List.getElem_map, split_map Scan.readable_eq_newline_iff,
    lineStart_map]

theorem limit_fencedFrame : (fencedFrame length content).limit = (split content).length + 2 := by
  rw [fencedFrame, Frame.ofSource, List.size_toArray,
    length_rowsOf (split_readable_fencedCode length content) rfl, List.length_map,
    length_fencedLines]

theorem stop_row_fencedFrame {l : List Char} {i : Nat}
    (hl : (fencedLines length content)[i]? = some l) :
    ((fencedFrame length content).row i).stop ≠ (fencedFrame length content).size := by
  have hi := (List.getElem?_eq_some_iff.mp hl).1
  rw [length_fencedLines] at hi
  have hnext := lineStart_fencedCode_succ hl
  have hmono := lineStart_mono (split (fencedCode length content))
    (show i + 1 ≤ (split content).length + 2 from hi)
  rw [lineStart_fencedCode_end] at hmono
  have hstop : ((fencedFrame length content).row i).stop =
      lineStart (split (fencedCode length content)) i + l.length := by
    rw [row_fencedFrame hl, Row.ofSource, List.length_map]
  have hsize : (fencedFrame length content).size = (fencedCode length content).length := by
    rw [fencedFrame, Frame.ofSource, List.length_map]
  rw [hstop, hsize]
  omega

theorem blocksOf_fencedCode (hlength : 3 ≤ length)
    (h : ∀ l ∈ split content, closesFence length l = false) :
    blocksOf (fencedCode length content) =
      ⟨(split content).length + 2, [.literal .fence 0 ((split content).length + 2)], []⟩ := by
  have hrow := @row_fencedFrame length content
  have hstop := @stop_row_fencedFrame length content
  have hlimit := @limit_fencedFrame length content
  have hfirst := hrow (tickLine_of_fencedLines (Or.inl rfl))
  have hlast := hrow (tickLine_of_fencedLines (Or.inr rfl))
  rw [map_readable_tickLine] at hfirst hlast
  show Block.blocks Inline.maxNesting (fencedFrame length content) 0
    (fencedFrame length content).limit = _
  have hindent : (fencedFrame length content).indent = 0 := rfl
  generalize fencedFrame length content = f at *
  obtain ⟨n, rfl⟩ : ∃ n, length = n + 1 := ⟨length - 1, by omega⟩
  have htext : ∀ {i start}, f.row i = Row.ofSource start (tickLine (n + 1)) →
      (f.row i).text = tickLine (n + 1) := by
    intro i start hi
    rw [hi, Row.text_ofSource]
    rfl
  have hinside : ∀ i, i ≤ (split content).length + 1 → f.isOutdented i = false := by
    intro i hi
    have hi' : i < (fencedLines (n + 1) content).length := by
      rw [length_fencedLines]
      omega
    rw [Frame.isOutdented, hrow (List.getElem?_eq_getElem hi'), hindent, Row.column_ofSource]
    exact decide_eq_false (by omega)
  have hcode : f.isCode 0 = false := by
    rw [Frame.isCode, hfirst, hindent, Row.column_ofSource]
    rfl
  have hempty : ∀ {i}, (f.row i).text = tickLine (n + 1) → f.isEmpty i = false := by
    intro i hi
    rw [Row.text] at hi
    rw [Frame.isEmpty, Row.isEmpty, ← List.isEmpty_map, hi]
    rfl
  have hend : Block.fenceEnd f ⟨'`', n + 1⟩ f.limit f.limit 1 = (split content).length + 2 := by
    refine @Block.fenceEnd_eq f _ _ ((split content).length + 1) 1 f.limit (by omega) (by omega)
      (by omega) hinside (fun i hi hi' => ?_) (hempty (htext hlast)) ?_
    · have hlt : i < (fencedLines (n + 1) content).length := by
        rw [length_fencedLines]
        omega
      have hl := List.getElem?_eq_getElem hlt
      refine ⟨hstop hl, ?_⟩
      rw [Block.closesAt_ofSource hindent (hrow hl), closesTicks_readable]
      exact h _ (mem_split_of_fencedLines hi hi' hl)
    · rw [Block.closesAt_ofSource hindent hlast]
      exact closesTicks_tickLine (Nat.succ_pos n)
  rw [show Inline.maxNesting = 18 + 2 from rfl, Block.blocks, ← hlimit]
  refine Block.blocksFrom_of_whole _ _ (by omega) (hempty (htext hfirst)) (hinside 0 (by omega)) ?_
  rw [Block.blockAt_of_ticks _ _ hlength (htext hfirst) hcode, hend, hlimit]

end

end Markdown

/-! ## From the parser to the output -/

open Markdown

namespace Scan

theorem size_lineRanges (text : List Char) : (lineRanges text).size = (split text).length :=
  (foldl_lineRanges (split text)).2.1

/-- The one protected range begins with the first line of the block and ends with the last. -/
theorem ranges_fencedCode {length : Nat} {content : List Char} (hlength : 3 ≤ length)
    (h : ∀ l ∈ split content, closesFence length l = false) :
    ranges (fencedCode length content) = [⟨0, (fencedCode length content).length - 1⟩] := by
  have hline : ∀ i, i = 0 ∨ i = (split content).length + 1 →
      (lineRanges (fencedCode length content))[i]? =
        some ⟨lineStart (split (fencedCode length content)) i,
          lineStart (split (fencedCode length content)) i + length⟩ := by
    intro i hi
    have hi' : i < (fencedLines length content).length := by
      rw [length_fencedLines]
      omega
    rw [getElem?_lineRanges]
    conv => lhs; arg 2; rw [split_fencedCode]
    rw [List.getElem?_append_left hi', tickLine_of_fencedLines hi, Option.map_some, tickLine,
      List.length_replicate]
  have hlast : min ((split content).length + 2) (lineRanges (fencedCode length content)).size - 1 =
      (split content).length + 1 := by
    rw [size_lineRanges, split_fencedCode, List.length_append, length_fencedLines]
    omega
  have hstop : lineStart (split (fencedCode length content)) ((split content).length + 1) + length =
      (fencedCode length content).length - 1 := by
    have hl : (fencedLines length content)[(split content).length + 1]? = some (tickLine length) :=
      tickLine_of_fencedLines (Or.inr rfl)
    have hnext := lineStart_fencedCode_succ hl
    rw [lineStart_fencedCode_end, tickLine, List.length_replicate] at hnext
    omega
  have hrange : blockRange? (lineRanges (fencedCode length content)) 0
      ((split content).length + 2) = some ⟨0, (fencedCode length content).length - 1⟩ := by
    have hend := hline _ (Or.inr rfl)
    rw [hstop, ← hlast] at hend
    rw [blockRange?_eq_some (Nat.succ_pos _) (hline 0 (Or.inl rfl)) hend, lineStart_zero]
  have hregions : regions (fencedCode length content) = [.literal 0 ((split content).length + 2)] := by
    rw [regions, blocksOf_fencedCode hlength h]
    rfl
  rw [ranges, hregions, locate, List.foldl_cons, List.foldl_nil, region, hrange, sorted]
  exact List.mergeSort_singleton _

end Scan

namespace Convert

theorem text_of_plain {toggles : Toggles} {ranges : Array Range} {t : List Char}
    (h : ∀ s ∈ sitesOf ranges t, kind toggles s false = .plain) : text toggles ranges t = t := by
  have hrun : ∀ ss : List Site, (∀ s ∈ ss, kind toggles s false = .plain) →
      (trace toggles {} ss).flatMap (·.lines) = ss.map (·.line.toList) ∧
        after toggles {} ss = {} := by
    intro ss hss
    induction ss with
    | nil => exact ⟨rfl, rfl⟩
    | cons s ss ih =>
        obtain ⟨hlines, hafter⟩ := ih fun s' hs' => hss s' (List.mem_cons_of_mem s hs')
        have hstep : step toggles s {} = ⟨{}, [s.line.toList], []⟩ := by
          rw [step_eq_act]
          show (kind toggles s false).act s {} = _
          rw [hss s List.mem_cons_self]
          rfl
        rw [trace, after_cons, hstep, List.flatMap_cons, hlines, hafter]
        exact ⟨rfl, rfl⟩
  obtain ⟨hlines, hafter⟩ := hrun (sitesOf ranges t) h
  have hraws : (sitesOf ranges t).map (·.line.toList) = split t := by
    have hmap := congrArg (List.map Line.toList) (map_line_sites ranges 0 (split t))
    rw [List.map_map, List.map_map] at hmap
    refine hmap.trans (List.map_id'' Line.toList_ofList _)
  rw [text, lines_eq_trace, hlines, hafter, hraws]
  show join (split t ++ []) = t
  rw [List.append_nil, join_split]

/-- Every line of fenced code is inert, the blank ones too, and the line after the block is
empty. -/
theorem plain_of_fencedCode (toggles : Toggles) {length : Nat} (hlength : 3 ≤ length)
    (content : List Char) {s : Site}
    (hs : s ∈ sitesOf #[⟨0, (fencedCode length content).length - 1⟩] (fencedCode length content)) :
    kind toggles s false = .plain := by
  obtain ⟨i, hi⟩ := List.mem_iff_getElem?.mp hs
  rw [getElem?_sitesOf] at hi
  obtain ⟨raw, hraw, rfl⟩ := Option.map_eq_some_iff.mp hi
  rw [split_fencedCode] at hraw
  rcases Nat.lt_or_ge i (fencedLines length content).length with hlt | hge
  · rw [List.getElem?_append_left hlt] at hraw
    have hnext := lineStart_fencedCode_succ hraw
    have hend := lineStart_fencedCode_end length content
    rw [length_fencedLines] at hlt
    -- the place that the rules ask about is not behind the line's end
    have hindent : ((Line.ofList raw).body.takeWhile isBlank).length ≤ raw.length := by
      have hbody := congrArg List.length (Line.toList_ofList raw)
      rw [Line.toList, List.length_append] at hbody
      exact Nat.le_trans (List.takeWhile_prefix _).length_le (by omega)
    have hbefore : lineStart (split (fencedCode length content)) i +
        ((Line.ofList raw).body.takeWhile isBlank).length < (fencedCode length content).length - 1 := by
      rcases Nat.lt_or_eq_of_le (Nat.le_of_lt_succ hlt) with hlt' | rfl
      · have hl : (fencedLines length content)[(split content).length + 1]? =
            some (tickLine length) := tickLine_of_fencedLines (Or.inr rfl)
        have hlast := lineStart_fencedCode_succ hl
        rw [hend, tickLine, List.length_replicate] at hlast
        have hmono := lineStart_mono (split (fencedCode length content))
          (show i + 1 ≤ (split content).length + 1 from hlt')
        omega
      · rw [tickLine_of_fencedLines (Or.inr rfl)] at hraw
        obtain rfl := Option.some.inj hraw
        have hink : (Line.ofList (tickLine length)).body.takeWhile isBlank = [] := by
          obtain ⟨n, rfl⟩ : ∃ n, length = n + 1 := ⟨length - 1, by omega⟩
          have hlt : ((tickLine (n + 1)).takeWhile isBlank).length < (tickLine (n + 1)).length := by
            simp [tickLine, List.replicate_succ, isBlank]
          rw [takeWhile_body hlt]
          rfl
        rw [hend, tickLine, List.length_replicate] at hnext
        rw [hink, List.length_nil]
        omega
    refine kind_of_isInert toggles ?_ false
    show Range.isProtected _ _ = true
    rw [Range.isProtected_iff_exists ⟨by simp, by simp⟩]
    refine ⟨_, List.mem_singleton.mpr rfl, ?_⟩
    simp only [Range.holds, Bool.and_eq_true, decide_eq_true_eq]
    omega
  · rw [List.getElem?_append_right hge] at hraw
    have hnil : raw = [] := List.mem_singleton.mp (List.mem_of_getElem? hraw)
    refine kind_of_blank toggles ?_ false
    rw [hnil]
    intro c hc
    cases hc

/-- **Fenced code is untouched from end to end.**  Between two lines of `length` backticks, content
in which no line closes the fence is one protected range, from the first of these lines to the last,
and the whole text is written as it stands. -/
theorem fencedCode_untouched {length : Nat} (hlength : 3 ≤ length) {content : List Char}
    (h : ∀ l ∈ split content, closesFence length l = false) :
    Scan.ranges (fencedCode length content) = [⟨0, (fencedCode length content).length - 1⟩] ∧
      ∀ toggles, Stage.convert toggles (fencedCode length content) = fencedCode length content := by
  have hranges := Scan.ranges_fencedCode hlength h
  refine ⟨hranges, fun toggles => ?_⟩
  rw [Stage.convert, hranges]
  exact text_of_plain fun s hs => plain_of_fencedCode toggles hlength content hs

/-- Content with a formula, a div fence after a carriage return, a fence that is too short, one that is
indented too far, a delimiter row, front matter and an empty line. -/
def trickyContent : List Char :=
  "$$x$$\r\n::: {.n}\r\n``\n\t```\n|a|\n|-|\n---\n\n``` x".toList

theorem trickyContent_untouched :
    3 ≤ 3 ∧ (∀ l ∈ split trickyContent, closesFence 3 l = false) ∧
      Scan.ranges (fencedCode 3 trickyContent) = [⟨0, 51⟩] ∧
      Stage.convert {} (fencedCode 3 trickyContent) = fencedCode 3 trickyContent := by
  have hopen : ∀ l ∈ split trickyContent, closesFence 3 l = false := by decide +kernel
  obtain ⟨hranges, hconvert⟩ := fencedCode_untouched (Nat.le_refl 3) hopen
  exact ⟨Nat.le_refl 3, hopen, hranges.trans (by decide +kernel), hconvert {}⟩

end Convert

end DirectiveFences
