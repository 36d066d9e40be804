/-
The protected ranges of a document.

A block of literal text is protected from the start of its first line to the end
of its last one.  A code span is found again in the source by the length of its
delimiters, going from left to right through its block; raw HTML and autolinks
are passed over on the way, since backticks inside them delimit nothing.  A span
that cannot be found is noted and left out.
-/
import DirectiveFences.Markdown.Document
import DirectiveFences.Protected.CodeSpan

namespace DirectiveFences.Scan

open Markdown

/-- A code span that was not found again: its content, and where its block starts. -/
structure Lost where
  content : List Char
  offset : Nat
deriving DecidableEq, Repr

/-- What the scan has come to: how far the source is used up, and the ranges and the lost spans so
far, the last one first. -/
structure Progress where
  cursor : Nat := 0
  ranges : List Range := []
  lost : List Lost := []

/-- The ranges of a text's lines, without their line feeds. -/
def lineRanges (text : List Char) : Array Range :=
  ((Text.split text).foldl (fun (acc : Nat × Array Range) l =>
    (acc.1 + l.length + 1, acc.2.push ⟨acc.1, acc.1 + l.length⟩)) (0, #[])).2

/-- The range of the lines from `first` up to `last`, as far as there are such lines. -/
def blockRange? (lines : Array Range) (first last : Nat) : Option Range :=
  let last := min last lines.size
  if first < last then
    match lines[first]?, lines[last - 1]? with
    | some a, some b => some ⟨a.start, b.stop⟩
    | _, _ => none
  else none

/-- The first of the next `room` places where the text has the given characters. -/
def findText (source : Array Char) (cs : List Char) : Nat → Nat → Option Nat
  | 0, _ => none
  | room + 1, pos =>
    if CodeSpan.spells source cs pos then some pos else findText source cs room (pos + 1)

/-- The place after some raw HTML, whose lines are looked for one after the other; a line that is
not found is passed over. -/
def skipHtml (source : Array Char) (limit : Nat) (content : List Char) (pos : Nat) : Nat :=
  (Text.split content).foldl (fun pos line =>
    match findText source line (limit + 1 - (pos + line.length)) pos with
    | some found => found + line.length
    | none => pos) pos

/-- The place after the address whose opening bracket stands before `pos`, if it has no blank and no
other bracket in it. -/
def addressEnd (source : Array Char) : Nat → Nat → Option Nat
  | 0, _ => none
  | room + 1, pos =>
    match source[pos]? with
    | none => none
    | some c =>
      if c = '>' then some (pos + 1)
      else if c = '<' || Text.isBlank c then none
      else addressEnd source room (pos + 1)

/-- The place after the next address in angle brackets, or the same place when there is none. -/
def skipAutolink (source : Array Char) (limit start : Nat) : Nat → Nat → Nat
  | 0, _ => start
  | room + 1, pos =>
    match (if source[pos]? = some '<' then addressEnd source (limit - (pos + 1)) (pos + 1)
      else none) with
    | some stop => stop
    | none => skipAutolink source limit start room (pos + 1)

/-- One piece of a block's text, from the place where the one before it ended. -/
def piece (source : Array Char) (region : Range) (p : Progress) : Piece → Progress
  | .html content _ _ => { p with cursor := skipHtml source region.stop content p.cursor }
  | .autolink _ _ =>
    { p with
      cursor := skipAutolink source region.stop p.cursor (region.stop - p.cursor) p.cursor }
  | .code ticks content _ _ =>
    match CodeSpan.find? source (List.replicate ticks '`') p.cursor region.stop with
    | some span => { p with cursor := span.stop, ranges := span :: p.ranges }
    | none => { p with lost := ⟨content, region.start⟩ :: p.lost }

/-- One region of the document. -/
def region (source : Array Char) (lines : Array Range) (p : Progress) : Region → Progress
  | .literal first last =>
    match blockRange? lines first last with
    | some r => { p with cursor := max p.cursor r.stop, ranges := r :: p.ranges }
    | none => p
  | .prose first last pieces =>
    match blockRange? lines first last with
    | some r => pieces.foldl (piece source r) { p with cursor := max p.cursor r.start }
    | none => p

/-- The scan of a text whose regions are given. -/
def locate (text : List Char) (regions : List Region) : Progress :=
  let source := (text.map fun c => if c = '\r' then ' ' else c).toArray
  regions.foldl (region source (lineRanges text)) {}

/-- Ranges in order. -/
def sorted (p : Progress) : List Range :=
  p.ranges.reverse.mergeSort Range.le

/-- The protected ranges of a text. -/
def ranges (text : List Char) : List Range :=
  sorted (locate text (Markdown.regions text))

/-- The code spans of a text that were not found again. -/
def lost (text : List Char) : List Lost :=
  (locate text (Markdown.regions text)).lost.reverse

end DirectiveFences.Scan
