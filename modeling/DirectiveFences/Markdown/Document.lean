/-
Documents as the regions in which code can stand.

A document is read twice: its block structure first, which gives the labels that
are defined, and then the inline structure of each of its blocks of text.  A
carriage return counts as a space, and a NUL character as the replacement
character.
-/
import DirectiveFences.Markdown.Block
import DirectiveFences.Markdown.Inline

namespace DirectiveFences.Markdown

/-- A block of literal text, or a block of text with the pieces in it where backticks need care.
It takes the lines from `first` up to `last`. -/
inductive Region
  | literal (first last : Nat)
  | prose (first last : Nat) (pieces : List Piece)
deriving DecidableEq, Repr

/-- A character as it is read. -/
def readable (c : Char) : Char :=
  if c = '\r' then ' ' else if c = '\x00' then '\ufffd' else c

/-- The frame of a whole source. -/
def Frame.ofSource (source : List Char) : Frame :=
  let rows := (rowsOf source).toArray
  ⟨rows, rows.size, 0, none, source.length⟩

/-- The block structure of a text. -/
def blocksOf (text : List Char) : Reading :=
  let f := Frame.ofSource (text.map readable)
  Block.blocks Inline.maxNesting f 0 f.limit

/-- A leaf with its inline structure, under the labels that are defined. -/
def Leaf.region (keys : List (List Char)) : Leaf → Region
  | .literal _ first last => .literal first last
  | .prose first last content =>
    .prose first last (Inline.pieces keys (content.map (·.1)))

/-- The regions of a text, in document order. -/
def regions (text : List Char) : List Region :=
  let r := blocksOf text
  r.leaves.map (Leaf.region r.labels)

end DirectiveFences.Markdown
