/-
What block structure depends on at one place of a document.

A frame is a container's view of the document: its lines, how far its content
is indented, and where it ends.  The recognisers here look at single lines of a
frame and say what could begin there; `Frame.interrupts` says which of these end
the block that the lines before belong to.
-/
import DirectiveFences.Markdown.Html
import DirectiveFences.Markdown.Table

namespace DirectiveFences.Markdown

open DirectiveFences.Text

/-- A container's view of the document. -/
structure Frame where
  /-- All lines of the document, those inside the container without its marker. -/
  rows : Array Row
  /-- The line before which every paragraph has to end. -/
  limit : Nat
  /-- The column at which the container's content begins. -/
  indent : Int
  /-- The column of the list that the frame's innermost item belongs to. -/
  listIndent : Option Int
  /-- The length of the source. -/
  size : Nat

/-- A block that the lines before a place belong to, as far as it matters for what ends it. -/
inductive Open
  | paragraph
  | definition
  | quote
  | table
  | list
deriving DecidableEq, Repr

/-- The marker of a list item: a bullet, or a number with a delimiter after it. -/
structure Marker where
  ordered : Bool
  /-- The bullet, or the delimiter of the number. -/
  mark : Char
  length : Nat
  /-- Whether the number is one. -/
  isOne : Bool
deriving DecidableEq, Repr

/-- The opening line of a fenced code block. -/
structure Fence where
  mark : Char
  length : Nat
deriving DecidableEq, Repr

/-- Whether a marker may end before a text: a space or tab, or nothing, has to follow. -/
def endsMarker (cs : List Char) : Bool :=
  (cs.head?.map isSpace).getD true

/-- The bullet at the front of a text. -/
def bullet? : List Char → Option Marker
  | c :: cs =>
    if (c == '*' || c == '-' || c == '+') && endsMarker cs then some ⟨false, c, 1, false⟩ else none
  | [] => none

/-- The number of one to nine digits, with a dot or a closing parenthesis, at the front of a
text. -/
def number? (cs : List Char) : Option Marker :=
  let digits := cs.takeWhile Char.isDigit
  match cs.drop digits.length with
  | d :: rest =>
    if !digits.isEmpty && digits.length ≤ 9 && (d == '.' || d == ')') && endsMarker rest then
      some ⟨true, d, digits.length + 1,
        digits.getLast? == some '1' && digits.dropLast.all (· == '0')⟩
    else none
  | [] => none

/-- Three or more of one of `*`, `-` and `_`, with spaces anywhere between them. -/
def isRule : List Char → Bool
  | c :: cs =>
    (c == '*' || c == '-' || c == '_') && cs.all (fun d => d == c || isSpace d) &&
      2 ≤ (cs.filter (· == c)).length
  | [] => false

/-- Three or more backticks or tildes; no backtick may follow backticks on the line. -/
def fence? : List Char → Option Fence
  | c :: cs =>
    let length := 1 + (cs.takeWhile (· == c)).length
    if (c == '`' || c == '~') && 3 ≤ length &&
        !(c == '`' && (cs.drop (length - 1)).contains '`') then some ⟨c, length⟩
    else none
  | [] => none

/-- Whether a line closes a fence: at least as many of its marks, and then only spaces. -/
def Fence.isClosedBy (f : Fence) (cs : List Char) : Bool :=
  let run := (cs.takeWhile (· == f.mark)).length
  f.length ≤ run && (cs.drop run).all isSpace

/-- Whether one to six hash signs stand at the front of a line, with a space or nothing after
them. -/
def isHeading (cs : List Char) : Bool :=
  let run := (cs.takeWhile (· == '#')).length
  1 ≤ run && run ≤ 6 && endsMarker (cs.drop run)

/-- Whether a line underlines a heading: equals signs or hyphens, and then only spaces. -/
def isUnderline : List Char → Bool
  | c :: cs => (c == '-' || c == '=') && (cs.dropWhile (· == c)).all isSpace
  | [] => false

namespace Frame

/-- A line of the frame; past the last one there are empty lines. -/
def row (f : Frame) (line : Nat) : Row :=
  (f.rows[line]?).getD Row.none

def isEmpty (f : Frame) (line : Nat) : Bool :=
  (f.row line).isEmpty

/-- Whether a line is indented as far as code. -/
def isCode (f : Frame) (line : Nat) : Bool :=
  4 ≤ (f.row line).column - f.indent

/-- Whether a line stands left of the container's content. -/
def isOutdented (f : Frame) (line : Nat) : Bool :=
  (f.row line).column < f.indent

/-- The first line from `line` on that is not empty, within `fuel` lines. -/
def skipEmptyFrom (f : Frame) : Nat → Nat → Nat
  | 0, line => line
  | fuel + 1, line =>
    if line < f.limit && f.isEmpty line then skipEmptyFrom f fuel (line + 1) else line

/-- The first line from `line` on that is not empty. -/
def skipEmpty (f : Frame) (line : Nat) : Nat :=
  f.skipEmptyFrom (f.limit - line) line

/-- The fence that a line opens. -/
def fenceAt? (f : Frame) (line : Nat) : Option Fence :=
  if f.isCode line then none else fence? (f.row line).text

/-- Whether a line begins a block quote. -/
def quotesAt (f : Frame) (line : Nat) : Bool :=
  !f.isCode line && (f.row line).text.head? == some '>'

/-- Whether a line is a thematic break. -/
def rulesAt (f : Frame) (line : Nat) : Bool :=
  !f.isCode line && isRule (f.row line).text

/-- Whether a line is a heading with hash signs. -/
def headsAt (f : Frame) (line : Nat) : Bool :=
  !f.isCode line && isHeading (f.row line).text

/-- The kind of raw HTML block that a line begins. -/
def htmlAt? (f : Frame) (line : Nat) : Option Html.BlockKind :=
  if f.isCode line then none else Html.blockKind? (f.row line).text

/-- The marker of the list item that a line begins.  A line that stands four columns inside the
list, but outside the item, begins none. -/
def markerAt? (f : Frame) (line : Nat) : Option Marker :=
  let column := (f.row line).column
  let continues :=
    match f.listIndent with
    | some i => 0 ≤ i && 4 ≤ column - i && column < f.indent
    | none => false
  if f.isCode line || continues then none
  else
    let text := (f.row line).text
    (number? text).orElse fun _ => bullet? text

/-- Whether a line begins a list item that ends a paragraph: it must not be empty, and its number
must be one, unless it stands left of the container's content. -/
def itemInterruptsParagraph (f : Frame) (line : Nat) : Bool :=
  match f.markerAt? line with
  | none => false
  | some m =>
    f.isOutdented line ||
      ((!m.ordered || m.isOne) && !((f.row line).text.drop m.length).all isSpace)

/-- The cells of the first row of a table that begins on a line. -/
def tableAt? (f : Frame) (line stop : Nat) : Option (List (List Placed)) :=
  if stop < line + 2 || f.isOutdented (line + 1) || f.isCode (line + 1) || f.isCode line then none
  else Table.header? (f.row line).content (f.row (line + 1)).text

/-- Whether a line ends the block before it.  `stop` is the line before which a table must end. -/
def interrupts (f : Frame) (before : Open) (line stop : Nat) : Bool :=
  (f.fenceAt? line).isSome || f.quotesAt line || f.rulesAt line ||
    match before with
    | .paragraph =>
      f.itemInterruptsParagraph line || ((f.htmlAt? line).map (·.interrupts)).getD false ||
        f.headsAt line || (f.tableAt? line stop).isSome
    | .definition =>
      (f.markerAt? line).isSome || ((f.htmlAt? line).map (·.interrupts)).getD false ||
        f.headsAt line || (f.tableAt? line stop).isSome
    | .quote | .table =>
      (f.markerAt? line).isSome || ((f.htmlAt? line).map (·.interrupts)).getD false ||
        f.headsAt line
    | .list => false

/-- Whether a line goes on with a block of text that began above it: it is not empty, and indented
as far as code, or a line that only continues a paragraph, or nothing that interrupts. -/
def continues (f : Frame) (before : Open) (line : Nat) : Bool :=
  !f.isEmpty line &&
    (f.isCode line || (f.row line).column < 0 || !f.interrupts before line f.limit)

/-- The first line from `line` on that does not go on with the block of text above it, within
`fuel` lines. -/
def textEndFrom (f : Frame) (before : Open) : Nat → Nat → Nat
  | 0, line => line
  | fuel + 1, line =>
    if line < f.limit && f.continues before line then textEndFrom f before fuel (line + 1) else line

/-- The first line from `line` on that does not go on with the block of text above it. -/
def textEnd (f : Frame) (before : Open) (line : Nat) : Nat :=
  f.textEndFrom before (f.limit - line) line

/-- The lines from `first` up to `last`. -/
def slice (f : Frame) (first last : Nat) : List Row :=
  (List.range' first (last - first)).map f.row

/-- The text of the lines from `first` up to `last`, without the container's indent and without
blanks at its ends. -/
def paragraphText (f : Frame) (first last : Nat) : List Placed :=
  stripPlaced (joinRows f.indent (f.slice first last))

end Frame

end DirectiveFences.Markdown
