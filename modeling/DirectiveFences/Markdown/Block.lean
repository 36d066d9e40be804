/-
The block structure of a document, as far as code needs it.

Reading a frame gives its leaves in document order: the blocks of literal text
(fenced code, indented code, front matter) with the lines they take, and the
blocks of inline text with the lines they take and their content.  It also gives
the labels of link reference definitions.  A leaf's lines come after those of
all leaves before it, except that the cells of a table's row share their line.

Block quotes and list items are frames of their own, read by the same rules one
or two levels deeper; what is nested twenty levels deep is not read.
-/
import DirectiveFences.Markdown.Frame
import DirectiveFences.Markdown.Target

namespace DirectiveFences.Markdown

open DirectiveFences.Text

/-- The blocks of literal text. -/
inductive Literal
  | fence
  | indented
  | frontMatter
deriving DecidableEq, Repr

/-- A block that holds no other: literal text, or text with inline structure.  It takes the lines
from `first` up to, but not including, `last`. -/
inductive Leaf
  | literal (kind : Literal) (first last : Nat)
  | prose (first last : Nat) (content : List Placed)
deriving Repr

/-- What reading some lines gives: the line where reading goes on, the leaves, and the labels that
are defined. -/
structure Reading where
  next : Nat
  leaves : List Leaf := []
  labels : List (List Char) := []

/-- Read the blocks of a frame from a line up to another one. -/
abbrev Reader := Frame → Nat → Nat → Reading

namespace Block

/-! ## Literal text -/

/-- The line after the end of front matter: a line of at least `length` hyphens, or a line of three
dots without indent; nothing but spaces may follow either. -/
def frontMatterEnd? (f : Frame) (length stop : Nat) : Nat → Nat → Option Nat
  | 0, _ => none
  | fuel + 1, line =>
    if stop ≤ line then none
    else
      let text := (f.row line).text
      let run := (text.takeWhile (· == '-')).length
      let dots := (f.row line).lead.isEmpty && ['.', '.', '.'].isPrefixOf text &&
        (text.drop 3).all isSpace
      if dots || (!f.isCode line && length ≤ run && (text.drop run).all isSpace) then
        some (line + 1)
      else frontMatterEnd? f length stop fuel (line + 1)

/-- Front matter: on the first line, at the very start of the source, three hyphens or more. -/
def frontMatter? (f : Frame) (line stop : Nat) : Option Reading :=
  let run := ((f.row line).text.takeWhile (· == '-')).length
  if line = 0 && (f.row line).content.head? == some ('-', 0) && 3 ≤ run then
    (frontMatterEnd? f run stop (stop - line) (line + 1)).map fun next =>
      ⟨next, [.literal .frontMatter line next], []⟩
  else none

/-- The line after the last indented line, before a line with less indent that is not empty. -/
def indentedEnd (f : Frame) (stop : Nat) : Nat → Nat → Nat → Nat
  | 0, last, _ => last
  | fuel + 1, last, line =>
    if stop ≤ line then last
    else if f.isEmpty line then indentedEnd f stop fuel last (line + 1)
    else if f.isCode line then indentedEnd f stop fuel (line + 1) (line + 1)
    else last

/-- Indented code. -/
def indented? (f : Frame) (line stop : Nat) : Option Reading :=
  if f.isCode line then
    let next := indentedEnd f stop (stop - line) (line + 1) (line + 1)
    some ⟨next, [.literal .indented line next], []⟩
  else none

/-- The line after a fenced code block: after its closing fence, or where its container ends.  An
empty line at the very end of the source ends it too. -/
def fenceEnd (f : Frame) (fence : Fence) (stop : Nat) : Nat → Nat → Nat
  | 0, line => line
  | fuel + 1, line =>
    if stop ≤ line then line
    else
      let row := f.row line
      if row.isEmpty then
        if row.stop = f.size then line else fenceEnd f fence stop fuel (line + 1)
      else if f.isOutdented line then line
      else if !f.isCode line && fence.isClosedBy row.text then line + 1
      else fenceEnd f fence stop fuel (line + 1)

/-- A fenced code block. -/
def fenced? (f : Frame) (line stop : Nat) : Option Reading :=
  (f.fenceAt? line).map fun fence =>
    let next := fenceEnd f fence stop (stop - line) (line + 1)
    ⟨next, [.literal .fence line next], []⟩

/-! ## Tables -/

/-- The most cells that rows which are too short may leave to be filled in. -/
def maxFilled : Int := 65536

/-- The cells of one line, as many as the table has columns. -/
def rowLeaves (columns line : Nat) (cells : List (List Placed)) : List Leaf :=
  (cells ++ List.replicate (columns - cells.length) []).take columns |>.map fun c =>
    .prose line (line + 1) (stripPlaced c)

/-- The rows of a table from a line on. -/
def tableRows (f : Frame) (columns stop : Nat) : Nat → Int → Nat → Reading
  | 0, _, line => ⟨line, [], []⟩
  | fuel + 1, filled, line =>
    if stop ≤ line || f.isOutdented line || f.isEmpty line ||
        f.interrupts .table line stop || f.isCode line then ⟨line, [], []⟩
    else
      let cells := Table.cells (f.row line).content
      let filled := filled + columns - cells.length
      if maxFilled < filled then ⟨line, [], []⟩
      else
        let rest := tableRows f columns stop fuel filled (line + 1)
        { rest with leaves := rowLeaves columns line cells ++ rest.leaves }

/-- A table. -/
def table? (f : Frame) (line stop : Nat) : Option Reading :=
  (f.tableAt? line stop).map fun header =>
    let rest := tableRows f header.length stop (stop - line) 0 (line + 2)
    { rest with leaves := rowLeaves header.length line header ++ rest.leaves }

/-! ## Definitions -/

/-- A label at the front of a text, after its opening bracket, and what follows its closing one. -/
def definedLabel? : List Char → List Char → Option (List Char × List Char)
  | _, [] => none
  | _, '[' :: _ => none
  | read, ']' :: cs => some (read.reverse, cs)
  | read, '\\' :: c :: cs => definedLabel? (c :: '\\' :: read) cs
  | read, c :: cs => definedLabel? (c :: read) cs

/-- The number of line feeds by which the second of two texts, an end of the first, starts later. -/
def linesBetween (whole rest : List Char) : Nat :=
  (whole.take (whole.length - rest.length)).count '\n'

/-- Whether nothing but spaces is left of a line. -/
def isLineDone (cs : List Char) : Bool :=
  match cs.dropWhile isSpace with
  | [] => true
  | c :: _ => c == '\n'

/-- What is left after a definition's title, if a title follows its destination after a gap and
nothing follows the title; with an empty title there is no other reading. -/
inductive Titled
  | missing
  | rest (cs : List Char)
  | wrong

/-- The title of a definition, after its destination. -/
def title (afterDest : List Char) : Titled :=
  let rest := afterDest.dropWhile fun c => isSpace c || c == '\n'
  if rest.length = afterDest.length then .missing
  else
    match Target.titleLength? rest.length rest with
    | none => .missing
    | some n =>
      if isLineDone (rest.drop n) then .rest (rest.drop n)
      else if n = 2 then .wrong
      else .missing

/-- A definition at the front of a text: its label, and how many lines it takes. -/
def definition? : List Char → Option (List Char × Nat)
  | '[' :: cs =>
    match definedLabel? [] cs with
    | some (label, ':' :: afterLabel) =>
      let rest := afterLabel.dropWhile fun c => isSpace c || c == '\n'
      let lineLength := (rest.takeWhile (· != '\n')).length + 1
      match Target.destination? lineLength rest with
      | none => none
      | some (written, n) =>
        let key := Target.labelKey label
        if !Target.isAllowed written || key.isEmpty then none
        else
          let afterDest := rest.drop n
          -- a backslash may take the line feed after it into the destination
          if n = lineLength then some (key, linesBetween cs rest + 1)
          else
            match title afterDest with
            | .rest end_ => some (key, linesBetween cs end_ + 1)
            | .wrong => none
            | .missing =>
              if isLineDone afterDest then some (key, linesBetween cs afterDest + 1) else none
    | _ => none
  | _ => none

/-- The text of the lines from `first` up to `last`, each from its content on. -/
def joinTexts (f : Frame) (first last : Nat) : List Char :=
  Text.join ((f.slice first last).map (·.text))

/-- A link reference definition. -/
def defined? (f : Frame) (line : Nat) : Option Reading :=
  if f.isCode line || (f.row line).text.head? != some '[' then none
  else
    (definition? (joinTexts f line (f.textEnd .definition (line + 1)))).map fun (key, count) =>
      ⟨line + count, [], [key]⟩

/-! ## Raw HTML, headings and paragraphs -/

/-- The line after a block of raw HTML. -/
def htmlEnd (f : Frame) (kind : Html.BlockKind) (stop : Nat) : Nat → Nat → Nat
  | 0, line => line
  | fuel + 1, line =>
    if stop ≤ line || f.isOutdented line then line
    else
      let text := (f.row line).text
      if kind.endsAt text then if text.isEmpty then line else line + 1
      else htmlEnd f kind stop fuel (line + 1)

/-- A block of raw HTML. -/
def html? (f : Frame) (line stop : Nat) : Option Reading :=
  (f.htmlAt? line).map fun kind =>
    ⟨if kind.endsAt (f.row line).text then line + 1
      else htmlEnd f kind stop (stop - line) (line + 1), [], []⟩

/-- The text of a heading, without its hash signs and those at its end that a space precedes. -/
def headingText (cs : List Placed) : List Placed :=
  let isHash := fun p : Placed => p.1 == '#'
  let body := cs.dropWhile isHash
  let back := body.reverse.dropWhile fun p => isSpace p.1
  let cut := back.dropWhile isHash
  stripPlaced (if (cut.head?.map fun p => isSpace p.1).getD false then cut else back).reverse

/-- A heading with hash signs. -/
def heading? (f : Frame) (line : Nat) : Option Reading :=
  if f.headsAt line then
    some ⟨line + 1, [.prose line (line + 1) (headingText (f.row line).content)], []⟩
  else none

/-- The line that underlines the text above it as a heading. -/
def underline? (f : Frame) (stop : Nat) : Nat → Nat → Option Nat
  | 0, _ => none
  | fuel + 1, line =>
    if stop ≤ line || f.isEmpty line then none
    else if f.isCode line then underline? f stop fuel (line + 1)
    else if !f.isOutdented line && isUnderline (f.row line).text then some line
    else if (f.row line).column < 0 then underline? f stop fuel (line + 1)
    else if f.interrupts .paragraph line stop then none
    else underline? f stop fuel (line + 1)

/-- A heading with a line under it. -/
def underlined? (f : Frame) (line stop : Nat) : Option Reading :=
  if f.isCode line then none
  else
    (underline? f stop (stop - line) (line + 1)).map fun under =>
      ⟨under + 1, [.prose line under (f.paragraphText line under)], []⟩

/-- A paragraph. -/
def paragraph (f : Frame) (line : Nat) : Reading :=
  let next := f.textEnd .paragraph (line + 1)
  ⟨next, [.prose line next (f.paragraphText line next)], []⟩

/-! ## Containers -/

/-- A line without its block quote marker and the space after it.  A tab after the marker counts as
one space and leaves the rest of its width. -/
def unquote (r : Row) : Row :=
  let body := r.content.drop 1
  let column := r.column + 1
  let spaced := (body.head?.map fun p => isSpace p.1).getD false
  let taken :=
    match body with
    | p :: _ => p.1 == ' ' || (p.1 == '\t' && (r.base + column) % 4 == 3)
    | [] => false
  let (lead, content) := Row.spanSpaces (if taken then body.drop 1 else body)
  let edge := if taken then column + 1 else column
  let shift := if spaced && !taken then 1 else 0
  { r with
    lead := lead
    content := content
    column := Row.columnAfter (r.base + shift) edge lead - edge
    base := r.column + 1 + (if spaced then 1 else 0) }

/-- The frame inside a block quote, and the line where the quote ends.  A line without a marker
belongs to it as the continuation of a paragraph, unless it begins a block of its own or the line
before it was empty. -/
def quoteFrom (f : Frame) (stop : Nat) : Nat → Nat → Bool → Array Row → Frame × Nat
  | 0, line, _, rows => ({ f with rows := rows, indent := 0 }, line)
  | fuel + 1, line, lastEmpty, rows =>
    let row := f.row line
    if stop ≤ line || row.isEmpty then ({ f with rows := rows, indent := 0 }, line)
    else if row.text.head? == some '>' && !f.isOutdented line then
      let inside := unquote row
      quoteFrom f stop fuel (line + 1) inside.isEmpty (rows.setIfInBounds line inside)
    else if lastEmpty then ({ f with rows := rows, indent := 0 }, line)
    else if f.interrupts .quote line stop then
      let shifted := { row with column := row.column - f.indent }
      ({ f with rows := rows.setIfInBounds line shifted, indent := 0, limit := line }, line)
    else
      quoteFrom f stop fuel (line + 1) lastEmpty
        (rows.setIfInBounds line { row with column := -1 })

/-- A block quote. -/
def quote? (inside : Reader) (f : Frame) (line stop : Nat) : Option Reading :=
  if f.quotesAt line then
    let (inner, last) := quoteFrom f stop (stop - line) line false f.rows
    some (inside inner line last)
  else none

/-- A line without a list item's marker and the blanks after it, and the column where the item's
content begins.  When more than four columns of blanks follow the marker, or nothing does, the
content begins one column after it. -/
def unmark (r : Row) (length : Nat) : Row × Int :=
  let (blanks, content) := Row.spanSpaces (r.content.drop length)
  let edge := r.column + length
  let column := Row.columnAfter r.base edge blanks
  let gap := if content.isEmpty || 4 < column - edge then 1 else column - edge
  let lead := r.lead ++ r.content.take length ++ blanks
  ({ r with lead := lead, content := content, column := column }, edge + gap)

/-- The items of a list, from a line on that begins one with the given marker. -/
def items (inside : Reader) (f : Frame) (stop : Nat) (first : Marker) : Nat → Nat → Nat → Reading
  | 0, line, _ => ⟨line, [], []⟩
  | fuel + 1, line, length =>
    let (row, indent) := unmark (f.row line) length
    let inner : Frame :=
      { f with
        rows := f.rows.setIfInBounds line row
        indent := indent
        listIndent := some f.indent }
    let item :=
      if row.isEmpty && f.isEmpty (line + 1) then ⟨min (line + 2) stop, [], []⟩
      else inside inner line stop
    let next := item.next
    if stop ≤ next || f.isOutdented next || f.isCode next || f.interrupts .list next stop then item
    else
      let text := (f.row next).text
      match (if first.ordered then number? text else bullet? text) with
      | none => item
      | some m =>
        if m.mark = first.mark then
          let rest := items inside f stop first fuel next m.length
          ⟨rest.next, item.leaves ++ rest.leaves, item.labels ++ rest.labels⟩
        else item

/-- A list. -/
def list? (inside : Reader) (f : Frame) (line stop : Nat) : Option Reading :=
  (f.markerAt? line).map fun m => items inside f stop m (stop - line) line m.length

/-! ## Frames -/

/-- The block that begins on a line that is not empty: the first that any of the rules finds. -/
def blockAt (quoted listed : Reader) (f : Frame) (line stop : Nat) : Reading :=
  match frontMatter? f line stop with
  | some r => r
  | none => match table? f line stop with
  | some r => r
  | none => match indented? f line stop with
  | some r => r
  | none => match fenced? f line stop with
  | some r => r
  | none => match quote? quoted f line stop with
  | some r => r
  | none => if f.rulesAt line then ⟨line + 1, [], []⟩ else match list? listed f line stop with
  | some r => r
  | none => match defined? f line with
  | some r => r
  | none => match html? f line stop with
  | some r => r
  | none => match heading? f line with
  | some r => r
  | none => match underlined? f line stop with
  | some r => r
  | none => paragraph f line

/-- The blocks of a frame, given the readers for the frames inside it. -/
def blocksFrom (quoted listed : Reader) (f : Frame) (stop : Nat) : Nat → Nat → Reading
  | 0, line => ⟨line, [], []⟩
  | fuel + 1, line =>
    if stop ≤ line then ⟨line, [], []⟩
    else
      let line := f.skipEmpty line
      if stop ≤ line || f.isOutdented line then ⟨line, [], []⟩
      else
        let block := blockAt quoted listed f line stop
        let next := if block.next < stop && f.isEmpty block.next then block.next + 1 else block.next
        let rest := blocksFrom quoted listed f stop fuel next
        ⟨rest.next, block.leaves ++ rest.leaves, block.labels ++ rest.labels⟩

/-- A frame that is nested too deep: it is passed over. -/
def tooDeep : Reader := fun f line stop =>
  let line := f.skipEmpty line
  if stop ≤ line || f.isOutdented line then ⟨line, [], []⟩ else ⟨stop, [], []⟩

/-- The blocks of a frame, `levels` levels deep at most: a block quote is one level deeper, a list
item two. -/
def blocks : Nat → Reader
  | 0 => tooDeep
  | 1 => fun f line stop => blocksFrom tooDeep tooDeep f stop (f.rows.size + 1) line
  | levels + 2 => fun f line stop =>
    blocksFrom (blocks (levels + 1)) (blocks levels) f stop (f.rows.size + 1) line

end Block

end DirectiveFences.Markdown
