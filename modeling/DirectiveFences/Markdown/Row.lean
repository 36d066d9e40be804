/-
Source lines as block containers see them.

A container takes its marker off the front of each of its lines.  What is left
of a line keeps the places of its characters in the source, so that anything
found in it later can be pointed at there.  Columns count from the container's
edge, with tab stops every four columns.
-/
import DirectiveFences.Text.Blank
import DirectiveFences.Text.Lines

namespace DirectiveFences.Markdown

open DirectiveFences.Text

/-- A character and the place in the source where it stands. -/
abbrev Placed := Char × Nat

/-- What a container has left of a source line. -/
structure Row where
  /-- What stands before the content: blanks, and the marker of a list item on its first line. -/
  lead : List Placed
  /-- The content, which is empty or begins with a character that is no space or tab. -/
  content : List Placed
  /-- The column of the content; it is negative in a line that only continues a paragraph. -/
  column : Int
  /-- The column of the line's first character from the source's edge, for its tab stops. -/
  base : Int
  /-- The place in the source where the line ends. -/
  stop : Nat
deriving Repr

namespace Row

/-- A line without any characters. -/
def none : Row := ⟨[], [], 0, 0, 0⟩

def isEmpty (r : Row) : Bool :=
  r.content.isEmpty

/-- The content without its places. -/
def text (r : Row) : List Char :=
  r.content.map (·.1)

/-- The width of a character that stands at a column. -/
def width (column : Int) (c : Char) : Int :=
  if c = '\t' then 4 - column % 4 else 1

/-- The column after some characters, the first of which stands at `column`; tab stops are `base`
columns further left. -/
def columnAfter (base : Int) (column : Int) (cs : List Placed) : Int :=
  cs.foldl (fun col p => col + width (col + base) p.1) column

/-- The spaces and tabs at the front of some characters, and the rest. -/
def spanSpaces (cs : List Placed) : List Placed × List Placed :=
  (cs.takeWhile fun p => isSpace p.1, cs.dropWhile fun p => isSpace p.1)

/-- A whole source line, which starts at a place. -/
def ofSource (start : Nat) (cs : List Char) : Row :=
  let placed := cs.zip (List.range' start cs.length)
  let (lead, content) := spanSpaces placed
  ⟨lead, content, columnAfter 0 0 lead, 0, start + cs.length⟩

/-- What is left of the characters before the content once `indent` columns are taken off; a tab
that reaches further leaves spaces. -/
def cutLead (base indent : Int) : Int → List Placed → List Placed
  | _, [] => []
  | column, p :: ps =>
    if column < indent then
      let next := column + width (column + base) p.1
      if indent < next then List.replicate (next - indent).toNat (' ', p.2) ++ ps
      else cutLead base indent next ps
    else p :: ps

/-- The line without its first `indent` columns. -/
def cut (r : Row) (indent : Int) : List Placed :=
  cutLead r.base indent 0 r.lead ++ r.content

/-- The line feed after the line. -/
def lineFeed (r : Row) : Placed := ('\n', r.stop)

end Row

/-- Some lines without their first `indent` columns, with line feeds between them. -/
def joinRows (indent : Int) : List Row → List Placed
  | [] => []
  | [r] => r.cut indent
  | r :: rs => r.cut indent ++ r.lineFeed :: joinRows indent rs

/-- Placed text without the blank characters at both ends. -/
def stripPlaced (cs : List Placed) : List Placed :=
  ((cs.dropWhile fun p => isBlank p.1).reverse.dropWhile fun p => isBlank p.1).reverse

/-- The lines of a source.  Spaces and tabs after the last line feed make no line. -/
def rowsOf (source : List Char) : List Row :=
  let lines := Text.split source
  let whole := if (lines.getLast?.map (·.all isSpace)).getD true then lines.dropLast else lines
  let starts := lines.foldl (fun (acc : Nat × List Nat) l => (acc.1 + l.length + 1, acc.1 :: acc.2))
    (0, [])
  (starts.2.reverse.zip whole).map fun (start, l) => Row.ofSource start l

end DirectiveFences.Markdown
