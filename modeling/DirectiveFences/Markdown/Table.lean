/-
Rows of tables.

A row is cut at its vertical bars.  A bar after a backslash belongs to its cell,
and the backslash goes.  Under the first row stands a row of hyphens, with as
many columns.
-/
import DirectiveFences.Markdown.Row

namespace DirectiveFences.Markdown.Table

open DirectiveFences.Text

/-- The cells of a row.  `cell` holds the current cell so far, last character first; a backslash
just read is held back until it is known whether a bar follows. -/
def cellsFrom : List Placed → List Placed → List (List Placed)
  | cell, [] => [cell.reverse]
  | cell, p :: ps =>
    if p.1 = '|' then
      match cell with
      | b :: cell' =>
        if b.1 = '\\' then cellsFrom (p :: cell') ps else cell.reverse :: cellsFrom [] ps
      | [] => [] :: cellsFrom [] ps
    else cellsFrom (p :: cell) ps

/-- The cells of a row, without the empty ones that bars at its ends make. -/
def cells (row : List Placed) : List (List Placed) :=
  let all := cellsFrom [] (stripPlaced row)
  let all := if all.head? = some [] then all.drop 1 else all
  if all.getLast? = some [] then all.dropLast else all

/-- The parts of a delimiter row between its bars, without blanks around them. -/
def delimiterParts (cs : List Char) : List (List Char) :=
  (cs.foldr (fun c parts =>
    match parts with
    | [] => [[c]]
    | p :: ps => if c = '|' then [] :: p :: ps else (c :: p) :: ps) [[]]).map strip

/-- Hyphens, with a colon at either end or both or none. -/
def isDelimiter (cs : List Char) : Bool :=
  let inner := if cs.head? = some ':' then cs.drop 1 else cs
  let inner := if inner.getLast? = some ':' then inner.dropLast else inner
  !inner.isEmpty && inner.all (· == '-')

/-- The number of columns of a delimiter row.  It begins with a bar, a hyphen or a colon and has no
other characters but spaces; a hyphen and a space begin a list instead.  Only its first and its last
part may be empty. -/
def delimiterColumns? (cs : List Char) : Option Nat :=
  let isMark := fun c : Char => c == '|' || c == '-' || c == ':'
  match cs with
  | first :: second :: _ =>
    if isMark first && cs.all (fun c => isMark c || isSpace c) &&
        !(first == '-' && isSpace second) then
      let parts := delimiterParts cs
      let inner := (parts.drop 1).dropLast
      let filled := parts.filter (!·.isEmpty)
      if inner.all (!·.isEmpty) && filled.all isDelimiter then some filled.length else none
    else none
  | _ => none

/-- The cells of a table's first row, which must have a bar and as many cells as the row under it
has columns. -/
def header? (first : List Placed) (second : List Char) : Option (List (List Placed)) :=
  match delimiterColumns? second with
  | none => none
  | some columns =>
    if first.any (·.1 == '|') then
      let cs := cells first
      if cs.length = columns && 0 < columns then some cs else none
    else none

end DirectiveFences.Markdown.Table
