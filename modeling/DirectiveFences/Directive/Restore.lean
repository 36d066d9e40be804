/-
Directive fences back to fenced divs.

Fences of four colons or more, opening and closing, become three colons again,
whatever depth their length stood for.  Every other line stays as it is.
-/
import DirectiveFences.Directive.Shape
import DirectiveFences.Text.Lines

namespace DirectiveFences.Restore

open Text Shape

/-- Names that a div gets when it has none of its own. -/
def genericNames : List (List Char) := ["div".toList, "qmd".toList]

/-- The opening line of a fenced div.  A generic name is left out, and then a blank stands before
the attributes. -/
def divOpener (name : List Char) (attributes : Option (List Char)) : List Char :=
  let braces :=
    match attributes with
    | none => []
    | some body => '{' :: (body ++ ['}'])
  if name ∈ genericNames then
    if braces.isEmpty then fence else fence ++ ' ' :: braces
  else fence ++ ' ' :: (name ++ braces)

/-- A line in fenced div syntax. -/
def line (l : Line) : Line :=
  match directiveOpener? l.body with
  | some (name, attributes) => ⟨divOpener name attributes, l.ending⟩
  | none => if isDirectiveCloser l.body then ⟨fence, l.ending⟩ else l

/-- A text in fenced div syntax. -/
def text (t : List Char) : List Char :=
  join ((split t).map fun raw => (line (Line.ofList raw)).toList)

end DirectiveFences.Restore
