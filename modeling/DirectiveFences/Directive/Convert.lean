/-
Conversion of fenced divs, display math and shortcodes to directive fences.

A document is converted line by line.  The state holds the fences of the divs
that are open, innermost first, and the math block that is being collected.
Each rule looks at one line: it answers with a step when the line is its own,
and with nothing when another rule may have it.  A line whose mark lies in a
protected range belongs to no rule.

An outer fence has to be at least as long as the fences inside it, so a div's
fence gets shorter with its depth: five colons, then four, then three.
-/
import DirectiveFences.Directive.Shape
import DirectiveFences.Protected.Range
import DirectiveFences.Text.Lines

namespace DirectiveFences

/-- Which of the conversions that a dialect may lack are wanted. -/
structure Toggles where
  shortcodes : Bool := true
  mathLabels : Bool := true
deriving DecidableEq, Repr

/-- What the conversion notes about a document that does not balance. -/
inductive Note
  /-- A closing fence, on the line that starts at this offset, closes no div. -/
  | unmatchedCloser (offset : Nat)
  /-- The document ends with this many divs open. -/
  | divsLeftOpen (count : Nat)
  /-- The document ends inside a math block. -/
  | mathLeftOpen
deriving DecidableEq, Repr

/-- Where the conversion stands between two lines. -/
structure State where
  /-- Whether a math block is open. -/
  inMath : Bool := false
  /-- The fence lengths of the open divs, innermost first. -/
  fences : List Nat := []
  /-- The lines of the open math block, with their endings. -/
  mathLines : List (List Char) := []
  /-- The line that opened the math block, with its ending. -/
  mathOpener : Option (List Char) := none
deriving DecidableEq, Repr

/-- What a rule makes of a line: the new state, the lines to write, and what it notes. -/
structure Step where
  state : State
  lines : List (List Char)
  notes : List Note := []
deriving DecidableEq, Repr

/-- The fence length of a div opened inside `depth` others. -/
def fenceLength (depth : Int) : Nat :=
  (max 3 (5 - depth)).toNat

namespace Convert

open Text Shape

/-- A line that the conversion has come to: where it starts, and the protected ranges. -/
structure Site where
  offset : Nat
  line : Line
  ranges : Array Range

/-- Whether the character at a column of the line must be left alone. -/
def Site.isProtected (s : Site) (column : Nat) : Bool :=
  Range.isProtected s.ranges ((s.offset + column : Nat) : Int)

/-- Whether the first character of the line that is not blank must be left alone. -/
def Site.isInert (s : Site) : Bool :=
  s.isProtected (s.line.body.takeWhile isBlank).length

/-- The line with its own ending after other text. -/
def Site.ended (s : Site) (body : List Char) : List Char :=
  body ++ s.line.ending

/-- The name of the math directive. -/
def mathName : List Char := "math".toList

/-- The name of the shortcode directive. -/
def shortcodeName : List Char := "shortcode".toList

/-- The name of a directive whose div has none. -/
def genericName : List Char := "div".toList

/-- A math directive around some lines; both fences take the ending of the current line. -/
def mathDirective (s : Site) (label : List Char) (body : List (List Char)) : List (List Char) :=
  s.ended (fence ++ mathName ++ label) :: (body ++ [s.ended fence])

/-- A math block goes on with this line. -/
def keepInMath (s : Site) (st : State) : Step :=
  ⟨{ st with mathLines := st.mathLines ++ [s.line.toList] }, [], []⟩

/-- Lines that begin with `$$`.  Inside a math block such a line closes it, if nothing but a label
follows, and else belongs to it.  Outside, a whole formula on one line becomes a directive; a line
that only looks like one stays as it is; a bare `$$`, with or without a label, opens a block. -/
def math (s : Site) (st : State) : Option Step :=
  let stripped := strip s.line.body
  if (after? mathMark stripped).isNone || s.isInert then none
  else if st.inMath then
    match mathFence? stripped with
    | none => some (keepInMath s st)
    | some label =>
      some ⟨{ st with inMath := false, mathLines := [], mathOpener := none },
        mathDirective s label st.mathLines, []⟩
  else if startsMathLine stripped then
    match mathLine? stripped with
    | none => some ⟨st, [s.line.toList], []⟩
    | some (formula, label) =>
      some ⟨st, mathDirective s label [s.ended (strip formula)], []⟩
  else if (mathFence? stripped).isSome then
    some ⟨{ st with inMath := true, mathOpener := some s.line.toList }, [], []⟩
  else none

/-- A shortcode's body as an attribute value: its double quotes follow a backslash. -/
def escapeQuotes (body : List Char) : List Char :=
  body.flatMap fun c => if c = '"' then ['\\', '"'] else [c]

/-- A shortcode becomes a leaf directive with its body as an attribute. -/
def shortcode (s : Site) (st : State) : Option Step :=
  match shortcode? s.line.body with
  | none => none
  | some code =>
    if s.isInert then none
    else
      let braces := '{' :: ("raw=\"".toList ++ escapeQuotes code.body ++ ['"', '}'])
      some ⟨st, [s.ended (code.indent ++ [':', ':'] ++ shortcodeName ++ braces ++
        code.trailing)], []⟩

/-- A closing fence gets the length of the innermost open div, and the least length, with a note,
when no div is open. -/
def close (s : Site) (st : State) : Option Step :=
  if !isCloser s.line.body || s.isProtected 0 then none
  else
    match st.fences with
    | length :: outer =>
      some ⟨{ st with fences := outer }, [s.ended (List.replicate length ':')], []⟩
    | [] => some ⟨st, [s.ended fence], [.unmatchedCloser s.offset]⟩

/-- An opening fence becomes a directive whose length tells its depth. -/
def opening (s : Site) (st : State) : Option Step :=
  match opener? s.line.body with
  | none => none
  | some o =>
    if s.isProtected 0 then none
    else
      let length := fenceLength st.fences.length
      let attributes :=
        match o.attributes with
        | none => []
        | some body => '{' :: (strip body ++ ['}'])
      some ⟨{ st with fences := length :: st.fences },
        [s.ended (List.replicate length ':' ++ o.name.getD genericName ++ attributes)], []⟩

/-- The rules in their order.  Inside a math block only the math rule is asked, and a closing fence
is tried before an opening one, since three bare colons have both shapes. -/
def step (toggles : Toggles) (s : Site) (st : State) : Step :=
  let unchanged : Step := ⟨st, [s.line.toList], []⟩
  match (if toggles.mathLabels then math s st else none) with
  | some r => r
  | none =>
    if st.inMath then keepInMath s st
    else
      match (if toggles.shortcodes then shortcode s st else none) with
      | some r => r
      | none =>
        match close s st with
        | some r => r
        | none => (opening s st).getD unchanged

/-- The end of the document: a math block that was never closed is written as it stood. -/
def flush (st : State) : List (List Char) :=
  if st.inMath then
    (match st.mathOpener with
      | none | some [] => mathMark
      | some opener => opener) :: st.mathLines
  else []

/-- What is noted at the end of the document. -/
def flushNotes (st : State) : List Note :=
  (if st.fences.isEmpty then [] else [.divsLeftOpen st.fences.length]) ++
    (if st.inMath then [.mathLeftOpen] else [])

/-- The steps of the lines from an offset on. -/
def steps (toggles : Toggles) (ranges : Array Range) :
    Nat → State → List (List Char) → List Step
  | _, _, [] => []
  | offset, st, raw :: raws =>
    let r := step toggles ⟨offset, Line.ofList raw, ranges⟩ st
    r :: steps toggles ranges (offset + raw.length + 1) r.state raws

/-- The state after some steps. -/
def lastState (st : State) (rs : List Step) : State :=
  (rs.getLast?.map (·.state)).getD st

/-- The lines that the conversion of a text writes. -/
def lines (toggles : Toggles) (ranges : Array Range) (text : List Char) : List (List Char) :=
  let rs := steps toggles ranges 0 {} (split text)
  rs.flatMap (·.lines) ++ flush (lastState {} rs)

/-- What the conversion of a text notes. -/
def notes (toggles : Toggles) (ranges : Array Range) (text : List Char) : List Note :=
  let rs := steps toggles ranges 0 {} (split text)
  rs.flatMap (·.notes) ++ flushNotes (lastState {} rs)

/-- The text in directive syntax, given its protected ranges. -/
def text (toggles : Toggles) (ranges : Array Range) (t : List Char) : List Char :=
  join (lines toggles ranges t)

end Convert

end DirectiveFences
