/-
The shapes of lines that matter to the conversion.

Each recogniser looks at one line without its ending and says what it is: a
line of display math, a shortcode, the opening or closing line of a fenced div,
or the opening or closing line of a directive.  A dot stands for any character
but a line feed.
-/
import DirectiveFences.Text.Blank
import DirectiveFences.Text.WordChar

namespace DirectiveFences.Shape

open DirectiveFences.Text

/-- The three colons of a fenced div. -/
def fence : List Char := [':', ':', ':']

/-- The two dollar signs of display math. -/
def mathMark : List Char := ['$', '$']

/-- Whether a text begins with the given characters; if so, what follows them. -/
def after? : List Char → List Char → Option (List Char)
  | [], cs => some cs
  | m :: ms, c :: cs => if m = c then after? ms cs else none
  | _ :: _, [] => none

/-- A name: a word character, then word characters and hyphens; and what follows it. -/
def name? : List Char → Option (List Char × List Char)
  | c :: cs =>
    if isWord c then
      some (c :: cs.takeWhile (fun d => isWord d || d == '-'),
        cs.dropWhile (fun d => isWord d || d == '-'))
    else none
  | [] => none

/-- What stands between the braces of an attribute group at the front of a text: one character or
more, up to the first closing brace. -/
def attributes? : List Char → Option (List Char)
  | '{' :: cs =>
    let body := cs.takeWhile (· != '}')
    if body.isEmpty || body.length == cs.length then none else some body
  | _ => none

/-- What may follow the closing `$$` of display math: blanks, and at most one label in braces that
runs to the end of the line.  The answer is the label with its braces, or nothing. -/
def mathLabel? (cs : List Char) : Option (List Char) :=
  match stripFront cs with
  | [] => some []
  | '{' :: cs =>
    if cs.getLast? = some '}' ∧ '\n' ∉ cs then some ('{' :: cs) else none
  | _ => none

/-- A `$$` line with nothing else but a label: the opening or closing line of a math block. -/
def mathFence? (stripped : List Char) : Option (List Char) :=
  (after? mathMark stripped).bind mathLabel?

/-- From the inside of a math line: the formula up to the last `$$` that ends it, and the label. -/
def formulaFrom : List Char → Option (List Char × List Char)
  | [] => none
  | c :: cs =>
    match (if c = '\n' then none else formulaFrom cs) with
    | some (formula, label) => some (c :: formula, label)
    | none =>
      match after? mathMark (c :: cs) with
      | none => none
      | some rest => (mathLabel? rest).map fun label => ([], label)

/-- A formula and its label on one line: `$$`, at least one character, `$$`, a label. -/
def mathLine? (stripped : List Char) : Option (List Char × List Char) :=
  match after? mathMark stripped with
  | some (c :: cs) =>
    if c = '\n' then none else (formulaFrom cs).map fun (formula, label) => (c :: formula, label)
  | _ => none

/-- Whether `$$` stands in a text before any line feed. -/
def mentionsMath : List Char → Bool
  | [] => false
  | c :: cs => (after? mathMark (c :: cs)).isSome || (c != '\n' && mentionsMath cs)

/-- Whether a line opens a formula and mentions `$$` again after at least one character. -/
def startsMathLine (stripped : List Char) : Bool :=
  match after? mathMark stripped with
  | some (c :: cs) => c != '\n' && mentionsMath cs
  | _ => false

/-- A shortcode that has a line to itself. -/
structure Shortcode where
  indent : List Char
  body : List Char
  trailing : List Char
deriving DecidableEq, Repr

/-- The body of a shortcode, from its first blank on: one blank, the body, one blank, and nothing
after that. -/
def shortcodeBody? : List Char → Option (List Char)
  | first :: cs =>
    match cs.getLast? with
    | none => none
    | some close =>
      let body := cs.dropLast
      if isBlank first && isBlank close && !body.isEmpty && !body.contains '\n' then some body
      else none
  | [] => none

/-- The characters that open a shortcode. -/
def shortcodeMark : List Char := ['{', '{', '<']

/-- The characters that close a shortcode. -/
def shortcodeEnd : List Char := ['>', '}', '}']

/-- A line with nothing but one shortcode and blanks around it. -/
def shortcode? (line : List Char) : Option Shortcode :=
  let indent := line.takeWhile isBlank
  match after? shortcodeMark (line.dropWhile isBlank) with
  | none => none
  | some inner =>
    match after? shortcodeEnd.reverse (stripBack inner).reverse with
    | none => none
    | some front =>
      (shortcodeBody? front.reverse).map fun body =>
        ⟨indent, body, (inner.reverse.takeWhile isBlank).reverse⟩

/-- A line that closes a fenced div: three colons and blanks. -/
def isCloser (line : List Char) : Bool :=
  match after? fence line with
  | some rest => rest.all isBlank
  | none => false

/-- The opening line of a fenced div, or of a directive: its name and what its braces hold. -/
structure Opener where
  name : Option (List Char)
  attributes : Option (List Char)
deriving DecidableEq, Repr

/-- A line that opens a fenced div: three colons and no fourth, then a name or attributes or both,
blanks between them.  What follows is not looked at. -/
def opener? (line : List Char) : Option Opener :=
  match after? fence line with
  | none => none
  | some (':' :: _) => none
  | some rest =>
    match name? (stripFront rest) with
    | some (name, rest) => some ⟨some name, attributes? (stripFront rest)⟩
    | none => some ⟨none, attributes? (stripFront rest)⟩

/-- What follows four colons or more at the front of a line. -/
def longFence? (line : List Char) : Option (List Char) :=
  (after? (':' :: fence) line).map fun rest => rest.dropWhile (· == ':')

/-- A line that opens a directive: four colons or more, a name, and perhaps attributes, with
nothing between them. -/
def directiveOpener? (line : List Char) : Option (List Char × Option (List Char)) :=
  ((longFence? line).bind name?).map fun (name, rest) => (name, attributes? rest)

/-- A line that closes a directive: four colons or more, and blanks. -/
def isDirectiveCloser (line : List Char) : Bool :=
  match longFence? line with
  | some rest => rest.all isBlank
  | none => false

end DirectiveFences.Shape
