/-
Raw HTML in Markdown text.

`tagLength?` recognises one tag, comment, processing instruction, declaration
or character data section at the front of a text and says how long it is.
`blockKind?` recognises the lines that start a block of raw HTML.
-/
import DirectiveFences.Text.Blank

namespace DirectiveFences.Markdown.Html

open DirectiveFences.Text

/-- The number of characters of a text up to the end of the first occurrence of `mark`. -/
def lengthThrough (mark : List Char) : Nat → List Char → Option Nat
  | _, [] => none
  | n, c :: cs =>
    if mark.isPrefixOf (c :: cs) then some (n + mark.length) else lengthThrough mark (n + 1) cs

/-- A character of an attribute name after its first. -/
def isNameChar (c : Char) : Bool :=
  c.isAlphanum || c == ':' || c == '.' || c == '_' || c == '-'

/-- A character of an attribute value without quotes. -/
def isBareChar (c : Char) : Bool :=
  0x20 < c.toNat && !(c == '"' || c == '\'' || c == '=' || c == '<' || c == '>' || c == '`')

/-- The lengths that a value without quotes may have, the longest first.  A blank outside ASCII may
belong to the value or end it, so every end before such a blank is possible. -/
def bareLengths (cs : List Char) : List Nat :=
  let run := cs.takeWhile isBareChar
  let inner := (run.zipIdx.filter fun (c, k) => 0 < k && isBlank c).map (·.2)
  if run.isEmpty then [] else run.length :: inner.reverse

/-- The lengths that an attribute value at the front of a text may have. -/
def valueLengths : List Char → List Nat
  | '\'' :: cs => ((lengthThrough ['\''] 1 cs).map ([·])).getD []
  | '"' :: cs => ((lengthThrough ['"'] 1 cs).map ([·])).getD []
  | cs => bareLengths cs

/-- The lengths that an equals sign and a value may have after an attribute name, the one with the
most blanks before the value first. -/
def assignmentLengths (cs : List Char) : List Nat :=
  let before := (cs.takeWhile isBlank).length
  match cs.drop before with
  | '=' :: cs =>
    let blanks := (cs.takeWhile isBlank).length
    (List.range (blanks + 1)).reverse.flatMap fun j =>
      (valueLengths (cs.drop j)).map fun k => before + 1 + j + k
  | _ => []

/-- The length of the attributes and the end of an opening tag; `n` characters are read already. -/
def attributesLength? : Nat → Nat → List Char → Option Nat
  | 0, _, _ => none
  | fuel + 1, n, cs =>
    let blanks := (cs.takeWhile isBlank).length
    let rest := cs.drop blanks
    let here := n + blanks
    match rest with
    | '>' :: _ => some (here + 1)
    | '/' :: '>' :: _ => some (here + 2)
    | c :: _ =>
      if 0 < blanks && (c.isAlpha || c == '_' || c == ':') then
        let name := (rest.takeWhile isNameChar).length
        let rest := rest.drop name
        (assignmentLengths rest ++ [0]).findSome? fun k =>
          attributesLength? fuel (here + name + k) (rest.drop k)
      else none
    | [] => none

/-- The number of letters, digits and hyphens at the front of a text that begins with a letter. -/
def tagNameLength? : List Char → Option Nat
  | c :: cs =>
    if c.isAlpha then some (1 + (cs.takeWhile fun d => d.isAlphanum || d == '-').length) else none
  | [] => none

/-- The length of an opening tag. -/
def openTagLength? : List Char → Option Nat
  | '<' :: cs =>
    (tagNameLength? cs).bind fun k => attributesLength? (cs.length + 1) (k + 1) (cs.drop k)
  | _ => none

/-- The length of a closing tag. -/
def closeTagLength? : List Char → Option Nat
  | '<' :: '/' :: cs =>
    (tagNameLength? cs).bind fun k =>
      let blanks := ((cs.drop k).takeWhile isBlank).length
      if (cs.drop (k + blanks)).head? = some '>' then some (2 + k + blanks + 1) else none
  | _ => none

/-- The length of a comment after its first four characters.  Two hyphens that no `>` follows take
the character after them along, so `--->` does not end a comment that `-` precedes. -/
def commentLength? : Nat → Nat → List Char → Option Nat
  | 0, _, _ => none
  | _ + 1, n, '-' :: '-' :: '>' :: _ => some (n + 3)
  | fuel + 1, n, '-' :: '-' :: _ :: cs => commentLength? fuel (n + 3) cs
  | _ + 1, _, ['-', '-'] => none
  | _ + 1, _, ['-'] => none
  | fuel + 1, n, '-' :: _ :: cs => commentLength? fuel (n + 2) cs
  | fuel + 1, n, _ :: cs => commentLength? fuel (n + 1) cs
  | _ + 1, _, [] => none

/-- The length of what begins with `<!` at the front of a text. -/
def markupLength? : List Char → Option Nat
  | '-' :: '-' :: '>' :: _ => some 5
  | '-' :: '-' :: '-' :: '>' :: _ => some 6
  | '-' :: '-' :: cs => commentLength? (cs.length + 1) 4 cs
  | '[' :: 'C' :: 'D' :: 'A' :: 'T' :: 'A' :: '[' :: cs => lengthThrough [']', ']', '>'] 9 cs
  | c :: cs => if c.isAlpha then lengthThrough ['>'] 3 cs else none
  | [] => none

/-- The length of the tag, or other piece of HTML, at the front of a text. -/
def tagLength? : List Char → Option Nat
  | '<' :: '!' :: cs => markupLength? cs
  | '<' :: '?' :: cs => lengthThrough ['?', '>'] 2 cs
  | '<' :: '/' :: cs => closeTagLength? ('<' :: '/' :: cs)
  | cs => openTagLength? cs

/-! ## Blocks -/

/-- A letter without its case.  The long s, the Kelvin sign and the two Turkish letters i are cases
of ASCII letters too. -/
def fold (c : Char) : Char :=
  match c.toNat with
  | 0x130 | 0x131 => 'i'
  | 0x17F => 's'
  | 0x212A => 'k'
  | _ => c.toLower

/-- What follows a name, case apart, at the front of a text. -/
def afterFolded? : List Char → List Char → Option (List Char)
  | [], cs => some cs
  | m :: ms, c :: cs => if m = fold c then afterFolded? ms cs else none
  | _ :: _, [] => none

/-- Elements whose content is not Markdown at all. -/
def literalNames : List (List Char) :=
  ["script", "pre", "style", "textarea"].map String.toList

/-- Elements that stand on lines of their own. -/
def blockNames : List (List Char) :=
  ["address", "article", "aside", "base", "basefont", "blockquote", "body", "caption", "center",
    "col", "colgroup", "dd", "details", "dialog", "dir", "div", "dl", "dt", "fieldset",
    "figcaption", "figure", "footer", "form", "frame", "frameset", "h1", "h2", "h3", "h4", "h5",
    "h6", "head", "header", "hr", "html", "iframe", "legend", "li", "link", "main", "menu",
    "menuitem", "nav", "noframes", "ol", "optgroup", "option", "p", "param", "search", "section",
    "summary", "table", "tbody", "td", "tfoot", "th", "thead", "title", "tr", "track",
    "ul"].map String.toList

/-- The kinds of raw HTML blocks: they differ in how they begin and in how they end. -/
inductive BlockKind
  | literal
  | comment
  | instruction
  | declaration
  | characterData
  | element
  | tag
deriving DecidableEq, Repr

/-- Whether a name ends here: a blank, a `>`, or nothing. -/
def endsName (selfClosing : Bool) : List Char → Bool
  | [] => true
  | '/' :: '>' :: _ => selfClosing
  | c :: _ => isBlank c || c == '>'

/-- Whether one of some names stands at the front of a text, and ends there. -/
def startsWithName (names : List (List Char)) (selfClosing : Bool) (cs : List Char) : Bool :=
  names.any fun name => ((afterFolded? name cs).map (endsName selfClosing)).getD false

/-- Whether a line is one tag and blanks. -/
def isLoneTag (cs : List Char) : Bool :=
  match (openTagLength? cs).orElse fun _ => closeTagLength? cs with
  | some n => (cs.drop n).all isBlank
  | none => false

/-- The kind of raw HTML block that a line begins. -/
def blockKind? : List Char → Option BlockKind
  | '<' :: cs =>
    if startsWithName literalNames false cs then some .literal
    else if ['!', '-', '-'].isPrefixOf cs then some .comment
    else if cs.head? = some '?' then some .instruction
    else if cs.head? = some '!' && ((cs.drop 1).head?.map Char.isUpper).getD false then
      some .declaration
    else if "![CDATA[".toList.isPrefixOf cs then some .characterData
    else if startsWithName blockNames true (if cs.head? = some '/' then cs.drop 1 else cs) then
      some .element
    else if isLoneTag ('<' :: cs) then some .tag
    else none
  | _ => none

/-- Whether a mark stands anywhere in a text. -/
def mentions (mark : List Char) (cs : List Char) : Bool :=
  (lengthThrough mark 0 cs).isSome

/-- Whether the closing tag of an element with literal content stands anywhere in a text. -/
def mentionsLiteralEnd : List Char → Bool
  | [] => false
  | c :: cs =>
    (c == '<' && cs.head? == some '/' &&
      literalNames.any fun name =>
        ((afterFolded? name (cs.drop 1)).map fun r => r.head? == some '>').getD false) ||
      mentionsLiteralEnd cs

/-- Whether a line ends a block of some kind.  Blocks of elements and tags end at an empty line. -/
def BlockKind.endsAt (kind : BlockKind) (line : List Char) : Bool :=
  match kind with
  | .literal => mentionsLiteralEnd line
  | .comment => mentions ['-', '-', '>'] line
  | .instruction => mentions ['?', '>'] line
  | .declaration => mentions ['>'] line
  | .characterData => mentions [']', ']', '>'] line
  | .element | .tag => line.isEmpty

/-- A lone tag does not interrupt a paragraph; every other kind does. -/
def BlockKind.interrupts : BlockKind → Bool
  | .tag => false
  | _ => true

end DirectiveFences.Markdown.Html
