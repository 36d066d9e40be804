/-
The smallest parts of a settings document: blanks, comments, and quoted texts.

Every reader takes the characters that are left and gives what it read with those
that remain.  Line breaks are single line feeds here; a control character other
than the tab stands nowhere but between lines.
-/
import DirectiveFences.Text.Blank
import DirectiveFences.Text.Substitute

namespace DirectiveFences.Toml

/-- Why a document cannot be read. -/
inductive Error
  /-- It breaks the rules of the format. -/
  | malformed
  /-- A decimal integer has more digits than are read. -/
  | tooManyDigits (count : Nat)
  /-- Its values take more calls inside each other than there is room for. -/
  | tooDeep
deriving DecidableEq, Repr

def Error.message : Error → String
  | malformed => "malformed document"
  | tooManyDigits count =>
    "Exceeds the limit (4300 digits) for integer string conversion: value has " ++
      toString count ++ " digits; use sys.set_int_max_str_digits() to increase the limit"
  | tooDeep => "maximum recursion depth exceeded"

/-- What a reader gives: what it read and the characters that remain. -/
abbrev Read (α : Type) := Except Error (α × List Char)

/-- A character that no comment and no text may hold. -/
def isControl (c : Char) : Bool :=
  (c.toNat < 0x20 && c != '\t') || c.toNat == 0x7F

/-- A character that no text of several lines may hold. -/
def isControlInLines (c : Char) : Bool :=
  isControl c && c != '\n'

/-- The document with single line feeds as line breaks. -/
def joinBreaks (cs : List Char) : List Char :=
  Text.substitute ['\r', '\n'] ['\n'] cs

def skipSpaces (cs : List Char) : List Char :=
  cs.dropWhile Text.isSpace

def skipSpacesAndBreaks (cs : List Char) : List Char :=
  cs.dropWhile fun c => Text.isSpace c || c == '\n'

/-- The rest of the line if a comment begins here, else what was there. -/
def skipComment : List Char → Except Error (List Char)
  | '#' :: cs =>
    if (cs.takeWhile (· != '\n')).any isControl then .error .malformed
    else .ok (cs.dropWhile (· != '\n'))
  | cs => .ok cs

/-- What remains after the blanks, line breaks and comments between the items of an array; `fuel`
bounds the comments. -/
def skipBetweenItems : Nat → List Char → Except Error (List Char)
  | 0, _ => .error .malformed
  | fuel + 1, cs =>
    match skipSpacesAndBreaks cs with
    | '#' :: rest =>
      match skipComment ('#' :: rest) with
      | .ok rest => skipBetweenItems fuel rest
      | .error e => .error e
    | rest => .ok rest

/-! ## Quoted texts -/

/-- The text up to the next single quote. -/
def literal (cs : List Char) : Read (List Char) :=
  let body := cs.takeWhile (· != '\'')
  match cs.dropWhile (· != '\'') with
  | [] => .error .malformed
  | _ :: rest => if body.any isControl then .error .malformed else .ok (body, rest)

/-- Up to two quotes at the front, which end a text of several lines before its closing quotes. -/
def trailingQuotes (quote : Char) : List Char → List Char × List Char
  | a :: b :: rest =>
    if a = quote then
      if b = quote then ([quote, quote], rest) else ([quote], b :: rest)
    else ([], a :: b :: rest)
  | [a] => if a = quote then ([quote], []) else ([], [a])
  | [] => ([], [])

/-- The text up to the next three single quotes, and what comes after them. -/
def splitAtClosing : List Char → Option (List Char × List Char)
  | '\'' :: '\'' :: '\'' :: rest => some ([], rest)
  | c :: cs => (splitAtClosing cs).map fun (body, rest) => (c :: body, rest)
  | [] => none

/-- A line break right after the opening quotes is not part of the text. -/
def dropFirstBreak : List Char → List Char
  | '\n' :: cs => cs
  | cs => cs

/-- The text of several lines up to its three closing single quotes. -/
def literalLines (cs : List Char) : Read (List Char) :=
  match splitAtClosing (dropFirstBreak cs) with
  | none => .error .malformed
  | some (body, rest) =>
    if body.any isControlInLines then .error .malformed
    else
      let (quotes, rest) := trailingQuotes '\'' rest
      .ok (body ++ quotes, rest)

/-- The value of a hexadecimal digit. -/
def hexValue? (c : Char) : Option Nat :=
  if '0' ≤ c ∧ c ≤ '9' then some (c.toNat - '0'.toNat)
  else if 'a' ≤ c ∧ c ≤ 'f' then some (c.toNat - 'a'.toNat + 10)
  else if 'A' ≤ c ∧ c ≤ 'F' then some (c.toNat - 'A'.toNat + 10)
  else none

/-- The character whose code point the next `width` hexadecimal digits are. -/
def codePoint : Nat → Nat → List Char → Read (List Char)
  | 0, n, cs => if n.isValidChar then .ok ([Char.ofNat n], cs) else .error .malformed
  | width + 1, n, c :: cs =>
    match hexValue? c with
    | some d => codePoint width (n * 16 + d) cs
    | none => .error .malformed
  | _ + 1, _, [] => .error .malformed

/-- The character that a letter stands for after a backslash. -/
def escaped? (c : Char) : Option Char :=
  [('b', '\x08'), ('t', '\t'), ('n', '\n'), ('f', '\x0c'), ('r', '\r'), ('"', '"'),
    ('\\', '\\')].lookup c

/-- What stands after a backslash.  In a text of several lines a backslash at the end of a line takes
the line break and all blanks after it away. -/
def escape (inLines : Bool) : List Char → Read (List Char)
  | [] => .error .malformed
  | c :: cs =>
    if inLines && c == '\n' then .ok ([], skipSpacesAndBreaks cs)
    else if inLines && Text.isSpace c then
      match skipSpaces cs with
      | [] => .ok ([], [])
      | '\n' :: rest => .ok ([], skipSpacesAndBreaks rest)
      | _ => .error .malformed
    else if c = 'u' then codePoint 4 0 cs
    else if c = 'U' then codePoint 8 0 cs
    else
      match escaped? c with
      | some x => .ok ([x], cs)
      | none => .error .malformed

/-- The text up to the next double quote, with what was read so far in reverse; `fuel` bounds the
characters. -/
def basicFrom : Nat → List Char → List Char → Read (List Char)
  | 0, _, _ => .error .malformed
  | _ + 1, _, [] => .error .malformed
  | fuel + 1, done, c :: cs =>
    if c = '"' then .ok (done.reverse, cs)
    else if c = '\\' then
      match escape false cs with
      | .ok (x, rest) => basicFrom fuel (x.reverse ++ done) rest
      | .error e => .error e
    else if isControl c then .error .malformed
    else basicFrom fuel (c :: done) cs

/-- The text up to the next double quote. -/
def basic (cs : List Char) : Read (List Char) :=
  basicFrom (cs.length + 1) [] cs

/-- The text of several lines up to its three closing double quotes. -/
def basicLinesFrom : Nat → List Char → List Char → Read (List Char)
  | 0, _, _ => .error .malformed
  | _ + 1, done, '"' :: '"' :: '"' :: rest =>
    let (quotes, rest) := trailingQuotes '"' rest
    .ok (done.reverse ++ quotes, rest)
  | _ + 1, _, [] => .error .malformed
  | fuel + 1, done, c :: cs =>
    if c = '\\' then
      match escape true cs with
      | .ok (x, rest) => basicLinesFrom fuel (x.reverse ++ done) rest
      | .error e => .error e
    else if isControlInLines c then .error .malformed
    else basicLinesFrom fuel (c :: done) cs

def basicLines (cs : List Char) : Read (List Char) :=
  basicLinesFrom (cs.length + 1) [] (dropFirstBreak cs)

end DirectiveFences.Toml
