/-
Link targets: destinations, titles and labels.

A destination stands between angle brackets or runs to the next blank with its
parentheses balanced; a title stands between quotes or parentheses.  Each
reader takes a budget, the number of characters it may look at, and says how
many it has read.
-/
import DirectiveFences.Text.Blank
import DirectiveFences.Text.CaseMap

namespace DirectiveFences.Markdown.Target

open DirectiveFences.Text

/-! ## Destinations -/

/-- A destination between angle brackets, on one line. -/
def bracketed? : Nat → List Char → List Char → Option (List Char × Nat)
  | 0, _, _ => none
  | _ + 1, _, [] => none
  | budget + 1, read, c :: cs =>
    if c = '\n' || c = '<' then none
    else if c = '>' then some (read.reverse, read.length + 2)
    else if c = '\\' then
      match budget, cs with
      | budget + 1, d :: cs => bracketed? budget (d :: c :: read) cs
      | _, _ => none
    else bracketed? budget (c :: read) cs

/-- A destination without brackets: it ends before a blank, a control character, or a closing
parenthesis that it did not open.  It nests parentheses at most 32 deep. -/
def bare? : Nat → Nat → List Char → List Char → Option (List Char × Nat)
  | 0, depth, read, _ | _ + 1, depth, read, [] =>
    if read.isEmpty || depth != 0 then none else some (read.reverse, read.length)
  | budget + 1, depth, read, c :: cs =>
    let done := if read.isEmpty || depth != 0 then none else some (read.reverse, read.length)
    if c.toNat ≤ 0x20 || c.toNat = 0x7F then done
    else if c = '\\' then
      match budget, cs with
      | budget + 1, d :: cs =>
        if d = ' ' then done else bare? budget depth (d :: c :: read) cs
      | budget, cs => bare? budget depth (c :: read) cs
    else if c = '(' then
      if depth = 32 then none else bare? budget (depth + 1) (c :: read) cs
    else if c = ')' then
      match depth with
      | 0 => done
      | depth + 1 => bare? budget depth (c :: read) cs
    else bare? budget depth (c :: read) cs

/-- The destination at the front of a text, as it is written, and its length. -/
def destination? : Nat → List Char → Option (List Char × Nat)
  | budget + 1, '<' :: cs => bracketed? budget [] cs
  | budget, cs => bare? budget 0 [] cs

/-! ## Escapes and entities -/

/-- The ASCII punctuation, which a backslash takes literally. -/
def isPunctuation (c : Char) : Bool :=
  let n := c.toNat
  (0x21 ≤ n && n ≤ 0x2F) || (0x3A ≤ n && n ≤ 0x40) || (0x5B ≤ n && n ≤ 0x60) ||
    (0x7B ≤ n && n ≤ 0x7E)

/-- The named entities that can take part in a scheme, or stand as a blank before it. -/
def entities : List (String × List Char) :=
  [("colon", [':']), ("sol", ['/']), ("semi", [';']), ("Tab", ['\t']), ("NewLine", ['\n']),
    ("nbsp", ['\u00a0']), ("NonBreakingSpace", ['\u00a0']), ("ensp", ['\u2002']),
    ("emsp", ['\u2003']), ("emsp13", ['\u2004']), ("emsp14", ['\u2005']), ("numsp", ['\u2007']),
    ("puncsp", ['\u2008']), ("thinsp", ['\u2009']), ("ThinSpace", ['\u2009']),
    ("hairsp", ['\u200a']), ("VeryThinSpace", ['\u200a']), ("MediumSpace", ['\u205f']),
    ("ThickSpace", ['\u205f', '\u200a'])]

/-- The value of a hexadecimal digit. -/
def hexValue? (c : Char) : Option Nat :=
  if c.isDigit then some (c.toNat - '0'.toNat)
  else
    let d := c.toLower
    if 'a' ≤ d && d ≤ 'f' then some (d.toNat - 'a'.toNat + 10) else none

/-- The number that one to eight digits of a base spell. -/
def number? (base : Nat) (digits : List Char) : Option Nat :=
  if digits.isEmpty || 8 < digits.length then none
  else
    digits.foldl (fun acc c =>
      match acc, hexValue? c with
      | some n, some d => if d < base then some (n * base + d) else none
      | _, _ => none) (some 0)

/-- Whether a numeric entity may name a code point: no surrogate, noncharacter or control. -/
def isNameable (n : Nat) : Bool :=
  !((0xD800 ≤ n && n ≤ 0xDFFF) || (0xFDD0 ≤ n && n ≤ 0xFDEF) || 0xFFFE ≤ n % 0x10000 ||
    n ≤ 8 || n == 0xB || (0xE ≤ n && n ≤ 0x1F) || (0x7F ≤ n && n ≤ 0x9F) || 0x10FFFF < n)

/-- The characters that an entity name stands for. -/
def entity? (name : List Char) : Option (List Char) :=
  let numeric :=
    match name with
    | '#' :: 'x' :: ds | '#' :: 'X' :: ds => number? 16 ds
    | '#' :: ds => number? 10 ds
    | _ => none
  match numeric with
  | some n => if isNameable n then some [Char.ofNat n] else none
  | none => (entities.find? fun e => e.1 == String.ofList name).map (·.2)

/-- An entity after its ampersand: what it stands for, and how many characters it takes. -/
def entityAt? (cs : List Char) : Option (List Char × Nat) :=
  let name := cs.takeWhile fun c => c == '#' || c.isAlphanum
  if (cs.drop name.length).head? = some ';' then
    (entity? name).map fun value => (value, name.length + 1)
  else none

/-- A text with its backslash escapes and entities resolved. -/
def resolve : Nat → List Char → List Char
  | 0, cs => cs
  | _ + 1, [] => []
  | fuel + 1, c :: cs =>
    if c = '\\' then
      match cs with
      | d :: ds => if isPunctuation d then d :: resolve fuel ds else c :: resolve fuel cs
      | [] => [c]
    else if c = '&' then
      match entityAt? cs with
      | some (value, n) => value ++ resolve fuel (cs.drop n)
      | none => c :: resolve fuel cs
    else c :: resolve fuel cs

/-! ## Refused schemes -/

/-- Schemes that a link must not have. -/
def refusedSchemes : List (List Char) :=
  ["vbscript:", "javascript:", "file:", "data:"].map String.toList

/-- Beginnings that a link may have although their scheme is refused. -/
def imageSchemes : List (List Char) :=
  ["data:image/gif;", "data:image/png;", "data:image/jpeg;", "data:image/webp;"].map String.toList

/-- Whether a link may lead to an address. -/
def isAllowedAddress (address : List Char) : Bool :=
  let address := (stripFront address).map Char.toLower
  imageSchemes.any (·.isPrefixOf address) || !refusedSchemes.any (·.isPrefixOf address)

/-- Whether a link may have a destination, given as it is written. -/
def isAllowed (written : List Char) : Bool :=
  isAllowedAddress (resolve written.length written)

/-! ## Titles -/

/-- The length of a title up to its closing mark; `n` characters are read already. -/
def titleEnd? (close : Char) : Nat → Nat → List Char → Option Nat
  | 0, _, _ => none
  | _ + 1, _, [] => none
  | budget + 1, n, c :: cs =>
    if c = close then some (n + 1)
    else if c = '(' && close = ')' then none
    else if c = '\\' then
      match budget, cs with
      | budget + 1, _ :: cs => titleEnd? close budget (n + 2) cs
      | _, _ => none
    else titleEnd? close budget (n + 1) cs

/-- The length of the title at the front of a text, its marks included. -/
def titleLength? : Nat → List Char → Option Nat
  | budget + 1, c :: cs =>
    if c = '"' || c = '\'' then titleEnd? c budget 1 cs
    else if c = '(' then titleEnd? ')' budget 1 cs
    else none
  | _, _ => none

/-! ## Labels -/

/-- Runs of blanks as one space each. -/
def squeeze : List Char → List Char
  | [] => []
  | c :: cs =>
    if isBlank c then
      match cs with
      | d :: _ => if isBlank d then squeeze cs else ' ' :: squeeze cs
      | [] => [' ']
    else c :: squeeze cs

/-- What two labels must share to be the same: their text in one case, with single spaces. -/
def labelKey (label : List Char) : List Char :=
  upper (lower (squeeze (strip label)))

end DirectiveFences.Markdown.Target
