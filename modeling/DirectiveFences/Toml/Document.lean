/-
Whole settings documents: keys, values, headers, statements.

A document is read statement by statement into a table.  A header `[path]` opens
a table, `[[path]]` adds one to an array, and a key with a value goes into the
table that was opened last.  The fuel of the readers that call each other is
twice the number of characters, of which every other call takes at least one.

Values are read by calls inside each other, two for a value in an array and three
for one in an inline table, and there is room for so many.  The few calls that
read a key or a plain value come back before the next value and are not counted.
-/
import DirectiveFences.Toml.Nest
import DirectiveFences.Toml.Scalar

namespace DirectiveFences.Toml

/-! ## Keys -/

/-- A character of a key without quotes. -/
def isBareKey (c : Char) : Bool :=
  c.isAlphanum || c == '-' || c == '_'

/-- One key: bare, or a text in quotes. -/
def key : List Char → Read String
  | '\'' :: cs => (literal cs).map fun (body, rest) => (String.ofList body, rest)
  | '"' :: cs => (basic cs).map fun (body, rest) => (String.ofList body, rest)
  | cs =>
    let body := cs.takeWhile isBareKey
    if body.isEmpty then .error .malformed
    else .ok (String.ofList body, cs.dropWhile isBareKey)

/-- Where a value goes: the path of its table, and its own key. -/
structure Address where
  parent : KeyPath
  stem : String

/-- The path of the value itself. -/
def Address.path (a : Address) : KeyPath :=
  a.parent ++ [a.stem]

/-- One or more keys with points between them, of which `parent` have been read; `fuel` bounds the
keys. -/
def addressFrom : Nat → KeyPath → List Char → Except Error (Address × List Char)
  | 0, _, _ => .error .malformed
  | fuel + 1, parent, cs => do
    let (k, cs) ← key cs
    match skipSpaces cs with
    | '.' :: rest => addressFrom fuel (parent ++ [k]) (skipSpaces rest)
    | rest => .ok (⟨parent, k⟩, rest)

def address (cs : List Char) : Except Error (Address × List Char) :=
  addressFrom (cs.length + 1) [] cs

/-! ## Values -/

/-- Values that are frozen once they are written. -/
def isWhole : Value → Bool
  | .array _ | .table _ => true
  | _ => false

/-- A text: in single or double quotes, on one line or several. -/
def quotedText? : List Char → Option (Read (List Char))
  | '"' :: '"' :: '"' :: cs => some (basicLines cs)
  | '"' :: cs => some (basic cs)
  | '\'' :: '\'' :: '\'' :: cs => some (literalLines cs)
  | '\'' :: cs => some (literal cs)
  | _ => none

/-- A truth value. -/
def truth? : List Char → Option (Bool × List Char)
  | 't' :: 'r' :: 'u' :: 'e' :: cs => some (true, cs)
  | 'f' :: 'a' :: 'l' :: 's' :: 'e' :: cs => some (false, cs)
  | _ => none

/-- Enter a value into an inline table. -/
def enterInline (m : Marks) (t : Table) (a : Address) (v : Value) : Except Error Table :=
  if m.isFrozen a.path then .error .malformed
  else
    match modifyAt false (define a.stem v) a.parent t with
    | some t => .ok t
    | none => .error .malformed

/-- Read with room for so many calls less. -/
def inside {α : Type} (calls room : Nat) (read : Nat → Except Error α) : Except Error α :=
  if calls ≤ room then read (room - calls) else .error .tooDeep

mutual

/-- A value of any kind. -/
def value : Nat → Nat → List Char → Except Error (Value × List Char)
  | 0, _, _ => .error .malformed
  | fuel + 1, room, cs =>
    match quotedText? cs with
    | some r => r.map fun (body, rest) => (.text (String.ofList body), rest)
    | none =>
      match truth? cs with
      | some (b, rest) => .ok (.bool b, rest)
      | none =>
        match cs with
        | '[' :: rest =>
          inside 1 room fun room =>
            (items fuel room [] rest).map fun (vs, rest) => (.array vs, rest)
        | '\x7b' :: rest =>
          inside 1 room fun room =>
            match skipSpaces rest with
            | '\x7d' :: rest => .ok (.table [], rest)
            | rest => (entries fuel room {} [] rest).map fun (t, rest) => (.table t, rest)
        | cs => scalar cs

/-- The items of an array up to its closing bracket, with those read so far in reverse.  A comma may
stand before the bracket. -/
def items : Nat → Nat → List Value → List Char → Except Error (List Value × List Char)
  | 0, _, _, _ => .error .malformed
  | fuel + 1, room, done, cs => do
    match ← skipBetweenItems (cs.length + 1) cs with
    | ']' :: rest => .ok (done.reverse, rest)
    | cs =>
      let (v, cs) ← inside 1 room fun room => value fuel room cs
      match ← skipBetweenItems (cs.length + 1) cs with
      | ']' :: rest => .ok ((v :: done).reverse, rest)
      | ',' :: rest => items fuel room (v :: done) rest
      | _ => .error .malformed

/-- The entries of an inline table up to its closing brace, on one line and without a comma before the
brace. -/
def entries : Nat → Nat → Marks → Table → List Char → Except Error (Table × List Char)
  | 0, _, _, _, _ => .error .malformed
  | fuel + 1, room, marks, t, cs => do
    let (a, cs) ← address cs
    match cs with
    | '=' :: cs =>
      let (v, cs) ← inside 2 room fun room => value fuel room (skipSpaces cs)
      let t ← enterInline marks t a v
      match skipSpaces cs with
      | '\x7d' :: rest => .ok (t, rest)
      | ',' :: rest =>
        entries fuel room (if isWhole v then marks.freeze a.path else marks) t (skipSpaces rest)
      | _ => .error .malformed
    | _ => .error .malformed

end

/-! ## Statements -/

/-- A document that is being read: what has been entered, what has been said of paths, and the path of
the table that was opened last. -/
structure Draft where
  root : Table := []
  marks : Marks := {}
  header : KeyPath := []

/-- The paths of the tables that a dotted key passes through. -/
def passed (header : KeyPath) : KeyPath → List KeyPath
  | [] => []
  | k :: ks => (header ++ [k]) :: passed (header ++ [k]) ks

/-- A change at a path, or an error where something is in the way. -/
def Draft.modify (d : Draft) (path : KeyPath) (f : Table → Option Table) : Except Error Draft :=
  match modifyAt true f path d.root with
  | some root => .ok { d with root }
  | none => .error .malformed

/-- Enter a value under the table that was opened last.  The tables on the way must not have been
declared, and cannot be declared later on. -/
def Draft.enter (d : Draft) (a : Address) (v : Value) : Except Error Draft :=
  let way := passed d.header a.parent
  if way.any d.marks.isDeclared || d.marks.isFrozen (d.header ++ a.parent) then .error .malformed
  else
    let marks := { d.marks with pending := way ++ d.marks.pending }
    let marks := if isWhole v then marks.freeze (d.header ++ a.path) else marks
    { d with marks }.modify (d.header ++ a.parent) (define a.stem v)

/-- Open the table of a header. -/
def Draft.openTable (d : Draft) (a : Address) : Except Error Draft :=
  let marks := d.marks.settle
  if marks.isDeclared a.path || marks.isFrozen a.path then .error .malformed
  else { d with marks := marks.declare a.path, header := a.path }.modify a.path some

/-- Add a table to the array of a header.  What was said of the paths below belongs to the table before
it and is taken back. -/
def Draft.openItem (d : Draft) (a : Address) : Except Error Draft :=
  let marks := d.marks.settle
  if marks.isFrozen a.path then .error .malformed
  else
    { d with marks := (marks.clear a.path).declare a.path, header := a.path }.modify a.parent
      (appendTable a.stem)

/-- One statement, which begins at the first character. -/
def statement (room : Nat) (d : Draft) : List Char → Except Error (Draft × List Char)
  | '[' :: '[' :: cs => do
    let (a, cs) ← address (skipSpaces cs)
    let d ← d.openItem a
    match cs with
    | ']' :: ']' :: rest => .ok (d, rest)
    | _ => .error .malformed
  | '[' :: cs => do
    let (a, cs) ← address (skipSpaces cs)
    let d ← d.openTable a
    match cs with
    | ']' :: rest => .ok (d, rest)
    | _ => .error .malformed
  | '#' :: cs => .ok (d, '#' :: cs)
  | cs => do
    let (a, cs) ← address cs
    match cs with
    | '=' :: cs =>
      let (v, rest) ← value (2 * cs.length + 1) room (skipSpaces cs)
      .ok (← d.enter a v, rest)
    | _ => .error .malformed

/-- The statements of a document, one a line; `fuel` bounds the lines. -/
def statements (room : Nat) : Nat → Draft → List Char → Except Error Table
  | 0, _, _ => .error .malformed
  | fuel + 1, d, cs =>
    match skipSpaces cs with
    | [] => .ok d.root
    | '\n' :: rest => statements room fuel d rest
    | cs => do
      let (d, cs) ← statement room d cs
      match ← skipComment (skipSpaces cs) with
      | [] => .ok d.root
      | '\n' :: rest => statements room fuel d rest
      | _ => .error .malformed

/-- The table that a document spells, where values have room for so many calls inside each other. -/
def parse (room : Nat) (cs : List Char) : Except Error Table :=
  let cs := joinBreaks cs
  statements room (cs.length + 1) {} cs

end DirectiveFences.Toml
