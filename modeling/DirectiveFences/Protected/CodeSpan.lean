/-
Finding a code span again from the length of its delimiters.

A run of backticks is a delimiter when it has exactly the length looked for,
whatever stands before or after it; the opening run must not be escaped by a
backslash.  The search sees the characters before its starting place, but none
from its limit on.
-/
import DirectiveFences.Protected.Range

namespace DirectiveFences.CodeSpan

/-- The number of backslashes directly before a place. -/
def backslashesBefore (text : Array Char) : Nat → Nat
  | 0 => 0
  | p + 1 => if text[p]? = some '\\' then backslashesBefore text p + 1 else 0

/-- An odd number of backslashes before a character escapes it. -/
def isEscaped (text : Array Char) (pos : Nat) : Bool :=
  backslashesBefore text pos % 2 == 1

/-- Whether the text has the given characters at a place. -/
def spells (text : Array Char) : List Char → Nat → Bool
  | [], _ => true
  | c :: cs, i => text[i]? == some c && spells text cs (i + 1)

/-- Whether a delimiter stands at a place: the marker, within the limit, and no backtick on
either side of it. -/
def delimiterAt (text : Array Char) (marker : List Char) (limit pos : Nat) : Bool :=
  spells text marker pos && pos + marker.length ≤ limit &&
    (pos == 0 || text[pos - 1]? != some '`') &&
    (pos + marker.length == limit || text[pos + marker.length]? != some '`')

/-- The first of the next `room` places, from `pos` on, where a delimiter stands. -/
def nextDelimiter (text : Array Char) (marker : List Char) (limit : Nat) : Nat → Nat → Option Nat
  | 0, _ => none
  | room + 1, pos =>
    if delimiterAt text marker limit pos then some pos
    else nextDelimiter text marker limit room (pos + 1)

/-- The first delimiter from `pos` on that is not escaped. -/
def nextOpening (text : Array Char) (marker : List Char) (limit : Nat) : Nat → Nat → Option Nat
  | 0, _ => none
  | fuel + 1, pos =>
    match nextDelimiter text marker limit (limit - pos) pos with
    | none => none
    | some s =>
      if isEscaped text s then nextOpening text marker limit fuel (s + marker.length) else some s

/-- The next code span between `pos` and `limit`: the first opening delimiter that is not escaped,
and the first delimiter after it.  There is none when that opening has no partner. -/
def find? (text : Array Char) (marker : List Char) (pos limit : Nat) : Option Range :=
  let limit := min limit text.size
  match nextOpening text marker limit (limit - pos) pos with
  | none => none
  | some s =>
    let inside := s + marker.length
    match nextDelimiter text marker limit (limit - inside) inside with
    | none => none
    | some e => some ⟨s, e + marker.length⟩

end DirectiveFences.CodeSpan
