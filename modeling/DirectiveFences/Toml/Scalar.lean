/-
Numbers and moments in a settings document.

Digits of a number may have single underscores between them.  An integer is
decimal with an optional sign, or hexadecimal, octal or binary after `0x`, `0o`
or `0b`; a decimal number with a fraction or a power of ten is a double.  A
moment is read before a number, since both begin with digits.
-/
import DirectiveFences.Decimal.Double
import DirectiveFences.Moment
import DirectiveFences.Toml.Lexeme
import DirectiveFences.Value

namespace DirectiveFences.Toml

/-! ## Numbers -/

def isDigit (c : Char) : Bool :=
  '0' ≤ c && c ≤ '9'

/-- The digits at the front, where an underscore may stand before each but the first: the digits
alone, and the rest. -/
def digitsAfter (p : Char → Bool) : List Char → List Char × List Char
  | '_' :: c :: cs =>
    if p c then
      let (ds, rest) := digitsAfter p cs
      (c :: ds, rest)
    else ([], '_' :: c :: cs)
  | c :: cs =>
    if p c then
      let (ds, rest) := digitsAfter p cs
      (c :: ds, rest)
    else ([], c :: cs)
  | [] => ([], [])

/-- One or more digits with single underscores between them. -/
def digits? (p : Char → Bool) : List Char → Option (List Char × List Char)
  | c :: cs =>
    if p c then
      let (ds, rest) := digitsAfter p cs
      some (c :: ds, rest)
    else none
  | [] => none

/-- The whole part of a decimal number: a zero, or digits that begin with none. -/
def whole? : List Char → Option (List Char × List Char)
  | '0' :: cs => some (['0'], cs)
  | cs => digits? isDigit cs

/-- The digits after a point; none where no digit follows it. -/
def places : List Char → List Char × List Char
  | '.' :: cs => (digits? isDigit cs).getD ([], '.' :: cs)
  | cs => ([], cs)

/-- A sign that may be missing. -/
def sign : List Char → Bool × List Char
  | '-' :: cs => (true, cs)
  | '+' :: cs => (false, cs)
  | cs => (false, cs)

/-- The power of ten after a mark `e` or `E`. -/
def power? : List Char → Option (Int × List Char)
  | c :: cs =>
    if c = 'e' ∨ c = 'E' then
      let (negative, body) := sign cs
      (digits? isDigit body).map fun (ds, rest) =>
        let n : Int := Double.natOfDigits ds
        (if negative then -n else n, rest)
    else none
  | [] => none

/-- The most digits of a decimal integer. -/
def digitLimit : Nat := 4300

/-- A decimal integer or double. -/
def decimal? (cs : List Char) : Option (Read Value) :=
  let (negative, body) := sign cs
  (whole? body).map fun (ws, rest) =>
    let (ps, rest) := places rest
    match ps, power? rest with
    | [], none =>
      if ws.length > digitLimit then .error (.tooManyDigits ws.length)
      else
        let n : Int := Double.natOfDigits ws
        .ok (.int (if negative then -n else n), rest)
    | ps, some (power, rest) =>
      .ok (.float (Double.ofDecimal negative (Double.natOfDigits (ws ++ ps)) (power - ps.length)),
        rest)
    | ps, none =>
      .ok (.float (Double.ofDecimal negative (Double.natOfDigits (ws ++ ps)) (-ps.length)), rest)

/-- The number that digits of a base spell. -/
def natOfBase (base : Nat) (ds : List Char) : Nat :=
  ds.foldl (fun n c => n * base + (hexValue? c).getD 0) 0

/-- An integer after `0x`, `0o` or `0b`. -/
def based? : List Char → Option (Int × List Char)
  | '0' :: mark :: cs =>
    let read (base : Nat) :=
      (digits? (fun c => (hexValue? c).any (· < base)) cs).map fun (ds, rest) =>
        ((natOfBase base ds : Int), rest)
    if mark = 'x' then read 16 else if mark = 'b' then read 2 else if mark = 'o' then read 8
    else none
  | _ => none

/-- The doubles that are no decimals. -/
def special? (cs : List Char) : Option (Double × List Char) :=
  let (negative, body) := sign cs
  match body with
  | 'i' :: 'n' :: 'f' :: rest => some (.infinite negative, rest)
  | 'n' :: 'a' :: 'n' :: rest => some (.nan, rest)
  | _ => none

/-! ## Moments -/

/-- A number of `count` digits. -/
def fixed? (count : Nat) (cs : List Char) : Option (Nat × List Char) :=
  let ds := cs.take count
  if ds.length = count ∧ ds.all isDigit then some (Double.natOfDigits ds, cs.drop count) else none

/-- A number of two digits within bounds. -/
def two? (low high : Nat) (cs : List Char) : Option (Nat × List Char) :=
  match fixed? 2 cs with
  | some (n, rest) => if low ≤ n ∧ n ≤ high then some (n, rest) else none
  | none => none

/-- The rest of a text that begins with the character. -/
def after? (c : Char) : List Char → Option (List Char)
  | d :: cs => if c = d then some cs else none
  | [] => none

/-- Year, month and day; whether the month has that day is not asked here. -/
def date? (cs : List Char) : Option (Date × List Char) := do
  let (year, cs) ← fixed? 4 cs
  let (month, cs) ← two? 1 12 (← after? '-' cs)
  let (day, cs) ← two? 1 31 (← after? '-' cs)
  some (⟨year, month, day⟩, cs)

/-- The fraction of a second, in millionths: digits after the sixth are read and do not count. -/
def fraction : List Char → Nat × List Char
  | '.' :: cs =>
    let ds := cs.takeWhile isDigit
    if ds.isEmpty then (0, '.' :: cs)
    else
      let six := ds.take 6
      (Double.natOfDigits (six ++ List.replicate (6 - six.length) '0'), cs.dropWhile isDigit)
  | cs => (0, cs)

def clock? (cs : List Char) : Option (Clock × List Char) := do
  let (hour, cs) ← two? 0 23 cs
  let (minute, cs) ← two? 0 59 (← after? ':' cs)
  let (second, cs) ← two? 0 59 (← after? ':' cs)
  let (micros, cs) := fraction cs
  some (⟨hour, minute, second, micros⟩, cs)

/-- The distance from universal time in minutes. -/
def offset? : List Char → Option (Int × List Char)
  | c :: cs =>
    if c = 'Z' ∨ c = 'z' then some (0, cs)
    else if c = '+' ∨ c = '-' then do
      let (hours, cs) ← two? 0 23 cs
      let (minutes, cs) ← two? 0 59 (← after? ':' cs)
      let n : Int := (hours * 60 + minutes : Nat)
      some (if c = '-' then -n else n, cs)
    else none
  | [] => none

/-- The time of day that follows a date, if one does. -/
def clockAfterDate? : List Char → Option (Clock × List Char)
  | c :: cs => if c = 'T' ∨ c = 't' ∨ c = ' ' then clock? cs else none
  | [] => none

/-- A moment that begins with a date. -/
def dated? (cs : List Char) : Option (Date × Moment × List Char) :=
  (date? cs).map fun (d, rest) =>
    match clockAfterDate? rest with
    | none => (d, .date d, rest)
    | some (t, rest) =>
      match offset? rest with
      | none => (d, .both d t none, rest)
      | some (o, rest) => (d, .both d t (some o), rest)

/-! ## All of them -/

/-- A moment, a number or a special double; a date that is not in the calendar is an error. -/
def scalar (cs : List Char) : Read Value :=
  match dated? cs with
  | some (d, m, rest) => if d.isValid then .ok (.moment m, rest) else .error .malformed
  | none =>
    match clock? cs with
    | some (t, rest) => .ok (.moment (.clock t), rest)
    | none =>
      match based? cs with
      | some (n, rest) => .ok (.int n, rest)
      | none =>
        match decimal? cs with
        | some r => r
        | none =>
          match special? cs with
          | some (x, rest) => .ok (.float x, rest)
          | none => .error .malformed

end DirectiveFences.Toml
