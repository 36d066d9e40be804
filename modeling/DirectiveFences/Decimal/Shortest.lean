/-
The shortest decimal of a double, and its text.

The decimals that read back as a double fill the interval of the numbers that
round to it.  For one digit, two digits and so on up to seventeen, the two
neighbours of the double among the decimals of so many digits are tried: the
first count of digits with a neighbour inside wins, and of two neighbours inside
the nearer one.
-/
import DirectiveFences.Decimal.Double

namespace DirectiveFences.Double

/-- A decimal `digits * 10 ^ exponent`. -/
structure Decimal where
  digits : Nat
  exponent : Int
deriving DecidableEq, Repr

/-- The places after the point that are kept in an exact computation: more than any double needs
before its first digit. -/
def scalePlaces : Nat := 400

/-- A positive double and the bounds of its interval, as four times `10 ^ 400` times their value over
one denominator. -/
structure Interval where
  low : Nat
  value : Nat
  high : Nat
  den : Nat
  /-- Whether the bounds belong to the interval. -/
  closed : Bool

/-- The numbers that round to `mantissa * 2 ^ power`: half way to each neighbour.  Below a power of
two the neighbours are nearer, unless the power is the least. -/
def interval (mantissa : Nat) (power : Int) : Interval :=
  let scale := Nat.pow 2 power.toNat * Nat.pow 10 scalePlaces
  let below := if mantissa = Nat.pow 2 52 ∧ power > leastPower then 1 else 2
  { low := (4 * mantissa - below) * scale
    value := 4 * mantissa * scale
    high := (4 * mantissa + 2) * scale
    den := 4 * Nat.pow 2 (-power).toNat
    closed := mantissa % 2 == 0 }

/-- Whether the scaled number `x` lies in the interval. -/
def Interval.holds (i : Interval) (x : Nat) : Bool :=
  let x := x * i.den
  if i.closed then i.low ≤ x && x ≤ i.high else i.low < x && x < i.high

/-- The neighbour of the double on the grid of multiples of `unit` that reads back: the nearer one if
both do, and of two equally near the even one. -/
def neighbour? (i : Interval) (unit : Nat) : Option Nat :=
  let below := i.value / i.den / unit
  match i.holds (below * unit), i.holds ((below + 1) * unit) with
  | false, false => none
  | true, false => some below
  | false, true => some (below + 1)
  | true, true =>
    let twice := 2 * i.value
    let middle := (2 * below + 1) * unit * i.den
    if twice < middle || (twice == middle && below % 2 == 0) then some below else some (below + 1)

/-- The first count of digits from `count` on with a neighbour that reads back; `width` is the count of
digits of the scaled double. -/
def firstGrid (i : Interval) (width : Nat) : Nat → Nat → Option Decimal
  | 0, _ => none
  | tries + 1, count =>
    match neighbour? i (Nat.pow 10 (width - count)) with
    | some digits => some ⟨digits, (width : Int) - count - scalePlaces⟩
    | none => firstGrid i width tries (count + 1)

/-- The shortest decimal that reads back as the positive double `mantissa * 2 ^ power`. -/
def shortest (mantissa : Nat) (power : Int) : Decimal :=
  let i := interval mantissa power
  let width := (Nat.toDigits 10 (i.value / i.den)).length
  (firstGrid i width 17 1).getD ⟨0, 0⟩

/-- Digits without the zeros at the end, which only say where the point is. -/
def trimZeros (cs : List Char) : List Char :=
  (cs.reverse.dropWhile (· == '0')).reverse

/-- Where the power of ten of the first digit makes the text positional: from `0.0001` up to sixteen
digits before the point. -/
def isPositional (point : Int) : Bool :=
  -4 < point && point ≤ 16

/-- Digits with the point before place `point`, padded by zeros and with a digit on each side. -/
def positional (cs : List Char) (point : Int) : List Char :=
  if point ≤ 0 then '0' :: '.' :: (List.replicate (-point).toNat '0' ++ cs)
  else
    let whole := cs.take point.toNat
    let places := cs.drop point.toNat
    whole ++ List.replicate (point.toNat - whole.length) '0' ++ '.' ::
      (if places.isEmpty then ['0'] else places)

/-- Digits with the point after the first one and a power of ten of at least two digits. -/
def scientific (cs : List Char) (point : Int) : List Char :=
  let exponent := point - 1
  let power := Nat.toDigits 10 exponent.natAbs
  let places := cs.drop 1
  cs.take 1 ++ (if places.isEmpty then [] else '.' :: places) ++
    ['e', if exponent < 0 then '-' else '+'] ++
    (if power.length < 2 then '0' :: power else power)

/-- The text of a double: the fewest digits that read back. -/
def text : Double → List Char
  | nan => ['n', 'a', 'n']
  | infinite negative => (if negative then ['-'] else []) ++ ['i', 'n', 'f']
  | finite negative mantissa power =>
    let body :=
      if mantissa = 0 then ['0', '.', '0']
      else
        let d := shortest mantissa power
        let all := Nat.toDigits 10 d.digits
        let point := (all.length : Int) + d.exponent
        let cs := trimZeros all
        if isPositional point then positional cs point else scientific cs point
    (if negative then ['-'] else []) ++ body

end DirectiveFences.Double
