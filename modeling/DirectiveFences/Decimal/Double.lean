/-
Numbers of double precision, and the double nearest to a decimal.

A finite double is a natural number times a power of two, with a sign that zero
keeps.  The number has at most 53 bits and the power is at least 2 ^ -1074; the
form is unique because the number has all 53 bits unless the power is the least.
All of it is exact arithmetic on natural numbers.
-/
namespace DirectiveFences

/-- A number of double precision; a finite one is `mantissa * 2 ^ power`. -/
inductive Double
  | nan
  | infinite (negative : Bool)
  | finite (negative : Bool) (mantissa : Nat) (power : Int)
deriving DecidableEq, Repr

namespace Double

/-- The least power of two. -/
def leastPower : Int := -1074

/-- The greatest power of two of a finite double. -/
def greatestPower : Int := 971

/-- The quotient rounded to the nearest natural number; a half goes to the even neighbour. -/
def roundQuotient (num den : Nat) : Nat :=
  let q := num / den
  let twice := 2 * (num % den)
  if twice < den || (twice == den && q % 2 == 0) then q else q + 1

/-- The power of two that the double nearest to `num / den` is a multiple of: the quotient by it
lies between 2 ^ 52 and 2 ^ 53, unless that power is below the least. -/
def powerOf (num den : Nat) : Int :=
  let guess : Int := (Nat.log2 num : Int) - Nat.log2 den
  let reached :=
    if guess ≥ 0 then den * Nat.pow 2 guess.toNat ≤ num else den ≤ num * Nat.pow 2 (-guess).toNat
  max leastPower ((if reached then guess else guess - 1) - 52)

/-- The double nearest to a positive quotient. -/
def ofQuotient (negative : Bool) (num den : Nat) : Double :=
  let power := powerOf num den
  let mantissa :=
    if power ≥ 0 then roundQuotient num (den * Nat.pow 2 power.toNat)
    else roundQuotient (num * Nat.pow 2 (-power).toNat) den
  let (mantissa, power) :=
    if mantissa = Nat.pow 2 53 then (Nat.pow 2 52, power + 1) else (mantissa, power)
  if power > greatestPower then infinite negative else finite negative mantissa power

/-- The double nearest to `digits * 10 ^ exponent`.  What lies far outside the range of doubles is
sorted out first, so no power of ten is computed that the digits do not call for. -/
def ofDecimal (negative : Bool) (digits : Nat) (exponent : Int) : Double :=
  if digits = 0 then finite negative 0 leastPower
  else if exponent > 400 then infinite negative
  else if exponent + Nat.log2 digits < -400 then finite negative 0 leastPower
  else if exponent ≥ 0 then ofQuotient negative (digits * Nat.pow 10 exponent.toNat) 1
  else ofQuotient negative digits (Nat.pow 10 (-exponent).toNat)

/-- Whether the number is zero, of either sign. -/
def isZero : Double → Bool
  | finite _ mantissa _ => mantissa == 0
  | _ => false

/-! ## Decimal text -/

/-- The number that ASCII digits spell. -/
def natOfDigits (cs : List Char) : Nat :=
  cs.foldl (fun n c => n * 10 + (c.toNat - '0'.toNat)) 0

/-- The power of ten after a mark `e` or `E`. -/
def exponentOf : List Char → Int
  | '-' :: cs => -(natOfDigits cs : Int)
  | '+' :: cs => natOfDigits cs
  | cs => natOfDigits cs

/-- The double nearest to digits with an optional point and an optional power of ten. -/
def ofUnsigned (negative : Bool) (cs : List Char) : Double :=
  let isMark := fun c => c == 'e' || c == 'E'
  let body := cs.takeWhile (!isMark ·)
  let whole := body.takeWhile (· != '.')
  let places := (body.dropWhile (· != '.')).drop 1
  let exponent := exponentOf ((cs.dropWhile (!isMark ·)).drop 1)
  ofDecimal negative (natOfDigits (whole ++ places)) (exponent - places.length)

/-- The double that a text spells: a sign if any, then `inf`, `nan` or a decimal. -/
def ofText (cs : List Char) : Double :=
  let (negative, rest) :=
    match cs with
    | '-' :: rest => (true, rest)
    | '+' :: rest => (false, rest)
    | rest => (false, rest)
  if rest = ['i', 'n', 'f'] then infinite negative
  else if rest = ['n', 'a', 'n'] then nan
  else ofUnsigned negative rest

end Double

end DirectiveFences
