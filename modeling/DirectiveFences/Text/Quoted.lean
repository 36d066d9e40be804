/-
Quoted texts, as messages show them.

A quoted text stands between single quotes, or between double quotes when it
holds a single quote and no double one.  Inside, the backslash and the chosen
quote follow a backslash; tab, line feed and carriage return are `\t`, `\n` and
`\r`; every other character that is not printable is its code point in two,
four or eight hexadecimal digits.
-/
import DirectiveFences.Text.Printable

namespace DirectiveFences.Text

/-- The last `width` hexadecimal digits of a number. -/
def hexDigits : Nat → Nat → List Char
  | 0, _ => []
  | width + 1, n => hexDigits width (n / 16) ++ [Nat.digitChar (n % 16)]

/-- A character as its code point, in the shortest of the three forms that holds it. -/
def escapeCode (c : Char) : List Char :=
  let n := c.toNat
  if n < 0x100 then '\\' :: 'x' :: hexDigits 2 n
  else if n < 0x10000 then '\\' :: 'u' :: hexDigits 4 n
  else '\\' :: 'U' :: hexDigits 8 n

/-- A character between quotes. -/
def quoteChar (quote c : Char) : List Char :=
  if c = quote || c = '\\' then ['\\', c]
  else if c = '\t' then ['\\', 't']
  else if c = '\n' then ['\\', 'n']
  else if c = '\r' then ['\\', 'r']
  else if isPrintable c then [c]
  else escapeCode c

/-- The quote that a text is put between. -/
def quoteFor (cs : List Char) : Char :=
  if '\'' ∈ cs ∧ '"' ∉ cs then '"' else '\''

/-- The text between quotes. -/
def quoted (cs : List Char) : List Char :=
  quoteFor cs :: (cs.flatMap (quoteChar (quoteFor cs)) ++ [quoteFor cs])

end DirectiveFences.Text
