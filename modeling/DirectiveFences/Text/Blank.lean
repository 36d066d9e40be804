/-
Blank characters, and cutting them off at the ends of a text.

A character is blank when it separates words: the separators and controls of
Unicode's white space, and the four information separators U+001C to U+001F.
The narrower class of spaces and tabs (`isSpace`) is the only one that counts
as indentation.
-/
namespace DirectiveFences.Text

/-- A character that separates words. -/
def isBlank (c : Char) : Bool :=
  let n := c.toNat
  (0x9 ≤ n && n ≤ 0xD) || (0x1C ≤ n && n ≤ 0x20) || n == 0x85 || n == 0xA0 || n == 0x1680 ||
    (0x2000 ≤ n && n ≤ 0x200A) || n == 0x2028 || n == 0x2029 || n == 0x202F || n == 0x205F ||
    n == 0x3000

/-- A space or a tab: the characters that make up indentation. -/
def isSpace (c : Char) : Bool :=
  c == ' ' || c == '\t'

/-- The text without the blank characters at its front. -/
def stripFront (cs : List Char) : List Char :=
  cs.dropWhile isBlank

/-- The text without the blank characters at its end. -/
def stripBack (cs : List Char) : List Char :=
  (cs.reverse.dropWhile isBlank).reverse

/-- The text without the blank characters at both ends. -/
def strip (cs : List Char) : List Char :=
  stripBack (stripFront cs)

theorem isBlank_of_isSpace {c : Char} (h : isSpace c = true) : isBlank c = true := by
  rcases (by simpa [isSpace] using h) with h | h <;> subst h <;> decide

end DirectiveFences.Text
