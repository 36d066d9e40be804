/-
Texts as lists of lines.

A line ends at a line feed, which belongs to no line; so a text always has one
line more than it has line feeds, and `join (split t) = t`.  A carriage return
before the line feed is the line's ending, kept apart from its body.
-/
namespace DirectiveFences

/-- A line of a text: its body, and the carriage return that ends it, if any. -/
structure Line where
  body : List Char
  ending : List Char
deriving DecidableEq, Repr

namespace Line

/-- The line as it stands in the text. -/
def toList (l : Line) : List Char :=
  l.body ++ l.ending

/-- One carriage return at the end of a raw line is its ending. -/
def ofList (raw : List Char) : Line :=
  if raw.getLast? = some '\r' then ⟨raw.dropLast, ['\r']⟩ else ⟨raw, []⟩

theorem toList_ofList (raw : List Char) : (ofList raw).toList = raw := by
  unfold ofList toList
  split
  · rename_i h
    obtain ⟨ys, rfl⟩ := List.getLast?_eq_some_iff.1 h
    simp
  · simp

end Line

namespace Text

/-- Put a character in front of the first of a list of lines. -/
def breakBefore (c : Char) : List (List Char) → List (List Char)
  | [] => if c = '\n' then [[], []] else [[c]]
  | l :: ls => if c = '\n' then [] :: l :: ls else (c :: l) :: ls

/-- The lines of a text, without their line feeds. -/
def split (t : List Char) : List (List Char) :=
  t.foldr breakBefore [[]]

/-- The text whose lines are the given ones. -/
def join (ls : List (List Char)) : List Char :=
  List.intercalate ['\n'] ls

theorem split_ne_nil (t : List Char) : split t ≠ [] := by
  induction t with
  | nil => simp [split]
  | cons c t ih =>
    change breakBefore c (split t) ≠ []
    cases h : split t with
    | nil => exact absurd h ih
    | cons l ls => simp only [breakBefore]; split <;> simp

theorem join_breakBefore (c : Char) {ls : List (List Char)} (h : ls ≠ []) :
    join (breakBefore c ls) = c :: join ls := by
  cases ls with
  | nil => exact absurd rfl h
  | cons l ls =>
    simp only [breakBefore]
    split
    · subst_vars; cases ls <;> simp [join, List.intercalate]
    · cases ls <;> simp [join, List.intercalate]

/-- Splitting loses nothing. -/
theorem join_split (t : List Char) : join (split t) = t := by
  induction t with
  | nil => rfl
  | cons c t ih =>
    change join (breakBefore c (split t)) = c :: t
    rw [join_breakBefore c (split_ne_nil t), ih]

end Text

end DirectiveFences
