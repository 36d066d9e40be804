/-
Replacing the occurrences of one text in another.
-/
namespace DirectiveFences.Text

/-- Replace every occurrence of `old`, from left to right and without overlap; `hold` characters
belong to an occurrence that is replaced already. -/
def substituteFrom (old new : List Char) : Nat → List Char → List Char
  | _, [] => []
  | hold + 1, _ :: cs => substituteFrom old new hold cs
  | 0, c :: cs =>
    if old.isPrefixOf (c :: cs) then new ++ substituteFrom old new (old.length - 1) cs
    else c :: substituteFrom old new 0 cs

/-- Replace every occurrence of `old` by `new`.  The empty text occurs before every character and at
the end. -/
def substitute (old new : List Char) (cs : List Char) : List Char :=
  if old.isEmpty then cs.flatMap (fun c => new ++ [c]) ++ new else substituteFrom old new 0 cs

end DirectiveFences.Text
