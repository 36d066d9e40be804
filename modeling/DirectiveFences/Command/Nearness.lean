/-
How near two words are to each other.

The longest run of characters that two words share is counted, then the longest
shared runs to its left and to its right, and so on; the share of counted
characters in both words says how near they are.
-/
namespace DirectiveFences.Command

/-- The length of the common beginning of two words. -/
def commonLength : List Char → List Char → Nat
  | a :: as, b :: bs => if a = b then commonLength as bs + 1 else 0
  | _, _ => 0

/-- A run that two words share: where it begins in each, and how long it is. -/
structure SharedRun where
  left : Nat
  right : Nat
  length : Nat

/-- The longest shared run that begins at a place in the first word; of equally long ones the first. -/
def longestFrom (left : Nat) (as bs : List Char) : SharedRun :=
  (List.range bs.length).foldl (fun best right =>
    let length := commonLength as (bs.drop right)
    if length > best.length then ⟨left, right, length⟩ else best) ⟨left, 0, 0⟩

/-- The longest shared run of two words; of equally long ones the first. -/
def longestRun (as bs : List Char) : SharedRun :=
  (List.range as.length).foldl (fun best left =>
    let run := longestFrom left (as.drop left) bs
    if run.length > best.length then run else best) ⟨0, 0, 0⟩

/-- The number of characters that are counted; `fuel` bounds the runs. -/
def sharedLength : Nat → List Char → List Char → Nat
  | 0, _, _ => 0
  | fuel + 1, as, bs =>
    let run := longestRun as bs
    if run.length = 0 then 0
    else
      sharedLength fuel (as.take run.left) (bs.take run.right) + run.length +
        sharedLength fuel (as.drop (run.left + run.length)) (bs.drop (run.right + run.length))

/-- The words of a list that are nearest to a word, at most three: their share is three fifths at
least. -/
def nearest (word : String) (words : List String) : List String :=
  let scored := words.filterMap fun w =>
    let total := w.length + word.length
    let shared := 2 * sharedLength (w.length + 1) w.toList word.toList
    if 5 * shared ≥ 3 * total then some (shared, total, w) else none
  let before := fun (a b : Nat × Nat × String) =>
    if a.1 * b.2.1 = b.1 * a.2.1 then b.2.2 ≤ a.2.2 else a.1 * b.2.1 > b.1 * a.2.1
  ((scored.mergeSort (fun a b => before a b)).take 3).map (·.2.2)

end DirectiveFences.Command
