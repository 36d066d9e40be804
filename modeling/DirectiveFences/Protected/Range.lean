/-
Ranges of a text that must stay as they are, and whether an offset lies in one.

The ranges of a document are sorted and do not overlap, so the only one that can
hold an offset is the last that starts at or before it; `isProtected` finds that
one by bisection.
-/
namespace DirectiveFences

/-- The offsets from `start` up to, but not including, `stop`. -/
structure Range where
  start : Nat
  stop : Nat
deriving DecidableEq, Repr

namespace Range

/-- Whether the range holds an offset. -/
def holds (r : Range) (offset : Int) : Bool :=
  r.start ≤ offset && offset < r.stop

/-- Ranges in the order of their starts, and of their ends where the starts are equal. -/
def le (r s : Range) : Bool :=
  r.start < s.start || (r.start == s.start && r.stop ≤ s.stop)

/-- Bisection between `lo` and `hi` for the first range that starts after the offset. -/
def firstAfter (ranges : Array Range) (offset : Int) : Nat → Nat → Nat → Nat
  | 0, lo, _ => lo
  | fuel + 1, lo, hi =>
    if lo < hi then
      let mid := (lo + hi) / 2
      match ranges[mid]? with
      | none => lo
      | some r =>
        if offset < r.start then firstAfter ranges offset fuel lo mid
        else firstAfter ranges offset fuel (mid + 1) hi
    else lo

/-- Whether an offset lies in the last range that starts at or before it. -/
def isProtected (ranges : Array Range) (offset : Int) : Bool :=
  match firstAfter ranges offset (ranges.size + 1) 0 ranges.size with
  | 0 => false
  | last + 1 =>
    match ranges[last]? with
    | none => false
    | some r => r.holds offset

end Range

end DirectiveFences
