/-
A tree of files: what stands at each place.

A place is the list of names from the root down.  A directory is there in its own
right, so the entries of a tree are a list of places, each with a directory, a
symbolic link or a file; the root is always a directory.  Names are texts, and
the bits that a file has deny nobody anything.
-/
namespace DirectiveFences.Files

/-- The names from the root down. -/
abbrev Place := List String

/-- A file.  Two files are the same one if they have the same inode: the number stands for the device
and the number on it together, which are only ever compared as a pair. -/
structure File where
  inode : Nat
  /-- The twelve permission bits. -/
  mode : Nat
  /-- When the content changed last, in nanoseconds. -/
  time : Int
  bytes : List UInt8
deriving DecidableEq, Repr

/-- What may stand at a place. -/
inductive Node
  | directory
  | link (target : String)
  | file (f : File)
deriving DecidableEq, Repr

/-- What stands where. -/
structure Tree where
  entries : List (Place × Node) := []
deriving DecidableEq, Repr

namespace Tree

/-- What stands at a place. -/
def get? (t : Tree) : Place → Option Node
  | [] => some .directory
  | place => t.entries.lookup place

/-- Take away what stands at a place. -/
def erase (t : Tree) (place : Place) : Tree :=
  ⟨t.entries.filter (·.1 != place)⟩

/-- Put something at a place, instead of what stood there. -/
def set (t : Tree) (place : Place) (node : Node) : Tree :=
  ⟨(place, node) :: t.entries.filter (·.1 != place)⟩

/-- Take away a place and all below it. -/
def prune (t : Tree) (place : Place) : Tree :=
  ⟨t.entries.filter (!place.isPrefixOf ·.1)⟩

theorem lookup_filter_ne (es : List (Place × Node)) (place q : Place) :
    (es.filter (·.1 != place)).lookup q = if q = place then none else es.lookup q := by
  have ne {a b : Place} (h : a ≠ b) : (a == b) = false := beq_eq_false_iff_ne.2 h
  induction es with
  | nil => simp
  | cons e es ih =>
    obtain ⟨p, n⟩ := e
    by_cases hp : p = place
    · subst hp
      have hf : ((p, n) :: es).filter (·.1 != p) = es.filter (·.1 != p) := by simp
      rw [hf, ih]
      by_cases hq : q = p <;> simp [hq, ne, List.lookup_cons]
    · have hf : ((p, n) :: es).filter (·.1 != place) = (p, n) :: es.filter (·.1 != place) := by
        simp [hp]
      rw [hf, List.lookup_cons, ih, List.lookup_cons]
      by_cases hq : q = p
      · subst hq
        simp [hp]
      · simp [ne hq]

/-- What is taken away is gone, and all else stays. -/
theorem get?_erase (t : Tree) (place q : Place) (h : q ≠ []) :
    (t.erase place).get? q = if q = place then none else t.get? q := by
  cases q with
  | nil => exact absurd rfl h
  | cons a q => simp [get?, erase, lookup_filter_ne]

/-- What is put is there, and all else stays. -/
theorem get?_set (t : Tree) (place : Place) (node : Node) (q : Place) (h : q ≠ []) :
    (t.set place node).get? q = if q = place then some node else t.get? q := by
  cases q with
  | nil => exact absurd rfl h
  | cons a q =>
    by_cases hq : a :: q = place
    · simp [get?, set, hq]
    · simp [get?, set, hq, List.lookup_cons, lookup_filter_ne, beq_eq_false_iff_ne.2 hq]

end Tree

end DirectiveFences.Files
