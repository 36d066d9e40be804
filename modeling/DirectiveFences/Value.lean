/-
Values of settings: what a configuration file or a caller may give for one.

A table keeps its entries in the order in which they were defined, and each key
has one entry (`Table.put`).
-/
import DirectiveFences.Decimal.Double
import DirectiveFences.Moment

namespace DirectiveFences

/-- A value of any kind. -/
inductive Value
  | null
  | bool (b : Bool)
  | int (n : Int)
  | float (x : Double)
  | text (s : String)
  | moment (m : Moment)
  | array (items : List Value)
  | table (entries : List (String × Value))
deriving Repr, Inhabited

/-- The entries of a table, in order of definition. -/
abbrev Table := List (String × Value)

/-- Give a key a value: in its place if the key is there, else at the end. -/
def Table.put : Table → String → Value → Table
  | [], key, v => [(key, v)]
  | (k, w) :: rest, key, v =>
    if k = key then (k, v) :: rest else (k, w) :: Table.put rest key v

/-- The table of a list of entries: of two entries of one key the later counts. -/
def Table.ofEntries (entries : List (String × Value)) : Table :=
  entries.foldl (fun t e => t.put e.1 e.2) []

namespace Value

/-! ## Comparing values -/

mutual

/-- Whether two values are the same. -/
def same : Value → Value → Bool
  | null, null => true
  | bool a, bool b => a == b
  | int a, int b => a == b
  | float a, float b => a == b
  | text a, text b => a == b
  | moment a, moment b => a == b
  | array as, array bs => sameItems as bs
  | table as, table bs => sameEntries as bs
  | _, _ => false

def sameItems : List Value → List Value → Bool
  | [], [] => true
  | a :: as, b :: bs => same a b && sameItems as bs
  | _, _ => false

def sameEntries : List (String × Value) → List (String × Value) → Bool
  | [], [] => true
  | (k, a) :: as, (l, b) :: bs => k == l && same a b && sameEntries as bs
  | _, _ => false

end

mutual

theorem same_iff (a b : Value) : same a b = true ↔ a = b := by
  cases a with
  | array as =>
      cases b with
      | array bs => rw [same, sameItems_iff, array.injEq]
      | _ => simp [same]
  | table as =>
      cases b with
      | table bs => rw [same, sameEntries_iff, table.injEq]
      | _ => simp [same]
  | _ => cases b <;> simp [same]

theorem sameItems_iff (as bs : List Value) : sameItems as bs = true ↔ as = bs := by
  cases as with
  | nil => cases bs <;> simp [sameItems]
  | cons a as =>
      cases bs with
      | nil => simp [sameItems]
      | cons b bs =>
          rw [sameItems, Bool.and_eq_true, same_iff a b, sameItems_iff as bs, List.cons.injEq]

theorem sameEntries_iff (as bs : List (String × Value)) : sameEntries as bs = true ↔ as = bs := by
  cases as with
  | nil => cases bs <;> simp [sameEntries]
  | cons e as =>
      cases bs with
      | nil => simp [sameEntries]
      | cons f bs =>
          obtain ⟨k, a⟩ := e
          obtain ⟨l, b⟩ := f
          rw [sameEntries, Bool.and_eq_true, Bool.and_eq_true, beq_iff_eq, same_iff a b,
            sameEntries_iff as bs, List.cons.injEq, Prod.mk.injEq]

end

instance : DecidableEq Value := fun a b => decidable_of_iff _ (same_iff a b)

/-! ## Looking values up -/

/-- The value at the end of a path of keys. -/
def at? : Value → List String → Option Value
  | v, [] => some v
  | table entries, key :: path =>
    match entries.lookup key with
    | some v => v.at? path
    | none => none
  | _, _ :: _ => none

/-- Whether a value counts as true: all but null, false, zeros and what is empty. -/
def truth : Value → Bool
  | null => false
  | bool b => b
  | int n => n != 0
  | float x => !x.isZero
  | text s => s != ""
  | moment _ => true
  | array items => !items.isEmpty
  | table entries => !entries.isEmpty

/-- The value, unless it is null. -/
def given? : Value → Option Value
  | null => none
  | v => some v

end Value

end DirectiveFences
