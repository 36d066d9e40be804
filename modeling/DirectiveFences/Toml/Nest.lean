/-
Tables inside tables, and which of them may still be opened.

A path of keys leads from the document to a table; a table that is missing on the
way is made, and an array on the way stands for its last item.  Marks say of
paths that they are closed: a frozen path and all below it never change again, a
declared path is not declared a second time.
-/
import DirectiveFences.Value

namespace DirectiveFences.Toml

/-- The keys from the document down to a value. -/
abbrev KeyPath := List String

/-- What has been said of the paths of a document. -/
structure Marks where
  /-- Paths to values that were written out as a whole. -/
  frozen : List KeyPath := []
  /-- Paths that a header has declared, or a dotted key under an earlier header. -/
  declared : List KeyPath := []
  /-- Paths that dotted keys have made under the present header. -/
  pending : List KeyPath := []

namespace Marks

/-- Whether a path or one above it is frozen. -/
def isFrozen (m : Marks) (path : KeyPath) : Bool :=
  m.frozen.any (·.isPrefixOf path)

def isDeclared (m : Marks) (path : KeyPath) : Bool :=
  m.declared.contains path

def freeze (m : Marks) (path : KeyPath) : Marks :=
  { m with frozen := path :: m.frozen }

def declare (m : Marks) (path : KeyPath) : Marks :=
  { m with declared := path :: m.declared }

/-- The next header makes the pending paths declared ones. -/
def settle (m : Marks) : Marks :=
  { m with declared := m.pending ++ m.declared, pending := [] }

/-- Take back all that was said of a path and those below it. -/
def clear (m : Marks) (path : KeyPath) : Marks :=
  { m with
    frozen := m.frozen.filter (!path.isPrefixOf ·)
    declared := m.declared.filter (!path.isPrefixOf ·) }

end Marks

/-- Change the table at the end of a path.  Where `lastItem` holds, an array on the way stands for its
last item; any other value on the way is in the way. -/
def modifyAt (lastItem : Bool) (f : Table → Option Table) : KeyPath → Table → Option Table
  | [], t => f t
  | key :: path, t =>
    match (t.lookup key).getD (.table []) with
    | .table inner => (modifyAt lastItem f path inner).map fun u => t.put key (.table u)
    | .array items =>
      match lastItem, items.getLast? with
      | true, some (.table inner) =>
        (modifyAt lastItem f path inner).map fun u =>
          t.put key (.array (items.dropLast ++ [.table u]))
      | _, _ => none
    | _ => none

/-- Enter a value under a key that is not there yet. -/
def define (key : String) (v : Value) (t : Table) : Option Table :=
  match t.lookup key with
  | some _ => none
  | none => some (t.put key v)

/-- Add an empty table to the array under a key. -/
def appendTable (key : String) (t : Table) : Option Table :=
  match t.lookup key with
  | none => some (t.put key (.array [.table []]))
  | some (.array items) => some (t.put key (.array (items ++ [.table []])))
  | some _ => none

end DirectiveFences.Toml
