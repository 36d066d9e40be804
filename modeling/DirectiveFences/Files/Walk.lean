/-
Walking along a path.

A walk begins at a directory and takes the names one by one: `..` leads to the
directory above, a symbolic link is replaced by the names of its target, and a
file ends the walk.  A leg is the part of a walk up to the first link that has to
be followed; forty links are followed in all.
-/
import DirectiveFences.Files.Errno
import DirectiveFences.Files.Path
import DirectiveFences.Files.Tree

namespace DirectiveFences.Files

/-- The longest name of an entry, in bytes. -/
def longestName : Nat := 255

/-- The length in bytes from which on a path is too long. -/
def pathLimit : Nat := 4096

/-- The most links that are followed on one walk. -/
def linkLimit : Nat := 40

/-- How a leg ends. -/
inductive Leg
  /-- The names are used up at something that is there. -/
  | arrives (place : Place) (node : Node)
  /-- Only the last name is not there. -/
  | misses (place : Place)
  /-- A link in `dir` must be followed before the remaining names. -/
  | follows (dir : Place) (target : String) (names : List String)
  | fails (e : Errno)
deriving DecidableEq, Repr

/-- Walk from a directory up to the next link.  A link that is the last name is followed if
`followLast` holds. -/
def Tree.leg (t : Tree) (followLast : Bool) (dir : Place) : List String → Leg
  | [] => .arrives dir .directory
  | name :: names =>
    if !isPart name then t.leg followLast dir names
    else if name = ".." then t.leg followLast dir.dropLast names
    else if name.utf8ByteSize > longestName then .fails .nameTooLong
    else
      match t.get? (dir ++ [name]) with
      | none => if names.isEmpty then .misses (dir ++ [name]) else .fails .notFound
      | some .directory => t.leg followLast (dir ++ [name]) names
      | some (.file f) =>
        if names.isEmpty then .arrives (dir ++ [name]) (.file f) else .fails .notDirectory
      | some (.link target) =>
        if names.isEmpty && !followLast then .arrives (dir ++ [name]) (.link target)
        else .follows dir target names

/-- Where a walk ends: at something, or where something could be put. -/
inductive Spot
  | taken (place : Place) (node : Node)
  | free (place : Place)
deriving DecidableEq, Repr

/-- The directory at which a walk along a text begins. -/
def startOf (dir : Place) (text : String) : Place :=
  if text.toList.head? = some '/' then [] else dir

/-- Walk along names, following at most `links` links. -/
def Tree.walk (t : Tree) (followLast : Bool) : Nat → Place → List String → Except Errno Spot
  | links, dir, names =>
    match t.leg followLast dir names with
    | .arrives place node => .ok (.taken place node)
    | .misses place => .ok (.free place)
    | .fails e => .error e
    | .follows dir target rest =>
      match links with
      | 0 => .error .tooManyLinks
      | links + 1 => t.walk followLast links (startOf dir target) (namesOf target ++ rest)

/-- Walk along a path as it is written, from the working directory. -/
def Tree.find (t : Tree) (followLast : Bool) (cwd : Place) (path : String) :
    Except CallError Spot :=
  if '\x00' ∈ path.toList then .error .embeddedNull
  else if path = "" then .error (.system ⟨.notFound, some path⟩)
  else if path.utf8ByteSize ≥ pathLimit then .error (.system ⟨.nameTooLong, some path⟩)
  else
    match t.walk followLast linkLimit (startOf cwd path) (namesOf path) with
    | .ok spot => .ok spot
    | .error e => .error (.system ⟨e, some path⟩)

/-- What stands at the end of a path. -/
def Tree.look (t : Tree) (followLast : Bool) (cwd : Place) (path : String) :
    Except CallError (Place × Node) :=
  match t.find followLast cwd path with
  | .ok (.taken place node) => .ok (place, node)
  | .ok (.free _) => .error (.system ⟨.notFound, some path⟩)
  | .error e => .error e

end DirectiveFences.Files
