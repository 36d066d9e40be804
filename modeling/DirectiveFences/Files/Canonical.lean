/-
The canonical form of a path: absolute, and without links and `..`.

The names of a path are taken one by one, `..` by taking the last name off again,
and a name that is a link by reading the names of its target first.  A strict
reading fails where nothing is there; a lenient one takes what cannot be looked at
as it is written.  A link that leads back to itself ends a lenient reading: what
remains of the path, and of each target on the way, is joined as it is written.

The target of a link is read inside the reading of the path, and the process has
room for so many readings inside each other (`Disk.linkRoom`).
-/
import DirectiveFences.Files.Disk

namespace DirectiveFences.Files

/-- Why a path has no canonical form. -/
inductive CanonicalError
  | call (e : CallError)
  /-- A link leads back to itself; it is named unless the failure was a call that named none. -/
  | loop (path : Option String)
  /-- Too many links lie inside each other. -/
  | tooDeep
deriving DecidableEq, Repr

def loopMessage (path : Option String) : String :=
  "Symlink loop from " ++
    match path with
    | none => "None"
    | some path => String.ofList (Text.quoted path.toList)

def tooDeepMessage : String := "maximum recursion depth exceeded"

namespace Path

/-- The path one step up: the last name is taken off, and above the names of a relative path there is
another `..`. -/
def up (p : Path) : Path :=
  match p.root, p.parts.getLast? with
  | .none, none | .none, some ".." => p.child ".."
  | _, _ => p.parent

/-- The names of a path with every `..` taking the name before it off. -/
def collapse (names : List String) : List String :=
  names.foldl (fun done name => if name = ".." then done.dropLast else done ++ [name]) []

/-- The absolute path of a path that is read from a working directory. -/
def absolute (p : Path) (cwd : Place) : Path :=
  match p.root with
  | .none => ⟨.slash, collapse (cwd ++ p.parts)⟩
  | root => ⟨root, collapse p.parts⟩

/-- The path continued by what remains of another one; what begins with a slash begins anew. -/
def continued (p : Path) (names : List String) : Path :=
  let rest := parse ("/".intercalate names)
  if rest.root = .none then { p with parts := p.parts ++ rest.parts } else rest

end Path

/-- The links met so far, with the path that each leads to once that is known. -/
abbrev Met := List (String × Option Path)

/-- How a reading of names ends. -/
inductive Reading
  | done (path : Path) (met : Met)
  /-- A link leads back to itself; what remains is joined to it. -/
  | stuck (path : Path)
  | fails (e : CanonicalError)
deriving Repr

/-- What is known of a name: the target if it is a link.  A lenient reading takes what cannot be looked
at for something that is no link. -/
def linkTarget? (s : Disk) (fault : Option Fault) (strict : Bool) (path : String) :
    Except CallError (Option String) :=
  match s.lstat fault path (if strict then .locating else .searching) with
  | .ok (_, .link target) => .ok (some target)
  | .ok _ => .ok none
  | .error .embeddedNull => .error .embeddedNull
  | .error e => if strict then .error e else .ok none

/-- The failure of following a link that leads back to itself.  Where the system follows it all the
same, so would the reading, for ever. -/
def loopError (s : Disk) (fault : Option Fault) (link : String) : CanonicalError :=
  match s.stat link fault with
  | .error e => .call e
  | .ok _ => .tooDeep

/-- The path from which the target of a link is read. -/
def targetStart (path : Path) (target : String) : Path :=
  if target.toList.head? = some '/' then ⟨.slash, []⟩ else path

/-- Read names one by one.  The names of the target of a link that was not met before are read by
`follow`. -/
def readNames (s : Disk) (fault : Option Fault) (strict : Bool)
    (follow : Path → Met → List String → Reading) : Path → Met → List String → Reading
  | path, met, [] => .done path met
  | path, met, name :: names =>
    if !isPart name then readNames s fault strict follow path met names
    else if name = ".." then readNames s fault strict follow path.up met names
    else
      let next := path.child name
      match linkTarget? s fault strict next.text with
      | .error e => .fails (.call e)
      | .ok none => readNames s fault strict follow next met names
      | .ok (some target) =>
        match met.lookup next.text with
        | some (some known) => readNames s fault strict follow known met names
        | some none =>
          if strict then .fails (loopError s fault next.text) else .stuck (next.continued names)
        | none =>
          match follow (targetStart path target) ((next.text, none) :: met) (namesOf target) with
          | .done found met =>
            readNames s fault strict follow found ((next.text, some found) :: met) names
          | .stuck found => .stuck (found.continued names)
          | .fails e => .fails e

/-- Read names with room for so many links inside each other. -/
def readWithin (s : Disk) (fault : Option Fault) (strict : Bool) :
    Nat → Path → Met → List String → Reading
  | 0 => readNames s fault strict fun _ _ _ => .fails .tooDeep
  | room + 1 => readNames s fault strict (readWithin s fault strict room)

/-- The canonical form of a path. -/
def canonical (s : Disk) (fault : Option Fault) (strict : Bool) (path : Path) :
    Except CanonicalError Path :=
  let start : Path := if path.root = .none then ⟨.none, []⟩ else ⟨.slash, []⟩
  match readWithin s fault strict s.linkRoom start [] path.parts with
  | .fails (.call (.system ⟨.tooManyLinks, link⟩)) => .error (.loop link)
  | .fails e => .error e
  | .done found _ | .stuck found =>
    let found := found.absolute s.cwd
    if strict then .ok found
    else
      match s.stat found.text fault .searching with
      | .error (.system ⟨.tooManyLinks, _⟩) => .error (.loop (some found.text))
      | _ => .ok found

end DirectiveFences.Files
