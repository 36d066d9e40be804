/-
Paths as they are written.

A path is read by its separators: empty parts and `.` say nothing and are
dropped, `..` is kept, since what it means is for the file system to say.  One
slash in front makes a path absolute; exactly two do so as well and are kept.

A path is a text, and a text is made of characters, each of which has an encoding.
What is given as a path may yet hold a surrogate without its other half
(`GivenPath.stray`); no name in a tree is meant by it, and nothing comes of it as
soon as the system is asked.
-/
namespace DirectiveFences.Files

/-- What stands in front of the first part. -/
inductive Root
  | none
  | slash
  | doubleSlash
deriving DecidableEq, Repr

def Root.text : Root → String
  | none => ""
  | slash => "/"
  | doubleSlash => "//"

/-- A written path. -/
structure Path where
  root : Root
  parts : List String
deriving DecidableEq, Repr

/-- The texts between the separators. -/
def splitNames : List Char → List (List Char)
  | [] => [[]]
  | c :: cs =>
    match splitNames cs with
    | [] => [[c]]
    | name :: names => if c = '/' then [] :: name :: names else (c :: name) :: names

/-- The names in a text, empty ones included. -/
def namesOf (text : String) : List String :=
  (splitNames text.toList).map String.ofList

/-- A part that says something. -/
def isPart (name : String) : Bool :=
  name != "" && name != "."

namespace Path

/-- What the slashes at the front of a text make of it. -/
def rootOf : List Char → Root
  | '/' :: '/' :: '/' :: _ => .slash
  | '/' :: '/' :: _ => .doubleSlash
  | '/' :: _ => .slash
  | _ => .none

/-- Read a path. -/
def parse (text : String) : Path :=
  ⟨rootOf text.toList, (namesOf text).filter isPart⟩

/-- The text of a path; a path without root and parts is `.`. -/
def text (p : Path) : String :=
  let body := "/".intercalate p.parts
  if p.root = .none ∧ p.parts = [] then "." else p.root.text ++ body

/-- The last part, if there is one. -/
def name (p : Path) : String :=
  p.parts.getLastD ""

/-- The path without its last part. -/
def parent (p : Path) : Path :=
  { p with parts := p.parts.dropLast }

/-- All paths above, the nearest first. -/
def parents (p : Path) : List Path :=
  ((List.range p.parts.length).map fun n => { p with parts := p.parts.take n }).reverse

/-- The path continued by a name. -/
def child (p : Path) (name : String) : Path :=
  { p with parts := p.parts ++ [name] }

/-- Whether the path is `base` or lies below it, part by part. -/
def isUnder (p base : Path) : Bool :=
  p.root = base.root && base.parts.isPrefixOf p.parts

/-- The end of a name from its last point on.  A point at the front of the name or at its end begins
no suffix. -/
def suffixOf (name : List Char) : List Char :=
  let back := name.reverse.takeWhile (· != '.')
  if back.isEmpty || name.length ≤ back.length + 1 then [] else '.' :: back.reverse

/-- The suffix of the last part. -/
def suffix (p : Path) : List Char :=
  suffixOf p.name.toList

end Path

/-! ## Paths as they are given -/

/-- Why a text has no encoding: from one place up to another it has surrogates without their other
halves, of which the first is named. -/
structure EncodeError where
  first : Nat
  stop : Nat
  surrogate : Fin 0x800
deriving DecidableEq, Repr

def EncodeError.message (e : EncodeError) : String :=
  let characters :=
    if e.stop = e.first + 1 then
      "character '\\u" ++ String.ofList (Nat.toDigits 16 (0xD800 + e.surrogate)) ++
        "' in position " ++ toString e.first
    else "characters in position " ++ toString e.first ++ "-" ++ toString (e.stop - 1)
  "'utf-8' codec can't encode " ++ characters ++ ": surrogates not allowed"

/-- What is given as a path. -/
inductive GivenPath
  | path (p : Path)
  /-- Not the path of anything: the first text that the system is asked about has no encoding. -/
  | stray (e : EncodeError)

/-- Why nothing comes of what is given as a path: it has no encoding, or it has one and something
else fails. -/
inductive GivenError (ε : Type)
  | unencodable (e : EncodeError)
  | failed (e : ε)
deriving DecidableEq, Repr

def GivenError.map {ε δ : Type} (f : ε → δ) : GivenError ε → GivenError δ
  | unencodable e => .unencodable e
  | failed e => .failed (f e)

/-- What comes of a path as it is given, when it comes to the system. -/
def GivenPath.ask {ε α : Type} (given : GivenPath) (f : Path → Except ε α) :
    Except (GivenError ε) α :=
  match given with
  | path p => (f p).mapError .failed
  | stray e => .error (.unencodable e)

end DirectiveFences.Files
