/-
Where settings come from.

From the directory where the search begins up to the root, each directory may
have two files with settings, and each file has its tables in order.  The first
file that is there, can be opened and read, and has one of its tables is the
source; what lies farther away does not count, and a source is not passed over
because what it says is wrong.
-/
import DirectiveFences.Files.Canonical
import DirectiveFences.Settings.Basic
import DirectiveFences.Text.Utf8
import DirectiveFences.Toml.Document

namespace DirectiveFences.Settings

open DirectiveFences.Files

/-- Why no settings can be found. -/
inductive LoadError
  | refused (e : SettingsError)
  | undecodable (e : Text.Utf8.DecodeError)
  /-- A document cannot be read, though it may be none the worse for it, or a path cannot: values or
  links lie too deep inside each other. -/
  | unreadable (e : Toml.Error)
  | call (e : CallError)
  | loop (path : Option String)
deriving Repr

def LoadError.message : LoadError → String
  | refused e => e.message
  | undecodable e => e.message
  | unreadable e => e.message
  | call e => e.message
  | loop path => loopMessage path

/-- A file that may hold settings, and the paths of its tables. -/
structure Candidate where
  name : String
  tables : List (List String)

/-- The files of a directory that may hold settings, in the order in which they are asked. -/
def candidates : List Candidate :=
  [⟨"pyproject.toml", [["tool", "pandoc-directives"]]⟩,
    ⟨".pandoc-directives.toml", [["pandoc-directives"], ["tool", "pandoc-directives"]]⟩]

/-- Whether a file is there. -/
def isThere (s : Disk) (fault : Option Fault) (path : String) : Except LoadError Bool :=
  match s.stat path fault .searching with
  | .ok _ => .ok true
  | .error .embeddedNull => .ok false
  | .error (.system e) => if e.errno.saysAbsent then .ok false else .error (.call (.system e))

/-- The document that the content of a file spells, with so much room for values inside each other;
none if it is malformed. -/
def documentIn (room : Nat) (bytes : List UInt8) : Except LoadError (Option Table) :=
  match Text.Utf8.decode bytes with
  | .error e => .error (.undecodable e)
  | .ok text =>
    match Toml.parse room text with
    | .ok t => .ok (some t)
    | .error .malformed => .ok none
    | .error e => .error (.unreadable e)

/-- The document in a file; none if the file is not there or cannot be opened. -/
def documentAt (s : Disk) (fault : Option Fault) (path : String) :
    Except LoadError (Option Table) := do
  if !(← isThere s fault path) then .ok none
  else
    match s.read fault path with
    | .error _ => .ok none
    | .ok bytes => documentIn s.valueRoom bytes

/-- The settings that a value spells, which was found in a file under a path of keys. -/
def ofValue (file : String) (path : List String) : Value → Except LoadError Settings
  | .table t =>
    match ofTable? t with
    | some settings => .ok settings
    | none => .error (.refused (.invalidTable path file))
  | _ => .error (.refused (.invalidTable path file))

/-- The first of the tables that a document has. -/
def tableIn? (document : Table) (tables : List (List String)) : Option (List String × Value) :=
  tables.findSome? fun path => ((Value.table document).at? path).map (path, ·)

/-- The settings of a file, if it is a source. -/
def fromFile (s : Disk) (fault : Option Fault) (file : String) (tables : List (List String)) :
    Except LoadError (Option Settings) := do
  match ← documentAt s fault file with
  | none => .ok none
  | some document =>
    match tableIn? document tables with
    | none => .ok none
    | some (path, v) => (ofValue file path v).map some

/-- The settings of the first source among some files, or the default ones. -/
def fromFirst (s : Disk) (fault : Option Fault) :
    List (String × List (List String)) → Except LoadError Settings
  | [] => .ok {}
  | (file, tables) :: files =>
    match fromFile s fault file tables with
    | .error e => .error e
    | .ok (some settings) => .ok settings
    | .ok none => fromFirst s fault files

/-- The files that are asked when the search begins at a directory, the nearest first. -/
def filesFrom (start : Path) : List (String × List (List String)) :=
  (start :: start.parents).flatMap fun dir =>
    candidates.map fun c => ((dir.child c.name).text, c.tables)

/-- The settings for documents below a directory. -/
def load (s : Disk) (fault : Option Fault) (start : Path) : Except LoadError Settings :=
  match canonical s fault false start with
  | .error (.call e) => .error (.call e)
  | .error (.loop path) => .error (.loop path)
  | .error .tooDeep => .error (.unreadable .tooDeep)
  | .ok start => fromFirst s fault (filesFrom start)

/-- The settings for documents below what is given as the path of a directory. -/
def loadGiven (s : Disk) (fault : Option Fault) (start : GivenPath) :
    Except (GivenError LoadError) Settings :=
  start.ask (load s fault)

/-! ## Building -/

/-- Why no settings can be built. -/
inductive BuildError
  | load (e : LoadError)
  | override (e : OverrideError)
  | refused (e : SettingsError)
deriving Repr

def BuildError.message : BuildError → String
  | load e => e.message
  | override e => e.message
  | refused e => e.message

/-- The name under which a caller of `build` says where the search begins. -/
def takenByBuild (overrides : Overrides) : Option OverrideError :=
  if overrides.any (·.1 == "search_path") then some (.taken "build_config" "search_path") else none

/-- The settings of the nearest source with all overrides, checked and resolved. -/
def build (s : Disk) (fault : Option Fault) (start : Path) (overrides : Overrides) :
    Except BuildError Settings :=
  match takenByBuild overrides with
  | some e => .error (.override e)
  | none =>
    match load s fault start with
    | .error e => .error (.load e)
    | .ok found =>
      match found.override overrides with
      | .error e => .error (.override e)
      | .ok settings =>
        match settings.check with
        | .error e => .error (.refused e)
        | .ok () => .ok settings.resolved

/-- The settings of the nearest source to what is given as the path of a directory. -/
def buildGiven (s : Disk) (fault : Option Fault) (start : GivenPath) (overrides : Overrides) :
    Except (GivenError BuildError) Settings :=
  match takenByBuild overrides with
  | some e => .error (.failed (.override e))
  | none => start.ask fun path => build s fault path overrides

end DirectiveFences.Settings
