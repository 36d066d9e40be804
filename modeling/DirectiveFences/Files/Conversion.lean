/-
Converting a document: the size limit, the settings, the formatter, and the file
are asked in this order, and the first that is wrong is told.
-/
import DirectiveFences.Decimal.Shortest
import DirectiveFences.Files.Guard
import DirectiveFences.Files.SizeLimit
import DirectiveFences.Stage
import DirectiveFences.Text.Substitute

namespace DirectiveFences.Files

/-- Why a document is not converted. -/
inductive DocumentError
  | sizeLimit (e : SizeLimitError)
  | settings (e : SettingsError)
  | stage (e : StageError)
  | undecodable (path : Path) (e : Text.Utf8.DecodeError)
  | file (e : GuardError)
deriving DecidableEq, Repr

def DocumentError.message : DocumentError → String
  | sizeLimit e => e.message
  | settings e => e.message
  | stage e => e.message
  | undecodable path e => "Invalid UTF-8 sequence in " ++ path.text ++ ": " ++ e.message
  | file e => e.message

/-- A failed reading of a document. -/
def DocumentError.ofGuard (path : Path) : GuardError → DocumentError
  | .undecodable e => .undecodable path e
  | e => .file e

/-- A converted document: its text, the guard that has read it, and what was logged. -/
structure Converted where
  text : List Char
  guard : Guard
  log : List Log.Record

/-- The name of a dialect in the log.  An array or a table cannot be looked up as one. -/
def dialectName : Value → String
  | .null => "None"
  | .bool b => if b then "True" else "False"
  | .int n => toString n
  | .float x => String.ofList x.text
  | .text name => name
  | .moment m => String.ofList (Text.substitute ['T'] [' '] m.text.toList)
  | .array _ | .table _ => ""

/-- What is asked before a document is looked at. -/
def admits (stage : Stage) (settings : Settings) (formatter : Option Formatter) :
    Except DocumentError Unit :=
  match settings.check with
  | .error e => .error (.settings e)
  | .ok () =>
    if stage = .roundtrip ∧ formatter.isNone then .error (.stage .formatterMissing) else .ok ()

/-- Read a guarded document and run a stage over it. -/
def Guard.convert (g : Guard) (s : Disk) (fault : Option Fault) (stage : Stage)
    (settings : Settings) (formatter : Option Formatter) : Except DocumentError Converted :=
  match admits stage settings formatter with
  | .error e => .error e
  | .ok () =>
    match g.read s fault with
    | .error e => .error (.ofGuard g.path e)
    | .ok (text, g) =>
      match stage.run settings.toggles formatter text with
      | .error e => .error (.stage e)
      | .ok converted =>
        .ok
          { text := converted
            guard := g
            log := .running stage.name g.path.text (dialectName settings.dialect) ::
              stage.log settings.toggles text }

/-- The limit of settings that were checked. -/
def limitIn (settings : Settings) : Int :=
  match settings.maxSize with
  | .int n => n
  | _ => defaultMaxSize

/-- Convert the document at a path.  The limit that the environment gives counts before that of the
settings. -/
def convertFile (s : Disk) (fault : Option Fault) (limit : Option String) (path : Path)
    (stage : Stage) (settings : Settings) (formatter : Option Formatter) :
    Except DocumentError (List Char) :=
  match sizeLimit limit (limitIn settings) with
  | .error e => .error (.sizeLimit e)
  | .ok maxSize =>
    (({ path, maxSize } : Guard).convert s fault stage settings formatter).map (·.text)

/-- Convert the document at what is given as a path.  What is asked before the document is looked at is
asked of every path. -/
def convertGiven (s : Disk) (fault : Option Fault) (limit : Option String) (given : GivenPath)
    (stage : Stage) (settings : Settings) (formatter : Option Formatter) :
    Except (GivenError DocumentError) (List Char) :=
  match sizeLimit limit (limitIn settings), admits stage settings formatter with
  | .error e, _ => .error (.failed (.sizeLimit e))
  | .ok _, .error e => .error (.failed e)
  | .ok _, .ok () =>
    given.ask fun path => convertFile s fault limit path stage settings formatter

/-- Whether a failure is told as one of the conversion.  What is no path breaks it off. -/
def GivenError.isTold : GivenError DocumentError → Bool
  | .unencodable _ | .failed (.file .embeddedNull) => false
  | .failed _ => true

end DirectiveFences.Files
