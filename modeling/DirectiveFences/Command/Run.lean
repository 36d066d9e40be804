/-
The command: convert one document, and print the result or put it in the place of
the document.

The steps are made in order, and the first that fails ends the run: the words of
the command line, the file's being there, the log level, the path, the settings,
the size limit, the document, and the replacement.  Only the last one changes
anything.
-/
import DirectiveFences.Command.Options
import DirectiveFences.Files.Containment
import DirectiveFences.Files.Conversion
import DirectiveFences.Settings.Sources

namespace DirectiveFences.Command

open DirectiveFences.Files

/-- What a run takes from its environment. -/
structure Environment where
  sizeLimit : Option String := none
  logLevel : Option String := none
  homes : Homes

/-- Why a run fails. -/
inductive Failure
  | usage (e : UsageError)
  /-- The argument cannot be a path at all. -/
  | argument (e : CallError)
  | logLevel (given : String)
  | path (e : PathError)
  | settings (e : Settings.BuildError)
  | sizeLimit (e : SizeLimitError)
  | document (e : DocumentError)
  | replacement (e : GuardError)

/-- How a failure is told. -/
inductive Telling
  /-- With a reminder of how the command is used. -/
  | usage
  | plain
  /-- Not by the command: it breaks off. -/
  | abort
deriving DecidableEq, Repr

/-- What a run shows. -/
structure Outcome where
  exitCode : Nat
  stdout : List Char := []
  stderr : List Char := []
  /-- What broke the run off. -/
  aborted : Option Failure := none

def programName : String := "pandoc-directives"

def programVersion : String := "0.1.0"

def usageLine : String :=
  "Usage: " ++ programName ++ " [OPTIONS] FILEPATH\n"

/-- A path is the user's to mend unless it cannot be looked at. -/
def pathTelling : PathError → Telling
  | .noHome | .inaccessible _ | .loop _ | .tooDeep => .abort
  | _ => .usage

/-- Settings are the user's to mend unless no source could be read. -/
def settingsTelling : Settings.BuildError → Telling
  | .refused _ | .load (.refused _) => .usage
  | _ => .abort

def Failure.telling : Failure → Telling
  | usage _ => .usage
  | argument _ => .abort
  | logLevel _ => .plain
  | path e => pathTelling e
  | settings e => settingsTelling e
  | sizeLimit _ | document _ | replacement _ => .plain

/-- What went wrong, in the words of the step that failed. -/
def Failure.cause : Failure → String
  | usage e => e.message
  | argument e => e.message
  | logLevel given => "Invalid value for PANDOC_DIRECTIVES_LOG_LEVEL: " ++ given
  | path e => e.message
  | settings e => e.message
  | sizeLimit e => e.message
  | document e => e.message
  | replacement e => e.message

/-- What the command says of a failure. -/
def Failure.message : Failure → String
  | path e => "Invalid value: " ++ e.message
  | settings e => "Invalid value: " ++ e.message
  | f => f.cause

/-! ## Printing -/

/-- What remains after the parameters of a terminal sequence if a letter ends them. -/
def afterSequence? : List Char → Option (List Char)
  | [] => none
  | c :: cs =>
    if c = ';' || c = '?' || c.isDigit then afterSequence? cs
    else if c.isAlpha then some cs
    else none

/-- A text without terminal sequences, since what is printed does not go to a terminal; `fuel` bounds
the characters. -/
def plainFrom : Nat → List Char → List Char
  | 0, cs => cs
  | _ + 1, [] => []
  | fuel + 1, '\x1b' :: '[' :: cs =>
    match afterSequence? cs with
    | some rest => plainFrom fuel rest
    | none => '\x1b' :: plainFrom fuel ('[' :: cs)
  | fuel + 1, c :: cs => c :: plainFrom fuel cs

def plain (cs : List Char) : List Char :=
  plainFrom cs.length cs

/-- A line of the log. -/
def logLine (r : Log.Record) : List Char :=
  (r.level.name ++ " " ++ r.logger ++ ": " ++ r.message ++ "\n").toList

/-- The lines of the records of a level at least. -/
def logLines (least : Log.Level) (records : List Log.Record) : List Char :=
  (records.filter fun r => least.rank ≤ r.level.rank).flatMap logLine

/-- What is shown of a failure, after what was shown before. -/
def Failure.outcome (f : Failure) (before : List Char) : Outcome :=
  let error := plain ("Error: " ++ f.message ++ "\n").toList
  match f.telling with
  | .usage =>
    { exitCode := 2
      stderr := before ++
        (usageLine ++ "Try '" ++ programName ++ " --help' for help.\n\n").toList ++ error }
  | .plain => { exitCode := 1, stderr := before ++ error }
  | .abort => { exitCode := 1, stderr := before, aborted := some f }

/-! ## Steps -/

/-- The levels by name; two of them have two. -/
def levelNames : List (String × Log.Level) :=
  [("CRITICAL", .critical), ("FATAL", .critical), ("ERROR", .error), ("WARN", .warning),
    ("WARNING", .warning), ("INFO", .info), ("DEBUG", .debug), ("NOTSET", .notSet)]

/-- The least level that is logged. -/
def logLevel (given : List Given) (env : Environment) : Except Failure Log.Level :=
  if switch? .debug given = some true then .ok .debug
  else if switch? .verbose given = some true then .ok .info
  else
    let name := String.ofList (Text.upper (env.logLevel.getD "WARNING").toList)
    match levelNames.lookup name with
    | some level => .ok level
    | none => .error (.logLevel name)

/-- The file of the argument is there and is no directory. -/
def checkArgument (s : Disk) (fault : Option Fault) (argument : String) : Except Failure Unit :=
  match s.stat argument fault .checking with
  | .error .embeddedNull => .error (.argument .embeddedNull)
  | .error (.system _) => .error (.usage (.missingFile argument))
  | .ok (_, .directory) => .error (.usage (.isDirectory argument))
  | .ok _ => .ok ()

/-- The one argument: the choices are checked before it, and what comes after it is refused last. -/
def argumentOf (s : Disk) (fault : Option Fault) (given : List Given) (words : List String) :
    Except Failure String := do
  if let some e := wrongChoice? given then .error (.usage e)
  match words with
  | [] => .error (.usage .missingArgument)
  | argument :: rest =>
    checkArgument s fault argument
    if rest.isEmpty then .ok argument else .error (.usage (.unexpected rest))

/-- A value for a field from a switch; null if it was not put. -/
def switchValue (p : Parameter) (given : List Given) : Value :=
  match switch? p given with
  | some b => .bool b
  | none => .null

/-- What the options say of the settings. -/
def overrides (given : List Given) : Settings.Overrides :=
  [(Field.dialect.name, ((value? .dialect given).map (Value.text ·.2)).getD .null),
    (Field.shortcodes.name, switchValue .shortcodes given),
    (Field.mathLabels.name, switchValue .mathLabels given)]

/-- The stage that the options name. -/
def stageOf (given : List Given) : Stage :=
  match value? .stage given with
  | some (_, "postprocess") => .postprocess
  | _ => .preprocess

/-- What the steps before the conversion find: the least level that is logged, the path of the
document, its settings, and its size limit. -/
structure Plan where
  level : Log.Level
  path : Path
  settings : Settings
  maxSize : Int

/-- The steps up to the conversion. -/
def plan (s : Disk) (fault : Option Fault) (env : Environment) (given : List Given)
    (words : List String) : Except Failure Plan := do
  let argument ← argumentOf s fault given words
  let level ← logLevel given env
  let path ← (documentPath s fault env.homes argument ⟨.slash, s.cwd⟩).mapError .path
  let settings ← (Settings.build s fault path.parent (overrides given)).mapError .settings
  let maxSize ← (sizeLimit env.sizeLimit (limitIn settings)).mapError .sizeLimit
  .ok { level, path, settings, maxSize }

/-- Put a converted document in the place of the one that was read. -/
def putBack (s : Disk) (fault : Option Fault) (level : Log.Level) (c : Converted) :
    Outcome × Disk :=
  let (result, s) := c.guard.replace s fault c.text
  let before := logLines level c.log ++
    (c.guard.warnings result).flatMap fun warning => plain (warning ++ "\n").toList
  match result with
  | .error e => ((Failure.replacement e).outcome before, s)
  | .ok _ =>
    ({ exitCode := 0, stderr := before ++ logLines level [.replaced c.guard.path.text] }, s)

/-- Convert the document of a plan, and print it or put it back. -/
def Plan.carryOut (p : Plan) (s : Disk) (fault : Option Fault) (given : List Given) :
    Outcome × Disk :=
  let guarded : Guard := { path := p.path, maxSize := p.maxSize }
  match guarded.convert s fault (stageOf given) p.settings none with
  | .error e => ((Failure.document e).outcome [], s)
  | .ok c =>
    if switch? .inPlace given = some true then putBack s fault p.level c
    else ({ exitCode := 0, stdout := plain c.text, stderr := logLines p.level c.log }, s)

/-- The options that end the run before anything else is looked at: the first of them counts. -/
def early? (given : List Given) : Option Outcome :=
  given.findSome? fun g =>
    match g with
    | .switched .version true =>
      some
        { exitCode := 0
          stdout := (programName ++ ", version " ++ programVersion ++ "\n").toList }
    | .switched .help true => some { exitCode := 0, stdout := usageLine.toList }
    | _ => none

/-- Run the command on the words of a command line. -/
def run (s : Disk) (fault : Option Fault) (env : Environment) (words : List String) :
    Outcome × Disk :=
  match read words with
  | .error e => ((Failure.usage e).outcome [], s)
  | .ok (given, rest) =>
    match early? given with
    | some outcome => (outcome, s)
    | none =>
      match plan s fault env given rest with
      | .error f => (f.outcome [], s)
      | .ok p => p.carryOut s fault given

end DirectiveFences.Command
