/-
The command line: its options and its one argument.

Options may stand before and after the argument, up to a `--`.  A long option
takes its value after `=` or from the next word; flags of one letter may be joined.
Where an option is given again the last value counts.
-/
import DirectiveFences.Command.Nearness
import DirectiveFences.Text.Quoted

namespace DirectiveFences.Command

/-- What an option is about. -/
inductive Parameter
  | version
  | help
  | dialect
  | stage
  | shortcodes
  | mathLabels
  | inPlace
  | verbose
  | debug
deriving DecidableEq, Repr

/-- What an option asks for: a value, or one side of a switch. -/
inductive Form
  | value
  | switch (on : Bool)
deriving DecidableEq, Repr

/-- The long options. -/
def longOptions : List (String × Parameter × Form) :=
  [("--version", .version, .switch true), ("--dialect", .dialect, .value),
    ("--stage", .stage, .value), ("--shortcodes", .shortcodes, .switch true),
    ("--no-shortcodes", .shortcodes, .switch false),
    ("--math-labels", .mathLabels, .switch true), ("--no-math-labels", .mathLabels, .switch false),
    ("--in-place", .inPlace, .switch true), ("--verbose", .verbose, .switch true),
    ("--debug", .debug, .switch true), ("--help", .help, .switch true)]

/-- The flags of one letter. -/
def shortOptions : List (Char × Parameter) :=
  [('v', .verbose)]

/-- The names of dialects that may be given. -/
def dialectChoices : List String := ["quarto", "pandoc"]

/-- The names of stages that may be given: a round trip has no formatter here. -/
def stageChoices : List String := ["preprocess", "postprocess"]

/-- Why a command line is refused. -/
inductive UsageError
  | noSuchOption (name : String)
  | needsValue (name : String)
  | takesNoValue (name : String)
  | notAChoice (option given : String) (choices : List String)
  | missingArgument
  | missingFile (given : String)
  | isDirectory (given : String)
  | unexpected (arguments : List String)
deriving DecidableEq, Repr

/-- A word as messages show it. -/
def shown (word : String) : String :=
  String.ofList (Text.quoted word.toList)

/-- What is said of options that were perhaps meant; there are none for a flag of one letter. -/
def suggestion (name : String) : String :=
  if !name.startsWith "--" then ""
  else
    match nearest name (longOptions.map (·.1)) with
    | [] => ""
    | [w] => " Did you mean " ++ shown w ++ "?"
    | ws => " (Possible options: " ++ ", ".intercalate ((ws.mergeSort (· ≤ ·)).map shown) ++ ")"

def UsageError.message : UsageError → String
  | noSuchOption name => "No such option " ++ shown name ++ "." ++ suggestion name
  | needsValue name => "Option " ++ shown name ++ " requires an argument."
  | takesNoValue name => "Option " ++ shown name ++ " does not take a value."
  | notAChoice option given choices =>
    "Invalid value for '" ++ option ++ "': " ++ shown given ++ " is not one of " ++
      ", ".intercalate (choices.map shown) ++ "."
  | missingArgument => "Missing argument 'FILEPATH'."
  | missingFile given =>
    "Invalid value for 'FILEPATH': File " ++ shown given ++ " does not exist."
  | isDirectory given => "Invalid value for 'FILEPATH': File " ++ shown given ++ " is a directory."
  | unexpected arguments =>
    "Got unexpected extra argument" ++ (if arguments.length = 1 then "" else "s") ++ " (" ++
      " ".intercalate arguments ++ ")"

/-! ## Reading the words -/

/-- An option as it was given. -/
inductive Given
  | switched (p : Parameter) (on : Bool)
  | valued (p : Parameter) (name : String) (given : String)
deriving DecidableEq, Repr

/-- A word as a long option: its name, and the value after `=` if there is one. -/
def longForm (word : String) : String × Option String :=
  let cs := word.toList
  let name := cs.takeWhile (· != '=')
  (String.ofList name,
    match cs.dropWhile (· != '=') with
    | [] => none
    | _ :: v => some (String.ofList v))

/-- Letters as flags. -/
def flags : List Char → Except UsageError (List Given)
  | [] => .ok []
  | c :: cs =>
    match shortOptions.lookup c with
    | none => .error (.noSuchOption (String.ofList ['-', c]))
    | some p => (flags cs).map (.switched p true :: ·)

/-- Whether a word may be an option: a dash alone is none. -/
def isOption (word : String) : Bool :=
  word.startsWith "-" && word != "-"

/-- The options among the words in their order, and the other words. -/
def read : List String → Except UsageError (List Given × List String)
  | [] => .ok ([], [])
  | word :: words =>
    if word = "--" then .ok ([], words)
    else if !isOption word then
      (read words).map fun (given, rest) => (given, word :: rest)
    else
      let (name, attached) := longForm word
      match longOptions.lookup name, attached with
      | some (p, .value), some v =>
        (read words).map fun (given, rest) => (.valued p name v :: given, rest)
      | some (p, .value), none =>
        match words with
        | [] => .error (.needsValue name)
        | v :: words => (read words).map fun (given, rest) => (.valued p name v :: given, rest)
      | some (_, .switch _), some _ => .error (.takesNoValue name)
      | some (p, .switch on), none =>
        (read words).map fun (given, rest) => (.switched p on :: given, rest)
      | none, _ =>
        if word.startsWith "--" then .error (.noSuchOption name)
        else
          match flags (word.toList.drop 1) with
          | .error e => .error e
          | .ok fs => (read words).map fun (given, rest) => (fs ++ given, rest)

/-! ## What was chosen -/

/-- The last side to which a switch was put. -/
def switch? (p : Parameter) (given : List Given) : Option Bool :=
  given.reverse.findSome? fun g =>
    match g with
    | .switched q on => if p = q then some on else none
    | .valued .. => none

/-- The last value that was given for a parameter, with the option's name. -/
def value? (p : Parameter) (given : List Given) : Option (String × String) :=
  given.reverse.findSome? fun g =>
    match g with
    | .valued q name v => if p = q then some (name, v) else none
    | .switched .. => none

/-- The choices that a parameter with a value has. -/
def choicesOf : Parameter → List String
  | .dialect => dialectChoices
  | _ => stageChoices

/-- The first parameter, in the order of their first options, whose last value is none of its
choices. -/
def wrongChoice? (given : List Given) : Option UsageError :=
  given.findSome? fun g =>
    match g with
    | .valued p _ _ =>
      (value? p given).bind fun (name, v) =>
        if (choicesOf p).contains v then none else some (.notAChoice name v (choicesOf p))
    | .switched .. => none

end DirectiveFences.Command
