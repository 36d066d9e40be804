/-
The log: what the program tells about a run beside its result.

A record says which part of the program speaks, how grave the matter is, and
what it is about.  The texts of records are made here and nowhere else.
-/
import DirectiveFences.Directive.Convert
import DirectiveFences.Protected.Scan
import DirectiveFences.Text.Quoted

namespace DirectiveFences

namespace Log

/-- How grave a record is. -/
inductive Level
  | notSet
  | debug
  | info
  | warning
  | error
  | critical
deriving DecidableEq, Repr

/-- The number by which levels are compared. -/
def Level.rank : Level → Nat
  | notSet => 0
  | debug => 10
  | info => 20
  | warning => 30
  | error => 40
  | critical => 50

/-- The name of a level in a record. -/
def Level.name : Level → String
  | notSet => "NOTSET"
  | debug => "DEBUG"
  | info => "INFO"
  | warning => "WARNING"
  | error => "ERROR"
  | critical => "CRITICAL"

/-- What a record is about. -/
inductive Record
  /-- A code span was not found again in the source. -/
  | lostSpan (lost : Scan.Lost)
  /-- The document does not balance. -/
  | imbalance (note : Note)
  /-- A stage is about to run on a document. -/
  | running (stage path dialect : String)
  /-- A document has been replaced. -/
  | replaced (path : String)
deriving DecidableEq, Repr

namespace Record

/-- The part of the program that speaks. -/
def logger : Record → String
  | lostSpan _ => "pandoc_directives.safety"
  | imbalance _ => "pandoc_directives.preprocess"
  | running .. => "pandoc_directives.pipeline"
  | replaced _ => "pandoc_directives.cli"

def level : Record → Level
  | replaced _ => .info
  | _ => .debug

def message : Record → String
  | lostSpan l =>
    "Could not locate code span " ++ String.ofList (Text.quoted l.content) ++ " near offset " ++
      toString l.offset
  | imbalance (.unmatchedCloser offset) =>
    "Unmatched closing fence at offset " ++ toString offset
  | imbalance (.divsLeftOpen count) =>
    toString count ++ " fenced div(s) left open at end of document"
  | imbalance .mathLeftOpen => "Math block left open at end of document; emitting it unchanged"
  | running stage path dialect =>
    "Running " ++ stage ++ " stage on " ++ path ++ " (dialect: " ++ dialect ++ ")"
  | replaced path => "Rewrote " ++ path

end Record

end Log

end DirectiveFences
