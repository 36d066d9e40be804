/-
The stages of the conversion of a text.

A text is converted to directive syntax, or restored from it, or both with a
formatter between.  Only a formatter turns math and shortcode directives back, so
the round trip needs one.
-/
import DirectiveFences.Directive.Restore
import DirectiveFences.Log

namespace DirectiveFences

/-- The part of the conversion that is wanted. -/
inductive Stage
  | preprocess
  | postprocess
  | roundtrip
deriving DecidableEq, Repr

/-- A step between conversion and restoring that knows directive syntax. -/
abbrev Formatter := List Char → List Char

/-- Why a stage cannot run. -/
inductive StageError
  /-- There is no stage of this name. -/
  | unknown (name : String)
  /-- The round trip has no formatter. -/
  | formatterMissing
deriving DecidableEq, Repr

def StageError.message : StageError → String
  | unknown name => String.ofList (Text.quoted name.toList) ++ " is not a valid Stage"
  | formatterMissing =>
    "The roundtrip stage needs a formatter; without one, math and shortcode " ++
      "directives would be written back as directive syntax"

namespace Stage

def name : Stage → String
  | preprocess => "preprocess"
  | postprocess => "postprocess"
  | roundtrip => "roundtrip"

/-- The stage of a name. -/
def ofName (name : String) : Except StageError Stage :=
  match [preprocess, postprocess, roundtrip].find? (·.name == name) with
  | some s => .ok s
  | none => .error (.unknown name)

/-- The text in directive syntax. -/
def convert (toggles : Toggles) (text : List Char) : List Char :=
  Convert.text toggles (Scan.ranges text).toArray text

/-- What is logged while a text is converted: the scan's records come first. -/
def convertLog (toggles : Toggles) (text : List Char) : List Log.Record :=
  (Scan.lost text).map .lostSpan ++
    (Convert.notes toggles (Scan.ranges text).toArray text).map .imbalance

/-- Run a stage over a text. -/
def run (stage : Stage) (toggles : Toggles) (formatter : Option Formatter) (text : List Char) :
    Except StageError (List Char) :=
  match stage, formatter with
  | roundtrip, none => .error .formatterMissing
  | roundtrip, some format => .ok (Restore.text (format (convert toggles text)))
  | postprocess, _ => .ok (Restore.text text)
  | preprocess, _ => .ok (convert toggles text)

/-- What a stage logs. -/
def log (stage : Stage) (toggles : Toggles) (text : List Char) : List Log.Record :=
  match stage with
  | postprocess => []
  | preprocess | roundtrip => convertLog toggles text

end Stage

end DirectiveFences
