/-
Settings: the dialect, its two toggles, and the greatest size of a document.

A field holds whatever a file or a caller gave for it, so settings are checked
(`Settings.check`) before they are used.  A toggle that nobody gave is taken from
the profile of the dialect (`Settings.resolved`); one that was given stays.
-/
import DirectiveFences.Directive.Convert
import DirectiveFences.Value

namespace DirectiveFences

/-- The fields of the settings. -/
inductive Field
  | dialect
  | shortcodes
  | mathLabels
  | maxSize
deriving DecidableEq, Repr

namespace Field

def name : Field → String
  | dialect => "dialect"
  | shortcodes => "enable_shortcodes"
  | mathLabels => "enable_math_labels"
  | maxSize => "max_file_size"

def all : List Field := [dialect, shortcodes, mathLabels, maxSize]

/-- The field of a name. -/
def ofName? (name : String) : Option Field :=
  all.find? (·.name == name)

/-- The field of a key in a file, where a dash may stand for an underscore. -/
def ofKey? (key : String) : Option Field :=
  ofName? (String.ofList (key.toList.map fun c => if c = '-' then '_' else c))

end Field

/-- The greatest size of a document that is read unless told otherwise, in bytes. -/
def defaultMaxSize : Int := 10 * 1024 * 1024

/-- What every field is set to. -/
structure Settings where
  dialect : Value := .text "quarto"
  shortcodes : Value := .null
  mathLabels : Value := .null
  maxSize : Value := .int defaultMaxSize
deriving DecidableEq, Repr

/-- Why settings are refused. -/
inductive SettingsError
  | unknownDialect
  | notBoolean (field : Field)
  | sizeNotInteger
  | sizeNotPositive
  /-- What a file holds under the path is no table of known fields. -/
  | invalidTable (path : List String) (file : String)
deriving DecidableEq, Repr

/-- Why a dialect cannot be looked up: only plain values can be compared with names. -/
inductive LookupError
  | array
  | table
deriving DecidableEq, Repr

/-- Why settings cannot be overridden. -/
inductive OverrideError
  /-- There is no field of this name. -/
  | unknown (name : String)
  /-- The name stands for something else already: the settings themselves, or where they are looked
  for. -/
  | taken (owner name : String)
deriving DecidableEq, Repr

def SettingsError.message : SettingsError → String
  | unknownDialect => "`dialect` must be one of: quarto, pandoc"
  | notBoolean field => "`" ++ field.name ++ "` must be a boolean"
  | sizeNotInteger => "`max_file_size` must be an integer"
  | sizeNotPositive => "`max_file_size` must be a positive integer"
  | invalidTable path file =>
    "Invalid `[" ++ ".".intercalate path ++ "]` settings in " ++ file

def LookupError.message : LookupError → String
  | array => "unhashable type: 'list'"
  | table => "unhashable type: 'dict'"

def OverrideError.message : OverrideError → String
  | unknown name => "DirectiveConfig.__init__() got an unexpected keyword argument '" ++ name ++ "'"
  | taken owner name => owner ++ "() got multiple values for argument '" ++ name ++ "'"

namespace Settings

def get (s : Settings) : Field → Value
  | .dialect => s.dialect
  | .shortcodes => s.shortcodes
  | .mathLabels => s.mathLabels
  | .maxSize => s.maxSize

def set (s : Settings) (f : Field) (v : Value) : Settings :=
  match f with
  | .dialect => { s with dialect := v }
  | .shortcodes => { s with shortcodes := v }
  | .mathLabels => { s with mathLabels := v }
  | .maxSize => { s with maxSize := v }

/-- A field has the value that was set, and the others keep theirs. -/
theorem get_set (s : Settings) (f g : Field) (v : Value) :
    (s.set f v).get g = if g = f then v else s.get g := by
  cases f <;> cases g <;> rfl

/-- The settings that a table of a file gives; none if it has an unknown key.  Of two spellings of a
field the later one counts. -/
def ofTable? (t : Table) : Option Settings :=
  t.foldlM (fun s e => (Field.ofKey? e.1).map fun f => s.set f e.2) {}

/-! ## Dialects -/

/-- The toggles that a dialect takes unless told otherwise: shortcodes and labelled math belong to one
of the two. -/
def profile? : Value → Option Toggles
  | .text "quarto" => some ⟨true, true⟩
  | .text "pandoc" => some ⟨false, false⟩
  | _ => none

/-- The settings with a truth value for each toggle that was not given; those of an unknown dialect
stay as they are. -/
def resolved (s : Settings) : Settings :=
  match profile? s.dialect with
  | none => s
  | some p =>
    { s with
      shortcodes := s.shortcodes.given?.getD (.bool p.shortcodes)
      mathLabels := s.mathLabels.given?.getD (.bool p.mathLabels) }

/-- The resolved settings, unless the dialect cannot be looked up. -/
def normalize (s : Settings) : Except LookupError Settings :=
  match s.dialect with
  | .array _ => .error .array
  | .table _ => .error .table
  | _ => .ok s.resolved

/-- The toggles that the settings select. -/
def toggles (s : Settings) : Toggles :=
  ⟨s.resolved.shortcodes.truth, s.resolved.mathLabels.truth⟩

/-! ## Checks -/

def isBool : Value → Bool
  | .bool _ => true
  | _ => false

/-- The size limit must be a positive integer. -/
def checkSize : Value → Except SettingsError Unit
  | .int n => if n ≤ 0 then .error .sizeNotPositive else .ok ()
  | _ => .error .sizeNotInteger

/-- The settings can be used: the dialect is known, the resolved toggles are truth values, and the
size is a positive integer.  What is wrong is told in this order. -/
def check (s : Settings) : Except SettingsError Unit :=
  if (profile? s.dialect).isNone then .error .unknownDialect
  else if !isBool s.resolved.shortcodes then .error (.notBoolean .shortcodes)
  else if !isBool s.resolved.mathLabels then .error (.notBoolean .mathLabels)
  else checkSize s.maxSize

/-! ## Overrides -/

/-- Values for fields by name; null leaves a field alone. -/
abbrev Overrides := List (String × Value)

/-- Names that no override may have, null or not. -/
def takenByOverride (name : String) : Option OverrideError :=
  if name = "config" then some (.taken "apply_overrides" name) else none

/-- Set one field by its name. -/
def setNamed (s : Settings) (e : String × Value) : Except OverrideError Settings :=
  if e.1 = "self" then .error (.taken "DirectiveConfig.__init__" e.1)
  else
    match Field.ofName? e.1 with
    | some f => .ok (s.set f e.2)
    | none => .error (.unknown e.1)

/-- The settings with every field that is overridden by a value other than null. -/
def override (s : Settings) (overrides : Overrides) : Except OverrideError Settings :=
  match overrides.findSome? (takenByOverride ·.1) with
  | some e => .error e
  | none =>
    (overrides.filter (·.2.given?.isSome)).foldlM setNamed s

end Settings

end DirectiveFences
