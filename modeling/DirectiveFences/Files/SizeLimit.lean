/-
The size limit that the environment gives.

The text of the limit may have blanks around it, a sign, digits of any script,
and single underscores between the digits; what it spells must be positive.
-/
import DirectiveFences.Text.Blank
import DirectiveFences.Text.DecimalDigit
import DirectiveFences.Text.Quoted

namespace DirectiveFences.Files

/-- The name of the variable. -/
def sizeLimitVariable : String := "PANDOC_DIRECTIVES_MAX_FILE_SIZE"

/-- The text spells no positive integer. -/
structure SizeLimitError where
  given : String
deriving DecidableEq, Repr

def SizeLimitError.message (e : SizeLimitError) : String :=
  sizeLimitVariable ++ " must be a positive integer, got " ++
    String.ofList (Text.quoted e.given.toList) ++ "."

/-- The most digits that are read. -/
def limitDigits : Nat := 4300

/-- A blank around a number: the information separators are none. -/
def isNumberBlank (c : Char) : Bool :=
  Text.isBlank c && !(0x1C ≤ c.toNat && c.toNat ≤ 0x1F)

/-- The values of digits with single underscores between them; `joint` says that an underscore may
stand here. -/
def digitValues? : Bool → List Char → Option (List Nat)
  | joint, [] => if joint then some [] else none
  | joint, '_' :: cs => if joint then digitValues? false cs else none
  | _, c :: cs =>
    match Text.digitValue? c with
    | some d => (digitValues? true cs).map (d :: ·)
    | none => none

/-- The number that decimal digits spell. -/
def natOfValues (ds : List Nat) : Nat :=
  ds.foldl (fun n d => n * 10 + d) 0

/-- The integer that a text spells. -/
def integer? (text : List Char) : Option Int :=
  let body := ((text.dropWhile isNumberBlank).reverse.dropWhile isNumberBlank).reverse
  let (negative, digits) :=
    match body with
    | '-' :: cs => (true, cs)
    | '+' :: cs => (false, cs)
    | cs => (false, cs)
  match digitValues? false digits with
  | none => none
  | some ds =>
    if ds.length > limitDigits then none
    else
      let n : Int := natOfValues ds
      some (if negative then -n else n)

/-- The limit that the environment gives, if it gives one. -/
def limitOf (setting : Option String) : Except SizeLimitError (Option Int) :=
  match setting with
  | none => .ok none
  | some given =>
    match integer? given.toList with
    | none => .error ⟨given⟩
    | some n => if n ≤ 0 then .error ⟨given⟩ else .ok (some n)

/-- The limit that counts: that of the environment, or else the configured one. -/
def sizeLimit (setting : Option String) (configured : Int) : Except SizeLimitError Int :=
  (limitOf setting).map (·.getD configured)

end DirectiveFences.Files
