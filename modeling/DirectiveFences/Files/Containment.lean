/-
Which paths are documents that may be worked on.

A path is taken only if neither it nor a path above it is a link, if a regular
file is there, if that file lies below the working directory, and if its suffix is
one of Markdown's.  Each reason for which a path is refused has its own error.
-/
import DirectiveFences.Files.Canonical
import DirectiveFences.Text.CaseMap

namespace DirectiveFences.Files

/-- Why a path is not taken. -/
inductive PathError
  | noHome
  | isLink (path : Path)
  | missing (path : Path)
  | unresolvable (path : Path) (e : SystemError)
  | notRegular (path : Path)
  | outside (path base : Path)
  | notMarkdown (path : Path)
  | embeddedNull
  /-- The path cannot even be looked at. -/
  | inaccessible (e : SystemError)
  | loop (path : Option String)
  | tooDeep
deriving DecidableEq, Repr

/-- The suffixes of Markdown documents. -/
def markdownSuffixes : List String := [".md", ".markdown", ".qmd", ".rmd"]

def PathError.message : PathError → String
  | noHome => "Could not determine home directory."
  | isLink path => "Symlinks are not supported for security reasons: " ++ path.text
  | missing path => path.text ++ " does not exist."
  | unresolvable path e => "Cannot resolve " ++ path.text ++ ": " ++ e.message
  | notRegular path => path.text ++ " is not a regular file."
  | outside path base =>
    path.text ++ " is outside of the working directory " ++ base.text ++ "."
  | notMarkdown path =>
    path.text ++ " is not a Markdown file. Supported extensions are: " ++
      ", ".intercalate markdownSuffixes
  | embeddedNull => embeddedNullMessage
  | inaccessible e => e.message
  | loop path => loopMessage path
  | tooDeep => tooDeepMessage

/-! ## Home directories -/

/-- The home directory of the user, and those of the accounts. -/
structure Homes where
  own : String
  accounts : List (String × String) := []

/-- The directory that a part with a tilde in front names. -/
def Homes.directory? (h : Homes) (part : List Char) : Except PathError (Option String) :=
  let user := part.drop 1
  if user.isEmpty then .ok (some h.own)
  else if '\x00' ∈ user then .error .embeddedNull
  else .ok (h.accounts.lookup (String.ofList user))

/-- The name of a directory without slashes at its end, or the root. -/
def trimSlashes (dir : String) : String :=
  let cs := (dir.toList.reverse.dropWhile (· == '/')).reverse
  if cs.isEmpty then "/" else String.ofList cs

/-- The path with a home directory in place of a first part that begins with a tilde. -/
def Homes.expand (h : Homes) (p : Path) : Except PathError Path :=
  match p.root, p.parts with
  | .none, first :: rest =>
    if first.toList.head? = some '~' then
      match h.directory? first.toList with
      | .error e => .error e
      | .ok none => .error .noHome
      | .ok (some dir) =>
        let dir := trimSlashes dir
        if dir.toList.head? = some '~' then .error .noHome
        else
          let home := Path.parse dir
          .ok { home with parts := home.parts ++ rest }
    else .ok p
  | _, _ => .ok p

/-! ## Checks -/

/-- A question about a path that is answered by no where nothing is there. -/
def answer (result : Except CallError (Place × Node)) (holds : Node → Bool) :
    Except PathError Bool :=
  match result with
  | .ok (_, node) => .ok (holds node)
  | .error .embeddedNull => .ok false
  | .error (.system e) => if e.errno.saysAbsent then .ok false else .error (.inaccessible e)

def Node.isLink : Node → Bool
  | link _ => true
  | _ => false

def Node.isFile : Node → Bool
  | file _ => true
  | _ => false

/-- Whether one of the paths is a link; the first that is, or that cannot be looked at, decides. -/
def anyLink (s : Disk) : List Path → Except PathError Bool
  | [] => .ok false
  | p :: ps =>
    match answer (s.lstat none p.text) Node.isLink with
    | .error e => .error e
    | .ok true => .ok true
    | .ok false => anyLink s ps

/-- The canonical form of a path, all of which must be there. -/
def existing (s : Disk) (fault : Option Fault) (path : Path) : Except PathError Path :=
  match canonical s fault true path with
  | .ok found => .ok found
  | .error (.loop link) => .error (.loop link)
  | .error .tooDeep => .error .tooDeep
  | .error (.call .embeddedNull) => .error .embeddedNull
  | .error (.call (.system e)) =>
    if e.errno = .notFound then .error (.missing path) else .error (.unresolvable path e)

/-- A suffix of Markdown, in letters of any case. -/
def isMarkdownSuffix (suffix : List Char) : Bool :=
  markdownSuffixes.contains (String.ofList (Text.lower suffix))

/-- The canonical path of a document below `base`. -/
def documentPath (s : Disk) (fault : Option Fault) (homes : Homes) (raw : String) (base : Path) :
    Except PathError Path := do
  let path ← homes.expand (Path.parse raw)
  if ← anyLink s (path :: path.parents) then .error (.isLink path)
  else
    let found ← existing s fault path
    if !(← answer (s.stat found.text fault) Node.isFile) then .error (.notRegular found)
    else if !found.isUnder base then .error (.outside found base)
    else if !isMarkdownSuffix found.suffix then .error (.notMarkdown found)
    else .ok found

end DirectiveFences.Files
