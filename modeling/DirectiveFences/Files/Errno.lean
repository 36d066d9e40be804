/-
How a call to the file system fails.

A failure has a number and a text, and names the path it was about as the caller
wrote it.  A path with a NUL in it never reaches the system.
-/
import DirectiveFences.Text.Quoted

namespace DirectiveFences.Files

/-- The numbers of the causes that have a name here. -/
def namedNumbers : List Nat :=
  [1, 2, 5, 9, 13, 17, 18, 20, 21, 28, 36, 40]

/-- The causes for which a call fails. -/
inductive Errno
  | notPermitted
  | notFound
  | inputOutput
  | badDescriptor
  | denied
  | alreadyExists
  | crossDevice
  | notDirectory
  | isDirectory
  | noSpace
  | nameTooLong
  | tooManyLinks
  /-- Any other cause, by its number and its text. -/
  | other (number : Nat) (text : String) (unnamed : number ∉ namedNumbers)
deriving DecidableEq, Repr

namespace Errno

def number : Errno → Nat
  | notPermitted => 1
  | notFound => 2
  | inputOutput => 5
  | badDescriptor => 9
  | denied => 13
  | alreadyExists => 17
  | crossDevice => 18
  | notDirectory => 20
  | isDirectory => 21
  | noSpace => 28
  | nameTooLong => 36
  | tooManyLinks => 40
  | other number _ _ => number

def text : Errno → String
  | notPermitted => "Operation not permitted"
  | notFound => "No such file or directory"
  | inputOutput => "Input/output error"
  | badDescriptor => "Bad file descriptor"
  | denied => "Permission denied"
  | alreadyExists => "File exists"
  | crossDevice => "Invalid cross-device link"
  | notDirectory => "Not a directory"
  | isDirectory => "Is a directory"
  | noSpace => "No space left on device"
  | nameTooLong => "File name too long"
  | tooManyLinks => "Too many levels of symbolic links"
  | other _ text _ => text

/-- Whether the failure says that the process may not do what it asked for. -/
def isPermission : Errno → Bool
  | notPermitted | denied => true
  | _ => false

/-- Whether the failure only says that nothing is there. -/
def saysAbsent : Errno → Bool
  | notFound | badDescriptor | notDirectory | tooManyLinks => true
  | _ => false

end Errno

/-- A failed call, with the path it was about if it is known. -/
structure SystemError where
  errno : Errno
  path : Option String := none
deriving DecidableEq, Repr

def SystemError.message (e : SystemError) : String :=
  "[Errno " ++ toString e.errno.number ++ "] " ++ e.errno.text ++
    match e.path with
    | none => ""
    | some path => ": " ++ String.ofList (Text.quoted path.toList)

/-- Why a call about a path gives nothing. -/
inductive CallError
  /-- The path holds a NUL. -/
  | embeddedNull
  | system (e : SystemError)
deriving DecidableEq, Repr

def embeddedNullMessage : String := "embedded null byte"

def CallError.message : CallError → String
  | embeddedNull => embeddedNullMessage
  | system e => e.message

end DirectiveFences.Files
