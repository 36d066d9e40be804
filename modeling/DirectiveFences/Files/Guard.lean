/-
Guarded documents.

A guard reads a document and keeps a snapshot of the file that was read.  It
replaces the document only if the file is still the one of the snapshot, and then
as a whole: the new content is written to a temporary file in the same directory,
which is moved over the document at the end and is gone in any case.
-/
import DirectiveFences.Files.Canonical
import DirectiveFences.Settings.Basic
import DirectiveFences.Text.Utf8

namespace DirectiveFences.Files

/-- What was seen of a file at one moment. -/
structure Snapshot where
  inode : Nat
  size : Nat
  time : Int
  mode : Nat
deriving DecidableEq, Repr

/-- The snapshot of a file. -/
def File.snapshot (f : File) : Snapshot :=
  ⟨f.inode, f.bytes.length, f.time, f.mode⟩

/-- Whether two snapshots are of the same file with the same content.  The permission bits may
differ. -/
def Snapshot.sameContent (a b : Snapshot) : Bool :=
  a.inode == b.inode && a.size == b.size && a.time == b.time

/-- Why a document cannot be read or replaced. -/
inductive GuardError
  | inaccessible (path : Path) (e : SystemError)
  | isLink (path : Path)
  | notRegular (path : Path)
  | tooLarge (path : Path) (limit : Int)
  | undecodable (e : Text.Utf8.DecodeError)
  | notRead (path : Path)
  | changed (path : Path)
  /-- There is no place for a temporary file. -/
  | noTemporary (e : SystemError)
  /-- The document stays as it was, whether or not its owner had been refused to the new file. -/
  | notReplaced (path : Path) (e : SystemError) (refused : Bool)
  | embeddedNull
deriving DecidableEq, Repr

def GuardError.message : GuardError → String
  | inaccessible path e => "Error accessing " ++ path.text ++ ": " ++ e.message
  | isLink path => "Symlinks are not supported: " ++ path.text ++ "."
  | notRegular path => path.text ++ " is not a regular file."
  | tooLarge path limit =>
    path.text ++ " exceeds the maximum allowed size of " ++ toString limit ++ " bytes."
  | undecodable e => e.message
  | notRead path => path.text ++ " must be read before it is replaced."
  | changed path => path.text ++ " changed during processing; refusing to overwrite."
  | noTemporary e => e.message
  | notReplaced path e _ => "Could not replace " ++ path.text ++ ": " ++ e.message
  | embeddedNull => embeddedNullMessage

/-- A failed call as a failure to get at the document. -/
def GuardError.ofCall (path : Path) : CallError → GuardError
  | .embeddedNull => .embeddedNull
  | .system e => .inaccessible path e

/-- The snapshot of the regular file at a path, which is not a link. -/
def Snapshot.take (s : Disk) (fault : Option Fault) (path : Path) (purpose : Purpose := .reading) :
    Except GuardError Snapshot :=
  match s.lstat fault path.text purpose with
  | .error e => .error (.ofCall path e)
  | .ok (_, .link _) => .error (.isLink path)
  | .ok (_, .directory) => .error (.notRegular path)
  | .ok (_, .file f) => .ok f.snapshot

/-- A document, the greatest size that is read, and what was seen of the file when it was read
last. -/
structure Guard where
  path : Path
  maxSize : Int := defaultMaxSize
  snapshot : Option Snapshot := none
deriving Repr

namespace Guard

/-- The text of the document, and the guard that has seen it.  Line breaks are left alone. -/
def read (g : Guard) (s : Disk) (fault : Option Fault) :
    Except GuardError (List Char × Guard) :=
  match Snapshot.take s fault g.path with
  | .error e => .error e
  | .ok seen =>
    if seen.size > g.maxSize then .error (.tooLarge g.path g.maxSize)
    else
      match s.read fault g.path.text with
      | .error e => .error (.ofCall g.path e)
      | .ok bytes =>
        match Text.Utf8.decode bytes with
        | .error e => .error (.undecodable e)
        | .ok text => .ok (text, { g with snapshot := some seen })

/-! ## Replacing -/

/-- The names that are tried for a temporary file. -/
def temporaryName (g : Guard) (n : Nat) : String :=
  "." ++ g.path.name ++ "." ++ padded 8 n ++ ".tmp"

/-- The place of a temporary file beside the document: the first name that is not taken.  Its
directory is that of the path as it is written, with every `..` taking the name before it off. -/
def temporaryPlace (g : Guard) (s : Disk) : Except SystemError Place :=
  let first := (g.path.parent.absolute s.cwd).child (g.temporaryName 0)
  match s.tree.find false s.cwd first.text with
  | .error (.system e) => .error e
  | .error .embeddedNull => .error ⟨.notFound, none⟩
  | .ok (.taken place _) | .ok (.free place) =>
    match (List.range (s.tree.entries.length + 1)).find? fun n =>
        (s.tree.get? (place.dropLast ++ [g.temporaryName n])).isNone with
    | some n => .ok (place.dropLast ++ [g.temporaryName n])
    | none => .error ⟨.alreadyExists, none⟩

/-- Open a new temporary file, which only its owner may read and write. -/
def openTemporary (g : Guard) (s : Disk) (fault : Option Fault) :
    Except SystemError (Place × Disk) :=
  match failure? fault .openTemporary with
  | some e => .error ⟨e, none⟩
  | none =>
    match g.temporaryPlace s with
    | .error e => .error e
    | .ok place =>
      .ok (place, { s.create place 0o600 [] s.clock with clock := s.clock + 1 })

/-- Give the temporary file an owner: whether that was refused, and what it makes of the permission
bits.  To be refused is to lack a permission; any other failure is one. -/
def setOwner (s : Disk) (fault : Option Fault) (temporary : Place) :
    Except SystemError (Bool × Disk) :=
  if !hasOwners fault then .ok (false, s)
  else
    match failure? fault .setOwner with
    | some e => if e.isPermission then .ok (true, s) else .error ⟨e, none⟩
    | none => .ok (false, s.update temporary fun f => { f with mode := Disk.ownedMode f.mode })

/-- Fill the temporary file, give it the permission bits of the document, and move it over the
document: whether the owner was refused, and what comes of it.  Every step before the last one changes
nothing but the temporary file. -/
def fillAndMove (g : Guard) (s : Disk) (fault : Option Fault) (temporary : Place) (mode : Nat)
    (bytes : List UInt8) : Bool × Except SystemError Disk :=
  let s := s.update temporary fun f => { f with bytes }
  match failure? fault .sync, failure? fault .setMode with
  | some e, _ | none, some e => (false, .error ⟨e, none⟩)
  | none, none =>
    let s := s.update temporary fun f => { f with mode }
    match setOwner s fault temporary with
    | .error e => (false, .error e)
    | .ok (refused, s) => (refused, s.move fault temporary g.path.text)

/-- Replace the document by a text.  The result says whether the owner could not be kept; in any case
the temporary file is taken away. -/
def replace (g : Guard) (s : Disk) (fault : Option Fault) (content : List Char) :
    Except GuardError Bool × Disk :=
  match g.snapshot with
  | none => (.error (.notRead g.path), s)
  | some seen =>
    match Snapshot.take s fault g.path .replacing with
    | .error e => (.error e, s)
    | .ok present =>
      if !present.sameContent seen then (.error (.changed g.path), s)
      else
        match g.openTemporary s fault with
        | .error e => (.error (.noTemporary e), s)
        | .ok (temporary, opened) =>
          match g.fillAndMove opened fault temporary seen.mode (Text.Utf8.encode content) with
          | (refused, .error e) =>
            (.error (.notReplaced g.path e refused), opened.unlink temporary)
          | (refused, .ok moved) => (.ok refused, moved.unlink temporary)

/-- What is said where the owner of the document could not be kept. -/
def ownerWarning (g : Guard) : String :=
  "Warning: could not preserve ownership of " ++ g.path.name

/-- What a replacement with some result has said on the way. -/
def warnings (g : Guard) (result : Except GuardError Bool) : List String :=
  let refused :=
    match result with
    | .ok refused | .error (.notReplaced _ _ refused) => refused
    | .error _ => false
  if refused then [g.ownerWarning] else []

end Guard

end DirectiveFences.Files
