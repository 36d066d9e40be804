/-
The file system as a program meets it: the tree, the working directory, the calls
that read and change the tree, and which of them fail.

A new file has an inode that no file had before, and the clock gives it a time.
What others do to the tree meanwhile is a `Change`.

The process may search every directory and read every file: the permission bits
are kept and never asked.  A call that is denied is one of those that a `Fault`
says to fail.  Two calls never are: the question whether a path is a link, and the
removal of a temporary file.
-/
import DirectiveFences.Files.Walk

namespace DirectiveFences.Files

/-- The state that calls read and change, and what the process can do. -/
structure Disk where
  tree : Tree := {}
  /-- The working directory. -/
  cwd : Place := []
  /-- The inode of the next new file. -/
  nextInode : Nat := 1
  /-- The time of the next new file. -/
  clock : Int := 1700000000000000001
  /-- How many links the process can follow inside each other when it resolves a path. -/
  linkRoom : Nat := 960
  /-- How many calls inside each other the values of a settings file may take. -/
  valueRoom : Nat := 960
deriving Repr

/-! ## Calls that fail -/

/-- What a path is looked at for. -/
inductive Purpose
  /-- To see whether the argument of a command is there. -/
  | checking
  /-- To find the place of a document. -/
  | locating
  /-- To find settings, or the directory where the search for them begins. -/
  | searching
  /-- To read a document. -/
  | reading
  /-- To replace a document. -/
  | replacing
deriving DecidableEq, Repr

/-- A call that may fail. -/
inductive Call
  /-- A look at a path, a link as the link. -/
  | look (purpose : Purpose) (path : String)
  /-- A look at a path, links followed. -/
  | follow (purpose : Purpose) (path : String)
  /-- The opening of the file at a path. -/
  | openFile (path : String)
  /-- The opening of a temporary file. -/
  | openTemporary
  /-- The writing of the content, through to the device. -/
  | sync
  | setMode
  | setOwner
  | move
deriving DecidableEq, Repr

/-- Which calls fail, and why. -/
structure Fault where
  errno? : Call → Option Errno := fun _ => none
  /-- Whether a file has an owner that can be set. -/
  hasOwners : Bool := true

/-- Why a call fails, if it is said to fail. -/
def failure? (fault : Option Fault) (call : Call) : Option Errno :=
  fault.bind (·.errno? call)

/-- Whether owners are set at all. -/
def hasOwners (fault : Option Fault) : Bool :=
  fault.all (·.hasOwners)

@[simp]
theorem failure?_none (call : Call) : failure? none call = none := rfl

namespace Fault

/-- No file can be opened. -/
def openDenied : Fault where
  errno?
    | .openFile _ | .openTemporary => some .denied
    | _ => none

/-- Nothing can be looked at without following links. -/
def lookDenied : Fault where
  errno?
    | .look _ _ => some .denied
    | _ => none

/-- One call fails, whatever it is about. -/
def only (call : Call) (e : Errno) : Fault where
  errno? c := if c = call then some e else none

/-- No content can be written through to the device. -/
def syncFails : Fault := only .sync .noSpace

/-- No permission bits can be set. -/
def modeDenied : Fault := only .setMode .notPermitted

/-- No owner may be set. -/
def ownerDenied : Fault := only .setOwner .notPermitted

/-- Setting an owner breaks. -/
def ownerFails : Fault := only .setOwner .inputOutput

/-- No file can be moved over another one. -/
def moveFails : Fault := only .move .crossDevice

/-- There are no owners to set. -/
def ownerMissing : Fault where
  hasOwners := false

end Fault

namespace Disk

/-! ## Reading -/

/-- What stands at a path, links followed.  A failure that was said names no path. -/
def stat (s : Disk) (path : String) (fault : Option Fault := none)
    (purpose : Purpose := .locating) : Except CallError (Place × Node) :=
  match failure? fault (.follow purpose path) with
  | some e => .error (.system ⟨e, none⟩)
  | none => s.tree.look true s.cwd path

/-- What stands at a path, a link as the link. -/
def lstat (s : Disk) (fault : Option Fault) (path : String) (purpose : Purpose := .locating) :
    Except CallError (Place × Node) :=
  match failure? fault (.look purpose path) with
  | some e => .error (.system ⟨e, none⟩)
  | none => s.tree.look false s.cwd path

/-- The content of the file at a path. -/
def read (s : Disk) (fault : Option Fault) (path : String) : Except CallError (List UInt8) :=
  match failure? fault (.openFile path) with
  | some e => .error (.system ⟨e, none⟩)
  | none =>
    match s.stat path with
    | .ok (_, .file f) => .ok f.bytes
    | .ok (_, .directory) => .error (.system ⟨.isDirectory, some path⟩)
    | .ok (_, .link _) => .error (.system ⟨.tooManyLinks, some path⟩)
    | .error e => .error e

/-! ## Changing a file that is known by its place -/

/-- Put a new file at a place. -/
def create (s : Disk) (place : Place) (mode : Nat) (bytes : List UInt8) (time : Int) : Disk :=
  { s with
    tree := s.tree.set place (.file ⟨s.nextInode, mode, time, bytes⟩)
    nextInode := s.nextInode + 1 }

/-- Change the file at a place. -/
def update (s : Disk) (place : Place) (f : File → File) : Disk :=
  match s.tree.get? place with
  | some (.file file) => { s with tree := s.tree.set place (.file (f file)) }
  | _ => s

/-- Take the file at a place away. -/
def unlink (s : Disk) (place : Place) : Disk :=
  { s with tree := s.tree.erase place }

/-- The permission bits of a file after its owner was set: it no longer runs under another identity.
The bit for the group stays if the group may not run the file, where it means something else. -/
def ownedMode (mode : Nat) : Nat :=
  let mode := if mode.testBit 11 then mode - Nat.pow 2 11 else mode
  if mode.testBit 10 && mode.testBit 3 then mode - Nat.pow 2 10 else mode

/-- Move what stands at a place over a path. -/
def move (s : Disk) (fault : Option Fault) (source : Place) (path : String) :
    Except SystemError Disk :=
  match failure? fault .move with
  | some e => .error ⟨e, none⟩
  | none =>
    match s.tree.get? source, s.tree.find false s.cwd path with
    | some _, .ok (.taken _ .directory) => .error ⟨.isDirectory, some path⟩
    | some node, .ok (.taken place _) | some node, .ok (.free place) =>
      .ok { s with tree := (s.tree.erase source).set place node }
    | none, _ | _, .error .embeddedNull => .error ⟨.notFound, some path⟩
    | _, .error (.system e) => .error e

/-! ## What others do -/

/-- A change that someone else makes to the tree. -/
inductive Change
  /-- A file is made, or gets new content in place. -/
  | write (path : String) (bytes : List UInt8) (mode : Nat) (time : Int)
  /-- Another file is moved over the path. -/
  | moveOver (path : String) (bytes : List UInt8) (mode : Nat) (time : Int)
  | makeDirectory (path : String)
  | makeLink (path target : String)
  /-- A file or a link is taken away, or a directory with all below it. -/
  | remove (path : String)
  | setMode (path : String) (mode : Nat)
  | setTime (path : String) (time : Int)
deriving Repr

/-- Make a directory where nothing stands. -/
def makeDirectory (s : Disk) (path : String) : Except CallError Disk :=
  match s.tree.find true s.cwd path with
  | .ok (.taken _ .directory) => .ok s
  | .ok (.taken ..) => .error (.system ⟨.alreadyExists, some path⟩)
  | .ok (.free place) => .ok { s with tree := s.tree.set place .directory }
  | .error e => .error e

/-- Make the directories of a path, from the top down. -/
def makeDirectories (s : Disk) (path : Path) : Except CallError Disk :=
  (path.parents.reverse ++ [path]).foldlM (fun s p => s.makeDirectory p.text) s

/-- Make the directories above a path. -/
def makeParents (s : Disk) (path : String) : Except CallError Disk :=
  s.makeDirectories (Path.parse path).parent

/-- Change the file at a path, links followed. -/
def updateAt (s : Disk) (path : String) (f : File → File) : Except CallError Disk :=
  match s.stat path with
  | .ok (place, _) => .ok (s.update place f)
  | .error e => .error e

/-- What a change makes of the tree, unless it fails. -/
def apply (s : Disk) : Change → Except CallError Disk
  | .write path bytes mode time => do
    let s ← s.makeParents path
    match ← s.tree.find true s.cwd path with
    | .taken place (.file _) => .ok (s.update place fun f => ⟨f.inode, mode, time, bytes⟩)
    | .taken .. => .error (.system ⟨.isDirectory, some path⟩)
    | .free place => .ok (s.create place mode bytes time)
  | .moveOver path bytes mode time => do
    let s ← s.makeParents path
    match ← s.tree.find false s.cwd path with
    | .taken _ .directory => .error (.system ⟨.isDirectory, some path⟩)
    | .taken place _ | .free place => .ok (s.create place mode bytes time)
  | .makeDirectory path => s.makeDirectories (Path.parse path)
  | .makeLink path target => do
    let s ← s.makeParents path
    match ← s.tree.find false s.cwd path with
    | .taken .. => .error (.system ⟨.alreadyExists, some path⟩)
    | .free place => .ok { s with tree := s.tree.set place (.link target) }
  | .remove path => do
    match ← s.tree.look false s.cwd path with
    | (place, .directory) => .ok { s with tree := s.tree.prune place }
    | (place, _) => .ok (s.unlink place)
  | .setMode path mode => s.updateAt path fun f => { f with mode }
  | .setTime path time => s.updateAt path fun f => { f with time }

end Disk

end DirectiveFences.Files
