/-
The command on the files of the machine.

What a run may look at is read into a tree first: the paths of the command line,
all directories above them, and the files with settings in those.  The run itself
is computed (`Command.run`); at the end the document that it has changed, if any,
is written, and what it shows is printed.
-/
import DirectiveFences.Command.Run

namespace DirectiveFences

open DirectiveFences.Files

/-- The path of a place. -/
def placeText (place : Place) : String :=
  "/" ++ "/".intercalate place

/-- A place and all above it. -/
def upTo (place : Place) : List Place :=
  (List.range place.length).map fun n => place.take (n + 1)

/-- What a run may look at when these places are on its command line. -/
def lookedAt (places : List Place) : List Place :=
  let directories := [] :: places.flatMap upTo
  let files := directories.flatMap fun dir => Settings.candidates.map fun c => dir ++ [c.name]
  (directories ++ files).filter (· != []) |>.eraseDups

/-- What stands at a place of the machine.  A link is taken as leading to where it leads in the end, or
to itself if it leads nowhere. -/
def nodeAt (place : Place) (inode : Nat) : IO (Option Node) := do
  let entry : IO.FS.DirEntry := ⟨placeText place.dropLast, place.getLastD ""⟩
  try
    match (← entry.path.symlinkMetadata).type with
    | .dir => return some .directory
    | .symlink =>
      let target ←
        try pure (toString (← IO.FS.realPath entry.path)) catch _ => pure (placeText place)
      return some (.link target)
    | .file =>
      let bytes := (← IO.FS.readBinFile entry.path).toList
      return some (.file { inode, mode := 0o644, time := 0, bytes })
    | .other => return none
  catch _ => return none

/-- The tree of what stands at some places. -/
def readTree (places : List Place) : IO Tree := do
  let mut entries := []
  for (place, inode) in places.zipIdx do
    if let some node ← nodeAt place inode then
      entries := (place, node) :: entries
  return ⟨entries⟩

/-- The place that a word of the command line names, and where it leads in the end. -/
def placesOf (homes : Homes) (cwd : Place) (word : String) : IO (List Place) := do
  match homes.expand (Path.parse word) with
  | .error _ => return []
  | .ok path =>
    let named := (path.absolute cwd).parts
    try
      return [named, (Path.parse (toString (← IO.FS.realPath path.text))).parts]
    catch _ => return [named]

/-- Write the files that a run has replaced.  The content goes into the file that is there, so that its
owner and its permissions stay; a file that has changed meanwhile is left alone. -/
def writeBack (before after : Tree) : IO Unit := do
  for (place, node) in before.entries do
    match node, after.get? place with
    | .file old, some (.file new) =>
      if old.inode != new.inode then
        let path := placeText place
        if (← IO.FS.readBinFile path).toList == old.bytes then
          IO.FS.writeBinFile path ⟨new.bytes.toArray⟩
        else
          throw (IO.userError (GuardError.changed (Path.parse path)).message)
    | _, _ => pure ()

/-- Run the command on the words of its command line. -/
def runCommand (words : List String) : IO UInt32 := do
  let homes : Homes := ⟨(← IO.getEnv "HOME").getD "/", []⟩
  let cwd := (Path.parse (toString (← IO.currentDir))).parts
  let named ← words.flatMapM (placesOf homes cwd)
  let places := lookedAt (cwd :: named)
  let tree ← readTree places
  let env : Command.Environment :=
    { sizeLimit := ← IO.getEnv sizeLimitVariable
      logLevel := ← IO.getEnv "PANDOC_DIRECTIVES_LOG_LEVEL"
      homes }
  let (outcome, disk) :=
    Command.run { tree, cwd, nextInode := places.length } none env words
  writeBack tree disk.tree
  IO.print (String.ofList outcome.stdout)
  IO.eprint (String.ofList outcome.stderr)
  if let some failure := outcome.aborted then
    IO.eprintln failure.cause
  return UInt32.ofNat outcome.exitCode

end DirectiveFences

/-- The command line. -/
def main (words : List String) : IO UInt32 :=
  DirectiveFences.runCommand words
