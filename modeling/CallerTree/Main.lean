import CallerTree.Calendar
import CallerTree.CommandLine.Run
import Std.Time.DateTime.Timestamp

/-!
# The program

The working directory and the absolute paths among the arguments are read into memory, and the run
works on that copy. Lists of files that it leaves for an index are written back. No other program is
started: every tool counts as missing.
-/

namespace CallerTree

namespace Program

/-- The depth to which folders are read. -/
def depthLimit : Nat := 64

/-- Reads what is at a path. Links are passed over. -/
def readEntry : (depth : Nat) → (path : String) → IO (Option FileTree)
  | 0, _ => return none
  | depth + 1, path => do
    let p := (← IO.currentDir) / path
    if ← p.isDir then
      let mut entries := []
      for e in ← p.readDir do
        if (← e.path.symlinkMetadata).type != .symlink then
          if let some inner ← readEntry depth (path ++ "/" ++ e.fileName) then
            entries := (Text.ofString e.fileName, inner) :: entries
      return some (.folder entries)
    else
      match ← (IO.FS.readBinFile p).toBaseIO with
      | .ok data => return some (.file 0o644 data.toList)
      | .error _ => return none

/-- The files that a run can see. -/
def loadFiles (workingDirectory : Text) (args : List Text) : IO FileSystem := do
  let mut files : FileSystem :=
    { workingDirectory := Path.components workingDirectory }
  for path in workingDirectory :: args.filter Path.isAbsolute do
    if let some e ← readEntry depthLimit path.shown then
      files := files.setAt (Path.components path) (some e)
  return files

/-- The machine has no tools. -/
def noTools : Toolbox where
  isInstalled _ := false
  answer _ c := { outcome := .error (toolMissing c.name) }

/-- Writes the lists of files that commands were meant to read. -/
def writeLists (w : World) : IO Unit := do
  for c in w.issued do
    let path := Path.join c.dir Engine.indexListName
    if let .ok data := w.files.read path then
      IO.FS.writeBinFile path.shown (ByteArray.mk data.toArray)

end Program

end CallerTree

open CallerTree in
def main (args : List String) : IO UInt32 := do
  let args := args.map Text.ofString
  let workingDirectory := Text.ofString (← IO.currentDir).toString
  let now ← Std.Time.Timestamp.now
  let env : CommandLine.Environment :=
    { version := "dev", time := Calendar.shown now.toSecondsSinceUnixEpoch.val
      tools := Program.noTools }
  let files ← Program.loadFiles workingDirectory args
  let (outcome, w) := CommandLine.run env args { files }
  Program.writeLists w
  IO.print outcome.stdout.shown
  IO.eprint outcome.stderr.shown
  match outcome.panic, outcome.failure with
  | some p, _ =>
    IO.eprintln ("panic: " ++ p.text.shown)
    return 2
  | none, some f =>
    IO.eprintln ("error: " ++ f.text.shown)
    return 1
  | none, none => return 0
