import CallerTree.Json
import CallerTree.Path
import CallerTree.Text.Blank
import CallerTree.Text.Quoted
import CallerTree.World

/-!
# Text search

A text search runs a search tool in a directory and returns its first lines, up to a limit.
-/

namespace CallerTree

structure SearchResult where
  lines : List Text
  /-- There were more lines than the limit. -/
  limited : Bool
  deriving DecidableEq, Repr

namespace Search

def defaultLimit : Int := 50

/-- Refuses a path that is no absolute path of a directory. -/
def validateDirectory (fs : FileSystem) (root : Text) : Except Failure Unit :=
  let refuse := fun detail => Except.error (Failure.because .invalidSearch detail)
  if !Path.isAbsolute root then refuse ("directory must be absolute: " ++ root.quoted)
  else match fs.stat root with
    | .error e => refuse ("directory " ++ root ++ ": " ++ e)
    | .ok e => if e.isFolder then .ok () else refuse ("not a directory: " ++ root)

/-- Takes a line up, or refuses it if there are enough; a limit below 1 is no limit. -/
def receive (limit : Int) (found : SearchResult) (line : Text) : SearchResult × Bool :=
  if 0 < limit ∧ found.lines.length = limit then ({ found with limited := true }, false)
  else ({ found with lines := found.lines ++ [line.trim] }, true)

/-- The lines of a tool, taken up one by one. -/
def gather (limit : Int) (lines : List Text) : Handover SearchResult :=
  Handover.feed (receive limit) { state := ⟨[], false⟩ } lines

def command (tool root pattern : Text) : Command where
  name := tool
  args := ["--numbers", "--nogroup", "--nocolor", "--smart-case", "--", pattern]
  dir := root

/-- The result of a search whose tool has ended with this output. -/
def conclude (tool root pattern : Text) (limit : Int) (out : Output) : Run SearchResult := do
  let gathered := gather limit out.streamed
  let found := gathered.state
  if !gathered.isStopped && 1 < out.exit && found.lines.isEmpty then
    throw (.message ("search " ++ root ++ ": " ++ tool ++ " exited " ++ Text.ofInt out.exit ++
      ": " ++ out.errorText.trim))
  Run.note .debug "search finished"
    [("root", root), ("pattern", pattern), ("results", .ofNat found.lines.length),
      ("limited", .bool found.limited)]
  return found

/-- Searches `pattern` below `root` with `tool`. -/
def run (tools : Toolbox) (tool root pattern : Text) (limit : Int) : Run SearchResult := do
  Run.ofExcept (validateDirectory (← Run.files) root)
  if pattern.isAllBlank then throw (.because .invalidSearch "empty search pattern")
  match ← Run.attempt (Run.command tools (command tool root pattern)) with
  | .error f => throw (.under ("search " ++ root) f)
  | .ok out => conclude tool root pattern limit out

end Search

def SearchResult.toJson (r : SearchResult) : Json :=
  .obj [("results", .strs r.lines), ("limited", .bool r.limited)]

end CallerTree
