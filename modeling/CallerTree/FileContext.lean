import CallerTree.Failure
import CallerTree.FileSystem
import CallerTree.Json
import CallerTree.SourceLines
import CallerTree.Text.LowerCase

/-!
# A line of a file with its neighbours

A reader who follows a call site sees the line in question and some lines on either side of it.

## Contract

The window is computed with 64-bit numbers that wrap around: a line number and a width whose sum
exceeds the range give an empty window. Room for the window is set aside before it is filled; a
request for more room than can be addressed gets no answer at all.
-/

namespace CallerTree

structure ContextLine where
  number : Int
  content : Text
  isTarget : Bool
  deriving DecidableEq, Repr

structure FileContext where
  /-- The path as requested. -/
  path : Text
  /-- The kind of file, for highlighting. -/
  kind : Text
  target : Int
  total : Nat
  lines : List ContextLine
  deriving DecidableEq, Repr

/-- Why a window cannot be shown. -/
inductive ContextError where
  | refused (f : Failure)
  /-- The window asks for more room than there can be. -/
  | panicked (p : Panic)
  deriving Repr

namespace FileContext

def defaultWidth : Int := 10

/-- The kinds of files by extension. -/
def kinds : List (Text × Text) := [
  (".c", "c"), (".h", "c"), (".hpp", "c"),
  (".cpp", "cpp"), (".cc", "cpp"), (".cxx", "cpp"),
  (".py", "python"),
  (".js", "javascript"), (".jsx", "javascript"),
  (".md", "markdown"), (".markdown", "markdown"),
  (".html", "html"), (".htm", "html"),
  (".css", "css"),
  (".json", "json")]

def kindOf (path : Text) : Text :=
  let ext := (Path.extension path).lower
  ((kinds.find? (·.1 = ext)).map (·.2)).getD "text"

/-- The first and the last line of a window. -/
def bounds (total : Nat) (line width : Int) : Int × Int :=
  (max 1 (wrap64 (line - width)), min total (wrap64 (line + width)))

/-- The room set aside for a window. -/
def room (total : Nat) (line width : Int) : Int :=
  let (first, last) := bounds total line width
  max 0 (wrap64 (wrap64 (last - first) + 1))

/-- The number of lines for which there can be room. -/
def roomLimit : Int := 0x80000000000

/-- The lines numbered from `first` to `last`. -/
def window (lines : List Text) (line first last : Int) : List ContextLine :=
  let skipped := (first - 1).toNat
  ((lines.take last.toNat).drop skipped).zipIdx.map fun (content, i) =>
    let number : Int := skipped + i + 1
    { number, content, isTarget := number = line }

/-- The path that a request means. -/
def resolvedPath (path basePath : Text) : Text :=
  Path.clean (if basePath ≠ [] && !Path.isAbsolute path then Path.join basePath path else path)

/-- Refuses what cannot be asked for. -/
def validate (path : Text) (line width : Int) : Except Failure Unit :=
  let refuse := fun detail => Except.error (Failure.because .invalidSearch detail)
  if path.isEmpty then refuse "empty file path"
  else if line < 1 then refuse ("line number must be positive: " ++ Text.ofInt line)
  else if width < 0 then refuse ("context lines must not be negative: " ++ Text.ofInt width)
  else .ok ()

/-- The data of the regular file at a path. A file that cannot be opened is no mistake in the
request. -/
def contents (fs : FileSystem) (path : Text) : Except Failure Bytes :=
  match fs.stat path with
  | .error _ => .error (.because .invalidSearch ("file not found: " ++ path))
  | .ok (.file _ _) => (fs.read path).mapError fun e => .under ("read " ++ path) (.message e)
  | .ok _ => .error (.because .invalidSearch ("path is not a file: " ++ path))

/-- The line `line` of a file and up to `width` lines on either side. -/
def read (fs : FileSystem) (path : Text) (line width : Int) (basePath : Text) :
    Except ContextError FileContext := do
  (validate path line width).mapError .refused
  let full := resolvedPath path basePath
  let data ← (contents fs full).mapError .refused
  let lines := SourceLines.shown data
  let wanted := room lines.length line width
  if roomLimit < wanted then throw (.panicked .outOfRange)
  let (first, last) := bounds lines.length line width
  return {
    path, kind := kindOf full, target := line, total := lines.length
    lines := window lines line first last }

def toJson (c : FileContext) : Json :=
  .obj [
    ("file_path", .str c.path),
    ("file_type", .str c.kind),
    ("target_line", .num c.target),
    ("total_lines", .num c.total),
    ("context", .arr (c.lines.map fun l => .obj [
      ("line_number", .num l.number),
      ("content", .str l.content),
      ("is_match", .bool l.isTarget)]))]

end FileContext

end CallerTree
