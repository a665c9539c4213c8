import CallerTree.Glob
import CallerTree.Path
import CallerTree.Text.LowerCase

/-!
# Source trees

A source tree is a directory and the patterns of what to leave out of it. Paths inside the tree are
shown relative to its root.
-/

namespace CallerTree

/-- A directory of C and C++ sources. -/
structure SourceTree where
  root : Text
  excludes : List Text
  deriving DecidableEq, Repr

namespace SourceTree

def headerExtensions : List Text := [".h", ".hpp"]

def sourceExtensions : List Text := [".c", ".cpp", ".cc", ".cxx", ".h", ".hpp"]

/-- Whether the extension is known; headers count only when they are included. -/
def isSource (path : Text) (includeHeaders : Bool) : Bool :=
  let ext := (Path.extension path).lower
  if headerExtensions.contains ext then includeHeaders else sourceExtensions.contains ext

/-- The path relative to the root when it lies below it. -/
def relative (tree : SourceTree) (path : Text) : Text := Path.relativeTo tree.root path

/-- Whether some exclude pattern matches the path. -/
def excludes? (tree : SourceTree) (path : Text) : Bool :=
  tree.excludes.any (Glob.isMatch · path)

/-! ### The list of files for the indexing tool -/

/-- A path on a line of its own; one that holds a blank is quoted. -/
def fileListLine (path : Text) : Text :=
  if path.contains " " || path.contains "\t" then
    "\"" ++ path.substitute '"' "\\\"" ++ "\"\n"
  else path ++ "\n"

def fileList (paths : List Text) : Text := paths.flatMap fileListLine

end SourceTree

end CallerTree
