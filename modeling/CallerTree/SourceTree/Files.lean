import CallerTree.SourceTree.Basic
import CallerTree.Text.Quoted
import CallerTree.World

/-!
# The files of a source tree

The files are enumerated depth first, the entries of each folder in the order of their names' bytes.
Links are not followed, not even when the root itself is one. Folders of version control systems and
excluded folders are not entered.
-/

namespace CallerTree

namespace SourceTree

/-- Accepts an absolute path to a folder and well-formed patterns. -/
def ofRoot (fs : FileSystem) (root : Text) (excludes : List Text) : Except Failure SourceTree :=
  let refuse := fun detail => Except.error (Failure.because .invalidRequest detail)
  if !Path.isAbsolute root then refuse ("base path must be absolute: " ++ root.quoted)
  else match fs.stat root with
    | .error e => refuse ("base path " ++ root ++ ": " ++ e)
    | .ok e =>
      if !e.isFolder then refuse ("base path is not a directory: " ++ root)
      else match excludes.find? (!Glob.isValid ·) with
        | some p => refuse ("bad exclude pattern " ++ p.quoted)
        | none => .ok ⟨Path.clean root, excludes⟩

/-! ### Enumeration -/

/-- Folders that are never entered below the root. -/
def vcsFolders : List Text := [".git", ".hg", ".svn"]

/-- One entry met on the way: whether it is a file of the tree, and its path. -/
structure Visit where
  path : Text
  isListed : Bool
  deriving DecidableEq, Repr

variable (tree : SourceTree) (includeHeaders : Bool)

/-- Whether a regular file belongs to the tree. -/
def lists (path : Text) : Bool :=
  isSource path includeHeaders && !tree.excludes? (tree.relative path)

/-- Whether a folder below the root is left out with everything in it. -/
def prunes (path name : Text) : Bool :=
  vcsFolders.contains name || tree.excludes? (tree.relative path)

/-- Visits in the order of the names. -/
def inNameOrder (children : List (Text × List Visit)) : List Visit :=
  (children.mergeSort fun a b => a.1.byteLE b.1).flatMap (·.2)

mutual

/-- What is met at and below an entry whose last component is `name`. -/
def visits (path name : Text) (isRoot : Bool) : Entry → List Visit
  | .file _ _ => [⟨path, tree.lists includeHeaders path⟩]
  | .link _ => [⟨path, false⟩]
  | .folder entries =>
    ⟨path, false⟩ ::
      if !isRoot && tree.prunes path name then []
      else inNameOrder (visitsBelow path entries)

/-- What is met below a folder, for each of its entries. -/
def visitsBelow (path : Text) : List (Text × Entry) → List (Text × List Visit)
  | [] => []
  | (name, e) :: rest =>
    (name, visits (Path.join path name) name false e) :: visitsBelow path rest

end

/-- Looks at the context before each visit and collects the files. -/
def collect : List Visit → Run (List Text)
  | [] => return []
  | v :: rest => do
    Run.check
    let paths ← collect rest
    return if v.isListed then v.path :: paths else paths

/-- The paths of the files of the tree. -/
def files : Run (List Text) := do
  let found ← Run.attempt (do
    match (← Run.files).lstat tree.root with
    | .error e => throw (.message e)
    | .ok e => collect (visits tree includeHeaders tree.root (Path.base tree.root) true e))
  match found with
  | .ok paths => return paths
  | .error e => throw (.under ("enumerate " ++ tree.root) e)

end SourceTree

end CallerTree
