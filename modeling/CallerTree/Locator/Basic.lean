import CallerTree.FunctionName
import CallerTree.Line.Classify
import CallerTree.Occurrence
import CallerTree.SourceLines
import CallerTree.SourceTree.Files

/-!
# Locators

A locator finds the lines of a source tree that mention a function name before an opening
parenthesis. There is one that asks a cross-reference index, one that runs a text search tool and
one that reads the files itself; a chain tries several in turn.

## Contract

A chain returns the first answer that is no failure, even when it is empty. Once the context has
ended it returns the context's cause and asks nobody else.
-/

namespace CallerTree

/-- Something that locates occurrences of a name in a source tree. -/
structure Locator where
  /-- The name shown in logs and counters. -/
  backend : Text
  locate : (name : Text) → (tree : SourceTree) → Run (List Occurrence)

namespace Locator

/-- The occurrences inside the tree, with their files relative to its root. -/
def withinTree (tree : SourceTree) (os : List Occurrence) : List Occurrence :=
  (os.map fun o => { o with file := tree.relative o.file }).filter fun o => !tree.excludes? o.file

/-! ### The index -/

/-- The reading of index output; a malformed line is logged and left out. -/
def readIndexLines : List Text → Run (List Occurrence)
  | [] => return []
  | l :: rest => do
    match Occurrence.ofIndexLine? l with
    | some o => return o :: (← readIndexLines rest)
    | none =>
      Run.note .debug "skipping malformed index line" [("line", l)]
      readIndexLines rest

/-- Asks the cross-reference index built by `tool`. -/
def index (tools : Toolbox) (tool : Text) : Locator where
  backend := "index"
  locate name tree := do
    let answer ← Run.attempt
      (Run.command tools { name := tool, args := ["-d", "-L", "-3", name], dir := tree.root })
    match answer with
    | .error e =>
      match ← Run.look with
      | some _ => throw e
      | none => throw (.because .indexUnavailable e.text)
    | .ok out =>
      let output := Text.ofUtf8 out.stdout
      if out.exit ≠ 0 then
        throw (.because .indexUnavailable
          (tool ++ " exited " ++ Text.ofInt out.exit ++ ": " ++ out.errorText.trim))
      else if output.isAllBlank then
        throw (.because .indexUnavailable ("no index results for " ++ name))
      else return withinTree tree (← readIndexLines (Occurrence.outputLines output))

/-! ### The text search tool -/

/-- The options of a recursive search, the last of which announces the pattern. -/
def grepOptions (includeHeaders : Bool) : List Text :=
  let options : List Text := ["-rn", "-E", "--exclude-dir=.git"]
  let selection := SourceTree.sourceExtensions.map fun ext =>
    if SourceTree.headerExtensions.contains ext && !includeHeaders then "--exclude=*" ++ ext
    else "--include=*" ++ ext
  let announcement : List Text := ["-e"]
  options ++ selection ++ announcement

/-- The arguments of a recursive search for calls of `name` below `root`. -/
def grepArgs (includeHeaders : Bool) (name root : Text) : List Text :=
  grepOptions includeHeaders ++ [FunctionName.callPattern name, root]

/-- Runs a text search with `tool`. -/
def grep (tools : Toolbox) (tool : Text) (includeHeaders : Bool) : Locator where
  backend := "grep"
  locate name tree := do
    let answer ← Run.attempt
      (Run.command tools { name := tool, args := grepArgs includeHeaders name tree.root })
    match answer with
    | .error e => throw (.under "grep search" e)
    | .ok out =>
      let output := Text.ofUtf8 out.stdout
      if out.exit = 1 then return []
      else if out.exit ≠ 0 && output.isAllBlank then
        throw (.message ("grep search: " ++ tool ++ " exited " ++ Text.ofInt out.exit ++ ": " ++
          out.errorText.trim))
      else
        if out.exit ≠ 0 then
          Run.note .warn "grep reported errors, using partial output"
            [("exit", .int out.exit), ("stderr", out.errorText.trim)]
        return withinTree tree ((Occurrence.outputLines output).filterMap Occurrence.ofGrepLine?)

/-! ### The scan -/

/-- The occurrences in one file, from the line with the given number on. -/
def scanLines (name file : Text) (number : Nat) : List Text → List Occurrence
  | [] => []
  | l :: rest =>
    if Line.mentionsCall name l then
      { file, line := number, code := l } :: scanLines name file (number + 1) rest
    else scanLines name file (number + 1) rest

/-- The message of a source file that cannot be read. -/
def unreadable (path reason : Text) : Failure := .because .fileUnreadable (path ++ ": " ++ reason)

/-- The lines of a source file. -/
def readSource (fs : FileSystem) (path : Text) : Except Failure (List Text) :=
  match fs.read path with
  | .ok data => .ok (SourceLines.ofBytes data)
  | .error e => .error (unreadable path e)

def scanFiles (name : Text) (tree : SourceTree) : List Text → Run (List Occurrence)
  | [] => return []
  | path :: rest => do
    Run.check
    match readSource (← Run.files) path with
    | .error e =>
      Run.note .debug "skipping unreadable file" [("path", path), ("error", e.text)]
      scanFiles name tree rest
    | .ok lines =>
      return scanLines name (tree.relative path) 1 lines ++ (← scanFiles name tree rest)

/-- Reads every file of the tree. -/
def scan (includeHeaders : Bool) : Locator where
  backend := "scan"
  locate name tree := do
    Run.ofExcept (FunctionName.checkPattern (FunctionName.callPattern name))
    match ← Run.attempt (tree.files includeHeaders) with
    | .error e => throw (.under "scan search" e)
    | .ok paths => scanFiles name tree paths

/-! ### Chains -/

/-- Tries the locators in turn; `failures` are those of the locators already tried. -/
def tryEach (name : Text) (tree : SourceTree) (failures : List Failure) :
    List Locator → Run (List Occurrence)
  | [] =>
    if failures.isEmpty then throw (.message ("locate " ++ name ++ ": no locator configured"))
    else throw (.under ("locate " ++ name) (.join failures))
  | l :: rest => do
    match ← Run.attempt (l.locate name tree) with
    | .ok os =>
      Run.count (.locate l.backend true)
      return os
    | .error e =>
      match ← Run.look with
      | some c => throw (.cause c)
      | none =>
        Run.count (.locate l.backend false)
        Run.note .info "locator fell through"
          [("backend", l.backend), ("function", name), ("error", e.text)]
        tryEach name tree (failures ++ [e]) rest

/-- The first of several locators that answers. -/
def chain (locators : List Locator) : Locator where
  backend := match locators with
    | [] => []
    | l :: _ => l.backend
  locate name tree := tryEach name tree [] locators

end Locator

end CallerTree
