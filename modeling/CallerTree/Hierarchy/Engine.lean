import CallerTree.Hierarchy.CallSites

/-!
# The hierarchy engine

A request names a function, a directory and a depth limit. The engine checks it, tries to build a
cross-reference index for the directory, assembles the locators that can be used and resolves the
hierarchy.

## Contract

Nothing is run or written before the request has been checked. A missing index is no failure: the
text search answers instead, and the scan if that is missing too.

`Engine.hierarchy` expands the callers of a function one after the other. With a `fanout` above one
several of them may be expanded side by side, in an order that is up to chance; the run defined here
is then one of those that can happen.
-/

namespace CallerTree

structure EngineOptions where
  indexTool : Text := "cscope"
  grepTool : Text := "grep"
  includeHeaders : Bool := false
  /-- The callers of one function that are expanded at a time; values below one count as one. -/
  fanout : Int := 1
  excludes : List Text := []
  disableIndex : Bool := false
  deriving Repr

/-- The options with the usual tools for those that are not named. -/
def EngineOptions.filled (o : EngineOptions) : EngineOptions :=
  { o with
    indexTool := if o.indexTool.isEmpty then "cscope" else o.indexTool
    grepTool := if o.grepTool.isEmpty then "grep" else o.grepTool
    fanout := max 1 o.fanout }

structure Engine where
  tools : Toolbox
  options : EngineOptions

namespace Engine

def indexListName : Text := "cscope.files"

/-- Builds the cross-reference index of a source tree. -/
def buildIndex (e : Engine) (tree : SourceTree) : Run Unit := do
  let unavailable := fun detail => Failure.because .indexUnavailable detail
  let tool := e.options.indexTool
  let paths ← match ← Run.attempt (tree.files true) with
    | .ok paths => pure paths
    | .error f =>
      Run.count (.build .enumerateFailed)
      throw (unavailable f.text)
  let listPath := Path.join tree.root indexListName
  match (← Run.files).write listPath (SourceTree.fileList paths).utf8 with
  | .ok files => modify fun w => { w with files }
  | .error reason =>
    Run.count (.build .writeFailed)
    throw (unavailable ("write " ++ listPath ++ ": " ++ reason))
  match ← Run.attempt (Run.command e.tools
      { name := tool, args := ["-b", "-q", "-k"], dir := tree.root }) with
  | .error f =>
    Run.count (.build .spawnFailed)
    Run.note .warn "index build failed" [("root", tree.root), ("error", f.text)]
    throw (unavailable f.text)
  | .ok out =>
    if out.exit ≠ 0 then
      Run.count (.build .toolFailed)
      let stderr := out.errorText.trim
      Run.note .warn "index build returned non-zero"
        [("root", tree.root), ("exit", .int out.exit), ("stderr", stderr)]
      throw (unavailable (tool ++ " exited " ++ Text.ofInt out.exit ++ ": " ++ stderr))
    else
      Run.count (.build .ok)
      Run.note .debug "index built" [("root", tree.root), ("files", .ofNat paths.length)]

/-- Whether the index can be asked: it is wanted, and could be built. -/
def hasIndex (e : Engine) (tree : SourceTree) : Run Bool := do
  if e.options.disableIndex then return false
  match ← Run.attempt (e.buildIndex tree) with
  | .ok _ => return true
  | .error f =>
    Run.note .warn "index unavailable, using text search"
      [("base_path", tree.root), ("error", f.text)]
    return false

/-- The locators that can be used: the index if there is one, the text search if its tool is
installed, and the scan. -/
def locators (e : Engine) (indexed : Bool) : List Locator :=
  let o := e.options
  (if indexed then [Locator.index e.tools o.indexTool] else []) ++
    (if e.tools.isInstalled o.grepTool then
      [Locator.grep e.tools o.grepTool o.includeHeaders] else []) ++
    [Locator.scan o.includeHeaders]

/-- Notes that the tool of the text search is missing, if it is. -/
def noteMissing (e : Engine) : Run Unit := do
  if !e.tools.isInstalled e.options.grepTool then
    Run.note .debug "grep not found" [("tool", e.options.grepTool)]

/-- The locator for a source tree, after an attempt to build the index. -/
def locator (e : Engine) (tree : SourceTree) : Run Locator := do
  let indexed ← e.hasIndex tree
  e.noteMissing
  return Locator.chain (e.locators indexed)

/-- Gets ready to resolve a function in a source tree: everything that comes before the first
lookup. -/
def ready (e : Engine) (tree : SourceTree) (function : Text) (limit : Int) : Run Locator := do
  let locator ← e.locator tree
  Run.note .info "resolving call hierarchy"
    [("function", function), ("base_path", tree.root), ("max_depth", .int limit),
      ("backend", locator.backend)]
  return locator

/-- Resolves a function in a source tree. -/
def resolveIn (e : Engine) (tree : SourceTree) (function : Text) (limit : Int) : Run CallTree := do
  let locator ← e.ready tree function limit
  Hierarchy.build locator tree limit function

/-- Checks a request. -/
def accept (e : Engine) (function basePath : Text) (limit : Int) : Run SourceTree := do
  Run.ofExcept (FunctionName.validate function)
  if limit < 0 then
    throw (.because .invalidRequest ("max depth must not be negative: " ++ Text.ofInt limit))
  Run.ofExcept (SourceTree.ofRoot (← Run.files) basePath e.options.excludes)

/-- Checks a request and resolves it. -/
def answer (e : Engine) (function basePath : Text) (limit : Int) : Run CallTree := do
  let tree ← e.accept function basePath limit
  e.resolveIn tree function limit

/-- How a request went. -/
def outcomeOf {α : Type} : Except Failure α → ResolveOutcome
  | .ok _ => .ok
  | .error f =>
    if f.has .invalidRequest then .invalid
    else if f.has .deadline || f.has .canceled then .cancelled
    else .error

/-- Counts how a request went, and what it found. -/
def conclude (result : Except Failure CallTree) : Run CallTree := do
  Run.count (.resolve (outcomeOf result))
  let tree ← Run.ofExcept result
  Run.count (.nodes tree.size)
  return tree

/-- The caller tree of a function in the sources below a directory. -/
def hierarchy (e : Engine) (function basePath : Text) (limit : Int) : Run CallTree := do
  conclude (← Run.attempt (e.answer function basePath limit))

end Engine

end CallerTree
