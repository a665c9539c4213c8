import CallerTree.Hierarchy.Resolve
import CallerTree.Locator.Basic

/-!
# Call sites

The call sites of a function are the located occurrences that are calls, each with the function it
stands in. An index reports that function; otherwise it is read off the file.
-/

namespace CallerTree

namespace Hierarchy

/-- The files read for one function: their lines, or nothing if unreadable. -/
abbrev FileCache := List (Text × Option (List Text))

/-- The path of a file that an occurrence names. -/
def sourcePath (root file : Text) : Text :=
  if Path.isAbsolute file then file else Path.join root file

/-- The lines of a file of the tree, read at most once. -/
def linesOf (tree : SourceTree) (o : Occurrence) (cache : FileCache) :
    Run (Option (List Text) × FileCache) := do
  match cache.find? (·.1 = o.file) with
  | some (_, lines) => return (lines, cache)
  | none =>
    match Locator.readSource (← Run.files) (sourcePath tree.root o.file) with
    | .ok lines => return (some lines, (o.file, some lines) :: cache)
    | .error e =>
      Run.note .debug "caller unresolved"
        [("file", o.file), ("line", .int o.line), ("error", e.text)]
      return (none, (o.file, none) :: cache)

/-- The function that an occurrence stands in. -/
def callerOf (tree : SourceTree) (o : Occurrence) (cache : FileCache) : Run (Text × FileCache) := do
  if o.scope ≠ [] then return (Line.callerFromScope o.scope o.code, cache)
  let (lines, cache) ← linesOf tree o cache
  match lines with
  | some lines => return (Line.enclosingFunction lines o.line, cache)
  | none => return (Line.unknownCaller, cache)

/-- The calls among occurrences. -/
def callsAmong (tree : SourceTree) (name : Text) (cache : FileCache) :
    List Occurrence → Run (List Call)
  | [] => return []
  | o :: rest => do
    if (Line.classify name o.code).isCall then
      let (caller, cache) ← callerOf tree o cache
      return { site := o, caller } :: (← callsAmong tree name cache rest)
    else callsAmong tree name cache rest

/-- The call sites of a name. -/
def callSites (locator : Locator) (tree : SourceTree) (name : Text) : Run (List Call) := do
  callsAmong tree name [] (← locator.locate name tree)

/-- The call sites of a function that is being expanded. -/
def expandedSites (locator : Locator) (tree : SourceTree) (name : Text) (depth : Nat) :
    Run (List Call) := do
  let calls ← callSites locator tree name
  Run.note .debug "expanding function"
    [("function", name), ("depth", .ofNat depth), ("call_sites", .ofNat calls.length)]
  return calls

/-- The caller tree of a name in a source tree. -/
def build (locator : Locator) (tree : SourceTree) (limit : Int) (name : Text) : Run CallTree :=
  resolve Run.check (expandedSites locator tree) limit name

/-- The function around a line of a file. -/
def enclosingIn (fs : FileSystem) (root file : Text) (line : Int) : Except Failure Text := do
  return Line.enclosingFunction (← Locator.readSource fs (sourcePath root file)) line

end Hierarchy

end CallerTree
