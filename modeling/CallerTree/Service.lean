import CallerTree.FileContext
import CallerTree.Hierarchy.Engine
import CallerTree.Search

/-!
# The service behind the network interfaces

Requests leave out settings that the service then fills in. A request runs under a time limit.
-/

namespace CallerTree

/-- What requests may leave out. A zero stands for the default of the operation. -/
structure Defaults where
  maxDepth : Int := 0
  searchLimit : Int := 0
  contextLines : Int := 0
  /-- The time limit of a request in nanoseconds; none unless it is positive. -/
  timeout : Int := 0
  deriving DecidableEq, Repr

def Defaults.filled (d : Defaults) : Defaults where
  maxDepth := if d.maxDepth = 0 then 10 else d.maxDepth
  searchLimit := if d.searchLimit = 0 then Search.defaultLimit else d.searchLimit
  contextLines := if d.contextLines = 0 then FileContext.defaultWidth else d.contextLines
  timeout := d.timeout

structure Service where
  engine : Engine
  searchTool : Text
  defaults : Defaults

namespace Service

def hierarchy (s : Service) (function basePath : Text) (depth : Option Int) : Run CallTree :=
  Run.within s.defaults.timeout <|
    s.engine.hierarchy function basePath (depth.getD s.defaults.filled.maxDepth)

def search (s : Service) (root pattern : Text) (limit : Option Int) : Run SearchResult :=
  Run.within s.defaults.timeout <|
    Search.run s.engine.tools s.searchTool root pattern (limit.getD s.defaults.filled.searchLimit)

def fileContext (s : Service) (path : Text) (line : Int) (width : Option Int) (basePath : Text) :
    Run (Except ContextError FileContext) :=
  return FileContext.read (← Run.files) path line (width.getD s.defaults.filled.contextLines)
    basePath

end Service

end CallerTree
