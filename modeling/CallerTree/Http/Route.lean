import CallerTree.Http.Url
import CallerTree.Path

/-!
# Routes

A request goes to a handler by its path and method. A path that is not written in its shortest form
is answered by a redirection.
-/

namespace CallerTree

namespace Http

/-- What can be asked for. -/
inductive Route where
  | page
  | search
  | fileContent
  | callHierarchy
  | metrics
  /-- The tool interface, for all methods. -/
  | tools
  deriving DecidableEq, Repr

/-- Where a request goes. -/
inductive Routing where
  | to (r : Route)
  | moved (location : Text)
  | wrongMethod
  | notFound
  deriving DecidableEq, Repr

namespace Route

/-- The segments under which routes are known. -/
def table (toolsMounted : Bool) : List (Text × Route) :=
  let fixed : List (Text × Route) := [
    ("/", page), ("search", search), ("file-content", fileContent),
    ("call-hierarchy", callHierarchy), ("metrics", metrics)]
  fixed ++ if toolsMounted then [(("mcp" : Text), tools)] else []

/-- The only segment of a path, decoded; that of the root is a slash. -/
def segment? (path : Text) : Option Text :=
  if path = "/" then some "/"
  else
    let segment := path.drop 1
    if segment.contains (.char '/') then none else some ((decode? false segment).getD segment)

def allows (r : Route) (method : Text) : Bool := r = tools || method = "GET" || method = "HEAD"

end Route

/-- The shortest form of a path; a slash at its end is kept. -/
def cleanPath (p : Text) : Text :=
  let rooted := if p.head? = some (.char '/') then p else .char '/' :: p
  let short := Path.clean rooted
  if rooted.getLast? = some (.char '/') && short ≠ "/" then short ++ "/" else short

/-- Finds the handler of a request. A request for a connection is taken as it was sent, but for an
empty path. -/
def route (toolsMounted : Bool) (method : Text) (t : Target) : Routing :=
  let connects := method = "CONNECT"
  let path := if connects then t.sentPath else cleanPath t.sentPath
  if path ≠ t.sentPath then
    .moved (path ++ if t.query.isEmpty then ([] : Text) else "?" ++ t.query)
  else match (Route.segment? (if path.isEmpty then "/" else path)).bind fun s =>
      (Route.table toolsMounted).lookup s with
    | none => .notFound
    | some r => if r.allows method then .to r else .wrongMethod

end Http

end CallerTree
