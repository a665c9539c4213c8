import CallerTree.CallTree
import CallerTree.Failure
import CallerTree.Json

/-!
# Caller trees as JSON documents
-/

namespace CallerTree

/-- The scope is left out when there is none. -/
def Occurrence.toJson (o : Occurrence) : Json :=
  .objWith [("file_path", .str o.file), ("line_number", .num o.line), ("code_line", .str o.code)]
    (if o.scope.isEmpty then [] else [("function_context", .str o.scope)])

namespace CallTree

mutual

def toJson : CallTree → Json
  | absent => .null
  | node head callers =>
    let callersJson := callersToJson callers
    .objWith [
      ("function_name", .str head.name),
      ("depth", .num head.depth),
      ("callers", if head.unlisted then .null else .arr callersJson),
      ("total_callers", .num head.total),
      ("is_recursive", .bool head.isRecursive),
      ("max_depth_reached", .bool head.atDepthLimit)]
      (match head.site with
        | some site => [("call_site", site.toJson)]
        | none => [])

def callersToJson : List CallTree → List Json
  | [] => []
  | t :: rest => t.toJson :: callersToJson rest

end

end CallTree

/-- The body of an answer that reports a failure. -/
def Failure.Report.toJson (r : Failure.Report) : Json :=
  .obj [("code", .str r.code.label), ("error", .str r.message)]

/-- A caller tree, by its root and what is below it, with the request that led to it. -/
structure Document where
  head : Head
  callers : List CallTree
  basePath : Text
  maxDepth : Int
  /-- The time of writing. -/
  time : Text

namespace Document

/-- The document of a tree, which must have a root. -/
def ofTree (tree : CallTree) (basePath : Text) (maxDepth : Int) (time : Text) :
    Except Panic Document :=
  match tree with
  | .absent => .error .absent
  | .node head callers => .ok { head, callers, basePath, maxDepth, time }

def tree (d : Document) : CallTree := .node d.head d.callers

def toJson (d : Document) : Json :=
  .obj [
    ("function", .str d.head.name),
    ("basePath", .str d.basePath),
    ("maxDepth", .num d.maxDepth),
    ("exportedAt", .str d.time),
    ("nodes", .num d.tree.size),
    ("hierarchy", d.tree.toJson)]

/-- The failure to write a container with this bracket. -/
def tooDeep (bracket : Char) : Failure :=
  .under "encode json"
    (.message ("invalid character '" ++ Text.ofChars [bracket] ++ "' exceeded max depth"))

/-- The indented document, ending its last line. Nothing is written of one that is nested too
deep. -/
def render (d : Document) : Except Failure Text :=
  match d.toJson.overflow? Json.nestingLimit with
  | some bracket => .error (tooDeep bracket)
  | none => .ok (d.toJson.indented 0 ++ "\n")

end Document

end CallerTree
