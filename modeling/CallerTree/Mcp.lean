import CallerTree.Export.Document
import CallerTree.Export.Mermaid
import CallerTree.Export.Outline
import CallerTree.Service

/-!
# The tool interface

The Model Context Protocol offers the service to assistants as three tools. A tool takes named
arguments and answers with structured content, or with a text.
-/

namespace CallerTree

namespace Mcp

/-! ### Descriptions -/

inductive ArgumentType where
  | text
  | integer
  | optionalInteger
  deriving DecidableEq, Repr

structure Argument where
  name : Text
  type : ArgumentType
  required : Bool
  description : Text
  deriving DecidableEq, Repr

structure Description where
  name : Text
  description : Text
  arguments : List Argument
  deriving DecidableEq, Repr

/-- The tools in the order of their names. -/
def descriptions : List Description := [
  { name := "get_call_hierarchy"
    description := "Find every caller of a C/C++ function, recursively, as a tree. Uses a cscope cross-reference when available and falls back to text search. Recursion stops at maxDepth or when a function reappears on its own path."
    arguments := [
      ⟨"functionName", .text, true,
        "C or C++ function whose callers to find, optionally namespace-qualified"⟩,
      ⟨"basePath", .text, true, "absolute path of the source tree to search"⟩,
      ⟨"maxDepth", .optionalInteger, false, "maximum caller levels to expand (default: 10)"⟩,
      ⟨"format", .text, false, "json (default), tree or mermaid"⟩] },
  { name := "get_file_content"
    description := "Return the lines surrounding a line of a file, with the file's type and total line count."
    arguments := [
      ⟨"filePath", .text, true, "file to read, absolute or relative to basePath"⟩,
      ⟨"lineNumber", .integer, true, "1-based line to center the window on"⟩,
      ⟨"contextLines", .optionalInteger, false, "lines to include on each side (default: 10)"⟩,
      ⟨"basePath", .text, false, "directory relative file paths are resolved against"⟩] },
  { name := "search_code"
    description := "Search a directory for a regular expression and return file:line:text matches, truncated to limit. The limited flag reports whether more matches exist."
    arguments := [
      ⟨"path", .text, true, "absolute path of the directory to search"⟩,
      ⟨"pattern", .text, true,
        "regular expression, matched case-insensitively unless it contains upper case"⟩,
      ⟨"limit", .optionalInteger, false,
        "maximum result lines, 0 for no limit (default: 50)"⟩] }]

def ArgumentType.toJson : ArgumentType → Json
  | text => .str "string"
  | integer => .str "integer"
  | optionalInteger => .arr [.str "null", .str "integer"]

/-- The schema of a tool's arguments. -/
def Description.schema (d : Description) : Json :=
  .obj [("type", .str "object"),
    ("properties", .obj (d.arguments.map fun a =>
      (a.name, .obj [("type", a.type.toJson), ("description", .str a.description)]))),
    ("required", .strs ((d.arguments.filter (·.required)).map (·.name))),
    ("additionalProperties", .bool false)]

/-! ### Calls -/

inductive Call where
  | callHierarchy (function basePath : Text) (maxDepth : Option Int) (format : Text)
  | fileContent (path : Text) (line : Int) (width : Option Int) (basePath : Text)
  | searchCode (root pattern : Text) (limit : Option Int)
  deriving DecidableEq, Repr

/-- A named argument as a text; one that is left out is empty. -/
def textArgument (arguments : List (Text × Json)) (name : Text) : Text :=
  match arguments.lookup name with
  | some (.str t) => t
  | _ => []

/-- A named argument as an integer; null counts as left out. -/
def intArgument (arguments : List (Text × Json)) (name : Text) : Option Int :=
  match arguments.lookup name with
  | some (.num n) => some n
  | _ => none

/-- The call of a tool, if there is a tool of that name. -/
def Call.ofArguments? (tool : Text) (arguments : List (Text × Json)) : Option Call :=
  let text := textArgument arguments
  let int := intArgument arguments
  if tool = "get_call_hierarchy" then
    some (.callHierarchy (text "functionName") (text "basePath") (int "maxDepth") (text "format"))
  else if tool = "get_file_content" then
    some (.fileContent (text "filePath") ((int "lineNumber").getD 0) (int "contextLines")
      (text "basePath"))
  else if tool = "search_code" then
    some (.searchCode (text "path") (text "pattern") (int "limit"))
  else none

inductive Content where
  | structured (j : Json)
  | text (t : Text)
  /-- A failed call. -/
  | failed (r : Failure.Report)
  deriving Repr

/-- A failed call is reported with its code. -/
def Content.failureText (r : Failure.Report) : Text := r.failure.text

/-- The callers of a function in a format. -/
def callHierarchy (s : Service) (function basePath : Text) (depth : Option Int) (format : Text) :
    Run (Except Panic Content) := do
  match ← Run.attempt (s.hierarchy function basePath depth) with
  | .error f =>
    Run.note .warn "get_call_hierarchy failed" [("function", function), ("error", f.text)]
    return .ok (.failed f.report)
  | .ok tree =>
    if format.isEmpty || format = "json" then return .ok (.structured tree.toJson)
    else if format = "tree" then return .text <$> tree.writtenBy CallTree.outline
    else if format = "mermaid" then return .text <$> tree.writtenBy CallTree.mermaid
    else
      return .ok (.failed ⟨.invalidInput, "unknown format " ++ format.quoted, none⟩)

def run (s : Service) : Call → Run (Except Panic Content)
  | .callHierarchy function basePath depth format => callHierarchy s function basePath depth format
  | .fileContent path line width basePath => do
    match ← s.fileContext path line width basePath with
    | .ok c => return .ok (.structured c.toJson)
    | .error (.refused f) => return .ok (.failed f.report)
    | .error (.panicked p) => return .error p
  | .searchCode root pattern limit => do
    match ← Run.attempt (s.search root pattern limit) with
    | .ok found => return .ok (.structured found.toJson)
    | .error f => return .ok (.failed f.report)

end Mcp

end CallerTree
