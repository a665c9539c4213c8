import CallerTree.Export.Document
import CallerTree.Http.Page
import CallerTree.Http.Route
import CallerTree.Service

/-!
# Answering requests

Every request gets an identifier, its own or a new one, and is logged when it has been answered.

## Contract

A handler answers by calls on a writer: it sets headers, writes a status and writes a body. What the
client gets is read off these calls (`Recorder.response`): the first status counts, headers that are
set after it are lost, and a body without a status comes with 200. The log shows the last status
instead, so both are the same only for handlers that write one status before they write the body.
-/

namespace CallerTree

namespace Http

structure Request where
  method : Text := "GET"
  target : Target
  /-- The identifier that the client sent, if any. -/
  id : Text := []
  deriving Repr

/-! ### Writing a response -/

structure Response where
  status : Nat
  headers : List (Text × Text) := []
  body : Text := []
  deriving DecidableEq, Repr

/-- The value of a header, empty if there is none. -/
def Response.header (r : Response) (name : Text) : Text := (r.headers.lookup name).getD []

/-- A call on the writer of a response. -/
inductive WriterCall where
  | setHeader (name value : Text)
  | writeHeader (status : Nat)
  | write (body : Text)
  deriving DecidableEq, Repr

/-- What becomes of a response that has these headers so far and no status yet. -/
def Response.ofCalls (headers : List (Text × Text)) : List WriterCall → Response
  | [] => { status := 200, headers }
  | .setHeader name value :: calls =>
    ofCalls ((name, value) :: headers.filter (·.1 ≠ name)) calls
  | .writeHeader status :: calls => { status, headers, body := bodyOf calls }
  | .write body :: calls => { status := 200, headers, body := body ++ bodyOf calls }
where
  /-- All that is written is one body. -/
  bodyOf (calls : List WriterCall) : Text :=
    calls.flatMap fun call => match call with
      | .write body => body
      | _ => []

/-- A writer that keeps the status for the log and passes every call on. -/
structure Recorder where
  calls : List WriterCall := []
  status : Nat := 200
  deriving DecidableEq, Repr

namespace Recorder

def setHeader (r : Recorder) (name value : Text) : Recorder :=
  { r with calls := r.calls ++ [.setHeader name value] }

def writeHeader (r : Recorder) (status : Nat) : Recorder :=
  { calls := r.calls ++ [.writeHeader status], status }

def write (r : Recorder) (body : Text) : Recorder := { r with calls := r.calls ++ [.write body] }

/-- The response that the client gets. -/
def response (r : Recorder) : Response := .ofCalls [] r.calls

def writeJson (r : Recorder) (status : Nat) (j : Json) : Recorder :=
  ((r.setHeader "Content-Type" "application/json").writeHeader status).write (j.compact ++ "\n")

def writeReport (r : Recorder) (report : Failure.Report) : Recorder :=
  r.writeJson report.status report.toJson

/-- An error of the server itself. -/
def writePlain (r : Recorder) (status : Nat) (message : Text) : Recorder :=
  (((r.setHeader "Content-Type" "text/plain; charset=utf-8").setHeader
    "X-Content-Type-Options" "nosniff").writeHeader status).write (message ++ "\n")

/-- Characters with a meaning in HTML are written as entities. -/
def entity (g : Glyph) : Text :=
  if g = .char '&' then "&amp;"
  else if g = .char '<' then "&lt;"
  else if g = .char '>' then "&gt;"
  else if g = .char '"' then "&#34;"
  else if g = .char '\'' then "&#39;"
  else [g]

/-- A redirection; only a plain request gets a body. -/
def redirect (r : Recorder) (method location : Text) : Recorder :=
  let r := r.setHeader "Location" location
  if method = "GET" then
    ((r.setHeader "Content-Type" "text/html; charset=utf-8").writeHeader 307).write
      ("<a href=\"" ++ location.flatMap entity ++ "\">Temporary Redirect</a>.\n\n")
  else if method = "HEAD" then
    (r.setHeader "Content-Type" "text/html; charset=utf-8").writeHeader 307
  else r.writeHeader 307

end Recorder

/-! ### Parameters -/

/-- A parameter that is no integer. -/
def notInteger (name value : Text) : Failure.Report where
  code := .invalidInput
  message := name ++ " must be an integer: " ++ value.quoted
  origin := none

/-- An integer parameter; `none` if it is left out. -/
def integer (t : Target) (name : Text) : Except Failure.Report (Option Int) :=
  let value := t.parameter name
  if value.isEmpty then .ok none
  else match Text.readInt? value with
    | some n => .ok (some n)
    | none => .error (notInteger name value)

/-! ### Handlers -/

/-- A failed search is answered like one without results. -/
def Recorder.writeSearchFailure (r : Recorder) (report : Failure.Report) : Recorder :=
  r.writeJson report.status (.obj [("error", .str report.message),
    ("code", .str report.code.label), ("results", .arr []), ("limited", .bool false)])

def search (s : Service) (t : Target) (r : Recorder) : Run Recorder := do
  match integer t "limit" with
  | .error report => return r.writeSearchFailure report
  | .ok limit =>
    match ← Run.attempt (s.search (t.parameter "path") (t.parameter "pattern") limit) with
    | .ok found => return r.writeJson 200 found.toJson
    | .error f =>
      Run.note .warn "search failed" [("error", f.text)]
      let report := f.report
      return r.writeSearchFailure (if report.code = .invalidInput then
        { report with message := "Invalid directory path" } else report)

/-- The lines around a line of a file. -/
def fileContent (s : Service) (t : Target) (r : Recorder) : Run (Except Panic Recorder) := do
  match integer t "line_number", integer t "context_lines" with
  | .error report, _ => return .ok (r.writeReport report)
  | .ok _, .error report => return .ok (r.writeReport report)
  | .ok line, .ok width =>
    let base := t.parameter "base_path"
    match ← s.fileContext (t.parameter "file_path") (line.getD 0) width base with
    | .ok c => return .ok (r.writeJson 200 c.toJson)
    | .error (.refused f) => return .ok (r.writeReport f.report)
    | .error (.panicked p) => return .error p

def callHierarchy (s : Service) (t : Target) (r : Recorder) : Run Recorder := do
  match integer t "max_depth" with
  | .error report => return r.writeReport report
  | .ok depth =>
    let function := t.parameter "function_name"
    match ← Run.attempt (s.hierarchy function (t.parameter "base_path") depth) with
    | .ok tree => return r.writeJson 200 tree.toJson
    | .error f =>
      let report := f.report
      if report.code ≠ .invalidInput then
        Run.note .error "call hierarchy failed" [("function", function), ("error", f.text)]
      return r.writeReport report

/-! ### The server -/

structure Server where
  service : Service
  /-- Answers the tool interface, if there is one. -/
  tools : Option (Request → Recorder → Run Recorder) := none

namespace Server

/-- Answers a request by its route. What the counters say is left out. -/
def dispatch (s : Server) (q : Request) (r : Recorder) : Run (Except Panic Recorder) := do
  match route s.tools.isSome q.method q.target with
  | .notFound => return .ok (r.writePlain 404 "404 page not found")
  | .wrongMethod =>
    return .ok ((r.setHeader "Allow" "GET, HEAD").writePlain 405 "Method Not Allowed")
  | .moved location => return .ok (r.redirect q.method location)
  | .to .page =>
    return .ok ((r.setHeader "Content-Type" "text/html; charset=utf-8").write page)
  | .to .search => return .ok (← search s.service q.target r)
  | .to .fileContent => fileContent s.service q.target r
  | .to .callHierarchy => return .ok (← callHierarchy s.service q.target r)
  | .to .metrics => return .ok r
  | .to .tools =>
    match s.tools with
    | some answer => return .ok (← answer q r)
    | none => return .ok (r.writePlain 404 "404 page not found")

/-- Answers a request, which is `newId` if it came without an identifier, and logs it with the
status that was recorded. -/
def answer (s : Server) (newId : Text) (q : Request) : Run (Except Panic Recorder) := do
  let id := if q.id.isEmpty then newId else q.id
  match ← s.dispatch q (({} : Recorder).setHeader "X-Request-Id" id) with
  | .error p => return .error p
  | .ok r =>
    Run.note .info "request" [("request_id", id), ("method", q.method), ("path", q.target.path),
      ("status", .ofNat r.status)]
    return .ok r

end Server

end Http

end CallerTree
