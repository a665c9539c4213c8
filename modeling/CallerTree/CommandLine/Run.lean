import CallerTree.CommandLine.Help
import CallerTree.Config.Load
import CallerTree.Export.Document
import CallerTree.Export.Mermaid
import CallerTree.Export.Outline
import CallerTree.Http.Address
import CallerTree.Service

/-!
# Running the program

What the arguments ask for is settled first (`plan`), without a look at the world. Then the settings
are loaded and the command does its work.

## Contract

Help never fails and loads no settings, unless it was asked for by the command `help`. A run either
fails or prints: what it prints is complete.
-/

namespace CallerTree

namespace CommandLine

/-- What the program finds around it. -/
structure Environment where
  version : Text
  /-- The current time as documents show it. -/
  time : Text
  tools : Toolbox

/-! ### What is asked for -/

/-- What the arguments ask for. -/
inductive Plan where
  | print (t : Text)
  | refuse (message : Text)
  | perform (s : Spec) (given : Given)
  deriving DecidableEq, Repr

/-- Why a command does not accept positional arguments. -/
def Arity.problem? (a : Arity) (title : Text) (positional : List Text) : Option Text :=
  match a, positional with
  | anyWords, _ => none
  | noWords, [] => none
  | noWords, word :: _ => some ("unknown command " ++ word.quoted ++ " for " ++ title.quoted)
  | exactly n, words =>
    if words.length = n then none
    else some ("accepts " ++ Text.ofNat n ++ " arg(s), received " ++ Text.ofNat words.length)

/-- Settles what the arguments ask for. -/
def plan (all : List Spec) (args : List Text) : Plan :=
  match find all args with
  | .error message => .refuse message
  | .ok (s, rest) =>
    match parse (s.allFlags ++ [Flag.help s.name]) (rest.length + 1) rest {} with
    | .error message => .refuse message
    | .ok given =>
      if given.isOn "help" || !s.runs then .print (helpText all s)
      else match s.arity.problem? s.title given.positional with
        | some message => .refuse message
        | none => .perform s given

/-! ### Settings -/

/-- Loads the settings of the directory named by the flags and changes them as the flags say. -/
def settings (files : FileSystem) (given : Given) : Except Text Config := do
  let c ← (Config.load files ((given.text? "config-dir").getD ".")).mapError fun e =>
    "load config: " ++ e.text
  let changed := fun name (old : Text) =>
    let t := (given.text? name).getD []
    if t.isEmpty then old else t
  let c := { c with log := ⟨changed "log-level" c.log.level, changed "log-format" c.log.format⟩ }
  match c.problem? with
  | some p => throw p.text
  | none => return c

def engineOf (tools : Toolbox) (c : Config) : Engine where
  tools
  options := EngineOptions.filled {
    indexTool := c.tools.cscope
    grepTool := c.tools.grep
    includeHeaders := c.includeHeaders
    fanout := c.fanout
    excludes := c.excludes.getD []
    disableIndex := c.disableIndex }

/-! ### Commands -/

/-- An absolute path. -/
def absolute (files : FileSystem) (path : Text) : Text :=
  if Path.isAbsolute path then Path.clean path
  else Path.join (Path.ofComponents true files.workingDirectory) path

/-- Resolves the callers of a function and writes them in the format asked for. -/
def printHierarchy (env : Environment) (c : Config) (given : Given) :
    Run (Except Panic Text) := do
  let files ← Run.files
  let base := absolute files
    ((given.text? "path").getD (Path.ofComponents true files.workingDirectory))
  let depth := (given.int? "depth").getD c.maxDepth
  let tree ← Run.within c.requestTimeout <|
    (engineOf env.tools c).hierarchy (given.positional.headD []) base depth
  let format := (given.text? "format").getD "json"
  if format = "json" then
    match Document.ofTree tree base depth env.time with
    | .error p => return .error p
    | .ok d => return .ok (← Run.ofExcept d.render)
  else if format = "tree" then return tree.writtenBy CallTree.outline
  else if format = "mermaid" then return tree.writtenBy CallTree.mermaid
  else throw (.message ("unknown format " ++ format.quoted ++ " (want json, tree or mermaid)"))

/-- Listens until the context ends. -/
def listen (c : Config) (given : Given) : Run Text := do
  let wanted := (given.text? "listen").getD []
  match Http.Address.ofText (if wanted.isEmpty then c.listen else wanted) with
  | .error e => throw (.message e.text)
  | .ok a =>
    Run.note .info "listening" [("addr", a.shown)]
    return []

/-- The help that the command `help` prints. -/
def helpAnswer (all : List Spec) (words : List Text) : Text :=
  match find all words with
  | .ok (s, _) => helpText all s
  | .error _ => unknownTopic all words

/-- Does what a command is for. -/
def performCommand (env : Environment) (all : List Spec) (s : Spec) (c : Config) (given : Given) :
    Run (Except Panic Text) :=
  if s.name = "hierarchy" then printHierarchy env c given
  else if s.name = "serve" then return .ok (← listen c given)
  else if s.name = "mcp" then do
    Run.check
    return .ok []
  else if s.name = "version" then return .ok (env.version ++ "\n")
  else if s.name = "help" then return .ok (helpAnswer all given.positional)
  else throw (.message ("no completion script for " ++ s.name))

/-! ### Runs -/

/-- What a run leaves on its output channels, and why it failed if it did. -/
structure Outcome where
  stdout : Text := []
  stderr : Text := []
  failure : Option Failure := none
  panic : Option Panic := none

/-- Runs a command under loaded settings. The log is written as the settings say. -/
def performLogged (env : Environment) (all : List Spec) (s : Spec) (c : Config) (given : Given)
    (w : World) : Outcome × World :=
  let logged := fun (w : World) => renderLog (.ofSetting c.log.level) c.log.format w.log
  match performCommand env all s c given w with
  | .ok (.ok stdout) w => ({ stdout, stderr := logged w }, w)
  | .ok (.error p) w => ({ panic := some p, stderr := logged w }, w)
  | .error f w => ({ failure := some f, stderr := logged w }, w)

/-- Runs the program with the given arguments. -/
def run (env : Environment) (args : List Text) (w : World) : Outcome × World :=
  let all := commands (Path.ofComponents true w.files.workingDirectory)
  match plan all args with
  | .print t => ({ stdout := t }, w)
  | .refuse message => ({ failure := some (.message message) }, w)
  | .perform s given =>
    if s.name = "version" then performLogged env all s {} given w
    else match settings w.files given with
      | .error message => ({ failure := some (.message message) }, w)
      | .ok c => performLogged env all s c given w

end CommandLine

end CallerTree
