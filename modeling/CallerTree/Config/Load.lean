import CallerTree.Config.Basic
import CallerTree.FileSystem
import CallerTree.Path
import CallerTree.Yaml.Decode

/-!
# Loading settings

The settings of a directory are in one of two files. A file that cannot be read is passed over, and
settings that a file does not mention have their defaults.
-/

namespace CallerTree

namespace Config

open Yaml (NodeId)
open Yaml.Decode (Fields record)

/-- Changes a field to a decoded value, if there is one. -/
def setting {α β : Type} (decode : NodeId → Yaml.Decode (Option β)) (change : β → α → α)
    (n : NodeId) (a : α) : Yaml.Decode α := do
  match ← decode n with
  | some b => return change b a
  | none => return a

def toolFields : Fields ToolNames := fun key =>
  if key = "cscope" then some (setting Yaml.Decode.text fun t c => { c with cscope := t })
  else if key = "grep" then some (setting Yaml.Decode.text fun t c => { c with grep := t })
  else if key = "ag" then some (setting Yaml.Decode.text fun t c => { c with ag := t })
  else none

def logFields : Fields LogSettings := fun key =>
  if key = "level" then some (setting Yaml.Decode.text fun t c => { c with level := t })
  else if key = "format" then some (setting Yaml.Decode.text fun t c => { c with format := t })
  else none

open Yaml.Decode in
def fields : Fields Config := fun key =>
  if key = "listen" then some (setting text fun t c => { c with listen := t })
  else if key = "maxDepth" then some (setting (int "int") fun n c => { c with maxDepth := n })
  else if key = "includeHeaders" then
    some (setting bool fun b c => { c with includeHeaders := b })
  else if key = "fanout" then some (setting (int "int") fun n c => { c with fanout := n })
  else if key = "maxProcesses" then
    some (setting (int "int64") fun n c => { c with maxProcesses := n })
  else if key = "requestTimeout" then
    some (setting duration fun n c => { c with requestTimeout := n })
  else if key = "killGrace" then some (setting duration fun n c => { c with killGrace := n })
  else if key = "excludes" then some (setting texts fun l c => { c with excludes := l })
  else if key = "disableIndex" then some (setting bool fun b c => { c with disableIndex := b })
  else if key = "searchLimit" then
    some (setting (int "int") fun n c => { c with searchLimit := n })
  else if key = "contextLines" then
    some (setting (int "int") fun n c => { c with contextLines := n })
  else if key = "tools" then some fun n c => do
    return { c with tools := ← record "config.Tools" toolFields n c.tools }
  else if key = "log" then some fun n c => do
    return { c with log := ← record "config.Log" logFields n c.log }
  else none

/-- Settings written as a YAML text. -/
def parse (data : Bytes) : Except Yaml.DecodeError Config :=
  Yaml.decode (record "config.Config" fields) data {}

/-- Why a settings file is refused. -/
inductive LoadError where
  | malformed (path : Text) (e : Yaml.DecodeError)
  | unusable (path : Text) (p : Problem)
  deriving DecidableEq, Repr

def LoadError.text : LoadError → Text
  | malformed path e => "parse " ++ path ++ ": " ++ e.text
  | unusable path p => path ++ ": " ++ p.text

/-- The names of settings files, the one that counts first. -/
def fileNames : List Text := ["callscope.yml", "callscope.yaml"]

/-- The settings file of a directory, the first one that can be read, and its contents. -/
def source? (fs : FileSystem) (dir : Text) : Option (Text × Bytes) :=
  fileNames.findSome? fun name =>
    (fs.read (Path.join dir name)).toOption.map fun data => (Path.join dir name, data)

/-- The settings that a file with the given contents holds. -/
def ofFile (path : Text) (data : Bytes) : Except LoadError Config := do
  let c ← (parse data).mapError (.malformed path)
  match c.problem? with
  | some p => throw (.unusable path p)
  | none => return c

/-- Loads the settings of a directory. -/
def load (fs : FileSystem) (dir : Text) : Except LoadError Config :=
  match source? fs dir with
  | none => .ok {}
  | some (path, data) => ofFile path data

end Config

end CallerTree
