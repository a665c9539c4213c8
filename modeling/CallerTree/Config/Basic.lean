import CallerTree.Duration
import CallerTree.Text.Quoted

/-!
# Settings

The settings of the service with their defaults, and the checks on them.
-/

namespace CallerTree

/-- The names of the external tools. -/
@[ext]
structure ToolNames where
  cscope : Text := "cscope"
  grep : Text := "grep"
  ag : Text := "ag"
  deriving DecidableEq, Repr

@[ext]
structure LogSettings where
  level : Text := "info"
  format : Text := "text"
  deriving DecidableEq, Repr

/-- Durations are in nanoseconds. -/
@[ext]
structure Config where
  listen : Text := "127.0.0.1:8000"
  maxDepth : Int := 10
  includeHeaders : Bool := false
  fanout : Int := 1
  maxProcesses : Int := 4
  requestTimeout : Int := 120000000000
  killGrace : Int := 100000000
  /-- The patterns of excluded files; `none` if the setting was never given. -/
  excludes : Option (List Text) := none
  disableIndex : Bool := false
  searchLimit : Int := 50
  contextLines : Int := 10
  tools : ToolNames := {}
  log : LogSettings := {}
  deriving DecidableEq, Repr

namespace Config

/-- A value that nothing can work with. -/
inductive Problem where
  | belowOne (setting : Text) (value : Int)
  | negative (setting : Text) (value : Int)
  | logFormat (value : Text)
  deriving DecidableEq, Repr

def Problem.text : Problem → Text
  | belowOne setting value => setting ++ " must be at least 1: " ++ Text.ofInt value
  | negative setting value => setting ++ " must not be negative: " ++ Duration.write value
  | logFormat value => "log.format must be text or json: " ++ Text.quoted value

/-- The first setting that is out of range. -/
def problem? (c : Config) : Option Problem :=
  if c.maxDepth < 1 then some (.belowOne "maxDepth" c.maxDepth)
  else if c.searchLimit < 1 then some (.belowOne "searchLimit" c.searchLimit)
  else if c.fanout < 1 then some (.belowOne "fanout" c.fanout)
  else if c.maxProcesses < 1 then some (.belowOne "maxProcesses" c.maxProcesses)
  else if c.requestTimeout < 0 then some (.negative "requestTimeout" c.requestTimeout)
  else if c.killGrace < 0 then some (.negative "killGrace" c.killGrace)
  else if c.contextLines < 1 then some (.belowOne "contextLines" c.contextLines)
  else if c.log.format = "text" ∨ c.log.format = "json" then none
  else some (.logFormat c.log.format)

end Config

end CallerTree
