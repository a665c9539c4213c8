import CallerTree.CommandLine.Flags
import CallerTree.Path
import CallerTree.Text.LowerCase

/-!
# Commands

The commands of the program form a tree, which is kept as a list of commands with their paths.
-/

namespace CallerTree

namespace CommandLine

/-- What a command accepts besides flags. -/
inductive Arity where
  | anyWords
  | noWords
  | exactly (n : Nat)
  deriving DecidableEq, Repr

structure Spec where
  /-- The names from the program down to the command. -/
  path : List Text
  /-- What stands behind the name in the usage line. -/
  operands : Text := []
  short : Text
  long : Text := []
  flags : List Flag := []
  arity : Arity := .noWords
  /-- The command does something by itself. -/
  runs : Bool := true
  /-- The usage line mentions flags. -/
  mentionsFlags : Bool := true
  /-- The command is suggested for a misspelt name. -/
  isSuggested : Bool := true
  deriving DecidableEq, Repr

namespace Spec

def name (s : Spec) : Text := s.path.getLastD []

/-- The names with blanks between them. -/
def title (s : Spec) : Text := Text.join " " s.path

def isRoot (s : Spec) : Bool := s.path.length ≤ 1

end Spec

def program : Text := "callscope"

/-- Flags that all commands take. -/
def globalFlags : List Flag := [
  { name := "config-dir", usage := "directory containing callscope.yml", default := "." },
  { name := "log-format", usage := "log format: text or json (overrides config)" },
  { name := "log-level", usage := "log level: debug, info, warn, error (overrides config)" }]

def root : Spec where
  path := [program]
  short := "Reverse call hierarchies for C and C++ source trees"
  long := "callscope finds every caller of a C/C++ function, recursively, using a
cscope cross-reference with grep and in-process text search as fallbacks.

It runs as a one-shot CLI, as an HTTP service with a browser UI, or as an
MCP server."
  arity := .anyWords
  runs := false

/-- The command that prints the callers of a function; by default below the working directory. -/
def hierarchy (workingDirectory : Text) : Spec where
  path := [program, "hierarchy"]
  operands := "<function>"
  short := "Print the callers of a function"
  long := "Resolve every caller of a C/C++ function under a source tree, recursively,
up to --depth levels.

Format options:
  - json: the full tree, with call sites (default)
  - tree: indented text
  - mermaid: a Mermaid graph BT diagram

Examples:
  callscope hierarchy --path /src/project target
  callscope hierarchy --path . --depth 3 --format tree parse_args"
  flags := [
    { name := "depth", type := .int
      usage := "maximum caller levels to expand (config maxDepth when unset)" },
    { name := "format", usage := "output format (json, tree, mermaid)", default := "json" },
    { name := "path", usage := "source tree to search", default := workingDirectory }]
  arity := .exactly 1

def serve : Spec where
  path := [program, "serve"]
  short := "Run the HTTP service and browser UI"
  long := "Serve the browser UI at /, the JSON endpoints /search, /file-content and
/call-hierarchy, Prometheus metrics at /metrics and the MCP streamable HTTP
transport at /mcp."
  flags := [
    { name := "listen", usage := "address to listen on (default from config, 127.0.0.1:8000)" }]

def mcp : Spec where
  path := [program, "mcp"]
  short := "Run as an MCP server on stdio"

def version : Spec where
  path := [program, "version"]
  short := "Print the version"

def help : Spec where
  path := [program, "help"]
  operands := "[command]"
  short := "Help about any command"
  long := "Help provides help for any command in the application.
Simply type callscope help [path to command] for full details."
  arity := .anyWords
  isSuggested := false

/-! ### Completion scripts -/

def completion : Spec where
  path := [program, "completion"]
  short := "Generate the autocompletion script for the specified shell"
  long := "Generate the autocompletion script for callscope for the specified shell.
See each sub-command's help for details on how to use the generated script."
  runs := false

def withoutDescriptions : Flag where
  name := "no-descriptions"
  type := .switch
  usage := "disable completion descriptions"

def shellCompletion (shell long : Text) : Spec where
  path := [program, "completion", shell]
  short := "Generate the autocompletion script for " ++ shell
  long
  flags := [withoutDescriptions]

def bashCompletion : Spec :=
  { shellCompletion "bash" "Generate the autocompletion script for the bash shell.

This script depends on the 'bash-completion' package.
If it is not installed already, you can install it via your OS's package manager.

To load completions in your current shell session:

\tsource <(callscope completion bash)

To load completions for every new session, execute once:

#### Linux:

\tcallscope completion bash > /etc/bash_completion.d/callscope

#### macOS:

\tcallscope completion bash > $(brew --prefix)/etc/bash_completion.d/callscope

You will need to start a new shell for this setup to take effect." with mentionsFlags := false }

def fishCompletion : Spec :=
  shellCompletion "fish" "Generate the autocompletion script for the fish shell.

To load completions in your current shell session:

\tcallscope completion fish | source

To load completions for every new session, execute once:

\tcallscope completion fish > ~/.config/fish/completions/callscope.fish

You will need to start a new shell for this setup to take effect."

def powershellCompletion : Spec :=
  shellCompletion "powershell" "Generate the autocompletion script for powershell.

To load completions in your current shell session:

\tcallscope completion powershell | Out-String | Invoke-Expression

To load completions for every new session, add the output of the above command
to your powershell profile."

def zshCompletion : Spec :=
  shellCompletion "zsh" "Generate the autocompletion script for the zsh shell.

If shell completion is not already enabled in your environment you will need
to enable it.  You can execute the following once:

\techo \"autoload -U compinit; compinit\" >> ~/.zshrc

To load completions in your current shell session:

\tsource <(callscope completion zsh)

To load completions for every new session, execute once:

#### Linux:

\tcallscope completion zsh > \"$\x7bfpath[1]\x7d/_callscope\"

#### macOS:

\tcallscope completion zsh > $(brew --prefix)/share/zsh/site-functions/_callscope

You will need to start a new shell for this setup to take effect."

/-! ### The tree -/

/-- All commands, those of one level in the order in which they are suggested. -/
def commands (workingDirectory : Text) : List Spec := [
  root, hierarchy workingDirectory, serve, mcp, version, help, completion, bashCompletion,
  zshCompletion, fishCompletion, powershellCompletion]

/-- The commands right below a path. -/
def children (all : List Spec) (path : List Text) : List Spec :=
  all.filter fun s => s.path.length = path.length + 1 && s.path.dropLast = path

/-- The flags a command takes besides the one for help. -/
def Spec.allFlags (s : Spec) : List Flag := s.flags ++ globalFlags

/-- Finds the command that arguments lead to, and what is left of them. -/
def descend (all : List Spec) : (fuel : Nat) → Spec → List Text → Spec × List Text
  | 0, s, args => (s, args)
  | fuel + 1, s, args =>
    match wordsOnly s.allFlags args with
    | [] => (s, args)
    | word :: _ =>
      match (children all s.path).find? (·.name = word) with
      | some child => descend all fuel child (withoutWord s.allFlags word args)
      | none => (s, args)

/-! ### Misspelt commands -/

/-- The number of insertions, deletions and replacements that lead from one list to the other. -/
def distanceRow (a : UInt8) : (left : Nat) → (row : List Nat) → Bytes → List Nat
  | left, diagonal :: rest@(above :: _), b :: bs =>
    let here := if a = b then diagonal else 1 + min diagonal (min left above)
    here :: distanceRow a here rest bs
  | _, _, _ => []

def distance (s t : Bytes) : Nat :=
  let first := List.range (t.length + 1)
  let last := s.foldl (fun row a =>
    let start := row.headD 0 + 1
    start :: distanceRow a start row t) first
  last.getLastD 0

/-- The commands that may have been meant by a name. -/
def suggestions (all : List Spec) (typed : Text) : List Text :=
  ((children all [program]).filter fun s =>
    s.isSuggested && (distance typed.lower.utf8 s.name.utf8 ≤ 2 ||
      (Text.strip? s.name typed.lower).isSome)).map Spec.name

/-- The message about a name that is no command. -/
def unknownCommand (all : List Spec) (typed : Text) : Text :=
  let found := suggestions all typed
  let hint : Text :=
    if found.isEmpty then []
    else "\n\nDid you mean this?\n" ++ found.flatMap fun name => ("\t" ++ name ++ "\n" : Text)
  "unknown command " ++ typed.quoted ++ " for " ++ Text.quoted program ++ hint

/-- Finds the command that arguments lead to. The program itself takes no words. -/
def find (all : List Spec) (args : List Text) : Except Text (Spec × List Text) :=
  let (s, rest) := descend all (args.length + 1) root args
  match s.isRoot, wordsOnly s.allFlags rest with
  | true, word :: _ => .error (unknownCommand all word)
  | _, _ => .ok (s, rest)

end CommandLine

end CallerTree
