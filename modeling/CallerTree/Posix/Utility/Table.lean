import CallerTree.Posix.Utility.Awk
import CallerTree.Posix.Utility.Files
import CallerTree.Posix.Utility.Find
import CallerTree.Posix.Utility.Grep
import CallerTree.Posix.Utility.Lines
import CallerTree.Posix.Utility.Octets
import CallerTree.Posix.Utility.Printing
import CallerTree.Posix.Utility.Sed
import CallerTree.Posix.Utility.Sorting
import CallerTree.Posix.Utility.Testing

/-!
# The installed programs

The utilities by name, and which of them look at their input.
-/

namespace CallerTree

namespace Posix

namespace Utility

/-- Utilities that do not look at their input. -/
def writers : List (Text × Utility) := [
  ("true", fun _ => some {}), ("false", fun _ => some { status := 1 }), ("echo", echo),
  ("printf", printf []), ("seq", seq), ("yes", yes), ("sleep", sleep), ("ls", ls),
  ("find", find), ("touch", touch), ("mkdir", mkdir), ("rm", rm), ("test", test []),
  ("[", bracket []), ("pwd", fun c => print (workingDirectory c.files ++ "\n"))]

/-- Utilities that look at their input. -/
def readers : List (Text × Utility) := [
  ("cat", cat), ("head", head), ("tail", tail), ("wc", wc), ("sort", sort), ("uniq", uniq),
  ("cut", cut), ("tr", tr), ("grep", grep []), ("egrep", grep ["-E"]),
  ("fgrep", grep ["-F"]), ("sed", sed), ("awk", awk), ("mawk", awk)]

def table : List (Text × Utility) := writers ++ readers

def readsInput (name : Text) : Bool := (readers.lookup name).isSome

/-- Programs that are installed besides. What they do is not described here: one that runs succeeds
and writes nothing. -/
def others : List String := [
  "sh", "dash", "bash", "arch", "basename", "chmod", "chown", "cmp", "comm", "cp", "date", "dd",
  "df", "diff", "dirname", "du", "env", "expand", "expr", "fold", "getconf", "gunzip", "gzip", "id",
  "join", "kill", "ln", "logname", "mkfifo", "mv", "nice", "nl", "nohup", "od", "paste", "pathchk",
  "perl", "printenv", "readlink", "realpath", "rev", "rmdir", "split", "stat", "stty", "tac", "tar",
  "tee", "timeout", "tty", "uname", "unexpand", "who", "whoami", "xargs"]

def isInstalled (name : Text) : Bool :=
  (table.lookup name).isSome || name = "which" || others.any fun o => Text.ofString o = name

/-- Prints where programs are. -/
def which : Utility := fun c =>
  let names := c.args.filter fun a => a ≠ Text.ofString "-a"
  some {
    out := .ofText ((names.filter isInstalled).flatMap fun name =>
      ("/usr/bin/" ++ name ++ "\n" : Text))
    status := if !names.isEmpty && names.all isInstalled then 0 else 1 }

end Utility

end Posix

end CallerTree
