import CallerTree.CallTree
import CallerTree.Path

/-!
# Caller trees as Mermaid graphs

Every entry of the tree is a node of its own, numbered in pre-order, and arrows point from the
caller to the callee. The root, a recursive function and a function cut off by the depth limit each
have their own outline.
-/

namespace CallerTree

namespace Mermaid

/-- Writes the characters that Mermaid reads as syntax by their names. -/
def escape (t : Text) : Text :=
  ((t.substitute '"' "#quot;").substitute '<' "#lt;").substitute '>' "#gt;"

def shape (head : Head) (isLeaf : Bool) : Text :=
  let label := escape head.name
  if head.depth = 0 then "([\"" ++ label ++ "\"])"
  else if head.isRecursive then "\x7b\x7b\"" ++ label ++ " ↺\"\x7d\x7d"
  else if head.atDepthLimit ∧ isLeaf then "[[\"" ++ label ++ " …\"]]"
  else "[\"" ++ label ++ "\"]"

def siteLabel (site : Occurrence) : Text := Path.short site.file ++ ":" ++ Text.ofInt site.line

def nodeId (n : Nat) : Text := "N" ++ Text.ofNat n

/-- The arrow from the caller numbered `caller` to the callee numbered `callee`. -/
def edge (head : Head) (caller callee : Nat) : Text :=
  "  " ++ nodeId caller ++
    (match head.site with
      | some site => " -->|\"" ++ escape (siteLabel site) ++ "\"| "
      | none => " --> ") ++ nodeId callee ++ "\n"

mutual

/-- The lines of a tree whose root gets the number `n`, and the next free number. -/
def emit (n : Nat) : CallTree → Text × Nat
  | .absent => ([], n)
  | .node head callers =>
    let (below, next) := emitAll n (n + 1) callers
    ("  " ++ nodeId n ++ shape head callers.isEmpty ++ "\n" ++ below, next)

/-- The lines of the callers of `parent`, the first of which gets the number `n`. -/
def emitAll (parent n : Nat) : List CallTree → Text × Nat
  | [] => ([], n)
  | t :: rest =>
    let (lines, next) := emit n t
    let arrow := match t with
      | .absent => []
      | .node head _ => edge head n parent
    let (others, last) := emitAll parent next rest
    (lines ++ arrow ++ others, last)

end

end Mermaid

def CallTree.mermaid (t : CallTree) : Text := "graph BT\n" ++ (Mermaid.emit 0 t).1

end CallerTree
