import CallerTree.CallTree
import CallerTree.Line.Enclosing

/-!
# Resolving a hierarchy

The caller tree of a function is grown from a way to find the call sites of a name. It ends at the
depth limit, at a function that is its own ancestor, at a call site outside every known function and
at a function that calls itself directly.

## Contract

Each call site of an expanded function becomes one entry, in the order found. A function is expanded
at most once on each way from the root, so the tree is finite whatever the limit.

## Implementation notes

Growing is stated for any monad: the same definition runs in the world, where finding call sites has
effects, and as a pure function of a table of call sites.
-/

namespace CallerTree

/-- A call site and the function it stands in. -/
structure Call where
  site : Occurrence
  caller : Text
  deriving DecidableEq, Repr

namespace Hierarchy

/-- Whether a node at this depth is the last level that the limit allows, or beyond it. -/
def nearLimit (limit depth : Int) : Bool := wrap64 (limit - 1) ≤ depth

/-- A function that is not expanded. -/
def terminal (limit : Int) (ancestry : Ancestry) (depth : Nat) (name : Text) : CallTree :=
  .node {
    name, depth,
    isRecursive := ancestry.has name,
    atDepthLimit := nearLimit limit depth } []

/-- A caller that is not looked up: it is unknown, or the called function itself. -/
def leaf (depth : Nat) (call : Call) : CallTree :=
  .node { name := call.caller, depth, site := some call.site } []

/-- Whether the caller at a call site of `target` is looked up. -/
def isExpanded (target : Text) (call : Call) : Bool :=
  call.caller ≠ Line.unknownCaller && call.caller ≠ target

variable {m : Type → Type} [Monad m]

/-- The tree at a call site of `target`, where `grown` makes the tree of a caller that is looked
up. -/
def expand (grown : Text → m CallTree) (target : Text) (depth : Nat) (call : Call) :
    m CallTree := do
  if isExpanded target call then
    let tree ← grown call.caller
    return tree.withSite call.site
  else return leaf depth call

/-- The tree of `name` at `depth` with `remaining` levels left. `check` fails when the request may
not go on; `sites name depth` finds the call sites of a name. -/
def grow (check : m Unit) (sites : Text → Nat → m (List Call)) (limit : Int) :
    (remaining : Nat) → Ancestry → (depth : Nat) → Text → m CallTree
  | 0, ancestry, depth, name => do
    check
    return terminal limit ancestry depth name
  | remaining + 1, ancestry, depth, name => do
    check
    if ancestry.has name then return terminal limit ancestry depth name
    let calls ← sites name depth
    let callers ← calls.mapM <|
      expand (grow check sites limit remaining (ancestry.extend name) (depth + 1)) name (depth + 1)
    return .node {
      name, depth,
      total := callers.length,
      atDepthLimit := nearLimit limit depth } callers

/-- The tree of `name`, at most `limit` levels deep. -/
def resolve (check : m Unit) (sites : Text → Nat → m (List Call)) (limit : Int) (name : Text) :
    m CallTree :=
  grow check sites limit limit.toNat [] 0 name

end Hierarchy

end CallerTree
