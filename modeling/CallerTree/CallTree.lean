import CallerTree.Failure
import CallerTree.Occurrence

/-!
# Caller trees

The root of a caller tree is the function asked about; below each function stand the functions that
call it, one entry for each call site.
-/

namespace CallerTree

/-- What a caller tree says about one function. -/
structure Head where
  name : Text
  /-- The distance from the root. -/
  depth : Int
  /-- The number of call sites found. -/
  total : Int := 0
  /-- The function is its own ancestor. -/
  isRecursive : Bool := false
  /-- The depth limit allows no further level. -/
  atDepthLimit : Bool := false
  /-- Where this function calls the one above it. -/
  site : Option Occurrence := none
  /-- The list of callers was never set. -/
  unlisted : Bool := false
  deriving DecidableEq, Repr

inductive CallTree where
  /-- An entry without a function. -/
  | absent
  | node (head : Head) (callers : List CallTree)
  deriving Repr, Inhabited

namespace CallTree

mutual

/-- The functions in pre-order, going below a function only where `enter` allows it. -/
def walk (enter : Head → Bool) : CallTree → List Head
  | absent => []
  | node head callers => head :: if enter head then walkAll enter callers else []

def walkAll (enter : Head → Bool) : List CallTree → List Head
  | [] => []
  | t :: rest => t.walk enter ++ walkAll enter rest

end

/-- All functions in pre-order. -/
def heads (t : CallTree) : List Head := t.walk fun _ => true

def size (t : CallTree) : Nat := t.heads.length

mutual

/-- No entry of the tree is absent. -/
def isFull : CallTree → Bool
  | absent => false
  | node _ callers => allFull callers

def allFull : List CallTree → Bool
  | [] => true
  | t :: rest => t.isFull && allFull rest

end

/-- Writes a tree as `write` does, unless it has an absent entry below its root. -/
def writtenBy (write : CallTree → Text) (t : CallTree) : Except Panic Text :=
  match t with
  | absent => .ok (write absent)
  | node head callers =>
    if allFull callers then .ok (write (node head callers)) else .error .absent

def withSite (site : Occurrence) : CallTree → CallTree
  | absent => absent
  | node head callers => node { head with site := some site } callers

end CallTree

/-! ### Ancestries -/

/-- The functions on the way from the root, the newest first. -/
abbrev Ancestry := List Text

namespace Ancestry

def has (a : Ancestry) (name : Text) : Bool := a.contains name

/-- The ancestry one level further down. -/
def extend (a : Ancestry) (name : Text) : Ancestry := name :: a

/-- From the root to the newest function. -/
def path (a : Ancestry) : List Text := a.reverse

end Ancestry

end CallerTree
