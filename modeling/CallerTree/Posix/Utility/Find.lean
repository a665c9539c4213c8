import CallerTree.Posix.Regex
import CallerTree.Posix.Utility.Basic

/-!
# Searching folders

`find` goes through the files below some paths and evaluates an expression on each of them. Parts of
the expression test a file, print its name or keep out of a folder.
-/

namespace CallerTree

namespace Posix

namespace Find

/-- A part of an expression. -/
inductive Primary where
  | constant (holds : Bool)
  | name (pattern : Text) (foldsCase : Bool)
  | path (pattern : Text) (foldsCase : Bool)
  | kind (letters : List Char)
  | prune
  | print
  deriving DecidableEq, Repr

inductive Expr where
  | one (p : Primary)
  | not (e : Expr)
  | and (a b : Expr)
  | or (a b : Expr)
  deriving DecidableEq, Repr

/-- What was asked for. -/
structure Query where
  paths : List Text
  expr : Expr
  most : Option Nat := none

/-! ### Reading -/

/-- What is left of the arguments, and what holds for the whole search. -/
structure Cursor where
  args : List Text
  most : Option Nat := none
  /-- Something in the expression acts. -/
  acts : Bool := false

abbrev Read := EStateM Text Cursor

namespace Read

def fail {α : Type} (message : Text) : Read α := throw message

def quoted (t : Text) : Text := "\x60" ++ t ++ "'"

/-- The argument of a part of the expression. -/
def argument (name : Text) : Read Text := do
  let s ← get
  match s.args with
  | [] => fail ("missing argument to " ++ quoted name)
  | a :: args =>
    set { s with args }
    return a

def depthLimit (name : Text) : Read Nat := do
  let a ← argument name
  match Text.readNat? a with
  | some n => return n
  | none =>
    fail ("Expected a positive decimal integer argument to " ++ name ++ ", but got '" ++ a ++ "'")

def kinds (t : Text) : Read Primary := do
  let letters := (Text.split t ',').map fun l => match l with
    | [.char c] => if ['b', 'c', 'd', 'p', 'f', 'l', 's'].contains c then some c else none
    | _ => none
  if letters.any Option.isNone then fail ("Unknown argument to -type: " ++ t)
  return .kind (letters.filterMap fun l => l)

/-- A path in the wrong place. -/
def strayPath {α : Type} (path : Text) : Read α :=
  fail ("paths must precede expression: " ++ quoted path)

/-- A part of the expression by its name. -/
def primary (name : Text) : Read Primary := do
  if name = "-name" then return .name (← argument name) false
  else if name = "-iname" then return .name (← argument name) true
  else if name = "-path" ∨ name = "-wholename" then return .path (← argument name) false
  else if name = "-ipath" ∨ name = "-iwholename" then return .path (← argument name) true
  else if name = "-type" then kinds (← argument name)
  else if name = "-maxdepth" then
    let n ← depthLimit name
    modify fun s => { s with most := some n }
    return .constant true
  else if name = "-prune" then return .prune
  else if name = "-print" then
    modify fun s => { s with acts := true }
    return .print
  else match name with
    | .char '-' :: _ => fail ("unknown predicate " ++ quoted name)
    | name => strayPath name

/-- An operator between two parts, with its strength. -/
def isOr (t : Text) : Bool := t = "-o" || t = "-or"

def isAnd (t : Text) : Bool := t = "-a" || t = "-and"

def isOperator (t : Text) : Bool := isOr t || isAnd t || t = ")"

/-- Takes the next argument if something holds for it. -/
def accept? (p : Text → Bool) : Read (Option Text) := do
  let s ← get
  match s.args with
  | a :: args =>
    if p a then
      set { s with args }
      return some a
    return none
  | [] => return none

mutual

def choice : (fuel : Nat) → Read Expr
  | 0 => fail "expression too long"
  | fuel + 1 => do
    let a ← chain fuel
    match ← accept? isOr with
    | some o =>
      if (← get).args.isEmpty then fail ("expected an expression after '" ++ o ++ "'")
      return .or a (← choice fuel)
    | none => return a

def chain : (fuel : Nat) → Read Expr
  | 0 => fail "expression too long"
  | fuel + 1 => do
    let a ← single fuel
    match ← accept? isAnd with
    | some o =>
      if (← get).args.isEmpty then fail ("expected an expression after '" ++ o ++ "'")
      return .and a (← chain fuel)
    | none =>
      match (← get).args with
      | [] => return a
      | next :: _ => if isOperator next then return a else return .and a (← chain fuel)

def single : (fuel : Nat) → Read Expr
  | 0 => fail "expression too long"
  | fuel + 1 => do
    let s ← get
    match s.args with
    | [] => return .one (.constant true)
    | a :: args =>
      set { s with args }
      if a = "!" ∨ a = "-not" then
        if args.isEmpty then fail ("expected an expression after '" ++ a ++ "'")
        return .not (← single fuel)
      else if a = "(" then
        if args.head? = some (Text.ofString ")") then
          fail "invalid expression; empty parentheses are not allowed."
        let e ← choice fuel
        match ← accept? (· = ")") with
        | some _ => return e
        | none =>
          fail ("invalid expression; I was expecting to find a ')' somewhere " ++
            "but did not see one.")
      else if a = ")" then fail "you have too many ')'"
      else if isOperator a then
        fail ("invalid expression; you have used a binary operator '" ++ a ++
          "' with nothing before it.")
      else
        return .one (← primary a)

end

def startsExpression (t : Text) : Bool :=
  match t with
  | .char '-' :: _ :: _ => true
  | t => t = "(" || t = ")" || t = "!"

end Read

/-- Reads the arguments. -/
def Query.ofArgs (args : List Text) : Except Text Query := do
  let paths := args.takeWhile fun a => !Read.startsExpression a
  let args := args.drop paths.length
  let read : Read Expr := do
    if args.isEmpty then return .one (.constant true)
    let e ← Read.choice (4 * args.length + 4)
    match (← get).args with
    | [] => return e
    | a :: _ =>
      if a = ")" then Read.fail "you have too many ')'"
      Read.strayPath a
  match read.run { args } with
  | .error e _ => throw e
  | .ok e s =>
    return {
      paths := if paths.isEmpty then ["."] else paths
      expr := if s.acts then e else .and e (.one .print)
      most := s.most }

/-! ### Evaluating -/

/-- A file that is looked at. -/
structure Visit where
  path : Text
  depth : Nat
  entry : Entry

/-- What has happened so far. -/
structure Progress where
  isPruned : Bool := false
  /-- What was printed, the latest first. -/
  out : List Bytes := []

def withoutSlashes (t : Text) : Text :=
  let t' := Text.dropEndWhile (· = .char '/') t
  if t'.isEmpty && !t.isEmpty then "/" else t'

/-- The last component of a path. -/
def baseOf (path : Text) : Text :=
  let path := withoutSlashes path
  if path = "/" then path else ((Text.split path '/').getLast?).getD path

def kindOf : Entry → Char
  | .file .. => 'f'
  | .folder _ => 'd'
  | .link _ => 'l'

/-- Evaluates a part of the expression. -/
def Primary.eval (v : Visit) : Primary → StateM Progress Bool
  | .constant b => return b
  | .name pattern foldsCase =>
    return Regex.nameFits foldsCase (octets pattern) (octets (baseOf v.path))
  | .path pattern foldsCase => return Regex.nameFits foldsCase (octets pattern) (octets v.path)
  | .kind letters => return letters.contains (kindOf v.entry)
  | .prune => do
    modify fun s => { s with isPruned := true }
    return true
  | .print => do
    modify fun s => { s with out := (v.path ++ "\n" : Text).utf8 :: s.out }
    return true

def Expr.eval (v : Visit) : Expr → StateM Progress Bool
  | .one p => p.eval v
  | .not e => return !(← e.eval v)
  | .and a b => do if ← a.eval v then b.eval v else return false
  | .or a b => do if ← a.eval v then return true else b.eval v

/-- Goes through a file and what is below it. -/
def visit (q : Query) : (fuel : Nat) → Visit → StateM Progress Unit
  | 0, _ => return
  | fuel + 1, v => do
    modify fun s => { s with isPruned := false }
    let _ ← q.expr.eval v
    if let .folder entries := v.entry then
      if !(← get).isPruned && !q.most.any (· ≤ v.depth) then
        for (name, e) in entries.mergeSort fun a b => Text.byteLE a.1 b.1 do
          let mark : Text := if v.path.getLast? = some (.char '/') then [] else "/"
          visit q fuel { path := v.path ++ mark ++ name, depth := v.depth + 1, entry := e }

end Find

/-- Goes through the files below some paths. -/
def Utility.find : Utility := fun c =>
  match Find.Query.ofArgs c.args with
  | .error e => misuse ("find: " ++ e) 1
  | .ok q =>
    let found := q.paths.map fun path => (path, c.files.entry false path)
    let all : StateM Find.Progress Unit := do
      for (path, e) in found do
        if let .ok entry := e then Find.visit q 200 { path, depth := 0, entry }
    let err := found.flatMap fun (path, e) => match e with
      | .ok _ => ([] : Text)
      | .error e => "find: '" ++ path ++ "': " ++ systemText e ++ "\n"
    some { out := .ofBytes (all.run {}).2.out.reverse.flatten, err, status := failing err }

end Posix

end CallerTree
