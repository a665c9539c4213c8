import CallerTree.Posix.Regex
import CallerTree.Posix.Utility.Basic

/-!
# The record language

A program is a list of rules. The action of a rule is carried out on each record for which its
pattern holds; first come the rules for the start, and last those for the end. A value is a text or
a whole number, or both: what was read from the input counts as a number where it looks like one.

## Implementation notes

A program prints, and keeps values in variables. It has no functions, tables or loops, so it ends if
its input does. Operators with two sides are read by their levels, the loosest first.
-/

namespace CallerTree

namespace Posix

namespace Awk

inductive Binary where
  | add
  | sub
  | mul
  | div
  | less
  | atMost
  | equal
  | differs
  | more
  | atLeast
  | concat
  deriving DecidableEq, Repr

inductive Expr where
  | number (n : Int)
  | text (cs : List Char)
  | regex (r : Regex)
  | name (n : String)
  | field (index : Expr)
  | assign (name : String) (op : Option Binary) (value : Expr)
  | negate (e : Expr)
  | not (e : Expr)
  | binary (op : Binary) (a b : Expr)
  | and (a b : Expr)
  | or (a b : Expr)
  | fits (isNegated : Bool) (e r : Expr)
  deriving Repr

inductive Statement where
  | expr (e : Expr)
  | print (args : List Expr)
  deriving Repr

/-- On which records an action is carried out. -/
inductive Pattern where
  | starting
  | ending
  | always
  | fitting (e : Expr)
  deriving Repr

structure Rule where
  pattern : Pattern
  action : List Statement
  deriving Repr

/-! ### Tokens -/

inductive Token where
  | number (digits : List Char)
  | text (cs : List Char)
  | regex (cs : List Char)
  | name (n : String)
  | keyword (k : String)
  | sign (s : String)
  | lineEnd
  | fileEnd
  deriving DecidableEq, Repr

def keywords : List String := ["BEGIN", "END", "print"]

/-- The signs, those that start like another one before it. -/
def signs : List String := [
  "+=", "-=", "*=", "/=", "==", "<=", ">=", "!=", "&&", "||", "!~", "\x7b", "\x7d", "(", ")", ";",
  ",", "+", "-", "*", "/", "!", ">", "<", "~", "$", "="]

namespace Token

/-- How a token is shown in messages. -/
def shown : Token → Text
  | .number cs => Text.ofChars cs
  | .text cs => "\"" ++ textOfOctets cs ++ "\""
  | .regex cs => "/" ++ textOfOctets cs ++ "/"
  | .name n | .keyword n | .sign n => Text.ofString n
  | .lineEnd => "end of line"
  | .fileEnd => "end of file"

/-- Whether something with a value ends here, so that a slash means a division. -/
def endsValue : Option Token → Bool
  | some (.number _) | some (.text _) | some (.regex _) | some (.name _) => true
  | some (.sign s) => s = ")" || s = "$"
  | _ => false

end Token

def syntaxError (line : Nat) (t : Token) : Text :=
  "awk: line " ++ Text.ofNat line ++ ": syntax error at or near " ++ t.shown

/-- The text up to a delimiter, and what follows. In a string, escapes are written out. -/
def delimited (delimiter : Char) : (done : List Char) → List Char → Option (List Char × List Char)
  | _, [] => none
  | done, '\\' :: c :: rest =>
    if c = delimiter then delimited delimiter (c :: done) rest
    else if delimiter = '"' then delimited delimiter (Regex.escapedChar c :: done) rest
    else delimited delimiter (c :: '\\' :: done) rest
  | done, c :: rest =>
    if c = delimiter then some (done.reverse, rest) else delimited delimiter (c :: done) rest

/-- The whole number at the start of a text, and what follows it. -/
def leadingNumber (cs : List Char) : Int × List Char :=
  let (sign, cs) : Int × List Char := match cs with
    | '-' :: cs => (-1, cs)
    | '+' :: cs => (1, cs)
    | cs => (1, cs)
  let digits := cs.takeWhile Char.isDigit
  let n : Nat := digits.foldl (fun n c => 10 * n + (c.toNat - 48)) 0
  (sign * (n : Int), cs.drop digits.length)

def isNameChar (c : Char) : Bool := c.isAlphanum || c = '_'

/-- Splits a program into tokens with their lines. -/
def tokens : (fuel : Nat) → (line : Nat) → (last : Option Token) → List Char →
    Except Text (List (Token × Nat))
  | 0, line, _, _ => .ok [(.fileEnd, line)]
  | _, line, _, [] => .ok [(.fileEnd, line)]
  | fuel + 1, line, last, c :: rest =>
    let one := fun (t : Token) (rest : List Char) => do
      return (t, line) :: (← tokens fuel line (some t) rest)
    if c = ' ' || c = '\t' || c = '\r' then tokens fuel line last rest
    else if c = '\n' then do
      return (.lineEnd, line) :: (← tokens fuel (line + 1) (some .lineEnd) rest)
    else if c = '#' then tokens fuel line last (rest.dropWhile (· ≠ '\n'))
    else if c = '"' then
      match delimited '"' [] rest with
      | some (cs, rest) => one (.text cs) rest
      | none => .error (syntaxError line (.text rest))
    else if c = '/' && !Token.endsValue last then
      match delimited '/' [] rest with
      | some (cs, rest) => one (.regex cs) rest
      | none => .error (syntaxError line (.regex rest))
    else if c.isDigit then
      one (.number (c :: rest.takeWhile Char.isDigit)) (rest.dropWhile Char.isDigit)
    else if c.isAlpha || c = '_' then
      let word := (c :: rest).takeWhile isNameChar
      let n := String.ofList word
      one (if keywords.contains n then .keyword n else .name n) ((c :: rest).drop word.length)
    else match signs.find? fun s => s.toList.isPrefixOf (c :: rest) with
      | some s => one (.sign s) ((c :: rest).drop s.length)
      | none => .error (syntaxError line (.text [c]))

/-! ### Reading -/

abbrev Read := EStateM Text (List (Token × Nat))

namespace Read

def current : Read (Token × Nat) := return ((← get).head?).getD (.fileEnd, 1)

def peek : Read Token := return (← current).1

/-- Stops at the current token. -/
def fail {α : Type} : Read α := do
  let (t, line) ← current
  throw (syntaxError line t)

def advance : Read Unit := modify (·.drop 1)

/-- Takes the current token if it is a certain one. -/
def accept (t : Token) : Read Bool := do
  if (← peek) = t then
    advance
    return true
  return false

def acceptSign (s : String) : Read Bool := accept (.sign s)

def expect (s : String) : Read Unit := do unless ← acceptSign s do fail

def skipEmpty : Read Unit := modify (·.dropWhile fun t => t.1 = .lineEnd || t.1 = .sign ";")

/-- The expressions that regular expressions are written in. -/
def dialect : Regex.Dialect :=
  { isExtended := true, knowsEscapes := true, escapesInBrackets := true }

def assignments : List (String × Option Binary) := [
  ("=", none), ("+=", some .add), ("-=", some .sub), ("*=", some .mul), ("/=", some .div)]

/-- The operators with two sides, their levels, and what they make of their sides. -/
def operators : List (String × Nat × (Expr → Expr → Expr)) := [
  ("||", 1, .or), ("&&", 2, .and), ("~", 3, .fits false), ("!~", 3, .fits true),
  ("<", 4, .binary .less), ("<=", 4, .binary .atMost), ("==", 4, .binary .equal),
  ("!=", 4, .binary .differs), (">", 4, .binary .more), (">=", 4, .binary .atLeast),
  ("+", 6, .binary .add), ("-", 6, .binary .sub), ("*", 7, .binary .mul), ("/", 7, .binary .div)]

/-- Whether a token can start the second part of a concatenation. -/
def startsPart : Token → Bool
  | .number _ | .text _ | .name _ => true
  | .sign s => s = "$" || s = "(" || s = "!"
  | _ => false

mutual

def expr : (fuel : Nat) → Read Expr
  | 0 => fail
  | fuel + 1 => do
    let e ← climbed fuel 1 (← unary fuel)
    match e, ← peek with
    | .name n, .sign s =>
      match assignments.lookup s with
      | none => return e
      | some op =>
        advance
        return .assign n op (← expr fuel)
    | _, _ => return e

/-- An expression that goes on behind its first part with operators of at least a level. Parts side
by side are put together on level 5. -/
def climbed : (fuel : Nat) → (level : Nat) → Expr → Read Expr
  | 0, _, _ => fail
  | fuel + 1, level, e => do
    let t ← peek
    let operator := match t with
      | .sign s => operators.lookup s
      | _ => none
    match operator with
    | some (own, build) =>
      if own < level then return e
      advance
      let right ← climbed fuel (own + 1) (← unary fuel)
      climbed fuel level (build e right)
    | none =>
      if !startsPart t || 5 < level then return e
      let right ← climbed fuel 6 (← unary fuel)
      climbed fuel level (.binary .concat e right)

def unary : (fuel : Nat) → Read Expr
  | 0 => fail
  | fuel + 1 => do
    if ← acceptSign "!" then return .not (← unary fuel)
    if ← acceptSign "-" then return .negate (← unary fuel)
    single fuel

/-- Expressions with commas between them. -/
def exprs : (fuel : Nat) → Read (List Expr)
  | 0 => fail
  | fuel + 1 => do
    let e ← expr fuel
    if ← acceptSign "," then return e :: (← exprs fuel)
    return [e]

def single : (fuel : Nat) → Read Expr
  | 0 => fail
  | fuel + 1 => do
    let (t, line) ← current
    advance
    match t with
    | .number digits => return .number (leadingNumber digits).1
    | .text cs => return .text cs
    | .regex cs =>
      match Regex.read dialect cs with
      | .ok r => return .regex r
      | .error e => throw ("awk: line " ++ Text.ofNat line ++
          ": regular expression compile failed (" ++ e.text ++ ")\n" ++ textOfOctets cs)
    | .name n => return .name n
    | .sign "$" => return .field (← single fuel)
    | .sign "(" =>
      let e ← expr fuel
      expect ")"
      return e
    | t => throw (syntaxError line t)

end

def endsStatement : Token → Bool
  | .lineEnd | .fileEnd => true
  | .sign s => s = ";" || s = "\x7d"
  | _ => false

def statement (fuel : Nat) : Read Statement := do
  let printed := do if endsStatement (← peek) then pure [] else exprs fuel
  let s ← if ← accept (.keyword "print") then .print <$> printed
    else .expr <$> expr fuel
  if !endsStatement (← peek) then fail
  return s

/-- Statements up to a closing brace. -/
def statements : (fuel : Nat) → Read (List Statement)
  | 0 => fail
  | fuel + 1 => do
    skipEmpty
    if ← acceptSign "\x7d" then return []
    let s ← statement fuel
    return s :: (← statements fuel)

def rules : (fuel : Nat) → Read (List Rule)
  | 0 => return []
  | fuel + 1 => do
    skipEmpty
    if (← peek) = .fileEnd then return []
    let pattern ← if ← accept (.keyword "BEGIN") then pure .starting
      else if ← accept (.keyword "END") then pure .ending
      else if (← peek) = .sign "\x7b" then pure .always
      else .fitting <$> expr fuel
    let action ← if ← acceptSign "\x7b" then statements fuel
      else if endsStatement (← peek) then pure [.print []]
      else fail
    return { pattern, action } :: (← rules fuel)

end Read

/-- Reads a program. -/
def readProgram (cs : List Char) : Except Text (List Rule) := do
  let ts ← tokens (cs.length + 1) 1 none cs
  match (Read.rules (20 * ts.length + 100)).run ts with
  | .error e _ => throw e
  | .ok rules _ => return rules

/-! ### Values -/

inductive Cell where
  | unset
  | text (cs : List Char)
  | number (n : Int)
  /-- A text from the input that looks like a number. -/
  | numeric (cs : List Char) (n : Int)
  deriving Repr

def isBlank (c : Char) : Bool :=
  c = ' ' || c = '\t' || c = '\n' || c = '\r' || c = '\x0b' || c = '\x0c'

namespace Cell

/-- A text from the input. -/
def ofInput (cs : List Char) : Cell :=
  let (n, rest) := leadingNumber (cs.dropWhile isBlank)
  if rest.length < (cs.dropWhile isBlank).length && rest.all isBlank then .numeric cs n
  else .text cs

def toNumber : Cell → Int
  | .unset => 0
  | .text cs => (leadingNumber (cs.dropWhile isBlank)).1
  | .number n | .numeric _ n => n

def toText : Cell → List Char
  | .unset => []
  | .text cs | .numeric cs _ => cs
  | .number n => (Text.ofInt n).map Glyph.toChar

def isTrue : Cell → Bool
  | .unset => false
  | .text cs => !cs.isEmpty
  | .number n | .numeric _ n => n ≠ 0

def isNumber : Cell → Bool
  | .text _ => false
  | _ => true

def ofBool (b : Bool) : Cell := .number (if b then 1 else 0)

end Cell

/-- The value of an operation on two values. Two numbers are compared as such. -/
def Binary.apply (op : Binary) (a b : Cell) : Cell :=
  let x := a.toNumber
  let y := b.toNumber
  let s := String.ofList a.toText
  let t := String.ofList b.toText
  let areNumbers := a.isNumber && b.isNumber
  match op with
  | .add => .number (x + y)
  | .sub => .number (x - y)
  | .mul => .number (x * y)
  | .div => .number (x.tdiv y)
  | .less => .ofBool (if areNumbers then x < y else s < t)
  | .atMost => .ofBool (if areNumbers then x ≤ y else !(t < s))
  | .equal => .ofBool (if areNumbers then x = y else s = t)
  | .differs => .ofBool (if areNumbers then x ≠ y else s ≠ t)
  | .more => .ofBool (if areNumbers then y < x else t < s)
  | .atLeast => .ofBool (if areNumbers then y ≤ x else !(s < t))
  | .concat => .text (a.toText ++ b.toText)

/-! ### Running -/

structure Machine where
  globals : List (String × Cell)
  record : List Char := []
  fields : List Cell := []
  /-- What was printed, the latest first. -/
  out : List Bytes := []

abbrev Run := StateM Machine

namespace Run

def valueOf (n : String) : Run Cell := do
  let m ← get
  if n = "NF" then return .number m.fields.length
  return (m.globals.lookup n).getD .unset

def setVariable (n : String) (c : Cell) : Run Unit :=
  modify fun m => { m with globals := (n, c) :: m.globals.filter (·.1 ≠ n) }

/-- Splits a record at the separator; a blank stands for all blanks. -/
def setRecord (cs : List Char) : Run Unit := do
  let parts := match (← valueOf "FS").toText with
    | [c] => if c = ' ' then (pieces isBlank cs).filter (· ≠ []) else pieces (· = c) cs
    | _ => [cs]
  modify fun m => { m with
    record := cs, fields := if cs.isEmpty then [] else parts.map Cell.ofInput }

def put (b : Bytes) : Run Unit := modify fun m => { m with out := b :: m.out }

def eval : Expr → Run Cell
  | .number x => return .number x
  | .text cs => return .text cs
  | .regex r => return .ofBool (r.matchesIn false (← get).record)
  | .name n => valueOf n
  | .field e => do
    let m ← get
    match (← eval e).toNumber.toNat with
    | 0 => return .ofInput m.record
    | i + 1 => return (m.fields[i]?).getD .unset
  | .assign n op value => do
    let c ← eval value
    let old ← valueOf n
    let c := (op.map fun op => op.apply old c).getD c
    setVariable n c
    return c
  | .negate e => return .number (-(← eval e).toNumber)
  | .not e => return .ofBool (!(← eval e).isTrue)
  | .binary op a b => do
    let x ← eval a
    return op.apply x (← eval b)
  | .and a b => do
    if (← eval a).isTrue then return .ofBool (← eval b).isTrue else return .ofBool false
  | .or a b => do
    if (← eval a).isTrue then return .ofBool true else return .ofBool (← eval b).isTrue
  | .fits isNegated e r => do
    let cs := (← eval e).toText
    match r with
    | .regex r => return .ofBool (r.matchesIn false cs != isNegated)
    | r =>
      match Regex.read Read.dialect (← eval r).toText with
      | .ok r => return .ofBool (r.matchesIn false cs != isNegated)
      | .error _ => return .ofBool isNegated

def exec : Statement → Run Unit
  | .expr e => do
    let _ ← eval e
  | .print args => do
    let cells ← args.mapM eval
    let record := (← get).record
    let shown := if args.isEmpty then [record] else cells.map Cell.toText
    put (bytesOf ((shown.intersperse (← valueOf "OFS").toText).flatten ++ (← valueOf "ORS").toText))

/-- Carries out the rules whose pattern is chosen. -/
def applyRules (rules : List Rule) (chosen : Pattern → Run Bool) : Run Unit := do
  for r in rules do
    if ← chosen r.pattern then
      for s in r.action do exec s

/-- Carries out the rules on a record. -/
def applyRecord (rules : List Rule) (record : List Char) : Run Unit := do
  setVariable "NR" (.number ((← valueOf "NR").toNumber + 1))
  setRecord record
  applyRules rules fun
    | .always => return true
    | .fitting e => return (← eval e).isTrue
    | _ => return false

def runProgram (rules : List Rule) (input : List Char) : Run Unit := do
  applyRules rules fun p => return match p with
    | .starting => true
    | _ => false
  let records := pieces (· = '\n') input
  for record in if records.getLast? = some [] then records.dropLast else records do
    applyRecord rules record
  applyRules rules fun p => return match p with
    | .ending => true
    | _ => false

end Run

end Awk

/-! ### The command -/

/-- Runs a program of the record language. One whose input has no end prints what it can. -/
def Utility.awk : Utility := fun c =>
  let table : OptionTable := { plain := "", valued := "Fv", stopsEarly := true }
  match table.read c.args with
  | .error e => misuse ("awk: " ++ e) 2
  | .ok o =>
    match o.operands.head?.map fun t => Awk.readProgram (octets t) with
    | none => misuse "awk: no program given" 2
    | some (.error e) => misuse e 2
    | some (.ok rules) =>
      let given := fun (t : Text) =>
        let name := (octets t).takeWhile (· ≠ '=')
        let value := (octets t).drop (name.length + 1)
        (String.ofList name, Awk.Cell.ofInput value)
      let start : List (String × Awk.Cell) := [
        ("FS", .text (((o.value? 'F').map octets).getD [' '])), ("OFS", .text [' ']),
        ("ORS", .text ['\n'])]
      let readsNothing := rules.all fun r => match r.pattern with
        | .starting => true
        | _ => false
      let sources := if readsNothing then [] else if o.operands.tail.isEmpty then [.ok c.input]
        else o.operands.tail.map fun path =>
          (openSource c.files c.input path).mapError fun e => (path, e)
      match sources.findSome? fun s => match s with
        | .ok _ => none
        | .error p => some p with
      | some (path, e) =>
        some {
          err := "awk: cannot open \"" ++ path ++ "\" (" ++ systemText e ++ ")\n", status := 2 }
      | none =>
        let opened := sources.filterMap Except.toOption
        let input := opened.flatMap fun s => octetsOfBytes (s.unrolled 3000).data
        let m := (Awk.Run.runProgram rules input |>.run
          { globals := (o.values 'v').map given ++ start }).2
        let data := m.out.reverse.flatten
        if opened.all (·.all?.isSome) then some { out := .ofBytes data }
        else if data.isEmpty then none
        else some { out := { data, remainder := .unknown } }

end Posix

end CallerTree
