import CallerTree.Posix.Script
import CallerTree.Text.Numeral

/-!
# Reading scripts

A script is read from left to right. Constructs that hold other scripts or words read those through
a `Nested`, so that the depth of nesting is the only thing the recursion is about.

## Contract

A script is read line by line: what stands before a line that cannot be read is still a script.
-/

namespace CallerTree

namespace Posix

structure Cursor where
  text : Text
  line : Nat := 1
  deriving DecidableEq, Repr

abbrev Reader := EStateM Fault Cursor

/-- The readers of what constructs hold. -/
structure Nested where
  /-- Commands up to a closing token. -/
  script : Reader (List Statement)
  command : Reader Statement
  /-- Parts up to a glyph, between double quotes or not. -/
  parts : (stop : Glyph) → (isQuoted : Bool) → Reader Word

namespace Reader

/-- Glyphs that end a word. -/
def isMeta (g : Glyph) : Bool :=
  ([.char ' ', .char '\t', .char '\n', .char ';', .char '&', .char '|', .char '(', .char ')',
    .char '<', .char '>'] : List Glyph).contains g

/-- Glyphs that mean something inside a word. -/
def isActive (g : Glyph) : Bool :=
  ([.char '\\', .char '\'', .char '"', .char '$', .char '\x60'] : List Glyph).contains g

def look : Reader Text := return (← get).text

def drop (n : Nat) : Reader Unit := modify fun c =>
  { text := c.text.drop n, line := c.line + (c.text.take n).countP (· = .char '\n') }

def takeWhile (p : Glyph → Bool) : Reader Text := do
  let t := (← look).takeWhile p
  drop t.length
  return t

/-- Goes past a text, if it is next. -/
def accept (t : Text) : Reader Bool := do
  if (← look).startsWith t then
    drop t.length
    return true
  else return false

/-- Skips blanks, joined lines and comments. -/
def skipBlanks : Reader Unit := do
  for _ in [0 : (← look).length] do
    match ← look with
    | .char ' ' :: _ | .char '\t' :: _ => drop 1
    | .char '\\' :: .char '\n' :: _ => drop 2
    | .char '#' :: _ => let _ ← takeWhile (· ≠ .char '\n')
    | _ => return

/-- Skips blanks and ends of lines. -/
def skipLines : Reader Unit := do
  for _ in [0 : (← look).length + 1] do
    skipBlanks
    unless ← accept "\n" do return

/-- The token that is next, for messages. -/
def token (t : Text) : Text :=
  let quoted := fun (t : Text) => ("\"" ++ t ++ "\"" : Text)
  match t with
  | [] => "end of file"
  | .char '\n' :: _ => "newline"
  | g :: rest =>
    if isMeta g then
      quoted (if rest.head? = some g && (g = .char '&' || g = .char '|' || g = .char ';')
        then [g, g] else [g])
    else quoted (t.takeWhile fun g => !isMeta g)

def unexpected {α : Type} (expected : Option Text) : Reader α := do
  throw (.unexpected (token (← look)) expected)

/-- Requires a text. -/
def expect (t : Text) : Reader Unit := do
  unless ← accept t do unexpected (some t)

/-- The word that is next, if nothing in it is active. -/
def plainWord : Reader Text := do
  let w := (← look).takeWhile fun g => !isMeta g
  return if w.any isActive then [] else w

/-- Requires a reserved word. -/
def expectWord (t : Text) : Reader Unit := do
  skipLines
  if (← plainWord) = t then drop t.length else unexpected (some t)

/-- Reserved words that end a list of commands. -/
def closers : List Text := ["then", "else", "elif", "fi", "do", "done", "esac", "\x7d"]

/-! ### Words -/

/-- A parameter between braces, behind the opening one. -/
def braced (n : Nested) (isQuoted : Bool) : Reader Part := do
  let name : Reader Text := do
    match ← look with
    | g :: _ =>
      if isNameStart g then takeWhile isNameGlyph
      else if (Text.digit? g).isSome then takeWhile fun g => (Text.digit? g).isSome
      else if isMeta g || isActive g && g ≠ .char '$' then throw .badSubstitution
      else
        drop 1
        return [g]
    | [] => unexpected (some "\x7d")
  let isSize := match ← look with
    | .char '#' :: .char '\x7d' :: _ => false
    | .char '#' :: _ => true
    | _ => false
  if isSize then
    drop 1
    let x ← name
    expect "\x7d"
    return .value isQuoted x .size
  let x ← name
  if ← accept "\x7d" then return .value isQuoted x .plain
  let rest : Reader Word := do
    let w ← n.parts (.char '\x7d') isQuoted
    expect "\x7d"
    return w
  let orEmpty ← accept ":"
  if ← accept "-" then return .value isQuoted x (.instead orEmpty false (← rest))
  else if ← accept "=" then return .value isQuoted x (.instead orEmpty true (← rest))
  else if ← accept "+" then return .value isQuoted x (.besides orEmpty (← rest))
  else if ← accept "?" then return .value isQuoted x (.required orEmpty (← rest))
  else if ← accept "%%" then return .value isQuoted x (.trimmed true true (← rest))
  else if ← accept "%" then return .value isQuoted x (.trimmed true false (← rest))
  else if ← accept "##" then return .value isQuoted x (.trimmed false true (← rest))
  else if ← accept "#" then return .value isQuoted x (.trimmed false false (← rest))
  else throw .badSubstitution

/-- The text up to the closing backquote, with escapes undone. -/
def backquoted : (fuel : Nat) → Reader Text
  | 0 => throw .unterminated
  | fuel + 1 => do
    match ← look with
    | [] => throw .unterminated
    | .char '\x60' :: _ =>
      drop 1
      return []
    | .char '\\' :: g :: _ =>
      drop 2
      let rest ← backquoted fuel
      return if g = .char '$' || g = .char '\x60' || g = .char '\\' then g :: rest
        else .char '\\' :: g :: rest
    | g :: _ =>
      drop 1
      return g :: (← backquoted fuel)

/-- Reads a script from a text of its own. -/
def inside (n : Nested) (t : Text) : Reader (List Statement) := fun c =>
  match n.script { c with text := t } with
  | .ok script _ => .ok script c
  | .error e _ => .error e c

/-- What stands behind a dollar. -/
def dollar (n : Nested) (isQuoted : Bool) : Reader Part := do
  match ← look with
  | .char '(' :: .char '(' :: _ =>
    drop 2
    let w ← n.parts (.char ')') true
    expect "))"
    return .sum isQuoted w
  | .char '(' :: _ =>
    drop 1
    let script ← n.script
    expect ")"
    return .output isQuoted script
  | .char '\x7b' :: _ =>
    drop 1
    braced n isQuoted
  | g :: _ =>
    if isNameStart g then return .value isQuoted (← takeWhile isNameGlyph) .plain
    else if (Text.digit? g).isSome || ("@*#?-$!" : Text).any (· = g) then
      drop 1
      return .value isQuoted [g] .plain
    else return .text isQuoted "$"
  | [] => return .text isQuoted "$"

/-- One part of a word, or several if it is quoted. -/
def part (n : Nested) (isQuoted : Bool) (stop : Glyph → Bool) : Reader Word := do
  match ← look with
  | [] => return []
  | .char '\\' :: .char '\n' :: _ =>
    drop 2
    return []
  | .char '\\' :: g :: _ =>
    drop 2
    let isEscape := !isQuoted ||
      ([.char '$', .char '\x60', .char '"', .char '\\'] : List Glyph).contains g
    return [.text true (if isEscape then [g] else ['\\', g])]
  | .char '$' :: _ =>
    drop 1
    return [← dollar n isQuoted]
  | .char '\x60' :: _ =>
    drop 1
    return [.output isQuoted (← inside n (← backquoted ((← look).length + 1)))]
  | .char '(' :: _ =>
    if stop (.char ')') then
      drop 1
      let w ← n.parts (.char ')') isQuoted
      expect ")"
      return .text isQuoted "(" :: w ++ [.text isQuoted ")"]
    else return [.text isQuoted (← takeWhile (· = .char '('))]
  | .char '\'' :: _ =>
    if isQuoted then
      drop 1
      return [.text true "'"]
    drop 1
    let t ← takeWhile (· ≠ .char '\'')
    unless ← accept "'" do throw .unterminated
    return [.text true t]
  | .char '"' :: _ =>
    if isQuoted then
      drop 1
      return [.text true "\""]
    drop 1
    let w ← n.parts (.char '"') true
    unless ← accept "\"" do throw .unterminated
    return .text true [] :: w
  | g :: _ =>
    let t ← takeWhile fun g => !stop g && !isActive g && g ≠ .char '('
    if t.isEmpty then
      drop 1
      return [.text isQuoted [g]]
    else return [.text isQuoted t]

/-- The parts up to a glyph that ends them. -/
def partsUntil (n : Nested) (isQuoted : Bool) (stop : Glyph → Bool) : (fuel : Nat) → Reader Word
  | 0 => return []
  | fuel + 1 => do
    match ← look with
    | [] => return []
    | g :: _ =>
      if stop g then return []
      let w ← part n isQuoted stop
      return w ++ (← partsUntil n isQuoted stop fuel)

def word (n : Nested) : Reader Word := do partsUntil n false isMeta ((← look).length + 1)

/-! ### Simple commands -/

/-- Takes the lines of a document out of the text: those behind the current line, up to one that is
`last`. With `stripsTabs` tabs before a line are dropped. -/
def takeDocument (last : Text) (stripsTabs : Bool) : Reader Text := do
  let t ← look
  let current := t.takeWhile (· ≠ .char '\n')
  let strip := fun (l : Text) => if stripsTabs then l.dropWhile (· = .char '\t') else l
  let below := t.drop (current.length + 1)
  let lines := if below.isEmpty then [] else Text.split below '\n'
  let body := lines.takeWhile fun l => strip l ≠ last
  let rest := lines.drop (body.length + 1)
  modify fun c => { c with text := current ++ "\n" ++ Text.join "\n" rest }
  return body.flatMap fun l => strip l ++ "\n"

/-- Reads parts from a text of its own. -/
def partsOf (n : Nested) (t : Text) : Reader Word := fun c =>
  match n.parts (.stray 0) true { c with text := t } with
  | .ok w _ => .ok w c
  | .error e _ => .error e c

/-- The part behind `<<`: a document in the script. -/
def document (n : Nested) (stripsTabs : Bool) : Reader Word := do
  skipBlanks
  let raw := (← look).takeWhile fun g => !isMeta g
  drop raw.length
  let last := raw.filter fun g => !isActive g
  let body ← takeDocument last stripsTabs
  if raw.any isActive then return [.text true body] else partsOf n body

/-- A redirection, if one is next. -/
def redirection? (n : Nested) : Reader (Option Redirection) := do
  let t ← look
  let digits := t.takeWhile fun g => (Text.digit? g).isSome
  let isNext := match t.drop digits.length with
    | .char '<' :: _ | .char '>' :: _ => true
    | _ => false
  unless isNext do return none
  drop digits.length
  let descriptor := fun (default : Nat) => (Text.readNat? digits).getD default
  let operators : List (Text × Nat × Direction) := [
    (">>", 1, .appending), (">&", 1, .duplicating), (">|", 1, .writing), (">", 1, .writing),
    ("<&", 0, .duplicating), ("<", 0, .reading)]
  if ← accept "<<-" then return some (.mk (descriptor 0) .document (← document n true))
  if ← accept "<<" then return some (.mk (descriptor 0) .document (← document n false))
  for (o, default, direction) in operators do
    if ← accept o then
      skipBlanks
      let target ← word n
      if target.isEmpty then unexpected none
      return some (.mk (descriptor default) direction target)
  return none

/-- The redirections that are next. -/
def redirections (n : Nested) : (fuel : Nat) → Reader (List Redirection)
  | 0 => return []
  | fuel + 1 => do
    skipBlanks
    match ← redirection? n with
    | some r => return r :: (← redirections n fuel)
    | none => return []

/-- The name that is assigned to, if an assignment is next. -/
def assigned? : Reader (Option Text) := do
  let t ← look
  let name := t.takeWhile isNameGlyph
  return if name.head?.any isNameStart && (t.drop name.length).head? = some (.char '=') then
    some name else none

/-- The rest of a simple command. -/
def simpleRest (n : Nested) (line : Nat) : (fuel : Nat) → List (Text × Word) → List Word →
    List Redirection → Reader Statement
  | 0, assignments, words, rs => return .simple line assignments words rs
  | fuel + 1, assignments, words, rs => do
    skipBlanks
    match ← redirection? n with
    | some r => simpleRest n line fuel assignments words (rs ++ [r])
    | none =>
      let name? ← if words.isEmpty then assigned? else pure none
      match name? with
      | some name =>
        drop (name.length + 1)
        simpleRest n line fuel (assignments ++ [(name, ← word n)]) words rs
      | none =>
        let w ← word n
        if w.isEmpty then return .simple line assignments words rs
        else simpleRest n line fuel assignments (words ++ [w]) rs

/-- A simple command, or the definition of a function. -/
def simple (n : Nested) : Reader Statement := do
  let name ← plainWord
  let isDefinition := !name.isEmpty && name.all isNameGlyph &&
    (((← look).drop name.length).dropWhile (· = .char ' ')).head? = some (.char '(')
  if isDefinition then
    drop name.length
    skipBlanks
    expect "("
    skipBlanks
    expect ")"
    skipLines
    return .define name (← n.command)
  let c ← simpleRest n (← get).line ((← look).length + 1) [] [] []
  match c with
  | .simple _ [] [] [] => unexpected none
  | c => return c

/-! ### Compound commands -/

/-- The rest of a conditional, behind `if` or `elif`. -/
def branches (n : Nested) : (fuel : Nat) → Reader Statement
  | 0 => unexpected (some "fi")
  | fuel + 1 => do
    let condition ← n.script
    expectWord "then"
    let yes ← n.script
    skipLines
    let w ← plainWord
    if w = "elif" then
      drop 4
      return .branch condition yes [← branches n fuel]
    else if w = "else" then
      drop 4
      let no ← n.script
      expectWord "fi"
      return .branch condition yes no
    else
      expectWord "fi"
      return .branch condition yes []

def doBody (n : Nested) : Reader (List Statement) := do
  expectWord "do"
  let body ← n.script
  expectWord "done"
  return body

/-- Words up to the end of a line. -/
def wordsAhead (n : Nested) : (fuel : Nat) → Reader (List Word)
  | 0 => return []
  | fuel + 1 => do
    skipBlanks
    let w ← word n
    if w.isEmpty then return [] else return w :: (← wordsAhead n fuel)

def eachLoop (n : Nested) : Reader Statement := do
  skipBlanks
  let name ← takeWhile isNameGlyph
  skipLines
  let words? ← if (← plainWord) = "in" then do
      drop 2
      let ws ← wordsAhead n ((← look).length + 1)
      pure (some ws)
    else pure none
  skipBlanks
  let _ ← accept ";"
  return .each name words? (← doBody n)

/-- The cases of a choice. -/
def cases (n : Nested) : (fuel : Nat) → Reader (List (List Word × List Statement))
  | 0 => return []
  | fuel + 1 => do
    skipLines
    if (← plainWord) = "esac" then return []
    let _ ← accept "("
    skipBlanks
    let mut patterns := [← word n]
    for _ in [0 : (← look).length] do
      skipBlanks
      if ← accept "|" then
        skipBlanks
        patterns := patterns ++ [← word n]
      else break
    expect ")"
    let body ← n.script
    skipLines
    if ← accept ";;" then return (patterns, body) :: (← cases n fuel)
    else return [(patterns, body)]

def choice (n : Nested) : Reader Statement := do
  skipBlanks
  let subject ← word n
  expectWord "in"
  let cs ← cases n ((← look).length + 1)
  expectWord "esac"
  return .choice subject cs

/-- One command with its redirections. -/
def command (n : Nested) : Reader Statement := do
  skipBlanks
  let w ← plainWord
  let compound : Option (Reader Statement) :=
    if w = "if" then some (do branches n ((← look).length + 1))
    else if w = "while" then some (do return .loop false (← n.script) (← doBody n))
    else if w = "until" then some (do return .loop true (← n.script) (← doBody n))
    else if w = "for" then some (eachLoop n)
    else if w = "case" then some (choice n)
    else if w = "\x7b" then some (do
      let body ← n.script
      expectWord "\x7d"
      return .sequence body)
    else none
  let c? ← match compound with
    | some read =>
      drop w.length
      pure (some (← read))
    | none =>
      if ← accept "(" then
        let body ← n.script
        expect ")"
        pure (some (.subshell body))
      else pure none
  match c? with
  | none => if closers.contains w then unexpected none else simple n
  | some c =>
    match ← redirections n ((← look).length + 1) with
    | [] => return c
    | rs => return .redirected c rs

/-! ### Lists -/

/-- Goes past an operator that is not the first half of a longer one. -/
def acceptSingle (g : Glyph) : Reader Bool := do
  match ← look with
  | a :: b :: _ =>
    if a = g && b ≠ g then
      drop 1
      return true
    else return false
  | [a] =>
    if a = g then
      drop 1
      return true
    else return false
  | [] => return false

def stages (n : Nested) : (fuel : Nat) → Reader (List Statement)
  | 0 => return []
  | fuel + 1 => do
    let c ← command n
    skipBlanks
    if ← acceptSingle (.char '|') then
      skipLines
      return c :: (← stages n fuel)
    else return [c]

def pipeline (n : Nested) : Reader Statement := do
  skipBlanks
  let isNegated := (← plainWord) = "!"
  if isNegated then drop 1
  let c := match ← stages n ((← look).length + 1) with
    | [c] => c
    | cs => .pipe cs
  return if isNegated then .negated c else c

/-- Pipelines joined by `&&` and `||`. -/
def joinedRest (n : Nested) : (fuel : Nat) → Statement → Reader Statement
  | 0, c => return c
  | fuel + 1, c => do
    skipBlanks
    if ← accept "&&" then
      skipLines
      joinedRest n fuel (.joined true c (← pipeline n))
    else if ← accept "||" then
      skipLines
      joinedRest n fuel (.joined false c (← pipeline n))
    else return c

def joined (n : Nested) : Reader Statement := do
  joinedRest n ((← look).length + 1) (← pipeline n)

/-- A list ends at a closing token. -/
def isAtEnd : Reader Bool := do
  match ← look with
  | [] => return true
  | .char ')' :: _ => return true
  | .char ';' :: .char ';' :: _ => return true
  | _ => return closers.contains (← plainWord)

/-- One command of a list with what ends it. -/
def listItem (n : Nested) : Reader Statement := do
  let c ← joined n
  skipBlanks
  if ← acceptSingle (.char '&') then return .background c
  else
    let _ ← acceptSingle (.char ';')
    return c

/-- Commands up to a closing token. -/
def list (n : Nested) : (fuel : Nat) → Reader (List Statement)
  | 0 => return []
  | fuel + 1 => do
    skipLines
    if ← isAtEnd then return []
    let c ← listItem n
    return c :: (← list n fuel)

/-- Commands up to the end of a line. -/
def lineItems (n : Nested) : (fuel : Nat) → Reader (List Statement)
  | 0 => return []
  | fuel + 1 => do
    let c ← listItem n
    skipBlanks
    match ← look with
    | [] => return [c]
    | .char '\n' :: _ => return [c]
    | _ => return c :: (← lineItems n fuel)

/-! ### Scripts -/

/-- The readers for a depth of nesting. -/
def nested : (depth : Nat) → Nested
  | 0 => ⟨unexpected none, unexpected none, fun _ _ => unexpected none⟩
  | depth + 1 =>
    let n := nested depth
    { script := do list n ((← look).length + 1)
      command := command n
      parts := fun stop isQuoted => do partsUntil n isQuoted (· = stop) ((← look).length + 1) }

/-- The next line with commands; `none` at the end. -/
def line? (n : Nested) : Reader (Option (List Statement)) := do
  skipLines
  if (← look).isEmpty then return none
  return some (← lineItems n ((← look).length + 1))

end Reader

/-- A script line by line, and the fault of the first line that cannot be read. -/
structure Program where
  lines : List (List Statement) := []
  fault : Option (Nat × Fault) := none

namespace Program

/-- Reads lines until nothing is left. -/
def readLines (n : Nested) : (fuel : Nat) → Cursor → Program
  | 0, _ => {}
  | fuel + 1, c =>
    match Reader.line? n c with
    | .ok none _ => {}
    | .ok (some cs) c =>
      let p := readLines n fuel c
      { p with lines := cs :: p.lines }
    | .error e c => { fault := some (c.line, e) }

/-- Reads a script. -/
def ofText (t : Text) : Program :=
  readLines (Reader.nested (t.length + 2)) (t.length + 1) { text := t }

end Program

end Posix

end CallerTree
