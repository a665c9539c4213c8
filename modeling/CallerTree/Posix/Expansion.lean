import CallerTree.Posix.Arithmetic
import CallerTree.Posix.State

/-!
# Expansion of words

A word of a script becomes fields when it is used. The values of variables are put in and cut at
blanks, unless they are quoted, and patterns are replaced by the names of files.
-/

namespace CallerTree

namespace Posix

/-- A glyph, and whether it can be part of a pattern. -/
abbrev Field := List (Bool × Glyph)

def Field.text (f : Field) : Text := f.map (·.2)

/-- A text in which nothing is a pattern. -/
def Field.literal (t : Text) : Field := t.map fun g => (false, g)

/-! ### Patterns -/

/-- Whether a glyph is in a set written between brackets. -/
def inSet (g : Glyph) : List Glyph → Bool
  | a :: .char '-' :: b :: rest =>
    (a.toChar ≤ g.toChar && g.toChar ≤ b.toChar) || inSet g rest
  | a :: rest => a = g || inSet g rest
  | [] => false

/-- Whether a text has the form of a pattern. -/
def fits : (pattern : Field) → Text → Bool
  | [], t => t.isEmpty
  | (true, .char '*') :: p, [] => fits p []
  | (true, .char '*') :: p, g :: t => fits p (g :: t) || fits ((true, .char '*') :: p) t
  | (true, .char '?') :: p, _ :: t => fits p t
  | (true, .char '[') :: p, g :: t =>
    let set := p.takeWhile (·.2 ≠ .char ']')
    if set.length < p.length then
      let members := set.map (·.2)
      let hit := match members with
        | .char '!' :: rest | .char '^' :: rest => !inSet g rest
        | members => inSet g members
      hit && fits (p.drop (set.length + 1)) t
    else .char '[' = g && fits p t
  | (_, a) :: p, g :: t => a = g && fits p t
  | _ :: _, [] => false
termination_by p t => p.length + t.length
decreasing_by all_goals simp_all <;> omega

def Field.isPattern (f : Field) : Bool :=
  f.any fun (isActive, g) => isActive && (g = .char '*' || g = .char '?' || g = .char '[')

/-- The names of files that a pattern stands for, or the pattern itself if there are none. -/
def Field.names (files : FileSystem) (f : Field) : List Text :=
  if !f.isPattern then [f.text]
  else
    let last : Field := (f.reverse.takeWhile (·.2 ≠ .char '/')).reverse
    let dir : Field := f.take (f.length - last.length)
    let place : Text := if dir.isEmpty then "." else dir.text
    let isHidden := fun (n : Text) => n.head? = some (.char '.')
    match files.entry true place with
    | .ok (.folder entries) =>
      let names := (entries.map (·.1)).filter fun n =>
        (!isHidden n || isHidden last.text) && fits last n
      if names.isEmpty || dir.isPattern then [f.text]
      else (names.mergeSort Text.byteLE).map (dir.text ++ ·)
    | _ => [f.text]

/-- A value without a part at its start that fits a pattern. -/
def withoutStart (longest : Bool) (pattern : Field) (t : Text) : Text :=
  let lengths := (List.range (t.length + 1)).filter fun n => fits pattern (t.take n)
  match if longest then lengths.getLast? else lengths.head? with
  | some n => t.drop n
  | none => t

/-- A value without a part at its end that fits a pattern. -/
def withoutEnd (longest : Bool) (pattern : Field) (t : Text) : Text :=
  let lengths := (List.range (t.length + 1)).filter fun n => fits pattern (t.drop n)
  match if longest then lengths.head? else lengths.getLast? with
  | some n => t.take n
  | none => t

/-! ### Pieces -/

/-- What a part of a word becomes. -/
inductive Piece where
  /-- Text of the script. -/
  | plain (t : Text)
  /-- Quoted text. -/
  | fixed (t : Text)
  /-- A value that is cut at blanks. -/
  | loose (t : Text)
  /-- An end of a field. -/
  | gap
  deriving DecidableEq, Repr

def Piece.field : Piece → Field
  | plain t => t.map fun g => (true, g)
  | fixed t => .literal t
  | loose t => t.map fun g => (true, g)
  | gap => [(false, .char ' ')]

/-- The pieces as one field. -/
def joinPieces (ps : List Piece) : Field := ps.flatMap Piece.field

def isFieldBlank (g : Glyph) : Bool := g = .char ' ' || g = .char '\t' || g = .char '\n'

/-- Fields in the making: those that are complete, and the one that is not. -/
structure Fields where
  complete : List Field := []
  current : Option Field := none

namespace Fields

def close (f : Fields) : Fields :=
  match f.current with
  | some c => { complete := f.complete ++ [c] }
  | none => f

def extend (f : Fields) (c : Field) : Fields := { f with current := some (f.current.getD [] ++ c) }

def add (f : Fields) : Piece → Fields
  | .plain t => f.extend (Piece.plain t).field
  | .fixed t => f.extend (Piece.fixed t).field
  | .loose t => t.foldl (fun f g => if isFieldBlank g then f.close else f.extend [(true, g)]) f
  | .gap => f.close

end Fields

/-- Cuts pieces into fields. -/
def fieldsOf (ps : List Piece) : List Field := (ps.foldl Fields.add {}).close.complete

/-! ### Values -/

/-- What constructs inside of words and commands are run by. -/
structure Inner where
  run : List Statement → Shell Unit
  pieces : Word → Shell (List Piece)

namespace Shell

/-- The value of a variable or a special parameter. -/
def value? (name : Text) : Shell (Option Text) := do
  let s ← get
  match name with
  | [.char '?'] => return some (Text.ofNat s.status)
  | [.char '$'] => return some (Text.ofNat s.pid)
  | [.char '#'] => return some (Text.ofNat s.arguments.length)
  | [.char '-'] => return some (if s.isStrict then "e" else [])
  | [.char '!'] => return if s.jobs.isEmpty then none else some (Text.ofNat (s.pid + s.jobs.length))
  | [.char '@'] | [.char '*'] =>
    return if s.arguments.isEmpty then none else some (Text.join " " s.arguments)
  | name =>
    match Text.readNat? name with
    | some 0 => return some s.name
    | some (n + 1) => return s.arguments[n]?
    | none => return s.bindings.lookup name

def assign (name value : Text) : Shell Unit := modify fun s => { s with
  bindings := (name, value) :: s.bindings.filter fun v => v.1 ≠ name }

/-- The word as one field. -/
def fieldOf (inner : Inner) (w : Word) : Shell Field := return joinPieces (← inner.pieces w)

def textOf (inner : Inner) (w : Word) : Shell Text := return (← fieldOf inner w).text

/-- A message that ends the shell. -/
def abort {α : Type} (t : Text) : Shell α := do
  complain t
  throw (.exit 2)

/-- What a script prints, without the ends of its last lines. -/
def outputOf (inner : Inner) (script : List Statement) : Shell Text := do
  let (s, isEnded) ← captured (inner.run script)
  unless isEnded do throw .endless
  let data := s.data.filter (· ≠ 0)
  return Text.ofUtf8 (data.reverse.dropWhile (· = Stream.lineFeed)).reverse

/-- The pieces of a value: each argument is one of its own. -/
def plainPieces (isQuoted : Bool) (name : Text) : Shell (List Piece) := do
  let s ← get
  let make := fun t => if isQuoted then Piece.fixed t else Piece.loose t
  if name = "@" ∨ (name = "*" ∧ !isQuoted) then
    return (s.arguments.map make).intersperse .gap
  match ← value? name with
  | some t => return [make t]
  | none =>
    if s.isChecked && name ≠ "*" then abort (name ++ ": parameter not set")
    return if isQuoted then [.fixed []] else []

/-- The pieces of a value that is used in some way. -/
def valuePieces (inner : Inner) (isQuoted : Bool) (name : Text) (use : Use) :
    Shell (List Piece) := do
  let v ← value? name
  let isSet := fun orEmpty => match v with
    | some t => !(orEmpty && t.isEmpty)
    | none => false
  let make := fun t => if isQuoted then Piece.fixed t else Piece.loose t
  match use with
  | .plain => plainPieces isQuoted name
  | .size => return [make (Text.ofNat (v.getD []).length)]
  | .instead orEmpty assigns word =>
    if isSet orEmpty then plainPieces isQuoted name
    else if assigns then
      let t ← textOf inner word
      assign name t
      return [make t]
    else inner.pieces word
  | .besides orEmpty word => if isSet orEmpty then inner.pieces word else return []
  | .required orEmpty word =>
    if isSet orEmpty then plainPieces isQuoted name
    else
      let t ← textOf inner word
      abort (name ++ ": " ++ if t.isEmpty then ("parameter not set" : Text) else t)
  | .trimmed atEnd longest pattern =>
    let p ← fieldOf inner pattern
    let t := v.getD []
    return [make (if atEnd then withoutEnd longest p t else withoutStart longest p t)]

/-- The pieces of one part of a word. -/
def partPieces (inner : Inner) : Part → Shell (List Piece)
  | .text isQuoted t => return [if isQuoted then .fixed t else .plain t]
  | .value isQuoted name use => valuePieces inner isQuoted name use
  | .output isQuoted script => do
    let t ← outputOf inner script
    return [if isQuoted then .fixed t else .loose t]
  | .sum isQuoted expression => do
    let t ← textOf inner expression
    match evaluate (← get).bindings t with
    | .ok (n, bindings) =>
      modify fun s => { s with bindings }
      return [if isQuoted then .fixed (Text.ofInt n) else .loose (Text.ofInt n)]
    | .error message => abort message

def wordPieces (inner : Inner) (w : Word) : Shell (List Piece) := do
  return (← w.mapM (partPieces inner)).flatten

/-- The fields of words, with patterns replaced by names. -/
def wordFields (inner : Inner) (ws : List Word) : Shell (List Text) := do
  let fields ← ws.mapM fun w => return fieldsOf (← inner.pieces w)
  return fields.flatten.flatMap (·.names (← get).files)

end Shell

end Posix

end CallerTree
