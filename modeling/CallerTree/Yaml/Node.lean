import CallerTree.Yaml.Token
import CallerTree.Yaml.Value

/-!
# YAML documents

A document is a graph of scalars, sequences, mappings and aliases. An alias refers to a node that
was named by an anchor before it, which may be a collection around it. Only the first document of a
text is read: what follows it is looked at no further than the tokens in advance require.

## Implementation notes

The nodes of a document are numbered in the order in which they start, and refer to each other by
number. A collection has its number, and its anchor has its meaning, from its start on.
-/

namespace CallerTree

namespace Yaml

/-- The number of a node in its document. -/
abbrev NodeId := Nat

inductive Content where
  | scalar (text : Text)
  | sequence (items : List NodeId)
  | mapping (entries : List (NodeId × NodeId))
  | reference (name : Text) (target : NodeId)
  deriving DecidableEq, Repr

/-- Every node has the line where it starts, counted from 1, and a short tag. -/
structure Node where
  line : Nat
  tag : Text
  content : Content
  deriving DecidableEq, Repr

namespace Node

/-- The text that tells two keys of one kind apart. -/
def label (n : Node) : Text :=
  match n.content with
  | .scalar text => text
  | .reference name _ => name
  | .sequence _ | .mapping _ => []

/-- A number for each kind of node. -/
def kind (n : Node) : Nat :=
  match n.content with
  | .scalar _ => 0
  | .sequence _ => 1
  | .mapping _ => 2
  | .reference _ _ => 3

/-- Two nodes that count as the same key. -/
def sameKey (m n : Node) : Bool := m.kind = n.kind && m.label = n.label

/-- The key under which other mappings are merged into this one. -/
def isMerge (n : Node) : Bool :=
  match n.content with
  | .scalar text => text = "<<" && n.tag = Tag.merge
  | _ => false

def isMapping (n : Node) : Bool :=
  match n.content with
  | .mapping _ => true
  | _ => false

end Node

structure Document where
  nodes : Array Node
  root : NodeId
  deriving DecidableEq, Repr

/-- A node of a document. -/
def Document.node (d : Document) (id : NodeId) : Node := d.nodes[id]?.getD ⟨0, [], .scalar []⟩

/-! ### Reading -/

structure Reader where
  lexer : Lexer
  /-- Handles of tags and what they stand for. -/
  handles : List (List Char × Text) := []
  /-- The latest anchor first. -/
  anchors : List (List Char × NodeId) := []
  nodes : Array Node := #[]

abbrev Read := StateT Reader (Except SyntaxError)

namespace Read

def lex {α : Type} (x : Lex α) : Read α := fun r => do
  let (a, lexer) ← x.run r.lexer
  return (a, { r with lexer })

def peek : Read Token := lex Lexer.peek

def skip : Read Unit := lex Lexer.skip

/-- Takes the next token and looks at the one after it. -/
def advance : Read Token := do skip; peek

def fail {α : Type} (context : Mark) (problem : Text) (at_ : Token) : Read α :=
  throw { contextLine := context.line, problemLine := at_.mark.line, problem }

/-- A fault that was seen ahead counts as soon as the start or the end of a node has been read. -/
def settle : Read Unit := do
  match (← get).lexer.cursor.seen with
  | some e => throw e
  | none => return

/-! ### Nodes -/

def add (n : Node) : Read NodeId := do
  let id := (← get).nodes.size
  modify fun r => { r with nodes := r.nodes.push n }
  return id

def name (anchor : Option (List Char)) (id : NodeId) : Read Unit :=
  match anchor with
  | none => return
  | some name => modify fun r => { r with anchors := (name, id) :: r.anchors }

/-- Adds a node that is complete. -/
def leaf (anchor : Option (List Char)) (n : Node) : Read NodeId := do
  settle
  let id ← add n
  name anchor id
  return id

/-- Adds a collection, of which the content is read after it has been named. -/
def collection (anchor : Option (List Char)) (n : Node) (content : Read Content) :
    Read NodeId := do
  let id ← leaf anchor n
  let content ← content
  settle
  modify fun r => { r with nodes := r.nodes.modify id fun n => { n with content } }
  return id

/-- A node that is left out is null. -/
def missing (mark : Mark) : Read NodeId := leaf none ⟨mark.line + 1, Tag.null, .scalar []⟩

/-- A tag that says nothing is dropped. -/
def effective (tag : Option Text) : Option Text := tag.filter (· ≠ "!")

/-- The tag of a scalar that carries none. -/
def defaultTag (style : Style) (text : Text) : Text :=
  match style with
  | .plain => if text = "<<" then Tag.merge else (plainValue true text).tag
  | _ => Tag.text

/-- Handles that need no directive. -/
def commonHandles : List (List Char × Text) := [(['!'], "!"), (['!', '!'], "tag:yaml.org,2002:")]

/-- The full tag that a handle and a suffix stand for. -/
def resolveTag (context : Mark) (t : TagName) (at_ : Token) : Read Text := do
  if t.handle.isEmpty then return t.suffix
  match ((← get).handles ++ commonHandles).lookup t.handle with
  | some meaning => return meaning ++ t.suffix
  | none => fail context "found undefined tag handle" at_

/-- An anchor and a tag in either order, and the token after them. -/
def properties (t : Token) : Read (Option (List Char) × Option Text × Token) := do
  match t.lexeme with
  | .anchor a =>
    let t' ← advance
    match t'.lexeme with
    | .tag tag =>
      let next ← advance
      return (some a, some (← resolveTag t.mark tag t'), next)
    | _ => return (some a, none, t')
  | .tag tag =>
    let t' ← advance
    match t'.lexeme with
    | .anchor a =>
      let next ← advance
      return (some a, some (← resolveTag t.mark tag t), next)
    | _ => return (none, some (← resolveTag t.mark tag t), t')
  | _ => return (none, none, t)

def readAlias (t : Token) (name : List Char) : Read NodeId := do
  skip
  settle
  match (← get).anchors.lookup name with
  | none => throw (fault ("unknown anchor '" ++ Text.ofChars name ++ "' referenced"))
  | some target => add ⟨t.mark.line + 1, [], .reference (Text.ofChars name) target⟩

mutual

/-- Reads a node. `block` says whether a block collection may start here, and `dashes` whether a
sequence may start at the column of the mapping around it. -/
def node : (fuel : Nat) → (block dashes : Bool) → Read NodeId
  | 0, _, _ => throw (fault tooDeep)
  | fuel + 1, block, dashes => do
    let first ← peek
    match first.lexeme with
    | .reference a => readAlias first a
    | _ =>
      let (anchor, tag, t) ← properties first
      let line := first.mark.line + 1
      let tag' := (effective tag).map Tag.short
      let sequence := collection anchor ⟨line, tag'.getD Tag.sequence, .sequence []⟩
      let mapping := collection anchor ⟨line, tag'.getD Tag.mapping, .mapping []⟩
      match t.lexeme with
      | .scalar style text =>
        skip
        let text := Text.ofChars text
        leaf anchor ⟨line, tag'.getD (defaultTag style text), .scalar text⟩
      | .flowSequenceStart => sequence do
        skip
        return .sequence (← flowItems fuel t.mark true [])
      | .flowMappingStart => mapping do
        skip
        return .mapping (← flowEntries fuel t.mark true [])
      | lexeme =>
        if dashes && lexeme = .blockEntry then sequence do
          return .sequence (← dashItems fuel [])
        else if block && lexeme = .blockSequenceStart then sequence do
          skip
          return .sequence (← blockItems fuel t.mark [])
        else if block && lexeme = .blockMappingStart then mapping do
          skip
          return .mapping (← blockEntries fuel t.mark [])
        else if anchor.isSome || tag.isSome then
          leaf anchor ⟨line, tag'.getD Tag.null, .scalar []⟩
        else fail first.mark "did not find expected node content" t

/-- The items of a sequence at the column of the mapping around it. Those before them stand in
reverse. -/
def dashItems : (fuel : Nat) → (done : List NodeId) → Read (List NodeId)
  | 0, done => return done.reverse
  | fuel + 1, done => do
    let t ← peek
    if t.lexeme ≠ .blockEntry then return done.reverse
    let next ← advance
    let item ←
      if [.blockEntry, .key, .value, .blockEnd].contains next.lexeme then missing t.mark
      else node fuel true false
    dashItems fuel (item :: done)

def blockItems : (fuel : Nat) → (start : Mark) → (done : List NodeId) → Read (List NodeId)
  | 0, _, done => return done.reverse
  | fuel + 1, start, done => do
    let t ← peek
    match t.lexeme with
    | .blockEntry =>
      let next ← advance
      let item ←
        if [.blockEntry, .blockEnd].contains next.lexeme then missing t.mark
        else node fuel true false
      blockItems fuel start (item :: done)
    | .blockEnd => do skip; return done.reverse
    | _ => fail start "did not find expected '-' indicator" t

def blockEntries : (fuel : Nat) → (start : Mark) → (done : List (NodeId × NodeId)) →
    Read (List (NodeId × NodeId))
  | 0, _, done => return done.reverse
  | fuel + 1, start, done => do
    let t ← peek
    match t.lexeme with
    | .key =>
      let next ← advance
      let key ←
        if [.key, .value, .blockEnd].contains next.lexeme then missing t.mark
        else node fuel true true
      let value ← blockValue fuel
      blockEntries fuel start ((key, value) :: done)
    | .blockEnd => do skip; return done.reverse
    | _ => fail start "did not find expected key" t

/-- The value of a block entry, which may be left out. -/
def blockValue : (fuel : Nat) → Read NodeId
  | 0 => throw (fault tooDeep)
  | fuel + 1 => do
    let t ← peek
    if t.lexeme ≠ .value then missing t.mark
    else
      let next ← advance
      if [.key, .value, .blockEnd].contains next.lexeme then missing t.mark
      else node fuel true true

/-- The items of a flow sequence. A single entry of a mapping may stand as an item. -/
def flowItems : (fuel : Nat) → (start : Mark) → (isFirst : Bool) → (done : List NodeId) →
    Read (List NodeId)
  | 0, _, _, done => return done.reverse
  | fuel + 1, start, isFirst, done => do
    let t ← peek
    if t.lexeme = .flowSequenceEnd then
      skip
      return done.reverse
    if !isFirst && t.lexeme ≠ .flowEntry then fail start "did not find expected ',' or ']'" t
    let t ← if isFirst then pure t else advance
    match t.lexeme with
    | .flowSequenceEnd => do skip; return done.reverse
    | .key =>
      let item ← collection none ⟨t.mark.line + 1, Tag.mapping, .mapping []⟩ (flowPair fuel)
      flowItems fuel start false (item :: done)
    | _ =>
      let item ← node fuel false false
      flowItems fuel start false (item :: done)

/-- A mapping of one entry inside a flow sequence. -/
def flowPair : (fuel : Nat) → Read Content
  | 0 => throw (fault tooDeep)
  | fuel + 1 => do
    let t ← advance
    let key ←
      if [.value, .flowEntry, .flowSequenceEnd].contains t.lexeme then do
        skip
        missing t.mark
      else node fuel false false
    let value ← flowValue fuel .flowSequenceEnd
    return .mapping [(key, value)]

/-- The value of a flow entry, which may be left out. -/
def flowValue : (fuel : Nat) → (closing : Lexeme) → Read NodeId
  | 0, _ => throw (fault tooDeep)
  | fuel + 1, closing => do
    let t ← peek
    if t.lexeme ≠ .value then missing t.mark
    else
      let next ← advance
      if [.flowEntry, closing].contains next.lexeme then missing next.mark
      else node fuel false false

def flowEntries : (fuel : Nat) → (start : Mark) → (isFirst : Bool) →
    (done : List (NodeId × NodeId)) → Read (List (NodeId × NodeId))
  | 0, _, _, done => return done.reverse
  | fuel + 1, start, isFirst, done => do
    let t ← peek
    if t.lexeme = .flowMappingEnd then
      skip
      return done.reverse
    if !isFirst && t.lexeme ≠ .flowEntry then fail start "did not find expected ',' or '\x7d'" t
    let t ← if isFirst then pure t else advance
    match t.lexeme with
    | .flowMappingEnd => do skip; return done.reverse
    | .key =>
      let next ← advance
      let key ←
        if [.value, .flowEntry, .flowMappingEnd].contains next.lexeme then missing next.mark
        else node fuel false false
      let value ← flowValue fuel .flowMappingEnd
      flowEntries fuel start false ((key, value) :: done)
    | _ =>
      let key ← node fuel false false
      let next ← peek
      let value ← missing next.mark
      flowEntries fuel start false ((key, value) :: done)

end

/-! ### Documents -/

/-- Reads the directives in front of a document. -/
def directives : (fuel : Nat) → (versioned : Bool) → Read Token
  | 0, _ => peek
  | fuel + 1, versioned => do
    let t ← peek
    match t.lexeme with
    | .directive (.version major minor) =>
      if versioned then fail {} "found duplicate %YAML directive" t
      if major ≠ 1 ∨ minor ≠ 1 then fail {} "found incompatible YAML document" t
      skip
      directives fuel true
    | .directive (.handle handle meaning) =>
      if ((← get).handles.lookup handle).isSome then fail {} "found duplicate %TAG directive" t
      modify fun r => { r with handles := (handle, meaning) :: r.handles }
      skip
      directives fuel versioned
    | _ => return t

def startsDocument : Lexeme → Bool
  | .directive _ | .documentStart | .streamEnd => true
  | _ => false

/-- Reads the start of a document; says whether there is one, and whether it was announced. -/
def start (fuel : Nat) : Read (Option Bool) := do
  let t ← peek
  if !startsDocument t.lexeme then return some false
  if t.lexeme = .streamEnd then return none
  let t ← directives fuel false
  if t.lexeme ≠ .documentStart then fail {} "did not find expected <document start>" t
  skip
  return some true

/-- The root of the first document of a text, if it has one. -/
def document (fuel : Nat) : Read (Option NodeId) := do
  let _ ← peek
  skip
  settle
  let started ← start fuel
  settle
  match started with
  | none => return none
  | some announced =>
    let next ← peek
    let root ←
      if announced && (startsDocument next.lexeme || next.lexeme = .documentEnd) then
        missing next.mark
      else node fuel true false
    let _ ← peek
    settle
    return some root

end Read

/-- Reads the first document of a text. -/
def firstDocument (bytes : Bytes) : Except SyntaxError (Option Document) := do
  let cursor := Cursor.ofBytes bytes
  let (root, r) ← (Read.document (4 * cursor.limit + 16)).run { lexer := { cursor } }
  return root.map fun root => { nodes := r.nodes, root }

end Yaml

end CallerTree
