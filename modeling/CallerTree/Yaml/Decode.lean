import CallerTree.Duration
import CallerTree.Text.Quoted
import CallerTree.Yaml.Node
import Std.Data.TreeSet

/-!
# Decoding documents

A document is decoded into a value of a known type. Nodes of another kind are noted as mismatches
and leave the value as it is; the mismatches are reported together. Null leaves a value as it is.

## Contract

A document that names a few nodes and uses them many times could be decoded into far more than its
text suggests. Such a document is refused when nearly all nodes that were visited were reached
through aliases (`Decode.isExcessive`).
-/

namespace CallerTree

namespace Yaml

/-- How far a decoding has come. -/
structure Progress where
  /-- The mismatches so far, the latest first. -/
  mismatches : List Text := []
  /-- The number of visits to nodes. -/
  visits : Nat := 0
  /-- The number of visits on the way through an alias. -/
  aliased : Nat := 0
  /-- The aliases on the way to the current node. -/
  way : List NodeId := []
  deriving DecidableEq, Repr

/-- An error ends the decoding. -/
abbrev Decode := ReaderT Document (StateT Progress (Except SyntaxError))

namespace Decode

/-! ### Visits -/

/-- Whether too many visits came through aliases: more than 99 in 100 of up to 400,000 visits, more
than 10 in 100 of 4,000,000 or more, and a share on the straight line between these otherwise. -/
def isExcessive (visits aliased : Nat) : Bool :=
  let low := 400000
  let high := 4000000
  100 < aliased && 1000 < visits &&
    if visits ≤ low then 99 * visits < 100 * aliased
    else if high ≤ visits then visits < 10 * aliased
    else (99 * (high - low) - 89 * (visits - low)) * visits < 100 * (high - low) * aliased

def count : Decode Unit := do
  let p ← get
  let visits := p.visits + 1
  let aliased := if p.way.isEmpty then p.aliased else p.aliased + 1
  if isExcessive visits aliased then throw (fault "document contains excessive aliasing")
  set { p with visits, aliased }

def nodeAt (id : NodeId) : Decode Node := return (← read).node id

/-- Visits a node, or the one that an alias refers to. -/
def visit {α : Type} (id : NodeId) (f : Node → Decode α) : Decode α := do
  count
  let n ← nodeAt id
  match n.content with
  | .reference name target =>
    if (← get).way.contains id then
      throw (fault ("anchor '" ++ name ++ "' value contains itself"))
    modify fun p => { p with way := id :: p.way }
    count
    let a ← f (← nodeAt target)
    modify fun p => { p with way := p.way.tail }
    return a
  | _ => f n

/-! ### Mismatches -/

def note (line : Nat) (problem : Text) : Decode Unit :=
  modify fun p => { p with
    mismatches := ("line " ++ Text.ofNat line ++ ": " ++ problem : Text) :: p.mismatches }

/-- The start of a text that is too long to be shown whole. -/
def excerpt (t : Text) : Text :=
  let bytes := t.utf8
  if 10 < bytes.length then Text.ofUtf8 (bytes.take 7) ++ "..." else t

def mismatch (n : Node) (type : Text) : Decode Unit :=
  let text := match n.content with
    | .scalar text => text
    | _ => []
  let shown : Text :=
    if n.tag = Tag.sequence ∨ n.tag = Tag.mapping then text
    else " \x60" ++ excerpt text ++ "\x60"
  note n.line ("cannot unmarshal " ++ n.tag ++ shown ++ " into " ++ type)

/-- The pairs of equal keys, each reported at the later one. -/
def duplicates : List Node → List (Nat × Text)
  | [] => []
  | k :: ks =>
    (ks.filter k.sameKey).map (fun k' =>
      (k'.line, ("mapping key " ++ Text.quoted k'.label ++ " already defined at line " ++
        Text.ofNat k.line : Text))) ++ duplicates ks

/-- All keys differ. Keys that do are told apart by their kinds and bytes. -/
def areDistinct (keys : List Node) : Bool :=
  (Std.TreeSet.ofList (keys.map fun k => UInt8.ofNat k.kind :: k.label.utf8)).size = keys.length

/-- Notes duplicate keys; a mapping that has some is not decoded. -/
def hasDuplicates (entries : List (NodeId × NodeId)) : Decode Bool := do
  let document ← read
  let keys := entries.map fun e => document.node e.1
  let found := if areDistinct keys then [] else duplicates keys
  found.forM fun (line, problem) => note line problem
  return !found.isEmpty

/-- Notes a node of the wrong kind. -/
def refuse (n : Node) (type : Text) : Decode Unit := do
  match n.content with
  | .mapping entries => if !(← hasDuplicates entries) then mismatch n type
  | _ => mismatch n type

/-! ### Scalars -/

/-- Decodes a scalar by a partial function on values. Null and mismatches give `none`. -/
def scalar {α : Type} (type : Text) (decode : Value → (text : Text) → Option α) (id : NodeId) :
    Decode (Option α) :=
  visit id fun n => do
    match n.content with
    | .scalar text =>
      match ← (taggedValue n.tag text : Except SyntaxError Value) with
      | .null => return none
      | value =>
        match decode value text with
        | some a => return some a
        | none => do
          mismatch n type
          return none
    | _ => do
      refuse n type
      return none

/-- The integer part of a real number. Numbers below the range read as the least one, and so does
the first one above it. -/
def wordOfReal? : Real → Option Int
  | .nan => none
  | .infinite negative => if negative then some minInt64 else none
  | .finite negative x =>
    let (num, den) := x.fraction
    if negative then some (max (-(x.floor : Int)) minInt64)
    else if num ≤ Nat.pow 2 63 * den then some ((Text.fit64? x.floor).getD minInt64)
    else none

/-- The integer that a value stands for. -/
def intOf? : Value → Option Int
  | .int n => Text.fit64? n
  | .real x => wordOfReal? x
  | _ => none

def int (type : Text) : NodeId → Decode (Option Int) := scalar type fun value _ => intOf? value

/-- Older spellings of truth values are understood too. -/
def spelledBool? (t : Text) : Option Bool :=
  let yes : List Text := ["y", "Y", "yes", "Yes", "YES", "on", "On", "ON"]
  let no : List Text := ["n", "N", "no", "No", "NO", "off", "Off", "OFF"]
  if yes.contains t then some true else if no.contains t then some false else none

def boolOf? : Value → Option Bool
  | .bool b => some b
  | .text t => spelledBool? t
  | _ => none

def bool : NodeId → Decode (Option Bool) := scalar "bool" fun value _ => boolOf? value

def durationOf? : Value → Option Int
  | .text t => Duration.read? t
  | _ => none

def duration : NodeId → Decode (Option Int) :=
  scalar "time.Duration" fun value _ => durationOf? value

/-- Every scalar is a text. -/
def textOf (written : Text) : Value → Text
  | .text t => t
  | _ => written

def text : NodeId → Decode (Option Text) :=
  scalar "string" fun value written => some (textOf written value)

/-- A list of texts, or null for no list at all. -/
def texts (id : NodeId) : Decode (Option (Option (List Text))) :=
  visit id fun n => do
    let type : Text := "[]string"
    match n.content with
    | .sequence items => return some (some (← items.mapM text).reduceOption)
    | .scalar written =>
      match ← (taggedValue n.tag written : Except SyntaxError Value) with
      | .null => return some none
      | _ => do
        mismatch n type
        return none
    | _ => do
      refuse n type
      return none

/-! ### Mappings with known keys

A mapping can name others to be merged into it. They are taken one after the other, each for the
keys that are not set yet. -/

/-- How the value under a key changes a record. -/
abbrev Fields (α : Type) := Text → Option (NodeId → α → Decode α)

/-- A key as it counts among the keys that are set: only texts are names of fields. -/
def keyText? (id : NodeId) : Decode (Option Text) :=
  visit id fun n => do
    match n.content with
    | .scalar written =>
      match ← (taggedValue n.tag written : Except SyntaxError Value) with
      | .text t => return some t
      | _ => return none
    | .mapping entries => do
      let _ ← hasDuplicates entries
      return none
    | _ => return none

/-- The keys of a mapping. -/
def keyTexts (entries : List (NodeId × NodeId)) : Decode (List Text) := do
  return (← entries.mapM fun e => keyText? e.1).reduceOption

/-- Decodes the entries of one mapping, and returns the value under the merge key. In a mapping
that is merged into another one, `taken` are the keys that count no more. The fields that this
mapping has set already are `done`. -/
def ownEntries {α : Type} (type : Text) (fields : Fields α) :
    (taken : Option (List Text)) → (done : List Text) → (merge : Option NodeId) →
      List (NodeId × NodeId) → α → Decode (α × Option (List Text) × Option NodeId)
  | taken, _, merge, [], a => return (a, taken, merge)
  | taken, done, merge, (k, v) :: rest, a => do
    let key ← nodeAt k
    if key.isMerge then ownEntries type fields taken done (some v) rest a
    else match ← text k with
      | none => ownEntries type fields taken done merge rest a
      | some name =>
        if taken.any (·.contains name) then ownEntries type fields taken done merge rest a
        else
          let taken := taken.map (name :: ·)
          match fields name with
          | none => ownEntries type fields taken done merge rest a
          | some change =>
            if done.contains name then
              note key.line ("field " ++ name ++ " already set in type " ++ type)
              ownEntries type fields taken done merge rest a
            else
              let a ← change v a
              ownEntries type fields taken (name :: done) merge rest a

/-- The mappings that a node under the merge key stands for. -/
def merged (id : NodeId) : Decode (List NodeId) := do
  match (← nodeAt id).content with
  | .sequence items => return items
  | _ => return [id]

/-- Only a mapping or an alias of one can be merged. -/
def checkMergeable (id : NodeId) : Decode Unit := do
  let n ← nodeAt id
  let target ← match n.content with
    | .reference _ target => nodeAt target
    | _ => pure n
  if !target.isMapping then throw (fault "map merge requires map or sequence of maps as the value")

/-- Decodes a mapping and those merged into it, and returns the keys that count no more. -/
def layered {α : Type} (type : Text) (fields : Fields α) :
    (fuel : Nat) → (taken : Option (List Text)) → NodeId → α → Decode (α × Option (List Text))
  | 0, taken, _, a => return (a, taken)
  | fuel + 1, taken, id, a => visit id fun n => do
    match n.content with
    | .mapping entries =>
      if ← hasDuplicates entries then return (a, taken)
      let (a, taken, merge) ← ownEntries type fields taken [] none entries a
      match merge with
      | none => return (a, taken)
      | some m =>
        let names ← match taken with
          | some names => pure names
          | none => keyTexts entries
        let (a, names) ← (← merged m).foldlM (fun (a, names) item => do
          checkMergeable item
          layered type fields fuel names item a) (a, some names)
        return (a, if taken.isSome then names else none)
    | .scalar written =>
      match ← (taggedValue n.tag written : Except SyntaxError Value) with
      | .null => return (a, taken)
      | _ => do
        mismatch n type
        return (a, taken)
    | _ => do
      refuse n type
      return (a, taken)

/-- Decodes a mapping into a record. -/
def record {α : Type} (type : Text) (fields : Fields α) (id : NodeId) (a : α) : Decode α := do
  -- A way through a document passes each alias at most once.
  let size := (← read).nodes.size + 1
  return (← layered type fields (size * size) none id a).1

end Decode

/-- Why a text cannot be decoded. -/
inductive DecodeError where
  | syntaxError (e : SyntaxError)
  | mismatches (problems : List Text)
  deriving DecidableEq, Repr

def DecodeError.text : DecodeError → Text
  | syntaxError e => e.text
  | mismatches problems =>
    "yaml: unmarshal errors:\n" ++ Text.join "\n" (problems.map fun p => ("  " ++ p : Text))

/-- Decodes the first document of a text onto a value. A text without documents leaves it as it
is. -/
def decode {α : Type} (decoder : NodeId → α → Decode α) (bytes : Bytes) (a : α) :
    Except DecodeError α := do
  match firstDocument bytes with
  | .error e => throw (.syntaxError e)
  | .ok none => return a
  | .ok (some d) =>
    -- The document itself counts as a node.
    match ((do Decode.count; decoder d.root a : Decode α).run d).run {} with
    | .error e => throw (.syntaxError e)
    | .ok (a, p) =>
      if p.mismatches.isEmpty then return a else throw (.mismatches p.mismatches.reverse)

end Yaml

end CallerTree
