import CallerTree.Json
import CallerTree.Text.Blank
import CallerTree.Text.LowerCase
import CallerTree.Text.Quoted

/-!
# Log records

A record has a level, a message and named values. It is written on one line, as `key=value` pairs or
as JSON.
-/

namespace CallerTree

inductive Level where
  | debug
  | info
  | warn
  | error
  deriving DecidableEq, Repr

namespace Level

def label : Level → String
  | debug => "DEBUG"
  | info => "INFO"
  | warn => "WARN"
  | error => "ERROR"

/-- The rank of a level; records below the rank of a log are left out. -/
def rank : Level → Nat
  | debug => 0
  | info => 1
  | warn => 2
  | error => 3

/-- The level that a setting names, in any case; one that names none means `info`. -/
def ofSetting (t : Text) : Level :=
  let name := t.lower
  if name = "debug" then debug
  else if name = "warn" ∨ name = "warning" then warn
  else if name = "error" then error
  else info

end Level

/-- A value in a record. -/
inductive Datum where
  | text (t : Text)
  | int (n : Int)
  | bool (b : Bool)
  deriving DecidableEq, Repr

namespace Datum

instance : Coe Text Datum := ⟨text⟩

instance : Coe String Datum := ⟨fun s => text s⟩

def ofNat (n : Nat) : Datum := int n

def shown : Datum → Text
  | text t => t
  | int n => Text.ofInt n
  | bool b => if b then "true" else "false"

def json : Datum → Text
  | text t => Json.quotedText false t
  | d => d.shown

end Datum

structure Record where
  level : Level
  message : Text
  attributes : List (Text × Datum) := []
  deriving DecidableEq, Repr

namespace Record

/-- Text that cannot stand bare in a pair: it is empty, would run into its surroundings, or cannot
be printed. -/
def needsQuotes (t : Text) : Bool :=
  t.isEmpty || t.any fun
    | .stray _ => true
    | .char c =>
      if c.toNat < 0x80 then c.toNat ≤ 0x20 || c = '=' || c = '"'
      else c = '\ufffd' || Text.isBlankChar c || !Text.isPrintable c

def bare (t : Text) : Text := if needsQuotes t then t.quoted else t

/-- The pairs of a record, its level and message first. -/
def pairs (r : Record) : List (Text × Datum) :=
  ("level", r.level.label) :: ("msg", r.message) :: r.attributes

def textLine (r : Record) : Text :=
  Text.join " " (r.pairs.map fun (k, v) => bare k ++ "=" ++ bare v.shown) ++ "\n"

def jsonLine (r : Record) : Text :=
  "\x7b" ++ Text.join "," (r.pairs.map fun (k, v) => Json.quotedText false k ++ ":" ++ v.json) ++
    "\x7d\n"

end Record

/-- Writes records in a format, JSON only if it is named exactly; those below a level are left
out. -/
def renderLog (level : Level) (format : Text) (records : List Record) : Text :=
  (records.filter fun r => level.rank ≤ r.level.rank).flatMap
    (if format = "json" then Record.jsonLine else Record.textLine)

end CallerTree
