import CallerTree.Posix.Utility.Basic

/-!
# Commands from words

`xargs` reads words and runs a command with them as arguments, some at a time.
-/

namespace CallerTree

namespace Posix

namespace Xargs

def table : Utility.OptionTable where
  plain := "rt"
  valued := "n"
  long := [("no-run-if-empty", 'r'), ("verbose", 't'), ("max-args", 'n')]
  stopsEarly := true

/-- The state of reading words: the word so far if there is one, in reverse, and those that are
complete, the latest first. -/
structure Reading where
  word : Option Text := none
  words : List Text := []

namespace Reading

def add (g : Glyph) (r : Reading) : Reading := { r with word := some (g :: r.word.getD []) }

/-- Ends the word. -/
def close (r : Reading) : Reading :=
  { word := none, words := (r.word.map List.reverse).toList ++ r.words }

end Reading

/-- Reads words with quotes and backslashes. -/
def quotedWords : (quote : Option Char) → (r : Reading) → Text → Except Text (List Text)
  | none, r, [] => .ok r.close.words.reverse
  | some q, _, [] => .error (unmatched q)
  | quote, r, g :: rest =>
    match quote with
    | some q =>
      if g = .char q then quotedWords none { r with word := some (r.word.getD []) } rest
      else if g = .char '\n' then .error (unmatched q)
      else quotedWords quote (r.add g) rest
    | none =>
      match g with
      | .char '\n' => quotedWords none r.close rest
      | .char '\'' => quotedWords (some '\'') r rest
      | .char '"' => quotedWords (some '"') r rest
      | .char '\\' =>
        match rest with
        | h :: rest => quotedWords none (r.add h) rest
        | [] => .ok r.close.words.reverse
      | g =>
        if g = .char ' ' || g = .char '\t' then quotedWords none r.close rest
        else quotedWords none (r.add g) rest
where
  unmatched (q : Char) : Text :=
    (if q = '"' then "unmatched double quote" else "unmatched single quote") ++
      "; by default quotes are special to xargs unless you use the -0 option"

/-- Groups of so many words. -/
def grouped (n : Nat) : (fuel : Nat) → List Text → List (List Text)
  | 0, _ => []
  | _, [] => []
  | fuel + 1, ws => ws.take n :: grouped n fuel (ws.drop n)

/-- The commands to run. -/
def commands (o : Utility.Options) (data : Bytes) : Except Text (List (List Text)) := do
  let command := if o.operands.isEmpty then [Text.ofString "echo"] else o.operands
  let words ← quotedWords none {} (Text.ofUtf8 data)
  if words.isEmpty then return if o.has 'r' then [] else [command]
  let size := ((o.value? 'n').bind Text.readNat?).getD words.length
  return (grouped size words.length words).map (command ++ ·)

/-- A number that is asked for but not given. -/
def badNumber? (o : Utility.Options) : Option Text :=
  (o.value? 'n').bind fun v => match Text.readNat? v with
    | none => some ("invalid number \"" ++ v ++ "\" for -n option" : Text)
    | some 0 => some ("value " ++ v ++ " for -n option should be >= 1")
    | some _ => none

end Xargs

end Posix

end CallerTree
