import CallerTree.Posix.Utility.Basic

/-!
# Tests

`test` tells whether something holds of files, texts and numbers.
-/

namespace CallerTree

namespace Posix

namespace Utility

/-- A test of one operand. -/
def unaryTest (files : FileSystem) (operator : Char) (t : Text) : Option Bool :=
  let entry := files.entry true t
  let isKind := fun (p : Entry → Bool) => (entry.toOption).any p
  match operator with
  | 'n' => some !t.isEmpty
  | 'z' => some t.isEmpty
  | 'e' => some (isKind fun _ => true)
  | 'f' => some (isKind fun e => match e with | .file .. => true | _ => false)
  | 'd' => some (isKind Entry.isFolder)
  | 'r' | 'w' => some (isKind fun _ => true)
  | 'x' => some (isKind fun e => match e with
    | .file mode _ => mode &&& 0o111 ≠ 0
    | _ => true)
  | 's' => some (isKind fun e => match e with | .file _ data => !data.isEmpty | _ => true)
  | 'L' | 'h' => some (match files.entry false t with
    | .ok (.link _) => true
    | _ => false)
  | _ => none

/-- A test of two operands, or what is wrong with it. -/
def binaryTest (a operator b : Text) : Except Text Bool :=
  let readNumber := fun (t : Text) => match Text.readInt? t.trim with
    | some n => Except.ok n
    | none => .error ("Illegal number: " ++ t)
  let compared := fun (p : Int → Int → Bool) => do
    return p (← readNumber a) (← readNumber b)
  if operator = "=" ∨ operator = "==" then .ok (a = b)
  else if operator = "!=" then .ok (a ≠ b)
  else if operator = "<" then .ok (a ≠ b && Text.byteLE a b)
  else if operator = ">" then .ok (a ≠ b && Text.byteLE b a)
  else if operator = "-eq" then compared fun m n => m = n
  else if operator = "-ne" then compared fun m n => m ≠ n
  else if operator = "-lt" then compared fun m n => m < n
  else if operator = "-le" then compared fun m n => m ≤ n
  else if operator = "-gt" then compared fun m n => n < m
  else if operator = "-ge" then compared fun m n => n ≤ m
  else .error (operator ++ ": unexpected operator")

/-- The value of a test of up to three words, or of such tests joined by `-a` and `-o`. -/
def testValue (files : FileSystem) : (fuel : Nat) → List Text → Except Text Bool
  | 0, _ => .ok false
  | _, [] => .ok false
  | _, [a] => .ok !a.isEmpty
  | fuel + 1, words =>
    match split "-o" words with
    | some (l, r) => do return (← testValue files fuel l) || (← testValue files fuel r)
    | none =>
      match split "-a" words with
      | some (l, r) => do return (← testValue files fuel l) && (← testValue files fuel r)
      | none =>
        match words with
        | [[.char '-', .char operator], a] =>
          match unaryTest files operator a with
          | some b => .ok b
          | none => .error ("-" ++ [Glyph.char operator] ++ ": unexpected operator")
        | [.char '!'] :: rest =>
          match rest with
          | [operator, b] =>
            if operator.head? = some (.char '-') then (testValue files fuel rest).map (!·)
            else binaryTest "!" operator b
          | rest => (testValue files fuel rest).map (!·)
        | [a, operator, b] => binaryTest a operator b
        | a :: _ => .error (a ++ ": unexpected operator")
        | [] => .ok false
where
  /-- The words before and after an operator; neither part is empty. -/
  split (operator : Text) (words : List Text) : Option (List Text × List Text) :=
    let before := words.takeWhile (· ≠ operator)
    let after := words.drop (before.length + 1)
    if before.isEmpty || after.isEmpty || before.length = words.length then none
    else some (before, after)

def testOf (lead : Text) (args : List Text) (files : FileSystem) : Option Effect :=
  match testValue files (2 * args.length + 1) args with
  | .ok true => some {}
  | .ok false => some { status := 1 }
  | .error e => misuse (lead ++ e) 2

def test (name : Text) : Utility := fun c => testOf (name ++ "test: ") c.args c.files

/-- The same with a closing bracket. -/
def bracket (name : Text) : Utility := fun c =>
  if c.args.getLast? = some (Text.ofString "]") then testOf (name ++ "[: ") c.args.dropLast c.files
  else misuse (name ++ "[: missing ]") 2

end Utility

end Posix

end CallerTree
