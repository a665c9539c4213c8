import CallerTree.Text.Basic

/-!
# Exclude patterns

An exclude pattern is matched against a slash-separated path. `?` stands for one character and `*`
for any run of characters, neither of them a slash; `[a-c]` is a class, `{a,b}` a choice between
texts, and a component `**` stands for any number of components. A backslash takes the meaning away
from the next character.

## Contract

Choices are expanded as text, in order, before the rest of the pattern is read. A pattern whose
unread rest is malformed is `malformed`, and that ends the search: later choices are not tried.
A path that ends early still matches when the rest of the pattern can be empty; so `a/**` matches
`a`.

## Implementation notes

Matching keeps two points to come back to: after the last `*`, to give it one more character, and
after the last `**/`, to give it one more component. Going back to anything older is never needed,
so each step is bounded and the number of steps is polynomial; `fuel` is a bound for it.
-/

namespace CallerTree

namespace Glob

/-! ### Well-formed patterns -/

/-- What follows the bracket that closes a class. -/
def dropClass? : List Char → Option (List Char)
  | [] => none
  | ['\\'] => none
  | '\\' :: _ :: rest => dropClass? rest
  | ']' :: rest => some rest
  | _ :: rest => dropClass? rest

theorem length_dropClass? {cs rest : List Char} (h : dropClass? cs = some rest) :
    rest.length < cs.length := by
  fun_induction dropClass? cs with
  | case1 => simp at h
  | case2 => simp at h
  | case3 _ _ ih => have := ih h; simp only [List.length_cons]; omega
  | case4 => simp_all
  | case5 _ _ _ _ _ ih => have := ih h; simp only [List.length_cons]; omega

/-- Drops the sign that turns a class into its complement. -/
def dropNegation : List Char → List Char
  | '^' :: rest => rest
  | '!' :: rest => rest
  | cs => cs

theorem length_dropNegation (cs : List Char) : (dropNegation cs).length ≤ cs.length := by
  unfold dropNegation; split <;> simp

/-- What follows a class after its opening bracket; an empty class is malformed. -/
def afterClass? (cs : List Char) : Option (List Char) :=
  match dropNegation cs with
  | [] => none
  | ']' :: _ => none
  | cs => dropClass? cs

theorem length_afterClass? {cs rest : List Char} (h : afterClass? cs = some rest) :
    rest.length < cs.length := by
  unfold afterClass? at h
  split at h
  · simp at h
  · simp at h
  · have := length_dropClass? h
    have := length_dropNegation cs
    omega

/-- Whether classes, choices and escapes are closed, inside `depth` open choices. -/
def isWellFormed (depth : Nat) : List Char → Bool
  | [] => depth == 0
  | '\\' :: rest =>
    match rest with
    | [] => false
    | _ :: rest => isWellFormed depth rest
  | '[' :: rest =>
    match h : afterClass? rest with
    | none => false
    | some rest' =>
      have := length_afterClass? h
      isWellFormed depth rest'
  | '\x7b' :: rest => isWellFormed (depth + 1) rest
  | '\x7d' :: rest =>
    match depth with
    | 0 => false
    | depth + 1 => isWellFormed depth rest
  | _ :: rest => isWellFormed depth rest
termination_by cs => cs.length

/-- Whether a pattern is accepted as an exclude pattern. -/
def isValid (pattern : Text) : Bool := isWellFormed 0 (pattern.map Glyph.toChar)

/-! ### Choices -/

/-- The text up to the brace that closes a choice, and the text after that brace. -/
def closeChoice? (depth : Nat) : List Char → Option (List Char × List Char)
  | [] => none
  | ['\\'] => none
  | '\\' :: c :: rest =>
    (closeChoice? depth rest).map fun (inner, after) => ('\\' :: c :: inner, after)
  | '\x7b' :: rest =>
    (closeChoice? (depth + 1) rest).map fun (inner, after) => ('\x7b' :: inner, after)
  | '\x7d' :: rest =>
    match depth with
    | 0 => some ([], rest)
    | depth + 1 => (closeChoice? depth rest).map fun (inner, after) => ('\x7d' :: inner, after)
  | c :: rest => (closeChoice? depth rest).map fun (inner, after) => (c :: inner, after)

/-- The alternatives of a choice, separated by commas outside nested choices. -/
def alternatives (depth : Nat) : List Char → List (List Char)
  | [] => [[]]
  | ['\\'] => [['\\']]
  | '\\' :: c :: rest => onto ['\\', c] (alternatives depth rest)
  | '\x7b' :: rest => onto ['\x7b'] (alternatives (depth + 1) rest)
  | '\x7d' :: rest => onto ['\x7d'] (alternatives (depth - 1) rest)
  | ',' :: rest =>
    if depth = 0 then [] :: alternatives depth rest else onto [','] (alternatives depth rest)
  | c :: rest => onto [c] (alternatives depth rest)
where
  /-- Puts characters in front of the first alternative. -/
  onto (lead : List Char) : List (List Char) → List (List Char)
    | [] => [lead]
    | a :: rest => (lead ++ a) :: rest

/-- The texts that the choice after an opening brace stands for, each with the rest of the
pattern. -/
def expansions? (afterBrace : List Char) : Option (List (List Char)) :=
  (closeChoice? 0 afterBrace).map fun (inner, after) => (alternatives 0 inner).map (· ++ after)

/-! ### Matching -/

inductive Verdict where
  | yes
  | no
  | malformed
  deriving DecidableEq, Repr

/-- The first decisive verdict of a list of attempts, else the last one. -/
def Verdict.first (attempt : List Char → Verdict) : List (List Char) → Verdict
  | [] => .no
  | [p] => attempt p
  | p :: q :: rest =>
    match attempt p with
    | .no => Verdict.first attempt (q :: rest)
    | v => v

/-- A failed attempt is `malformed` when the unread rest of the pattern is. -/
def refuse (rest : List Char) : Verdict := if isWellFormed 0 rest then .no else .malformed

/-- Whether what is left of a pattern can stand for nothing. -/
def emptyVerdict : (fuel : Nat) → List Char → Verdict
  | 0, _ => .no
  | fuel + 1, p =>
    if p ∈ ["", "*", "**", "/**", "**/", "/**/"].map String.toList then .yes
    else match p with
      | '\x7b' :: rest =>
        match expansions? rest with
        | none => .malformed
        | some ps => Verdict.first (emptyVerdict fuel) ps
      | p => refuse p

/-- How the members of a class end: before which rest of the pattern, and whether `c` was among
those read. Reading stops at the first member that matches. -/
def readClass (c : Char) : (fuel : Nat) → (last : Option Char) → List Char → Bool × List Char
  | 0, _, p => (false, p)
  | _, _, [] => (false, [])
  | _, _, ']' :: p => (false, ']' :: p)
  | fuel + 1, last, d :: p =>
    match last, d, p with
    | some low, '-', e :: p' =>
      if e = ']' then member fuel d p
      else
        let (high, rest) := match e, p' with
          | '\\', h :: p'' => (h, p'')
          | '\\', [] => ('\ufffd', [])
          | _, _ => (e, p')
        if low ≤ c ∧ c ≤ high then (true, rest) else readClass c fuel none rest
    | _, _, _ => member fuel d p
where
  /-- A single member, possibly escaped. -/
  member (fuel : Nat) (d : Char) (p : List Char) : Bool × List Char :=
    let (e, rest) := match d, p with
      | '\\', h :: p' => (h, p')
      | '\\', [] => ('\ufffd', [])
      | _, _ => (d, p)
    if e = c then (true, rest) else readClass c fuel (some e) rest

/-- Where matching stands. -/
structure Cursor where
  /-- The unread pattern. -/
  pattern : List Char
  /-- The last character read from the pattern. -/
  before : Option Char
  /-- The unread path. -/
  path : List Char
  /-- Whether the pattern stands at the start of a component. -/
  fresh : Bool
  /-- The pattern after the last `*`, and the path where it may go on. -/
  star : Option (List Char × List Char)
  /-- The pattern after the last `**/`, and the path where it may go on. -/
  deep : Option (List Char × List Char)

inductive Step where
  | done (v : Verdict)
  | next (s : Cursor)
  | choose (patterns : List (List Char))

namespace Cursor

/-- Goes back to the last `**/`, past the next slash of the path. -/
def retryDeep? (s : Cursor) : Option Cursor :=
  match s.deep with
  | none => none
  | some (p, path) =>
    match path.dropWhile (· ≠ '/') with
    | [] => none
    | _ :: rest =>
      some { s with
        pattern := p, before := some '/', path := rest, fresh := true, deep := some (p, rest) }

/-- Goes back to the last `*`, which takes one more character that is no slash. -/
def retryStar? (s : Cursor) : Option Cursor :=
  match s.star with
  | some (p, c :: rest) =>
    if c = '/' then none
    else
      some { s with
        pattern := p, before := some '*', path := rest, fresh := false, star := some (p, rest) }
  | _ => none

/-- What to do when the pattern does not go on from here. -/
def fail (s : Cursor) : Step :=
  match s.retryStar? with
  | some s' => .next s'
  | none =>
    match s.retryDeep? with
    | some s' => .next s'
    | none => .done (if s.pattern.isEmpty then .no else refuse s.pattern)

/-- Reads the literal `c` from the pattern `c :: rest`; `whole` is the pattern to go back to. -/
def literal (s : Cursor) (whole : List Char) (c : Char) (rest : List Char) : Step :=
  match s.path with
  | d :: path =>
    if c = d then .next { s with pattern := rest, before := some c, path, fresh := c = '/' }
    else { s with pattern := whole }.fail
  | [] => { s with pattern := whole }.fail

/-- Starts a `*` before the pattern `rest`. -/
def startStar (s : Cursor) (rest : List Char) : Step :=
  .next { s with
    pattern := rest, before := some '*', fresh := false, star := some (rest, s.path) }

/-- One step, on a path that has not ended. -/
def step (s : Cursor) : Step :=
  match s.pattern with
  | [] => s.fail
  | '*' :: '*' :: rest =>
    if s.fresh then
      match rest with
      | [] => .done .yes
      | '/' :: rest' =>
        .next { s with
          pattern := rest', before := some '/', star := none, deep := some (rest', s.path) }
      | _ => s.startStar rest
    else s.startStar rest
  | '*' :: rest => s.startStar rest
  | '?' :: rest =>
    match s.path with
    | c :: path =>
      if c = '/' then { s with fresh := false }.fail
      else .next { s with pattern := rest, before := some '?', path, fresh := false }
    | [] => s.fail
  | '[' :: rest =>
    match s.path, dropNegation rest with
    | [], _ => s.fail
    | _, [] => .done .malformed
    | _, ']' :: _ => .done .malformed
    | c :: path, members =>
      let negated := members.length < rest.length
      let (found, unread) := readClass c members.length none members
      if found = negated then
        if unread.isEmpty then .done .malformed
        else { s with pattern := unread, fresh := false }.fail
      else
        match dropClass? unread with
        | none => .done .malformed
        | some after =>
          .next { s with pattern := after, before := some ']', path, fresh := false }
  | '\x7b' :: rest =>
    match expansions? rest with
    | none => .done .malformed
    | some ps => .choose ps
  | '\\' :: rest =>
    match rest with
    | [] => .done .malformed
    | c :: rest' => s.literal ('\\' :: rest) c rest'
  | c :: rest =>
    -- A preceding backslash is taken for an escape of this character.
    s.literal (if s.before = some '\\' then '\\' :: c :: rest else c :: rest) c rest

/-- The cursor with the text from here on replaced: points to come back to keep the part of the
pattern before it. -/
def replace (s : Cursor) (pattern : List Char) : Cursor :=
  let rebase := fun (p : List Char × List Char) =>
    (p.1.take (p.1.length - s.pattern.length) ++ pattern, p.2)
  { s with pattern, fresh := true, star := s.star.map rebase, deep := s.deep.map rebase }

end Cursor

def run : (fuel : Nat) → Cursor → Verdict
  | 0, _ => .no
  | fuel + 1, s =>
    if s.path.isEmpty then emptyVerdict (s.pattern.length + 1) s.pattern
    else match s.step with
      | .done v => v
      | .next s' => run fuel s'
      | .choose ps => Verdict.first (fun p => run fuel (s.replace p)) ps

def fuel (pattern path : List Char) : Nat :=
  Nat.pow (pattern.length + 2) 3 * Nat.pow (path.length + 2) 3

def verdict (pattern path : List Char) : Verdict :=
  run (fuel pattern path)
    { pattern, before := none, path, fresh := true, star := none, deep := none }

/-- Whether an exclude pattern matches a path. -/
def isMatch (pattern path : Text) : Bool :=
  verdict (pattern.map Glyph.toChar) (path.map Glyph.toChar) = .yes

end Glob

end CallerTree
