import CallerTree.Posix.Escape

/-!
# Regular expressions

The basic and the extended expressions of the text tools. Of all places where an expression matches,
the leftmost counts, and there the longest match. Of two longest matches the one counts whose
earlier parts are longer.

## Implementation notes

Texts are matched byte by byte; a byte is written as the character with the same number. The places
that an expression reaches from one place are computed as a list, the furthest first. It has every
place once, so that the cost stays bounded by the size of the expression and of the text. References
back to groups are refused.
-/

namespace CallerTree

namespace Posix

/-! ### Bytes as characters -/

def octetsOfBytes (b : Bytes) : List Char := b.map fun b => Char.ofNat b.toNat

def octets (t : Text) : List Char := octetsOfBytes t.utf8

def bytesOf (cs : List Char) : Bytes := cs.map fun c => c.toNat.toUInt8

def textOfOctets (cs : List Char) : Text := Text.ofUtf8 (bytesOf cs)

/-! ### Expressions -/

structure CharSet where
  isNegated : Bool := false
  ranges : List (Char × Char) := []
  deriving DecidableEq, Repr

def CharSet.single (c : Char) : CharSet := { ranges := [(c, c)] }

def CharSet.has (s : CharSet) (foldsCase : Bool) (c : Char) : Bool :=
  let holds := fun (c : Char) => s.ranges.any fun r => r.1 ≤ c && c ≤ r.2
  (holds c || (foldsCase && (holds c.toLower || holds c.toUpper))) != s.isNegated

/-- What holds at a place between two characters. -/
inductive Anchor where
  | lineStart
  | lineEnd
  | wordStart
  | wordEnd
  | wordEdge
  | noWordEdge
  deriving DecidableEq, Repr

inductive Regex where
  | empty
  | set (s : CharSet)
  | anchor (a : Anchor)
  | group (index : Nat) (body : Regex)
  | seq (first second : Regex)
  | either (first second : Regex)
  | repeated (body : Regex) (least : Nat) (most : Option Nat)
  deriving DecidableEq, Repr

inductive RegexError where
  | unmatchedBracket
  | unmatchedOpen
  | unmatchedClose
  | unmatchedBrace
  | badInterval
  | badRange
  | badClass
  | badReference
  | trailingBackslash
  /-- Nothing stands before a repetition. -/
  | badRepetition
  /-- A set ends where it starts. -/
  | malformed
  deriving DecidableEq, Repr

def RegexError.text : RegexError → Text
  | unmatchedBracket => "Unmatched [, [^, [:, [., or [="
  | unmatchedOpen => "Unmatched ( or \\("
  | unmatchedClose => "Unmatched ) or \\)"
  | unmatchedBrace => "Unmatched \\\x7b"
  | badInterval => "Invalid content of \\\x7b\\\x7d"
  | badRange => "Invalid range end"
  | badClass => "Invalid character class name"
  | badReference => "Invalid back reference"
  | trailingBackslash => "Trailing backslash"
  | badRepetition => "Invalid preceding regular expression"
  | malformed => "Invalid regular expression"

namespace Regex

/-! ### Lexemes -/

inductive Lexeme where
  | set (s : CharSet)
  | anchor (a : Anchor)
  /-- A reference back to what a group has matched. -/
  | again
  | opening
  | closing
  | bar
  | times (least : Nat) (most : Option Nat)
  deriving DecidableEq, Repr

/-- How expressions are written. -/
structure Dialect where
  isExtended : Bool := false
  /-- A letter behind a backslash may stand for a control character. -/
  knowsEscapes : Bool := false
  /-- A backslash is an escape between brackets too. -/
  escapesInBrackets : Bool := false
  /-- What is written wrongly is refused, where it could be taken for plain characters. -/
  isStrict : Bool := false

def wordSet (isNegated : Bool) : CharSet :=
  { isNegated, ranges := [('a', 'z'), ('A', 'Z'), ('0', '9'), ('_', '_')] }

def spaceRanges : List (Char × Char) := [('\t', '\r'), (' ', ' ')]

/-- The members of a named class. -/
def classRanges? (name : List Char) : Option (List (Char × Char)) :=
  let lower := ('a', 'z')
  let upper := ('A', 'Z')
  let digit := ('0', '9')
  let table : List (String × List (Char × Char)) := [
    ("lower", [lower]), ("upper", [upper]), ("alpha", [lower, upper]), ("digit", [digit]),
    ("alnum", [lower, upper, digit]), ("space", spaceRanges), ("blank", [(' ', ' '), ('\t', '\t')]),
    ("xdigit", [digit, ('a', 'f'), ('A', 'F')]), ("print", [(' ', '~')]), ("graph", [('!', '~')]),
    ("punct", [('!', '/'), (':', '@'), ('[', '\x60'), ('\x7b', '~')]),
    ("cntrl", [('\x00', '\x1f'), ('\x7f', '\x7f')])]
  table.lookup (String.ofList name)

/-- The character that a letter stands for behind a backslash. -/
def escapedChar (c : Char) : Char :=
  match c with
  | 'n' => '\n'
  | 't' => '\t'
  | 'r' => '\r'
  | 'f' => '\x0c'
  | 'v' => '\x0b'
  | 'a' => '\x07'
  | c => c

/-- One end of a range between brackets, and what follows. -/
def bracketChar (d : Dialect) : List Char → Option (Char × List Char)
  | '\\' :: c :: rest =>
    if d.escapesInBrackets then some (escapedChar c, rest)
    else if d.knowsEscapes && c = 'n' then some ('\n', rest)
    else if d.knowsEscapes && c = 't' then some ('\t', rest)
    else some ('\\', c :: rest)
  | '[' :: '.' :: c :: '.' :: ']' :: rest => some (c, rest)
  | '[' :: '=' :: c :: '=' :: ']' :: rest => some (c, rest)
  | c :: rest => some (c, rest)
  | [] => none

/-- The members of a set up to the closing bracket. -/
def bracketItems (d : Dialect) : (fuel : Nat) → (isFirst : Bool) → List Char →
    (done : List (Char × Char)) → Except RegexError (List (Char × Char) × List Char)
  | 0, _, _, _ => .error .unmatchedBracket
  | fuel + 1, isFirst, cs, done =>
    match cs with
    | [] => .error .unmatchedBracket
    | '[' :: ':' :: rest =>
      let name := rest.takeWhile Char.isAlpha
      match rest.drop name.length with
      | ':' :: ']' :: rest =>
        match classRanges? name with
        | some rs => bracketItems d fuel false rest (done ++ rs)
        | none => .error .badClass
      | _ => .error .unmatchedBracket
    | ']' :: rest => if isFirst then item fuel cs done else .ok (done, rest)
    | _ => item fuel cs done
where
  /-- A single character or a range. -/
  item (fuel : Nat) (cs : List Char) (done : List (Char × Char)) :
      Except RegexError (List (Char × Char) × List Char) :=
    match bracketChar d cs with
    | none => .error .unmatchedBracket
    | some (lo, '-' :: ']' :: rest) =>
      bracketItems d fuel false ('-' :: ']' :: rest) (done ++ [(lo, lo)])
    | some (lo, '-' :: rest) =>
      match bracketChar d rest with
      | none => .error .unmatchedBracket
      | some (hi, rest) =>
        if hi < lo then .error .badRange else bracketItems d fuel false rest (done ++ [(lo, hi)])
    | some (c, rest) => bracketItems d fuel false rest (done ++ [(c, c)])

/-- A set behind its opening bracket. -/
def bracket (d : Dialect) (cs : List Char) : Except RegexError (CharSet × List Char) := do
  let (isNegated, cs) := match cs with
    | '^' :: cs => (true, cs)
    | cs => (false, cs)
  if cs.isEmpty then throw .malformed
  let (ranges, rest) ← bracketItems d (cs.length + 1) true cs []
  return ({ isNegated, ranges }, rest)

/-- The text of an interval up to the closing brace, and what follows. -/
def intervalBody? (d : Dialect) : List Char → Option (List Char × List Char)
  | [] => none
  | c :: rest =>
    match d.isExtended, c, rest with
    | true, '\x7d', rest => some ([], rest)
    | false, '\\', '\x7d' :: rest => some ([], rest)
    | _, c, rest => (intervalBody? d rest).map fun (body, rest) => (c :: body, rest)

/-- The numbers of an interval such as `2,3`, up to the closing brace, and what follows. Nothing is
found where the brace stands for itself. -/
def interval? (d : Dialect) (cs : List Char) :
    Except RegexError (Option (Nat × Option Nat × List Char)) :=
  let value := fun (cs : List Char) => cs.foldl (fun n c => 10 * n + (c.toNat - 48)) 0
  let orLiteral := fun (e : RegexError) =>
    if d.isExtended && !d.isStrict then Except.ok none else .error e
  match intervalBody? d cs with
  | none => orLiteral .unmatchedBrace
  | some (body, rest) =>
    let low := body.takeWhile Char.isDigit
    let least := value low
    let found := fun (most : Option Nat) =>
      if most.any (· < least) then Except.error RegexError.badInterval
      else .ok (some (least, most, rest))
    match body, body.drop low.length with
    | [], _ => .error .badInterval
    | _, [] => found (some least)
    | _, ',' :: high =>
      if high.all Char.isDigit then found (if high.isEmpty then none else some (value high))
      else orLiteral .badInterval
    | _, _ => orLiteral .badInterval

/-- What a letter behind a backslash means in both dialects. -/
def escaped (d : Dialect) (c : Char) : Lexeme :=
  match c with
  | 'w' => .set (wordSet false)
  | 'W' => .set (wordSet true)
  | 's' => .set { ranges := spaceRanges }
  | 'S' => .set { isNegated := true, ranges := spaceRanges }
  | 'b' => .anchor .wordEdge
  | 'B' => .anchor .noWordEdge
  | '<' => .anchor .wordStart
  | '>' => .anchor .wordEnd
  | '\x60' => .anchor .lineStart
  | '\'' => .anchor .lineEnd
  | c =>
    if c.isDigit && c ≠ '0' then .again
    else .set (.single (if d.knowsEscapes then escapedChar c else c))

/-- An operator in one of the dialects. -/
def operator? (d : Dialect) (isEscaped : Bool) (c : Char) : Option Lexeme :=
  if isEscaped = d.isExtended then none
  else match c with
    | '(' => some .opening
    | ')' => some .closing
    | '|' => some .bar
    | '+' => some (.times 1 none)
    | '?' => some (.times 0 (some 1))
    | _ => none

/-- Nothing that could be repeated stands before. -/
def isAtStart : Option Lexeme → Bool
  | none | some .opening | some .bar | some (.anchor _) => true
  | _ => false

/-- A caret in a basic expression is an anchor only at the start of a part. -/
def startsPart : Option Lexeme → Bool
  | none | some .opening | some .bar => true
  | _ => false

/-- A dollar sign in a basic expression is an anchor only at the end of a part. -/
def endsPart : List Char → Bool
  | [] | '\\' :: ')' :: _ | '\\' :: '|' :: _ => true
  | _ => false

def isRepetition : Option Lexeme → Bool
  | some (.times ..) => true
  | _ => false

/-- What a repetition sign means behind a lexeme: a repetition, nothing at all (`none`), or the
character itself. -/
def repetition (d : Dialect) (last : Option Lexeme) (sign : Char) (least : Nat)
    (most : Option Nat) : Except RegexError (Option Lexeme) :=
  let canDouble := d.isExtended || !d.isStrict || sign = '+' || sign = '?'
  if isAtStart last then
    if d.isExtended then if d.isStrict then .error .badRepetition else .ok none
    else if d.isStrict && sign = '\x7b' then .error .badRepetition
    else .ok (some (.set (.single sign)))
  else if isRepetition last && !canDouble then .error .badRepetition
  else .ok (some (.times least most))

/-- Splits an expression into lexemes. -/
def lexemes (d : Dialect) : (fuel : Nat) → (last : Option Lexeme) → List Char →
    Except RegexError (List Lexeme)
  | 0, _, _ => .ok []
  | _, _, [] => .ok []
  | fuel + 1, last, c :: rest =>
    let one := fun (l : Lexeme) (rest : List Char) => do
      return l :: (← lexemes d fuel (some l) rest)
    let repeats := fun (least : Nat) (most : Option Nat) (sign : Char) (rest : List Char) => do
      match ← repetition d last sign least most with
      | some l => one l rest
      | none => lexemes d fuel last rest
    let braced := fun (rest : List Char) => do
      match ← interval? d rest with
      | some (least, most, rest) => repeats least most '\x7b' rest
      | none => one (.set (.single '\x7b')) rest
    match c, rest with
    | '\\', [] => .error .trailingBackslash
    | '\\', c :: rest =>
      match operator? d true c with
      | some (.times least most) => repeats least most c rest
      | some l => one l rest
      | none => if c = '\x7b' && !d.isExtended then braced rest else one (escaped d c) rest
    | '[', rest =>
      match bracket d rest with
      | .ok (s, rest) => one (.set s) rest
      | .error e => .error e
    | '.', rest => one (.set { isNegated := true }) rest
    | '*', rest => repeats 0 none '*' rest
    | '^', rest =>
      if d.isExtended || startsPart last then one (.anchor .lineStart) rest
      else one (.set (.single '^')) rest
    | '$', rest =>
      if d.isExtended || endsPart rest then one (.anchor .lineEnd) rest
      else one (.set (.single '$')) rest
    | '\x7b', rest => if d.isExtended then braced rest else one (.set (.single '\x7b')) rest
    | c, rest =>
      match operator? d false c with
      | some (.times least most) => repeats least most c rest
      | some l => one l rest
      | none => one (.set (.single c)) rest

/-! ### Reading -/

structure Parsed where
  regex : Regex
  rest : List Lexeme
  /-- The number of groups so far. -/
  groups : Nat

/-- Repeats an expression as often as the next lexemes say. -/
def quantified (r : Regex) : List Lexeme → Regex × List Lexeme
  | .times least most :: rest => quantified (.repeated r least most) rest
  | rest => (r, rest)

mutual

/-- Parts with bars between them. -/
def choice (d : Dialect) : (fuel depth : Nat) → (groups : Nat) → List Lexeme →
    Except RegexError Parsed
  | 0, _, groups, ls => .ok ⟨.empty, ls, groups⟩
  | fuel + 1, depth, groups, ls => do
    let first ← chain d fuel depth .empty groups ls
    match first.rest with
    | .bar :: rest =>
      let second ← choice d fuel depth first.groups rest
      return { second with regex := .either first.regex second.regex }
    | _ => return first

/-- Pieces one after the other, behind those that have been read. -/
def chain (d : Dialect) : (fuel depth : Nat) → (done : Regex) → (groups : Nat) → List Lexeme →
    Except RegexError Parsed
  | 0, _, done, groups, ls => .ok ⟨done, ls, groups⟩
  | fuel + 1, depth, done, groups, ls =>
    let add := fun (r : Regex) (groups : Nat) (rest : List Lexeme) =>
      let (r, rest) := quantified r rest
      chain d fuel depth (if done = .empty then r else .seq done r) groups rest
    match ls with
    | .set s :: rest => add (.set s) groups rest
    | .anchor a :: rest => add (.anchor a) groups rest
    | .again :: _ => .error .badReference
    | .opening :: rest => do
      let index := groups + 1
      let body ← choice d fuel (depth + 1) index rest
      match body.rest with
      | .closing :: rest => add (.group index body.regex) body.groups rest
      | _ => throw .unmatchedOpen
    | .closing :: rest =>
      -- A closing sign without an opening one may stand for itself.
      if depth = 0 && d.isExtended && !d.isStrict then add (.set (.single ')')) groups rest
      else .ok ⟨done, ls, groups⟩
    | .times least most :: rest => add (.repeated .empty least most) groups rest
    | ls => .ok ⟨done, ls, groups⟩

end

/-- Reads an expression. -/
def read (d : Dialect) (cs : List Char) : Except RegexError Regex := do
  let ls ← lexemes d (cs.length + 1) none cs
  let p ← choice d (2 * ls.length + 2) 0 0 ls
  match p.rest with
  | [] => return p.regex
  | _ => throw .unmatchedClose

/-- The expression for a text as it stands. -/
def literal (cs : List Char) : Regex :=
  cs.foldl (fun r c => if r = .empty then .set (.single c) else .seq r (.set (.single c))) .empty

/-! ### Matching -/

/-- A place in a text, and what the groups have matched on the way there, the latest first. -/
structure Spot where
  place : Nat
  groups : List (Nat × Nat × Nat) := []
  deriving DecidableEq, Repr

/-- The text that is searched. -/
structure Subject where
  chars : Array Char
  foldsCase : Bool := false

/-- Leaves out spots at the place of the one before. -/
def thinned : List Spot → List Spot
  | [] => []
  | p :: ps => p :: thinned (ps.dropWhile (·.place = p.place))
termination_by ps => ps.length
decreasing_by
  have := (List.dropWhile_sublist (l := ps) (·.place = p.place)).length_le
  simp only [List.length_cons]
  omega

/-- One spot for each place, the furthest first. -/
def sorted (ps : List Spot) : List Spot :=
  match ps with
  | [] | [_] => ps
  | ps => thinned (ps.mergeSort fun p q => q.place ≤ p.place)

namespace Subject

def isWordAt (s : Subject) (place : Nat) : Bool := s.chars[place]?.any ((wordSet false).has false)

def holds (s : Subject) (place : Nat) : Anchor → Bool
  | .lineStart => place = 0
  | .lineEnd => place = s.chars.size
  | .wordStart => !before && s.isWordAt place
  | .wordEnd => before && !s.isWordAt place
  | .wordEdge => before != s.isWordAt place
  | .noWordEdge => before == s.isWordAt place
where
  before : Bool := 0 < place && s.isWordAt (place - 1)

end Subject

/-- The spots that are reached by repeating a step. Once `least` repetitions have been made only
those go on that reach a place for the first time. -/
def repeatFrom (step : Spot → List Spot) (least : Nat) (most : Option Nat) :
    (fuel : Nat) → (count : Nat) → (found front : List Spot) → List Spot
  | 0, _, found, _ => found
  | fuel + 1, count, found, front =>
    let isFree := least ≤ count
    let front := if isFree then front.filter fun p => !found.any (·.place = p.place) else front
    let found := if isFree then found ++ front else found
    if front.isEmpty || most.any (· ≤ count) then found
    else repeatFrom step least most fuel (count + 1) found (sorted (front.flatMap step))

/-- The spots that are reached by repeating a set of characters, the furthest first. -/
def run (s : Subject) (cs : CharSet) (most : Option Nat) (p : Spot) : (fuel : Nat) → (count : Nat) →
    (found : List Spot) → List Spot
  | 0, _, found => found
  | fuel + 1, count, found =>
    if most.any (· ≤ count) then found
    else match s.chars[p.place + count]? with
      | none => found
      | some c =>
        if cs.has s.foldsCase c then
          run s cs most p fuel (count + 1) ({ p with place := p.place + count + 1 } :: found)
        else found

/-- The spots that an expression reaches from a spot, the furthest first. -/
def ends (s : Subject) : Regex → Spot → List Spot
  | .empty, p => [p]
  | .set cs, p =>
    match s.chars[p.place]? with
    | some c => if cs.has s.foldsCase c then [{ p with place := p.place + 1 }] else []
    | none => []
  | .anchor a, p => if s.holds p.place a then [p] else []
  | .group index body, p => (ends s body p).map fun q =>
      { q with groups := (index, p.place, q.place) :: q.groups }
  | .seq first second, p => sorted ((ends s first p).flatMap (ends s second))
  | .either first second, p => sorted (ends s first p ++ ends s second p)
  | .repeated (.set cs) least most, p =>
    let found := run s cs most p (s.chars.size + 1) 0 [p]
    found.take (found.length - least)
  | .repeated body least most, p =>
    sorted (repeatFrom (ends s body) least most (s.chars.size + least + 2) 0 [] [p])

/-- Where an expression matches. -/
structure Match where
  start : Nat
  stop : Nat
  groups : List (Nat × Nat × Nat)
  deriving DecidableEq, Repr

/-- The first match that starts at one of `count` places from `start` on, of those whose ends are
accepted. -/
def searchFrom (r : Regex) (s : Subject) (accepts : (start stop : Nat) → Bool) :
    (count : Nat) → (start : Nat) → Option Match
  | 0, _ => none
  | count + 1, start =>
    match (ends s r { place := start }).find? fun p => accepts start p.place with
    | some p => some { start, stop := p.place, groups := p.groups }
    | none => searchFrom r s accepts count (start + 1)

/-- The leftmost longest match from a place on, of those whose ends are accepted. -/
def searchWhere (r : Regex) (s : Subject) (accepts : (start stop : Nat) → Bool) (start : Nat) :
    Option Match :=
  searchFrom r s accepts (s.chars.size + 1 - start) start

/-- The leftmost longest match from a place on. -/
def search (r : Regex) (s : Subject) (start : Nat) : Option Match :=
  r.searchWhere s (fun _ _ => true) start

/-- What a group has matched. -/
def Match.group? (m : Match) (s : Subject) (index : Nat) : Option (List Char) :=
  if index = 0 then some (s.chars.extract m.start m.stop).toList
  else (m.groups.lookup index).map fun (start, stop) => (s.chars.extract start stop).toList

def Subject.ofChars (foldsCase : Bool) (cs : List Char) : Subject :=
  { chars := cs.toArray, foldsCase }

def matchesIn (r : Regex) (foldsCase : Bool) (cs : List Char) : Bool :=
  (r.search (Subject.ofChars foldsCase cs) 0).isSome

/-- All matches from left to right, found by a search. An empty one directly behind another does not
count. -/
def allFrom (find : (start : Nat) → Option Match) :
    (fuel : Nat) → (start : Nat) → (last : Option Nat) → List Match
  | 0, _, _ => []
  | fuel + 1, start, last =>
    match find start with
    | none => []
    | some m =>
      if m.start = m.stop then
        let more := allFrom find fuel (m.stop + 1) last
        if last = some m.stop then more else m :: more
      else m :: allFrom find fuel m.stop (some m.stop)

def all (r : Regex) (s : Subject) : List Match := allFrom (r.search s) (s.chars.size + 2) 0 none

/-! ### Patterns for names -/

/-- The expression for a pattern with stars, question marks and sets. -/
def ofNamePattern : (fuel : Nat) → List Char → Regex
  | 0, _ => .empty
  | _, [] => .empty
  | fuel + 1, '*' :: rest =>
    .seq (.repeated (.set { isNegated := true }) 0 none) (ofNamePattern fuel rest)
  | fuel + 1, '?' :: rest => .seq (.set { isNegated := true }) (ofNamePattern fuel rest)
  | fuel + 1, '\\' :: c :: rest => .seq (.set (.single c)) (ofNamePattern fuel rest)
  | fuel + 1, '[' :: rest =>
    let body := match rest with
      | '!' :: rest => '^' :: rest
      | rest => rest
    match bracket {} body with
    | .ok (cs, rest) => .seq (.set cs) (ofNamePattern fuel rest)
    | .error _ => .seq (.set (.single '[')) (ofNamePattern fuel rest)
  | fuel + 1, c :: rest => .seq (.set (.single c)) (ofNamePattern fuel rest)

/-- Whether a whole name fits a pattern. -/
def nameFits (foldsCase : Bool) (pattern name : List Char) : Bool :=
  let r := ofNamePattern (pattern.length + 1) pattern
  ((r.ends (Subject.ofChars foldsCase name) { place := 0 }).head?).any (·.place = name.length)

end Regex

end Posix

end CallerTree
