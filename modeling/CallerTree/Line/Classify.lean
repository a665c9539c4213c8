import CallerTree.Line.Shape

/-!
# What a line says about a function name

A line that mentions a function may declare it, define it, call it, or merely refer to it. The
classification looks at one line at a time.

## Contract

Comments say nothing. Otherwise a declaration wins over a definition and both win over a call, and
a preprocessor line is never a call. What looks like a signature but starts with a statement keyword
(`return f(x);`) is not one.
-/

namespace CallerTree

namespace Line

/-- The words that start a statement and therefore no signature. -/
def statementKeywords : List Text :=
  ["return", "else", "case", "goto", "do", "throw", "co_return", "co_await", "co_yield", "delete",
    "new", "sizeof", "not"]

/-- What a line says about a name. -/
structure Reading where
  isDeclaration : Bool := false
  isDefinition : Bool := false
  isCall : Bool := false
  deriving DecidableEq, Repr

inductive Kind where
  | declaration
  | definition
  | call
  | reference
  deriving DecidableEq, Repr

def Kind.label : Kind → String
  | .declaration => "declaration"
  | .definition => "definition"
  | .call => "call"
  | .reference => "reference"

def Reading.kind (r : Reading) : Kind :=
  if r.isDefinition then .definition
  else if r.isDeclaration then .declaration
  else if r.isCall then .call
  else .reference

/-! ### Signatures -/

/-- The first word of a run of types, where stars and ampersands count as blanks. -/
def firstWord (types : Text) : Option Text :=
  (Text.words (types.map fun (g : Glyph) => if g = '*' ∨ g = '&' then ' ' else g)).head?

def startsStatement (types : Text) : Bool :=
  match firstWord types with
  | some w => statementKeywords.contains w
  | none => false

/-- Whether a labelled signature has types that start no statement. -/
def isTyped (m : List (Part × Glyph)) : Bool := !startsStatement (labelled .types m)

/-- Whether a parameter list with its own parentheses holds a second opening one. -/
def hasInnerParen (params : Text) : Bool :=
  2 ≤ params.countP fun (g : Glyph) => g = '('

/-- A definition may lack types, as a constructor does; but without types a nested parenthesis
shows that the line is a statement. -/
def isUntypedCall (m : List (Part × Glyph)) : Bool :=
  Text.isAllBlank (labelled .types m) && hasInnerParen (labelled .params m)

def isTypedDefinition (m : List (Part × Glyph)) : Bool := isTyped m && !isUntypedCall m

def matchesWhen (test : List (Part × Glyph) → Bool) (p : Pattern Part) (line : Text) : Bool :=
  match p.label? line with
  | some m => test m
  | none => false

/-- A declaration of the name. -/
def declaration (name : Text) : Pattern Part :=
  signature (.plus typeToken) (.word .name name) (.mark ';')

/-- A declaration of the name whose parameter list goes on in the next line. -/
def openDeclaration (name : Text) : Pattern Part := openSignature (.word .name name)

/-- A definition of the name. -/
def definition (name : Text) : Pattern Part :=
  signature (.star typeToken) (.word .name name) (.mark '\x7b')

/-- A definition of the name whose brace stands in the next line. -/
def header (name : Text) : Pattern Part := signature (.plus typeToken) (.word .name name) .eol

/-! ### Shapes that may start anywhere in a line -/

/-- Whether `p` holds of what is left after skipping some of the gaps in front. -/
def afterGaps (p : Text → Bool) : Text → Bool
  | [] => p []
  | g :: t => p (g :: t) || (Text.isGap g && afterGaps p t)

/-- Whether `p` holds of the text after the lead `lead`. -/
def afterLead (lead : Text) (p : Text → Bool) (t : Text) : Bool :=
  match t.strip? lead with
  | some rest => p rest
  | none => false

/-- Whether `p` holds at some position, given the glyph before it. -/
def anywhere (p : Option Glyph → Text → Bool) : Option Glyph → Text → Bool
  | before, [] => p before []
  | before, g :: t => p before (g :: t) || anywhere p (some g) t

def isWordGlyph (g : Glyph) : Bool := isWordChar g.toChar

/-- Whether a word starts or ends between two neighbouring glyphs. -/
def isBoundary (before after : Option Glyph) : Bool :=
  before.any isWordGlyph != after.any isWordGlyph

/-- The name, gaps and an opening parenthesis. -/
def callAt (name : Text) : Text → Bool :=
  afterLead name (afterGaps (afterLead "(" fun _ => true))

/-- The name is called somewhere as the end of a longer name or on its own. -/
def mentionsCall (name : Text) (line : Text) : Bool :=
  anywhere (fun _ => callAt name) none line

/-- A call of the name whose preceding glyph is no word character. -/
def hasCall (name line : Text) : Bool :=
  anywhere (fun before t => !before.any isWordGlyph && callAt name t) none line

/-- The shape `( * name )`. -/
def hasFunctionPointer (name line : Text) : Bool :=
  anywhere (fun _ => afterLead "(" (afterGaps (afterLead "*" (afterGaps
    (afterLead name (afterGaps (afterLead ")" fun _ => true))))))) none line

/-- The name as a whole word before the next line feed. -/
def hasWordOnLine (name : Text) : Option Glyph → Text → Bool
  | before, [] => name.isEmpty && isBoundary before none
  | before, g :: t =>
    (isBoundary before (some g) && afterLead name (fun rest =>
      isBoundary (name.getLast?.or before) rest.head?) (g :: t)) ||
      (g ≠ '\n' && hasWordOnLine name (some g) t)

/-- The word `typedef` and, later in the line, the name as a whole word. -/
def hasTypedef (name line : Text) : Bool :=
  anywhere (fun before t => isBoundary before t.head? && afterLead "typedef" (fun rest =>
    isBoundary (some 'f') rest.head? && hasWordOnLine name (some 'f') rest) t) none line

/-! ### The classification -/

def isComment (line : Text) : Bool :=
  line.startsWith "//" || line.startsWith "/*" || line.startsWith "*"

/-- The line declares the name. -/
def declares (name line : Text) : Bool :=
  matchesWhen isTyped (declaration name) line || matchesWhen isTyped (openDeclaration name) line ||
    hasFunctionPointer name line || hasTypedef name line

/-- The line starts a definition of the name. -/
def defines (name line : Text) : Bool :=
  matchesWhen isTypedDefinition (definition name) line || matchesWhen isTyped (header name) line

/-- Reading of a line without blanks at its ends. -/
def readTrimmed (name line : Text) : Reading :=
  if line.isEmpty || isComment line then {}
  else if declares name line then { isDeclaration := true }
  else if defines name line then { isDefinition := true }
  else if line.startsWith "#" then {}
  else { isCall := hasCall name line }

/-- What `line` says about `name`. -/
def classify (name line : Text) : Reading := readTrimmed name line.trim

end Line

end CallerTree
