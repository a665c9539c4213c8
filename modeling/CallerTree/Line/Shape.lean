import CallerTree.Pattern

/-!
# The shapes of C and C++ signature lines

A signature line consists of indentation, qualifiers, types, an optional scope, a name, a parameter
list and trailers. The shapes differ in the name they ask for, in whether types are required and in
what ends the line: a semicolon, an opening brace or nothing.

Every shape describes a whole line; what follows the part that matters is labelled `rest`.
-/

namespace CallerTree

namespace Line

/-- The parts of a signature line. -/
inductive Part where
  | lead
  | types
  | scope
  | name
  | params
  | rest
  deriving DecidableEq, Repr

open Pattern

def gaps (l : Part) : Pattern Part := star (one .gap l)

def identifier (l : Part) : Pattern Part := seq (one .wordStart l) (star (one .word l))

def colons (l : Part) : Pattern Part := word l "::"

/-- Indentation and then any number of qualifiers, each followed by a gap. -/
def qualifiers : Pattern Part :=
  seq (gaps .lead) (star
    (seq (oneOf .lead ["extern", "static", "inline", "virtual", "constexpr"])
      (plus (one .gap .lead))))

/-- A possibly scoped type name, an optional template argument list that may not hold a semicolon,
a parenthesis or a brace, and at least one gap, star or ampersand. -/
def typeToken : Pattern Part :=
  seqs [
    identifier .types,
    star (seq (colons .types) (identifier .types)),
    opt (seqs [
      one (.exactly '<') .types,
      star (one (.except [';', '(', ')', '\x7b', '\x7d']) .types),
      one (.exactly '>') .types]),
    plus (one .typeGap .types)]

def scope : Pattern Part := star (seq (identifier .scope) (colons .scope))

def params : Pattern Part :=
  seqs [gaps .params, one (.exactly '(') .params, star (one (.except [')']) .params),
    one (.exactly ')') .params]

def trailers : Pattern Part :=
  star (seq (gaps .rest) (oneOf .rest ["const", "noexcept", "override", "final"]))

/-- What ends a signature line. -/
inductive Ending where
  /-- This character, and anything after it. -/
  | mark (c : Char)
  /-- Nothing but gaps. -/
  | eol

def Ending.pattern : Ending → Pattern Part
  | .mark c => seqs [gaps .rest, one (.exactly c) .rest, anything .rest]
  | .eol => gaps .rest

/-- A complete signature: `types` describes the types, `name` the name. -/
def signature (types name : Pattern Part) (ending : Ending) : Pattern Part :=
  seqs [qualifiers, types, scope, name, params, trailers, ending.pattern]

/-- A signature whose parameter list is still open at the end of the line. -/
def openSignature (name : Pattern Part) : Pattern Part :=
  seqs [qualifiers, plus typeToken, scope, name, gaps .params, one (.exactly '(') .params,
    star (one (.except [')']) .params)]

/-- A function or destructor name. -/
def anyName : Pattern Part := seq (opt (one (.exactly '~') .name)) (identifier .name)

end Line

end CallerTree
