import CallerTree.Text.Blank

/-!
# Labelled patterns

A pattern is a regular expression whose every atom carries a label. Matching a whole text labels
each of its glyphs, so a part of the text ("the types", "the parameters") is read off as the glyphs
with one label.

## Contract

`Pattern.label?` succeeds exactly when the text belongs to the pattern. Of several ways to match it
takes the first in the order of preference: a repetition prefers to go on, an optional part prefers
to be present, and of two alternatives the left one is preferred.

## Implementation notes

Matching follows the text and keeps the list of residual patterns ("threads") in order of
preference. Two threads with the same residual have the same future, so only the first of them is
kept; this bounds the work per glyph. A sequence continues its first part before it leaves it. That
agrees with the order of preference as long as an alternative is never empty on its left side, which
holds for everything built by the combinators below.
-/

namespace CallerTree

/-- A set of characters. -/
inductive CharClass where
  | exactly (c : Char)
  /-- One of the blanks that patterns skip. -/
  | gap
  /-- An ASCII letter or an underscore. -/
  | wordStart
  /-- An ASCII letter, an ASCII digit or an underscore. -/
  | word
  /-- What may stand between a type and the next word: a gap, a star or an ampersand. -/
  | typeGap
  /-- Any character but the listed ones. -/
  | except (cs : List Char)
  deriving DecidableEq, Repr

/-- An ASCII letter or an underscore. -/
def isWordStart (c : Char) : Bool := c.isAlpha || c == '_'

/-- An ASCII letter, an ASCII digit or an underscore. -/
def isWordChar (c : Char) : Bool := c.isAlphanum || c == '_'

namespace CharClass

def accepts : CharClass → Char → Bool
  | exactly d, c => c == d
  | gap, c => Text.isGapChar c
  | wordStart, c => isWordStart c
  | word, c => isWordChar c
  | typeGap, c => Text.isGapChar c || c == '*' || c == '&'
  | except cs, c => !cs.contains c

end CharClass

/-- A regular expression with a label on every atom. -/
inductive Pattern (τ : Type) where
  | empty
  | one (accepted : CharClass) (label : τ)
  | seq (first second : Pattern τ)
  | alt (left right : Pattern τ)
  | star (body : Pattern τ)
  deriving DecidableEq, Repr

namespace Pattern

variable {τ : Type}

/-! ### Combinators -/

def seqs : List (Pattern τ) → Pattern τ
  | [] => empty
  | [p] => p
  | p :: q :: rest => seq p (seqs (q :: rest))

def plus (p : Pattern τ) : Pattern τ := seq p (star p)

/-- The pattern or nothing, preferring the pattern. -/
def opt (p : Pattern τ) : Pattern τ := alt p empty

/-- A fixed word. -/
def word (label : τ) (t : Text) : Pattern τ :=
  seqs (t.map fun g => one (.exactly g.toChar) label)

/-- One of several fixed words. -/
def oneOf (label : τ) : List Text → Pattern τ
  | [] => empty
  | [w] => word label w
  | w :: v :: rest => alt (word label w) (oneOf label (v :: rest))

/-- Any text at all. -/
def anything (label : τ) : Pattern τ := star (one (.except []) label)

/-! ### Matching -/

def nullable : Pattern τ → Bool
  | empty => true
  | one _ _ => false
  | seq p q => p.nullable && q.nullable
  | alt p q => p.nullable || q.nullable
  | star _ => true

/-- A sequence, written shorter when its first part has nothing left to match. -/
def after : Pattern τ → Pattern τ → Pattern τ
  | empty, q => q
  | p, q => seq p q

/-- The residuals left by one character, with the label it gets, in order of preference. -/
def residuals (c : Char) : Pattern τ → List (τ × Pattern τ)
  | empty => []
  | one accepted label => if accepted.accepts c then [(label, empty)] else []
  | seq p q =>
    (p.residuals c).map (fun (l, r) => (l, after r q)) ++ if p.nullable then q.residuals c else []
  | alt p q => p.residuals c ++ q.residuals c
  | star p => (p.residuals c).map fun (l, r) => (l, after r (star p))

/-- A way to match the text read so far: what is left to match, and the labelled glyphs, the last
one first. -/
structure Thread (τ : Type) where
  residual : Pattern τ
  done : List (τ × Glyph)

def Thread.advance (g : Glyph) (t : Thread τ) : List (Thread τ) :=
  (t.residual.residuals g.toChar).map fun (l, r) => ⟨r, (l, g) :: t.done⟩

variable [DecidableEq τ]

/-- Keeps the first thread of each residual. -/
def preferred (threads : List (Thread τ)) : List (Thread τ) :=
  threads.foldr (fun t rest => t :: rest.filter (·.residual ≠ t.residual)) []

def finish? (threads : List (Thread τ)) : Option (List (τ × Glyph)) :=
  (threads.find? (·.residual.nullable)).map (·.done.reverse)

def run (threads : List (Thread τ)) : Text → Option (List (τ × Glyph))
  | [] => finish? threads
  | g :: t => if threads.isEmpty then none else run (preferred (threads.flatMap (·.advance g))) t

/-- The labels of a whole text, in the preferred way of matching it. -/
def label? (p : Pattern τ) (t : Text) : Option (List (τ × Glyph)) := run [⟨p, []⟩] t

def accepts (p : Pattern τ) (t : Text) : Bool := (p.label? t).isSome

end Pattern

/-- The glyphs that carry one label. -/
def labelled {τ : Type} [DecidableEq τ] (l : τ) (m : List (τ × Glyph)) : Text :=
  (m.filter (·.1 = l)).map (·.2)

end CallerTree
