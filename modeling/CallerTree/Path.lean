import CallerTree.Text.Basic

/-!
# Slash-separated paths

Paths are texts. Cleaning a path removes empty and `.` components and resolves `..` against the
component before it, purely by name.

## Contract

A cleaned absolute path is `/` followed by components without `.` and `..`; a cleaned relative path
may start with `..` components and is `.` when it has none at all.
-/

namespace CallerTree

namespace Path

/-- A name that an entry of a folder can have. -/
structure IsName (c : Text) : Prop where
  ne_nil : c ≠ []
  ne_dot : c ≠ "."
  ne_dots : c ≠ ".."
  slash_not_mem : Glyph.char '/' ∉ c

theorem isName_iff {c : Text} :
    IsName c ↔ c ≠ [] ∧ c ≠ "." ∧ c ≠ ".." ∧ Glyph.char '/' ∉ c :=
  ⟨fun h => ⟨h.ne_nil, h.ne_dot, h.ne_dots, h.slash_not_mem⟩,
    fun h => ⟨h.1, h.2.1, h.2.2.1, h.2.2.2⟩⟩

instance (c : Text) : Decidable (IsName c) := decidable_of_iff _ isName_iff.symm

def isAbsolute (p : Text) : Bool := p.head? = some (.char '/')

/-- Adds one component to cleaned components, the last of which comes first. -/
def push (rooted : Bool) (stack : List Text) (c : Text) : List Text :=
  if c = [] ∨ c = "." then stack
  else if c = ".." then
    match stack with
    | [] => if rooted then [] else [c]
    | top :: rest => if top = ".." then c :: stack else rest
  else c :: stack

/-- The components of the cleaned path. -/
def components (p : Text) : List Text :=
  ((p.split '/').foldl (push (isAbsolute p)) []).reverse

/-- The path with the given components. -/
def ofComponents (rooted : Bool) (cs : List Text) : Text :=
  match rooted, cs with
  | true, cs => "/" ++ Text.join "/" cs
  | false, [] => "."
  | false, cs => Text.join "/" cs

def clean (p : Text) : Text := ofComponents (isAbsolute p) (components p)

/-- `p` seen from `dir`. -/
def join (dir p : Text) : Text :=
  if dir ≠ [] then clean (dir ++ "/" ++ p)
  else if p ≠ [] then clean p
  else []

/-- The component after the last slash. -/
def base (p : Text) : Text :=
  match p.cutLast? '/' with
  | some (_, name) => name
  | none => p

/-- The extension of the last component, from its last dot on. -/
def extension (p : Text) : Text :=
  match (base p).cutLast? '.' with
  | some (_, ext) => "." ++ ext
  | none => []

/-- The components left of `cs` after those of `root`. -/
def below? : (root cs : List Text) → Option (List Text)
  | [], cs => some cs
  | _ :: _, [] => none
  | r :: root, c :: cs => if r = c then below? root cs else none

/-- An absolute path below an absolute root is written relative to it; any other path stays as it
is. -/
def relativeTo (root p : Text) : Text :=
  if isAbsolute root && isAbsolute p then
    match below? (components root) (components p) with
    | some cs => ofComponents false cs
    | none => p
  else p

/-- The last two components as written. -/
def short (p : Text) : Text :=
  let parts := p.split '/'
  Text.join "/" (parts.drop (parts.length - 2))

end Path

end CallerTree
