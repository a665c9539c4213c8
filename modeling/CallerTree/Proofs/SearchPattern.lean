import CallerTree.FunctionName
import CallerTree.Line.Classify
import CallerTree.Proofs.Pattern

/-!
# Search patterns as texts

A search tool is given a pattern as a text. This module says what such a text means: it is read into
an expression, and an expression matches at some places of a line. With that, the texts that are
handed out can be compared with the shapes that the library matches by itself.

## What is left out

The notation known here has groups, alternatives, the three repetitions, sets of characters, the
classes `\s` and `\w`, and three marks for places: the start and the end of the text and the edge of
a word. Everything else is refused, and so is a repetition of a repetition. A text that is read
therefore is a pattern, but not every pattern can be read.

Which of several matches a tool prefers, and what a group captures, plays no role: only whether
there is a match.

## Main definitions

* `SearchPattern`, `SearchPattern.Matches`, `SearchPattern.Finds` — expressions, and where they
  match
* `SearchPattern.read` — the reading of a text, glyph by glyph
* `SearchPattern.Reads` — what a text adds to a pattern in the middle of which it stands
* `SearchPattern.ofPattern`, `SearchPattern.Writes` — a labelled pattern without its labels, and the
  texts that are read as it

## Main results

* `SearchPattern.reads_escaped` — an escaped text is read as itself
* `SearchPattern.matches_ofPattern_iff` — a labelled pattern and its expression match the same texts
* `SearchPattern.Writes.exists_read`, `exists_read_whole` — what a text that is bound to the start
  of the line finds
-/

namespace CallerTree

/-! ### Sets of characters -/

/-- What a set of characters lists. -/
inductive SetItem where
  | single (c : Char)
  | range (low high : Char)
  | gap
  | word
  deriving DecidableEq, Repr

def SetItem.has : SetItem → Char → Bool
  | single d, c => c == d
  | range low high, c => low ≤ c && c ≤ high
  | gap, c => Text.isGapChar c
  | word, c => isWordChar c

/-- The listed characters, or all others. -/
structure ItemSet where
  isNegated : Bool := false
  items : List SetItem
  deriving DecidableEq, Repr

namespace ItemSet

def has (s : ItemSet) (c : Char) : Bool := (s.items.any fun i => i.has c) != s.isNegated

def single (c : Char) : ItemSet := { items := [.single c] }

/-- The set that a class of a labelled pattern stands for. -/
def ofClass : CharClass → ItemSet
  | .exactly c => single c
  | .gap => { items := [.gap] }
  | .wordStart => { items := [.range 'A' 'Z', .range 'a' 'z', .single '_'] }
  | .word => { items := [.word] }
  | .typeGap => { items := [.gap, .single '*', .single '&'] }
  | .except cs => { isNegated := true, items := cs.map .single }

@[simp] theorem has_single (c d : Char) : (single d).has c = (c == d) := by
  simp [has, single, SetItem.has]

theorem isAlpha_eq (c : Char) :
    c.isAlpha = ((SetItem.range 'A' 'Z').has c || (SetItem.range 'a' 'z').has c) := by
  change (decide ('A'.val ≤ c.val ∧ c.val ≤ 'Z'.val) ||
    (decide ('a'.val ≤ c.val) && decide (c.val ≤ 'z'.val))) = _
  rw [Bool.decide_and]
  rfl

theorem any_single (cs : List Char) (c : Char) :
    (cs.map SetItem.single).any (·.has c) = cs.contains c := by
  rw [List.any_map, List.contains_eq_any_beq]
  rfl

theorem has_ofClass (k : CharClass) (c : Char) : (ofClass k).has c = k.accepts c := by
  cases k with
  | exactly d => exact has_single c d
  | wordStart =>
    simp [ofClass, has, CharClass.accepts, isWordStart, isAlpha_eq, SetItem.has, Bool.or_assoc]
  | «except» cs => simp only [ofClass, has, any_single, CharClass.accepts, Bool.bne_true]
  | _ => simp [ofClass, has, CharClass.accepts, SetItem.has, Bool.or_assoc]

end ItemSet

/-! ### Expressions -/

inductive SearchPattern where
  | empty
  | one (s : ItemSet)
  /-- The start of the text. -/
  | start
  /-- The end of the text. -/
  | stop
  /-- The edge of a word. -/
  | edge
  | seq (first second : SearchPattern)
  | alt (left right : SearchPattern)
  | star (body : SearchPattern)
  deriving DecidableEq, Repr

namespace SearchPattern

/-- The expression matches the second text, where it stands between the first and the third. -/
inductive Matches : SearchPattern → Text → Text → Text → Prop
  | empty {b a : Text} : Matches empty b [] a
  | one {s : ItemSet} {g : Glyph} {b a : Text} (h : s.has g.toChar = true) :
      Matches (one s) b [g] a
  | start {a : Text} : Matches start [] [] a
  | stop {b : Text} : Matches stop b [] []
  | edge {b a : Text} (h : Line.isBoundary b.getLast? a.head? = true) : Matches edge b [] a
  | seq {e f : SearchPattern} {b t u a : Text} (he : Matches e b t (u ++ a))
      (hf : Matches f (b ++ t) u a) : Matches (seq e f) b (t ++ u) a
  | left {e f : SearchPattern} {b t a : Text} (h : Matches e b t a) : Matches (alt e f) b t a
  | right {e f : SearchPattern} {b t a : Text} (h : Matches f b t a) : Matches (alt e f) b t a
  | star_nil {e : SearchPattern} {b a : Text} : Matches (star e) b [] a
  | star_append {e : SearchPattern} {b t u a : Text} (he : Matches e b t (u ++ a))
      (hrest : Matches (star e) (b ++ t) u a) : Matches (star e) b (t ++ u) a

/-- The expression matches somewhere in the line. -/
def Finds (e : SearchPattern) (line : Text) : Prop :=
  ∃ b t a, line = b ++ t ++ a ∧ e.Matches b t a

/-- Several expressions, one after the other. -/
def cat : List SearchPattern → SearchPattern
  | [] => empty
  | e :: es => seq e (cat es)

/-! ### Reading -/

/-- A group that is being read. -/
structure Frame where
  /-- The alternatives before the last bar, the last one first. -/
  choices : List SearchPattern := []
  /-- The pieces after the last bar, the last one first. -/
  pieces : List SearchPattern := []
  /-- Whether the last piece may be repeated. -/
  isOpen : Bool := false
  deriving DecidableEq, Repr

namespace Frame

def push (f : Frame) (e : SearchPattern) : Frame :=
  { f with pieces := e :: f.pieces, isOpen := true }

def bar (f : Frame) : Frame := { choices := cat f.pieces.reverse :: f.choices }

/-- The whole group. -/
def close (f : Frame) : SearchPattern :=
  f.choices.foldl (fun e choice => .alt choice e) (cat f.pieces.reverse)

/-- The group with its last piece repeated. -/
def repeated? (f : Frame) (again : SearchPattern → SearchPattern) : Option Frame :=
  match f.pieces, f.isOpen with
  | e :: rest, true => some { f with pieces := again e :: rest, isOpen := false }
  | _, _ => none

end Frame

/-- What the next glyph may be. -/
inductive Mode where
  | plain
  /-- A backslash has been read. -/
  | escape
  /-- A parenthesis has been opened. -/
  | opening
  /-- A parenthesis and a question mark have been read. -/
  | option
  /-- A bracket has been opened. -/
  | bracket
  /-- Between brackets, behind the items, the last one first. -/
  | items (isNegated : Bool) (items : List SetItem)
  /-- Between brackets, behind a dash. -/
  | range (isNegated : Bool) (items : List SetItem) (low : Char)
  /-- Between brackets, behind a backslash. -/
  | itemEscape (isNegated : Bool) (items : List SetItem)
  deriving DecidableEq, Repr

/-- A pattern that is being read: the innermost open group and those around it. -/
structure Reader where
  mode : Mode := .plain
  frame : Frame := {}
  outer : List Frame := []
  deriving DecidableEq, Repr

namespace Reader

def push (r : Reader) (e : SearchPattern) : Reader :=
  { r with mode := .plain, frame := r.frame.push e }

def repeated? (r : Reader) (again : SearchPattern → SearchPattern) : Option Reader :=
  (r.frame.repeated? again).map fun frame => { r with mode := .plain, frame }

/-- A character with a meaning. -/
def mark? (r : Reader) : Char → Option Reader
  | '\\' => some { r with mode := .escape }
  | '(' => some { mode := .opening, outer := r.frame :: r.outer }
  | ')' =>
    match r.outer with
    | [] => none
    | f :: outer => some { frame := f.push r.frame.close, outer }
  | '[' => some { r with mode := .bracket }
  | '|' => some { r with mode := .plain, frame := r.frame.bar }
  | '*' => r.repeated? .star
  | '+' => r.repeated? fun e => .seq e (.star e)
  | '?' => r.repeated? fun e => .alt e .empty
  | '^' => some (r.push .start)
  | '$' => some (r.push .stop)
  | '.' => some (r.push (.one { isNegated := true, items := [.single '\n'] }))
  | _ => none

/-- A character outside brackets. -/
def plain? (r : Reader) (c : Char) : Option Reader :=
  if FunctionName.patternMarks.contains c then r.mark? c else some (r.push (.one (.single c)))

/-- A character behind a backslash. -/
def escape? (r : Reader) (c : Char) : Option Reader :=
  if FunctionName.patternMarks.contains c then some (r.push (.one (.single c)))
  else match c with
    | 's' => some (r.push (.one { items := [.gap] }))
    | 'w' => some (r.push (.one { items := [.word] }))
    | 'b' => some (r.push .edge)
    | _ => none

/-- A character between brackets, where the closing one may not come first. -/
def item? (r : Reader) (isNegated : Bool) (items : List SetItem) (c : Char) : Option Reader :=
  match c, items with
  | ']', [] => none
  | ']', items => some (r.push (.one { isNegated, items := items.reverse }))
  | '-', .single low :: items => some { r with mode := .range isNegated items low }
  | '-', _ => none
  | '[', _ => none
  | '\\', items => some { r with mode := .itemEscape isNegated items }
  | c, items => some { r with mode := .items isNegated (.single c :: items) }

def step? (r : Reader) : Glyph → Option Reader
  | .stray _ => none
  | .char c =>
    match r.mode with
    | .plain => r.plain? c
    | .escape => r.escape? c
    | .opening => if c = '?' then some { r with mode := .option } else r.plain? c
    | .option => if c = ':' then some { r with mode := .plain } else none
    | .bracket =>
      if c = '^' then some { r with mode := .items true [] } else r.item? false [] c
    | .items isNegated items => r.item? isNegated items c
    | .range isNegated items low =>
      if FunctionName.patternMarks.contains c || c < low then none
      else some { r with mode := .items isNegated (.range low c :: items) }
    | .itemEscape isNegated items =>
      match c with
      | 's' => some { r with mode := .items isNegated (.gap :: items) }
      | 'w' => some { r with mode := .items isNegated (.word :: items) }
      | _ => none

def finish? (r : Reader) : Option SearchPattern :=
  match r.mode, r.outer with
  | .plain, [] => some r.frame.close
  | _, _ => none

end Reader

/-- The expression that a text is read as. -/
def read (t : Text) : Option SearchPattern := (t.foldlM Reader.step? {}).bind Reader.finish?

/-! ### Reading in the middle of a pattern -/

/-- Wherever the text stands in a pattern, it adds the pieces `es`. -/
def Reads (t : Text) (es : List SearchPattern) : Prop :=
  ∃ openAfter : Bool → Bool, ∀ choices pieces isOpen outer,
    t.foldlM Reader.step? ⟨.plain, ⟨choices, pieces, isOpen⟩, outer⟩ =
      some ⟨.plain, ⟨choices, es.reverse ++ pieces, openAfter isOpen⟩, outer⟩

/-- The pieces of a text that is read on its own. -/
def piecesOf (t : Text) : List SearchPattern :=
  ((t.foldlM Reader.step? {}).map (·.frame.pieces.reverse)).getD []

theorem reads_nil : Reads [] [] := ⟨id, fun _ _ _ _ => rfl⟩

/-- This is why `Reads` holds wherever the text stands and not at the start of a pattern only. -/
theorem Reads.append {t u : Text} {es fs : List SearchPattern} (ht : Reads t es)
    (hu : Reads u fs) : Reads (t ++ u) (es ++ fs) := by
  obtain ⟨openAfter, ht⟩ := ht
  obtain ⟨openAfter', hu⟩ := hu
  refine ⟨openAfter' ∘ openAfter, fun choices pieces isOpen outer => ?_⟩
  rw [List.foldlM_append, ht, List.reverse_append, List.append_assoc]
  exact hu ..

theorem Reads.read {t : Text} {es : List SearchPattern} (h : Reads t es) :
    read t = some (cat es) := by
  obtain ⟨openAfter, h⟩ := h
  have hfold := h [] [] false []
  rw [List.append_nil] at hfold
  rw [SearchPattern.read, hfold]
  change some (cat es.reverse.reverse) = _
  rw [List.reverse_reverse]

/-- A text of characters, none of which is the one that stray bytes are shown as. -/
def IsClear (t : Text) : Prop := ∀ g ∈ t, ∃ c, g = .char c ∧ c ≠ '\ufffd'

/-- The pieces that match the glyphs of a text. -/
def literal (t : Text) : List SearchPattern := t.map fun g => .one (.single g.toChar)

theorem escaped_cons (g : Glyph) (t : Text) :
    FunctionName.escaped (g :: t) = FunctionName.escaped [g] ++ FunctionName.escaped t := by
  simp [FunctionName.escaped]

theorem escaped_char (c : Char) :
    FunctionName.escaped [.char c] =
      if FunctionName.patternMarks.contains c then [.char '\\', .char c] else [.char c] :=
  List.append_nil _

theorem reads_escaped_char (c : Char) :
    Reads (FunctionName.escaped [.char c]) (literal [.char c]) := by
  refine ⟨fun _ => true, fun choices pieces isOpen outer => ?_⟩
  rw [escaped_char]
  split
  · rename_i hmark
    change Reader.escape? _ c >>= pure = _
    unfold Reader.escape?
    rw [if_pos hmark]
    rfl
  · rename_i hmark
    change Reader.plain? _ c >>= pure = _
    rw [Reader.plain?, if_neg hmark]
    rfl

/-- An escaped text is read as itself. -/
theorem reads_escaped {t : Text} (ht : IsClear t) :
    Reads (FunctionName.escaped t) (literal t) := by
  induction t with
  | nil => exact reads_nil
  | cons g t ih =>
    obtain ⟨⟨c, rfl, -⟩, htail⟩ := List.forall_mem_cons.mp ht
    rw [escaped_cons]
    exact (reads_escaped_char c).append (ih htail)

/-! ### Where expressions match -/

variable {e f : SearchPattern} {es fs : List SearchPattern} {b t a : Text}

theorem matches_empty_iff : Matches empty b t a ↔ t = [] := by
  constructor
  · rintro ⟨⟩
    rfl
  · rintro rfl
    exact .empty

theorem matches_one_iff {s : ItemSet} :
    Matches (one s) b t a ↔ ∃ g, s.has g.toChar = true ∧ t = [g] := by
  constructor
  · rintro ⟨⟩
    exact ⟨_, ‹_›, rfl⟩
  · rintro ⟨g, h, rfl⟩
    exact .one h

theorem matches_start_iff : Matches start b t a ↔ b = [] ∧ t = [] := by
  constructor
  · rintro ⟨⟩
    exact ⟨rfl, rfl⟩
  · rintro ⟨rfl, rfl⟩
    exact .start

theorem matches_stop_iff : Matches stop b t a ↔ t = [] ∧ a = [] := by
  constructor
  · rintro ⟨⟩
    exact ⟨rfl, rfl⟩
  · rintro ⟨rfl, rfl⟩
    exact .stop

theorem matches_edge_iff :
    Matches edge b t a ↔ t = [] ∧ Line.isBoundary b.getLast? a.head? = true := by
  constructor
  · rintro ⟨⟩
    exact ⟨rfl, ‹_›⟩
  · rintro ⟨rfl, h⟩
    exact .edge h

/-- Each part sees the other as its surroundings, which edges look at. -/
theorem matches_seq_iff :
    Matches (seq e f) b t a ↔
      ∃ u v, t = u ++ v ∧ Matches e b u (v ++ a) ∧ Matches f (b ++ u) v a := by
  constructor
  · rintro ⟨⟩
    exact ⟨_, _, rfl, ‹_›, ‹_›⟩
  · rintro ⟨u, v, rfl, he, hf⟩
    exact .seq he hf

theorem matches_alt_iff : Matches (alt e f) b t a ↔ Matches e b t a ∨ Matches f b t a := by
  constructor
  · rintro (_ | _)
    · exact .inl ‹_›
    · exact .inr ‹_›
  · rintro (h | h)
    · exact .left h
    · exact .right h

theorem Matches.star_mono (hef : ∀ b t a, Matches e b t a → Matches f b t a)
    (h : Matches (star e) b t a) : Matches (star f) b t a := by
  generalize hs : star e = s at h
  induction h with
  | star_nil => exact .star_nil
  | star_append he _ _ ih =>
    obtain rfl := SearchPattern.star.inj hs
    exact .star_append (hef _ _ _ he) (ih hs)
  | _ => cases hs

theorem matches_star_one_iff {s : ItemSet} :
    Matches (star (one s)) b t a ↔ ∀ g ∈ t, s.has g.toChar = true := by
  constructor
  · intro h
    generalize hs : star (one s) = s' at h
    induction h with
    | star_nil => simp
    | star_append he _ _ ih =>
      obtain rfl := SearchPattern.star.inj hs
      obtain ⟨g, hg, rfl⟩ := matches_one_iff.mp he
      exact List.forall_mem_cons.mpr ⟨hg, ih hs⟩
    | _ => cases hs
  · intro h
    induction t generalizing b with
    | nil => exact .star_nil
    | cons g t ih =>
      obtain ⟨hg, ht⟩ := List.forall_mem_cons.mp h
      exact .star_append (.one hg) (ih ht)

/-! ### Pieces one after the other -/

@[simp] theorem matches_cat_nil : Matches (cat []) b t a ↔ t = [] := matches_empty_iff

theorem matches_cat_cons_iff :
    Matches (cat (e :: es)) b t a ↔
      ∃ u v, t = u ++ v ∧ Matches e b u (v ++ a) ∧ Matches (cat es) (b ++ u) v a :=
  matches_seq_iff

/-- Where the pieces are cut does not matter. -/
theorem matches_cat_append_iff :
    Matches (cat (es ++ fs)) b t a ↔
      ∃ u v, t = u ++ v ∧ Matches (cat es) b u (v ++ a) ∧ Matches (cat fs) (b ++ u) v a := by
  induction es generalizing b t with
  | nil => simp
  | cons e es ih =>
    rw [List.cons_append, matches_cat_cons_iff]
    constructor
    · rintro ⟨u, v, rfl, he, h⟩
      obtain ⟨v, w, rfl, hes, hfs⟩ := ih.mp h
      rw [List.append_assoc] at he hfs
      exact ⟨u ++ v, w, (List.append_assoc ..).symm, matches_cat_cons_iff.mpr ⟨u, v, rfl, he, hes⟩,
        hfs⟩
    · rintro ⟨_, w, rfl, h, hfs⟩
      obtain ⟨u, v, rfl, he, hes⟩ := matches_cat_cons_iff.mp h
      rw [← List.append_assoc] at he hfs
      exact ⟨u, v ++ w, List.append_assoc .., he, ih.mpr ⟨v, w, rfl, hes, hfs⟩⟩

@[simp] theorem matches_cat_singleton : Matches (cat [e]) b t a ↔ Matches e b t a := by
  simp [matches_cat_cons_iff]

/-- What follows `b` starts with a match of the pieces. -/
def Starts (es : List SearchPattern) (b rest : Text) : Prop :=
  ∃ t a, rest = t ++ a ∧ Matches (cat es) b t a

theorem finds_cat_iff {line : Text} :
    (cat es).Finds line ↔ ∃ b rest, line = b ++ rest ∧ Starts es b rest := by
  constructor
  · rintro ⟨b, t, a, rfl, h⟩
    exact ⟨b, t ++ a, List.append_assoc .., t, a, rfl, h⟩
  · rintro ⟨b, _, rfl, t, a, rfl, h⟩
    exact ⟨b, t, a, (List.append_assoc ..).symm, h⟩

@[simp] theorem starts_nil {rest : Text} : Starts [] b rest :=
  ⟨[], rest, rfl, .empty⟩

theorem starts_cons_iff {rest : Text} :
    Starts (e :: es) b rest ↔ ∃ u v, rest = u ++ v ∧ Matches e b u v ∧ Starts es (b ++ u) v := by
  constructor
  · rintro ⟨_, a, rfl, h⟩
    obtain ⟨u, v, rfl, he, hes⟩ := matches_cat_cons_iff.mp h
    exact ⟨u, v ++ a, List.append_assoc .., he, v, a, rfl, hes⟩
  · rintro ⟨u, _, rfl, he, v, a, rfl, hes⟩
    exact ⟨u ++ v, a, (List.append_assoc ..).symm, matches_cat_cons_iff.mpr ⟨u, v, rfl, he, hes⟩⟩

theorem starts_start_iff {rest : Text} :
    Starts (start :: es) b rest ↔ b = [] ∧ Starts es b rest := by
  simp [starts_cons_iff, matches_start_iff, and_assoc]

theorem starts_edge_iff {rest : Text} :
    Starts (edge :: es) b rest ↔
      Line.isBoundary b.getLast? rest.head? = true ∧ Starts es b rest := by
  simp [starts_cons_iff, matches_edge_iff, and_assoc]

theorem starts_alt_iff {rest : Text} :
    Starts (alt e f :: es) b rest ↔ Starts (e :: es) b rest ∨ Starts (f :: es) b rest := by
  simp only [starts_cons_iff, matches_alt_iff, or_and_right, and_or_left, exists_or]

theorem starts_star_one_iff {s : ItemSet} {rest : Text} :
    Starts (star (one s) :: es) b rest ↔
      ∃ u v, rest = u ++ v ∧ (∀ g ∈ u, s.has g.toChar = true) ∧ Starts es (b ++ u) v := by
  simp only [starts_cons_iff, matches_star_one_iff]

theorem starts_one_iff {s : ItemSet} {rest : Text} :
    Starts (one s :: es) b rest ↔
      ∃ g v, rest = g :: v ∧ s.has g.toChar = true ∧ Starts es (b ++ [g]) v := by
  constructor
  · intro h
    obtain ⟨_, v, rfl, hone, hes⟩ := starts_cons_iff.mp h
    obtain ⟨g, hg, rfl⟩ := matches_one_iff.mp hone
    exact ⟨g, v, rfl, hg, hes⟩
  · rintro ⟨g, v, rfl, hg, hes⟩
    exact starts_cons_iff.mpr ⟨[g], v, rfl, .one hg, hes⟩

/-- The replacement character is left out as stray bytes are shown as it. -/
theorem eq_of_toChar_eq {g : Glyph} {c : Char} (hc : c ≠ '\ufffd') (h : g.toChar = c) :
    g = .char c := by
  cases g with
  | char d => exact congrArg Glyph.char h
  | stray _ => exact absurd h.symm hc

theorem starts_literal_append_iff {u rest : Text} (hu : IsClear u) :
    Starts (literal u ++ es) b rest ↔ ∃ v, rest = u ++ v ∧ Starts es (b ++ u) v := by
  induction u generalizing b rest with
  | nil => simp [literal]
  | cons g u ih =>
    obtain ⟨⟨c, rfl, hc⟩, htail⟩ := List.forall_mem_cons.mp hu
    change Starts (one (.single c) :: (literal u ++ es)) b rest ↔ _
    rw [starts_one_iff]
    constructor
    · rintro ⟨g, v, rfl, hg, h⟩
      obtain rfl := eq_of_toChar_eq hc (by simpa using hg)
      obtain ⟨v, rfl, hes⟩ := (ih htail).mp h
      exact ⟨v, rfl, by simpa using hes⟩
    · rintro ⟨v, rfl, hes⟩
      exact ⟨.char c, u ++ v, rfl, by simp, (ih htail).mpr ⟨v, rfl, by simpa using hes⟩⟩

theorem finds_start_iff {line : Text} : (cat (start :: es)).Finds line ↔ Starts es [] line := by
  simp [finds_cat_iff, starts_start_iff]

/-- The parts of an expression that come one after the other, without nested sequences. -/
def parts : SearchPattern → List SearchPattern
  | empty => []
  | seq e f => e.parts ++ f.parts
  | alt e f => [alt (cat e.parts) (cat f.parts)]
  | star e => [star (cat e.parts)]
  | e => [e]

theorem matches_cat_parts : Matches (cat e.parts) b t a ↔ Matches e b t a := by
  induction e generalizing b t a with
  | empty => rfl
  | seq e f he hf => simp only [parts, matches_cat_append_iff, matches_seq_iff, he, hf]
  | alt e f he hf => simp only [parts, matches_cat_singleton, matches_alt_iff, he, hf]
  | star e he =>
    rw [parts, matches_cat_singleton]
    exact ⟨.star_mono fun _ _ _ => he.mp, .star_mono fun _ _ _ => he.mpr⟩
  | _ => simp only [parts, matches_cat_singleton]

theorem matches_cat_flatMap_parts :
    Matches (cat (es.flatMap parts)) b t a ↔ Matches (cat es) b t a := by
  induction es generalizing b t a with
  | nil => rfl
  | cons e es ih =>
    simp only [List.flatMap_cons, matches_cat_append_iff, matches_cat_cons_iff, matches_cat_parts,
      ih]

/-! ### Labelled patterns -/

section OfPattern

variable {τ : Type} {p q : Pattern τ}

/-- A labelled pattern without its labels. -/
def ofPattern : Pattern τ → SearchPattern
  | .empty => empty
  | .one accepted _ => one (.ofClass accepted)
  | .seq p q => seq (ofPattern p) (ofPattern q)
  | .alt p q => alt (ofPattern p) (ofPattern q)
  | .star p => star (ofPattern p)

theorem matches_ofPattern {m : List (τ × Glyph)} (h : p.Matches m) :
    ∀ {b a : Text}, Matches (ofPattern p) b (m.map Prod.snd) a := by
  induction h with
  | empty => exact .empty
  | one h => exact .one (by rwa [ItemSet.has_ofClass])
  | seq _ _ hp hq =>
    rw [List.map_append]
    exact .seq hp hq
  | left _ h => exact .left h
  | right _ h => exact .right h
  | star_nil => exact .star_nil
  | star_append _ _ hp hrest =>
    rw [List.map_append]
    exact .star_append hp hrest

/-- The converse of `matches_ofPattern`. Labels are not written, so they are chosen here. -/
theorem exists_matches_of_ofPattern (h : Matches (ofPattern p) b t a) :
    ∃ m, p.Matches m ∧ m.map Prod.snd = t := by
  induction p generalizing b t a with
  | empty => exact ⟨[], .empty, (matches_empty_iff.mp h).symm⟩
  | one accepted label =>
    obtain ⟨g, hg, rfl⟩ := matches_one_iff.mp h
    exact ⟨[(label, g)], .one (by rwa [ItemSet.has_ofClass] at hg), rfl⟩
  | seq p q hp hq =>
    obtain ⟨u, v, rfl, hu, hv⟩ := matches_seq_iff.mp h
    obtain ⟨m, hm, rfl⟩ := hp hu
    obtain ⟨n, hn, rfl⟩ := hq hv
    exact ⟨m ++ n, .seq hm hn, List.map_append⟩
  | alt p q hp hq =>
    obtain h | h := matches_alt_iff.mp h
    · obtain ⟨m, hm, rfl⟩ := hp h
      exact ⟨m, .left hm, rfl⟩
    · obtain ⟨m, hm, rfl⟩ := hq h
      exact ⟨m, .right hm, rfl⟩
  | star p hp =>
    rw [ofPattern] at h
    generalize hs : star (ofPattern p) = s at h
    induction h with
    | star_nil => exact ⟨[], .star_nil, rfl⟩
    | star_append he _ _ ih =>
      obtain rfl := SearchPattern.star.inj hs
      obtain ⟨m, hm, rfl⟩ := hp he
      obtain ⟨n, hn, rfl⟩ := ih hs
      exact ⟨m ++ n, .star_append hm hn, List.map_append⟩
    | _ => cases hs

variable [DecidableEq τ]

/-- A labelled pattern and its expression match the same texts, wherever they stand. -/
theorem matches_ofPattern_iff : Matches (ofPattern p) b t a ↔ p.accepts t = true := by
  rw [Pattern.accepts_iff]
  constructor
  · exact exists_matches_of_ofPattern
  · rintro ⟨m, hm, rfl⟩
    exact matches_ofPattern hm

/-- Read in the middle of a pattern, the text stands for the labelled pattern. -/
def Writes (t : Text) (p : Pattern τ) : Prop :=
  ∃ es, Reads t es ∧ es.flatMap parts = (ofPattern p).parts

omit [DecidableEq τ] in
theorem parts_ofPattern_seqs (ps : List (Pattern τ)) :
    (ofPattern (Pattern.seqs ps)).parts = ps.flatMap fun p => (ofPattern p).parts := by
  induction ps using Pattern.seqs.induct with
  | case1 => rfl
  | case2 p => exact (List.append_nil _).symm
  | case3 p q rest ih =>
    rw [List.flatMap_cons, ← ih]
    rfl

omit [DecidableEq τ] in
/-- Texts one after the other stand for their patterns one after the other. -/
theorem writes_seqs {ts : List Text} {ps : List (Pattern τ)} (h : List.Forall₂ Writes ts ps) :
    Writes ts.flatten (Pattern.seqs ps) := by
  induction h with
  | nil => exact ⟨[], reads_nil, rfl⟩
  | @cons t p ts ps hp _ ih =>
    obtain ⟨es, hes, hparts⟩ := hp
    obtain ⟨fs, hfs, hrest⟩ := ih
    refine ⟨es ++ fs, hes.append hfs, ?_⟩
    rw [List.flatMap_append, hparts, hrest, parts_ofPattern_seqs, parts_ofPattern_seqs,
      List.flatMap_cons]

omit [DecidableEq τ] in
theorem writes_escaped {t : Text} (ht : IsClear t) (l : τ) :
    Writes (FunctionName.escaped t) (Pattern.word l t) := by
  refine ⟨_, reads_escaped ht, ?_⟩
  rw [Pattern.word, parts_ofPattern_seqs, literal]
  simp [List.flatMap_map, ofPattern, parts, ItemSet.ofClass]

theorem accepts_congr (h : (ofPattern p).parts = (ofPattern q).parts) (t : Text) :
    p.accepts t = q.accepts t := by
  rw [Bool.eq_iff_iff, ← matches_ofPattern_iff (p := p) (b := []) (a := []),
    ← matches_ofPattern_iff (p := q) (b := []) (a := []), ← matches_cat_parts, h,
    matches_cat_parts]

theorem accepts_seq_anything_iff {t : Text} (l : τ) :
    (p.seq (Pattern.anything l)).accepts t = true ↔ ∃ u v, t = u ++ v ∧ p.accepts u = true := by
  rw [← matches_ofPattern_iff (b := []) (a := [])]
  change Matches (seq (ofPattern p) (star (one (.ofClass (.except []))))) [] t [] ↔ _
  simp [matches_seq_iff, matches_ofPattern_iff, matches_star_one_iff, ItemSet.has_ofClass,
    CharClass.accepts]

theorem Writes.matches_iff {t : Text} (h : Writes t p) :
    ∃ es, Reads t es ∧ ∀ {b u a : Text}, Matches (cat es) b u a ↔ p.accepts u = true := by
  obtain ⟨es, hes, hp⟩ := h
  refine ⟨es, hes, fun {b u a} => ?_⟩
  rw [← matches_cat_flatMap_parts, hp, matches_cat_parts, matches_ofPattern_iff]

theorem reads_start : Reads "^" [start] := ⟨fun _ => true, fun _ _ _ _ => rfl⟩

theorem reads_stop : Reads "$" [stop] := ⟨fun _ => true, fun _ _ _ _ => rfl⟩

/-- A pattern bound to the start of the line finds the lines that start with a match. -/
theorem Writes.exists_read {t : Text} (h : Writes t p) (l : τ) :
    ∃ e, read ("^" ++ t) = some e ∧
      ∀ line, e.Finds line ↔ (p.seq (Pattern.anything l)).accepts line = true := by
  obtain ⟨es, hes, hp⟩ := h.matches_iff
  refine ⟨_, (reads_start.append hes).read, fun line => ?_⟩
  rw [List.singleton_append, finds_start_iff, accepts_seq_anything_iff]
  simp only [Starts, hp]

/-- A pattern bound to the start and the end of the line finds the lines that match. -/
theorem Writes.exists_read_whole {t : Text} (h : Writes t p) :
    ∃ e, read ("^" ++ t ++ "$") = some e ∧ ∀ line, e.Finds line ↔ p.accepts line = true := by
  obtain ⟨es, hes, hp⟩ := h.matches_iff
  refine ⟨_, ((reads_start.append hes).append reads_stop).read, fun line => ?_⟩
  rw [List.singleton_append, List.cons_append, finds_start_iff]
  simp [Starts, matches_cat_append_iff, matches_stop_iff, hp]

end OfPattern

end SearchPattern

end CallerTree
