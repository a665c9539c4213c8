import CallerTree.Proofs.LinePatterns
import CallerTree.Proofs.NameForm
import CallerTree.Proofs.Preference
import CallerTree.Proofs.ToolOutput

/-!
# The anatomy of a signature line

The pattern of a signature can match a line in several ways: what reads as a qualifier may also be
read as a type, and part of a name may be read as a scope. The order of preference picks one of the
ways. Here the ways are described by their parts, and it is shown how much of them the line itself
determines.

## What the line determines

The first opening parenthesis and the first closing one behind it cut the line. From there on the
parts are found to the left: the gap before the parenthesis is all the blanks there, and a name
without scopes is the longest that ends at the gap. So all ways to match a line agree on the
parameters, on what follows them and on the name, and no order of preference is needed to say so.

The types are different. They are empty in the preferred way exactly if they are empty in some way,
since the qualifiers are tried before the types. This is the one place where the order matters.

## Main definitions

* `Line.Front`, `Line.Anatomy` — the parts of a line, with what is known of each
* `Line.Anatomy.Fits` — the parts are as a signature asks for

## Main results

* `Line.matches_signature_iff`, `Line.matches_openSignature_iff` — matches and parts
* `Line.Anatomy.text_inj`, `Line.Front.name_eq_of_text_eq`, `Line.Front.stem_eq_of_append` — the
  parts that the line determines
* `Line.types_eq_nil_of_label?` — when no types are found
-/

namespace CallerTree

/-- A list has one cut behind which all elements have a property that the element before it does not
have. -/
theorem append_inj_of_end {α : Type} {p : α → Bool} {u v u' v' : List α} (h : u ++ v = u' ++ v')
    (hu : ∀ a ∈ u.getLast?, p a = false) (hv : ∀ a ∈ v, p a = true)
    (hu' : ∀ a ∈ u'.getLast?, p a = false) (hv' : ∀ a ∈ v', p a = true) : u = u' ∧ v = v' := by
  have hnil : ∀ {x y w : List α}, y = x ++ w → (∀ a ∈ y.getLast?, p a = false) →
      (∀ a ∈ w, p a = true) → w = [] := by
    rintro x _ w rfl hy hw
    rcases List.eq_nil_or_concat w with rfl | ⟨w, a, rfl⟩
    · rfl
    · have hfalse := hy a (by simp)
      rw [hw a (by simp)] at hfalse
      cases hfalse
  rcases List.append_eq_append_iff.mp h with ⟨w, hw, rfl⟩ | ⟨w, hw, rfl⟩
  · obtain rfl := hnil hw hu' fun a ha => hv a (List.mem_append_left _ ha)
    simpa using hw.symm
  · obtain rfl := hnil hw hu fun a ha => hv' a (List.mem_append_left _ ha)
    simpa using hw

theorem forall_getLast?_append {α : Type} {P : α → Prop} {u v : List α}
    (hu : ∀ a ∈ u.getLast?, P a) (hv : ∀ a ∈ v.getLast?, P a) :
    ∀ a ∈ (u ++ v).getLast?, P a := by
  intro a ha
  rw [List.getLast?_append] at ha
  rcases Option.or_eq_some_iff.mp ha with ha | ⟨-, ha⟩
  · exact hv a ha
  · exact hu a ha

theorem exists_head?_append {α : Type} {P : α → Prop} {u v : List α} (hu : ∀ a ∈ u.head?, P a)
    (hv : ∃ a ∈ v.head?, P a) : ∃ a ∈ (u ++ v).head?, P a := by
  cases u with
  | nil => exact hv
  | cons a u => exact ⟨a, rfl, hu a rfl⟩

section Labels

variable {τ : Type} [DecidableEq τ]

@[simp] theorem labelled_append (l : τ) (m n : List (τ × Glyph)) :
    labelled l (m ++ n) = labelled l m ++ labelled l n := by
  simp [labelled]

@[simp] theorem labelled_map_self (l : τ) (t : Text) : labelled l (t.map (Prod.mk l)) = t := by
  simp [labelled, List.filter_map, Function.comp_def]

theorem labelled_map_of_ne {l l' : τ} (h : l' ≠ l) (t : Text) :
    labelled l (t.map (Prod.mk l')) = [] := by
  simp [labelled, List.filter_map, Function.comp_def, h]

end Labels

namespace Line

open Pattern FunctionName

/-! ### The parts -/

/-- The words that may qualify a signature. -/
def qualifierWords : List Text := ["extern", "static", "inline", "virtual", "constexpr"]

/-- One of them and the gap behind it. -/
def qualifier : Pattern Part := seq (oneOf .lead qualifierWords) (plus (one .gap .lead))

/-- The qualifiers without the indentation. -/
def qualifierRun : Pattern Part := star qualifier

/-- The words that may follow the parameters. -/
def trailerWords : List Text := ["const", "noexcept", "override", "final"]

theorem trailers_eq : trailers = star (seq (gaps .rest) (oneOf .rest trailerWords)) := rfl

theorem isWordChar_of_mem_trailerWords :
    ∀ w ∈ trailerWords, ∀ g ∈ w, isWordChar g.toChar = true := by
  decide

theorem isHarmless_of_mem_qualifierWords {w : Text} (hw : w ∈ qualifierWords) : IsHarmless w := by
  have hall : ∀ w ∈ qualifierWords, w ≠ [] ∧ ∀ g ∈ w, isNameChar g.toChar = true := by decide
  exact isHarmless_iff.mpr (hall w hw)

theorem qualifiers_eq : qualifiers = seq (gaps .lead) qualifierRun := rfl

theorem accepts_gaps_iff {l : Part} {t : Text} :
    (gaps l).accepts t = true ↔ ∀ g ∈ t, Text.isGap g = true := accepts_star_one_iff

theorem accepts_exceptParen_iff {l : Part} {t : Text} :
    (star (one (.except [')']) l)).accepts t = true ↔ Glyph.char ')' ∉ t := by
  rw [accepts_star_one_iff]
  simp only [CharClass.accepts, List.contains_cons, List.contains_nil, Bool.or_false,
    Bool.not_eq_true', beq_eq_false_iff_ne]
  constructor
  · intro h hmem
    exact h _ hmem rfl
  · intro h g hg heq
    rw [SearchPattern.eq_of_toChar_eq (by decide) heq] at hg
    exact h hg

/-- The parentheses of a signature with what stands between them. -/
def parens : Pattern Part :=
  seqs [one (.exactly '(') .params, star (one (.except [')']) .params), one (.exactly ')') .params]

theorem accepts_parens_iff {t : Text} :
    parens.accepts t = true ↔
      ∃ inner : Text, Glyph.char ')' ∉ inner ∧ t = .char '(' :: (inner ++ [.char ')']) := by
  have hopen := fun u : Text => accepts_exactly_iff (l := .params) (t := u) (c := '(') (by decide)
  have hclose := fun u : Text => accepts_exactly_iff (l := .params) (t := u) (c := ')') (by decide)
  simp only [parens, seqs, accepts_seq_iff, accepts_exceptParen_iff, hopen, hclose]
  constructor
  · rintro ⟨_, _, rfl, rfl, inner, _, rfl, hinner, rfl⟩
    exact ⟨inner, hinner, rfl⟩
  · rintro ⟨inner, hinner, rfl⟩
    exact ⟨_, _, rfl, rfl, inner, _, rfl, hinner, rfl⟩

/-- Parentheses that are not closed. -/
def openParen : Pattern Part :=
  seq (one (.exactly '(') .params) (star (one (.except [')']) .params))

theorem accepts_openParen_iff {t : Text} :
    openParen.accepts t = true ↔
      ∃ inner : Text, Glyph.char ')' ∉ inner ∧ t = .char '(' :: inner := by
  have hopen := fun u : Text => accepts_exactly_iff (l := .params) (t := u) (c := '(') (by decide)
  simp only [openParen, accepts_seq_iff, accepts_exceptParen_iff, hopen]
  constructor
  · rintro ⟨_, inner, rfl, rfl, hinner⟩
    exact ⟨inner, hinner, rfl⟩
  · rintro ⟨inner, hinner, rfl⟩
    exact ⟨_, inner, rfl, rfl, hinner⟩

/-- What stands before the opening parenthesis of a signature. -/
structure Front where
  indent : Text
  quals : Text
  types : Text
  scope : Text
  name : Text
  gap : Text
  isGap_of_mem_indent : ∀ g ∈ indent, Text.isGap g = true
  accepts_quals : qualifierRun.accepts quals = true
  accepts_types : (star typeToken).accepts types = true
  accepts_scope : Line.scope.accepts scope = true
  isHarmless_name : IsHarmless name
  isGap_of_mem_gap : ∀ g ∈ gap, Text.isGap g = true

namespace Front

/-- Everything before the name. -/
def stem (f : Front) : Text := f.indent ++ f.quals ++ f.types ++ f.scope

def text (f : Front) : Text := f.stem ++ f.name ++ f.gap

def labels (f : Front) : List (Part × Glyph) :=
  (f.indent ++ f.quals).map (Prod.mk .lead) ++ f.types.map (Prod.mk .types) ++
    f.scope.map (Prod.mk .scope) ++ f.name.map (Prod.mk .name) ++ f.gap.map (Prod.mk .params)

@[simp] theorem map_snd_labels (f : Front) : f.labels.map Prod.snd = f.text := by
  simp [labels, text, stem, Function.comp_def]

@[simp] theorem labelled_types_labels (f : Front) : labelled .types f.labels = f.types := by
  simp [labels, labelled_map_of_ne, -List.map_append]

/-- The types and the name are as the two patterns ask for. -/
structure Fits (p q : Pattern Part) (f : Front) : Prop where
  types : p.accepts f.types = true
  name : q.accepts f.name = true

end Front

/-- A whole line with a signature in it. -/
structure Anatomy extends Front where
  /-- What stands between the parentheses. -/
  inner : Text
  /-- What follows the closing parenthesis. -/
  tail : Text
  notMem_inner : Glyph.char ')' ∉ inner

namespace Anatomy

def text (a : Anatomy) : Text :=
  a.toFront.text ++ .char '(' :: (a.inner ++ .char ')' :: a.tail)

def labels (a : Anatomy) : List (Part × Glyph) :=
  a.toFront.labels ++ (Glyph.char '(' :: (a.inner ++ [.char ')'])).map (Prod.mk .params) ++
    a.tail.map (Prod.mk .rest)

@[simp] theorem map_snd_labels (a : Anatomy) : a.labels.map Prod.snd = a.text := by
  simp [labels, text, Function.comp_def]

@[simp] theorem labelled_types_labels (a : Anatomy) : labelled .types a.labels = a.types := by
  simp [labels, labelled_map_of_ne, -List.map_append, -List.map_cons]

@[simp] theorem labelled_name_labels (a : Anatomy) : labelled .name a.labels = a.name := by
  simp [labels, Front.labels, labelled_map_of_ne, -List.map_append, -List.map_cons]

@[simp] theorem labelled_params_labels (a : Anatomy) :
    labelled .params a.labels = a.gap ++ .char '(' :: (a.inner ++ [.char ')']) := by
  simp [labels, Front.labels, labelled_map_of_ne, -List.map_append, -List.map_cons]

/-- The parts are as a signature with these types, this name and this ending asks for. -/
structure Fits (p q : Pattern Part) (ending : Ending) (a : Anatomy) : Prop
    extends a.toFront.Fits p q where
  tail : (seq trailers ending.pattern).accepts a.tail = true

end Anatomy

/-- A pattern for the types of a signature. -/
structure IsTypes (p : Pattern Part) : Prop where
  isOnly : p.isOnly .types = true
  accepts_star : ∀ t, p.accepts t = true → (star typeToken).accepts t = true

/-- A pattern for the name in a signature. -/
structure IsName (q : Pattern Part) : Prop where
  isOnly : q.isOnly .name = true
  isHarmless : ∀ t, q.accepts t = true → IsHarmless t

theorem accepts_qualifiers_iff {t : Text} :
    qualifiers.accepts t = true ↔ ∃ indent quals : Text, (∀ g ∈ indent, Text.isGap g = true) ∧
      qualifierRun.accepts quals = true ∧ t = indent ++ quals := by
  rw [qualifiers_eq, accepts_seq_iff]
  simp only [accepts_gaps_iff]
  constructor
  · rintro ⟨indent, quals, rfl, hindent, hquals⟩
    exact ⟨indent, quals, hindent, hquals, rfl⟩
  · rintro ⟨indent, quals, hindent, hquals, rfl⟩
    exact ⟨indent, quals, rfl, hindent, hquals⟩

theorem isTypes_star : IsTypes (star typeToken) := ⟨by decide, fun _ h => h⟩

theorem isTypes_plus : IsTypes (plus typeToken) :=
  ⟨by decide, fun _ h => ((accepts_plus_iff (by decide)).mp h).2⟩

variable {p q : Pattern Part} {ending : Ending} {m : List (Part × Glyph)}

/-- A signature up to its opening parenthesis, and then `r`. -/
def frontThen (p q r : Pattern Part) : Pattern Part :=
  seq qualifiers (seq p (seq scope (seq q (seq (gaps .params) r))))

/-- With `r` left open, this serves signatures that end and those that do not. -/
theorem matches_frontThen_iff (hp : IsTypes p) (hq : IsName q) {r : Pattern Part} :
    Matches (frontThen p q r) m ↔
      ∃ f : Front, f.Fits p q ∧ ∃ n, Matches r n ∧ m = f.labels ++ n := by
  simp only [frontThen, matches_seq_iff (p := qualifiers), matches_seq_iff (p := p),
    matches_seq_iff (p := scope), matches_seq_iff (p := q), matches_seq_iff (p := gaps .params),
    matches_iff_of_isOnly hp.isOnly, matches_iff_of_isOnly hq.isOnly,
    matches_iff_of_isOnly (show qualifiers.isOnly .lead = true by decide),
    matches_iff_of_isOnly (show scope.isOnly .scope = true by decide),
    matches_iff_of_isOnly (show (gaps .params).isOnly .params = true by decide)]
  constructor
  · rintro ⟨_, _, rfl, ⟨lead, hlead, rfl⟩, _, _, rfl, ⟨types, htypes, rfl⟩, _, _, rfl,
      ⟨scope, hscope, rfl⟩, _, _, rfl, ⟨name, hname, rfl⟩, _, n, rfl, ⟨gap, hgap, rfl⟩, hn⟩
    obtain ⟨indent, quals, hindent, hquals, rfl⟩ := accepts_qualifiers_iff.mp hlead
    refine ⟨⟨indent, quals, types, scope, name, gap, hindent, hquals, hp.accepts_star _ htypes,
      hscope, hq.isHarmless _ hname, accepts_gaps_iff.mp hgap⟩, ⟨htypes, hname⟩, n, hn, ?_⟩
    simp [Front.labels]
  · rintro ⟨f, hf, n, hn, rfl⟩
    refine ⟨_, _, ?_, ⟨_, accepts_qualifiers_iff.mpr ⟨_, _, f.isGap_of_mem_indent, f.accepts_quals,
      rfl⟩, rfl⟩, _, _, rfl, ⟨_, hf.types, rfl⟩, _, _, rfl, ⟨_, f.accepts_scope, rfl⟩, _, _, rfl,
      ⟨_, hf.name, rfl⟩, _, n, rfl, ⟨_, accepts_gaps_iff.mpr f.isGap_of_mem_gap, rfl⟩, hn⟩
    simp [Front.labels]

/-- A signature matches the labels of the lines with such an anatomy. -/
theorem matches_signature_iff (hp : IsTypes p) (hq : IsName q) :
    Matches (signature p q ending) m ↔ ∃ a : Anatomy, a.Fits p q ending ∧ m = a.labels := by
  have hassoc : Matches (signature p q ending) m ↔
      Matches (frontThen p q (seq parens (seq trailers ending.pattern))) m :=
    matches_seq_congr fun _ => matches_seq_congr fun _ => matches_seq_congr fun _ =>
      matches_seq_congr fun _ => matches_seq_assoc
  have hrest : (seq trailers ending.pattern).isOnly .rest = true := by
    cases ending <;> simp [isOnly, Ending.pattern, seqs, gaps, anything] <;> decide
  rw [hassoc, matches_frontThen_iff hp hq]
  simp only [matches_seq_iff (p := parens), matches_iff_of_isOnly hrest,
    matches_iff_of_isOnly (show parens.isOnly .params = true by decide), accepts_parens_iff]
  constructor
  · rintro ⟨f, hf, _, ⟨_, _, rfl, ⟨_, ⟨inner, hinner, rfl⟩, rfl⟩, tail, htail, rfl⟩, rfl⟩
    exact ⟨⟨f, inner, tail, hinner⟩, ⟨hf, htail⟩, by simp [Anatomy.labels]⟩
  · rintro ⟨a, ha, rfl⟩
    exact ⟨a.toFront, ha.toFits, _, ⟨_, _, rfl, ⟨_, ⟨a.inner, a.notMem_inner, rfl⟩, rfl⟩, a.tail,
      ha.tail, rfl⟩, by simp [Anatomy.labels]⟩

/-- An open signature matches the labels of a front and of what follows the parenthesis. -/
theorem matches_openSignature_iff (hq : IsName q) :
    Matches (openSignature q) m ↔ ∃ f : Front, f.Fits (plus typeToken) q ∧ ∃ inner : Text,
      Glyph.char ')' ∉ inner ∧ m = f.labels ++ (Glyph.char '(' :: inner).map (Prod.mk .params) := by
  have hopen : openSignature q = frontThen (plus typeToken) q openParen := rfl
  rw [hopen, matches_frontThen_iff isTypes_plus hq]
  simp only [matches_iff_of_isOnly (show openParen.isOnly .params = true by decide),
    accepts_openParen_iff]
  constructor
  · rintro ⟨f, hf, _, ⟨_, ⟨inner, hinner, rfl⟩, rfl⟩, rfl⟩
    exact ⟨f, hf, inner, hinner, rfl⟩
  · rintro ⟨f, hf, inner, hinner, rfl⟩
    exact ⟨f, hf, _, ⟨_, ⟨inner, hinner, rfl⟩, rfl⟩, rfl⟩

/-! ### What the parts are made of -/

/-- `holds` is an upper bound, so it can only tell what a text does not have. -/
theorem notMem_of_accepts {p : Pattern Part} {c : Char} (hc : p.holds c = false) {t : Text}
    (h : p.accepts t = true) : Glyph.char c ∉ t := by
  intro hmem
  have hholds := holds_of_accepts h hmem
  rw [Glyph.toChar_char, hc] at hholds
  cases hholds

/-- A glyph of a plain name or of the name of a destructor. -/
def isOwn (g : Glyph) : Bool := isWordGlyph g || g = .char '~'

theorem isOwn_eq_false_of_isTypeGap {g : Glyph} (h : CharClass.typeGap.accepts g.toChar = true) :
    isOwn g = false := by
  simp only [CharClass.accepts, Text.isGapChar, Bool.or_eq_true, beq_iff_eq] at h
  rcases h with (((((h | h) | h) | h) | h) | h) | h <;>
    rw [SearchPattern.eq_of_toChar_eq (by decide) h] <;> decide

theorem isTypeGap_of_isGap {g : Glyph} (h : Text.isGap g = true) :
    CharClass.typeGap.accepts g.toChar = true := by
  have hgap : Text.isGapChar g.toChar = true := h
  simp [CharClass.accepts, hgap]

theorem isNameChar_eq_false_of_isTypeGap {c : Char} (h : CharClass.typeGap.accepts c = true) :
    isNameChar c = false := by
  simp only [CharClass.accepts, Text.isGapChar, Bool.or_eq_true, beq_iff_eq] at h
  rcases h with (((((rfl | rfl) | rfl) | rfl) | rfl) | rfl) | rfl <;> decide

theorem isTypeGap_of_ends_quals {c : Char} (h : qualifierRun.ends c = true) :
    CharClass.typeGap.accepts c = true := by
  have hgap : Text.isGapChar c = true := by
    simpa [qualifierRun, qualifier, plus, ends, nullable, CharClass.accepts] using h
  simp [CharClass.accepts, hgap]

theorem isTypeGap_of_ends_types {c : Char} (h : (star typeToken).ends c = true) :
    CharClass.typeGap.accepts c = true := by
  simpa [typeToken, seqs, plus, ends, nullable] using h

theorem eq_of_ends_scope {c : Char} (h : scope.ends c = true) : c = ':' := by
  have hcolons : (colons .scope : Pattern Part) =
      .seq (.one (.exactly ':') .scope) (.one (.exactly ':') .scope) := rfl
  simpa [scope, hcolons, ends, nullable, CharClass.accepts] using h

theorem isNameChar_of_holds_scope {c : Char} (h : scope.holds c = true) : isNameChar c = true := by
  have hcolons : (colons .scope : Pattern Part) =
      .seq (.one (.exactly ':') .scope) (.one (.exactly ':') .scope) := rfl
  simp only [scope, hcolons, identifier, holds, CharClass.accepts, Bool.or_eq_true, or_self,
    beq_iff_eq] at h
  rcases h with (h | h) | rfl
  · exact isNameChar_of_isWordChar (isWordChar_of_isWordStart h)
  · exact isNameChar_of_isWordChar h
  · decide

/-- What trailers and gaps are made of. -/
def isTrailing (g : Glyph) : Bool := Text.isGap g || isWordGlyph g

theorem isTrailing_of_accepts_trailers {t : Text} (h : trailers.accepts t = true) :
    ∀ g ∈ t, isTrailing g = true := by
  intro g hg
  have hholds := holds_of_accepts h hg
  rw [trailers_eq, holds, holds, Bool.or_eq_true] at hholds
  rw [isTrailing, Bool.or_eq_true]
  rcases hholds with hgap | hword
  · exact .inl hgap
  · obtain ⟨w, hw, a, ha, heq⟩ := exists_of_holds_oneOf hword
    exact .inr (show isWordChar g.toChar = true from heq ▸ isWordChar_of_mem_trailerWords w hw a ha)

/-- A stray byte would pass for the replacement character, which `hc` excludes. -/
theorem accepts_tail_mark_iff {c : Char} (hc : c ≠ '\ufffd') {t : Text} :
    (seq trailers (Ending.mark c).pattern).accepts t = true ↔ ∃ trail gap rest : Text,
      trailers.accepts trail = true ∧ (∀ g ∈ gap, Text.isGap g = true) ∧
        t = trail ++ gap ++ .char c :: rest := by
  have hmark := fun u : Text => accepts_exactly_iff (l := .rest) (t := u) hc
  have hany : ∀ u : Text, (anything Part.rest).accepts u = true := by
    intro u
    exact accepts_star_one_iff.mpr fun g _ => rfl
  simp only [Ending.pattern, seqs, accepts_seq_iff, accepts_gaps_iff, hmark, hany, and_true]
  constructor
  · rintro ⟨trail, _, rfl, htrail, gap, _, rfl, hgap, _, rest, rfl, rfl⟩
    exact ⟨trail, gap, rest, htrail, hgap, by simp⟩
  · rintro ⟨trail, gap, rest, htrail, hgap, rfl⟩
    exact ⟨trail, gap ++ .char c :: rest, by simp, htrail, gap, _, rfl, hgap, [.char c], rest, rfl,
      rfl⟩

theorem accepts_tail_eol_iff {t : Text} :
    (seq trailers Ending.eol.pattern).accepts t = true ↔ ∃ trail gap : Text,
      trailers.accepts trail = true ∧ (∀ g ∈ gap, Text.isGap g = true) ∧ t = trail ++ gap := by
  simp only [Ending.pattern, accepts_seq_iff, accepts_gaps_iff]
  constructor
  · rintro ⟨trail, gap, rfl, htrail, hgap⟩
    exact ⟨trail, gap, htrail, hgap, rfl⟩
  · rintro ⟨trail, gap, htrail, hgap, rfl⟩
    exact ⟨trail, gap, rfl, htrail, hgap⟩

theorem isTrailing_append {trail gap : Text} (htrail : trailers.accepts trail = true)
    (hgap : ∀ g ∈ gap, Text.isGap g = true) : ∀ g ∈ trail ++ gap, isTrailing g = true := by
  refine List.forall_mem_append.mpr ⟨isTrailing_of_accepts_trailers htrail, fun g hg => ?_⟩
  rw [isTrailing, hgap g hg, Bool.true_or]

/-- A tail that ends the line has no mark in it. -/
theorem isTrailing_of_accepts_tail_eol {t : Text}
    (h : (seq trailers Ending.eol.pattern).accepts t = true) : ∀ g ∈ t, isTrailing g = true := by
  obtain ⟨trail, gap, htrail, hgap, rfl⟩ := accepts_tail_eol_iff.mp h
  exact isTrailing_append htrail hgap

/-- The first glyph of a tail that is neither of a trailer nor a gap is its mark. -/
theorem head?_dropWhile_tail_mark {c : Char} (hc : isTrailing (.char c) = false)
    (hc' : c ≠ '\ufffd') {t : Text}
    (h : (seq trailers (Ending.mark c).pattern).accepts t = true) :
    (t.dropWhile isTrailing).head? = some (.char c) := by
  obtain ⟨trail, gap, rest, htrail, hgap, rfl⟩ := (accepts_tail_mark_iff hc').mp h
  rw [List.dropWhile_append_of_pos (isTrailing_append htrail hgap),
    List.dropWhile_cons_of_neg (by simp [hc])]
  rfl

namespace Front

variable (f : Front)

/-- So the first parenthesis of a line is that of its parameters. -/
theorem notMem_text {c : Char} (hc : c = '(' ∨ c = ')') : Glyph.char c ∉ f.text := by
  have hquals : qualifierRun.holds c = false := by rcases hc with rfl | rfl <;> decide
  have htypes : (star typeToken).holds c = false := by rcases hc with rfl | rfl <;> decide
  have hscope : Line.scope.holds c = false := by rcases hc with rfl | rfl <;> decide
  have hgap : Text.isGap (.char c) = false := by rcases hc with rfl | rfl <;> decide
  have hname : isNameChar c = false := by rcases hc with rfl | rfl <;> decide
  simp only [text, stem, List.mem_append, not_or]
  refine ⟨⟨⟨⟨⟨fun h => ?_, notMem_of_accepts hquals f.accepts_quals⟩,
    notMem_of_accepts htypes f.accepts_types⟩, notMem_of_accepts hscope f.accepts_scope⟩,
    fun h => ?_⟩, fun h => ?_⟩
  · simp [f.isGap_of_mem_indent _ h] at hgap
  · have := (isHarmless_iff.mp f.isHarmless_name).2 _ h
    simp [hname] at this
  · simp [f.isGap_of_mem_gap _ h] at hgap

/-- The stem ends where a name could not go on. -/
theorem isOwn_getLast?_stem : ∀ g ∈ f.stem.getLast?, isOwn g = false := by
  refine forall_getLast?_append (forall_getLast?_append (forall_getLast?_append ?_ ?_) ?_) ?_
  · intro g hg
    have hgap := f.isGap_of_mem_indent g (List.mem_of_getLast? hg)
    exact isOwn_eq_false_of_isTypeGap (isTypeGap_of_isGap hgap)
  · intro g hg
    exact isOwn_eq_false_of_isTypeGap (isTypeGap_of_ends_quals (ends_of_accepts f.accepts_quals hg))
  · intro g hg
    exact isOwn_eq_false_of_isTypeGap (isTypeGap_of_ends_types (ends_of_accepts f.accepts_types hg))
  · intro g hg
    have hcolon := eq_of_ends_scope (ends_of_accepts f.accepts_scope hg)
    rw [SearchPattern.eq_of_toChar_eq (by decide) hcolon]
    decide

variable {f} {f' : Front}

theorem isNameChar_of_mem_name {g : Glyph} (h : g ∈ f.name) : isNameChar g.toChar = true :=
  (isHarmless_iff.mp f.isHarmless_name).2 g h

theorem isGap_getLast?_name (f : Front) (u : Text) :
    ∀ g ∈ (u ++ f.name).getLast?, Text.isGap g = false := by
  intro g hg
  rw [List.getLast?_append_of_ne_nil _ f.isHarmless_name.ne_nil] at hg
  have hname := isNameChar_of_mem_name (List.mem_of_getLast? hg)
  rw [← Bool.not_eq_true]
  intro hgap
  rw [isNameChar_eq_false_of_isTypeGap (isTypeGap_of_isGap hgap)] at hname
  cases hname

/-- The gap is found again as the blanks at the end. -/
theorem gap_eq_of_text_eq (h : f.text = f'.text) :
    f.stem ++ f.name = f'.stem ++ f'.name ∧ f.gap = f'.gap :=
  append_inj_of_end h (f.isGap_getLast?_name _) f.isGap_of_mem_gap (f'.isGap_getLast?_name _)
    f'.isGap_of_mem_gap

/-- The name is found again as the longest that ends there. -/
theorem name_eq_of_text_eq (h : f.text = f'.text) (hf : ∀ g ∈ f.name, isOwn g = true)
    (hf' : ∀ g ∈ f'.name, isOwn g = true) : f.stem = f'.stem ∧ f.name = f'.name :=
  append_inj_of_end (gap_eq_of_text_eq h).1 f.isOwn_getLast?_stem hf f'.isOwn_getLast?_stem hf'

/-- Both fronts end at the first parenthesis of the line. -/
theorem text_inj {u v : Text} (h : f.text ++ .char '(' :: u = f'.text ++ .char '(' :: v) :
    f.text = f'.text ∧ u = v := by
  have hcut := Text.cut?_append_cons (f.notMem_text (.inl rfl)) u
  rw [h, Text.cut?_append_cons (f'.notMem_text (.inl rfl)) v] at hcut
  obtain ⟨htext, hrest⟩ := Prod.mk.inj (Option.some.inj hcut)
  exact ⟨htext.symm, hrest.symm⟩

/-- Once the name is known, so is what stands before it. -/
theorem stem_eq_of_append {stem u v : Text} (hstem : Glyph.char '(' ∉ stem)
    (h : f.text ++ .char '(' :: u = stem ++ f.name ++ .char '(' :: v) : f.stem = stem ∧ u = v := by
  have hname : Glyph.char '(' ∉ stem ++ f.name := by
    rw [List.mem_append, not_or]
    refine ⟨hstem, fun hmem => ?_⟩
    exact absurd (isNameChar_of_mem_name hmem) (by decide)
  have hcut := Text.cut?_append_cons (f.notMem_text (.inl rfl)) u
  rw [h, Text.cut?_append_cons hname v] at hcut
  obtain ⟨htext, hrest⟩ := Prod.mk.inj (Option.some.inj hcut)
  have hgap : stem ++ f.name ++ [] = f.text := by rw [List.append_nil, htext]
  obtain ⟨hfront, -⟩ := append_inj_of_end hgap (f.isGap_getLast?_name _) (by simp)
    (f.isGap_getLast?_name _) f.isGap_of_mem_gap
  exact ⟨(List.append_cancel_right hfront).symm, hrest.symm⟩

end Front

namespace Anatomy

variable {a b : Anatomy}

/-- The parentheses cut a line in one way. -/
theorem text_inj (h : a.text = b.text) :
    a.toFront.text = b.toFront.text ∧ a.inner = b.inner ∧ a.tail = b.tail := by
  obtain ⟨hfront, hrest⟩ := Front.text_inj h
  have hcut := Text.cut?_append_cons a.notMem_inner a.tail
  rw [hrest, Text.cut?_append_cons b.notMem_inner b.tail] at hcut
  obtain ⟨hinner, htail⟩ := Prod.mk.inj (Option.some.inj hcut)
  exact ⟨hfront, hinner.symm, htail.symm⟩

/-- The parameters hold a second parenthesis if there is one between the first and the last. -/
theorem hasInnerParen_iff (a : Anatomy) :
    hasInnerParen (labelled .params a.labels) = true ↔ Glyph.char '(' ∈ a.inner := by
  have hgap : a.gap.countP (fun g => decide (g = .char '(')) = 0 := by
    rw [List.countP_eq_zero]
    intro g hg hparen
    have hisGap := a.isGap_of_mem_gap g hg
    rw [of_decide_eq_true hparen] at hisGap
    exact absurd hisGap (by decide)
  simp [hasInnerParen, hgap]

end Anatomy

/-! ### The types that are found -/

theorem accepts_qualifier_iff {t : Text} :
    qualifier.accepts t = true ↔
      ∃ w ∈ qualifierWords, ∃ g gs, t = w ++ g :: gs ∧ ∀ g' ∈ g :: gs, Text.isGap g' = true := by
  rw [qualifier, accepts_seq_iff]
  constructor
  · rintro ⟨w, gs, rfl, hw, hgs⟩
    obtain ⟨w', hw', hword⟩ := (accepts_oneOf_iff (by decide)).mp hw
    obtain rfl := (accepts_word_iff_of_isClear
      (isClear_of_isHarmless (isHarmless_of_mem_qualifierWords hw'))).mp hword
    obtain ⟨hne, hgs⟩ := (accepts_plus_iff rfl).mp hgs
    obtain ⟨g, gs, rfl⟩ := List.exists_cons_of_ne_nil hne
    exact ⟨w, hw', g, gs, rfl, accepts_star_one_iff.mp hgs⟩
  · rintro ⟨w, hw, g, gs, rfl, hgs⟩
    refine ⟨w, g :: gs, rfl, (accepts_oneOf_iff (by decide)).mpr ⟨w, hw, accepts_word_iff.mpr rfl⟩,
      (accepts_plus_iff rfl).mpr ⟨by simp, accepts_star_one_iff.mpr hgs⟩⟩

theorem leads_gaps {gs : Text} (hgs : ∀ g ∈ gs, Text.isGap g = true) :
    Leads qualifiers (gs.map (Prod.mk .lead)) qualifiers := by
  induction gs with
  | nil => exact .nil
  | cons g gs ih =>
    obtain ⟨hg, hgs⟩ := List.forall_mem_cons.mp hgs
    have hgap : Text.isGapChar g.toChar = true := hg
    refine .cons ?_ (ih hgs)
    simp [qualifiers, gaps, residuals, CharClass.accepts, hgap, after]

theorem leads_qualifierWord {w : Text} (hw : w ∈ qualifierWords) :
    Leads qualifiers (w.map (Prod.mk .lead)) (seq (plus (one .gap .lead)) qualifierRun) := by
  simp only [qualifierWords, List.mem_cons, List.not_mem_nil, or_false] at hw
  rcases hw with rfl | rfl | rfl | rfl | rfl <;>
    repeat (first | exact .nil | refine .cons rfl ?_)

/-- After a qualifier and its gap the matcher is where it was before. -/
theorem leads_quals {t : Text} (ht : qualifierRun.accepts t = true) :
    Leads qualifiers (t.map (Prod.mk .lead)) qualifiers := by
  obtain ⟨parts, hparts, rfl⟩ := accepts_star_iff.mp ht
  clear ht
  induction parts with
  | nil => exact .nil
  | cons s parts ih =>
    obtain ⟨hs, hrest⟩ := List.forall_mem_cons.mp hparts
    obtain ⟨w, hw, g, gs, rfl, hgs⟩ := accepts_qualifier_iff.mp hs
    obtain ⟨hg, hgs⟩ := List.forall_mem_cons.mp hgs
    have hgap : Text.isGapChar g.toChar = true := hg
    have hnext : ((seq (plus (one .gap .lead)) qualifierRun).residuals g.toChar).head? =
        some (Part.lead, qualifiers) := by
      simp [plus, qualifiers_eq, gaps, residuals, CharClass.accepts, hgap, after]
    rw [List.flatten_cons, List.map_append, List.map_append, List.map_cons]
    exact ((leads_qualifierWord hw).append (.cons hnext (leads_gaps hgs))).append (ih hrest)

theorem leads_lead (f : Front) :
    Leads qualifiers ((f.indent ++ f.quals).map (Prod.mk .lead)) qualifiers := by
  rw [List.map_append]
  exact (leads_gaps f.isGap_of_mem_indent).append (leads_quals f.accepts_quals)

theorem accepts_signature_iff (hp : IsTypes p) (hq : IsName q) {t : Text} :
    (signature p q ending).accepts t = true ↔ ∃ a : Anatomy, a.Fits p q ending ∧ a.text = t := by
  simp only [accepts_iff, matches_signature_iff hp hq]
  constructor
  · rintro ⟨_, ⟨a, ha, rfl⟩, rfl⟩
    exact ⟨a, ha, a.map_snd_labels.symm⟩
  · rintro ⟨a, ha, rfl⟩
    exact ⟨_, ⟨a, ha, rfl⟩, a.map_snd_labels⟩

theorem exists_anatomy_of_label? (hp : IsTypes p) (hq : IsName q) {t : Text}
    (h : (signature p q ending).label? t = some m) :
    ∃ a : Anatomy, a.Fits p q ending ∧ a.text = t ∧ m = a.labels := by
  obtain ⟨hm, rfl⟩ := matches_of_label? h
  obtain ⟨a, ha, rfl⟩ := (matches_signature_iff hp hq).mp hm
  exact ⟨a, ha, a.map_snd_labels.symm, rfl⟩

theorem accepts_word_name_iff {name t : Text} (hname : IsHarmless name) :
    (word Part.name name).accepts t = true ↔ t = name :=
  accepts_word_iff_of_isClear (isClear_of_isHarmless hname)

theorem isName_word {name : Text} (hname : IsHarmless name) : IsName (word .name name) := by
  refine ⟨isOnly_word _ _, fun t ht => ?_⟩
  rwa [(accepts_word_name_iff hname).mp ht]

/-- A pattern for names without scopes. -/
structure IsOwnName (q : Pattern Part) : Prop extends IsName q where
  isOwn : ∀ t, q.accepts t = true → ∀ g ∈ t, isOwn g = true

theorem isWordGlyph_of_isIdentifier {name : Text} (hname : IsIdentifier name) :
    ∀ g ∈ name, isWordGlyph g = true := by
  obtain ⟨c, cs, hc, hcs, rfl⟩ := hname
  intro g hg
  obtain ⟨d, hd, rfl⟩ := List.mem_map.mp hg
  rcases List.mem_cons.mp hd with rfl | hd
  · exact isWordChar_of_isWordStart hc
  · exact hcs d hd

theorem isOwnName_word {name : Text} (hname : IsIdentifier name) :
    IsOwnName (word .name name) := by
  refine ⟨isName_word (isHarmless_of_isIdentifier hname), fun t ht g hg => ?_⟩
  rw [(accepts_word_name_iff (isHarmless_of_isIdentifier hname)).mp ht] at hg
  rw [isOwn, isWordGlyph_of_isIdentifier hname g hg, Bool.true_or]

/-- If a line can be read without types, then no types are found in it: all that could be types is
taken for qualifiers first. -/
theorem types_eq_nil_of_label? (hq : IsOwnName q) {a b : Anatomy}
    (ha : (signature (star typeToken) q ending).label? b.text = some a.labels)
    (hb : b.Fits .empty q ending) : a.types = [] := by
  have hnone : b.types = [] := accepts_empty_iff.mp hb.types
  -- What follows the qualifiers of `b` is a signature as well, so it has a match.
  let b₀ : Anatomy := { b with
    indent := []
    quals := []
    isGap_of_mem_indent := by simp
    accepts_quals := accepts_star_iff.mpr ⟨[], by simp, rfl⟩ }
  have htext : b.text = (b.indent ++ b.quals) ++ b₀.text := by
    simp [b₀, Anatomy.text, Front.text, Front.stem]
  have hb₀ : (signature (star typeToken) q ending).accepts b₀.text = true :=
    (accepts_signature_iff isTypes_star hq.toIsName).mpr
      ⟨b₀, ⟨⟨b.accepts_types, hb.name⟩, hb.tail⟩, rfl⟩
  obtain ⟨n, hn⟩ := Option.isSome_iff_exists.mp hb₀
  obtain ⟨c, hc, hctext, rfl⟩ := exists_anatomy_of_label? isTypes_star hq.toIsName hn
  have hlabels : a.labels = (b.indent ++ b.quals).map (Prod.mk .lead) ++ c.labels := by
    have hleads : Leads (signature (star typeToken) q ending) _
      (signature (star typeToken) q ending) := (leads_lead b.toFront).after _
    have hlabel := hleads.label?_eq hn
    rw [List.map_map, Function.comp_def, List.map_id', ← htext, ha] at hlabel
    exact Option.some.inj hlabel
  have hac : a.types = c.types := by
    rw [← a.labelled_types_labels, hlabels, labelled_append, labelled_map_of_ne (by decide),
      List.nil_append, c.labelled_types_labels]
  -- Its types would end in a gap, and there is none in the scope.
  have hstem : c.stem = b₀.stem :=
    (Front.name_eq_of_text_eq (Anatomy.text_inj hctext).1 (hq.isOwn _ hc.name)
      (hq.isOwn _ hb.name)).1
  rw [hac]
  rcases List.eq_nil_or_concat c.types with hnil | ⟨types, g, htypes⟩
  · exact hnil
  · have hg : g ∈ b.scope := by
      have hmem : g ∈ c.stem := by simp [Front.stem, htypes]
      rw [hstem] at hmem
      simpa [b₀, Front.stem, hnone] using hmem
    have hlast : g ∈ c.types.getLast? := by simp [htypes]
    have hgap := isTypeGap_of_ends_types (ends_of_accepts c.accepts_types hlast)
    have hname := isNameChar_of_holds_scope (holds_of_accepts b.accepts_scope hg)
    rw [isNameChar_eq_false_of_isTypeGap hgap] at hname
    cases hname

end Line

end CallerTree
