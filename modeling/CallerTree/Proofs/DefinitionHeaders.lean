import CallerTree.Proofs.Statements

/-!
# Definitions and their headers

Two parts of the program recognise the line on which a function starts. The classification knows the
name, sees one line without the blanks around it and refuses keywords that start a statement. The
scan for the function around a line finds the name, sees the blanks and the next lines and refuses
names that are keywords. Here the two are compared.

## Where they differ

Both refuse a signature without types whose parameters hold a parenthesis, since it is a call. At
the end of a line, however, the classification asks for types, and a qualifier will do; the scan
takes the same qualifier for a qualifier and refuses the line. The other way round, a signature
without types at the end of a line is a call for the classification, and a header for the scan if a
brace follows.

## Main definitions

* `Line.HasPlainEnds`, `Line.HasFrame` — lines that trimming does not change for the patterns
* `Line.IsBareCall`, `Line.IsBareHeader` — signatures without types
* `Line.IsKeywordLine`, `Line.IsKeywordHeader` — lines that start with a statement keyword

## Main results

* `Line.headerWithEnding?_eq_some_iff`, `Line.headerName?_eq_some_iff` — the headers of a name
* `Line.definitions_are_headers_iff` — definitions as headers
* `Line.calls_are_headers_iff` — calls as headers
-/

namespace CallerTree

namespace Line

open Pattern FunctionName

variable {p q : Pattern Part} {e : Ending} {line name : Text}

/-! ### A signature between blanks -/

theorem isNameChar_of_starts_quals {c : Char} (h : qualifierRun.starts c = true) :
    isNameChar c = true := by
  have hnullable : (oneOf Part.lead qualifierWords).nullable = false := by decide
  have hword : (oneOf Part.lead qualifierWords).starts c = true := by
    simpa [qualifierRun, qualifier, starts, hnullable] using h
  obtain ⟨w, hw, g, hg, rfl⟩ := exists_of_holds_oneOf (holds_of_starts hword)
  exact (isHarmless_iff.mp (isHarmless_of_mem_qualifierWords hw)).2 g hg

theorem isNameChar_of_starts_types {c : Char} (h : (star typeToken).starts c = true) :
    isNameChar c = true := by
  have hstart : isWordStart c = true := by
    simpa [typeToken, seqs, identifier, starts, nullable, CharClass.accepts] using h
  exact isNameChar_of_isWordChar (isWordChar_of_isWordStart hstart)

/-- Behind its indentation a signature starts as a name does. -/
theorem Front.exists_head? (f : Front) (u : Text) :
    ∃ g ∈ (f.quals ++ (f.types ++ (f.scope ++ (f.name ++ u)))).head?,
      isNameChar g.toChar = true := by
  refine exists_head?_append (fun g hg => ?_) (exists_head?_append (fun g hg => ?_)
    (exists_head?_append (fun g hg => ?_) (exists_head?_of_isHarmless f.isHarmless_name u)))
  · exact isNameChar_of_starts_quals (starts_of_accepts f.accepts_quals hg)
  · exact isNameChar_of_starts_types (starts_of_accepts f.accepts_types hg)
  · exact isNameChar_of_holds_scope (holds_of_accepts f.accepts_scope (List.mem_of_mem_head? hg))

theorem isGap_of_mem_nil : ∀ g ∈ ([] : Text), Text.isGap g = true := List.forall_mem_nil _

/-- What stands before the parenthesis, with another indentation. -/
def Front.reindent (f : Front) (indent : Text) (h : ∀ g ∈ indent, Text.isGap g = true) : Front where
  indent := indent
  quals := f.quals
  types := f.types
  scope := f.scope
  name := f.name
  gap := f.gap
  isGap_of_mem_indent := h
  accepts_quals := f.accepts_quals
  accepts_types := f.accepts_types
  accepts_scope := f.accepts_scope
  isHarmless_name := f.isHarmless_name
  isGap_of_mem_gap := f.isGap_of_mem_gap

namespace Anatomy

/-- The signature with another indentation and another tail. -/
def within (a : Anatomy) (indent tail : Text) (h : ∀ g ∈ indent, Text.isGap g = true) :
    Anatomy where
  toFront := a.toFront.reindent indent h
  inner := a.inner
  tail := tail
  notMem_inner := a.notMem_inner

/-- The signature without the blanks around it. -/
def trimmed (a : Anatomy) : Anatomy :=
  a.within [] (Text.dropEndWhile Text.isBlank a.tail) isGap_of_mem_nil

theorem text_trimmed (a : Anatomy) : a.trimmed.text = a.text.trim := by
  have hindent : ∀ g ∈ a.indent, Text.isBlank g = true := fun g hg =>
    Text.isBlankChar_of_isGapChar (a.isGap_of_mem_indent g hg)
  have hhead := isBlank_head?_of_isNameChar (a.exists_head? (a.gap ++ .char '(' :: a.inner))
  have htrim := Text.trim_append (c := .char ')') (w := a.tail) hindent hhead (by decide)
  simpa [trimmed, within, Front.reindent, text, Front.text, Front.stem] using htrim.symm

theorem isGap_of_mem_append (a : Anatomy) {before : Text} (h : ∀ g ∈ before, Text.isGap g = true) :
    ∀ g ∈ before ++ a.indent, Text.isGap g = true :=
  List.forall_mem_append.mpr ⟨h, a.isGap_of_mem_indent⟩

/-- The signature with more around it. -/
def between (a : Anatomy) (before after : Text) (h : ∀ g ∈ before, Text.isGap g = true) : Anatomy :=
  a.within (before ++ a.indent) (a.tail ++ after) (a.isGap_of_mem_append h)

theorem text_between (a : Anatomy) {before after : Text} (h : ∀ g ∈ before, Text.isGap g = true) :
    (a.between before after h).text = before ++ a.text ++ after := by
  simp [between, within, Front.reindent, text, Front.text, Front.stem]

end Anatomy

/-- Whether more text may follow a line with this ending. -/
def Ending.Allows (after : Text) : Ending → Prop
  | .mark _ => True
  | .eol => ∀ g ∈ after, Text.isGap g = true

/-- An ending that trimming does not take away. -/
def Ending.IsVisible : Ending → Prop
  | .mark c => Text.isBlank (.char c) = false ∧ c ≠ '\ufffd'
  | .eol => True

theorem isBlank_getLast?_trailers {t : Text} (h : trailers.accepts t = true) :
    ∀ g ∈ t.getLast?, Text.isBlank g = false := by
  have hnullable : (oneOf Part.rest trailerWords).nullable = false := by decide
  intro g hg
  have hword : (oneOf Part.rest trailerWords).ends g.toChar = true := by
    simpa [trailers_eq, ends, hnullable] using ends_of_accepts h hg
  obtain ⟨w, hw, a, ha, heq⟩ := exists_of_holds_oneOf (holds_of_ends hword)
  have hchar : isWordChar g.toChar = true := heq ▸ isWordChar_of_mem_trailerWords w hw a ha
  exact isBlank_eq_false_of_isNameChar (isNameChar_of_isWordChar hchar)

theorem accepts_tail_trimmed (he : e.IsVisible) {t : Text}
    (h : (seq trailers e.pattern).accepts t = true) :
    (seq trailers e.pattern).accepts (Text.dropEndWhile Text.isBlank t) = true := by
  cases e with
  | mark c =>
    obtain ⟨hc, hc'⟩ := he
    obtain ⟨trail, gap, rest, htrail, hgap, rfl⟩ := (accepts_tail_mark_iff hc').mp h
    rw [Text.dropEndWhile_append_cons hc]
    exact (accepts_tail_mark_iff hc').mpr ⟨trail, gap, _, htrail, hgap, rfl⟩
  | eol =>
    obtain ⟨trail, gap, htrail, hgap, rfl⟩ := accepts_tail_eol_iff.mp h
    have hblank : ∀ g ∈ gap, Text.isBlank g = true := fun g hg =>
      Text.isBlankChar_of_isGapChar (hgap g hg)
    rw [Text.dropEndWhile_append hblank (isBlank_getLast?_trailers htrail)]
    exact accepts_tail_eol_iff.mpr ⟨trail, [], htrail, by simp, by simp⟩

/-- What may follow depends on the ending: behind a mark anything may, at the end of a line blanks.
-/
theorem accepts_tail_append (he : e.IsVisible) {t after : Text} (hafter : e.Allows after)
    (h : (seq trailers e.pattern).accepts t = true) :
    (seq trailers e.pattern).accepts (t ++ after) = true := by
  cases e with
  | mark c =>
    obtain ⟨trail, gap, rest, htrail, hgap, rfl⟩ := (accepts_tail_mark_iff he.2).mp h
    exact (accepts_tail_mark_iff he.2).mpr ⟨trail, gap, rest ++ after, htrail, hgap, by simp⟩
  | eol =>
    obtain ⟨trail, gap, htrail, hgap, rfl⟩ := accepts_tail_eol_iff.mp h
    exact accepts_tail_eol_iff.mpr ⟨trail, gap ++ after, htrail,
      List.forall_mem_append.mpr ⟨hgap, hafter⟩, by simp⟩

/-- What trimming takes from a line is nothing that a signature with this ending would miss. -/
def HasFrame (e : Ending) (line : Text) : Prop :=
  ∃ before after : Text, line = before ++ line.trim ++ after ∧
    (∀ g ∈ before, Text.isGap g = true) ∧ e.Allows after

theorem Anatomy.Fits.hasFrame {a : Anatomy} (h : a.Fits p q e) : HasFrame e a.text := by
  refine ⟨a.indent, a.tail.rtakeWhile Text.isBlank, ?_, a.isGap_of_mem_indent, ?_⟩
  · have htail := Text.eq_dropEndWhile_append Text.isBlank a.tail
    rw [← a.text_trimmed]
    simp only [Anatomy.trimmed, Anatomy.within, Front.reindent, Anatomy.text, Front.text,
      Front.stem, List.nil_append, List.append_assoc, List.cons_append, ← htail]
  · cases e with
    | mark c => trivial
    | eol =>
      intro g hg
      have hblank : Text.isBlank g = true := List.mem_takeWhile_imp (List.mem_reverse.mp hg)
      have hmem : g ∈ a.tail := by
        rw [Text.eq_dropEndWhile_append Text.isBlank a.tail]
        exact List.mem_append_right _ hg
      rcases Bool.or_eq_true_iff.mp (isTrailing_of_accepts_tail_eol h.tail g hmem) with hgap | hword
      · exact hgap
      · rw [isBlank_eq_false_of_isNameChar (isNameChar_of_isWordChar hword)] at hblank
        cases hblank

theorem Anatomy.Fits.trimmed (he : e.IsVisible) {a : Anatomy} (h : a.Fits p q e) :
    a.trimmed.Fits p q e :=
  ⟨⟨h.types, h.name⟩, accepts_tail_trimmed he h.tail⟩

theorem Anatomy.Fits.between (he : e.IsVisible) {a : Anatomy} (h : a.Fits p q e)
    {before after : Text} (hbefore : ∀ g ∈ before, Text.isGap g = true) (hafter : e.Allows after) :
    (a.between before after hbefore).Fits p q e :=
  ⟨⟨h.types, h.name⟩, accepts_tail_append he hafter h.tail⟩

/-- The anatomies of a trimmed line are those of the line. -/
theorem exists_anatomy_trim_iff (he : e.IsVisible) (hframe : HasFrame e line) {P : Text → Prop} :
    (∃ a : Anatomy, a.Fits p q e ∧ a.text = line.trim ∧ P a.inner) ↔
      ∃ a : Anatomy, a.Fits p q e ∧ a.text = line ∧ P a.inner := by
  constructor
  · rintro ⟨a, ha, htext, hinner⟩
    obtain ⟨before, after, hline, hbefore, hafter⟩ := hframe
    refine ⟨a.between before after hbefore, ha.between he hbefore hafter, ?_, hinner⟩
    rw [a.text_between, htext, ← hline]
  · rintro ⟨a, ha, rfl, hinner⟩
    exact ⟨a.trimmed, ha.trimmed he, a.text_trimmed, hinner⟩

theorem hasFrame_of_accepts (hp : IsTypes p) (hq : IsName q)
    (h : (signature p q e).accepts line = true) : HasFrame e line := by
  obtain ⟨a, ha, rfl⟩ := (accepts_signature_iff hp hq).mp h
  exact ha.hasFrame

theorem accepts_trim_iff (he : e.IsVisible) (hp : IsTypes p) (hq : IsName q)
    (hframe : HasFrame e line) :
    (signature p q e).accepts line.trim = true ↔ (signature p q e).accepts line = true := by
  rw [accepts_signature_iff hp hq, accepts_signature_iff hp hq]
  simpa using exists_anatomy_trim_iff (P := fun _ => True) he hframe

/-- The blanks at both ends of the line are blanks for the patterns as well. -/
structure HasPlainEnds (line : Text) : Prop where
  front : ∀ g ∈ line.takeWhile Text.isBlank, Text.isGap g = true
  back : ∀ g ∈ line.rtakeWhile Text.isBlank, Text.isGap g = true

theorem HasPlainEnds.hasFrame (h : HasPlainEnds line) (e : Ending) : HasFrame e line := by
  refine ⟨_, _, Text.eq_append_trim line, h.front, ?_⟩
  cases e with
  | mark c => trivial
  | eol =>
    intro g hg
    refine h.back g ?_
    -- Dropping from the front can only shorten the run at the end.
    have hmem := List.mem_reverse.mp hg
    rw [List.rtakeWhile, List.mem_reverse, ← List.takeWhile_append_dropWhile (p := Text.isBlank)
      (l := line), List.reverse_append, List.takeWhile_append]
    split
    · exact List.mem_append_left _ ((List.takeWhile_sublist _).subset hmem)
    · exact hmem

/-! ### Signatures without types -/

theorem isOwnName_anyName : IsOwnName anyName := by
  have hown : ∀ t, anyName.accepts t = true → t ≠ [] ∧ ∀ g ∈ t, isOwn g = true := by
    intro t ht
    obtain ⟨tilde, last, htilde, hlast, rfl⟩ := accepts_anyName_iff.mp ht
    refine ⟨by simp [(isHarmless_of_isIdentifier hlast).ne_nil], ?_⟩
    refine List.forall_mem_append.mpr ⟨?_, fun g hg => ?_⟩
    · rcases htilde with rfl | rfl <;> decide
    · rw [isOwn, isWordGlyph_of_isIdentifier hlast g hg, Bool.true_or]
  refine ⟨⟨by decide, fun t ht => isHarmless_iff.mpr ⟨(hown t ht).1, fun g hg => ?_⟩⟩,
    fun t ht => (hown t ht).2⟩
  rcases Bool.or_eq_true_iff.mp ((hown t ht).2 g hg) with hword | htilde
  · exact isNameChar_of_isWordChar hword
  · rw [of_decide_eq_true htilde]
    decide

/-- The same line has the same name under both patterns. -/
theorem Anatomy.name_eq {a b : Anatomy} {p' q' : Pattern Part} {e' : Ending} (hq : IsOwnName q)
    (hq' : IsOwnName q') (ha : a.Fits p q e) (hb : b.Fits p' q' e') (h : a.text = b.text) :
    a.name = b.name :=
  (Front.name_eq_of_text_eq (Anatomy.text_inj h).1 (hq.isOwn _ ha.name) (hq'.isOwn _ hb.name)).2

theorem isAllBlank_types_iff {t : Text} (h : (star typeToken).accepts t = true) :
    t.isAllBlank = true ↔ t = [] := by
  cases t with
  | nil => simp [Text.isAllBlank]
  | cons g t =>
    have hname := isNameChar_of_starts_types (starts_of_accepts h (g := g) rfl)
    simp [Text.isAllBlank, isBlank_eq_false_of_isNameChar hname]

/-- What is found is rejected if the line can be read without types and its parameters hold a
parenthesis. -/
theorem isUntypedCall_iff (hq : IsOwnName q) {m : List (Part × Glyph)}
    (hm : (signature (star typeToken) q e).label? line = some m) :
    isUntypedCall m = true ↔
      ∃ a : Anatomy, a.Fits .empty q e ∧ a.text = line ∧ Glyph.char '(' ∈ a.inner := by
  obtain ⟨a, ha, rfl, rfl⟩ := exists_anatomy_of_label? isTypes_star hq.toIsName hm
  rw [isUntypedCall, Bool.and_eq_true, a.hasInnerParen_iff, a.labelled_types_labels,
    isAllBlank_types_iff a.accepts_types]
  constructor
  · rintro ⟨hnone, hinner⟩
    exact ⟨a, ⟨⟨accepts_empty_iff.mpr hnone, ha.name⟩, ha.tail⟩, rfl, hinner⟩
  · rintro ⟨b, hb, htext, hinner⟩
    rw [← htext] at hm
    refine ⟨types_eq_nil_of_label? hq hm hb, ?_⟩
    rwa [← (Anatomy.text_inj htext).2.1]

/-- The line can be read as the name without types, and its parameters hold a parenthesis. -/
def IsBareCall (name : Text) (e : Ending) (line : Text) : Prop :=
  ∃ a : Anatomy, a.Fits .empty (word .name name) e ∧ a.text = line ∧ Glyph.char '(' ∈ a.inner

theorem isBareCall_trim_iff (he : e.IsVisible) (hframe : HasFrame e line) :
    IsBareCall name e line.trim ↔ IsBareCall name e line :=
  exists_anatomy_trim_iff (P := fun inner => Glyph.char '(' ∈ inner) he hframe

/-- The line can be read as the name without types, and its parameters hold none. -/
def IsBareHeader (name : Text) (line : Text) : Prop :=
  ∃ a : Anatomy, a.Fits .empty (word .name name) .eol ∧ a.text = line ∧ Glyph.char '(' ∉ a.inner

/-! ### The header of a definition -/

/-- A signature of one name is a signature of any name that has this one. -/
theorem Anatomy.fits_word_iff (hname : IsIdentifier name) {a : Anatomy} :
    a.Fits p (word .name name) e ↔ a.Fits p anyName e ∧ a.name = name := by
  have hword := fun t : Text => accepts_word_name_iff (t := t) (isHarmless_of_isIdentifier hname)
  constructor
  · intro h
    have heq : a.name = name := (hword a.name).mp h.name
    exact ⟨⟨⟨h.types, heq ▸ accepts_anyName_iff.mpr ⟨[], name, .inl rfl, hname, rfl⟩⟩, h.tail⟩, heq⟩
  · rintro ⟨h, heq⟩
    exact ⟨⟨h.types, (hword a.name).mpr heq⟩, h.tail⟩

theorem headerWithEnding?_eq_some_iff_exists :
    headerWithEnding? e line = some name ↔
      ∃ m, (signature (star typeToken) anyName e).label? line = some m ∧ labelled .name m = name ∧
        name ∉ controlKeywords ∧ isUntypedCall m = false := by
  rw [headerWithEnding?]
  cases (signature (star typeToken) anyName e).label? line with
  | none => simp
  | some m =>
    simp only [Option.bind_eq_bind, Option.bind_some, Option.some.injEq, exists_eq_left',
      List.contains_eq_mem, Bool.or_eq_true, decide_eq_true_eq]
    -- One test is about the name that was found, the other about the name that is asked for.
    split
    · grind
    · grind

/-- A name is found in a header if the line is a signature of that name, and it is no call. -/
theorem headerWithEnding?_eq_some_iff (hname : IsIdentifier name) :
    headerWithEnding? e line = some name ↔
      name ∉ controlKeywords ∧
        (signature (star typeToken) (word .name name) e).accepts line = true ∧
        ¬ IsBareCall name e line := by
  have hword := isName_word (isHarmless_of_isIdentifier hname)
  have hany := isOwnName_anyName
  rw [headerWithEnding?_eq_some_iff_exists, accepts_signature_iff isTypes_star hword]
  constructor
  · rintro ⟨m, hm, hlabel, hcontrol, huntyped⟩
    obtain ⟨a, ha, htext, rfl⟩ := exists_anatomy_of_label? isTypes_star hany.toIsName hm
    rw [a.labelled_name_labels] at hlabel
    refine ⟨hcontrol, ⟨a, (Anatomy.fits_word_iff hname).mpr ⟨ha, hlabel⟩, htext⟩, ?_⟩
    rintro ⟨b, hb, hbtext, hinner⟩
    have hrejected := (isUntypedCall_iff hany hm).mpr
      ⟨b, ((Anatomy.fits_word_iff hname).mp hb).1, hbtext, hinner⟩
    rw [huntyped] at hrejected
    cases hrejected
  · rintro ⟨hcontrol, ⟨a, ha, rfl⟩, hcall⟩
    obtain ⟨ha, haname⟩ := (Anatomy.fits_word_iff hname).mp ha
    have haccepts := (accepts_signature_iff isTypes_star hany.toIsName).mpr ⟨a, ha, rfl⟩
    obtain ⟨m, hm⟩ := Option.isSome_iff_exists.mp haccepts
    refine ⟨m, hm, ?_, hcontrol, ?_⟩
    · obtain ⟨b, hb, hbtext, rfl⟩ := exists_anatomy_of_label? isTypes_star hany.toIsName hm
      rw [b.labelled_name_labels, Anatomy.name_eq hany hany hb ha hbtext, haname]
    · rw [← Bool.not_eq_true, isUntypedCall_iff hany hm]
      rintro ⟨b, hb, hbtext, hinner⟩
      have hbname := (Anatomy.name_eq hany hany hb ha hbtext).trans haname
      exact hcall ⟨b, (Anatomy.fits_word_iff hname).mpr ⟨hb, hbname⟩, hbtext, hinner⟩

/-- A line that ends behind a signature has no brace there. -/
theorem Anatomy.text_ne_of_eol {a b : Anatomy} {p' q' : Pattern Part} (ha : a.Fits p q .eol)
    (hb : b.Fits p' q' (.mark '\x7b')) : b.text ≠ a.text := by
  intro htext
  have hmark := head?_dropWhile_tail_mark (by decide) (by decide) hb.tail
  have htrailing : a.tail.dropWhile isTrailing = [] :=
    List.dropWhile_eq_nil_iff.mpr (isTrailing_of_accepts_tail_eol ha.tail)
  rw [(Anatomy.text_inj htext).2.2, htrailing] at hmark
  cases hmark

theorem headerWithEnding?_brace_eq_none {a : Anatomy} (ha : a.Fits p q .eol) :
    headerWithEnding? (.mark '\x7b') a.text = none := by
  rw [Option.eq_none_iff_forall_ne_some]
  intro name' h
  obtain ⟨m, hm, -⟩ := headerWithEnding?_eq_some_iff_exists.mp h
  obtain ⟨b, hb, htext, -⟩ := exists_anatomy_of_label? isTypes_star isOwnName_anyName.toIsName hm
  exact Anatomy.text_ne_of_eol ha hb htext

/-- What makes a line the header of a definition of the name. -/
theorem headerName?_eq_some_iff (hname : IsIdentifier name) {following : List Text} :
    headerName? line following = some name ↔
      headerWithEnding? (.mark '\x7b') line = some name ∨
        headerWithEnding? .eol line = some name ∧ opensBlock following = true := by
  rw [headerName?]
  constructor
  · intro h
    split at h
    · rename_i hbrace
      exact .inl (hbrace.trans h)
    · split at h
      · rename_i heol
        split at h
        · exact .inr ⟨heol.trans h, by assumption⟩
        · cases h
      · cases h
  · rintro (hbrace | ⟨heol, hopens⟩)
    · rw [hbrace]
    · obtain ⟨-, haccepts, -⟩ := (headerWithEnding?_eq_some_iff hname).mp heol
      obtain ⟨a, ha, rfl⟩ := (accepts_signature_iff isTypes_star
        (isName_word (isHarmless_of_isIdentifier hname))).mp haccepts
      simp only [headerWithEnding?_brace_eq_none ha, heol, hopens, if_true]

/-! ### The scan for the nearest header -/

/-- One step of the scan looks at one line. -/
theorem nearestHeader?_step {lines : List Text} {i : Nat} (h : lines[i]? = some line) :
    nearestHeader? (lines.take (i + 1)).reverse (lines.drop (i + 1)) =
      (headerName? line (lines.drop (i + 1))).or
        (nearestHeader? (lines.take i).reverse (lines.drop i)) := by
  obtain ⟨hi, hline⟩ := List.getElem?_eq_some_iff.mp h
  have hdrop : lines.drop i = line :: lines.drop (i + 1) := by
    rw [List.drop_eq_getElem_cons hi, hline]
  rw [List.take_add_one, h, Option.toList_some, List.reverse_concat, nearestHeader?, ← hdrop]
  cases headerName? line (lines.drop (i + 1)) <;> rfl

/-- The scan finds the header of a line that it has passed. -/
theorem exists_of_nearestHeader? {lines : List Text} {n : Nat} (hn : n ≤ lines.length)
    (h : nearestHeader? (lines.take n).reverse (lines.drop n) = some name) :
    ∃ i line, i < n ∧ lines[i]? = some line ∧
      headerName? line (lines.drop (i + 1)) = some name := by
  induction n with
  | zero => cases h
  | succ n ih =>
    have hline : lines[n]? = some lines[n] := List.getElem?_eq_getElem hn
    rw [nearestHeader?_step hline] at h
    rcases Option.or_eq_some_iff.mp h with hhere | ⟨-, habove⟩
    · exact ⟨n, lines[n], Nat.lt_succ_self n, hline, hhere⟩
    · obtain ⟨i, line, hi, hfound⟩ := ih (Nat.le_of_lt hn) habove
      exact ⟨i, line, Nat.lt_succ_of_lt hi, hfound⟩

/-- A scan that finds nothing has passed no header. -/
theorem headerName?_eq_none_of_nearestHeader? {lines : List Text} {n : Nat} (hn : n ≤ lines.length)
    (h : nearestHeader? (lines.take n).reverse (lines.drop n) = none) :
    ∀ i line, i < n → lines[i]? = some line → headerName? line (lines.drop (i + 1)) = none := by
  induction n with
  | zero => exact fun i line hi => absurd hi (Nat.not_lt_zero i)
  | succ n ih =>
    have hline : lines[n]? = some lines[n] := List.getElem?_eq_getElem hn
    rw [nearestHeader?_step hline] at h
    obtain ⟨hhere, habove⟩ := Option.or_eq_none_iff.mp h
    intro i line hi hat
    rcases Nat.lt_succ_iff_lt_or_eq.mp hi with hlt | rfl
    · exact ih (Nat.le_of_lt hn) habove i line hlt hat
    · rwa [← Option.some.inj (hline.symm.trans hat)]

theorem enclosingFunction_succ {lines : List Text} {i : Nat} (h : (i : Int) ≤ maxInt64) :
    enclosingFunction lines (i + 1) =
      (nearestHeader? (lines.take (i + 1)).reverse (lines.drop (i + 1))).getD unknownCaller := by
  have hwrap : wrap64 ((i : Int) + 1 - 1) = .ofNat i := by
    rw [Int.add_sub_cancel, wrap64_of_mem (by simp only [minInt64]; omega) h]
    rfl
  rw [enclosingFunction, hwrap]

/-! ### The readings of a line -/

theorem defines_of_isDefinition (h : (readTrimmed name line).isDefinition = true) :
    defines name line = true := by
  rw [readTrimmed] at h
  split at h
  · cases h
  · split at h
    · cases h
    · split at h
      · assumption
      · split at h <;> cases h

theorem defines_eq_false_of_isCall (h : (readTrimmed name line).isCall = true) :
    defines name line = false := by
  rw [← Bool.not_eq_true]
  intro hdefines
  rw [readTrimmed, if_pos hdefines] at h
  split at h
  · cases h
  · split at h <;> cases h

theorem isVisible_brace : (Ending.mark '\x7b').IsVisible := ⟨by decide, by decide⟩

theorem isVisible_eol : Ending.eol.IsVisible := trivial

/-- The scan sees such a call by looking at the types and the parameters it has found. -/
theorem isBareCall_iff (hname : IsIdentifier name) :
    IsBareCall name e line ↔
      matchesWhen isUntypedCall (signature (star typeToken) (word .name name) e) line = true := by
  have hword := isOwnName_word hname
  rw [matchesWhen_iff]
  constructor
  · intro hcall
    have haccepts : (signature (star typeToken) (word .name name) e).accepts line = true := by
      obtain ⟨a, ha, htext, -⟩ := hcall
      exact (accepts_signature_iff isTypes_star hword.toIsName).mpr
        ⟨a, ⟨⟨a.accepts_types, ha.name⟩, ha.tail⟩, htext⟩
    obtain ⟨m, hm⟩ := Option.isSome_iff_exists.mp haccepts
    exact ⟨m, hm, (isUntypedCall_iff hword hm).mpr hcall⟩
  · rintro ⟨m, hm, huntyped⟩
    exact (isUntypedCall_iff hword hm).mp huntyped

theorem not_isBareCall_of_matchesWhen (hname : IsIdentifier name)
    (h : matchesWhen isTypedDefinition (definition name) line = true) :
    ¬ IsBareCall name (.mark '\x7b') line := by
  obtain ⟨m, hm, htest⟩ := matchesWhen_iff.mp h
  rw [IsBareCall, ← isUntypedCall_iff (isOwnName_word hname) hm]
  intro huntyped
  rw [isTypedDefinition, huntyped, Bool.not_true, Bool.and_false] at htest
  cases htest

theorem accepts_of_matchesWhen {test : List (Part × Glyph) → Bool}
    (h : matchesWhen test p line = true) : p.accepts line = true := by
  obtain ⟨m, hm, -⟩ := matchesWhen_iff.mp h
  rw [Pattern.accepts, hm]
  rfl

/-- Types are optional in a header. -/
theorem accepts_star_of_plus (hname : IsHarmless name)
    (h : (signature (plus typeToken) (word .name name) e).accepts line = true) :
    (signature (star typeToken) (word .name name) e).accepts line = true := by
  obtain ⟨a, ha, rfl⟩ := (accepts_signature_iff isTypes_plus (isName_word hname)).mp h
  exact (accepts_signature_iff isTypes_star (isName_word hname)).mpr
    ⟨a, ⟨⟨a.accepts_types, ha.name⟩, ha.tail⟩, rfl⟩

/-- With a brace on the line, what is read as a definition is a header. -/
theorem headerName?_of_isDefinition (hname : IsIdentifier name) (hcontrol : name ∉ controlKeywords)
    (hends : HasPlainEnds line) (hdefinition : (classify name line).isDefinition = true)
    (hbrace : (definition name).accepts line = true) (following : List Text) :
    headerName? line following = some name := by
  have hword := isName_word (isHarmless_of_isIdentifier hname)
  have hframe := hends.hasFrame (.mark '\x7b')
  have hmatch : matchesWhen isTypedDefinition (definition name) line.trim = true := by
    refine (Bool.or_eq_true_iff.mp (defines_of_isDefinition hdefinition)).resolve_right
      fun hheader => ?_
    obtain ⟨a, ha, hatext⟩ :=
      (accepts_signature_iff isTypes_plus hword).mp (accepts_of_matchesWhen hheader)
    obtain ⟨b, hb, hbtext⟩ := (accepts_signature_iff isTypes_star hword).mp
      ((accepts_trim_iff isVisible_brace isTypes_star hword hframe).mpr hbrace)
    exact Anatomy.text_ne_of_eol ha hb (hbtext.trans hatext.symm)
  have hcall : ¬ IsBareCall name (.mark '\x7b') line := by
    rw [← isBareCall_trim_iff isVisible_brace hframe]
    exact not_isBareCall_of_matchesWhen hname hmatch
  exact (headerName?_eq_some_iff hname).mpr
    (.inl ((headerWithEnding?_eq_some_iff hname).mpr ⟨hcontrol, hbrace, hcall⟩))

/-- Without one it ends behind a signature with types. -/
theorem accepts_header_of_isDefinition (hname : IsIdentifier name) (hends : HasPlainEnds line)
    (hdefinition : (classify name line).isDefinition = true)
    (hbrace : (definition name).accepts line = false) : (header name).accepts line = true := by
  have hword := isName_word (isHarmless_of_isIdentifier hname)
  have hmatch : matchesWhen isTyped (header name) line.trim = true := by
    refine (Bool.or_eq_true_iff.mp (defines_of_isDefinition hdefinition)).resolve_left
      fun hmatch => ?_
    have haccepts : (definition name).accepts line = true :=
      (accepts_trim_iff isVisible_brace isTypes_star hword (hends.hasFrame _)).mp
        (accepts_of_matchesWhen hmatch)
    rw [hbrace] at haccepts
    cases haccepts
  exact (accepts_trim_iff isVisible_eol isTypes_plus hword (hends.hasFrame _)).mp
    (accepts_of_matchesWhen hmatch)

/-- Without a brace on the line itself, the lines that follow have to open the block. -/
theorem headerName?_iff_of_accepts_header (hname : IsIdentifier name)
    (hcontrol : name ∉ controlKeywords) (hheader : (header name).accepts line = true)
    (hbrace : (definition name).accepts line = false) (following : List Text) :
    headerName? line following = some name ↔
      opensBlock following = true ∧ ¬ IsBareCall name .eol line := by
  have hnot : headerWithEnding? (.mark '\x7b') line ≠ some name := by
    intro hfound
    have haccepts : (definition name).accepts line = true :=
      ((headerWithEnding?_eq_some_iff hname).mp hfound).2.1
    rw [hbrace] at haccepts
    cases haccepts
  rw [headerName?_eq_some_iff hname, or_iff_right hnot, headerWithEnding?_eq_some_iff hname]
  constructor
  · rintro ⟨⟨-, -, hcall⟩, hopens⟩
    exact ⟨hopens, hcall⟩
  · rintro ⟨hopens, hcall⟩
    exact ⟨⟨hcontrol, accepts_star_of_plus (isHarmless_of_isIdentifier hname) hheader, hcall⟩,
      hopens⟩

theorem enclosingFunction_of_headerName? {lines : List Text} {i : Nat}
    (hsize : (lines.length : Int) ≤ maxInt64) (hline : lines[i]? = some line)
    (hheader : headerName? line (lines.drop (i + 1)) = some name) :
    enclosingFunction lines (i + 1) = name := by
  have hi := (List.getElem?_eq_some_iff.mp hline).1
  rw [enclosingFunction_succ (by omega), nearestHeader?_step hline, hheader]
  rfl

/-- A line that is read as a definition is the header of that function if a brace follows the
signature on the line. If the line ends behind the signature, then it is the header exactly if the
next line that is not blank starts with a brace, unless all that looks like a type is a qualifier
and the parameters hold a parenthesis: the scan takes such a line for a call. -/
theorem definitions_are_headers_iff {lines : List Text} {i : Nat} {line name : Text}
    (hname : IsIdentifier name) (hcontrol : name ∉ controlKeywords)
    (hsize : (lines.length : Int) ≤ maxInt64) (hline : lines[i]? = some line)
    (hends : HasPlainEnds line) (hdefinition : (classify name line).isDefinition = true) :
    ((definition name).accepts line = true →
      headerName? line (lines.drop (i + 1)) = some name) ∧
    ((definition name).accepts line = false →
      (header name).accepts line = true ∧
        (headerName? line (lines.drop (i + 1)) = some name ↔
          opensBlock (lines.drop (i + 1)) = true ∧ ¬ IsBareCall name .eol line)) ∧
    (headerName? line (lines.drop (i + 1)) = some name →
      enclosingFunction lines (i + 1) = name) := by
  refine ⟨fun hbrace => ?_, fun hbrace => ?_, enclosingFunction_of_headerName? hsize hline⟩
  · exact headerName?_of_isDefinition hname hcontrol hends hdefinition hbrace _
  · have hheader := accepts_header_of_isDefinition hname hends hdefinition hbrace
    exact ⟨hheader, headerName?_iff_of_accepts_header hname hcontrol hheader hbrace _⟩

/-- The line is read as a definition and a brace opens the next line, but it is no header. -/
theorem qualified_call_is_no_header :
    (classify "foo" "static foo(bar()").isDefinition = true ∧ opensBlock ["\x7b"] = true ∧
      headerName? "static foo(bar()" ["\x7b"] ≠ some "foo" ∧
      enclosingFunction ["static foo(bar()", "\x7b"] 1 = "unknown" := by
  have hname : IsIdentifier "foo" := (accepts_identifier_iff (l := .name)).mp (by decide +kernel)
  have hdefinition : (classify "foo" "static foo(bar()").isDefinition = true := by decide +kernel
  have hheaders := @definitions_are_headers_iff ["static foo(bar()", "\x7b"] 0 "static foo(bar()"
    "foo" hname (by decide) (by decide) rfl ⟨by decide, by decide⟩ hdefinition
  refine ⟨hdefinition, by decide, fun hheader => ?_, by decide +kernel⟩
  exact ((hheaders.2.1 (by decide +kernel)).2.mp hheader).2
    ((isBareCall_iff hname).mpr (by decide +kernel))

/-! ### Calls that own themselves -/

/-- Behind its indentation and its qualifiers the line goes on with a keyword that starts a
statement. -/
def IsKeywordLine (line : Text) : Prop :=
  ∃ (indent quals k : Text) (g : Glyph) (rest : Text),
    (∀ g ∈ indent, Text.isGap g = true) ∧ qualifierRun.accepts quals = true ∧
      k ∈ statementKeywords ∧ isSpacing g = true ∧ line = indent ++ quals ++ k ++ g :: rest

theorem IsKeywordLine.append (h : IsKeywordLine line) {before : Text}
    (hbefore : ∀ g ∈ before, Text.isGap g = true) (after : Text) :
    IsKeywordLine (before ++ line ++ after) := by
  obtain ⟨indent, quals, k, g, rest, hindent, hquals, hk, hg, rfl⟩ := h
  exact ⟨before ++ indent, quals, k, g, rest ++ after,
    List.forall_mem_append.mpr ⟨hbefore, hindent⟩, hquals, hk, hg, by simp⟩

/-- A text starts with a word, perhaps empty, and goes on with spacing or ends there. -/
theorem exists_word_append (t : Text) :
    ∃ w d, t = w ++ d ∧ (∀ g ∈ w, isSpacing g = false) ∧ ∀ g ∈ d.head?, isSpacing g = true := by
  induction t with
  | nil => exact ⟨[], [], rfl, by simp, by simp⟩
  | cons g t ih =>
    by_cases hg : isSpacing g = true
    · exact ⟨[], g :: t, rfl, by simp, by simpa using hg⟩
    · obtain ⟨w, d, rfl, hw, hd⟩ := ih
      exact ⟨g :: w, d, rfl, List.forall_mem_cons.mpr ⟨by simpa using hg, hw⟩, hd⟩

/-- Types that start a statement start with its keyword. -/
theorem exists_keyword_of_startsStatement {t : Text} (ht : (star typeToken).accepts t = true)
    (h : startsStatement t = true) :
    ∃ k ∈ statementKeywords, ∃ g rest, isSpacing g = true ∧ t = k ++ g :: rest := by
  obtain ⟨k, hk, hhead⟩ := startsStatement_iff.mp h
  obtain ⟨w, d, rfl, hw, hd⟩ := exists_word_append t
  cases d with
  | nil =>
    -- The types would end in a word, but spacing stands behind each of them.
    rw [List.append_nil] at ht hhead
    have hne : w ≠ [] := by
      rintro rfl
      cases hhead
    have hlast := List.getLast?_eq_some_getLast hne
    have hspacing := isSpacing_of_isTypeGap (isTypeGap_of_ends_types (ends_of_accepts ht hlast))
    rw [hw _ (List.mem_of_getLast? hlast)] at hspacing
    cases hspacing
  | cons g rest =>
    have hg := hd g rfl
    have hne : w ≠ [] := by
      rintro rfl
      have hname := isNameChar_of_starts_types (starts_of_accepts ht (g := g) rfl)
      rw [isSpacing_eq_false_of_isNameChar hname] at hg
      cases hg
    rw [typeWords_append_cons w hg, typeWords_of_forall_not hne hw] at hhead
    obtain rfl : w = k := Option.some.inj hhead
    exact ⟨w, hk, g, rest, hg, rfl⟩

theorem Front.isKeywordLine (f : Front) (h : startsStatement f.types = true) (u : Text) :
    IsKeywordLine (f.text ++ u) := by
  obtain ⟨k, hk, g, rest, hg, htypes⟩ := exists_keyword_of_startsStatement f.accepts_types h
  exact ⟨f.indent, f.quals, k, g, rest ++ f.scope ++ f.name ++ f.gap ++ u, f.isGap_of_mem_indent,
    f.accepts_quals, hk, hg, by simp [Front.text, Front.stem, htypes]⟩

/-- A signature whose types are rejected starts with a keyword. -/
theorem isKeywordLine_of_isTyped (hp : IsTypes p) (hname : IsHarmless name)
    {m : List (Part × Glyph)} (hm : (signature p (word .name name) e).label? line = some m)
    (htyped : isTyped m = false) : IsKeywordLine line := by
  obtain ⟨f, -, htypes, u, rfl⟩ := exists_front_of_signature hp hname hm
  refine f.isKeywordLine ?_ _
  rwa [isTyped, htypes, Bool.not_eq_false'] at htyped

theorem isTyped_of_label?_trim (hp : IsTypes p) (hname : IsHarmless name)
    (hkeyword : ¬ IsKeywordLine line) (hframe : HasFrame e line) {m : List (Part × Glyph)}
    (hm : (signature p (word .name name) e).label? line.trim = some m) : isTyped m = true := by
  rw [← Bool.not_eq_false]
  intro htyped
  obtain ⟨before, after, hline, hbefore, -⟩ := hframe
  refine hkeyword ?_
  rw [hline]
  exact (isKeywordLine_of_isTyped hp hname hm htyped).append hbefore after

/-- Without a keyword the classification accepts a signature with a brace as the scan does. -/
theorem matchesWhen_of_headerWithEnding?_brace (hname : IsIdentifier name)
    (hkeyword : ¬ IsKeywordLine line)
    (h : headerWithEnding? (.mark '\x7b') line = some name) :
    matchesWhen isTypedDefinition (definition name) line.trim = true := by
  obtain ⟨-, haccepts, hcall⟩ := (headerWithEnding?_eq_some_iff hname).mp h
  have hharmless := isHarmless_of_isIdentifier hname
  have hframe := hasFrame_of_accepts isTypes_star (isName_word hharmless) haccepts
  have htrim := (accepts_trim_iff isVisible_brace isTypes_star (isName_word hharmless) hframe).mpr
    haccepts
  obtain ⟨m, hm⟩ := Option.isSome_iff_exists.mp htrim
  have huntyped : isUntypedCall m = false := by
    rw [← Bool.not_eq_true, isUntypedCall_iff (isOwnName_word hname) hm]
    rwa [← isBareCall_trim_iff isVisible_brace hframe] at hcall
  refine matchesWhen_iff.mpr ⟨m, hm, ?_⟩
  rw [isTypedDefinition, isTyped_of_label?_trim isTypes_star hharmless hkeyword hframe hm, huntyped]
  rfl

/-- The same for a signature with types at the end of a line. -/
theorem matchesWhen_of_headerWithEnding?_eol (hname : IsIdentifier name)
    (hkeyword : ¬ IsKeywordLine line) (h : headerWithEnding? .eol line = some name)
    (hbare : ¬ IsBareHeader name line) :
    matchesWhen isTyped (header name) line.trim = true := by
  obtain ⟨-, haccepts, hcall⟩ := (headerWithEnding?_eq_some_iff hname).mp h
  have hharmless := isHarmless_of_isIdentifier hname
  have hword := isName_word hharmless
  obtain ⟨a, ha, htext⟩ := (accepts_signature_iff isTypes_star hword).mp haccepts
  have htypes : a.types ≠ [] := by
    intro hnone
    have hfits : a.Fits .empty (word .name name) .eol :=
      ⟨⟨accepts_empty_iff.mpr hnone, ha.name⟩, ha.tail⟩
    exact hbare ⟨a, hfits, htext, fun hinner => hcall ⟨a, hfits, htext, hinner⟩⟩
  have hframe := hasFrame_of_accepts isTypes_star hword haccepts
  have hheader : (header name).accepts line = true :=
    (accepts_signature_iff isTypes_plus hword).mpr
      ⟨a, ⟨⟨(accepts_plus_iff (by decide)).mpr ⟨htypes, a.accepts_types⟩, ha.name⟩, ha.tail⟩, htext⟩
  obtain ⟨m, hm⟩ := Option.isSome_iff_exists.mp
    ((accepts_trim_iff isVisible_eol isTypes_plus hword hframe).mpr hheader)
  exact matchesWhen_iff.mpr
    ⟨m, hm, isTyped_of_label?_trim isTypes_plus hharmless hkeyword hframe hm⟩

theorem headerWithEnding?_of_isBareHeader (hname : IsIdentifier name)
    (hcontrol : name ∉ controlKeywords) (h : IsBareHeader name line) :
    headerWithEnding? .eol line = some name := by
  obtain ⟨a, ha, rfl, hinner⟩ := h
  refine (headerWithEnding?_eq_some_iff hname).mpr ⟨hcontrol, ?_, ?_⟩
  · exact (accepts_signature_iff isTypes_star (isName_word (isHarmless_of_isIdentifier hname))).mpr
      ⟨a, ⟨⟨a.accepts_types, ha.name⟩, ha.tail⟩, rfl⟩
  · rintro ⟨b, -, htext, hmem⟩
    rw [(Anatomy.text_inj htext).2.1] at hmem
    exact hinner hmem

/-- A signature of the name that starts with a keyword and stands where a definition would: a brace
follows it on the line, or at the start of the next line that is not blank. -/
def IsKeywordHeader (name line : Text) (following : List Text) : Prop :=
  IsKeywordLine line ∧
    ((definition name).accepts line = true ∨
      (signature (star typeToken) (word .name name) .eol).accepts line = true ∧
        opensBlock following = true)

/-- A call that the scan takes for a header is a signature without types. -/
theorem headerName?_iff_of_isCall (hname : IsIdentifier name)
    (hcall : (classify name line).isCall = true) {following : List Text}
    (hkeyword : ¬ IsKeywordHeader name line following) :
    headerName? line following = some name ↔
      name ∉ controlKeywords ∧ IsBareHeader name line ∧ opensBlock following = true := by
  obtain ⟨hbraceNot, heolNot⟩ := Bool.or_eq_false_iff.mp (defines_eq_false_of_isCall hcall)
  rw [headerName?_eq_some_iff hname]
  constructor
  · rintro (hbrace | ⟨heol, hopens⟩)
    · obtain ⟨-, haccepts, -⟩ := (headerWithEnding?_eq_some_iff hname).mp hbrace
      have hplain : ¬ IsKeywordLine line := fun hline => hkeyword ⟨hline, .inl haccepts⟩
      rw [matchesWhen_of_headerWithEnding?_brace hname hplain hbrace] at hbraceNot
      cases hbraceNot
    · obtain ⟨hcontrol, haccepts, -⟩ := (headerWithEnding?_eq_some_iff hname).mp heol
      have hplain : ¬ IsKeywordLine line := fun hline => hkeyword ⟨hline, .inr ⟨haccepts, hopens⟩⟩
      refine ⟨hcontrol, ?_, hopens⟩
      by_contra hbare
      rw [matchesWhen_of_headerWithEnding?_eol hname hplain heol hbare] at heolNot
      cases heolNot
  · rintro ⟨hcontrol, hbare, hopens⟩
    exact .inr ⟨headerWithEnding?_of_isBareHeader hname hcontrol hbare, hopens⟩

/-- The function around a line has its header there or above; where there is no header it is the
name that stands for no function. -/
theorem exists_of_enclosingFunction {lines : List Text} {i : Nat}
    (hsize : (lines.length : Int) ≤ maxInt64) (hline : lines[i]? = some line)
    (h : enclosingFunction lines (i + 1) = name) :
    headerName? line (lines.drop (i + 1)) = some name ∨
      (∃ j above, j < i ∧ lines[j]? = some above ∧
        headerName? above (lines.drop (j + 1)) = some name) ∨
      name = unknownCaller ∧ ∀ j l, j ≤ i → lines[j]? = some l →
        headerName? l (lines.drop (j + 1)) = none := by
  have hi := (List.getElem?_eq_some_iff.mp hline).1
  rw [enclosingFunction_succ (by omega)] at h
  cases hfound : nearestHeader? (lines.take (i + 1)).reverse (lines.drop (i + 1)) with
  | none =>
    rw [hfound] at h
    exact .inr (.inr ⟨h.symm, fun j l hj =>
      headerName?_eq_none_of_nearestHeader? hi hfound j l (Nat.lt_succ_of_le hj)⟩)
  | some found =>
    rw [hfound, Option.getD_some] at h
    subst h
    rw [nearestHeader?_step hline] at hfound
    rcases Option.or_eq_some_iff.mp hfound with hhere | ⟨-, habove⟩
    · exact .inl hhere
    · exact .inr (.inl (exists_of_nearestHeader? (Nat.le_of_lt hi) habove))

/-- A line that calls a function and does not stand as a header behind a keyword is taken for the
header of that function exactly if it could be the header of a constructor: a signature without
types at the end of the line, with a brace at the start of the next line that is not blank. Any
other call belongs to the function only if its header stands above, or if there is no header at all
and the function has the name that stands for no function. -/
theorem calls_are_headers_iff {lines : List Text} {i : Nat} {line name : Text}
    (hname : IsIdentifier name) (hsize : (lines.length : Int) ≤ maxInt64)
    (hline : lines[i]? = some line) (hcall : (classify name line).isCall = true)
    (hkeyword : ¬ IsKeywordHeader name line (lines.drop (i + 1))) :
    (headerName? line (lines.drop (i + 1)) = some name ↔
      name ∉ controlKeywords ∧ IsBareHeader name line ∧
        opensBlock (lines.drop (i + 1)) = true) ∧
    (enclosingFunction lines (i + 1) = name →
      (name ∉ controlKeywords ∧ IsBareHeader name line ∧
          opensBlock (lines.drop (i + 1)) = true) ∨
        (∃ j above, j < i ∧ lines[j]? = some above ∧
          headerName? above (lines.drop (j + 1)) = some name) ∨
        name = unknownCaller ∧ ∀ j l, j ≤ i → lines[j]? = some l →
          headerName? l (lines.drop (j + 1)) = none) := by
  have hheader := headerName?_iff_of_isCall hname hcall hkeyword
  exact ⟨hheader, fun howner =>
    (exists_of_enclosingFunction hsize hline howner).imp_left hheader.mp⟩

/-- A function that calls itself. -/
def recursion : List Text := ["int f(int n)", "\x7b", "return f(n-1);", "\x7d"]

/-- A recursive call belongs to the function around it, also behind a keyword. -/
theorem recursive_call_has_header_above :
    (classify "f" "return f(n-1);").isCall = true ∧ enclosingFunction recursion 3 = "f" ∧
      ∃ j above, j < 2 ∧ recursion[j]? = some above ∧
        headerName? above (recursion.drop (j + 1)) = some "f" := by
  have hname : IsIdentifier "f" := ⟨'f', [], by decide, by simp, rfl⟩
  have hcall : (classify "f" "return f(n-1);").isCall = true := by decide +kernel
  have howner : enclosingFunction recursion 3 = "f" := by decide +kernel
  have hkeyword : ¬ IsKeywordHeader "f" "return f(n-1);" (recursion.drop 3) := by
    rintro ⟨-, hbrace | ⟨-, hopens⟩⟩
    · exact absurd hbrace (by decide +kernel)
    · exact absurd hopens (by decide)
  refine ⟨hcall, howner, ?_⟩
  have hheaders := @calls_are_headers_iff recursion 2 "return f(n-1);" "f" hname (by decide) rfl
    hcall hkeyword
  rcases hheaders.2 howner with ⟨-, -, hopens⟩ | habove | ⟨hunknown, -⟩
  · exact absurd hopens (by decide)
  · exact habove
  · exact absurd hunknown (by decide)

/-- A call that looks like the header of a constructor owns itself. -/
theorem bare_call_owns_itself :
    (classify "foo" "foo()").isCall = true ∧ headerName? "foo()" ["\x7b"] = some "foo" ∧
      enclosingFunction ["foo()", "\x7b"] 1 = "foo" := by
  decide +kernel

end Line

end CallerTree
