import CallerTree.Proofs.Anatomy

/-!
# Statements and signatures

A word before a name makes the line look like a signature of that name. If the word starts a
statement, then the line is a call all the same, and if no word starts one, then the line is a
declaration or a definition.

## The words before the name

Which of the words before the name are found as types depends on the order of preference. That they
are words from before the name does not: what stands there is cut into words once, and these are the
words of the qualifiers followed by those of the types (`Front.typeWords_stem`). No qualifier starts
a statement, so a single keyword is always found as a type, and types without keywords never start
a statement.

## Main definitions

* `Line.typeWords` — the words among types
* `Line.IsDirect` — no type definition and no function pointer in the line
* `Line.signatureLine` — types, a name and parameters as a line

## Main results

* `Line.statement_keywords_keep_calls` — a name behind a keyword is called
* `Line.typed_signatures_are_never_calls` — a name behind types is declared or defined
-/

namespace CallerTree

namespace Line

open Pattern FunctionName

/-! ### The words of the types -/

/-- What separates words among types. -/
def isSpacing (g : Glyph) : Bool := Text.isBlank g || decide (g = '*' ∨ g = '&')

/-- The words among types. -/
def typeWords (t : Text) : List Text := (pieces isSpacing t).filter fun w => !w.isEmpty

/-- Stars and ampersands are blanks between the words of a type. -/
theorem pieces_spaced (t : Text) :
    pieces Text.isBlank (t.map fun (g : Glyph) => if g = '*' ∨ g = '&' then ' ' else g) =
      pieces isSpacing t := by
  induction t with
  | nil => rfl
  | cons g t ih =>
    obtain ⟨part, rest, ht⟩ := List.exists_cons_of_ne_nil (pieces_ne_nil (p := isSpacing) t)
    rw [List.map_cons]
    by_cases hmark : g = .char '*' ∨ g = .char '&'
    · have hspacing : isSpacing g = true := by simp [isSpacing, hmark]
      rw [if_pos hmark, pieces_cons_of_pos (by decide), pieces_cons_of_pos hspacing, ih]
    · rw [if_neg hmark]
      by_cases hblank : Text.isBlank g = true
      · have hspacing : isSpacing g = true := by simp [isSpacing, hblank]
        rw [pieces_cons_of_pos hblank, pieces_cons_of_pos hspacing, ih]
      · have hspacing : ¬ isSpacing g = true := by simp [isSpacing, hblank, hmark]
        rw [ht] at ih
        rw [pieces_cons_of_neg hblank ih, pieces_cons_of_neg hspacing ht]

theorem firstWord_eq (t : Text) : firstWord t = (typeWords t).head? := by
  rw [firstWord, Text.words, pieces_spaced, typeWords]

theorem startsStatement_iff {t : Text} :
    startsStatement t = true ↔ ∃ k ∈ statementKeywords, (typeWords t).head? = some k := by
  rw [startsStatement, firstWord_eq]
  cases (typeWords t).head? with
  | none => simp
  | some w => simp

theorem typeWords_append_cons (u : Text) {g : Glyph} (hg : isSpacing g = true) (v : Text) :
    typeWords (u ++ g :: v) = typeWords u ++ typeWords v := by
  rw [typeWords, pieces_append_cons u hg, List.filter_append]
  rfl

theorem typeWords_of_forall_not {w : Text} (hne : w ≠ []) (hw : ∀ g ∈ w, isSpacing g = false) :
    typeWords w = [w] := by
  rw [typeWords, pieces_of_forall_not fun g hg => by simp [hw g hg]]
  simp [hne]

theorem typeWords_of_forall {t : Text} (ht : ∀ g ∈ t, isSpacing g = true) : typeWords t = [] := by
  induction t with
  | nil => rfl
  | cons g t ih =>
    obtain ⟨hg, ht⟩ := List.forall_mem_cons.mp ht
    exact (typeWords_append_cons [] hg t).trans (ih ht)

/-- Behind spacing the words are counted afresh. -/
theorem typeWords_append {u : Text} (hu : ∀ g ∈ u.getLast?, isSpacing g = true) (v : Text) :
    typeWords (u ++ v) = typeWords u ++ typeWords v := by
  rcases List.eq_nil_or_concat u with rfl | ⟨u, g, rfl⟩
  · rfl
  · have hg : isSpacing g = true := hu g (by simp)
    have hnil : typeWords [] = [] := rfl
    rw [List.concat_eq_append, List.append_assoc, List.singleton_append, typeWords_append_cons u hg,
      typeWords_append_cons u hg, hnil, List.append_nil]

theorem isSpacing_of_isTypeGap {g : Glyph} (h : CharClass.typeGap.accepts g.toChar = true) :
    isSpacing g = true := by
  simp only [CharClass.accepts, Bool.or_eq_true, beq_iff_eq] at h
  rcases h with (h | h) | h
  · have hblank : Text.isBlank g = true := Text.isBlankChar_of_isGapChar h
    rw [isSpacing, hblank, Bool.true_or]
  · rw [SearchPattern.eq_of_toChar_eq (by decide) h]
    decide
  · rw [SearchPattern.eq_of_toChar_eq (by decide) h]
    decide

theorem isSpacing_eq_false_of_isNameChar {g : Glyph} (h : isNameChar g.toChar = true) :
    isSpacing g = false := by
  have hmark : ¬ (g = .char '*' ∨ g = .char '&') := by
    rintro (rfl | rfl) <;> exact absurd h (by decide)
  rw [isSpacing, isBlank_eq_false_of_isNameChar h, Bool.false_or, decide_eq_false hmark]

theorem typeWords_of_isHarmless {w : Text} (hw : IsHarmless w) : typeWords w = [w] :=
  typeWords_of_forall_not hw.ne_nil fun _ hg =>
    isSpacing_eq_false_of_isNameChar ((isHarmless_iff.mp hw).2 _ hg)

theorem mem_qualifierWords_of_mem_typeWords {t w : Text} (ht : qualifierRun.accepts t = true)
    (hw : w ∈ typeWords t) : w ∈ qualifierWords := by
  obtain ⟨parts, hparts, rfl⟩ := accepts_star_iff.mp ht
  clear ht
  induction parts with
  | nil => simp [typeWords] at hw
  | cons s parts ih =>
    obtain ⟨hs, hrest⟩ := List.forall_mem_cons.mp hparts
    obtain ⟨k, hk, g, gs, rfl, hgs⟩ := accepts_qualifier_iff.mp hs
    have hspacing : ∀ g' ∈ g :: gs, isSpacing g' = true := fun g' hg' =>
      isSpacing_of_isTypeGap (isTypeGap_of_isGap (hgs g' hg'))
    have hlast : ∀ g' ∈ (k ++ g :: gs).getLast?, isSpacing g' = true := by
      intro g' hg'
      rw [List.getLast?_append_of_ne_nil _ (List.cons_ne_nil g gs)] at hg'
      exact hspacing g' (List.mem_of_getLast? hg')
    obtain ⟨hg, hgs⟩ := List.forall_mem_cons.mp hspacing
    rw [List.flatten_cons, typeWords_append hlast, typeWords_append_cons k hg,
      typeWords_of_forall hgs, typeWords_of_isHarmless (isHarmless_of_mem_qualifierWords hk),
      List.append_nil, List.singleton_append] at hw
    rcases List.mem_cons.mp hw with rfl | hw
    · exact hk
    · exact ih hrest hw

/-- If spacing stands before the name, then the words there are those of the qualifiers and those of
the types. -/
theorem Front.typeWords_stem (f : Front) (hlast : ∃ g ∈ f.stem.getLast?, isSpacing g = true) :
    typeWords f.stem = typeWords f.quals ++ typeWords f.types := by
  have hscope : f.scope = [] := by
    obtain ⟨g, hg, hspacing⟩ := hlast
    rcases List.eq_nil_or_concat f.scope with hnil | ⟨scope, a, hscope⟩
    · exact hnil
    · obtain rfl : a = g := by simpa [Front.stem, hscope] using hg
      have ha : a ∈ f.scope := by simp [hscope]
      have hname := isNameChar_of_holds_scope (holds_of_accepts f.accepts_scope ha)
      rw [isSpacing_eq_false_of_isNameChar hname] at hspacing
      cases hspacing
  have hindent : ∀ g ∈ f.indent, isSpacing g = true := fun g hg =>
    isSpacing_of_isTypeGap (isTypeGap_of_isGap (f.isGap_of_mem_indent g hg))
  have hquals : ∀ g ∈ f.quals.getLast?, isSpacing g = true := fun g hg =>
    isSpacing_of_isTypeGap (isTypeGap_of_ends_quals (ends_of_accepts f.accepts_quals hg))
  rw [Front.stem, hscope, List.append_nil, List.append_assoc,
    typeWords_append fun g hg => hindent g (List.mem_of_getLast? hg), typeWords_of_forall hindent,
    List.nil_append, typeWords_append hquals]

/-! ### The front that is found -/

variable {p : Pattern Part} {ending : Ending} {m : List (Part × Glyph)} {name line : Text}

theorem exists_front_of_signature (hp : IsTypes p) (hname : IsHarmless name)
    (h : (signature p (word .name name) ending).label? line = some m) :
    ∃ f : Front, f.name = name ∧ labelled .types m = f.types ∧
      ∃ u, line = f.text ++ .char '(' :: u := by
  obtain ⟨a, ha, rfl, rfl⟩ := exists_anatomy_of_label? hp (isName_word hname) h
  exact ⟨a.toFront, (accepts_word_name_iff hname).mp ha.name, a.labelled_types_labels, _, rfl⟩

theorem exists_front_of_openSignature (hname : IsHarmless name)
    (h : (openSignature (word .name name)).label? line = some m) :
    ∃ f : Front, f.name = name ∧ labelled .types m = f.types ∧
      ∃ u, Glyph.char ')' ∉ u ∧ line = f.text ++ .char '(' :: u := by
  obtain ⟨hm, rfl⟩ := matches_of_label? h
  obtain ⟨f, hf, inner, hinner, rfl⟩ := (matches_openSignature_iff (isName_word hname)).mp hm
  refine ⟨f, (accepts_word_name_iff hname).mp hf.name, ?_, inner, hinner, ?_⟩
  · rw [labelled_append, labelled_map_of_ne (by decide), List.append_nil, f.labelled_types_labels]
  · rw [List.map_append, f.map_snd_labels]
    simp [Function.comp_def]

/-- If one word stands before the name and it starts a statement, then the types start one. -/
theorem Front.startsStatement_types (f : Front)
    (hlast : ∃ g ∈ f.stem.getLast?, isSpacing g = true) {k : Text} (hk : k ∈ statementKeywords)
    (hwords : typeWords f.stem = [k]) : startsStatement f.types = true := by
  have hnot : ∀ k ∈ statementKeywords, k ∉ qualifierWords := by decide
  rw [f.typeWords_stem hlast, List.append_eq_singleton_iff] at hwords
  rcases hwords with ⟨-, htypes⟩ | ⟨hquals, -⟩
  · exact startsStatement_iff.mpr ⟨k, hk, by rw [htypes]; rfl⟩
  · have hmem : k ∈ typeWords f.quals := by simp [hquals]
    exact absurd (mem_qualifierWords_of_mem_typeWords f.accepts_quals hmem) (hnot k hk)

/-- If no word before the name starts a statement, then the types do not. -/
theorem Front.startsStatement_types_eq_false (f : Front)
    (hlast : ∃ g ∈ f.stem.getLast?, isSpacing g = true)
    (hwords : ∀ w ∈ typeWords f.stem, w ∉ statementKeywords) :
    startsStatement f.types = false := by
  rw [← Bool.not_eq_true, startsStatement_iff]
  rintro ⟨k, hk, hhead⟩
  refine hwords k ?_ hk
  rw [f.typeWords_stem hlast]
  exact List.mem_append_right _ (List.mem_of_mem_head? hhead)

/-! ### The tests of the classification -/

theorem matchesWhen_iff {test : List (Part × Glyph) → Bool} :
    matchesWhen test p line = true ↔ ∃ m, p.label? line = some m ∧ test m = true := by
  rw [matchesWhen]
  cases p.label? line with
  | none => simp
  | some m => simp

theorem startsWith_cons_eq_false {g h : Glyph} (hne : g ≠ h) (t lead : Text) :
    Text.startsWith (g :: t) (h :: lead) = false := by
  rw [Text.startsWith, Text.strip?, if_neg hne]
  rfl

/-- A line that starts as a name does is neither a comment nor a preprocessor line. -/
theorem readTrimmed_of_isNameChar (hline : ∃ g ∈ line.head?, isNameChar g.toChar = true) :
    readTrimmed name line =
      if declares name line then { isDeclaration := true }
      else if defines name line then { isDefinition := true }
      else { isCall := hasCall name line } := by
  obtain ⟨g, hg, hname⟩ := hline
  obtain ⟨t, rfl⟩ := List.head?_eq_some_iff.mp hg
  have hne : ∀ {c : Char}, isNameChar c = false → g ≠ .char c := by
    rintro c hc rfl
    rw [Glyph.toChar_char, hc] at hname
    cases hname
  have hcomment : isComment (g :: t) = false := by
    rw [isComment, Bool.or_eq_false_iff, Bool.or_eq_false_iff]
    exact ⟨⟨startsWith_cons_eq_false (hne (by decide)) t _,
      startsWith_cons_eq_false (hne (by decide)) t _⟩,
      startsWith_cons_eq_false (hne (by decide)) t _⟩
  have hpreprocessor : Text.startsWith (g :: t) "#" = false :=
    startsWith_cons_eq_false (hne (by decide)) t _
  rw [readTrimmed, hcomment, hpreprocessor]
  rfl

/-- The word itself stands in the line. -/
theorem isInfix_of_hasTypedef (h : hasTypedef name line = true) :
    ("typedef" : Text) <:+: line := by
  obtain ⟨u, v, rfl, hv⟩ := anywhere_iff.mp h
  rw [Bool.and_eq_true, afterLead_iff] at hv
  obtain ⟨-, rest, rfl, -⟩ := hv
  exact ⟨u, rest, by rw [List.append_assoc]⟩

/-- The shape of a function pointer, with gaps between its parts. -/
theorem hasFunctionPointer_iff :
    hasFunctionPointer name line = true ↔ ∃ u v g₁ g₂ g₃ : Text,
      (∀ g ∈ g₁ ++ g₂ ++ g₃, Text.isGap g = true) ∧
        line = u ++ "(" ++ g₁ ++ "*" ++ g₂ ++ name ++ g₃ ++ ")" ++ v := by
  simp only [hasFunctionPointer, anywhere_iff, afterLead_iff, afterGaps_iff, List.forall_mem_append]
  constructor
  · rintro ⟨u, _, rfl, _, rfl, g₁, _, rfl, hg₁, _, rfl, g₂, _, rfl, hg₂, _, rfl, g₃, _, rfl, hg₃,
      v, rfl, -⟩
    exact ⟨u, v, g₁, g₂, g₃, ⟨⟨hg₁, hg₂⟩, hg₃⟩, by simp only [List.append_assoc]⟩
  · rintro ⟨u, v, g₁, g₂, g₃, ⟨⟨hg₁, hg₂⟩, hg₃⟩, rfl⟩
    exact ⟨u, _, by simp only [List.append_assoc], _, rfl, g₁, _, rfl, hg₁, _, rfl, g₂, _, rfl, hg₂,
      _, rfl, g₃, _, rfl, hg₃, v, rfl, trivial⟩

theorem hasFunctionPointer_append (h : hasFunctionPointer name line = true) (before after : Text) :
    hasFunctionPointer name (before ++ line ++ after) = true := by
  obtain ⟨u, v, g₁, g₂, g₃, hgaps, rfl⟩ := hasFunctionPointer_iff.mp h
  exact hasFunctionPointer_iff.mpr ⟨before ++ u, v ++ after, g₁, g₂, g₃, hgaps, by
    simp only [List.append_assoc]⟩

/-- A line in which the name is neither part of a type definition nor of a function pointer. -/
structure IsDirect (name line : Text) : Prop where
  notTypedef : ¬ ("typedef" : Text) <:+: line
  notPointer : hasFunctionPointer name line = false

/-- Lines are trimmed before they are classified. -/
theorem IsDirect.trim (h : IsDirect name line) : IsDirect name line.trim := by
  have hline := Text.eq_append_trim line
  constructor
  · intro hword
    refine h.notTypedef (hword.trans ?_)
    exact ⟨_, _, hline.symm⟩
  · rw [← Bool.not_eq_true]
    intro hpointer
    have hwhole : hasFunctionPointer name line = true := by
      rw [hline]
      exact hasFunctionPointer_append hpointer _ _
    rw [h.notPointer] at hwhole
    cases hwhole

theorem IsDirect.declares_eq (h : IsDirect name line) :
    declares name line = (matchesWhen isTyped (declaration name) line ||
      matchesWhen isTyped (openDeclaration name) line) := by
  have htypedef : hasTypedef name line = false := by
    rw [← Bool.not_eq_true]
    exact fun htypedef => h.notTypedef (isInfix_of_hasTypedef htypedef)
  rw [declares, h.notPointer, htypedef, Bool.or_false, Bool.or_false]

/-! ### Statements -/

theorem matchesWhen_eq_false {test : List (Part × Glyph) → Bool}
    (h : ∀ m, p.label? line = some m → test m = false) : matchesWhen test p line = false := by
  rw [← Bool.not_eq_true, matchesWhen_iff]
  rintro ⟨m, hm, htest⟩
  rw [h m hm] at htest
  cases htest

/-- If the types start a statement wherever the name is found, then a line can only be a call. -/
theorem readTrimmed_of_startsStatement (hname : IsHarmless name)
    (hline : ∃ g ∈ line.head?, isNameChar g.toChar = true) (hdirect : IsDirect name line)
    (hfront : ∀ f : Front, f.name = name → (∃ u, line = f.text ++ .char '(' :: u) →
      startsStatement f.types = true) :
    readTrimmed name line = { isCall := hasCall name line } := by
  have hsignature : ∀ {p ending}, IsTypes p → ∀ m,
      (signature p (word .name name) ending).label? line = some m → isTyped m = false := by
    intro p ending hp m hm
    obtain ⟨f, hf, htypes, hu⟩ := exists_front_of_signature hp hname hm
    rw [isTyped, htypes, hfront f hf hu, Bool.not_true]
  have hopen : ∀ m, (openDeclaration name).label? line = some m → isTyped m = false := by
    intro m hm
    obtain ⟨f, hf, htypes, u, -, hu⟩ := exists_front_of_openSignature hname hm
    rw [isTyped, htypes, hfront f hf ⟨u, hu⟩, Bool.not_true]
  have hdefinition : ∀ m, (definition name).label? line = some m → isTypedDefinition m = false := by
    intro m hm
    rw [isTypedDefinition, hsignature isTypes_star m hm, Bool.false_and]
  have hdeclares : declares name line = false := by
    rw [hdirect.declares_eq, matchesWhen_eq_false hopen, Bool.or_false]
    exact matchesWhen_eq_false (hsignature isTypes_plus)
  have hdefines : defines name line = false := by
    rw [defines, matchesWhen_eq_false hdefinition, Bool.false_or]
    exact matchesWhen_eq_false (hsignature isTypes_plus)
  rw [readTrimmed_of_isNameChar hline, hdeclares, hdefines]
  rfl

theorem isHarmless_of_mem_statementKeywords {k : Text} (hk : k ∈ statementKeywords) :
    IsHarmless k := by
  have hall : ∀ k ∈ statementKeywords, k ≠ [] ∧ ∀ g ∈ k, isNameChar g.toChar = true := by decide
  exact isHarmless_iff.mpr (hall k hk)

theorem exists_head?_of_isHarmless {w : Text} (hw : IsHarmless w) (t : Text) :
    ∃ g ∈ (w ++ t).head?, isNameChar g.toChar = true := by
  obtain ⟨g, w', rfl⟩ := List.exists_cons_of_ne_nil hw.ne_nil
  exact ⟨g, rfl, (isHarmless_iff.mp hw).2 g (List.mem_cons_self ..)⟩

theorem isBlank_head?_of_isNameChar {t : Text} (h : ∃ g ∈ t.head?, isNameChar g.toChar = true) :
    ∀ g ∈ t.head?, Text.isBlank g = false := by
  obtain ⟨g, hg, hname⟩ := h
  intro g' hg'
  obtain rfl : g = g' := Option.some.inj (hg.symm.trans hg')
  exact isBlank_eq_false_of_isNameChar hname

/-- A keyword and spacing before the name are all the types that can be found. -/
theorem Front.startsStatement_of_keyword (f : Front) {k sep u v : Text}
    (hk : k ∈ statementKeywords) (hne : sep ≠ []) (hsep : ∀ g ∈ sep, isSpacing g = true)
    (h : k ++ sep ++ f.name ++ .char '(' :: v = f.text ++ .char '(' :: u) :
    startsStatement f.types = true := by
  have hharmless := isHarmless_of_mem_statementKeywords hk
  have hparen : Glyph.char '(' ∉ k ++ sep := by
    rw [List.mem_append]
    rintro (hmem | hmem)
    · exact absurd ((isHarmless_iff.mp hharmless).2 _ hmem) (by decide)
    · exact absurd (hsep _ hmem) (by decide)
  have hstem : f.stem = k ++ sep := (stem_eq_of_append hparen h.symm).1
  obtain ⟨g, sep, rfl⟩ := List.exists_cons_of_ne_nil hne
  obtain ⟨hg, hrest⟩ := List.forall_mem_cons.mp hsep
  refine f.startsStatement_types ?_ hk ?_
  · rw [hstem, List.getLast?_append_of_ne_nil _ hne]
    exact ⟨_, List.getLast?_eq_some_getLast hne, hsep _ (List.getLast_mem hne)⟩
  · rw [hstem, typeWords_append_cons k hg, typeWords_of_isHarmless hharmless,
      typeWords_of_forall hrest, List.append_nil]

/-- Behind a keyword that starts a statement the name is called, whatever follows its opening
parenthesis: it may look like the rest of a declaration or of a definition. -/
theorem statement_keywords_keep_calls {indent k sep name r : Text}
    (hindent : ∀ g ∈ indent, Text.isBlank g = true) (hk : k ∈ statementKeywords) (hne : sep ≠ [])
    (hsep : ∀ g ∈ sep, isSpacing g = true) (hname : validate name = .ok ())
    (hdirect : IsDirect name (indent ++ k ++ sep ++ name ++ "(" ++ r)) :
    classify name (indent ++ k ++ sep ++ name ++ "(" ++ r) = { isCall := true } := by
  have hharmless := isHarmless_of_validate hname
  have hstart := exists_head?_of_isHarmless (isHarmless_of_mem_statementKeywords hk)
  have htrim : (indent ++ k ++ sep ++ name ++ "(" ++ r : Text).trim =
      k ++ sep ++ name ++ .char '(' :: Text.dropEndWhile Text.isBlank r := by
    have hhead := isBlank_head?_of_isNameChar (hstart (sep ++ name))
    rw [← List.append_assoc] at hhead
    rw [← Text.trim_append hindent hhead (by decide)]
    congr 1
    simp only [List.append_assoc]
    rfl
  have hcall : hasCall name (k ++ sep ++ name ++ .char '(' :: Text.dropEndWhile Text.isBlank r) =
      true := by
    refine hasCall_iff.mpr ⟨k ++ sep, _, List.append_assoc _ _ _, fun g hg => ?_, ?_⟩
    · rw [List.getLast?_append_of_ne_nil _ hne] at hg
      rw [← Bool.not_eq_true]
      intro hword
      have hspacing := hsep g (List.mem_of_getLast? hg)
      rw [isSpacing_eq_false_of_isNameChar (isNameChar_of_isWordChar hword)] at hspacing
      cases hspacing
    · exact afterLead_iff.mpr ⟨_, rfl, afterGaps_iff.mpr ⟨[], _, rfl, by simp,
        afterLead_iff.mpr ⟨_, rfl, rfl⟩⟩⟩
  have hread := hdirect.trim
  rw [htrim] at hread
  rw [classify, htrim, readTrimmed_of_startsStatement hharmless _ hread, hcall]
  · rintro f rfl ⟨u, hu⟩
    exact f.startsStatement_of_keyword hk hne hsep hu
  · simpa only [List.append_assoc] using hstart _

/-- The rest of the line would be a definition, and there is another call in it. -/
theorem keyword_before_definition :
    classify "ns::~f" "\t return *&ns::~f(int) \x7b ns::~f(0); \x7d " = { isCall := true } := by
  have hdirect : IsDirect "ns::~f" "\t return *&ns::~f(int) \x7b ns::~f(0); \x7d " :=
    ⟨by decide +kernel, by decide +kernel⟩
  exact @statement_keywords_keep_calls "\t " "return" " *&" "ns::~f" "int) \x7b ns::~f(0); \x7d "
    (by decide) (by decide) (by decide) (by decide) rfl hdirect

/-! ### Signatures -/

/-- Words with a blank behind each. -/
def spaced (ts : List Text) : Text := ts.flatMap fun t => t ++ (" " : Text)

/-- Types, a name and parameters, with single blanks between them. -/
def signatureLine (ts : List Text) (name params : Text) : Text :=
  spaced ts ++ name ++ "(" ++ params ++ ")"

theorem spaced_cons (t : Text) (ts : List Text) :
    spaced (t :: ts) = t ++ .char ' ' :: spaced ts := by
  rw [spaced, List.flatMap_cons, List.append_assoc]
  rfl

theorem signatureLine_append (ts : List Text) (name params tail : Text) :
    signatureLine ts name params ++ tail =
      spaced ts ++ name ++ .char '(' :: (params ++ .char ')' :: tail) := by
  simp only [signatureLine, List.append_assoc]
  rfl

theorem accepts_typeToken_of_isIdentifier {t : Text} (ht : IsIdentifier t) :
    typeToken.accepts (t ++ " ") = true := by
  have hblank : (plus (one .typeGap Part.types)).accepts " " = true := by decide +kernel
  have hscopes : (star (seq (colons .types) (identifier .types))).accepts [] = true :=
    accepts_star_iff.mpr ⟨[], by simp, rfl⟩
  simp only [typeToken, seqs, accepts_seq_iff, accepts_identifier_iff]
  refine ⟨t, _, rfl, ht, [], _, rfl, hscopes, [], _, rfl, ?_, hblank⟩
  rw [opt, accepts_alt_iff, accepts_empty_iff]
  exact .inr rfl

theorem accepts_spaced {ts : List Text} (hts : ∀ t ∈ ts, IsIdentifier t) :
    (star typeToken).accepts (spaced ts) = true := by
  refine accepts_star_iff.mpr ⟨ts.map fun t => t ++ (" " : Text), fun u hu => ?_, rfl⟩
  obtain ⟨t, ht, rfl⟩ := List.mem_map.mp hu
  exact accepts_typeToken_of_isIdentifier (hts t ht)

/-- Identifiers hold no blanks, so they come back one by one. -/
theorem typeWords_spaced {ts : List Text} (hts : ∀ t ∈ ts, IsIdentifier t) :
    typeWords (spaced ts) = ts := by
  induction ts with
  | nil => rfl
  | cons t ts ih =>
    obtain ⟨ht, hts⟩ := List.forall_mem_cons.mp hts
    rw [spaced_cons, typeWords_append_cons t (by decide), ih hts,
      typeWords_of_isHarmless (isHarmless_of_isIdentifier ht), List.singleton_append]

/-- What a list of types, a name and parameters have to be for a signature. -/
structure IsSignature (ts : List Text) (name params : Text) : Prop where
  ne_nil : ts ≠ []
  isIdentifier : ∀ t ∈ ts, IsIdentifier t
  notMem_keywords : ∀ t ∈ ts, t ∉ statementKeywords
  isIdentifier_name : IsIdentifier name
  notMem_params : Glyph.char ')' ∉ params

namespace IsSignature

variable {ts : List Text} {params tail : Text} (h : IsSignature ts name params)

/-- The anatomy of the line in which all the words are types. -/
def anatomy (tail : Text) : Anatomy where
  indent := []
  quals := []
  types := spaced ts
  scope := []
  name := name
  gap := []
  inner := params
  tail := tail
  isGap_of_mem_indent := by simp
  accepts_quals := accepts_star_iff.mpr ⟨[], by simp, rfl⟩
  accepts_types := accepts_spaced h.isIdentifier
  accepts_scope := accepts_star_iff.mpr ⟨[], by simp, rfl⟩
  isHarmless_name := isHarmless_of_isIdentifier h.isIdentifier_name
  isGap_of_mem_gap := by simp
  notMem_inner := h.notMem_params

theorem text_anatomy (tail : Text) :
    (h.anatomy tail).text = signatureLine ts name params ++ tail := by
  rw [signatureLine_append]
  simp [anatomy, Anatomy.text, Front.text, Front.stem]

include h

theorem isHarmless_name : IsHarmless name := isHarmless_of_isIdentifier h.isIdentifier_name

theorem getLast?_spaced : (spaced ts).getLast? = some (.char ' ') := by
  obtain ⟨ts', t, hts⟩ := (List.eq_nil_or_concat ts).resolve_left h.ne_nil
  rw [hts, List.concat_eq_append, spaced, List.flatMap_append, List.flatMap_singleton,
    ← List.append_assoc]
  exact List.getLast?_concat

/-- Whichever of the words are found as types, they start no statement. -/
theorem startsStatement_eq_false {f : Front} {u : Text} (hf : f.name = name)
    (hline : signatureLine ts name params ++ tail = f.text ++ .char '(' :: u) :
    startsStatement f.types = false := by
  subst hf
  have hparen : Glyph.char '(' ∉ spaced ts :=
    notMem_of_accepts (by decide) (accepts_spaced h.isIdentifier)
  rw [signatureLine_append] at hline
  have hstem : f.stem = spaced ts := (Front.stem_eq_of_append hparen hline.symm).1
  refine f.startsStatement_types_eq_false ⟨.char ' ', ?_, by decide⟩ ?_
  · rw [hstem]
    exact h.getLast?_spaced
  · rw [hstem, typeWords_spaced h.isIdentifier]
    exact h.notMem_keywords

theorem exists_label? {p : Pattern Part} (hp : IsTypes p) (hspaced : p.accepts (spaced ts) = true)
    {e : Ending} {tail : Text} (htail : (seq trailers e.pattern).accepts tail = true) :
    ∃ m, (signature p (word .name name) e).label? (signatureLine ts name params ++ tail) =
      some m := by
  have haccepts : (signature p (word .name name) e).accepts
      (signatureLine ts name params ++ tail) = true := by
    refine (accepts_signature_iff hp (isName_word h.isHarmless_name)).mpr
      ⟨h.anatomy tail, ⟨⟨hspaced, ?_⟩, htail⟩, h.text_anatomy tail⟩
    exact accepts_word_iff.mpr rfl
  exact Option.isSome_iff_exists.mp haccepts

theorem accepts_plus : (plus typeToken).accepts (spaced ts) = true := by
  refine (accepts_plus_iff (by decide)).mpr ⟨?_, accepts_spaced h.isIdentifier⟩
  intro hnil
  have hlast := h.getLast?_spaced
  rw [hnil] at hlast
  cases hlast

theorem isTyped_of_label? {p : Pattern Part} {ending : Ending} (hp : IsTypes p)
    (hm : (signature p (word .name name) ending).label? (signatureLine ts name params ++ tail) =
      some m) : isTyped m = true := by
  obtain ⟨f, hf, htypes, u, hu⟩ := exists_front_of_signature hp h.isHarmless_name hm
  rw [isTyped, htypes, h.startsStatement_eq_false hf hu, Bool.not_false]

theorem isUntypedCall_of_label? {p : Pattern Part} {ending : Ending} (hp : IsTypes p)
    (hinner : Glyph.char '(' ∉ params)
    (hm : (signature p (word .name name) ending).label? (signatureLine ts name params ++ tail) =
      some m) : isUntypedCall m = false := by
  obtain ⟨a, -, ha, rfl⟩ := exists_anatomy_of_label? hp (isName_word h.isHarmless_name) hm
  have hparams : a.inner = params := (Anatomy.text_inj (ha.trans (h.text_anatomy tail).symm)).2.1
  rw [isUntypedCall, Bool.and_eq_false_iff]
  right
  rwa [← Bool.not_eq_true, a.hasInnerParen_iff, hparams]

/-- The line is not a declaration unless a semicolon comes first behind the parameters. -/
theorem declares_eq_false (hdirect : IsDirect name (signatureLine ts name params ++ tail))
    (htail : (tail.dropWhile isTrailing).head? ≠ some (.char ';')) :
    declares name (signatureLine ts name params ++ tail) = false := by
  have hdeclaration : ∀ m, (declaration name).label? (signatureLine ts name params ++ tail) =
      some m → isTyped m = false := by
    intro m hm
    obtain ⟨a, hfits, ha, -⟩ :=
      exists_anatomy_of_label? isTypes_plus (isName_word h.isHarmless_name) hm
    have hatail : a.tail = tail := (Anatomy.text_inj (ha.trans (h.text_anatomy tail).symm)).2.2
    rw [← hatail] at htail
    exact absurd (head?_dropWhile_tail_mark (by decide) (by decide) hfits.tail) htail
  have hopen : ∀ m, (openDeclaration name).label? (signatureLine ts name params ++ tail) =
      some m → isTyped m = false := by
    intro m hm
    obtain ⟨f, -, -, u, hu, hline⟩ := exists_front_of_openSignature h.isHarmless_name hm
    -- The line is not open, for the parenthesis is closed.
    have hmem : Glyph.char ')' ∈ f.text ++ .char '(' :: u := by
      rw [← hline]
      simp [signatureLine_append]
    rcases List.mem_append.mp hmem with hfront | hrest
    · exact absurd hfront (f.notMem_text (.inr rfl))
    · exact absurd ((List.mem_cons.mp hrest).resolve_left (by decide)) hu
  rw [hdirect.declares_eq, matchesWhen_eq_false hdeclaration, matchesWhen_eq_false hopen,
    Bool.or_false]

theorem exists_head?_spaced (u : Text) :
    ∃ g ∈ (spaced ts ++ u).head?, isNameChar g.toChar = true := by
  obtain ⟨t, ts', rfl⟩ := List.exists_cons_of_ne_nil h.ne_nil
  rw [spaced_cons, List.append_assoc]
  exact exists_head?_of_isHarmless
    (isHarmless_of_isIdentifier (h.isIdentifier t (List.mem_cons_self ..))) _

/-- Blanks are only taken from what follows the parameters. -/
theorem trim_eq (tail : Text) :
    (signatureLine ts name params ++ tail).trim =
      signatureLine ts name params ++ Text.dropEndWhile Text.isBlank tail := by
  have hhead := isBlank_head?_of_isNameChar (h.exists_head?_spaced (name ++ .char '(' :: params))
  have htrim := Text.trim_append (u := []) (c := .char ')') (w := tail) (by simp) hhead (by decide)
  rw [signatureLine_append, signatureLine_append]
  simpa only [List.nil_append, List.append_assoc, List.cons_append] using htrim

theorem readTrimmed_eq (tail : Text) :
    readTrimmed name (signatureLine ts name params ++ tail) =
      if declares name (signatureLine ts name params ++ tail) then { isDeclaration := true }
      else if defines name (signatureLine ts name params ++ tail) then { isDefinition := true }
      else { isCall := hasCall name (signatureLine ts name params ++ tail) } := by
  refine readTrimmed_of_isNameChar ?_
  rw [signatureLine_append, List.append_assoc]
  exact h.exists_head?_spaced _

/-- A semicolon behind the parameters makes a declaration. -/
theorem readTrimmed_semicolon :
    readTrimmed name (signatureLine ts name params ++ ";") = { isDeclaration := true } := by
  have htail : (seq trailers (Ending.mark ';').pattern).accepts ";" = true := by decide +kernel
  obtain ⟨m, hm⟩ := h.exists_label? isTypes_plus h.accepts_plus htail
  have hdeclaration : matchesWhen isTyped (declaration name)
      (signatureLine ts name params ++ ";") = true :=
    matchesWhen_iff.mpr ⟨m, hm, h.isTyped_of_label? isTypes_plus hm⟩
  rw [h.readTrimmed_eq, declares, hdeclaration]
  rfl

/-- A brace behind the parameters makes a definition. -/
theorem readTrimmed_brace (hinner : Glyph.char '(' ∉ params) {rest : Text}
    (hdirect : IsDirect name (signatureLine ts name params ++ (" \x7b" ++ rest))) :
    readTrimmed name (signatureLine ts name params ++ (" \x7b" ++ rest)) =
      { isDefinition := true } := by
  have htail : (seq trailers (Ending.mark '\x7b').pattern).accepts (" \x7b" ++ rest) = true :=
    (accepts_tail_mark_iff (by decide)).mpr ⟨[], " ", rest, by decide +kernel, by decide, rfl⟩
  obtain ⟨m, hm⟩ := h.exists_label? isTypes_star (accepts_spaced h.isIdentifier) htail
  have hdefinition : matchesWhen isTypedDefinition (definition name)
      (signatureLine ts name params ++ (" \x7b" ++ rest)) = true := by
    refine matchesWhen_iff.mpr ⟨m, hm, ?_⟩
    rw [isTypedDefinition, h.isTyped_of_label? isTypes_star hm,
      h.isUntypedCall_of_label? isTypes_star hinner hm]
    rfl
  have hmark : ((" \x7b" ++ rest : Text).dropWhile isTrailing).head? ≠ some (.char ';') := by
    rw [head?_dropWhile_tail_mark (by decide) (by decide) htail]
    decide
  rw [h.readTrimmed_eq, h.declares_eq_false hdirect hmark, defines, hdefinition]
  rfl

/-- Without either the line is the header of a definition. -/
theorem readTrimmed_bare (hdirect : IsDirect name (signatureLine ts name params ++ [])) :
    readTrimmed name (signatureLine ts name params ++ []) = { isDefinition := true } := by
  have htail : (seq trailers Ending.eol.pattern).accepts [] = true := by decide +kernel
  obtain ⟨m, hm⟩ := h.exists_label? isTypes_plus h.accepts_plus htail
  have hheader : matchesWhen isTyped (header name) (signatureLine ts name params ++ []) = true :=
    matchesWhen_iff.mpr ⟨m, hm, h.isTyped_of_label? isTypes_plus hm⟩
  rw [h.readTrimmed_eq, h.declares_eq_false hdirect (by simp), defines, hheader, Bool.or_true]
  rfl

end IsSignature

/-- A line of types, a name and parameters declares or defines the name. Which of the words are
found as types is left to the order of preference, and the rest of the line may hold calls. -/
theorem typed_signatures_are_never_calls {ts : List Text} {name params : Text} (hne : ts ≠ [])
    (hts : ∀ t ∈ ts, IsIdentifier t ∧ t ∉ statementKeywords) (hname : IsIdentifier name)
    (hparams : Glyph.char ')' ∉ params) :
    classify name (signatureLine ts name params ++ ";") = { isDeclaration := true } ∧
      (Glyph.char '(' ∉ params →
        (∀ rest, IsDirect name (signatureLine ts name params ++ " \x7b" ++ rest) →
          classify name (signatureLine ts name params ++ " \x7b" ++ rest) =
            { isDefinition := true }) ∧
        (IsDirect name (signatureLine ts name params) →
          classify name (signatureLine ts name params) = { isDefinition := true })) := by
  have h : IsSignature ts name params :=
    ⟨hne, fun t ht => (hts t ht).1, fun t ht => (hts t ht).2, hname, hparams⟩
  refine ⟨?_, fun hinner => ⟨fun rest hdirect => ?_, fun hdirect => ?_⟩⟩
  · rw [classify, h.trim_eq]
    exact h.readTrimmed_semicolon
  · have hrest : Text.dropEndWhile Text.isBlank (" \x7b" ++ rest) =
        " \x7b" ++ Text.dropEndWhile Text.isBlank rest :=
      Text.dropEndWhile_append_cons (by decide) " " rest
    have hread := hdirect.trim
    rw [List.append_assoc, h.trim_eq, hrest] at hread
    rw [classify, List.append_assoc, h.trim_eq, hrest]
    exact h.readTrimmed_brace hinner hread
  · have hread := hdirect.trim
    rw [← List.append_nil (signatureLine ts name params)] at hread ⊢
    rw [h.trim_eq] at hread
    rw [classify, h.trim_eq]
    exact h.readTrimmed_bare hread

/-- The qualifier is the only type, and the body calls the function. -/
theorem qualified_signature_is_never_call :
    classify "f" "static f(int n);" = { isDeclaration := true } ∧
      classify "f" "static f(int n) \x7b return f(n - 1); \x7d " = { isDefinition := true } ∧
      classify "f" "static f(int n)" = { isDefinition := true } := by
  have hname : IsIdentifier "f" := ⟨'f', [], by decide, by simp, rfl⟩
  have hstatic : IsIdentifier "static" :=
    (accepts_identifier_iff (l := .types)).mp (by decide +kernel)
  have htypes : ∀ t ∈ [("static" : Text)], IsIdentifier t ∧ t ∉ statementKeywords := by
    intro t ht
    rw [List.mem_singleton.mp ht]
    exact ⟨hstatic, by decide⟩
  have hbrace : IsDirect "f" "static f(int n) \x7b return f(n - 1); \x7d " :=
    ⟨by decide +kernel, by decide +kernel⟩
  have hbare : IsDirect "f" "static f(int n)" := ⟨by decide +kernel, by decide +kernel⟩
  obtain ⟨hdeclaration, hdefinition⟩ := @typed_signatures_are_never_calls ["static"] "f" "int n"
    (by simp) htypes hname (by decide)
  exact ⟨hdeclaration, (hdefinition (by decide)).1 " return f(n - 1); \x7d " hbrace,
    (hdefinition (by decide)).2 hbare⟩

end Line

end CallerTree
