import CallerTree.Proofs.Statements

/-!
# Names as whole words

A line may hold the name of a function inside a longer name. Whatever the classification finds in a
line, it finds the name as a word of its own.

## Why every shape keeps to words

Each shape has something else that holds the two edges of the name. Behind a signature or a call
there are gaps and a parenthesis, and behind the name in a function pointer likewise. In front there
is the end of the qualifiers, the types or the scope of a signature (`Front.isOwn_getLast?_stem`),
the star of a function pointer, or the glyph that a call looks back at. Only a type definition asks
for the two edges of a word as such. A line is read without the blanks at its ends, and a blank is
no part of a word, so a word of what is left is a word of the line.

## Main definitions

* `Line.HasWord` — the name stands in the text as a word

## Main results

* `Line.hasWord_of_kind_ne_reference` — what is found is a word
* `Line.occurrences_are_whole_words` — and a word that is called is found
-/

namespace CallerTree

namespace Line

open Pattern FunctionName

variable {name line t : Text}

/-- The name stands somewhere in the text, with no word character next to it. -/
def HasWord (name t : Text) : Prop :=
  ∃ before after : Text, t = before ++ name ++ after ∧
    (∀ g ∈ before.getLast?, isWordGlyph g = false) ∧ ∀ g ∈ after.head?, isWordGlyph g = false

/-- The name as a word at one position, given the glyph before it. -/
def wordAt (name : Text) (before : Option Glyph) (t : Text) : Bool :=
  !before.any isWordGlyph && afterLead name (fun rest => !rest.head?.any isWordGlyph) t

theorem anywhere_wordAt_iff : anywhere (wordAt name) none t = true ↔ HasWord name t := by
  simp only [anywhere_iff, wordAt, Bool.and_eq_true, afterLead_iff, Option.or_none,
    Bool.not_eq_true', Option.any_eq_false]
  constructor
  · rintro ⟨before, _, rfl, hbefore, after, rfl, hafter⟩
    exact ⟨before, after, (List.append_assoc _ _ _).symm, by simpa using hbefore,
      by simpa using hafter⟩
  · rintro ⟨before, after, rfl, hbefore, hafter⟩
    exact ⟨before, _, List.append_assoc _ _ _, by simpa using hbefore, after, rfl,
      by simpa using hafter⟩

instance (name t : Text) : Decidable (HasWord name t) := decidable_of_iff _ anywhere_wordAt_iff

/-! ### The edges of a word -/

theorem isWordGlyph_eq_false_of_isBlank {g : Glyph} (h : Text.isBlank g = true) :
    isWordGlyph g = false := by
  rw [← Bool.not_eq_true]
  intro hword
  rw [isBlank_eq_false_of_isNameChar (isNameChar_of_isWordChar hword)] at h
  cases h

theorem isWordGlyph_eq_false_of_isGap {g : Glyph} (h : Text.isGap g = true) :
    isWordGlyph g = false :=
  isWordGlyph_eq_false_of_isBlank (Text.isBlankChar_of_isGapChar h)

/-- Gaps and then a glyph outside words end a word. -/
theorem isWordGlyph_head?_gaps {gaps : Text} (hgaps : ∀ g ∈ gaps, Text.isGap g = true) {c : Glyph}
    (hc : isWordGlyph c = false) (rest : Text) :
    ∀ g ∈ (gaps ++ c :: rest).head?, isWordGlyph g = false := by
  intro g hg
  cases gaps with
  | nil =>
    obtain rfl : c = g := Option.some.inj hg
    exact hc
  | cons g' gaps =>
    obtain rfl : g' = g := Option.some.inj hg
    exact isWordGlyph_eq_false_of_isGap (hgaps g' List.mem_cons_self)

/-- The surroundings must not make the word longer. -/
theorem HasWord.append {before after : Text} (h : HasWord name t)
    (hbefore : ∀ g ∈ before.getLast?, isWordGlyph g = false)
    (hafter : ∀ g ∈ after.head?, isWordGlyph g = false) : HasWord name (before ++ t ++ after) := by
  obtain ⟨u, v, rfl, hu, hv⟩ := h
  refine ⟨before ++ u, v ++ after, by simp only [List.append_assoc],
    forall_getLast?_append hbefore hu, fun g hg => ?_⟩
  cases v with
  | nil => exact hafter g hg
  | cons g' v => exact hv g hg

/-- A word of what trimming leaves is a word of the line. -/
theorem HasWord.of_trim (h : HasWord name line.trim) : HasWord name line := by
  rw [Text.eq_append_trim line]
  refine h.append (fun g hg => ?_) (fun g hg => ?_)
  · exact isWordGlyph_eq_false_of_isBlank (List.mem_takeWhile_imp (List.mem_of_getLast? hg))
  · have hmem := List.mem_of_mem_head? hg
    exact isWordGlyph_eq_false_of_isBlank (List.mem_takeWhile_imp (List.mem_reverse.mp hmem))

/-! ### The shapes -/

/-- Behind the stem of a signature the name is a word. -/
theorem Front.hasWord (f : Front) (u : Text) : HasWord f.name (f.text ++ .char '(' :: u) := by
  refine ⟨f.stem, f.gap ++ .char '(' :: u, by simp [Front.text], fun g hg => ?_,
    isWordGlyph_head?_gaps f.isGap_of_mem_gap (by decide) u⟩
  exact (Bool.or_eq_false_iff.mp (f.isOwn_getLast?_stem g hg)).1

theorem hasWord_of_hasFunctionPointer (h : hasFunctionPointer name line = true) :
    HasWord name line := by
  obtain ⟨u, v, g₁, g₂, g₃, hgaps, rfl⟩ := hasFunctionPointer_iff.mp h
  obtain ⟨hgaps, hg₃⟩ := List.forall_mem_append.mp hgaps
  refine ⟨u ++ "(" ++ g₁ ++ "*" ++ g₂, g₃ ++ .char ')' :: v, ?_, ?_,
    isWordGlyph_head?_gaps hg₃ (by decide) v⟩
  · simp only [List.append_assoc]
    rfl
  · refine forall_getLast?_append (fun g hg => ?_) fun g hg => ?_
    · have hlast : (u ++ "(" ++ g₁ ++ "*" : Text).getLast? = some (.char '*') :=
        List.getLast?_concat
      obtain rfl : Glyph.char '*' = g := Option.some.inj (hlast.symm.trans hg)
      decide
    · exact isWordGlyph_eq_false_of_isGap
        ((List.forall_mem_append.mp hgaps).2 g (List.mem_of_getLast? hg))

/-- The name is found at the two edges of a word. -/
theorem exists_of_hasWordOnLine {before : Option Glyph} (hne : name ≠ [])
    (h : hasWordOnLine name before t = true) :
    ∃ u v : Text, t = u ++ name ++ v ∧
      isBoundary (u.getLast?.or before) (name ++ v).head? = true ∧
        isBoundary name.getLast? v.head? = true := by
  induction t generalizing before with
  | nil => simp [hasWordOnLine, hne] at h
  | cons g t ih =>
    rw [hasWordOnLine, Bool.or_eq_true, Bool.and_eq_true, Bool.and_eq_true, afterLead_iff] at h
    rcases h with ⟨hstart, v, hv, hend⟩ | ⟨-, hlater⟩
    · refine ⟨[], v, hv, ?_, ?_⟩
      · rw [← hv]
        exact hstart
      · rwa [List.getLast?_eq_some_getLast hne] at hend ⊢
    · obtain ⟨u, v, rfl, hstart, hend⟩ := ih hlater
      exact ⟨g :: u, v, rfl, by simpa [List.getLast?_cons] using hstart, hend⟩

/-- An identifier that stands between two edges is a word. -/
theorem hasWord_of_hasTypedef (hname : IsIdentifier name) (h : hasTypedef name line = true) :
    HasWord name line := by
  have hword := isWordGlyph_of_isIdentifier hname
  have hne : name ≠ [] := (isHarmless_of_isIdentifier hname).ne_nil
  obtain ⟨w, _, rfl, hw⟩ := anywhere_iff.mp h
  rw [Bool.and_eq_true, afterLead_iff] at hw
  obtain ⟨-, rest, rfl, hrest⟩ := hw
  obtain ⟨u, v, rfl, hstart, hend⟩ := exists_of_hasWordOnLine hne (Bool.and_eq_true_iff.mp hrest).2
  refine ⟨w ++ "typedef" ++ u, v, by simp only [List.append_assoc], fun g hg => ?_, fun g hg => ?_⟩
  · obtain ⟨c, name, rfl⟩ := List.exists_cons_of_ne_nil hne
    have hlast : (u.getLast?.or (some (.char 'f'))) = some g := by
      rw [← hg, List.getLast?_append, List.getLast?_append]
      rfl
    rw [hlast] at hstart
    simpa [isBoundary, hword c List.mem_cons_self] using hstart
  · have hlast := List.getLast?_eq_some_getLast hne
    rw [hlast, hg] at hend
    simpa [isBoundary, hword _ (List.getLast_mem hne)] using hend

theorem callAt_iff : callAt name t = true ↔
    ∃ gaps rest : Text, t = name ++ gaps ++ .char '(' :: rest ∧
      ∀ g ∈ gaps, Text.isGap g = true := by
  simp only [callAt, afterLead_iff, afterGaps_iff]
  constructor
  · rintro ⟨_, rfl, gaps, _, rfl, hgaps, rest, rfl, -⟩
    exact ⟨gaps, rest, by simp only [List.append_assoc]; rfl, hgaps⟩
  · rintro ⟨gaps, rest, rfl, hgaps⟩
    exact ⟨_, List.append_assoc _ _ _, gaps, _, rfl, hgaps, rest, rfl, trivial⟩

theorem hasWord_of_hasCall (h : hasCall name line = true) : HasWord name line := by
  obtain ⟨u, v, rfl, hu, hcall⟩ := hasCall_iff.mp h
  obtain ⟨gaps, rest, rfl, hgaps⟩ := callAt_iff.mp hcall
  exact ⟨u, gaps ++ .char '(' :: rest, by simp only [List.append_assoc], hu,
    isWordGlyph_head?_gaps hgaps (by decide) rest⟩

theorem hasWord_of_signature {p : Pattern Part} {e : Ending} (hp : IsTypes p)
    (hname : IsHarmless name) {test : List (Part × Glyph) → Bool}
    (h : matchesWhen test (signature p (word .name name) e) line = true) : HasWord name line := by
  obtain ⟨m, hm, -⟩ := matchesWhen_iff.mp h
  obtain ⟨f, rfl, -, u, rfl⟩ := exists_front_of_signature hp hname hm
  exact f.hasWord u

theorem hasWord_of_openDeclaration (hname : IsHarmless name) {test : List (Part × Glyph) → Bool}
    (h : matchesWhen test (openDeclaration name) line = true) : HasWord name line := by
  obtain ⟨m, hm, -⟩ := matchesWhen_iff.mp h
  obtain ⟨f, rfl, -, u, -, rfl⟩ := exists_front_of_openSignature hname hm
  exact f.hasWord u

/-! ### The classification -/

theorem hasWord_of_declares (hname : IsIdentifier name) (h : declares name line = true) :
    HasWord name line := by
  have hharmless := isHarmless_of_isIdentifier hname
  rw [declares, Bool.or_eq_true, Bool.or_eq_true, Bool.or_eq_true] at h
  rcases h with ((hdeclaration | hopen) | hpointer) | htypedef
  · exact hasWord_of_signature isTypes_plus hharmless hdeclaration
  · exact hasWord_of_openDeclaration hharmless hopen
  · exact hasWord_of_hasFunctionPointer hpointer
  · exact hasWord_of_hasTypedef hname htypedef

theorem hasWord_of_defines (hname : IsIdentifier name) (h : defines name line = true) :
    HasWord name line := by
  have hharmless := isHarmless_of_isIdentifier hname
  rcases Bool.or_eq_true_iff.mp h with hdefinition | hheader
  · exact hasWord_of_signature isTypes_star hharmless hdefinition
  · exact hasWord_of_signature isTypes_plus hharmless hheader

/-- A line that says something is seen to declare, to define or to call. -/
theorem exists_of_readTrimmed_ne (h : readTrimmed name line ≠ {}) :
    declares name line = true ∨ defines name line = true ∨ hasCall name line = true := by
  by_contra hnone
  simp only [not_or, Bool.not_eq_true] at hnone
  obtain ⟨hdeclares, hdefines, hcall⟩ := hnone
  refine h ?_
  rw [readTrimmed, hdeclares, hdefines, hcall]
  simp

theorem Reading.kind_eq_reference_iff (r : Reading) : r.kind = .reference ↔ r = {} := by
  obtain ⟨isDeclaration, isDefinition, isCall⟩ := r
  cases isDeclaration <;> cases isDefinition <;> cases isCall <;> simp [Reading.kind]

/-- What is found in a line is a word of it. -/
theorem hasWord_of_kind_ne_reference (hname : IsIdentifier name)
    (h : (classify name line).kind ≠ .reference) : HasWord name line := by
  refine HasWord.of_trim ?_
  have hread := mt (Reading.kind_eq_reference_iff _).mpr h
  rcases exists_of_readTrimmed_ne hread with hfound | hfound | hfound
  · exact hasWord_of_declares hname hfound
  · exact hasWord_of_defines hname hfound
  · exact hasWord_of_hasCall hfound

/-- A call is not touched by trimming. -/
theorem hasCall_trim (hname : IsIdentifier name) (h : hasCall name line = true) :
    hasCall name line.trim = true := by
  obtain ⟨u, v, rfl, hu, hcall⟩ := hasCall_iff.mp h
  obtain ⟨gaps, rest, rfl, hgaps⟩ := callAt_iff.mp hcall
  have hhead : ∀ g ∈ (u.dropWhile Text.isBlank ++ (name ++ gaps)).head?,
      Text.isBlank g = false := by
    have hdrop := List.head?_dropWhile_not Text.isBlank u
    cases hfront : u.dropWhile Text.isBlank with
    | nil =>
      exact isBlank_head?_of_isNameChar
        (exists_head?_of_isHarmless (isHarmless_of_isIdentifier hname) gaps)
    | cons g front =>
      rw [hfront] at hdrop
      simpa using hdrop
  have htrim := Text.trim_append (u := u.takeWhile Text.isBlank) (c := .char '(') (w := rest)
    (fun g hg => List.mem_takeWhile_imp hg) hhead (by decide)
  rw [← List.append_assoc, List.takeWhile_append_dropWhile, List.append_assoc] at htrim
  rw [htrim, List.append_assoc]
  refine hasCall_iff.mpr ⟨_, _, rfl, fun g hg => ?_, callAt_iff.mpr ⟨gaps, _, rfl, hgaps⟩⟩
  refine hu g ?_
  rw [← List.takeWhile_append_dropWhile (p := Text.isBlank) (l := u), List.getLast?_append, hg]
  rfl

/-- In a line that is neither a comment nor for the preprocessor every call counts. -/
theorem kind_ne_reference_of_hasCall (hname : IsIdentifier name) (hcall : hasCall name line = true)
    (hcomment : isComment line.trim = false) (hdirective : line.trim.startsWith "#" = false) :
    (classify name line).kind ≠ .reference := by
  have hcall := hasCall_trim hname hcall
  have hne : line.trim.isEmpty = false := by
    obtain ⟨u, v, htrim, -, hv⟩ := hasCall_iff.mp hcall
    obtain ⟨gaps, rest, rfl, -⟩ := callAt_iff.mp hv
    rw [htrim]
    simp
  rw [Ne, Reading.kind_eq_reference_iff, classify, readTrimmed, hne, hcomment, hdirective,
    hcall]
  cases declares name line.trim <;> cases defines name line.trim <;> simp

/-- A line declares, defines or calls a function only if the name of the function is a word of the
line; a name that is merely part of longer names is not found at all. The other way round, a name
that starts a word and has an opening parenthesis behind it is always found, unless the line is a
comment or a directive. -/
theorem occurrences_are_whole_words {name line : Text} (hname : IsIdentifier name) :
    ((classify name line).kind ≠ .reference → HasWord name line) ∧
      (¬ HasWord name line → classify name line = {}) ∧
      ∀ before gaps after : Text, line = before ++ name ++ gaps ++ "(" ++ after →
        (∀ g ∈ before.getLast?, isWordGlyph g = false) → (∀ g ∈ gaps, Text.isGap g = true) →
        isComment line.trim = false → line.trim.startsWith "#" = false →
        (classify name line).kind ≠ .reference := by
  refine ⟨hasWord_of_kind_ne_reference hname, fun hnot => ?_, ?_⟩
  · rw [← Reading.kind_eq_reference_iff]
    by_contra hkind
    exact hnot (hasWord_of_kind_ne_reference hname hkind)
  · intro before gaps after hline hbefore hgaps
    refine kind_ne_reference_of_hasCall hname (hasCall_iff.mpr ⟨before, _, ?_, hbefore,
      callAt_iff.mpr ⟨gaps, after, rfl, hgaps⟩⟩)
    rw [hline]
    simp only [List.append_assoc]
    rfl

/-- The first line declares the name between three longer ones, the second has only longer ones. -/
theorem longer_names_are_not_found :
    HasWord "foo" " T<xfoo> *foo_t::foo (int foo2);" ∧
      classify "foo" "int xfoo(foo_t) \x7b return foo2(x.foo_); \x7d" = {} := by
  have hname : IsIdentifier "foo" := (accepts_identifier_iff (l := .name)).mp (by decide +kernel)
  have hfound := @occurrences_are_whole_words "foo" " T<xfoo> *foo_t::foo (int foo2);" hname
  have hmissed := @occurrences_are_whole_words "foo"
    "int xfoo(foo_t) \x7b return foo2(x.foo_); \x7d" hname
  exact ⟨hfound.1 (by decide +kernel), hmissed.2.1 (by decide +kernel)⟩

end Line

end CallerTree
