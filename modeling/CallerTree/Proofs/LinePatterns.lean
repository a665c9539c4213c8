import CallerTree.Proofs.Names
import CallerTree.Proofs.SearchPattern
import CallerTree.Proofs.ToolOutput

/-!
# The shapes of a line as search patterns

What the classification looks for in a line can be written as search patterns, with the name put in
between. Here are those texts. For a name that is harmless each of them can be read, and what it
finds is what the classification finds. The same holds of the pattern that the text search and the
scan share.

## How the two are compared

A signature is a labelled pattern, and its text is bound to the start of the line. Each part of the
text is read once and for all and its pieces are compared with the part of the pattern; the name is
the only part that varies. The other shapes may start anywhere. For them the functions that try
every place are followed piece by piece.

## Main definitions

* `Line.signatureText`, `Line.Shape.text` — the texts
* `Line.Shape.isIn` — the tests

## Main results

* `Line.exists_read_callPattern`, `Line.mentionsCall_iff` — the pattern for calls
* `Line.Shape.exists_read_text` — the patterns of the classification
-/

namespace CallerTree

namespace Line

open SearchPattern

/-! ### The parts of a signature as texts -/

/-- Indentation and qualifiers. -/
def qualifiersText : Text := "\\s*(?:(?:extern|static|inline|virtual|constexpr)\\s+)*"

/-- One type name with what separates it from the next. -/
def typeTokenText : Text :=
  "(?:[A-Za-z_]\\w*(?:::[A-Za-z_]\\w*)*(?:<[^;()\x7b\x7d]*>)?[\\s*&]+)"

/-- Type tokens, repeated as the sign says. -/
def typesText (sign : Text) : Text := "(" ++ typeTokenText ++ sign ++ ")"

def scopeText : Text := "(?:[A-Za-z_]\\w*::)*"

def paramsText : Text := "\\s*\\([^)]*\\)"

def trailersText : Text := "(?:\\s*(?:const|noexcept|override|final))*"

theorem writes_qualifiers : Writes qualifiersText qualifiers :=
  ⟨piecesOf qualifiersText, ⟨_, fun _ _ _ _ => rfl⟩, rfl⟩

set_option maxRecDepth 2000 in
theorem writes_types_plus : Writes (typesText "+") (Pattern.plus typeToken) :=
  ⟨piecesOf (typesText "+"), ⟨_, fun _ _ _ _ => rfl⟩, rfl⟩

set_option maxRecDepth 2000 in
theorem writes_types_star : Writes (typesText "*") (.star typeToken) :=
  ⟨piecesOf (typesText "*"), ⟨_, fun _ _ _ _ => rfl⟩, rfl⟩

theorem writes_scope : Writes scopeText scope :=
  ⟨piecesOf scopeText, ⟨_, fun _ _ _ _ => rfl⟩, rfl⟩

theorem writes_params : Writes paramsText params :=
  ⟨piecesOf paramsText, ⟨_, fun _ _ _ _ => rfl⟩, rfl⟩

theorem writes_params_group : Writes ("(" ++ paramsText ++ ")") params :=
  ⟨piecesOf ("(" ++ paramsText ++ ")"), ⟨_, fun _ _ _ _ => rfl⟩, rfl⟩

theorem writes_trailers : Writes trailersText trailers :=
  ⟨piecesOf trailersText, ⟨_, fun _ _ _ _ => rfl⟩, rfl⟩

/-! ### Signatures -/

/-- A signature as a text. -/
def signatureText (types name params ending : Text) : Text :=
  List.flatten [qualifiersText, types, scopeText, name, params, trailersText, ending]

theorem writes_signature {types name params' ending : Text} {p q r : Pattern Part}
    (htypes : Writes types p) (hname : Writes name q) (hparams : Writes params' params)
    (hending : Writes ending r) :
    Writes (signatureText types name params' ending)
      (Pattern.seqs [qualifiers, p, scope, q, params, trailers, r]) :=
  writes_seqs (.cons writes_qualifiers (.cons htypes (.cons writes_scope (.cons hname
    (.cons hparams (.cons writes_trailers (.cons hending .nil)))))))

theorem exists_read_signature_mark {types name params' ending : Text} {p q : Pattern Part}
    (htypes : Writes types p) (hname : Writes name q) (hparams : Writes params' params) {c : Char}
    (hending : Writes ending (.seq (gaps .rest) (.one (.exactly c) .rest))) :
    ∃ e, SearchPattern.read ("^" ++ signatureText types name params' ending) = some e ∧
      ∀ line, e.Finds line ↔ (signature p q (.mark c)).accepts line = true := by
  -- The rest of the line is a part of the labelled pattern, but not of the text.
  obtain ⟨e, he, hfinds⟩ := (writes_signature htypes hname hparams hending).exists_read Part.rest
  refine ⟨e, he, fun line => (hfinds line).trans ?_⟩
  rw [accepts_congr]
  simp [signature, Ending.pattern, ofPattern, parts, Pattern.seqs]

/-! ### Shapes that may start anywhere in a line -/

theorem afterLead_iff {lead t : Text} {p : Text → Bool} :
    afterLead lead p t = true ↔ ∃ rest, t = lead ++ rest ∧ p rest = true := by
  simp only [← Text.strip?_eq_some_iff]
  unfold afterLead
  split <;> simp_all

/-- The blanks `u` need not be all there are. -/
theorem afterGaps_iff {t : Text} {p : Text → Bool} :
    afterGaps p t = true ↔
      ∃ u v, t = u ++ v ∧ (∀ g ∈ u, Text.isGap g = true) ∧ p v = true := by
  induction t with
  | nil => simp [afterGaps]
  | cons g t ih =>
    rw [afterGaps, Bool.or_eq_true, Bool.and_eq_true, ih]
    constructor
    · rintro (h | ⟨hg, u, v, rfl, hu, hv⟩)
      · exact ⟨[], g :: t, rfl, by simp, h⟩
      · exact ⟨g :: u, v, rfl, List.forall_mem_cons.mpr ⟨hg, hu⟩, hv⟩
    · rintro ⟨_ | ⟨g', u⟩, v, h, hu, hv⟩
      · exact .inl (h ▸ hv)
      · obtain ⟨rfl, rfl⟩ := List.cons.inj h
        obtain ⟨hg, hu⟩ := List.forall_mem_cons.mp hu
        exact .inr ⟨hg, u, v, rfl, hu, hv⟩

/-- `before` is the glyph in front of the text, if there is one. -/
theorem anywhere_iff {p : Option Glyph → Text → Bool} {before : Option Glyph} {t : Text} :
    anywhere p before t = true ↔
      ∃ u v, t = u ++ v ∧ p (u.getLast?.or before) v = true := by
  induction t generalizing before with
  | nil => simp [anywhere]
  | cons g t ih =>
    rw [anywhere, Bool.or_eq_true, ih]
    constructor
    · rintro (h | ⟨u, v, rfl, h⟩)
      · exact ⟨[], g :: t, rfl, h⟩
      · exact ⟨g :: u, v, rfl, by simpa [List.getLast?_cons] using h⟩
    · rintro ⟨_ | ⟨g', u⟩, v, h, hv⟩
      · exact .inl (h ▸ hv)
      · obtain ⟨rfl, rfl⟩ := List.cons.inj h
        exact .inr ⟨u, v, rfl, by simpa [List.getLast?_cons] using hv⟩

variable {es : List SearchPattern} {b t : Text}

/-- The class `\s`, repeated. -/
def gapRun : SearchPattern := .star (.one { items := [.gap] })

theorem starts_gapRun_iff {p : Text → Bool} (h : ∀ b t, Starts es b t ↔ p t = true) :
    Starts (gapRun :: es) b t ↔ afterGaps p t = true := by
  have hgap : ∀ c, ({ items := [.gap] } : ItemSet).has c = Text.isGapChar c :=
    ItemSet.has_ofClass .gap
  simp only [gapRun, starts_star_one_iff, afterGaps_iff, h, hgap, Text.isGap]

theorem starts_lead_iff {lead : Text} (hlead : IsClear lead) {p : Text → Bool}
    (h : ∀ t, Starts es (b ++ lead) t ↔ p t = true) :
    Starts (literal lead ++ es) b t ↔ afterLead lead p t = true := by
  simp only [starts_literal_append_iff hlead, afterLead_iff, h]

theorem finds_cat_iff_anywhere {p : Option Glyph → Text → Bool}
    (h : ∀ b t, Starts es b t ↔ p b.getLast? t = true) {line : Text} :
    (cat es).Finds line ↔ anywhere p none line = true := by
  simp only [finds_cat_iff, anywhere_iff, h, Option.or_none]

/-- Names that pass validation are written in patterns without loss. -/
theorem isClear_of_isHarmless {name : Text} (h : FunctionName.IsHarmless name) : IsClear name := by
  intro g hg
  obtain ⟨c, rfl, hc⟩ := h.chars g hg
  refine ⟨c, rfl, ?_⟩
  rintro rfl
  exact absurd hc (by decide)

theorem isClear_char {c : Char} (hc : c ≠ '\ufffd') : IsClear [.char c] := by
  intro g hg
  exact ⟨c, List.mem_singleton.mp hg, hc⟩

theorem starts_last_iff {c : Char} (hc : c ≠ '\ufffd') :
    Starts (literal [.char c]) b t ↔ afterLead [.char c] (fun _ => true) t = true := by
  rw [← List.append_nil (literal _)]
  exact starts_lead_iff (isClear_char hc) fun _ => by simp

/-! #### Calls -/

/-- The pieces behind the name of a call. -/
def callTail : List SearchPattern := gapRun :: literal "("

theorem reads_callTail : Reads "\\s*\\(" callTail := ⟨_, fun _ _ _ _ => rfl⟩

theorem starts_callTail_iff {name : Text} (hname : IsClear name) :
    Starts (literal name ++ callTail) b t ↔ callAt name t = true := by
  refine starts_lead_iff hname fun _ => starts_gapRun_iff fun _ _ => ?_
  exact starts_last_iff (by decide)

/-- A call is mentioned where the name stands, then gaps, then an opening parenthesis. -/
theorem mentionsCall_iff {name line : Text} :
    mentionsCall name line = true ↔
      ∃ before gaps after, line = before ++ name ++ gaps ++ "(" ++ after ∧
        ∀ g ∈ gaps, Text.isGap g = true := by
  simp only [mentionsCall, anywhere_iff, callAt, afterLead_iff, afterGaps_iff]
  constructor
  · rintro ⟨before, _, rfl, _, rfl, gaps, _, rfl, hgaps, after, rfl, -⟩
    exact ⟨before, gaps, after, by simp only [List.append_assoc], hgaps⟩
  · rintro ⟨before, gaps, after, rfl, hgaps⟩
    exact ⟨before, _, by simp only [List.append_assoc], _, rfl, gaps, _, rfl, hgaps, after, rfl,
      trivial⟩

/-- The pattern for calls of a name finds the lines that mention one. -/
theorem exists_read_callPattern {name : Text} (hname : IsClear name) :
    ∃ e, SearchPattern.read (FunctionName.callPattern name) = some e ∧
      ∀ line, e.Finds line ↔ mentionsCall name line = true := by
  refine ⟨_, ((reads_escaped hname).append reads_callTail).read, fun line => ?_⟩
  exact finds_cat_iff_anywhere fun _ _ => starts_callTail_iff hname

/-- The start of the line, or a character that belongs to no word. -/
def callLead : SearchPattern :=
  .alt (cat [.start]) (cat [.one { isNegated := true, items := [.word] }])

theorem reads_callLead : Reads "(?:^|[^\\w])" [callLead] := ⟨_, fun _ _ _ _ => rfl⟩

theorem starts_callLead_iff :
    Starts (callLead :: es) b t ↔
      b = [] ∧ Starts es b t ∨
        ∃ g rest, t = g :: rest ∧ isWordGlyph g = false ∧ Starts es (b ++ [g]) rest := by
  have hnot : ∀ g : Glyph,
      ({ isNegated := true, items := [.word] } : ItemSet).has g.toChar = !isWordGlyph g := by
    simp [ItemSet.has, SetItem.has, isWordGlyph]
  have hcat : ∀ e, Starts (cat [e] :: es) b t ↔ Starts (e :: es) b t := by
    simp [starts_cons_iff]
  simp only [callLead, starts_alt_iff, hcat, starts_start_iff, starts_one_iff, hnot,
    Bool.not_eq_true']

theorem hasCall_iff {name line : Text} :
    hasCall name line = true ↔
      ∃ u v, line = u ++ v ∧ (∀ g ∈ u.getLast?, isWordGlyph g = false) ∧ callAt name v = true := by
  simp [hasCall, anywhere_iff, Option.any_eq_false]

/-- The pattern of calls is read, and finds the lines that `hasCall` accepts. -/
theorem exists_read_call {name : Text} (hname : IsClear name) :
    ∃ e, SearchPattern.read ("(?:^|[^\\w])" ++ FunctionName.escaped name ++ "\\s*\\(") =
        some e ∧
      ∀ line, e.Finds line ↔ hasCall name line = true := by
  refine ⟨_, ((reads_callLead.append (reads_escaped hname)).append reads_callTail).read,
    fun line => ?_⟩
  rw [List.singleton_append, List.cons_append, finds_cat_iff, hasCall_iff]
  -- The expression matches the glyph before the name, the test only looks back at it.
  simp only [starts_callLead_iff, starts_callTail_iff hname]
  constructor
  · rintro ⟨b, _, rfl, ⟨rfl, hcall⟩ | ⟨g, rest, rfl, hg, hcall⟩⟩
    · exact ⟨[], _, rfl, by simp, hcall⟩
    · exact ⟨b ++ [g], rest, by simp, by simpa using hg, hcall⟩
  · rintro ⟨u, v, rfl, hu, hcall⟩
    obtain rfl | ⟨b, g, rfl⟩ := List.eq_nil_or_concat u
    · exact ⟨[], v, rfl, .inl ⟨rfl, hcall⟩⟩
    · exact ⟨b, g :: v, by simp, .inr ⟨g, v, rfl, by simpa using hu, hcall⟩⟩

/-! #### Function pointers -/

theorem exists_read_functionPointer {name : Text} (hname : IsClear name) :
    ∃ e, SearchPattern.read ("\\(\\s*\\*\\s*" ++ FunctionName.escaped name ++ "\\s*\\)") =
        some e ∧
      ∀ line, e.Finds line ↔ hasFunctionPointer name line = true := by
  have hlead : Reads "\\(\\s*\\*\\s*"
      (literal "(" ++ gapRun :: (literal "*" ++ [gapRun])) := ⟨_, fun _ _ _ _ => rfl⟩
  have htail : Reads "\\s*\\)" (gapRun :: literal ")") := ⟨_, fun _ _ _ _ => rfl⟩
  refine ⟨_, ((hlead.append (reads_escaped hname)).append htail).read, fun line => ?_⟩
  simp only [List.append_assoc, List.cons_append, List.nil_append]
  refine finds_cat_iff_anywhere fun _ _ => ?_
  refine starts_lead_iff (isClear_char (by decide)) fun _ => starts_gapRun_iff fun _ _ => ?_
  refine starts_lead_iff (isClear_char (by decide)) fun _ => starts_gapRun_iff fun _ _ => ?_
  refine starts_lead_iff hname fun _ => starts_gapRun_iff fun _ _ => ?_
  exact starts_last_iff (by decide)

/-! #### Type definitions -/

/-- A repetition matches nothing more, or one more glyph. -/
theorem starts_star_one_iff_or {s : ItemSet} :
    Starts (.star (.one s) :: es) b t ↔
      Starts es b t ∨
        ∃ g rest, t = g :: rest ∧ s.has g.toChar = true ∧
          Starts (.star (.one s) :: es) (b ++ [g]) rest := by
  simp only [starts_star_one_iff]
  constructor
  · rintro ⟨_ | ⟨g, u⟩, v, rfl, hu, h⟩
    · exact .inl (by simpa using h)
    · obtain ⟨hg, hu⟩ := List.forall_mem_cons.mp hu
      exact .inr ⟨g, u ++ v, rfl, hg, u, v, rfl, hu, by simpa using h⟩
  · rintro (h | ⟨g, _, rfl, hg, u, v, rfl, hu, h⟩)
    · exact ⟨[], t, rfl, by simp, by simpa using h⟩
    · exact ⟨g :: u, v, rfl, List.forall_mem_cons.mpr ⟨hg, hu⟩, by simpa using h⟩

/-- Every character but the line feed. -/
def noFeed : ItemSet := { isNegated := true, items := [.single '\n'] }

theorem has_noFeed (g : Glyph) : noFeed.has g.toChar = decide (g ≠ '\n') := by
  have hg : g.toChar = '\n' ↔ g = '\n' := ⟨eq_of_toChar_eq (by decide), by rintro rfl; rfl⟩
  simp [noFeed, ItemSet.has, SetItem.has, hg, bne, Bool.beq_eq_decide_eq]

theorem starts_word_iff {name : Text} (hname : IsClear name) :
    Starts (.edge :: (literal name ++ [.edge])) b t ↔
      isBoundary b.getLast? t.head? = true ∧
        afterLead name (fun rest => isBoundary (name.getLast?.or b.getLast?) rest.head?) t =
          true := by
  rw [starts_edge_iff, starts_lead_iff hname]
  intro t
  simp [starts_edge_iff]

theorem starts_wordOnLine_iff {name : Text} (hne : name ≠ []) (hname : IsClear name) :
    Starts (.star (.one noFeed) :: .edge :: (literal name ++ [.edge])) b t ↔
      hasWordOnLine name b.getLast? t = true := by
  induction t generalizing b with
  | nil =>
    have hnot : afterLead name
        (fun rest => isBoundary (name.getLast?.or b.getLast?) rest.head?) [] = false := by
      rw [← Bool.not_eq_true, afterLead_iff]
      simp [hne]
    rw [starts_star_one_iff_or]
    simp [starts_word_iff hname, hasWordOnLine, hnot, hne]
  | cons g t ih =>
    rw [starts_star_one_iff_or]
    simp [starts_word_iff hname, hasWordOnLine, has_noFeed, ih]

/-- Around an empty name the two edges would be one, which `hne` excludes. -/
theorem exists_read_typedef {name : Text} (hne : name ≠ []) (hname : IsClear name) :
    ∃ e, SearchPattern.read ("\\btypedef\\b.*\\b" ++ FunctionName.escaped name ++ "\\b") =
        some e ∧
      ∀ line, e.Finds line ↔ hasTypedef name line = true := by
  have hlead : Reads "\\btypedef\\b.*\\b"
      (.edge :: (literal "typedef" ++ [.edge, .star (.one noFeed), .edge])) :=
    ⟨_, fun _ _ _ _ => rfl⟩
  have htail : Reads "\\b" [.edge] := ⟨_, fun _ _ _ _ => rfl⟩
  have hclear : IsClear "typedef" :=
    isClear_of_isHarmless (FunctionName.isHarmless_iff.mpr ⟨by decide, by decide⟩)
  refine ⟨_, ((hlead.append (reads_escaped hname)).append htail).read, fun line => ?_⟩
  simp only [List.append_assoc, List.cons_append, List.nil_append]
  refine finds_cat_iff_anywhere fun b t => ?_
  have hlast : (b ++ Text.ofString "typedef").getLast? = some (.char 'f') := by
    rw [List.getLast?_append]
    rfl
  rw [starts_edge_iff, Bool.and_eq_true, starts_lead_iff hclear]
  intro t
  rw [starts_edge_iff, starts_wordOnLine_iff hne hname, hlast, Bool.and_eq_true]

/-! ### All shapes -/

/-- The shapes in which the classification looks for a name. -/
inductive Shape where
  | declaration
  /-- A declaration whose parameter list goes on in the next line. -/
  | openDeclaration
  | functionPointer
  | typedef
  | definition
  /-- A definition whose brace stands in the next line. -/
  | header
  | call
  deriving DecidableEq, Repr

namespace Shape

/-- The test that the classification makes for the shape, before it looks at the parts. -/
def isIn (name line : Text) : Shape → Bool
  | declaration => (Line.declaration name).accepts line
  | openDeclaration => (Line.openDeclaration name).accepts line
  | functionPointer => hasFunctionPointer name line
  | typedef => hasTypedef name line
  | definition => (Line.definition name).accepts line
  | header => (Line.header name).accepts line
  | call => hasCall name line

/-- The shape as a search pattern. -/
def text (name : Text) (shape : Shape) : Text :=
  let name := FunctionName.escaped name
  match shape with
  | declaration => "^" ++ signatureText (typesText "+") name paramsText "\\s*;"
  | openDeclaration =>
    "^" ++ List.flatten [qualifiersText, typesText "+", scopeText, name, "\\s*\\([^)]*"] ++ "$"
  | functionPointer => "\\(\\s*\\*\\s*" ++ name ++ "\\s*\\)"
  | typedef => "\\btypedef\\b.*\\b" ++ name ++ "\\b"
  | definition =>
    "^" ++ signatureText (typesText "*") name ("(" ++ paramsText ++ ")") "\\s*\\\x7b"
  | header => "^" ++ signatureText (typesText "+") name paramsText "\\s*" ++ "$"
  | call => "(?:^|[^\\w])" ++ name ++ "\\s*\\("

/-- With a name that is harmless, the text of every shape is read as a pattern, and it finds the
lines that pass the test. -/
theorem exists_read_text (shape : Shape) {name : Text} (hname : FunctionName.IsHarmless name) :
    ∃ e, SearchPattern.read (shape.text name) = some e ∧
      ∀ line, e.Finds line ↔ shape.isIn name line = true := by
  have hclear := isClear_of_isHarmless hname
  have hwrites := writes_escaped hclear Part.name
  cases shape with
  | declaration =>
    exact exists_read_signature_mark writes_types_plus hwrites writes_params
      ⟨piecesOf "\\s*;", ⟨_, fun _ _ _ _ => rfl⟩, rfl⟩
  | openDeclaration =>
    have hopen : Writes "\\s*\\([^)]*" (Pattern.seqs [gaps .params, .one (.exactly '(') .params,
        .star (.one (.except [')']) .params)]) :=
      ⟨piecesOf "\\s*\\([^)]*", ⟨_, fun _ _ _ _ => rfl⟩, rfl⟩
    exact (writes_seqs (.cons writes_qualifiers (.cons writes_types_plus (.cons writes_scope
      (.cons hwrites (.cons hopen .nil)))))).exists_read_whole
  | functionPointer => exact exists_read_functionPointer hclear
  | typedef => exact exists_read_typedef hname.ne_nil hclear
  | definition =>
    exact exists_read_signature_mark writes_types_star hwrites writes_params_group
      ⟨piecesOf "\\s*\\\x7b", ⟨_, fun _ _ _ _ => rfl⟩, rfl⟩
  | header =>
    have hgaps : Writes "\\s*" (gaps .rest) :=
      ⟨piecesOf "\\s*", ⟨_, fun _ _ _ _ => rfl⟩, rfl⟩
    exact (writes_signature writes_types_plus hwrites writes_params hgaps).exists_read_whole
  | call => exact exists_read_call hclear

end Shape

end Line

end CallerTree
