import CallerTree.Proofs.Names
import CallerTree.Proofs.SearchPattern

/-!
# The form of a function name

The check of a name is a pattern. Here is the form of the names that pass it, in terms of their
characters. The parts of that form, identifiers and scopes, are also what signature lines are made
of.

## Main definitions

* `FunctionName.IsIdentifier` — a plain name
* `FunctionName.IsScoped` — the form of a name that may be asked for

## Main results

* `FunctionName.accepts_identifier_iff`, `FunctionName.accepts_scope_iff`,
  `FunctionName.accepts_anyName_iff` — the parts
* `FunctionName.isValid_iff` — the check of a name and its form
-/

namespace CallerTree

namespace FunctionName

/-- A letter or an underscore, and then letters, digits and underscores, all of them ASCII. -/
def IsIdentifier (t : Text) : Prop :=
  ∃ (c : Char) (cs : List Char), isWordStart c = true ∧ (∀ d ∈ cs, isWordChar d = true) ∧
    t = (c :: cs).map Glyph.char

/-- An identifier as the scope of what follows. -/
def asScope (s : Text) : Text := s ++ "::"

/-- Scopes, then perhaps a tilde, then an identifier. -/
def IsScoped (name : Text) : Prop :=
  ∃ (scopes : List Text) (tilde last : Text), (∀ s ∈ scopes, IsIdentifier s) ∧
    (tilde = [] ∨ tilde = "~") ∧ IsIdentifier last ∧
    name = scopes.flatMap asScope ++ tilde ++ last

/-! ### The characters of a name -/

/-- Characters of names are visible ones, so no name is blank or holds a control character. -/
theorem toNat_of_isNameChar {c : Char} (h : isNameChar c = true) :
    0x21 ≤ c.toNat ∧ c.toNat ≤ 0x7e := by
  have hrange : ∀ {low high : Char}, (SetItem.range low high).has c = true →
      low.toNat ≤ c.toNat ∧ c.toNat ≤ high.toNat := by
    intro low high h
    obtain ⟨hlow, hhigh⟩ : low ≤ c ∧ c ≤ high := by simpa [SetItem.has] using h
    exact ⟨UInt32.le_iff_toNat_le.mp hlow, UInt32.le_iff_toNat_le.mp hhigh⟩
  have halnum : c.isAlphanum = (c.isAlpha || c.isDigit) := rfl
  simp only [isNameChar, isWordChar, halnum, ItemSet.isAlpha_eq, Bool.or_eq_true,
    beq_iff_eq] at h
  rcases h with ((((((h | h) | h) | rfl) | rfl) | rfl) | rfl)
  · exact ⟨le_trans (by decide) (hrange h).1, le_trans (hrange h).2 (by decide)⟩
  · exact ⟨le_trans (by decide) (hrange h).1, le_trans (hrange h).2 (by decide)⟩
  · have hdigit := Char.isDigit_iff_toNat.mp h
    exact ⟨le_trans (by decide) hdigit.1, le_trans hdigit.2 (by decide)⟩
  all_goals decide

theorem isBlank_eq_false_of_isNameChar {g : Glyph} (h : isNameChar g.toChar = true) :
    Text.isBlank g = false := by
  have hrange := toNat_of_isNameChar h
  grind [Text.isBlank, Text.isBlankChar]

theorem isHarmless_of_isIdentifier {name : Text} (hname : IsIdentifier name) :
    IsHarmless name := by
  obtain ⟨c, cs, hc, hcs, rfl⟩ := hname
  refine isHarmless_iff.mpr ⟨by simp, fun g hg => ?_⟩
  obtain ⟨d, hd, rfl⟩ := List.mem_map.mp hg
  rcases List.mem_cons.mp hd with rfl | hd
  · exact isNameChar_of_isWordChar (isWordChar_of_isWordStart hc)
  · exact isNameChar_of_isWordChar (hcs d hd)

/-! ### The pattern of a name -/

open Pattern

variable {l : Line.Part} {t : Text}

theorem accepts_exactly_iff {c : Char} (hc : c ≠ '\ufffd') :
    (one (.exactly c) l).accepts t = true ↔ t = [.char c] := by
  rw [accepts_one_iff]
  constructor
  · rintro ⟨g, hg, rfl⟩
    have hchar : g.toChar = c := by simpa [CharClass.accepts] using hg
    rw [SearchPattern.eq_of_toChar_eq hc hchar]
  · rintro rfl
    exact ⟨.char c, by simp [CharClass.accepts], rfl⟩

theorem accepts_word_iff_of_isClear {w : Text} (hw : SearchPattern.IsClear w) :
    (word l w).accepts t = true ↔ t = w := by
  rw [accepts_word_iff]
  constructor
  · intro h
    induction w generalizing t with
    | nil => exact List.map_eq_nil_iff.mp h
    | cons g w ih =>
      obtain ⟨g', t, rfl, hg, ht⟩ := List.map_eq_cons_iff.mp h
      obtain ⟨⟨c, rfl, hc⟩, hrest⟩ := List.forall_mem_cons.mp hw
      rw [SearchPattern.eq_of_toChar_eq hc hg, ih hrest ht]
  · rintro rfl
    rfl

theorem accepts_wordChars_iff :
    (star (one .word l)).accepts t = true ↔
      ∃ cs : List Char, (∀ d ∈ cs, isWordChar d = true) ∧ t = cs.map Glyph.char := by
  rw [accepts_star_iff]
  constructor
  · rintro ⟨parts, hparts, rfl⟩
    induction parts with
    | nil => exact ⟨[], by simp, rfl⟩
    | cons s parts ih =>
      obtain ⟨hs, hrest⟩ := List.forall_mem_cons.mp hparts
      obtain ⟨g, hg, rfl⟩ := accepts_one_iff.mp hs
      obtain ⟨c, rfl, -⟩ := exists_char_of_isNameChar (isNameChar_of_isWordChar hg)
      obtain ⟨cs, hcs, hflat⟩ := ih hrest
      exact ⟨c :: cs, List.forall_mem_cons.mpr ⟨hg, hcs⟩, by rw [List.flatten_cons, hflat]; rfl⟩
  · rintro ⟨cs, hcs, rfl⟩
    refine ⟨cs.map fun d => [Glyph.char d], fun s hs => ?_, ?_⟩
    · obtain ⟨d, hd, rfl⟩ := List.mem_map.mp hs
      exact accepts_one_iff.mpr ⟨.char d, hcs d hd, rfl⟩
    · induction cs with
      | nil => rfl
      | cons d cs ih =>
        rw [List.map_cons, List.map_cons, List.flatten_cons,
          ih (List.forall_mem_cons.mp hcs).2, List.singleton_append]

theorem accepts_identifier_iff : (Line.identifier l).accepts t = true ↔ IsIdentifier t := by
  rw [Line.identifier, accepts_seq_iff]
  constructor
  · rintro ⟨u, v, rfl, hu, hv⟩
    obtain ⟨g, hg, rfl⟩ := accepts_one_iff.mp hu
    obtain ⟨cs, hcs, rfl⟩ := accepts_wordChars_iff.mp hv
    obtain ⟨c, rfl, -⟩ :=
      exists_char_of_isNameChar (isNameChar_of_isWordChar (isWordChar_of_isWordStart hg))
    exact ⟨c, cs, hg, hcs, rfl⟩
  · rintro ⟨c, cs, hc, hcs, rfl⟩
    exact ⟨[.char c], cs.map Glyph.char, rfl, accepts_one_iff.mpr ⟨.char c, hc, rfl⟩,
      accepts_wordChars_iff.mpr ⟨cs, hcs, rfl⟩⟩

theorem accepts_colons_iff : (Line.colons l).accepts t = true ↔ t = "::" := by
  change (seq (one (.exactly ':') l) (one (.exactly ':') l)).accepts t = true ↔ _
  have hcolon := fun u : Text => accepts_exactly_iff (l := l) (t := u) (c := ':') (by decide)
  simp only [accepts_seq_iff, hcolon]
  constructor
  · rintro ⟨_, _, rfl, rfl, rfl⟩
    rfl
  · rintro rfl
    exact ⟨_, _, rfl, rfl, rfl⟩

/-- Scopes are repeated, so the names in them are recovered one after the other. -/
theorem accepts_scope_iff : Line.scope.accepts t = true ↔
    ∃ scopes : List Text, (∀ s ∈ scopes, IsIdentifier s) ∧ t = scopes.flatMap asScope := by
  have hpart : ∀ u : Text,
      (seq (Line.identifier .scope) (Line.colons .scope)).accepts u = true ↔
        ∃ s, IsIdentifier s ∧ u = asScope s := by
    intro u
    simp only [accepts_seq_iff, accepts_identifier_iff, accepts_colons_iff]
    constructor
    · rintro ⟨s, _, rfl, hs, rfl⟩
      exact ⟨s, hs, rfl⟩
    · rintro ⟨s, hs, rfl⟩
      exact ⟨s, _, rfl, hs, rfl⟩
  simp only [Line.scope, accepts_star_iff, hpart]
  constructor
  · rintro ⟨parts, hparts, rfl⟩
    induction parts with
    | nil => exact ⟨[], by simp, rfl⟩
    | cons u parts ih =>
      obtain ⟨⟨s, hs, rfl⟩, hrest⟩ := List.forall_mem_cons.mp hparts
      obtain ⟨scopes, hscopes, hflat⟩ := ih hrest
      exact ⟨s :: scopes, List.forall_mem_cons.mpr ⟨hs, hscopes⟩, by
        rw [List.flatten_cons, hflat, List.flatMap_cons]⟩
  · rintro ⟨scopes, hscopes, rfl⟩
    refine ⟨scopes.map asScope, fun u hu => ?_, rfl⟩
    obtain ⟨s, hs, rfl⟩ := List.mem_map.mp hu
    exact ⟨s, hscopes s hs, rfl⟩

theorem accepts_anyName_iff : Line.anyName.accepts t = true ↔
    ∃ tilde last : Text, (tilde = [] ∨ tilde = "~") ∧ IsIdentifier last ∧ t = tilde ++ last := by
  have htilde := fun u : Text =>
    accepts_exactly_iff (l := .name) (t := u) (c := '~') (by decide)
  simp only [Line.anyName, Pattern.opt, accepts_seq_iff, accepts_alt_iff, accepts_empty_iff,
    accepts_identifier_iff, htilde]
  constructor
  · rintro ⟨tilde, last, rfl, htilde, hlast⟩
    exact ⟨tilde, last, htilde.symm, hlast, rfl⟩
  · rintro ⟨tilde, last, htilde, hlast, rfl⟩
    exact ⟨tilde, last, rfl, htilde.symm, hlast⟩

/-- The names that pass the check are those of this form. -/
theorem isValid_iff {name : Text} : isValid name = true ↔ IsScoped name := by
  simp only [isValid, accepts_seq_iff, accepts_scope_iff, accepts_anyName_iff]
  constructor
  · rintro ⟨_, _, rfl, ⟨scopes, hscopes, rfl⟩, tilde, last, htilde, hlast, rfl⟩
    exact ⟨scopes, tilde, last, hscopes, htilde, hlast, (List.append_assoc _ _ _).symm⟩
  · rintro ⟨scopes, tilde, last, hscopes, htilde, hlast, rfl⟩
    exact ⟨_, tilde ++ last, List.append_assoc _ _ _, ⟨scopes, hscopes, rfl⟩, tilde, last, htilde,
      hlast, rfl⟩

theorem validate_eq_ok_iff {name : Text} : validate name = .ok () ↔ IsScoped name := by
  rw [← isValid_iff, validate]
  split
  · simp_all
  · simp_all

end FunctionName

end CallerTree
