import CallerTree.Proofs.DefinitionHeaders

/-!
# The nearest header above a line

The function around a line is the one whose header is met first on the way up. This module says
which header that is, by its index and without the scan, and what its name is, without the pattern.

## The name of a header

The pattern of a header can split what stands before the name in several ways. The name itself is
the same in all of them: nothing before the parameters holds a parenthesis, and whatever is put in
front of the name ends in a glyph that no name contains. So the name is what one finds by going back
from the first parenthesis over blanks and then over word characters and tildes
(`wordBeforeParen?`).

## The least line number

The scan starts at the number before that of the line. Below the least 64-bit number there is none,
and the subtraction comes out as the greatest one instead, which is past the end of every file. So
for the least number, and for no other, the scan runs over the whole file, where it should not look
at a single line.

## Main definitions

* `Line.headerAt?` — the header at an index
* `Line.NearestHeader` — the header with the greatest index below a bound
* `Line.wordBeforeParen?` — the word before the first parenthesis

## Main results

* `Line.nearestHeader_take` — what the scan finds
* `Line.wordBeforeParen?_eq_some` — what the name of a header is
* `Line.enclosing_function_is_nearest_header` — the function around a line
-/

namespace CallerTree

namespace Line

open Pattern FunctionName

variable {lines : List Text} {line name : Text}

/-! ### The scan -/

/-- The function whose definition starts at an index of the lines. -/
def headerAt? (lines : List Text) (i : Nat) : Option Text :=
  lines[i]?.bind fun line => headerName? line (lines.drop (i + 1))

/-- The name of the last header before the bound, or the name that stands for none. -/
inductive NearestHeader (lines : List Text) (bound : Int) : Text → Prop
  | found {i : Nat} {name : Text} (hi : (i : Int) < bound) (hheader : headerAt? lines i = some name)
      (hlater : ∀ j : Nat, i < j → (j : Int) < bound → headerAt? lines j = none) :
      NearestHeader lines bound name
  | missing (hnone : ∀ i : Nat, (i : Int) < bound → headerAt? lines i = none) :
      NearestHeader lines bound unknownCaller

/-- A line that is no header does not change what is found. -/
theorem NearestHeader.succ {n : Nat} (h : NearestHeader lines n name)
    (hnone : headerAt? lines n = none) : NearestHeader lines (n + 1 : Nat) name := by
  have hstep : ∀ j : Nat, (j : Int) < (n + 1 : Nat) → (j : Int) < n ∨ j = n := by omega
  cases h with
  | found hi hheader hlater =>
    refine .found (by omega) hheader fun j hij hj => ?_
    rcases hstep j hj with hj | rfl
    · exact hlater j hij hj
    · exact hnone
  | missing hbefore =>
    refine .missing fun j hj => ?_
    rcases hstep j hj with hj | rfl
    · exact hbefore j hj
    · exact hnone

/-- The scan over the first lines finds the last header among them. -/
theorem nearestHeader_of_le {n : Nat} (hn : n ≤ lines.length) :
    NearestHeader lines n
      ((nearestHeader? (lines.take n).reverse (lines.drop n)).getD unknownCaller) := by
  induction n with
  | zero => exact .missing fun i hi => absurd hi (by omega)
  | succ n ih =>
    have hline : lines[n]? = some lines[n] := List.getElem?_eq_getElem hn
    have hat : headerAt? lines n = headerName? lines[n] (lines.drop (n + 1)) := by
      rw [headerAt?, hline, Option.bind_some]
    rw [nearestHeader?_step hline, ← hat]
    cases hheader : headerAt? lines n with
    | none => exact (ih (Nat.le_of_lt hn)).succ hheader
    | some name =>
      exact .found (by omega) hheader fun j hnj hj => absurd hj (by omega)

theorem nearestHeader_take (lines : List Text) (n : Nat) :
    NearestHeader lines (min (n : Int) lines.length)
      ((nearestHeader? (lines.take n).reverse (lines.drop n)).getD unknownCaller) := by
  rcases Nat.le_total n lines.length with hn | hn
  · rw [Int.min_eq_left (by omega)]
    exact nearestHeader_of_le hn
  · have hall := nearestHeader_of_le (Nat.le_refl lines.length)
    rw [List.take_length, List.drop_length] at hall
    rw [Int.min_eq_right (by omega), List.take_of_length_le hn, List.drop_of_length_le hn]
    exact hall

/-- The scan starts at the line with the number, or at the last line if there are not so many. -/
theorem nearestHeader_enclosingFunction (lines : List Text) (number : Int) :
    NearestHeader lines (min (wrap64 (number - 1) + 1) lines.length)
      (enclosingFunction lines number) := by
  rw [enclosingFunction]
  cases wrap64 (number - 1) with
  | ofNat i => exact nearestHeader_take lines (i + 1)
  | negSucc i => exact .missing fun j hj => absurd hj (by omega)

/-! ### The name -/

/-- The word characters and tildes right before the first parenthesis, blanks left aside. -/
def wordBeforeParen? (line : Text) : Option Text :=
  (line.cut? '(').map fun parts =>
    (Text.dropEndWhile Text.isBlank parts.1).rtakeWhile isOwn

theorem rtakeWhile_append {α : Type} {p : α → Bool} {u v : List α}
    (hu : ∀ a ∈ u.getLast?, p a = false) (hv : ∀ a ∈ v, p a = true) :
    (u ++ v).rtakeWhile p = v := by
  have happend := List.rdropWhile_append_rtakeWhile (p := p) (l := u ++ v)
  refine (append_inj_of_end happend (fun a ha => ?_) (fun a ha => List.mem_rtakeWhile_imp ha) hu
    hv).2
  have hne : (u ++ v).rdropWhile p ≠ [] := List.ne_nil_of_mem (List.mem_of_getLast? ha)
  have hlast := List.rdropWhile_last_not p (u ++ v) hne
  rw [List.getLast?_eq_some_getLast hne] at ha
  obtain rfl := Option.some.inj ha
  simpa using hlast

theorem Front.wordBeforeParen?_eq_some (f : Front) (hname : ∀ g ∈ f.name, isOwn g = true)
    (u : Text) : wordBeforeParen? (f.text ++ .char '(' :: u) = some f.name := by
  have hgap : ∀ g ∈ f.gap, Text.isBlank g = true := fun g hg =>
    Text.isBlankChar_of_isGapChar (f.isGap_of_mem_gap g hg)
  have hlast : ∀ g ∈ (f.stem ++ f.name).getLast?, Text.isBlank g = false := by
    intro g hg
    rw [List.getLast?_append_of_ne_nil _ f.isHarmless_name.ne_nil] at hg
    exact isBlank_eq_false_of_isNameChar (Front.isNameChar_of_mem_name (List.mem_of_getLast? hg))
  rw [wordBeforeParen?, Text.cut?_append_cons (f.notMem_text (.inl rfl)), Option.map_some,
    Front.text, Text.dropEndWhile_append hgap hlast,
    rtakeWhile_append f.isOwn_getLast?_stem hname]

/-- What is known of the name of a header. -/
structure IsHeaderName (line name : Text) : Prop where
  form : ∃ tilde last : Text, (tilde = [] ∨ tilde = "~") ∧ IsIdentifier last ∧ name = tilde ++ last
  notMem_controlKeywords : name ∉ controlKeywords
  wordBeforeParen?_eq : wordBeforeParen? line = some name

theorem isHeaderName_of_headerWithEnding? {e : Ending} (h : headerWithEnding? e line = some name) :
    IsHeaderName line name := by
  obtain ⟨m, hm, hlabel, hcontrol, -⟩ := headerWithEnding?_eq_some_iff_exists.mp h
  obtain ⟨a, ha, rfl, rfl⟩ :=
    exists_anatomy_of_label? isTypes_star isOwnName_anyName.toIsName hm
  rw [a.labelled_name_labels] at hlabel
  subst hlabel
  exact ⟨accepts_anyName_iff.mp ha.name, hcontrol,
    a.toFront.wordBeforeParen?_eq_some (isOwnName_anyName.isOwn _ ha.name) _⟩

theorem isHeaderName_of_headerName? {following : List Text}
    (h : headerName? line following = some name) : IsHeaderName line name := by
  rw [headerName?] at h
  split at h
  · rename_i hbrace
    exact isHeaderName_of_headerWithEnding? (hbrace.trans h)
  · split at h
    · rename_i heol
      split at h
      · exact isHeaderName_of_headerWithEnding? (heol.trans h)
      · cases h
    · cases h

/-- The function around a line is the one whose header is the last at or above the line, or at the
end of the file if the line is past it; without a header it is unknown. The name of a header is an
identifier, perhaps behind a tilde, and no keyword of control, and it is the whole word before the
first parenthesis of the line. The one number for which another header is found is the least one:
for it the whole file counts as above the line. -/
theorem enclosing_function_is_nearest_header {lines : List Text} {number : Int}
    (hlo : minInt64 ≤ number) (hhi : number ≤ maxInt64) :
    (number ≠ minInt64 →
      NearestHeader lines (min number lines.length) (enclosingFunction lines number)) ∧
    (number = minInt64 → (lines.length : Int) ≤ maxInt64 →
      NearestHeader lines lines.length (enclosingFunction lines number)) ∧
    ∀ (i : Nat) (line name : Text), lines[i]? = some line → headerAt? lines i = some name →
      IsHeaderName line name := by
  refine ⟨fun hne => ?_, fun heq hsize => ?_, fun i line name hline hheader => ?_⟩
  · have hscan := nearestHeader_enclosingFunction lines number
    rwa [wrap64_of_mem (by omega) (by omega), Int.sub_add_cancel] at hscan
  · subst heq
    have hscan := nearestHeader_enclosingFunction lines minInt64
    have hwrap : wrap64 (minInt64 - 1) = maxInt64 := by decide
    rwa [hwrap, Int.min_eq_right (by omega)] at hscan
  · rw [headerAt?, hline, Option.bind_some] at hheader
    exact isHeaderName_of_headerName? hheader

/-- For the least number a header is found in a file that should not be looked at. -/
theorem least_number_finds_header :
    enclosingFunction ["void f() \x7b"] minInt64 = "f" ∧
      NearestHeader ["void f() \x7b"] 1 "f" ∧
      ¬ NearestHeader ["void f() \x7b"] (min minInt64 1) "f" := by
  have hfound : enclosingFunction ["void f() \x7b"] minInt64 = "f" := by decide +kernel
  have hnearest := (@enclosing_function_is_nearest_header ["void f() \x7b"] minInt64 (by decide)
    (by decide)).2.1 rfl (by decide)
  rw [hfound] at hnearest
  refine ⟨hfound, hnearest, fun h => ?_⟩
  cases h with
  | found hi _ _ => exact absurd hi (by simp only [minInt64]; omega)

end Line

end CallerTree
