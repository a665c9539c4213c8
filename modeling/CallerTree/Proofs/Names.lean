import Mathlib.Data.List.TakeWhile
import CallerTree.Proofs.Growth
import CallerTree.Proofs.Pattern

/-!
# The names that are looked up

Only the name that a request asks for is checked. All further names are found on the way: an index
reports them, or they are read off a line or a file, and each is looked up in turn. This module
shows that they all are harmless, whatever the tools print and whatever the files hold.

## How the names are followed

That a run looks up certain names only is said without a record of its lookups: the run stays the
same when the lookup of every other name is replaced by anything else.

## Main definitions

* `FunctionName.IsHarmless` — letters, digits, underscores, dots, colons and tildes, and at least
  one of them
* `Hierarchy.LooksUpOnly` — only names with a property are looked up

## Main results

* `FunctionName.isHarmless_of_validate` — a name that may be asked for is harmless
* `Line.isHarmless_enclosingFunction`, `Line.isHarmless_callerFromScope` — and so is what is found
* `Hierarchy.looksUpOnly_isHarmless` — the whole recursion looks up harmless names only
* `Hierarchy.build_of_harmless` — so the lookups of harmless names decide what holds of it
-/

namespace CallerTree

namespace FunctionName

/-- A letter, a digit, an underscore, a dot, a colon or a tilde. -/
def isNameChar (c : Char) : Bool := isWordChar c || c == '.' || c == ':' || c == '~'

/-- A name that can mean nothing else in a pattern or on a command line. -/
structure IsHarmless (name : Text) : Prop where
  ne_nil : name ≠ []
  chars : ∀ g ∈ name, ∃ c, g = .char c ∧ isNameChar c = true

/-- A stray byte does not look like a character of a name. -/
theorem exists_char_of_isNameChar {g : Glyph} (h : isNameChar g.toChar = true) :
    ∃ c, g = .char c ∧ isNameChar c = true := by
  cases g with
  | char c => exact ⟨c, rfl, h⟩
  | stray b =>
    have hnot : isNameChar '\ufffd' = false := by decide
    exact absurd (hnot.symm.trans h) Bool.false_ne_true

theorem isHarmless_iff {name : Text} :
    IsHarmless name ↔ name ≠ [] ∧ ∀ g ∈ name, isNameChar g.toChar = true := by
  constructor
  · rintro ⟨hne, hchars⟩
    refine ⟨hne, fun g hg => ?_⟩
    obtain ⟨c, rfl, hc⟩ := hchars g hg
    exact hc
  · rintro ⟨hne, hchars⟩
    exact ⟨hne, fun g hg => exists_char_of_isNameChar (hchars g hg)⟩

theorem IsHarmless.head_ne {name : Text} (h : IsHarmless name) : name.head? ≠ some (.char '-') := by
  intro hhead
  obtain ⟨c, hc, hname⟩ := h.chars _ (List.mem_of_head? hhead)
  cases hc
  exact absurd hname (by decide)

/-- The search pattern for the calls of a harmless name does not look like an option either. -/
theorem IsHarmless.head_callPattern_ne {name : Text} (h : IsHarmless name) :
    (callPattern name).head? ≠ some (.char '-') := by
  cases name with
  | nil => exact absurd rfl h.ne_nil
  | cons g name =>
    have hg : g ≠ .char '-' := fun hg => h.head_ne (congrArg some hg)
    rw [callPattern, escaped, List.flatMap_cons]
    split
    · simp
    · simpa using hg

/-- The search pattern for the calls of a harmless name holds characters only. -/
theorem IsHarmless.checkPattern_eq {name : Text} (h : IsHarmless name) :
    checkPattern (callPattern name) = .ok () := by
  have hname : ∀ g ∈ name, g.isStray = false := by
    intro g hg
    obtain ⟨c, rfl, -⟩ := h.chars g hg
    rfl
  have hpattern : ∀ g ∈ callPattern name, g.isStray = false := by
    refine List.forall_mem_append.mpr ⟨fun g hg => ?_, by decide⟩
    obtain ⟨g', hg', hg⟩ := List.mem_flatMap.mp hg
    split at hg
    · rcases List.mem_cons.mp hg with rfl | hg
      · rfl
      · rw [List.mem_singleton.mp hg, hname g' hg']
    · rw [List.mem_singleton.mp hg, hname g' hg']
  have hnil : (callPattern name).dropWhile (fun g => !g.isStray) = [] :=
    List.dropWhile_eq_nil_iff.mpr fun g hg => by rw [hpattern g hg]; rfl
  rw [checkPattern, hnil]

theorem isNameChar_of_isWordChar {c : Char} (h : isWordChar c = true) : isNameChar c = true := by
  simp [isNameChar, h]

theorem isWordChar_of_isWordStart {c : Char} (h : isWordStart c = true) : isWordChar c = true := by
  simp only [isWordStart, isWordChar, Char.isAlphanum, Bool.or_eq_true] at h ⊢
  tauto

theorem isNameChar_of_admits_identifier {l l' : Line.Part} {c : Char}
    (h : (Line.identifier l').admits l c = true) : isNameChar c = true := by
  simp only [Line.identifier, Pattern.admits, CharClass.accepts, Bool.or_eq_true,
    Bool.and_eq_true] at h
  obtain ⟨-, h⟩ | ⟨-, h⟩ := h
  · exact isNameChar_of_isWordChar (isWordChar_of_isWordStart h)
  · exact isNameChar_of_isWordChar h

theorem isNameChar_of_admits_anyName {l : Line.Part} {c : Char}
    (h : Line.anyName.admits l c = true) : isNameChar c = true := by
  simp only [Line.anyName, Pattern.opt, Pattern.admits, CharClass.accepts, Bool.or_eq_true,
    Bool.and_eq_true, beq_iff_eq] at h
  obtain (⟨-, rfl⟩ | h) | h := h
  · decide
  · cases h
  · exact isNameChar_of_admits_identifier h

theorem isNameChar_of_admits_scope {l : Line.Part} {c : Char}
    (h : Line.scope.admits l c = true) : isNameChar c = true := by
  have hcolons : Line.colons .scope =
      .seq (.one (.exactly ':') .scope) (.one (.exactly ':') .scope) := rfl
  simp only [Line.scope, hcolons, Pattern.admits, CharClass.accepts, Bool.or_eq_true,
    Bool.and_eq_true, beq_iff_eq, or_self] at h
  obtain h | ⟨-, rfl⟩ := h
  · exact isNameChar_of_admits_identifier h
  · decide

/-- A name that a request may ask for is harmless. -/
theorem isHarmless_of_validate {name : Text} (h : validate name = .ok ()) : IsHarmless name := by
  have hvalid : isValid name = true := by
    unfold validate at h
    split at h
    · assumption
    · cases h
  obtain ⟨m, hm, rfl⟩ := Pattern.accepts_iff.mp hvalid
  refine isHarmless_iff.mpr ⟨?_, fun g hg => ?_⟩
  · obtain ⟨g, hg⟩ := hm.exists_mem_of_requires (l := Line.Part.name) (by decide)
    exact List.ne_nil_of_mem (List.mem_map_of_mem hg)
  · obtain ⟨⟨l, g⟩, hl, rfl⟩ := List.mem_map.mp hg
    have hadmits := hm.admits hl
    rw [Pattern.admits, Bool.or_eq_true] at hadmits
    exact hadmits.elim isNameChar_of_admits_scope isNameChar_of_admits_anyName

end FunctionName

/-! ### Names that are found -/

namespace Line

open FunctionName

theorem admits_name_signature {types : Pattern Part} (htypes : types.mentions .name = false)
    (ending : Ending) (c : Char) :
    (signature types anyName ending).admits .name c = anyName.admits .name c := by
  have hending : ending.pattern.mentions .name = false := by cases ending <;> rfl
  simp only [signature, Pattern.seqs, Pattern.admits, Pattern.admits_eq_false htypes,
    Pattern.admits_eq_false hending,
    Pattern.admits_eq_false (show qualifiers.mentions .name = false by decide),
    Pattern.admits_eq_false (show scope.mentions .name = false by decide),
    Pattern.admits_eq_false (show params.mentions .name = false by decide),
    Pattern.admits_eq_false (show trailers.mentions .name = false by decide),
    Bool.false_or, Bool.or_false]

/-- The name in a header is harmless. -/
theorem isHarmless_of_headerWithEnding? {ending : Ending} {line name : Text}
    (h : headerWithEnding? ending line = some name) : IsHarmless name := by
  simp only [headerWithEnding?, Option.bind_eq_bind, Option.bind_eq_some_iff] at h
  obtain ⟨m, hm, h⟩ := h
  split at h
  · cases h
  · obtain rfl := Option.some.inj h
    obtain ⟨hm, -⟩ := Pattern.matches_of_label? hm
    refine isHarmless_iff.mpr ⟨?_, fun g hg => ?_⟩
    · obtain ⟨g, hg⟩ := hm.exists_mem_of_requires (l := Part.name) (by cases ending <;> rfl)
      exact List.ne_nil_of_mem (mem_labelled.mpr hg)
    · have hadmits := hm.admits (mem_labelled.mp hg)
      rw [admits_name_signature (by decide)] at hadmits
      exact isNameChar_of_admits_anyName hadmits

theorem isHarmless_unknownCaller : IsHarmless unknownCaller :=
  isHarmless_iff.mpr ⟨by decide, by decide⟩

/-- The pattern of headers admits no character in its name that a validated name cannot have. -/
theorem isHarmless_of_headerName? {line : Text} {following : List Text} {name : Text}
    (h : headerName? line following = some name) : IsHarmless name := by
  unfold headerName? at h
  split at h
  · rename_i hbrace
    obtain rfl := Option.some.inj h
    exact isHarmless_of_headerWithEnding? hbrace
  · split at h
    · rename_i heol
      split at h
      · obtain rfl := Option.some.inj h
        exact isHarmless_of_headerWithEnding? heol
      · cases h
    · cases h

theorem isHarmless_of_nearestHeader? {passed following : List Text} {name : Text}
    (h : nearestHeader? passed following = some name) : IsHarmless name := by
  induction passed generalizing following with
  | nil => cases h
  | cons line passed ih =>
    rw [nearestHeader?] at h
    split at h
    · rename_i hheader
      obtain rfl := Option.some.inj h
      exact isHarmless_of_headerName? hheader
    · exact ih h

theorem isHarmless_getD {name? : Option Text} (h : ∀ name, name? = some name → IsHarmless name) :
    IsHarmless (name?.getD unknownCaller) := by
  cases name? with
  | none => exact isHarmless_unknownCaller
  | some name => exact h name rfl

/-- The function around a line is harmless, whatever the file holds. -/
theorem isHarmless_enclosingFunction (lines : List Text) (number : Int) :
    IsHarmless (enclosingFunction lines number) := by
  unfold enclosingFunction
  split
  · exact isHarmless_getD fun _ => isHarmless_of_nearestHeader?
  · exact isHarmless_unknownCaller

theorem isHarmless_of_isScopeName {t : Text} (h : isScopeName t = true) : IsHarmless t := by
  simp only [isScopeName, Bool.and_eq_true, Bool.not_eq_true', List.isEmpty_eq_false_iff,
    List.all_eq_true] at h
  obtain ⟨hcore, hall⟩ := h
  refine isHarmless_iff.mpr ⟨?_, fun g hg => ?_⟩
  · rintro rfl
    exact hcore rfl
  · by_cases hscore : g = .char '_'
    · subst hscore
      decide
    by_cases hdot : g = .char '.'
    · subst hdot
      decide
    · have halpha := hall g (List.mem_filter.mpr ⟨hg, by simp [hscore, hdot]⟩)
      exact isNameChar_of_isWordChar (by simp [isWordChar, halpha])

/-- The caller of an indexed line is harmless, whatever the index reports. -/
theorem isHarmless_callerFromScope (scope line : Text) :
    IsHarmless (callerFromScope scope line) := by
  unfold callerFromScope
  split
  · rename_i h
    exact isHarmless_of_isScopeName (Bool.and_eq_true_iff.mp h).2
  · exact isHarmless_getD fun _ => isHarmless_of_headerWithEnding?

end Line

/-! ### The whole recursion -/

namespace Hierarchy

open FunctionName

variable {tree : SourceTree}

theorem isHarmless_of_callerOf {o : Occurrence} {cache cache' : FileCache} {caller : Text}
    {w w' : World} (h : callerOf tree o cache w = .ok (caller, cache') w') : IsHarmless caller := by
  unfold callerOf at h
  split at h
  · obtain ⟨h, -⟩ := Run.pure_ok_iff.mp h
    obtain ⟨rfl, -⟩ := Prod.mk.inj h
    exact Line.isHarmless_callerFromScope _ _
  · obtain ⟨⟨lines, cache''⟩, v, -, h⟩ := Run.bind_ok_iff.mp h
    cases lines with
    | some lines =>
      obtain ⟨h, -⟩ := Run.pure_ok_iff.mp h
      obtain ⟨rfl, -⟩ := Prod.mk.inj h
      exact Line.isHarmless_enclosingFunction _ _
    | none =>
      obtain ⟨h, -⟩ := Run.pure_ok_iff.mp h
      obtain ⟨rfl, -⟩ := Prod.mk.inj h
      exact Line.isHarmless_unknownCaller

/-- The cache is general in the induction, as each call may fill it. -/
theorem isHarmless_of_callsAmong {name : Text} {os : List Occurrence} {calls : List Call} :
    ∀ {cache : FileCache} {w w' : World}, callsAmong tree name cache os w = .ok calls w' →
      ∀ call ∈ calls, IsHarmless call.caller := by
  induction os generalizing calls with
  | nil =>
    intro cache w w' h
    obtain ⟨rfl, -⟩ := Run.pure_ok_iff.mp h
    simp
  | cons o os ih =>
    intro cache w w' h
    rw [callsAmong] at h
    split at h
    · obtain ⟨⟨caller, cache'⟩, v, hcaller, h⟩ := Run.bind_ok_iff.mp h
      obtain ⟨rest, u, hrest, h⟩ := Run.bind_ok_iff.mp h
      obtain ⟨rfl, -⟩ := Run.pure_ok_iff.mp h
      exact List.forall_mem_cons.mpr ⟨isHarmless_of_callerOf hcaller, ih hrest⟩
    · exact ih h

theorem isHarmless_of_expandedSites {l : Locator} {name : Text} {depth : Nat} {w w' : World}
    {calls : List Call} (h : expandedSites l tree name depth w = .ok calls w') :
    ∀ call ∈ calls, IsHarmless call.caller := by
  obtain ⟨calls', v, hcalls, h⟩ := Run.bind_ok_iff.mp h
  obtain ⟨_, u, -, h⟩ := Run.bind_ok_iff.mp h
  obtain ⟨rfl, -⟩ := Run.pure_ok_iff.mp h
  obtain ⟨os, u', -, hcalls⟩ := Run.bind_ok_iff.mp hcalls
  exact isHarmless_of_callsAmong hcalls

/-- The names that are looked up are all in `P`, if the first is and all that are found are: a run
goes the same with any two ways of finding call sites that agree on `P`. -/
theorem grow_congr {P : Text → Prop} {sites sites' : Text → Nat → Run (List Call)}
    (hagree : ∀ name depth, P name → sites' name depth = sites name depth)
    (hfound : ∀ name depth w calls w', sites name depth w = .ok calls w' →
      ∀ call ∈ calls, P call.caller)
    (limit : Int) (remaining : Nat) :
    ∀ (ancestry : Ancestry) (depth : Nat) (name : Text), P name →
      grow Run.check sites' limit remaining ancestry depth name =
        grow Run.check sites limit remaining ancestry depth name := by
  induction remaining with
  | zero => exact fun _ _ _ _ => rfl
  | succ remaining ih =>
    intro ancestry depth name hname
    rw [grow, grow, hagree name depth hname]
    refine congrArg (Run.check >>= ·) (funext fun _ => ?_)
    split
    · rfl
    · refine Run.bind_congr_of_ok fun calls w v hcalls => ?_
      have hexpand : ∀ call ∈ calls,
          expand (grow Run.check sites' limit remaining (ancestry.extend name) (depth + 1)) name
              (depth + 1) call =
            expand (grow Run.check sites limit remaining (ancestry.extend name) (depth + 1)) name
              (depth + 1) call := by
        intro call hcall
        unfold expand
        rw [ih _ _ _ (hfound name depth w calls v hcalls call hcall)]
      rw [Run.mapM_congr hexpand]

/-- The resolution hands on names with the property `P` only, to the locator and to the
classification: whatever is done with other names, it goes the same. -/
def LooksUpOnly (P : Text → Prop) (l : Locator) (tree : SourceTree) (limit : Int) (name : Text) :
    Prop :=
  ∀ sites : Text → Nat → Run (List Call),
    (∀ name depth, P name → sites name depth = expandedSites l tree name depth) →
      resolve Run.check sites limit name = build l tree limit name

theorem looksUpOnly_isHarmless (l : Locator) (limit : Int) {name : Text} (hname : IsHarmless name) :
    LooksUpOnly IsHarmless l tree limit name := fun _ hagree =>
  grow_congr hagree (fun _ _ _ _ _ hcalls => isHarmless_of_expandedSites hcalls) limit _ _ _ _ hname

open Classical in
/-- To show something of a resolution it is enough to look at the lookups of harmless names. Those
of other names may as well find nothing. -/
theorem build_of_harmless {P : Run (List Call) → Prop} {Q : Run CallTree → Prop} {l : Locator}
    {limit : Int} {name : Text} (hname : IsHarmless name) (hnone : P (pure []))
    (hsites : ∀ name depth, IsHarmless name → P (expandedSites l tree name depth))
    (hresolve : ∀ sites, (∀ name depth, P (sites name depth)) →
      Q (resolve Run.check sites limit name)) : Q (build l tree limit name) := by
  let sites : Text → Nat → Run (List Call) := fun name depth =>
    if IsHarmless name then expandedSites l tree name depth else pure []
  have hagree : ∀ name depth, IsHarmless name →
      sites name depth = expandedSites l tree name depth := fun _ _ hname => if_pos hname
  rw [← looksUpOnly_isHarmless l limit hname sites hagree]
  refine hresolve sites fun name depth => ?_
  by_cases hname : IsHarmless name
  · rw [hagree name depth hname]
    exact hsites name depth hname
  · rw [show sites name depth = pure [] from if_neg hname]
    exact hnone

end Hierarchy

end CallerTree
