import CallerTree.Proofs.ToolOutput
import CallerTree.SourceTree.Basic
import Mathlib.Data.List.Forall2

/-!
# The list of files, as the indexing tool reads it

The indexing tool takes the names of the files from a list with one name on each line. A name with a
blank in it stands between double quotes, and between quotes a backslash makes the character behind
it literal. `NameFile.readNames?` is this rule; `SourceTree.fileList` is what is written for it.

## Where the two part

What is written between quotes has a backslash put in front of each quote, but none in front of a
backslash. So a path survives between quotes exactly if it has no backslash of its own. Outside
quotes a backslash means nothing, and there a path always survives: an absolute path does not begin
with a quote. Each line is read by itself, so a path that is lost takes no other with it.

## Proof outline

Without backslashes the reader undoes what was written, glyph by glyph. With one, the length
decides: the reader gives at most one glyph for each glyph of the path, and for a backslash together
with what follows it, it gives one glyph for two (`length_le_of_unquote?`). What is read is too
short to be the path, whatever it is.

## Main definitions

* `NameFile.readName?`, `NameFile.readNames?` — the name on a line, and all names of a list

## Main results

* `NameFile.readName?_entry_iff` — which paths are read back from their lines
* `NameFile.listed_paths_are_read_back_iff`
-/

namespace CallerTree

namespace NameFile

/-! ### The rule -/

/-- A quoted name behind its opening quote. It goes up to the next quote that has no backslash of
its own, and what follows on the line is not part of it. -/
def unquote? : Text → Option Text
  | [] => none
  | .char '"' :: _ => some []
  | [.char '\\'] => none
  | .char '\\' :: g :: rest => (unquote? rest).map (g :: ·)
  | g :: rest => (unquote? rest).map (g :: ·)

/-- Whether a name has to be quoted. -/
def HasBlank (t : Text) : Prop := Glyph.char ' ' ∈ t ∨ Glyph.char '\t' ∈ t

instance (t : Text) : Decidable (HasBlank t) := inferInstanceAs (Decidable (_ ∨ _))

/-- The name on a line. -/
def readName? : Text → Option Text
  | .char '"' :: rest => unquote? rest
  | line => if HasBlank line then none else some line

/-- The names in a list, if there is one on each line. -/
def readNames? (t : Text) : Option (List Text) := t.lines.mapM readName?

/-! ### Between quotes -/

/-- A path as it is written between quotes. -/
abbrev withinQuotes (t : Text) : Text := t.substitute '"' "\\\""

theorem withinQuotes_cons_quote (t : Text) :
    withinQuotes (.char '"' :: t) = .char '\\' :: .char '"' :: withinQuotes t := rfl

theorem withinQuotes_cons_of_ne {g : Glyph} (hg : g ≠ .char '"') (t : Text) :
    withinQuotes (g :: t) = g :: withinQuotes t := by
  rw [withinQuotes, Text.substitute, List.flatMap_cons, if_neg hg]
  rfl

theorem unquote?_cons {g : Glyph} (hquote : g ≠ .char '"') (hslash : g ≠ .char '\\')
    (rest : Text) : unquote? (g :: rest) = (unquote? rest).map (g :: ·) := by
  rw [unquote?]
  · exact hquote
  · exact fun h _ => hslash h
  · exact fun _ _ h _ => hslash h

theorem unquote?_cons_backslash (g : Glyph) (rest : Text) :
    unquote? (.char '\\' :: g :: rest) = (unquote? rest).map (g :: ·) := by
  rw [unquote?]

/-- A quote is read back from the two glyphs it is written as. -/
theorem unquote?_withinQuotes_cons {g : Glyph} (hslash : g ≠ .char '\\') (t rest : Text) :
    unquote? (withinQuotes (g :: t) ++ rest) =
      (unquote? (withinQuotes t ++ rest)).map (g :: ·) := by
  by_cases hquote : g = .char '"'
  · rw [hquote, withinQuotes_cons_quote, List.cons_append, List.cons_append,
      unquote?_cons_backslash]
  · rw [withinQuotes_cons_of_ne hquote, List.cons_append, unquote?_cons hquote hslash]

theorem unquote?_withinQuotes {t : Text} (h : Glyph.char '\\' ∉ t) (rest : Text) :
    unquote? (withinQuotes t ++ .char '"' :: rest) = some t := by
  induction t with
  | nil => rfl
  | cons g t ih =>
    obtain ⟨hg, ht⟩ := not_or.mp (mt List.mem_cons.mpr h)
    rw [unquote?_withinQuotes_cons (Ne.symm hg), ih ht, Option.map_some]

/-- What is read from a quoted path is no longer than the path, and shorter if the path has a
backslash. -/
theorem length_le_of_unquote? {t u : Text} (hread : unquote? (withinQuotes t ++ "\"") = some u) :
    u.length ≤ t.length ∧ (Glyph.char '\\' ∈ t → u.length < t.length) := by
  induction hn : t.length using Nat.strong_induction_on generalizing t u with
  | _ n ih =>
    cases t with
    | nil =>
      obtain rfl : [] = u := Option.some.inj hread
      simp
    | cons g t =>
      rw [List.length_cons] at hn
      by_cases hslash : g = .char '\\'
      · subst hslash
        rw [withinQuotes_cons_of_ne (by decide)] at hread
        -- The backslash takes the next glyph with it, be it the closing quote.
        cases t with
        | nil => cases hread
        | cons g' t =>
          rw [List.length_cons] at hn
          have hlength : u.length ≤ t.length + 1 := by
            by_cases hquote : g' = .char '"'
            · subst hquote
              rw [withinQuotes_cons_quote, List.cons_append, List.cons_append, List.cons_append,
                unquote?_cons_backslash] at hread
              obtain rfl : [Glyph.char '\\'] = u := Option.some.inj hread
              simp
            · rw [withinQuotes_cons_of_ne hquote, List.cons_append, List.cons_append,
                unquote?_cons_backslash] at hread
              obtain ⟨v, hv, rfl⟩ := Option.map_eq_some_iff.mp hread
              obtain ⟨hle, -⟩ := ih t.length (by omega) hv rfl
              rw [List.length_cons]
              omega
          exact ⟨by omega, fun _ => by omega⟩
      · rw [unquote?_withinQuotes_cons hslash] at hread
        obtain ⟨v, hv, rfl⟩ := Option.map_eq_some_iff.mp hread
        obtain ⟨hle, hlt⟩ := ih t.length (by omega) hv rfl
        rw [List.length_cons, List.mem_cons]
        refine ⟨by omega, fun hmem => ?_⟩
        have := hlt (hmem.resolve_left (Ne.symm hslash))
        omega

/-! ### One line -/

/-- The line of a path, without its end. -/
def entry (path : Text) : Text :=
  if HasBlank path then .char '"' :: (withinQuotes path ++ "\"") else path

theorem fileListLine_eq (path : Text) : SourceTree.fileListLine path = entry path ++ "\n" := by
  have hblank : (path.contains " " || path.contains "\t") = true ↔ HasBlank path := by
    rw [Bool.or_eq_true]
    exact or_congr Text.contains_singleton_iff Text.contains_singleton_iff
  unfold SourceTree.fileListLine entry
  by_cases h : HasBlank path
  · rw [if_pos h, if_pos (hblank.mpr h)]
    have hend : Text.ofString "\"\n" = Text.ofString "\"" ++ Text.ofString "\n" := rfl
    rw [hend, List.append_assoc, ← List.append_assoc (withinQuotes path)]
    rfl
  · rw [if_neg h, if_neg (mt hblank.mp h)]

/-- **Which paths are read back.** -/
theorem readName?_entry_iff {path : Text} (habs : Path.isAbsolute path = true) :
    readName? (entry path) = some path ↔ ¬ (HasBlank path ∧ Glyph.char '\\' ∈ path) := by
  unfold entry
  by_cases hblank : HasBlank path
  · rw [if_pos hblank, readName?]
    constructor
    · rintro hread ⟨-, hslash⟩
      obtain ⟨-, hlt⟩ := length_le_of_unquote? hread
      exact Nat.lt_irrefl _ (hlt hslash)
    · exact fun h => unquote?_withinQuotes (fun hslash => h ⟨hblank, hslash⟩) []
  · have hname : readName? path = some path := by
      rw [readName?, if_neg hblank]
      rintro rest rfl
      cases habs
    rw [if_neg hblank]
    exact ⟨fun _ h => hblank h.1, fun _ => hname⟩

/-! ### The whole list -/

theorem feed_notMem_entry {path : Text} (h : Glyph.char '\n' ∉ path) :
    Glyph.char '\n' ∉ entry path := by
  unfold entry
  split
  · rw [List.mem_cons, List.mem_append, not_or, not_or, Text.mem_substitute_iff, not_or]
    exact ⟨by decide, ⟨fun hmem => h hmem.1, fun hmem => absurd hmem.2 (by decide)⟩, by decide⟩
  · exact h

theorem lines_fileList {paths : List Text} (h : ∀ p ∈ paths, Glyph.char '\n' ∉ p) :
    (SourceTree.fileList paths).lines = paths.map entry := by
  have hlist : SourceTree.fileList paths = Text.unlines (paths.map entry) := by
    rw [SourceTree.fileList, Text.unlines, List.flatMap_map]
    exact List.flatMap_congr fun p _ => fileListLine_eq p
  rw [hlist]
  exact Text.lines_unlines (List.forall_mem_map.mpr fun p hp => feed_notMem_entry (h p hp))

/-- **Which lists are read back.** The list of absolute paths without line feeds has one line for
each path. A path is read back from its line exactly if it does not hold both a blank and a
backslash; so the list is read back exactly if none of its paths does. -/
theorem listed_paths_are_read_back_iff {paths : List Text}
    (habs : ∀ p ∈ paths, Path.isAbsolute p = true) (hfeed : ∀ p ∈ paths, Glyph.char '\n' ∉ p) :
    List.Forall₂ (fun p line => readName? line = some p ↔ ¬ (HasBlank p ∧ Glyph.char '\\' ∈ p))
        paths (SourceTree.fileList paths).lines ∧
      (readNames? (SourceTree.fileList paths) = some paths ↔
        ∀ p ∈ paths, ¬ (HasBlank p ∧ Glyph.char '\\' ∈ p)) := by
  have hentry := fun p hp => readName?_entry_iff (habs p hp)
  rw [readNames?, lines_fileList hfeed]
  constructor
  · rw [List.forall₂_map_right_iff, List.forall₂_same]
    exact hentry
  · rw [Text.mapM_map_eq_some_iff]
    exact forall₂_congr hentry

/-- Of three paths, one has a blank and a quote, one a backslash, and one a blank and a backslash.
The last one comes back as the path of another file. -/
theorem backslash_beside_blank_is_lost :
    let paths : List Text := ["/src/a \"b\".c", "/src/a\\b.c", "/src/a b\\c.c"]
    readNames? (SourceTree.fileList paths) ≠ some paths ∧
      readNames? (SourceTree.fileList paths) =
        some [Text.ofString "/src/a \"b\".c", Text.ofString "/src/a\\b.c",
          Text.ofString "/src/a bc.c"] := by
  intro paths
  obtain ⟨-, hiff⟩ := @listed_paths_are_read_back_iff paths (by decide) (by decide)
  refine ⟨fun h => ?_, by decide +kernel⟩
  exact hiff.mp h "/src/a b\\c.c" (by simp [paths]) ⟨by decide, by decide⟩

end NameFile

end CallerTree
