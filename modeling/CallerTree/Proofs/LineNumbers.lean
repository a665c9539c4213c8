import CallerTree.FileContext
import CallerTree.Locator.Basic
import CallerTree.Proofs.Walk

/-!
# Line numbers of call sites

A call site is found in one reading of a file and shown in another. The search ends lines at line
feeds; the display ends them at lone carriage returns too. So a reader who follows a call site is
taken to the right line only if no carriage return stands alone above it or in it.

## How the two readings are related

The display cuts every searched line once more, at its carriage returns (`flatMap_split_cutLines`).
A searched line without one is left whole, so up to the first line with a carriage return both
readings have the same lines under the same numbers.

## Main results

* `SourceLines.ofBytes_eq_shown_iff` — when the two readings agree
* `Locator.call_sites_open_at_their_lines` — what the display shows of a call site
-/

namespace CallerTree

/-! ### The two readings of a file -/

namespace SourceLines

/-- A glyph that ends a line of the display, once carriage returns before line feeds are gone. -/
def endsShownLine (g : Glyph) : Bool := g = Glyph.char '\n' || g = Glyph.char '\r'

theorem split_substitute (t : Text) :
    (t.substitute '\r' "\n").split '\n' = pieces endsShownLine t := by
  induction t with
  | nil => rfl
  | cons g t ih =>
    rw [Text.substitute, List.flatMap_cons, ← Text.substitute]
    by_cases hr : g = Glyph.char '\r'
    · rw [if_pos hr, pieces_cons_of_pos (by simp [endsShownLine, hr]), ← ih]
      exact pieces_cons_of_pos rfl _
    · rw [if_neg hr]
      by_cases hn : g = Glyph.char '\n'
      · rw [pieces_cons_of_pos (by simp [endsShownLine, hn]), ← ih]
        exact pieces_cons_of_pos (by simp [hn]) _
      · obtain ⟨part, rest, hl⟩ :=
          List.exists_cons_of_ne_nil (pieces_ne_nil (p := endsShownLine) t)
        rw [hl] at ih
        rw [pieces_cons_of_neg (by simp [endsShownLine, hn, hr]) hl]
        exact pieces_cons_of_neg (by simp [hn]) ih

theorem dropTail_concat (t : Text) (g : Glyph) :
    Text.dropTail (t ++ [g]) "\n" = if g = Glyph.char '\n' then t else t ++ [g] := by
  have hrev : (Text.ofString "\n").reverse = [Glyph.char '\n'] := rfl
  rw [Text.dropTail, List.reverse_append, List.reverse_singleton, List.singleton_append, hrev,
    Text.strip?]
  by_cases hg : g = Glyph.char '\n'
  · simp [hg]
  · simp [hg]

/-- The lines of the display are the searched lines, cut at their carriage returns. Only a carriage
return at the very end starts no further line in the display. -/
theorem flatMap_split_cutLines (t : Text) :
    (cutLines t).flatMap (·.split '\r') = cutLines (t.substitute '\r' "\n") ∨
    (cutLines t).flatMap (·.split '\r') = cutLines (t.substitute '\r' "\n") ++ [[]] ∧
      ∃ l ∈ cutLines t, Glyph.char '\r' ∈ l := by
  have hor : ∀ s : Text, (s.split '\n').flatMap (·.split '\r') = pieces endsShownLine s :=
    fun s => (pieces_or _ s).symm
  rcases List.eq_nil_or_concat t with rfl | ⟨s, g, rfl⟩
  · exact .inl rfl
  · rw [List.concat_eq_append]
    have hsubstitute : Text.substitute (s ++ [g]) '\r' "\n" =
        Text.substitute s '\r' "\n" ++ [if g = Glyph.char '\r' then Glyph.char '\n' else g] := by
      rw [Text.substitute, List.flatMap_append, List.flatMap_singleton]
      split <;> rfl
    rw [cutLines, cutLines, hsubstitute, dropTail_concat, dropTail_concat]
    by_cases hn : g = Glyph.char '\n'
    · left
      simp only [hn, if_true, if_false, Glyph.char.injEq, Char.reduceEq]
      rw [hor, split_substitute]
    · by_cases hr : g = Glyph.char '\r'
      · right
        simp only [hr, Glyph.char.injEq, Char.reduceEq, if_false, if_true]
        constructor
        · rw [hor, split_substitute, pieces_append_cons s (by decide)]
          rfl
        · have hlast : (Text.split (s ++ [Glyph.char '\r']) '\n').getLast? =
              some ((s ++ [Glyph.char '\r']).rtakeWhile fun g => !decide (g = Glyph.char '\n')) :=
            getLast?_pieces _
          refine ⟨_, List.mem_of_getLast? hlast, ?_⟩
          simp
      · left
        simp only [hn, hr, if_false]
        have happend : Text.substitute s '\r' "\n" ++ [g] =
            Text.substitute (s ++ [g]) '\r' "\n" := by rw [hsubstitute, if_neg hr]
        rw [hor, happend, split_substitute]

theorem flatMap_split_of_forall_not_mem {ls : List Text} (h : ∀ l ∈ ls, Glyph.char '\r' ∉ l) :
    ls.flatMap (·.split '\r') = ls := by
  induction ls with
  | nil => rfl
  | cons l ls ih =>
    obtain ⟨hl, hls⟩ := List.forall_mem_cons.mp h
    have hsplit : l.split '\r' = [l] := pieces_of_forall_not fun g hg => by
      rw [decide_eq_true_iff]
      rintro rfl
      exact hl hg
    rw [List.flatMap_cons, hsplit, ih hls, List.singleton_append]

/-- A line is shown under its number if no carriage return is left in it or above it. -/
theorem getElem?_cutLines_substitute {t : Text} {i : Nat} (hi : i < (cutLines t).length)
    (h : ∀ l ∈ (cutLines t).take (i + 1), Glyph.char '\r' ∉ l) :
    (cutLines (t.substitute '\r' "\n"))[i]? = (cutLines t)[i]? := by
  have hhead : (cutLines t).flatMap (·.split '\r') = (cutLines t).take (i + 1) ++
      ((cutLines t).drop (i + 1)).flatMap (·.split '\r') := by
    conv_lhs => rw [← List.take_append_drop (i + 1) (cutLines t)]
    rw [List.flatMap_append, flatMap_split_of_forall_not_mem h]
  have hget : ((cutLines t).flatMap (·.split '\r'))[i]? = (cutLines t)[i]? := by
    rw [hhead, List.getElem?_append_left (by rw [List.length_take]; omega),
      List.getElem?_take_of_lt (Nat.lt_succ_self i)]
  rcases flatMap_split_cutLines t with heq | ⟨heq, l, hl, hreturn⟩
  · rw [← hget, heq]
  · -- The line with the carriage return comes later, so what it adds to the end is not at `i`.
    have hlater : l ∈ (cutLines t).drop (i + 1) := by
      rw [← List.take_append_drop (i + 1) (cutLines t)] at hl
      exact (List.mem_append.mp hl).resolve_left fun hl => h l hl hreturn
    have hlength := congrArg List.length (heq.symm.trans hhead)
    rw [List.length_append, List.length_append, List.length_take, List.length_singleton] at hlength
    have hpos : 0 < (((cutLines t).drop (i + 1)).flatMap (·.split '\r')).length := by
      refine List.length_pos_iff.mpr fun hnil => ?_
      exact pieces_ne_nil l (List.flatMap_eq_nil_iff.mp hnil l hlater)
    rw [← hget, heq, List.getElem?_append_left (by omega)]

theorem feed_not_mem_of_mem_ofBytes {data : Bytes} {l : Text} (hl : l ∈ ofBytes data) :
    Glyph.char '\n' ∉ l :=
  fun hmem => not_of_mem_pieces hl hmem (by simp)

theorem return_not_mem_of_mem_shown {data : Bytes} {l : Text} (hl : l ∈ shown data) :
    Glyph.char '\r' ∉ l := by
  unfold shown at hl
  split at hl
  · simp at hl
  · have hmem : l ∈ (ofBytes data).flatMap (·.split '\r') := by
      rcases flatMap_split_cutLines (joinReturns (Text.ofUtf8 data).wellFormed) with heq | ⟨heq, -⟩
      · exact heq ▸ hl
      · exact heq ▸ List.mem_append_left _ hl
    obtain ⟨line, -, hl⟩ := List.mem_flatMap.mp hmem
    exact fun hreturn => not_of_mem_pieces hl hreturn (by simp)

/-- The display numbers and cuts the lines of a file as the search does exactly if no carriage
return is left in any line. -/
theorem ofBytes_eq_shown_iff {data : Bytes} (hdata : data ≠ []) :
    ofBytes data = shown data ↔ ∀ l ∈ ofBytes data, Glyph.char '\r' ∉ l := by
  constructor
  · intro heq l hl
    exact return_not_mem_of_mem_shown (heq ▸ hl)
  · intro h
    have hshown : shown data = cutLines
        (Text.substitute (joinReturns (Text.ofUtf8 data).wellFormed) '\r' "\n") := by
      rw [shown, if_neg (by simpa using hdata)]
    have hself := flatMap_split_of_forall_not_mem h
    rcases flatMap_split_cutLines (joinReturns (Text.ofUtf8 data).wellFormed) with
      heq | ⟨-, l, hl, hreturn⟩
    · rw [hshown, ← heq]
      exact hself.symm
    · exact absurd hreturn (h l hl)

theorem getElem?_shown {data : Bytes} (hdata : data ≠ []) {i : Nat} (hi : i < (ofBytes data).length)
    (h : ∀ l ∈ (ofBytes data).take (i + 1), Glyph.char '\r' ∉ l) :
    (shown data)[i]? = (ofBytes data)[i]? := by
  rw [shown, if_neg (by simpa using hdata)]
  exact getElem?_cutLines_substitute hi h

end SourceLines

/-! ### The window around a line -/

namespace FileContext

theorem bounds_eq {total : Nat} {line width : Int} (hline : 1 ≤ line) (hwidth : 0 ≤ width)
    (hsum : line + width ≤ maxInt64) :
    bounds total line width = (max 1 (line - width), min (total : Int) (line + width)) := by
  have hmin : minInt64 ≤ line - width := by
    simp only [maxInt64, minInt64] at *
    omega
  rw [bounds, wrap64_of_mem hmin (by omega), wrap64_of_mem (by simp only [minInt64]; omega) hsum]

/-- Within the range, the room for a window is its size. -/
theorem room_eq {total : Nat} {line width : Int} (hline : 1 ≤ line) (hwidth : 0 ≤ width)
    (hsum : line + width ≤ maxInt64) :
    room total line width =
      max 0 (min (total : Int) (line + width) - max 1 (line - width) + 1) := by
  rw [room, bounds_eq hline hwidth hsum]
  simp only
  have hlo : minInt64 ≤ min (total : Int) (line + width) - max 1 (line - width) := by
    simp only [maxInt64, minInt64] at *
    omega
  have hhi : min (total : Int) (line + width) - max 1 (line - width) + 1 ≤ maxInt64 := by omega
  rw [wrap64_of_mem hlo (by omega), wrap64_of_mem (by omega) hhi]

/-- Neither the file nor the width can make it too large alone. -/
theorem room_le {total : Nat} {line width : Int} (hline : 1 ≤ line) (hwidth : 0 ≤ width)
    (hsum : line + width ≤ maxInt64) :
    room total line width ≤ min (total : Int) (2 * width + 1) := by
  rw [room_eq hline hwidth hsum]
  omega

/-- A window holds the lines between its bounds, each under its number. -/
theorem mem_window_iff {lines : List Text} {line first last : Int} {l : ContextLine} :
    l ∈ window lines line first last ↔ ∃ i : Nat, first ≤ i + 1 ∧ (i : Int) + 1 ≤ last ∧
      lines[i]? = some l.content ∧ l.number = i + 1 ∧ l.isTarget = decide (l.number = line) := by
  simp only [window, List.mem_map, Prod.exists, List.mk_mem_zipIdx_iff_getElem?,
    List.getElem?_drop, List.getElem?_take]
  constructor
  · rintro ⟨content, k, hk, rfl⟩
    split at hk
    · exact ⟨(first - 1).toNat + k, by omega, by omega, hk, by push_cast; rfl, rfl⟩
    · cases hk
  · rintro ⟨i, hfirst, hlast, hi, hnumber, htarget⟩
    have hskip : (first - 1).toNat + (i - (first - 1).toNat) = i := by omega
    refine ⟨l.content, i - (first - 1).toNat, ?_, ?_⟩
    · rw [hskip, if_pos (by omega), hi]
    · have hnum : (((first - 1).toNat : Int) + ((i - (first - 1).toNat : Nat) : Int) + 1) =
          l.number := by omega
      rw [hnum]
      cases l
      simp_all

/-- What becomes of a request that is in order is decided by the room. -/
theorem read_eq {fs : FileSystem} {path basePath : Text} {line width : Int} {data : Bytes}
    (hpath : path ≠ []) (hline : 1 ≤ line) (hwidth : 0 ≤ width)
    (hdata : contents fs (resolvedPath path basePath) = .ok data) :
    read fs path line width basePath =
      if roomLimit < room (SourceLines.shown data).length line width then
        .error (.panicked .outOfRange)
      else .ok {
        path, kind := kindOf (resolvedPath path basePath), target := line
        total := (SourceLines.shown data).length
        lines := window (SourceLines.shown data) line
          (bounds (SourceLines.shown data).length line width).1
          (bounds (SourceLines.shown data).length line width).2 } := by
  have hvalid : validate path line width = .ok () := by
    rw [validate, if_neg (by simpa using hpath), if_neg (by omega), if_neg (by omega)]
  simp only [read, hvalid, hdata, Except.mapError, bind, Except.bind]
  split
  · rfl
  · rfl

end FileContext

/-! ### What the scan finds -/

namespace Locator

theorem getElem?_of_mem_scanLines {name file : Text} {lines : List Text} {o : Occurrence} :
    ∀ {number : Nat}, o ∈ scanLines name file number lines →
      o.file = file ∧ Line.mentionsCall name o.code = true ∧
        ∃ i : Nat, o.line = ((number + i : Nat) : Int) ∧ lines[i]? = some o.code := by
  induction lines with
  | nil =>
    intro number ho
    simp [scanLines] at ho
  | cons l lines ih =>
    intro number ho
    have hlater : o ∈ scanLines name file (number + 1) lines → o.file = file ∧
        Line.mentionsCall name o.code = true ∧
        ∃ i : Nat, o.line = ((number + i : Nat) : Int) ∧ (l :: lines)[i]? = some o.code := by
      intro ho
      obtain ⟨hfile, hcall, i, hline, hcode⟩ := ih ho
      exact ⟨hfile, hcall, i + 1, by rw [hline]; omega, by simpa using hcode⟩
    rw [scanLines] at ho
    split at ho
    · rename_i hcall
      rcases List.mem_cons.mp ho with rfl | ho
      · exact ⟨rfl, hcall, 0, rfl, rfl⟩
      · exact hlater ho
    · exact hlater ho

theorem exists_path_of_mem_scanFiles {name : Text} {tree : SourceTree} {paths : List Text} :
    ∀ {w w' : World} {os : List Occurrence}, scanFiles name tree paths w = .ok os w' →
      ∀ o ∈ os, ∃ path ∈ paths, ∃ lines, readSource w.files path = .ok lines ∧
        o ∈ scanLines name (tree.relative path) 1 lines := by
  induction paths with
  | nil =>
    intro w w' os h o ho
    obtain ⟨rfl, -⟩ := Run.pure_ok_iff.mp h
    simp at ho
  | cons path paths ih =>
    intro w w' os h o ho
    have hlater : ∀ {u u' : World} {rest : List Occurrence},
        scanFiles name tree paths u = .ok rest u' → u.files = w.files → o ∈ rest →
        ∃ p ∈ path :: paths, ∃ lines, readSource w.files p = .ok lines ∧
          o ∈ scanLines name (tree.relative p) 1 lines := by
      intro u u' rest hrest hu ho
      obtain ⟨p, hp, hlines⟩ := ih hrest o ho
      exact ⟨p, List.mem_cons_of_mem _ hp, hu ▸ hlines⟩
    simp only [scanFiles, Run.bind_ok_iff, Run.files_ok_iff, Run.check_ok_iff] at h
    obtain ⟨_, _, ⟨-, rfl⟩, _, _, ⟨rfl, rfl⟩, h⟩ := h
    cases hread : readSource w.files path with
    | error e =>
      simp only [hread, Run.bind_ok_iff, Run.note_ok_iff] at h
      obtain ⟨_, _, rfl, h⟩ := h
      exact hlater h rfl ho
    | ok lines =>
      simp only [hread, Run.bind_ok_iff, Run.pure_ok_iff] at h
      obtain ⟨rest, u, hrest, rfl, rfl⟩ := h
      rcases List.mem_append.mp ho with ho | ho
      · exact ⟨path, List.mem_cons_self, lines, hread, ho⟩
      · exact hlater hrest rfl ho

/-- An occurrence found by the scan is a line of a file of the tree. -/
theorem exists_path_of_mem_scan {includeHeaders : Bool} {name : Text} {tree : SourceTree}
    {w w' : World} {os : List Occurrence}
    (h : (scan includeHeaders).locate name tree w = .ok os w') {o : Occurrence} (ho : o ∈ os) :
    ∃ paths v, tree.files includeHeaders w = .ok paths v ∧ ∃ path ∈ paths,
      ∃ lines, readSource w.files path = .ok lines ∧
        o ∈ scanLines name (tree.relative path) 1 lines := by
  simp only [scan, Run.bind_ok_iff, Run.ofExcept_ok_iff] at h
  obtain ⟨_, _, ⟨-, rfl⟩, found, v, hfound, h⟩ := h
  cases found with
  | error e => exact (Run.throw_ok_iff.mp h).elim
  | ok paths =>
    rw [Run.attempt_ok_iff] at hfound
    obtain ⟨e, -, hcollect⟩ := SourceTree.exists_collect_of_files hfound
    obtain ⟨path, hpath, lines, hlines⟩ := exists_path_of_mem_scanFiles h o ho
    rw [(SourceTree.eq_of_collect hcollect).2] at hlines
    exact ⟨paths, v, hfound, path, hpath, lines, hlines⟩

theorem exists_contents_of_readSource {fs : FileSystem} {path : Text} {lines : List Text}
    (h : readSource fs path = .ok lines) :
    ∃ data, FileContext.contents fs path = .ok data ∧ lines = SourceLines.ofBytes data := by
  unfold readSource at h
  cases hread : fs.read path with
  | error e =>
    rw [hread] at h
    cases h
  | ok data =>
    rw [hread] at h
    cases h
    obtain ⟨mode, hstat⟩ := FileSystem.exists_stat_of_read hread
    refine ⟨data, ?_, rfl⟩
    rw [FileContext.contents, hstat, hread]
    rfl

theorem ne_nil_of_mentionsCall {name line : Text} (h : Line.mentionsCall name line = true) :
    line ≠ [] := by
  rintro rfl
  cases name with
  | nil => exact absurd h (by decide)
  | cons g name => exact absurd h (by simp [Line.mentionsCall, Line.anywhere, Line.callAt,
      Line.afterLead, Text.strip?])

/-- **Where a call site opens.** An occurrence found by the scan is a line of the file that the
display reads for it, counted in line feeds. If no carriage return is left in that line or above it,
the display shows it under its number and marks it, whatever the width of the window. The display
counts the lines of the whole file in the same way exactly if no carriage return is left in it. -/
theorem call_sites_open_at_their_lines {path : Text} {excludes : List Text} {tree : SourceTree}
    {includeHeaders : Bool} {name : Text} {w w' : World} {os : List Occurrence}
    (htree : SourceTree.ofRoot w.files path excludes = .ok tree)
    (h : (scan includeHeaders).locate name tree w = .ok os w') {o : Occurrence} (ho : o ∈ os) :
    ∃ data, FileContext.contents w.files (FileContext.resolvedPath o.file tree.root) = .ok data ∧
      1 ≤ o.line ∧ (SourceLines.ofBytes data)[o.line.toNat - 1]? = some o.code ∧
      (SourceLines.ofBytes data = SourceLines.shown data ↔
        ∀ l ∈ SourceLines.ofBytes data, Glyph.char '\r' ∉ l) ∧
      ((∀ l ∈ (SourceLines.ofBytes data).take o.line.toNat, Glyph.char '\r' ∉ l) →
        ∀ width, 0 ≤ width → o.line + width ≤ maxInt64 →
          min ((SourceLines.shown data).length : Int) (2 * width + 1) ≤ FileContext.roomLimit →
          ∃ c, FileContext.read w.files o.file o.line width tree.root = .ok c ∧
            ⟨o.line, o.code, true⟩ ∈ c.lines ∧
            ∀ l ∈ c.lines, l.number = o.line → l.content = o.code) := by
  obtain ⟨root, hroot, heq⟩ := SourceTree.exists_root_of_ofRoot htree
  obtain ⟨paths, v, hfiles, p, hp, lines, hread, hmem⟩ := exists_path_of_mem_scan h ho
  obtain ⟨cs, hcs, rfl⟩ := SourceTree.exists_components_of_mem_files heq hroot hfiles hp
  obtain ⟨data, hdata, rfl⟩ := exists_contents_of_readSource hread
  obtain ⟨hfile, hcall, i, hline, hcode⟩ := getElem?_of_mem_scanLines hmem
  rw [SourceTree.relative_ofComponents heq hroot hcs] at hfile
  have hopened : FileContext.resolvedPath o.file tree.root =
      Path.ofComponents true (root ++ cs) := by
    have hall : ∀ c ∈ root ++ cs, Path.IsName c := List.forall_mem_append.mpr ⟨hroot, hcs⟩
    rw [hfile, heq, FileContext.resolvedPath, Path.isAbsolute_ofComponents hcs,
      if_pos (by simpa using Path.ofComponents_ne_nil hroot true),
      Path.join_ofComponents_ofComponents hroot hcs, Path.clean_ofComponents hall]
  have hnonempty : data ≠ [] := by
    rintro rfl
    have hlines : SourceLines.ofBytes [] = [[]] := by decide +kernel
    rw [hlines] at hcode
    exact ne_nil_of_mentionsCall hcall (List.mem_singleton.mp (List.mem_of_getElem? hcode))
  have hnumber : o.line.toNat = i + 1 := by omega
  rw [← hopened] at hdata
  rw [hnumber]
  refine ⟨data, hdata, by omega, hcode, SourceLines.ofBytes_eq_shown_iff hnonempty, ?_⟩
  intro hreturns width hwidth hsum hroom
  have hi : i < (SourceLines.ofBytes data).length := (List.getElem?_eq_some_iff.mp hcode).1
  have hshown : (SourceLines.shown data)[i]? = some o.code :=
    (SourceLines.getElem?_shown hnonempty hi hreturns).trans hcode
  have hlength := (List.getElem?_eq_some_iff.mp hshown).1
  have hone : 1 ≤ o.line := by omega
  have hfits := Int.le_trans (FileContext.room_le hone hwidth hsum) hroom
  have hread := FileContext.read_eq (hfile ▸ Path.ofComponents_ne_nil hcs false) hone hwidth hdata
  rw [if_neg (Int.not_lt.mpr hfits)] at hread
  refine ⟨_, hread, ?_, ?_⟩
  · rw [FileContext.bounds_eq hone hwidth hsum]
    exact FileContext.mem_window_iff.mpr
      ⟨i, by simp only; omega, by simp only; omega, hshown, by simp only; omega, by simp⟩
  · intro l hl hnumber
    obtain ⟨j, -, -, hj, hlnumber, -⟩ := FileContext.mem_window_iff.mp hl
    have hij : j = i := by omega
    rw [hij, hshown] at hj
    exact (Option.some.inj hj).symm

/-- A file with two calls: one below a carriage return that belongs to a line feed, and one behind a
carriage return that stands alone. -/
def mixedReturns : FileSystem where
  tree := .folder [("src", .folder [
    ("a.c", .file 0o644 "int a;\r\nfoo();\nint b;\rfoo();\n".toUTF8.toList)])]

/-- The first call opens at its line. The second does not: under its number the display shows what
stands before the carriage return. -/
theorem lone_return_opens_elsewhere :
    ∃ os w', (scan false).locate "foo" ⟨"/src", []⟩ { files := mixedReturns } = .ok os w' ∧
      ⟨"a.c", 2, "foo();", []⟩ ∈ os ∧
      (∃ c, FileContext.read mixedReturns "a.c" 2 15 "/src" = .ok c ∧
        ⟨2, "foo();", true⟩ ∈ c.lines) ∧
      ⟨"a.c", 3, "int b;\rfoo();", []⟩ ∈ os ∧
      (FileContext.read mixedReturns "a.c" 3 15 "/src").toOption.map (·.lines) =
        some [⟨1, "int a;", false⟩, ⟨2, "foo();", false⟩, ⟨3, "int b;", true⟩,
          ⟨4, "foo();", false⟩] := by
  have heval : Run.result? ((scan false).locate "foo" ⟨"/src", []⟩) { files := mixedReturns } =
      some [⟨"a.c", 2, "foo();", []⟩, ⟨"a.c", 3, "int b;\rfoo();", []⟩] := by decide +kernel
  obtain ⟨w', h⟩ := Run.result?_eq_some_iff.mp heval
  have htree : SourceTree.ofRoot mixedReturns "/src" [] = .ok ⟨"/src", []⟩ :=
    eq_ok_of_toOption (by decide +kernel)
  have hcontents : FileContext.contents mixedReturns (FileContext.resolvedPath "a.c" "/src") =
      .ok "int a;\r\nfoo();\nint b;\rfoo();\n".toUTF8.toList :=
    eq_ok_of_toOption (by decide +kernel)
  obtain ⟨data, hdata, -, -, -, hopens⟩ :=
    call_sites_open_at_their_lines htree h List.mem_cons_self
  obtain rfl := Except.ok.inj (hcontents.symm.trans hdata)
  obtain ⟨c, hread, hmem, -⟩ := hopens (by decide +kernel) 15 (by decide) (by decide)
    (by decide +kernel)
  exact ⟨_, w', h, by simp, ⟨c, hread, hmem⟩, by simp, by decide +kernel⟩

end Locator

end CallerTree
