import CallerTree.Locator.Basic
import CallerTree.Proofs.ToolOutput
import CallerTree.Proofs.Walk

/-!
# Exclusion by the backends that ask a tool

The walk leaves out an excluded folder with everything below it. The backends that ask an external
tool get the paths of files and compare the patterns with these alone, so a pattern for a folder has
no effect on the files in it.

## The exact condition

The two rules agree for those lists of patterns that, with a folder, also match every path below it
which a tool can report. `build/**` is such a pattern, `build` is not.

## Main definitions

* `Locator.AsksTool` — the two backends in question
* `SourceTree.IsReportable` — a path that some output leads to

## Main results

* `Locator.AsksTool.eq_withinTree` — what such a backend returns
* `SourceTree.tool_backends_follow_walk_iff` — when such a backend follows the rule of the walk
-/

namespace CallerTree

theorem Text.mem_of_mem_dropEndWhile {p : Glyph → Bool} {t : Text} {g : Glyph}
    (h : g ∈ dropEndWhile p t) : g ∈ t := by
  rw [dropEndWhile, List.mem_reverse] at h
  exact List.mem_reverse.mp ((List.dropWhile_sublist _).subset h)

namespace Locator

/-- The locators that ask an external tool. -/
inductive AsksTool : Locator → Prop
  | grep (tools : Toolbox) (tool : Text) (includeHeaders : Bool) :
      AsksTool (Locator.grep tools tool includeHeaders)
  | index (tools : Toolbox) (tool : Text) : AsksTool (Locator.index tools tool)

theorem mem_withinTree_iff {tree : SourceTree} {os : List Occurrence} {o : Occurrence} :
    o ∈ withinTree tree os ↔
      (∃ o' ∈ os, { o' with file := tree.relative o'.file } = o) ∧
        tree.excludes? o.file = false := by
  simp [withinTree]

/-! ### What the backends return -/

theorem exists_readIndexLines (ls : List Text) :
    ∀ w, ∃ w', readIndexLines ls w = .ok (ls.filterMap Occurrence.ofIndexLine?) w' := by
  induction ls with
  | nil => exact fun w => ⟨w, rfl⟩
  | cons l ls ih =>
    intro w
    rw [readIndexLines]
    cases hl : Occurrence.ofIndexLine? l with
    | some o =>
      obtain ⟨w', hw'⟩ := ih w
      refine ⟨w', ?_⟩
      rw [List.filterMap_cons_some hl]
      exact Run.bind_ok_iff.mpr ⟨_, w', hw', rfl⟩
    | none =>
      let record : Record := ⟨.debug, "skipping malformed index line", [("line", .text l)]⟩
      obtain ⟨w', hw'⟩ := ih { w with log := w.log ++ [record] }
      refine ⟨w', ?_⟩
      rw [List.filterMap_cons_none hl]
      exact Run.bind_ok_iff.mpr ⟨_, _, rfl, hw'⟩

variable {tools : Toolbox} {tool name : Text} {includeHeaders : Bool} {tree : SourceTree}
  {w w' : World} {os : List Occurrence}

/-- What the index is asked about a name. -/
def indexQuery (tool root name : Text) : Command where
  name := tool
  args := ["-d", "-L", "-3", name]
  dir := root

/-- What the text search is asked about a name. -/
def grepQuery (tool root : Text) (includeHeaders : Bool) (name : Text) : Command where
  name := tool
  args := grepArgs includeHeaders name root

theorem eq_withinTree_of_grep
    (h : (grep tools tool includeHeaders).locate name tree w = .ok os w') :
    ∃ out v, Run.command tools (grepQuery tool tree.root includeHeaders name) w = .ok out v ∧
      (os = [] ∨ os = withinTree tree (ToolFormat.grep.readAll (Text.ofUtf8 out.stdout))) := by
  simp only [grep, Run.bind_ok_iff] at h
  obtain ⟨answer, v, hanswer, h⟩ := h
  cases answer with
  | error e => exact (Run.throw_ok_iff.mp h).elim
  | ok out =>
    refine ⟨out, v, Run.attempt_ok_iff.mp hanswer, ?_⟩
    simp only at h
    split at h
    · exact .inl (Run.pure_ok_iff.mp h).1.symm
    · split at h
      · exact (Run.throw_ok_iff.mp h).elim
      · split at h
        · simp only [Run.bind_ok_iff, Run.pure_ok_iff] at h
          obtain ⟨_, _, _, rfl, _⟩ := h
          exact .inr rfl
        · exact .inr (Run.pure_ok_iff.mp h).1.symm

theorem eq_withinTree_of_index (h : (index tools tool).locate name tree w = .ok os w') :
    ∃ out v, Run.command tools (indexQuery tool tree.root name) w = .ok out v ∧
      os = withinTree tree (ToolFormat.index.readAll (Text.ofUtf8 out.stdout)) := by
  simp only [index, Run.bind_ok_iff] at h
  obtain ⟨answer, v, hanswer, h⟩ := h
  cases answer with
  | error e =>
    simp only [Run.bind_ok_iff] at h
    obtain ⟨ended, u, -, h⟩ := h
    cases ended <;> exact (Run.throw_ok_iff.mp h).elim
  | ok out =>
    refine ⟨out, v, Run.attempt_ok_iff.mp hanswer, ?_⟩
    simp only at h
    split at h
    · exact (Run.throw_ok_iff.mp h).elim
    · split at h
      · exact (Run.throw_ok_iff.mp h).elim
      · simp only [Run.bind_ok_iff, Run.pure_ok_iff] at h
        obtain ⟨found, u, hfound, rfl, rfl⟩ := h
        obtain ⟨u', hu'⟩ := exists_readIndexLines
          (Occurrence.outputLines (Text.ofUtf8 out.stdout)) v
        rw [hu'] at hfound
        cases hfound
        rfl

/-- An index that answers with something is read. -/
theorem exists_index_of_command (out : Output)
    (h : Run.command tools (indexQuery tool tree.root name) w = .ok out w') (hexit : out.exit = 0)
    (hout : (Text.ofUtf8 out.stdout).isAllBlank = false) :
    ∃ v, (index tools tool).locate name tree w =
      .ok (withinTree tree (ToolFormat.index.readAll (Text.ofUtf8 out.stdout))) v := by
  obtain ⟨v, hread⟩ := exists_readIndexLines (Occurrence.outputLines (Text.ofUtf8 out.stdout)) w'
  refine ⟨v, Run.bind_ok_iff.mpr ⟨.ok out, w', Run.attempt_ok_iff.mpr h, ?_⟩⟩
  simp only [hout, hexit, ne_eq, not_true_eq_false, Bool.false_eq_true, if_false]
  exact Run.bind_ok_iff.mpr ⟨_, v, hread, rfl⟩

/-- A toolbox whose tools all print the same. -/
def printing (out : Bytes) : Toolbox where
  answer _ _ := { outcome := .ok { stdout := out } }
  isInstalled _ := true

theorem exists_grep_printing (out : Bytes) (tree : SourceTree) :
    ∃ w', (grep (printing out) "grep" true).locate [] tree { files := .empty } =
      .ok (withinTree tree (ToolFormat.grep.readAll (Text.ofUtf8 out))) w' :=
  ⟨_, rfl⟩

/-- An output that holds an occurrence is not blank. -/
theorem isAllBlank_of_mem_readAll {f : ToolFormat} {output : Text} {o : Occurrence}
    (h : o ∈ f.readAll output) : output.isAllBlank = false := by
  obtain ⟨l, hl, -⟩ := List.mem_filterMap.mp h
  simp only [Occurrence.outputLines, List.mem_filter, List.mem_map] at hl
  obtain ⟨⟨piece, hpiece, rfl⟩, hblank⟩ := hl
  rw [Bool.not_eq_true', Text.isAllBlank, List.all_eq_false] at hblank
  obtain ⟨g, hg, hnot⟩ := hblank
  rw [Text.isAllBlank, List.all_eq_false]
  exact ⟨g, mem_of_mem_pieces hpiece (Text.mem_of_mem_dropEndWhile hg), hnot⟩

theorem exists_index_printing {out : Bytes} (hout : (Text.ofUtf8 out).isAllBlank = false)
    (tree : SourceTree) :
    ∃ w', (index (printing out) "cscope").locate [] tree { files := .empty } =
      .ok (withinTree tree (ToolFormat.index.readAll (Text.ofUtf8 out))) w' :=
  exists_index_of_command { stdout := out } rfl rfl hout

theorem AsksTool.eq_withinTree {l : Locator} (hl : AsksTool l)
    (h : l.locate name tree w = .ok os w') :
    ∃ out, os = withinTree tree (ToolFormat.grep.readAll (Text.ofUtf8 out)) ∨
      os = withinTree tree (ToolFormat.index.readAll (Text.ofUtf8 out)) := by
  cases hl with
  | grep tools tool includeHeaders =>
    obtain ⟨out, v, -, rfl | hout⟩ := eq_withinTree_of_grep h
    · -- No match is an empty answer, the same as that to an empty output.
      exact ⟨[], .inl (by simp [withinTree])⟩
    · exact ⟨out.stdout, .inl hout⟩
  | index tools tool =>
    obtain ⟨out, v, -, hout⟩ := eq_withinTree_of_index h
    exact ⟨out.stdout, .inr hout⟩

end Locator

namespace SourceTree

open Locator

/-- The path is relative, and some output of a tool holds an occurrence that is shown under it. -/
def IsReportable (tree : SourceTree) (path : Text) : Prop :=
  Path.isAbsolute path = false ∧ ∃ out, ∃ o ∈ ToolFormat.grep.readAll (Text.ofUtf8 out) ++
    ToolFormat.index.readAll (Text.ofUtf8 out), tree.relative o.file = path

/-- What is returned comes from some output, and no pattern matches its path. -/
theorem isReportable_of_located {l : Locator} (hl : AsksTool l) {tree : SourceTree} {name : Text}
    {w w' : World} {os : List Occurrence} (h : l.locate name tree w = .ok os w') {o : Occurrence}
    (ho : o ∈ os) :
    tree.excludes? o.file = false ∧
      (Path.isAbsolute o.file = false → tree.IsReportable o.file) := by
  obtain ⟨out, rfl | rfl⟩ := hl.eq_withinTree h
  · obtain ⟨⟨o', ho', rfl⟩, hexcludes⟩ := mem_withinTree_iff.mp ho
    exact ⟨hexcludes, fun hrelative => ⟨hrelative, out, o', List.mem_append_left _ ho', rfl⟩⟩
  · obtain ⟨⟨o', ho', rfl⟩, hexcludes⟩ := mem_withinTree_iff.mp ho
    exact ⟨hexcludes, fun hrelative => ⟨hrelative, out, o', List.mem_append_right _ ho', rfl⟩⟩

/-- What some output leads to is returned, unless a pattern matches its path. -/
theorem IsReportable.exists_located {tree : SourceTree} {path : Text} (h : tree.IsReportable path)
    (hpath : tree.excludes? path = false) :
    ∃ l name w os w', AsksTool l ∧ l.locate name tree w = .ok os w' ∧ ∃ o ∈ os, o.file = path := by
  obtain ⟨-, out, o, ho, rfl⟩ := h
  have hwithin : ∀ {os}, o ∈ os → { o with file := tree.relative o.file } ∈ withinTree tree os :=
    fun ho => mem_withinTree_iff.mpr ⟨⟨o, ho, rfl⟩, hpath⟩
  rcases List.mem_append.mp ho with ho | ho
  · obtain ⟨w', hw'⟩ := exists_grep_printing out tree
    exact ⟨_, _, _, _, w', .grep _ _ _, hw', _, hwithin ho, rfl⟩
  · obtain ⟨w', hw'⟩ := exists_index_printing (isAllBlank_of_mem_readAll ho) tree
    exact ⟨_, _, _, _, w', .index _ _, hw', _, hwithin ho, rfl⟩

/-- **Exclusion, backend by backend.** What the walk lists is admitted, whatever the patterns. For
a backend that asks a tool, no pattern matches the path of an occurrence that is returned, but a
folder on the way to it may be excluded: what is returned is always admitted exactly for those
patterns that match a reportable path whenever they match a folder on the way to it. -/
theorem tool_backends_follow_walk_iff (tree : SourceTree) :
    (∀ includeHeaders root w paths w', tree.root = Path.ofComponents true root →
      (∀ c ∈ root, Path.IsName c) → tree.files includeHeaders w = .ok paths w' →
      ∀ path ∈ paths, tree.Admits (tree.relative path)) ∧
    (∀ l, AsksTool l → ∀ name w os w', l.locate name tree w = .ok os w' →
      ∀ o ∈ os, tree.excludes? o.file = false) ∧
    ((∀ l, AsksTool l → ∀ name w os w', l.locate name tree w = .ok os w' →
      ∀ o ∈ os, Path.isAbsolute o.file = false → tree.Admits o.file) ↔
      ∀ path, tree.IsReportable path → ∀ d, IsFolderOn d path → tree.excludes? d = true →
        tree.excludes? path = true) := by
  refine ⟨?_, fun l hl name w os w' h o ho => (isReportable_of_located hl h ho).1, ?_, ?_⟩
  · intro includeHeaders root w paths w' hroot hnames h path hpath
    exact admits_of_mem_files hroot hnames h hpath
  · intro hadmits path hpath d hd hexcluded
    by_contra hnot
    obtain ⟨l, name, w, os, w', hl, h, o, ho, rfl⟩ :=
      hpath.exists_located (Bool.not_eq_true _ ▸ hnot)
    have hfolder := (hadmits l hl name w os w' h o ho hpath.1).2 d hd
    exact Bool.false_ne_true (hfolder.symm.trans hexcluded)
  · intro hpatterns l hl name w os w' h o ho hrelative
    obtain ⟨hexcludes, hreportable⟩ := isReportable_of_located hl h ho
    refine ⟨hexcludes, fun d hd => ?_⟩
    by_contra hnot
    have hpath := hpatterns o.file (hreportable hrelative) d hd (Bool.not_eq_false _ ▸ hnot)
    exact Bool.false_ne_true (hexcludes.symm.trans hpath)

/-- The pattern `third_party` keeps the walk out of the folder, but not the backends that ask a
tool: it does not match `third_party/x.c`, which a tool may well report. -/
theorem third_party_is_searched :
    ¬ ∀ l, AsksTool l → ∀ name w os w', l.locate name ⟨"/src", ["third_party"]⟩ w = .ok os w' →
      ∀ o ∈ os, Path.isAbsolute o.file = false → Admits ⟨"/src", ["third_party"]⟩ o.file := by
  intro hadmits
  have hreported : IsReportable ⟨"/src", ["third_party"]⟩ "third_party/x.c" :=
    ⟨by decide +kernel, "third_party/x.c:3:f();".toUTF8.toList, by decide +kernel⟩
  have hfolder : IsFolderOn "third_party" "third_party/x.c" :=
    ⟨["third_party"], by decide +kernel⟩
  have hpath := (tool_backends_follow_walk_iff _).2.2.mp hadmits _ hreported _ hfolder
    (by decide +kernel)
  exact absurd hpath (by decide +kernel)

end SourceTree

end CallerTree
