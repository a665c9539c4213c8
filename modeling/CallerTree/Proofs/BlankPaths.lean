import CallerTree.Proofs.Exclusion

/-!
# Blanks in the paths of indexed files

The list of files for the indexing tool quotes a path with a blank in it, so that the tool indexes
that file like any other. The tool does not quote the path when it reports a call in the file, and
the reader of its output ends the path at the first blank. So exactly the files without a blank in
their paths are found again. The others are lost without a failure: the lookup succeeds, and nobody
else is asked.

## Why the lost file is not found by accident

What is left of a path before its first blank is a path too, and a line about one file may be read
as one about another. But it is never read as one about a listed file with a blank in its path. The
names below the root, and the names of the root itself, are those that were read, and no blank is
among them (`SourceTree.relative_ne_of_blank`). That also covers a root with a blank in it, below
which nothing is ever found.

## Main definitions

* `Locator.IsIndexEntry` — what the index may have to say about a listed file

## Main results

* `Locator.index_finds_files_without_blanks` — which entries of the index come out of a lookup
-/

namespace CallerTree

/-- An absolute path without a blank is shown in another way than a file of the tree whose path has
a blank. -/
theorem SourceTree.relative_ne_of_blank {tree : SourceTree} {root cs : List Text}
    (hroot : tree.root = Path.ofComponents true root) (hnames : ∀ c ∈ root, Path.IsName c)
    (hcs : ∀ c ∈ cs, Path.IsName c)
    (hblank : Glyph.char ' ' ∈ Path.ofComponents true (root ++ cs)) {p : Text}
    (habs : Path.isAbsolute p = true) (hp : Glyph.char ' ' ∉ p) :
    tree.relative p ≠ tree.relative (Path.ofComponents true (root ++ cs)) := by
  rw [relative_ofComponents hroot hnames hcs, relative, hroot]
  intro h
  have hparts := Path.components_of_relativeTo_eq habs hnames hcs h
  obtain ⟨c, hc, hmem⟩ := Path.exists_mem_of_mem_ofComponents (by decide) hblank
  rw [← hparts] at hc
  exact hp (Path.mem_of_mem_components hc hmem)

namespace Locator

/-- An entry of the index: a line of a listed file, with the scope it stands in. -/
structure IsIndexEntry (paths : List Text) (r : Occurrence) : Prop where
  listed : r.file ∈ paths
  file_feed : Glyph.char '\n' ∉ r.file
  scope_blank : Glyph.char ' ' ∉ r.scope
  scope_feed : Glyph.char '\n' ∉ r.scope
  line : Occurrence.IsLineNumber r.line
  code_feed : Glyph.char '\n' ∉ r.code
  code_return : r.code.getLast? ≠ some (Glyph.char '\r')

theorem IsIndexEntry.isTidyLine {paths : List Text} {r : Occurrence} (h : IsIndexEntry paths r) :
    Occurrence.IsTidyLine (ToolFormat.index.line r) := by
  refine ToolFormat.isTidyLine_line h.line ?_ h.code_return
  simpa [ToolFormat.fields] using ⟨h.code_feed, h.file_feed, h.scope_feed⟩

/-- What is read from a printed entry of an absolute path is an absolute path without a blank. -/
theorem isAbsolute_of_ofIndexLine? {r o : Occurrence} (hr : Path.isAbsolute r.file = true)
    (ho : ToolFormat.index.read? (ToolFormat.index.line r) = some o) :
    Path.isAbsolute o.file = true ∧ Glyph.char ' ' ∉ o.file := by
  obtain ⟨number, htext, hfile, -⟩ := Occurrence.ofIndexLine?_eq_some_iff.mp ho
  refine ⟨?_, hfile⟩
  have hhead := congrArg List.head? htext
  cases hrfile : r.file with
  | nil => simp [hrfile, Path.isAbsolute] at hr
  | cons g rest =>
    rw [hrfile, Path.isAbsolute, List.head?_cons, decide_eq_true_iff, Option.some.injEq] at hr
    cases hofile : o.file with
    | nil =>
      rw [ToolFormat.line, ToolFormat.lineWith, hrfile, hofile, hr] at hhead
      cases hhead
    | cons g' rest' =>
      rw [ToolFormat.line, ToolFormat.lineWith, hrfile, hofile, hr] at hhead
      rw [Path.isAbsolute, List.head?_cons, decide_eq_true_iff]
      exact hhead.symm

variable {path : Text} {excludes paths : List Text} {tree : SourceTree} {w v : World}
  {rs : List Occurrence}

theorem isAllBlank_unlines_line (hrs : ∀ r ∈ rs, IsIndexEntry paths r) (hne : rs ≠ []) :
    (Text.unlines (rs.map ToolFormat.index.line)).isAllBlank = false := by
  obtain ⟨r, rs, rfl⟩ := List.exists_cons_of_ne_nil hne
  rw [List.map_cons, Text.unlines_cons, Text.isAllBlank, List.all_append, ← Text.isAllBlank,
    (hrs r List.mem_cons_self).isTidyLine.not_blank, Bool.false_and]

/-- **Which indexed files are found.** The index answers with one line for each of the entries `rs`
about listed files. Then the lookup succeeds, and returns the entries whose paths have no blank in
them; of a file with a blank in its path it returns nothing at all. -/
theorem index_finds_files_without_blanks
    (htree : SourceTree.ofRoot w.files path excludes = .ok tree)
    (hpaths : tree.files true w = .ok paths v) (hrs : ∀ r ∈ rs, IsIndexEntry paths r)
    (hne : rs ≠ []) {tools : Toolbox} {tool name : Text} {u u' : World} {out : Output}
    (hanswer : Run.command tools (indexQuery tool tree.root name) u = .ok out u')
    (hexit : out.exit = 0)
    (hout : Text.ofUtf8 out.stdout = Text.unlines (rs.map ToolFormat.index.line)) :
    ∃ os u'', (index tools tool).locate name tree u = .ok os u'' ∧
      ∀ r ∈ rs, ({ r with file := tree.relative r.file } ∈ os ↔ Glyph.char ' ' ∉ r.file) ∧
        (Glyph.char ' ' ∈ r.file → ∀ o ∈ os, o.file ≠ tree.relative r.file) := by
  obtain ⟨root, hnames, hroot⟩ := SourceTree.exists_root_of_ofRoot htree
  have hcomponents : ∀ r ∈ rs, ∃ cs, (∀ c ∈ cs, Path.IsName c) ∧
      r.file = Path.ofComponents true (root ++ cs) := fun r hr =>
    SourceTree.exists_components_of_mem_files hroot hnames hpaths (hrs r hr).listed
  have hblank : (Text.ofUtf8 out.stdout).isAllBlank = false :=
    hout ▸ isAllBlank_unlines_line hrs hne
  obtain ⟨u'', hlocate⟩ := exists_index_of_command out hanswer hexit hblank
  rw [hout, ToolFormat.readAll_unlines fun r hr => (hrs r hr).isTidyLine] at hlocate
  -- Whatever is returned was read from some entry, so its path was absolute and without a blank.
  have hlost : ∀ r ∈ rs, Glyph.char ' ' ∈ r.file → ∀ o ∈ withinTree tree
      (rs.filterMap fun r => ToolFormat.index.read? (ToolFormat.index.line r)),
      o.file ≠ tree.relative r.file := by
    intro r hr hmem o ho
    obtain ⟨⟨o', ho', rfl⟩, -⟩ := mem_withinTree_iff.mp ho
    obtain ⟨r', hr', hread⟩ := List.mem_filterMap.mp ho'
    obtain ⟨cs', -, hcs'⟩ := hcomponents r' hr'
    obtain ⟨habs, hfree⟩ := isAbsolute_of_ofIndexLine? (by rw [hcs']; rfl) hread
    obtain ⟨cs, hcs, hfile⟩ := hcomponents r hr
    rw [hfile] at hmem ⊢
    exact SourceTree.relative_ne_of_blank hroot hnames hcs hmem habs hfree
  refine ⟨_, u'', hlocate, fun r hr => ⟨⟨fun hmem hblank => ?_, fun hfree => ?_⟩, hlost r hr⟩⟩
  · exact hlost r hr hblank _ hmem rfl
  · have hread := ToolFormat.read?_line (f := .index) (hrs r hr).line
      (by simpa [ToolFormat.fields] using ⟨hfree, (hrs r hr).scope_blank⟩)
    have hadmits := SourceTree.admits_of_mem_files hroot hnames hpaths (hrs r hr).listed
    exact mem_withinTree_iff.mpr ⟨⟨r, List.mem_filterMap.mpr ⟨r, hr, hread⟩, rfl⟩, hadmits.1⟩

/-- A folder with one file, which has a blank in its name. -/
def blankInName : FileSystem where
  tree := .folder [("src", .folder [
    ("a b.c", .file 0o644 "void g()\n\x7b\n  f();\n\x7d\n".toUTF8.toList)])]

/-- What the index prints about the call in that file. -/
def blankReport : Bytes := "/src/a b.c g 3   f();\n".toUTF8.toList

/-- The file is listed, in quotes, and the index reports the call in it, but the lookup does not
return that call. -/
theorem blank_in_name_is_lost :
    ∃ paths v os u, SourceTree.files ⟨"/src", []⟩ true { files := blankInName } = .ok paths v ∧
      SourceTree.fileList paths = "\"/src/a b.c\"\n" ∧
      (index (printing blankReport) "cscope").locate "f" ⟨"/src", []⟩ { files := blankInName } =
        .ok os u ∧
      ⟨"a b.c", 3, "  f();", "g"⟩ ∉ os := by
  let r : Occurrence := ⟨"/src/a b.c", 3, "  f();", "g"⟩
  let before : World := { files := blankInName }
  have htree : SourceTree.ofRoot before.files "/src" [] = .ok ⟨"/src", []⟩ :=
    eq_ok_of_toOption (by decide +kernel)
  have hpaths : Run.result? (SourceTree.files ⟨"/src", []⟩ true) before =
      some [Text.ofString "/src/a b.c"] := by decide +kernel
  obtain ⟨v, hpaths⟩ := Run.result?_eq_some_iff.mp hpaths
  have hentry : ∀ r' ∈ [r], IsIndexEntry [Text.ofString "/src/a b.c"] r' := by
    rintro r' (_ | ⟨_, ⟨⟩⟩)
    exact ⟨List.mem_singleton_self _, by decide, by decide, by decide, ⟨by decide, by decide⟩,
      by decide, by decide⟩
  have hanswer : Run.command (printing blankReport) (indexQuery "cscope" "/src" "f") before =
      .ok { stdout := blankReport } { before with issued := [indexQuery "cscope" "/src" "f"] } :=
    rfl
  have hout : Text.ofUtf8 blankReport = Text.unlines ([r].map ToolFormat.index.line) := by
    decide +kernel
  obtain ⟨os, u, hlocate, hos⟩ := index_finds_files_without_blanks htree hpaths
    hentry (List.cons_ne_nil _ _) hanswer rfl hout
  have hrelative : SourceTree.relative ⟨"/src", []⟩ r.file = "a b.c" := by decide +kernel
  have hlost := mt (hos r List.mem_cons_self).1.mp (by decide +kernel)
  rw [hrelative] at hlost
  exact ⟨_, v, os, u, hpaths, by decide +kernel, hlocate, hlost⟩

end Locator

end CallerTree
