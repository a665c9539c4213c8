import CallerTree.Proofs.Commands
import CallerTree.Proofs.Headers
import CallerTree.Proofs.Interleaving
import CallerTree.Proofs.Scan

/-!
# Text search and scan

Where the text search is missing, the scan answers in its place. The two go different ways. The scan
reads the files and matches each line by itself. The text search is handed a pattern as a text; it
prints what it has found, and that is cut into lines, read back, made relative to the root and
compared with the patterns of what to leave out. This module shows that nothing gets lost on the
way: the two find the same occurrences, and the trees that are grown with them are the same.

## What is asked of the tool

`FileHits` says what has to be printed, in terms of the pattern (`SearchPattern.Finds`) and of the
lines of the files, and without the scan. It is the tool's business to follow the listed files, to
match as patterns are understood, and to tell by its exit code whether it has found anything. What
is printed can be read back if no path has a colon or a line feed in it, and if no line that is
found ends in a carriage return.

## From lookups to trees

A resolution looks up the function it is asked about and, going up, the callers it has found. These
names are not known beforehand, so the tool has to be trusted with those that come up
(`Hierarchy.ComesUp`), and with no others. They are all harmless, and the pattern of a harmless name
means what it should.

## Main definitions

* `Locator.FileHits`, `Locator.SearchesFiles` — a text search that does its work
* `Locator.IsPrintable`, `Locator.NoReturns` — sources that can be printed and read back
* `Hierarchy.ComesUp` — the names that are looked up

## Main results

* `Locator.exists_answers_both` — the two searches find the same
* `Hierarchy.grep_and_scan_are_interchangeable` — lookups and whole trees
-/

namespace CallerTree

namespace Locator

/-! ### What a text search has to print -/

/-- The lines of a file in which an expression is found, from the line with the given number on. -/
inductive LineHits (x : SearchPattern) (file : Text) : Nat → List Text → List Occurrence → Prop
  | nil {number : Nat} : LineHits x file number [] []
  | hit {number : Nat} {l : Text} {ls : List Text} {os : List Occurrence} (hl : x.Finds l)
      (hrest : LineHits x file (number + 1) ls os) :
      LineHits x file number (l :: ls) ({ file, line := number, code := l } :: os)
  | miss {number : Nat} {l : Text} {ls : List Text} {os : List Occurrence} (hl : ¬ x.Finds l)
      (hrest : LineHits x file (number + 1) ls os) : LineHits x file number (l :: ls) os

/-- The lines of several files in which an expression is found, file after file. -/
inductive FileHits (fs : FileSystem) (x : SearchPattern) : List Text → List Occurrence → Prop
  | nil : FileHits fs x [] []
  | read {path : Text} {paths lines : List Text} {os rest : List Occurrence}
      (hlines : readSource fs path = .ok lines) (hos : LineHits x path 1 lines os)
      (hrest : FileHits fs x paths rest) : FileHits fs x (path :: paths) (os ++ rest)
  | unreadable {path : Text} {paths : List Text} {f : Failure} {rest : List Occurrence}
      (hf : readSource fs path = .error f) (hrest : FileHits fs x paths rest) :
      FileHits fs x (path :: paths) rest

/-- What a hit says about its file. -/
theorem LineHits.getElem? {x : SearchPattern} {file : Text} {number : Nat} {lines : List Text}
    {os : List Occurrence} (h : LineHits x file number lines os) :
    ∀ o ∈ os, o.file = file ∧ o.scope = [] ∧ x.Finds o.code ∧
      ∃ i : Nat, o.line = ((number + i : Nat) : Int) ∧ lines[i]? = some o.code := by
  induction h with
  | nil => simp
  | @hit number l ls os hl _ ih =>
    refine List.forall_mem_cons.mpr ⟨⟨rfl, rfl, hl, 0, rfl, rfl⟩, fun o ho => ?_⟩
    obtain ⟨hfile, hscope, hfinds, i, hline, hcode⟩ := ih o ho
    exact ⟨hfile, hscope, hfinds, i + 1, by rw [hline]; omega, by simpa using hcode⟩
  | miss hl _ ih =>
    intro o ho
    obtain ⟨hfile, hscope, hfinds, i, hline, hcode⟩ := ih o ho
    exact ⟨hfile, hscope, hfinds, i + 1, by rw [hline]; omega, by simpa using hcode⟩

theorem FileHits.exists_line {fs : FileSystem} {x : SearchPattern} {paths : List Text}
    {os : List Occurrence} (h : FileHits fs x paths os) :
    ∀ o ∈ os, o.file ∈ paths ∧ o.scope = [] ∧ x.Finds o.code ∧
      ∃ lines, readSource fs o.file = .ok lines ∧
        ∃ i : Nat, o.line = ((1 + i : Nat) : Int) ∧ lines[i]? = some o.code := by
  induction h with
  | nil => simp
  | @read path paths lines os rest hlines hos _ ih =>
    intro o ho
    rcases List.mem_append.mp ho with ho | ho
    · obtain ⟨rfl, hscope, hfinds, hline⟩ := hos.getElem? o ho
      exact ⟨List.mem_cons_self, hscope, hfinds, lines, hlines, hline⟩
    · obtain ⟨hfile, hline⟩ := ih o ho
      exact ⟨List.mem_cons_of_mem _ hfile, hline⟩
  | unreadable _ _ ih =>
    intro o ho
    obtain ⟨hfile, hline⟩ := ih o ho
    exact ⟨List.mem_cons_of_mem _ hfile, hline⟩

/-- The occurrences with their files relative to the root of the tree. -/
def shownIn (tree : SourceTree) (os : List Occurrence) : List Occurrence :=
  os.map fun o => { o with file := tree.relative o.file }

/-! ### The scan finds the hits -/

variable {fs : FileSystem} {tree : SourceTree} {name : Text} {x : SearchPattern}

/-- The lines with hits are those that the scan picks out. -/
theorem lineHits_iff (hx : ∀ l, x.Finds l ↔ Line.mentionsCall name l = true) {file : Text}
    {number : Nat} {lines : List Text} {os : List Occurrence} :
    LineHits x file number lines os ↔ os = scanLines name file number lines := by
  constructor
  · intro h
    induction h with
    | nil => rfl
    | hit hl _ ih => rw [scanLines, if_pos ((hx _).mp hl), ih]
    | miss hl _ ih => rw [scanLines, if_neg (mt (hx _).mpr hl), ih]
  · rintro rfl
    induction lines generalizing number with
    | nil => exact .nil
    | cons l ls ih =>
      rw [scanLines]
      split
      · rename_i hl
        exact .hit ((hx l).mpr hl) ih
      · rename_i hl
        exact .miss (mt (hx l).mp hl) ih

theorem shownIn_scanLines (tree : SourceTree) (name file : Text) (lines : List Text) :
    ∀ number, shownIn tree (scanLines name file number lines) =
      scanLines name (tree.relative file) number lines := by
  induction lines with
  | nil => exact fun _ => rfl
  | cons l ls ih =>
    intro number
    rw [scanLines, scanLines]
    split
    · rw [← ih]
      rfl
    · exact ih _

/-- The lines with hits, shown as those of the tree, are those that the scan picks. -/
theorem FileHits.shownIn_eq (hx : ∀ l, x.Finds l ↔ Line.mentionsCall name l = true)
    {paths : List Text} {os : List Occurrence} (h : FileHits fs x paths os) :
    shownIn tree os = paths.flatMap (pickedIn fs tree name) := by
  induction h with
  | nil => rfl
  | @read path paths lines os rest hlines hos _ ih =>
    rw [List.flatMap_cons, ← ih, pickedIn, hlines, shownIn, List.map_append, ← shownIn, ← shownIn,
      (lineHits_iff hx).mp hos, shownIn_scanLines]
  | @unreadable path paths f rest hf _ ih =>
    rw [List.flatMap_cons, ← ih, pickedIn, hf]
    rfl

/-! ### The text search finds the hits -/

/-- The reply is an output that shows these lines, with an exit code that says whether there are
any, and nothing else. -/
structure ShowsHits (reply : Reply) (os : List Occurrence) : Prop where
  cancels : reply.cancels = false
  files : reply.files = none
  exists_output : ∃ out, reply.outcome = .ok out ∧
    Text.ofUtf8 out.stdout = Text.unlines (os.map ToolFormat.grep.line) ∧
    out.exit = if os.isEmpty then 1 else 0

/-- The text search shows the calls of the name in the listed files, line by line as the files are
read. -/
def SearchesFiles (tools : Toolbox) (tool : Text) (tree : SourceTree) (includeHeaders : Bool)
    (fs : FileSystem) (paths : List Text) (name : Text) : Prop :=
  ∃ x os reply, SearchPattern.read (FunctionName.callPattern name) = some x ∧
    FileHits fs x paths os ∧
    tools.Replies fs (grepQuery tool tree.root includeHeaders name) reply ∧ ShowsHits reply os

/-- The paths can be printed before a colon, each on one line, and the line numbers are those of a
machine. -/
structure IsPrintable (fs : FileSystem) (paths : List Text) : Prop where
  colon : ∀ path ∈ paths, Glyph.char ':' ∉ path
  feed : ∀ path ∈ paths, Glyph.char '\n' ∉ path
  lines : ∀ path ∈ paths, ∀ lines, readSource fs path = .ok lines → (lines.length : Int) ≤ maxInt64

/-- No line that mentions a call of the name ends in a carriage return. -/
def NoReturns (fs : FileSystem) (paths : List Text) (name : Text) : Prop :=
  ∀ path ∈ paths, ∀ lines, readSource fs path = .ok lines → ∀ l ∈ lines,
    Line.mentionsCall name l = true → l.getLast? ≠ some (Glyph.char '\r')

variable {paths : List Text} {os : List Occurrence}

/-- Hits are read back from what is printed. -/
theorem FileHits.readAll_eq (h : FileHits fs x paths os) (hprintable : IsPrintable fs paths)
    (hx : ∀ l, x.Finds l ↔ Line.mentionsCall name l = true) (hreturns : NoReturns fs paths name)
    {out : Bytes} (hout : Text.ofUtf8 out = Text.unlines (os.map ToolFormat.grep.line)) :
    ToolFormat.grep.readAll (Text.ofUtf8 out) = os := by
  have hline : ∀ o ∈ os, Occurrence.IsLineNumber o.line := by
    intro o ho
    obtain ⟨hfile, -, -, lines, hlines, i, hline, hcode⟩ := h.exists_line o ho
    have hcount := hprintable.lines o.file hfile lines hlines
    have hi := (List.getElem?_eq_some_iff.mp hcode).1
    rw [hline]
    constructor <;> omega
  have htidy : ∀ o ∈ os, Occurrence.IsTidyLine (ToolFormat.grep.line o) := by
    intro o ho
    obtain ⟨hfile, -, hfinds, lines, hlines, i, -, hcode⟩ := h.exists_line o ho
    have hmem : o.code ∈ lines := List.mem_of_getElem? hcode
    refine ToolFormat.isTidyLine_line (hline o ho) (List.forall_mem_cons.mpr ⟨?_, ?_⟩)
      (hreturns _ hfile lines hlines _ hmem ((hx _).mp hfinds))
    · obtain ⟨data, -, rfl⟩ := exists_contents_of_readSource hlines
      exact SourceLines.feed_not_mem_of_mem_ofBytes hmem
    · exact List.forall_mem_singleton.mpr (hprintable.feed _ hfile)
  have hread : ∀ o ∈ os, ToolFormat.grep.read? (ToolFormat.grep.line o) = some o := by
    intro o ho
    obtain ⟨hfile, hscope, -⟩ := h.exists_line o ho
    have hread := ToolFormat.read?_line (f := .grep) (hline o ho)
      (List.forall_mem_singleton.mpr (hprintable.colon _ hfile))
    rwa [ToolFormat.told, ← hscope] at hread
  rw [hout, ToolFormat.readAll_unlines htidy]
  exact (List.filterMap_congr hread).trans List.filterMap_some

/-- The patterns have left out of the walk what they would leave out of its hits. -/
theorem FileHits.withinTree_eq (h : FileHits fs x paths os)
    (hlists : ∀ path ∈ paths, tree.excludes? (tree.relative path) = false) :
    withinTree tree os = shownIn tree os := by
  refine List.filter_eq_self.mpr fun o ho => ?_
  obtain ⟨o', ho', rfl⟩ := List.mem_map.mp ho
  rw [hlists _ (h.exists_line o' ho').1]
  rfl

theorem answers_grep {tools : Toolbox} {tool : Text} {includeHeaders : Bool} {reply : Reply}
    (hreply : tools.Replies fs (grepQuery tool tree.root includeHeaders name) reply)
    (hshows : ShowsHits reply os)
    (hreported : ∀ out, Text.ofUtf8 out = Text.unlines (os.map ToolFormat.grep.line) →
      withinTree tree (ToolFormat.grep.readAll (Text.ofUtf8 out)) = shownIn tree os) :
    Run.Answers fs ((grep tools tool includeHeaders).locate name tree) (.ok (shownIn tree os)) := by
  obtain ⟨out, houtcome, htext, hexit⟩ := hshows.exists_output
  have hfiles : reply.filesAfter fs = fs := by rw [Reply.filesAfter, hshows.files, Option.getD_none]
  have hcommand := Run.Answers.command hreply hshows.cancels hfiles
  rw [houtcome] at hcommand
  refine hcommand.attempt.bind ?_
  dsimp only
  cases os with
  | nil =>
    have hone : out.exit = 1 := hexit
    rw [if_pos hone]
    exact .pure _
  | cons o os =>
    have hzero : out.exit = 0 := hexit
    rw [if_neg (by simp [hzero]), if_neg (by simp [hzero]), if_neg (by simp [hzero]),
      ← hreported _ htext]
    exact .pure _

/-- The two searches answer alike. -/
theorem exists_answers_both {tools : Toolbox} {tool : Text} {includeHeaders : Bool} {w v : World}
    (hw : w.IsSteady fs) (hpaths : tree.files includeHeaders w = .ok paths v)
    (hprintable : IsPrintable fs paths) (hname : FunctionName.IsHarmless name)
    (hsearches : SearchesFiles tools tool tree includeHeaders fs paths name)
    (hreturns : NoReturns fs paths name) :
    ∃ os, Run.Answers fs ((grep tools tool includeHeaders).locate name tree) (.ok os) ∧
      Run.Answers fs ((scan includeHeaders).locate name tree) (.ok os) := by
  obtain ⟨x, os, reply, hpattern, hos, hreply, hshows⟩ := hsearches
  obtain ⟨x', hpattern', hx⟩ := Line.exists_read_callPattern (Line.isClear_of_isHarmless hname)
  obtain rfl := Option.some.inj (hpattern.symm.trans hpattern')
  have hexcludes : ∀ path ∈ paths, tree.excludes? (tree.relative path) = false := by
    intro path hpath
    have hlists := SourceTree.lists_of_mem_files hpaths hpath
    rw [SourceTree.lists, Bool.and_eq_true, Bool.not_eq_true'] at hlists
    exact hlists.2
  have hscan := answers_scan hname (SourceTree.answers_files hw hpaths)
  rw [← hos.shownIn_eq hx] at hscan
  refine ⟨shownIn tree os, answers_grep hreply hshows fun out hout => ?_, hscan⟩
  rw [hos.readAll_eq hprintable hx hreturns hout, hos.withinTree_eq hexcludes]

end Locator

namespace Hierarchy

open Locator

/-- The names that a resolution may look up: the one it is asked about, and the callers that are
expanded at the call sites of such a name. -/
inductive ComesUp (l : Locator) (tree : SourceTree) (w : World) (name : Text) : Text → Prop
  | root : ComesUp l tree w name name
  | caller {n : Text} {calls : List Call} {call : Call} {v : World} (hn : ComesUp l tree w name n)
      (hcalls : callSites l tree n w = .ok calls v) (hcall : call ∈ calls)
      (hexpanded : isExpanded n call = true) : ComesUp l tree w name call.caller

theorem ComesUp.isHarmless {l : Locator} {tree : SourceTree} {w : World} {name n : Text}
    (h : ComesUp l tree w name n) (hname : FunctionName.IsHarmless name) :
    FunctionName.IsHarmless n := by
  induction h with
  | root => exact hname
  | caller _ hcalls hcall _ _ =>
    obtain ⟨os, u, -, hcalls⟩ := Run.bind_ok_iff.mp hcalls
    exact isHarmless_of_callsAmong hcalls _ hcall

/-- The call sites of a name that comes up are found by both searches, and the callers there come up
too. -/
theorem ComesUp.exists_answers_both {tools : Toolbox} {tool : Text} {includeHeaders : Bool}
    {tree : SourceTree} {w v : World} {paths : List Text} {name n : Text}
    (hn : ComesUp (scan includeHeaders) tree w name n) (hw : w.IsSteady w.files)
    (hpaths : tree.files includeHeaders w = .ok paths v) (hprintable : IsPrintable w.files paths)
    (hharmless : FunctionName.IsHarmless n)
    (hsearches : SearchesFiles tools tool tree includeHeaders w.files paths n)
    (hreturns : NoReturns w.files paths n) (depth : Nat) :
    ∃ calls,
      Run.Answers w.files (expandedSites (grep tools tool includeHeaders) tree n depth)
        (.ok calls) ∧
      Run.Answers w.files (expandedSites (scan includeHeaders) tree n depth) (.ok calls) ∧
      ∀ call ∈ calls, isExpanded n call = true →
        ComesUp (scan includeHeaders) tree w name call.caller := by
  obtain ⟨os, hgrep, hscan⟩ :=
    Locator.exists_answers_both hw hpaths hprintable hharmless hsearches hreturns
  have hcalls := answers_callsAmong w.files tree n os
  have hfound : Run.Answers w.files (callSites (scan includeHeaders) tree n) (.ok _) :=
    hscan.bind hcalls
  obtain ⟨u, -, hu⟩ := hfound w hw
  exact ⟨_, answers_expandedSites (hgrep.bind hcalls) depth,
    answers_expandedSites hfound depth, fun call hcall => .caller hn hu hcall⟩

/-- **Text search and scan are interchangeable.** The paths of the tree are listed and can be
printed. If a text search shows the calls of a valid name in these files, and no line that is found
ends in a carriage return, then it returns the very list that the scan returns. If that is so for
all names that come up, then the two resolve to the same tree, whatever the limit. -/
theorem grep_and_scan_are_interchangeable {tools : Toolbox} {tool : Text} {includeHeaders : Bool}
    {tree : SourceTree} {w v : World} {paths : List Text} (hlive : w.context = .live)
    (hpaths : tree.files includeHeaders w = .ok paths v) (hprintable : IsPrintable w.files paths) :
    (∀ name, FunctionName.validate name = .ok () →
      SearchesFiles tools tool tree includeHeaders w.files paths name →
      NoReturns w.files paths name → ∃ os u u',
        (grep tools tool includeHeaders).locate name tree w = .ok os u ∧
          (scan includeHeaders).locate name tree w = .ok os u') ∧
    ∀ name limit, FunctionName.validate name = .ok () →
      (∀ n, ComesUp (scan includeHeaders) tree w name n →
        SearchesFiles tools tool tree includeHeaders w.files paths n ∧
          NoReturns w.files paths n) → ∃ t u u',
        build (grep tools tool includeHeaders) tree limit name w = .ok t u ∧
          build (scan includeHeaders) tree limit name w = .ok t u' := by
  have hw : w.IsSteady w.files := ⟨rfl, hlive⟩
  constructor
  · intro name hname hsearches hreturns
    have hharmless := FunctionName.isHarmless_of_validate hname
    obtain ⟨os, hgrep, hscan⟩ :=
      Locator.exists_answers_both hw hpaths hprintable hharmless hsearches hreturns
    obtain ⟨u, -, hu⟩ := hgrep w hw
    obtain ⟨u', -, hu'⟩ := hscan w hw
    exact ⟨os, u, u', hu, hu'⟩
  · intro name limit hname hall
    have hharmless := FunctionName.isHarmless_of_validate hname
    have hsites := fun n depth (hn : ComesUp (scan includeHeaders) tree w name n) =>
      hn.exists_answers_both hw hpaths hprintable (hn.isHarmless hharmless) (hall n hn).1
        (hall n hn).2 depth
    obtain ⟨t, hgrep, hscan⟩ := exists_answers_grow_both hsites limit limit.toNat [] 0 name .root
    obtain ⟨u, -, hu⟩ := hgrep w hw
    obtain ⟨u', -, hu'⟩ := hscan w hw
    exact ⟨t, u, u', hu, hu'⟩

/-- A text search that knows the calls of `f` and of `g` in the file of `Engine.oneCall`. -/
def oneCallSearch : Toolbox where
  answer _ c :=
    if c.args.contains (FunctionName.callPattern "f") then
      { outcome := .ok { stdout := "/src/a.c:3:  f();\n".toUTF8.toList } }
    else { outcome := .ok { stdout := "/src/a.c:1:void g()\n".toUTF8.toList } }
  isInstalled _ := true

theorem readSource_oneCall : readSource Engine.oneCall "/src/a.c" =
    .ok [Text.ofString "void g()", Text.ofString "\x7b", Text.ofString "  f();",
      Text.ofString "\x7d"] :=
  eq_ok_of_toOption (by decide +kernel)

theorem searchesFiles_oneCall {name : Text} (hname : name = "f" ∨ name = "g") :
    SearchesFiles oneCallSearch "grep" ⟨"/src", []⟩ false Engine.oneCall ["/src/a.c"] name := by
  have hharmless : FunctionName.IsHarmless name := by
    obtain rfl | rfl := hname
    · exact FunctionName.isHarmless_of_validate (eq_ok_of_toOption (by decide +kernel))
    · exact FunctionName.isHarmless_of_validate (eq_ok_of_toOption (by decide +kernel))
  obtain ⟨x, hread, hx⟩ := Line.exists_read_callPattern (Line.isClear_of_isHarmless hharmless)
  refine ⟨x, _, _, hread, .read readSource_oneCall ((lineHits_iff hx).mpr rfl) .nil,
    fun _ _ => rfl, ?_⟩
  obtain rfl | rfl := hname
  · exact ⟨rfl, rfl, _, rfl, by decide +kernel, by decide +kernel⟩
  · exact ⟨rfl, rfl, _, rfl, by decide +kernel, by decide +kernel⟩

/-- Only `g` calls `f`, and nobody calls `g`. -/
theorem ComesUp.eq_of_oneCall {n : Text}
    (h : ComesUp (scan false) ⟨"/src", []⟩ { files := Engine.oneCall } "f" n) :
    n = "f" ∨ n = "g" := by
  have hcallers : ∀ name ∈ [Text.ofString "f", Text.ofString "g"],
      (Run.result? (callSites (scan false) ⟨"/src", []⟩ name) { files := Engine.oneCall }).all
        fun calls => calls.all fun call => call.caller = "g" := by decide +kernel
  induction h with
  | root => exact .inl rfl
  | @caller n calls call v _ hcalls hcall _ ih =>
    have hn := hcallers n (by simpa using ih)
    rw [Run.result?_eq_some_iff.mpr ⟨v, hcalls⟩, Option.all_some, List.all_eq_true] at hn
    exact .inr (of_decide_eq_true (hn call hcall))

/-- In the file of `Engine.oneCall` both find the one call, and resolve `f` to the same tree. -/
theorem searches_agree_on_oneCall :
    ∃ os u u' t x x',
      (grep oneCallSearch "grep" false).locate "f" ⟨"/src", []⟩ { files := Engine.oneCall } =
        .ok os u ∧
      (scan false).locate "f" ⟨"/src", []⟩ { files := Engine.oneCall } = .ok os u' ∧
      os.length = 1 ∧
      build (grep oneCallSearch "grep" false) ⟨"/src", []⟩ 3 "f" { files := Engine.oneCall } =
        .ok t x ∧
      build (scan false) ⟨"/src", []⟩ 3 "f" { files := Engine.oneCall } = .ok t x' ∧
      t.size = 2 := by
  let before : World := { files := Engine.oneCall }
  have hpaths : Run.result? (SourceTree.files ⟨"/src", []⟩ false) before =
      some [Text.ofString "/src/a.c"] := by decide +kernel
  obtain ⟨v, hpaths⟩ := Run.result?_eq_some_iff.mp hpaths
  have hprintable : IsPrintable Engine.oneCall [Text.ofString "/src/a.c"] := by
    refine ⟨by decide +kernel, by decide +kernel, fun path hpath ls hls => ?_⟩
    obtain rfl := List.mem_singleton.mp hpath
    obtain rfl := Except.ok.inj (readSource_oneCall.symm.trans hls)
    decide
  have hreturns : ∀ name, NoReturns Engine.oneCall [Text.ofString "/src/a.c"] name := by
    intro name path hpath ls hls l hl _
    obtain rfl := List.mem_singleton.mp hpath
    obtain rfl := Except.ok.inj (readSource_oneCall.symm.trans hls)
    simp only [List.mem_cons, List.not_mem_nil, or_false] at hl
    obtain rfl | rfl | rfl | rfl := hl <;> decide +kernel
  have hname : FunctionName.validate "f" = .ok () := eq_ok_of_toOption (by decide +kernel)
  obtain ⟨hlists, htrees⟩ := @grep_and_scan_are_interchangeable oneCallSearch "grep" false
    ⟨"/src", []⟩ before v _ rfl hpaths hprintable
  obtain ⟨os, u, u', hgrep, hscan⟩ :=
    hlists "f" hname (searchesFiles_oneCall (.inl rfl)) (hreturns "f")
  obtain ⟨t, x, x', htree, htree'⟩ := htrees "f" 3 hname fun n hn =>
    ⟨searchesFiles_oneCall hn.eq_of_oneCall, hreturns n⟩
  have hlength : (Run.result? ((scan false).locate "f" ⟨"/src", []⟩) before).map (·.length) =
      some 1 := by decide +kernel
  have hsize : (Run.result? (build (scan false) ⟨"/src", []⟩ 3 "f") before).map (·.size) =
      some 2 := by decide +kernel
  rw [Run.result?_eq_some_iff.mpr ⟨u', hscan⟩] at hlength
  rw [Run.result?_eq_some_iff.mpr ⟨x', htree'⟩] at hsize
  exact ⟨os, u, u', t, x, x', hgrep, hscan, Option.some.inj hlength, htree, htree',
    Option.some.inj hsize⟩

end Hierarchy

end CallerTree
