import CallerTree.Proofs.Exclusion
import CallerTree.Proofs.Growth
import CallerTree.Proofs.Interruption
import CallerTree.Proofs.LineNumbers

/-!
# Call sites in headers

An engine that leaves out headers does so in two places. The scan does not list them, and the text
search is told to pass them over. The index is built from a list that holds the headers, and nothing
is left out of what it reports. So the call sites that an answer shows depend on who was asked.

## What the text search can be trusted with

It prints the path of a file in front of a colon, and what is read back is the text before the first
colon. A path with a colon in it is cut short there, and may come to look like a header. Line feeds
in a path do no harm: the last piece of a path ends as the path does
(`Locator.PrintsHits.exists_of_mem_readAll`).

## Main definitions

* `SourceTree.isHeader`
* `Locator.IsSelected`, `Locator.PrintsHits` — a text search that honours its options

## Main results

* `Engine.exists_locator_of_site` — where the call sites of an answer come from
* `Engine.header_sites_come_from_tool_reports` — where call sites in headers come from
-/

namespace CallerTree

/-! ### Extensions -/

namespace Path

theorem base_append_slash (before : Text) {name : Text} (h : Glyph.char '/' ∉ name) :
    base (before ++ Glyph.char '/' :: name) = name := by
  rw [base, Text.cutLast?_append_cons before h]

theorem base_of_not_mem {p : Text} (h : Glyph.char '/' ∉ p) : base p = p := by
  rw [base, Text.cutLast?_of_not_mem h]

/-- The pieces of a path end with its base. -/
theorem exists_split_eq_append_base (p : Text) :
    Glyph.char '/' ∉ base p ∧ ∃ front, p.split '/' = front ++ [base p] := by
  by_cases hp : Glyph.char '/' ∈ p
  · obtain ⟨before, name, rfl, hname⟩ := Text.exists_last_of_mem hp
    rw [base_append_slash before hname, split_append_slash, split_of_not_mem hname]
    exact ⟨hname, _, rfl⟩
  · rw [base_of_not_mem hp, split_of_not_mem hp]
    exact ⟨hp, [], rfl⟩

theorem base_ofComponents_concat {front : List Text} (hfront : ∀ c ∈ front, IsName c) {name : Text}
    (hname : IsName name) {rooted : Bool} :
    base (ofComponents rooted (front ++ [name])) = name := by
  have hnames : ∀ c ∈ front ++ [name], IsName c :=
    List.forall_mem_append.mpr ⟨hfront, List.forall_mem_singleton.mpr hname⟩
  obtain ⟨-, before, hsplit⟩ := exists_split_eq_append_base (ofComponents rooted (front ++ [name]))
  have hends : ∃ lead, (ofComponents rooted (front ++ [name])).split '/' =
      (lead ++ front) ++ [name] := by
    cases rooted with
    | true => exact ⟨[[]], split_ofComponents_true (by simp) hnames⟩
    | false =>
      have hjoin : ofComponents false (front ++ [name]) = Text.join "/" (front ++ [name]) := by
        cases front <;> rfl
      rw [hjoin]
      exact ⟨[], split_join (by simp) fun c hc => (hnames c hc).slash_not_mem⟩
  obtain ⟨lead, hlead⟩ := hends
  rw [hlead] at hsplit
  exact (List.singleton_inj.mp (List.append_inj_right' hsplit rfl)).symm

theorem exists_components_eq_append_base {p : Text} (h : IsName (base p)) :
    ∃ front, components p = front ++ [base p] := by
  obtain ⟨-, front, hsplit⟩ := exists_split_eq_append_base p
  refine ⟨(front.foldl (push (isAbsolute p)) []).reverse, ?_⟩
  rw [components, hsplit, List.foldl_append, List.foldl_cons, List.foldl_nil, push_of_isName h,
    List.reverse_cons]

/-- A path that ends in a name ends in the same name when it is written relative to a root other
than itself. -/
theorem base_relativeTo {p : Text} (h : IsName (base p)) (root : Text) :
    relativeTo root p = "." ∨ base (relativeTo root p) = base p := by
  unfold relativeTo
  split
  · rename_i habs
    obtain ⟨-, hp⟩ := Bool.and_eq_true_iff.mp habs
    split
    · rename_i cs hcs
      have heq := eq_append_of_below? hcs
      rcases List.eq_nil_or_concat cs with rfl | ⟨front, name, rfl⟩
      · exact .inl rfl
      · obtain ⟨before, hbase⟩ := exists_components_eq_append_base h
        rw [hbase, List.concat_eq_append, ← List.append_assoc] at heq
        obtain rfl : base p = name :=
          List.singleton_inj.mp (List.append_inj_right' heq rfl)
        have hfront : ∀ c ∈ front, IsName c := fun c hc =>
          isName_of_mem_components hp c (by
            rw [hbase, heq]
            exact List.mem_append_left _ (List.mem_append_right _ hc))
        rw [List.concat_eq_append]
        exact .inr (base_ofComponents_concat hfront h)
    · exact .inr rfl
  · exact .inr rfl

/-- What ends in a dot and further glyphs has these as its extension. -/
theorem extension_of_suffix {ext : Text} (hdot : Glyph.char '.' ∉ ext)
    {p : Text} (h : Glyph.char '.' :: ext <:+ base p) : extension p = Glyph.char '.' :: ext := by
  obtain ⟨stem, hstem⟩ := h
  rw [extension, ← hstem, Text.cutLast?_append_cons stem hdot]
  rfl

/-- What stands at the end of a path, and has no slash in it, stands at the end of its base. -/
theorem suffix_base {s p : Text} (hs : Glyph.char '/' ∉ s) (h : s <:+ p) : s <:+ base p := by
  by_cases hp : Glyph.char '/' ∈ p
  · obtain ⟨before, name, rfl, hname⟩ := Text.exists_last_of_mem hp
    rw [base_append_slash before hname]
    exact Text.suffix_of_suffix_append_cons hs h
  · rwa [base_of_not_mem hp]

theorem base_suffix (p : Text) : base p <:+ p := by
  by_cases hp : Glyph.char '/' ∈ p
  · obtain ⟨before, name, rfl, hname⟩ := Text.exists_last_of_mem hp
    rw [base_append_slash before hname]
    exact ⟨before ++ [Glyph.char '/'], by simp⟩
  · exact ⟨[], by rw [base_of_not_mem hp, List.nil_append]⟩

end Path

/-! ### Headers -/

namespace SourceTree

/-- Whether the extension is that of a header, in small or capital letters. -/
def isHeader (path : Text) : Bool := headerExtensions.contains (Path.extension path).lower

theorem isSource_false_iff {path : Text} :
    isSource path false = true ↔
      isHeader path = false ∧ sourceExtensions.contains (Path.extension path).lower = true := by
  simp only [isSource, isHeader]
  cases headerExtensions.contains (Path.extension path).lower <;> simp

/-- A path with a known extension ends in a name. -/
theorem isName_base_of_isSource {path : Text} {includeHeaders : Bool}
    (h : isSource path includeHeaders = true) : Path.IsName (Path.base path) := by
  have hextension : ∀ name : Text, Path.base path = name →
      (name = [] ∨ name = "." ∨ name = "..") → False := by
    intro name hname hcases
    unfold isSource Path.extension at h
    rw [hname] at h
    obtain rfl | rfl | rfl := hcases <;> revert h <;> cases includeHeaders <;> decide
  obtain ⟨hslash, -⟩ := Path.exists_split_eq_append_base path
  exact {
    ne_nil := fun hname => hextension _ hname (.inl rfl)
    ne_dot := fun hname => hextension _ hname (.inr (.inl rfl))
    ne_dots := fun hname => hextension _ hname (.inr (.inr rfl))
    slash_not_mem := hslash }

/-- A source file that is no header is not shown as one. -/
theorem isHeader_relative {tree : SourceTree} {path : Text} (h : isSource path false = true) :
    isHeader (tree.relative path) = false := by
  rcases Path.base_relativeTo (isName_base_of_isSource h) tree.root with hdot | hbase
  · rw [relative, hdot]
    decide
  · rw [isHeader, relative, Path.extension, hbase]
    exact (isSource_false_iff.mp h).1

theorem isSource_of_suffix {ext p : Text} (hsource : ext ∈ sourceExtensions)
    (hheader : headerExtensions.contains ext = false) (h : ext <:+ p) :
    isSource p false = true := by
  have hletters : ∀ e ∈ sourceExtensions, e.head? = some (Glyph.char '.') ∧
      Glyph.char '.' ∉ e.tail ∧ Glyph.char '/' ∉ e ∧ e.lower = e := by decide
  obtain ⟨hhead, hdot, hslash, hlower⟩ := hletters ext hsource
  obtain ⟨rest, rfl⟩ := List.head?_eq_some_iff.mp hhead
  have hextension := Path.extension_of_suffix hdot (Path.suffix_base hslash h)
  rw [isSource_false_iff, isHeader, hextension, List.tail_cons, hlower]
  exact ⟨hheader, List.contains_iff_mem.mpr hsource⟩

end SourceTree

/-! ### What the text search prints -/

namespace Locator

/-- The options of a text search let it read a file: the base of the path ends as one of the
included extensions, and not as an excluded one. -/
structure IsSelected (options : List Text) (file : Text) : Prop where
  included : ∃ ext, Text.ofString "--include=*" ++ ext ∈ options ∧ ext <:+ Path.base file
  not_excluded : ∀ ext, Text.ofString "--exclude=*" ++ ext ∈ options → ¬ ext <:+ Path.base file

theorem IsSelected.exists_extension {file : Text} (h : IsSelected (grepOptions false) file) :
    ∃ ext ∈ SourceTree.sourceExtensions, SourceTree.headerExtensions.contains ext = false ∧
      ext <:+ file := by
  obtain ⟨ext, hmem, hsuffix⟩ := h.included
  have hfile : ext <:+ file := hsuffix.trans (Path.base_suffix file)
  simp only [grepOptions, List.mem_append, List.mem_map] at hmem
  obtain (hmem | ⟨ext', hext', heq⟩) | hmem := hmem
  · simp [Text.ofString, Text.ofChars] at hmem
  · split at heq
    · simp [Text.ofString, Text.ofChars] at heq
    · rename_i hheader
      obtain rfl := List.append_cancel_left heq
      exact ⟨ext', hext', by simpa using hheader, hfile⟩
  · simp [Text.ofString, Text.ofChars] at hmem

/-- A line that a text search finds in a file it may read. -/
structure IsHit (options : List Text) (o : Occurrence) : Prop where
  selected : IsSelected options o.file
  line : Occurrence.IsLineNumber o.line
  code_feed : Glyph.char '\n' ∉ o.code

/-- The output shows these lines. -/
structure PrintsHits (options : List Text) (out : Output) (hits : List Occurrence) : Prop where
  isHit : ∀ o ∈ hits, IsHit options o
  text : Text.ofUtf8 out.stdout = Text.unlines (hits.map ToolFormat.grep.line)

/-- What is read from the output is about a file that was searched, or about what a line feed in the
path has left of it; unless a path with a colon in it was printed. -/
theorem PrintsHits.exists_of_mem_readAll {options : List Text} {out : Output}
    {hits : List Occurrence} (h : PrintsHits options out hits)
    (hcolon : ∀ o ∈ hits, Glyph.char ':' ∉ o.file) {found : Occurrence}
    (hfound : found ∈ ToolFormat.grep.readAll (Text.ofUtf8 out.stdout)) :
    ∃ o ∈ hits, found.file = o.file ∨
      ∃ before, o.file = before ++ Glyph.char '\n' :: found.file := by
  obtain ⟨line, hline, hread⟩ := List.mem_filterMap.mp hfound
  rw [Occurrence.outputLines, List.mem_filter, List.mem_map, h.text] at hline
  obtain ⟨⟨l, hl, rfl⟩, -⟩ := hline
  obtain ⟨number, htext, hfile, -⟩ := Occurrence.ofGrepLine?_eq_some_iff.mp hread
  have hmem : Glyph.char ':' ∈ l := by
    apply Text.mem_of_mem_dropEndWhile
    rw [htext]
    simp
  obtain rfl | ⟨printed, hprinted, hl⟩ := Text.exists_of_mem_split_unlines hl
  · simp at hmem
  · obtain ⟨o, ho, rfl⟩ := List.mem_map.mp hprinted
    have hrest : Glyph.char '\n' ∉
        Glyph.char ':' :: (Text.ofInt o.line ++ Glyph.char ':' :: o.code) := by
      have hnumber := (h.isHit o ho).line.not_mem_ofInt (c := '\n') (by decide)
      simp [hnumber, (h.isHit o ho).code_feed]
    obtain hpath | ⟨tail, rfl, htail⟩ := Text.exists_tail_of_mem_split hrest hl
    · exact absurd (hpath _ hmem) (hcolon o ho)
    · refine ⟨o, ho, ?_⟩
      have hfree : Glyph.char ':' ∉ tail := by
        obtain rfl | ⟨before, heq⟩ := htail
        · exact hcolon o ho
        · intro hmem
          exact hcolon o ho (heq ▸ List.mem_append_right _ (List.mem_cons_of_mem _ hmem))
      rw [Text.dropEndWhile_append_cons (by decide)] at htext
      have hcut := Text.cut?_append_cons hfree
        (Text.dropEndWhile (· = Glyph.char '\r') (Text.ofInt o.line ++ Glyph.char ':' :: o.code))
      rw [htext, Text.cut?_append_cons hfile] at hcut
      obtain ⟨rfl, -⟩ := Prod.mk.inj (Option.some.inj hcut)
      exact htail

/-- A text search that honours its options reports no header that it was told to leave out, unless
a path with a colon in it was printed. -/
theorem PrintsHits.isSource_of_mem_readAll {out : Output} {hits : List Occurrence}
    (h : PrintsHits (grepOptions false) out hits) (hcolon : ∀ o ∈ hits, Glyph.char ':' ∉ o.file)
    {found : Occurrence} (hfound : found ∈ ToolFormat.grep.readAll (Text.ofUtf8 out.stdout)) :
    SourceTree.isSource found.file false = true := by
  obtain ⟨o, ho, hfile⟩ := h.exists_of_mem_readAll hcolon hfound
  obtain ⟨ext, hext, hheader, hsuffix⟩ := (h.isHit o ho).selected.exists_extension
  refine SourceTree.isSource_of_suffix hext hheader ?_
  obtain heq | ⟨before, heq⟩ := hfile
  · rwa [heq]
  · have hfeed : ∀ e ∈ SourceTree.sourceExtensions, Glyph.char '\n' ∉ e := by decide
    exact Text.suffix_of_suffix_append_cons (hfeed ext hext) (heq ▸ hsuffix)

/-! ### Where call sites come from -/

/-- What a chain finds, one of its locators finds. -/
theorem exists_locator_of_tryEach {name : Text} {tree : SourceTree} {ls : List Locator} :
    ∀ {failures : List Failure} {w w' : World} {os : List Occurrence},
      tryEach name tree failures ls w = .ok os w' →
        ∃ l ∈ ls, ∃ v v', l.locate name tree v = .ok os v' := by
  induction ls with
  | nil =>
    intro failures w w' os h
    rw [tryEach] at h
    split at h <;> exact (Run.throw_ok_iff.mp h).elim
  | cons l ls ih =>
    intro failures w w' os h
    simp only [tryEach, Run.bind_ok_iff] at h
    obtain ⟨r, v, hr, h⟩ := h
    cases r with
    | ok found =>
      simp only [Run.bind_ok_iff, Run.pure_ok_iff] at h
      obtain ⟨_, _, -, rfl, -⟩ := h
      exact ⟨l, List.mem_cons_self, w, v, Run.attempt_ok_iff.mp hr⟩
    | error e =>
      simp only [Run.bind_ok_iff] at h
      obtain ⟨ended, u, -, h⟩ := h
      cases ended with
      | some c => exact (Run.throw_ok_iff.mp h).elim
      | none =>
        simp only [Run.bind_ok_iff] at h
        obtain ⟨_, _, -, _, _, -, h⟩ := h
        obtain ⟨l', hl', hlocate⟩ := ih h
        exact ⟨l', List.mem_cons_of_mem _ hl', hlocate⟩

end Locator

namespace Hierarchy

open CallTree

/-- The call sites are among the occurrences that were located. -/
theorem mem_of_mem_callsAmong {tree : SourceTree} {name : Text} {os : List Occurrence} :
    ∀ {cache : FileCache} {w w' : World} {calls : List Call},
      callsAmong tree name cache os w = .ok calls w' → ∀ call ∈ calls, call.site ∈ os := by
  induction os with
  | nil =>
    intro cache w w' calls h call hcall
    obtain ⟨rfl, -⟩ := Run.pure_ok_iff.mp h
    simp at hcall
  | cons o os ih =>
    intro cache w w' calls h call hcall
    rw [callsAmong] at h
    split at h
    · simp only [Run.bind_ok_iff, Run.pure_ok_iff] at h
      obtain ⟨⟨caller, cache'⟩, v, -, rest, u, hrest, rfl, -⟩ := h
      rcases List.mem_cons.mp hcall with rfl | hcall
      · exact List.mem_cons_self
      · exact List.mem_cons_of_mem _ (ih hrest call hcall)
    · exact List.mem_cons_of_mem _ (ih h call hcall)

end Hierarchy

namespace Engine

open CallTree

variable {e : Engine}

/-- A request that is answered was accepted, and its tree was built over the engine's locators. -/
theorem exists_build_of_hierarchy {function basePath : Text} {limit : Int} {w w' : World}
    {t : CallTree} (h : e.hierarchy function basePath limit w = .ok t w') :
    ∃ tree indexed v u u', SourceTree.ofRoot w.files basePath e.options.excludes = .ok tree ∧
      e.hasIndex tree w = .ok indexed v ∧
      Hierarchy.build (Locator.chain (e.locators indexed)) tree limit function u = .ok t u' := by
  obtain ⟨detail, hanswer⟩ | ⟨tree, -, -, htree, hanswer⟩ :=
    e.answer_cases function basePath limit w
  · obtain ⟨v, hv, -⟩ := exists_hierarchy_eq hanswer
    rw [hv] at h
    cases h
  · cases hresolve : e.resolveIn tree function limit w with
    | error f v =>
      obtain ⟨u, hu, -⟩ := exists_hierarchy_eq (r := .error f) (hanswer.trans hresolve)
      rw [hu] at h
      cases h
    | ok t' v =>
      obtain ⟨u, hu, -⟩ := exists_hierarchy_eq (r := .ok t') (hanswer.trans hresolve)
      rw [hu] at h
      obtain ⟨rfl, -⟩ := Run.pure_ok_iff.mp h
      simp only [resolveIn, ready, locator, Run.bind_ok_iff, Run.pure_ok_iff] at hresolve
      obtain ⟨_, y, ⟨_, _, ⟨indexed, x, hindexed, _, _, -, rfl, -⟩, _, _, -, rfl, -⟩, hbuild⟩ :=
        hresolve
      exact ⟨tree, indexed, x, y, v, htree, hindexed, hbuild⟩

/-- Where the call sites of an answer come from: each was located by one of the engine's locators,
when it was asked about the function that is called there. -/
theorem exists_locator_of_site {function basePath : Text} {limit : Int} {w w' : World}
    {t : CallTree} (h : e.hierarchy function basePath limit w = .ok t w') {m : Member}
    {above : List Member} (hm : t.Lineage (m :: above)) {site : Occurrence}
    (hsite : m.head.site = some site) :
    ∃ tree indexed v parent rest, SourceTree.ofRoot w.files basePath e.options.excludes = .ok tree ∧
      e.hasIndex tree w = .ok indexed v ∧ above = parent :: rest ∧
      ∃ l ∈ e.locators indexed, ∃ u os u', l.locate parent.name tree u = .ok os u' ∧ site ∈ os := by
  obtain ⟨tree, indexed, v, u, u', htree, hindexed, hbuild⟩ := exists_build_of_hierarchy h
  have hsites : ∀ n d v calls v', True →
      Hierarchy.expandedSites (Locator.chain (e.locators indexed)) tree n d v = .ok calls v' →
      (∀ call ∈ calls, ∃ l ∈ e.locators indexed, ∃ u os u', l.locate n tree u = .ok os u' ∧
        call.site ∈ os) ∧ True := by
    intro n d v calls v' _ hcalls
    simp only [Hierarchy.expandedSites, Hierarchy.callSites, Run.bind_ok_iff, Run.pure_ok_iff]
      at hcalls
    obtain ⟨_, _, ⟨os, _, hlocate, hcalls⟩, _, _, -, rfl, -⟩ := hcalls
    obtain ⟨l, hl, x, x', hx⟩ := Locator.exists_locator_of_tryEach hlocate
    exact ⟨fun call hcall =>
      ⟨l, hl, x, os, x', hx, Hierarchy.mem_of_mem_callsAmong hcalls call hcall⟩, trivial⟩
  obtain ⟨hgrown, -⟩ := Hierarchy.grown_of_grow (fun _ _ _ _ => trivial) hsites limit.toNat []
    function trivial hbuild
  obtain ⟨parent, rest, calls, call, rfl, hcalls, hcall, -, rfl⟩ := hgrown.exists_call hm hsite
  exact ⟨tree, indexed, v, parent, rest, htree, hindexed, rfl, hcalls call hcall⟩

/-- **Headers are left out, except by the index.** An engine that is told to leave out headers, with
a text search that honours its options, shows a call site in a header only if

* the index was built and reports that call site, or
* the text search has found something in a file with a colon in its path, and the call site is
  what was read from its output. -/
theorem header_sites_come_from_tool_reports (hheaders : e.options.includeHeaders = false)
    (hsearch : ∀ u root name out,
      (e.tools.answer u (Locator.grepQuery e.options.grepTool root false name)).outcome = .ok out →
        ∃ hits, Locator.PrintsHits (Locator.grepOptions false) out hits)
    {function basePath : Text} {limit : Int} {w w' : World} {t : CallTree}
    (h : e.hierarchy function basePath limit w = .ok t w') {m : Member} {above : List Member}
    (hm : t.Lineage (m :: above)) {site : Occurrence} (hsite : m.head.site = some site)
    (hheader : SourceTree.isHeader site.file = true) :
    ∃ tree parent rest u out, SourceTree.ofRoot w.files basePath e.options.excludes = .ok tree ∧
      above = parent :: rest ∧
      ((∃ v, e.hasIndex tree w = .ok true v) ∧
        (e.tools.answer u (Locator.indexQuery e.options.indexTool tree.root parent.name)).outcome =
          .ok out ∧
        site ∈ Locator.withinTree tree (ToolFormat.index.readAll (Text.ofUtf8 out.stdout)) ∨
      (e.tools.answer u (Locator.grepQuery e.options.grepTool tree.root false
          parent.name)).outcome = .ok out ∧
        site ∈ Locator.withinTree tree (ToolFormat.grep.readAll (Text.ofUtf8 out.stdout)) ∧
        ∃ hits, Locator.PrintsHits (Locator.grepOptions false) out hits ∧
          ∃ o ∈ hits, Glyph.char ':' ∈ o.file) := by
  obtain ⟨tree, indexed, v, parent, rest, htree, hindexed, rfl, l, hl, u, os, u', hlocate, hmem⟩ :=
    exists_locator_of_site h hm hsite
  simp only [locators, hheaders, List.mem_append, List.mem_singleton] at hl
  obtain (hl | hl) | rfl := hl
  · split at hl
    · rename_i htrue
      obtain rfl := List.mem_singleton.mp hl
      obtain ⟨out, _, hcommand, rfl⟩ := Locator.eq_withinTree_of_index hlocate
      obtain ⟨x, hout⟩ := Run.outcome_of_command hcommand
      exact ⟨tree, parent, rest, x, out, htree, rfl, .inl ⟨⟨v, htrue ▸ hindexed⟩, hout, hmem⟩⟩
    · simp at hl
  · split at hl
    · obtain rfl := List.mem_singleton.mp hl
      obtain ⟨out, _, hcommand, rfl | rfl⟩ := Locator.eq_withinTree_of_grep hlocate
      · simp at hmem
      · obtain ⟨x, hout⟩ := Run.outcome_of_command hcommand
        obtain ⟨hits, hhits⟩ := hsearch _ _ _ _ hout
        refine ⟨tree, parent, rest, x, out, htree, rfl, .inr ⟨hout, hmem, hits, hhits, ?_⟩⟩
        by_contra hnone
        push Not at hnone
        obtain ⟨⟨found, hfound, rfl⟩, -⟩ := Locator.mem_withinTree_iff.mp hmem
        have hsource := hhits.isSource_of_mem_readAll hnone hfound
        rw [SourceTree.isHeader_relative hsource] at hheader
        cases hheader
    · simp at hl
  · obtain ⟨paths, _, hpaths, path, hpath, lines, -, hscan⟩ :=
      Locator.exists_path_of_mem_scan hlocate hmem
    have hlists := SourceTree.lists_of_mem_files hpaths hpath
    obtain ⟨hfile, -⟩ := Locator.getElem?_of_mem_scanLines hscan
    rw [SourceTree.lists, Bool.and_eq_true] at hlists
    rw [hfile, SourceTree.isHeader_relative hlists.1] at hheader
    cases hheader

/-- An engine with an index that has one call in a header, and a text search that finds nothing. -/
def indexedHeader : Engine where
  tools := {
    answer := fun _ c =>
      if c.name = "cscope" then
        { outcome := .ok { stdout := "/src/a.h g 3   f();\n".toUTF8.toList } }
      else { outcome := .ok { exit := 1 } }
    isInstalled := fun _ => true }
  options := {}

/-- A header in which `g` calls `f`. -/
def headerOnly : FileSystem where
  tree := .folder [("src", .folder [
    ("a.h", .file 0o644 "void g()\n\x7b\n  f();\n\x7d\n".toUTF8.toList)])]

/-- The header is in the list that the index is built from, so the index finds the call in it, and
the engine shows it, though it was told to leave out headers. -/
theorem indexed_header_is_shown :
    ∃ t w' m parent site u out, indexedHeader.options.includeHeaders = false ∧
      indexedHeader.hierarchy "f" "/src" 1 { files := headerOnly } = .ok t w' ∧
      t.Lineage [m, parent] ∧ m.head.site = some site ∧ SourceTree.isHeader site.file = true ∧
      Run.result? (SourceTree.files ⟨"/src", []⟩ true) { files := headerOnly } =
        some [Text.ofString "/src/a.h"] ∧
      (indexedHeader.tools.answer u (Locator.indexQuery "cscope" "/src" parent.name)).outcome =
        .ok out ∧
      site ∈ Locator.withinTree ⟨"/src", []⟩
        (ToolFormat.index.readAll (Text.ofUtf8 out.stdout)) := by
  have heval : ((Run.result? (indexedHeader.hierarchy "f" "/src" 1) { files := headerOnly }).bind
      (·.lineageAt? [0])).map (·.map fun m => (m.head.site.map fun s => (s.file, s.line))) =
      some [some (Text.ofString "a.h", 3), none] := by decide +kernel
  simp only [Option.map_eq_some_iff, Option.bind_eq_some_iff, Run.result?_eq_some_iff,
    List.map_eq_cons_iff, List.map_eq_nil_iff, Prod.mk.injEq] at heval
  obtain ⟨_, ⟨t, ⟨w', h⟩, hat⟩, m, _, rfl, ⟨site, hsite, hfile, -⟩, parent, _, rfl, -, rfl⟩ := heval
  have hm := CallTree.lineage_of_lineageAt? hat
  have hheader : SourceTree.isHeader site.file = true := by
    rw [hfile]
    decide +kernel
  have hsilent : ∀ u root name, (indexedHeader.tools.answer u
      (Locator.grepQuery indexedHeader.options.grepTool root false name)).outcome =
        .ok { exit := 1 } := fun _ _ _ => rfl
  have hsearch : ∀ u root name out, (indexedHeader.tools.answer u
      (Locator.grepQuery indexedHeader.options.grepTool root false name)).outcome = .ok out →
        ∃ hits, Locator.PrintsHits (Locator.grepOptions false) out hits := by
    intro u root name out hout
    rw [hsilent] at hout
    cases hout
    exact ⟨[], by simp, by decide +kernel⟩
  obtain ⟨tree, parent', rest, u, out, htree, habove, ⟨-, hout, hmem⟩ | ⟨hout, hmem, -⟩⟩ :=
    header_sites_come_from_tool_reports rfl hsearch h hm hsite hheader
  · have htree' : SourceTree.ofRoot headerOnly "/src" [] = .ok ⟨"/src", []⟩ :=
      eq_ok_of_toOption (by decide +kernel)
    obtain ⟨rfl, rfl⟩ := List.cons.inj habove
    obtain rfl := Except.ok.inj (htree'.symm.trans htree)
    exact ⟨t, w', m, parent, site, u, out, rfl, h, hm, hsite, hheader, by decide +kernel, hout,
      hmem⟩
  · rw [hsilent] at hout
    cases hout
    simp [Locator.withinTree] at hmem

end Engine

end CallerTree
