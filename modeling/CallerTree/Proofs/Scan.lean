import CallerTree.Proofs.CallSites
import CallerTree.Proofs.Interruption
import CallerTree.Proofs.LinePatterns
import CallerTree.Proofs.ToolOutput
import CallerTree.Proofs.Walk

/-!
# What the scan finds

The scan looks for a call in two steps. First it picks the lines that mention the name before an
opening parenthesis, with the pattern that the text search uses; what it has picked is then read by
the classification, which looks at the line without the blanks at its ends. The files are read
twice as well: by the scan, under the paths of the walk, and again to find the enclosing functions,
under the relative paths that occurrences carry.

This module shows that neither detour is visible. The call sites found with the scan are the lines
that are calls, in the files of the walk, and each stands in the function that its file shows around
it.

## Main definitions

* `Hierarchy.callsIn` — the calls in one file, without pattern and without relative paths

## Main results

* `Line.mentionsCall_of_isCall` — the pattern hides no call
* `Hierarchy.scan_finds_exactly_the_calls` — the call sites of a scan
-/

namespace CallerTree

/-! ### The pattern and the classification -/

namespace Line

theorem mentionsCall_append {name line : Text} (h : mentionsCall name line = true)
    (before after : Text) : mentionsCall name (before ++ line ++ after) = true := by
  rw [mentionsCall_iff] at h ⊢
  obtain ⟨front, gaps, rest, rfl, hgaps⟩ := h
  exact ⟨before ++ front, gaps, rest ++ after, by simp only [List.append_assoc], hgaps⟩

theorem mentionsCall_of_hasCall {name line : Text} (h : hasCall name line = true) :
    mentionsCall name line = true := by
  obtain ⟨u, v, rfl, -, hcall⟩ := hasCall_iff.mp h
  exact anywhere_iff.mpr ⟨u, v, rfl, hcall⟩

/-- The scan looks at lines as they are and the classification at trimmed ones. -/
theorem hasCall_of_isCall {name line : Text} (h : (classify name line).isCall = true) :
    hasCall name line.trim = true := by
  unfold classify readTrimmed at h
  split at h
  · cases h
  · split at h
    · cases h
    · split at h
      · cases h
      · split at h
        · cases h
        · exact h

/-- The pattern hides no line that is a call. -/
theorem mentionsCall_of_isCall {name line : Text} (h : (classify name line).isCall = true) :
    mentionsCall name line = true := by
  rw [Text.eq_append_trim line]
  exact mentionsCall_append (mentionsCall_of_hasCall (hasCall_of_isCall h)) _ _

theorem kind_of_isCall {name line : Text} (h : (classify name line).isCall = true) :
    (classify name line).kind = .call := by
  unfold classify readTrimmed at h ⊢
  split at h
  · cases h
  · split at h
    · cases h
    · split at h
      · cases h
      · split at h
        · cases h
        · simp_all [Reading.kind]

end Line

/-! ### What the scan picks -/

namespace Locator

theorem readSource_eq_ok_iff {fs : FileSystem} {path : Text} {lines : List Text} :
    readSource fs path = .ok lines ↔
      ∃ data, fs.read path = .ok data ∧ lines = SourceLines.ofBytes data := by
  unfold readSource
  cases fs.read path with
  | error e => simp
  | ok data => simp [eq_comm]

/-- The lines of one file that the scan picks. -/
def pickedIn (fs : FileSystem) (tree : SourceTree) (name path : Text) : List Occurrence :=
  match readSource fs path with
  | .ok lines => scanLines name (tree.relative path) 1 lines
  | .error _ => []

variable {fs : FileSystem} {tree : SourceTree} {name : Text}

theorem answers_scanFiles (paths : List Text) :
    Run.Answers fs (scanFiles name tree paths) (.ok (paths.flatMap (pickedIn fs tree name))) := by
  induction paths with
  | nil => exact .pure _
  | cons path paths ih =>
    refine (Run.Answers.check fs).bind (Run.Answers.files.bind ?_)
    rw [List.flatMap_cons, pickedIn]
    cases readSource fs path with
    | ok lines => exact ih.bind (.pure _)
    | error e => exact (Run.Answers.note _ _ _).bind ih

/-- The scan for a harmless name goes through the files of the walk. -/
theorem answers_scan {includeHeaders : Bool} {paths : List Text}
    (hname : FunctionName.IsHarmless name)
    (hpaths : Run.Answers fs (tree.files includeHeaders) (.ok paths)) :
    Run.Answers fs ((scan includeHeaders).locate name tree)
      (.ok (paths.flatMap (pickedIn fs tree name))) := by
  simp only [scan, hname.checkPattern_eq]
  refine (Run.Answers.ofExcept (.ok ())).bind ?_
  exact hpaths.attempt.bind (answers_scanFiles paths)

end Locator

/-- Where a call stands. -/
def Call.place (call : Call) : Text × Int := (call.site.file, call.site.line)

namespace Hierarchy

open Locator

/-! ### The calls in one file -/

/-- The calls in one file: the lines that are calls, under their numbers, each with the function
that the lines show around it. A file that cannot be read has none. -/
def callsIn (fs : FileSystem) (tree : SourceTree) (name path : Text) : List Call :=
  match readSource fs path with
  | .ok lines =>
    ((lines.zipIdx 1).filter fun l => (Line.classify name l.1).isCall).map fun l =>
      { site := { file := tree.relative path, line := l.2, code := l.1 }
        caller := Line.enclosingFunction lines l.2 }
  | .error _ => []

/-- The calls among the picked lines are the calls among all lines. -/
theorem filter_scanLines (name file : Text) (lines : List Text) :
    ∀ number, (scanLines name file number lines).filter
        (fun o => (Line.classify name o.code).isCall) =
      ((lines.zipIdx number).filter fun l => (Line.classify name l.1).isCall).map fun l =>
        { file, line := l.2, code := l.1 } := by
  induction lines with
  | nil => exact fun _ => rfl
  | cons l lines ih =>
    intro number
    rw [scanLines, List.zipIdx_cons]
    by_cases hcall : (Line.classify name l).isCall = true
    · rw [if_pos (Line.mentionsCall_of_isCall hcall)]
      simp only [List.filter_cons, hcall, if_true, List.map_cons, ih]
    · split
      · simp only [List.filter_cons, hcall, Bool.false_eq_true, if_false, ih]
      · simp only [List.filter_cons, hcall, Bool.false_eq_true, if_false, ih]

variable {fs : FileSystem} {tree : SourceTree} {name : Text}

/-- A file is found again under its relative path, so its calls get the functions that it shows. -/
theorem callsOf_pickedIn {path : Text} (hpath : sourcePath tree.root (tree.relative path) = path) :
    callsOf fs tree name (pickedIn fs tree name path) = callsIn fs tree name path := by
  unfold callsOf pickedIn callsIn
  cases hread : readSource fs path with
  | error e => rfl
  | ok lines =>
    have hlines : linesIn fs tree (tree.relative path) = some lines := by
      rw [linesIn, hpath, hread]
      rfl
    simp only [filter_scanLines, List.map_map]
    refine List.map_congr_left fun l _ => ?_
    simp [callerIn, hlines]

theorem callsOf_flatMap (name : Text) (f : Text → List Occurrence) (paths : List Text) :
    callsOf fs tree name (paths.flatMap f) = paths.flatMap fun p => callsOf fs tree name (f p) := by
  simp only [callsOf, List.filter_flatMap, List.map_flatMap]

theorem sourcePath_relative {root cs : List Text} (hroot : tree.root = Path.ofComponents true root)
    (hnames : ∀ c ∈ root, Path.IsName c) (hcs : ∀ c ∈ cs, Path.IsName c) :
    sourcePath tree.root (tree.relative (Path.ofComponents true (root ++ cs))) =
      Path.ofComponents true (root ++ cs) := by
  rw [SourceTree.relative_ofComponents hroot hnames hcs, sourcePath,
    Path.isAbsolute_ofComponents hcs, if_neg (by simp), hroot,
    Path.join_ofComponents_ofComponents hnames hcs]

theorem isCall_of_mem_callsIn {path : Text} {call : Call} (h : call ∈ callsIn fs tree name path) :
    (Line.classify name call.site.code).isCall = true := by
  unfold callsIn at h
  split at h
  · obtain ⟨l, hl, rfl⟩ := List.mem_map.mp h
    exact (List.mem_filter.mp hl).2
  · simp at h

/-! ### No line twice -/

theorem file_of_mem_callsIn {path : Text} {place : Text × Int}
    (h : place ∈ (callsIn fs tree name path).map (·.place)) : place.1 = tree.relative path := by
  unfold callsIn at h
  split at h
  · obtain ⟨_, hcall, rfl⟩ := List.mem_map.mp h
    obtain ⟨l, -, rfl⟩ := List.mem_map.mp hcall
    rfl
  · simp at h

theorem nodup_places_callsIn (path : Text) :
    ((callsIn fs tree name path).map (·.place)).Nodup := by
  unfold callsIn
  split
  · rename_i lines _
    have hnumbers : ((lines.zipIdx 1).map fun l => (tree.relative path, (l.2 : Int))).Nodup := by
      have hinj : Function.Injective fun n : Nat => (tree.relative path, (n : Int)) :=
        fun m n h => Int.ofNat.inj (Prod.mk.inj h).2
      have hmap := (List.nodup_range' (s := 1) (n := lines.length)).map hinj
      rwa [← List.zipIdx_map_snd, List.map_map] at hmap
    rw [List.map_map]
    exact (List.filter_sublist.map _).nodup hnumbers
  · simp

/-- Occurrences carry relative paths, so these have to tell the files apart. -/
theorem nodup_places {paths : List Text} (hpaths : paths.Nodup)
    (hrelative : ∀ p ∈ paths, ∀ q ∈ paths, tree.relative p = tree.relative q → p = q) :
    ((paths.flatMap (callsIn fs tree name)).map (·.place)).Nodup := by
  rw [List.map_flatMap, List.nodup_flatMap]
  refine ⟨fun p _ => nodup_places_callsIn p, hpaths.imp_of_mem fun {p q} hp hq hne => ?_⟩
  intro place hmem hmem'
  have hfile := (file_of_mem_callsIn hmem).symm.trans (file_of_mem_callsIn hmem')
  exact hne (hrelative p hp q hq hfile)

/-! ### The call sites of a scan -/

variable {includeHeaders : Bool} {paths : List Text}

theorem exists_files_of_callSites {w u : World} {calls : List Call}
    (h : callSites (scan includeHeaders) tree name w = .ok calls u) :
    ∃ paths v, tree.files includeHeaders w = .ok paths v := by
  simp only [callSites, scan, Run.bind_ok_iff, Run.ofExcept_ok_iff] at h
  obtain ⟨_, _, ⟨_, _, ⟨-, rfl⟩, found, v, hfound, hlocate⟩, -⟩ := h
  cases found with
  | error e => exact (Run.throw_ok_iff.mp hlocate).elim
  | ok paths => exact ⟨paths, v, Run.attempt_ok_iff.mp hfound⟩

theorem callSites_of_files_error (hname : FunctionName.IsHarmless name) {w v : World} {f : Failure}
    (h : tree.files includeHeaders w = .error f v) :
    callSites (scan includeHeaders) tree name w = .error (.under "scan search" f) v := by
  have hfound : Run.attempt (tree.files includeHeaders) w = Run.ofExcept (.ok (.error f)) v :=
    Run.attempt_of_eq (r := .error f) h
  refine Run.bind_of_error (?_ : (scan includeHeaders).locate name tree w = _) _
  simp only [scan, hname.checkPattern_eq]
  exact (Run.bind_of_ok (x := Run.ofExcept (.ok ())) rfl _).trans (Run.bind_of_ok hfound _)

theorem follows_callSites_scan (tree : SourceTree) (name : Text) (includeHeaders : Bool) :
    Run.Follows (fun _ => True) Run.Anyhow (callSites (scan includeHeaders) tree name)
      (callSites (scan includeHeaders) tree name) :=
  ((matches_scan includeHeaders).2 name).bind fun os => Run.Follows.congruence.callsAmong name os []

/-- The call sites of a scan are the calls in the files of the walk. -/
theorem answers_callSites_scan (hname : FunctionName.IsHarmless name)
    (hpaths : Run.Answers fs (tree.files includeHeaders) (.ok paths))
    (hfound : ∀ p ∈ paths, sourcePath tree.root (tree.relative p) = p) :
    Run.Answers fs (callSites (scan includeHeaders) tree name)
      (.ok (paths.flatMap (callsIn fs tree name))) := by
  have hcalls := (answers_scan hname hpaths).bind (answers_callsAmong fs tree name _)
  rw [callsOf_flatMap] at hcalls
  have heq : (paths.flatMap fun p => callsOf fs tree name (pickedIn fs tree name p)) =
      paths.flatMap (callsIn fs tree name) :=
    List.flatMap_congr fun p hp => callsOf_pickedIn (hfound p hp)
  rwa [heq] at hcalls

/-- **The scan finds exactly the calls.** If the call sites of a valid name are found by scanning,
then they are the calls in the files of the walk: file by file and line by line, no line twice, each
line under its number and with the function that its file shows around it. In a live context they
are found whenever the files can be listed. For the pattern that picks the lines to be looked at
finds all that are calls. -/
theorem scan_finds_exactly_the_calls {path : Text} {excludes : List Text} {w : World}
    (htree : SourceTree.ofRoot w.files path excludes = .ok tree)
    (hname : FunctionName.validate name = .ok ()) :
    (∀ calls u, callSites (scan includeHeaders) tree name w = .ok calls u →
      ∃ paths v, tree.files includeHeaders w = .ok paths v ∧
        calls = paths.flatMap (callsIn w.files tree name) ∧
        (∀ call ∈ calls, (Line.classify name call.site.code).kind = .call) ∧
        (calls.map (·.place)).Nodup) ∧
    (∀ paths v, w.context = .live → tree.files includeHeaders w = .ok paths v →
      ∃ u, callSites (scan includeHeaders) tree name w =
        .ok (paths.flatMap (callsIn w.files tree name)) u) ∧
    (∀ f v, tree.files includeHeaders w = .error f v →
      callSites (scan includeHeaders) tree name w = .error (.under "scan search" f) v) ∧
    ∃ x, SearchPattern.read (FunctionName.callPattern name) = some x ∧
      ∀ line, (Line.classify name line).isCall = true → x.Finds line := by
  have hharmless := FunctionName.isHarmless_of_validate hname
  obtain ⟨root, hroot, heq⟩ := SourceTree.exists_root_of_ofRoot htree
  have hcomponents : ∀ {v : World} {paths : List Text}, tree.files includeHeaders w = .ok paths v →
      ∀ p ∈ paths, ∃ cs, (∀ c ∈ cs, Path.IsName c) ∧ p = Path.ofComponents true (root ++ cs) :=
    fun hpaths p hp => SourceTree.exists_components_of_mem_files heq hroot hpaths hp
  -- In a live context the files are listed as in this one, and then all calls are found.
  let w₀ : World := { w with context := .live }
  have hw₀ : w₀.IsSteady w.files := ⟨rfl, rfl⟩
  have hanswers : ∀ {v : World} {paths : List Text}, tree.files includeHeaders w = .ok paths v →
      Run.Answers w.files (callSites (scan includeHeaders) tree name)
        (.ok (paths.flatMap (callsIn w.files tree name))) := by
    intro v paths hpaths
    obtain ⟨v₀, hlisted⟩ :=
      (tree.follows_files includeHeaders).exists_ok_of_ok hw₀.context hw₀.files hpaths
    refine answers_callSites_scan hharmless (SourceTree.answers_files hw₀ hlisted) ?_
    intro p hp
    obtain ⟨cs, hcs, rfl⟩ := hcomponents hpaths p hp
    exact sourcePath_relative heq hroot hcs
  refine ⟨fun calls u h => ?_, fun paths v hlive hpaths => ?_,
    fun f v => callSites_of_files_error hharmless, ?_⟩
  · obtain ⟨paths, v, hpaths⟩ := exists_files_of_callSites h
    obtain ⟨u₀, hfound⟩ := (follows_callSites_scan tree name includeHeaders).exists_ok_of_ok
      hw₀.context hw₀.files h
    obtain ⟨hcalls, -⟩ := (hanswers hpaths).eq_of_ok hw₀ hfound
    obtain rfl := Except.ok.inj hcalls
    refine ⟨paths, v, hpaths, rfl, fun call hcall => ?_, ?_⟩
    · obtain ⟨p, -, hcall⟩ := List.mem_flatMap.mp hcall
      exact Line.kind_of_isCall (isCall_of_mem_callsIn hcall)
    · refine nodup_places (SourceTree.nodup_files heq hroot hpaths) fun p hp q hq hpq => ?_
      obtain ⟨cs, hcs, rfl⟩ := hcomponents hpaths p hp
      obtain ⟨ds, hds, rfl⟩ := hcomponents hpaths q hq
      rw [SourceTree.relative_ofComponents heq hroot hcs,
        SourceTree.relative_ofComponents heq hroot hds] at hpq
      rw [Path.eq_of_ofComponents_eq hcs hds hpq]
  · obtain ⟨u, -, hu⟩ := hanswers hpaths w ⟨rfl, hlive⟩
    exact ⟨u, hu⟩
  · obtain ⟨x, hx, hfinds⟩ := Line.exists_read_callPattern (Line.isClear_of_isHarmless hharmless)
    exact ⟨x, hx, fun line hcall => (hfinds line).mpr (Line.mentionsCall_of_isCall hcall)⟩

/-- A file that mentions `f` five times and calls it once. -/
def fiveMentions : FileSystem where
  tree := .folder [("src", .folder [("a.c", .file 0o644
    "int f();\n// f()\nvoid g()\n\x7b\n  xf();\n\t f ();\n\x7d\n#define F f()\n".toUTF8.toList)])]

/-- The one call is found, and the scan has picked all five lines. -/
theorem one_of_fiveMentions_is_found :
    (∃ u, callSites (scan false) ⟨"/src", []⟩ "f" { files := fiveMentions } =
      .ok [⟨⟨"a.c", 6, "\t f ();", []⟩, "g"⟩] u) ∧
    (pickedIn fiveMentions ⟨"/src", []⟩ "f" "/src/a.c").map (·.line) = [1, 2, 5, 6, 8] := by
  have htree : SourceTree.ofRoot fiveMentions "/src" [] = .ok ⟨"/src", []⟩ :=
    eq_ok_of_toOption (by decide +kernel)
  have hname : FunctionName.validate "f" = .ok () := eq_ok_of_toOption (by decide +kernel)
  have heval : Run.result? (SourceTree.files ⟨"/src", []⟩ false) { files := fiveMentions } =
      some [Text.ofString "/src/a.c"] := by decide +kernel
  obtain ⟨v, hpaths⟩ := Run.result?_eq_some_iff.mp heval
  obtain ⟨u, hfound⟩ := (scan_finds_exactly_the_calls (w := { files := fiveMentions }) htree
    hname).2.1 _ v rfl hpaths
  have hcalls : [Text.ofString "/src/a.c"].flatMap (callsIn fiveMentions ⟨"/src", []⟩ "f") =
      [⟨⟨"a.c", 6, "\t f ();", []⟩, "g"⟩] := by decide +kernel
  exact ⟨⟨u, hfound.trans (by rw [← hcalls])⟩, by decide +kernel⟩

end Hierarchy

end CallerTree
