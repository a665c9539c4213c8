import CallerTree.Config.Load
import CallerTree.Proofs.Records

/-!
# Settings read from files

The settings of a directory come from one file. Those that the file mentions replace the defaults,
one by one also in the two groups of settings, and the rest keep their defaults. What comes out is
checked as a whole, wherever its parts come from.

## Main definitions

* `Config.Replaces` — one setting before and after
* `Config.Overrides` — all settings before and after
* `Config.IsOverridden` — the change that a document makes

## Main results

* `Config.follows_fields` — the fields make that change one after the other
* `Config.files_override_what_they_mention`
-/

namespace CallerTree

namespace Config

open Yaml (NodeId)

/-! ### What a document says -/

def keys : List Text :=
  ["listen", "maxDepth", "includeHeaders", "fanout", "maxProcesses", "requestTimeout", "killGrace",
    "excludes", "disableIndex", "searchLimit", "contextLines", "tools", "log"]

def toolKeys : List Text := ["cscope", "grep", "ag"]

def logKeys : List Text := ["level", "format"]

/-- A setting that is mentioned has the value meant, and any other one keeps its value. -/
def Replaces {α : Type} (Means : NodeId → α → Prop) (l : List (Text × NodeId)) (name : Text)
    (old new : α) : Prop :=
  match l.lookup name with
  | some v => Means v new
  | none => new = old

structure OverridesTools (d : Yaml.Document) (l : List (Text × NodeId)) (c c' : ToolNames) :
    Prop where
  cscope : Replaces (d.text? · = some ·) l "cscope" c.cscope c'.cscope
  grep : Replaces (d.text? · = some ·) l "grep" c.grep c'.grep
  ag : Replaces (d.text? · = some ·) l "ag" c.ag c'.ag

structure OverridesLog (d : Yaml.Document) (l : List (Text × NodeId)) (c c' : LogSettings) :
    Prop where
  level : Replaces (d.text? · = some ·) l "level" c.level c'.level
  format : Replaces (d.text? · = some ·) l "format" c.format c'.format

/-- The settings `c'` are `c` with exactly the settings replaced that are mentioned. -/
structure Overrides (d : Yaml.Document) (l : List (Text × NodeId)) (c c' : Config) : Prop where
  listen : Replaces (d.text? · = some ·) l "listen" c.listen c'.listen
  maxDepth : Replaces (d.int? · = some ·) l "maxDepth" c.maxDepth c'.maxDepth
  includeHeaders :
    Replaces (d.bool? · = some ·) l "includeHeaders" c.includeHeaders c'.includeHeaders
  fanout : Replaces (d.int? · = some ·) l "fanout" c.fanout c'.fanout
  maxProcesses : Replaces (d.int? · = some ·) l "maxProcesses" c.maxProcesses c'.maxProcesses
  requestTimeout :
    Replaces (d.duration? · = some ·) l "requestTimeout" c.requestTimeout c'.requestTimeout
  killGrace : Replaces (d.duration? · = some ·) l "killGrace" c.killGrace c'.killGrace
  excludes :
    Replaces (fun v new => ∃ ts, d.IsTexts v ts ∧ new = some ts) l "excludes" c.excludes c'.excludes
  disableIndex : Replaces (d.bool? · = some ·) l "disableIndex" c.disableIndex c'.disableIndex
  searchLimit : Replaces (d.int? · = some ·) l "searchLimit" c.searchLimit c'.searchLimit
  contextLines : Replaces (d.int? · = some ·) l "contextLines" c.contextLines c'.contextLines
  tools :
    Replaces (fun v => d.Updates toolKeys (OverridesTools d) (d.target v) c.tools) l "tools" c.tools
      c'.tools
  log :
    Replaces (fun v => d.Updates logKeys (OverridesLog d) (d.target v) c.log) l "log" c.log c'.log

/-- The document is a mapping of distinct settings with values of their kinds, and `c'` are the
settings `c` with those replaced. -/
def IsOverridden (c : Config) (d : Yaml.Document) (c' : Config) : Prop :=
  d.Updates keys (Overrides d) (d.node d.root) c c'

/-! ### Decoding settings -/

open Yaml.Decode

variable {d : Yaml.Document} {way : List NodeId}

theorem Replaces.of_not_mem {α : Type} {Means : NodeId → α → Prop} {l : List (Text × NodeId)}
    {name : Text} (h : name ∉ l.map Prod.fst) (a : α) : Replaces Means l name a a := by
  have hnone : l.lookup name = none := List.lookup_eq_none_iff.mpr fun m hm => by
    simpa using fun heq : name = m.1 => h (heq ▸ List.mem_map_of_mem hm)
  simp [Replaces, hnone]

theorem gives_setting {α β : Type} {read : NodeId → Yaml.Decode (Option β)} {change : β → α → α}
    {v : NodeId} {b : β} (h : Gives d way (read v) (some b)) (a : α) :
    Gives d way (setting read change v a) (change b a) := h.bind (gives_pure _)

theorem follows_toolFields (hopen : IsOpen d way) :
    Follows d way toolKeys toolFields (OverridesTools d) where
  nil h := ToolNames.ext h.cscope h.grep h.ag
  cons hknown hfresh h := by
    simp only [toolKeys, List.mem_cons, List.not_mem_nil, or_false] at hknown
    rcases hknown with rfl | rfl | rfl
    · exact ⟨_, _, rfl, gives_setting (gives_scalar hopen h.cscope) _,
        { h with cscope := .of_not_mem hfresh _ }⟩
    · exact ⟨_, _, rfl, gives_setting (gives_scalar hopen h.grep) _,
        { h with grep := .of_not_mem hfresh _ }⟩
    · exact ⟨_, _, rfl, gives_setting (gives_scalar hopen h.ag) _,
        { h with ag := .of_not_mem hfresh _ }⟩

theorem follows_logFields (hopen : IsOpen d way) :
    Follows d way logKeys logFields (OverridesLog d) where
  nil h := LogSettings.ext h.level h.format
  cons hknown hfresh h := by
    simp only [logKeys, List.mem_cons, List.not_mem_nil, or_false] at hknown
    rcases hknown with rfl | rfl
    · exact ⟨_, _, rfl, gives_setting (gives_scalar hopen h.level) _,
        { h with level := .of_not_mem hfresh _ }⟩
    · exact ⟨_, _, rfl, gives_setting (gives_scalar hopen h.format) _,
        { h with format := .of_not_mem hfresh _ }⟩

theorem isOpen_nil : IsOpen d [] := List.forall_mem_nil _

/-- Each field sets what is mentioned under its name, and the names after it are others. -/
theorem follows_fields : Follows d [] keys fields (Overrides d) where
  nil h := Config.ext h.listen h.maxDepth h.includeHeaders h.fanout h.maxProcesses
    h.requestTimeout h.killGrace h.excludes h.disableIndex h.searchLimit h.contextLines h.tools
    h.log
  cons hknown hfresh h := by
    simp only [keys, List.mem_cons, List.not_mem_nil, or_false] at hknown
    rcases hknown with rfl | rfl | rfl | rfl | rfl | rfl | rfl | rfl | rfl | rfl | rfl | rfl | rfl
    · exact ⟨_, _, rfl, gives_setting (gives_scalar isOpen_nil h.listen) _,
        { h with listen := .of_not_mem hfresh _ }⟩
    · exact ⟨_, _, rfl, gives_setting (gives_scalar isOpen_nil h.maxDepth) _,
        { h with maxDepth := .of_not_mem hfresh _ }⟩
    · exact ⟨_, _, rfl, gives_setting (gives_scalar isOpen_nil h.includeHeaders) _,
        { h with includeHeaders := .of_not_mem hfresh _ }⟩
    · exact ⟨_, _, rfl, gives_setting (gives_scalar isOpen_nil h.fanout) _,
        { h with fanout := .of_not_mem hfresh _ }⟩
    · exact ⟨_, _, rfl, gives_setting (gives_scalar isOpen_nil h.maxProcesses) _,
        { h with maxProcesses := .of_not_mem hfresh _ }⟩
    · exact ⟨_, _, rfl, gives_setting (gives_scalar isOpen_nil h.requestTimeout) _,
        { h with requestTimeout := .of_not_mem hfresh _ }⟩
    · exact ⟨_, _, rfl, gives_setting (gives_scalar isOpen_nil h.killGrace) _,
        { h with killGrace := .of_not_mem hfresh _ }⟩
    · obtain ⟨ts, hts, hexcludes⟩ := h.excludes
      exact ⟨_, _, rfl, gives_setting (gives_texts isOpen_nil List.not_mem_nil hts) _,
        { h with excludes := hexcludes ▸ .of_not_mem hfresh _ }⟩
    · exact ⟨_, _, rfl, gives_setting (gives_scalar isOpen_nil h.disableIndex) _,
        { h with disableIndex := .of_not_mem hfresh _ }⟩
    · exact ⟨_, _, rfl, gives_setting (gives_scalar isOpen_nil h.searchLimit) _,
        { h with searchLimit := .of_not_mem hfresh _ }⟩
    · exact ⟨_, _, rfl, gives_setting (gives_scalar isOpen_nil h.contextLines) _,
        { h with contextLines := .of_not_mem hfresh _ }⟩
    · exact ⟨_, _, rfl,
        (gives_record follows_toolFields isOpen_nil List.not_mem_nil (by decide) h.tools).bind
          (gives_pure _),
        { h with tools := .of_not_mem hfresh _ }⟩
    · exact ⟨_, _, rfl,
        (gives_record follows_logFields isOpen_nil List.not_mem_nil (by decide) h.log).bind
          (gives_pure _),
        { h with log := .of_not_mem hfresh _ }⟩

/-- A file overrides the defaults and not the settings in use. -/
theorem parse_eq_ok {data : Bytes} {c : Config} (hread : Yaml.firstDocument data = .ok (some d))
    (h : IsOverridden {} d c)
    (haliased : d.IsPlain ∨ parse data ≠ .error (.syntaxError overused)) :
    parse data = .ok c := by
  obtain ⟨l, ⟨⟨entries, hcontent, -⟩, -⟩, -⟩ := id h
  have htarget : d.target d.root = d.node d.root := by simp [Yaml.Document.target, hcontent]
  have hway : d.wayInto d.root [] = [] := by
    simp [Yaml.Document.wayInto, Yaml.Node.isAlias, hcontent]
  rw [IsOverridden, ← htarget] at h
  refine decode_eq_ok hread ?_ haliased
  refine gives_record (fun _ => ?_) isOpen_nil List.not_mem_nil (by decide) h
  rw [hway]
  exact follows_fields

/-! ### Files -/

theorem ofFile_of_parse {path : Text} {data : Bytes} {c : Config} (h : parse data = .ok c) :
    ofFile path data = c.problem?.elim (.ok c) fun p => .error (.unusable path p) := by
  simp only [ofFile, h, Except.mapError, bind, Except.bind]
  cases c.problem? <;> rfl

theorem problem?_of_ofFile {path : Text} {data : Bytes} {c : Config}
    (h : ofFile path data = .ok c) : c.problem? = none := by
  cases hparse : parse data with
  | error e =>
    rw [ofFile, hparse] at h
    cases h
  | ok c' =>
    rw [ofFile_of_parse hparse] at h
    cases hproblem : c'.problem? with
    | none =>
      rw [hproblem] at h
      cases h
      exact hproblem
    | some p =>
      rw [hproblem] at h
      cases h

/-- Settings come from the first file that can be read, and from no other one. They are usable
whenever they are returned. A file that mentions distinct settings with values of their kinds
replaces exactly these, if the result is usable.

The last hypothesis is there because decoding counts its visits and refuses a document in which too
many of them were made through aliases. How many are too many depends on the whole document, also on
parts that no setting is read from; a document without aliases is never refused for this, and one
with aliases is read as said unless it is refused for just this. -/
theorem files_override_what_they_mention (fs : FileSystem) (dir : Text) :
    (∀ data, fs.read (Path.join dir "callscope.yml") = .ok data →
      source? fs dir = some (Path.join dir "callscope.yml", data)) ∧
    (∀ e, fs.read (Path.join dir "callscope.yml") = .error e →
      source? fs dir = (fs.read (Path.join dir "callscope.yaml")).toOption.map
        (Path.join dir "callscope.yaml", ·)) ∧
    (∀ fs', source? fs' dir = source? fs dir → load fs' dir = load fs dir) ∧
    (source? fs dir = none → load fs dir = .ok {}) ∧
    (∀ c, load fs dir = .ok c → c.problem? = none) ∧
    ∀ path data d c, source? fs dir = some (path, data) →
      Yaml.firstDocument data = .ok (some d) → IsOverridden {} d c →
      d.IsPlain ∨ parse data ≠ .error (.syntaxError overused) →
      load fs dir = c.problem?.elim (.ok c) fun p => .error (.unusable path p) := by
  refine ⟨fun data hread => ?_, fun e hread => ?_, fun fs' hsame => ?_, fun hnone => ?_,
    fun c hload => ?_, fun path data d c hsource hread h haliased => ?_⟩
  · simp [source?, fileNames, hread, Except.toOption]
  · simp [source?, fileNames, hread, Except.toOption]
  · rw [load, load, hsame]
  · rw [load, hnone]
  · rw [load] at hload
    cases hsource : source? fs dir with
    | none =>
      rw [hsource] at hload
      cases hload
      rfl
    | some f =>
      rw [hsource] at hload
      exact problem?_of_ofFile hload
  · rw [load, hsource]
    exact ofFile_of_parse (parse_eq_ok hread h haliased)

/-- A file in which an alias is the key of a setting. -/
def sample : Bytes :=
  "fanout: 8\nkillGrace: 250ms\nexcludes: [&name grep]\ntools:\n  *name : rg\n".toUTF8.toList

def sampleFiles : FileSystem where
  tree := .folder [("d", .folder [("callscope.yml", .file 0o644 sample)])]

open Yaml.Tag in
def sampleDocument : Yaml.Document where
  root := 0
  nodes := #[
    ⟨1, mapping, .mapping [(1, 2), (3, 4), (5, 6), (8, 9)]⟩,
    ⟨1, text, .scalar "fanout"⟩, ⟨1, int, .scalar "8"⟩,
    ⟨2, text, .scalar "killGrace"⟩, ⟨2, text, .scalar "250ms"⟩,
    ⟨3, text, .scalar "excludes"⟩, ⟨3, sequence, .sequence [7]⟩, ⟨3, text, .scalar "grep"⟩,
    ⟨4, text, .scalar "tools"⟩, ⟨5, mapping, .mapping [(10, 11)]⟩,
    ⟨5, [], .reference "name" 7⟩, ⟨5, text, .scalar "rg"⟩]

def sampleConfig : Config where
  fanout := 8
  killGrace := 250000000
  excludes := some ["grep"]
  tools.grep := "rg"

theorem isOverridden_sample : IsOverridden {} sampleDocument sampleConfig := by
  have hroot : sampleDocument.IsRecord keys (sampleDocument.node 0)
      [("fanout", 2), ("killGrace", 4), ("excludes", 6), ("tools", 9)] :=
    ⟨⟨_, rfl, by decide, by decide⟩, by decide, by decide⟩
  have htools : sampleDocument.IsRecord toolKeys (sampleDocument.target 9) [("grep", 11)] :=
    ⟨⟨_, rfl, by decide, by decide⟩, by decide, by decide⟩
  have htexts : sampleDocument.IsTexts 6 ["grep"] := ⟨_, rfl, by decide⟩
  have hfanout : sampleDocument.int? 2 = some 8 := by decide
  have hgrace : sampleDocument.duration? 4 = some 250000000 := by decide
  have hgrep : sampleDocument.text? 11 = some "rg" := by decide
  exact ⟨_, hroot, rfl, rfl, rfl, hfanout, rfl, rfl, hgrace, ⟨_, htexts, rfl⟩, rfl, rfl, rfl,
    ⟨_, htools, rfl, hgrep, rfl⟩, rfl⟩

theorem sample_is_loaded : load sampleFiles "/d" = .ok sampleConfig := by
  obtain ⟨hyml, -, -, -, -, hoverride⟩ := files_override_what_they_mention sampleFiles "/d"
  have hread : Yaml.firstDocument sample = .ok (some sampleDocument) := by decide +kernel
  have hparse : parse sample ≠ .error (.syntaxError overused) := by decide +kernel
  exact hoverride _ _ _ _ (hyml sample rfl) hread isOverridden_sample (.inr hparse)

end Config

end CallerTree
