import CallerTree.Proofs.Frame
import CallerTree.Proofs.LinePatterns
import CallerTree.Proofs.Walk

/-!
# The commands of a request

A request issues commands to the tools that are installed: one that builds the index, and for each
function that is looked up one to the index and one to the text search. What holds of all of them is
a frame that the request keeps to.

## Main definitions

* `Run.Issues` — all commands that a run issues have a property
* `Engine.IsOwn` — the commands that a request may issue

## Main results

* `Hierarchy.issues_build` — the commands of a resolution are those for harmless names
* `Engine.issues_hierarchy`, `Engine.IsOwn.mem_ownOptions` — the commands of a request, and what can
  be read as an option in them
* `Engine.discovered_names_inject_nothing` — names in commands and in patterns
-/

namespace CallerTree

variable {α β : Type}

namespace Run

/-- The run issues commands with the property `Q` only. -/
def Issues (Q : Command → Prop) (x : Run α) : Prop :=
  ∀ w, ∃ cs, (x.worldAfter w).issued = w.issued ++ cs ∧ ∀ c ∈ cs, Q c

end Run

open Run (Issues KeepsTo)

variable {Q : Command → Prop}

/-- The bound of commands with a property. -/
def Frame.issues (Q : Command → Prop) : Frame where
  admits w v := ∃ cs, v.issued = w.issued ++ cs ∧ ∀ c ∈ cs, Q c
  quiet hissued _ := ⟨[], by rw [hissued, List.append_nil], by simp⟩
  trans := by
    rintro u v w ⟨cs, hv, hcs⟩ ⟨ds, hw, hds⟩
    exact ⟨cs ++ ds, by rw [hw, hv, List.append_assoc], List.forall_mem_append.mpr ⟨hcs, hds⟩⟩

namespace Run

theorem issues_iff_keepsTo {x : Run α} : Issues Q x ↔ KeepsTo (.issues Q) x := Iff.rfl

theorem Issues.mono {Q' : Command → Prop} {x : Run α} (hx : Issues Q x) (h : ∀ c, Q c → Q' c) :
    Issues Q' x := by
  intro w
  obtain ⟨cs, hcs, hQ⟩ := hx w
  exact ⟨cs, hcs, fun c hc => h c (hQ c hc)⟩

theorem KeepsTo.count_issues (t : Tally) : KeepsTo (.issues Q) (Run.count t) :=
  fun _ => ⟨[], (List.append_nil _).symm, by simp⟩

/-- A command is recorded before anything else, and nothing else is recorded. -/
theorem KeepsTo.command_issues {tools : Toolbox} {c : Command} (hc : Q c) :
    KeepsTo (.issues Q) (Run.command tools c) :=
  .command fun _ => ⟨[c], rfl, by simpa using hc⟩

end Run

/-- The commands of a resolution are those for harmless names. -/
theorem Hierarchy.issues_build {l : Locator} {tree : SourceTree}
    (h : ∀ name, FunctionName.IsHarmless name → Issues Q (l.locate name tree)) (limit : Int)
    {name : Text} (hname : FunctionName.IsHarmless name) : Issues Q (build l tree limit name) :=
  build_of_harmless hname (KeepsTo.pure _)
    (fun n depth hn =>
      (KeepsTo.congruence _).expandedSites l l (Run.issues_iff_keepsTo.mp (h n hn)) depth)
    fun sites hsites => (KeepsTo.congruence _).grow sites sites hsites limit _ _ _ _

/-! ### Requests -/

namespace Engine

open FunctionName (IsHarmless)

/-- The commands that a request for the sources below `root` may issue. -/
inductive IsOwn (e : Engine) (root : Text) : Command → Prop
  /-- The index is built. -/
  | build : IsOwn e root { name := e.options.indexTool, args := ["-b", "-q", "-k"], dir := root }
  /-- The index is asked for a name. -/
  | ask {name : Text} (hname : IsHarmless name) :
      IsOwn e root
        { name := e.options.indexTool, args := ["-d", "-L", "-3", name], dir := root }
  /-- The files are searched for calls of a name. -/
  | search {name : Text} (hname : IsHarmless name) :
      IsOwn e root
        { name := e.options.grepTool, args := Locator.grepArgs e.options.includeHeaders name root }

variable {e : Engine} {tree : SourceTree}

theorem keepsTo_buildIndex : KeepsTo (.issues (e.IsOwn tree.root)) (e.buildIndex tree) := by
  refine ((KeepsTo.congruence _).listing tree true).attempt.bind fun r => ?_
  cases r with
  | error f => exact (KeepsTo.count_issues _).bind fun _ => .throw_bind _ _
  | ok paths =>
    refine (KeepsTo.pure paths).bind fun paths => KeepsTo.files.bind fun fs => ?_
    dsimp only
    split
    · refine KeepsTo.bind (.modifies fun _ => Frame.quiet _ rfl rfl) fun _ => ?_
      refine (KeepsTo.command_issues .build).attempt.bind fun r => ?_
      cases r with
      | error f =>
        exact (KeepsTo.count_issues _).bind fun _ => (KeepsTo.note _ _ _).bind fun _ => .throw _
      | ok out =>
        dsimp only
        split
        · exact (KeepsTo.count_issues _).bind fun _ => (KeepsTo.note _ _ _).bind fun _ => .throw _
        · exact (KeepsTo.count_issues _).bind fun _ => .note _ _ _
    · exact (KeepsTo.count_issues _).bind fun _ => .throw_bind _ _

theorem keepsTo_hasIndex : KeepsTo (.issues (e.IsOwn tree.root)) (e.hasIndex tree) := by
  unfold hasIndex
  split
  · exact .pure _
  · refine keepsTo_buildIndex.attempt.bind fun r => ?_
    cases r with
    | ok _ => exact .pure _
    | error f => exact (KeepsTo.note _ _ _).bind fun _ => .pure _

theorem issues_locate (indexed : Bool) {name : Text} (hname : IsHarmless name) :
    Issues (e.IsOwn tree.root) ((Locator.chain (e.locators indexed)).locate name tree) := by
  refine (KeepsTo.congruence _).tryEach (fun l hl => ⟨?_, fun _ => .count_issues _⟩) []
  refine (KeepsTo.congruence _).locators (fun c hc => .command_issues ?_) l hl
  obtain rfl | rfl := hc
  · exact .ask hname
  · exact .search hname

theorem keepsTo_noteMissing {F : Frame} : KeepsTo F e.noteMissing := by
  unfold noteMissing
  split
  · exact .note _ _ _
  · exact .pure _

theorem issues_resolveIn {function : Text} (hname : IsHarmless function) (limit : Int) :
    Issues (e.IsOwn tree.root) (e.resolveIn tree function limit) := by
  simp only [resolveIn, ready, locator, bind_assoc, pure_bind]
  refine keepsTo_hasIndex.bind fun indexed => keepsTo_noteMissing.bind fun _ => ?_
  refine (KeepsTo.note _ _ _).bind fun _ => ?_
  exact Hierarchy.issues_build (fun _ => issues_locate indexed) limit hname

/-- The options that requests write on their command lines. -/
def ownOptions (e : Engine) : List Text :=
  let building : List Text := ["-b", "-q", "-k"]
  let asking : List Text := ["-d", "-L", "-3"]
  building ++ asking ++ Locator.grepOptions e.options.includeHeaders

/-- What looks like an option on a command line is one that does not depend on the name. -/
theorem IsOwn.mem_ownOptions {root : Text} {c : Command} (h : e.IsOwn root c)
    (hroot : Path.isAbsolute root = true) {arg : Text} (harg : arg ∈ c.args)
    (hdash : arg.head? = some (.char '-')) : arg ∈ e.ownOptions := by
  cases h with
  | build => exact List.mem_append_left _ (List.mem_append_left _ harg)
  | @ask name hname =>
    change arg ∈ (["-d", "-L", "-3"] : List Text) ++ [name] at harg
    obtain harg | harg := List.mem_append.mp harg
    · exact List.mem_append_left _ (List.mem_append_right _ harg)
    · obtain rfl := List.mem_singleton.mp harg
      exact absurd hdash hname.head_ne
  | @search name hname =>
    obtain harg | harg := List.mem_append.mp harg
    · exact List.mem_append_right _ harg
    · obtain rfl | harg := List.mem_cons.mp harg
      · exact absurd hdash hname.head_callPattern_ne
      · obtain rfl := List.mem_singleton.mp harg
        rw [Path.isAbsolute, hdash] at hroot
        exact absurd hroot (by decide)

/-- The commands of a request are its own, below an absolute path. -/
theorem issues_hierarchy {function : Text} (hname : FunctionName.validate function = .ok ())
    (basePath : Text) (limit : Int) :
    Issues (fun c => ∃ root, Path.isAbsolute root = true ∧ e.IsOwn root c)
      (e.hierarchy function basePath limit) := by
  have hanswer : KeepsTo (.issues fun c => ∃ root, Path.isAbsolute root = true ∧ e.IsOwn root c)
      (e.answer function basePath limit) := by
    unfold answer accept
    rw [bind_assoc]
    refine (KeepsTo.ofExcept _).bind fun _ => ?_
    split
    · exact .throw_bind _ _
    · rw [bind_assoc]
      refine KeepsTo.files.bind fun fs => .ofExcept_bind fun tree htree => ?_
      obtain ⟨root, -, hroot⟩ := SourceTree.exists_root_of_ofRoot htree
      have hresolve : Issues (e.IsOwn tree.root) (e.resolveIn tree function limit) :=
        issues_resolveIn (FunctionName.isHarmless_of_validate hname) limit
      exact hresolve.mono fun c hc => ⟨tree.root, by rw [hroot]; rfl, hc⟩
  refine hanswer.attempt.bind fun r => (KeepsTo.count_issues _).bind fun _ => ?_
  exact (KeepsTo.ofExcept r).bind fun _ => (KeepsTo.count_issues _).bind fun _ => .pure _

/-- A name that turns up during a request means nothing but itself, whatever the tools print and
whatever the files hold. It is harmless when it is handed on. In a search pattern it stands for
itself, so that all patterns can be read and mean what the shapes of lines mean. On a command line
it does not look like an option. -/
theorem discovered_names_inject_nothing (e : Engine) {function : Text}
    (hvalid : FunctionName.validate function = .ok ()) (limit : Int) :
    (∀ l tree, Hierarchy.LooksUpOnly IsHarmless l tree limit function) ∧
      (∀ basePath w, ∃ cs,
        ((e.hierarchy function basePath limit).worldAfter w).issued = w.issued ++ cs ∧
          ∀ c ∈ cs, (∃ root, e.IsOwn root c) ∧
            ∀ arg ∈ c.args, arg.head? = some (.char '-') → arg ∈ e.ownOptions) ∧
      ∀ name, IsHarmless name →
        name ≠ [] ∧ (∀ g ∈ name, ∃ c, g = .char c ∧ FunctionName.isNameChar c = true) ∧
        name.head? ≠ some (.char '-') ∧
        (∃ x, SearchPattern.read (FunctionName.callPattern name) = some x ∧
          ∀ line, x.Finds line ↔
            ∃ before gaps after, line = before ++ name ++ gaps ++ "(" ++ after ∧
              ∀ g ∈ gaps, Text.isGap g = true) ∧
        ∀ shape : Line.Shape, ∃ x, SearchPattern.read (shape.text name) = some x ∧
          ∀ line, x.Finds line ↔ shape.isIn name line = true := by
  have hname := FunctionName.isHarmless_of_validate hvalid
  refine ⟨fun l tree => Hierarchy.looksUpOnly_isHarmless l limit hname, fun basePath w => ?_,
    fun name hname => ⟨hname.ne_nil, hname.chars, hname.head_ne, ?_, fun shape => ?_⟩⟩
  · obtain ⟨cs, hcs, hown⟩ := e.issues_hierarchy hvalid basePath limit w
    refine ⟨cs, hcs, fun c hc => ?_⟩
    obtain ⟨root, hroot, hown⟩ := hown c hc
    exact ⟨⟨root, hown⟩, fun arg harg hdash => hown.mem_ownOptions hroot harg hdash⟩
  · obtain ⟨x, hx, hfinds⟩ := Line.exists_read_callPattern (Line.isClear_of_isHarmless hname)
    exact ⟨x, hx, fun line => (hfinds line).trans Line.mentionsCall_iff⟩
  · exact shape.exists_read_text hname

/-- An engine whose index reports two callers of `f`, one of which looks like an option. -/
def hostileIndex : Engine where
  tools := {
    answer := fun _ c => {
      outcome := .ok { stdout :=
        if c.args.contains "f" then "a.c --help 3 f();\na.c g 7 f();\n".toUTF8.toList else [] } }
    isInstalled := fun tool => tool = "cscope" }
  options := {}

/-- A source tree without files. -/
def emptyTree : FileSystem where
  tree := .folder [("src", .folder [])]

/-- The caller that looks like an option gets on no command line, the other one does. A dot in a
name is a dot in the pattern for its calls. -/
theorem hostile_index_injects_nothing :
    FunctionName.validate "f" = .ok () ∧
      Hierarchy.LooksUpOnly IsHarmless (Locator.scan false) ⟨"/src", []⟩ 3 "f" ∧
      (∃ cs, ((hostileIndex.hierarchy "f" "/src" 3).worldAfter { files := emptyTree }).issued = cs ∧
        (∃ c ∈ cs, c.args = ["-d", "-L", "-3", "g"]) ∧
        ∀ c ∈ cs, (∃ root, hostileIndex.IsOwn root c) ∧
          ∀ arg ∈ c.args, arg.head? = some (.char '-') → arg ∈ hostileIndex.ownOptions) ∧
      IsHarmless "a.b" ∧
      ∃ x, SearchPattern.read (FunctionName.callPattern "a.b") = some x ∧
        x.Finds "return a.b (1);" ∧ ¬ x.Finds "return a-b (1);" := by
  have hvalid : FunctionName.validate "f" = .ok () := eq_ok_of_toOption (by decide +kernel)
  have hname : IsHarmless "a.b" := FunctionName.isHarmless_iff.mpr ⟨by decide, by decide⟩
  obtain ⟨hnames, hcommands, hpatterns⟩ := discovered_names_inject_nothing hostileIndex hvalid 3
  obtain ⟨cs, hcs, hown⟩ := hcommands "/src" { files := emptyTree }
  obtain ⟨-, -, -, ⟨x, hx, hfinds⟩, -⟩ := hpatterns "a.b" hname
  have hasked : ∃ c ∈ ((hostileIndex.hierarchy "f" "/src" 3).worldAfter
      { files := emptyTree }).issued, c.args = ["-d", "-L", "-3", "g"] := by decide +kernel
  refine ⟨hvalid, hnames _ _, ⟨_, rfl, hasked, ?_⟩, hname, x, hx, ?_, ?_⟩
  · rw [hcs]
    exact hown
  · exact (hfinds _).mpr ⟨"return ", " ", "1);", by decide, by decide⟩
  · rw [hfinds, ← Line.mentionsCall_iff]
    decide

end Engine

end CallerTree
