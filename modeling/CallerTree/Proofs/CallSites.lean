import CallerTree.Proofs.Growth

/-!
# Call sites as a function of the name

A locator is a run, and in general its answer may depend on everything that happened before. The
call sites of a name are well defined when the answer is a function of the name
(`Locator.IsByName`). Then finding the call sites is one too (`exists_answers_callSites`): the files
read to find the enclosing functions are the same each time, whether or not they were read before.

## Main results

* `Hierarchy.answers_callsAmong` — the calls among occurrences, with their enclosing functions
* `Hierarchy.exists_answers_callSites` — call sites are a function of the name
* `Hierarchy.grown_callSites_of_build` — a resolved tree is grown from the call sites
-/

namespace CallerTree

/-- The locator answers as a function of the name, as long as the files are `fs` and the context is
live. -/
def Locator.IsByName (l : Locator) (tree : SourceTree) (fs : FileSystem) : Prop :=
  ∀ name, ∃ r, Run.Answers fs (l.locate name tree) r

/-- A locator that looks names up in a table. -/
def Locator.ofTable (table : List (Text × List Occurrence)) : Locator where
  backend := "table"
  locate name _ := pure ((table.lookup name).getD [])

theorem Locator.isByName_ofTable (table : List (Text × List Occurrence)) (tree : SourceTree)
    (fs : FileSystem) : (ofTable table).IsByName tree fs :=
  fun _ => ⟨_, .pure _⟩

namespace Hierarchy

open CallTree

variable (fs : FileSystem)

/-- The lines of the file that an occurrence names, if it can be read. -/
def linesIn (tree : SourceTree) (file : Text) : Option (List Text) :=
  (Locator.readSource fs (sourcePath tree.root file)).toOption

/-- What was kept of the files is what they hold. -/
def IsCacheOf (tree : SourceTree) (cache : FileCache) : Prop :=
  ∀ p ∈ cache, p.2 = linesIn fs tree p.1

/-- The function that an occurrence stands in, read off the files. -/
def callerIn (tree : SourceTree) (o : Occurrence) : Text :=
  if o.scope ≠ [] then Line.callerFromScope o.scope o.code
  else match linesIn fs tree o.file with
    | some lines => Line.enclosingFunction lines o.line
    | none => Line.unknownCaller

theorem answers_linesOf {tree : SourceTree} (o : Occurrence) {cache : FileCache}
    (hcache : IsCacheOf fs tree cache) :
    ∃ cache', IsCacheOf fs tree cache' ∧
      Run.Answers fs (linesOf tree o cache) (.ok (linesIn fs tree o.file, cache')) := by
  unfold linesOf
  split
  · rename_i file lines hfound
    have hfile : file = o.file := by simpa using List.find?_some hfound
    have hlines := hcache _ (List.mem_of_find?_eq_some hfound)
    rw [← hfile, ← hlines]
    exact ⟨cache, hcache, .pure _⟩
  · cases hread : Locator.readSource fs (sourcePath tree.root o.file) with
    | ok lines =>
      have hlines : linesIn fs tree o.file = some lines := by rw [linesIn, hread]; rfl
      rw [hlines]
      refine ⟨(o.file, some lines) :: cache, List.forall_mem_cons.mpr ⟨hlines.symm, hcache⟩,
        Run.Answers.files.bind ?_⟩
      rw [hread]
      exact .pure _
    | error e =>
      have hlines : linesIn fs tree o.file = none := by rw [linesIn, hread]; rfl
      rw [hlines]
      refine ⟨(o.file, none) :: cache, List.forall_mem_cons.mpr ⟨hlines.symm, hcache⟩,
        Run.Answers.files.bind ?_⟩
      rw [hread]
      exact (Run.Answers.note _ _ _).bind (.pure _)

theorem answers_callerOf {tree : SourceTree} (o : Occurrence) {cache : FileCache}
    (hcache : IsCacheOf fs tree cache) :
    ∃ cache', IsCacheOf fs tree cache' ∧
      Run.Answers fs (callerOf tree o cache) (.ok (callerIn fs tree o, cache')) := by
  unfold callerOf callerIn
  split
  · exact ⟨cache, hcache, .pure _⟩
  · obtain ⟨cache', hcache', hlines⟩ := answers_linesOf fs o hcache
    refine ⟨cache', hcache', hlines.bind ?_⟩
    cases linesIn fs tree o.file with
    | some lines => exact .pure _
    | none => exact .pure _

/-- The calls among occurrences, each with the function that it stands in. -/
def callsOf (tree : SourceTree) (name : Text) (os : List Occurrence) : List Call :=
  (os.filter fun o => (Line.classify name o.code).isCall).map fun o => ⟨o, callerIn fs tree o⟩

/-- What was read before makes no difference. -/
theorem answers_callsAmong_of_cache {tree : SourceTree} (name : Text) (os : List Occurrence) :
    ∀ cache, IsCacheOf fs tree cache →
      Run.Answers fs (callsAmong tree name cache os) (.ok (callsOf fs tree name os)) := by
  induction os with
  | nil => exact fun _ _ => .pure _
  | cons o os ih =>
    intro cache hcache
    rw [callsAmong, callsOf, List.filter_cons]
    split
    · obtain ⟨cache', hcache', hcaller⟩ := answers_callerOf fs o hcache
      rw [List.map_cons]
      exact hcaller.bind ((ih cache' hcache').bind (.pure _))
    · exact ih cache hcache

theorem answers_callsAmong (tree : SourceTree) (name : Text) (os : List Occurrence) :
    Run.Answers fs (callsAmong tree name [] os) (.ok (callsOf fs tree name os)) :=
  answers_callsAmong_of_cache fs name os [] (by simp [IsCacheOf])

variable {fs} {l : Locator} {tree : SourceTree}

theorem exists_answers_callSites (hl : l.IsByName tree fs) (name : Text) :
    ∃ r, Run.Answers fs (callSites l tree name) r := by
  obtain ⟨r, hr⟩ := hl name
  cases r with
  | error e => exact ⟨_, hr.bind_error _⟩
  | ok os =>
    exact ⟨_, hr.bind (answers_callsAmong fs tree name os)⟩

theorem answers_expandedSites {l : Locator} {name : Text} {calls : List Call}
    (h : Run.Answers fs (callSites l tree name) (.ok calls)) (depth : Nat) :
    Run.Answers fs (expandedSites l tree name depth) (.ok calls) :=
  h.bind ((Run.Answers.note _ _ _).bind (.pure _))

/-- The calls found when a function is expanded are its call sites. -/
theorem answers_callSites_of_expandedSites (hl : l.IsByName tree fs) {name : Text} {depth : Nat}
    {w w' : World} {calls : List Call} (hw : w.IsSteady fs)
    (h : expandedSites l tree name depth w = .ok calls w') :
    Run.Answers fs (callSites l tree name) (.ok calls) ∧ w'.IsSteady fs := by
  simp only [expandedSites, Run.bind_ok_iff, Run.pure_ok_iff] at h
  obtain ⟨calls', v, hcalls, _, v', hnote, rfl, rfl⟩ := h
  obtain ⟨r, hr⟩ := exists_answers_callSites hl name
  obtain ⟨rfl, hv⟩ := hr.eq_of_ok hw hcalls
  exact ⟨hr, (Run.Answers.note _ _ _ |>.eq_of_ok hv hnote).2⟩

theorem grown_callSites_of_build (hl : l.IsByName tree fs) {limit : Int} {name : Text}
    {w w' : World} {t : CallTree} (hw : w.IsSteady fs) (h : build l tree limit name w = .ok t w') :
    Grown (fun n calls => Run.Answers fs (callSites l tree n) (.ok calls)) limit limit.toNat [] name
      none t := by
  have hcheck : ∀ v v', v.IsSteady fs → Run.check v = .ok () v' → v'.IsSteady fs :=
    fun _ _ hv hv' => hv.check hv'
  have hsites : ∀ n d v calls v', v.IsSteady fs → expandedSites l tree n d v = .ok calls v' →
      Run.Answers fs (callSites l tree n) (.ok calls) ∧ v'.IsSteady fs :=
    fun _ _ _ _ _ hv hcalls => answers_callSites_of_expandedSites hl hv hcalls
  exact (grown_of_grow hcheck hsites limit.toNat [] name hw h).1

/-- Two ways to find call sites that answer alike grow the same tree. They need to do so only for a
set of names that holds the callers which are looked up. -/
theorem exists_answers_grow_both {P : Text → Prop} {sites sites' : Text → Nat → Run (List Call)}
    (h : ∀ name depth, P name → ∃ calls, Run.Answers fs (sites name depth) (.ok calls) ∧
      Run.Answers fs (sites' name depth) (.ok calls) ∧
        ∀ call ∈ calls, isExpanded name call = true → P call.caller)
    (limit : Int) (remaining : Nat) :
    ∀ (ancestry : Ancestry) (depth : Nat) (name : Text), P name → ∃ t,
      Run.Answers fs (grow Run.check sites limit remaining ancestry depth name) (.ok t) ∧
        Run.Answers fs (grow Run.check sites' limit remaining ancestry depth name) (.ok t) := by
  have hcheck := Run.Answers.check fs
  induction remaining with
  | zero => exact fun _ _ _ _ => ⟨_, hcheck.bind (.pure _), hcheck.bind (.pure _)⟩
  | succ remaining ih =>
    intro ancestry depth name hname
    rw [grow, grow]
    by_cases hcycle : ancestry.has name = true
    · rw [if_pos hcycle, if_pos hcycle]
      exact ⟨_, hcheck.bind (.pure _), hcheck.bind (.pure _)⟩
    · rw [if_neg hcycle, if_neg hcycle]
      obtain ⟨calls, hcalls, hcalls', hcallers⟩ := h name depth hname
      have hexpand : ∀ call ∈ calls, ∃ c, Run.Answers fs
          (expand (grow Run.check sites limit remaining (ancestry.extend name) (depth + 1)) name
            (depth + 1) call) (.ok c) ∧ Run.Answers fs
          (expand (grow Run.check sites' limit remaining (ancestry.extend name) (depth + 1)) name
            (depth + 1) call) (.ok c) := by
        intro call hcall
        unfold expand
        split
        · rename_i hexpanded
          obtain ⟨t, ht, ht'⟩ := ih (ancestry.extend name) (depth + 1) call.caller
            (hcallers call hcall hexpanded)
          exact ⟨_, ht.bind (.pure _), ht'.bind (.pure _)⟩
        · exact ⟨_, .pure _, .pure _⟩
      obtain ⟨callers, hmap, hmap'⟩ := Run.Answers.exists_mapM_both hexpand
      exact ⟨_, hcheck.bind (hcalls.bind (hmap.bind (.pure _))),
        hcheck.bind (hcalls'.bind (hmap'.bind (.pure _)))⟩

/-- Two functions that call each other, one of them from two lines. -/
def mutualCalls : List (Text × List Occurrence) :=
  [("f", [{ file := "a.c", line := 3, code := "f();", scope := "g" },
      { file := "a.c", line := 4, code := "f();", scope := "g" }]),
    ("g", [{ file := "a.c", line := 9, code := "g();", scope := "f" }])]

end Hierarchy

end CallerTree
