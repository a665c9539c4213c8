import CallerTree.Proofs.Lockstep

/-!
# Requests that are interrupted

A request whose context ends returns nothing rather than a part of its tree. The context is looked
at in many places: while the files are enumerated, before a command, between the files of a scan,
after a locator has failed and on entering a function. Some failures that it causes are caught. The
index is given up when it cannot be built, and a locator that fails makes room for the next one. So
it has to be shown that whoever catches such a failure looks at the context soon enough.

## Where the context's failure comes out

A locator alone may fail in any way when the context ends (`Run.Anyhow`): it wraps the failure of
its command or of the enumeration, or reports what the interrupted tool said. The chain looks again
after every failure and fails with the cause itself (`Run.ByCause`). Everything above the chain
passes that on, and the first thing done after the attempt to build the index is a look.

## What the undisturbed request is

A tool can end the request that issued it, and may answer differently when the request ends too
early. `Toolbox.undisturbed` leaves the tools only their outcomes. What they answer may depend on
the files, but on nothing else of the world (`Toolbox.IsDeterministic`); the list of files for the
index is written by both requests, and what a tool does to the files it does for both.

## Main results

* `Run.follows_command` — a command that is interrupted fails, and answers the same otherwise
* `Locator.follows_tryEach` — a chain fails with the context's cause, or with all its locators
* `Engine.interrupted_requests_are_all_or_nothing` — whole requests
-/

namespace CallerTree

open Run (Follows FailsOver CanEnd Anyhow ByCause)

/-! ### Tools -/

/-- The same tools, without the power to end a request. -/
def Toolbox.undisturbed (tools : Toolbox) : Toolbox :=
  { tools with answer := fun w c => { tools.answer w c with cancels := false } }

theorem Run.follows_check_anyhow {P : Failure → Prop} : Follows P Anyhow check check :=
  Follows.check.of_imp (fun _ h => h) fun _ _ _ => trivial

theorem Reply.outcomeIn_eq (r : Reply) (κ : Context) :
    r.outcomeIn κ = r.outcome ∨ ∃ c f, κ.IsOver c ∧ r.outcomeIn κ = .error f := by
  unfold outcomeIn
  split
  · rename_i c f hover hinterrupted
    exact .inr ⟨c, f, hover, rfl⟩
  · exact .inl rfl

/-- A command that succeeds has the outcome of the tool. -/
theorem Run.outcome_of_command {tools : Toolbox} {c : Command} {w v : World} {out : Output}
    (h : Run.command tools c w = .ok out v) : ∃ u, (tools.answer u c).outcome = .ok out := by
  simp only [Run.command, Run.bind_ok_iff] at h
  obtain ⟨_, _, -, _, _, -, u, _, -, _, _, -, u', _, -, h⟩ := h
  refine ⟨u, ?_⟩
  obtain heq | ⟨_, f, -, hf⟩ := (tools.answer u c).outcomeIn_eq u'.context
  · rw [heq] at h
    exact (Run.ofExcept_ok_iff.mp h).1
  · rw [hf] at h
    exact (Run.throw_ok_iff.mp h).elim

/-- A command that the context leaves time for answers the same. -/
theorem Run.follows_command {tools : Toolbox} (htools : tools.IsDeterministic) (c : Command) :
    Follows (fun _ => True) Anyhow (command tools.undisturbed c) (command tools c) := by
  unfold command
  refine Follows.bind (.modifies (fun _ => rfl) fun _ _ h => h) fun _ =>
    follows_check_anyhow.bind fun _ => ?_
  intro w₀ w hlive hfiles
  refine ⟨_, _, _, _, rfl, rfl, ?_, fun _ _ => trivial, ?_⟩
  · simpa [Toolbox.undisturbed] using hlive
  · -- Both requests see the same files, so the tools give them the same reply.
    simp only [Toolbox.undisturbed, hlive, htools w₀ w c hfiles]
    obtain heq | ⟨cause, f, hover, hf⟩ := (tools.answer w c).outcomeIn_eq
      (if (tools.answer w c).cancels then w.context.cancel else w.context)
    · exact .inl ⟨heq, congrArg (tools.answer w c).filesAfter hfiles⟩
    · exact .inr ⟨cause, f, hover, hf, trivial⟩

/-! ### Enumeration and scan -/

namespace SourceTree

theorem follows_files (tree : SourceTree) (includeHeaders : Bool) :
    Follows (fun _ => True) Anyhow (tree.files includeHeaders) (tree.files includeHeaders) := by
  refine Follows.attempt_bind (?_ : Follows (fun _ => True) ByCause _ _) ?_ ?_
  · refine Follows.files.bind fun fs => ?_
    split
    · exact .throw trivial
    · exact Follows.checkedCongruence.collect _
  · intro r _
    cases r with
    | ok paths => exact .pure _
    | error e => exact .throw trivial
  · exact fun _ _ _ => .throw trivial

end SourceTree

namespace Locator

/-- Two locators of one kind, of which the first is undisturbed. -/
def Matches (tree : SourceTree) (l₀ l : Locator) : Prop :=
  l₀.backend = l.backend ∧
    ∀ name, Follows (fun _ => True) Anyhow (l₀.locate name tree) (l.locate name tree)

variable {tree : SourceTree}

theorem matches_scan (includeHeaders : Bool) :
    Matches tree (scan includeHeaders) (scan includeHeaders) := by
  refine ⟨rfl, fun name => Follows.bind (.ofExcept fun _ _ => trivial) fun _ =>
    Follows.attempt_bind (tree.follows_files includeHeaders) ?_ ?_⟩
  · intro r _
    cases r with
    | ok paths =>
      refine (Follows.checkedCongruence.scanFiles name paths).of_imp (fun _ h => h) ?_
      exact fun _ _ _ => trivial
    | error e => exact .throw trivial
  · exact fun _ _ _ => .throw trivial

variable {tools : Toolbox}

theorem matches_grep (htools : tools.IsDeterministic) (tool : Text) (includeHeaders : Bool) :
    Matches tree (grep tools.undisturbed tool includeHeaders) (grep tools tool includeHeaders) := by
  refine ⟨rfl, fun name => Follows.attempt_bind (Run.follows_command htools _) ?_ ?_⟩
  · intro r _
    cases r with
    | error e => exact .throw trivial
    | ok out =>
      dsimp only
      split
      · exact .pure _
      · split
        · exact .throw trivial
        · split
          · exact (Follows.note _ _ _).bind fun _ => .pure _
          · exact .pure _
  · exact fun _ _ _ => .throw trivial

theorem matches_index (htools : tools.IsDeterministic) (tool : Text) :
    Matches tree (index tools.undisturbed tool) (index tools tool) := by
  refine ⟨rfl, fun name => Follows.attempt_bind (Run.follows_command htools _) ?_ ?_⟩
  · intro r _
    cases r with
    | error e => exact .look_bind (.throw trivial) fun _ => .throw trivial
    | ok out =>
      dsimp only
      split
      · exact .throw trivial
      · split
        · exact .throw trivial
        · exact (Follows.congruence.readIndexLines _).bind fun _ => .pure _
  · exact fun c e _ => .look_bind (.throw trivial)

/-! ### Chains -/

/-- The failure of a chain of which every locator failed, in turn and in a live context. -/
def IsChainFailure (ls : List Locator) (tree : SourceTree) (f : Failure) : Prop :=
  ∃ name es, f = .under ("locate " ++ name) (.join es) ∧
    List.Forall₂ (fun l e => CanEnd (l.locate name tree) (.error e)) ls es

theorem backend_chain {ls₀ ls : List Locator} (h : List.Forall₂ (Matches tree) ls₀ ls) :
    (chain ls₀).backend = (chain ls).backend := by
  cases h with
  | nil => rfl
  | cons hl => exact hl.1

/-- Trying the locators that are left, when those in `tried` have failed. -/
theorem follows_tryEach {name : Text} {ls₀ ls : List Locator}
    (h : List.Forall₂ (Matches tree) ls₀ ls) :
    ∀ {tried : List Locator} {failures : List Failure},
      List.Forall₂ (fun l e => CanEnd (l.locate name tree) (.error e)) tried failures →
      tried ++ ls₀ ≠ [] →
        Follows (IsChainFailure (tried ++ ls₀) tree) ByCause (tryEach name tree failures ls₀)
          (tryEach name tree failures ls) := by
  induction h with
  | nil =>
    intro tried failures htried hne
    rw [List.append_nil] at hne ⊢
    have hsome : failures.isEmpty = false := by
      cases htried with
      | nil => exact absurd rfl hne
      | cons => rfl
    rw [tryEach, hsome]
    exact .throw ⟨name, failures, rfl, htried⟩
  | @cons l₀ l ls₀ ls hl _ ih =>
    intro tried failures htried hne
    obtain ⟨hbackend, hlocate⟩ := hl
    rw [tryEach, tryEach, hbackend]
    refine (hlocate name).attempt_bind ?_ ?_
    · intro r hr
      cases r with
      | ok os => exact (Follows.count _).bind fun _ => .pure _
      | error e =>
        refine .look_bind ?_ fun c => .throw rfl
        refine (Follows.count _).bind fun _ => (Follows.note _ _ _).bind fun _ => ?_
        have htried' := List.rel_append htried (.cons hr .nil)
        have hrest := ih htried' (by simp)
        rwa [List.append_assoc, List.singleton_append] at hrest
    · exact fun c e _ => .look_bind (.throw rfl)

end Locator

/-! ### The hierarchy -/

namespace Hierarchy

/-- Nothing is resolved in a context that has ended. -/
theorem failsOver_build (l : Locator) (tree : SourceTree) (limit : Int) (name : Text) (c : Cause) :
    FailsOver ByCause c (build l tree limit name) := by
  unfold build resolve
  cases limit.toNat with
  | zero => exact FailsOver.check.bind _
  | succ levels => exact FailsOver.check.bind _

end Hierarchy

/-! ### The engine -/

theorem FunctionName.validate_cases (name : Text) :
    (∃ detail, validate name = .error (.because .invalidRequest detail)) ∨
      validate name = .ok () := by
  unfold validate
  split
  · exact .inr rfl
  · exact .inl ⟨_, rfl⟩

theorem SourceTree.ofRoot_cases (fs : FileSystem) (root : Text) (excludes : List Text) :
    (∃ detail, ofRoot fs root excludes = .error (.because .invalidRequest detail)) ∨
      ∃ tree, ofRoot fs root excludes = .ok tree := by
  unfold ofRoot
  dsimp only
  split
  · exact .inl ⟨_, rfl⟩
  · split
    · exact .inl ⟨_, rfl⟩
    · split
      · exact .inl ⟨_, rfl⟩
      · split
        · exact .inl ⟨_, rfl⟩
        · exact .inr ⟨_, rfl⟩

namespace Engine

/-- The same engine, with tools that cannot end a request. -/
def undisturbed (e : Engine) : Engine := { e with tools := e.tools.undisturbed }

@[simp] theorem options_undisturbed (e : Engine) : e.undisturbed.options = e.options := rfl

@[simp] theorem isInstalled_undisturbed (e : Engine) :
    e.undisturbed.tools.isInstalled = e.tools.isInstalled := rfl

variable {e : Engine}

theorem follows_buildIndex (htools : e.tools.IsDeterministic) (tree : SourceTree) :
    Follows (fun _ => True) Anyhow (e.undisturbed.buildIndex tree) (e.buildIndex tree) := by
  refine (tree.follows_files true).attempt_bind ?_ ?_
  · intro r _
    cases r with
    | error f => exact (Follows.count _).bind fun _ => .throw_bind trivial _ _
    | ok paths =>
      refine (Follows.pure paths).bind fun paths => Follows.files.bind fun fs => ?_
      dsimp only
      split
      · refine Follows.bind (.modifies (fun _ => rfl) fun _ _ _ => rfl) fun _ => ?_
        refine (Run.follows_command htools _).attempt_bind ?_ ?_
        · intro r _
          cases r with
          | error f =>
            exact (Follows.count _).bind fun _ => (Follows.note _ _ _).bind fun _ => .throw trivial
          | ok out =>
            dsimp only
            split
            · refine (Follows.count _).bind fun _ => (Follows.note _ _ _).bind fun _ => ?_
              exact .throw trivial
            · exact (Follows.count _).bind fun _ => Follows.note _ _ _
        · exact fun _ _ _ => .count_bind (.note_bind (.throw trivial))
      · exact (Follows.count _).bind fun _ => .throw_bind trivial _ _
  · exact fun _ _ _ => .count_bind (FailsOver.bind (.throw trivial) _)

theorem matches_locators (htools : e.tools.IsDeterministic) (tree : SourceTree) (indexed : Bool) :
    List.Forall₂ (Locator.Matches tree) (e.undisturbed.locators indexed) (e.locators indexed) := by
  refine List.rel_append (List.rel_append ?_ ?_) (.cons (Locator.matches_scan _) .nil)
  · split
    · exact .cons (Locator.matches_index htools _) .nil
    · exact .nil
  · rw [isInstalled_undisturbed, options_undisturbed]
    split
    · exact .cons (Locator.matches_grep htools _ _) .nil
    · exact .nil

/-- Whatever becomes of the index, the request goes on, and what comes next notices that the context
has ended. -/
theorem follows_hasIndex_bind {β : Type} {P : Failure → Prop} (htools : e.tools.IsDeterministic)
    (tree : SourceTree) {k₀ k : Bool → Run β}
    (hk : ∀ indexed, Follows P ByCause (k₀ indexed) (k indexed))
    (hover : ∀ indexed c, FailsOver ByCause c (k indexed)) :
    Follows P ByCause (e.undisturbed.hasIndex tree >>= k₀) (e.hasIndex tree >>= k) := by
  unfold hasIndex
  rw [options_undisturbed]
  split
  · exact (Follows.pure false).bind hk
  · simp only [bind_assoc]
    refine (follows_buildIndex htools tree).attempt_bind ?_ ?_
    · intro r _
      cases r with
      | ok _ => exact (Follows.pure true).bind hk
      | error f => exact (Follows.note _ _ _).bind fun _ => (Follows.pure false).bind hk
    · intro c f _
      simp only [bind_assoc, pure_bind]
      exact .note_bind (hover false c)

theorem follows_noteMissing (e : Engine) {P : Failure → Prop} {cut : Cause → Failure → Prop} :
    Follows P cut e.undisturbed.noteMissing e.noteMissing := by
  unfold noteMissing
  rw [isInstalled_undisturbed, options_undisturbed]
  split
  · exact .note _ _ _
  · exact .pure _

theorem failsOver_noteMissing_bind (e : Engine) {β : Type} {cut : Cause → Failure → Prop}
    {c : Cause} {f : Unit → Run β} (hf : FailsOver cut c (f ())) :
    FailsOver cut c (e.noteMissing >>= f) := by
  unfold noteMissing
  split
  · exact .note_bind hf
  · exact hf

/-- A lookup follows the undisturbed one, and fails with the failures of all locators if the context
is live. -/
theorem follows_locate (htools : e.tools.IsDeterministic) (tree : SourceTree) (indexed : Bool)
    (name : Text) :
    Follows (Locator.IsChainFailure (e.undisturbed.locators indexed) tree) ByCause
      ((Locator.chain (e.undisturbed.locators indexed)).locate name tree)
      ((Locator.chain (e.locators indexed)).locate name tree) :=
  Locator.follows_tryEach (matches_locators htools tree indexed) .nil (by simp [locators])

/-- The failure of a lookup in which all locators of the engine failed, while the context was
live. -/
def IsLookupFailure (e : Engine) (tree : SourceTree) (f : Failure) : Prop :=
  ∃ indexed, Locator.IsChainFailure (e.undisturbed.locators indexed) tree f

theorem follows_resolveIn (htools : e.tools.IsDeterministic) (tree : SourceTree) (function : Text)
    (limit : Int) :
    Follows (e.IsLookupFailure tree) ByCause (e.undisturbed.resolveIn tree function limit)
      (e.resolveIn tree function limit) := by
  simp only [resolveIn, ready, locator, bind_assoc, pure_bind]
  refine follows_hasIndex_bind htools tree (fun indexed => ?_) fun indexed c => ?_
  · rw [Locator.backend_chain (matches_locators htools tree indexed)]
    refine e.follows_noteMissing.bind fun _ => (Follows.note _ _ _).bind fun _ => ?_
    have hbuild := Follows.checkedCongruence.build _ _ (follows_locate htools tree indexed) limit
      function
    exact hbuild.of_imp (fun _ hf => ⟨indexed, hf⟩) fun _ _ hcut => hcut
  · exact e.failsOver_noteMissing_bind
      (.note_bind (Hierarchy.failsOver_build _ tree limit function c))

/-! ### Whole requests -/

/-- With a valid name and depth it depends on the directory whether a request is accepted. -/
theorem accept_eq {e : Engine} {function basePath : Text} {limit : Int} {w : World}
    (hname : FunctionName.validate function = .ok ()) (hlimit : 0 ≤ limit) :
    e.accept function basePath limit w =
      Run.ofExcept (SourceTree.ofRoot w.files basePath e.options.excludes) w := by
  unfold accept
  rw [hname, if_neg (by omega)]
  rfl

/-- An accepted request is resolved. -/
theorem answer_eq {e : Engine} {function basePath : Text} {limit : Int} {tree : SourceTree}
    {w : World} (hname : FunctionName.validate function = .ok ()) (hlimit : 0 ≤ limit)
    (htree : SourceTree.ofRoot w.files basePath e.options.excludes = .ok tree) :
    e.answer function basePath limit w = e.resolveIn tree function limit w :=
  Run.bind_of_ok (htree ▸ accept_eq hname hlimit) _

/-- The files alone decide whether a request is refused, which is before anything is done, or
accepted. -/
theorem refused_or_accepted (e : Engine) (function basePath : Text) (limit : Int)
    (fs : FileSystem) :
    (∃ detail, ∀ w, w.files = fs → e.accept function basePath limit w =
      Run.ofExcept (.error (.because .invalidRequest detail)) w) ∨
    ∃ tree, FunctionName.validate function = .ok () ∧ 0 ≤ limit ∧
      SourceTree.ofRoot fs basePath e.options.excludes = .ok tree := by
  obtain ⟨detail, hname⟩ | hname := FunctionName.validate_cases function
  · refine .inl ⟨detail, fun w _ => ?_⟩
    unfold accept
    rw [hname]
    rfl
  · by_cases hlimit : limit < 0
    · refine .inl ⟨"max depth must not be negative: " ++ Text.ofInt limit, fun w _ => ?_⟩
      unfold accept
      rw [hname, if_pos hlimit]
      rfl
    · obtain ⟨detail, htree⟩ | ⟨tree, htree⟩ :=
        SourceTree.ofRoot_cases fs basePath e.options.excludes
      · refine .inl ⟨detail, fun w hw => ?_⟩
        rw [accept_eq hname (by omega), hw, htree]
      · exact .inr ⟨tree, hname, by omega, htree⟩

/-- A request is refused before anything is done, or it is resolved. -/
theorem answer_cases (e : Engine) (function basePath : Text) (limit : Int) (w : World) :
    (∃ detail, e.answer function basePath limit w =
      Run.ofExcept (.error (.because .invalidRequest detail)) w) ∨
    ∃ tree, FunctionName.validate function = .ok () ∧ 0 ≤ limit ∧
      SourceTree.ofRoot w.files basePath e.options.excludes = .ok tree ∧
      e.answer function basePath limit w = e.resolveIn tree function limit w := by
  obtain ⟨detail, hrefused⟩ | ⟨tree, hname, hlimit, htree⟩ :=
    e.refused_or_accepted function basePath limit w.files
  · exact .inl ⟨detail, Run.bind_of_error (hrefused w rfl) _⟩
  · exact .inr ⟨tree, hname, hlimit, htree, answer_eq hname hlimit htree⟩

/-- Counting and measuring a request do not change how it ends. -/
theorem exists_conclude_eq_tallied (r : Except Failure CallTree) (v : World) :
    ∃ tallies, conclude r v = Run.ofExcept r { v with tallies } := by
  cases r with
  | error f => exact ⟨_, rfl⟩
  | ok t => exact ⟨_, rfl⟩

theorem exists_hierarchy_eq_tallied {e : Engine} {function basePath : Text} {limit : Int}
    {r : Except Failure CallTree} {w v : World}
    (h : e.answer function basePath limit w = Run.ofExcept r v) :
    ∃ tallies, e.hierarchy function basePath limit w = Run.ofExcept r { v with tallies } := by
  unfold hierarchy
  rw [Run.bind_of_ok (Run.attempt_of_eq h)]
  exact exists_conclude_eq_tallied r v

theorem exists_hierarchy_eq {e : Engine} {function basePath : Text} {limit : Int}
    {r : Except Failure CallTree} {w v : World}
    (h : e.answer function basePath limit w = Run.ofExcept r v) :
    ∃ v', e.hierarchy function basePath limit w = Run.ofExcept r v' ∧ v'.context = v.context := by
  obtain ⟨tallies, h⟩ := exists_hierarchy_eq_tallied h
  exact ⟨{ v with tallies }, h, rfl⟩

/-- **All or nothing.** Whenever the context of an accepted request ends, and whether by itself or
by a tool, the request returns the tree of the undisturbed request, or it fails; and then

* the context has ended, and its cause is the failure, or
* a lookup has failed in a live context, with all locators, and the undisturbed request fails in the
  same way. -/
theorem interrupted_requests_are_all_or_nothing {e : Engine} {function basePath : Text}
    {limit : Int} {tree : SourceTree} {w : World} (htools : e.tools.IsDeterministic)
    (hname : FunctionName.validate function = .ok ()) (hlimit : 0 ≤ limit)
    (htree : SourceTree.ofRoot w.files basePath e.options.excludes = .ok tree) :
    (∃ t v v₀, e.hierarchy function basePath limit w = .ok t v ∧
      e.undisturbed.hierarchy function basePath limit { w with context := .live } = .ok t v₀) ∨
    ∃ f v, e.hierarchy function basePath limit w = .error f v ∧
      ((∃ c, v.context.IsOver c ∧ f = .cause c) ∨
        e.IsLookupFailure tree f ∧ ∃ v₀,
          e.undisturbed.hierarchy function basePath limit { w with context := .live } =
            .error f v₀) := by
  obtain ⟨r₀, v₀, r, v, hr₀, hr, -, hfails, hend⟩ :=
    follows_resolveIn htools tree function limit { w with context := .live } w rfl rfl
  rw [← answer_eq hname hlimit htree] at hr
  rw [← options_undisturbed] at htree
  have hanswer₀ := answer_eq (w := { w with context := .live }) hname hlimit htree
  rw [← hanswer₀] at hr₀
  obtain ⟨u, hu, hcontext⟩ := exists_hierarchy_eq hr
  obtain ⟨u₀, hu₀, -⟩ := exists_hierarchy_eq hr₀
  obtain ⟨rfl, -⟩ | ⟨c, f, hover, rfl, rfl⟩ := hend
  · cases r with
    | ok t => exact .inl ⟨t, u, u₀, hu, hu₀⟩
    | error f => exact .inr ⟨f, u, hu, .inr ⟨hfails f rfl, u₀, hu₀⟩⟩
  · exact .inr ⟨_, u, hu, .inl ⟨c, hcontext ▸ hover, rfl⟩⟩

/-- An engine with a text search that finds one line, if it is given the time. -/
def slowSearch : Engine where
  tools := {
    answer := fun _ _ => {
      outcome := .ok { stdout := "/src/a.c:3:  f();\n".toUTF8.toList }
      interrupted := some (.message "killed") }
    isInstalled := fun _ => true }
  options := { disableIndex := true }

/-- A file in which `g` calls `f`. -/
def oneCall : FileSystem where
  tree := .folder [("src", .folder [
    ("a.c", .file 0o644 "void g()\n\x7b\n  f();\n\x7d\n".toUTF8.toList)])]

/-- The deadline passes while the text search is running. The failure of the search is not what the
request fails with. -/
theorem deadline_during_search :
    ∃ c v t v₀, slowSearch.hierarchy "f" "/src" 2
        { files := oneCall, context := .ending 2 .deadline } = .error (.cause c) v ∧
      v.context.IsOver c ∧
      slowSearch.undisturbed.hierarchy "f" "/src" 2 { files := oneCall } = .ok t v₀ ∧
      t.size = 2 := by
  have hname : FunctionName.validate "f" = .ok () := eq_ok_of_toOption (by decide +kernel)
  have hlimit : (0 : Int) ≤ 2 := by decide
  have htree : SourceTree.ofRoot oneCall "/src" [] = .ok ⟨"/src", []⟩ :=
    eq_ok_of_toOption (by decide +kernel)
  have hundisturbed : (Run.result? (slowSearch.undisturbed.hierarchy "f" "/src" 2)
      { files := oneCall }).map (·.size) = some 2 := by decide +kernel
  have hinterrupted : Run.result? (slowSearch.hierarchy "f" "/src" 2)
      { files := oneCall, context := .ending 2 .deadline } = none := by decide +kernel
  simp only [Option.map_eq_some_iff, Run.result?_eq_some_iff] at hundisturbed
  obtain ⟨t, ⟨v₀, ht⟩, hsize⟩ := hundisturbed
  obtain ⟨u, v, -, hu, -⟩ | ⟨f, v, hf, ⟨c, hover, rfl⟩ | ⟨-, u₀, hu₀⟩⟩ :=
    interrupted_requests_are_all_or_nothing (e := slowSearch)
      (w := { files := oneCall, context := .ending 2 .deadline }) (fun _ _ _ _ => rfl) hname hlimit
      htree
  · rw [Run.result?_eq_some_iff.mpr ⟨v, hu⟩] at hinterrupted
    cases hinterrupted
  · exact ⟨c, v, t, v₀, hf, hover, ht, hsize⟩
  · rw [ht] at hu₀
    cases hu₀

end Engine

end CallerTree
