import CallerTree.Proofs.Failures
import CallerTree.Proofs.NameForm
import CallerTree.Proofs.Tasks
import CallerTree.Proofs.Walk

/-!
# Requests that are refused

A request that is out of order is refused with a cause of its own, `Cause.invalidRequest`. The same
cause can come up much later: the scan refuses a name that does not make a pattern, and it is handed
names that nobody has checked. This module shows that it does not get that far. So the cause says
exactly that the request was out of order, and then nothing has been done.

## Kinds of failures

Between a lookup and the answer a failure is wrapped and joined with others. A property of failures
that this does not lead out of, and that the failures of the engine's own making have, is a kind
(`Failure.IsKind`). If the failures of the tools are of a kind, then so is every failure of a
request that is in order (`Engine.kind_of_hierarchy_error`), and every failure that gets to the top
when the lookups are made concurrently (`Task.Steps.isOfKind`).

## Main definitions

* `Engine.IsInvalid` — a request that is out of order, without the checks
* `Failure.IsKind`, `Toolbox.FailsWith` — kinds of failures

## Main results

* `Engine.invalid_requests_leave_no_trace`
-/

namespace CallerTree

/-! ### Requests that are out of order -/

theorem SourceTree.exists_ofRoot_iff {fs : FileSystem} {root : Text} {excludes : List Text} :
    (∃ tree, ofRoot fs root excludes = .ok tree) ↔
      Path.isAbsolute root = true ∧ (∃ e, fs.stat root = .ok e ∧ e.isFolder = true) ∧
        ∀ p ∈ excludes, Glob.isValid p = true := by
  simp only [ofRoot_eq_ok_iff, exists_and_left, exists_eq, and_true]

/-- A request that is out of order, for one of the reasons for which it can be. -/
inductive Engine.IsInvalid (e : Engine) (fs : FileSystem) (function basePath : Text) (limit : Int) :
    Prop
  | name (h : ¬ FunctionName.IsScoped function)
  | limit (h : limit < 0)
  | empty (h : basePath = [])
  | relative (h : Path.isAbsolute basePath = false)
  | missing {reason : Text} (h : fs.stat basePath = .error reason)
  | notFolder {entry : Entry} (h : fs.stat basePath = .ok entry) (hentry : entry.isFolder = false)
  | exclude {p : Text} (hp : p ∈ e.options.excludes) (h : Glob.isValid p = false)

namespace Engine

variable {e : Engine} {function basePath : Text} {limit : Int} {w : World}

theorem not_isInvalid_iff {fs : FileSystem} :
    ¬ e.IsInvalid fs function basePath limit ↔
      FunctionName.validate function = .ok () ∧ 0 ≤ limit ∧
        ∃ tree, SourceTree.ofRoot fs basePath e.options.excludes = .ok tree := by
  rw [FunctionName.validate_eq_ok_iff, SourceTree.exists_ofRoot_iff]
  constructor
  · intro h
    refine ⟨by_contra fun hname => h (.name hname), by_contra fun hlimit => h (.limit (by omega)),
      ?_, ?_, fun p hp => ?_⟩
    · exact Bool.of_not_eq_false fun hrelative => h (.relative hrelative)
    · cases hstat : fs.stat basePath with
      | error reason => exact absurd (.missing hstat) h
      | ok entry =>
        exact ⟨entry, rfl, Bool.of_not_eq_false fun hentry => h (.notFolder hstat hentry)⟩
    · exact Bool.of_not_eq_false fun hbad => h (.exclude hp hbad)
  · rintro ⟨hname, hlimit, habsolute, ⟨entry, hstat, hfolder⟩, hexcludes⟩ h
    cases h with
    | name h => exact h hname
    | limit h => omega
    | empty h =>
      rw [h] at habsolute
      cases habsolute
    | relative h => simp [h] at habsolute
    | missing h => simp [h] at hstat
    | notFolder h hentry =>
      rw [h] at hstat
      cases hstat
      simp [hentry] at hfolder
    | exclude hp h => simp [hexcludes _ hp] at h

/-- A request that is out of order is refused, and that is counted. Nothing else happens. -/
theorem hierarchy_of_isInvalid (h : e.IsInvalid w.files function basePath limit) :
    ∃ detail, e.hierarchy function basePath limit w =
      .error (.because .invalidRequest detail)
        { w with tallies := w.tallies ++ [.resolve .invalid] } := by
  obtain ⟨detail, hanswer⟩ | ⟨tree, hname, hlimit, htree, -⟩ :=
    e.answer_cases function basePath limit w
  · refine ⟨detail, ?_⟩
    have houtcome : outcomeOf (.error (.because .invalidRequest detail) : Except Failure CallTree) =
        .invalid := by simp [outcomeOf]
    unfold hierarchy
    rw [Run.bind_of_ok (Run.attempt_of_eq hanswer), conclude, houtcome]
    rfl
  · exact absurd h (not_isInvalid_iff.mpr ⟨hname, hlimit, tree, htree⟩)

end Engine

/-! ### Kinds of failures -/

/-- The failures of the engine's own making are of this kind, and wrapping and joining does not lead
out of it. -/
structure Failure.IsKind (Q : Failure → Prop) : Prop where
  ending : ∀ f : Failure, f.IsEnding → Q f
  message : ∀ t, Q (.message t)
  unavailable : ∀ detail, Q (.because .indexUnavailable detail)
  under : ∀ lead f, Q f → Q (.under lead f)
  join : ∀ fs, (∀ f ∈ fs, Q f) → Q (.join fs)

/-- What the tools fail with is of this kind. -/
structure Toolbox.FailsWith (tools : Toolbox) (Q : Failure → Prop) : Prop where
  outcome : ∀ w c f, (tools.answer w c).outcome = .error f → Q f
  interrupted : ∀ w c f, (tools.answer w c).interrupted = some f → Q f

section Kinds

open Run

variable {Q : Failure → Prop} {tools : Toolbox} {tree : SourceTree} {name : Text} {w : World}

theorem Toolbox.FailsWith.of_isFailure (htools : tools.FailsWith Q) (hQ : Failure.IsKind Q)
    {f : Failure} (h : tools.IsFailure f) : Q f := by
  cases h with
  | ending h => exact hQ.ending f h
  | outcome h => exact htools.outcome _ _ f h
  | interrupted h => exact htools.interrupted _ _ f h

namespace Locator

theorem IsGrepFailure.of_kind {f : Failure} (h : IsGrepFailure tools f)
    (htools : tools.FailsWith Q) (hQ : Failure.IsKind Q) : Q f := by
  cases h with
  | command h => exact hQ.under _ _ (htools.of_isFailure hQ h)
  | message t => exact hQ.message t

theorem ScanIsCut.of_kind {f : Failure} (h : ScanIsCut tree f) (hQ : Failure.IsKind Q) : Q f := by
  cases h with
  | reading h => exact hQ.ending f h
  | listing h =>
    obtain ⟨e, he, rfl⟩ := h
    exact hQ.under _ _ (hQ.under _ _ (hQ.ending e he))

theorem ScanIsGone.of_kind {f : Failure} {fs : FileSystem} (h : ScanIsGone tree f fs)
    (hQ : Failure.IsKind Q) : Q f := by
  obtain ⟨_, rfl, reason, rfl, -⟩ := h
  exact hQ.under _ _ (hQ.under _ _ (hQ.message reason))

/-- A chain fails with a failure of the kind if all its locators do. -/
theorem ends_tryEach_kind (hQ : Failure.IsKind Q) {ls : List Locator}
    (hls : ∀ l ∈ ls, ∀ w : World, w.IsOrdinary → Ends (fun f _ => Q f) (l.locate name tree) w) :
    ∀ failures, (∀ f ∈ failures, Q f) → ∀ w : World, w.IsOrdinary →
      Ends (fun f _ => Q f) (tryEach name tree failures ls) w := by
  induction ls with
  | nil =>
    intro failures hfailures w hw
    rw [tryEach]
    split
    · exact .throw hw (hQ.message _)
    · exact .throw hw (hQ.under _ _ (hQ.join _ hfailures))
  | cons l ls ih =>
    intro failures hfailures w hw
    obtain ⟨hl, hls⟩ := List.forall_mem_cons.mp hls
    refine ends_tryEach_cons (Q := fun f _ => Q f)
      (fun c _ hv hover => hQ.ending _ (hover.isEnding hv))
      ((hl w hw).mono fun _ _ hf => .inr hf) fun f v hv hf => ?_
    refine ih hls _ (fun g hg => ?_) v hv
    rcases List.mem_append.mp hg with hg | hg
    · exact hfailures g hg
    · rw [List.mem_singleton.mp hg]
      exact hf

end Locator

namespace Engine

open Locator

variable {e : Engine} {function : Text}

/-- Every lookup of a harmless name fails with a failure of the kind. -/
theorem ends_locate_kind (hQ : Failure.IsKind Q) (htools : e.tools.FailsWith Q) (indexed : Bool)
    (hname : FunctionName.IsHarmless name) (hw : w.IsOrdinary) :
    Ends (fun f _ => Q f) ((chain (e.locators indexed)).locate name tree) w := by
  refine ends_tryEach_kind hQ (fun l hl w hw => ?_) [] (by simp) w hw
  simp only [locators, List.mem_append, List.mem_singleton] at hl
  obtain (hl | hl) | rfl := hl
  · split at hl
    · obtain rfl := List.mem_singleton.mp hl
      refine (ends_index e.tools _ name hw).mono fun f _ hf => ?_
      obtain ⟨-, hf⟩ | ⟨detail, rfl⟩ := hf
      · exact htools.of_isFailure hQ hf
      · exact hQ.unavailable detail
    · simp at hl
  · split at hl
    · obtain rfl := List.mem_singleton.mp hl
      exact (ends_grep e.tools _ name _ hw).mono fun f _ hf => hf.of_kind htools hQ
    · simp at hl
  · refine (ends_scan hname _ hw).mono fun f _ hf => ?_
    obtain ⟨-, hf⟩ | hf := hf
    · exact hf.of_kind hQ
    · exact hf.of_kind hQ

/-- A request that was accepted fails with a failure of the kind. -/
theorem ends_resolveIn_kind (hQ : Failure.IsKind Q) (htools : e.tools.FailsWith Q)
    (hname : FunctionName.validate function = .ok ()) (limit : Int) (hw : w.IsOrdinary) :
    Ends (fun f _ => Q f) (e.resolveIn tree function limit) w := by
  obtain ⟨indexed, u, hindexed, hu⟩ := e.exists_hasIndex tree hw
  exact ends_resolveIn (fun c _ hv hover => hQ.ending _ (hover.isEnding hv)) hindexed hu
    (FunctionName.isHarmless_of_validate hname)
    (fun _ hn _ hw => ends_locate_kind hQ htools indexed hn hw) limit

/-- A valid request fails with a failure of its tools or of its context, and `hQ` admits the latter.
-/
theorem kind_of_hierarchy_error (hQ : Failure.IsKind Q) (htools : e.tools.FailsWith Q)
    (hw : w.IsOrdinary) {basePath : Text} {limit : Int}
    (hvalid : ¬ e.IsInvalid w.files function basePath limit) {f : Failure} {v : World}
    (h : e.hierarchy function basePath limit w = .error f v) : Q f := by
  obtain ⟨hname, hlimit, tree, htree⟩ := not_isInvalid_iff.mp hvalid
  have hends : Ends (fun f _ => Q f) (e.resolveIn tree function limit) w :=
    ends_resolveIn_kind hQ htools hname limit hw
  obtain ⟨r, u, hr, -, hkind⟩ := hends
  obtain ⟨tallies, hhierarchy⟩ :=
    exists_hierarchy_eq_tallied ((answer_eq hname hlimit htree).trans hr)
  rw [h] at hhierarchy
  cases r with
  | ok t => cases hhierarchy
  | error g =>
    cases hhierarchy
    exact hkind f rfl

end Engine

/-! ### Lookups that are made concurrently -/

namespace Hierarchy.Task

variable {l : Locator} {limit : Int} {fanout : Nat} {x y : Task} {w' : World}

/-- The names to be looked up are harmless, and the failures that can get to the top are of the
kind. A group that has recorded a failure hides everything below it. -/
inductive IsOfKind (Q : Failure → Prop) : Task → Prop
  | waiting {levels ancestry target call} (h : FunctionName.IsHarmless call.caller) :
      IsOfKind Q (waiting levels ancestry target call)
  | started {levels ancestry target call} (h : FunctionName.IsHarmless call.caller) :
      IsOfKind Q (started levels ancestry target call)
  | entering {levels ancestry name site} (h : FunctionName.IsHarmless name) :
      IsOfKind Q (entering levels ancestry name site)
  | locating {levels ancestry name site} (h : FunctionName.IsHarmless name) :
      IsOfKind Q (locating levels ancestry name site)
  | recorded {ancestry name site f slots} (h : Q f) :
      IsOfKind Q (gathering ancestry name site (some f) slots)
  | gathering {ancestry name site slots} (h : ∀ x ∈ slots, IsOfKind Q x) :
      IsOfKind Q (gathering ancestry name site none slots)
  | done {t} : IsOfKind Q (done t)
  | failed {f} (h : Q f) : IsOfKind Q (failed f)
  | closed : IsOfKind Q closed

theorem IsOfKind.replace {ancestry : Ancestry} {name : Text} {site : Option Occurrence}
    {fault : Option Failure} {before after : List Task}
    (h : IsOfKind Q (.gathering ancestry name site fault (before ++ x :: after)))
    (hy : fault = none → IsOfKind Q x → IsOfKind Q y) :
    IsOfKind Q (.gathering ancestry name site fault (before ++ y :: after)) := by
  cases h with
  | recorded h => exact .recorded h
  | gathering h =>
    obtain ⟨hbefore, hrest⟩ := List.forall_mem_append.mp h
    obtain ⟨hx, hafter⟩ := List.forall_mem_cons.mp hrest
    exact .gathering (List.forall_mem_append.mpr
      ⟨hbefore, List.forall_mem_cons.mpr ⟨hy rfl hx, hafter⟩⟩)

/-- What one step keeps. Under a cancellation only the world matters. -/
theorem Step.isOfKind (hQ : Failure.IsKind Q)
    (hl : ∀ n, FunctionName.IsHarmless n → ∀ w : World, w.IsOrdinary →
      Ends (fun f _ => Q f) (l.locate n tree) w) {cancelled : Bool}
    (hstep : Step l tree limit fanout cancelled x w y w') :
    (cancelled = true ∨ IsOfKind Q x) → w.IsOrdinary →
      w'.IsOrdinary ∧ (cancelled = false → IsOfKind Q y) := by
  have hcheck : ∀ {w : World}, w.IsOrdinary → Ends (fun f _ => Q f) Run.check w := fun hw =>
    .check hw fun c v hv hover => hQ.ending _ (hover.isEnding hv)
  induction hstep with
  | leaf => exact fun _ hw => ⟨hw, fun _ => .done⟩
  | expand =>
    rintro (rfl | h) hw
    · exact ⟨hw, nofun⟩
    · cases h with
      | started h => exact ⟨hw, fun _ => .entering h⟩
  | refuse h =>
    intro _ hw
    obtain ⟨hv, hf⟩ := (hcheck hw).of_error h
    exact ⟨hv, fun _ => .failed hf⟩
  | refuse_cancelled => exact fun _ hw => ⟨hw, nofun⟩
  | terminate h => exact fun _ hw => ⟨(hcheck hw).of_ok h, fun _ => .done⟩
  | enter h =>
    rintro (h' | h') hw
    · cases h'
    · cases h' with
      | entering hname => exact ⟨(hcheck hw).of_ok h, fun _ => .locating hname⟩
  | locate h =>
    rintro (h' | h') hw
    · cases h'
    · cases h' with
      | locating hname =>
        refine ⟨(ends_expandedSites (hl _ hname _ hw)).of_ok h, fun _ => .gathering fun x hx => ?_⟩
        obtain ⟨call, hcall, rfl⟩ := List.mem_map.mp hx
        exact .waiting (isHarmless_of_expandedSites h call hcall)
  | locate_fails h =>
    rintro (h' | h') hw
    · cases h'
    · cases h' with
      | locating hname =>
        obtain ⟨hv, hf⟩ := (ends_expandedSites (hl _ hname _ hw)).of_error h
        exact ⟨hv, fun _ => .failed hf⟩
  | locate_cancelled _ hcontext =>
    exact fun _ hw => ⟨by rwa [World.IsOrdinary, hcontext], nofun⟩
  | locate_fails_cancelled _ hcontext =>
    exact fun _ hw => ⟨by rwa [World.IsOrdinary, hcontext], nofun⟩
  | start =>
    rintro (rfl | h) hw
    · exact ⟨hw, nofun⟩
    · refine ⟨hw, fun _ => h.replace fun _ hx => ?_⟩
      cases hx with
      | waiting h => exact .started h
  | @advance cancelled _ _ _ _ x _ _ fault before after _ ih =>
    -- The task goes on under a cancellation if its group has recorded a failure.
    rintro h hw
    have hx : (cancelled || fault.isSome) = true ∨ IsOfKind Q x := by
      rcases h with rfl | h
      · exact .inl rfl
      · cases h with
        | recorded => exact .inl (by simp)
        | gathering h => exact .inr (h x (by simp))
    obtain ⟨hw', hy⟩ := ih hx hw
    refine ⟨hw', fun hlive => ?_⟩
    have h := h.resolve_left (by simp [hlive])
    exact h.replace fun hfault _ => hy (by simp [hlive, hfault])
  | @record cancelled _ _ _ f _ fault before after =>
    rintro (rfl | h) hw
    · exact ⟨hw, nofun⟩
    · refine ⟨hw, fun _ => ?_⟩
      cases h with
      | recorded h => exact .recorded h
      | gathering h =>
        have hf := h (.failed f) (by simp)
        cases hf with
        | failed hf => exact .recorded hf
  | finish => exact fun _ hw => ⟨hw, fun _ => .done⟩
  | finish_fails =>
    rintro (rfl | h) hw
    · exact ⟨hw, nofun⟩
    · cases h with
      | recorded h => exact ⟨hw, fun _ => .failed h⟩

theorem Steps.isOfKind (hQ : Failure.IsKind Q)
    (hl : ∀ n, FunctionName.IsHarmless n → ∀ w : World, w.IsOrdinary →
      Ends (fun f _ => Q f) (l.locate n tree) w) {k : Nat}
    (hsteps : Steps l tree limit fanout k x w y w') (hx : IsOfKind Q x) (hw : w.IsOrdinary) :
    IsOfKind Q y ∧ w'.IsOrdinary := by
  induction hsteps with
  | refl => exact ⟨hx, hw⟩
  | tail _ hstep ih =>
    obtain ⟨hy, hv⟩ := ih hx hw
    obtain ⟨hu, hz⟩ := hstep.isOfKind hQ hl (.inr hy) hv
    exact ⟨hz rfl, hu⟩

end Hierarchy.Task

end Kinds

/-! ### The cause of a refusal -/

theorem Failure.isKind_not_has {c : Cause} (hcanceled : c ≠ .canceled) (hdeadline : c ≠ .deadline)
    (hindex : c ≠ .indexUnavailable) : IsKind fun f => f.has c = false where
  ending f hf := by
    cases hf with
    | canceled => simpa using hcanceled
    | deadline => simpa using hdeadline
  message t := by simp
  unavailable detail := by simpa using hindex
  under lead f hf := by simpa using hf
  join fs hfs := by simpa using hfs

namespace Engine

open Locator Hierarchy

/-- **Invalid requests are found out, and leave no trace.** Let the failures of the tools not tell
of an invalid request. Then the failure of a request does exactly if the request is out of order;
and it is refused then before anything is done but to count it. No lookup of a request that was
accepted fails like that, in whatever order the lookups are made. -/
theorem invalid_requests_leave_no_trace {e : Engine} {function basePath : Text} {limit : Int}
    {w : World} (htools : e.tools.FailsWith fun f => f.has .invalidRequest = false)
    (hw : w.IsOrdinary) :
    ((∃ f v, e.hierarchy function basePath limit w = .error f v ∧ f.has .invalidRequest = true) ↔
      e.IsInvalid w.files function basePath limit) ∧
    (e.IsInvalid w.files function basePath limit →
      ∃ f, e.hierarchy function basePath limit w =
        .error f { w with tallies := w.tallies ++ [.resolve .invalid] }) ∧
    ∀ tree indexed fanout k u v f, FunctionName.IsScoped function → u.IsOrdinary →
      Task.Steps (chain (e.locators indexed)) tree limit fanout k (Task.root limit function) u
        (.failed f) v → f.has .invalidRequest = false := by
  have hkind : Failure.IsKind fun f => f.has .invalidRequest = false :=
    Failure.isKind_not_has (by decide) (by decide) (by decide)
  refine ⟨⟨?_, fun hinvalid => ?_⟩, fun hinvalid => ?_, ?_⟩
  · rintro ⟨f, v, hfails, hhas⟩
    by_contra hvalid
    rw [kind_of_hierarchy_error hkind htools hw hvalid hfails] at hhas
    cases hhas
  · obtain ⟨detail, hrefused⟩ := hierarchy_of_isInvalid hinvalid
    exact ⟨_, _, hrefused, by simp⟩
  · obtain ⟨detail, hrefused⟩ := hierarchy_of_isInvalid hinvalid
    exact ⟨_, hrefused⟩
  · intro tree indexed fanout k u v f hname hu hsteps
    have hharmless :=
      FunctionName.isHarmless_of_validate (FunctionName.validate_eq_ok_iff.mpr hname)
    obtain ⟨hf, -⟩ := hsteps.isOfKind hkind
      (fun n hn w hw => ends_locate_kind hkind htools indexed hn hw) (.entering hharmless) hu
    cases hf with
    | failed hf => exact hf

theorem failsWith_vanishingRoot (Q : Failure → Prop) : vanishingRoot.tools.FailsWith Q := by
  constructor
  · intro w c f hf
    simp only [vanishingRoot] at hf
    split at hf <;> cases hf
  · intro w c f hf
    simp only [vanishingRoot] at hf
    split at hf <;> cases hf

/-- With a pattern that opens a class and does not close it, the request is refused. Without it the
request is accepted, and that it fails has another cause. -/
theorem open_class_is_refused :
    (∃ f, { vanishingRoot with options := { excludes := ["lib["] } }.hierarchy "a::~f" "/src" 1
        { files := oneCall, tallies := [.nodes 3] } =
      .error f { files := oneCall, tallies := [.nodes 3, .resolve .invalid] }) ∧
    ∃ f v, vanishingRoot.hierarchy "a::~f" "/src" 1 { files := oneCall } = .error f v ∧
      f.has .invalidRequest = false := by
  have hordinary : ∀ tallies, World.IsOrdinary { files := oneCall, tallies } := by
    simp [World.IsOrdinary, Context.cause?]
  constructor
  · refine (invalid_requests_leave_no_trace
      (e := { vanishingRoot with options := { excludes := ["lib["] } })
      (failsWith_vanishingRoot _) (hordinary _)).2.1 ?_
    exact .exclude (List.mem_singleton.mpr rfl) (by decide +kernel)
  · have hfails : (Run.failure? (vanishingRoot.hierarchy "a::~f" "/src" 1)
        { files := oneCall }).isSome = true := by decide +kernel
    obtain ⟨f, hf⟩ := Option.isSome_iff_exists.mp hfails
    obtain ⟨v, hf⟩ := Run.failure?_eq_some_iff.mp hf
    refine ⟨f, v, hf, Bool.of_not_eq_true fun hhas => ?_⟩
    have hinvalid := (invalid_requests_leave_no_trace (failsWith_vanishingRoot _)
      (hordinary [])).1.mp ⟨f, v, hf, hhas⟩
    refine not_isInvalid_iff.mpr ⟨?_, by decide, ⟨"/src", []⟩, ?_⟩ hinvalid
    · exact eq_ok_of_toOption (by decide +kernel)
    · exact eq_ok_of_toOption (by decide +kernel)

end Engine

end CallerTree
