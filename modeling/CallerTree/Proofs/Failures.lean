import CallerTree.Proofs.Endings
import CallerTree.Proofs.Interruption
import CallerTree.Proofs.Names

/-!
# Causes that callers get to see

A failure carries its causes through everything that is wrapped around it. Two of them are only for
the engine itself: a missing index makes room for the text search, and an unreadable file is passed
over. This module follows both to the caller.

## Where they stop

An unreadable file is noted where it is met, and never becomes a failure. That the index is missing
is dropped when it cannot be built. When a lookup finds it missing, the chain of locators keeps the
failure, and joins it with the others if all locators fail. The scan comes last, and in a live
context it fails for one reason only: the root of the tree is gone. Tools can remove it while a
request is running.

## Main definitions

* `Failure.IsPlain`, `Toolbox.FailsPlainly` — failures without the two causes
* `Toolbox.IsFailure`, `Locator.IsGrepFailure`, `Locator.ScanIsCut` — what each step can fail with
* `Locator.IsLost` — the failure of a lookup whose root is gone

## Main results

* `Locator.ends_tryEach_cons` — one locator of a chain
* `Engine.isPlain_or_isLost` — the failures of a request
* `Engine.index_cause_escapes_iff` — when a caller sees one of the two causes
-/

namespace CallerTree

open Run (Ends)

/-! ### Tools -/

/-- The failure carries neither of the causes that only the engine itself has a use for. -/
structure Failure.IsPlain (f : Failure) : Prop where
  index : f.has .indexUnavailable = false
  file : f.has .fileUnreadable = false

theorem Failure.IsPlain.under {f : Failure} (h : f.IsPlain) (lead : Text) :
    (Failure.under lead f).IsPlain where
  index := by rw [has_under, h.index]
  file := by rw [has_under, h.file]

/-- The failures of the tools are plain. -/
structure Toolbox.FailsPlainly (tools : Toolbox) : Prop where
  outcome : ∀ w c f, (tools.answer w c).outcome = .error f → f.IsPlain
  interrupted : ∀ w c f, (tools.answer w c).interrupted = some f → f.IsPlain

/-- What a request fails with that has ended, if nothing is put around it. -/
inductive Failure.IsEnding : Failure → Prop
  | canceled : IsEnding (.cause .canceled)
  | deadline : IsEnding (.cause .deadline)

theorem Failure.IsEnding.isPlain {f : Failure} (h : f.IsEnding) : f.IsPlain := by
  cases h with
  | canceled => exact ⟨by decide, by decide⟩
  | deadline => exact ⟨by decide, by decide⟩

theorem Context.IsOver.isEnding {w : World} (hw : w.IsOrdinary) {c : Cause}
    (h : w.context.IsOver c) : (Failure.cause c).IsEnding := by
  obtain rfl | rfl := hw c h.cause?_eq
  · exact .canceled
  · exact .deadline

/-- What a command can fail with: the request has ended, or the tool says so, perhaps because it was
interrupted. -/
inductive Toolbox.IsFailure (tools : Toolbox) : Failure → Prop
  | ending {f : Failure} (h : f.IsEnding) : IsFailure tools f
  | outcome {w : World} {c : Command} {f : Failure} (h : (tools.answer w c).outcome = .error f) :
      IsFailure tools f
  | interrupted {w : World} {c : Command} {f : Failure}
      (h : (tools.answer w c).interrupted = some f) : IsFailure tools f

theorem Toolbox.FailsPlainly.isPlain {tools : Toolbox} (htools : tools.FailsPlainly) {f : Failure}
    (h : tools.IsFailure f) : f.IsPlain := by
  cases h with
  | ending h => exact h.isPlain
  | outcome h => exact htools.outcome _ _ f h
  | interrupted h => exact htools.interrupted _ _ f h

theorem Toolbox.isFailure_of_outcomeIn {tools : Toolbox} {w : World} {c : Command} {κ : Context}
    {f : Failure} (h : (tools.answer w c).outcomeIn κ = .error f) : tools.IsFailure f := by
  unfold Reply.outcomeIn at h
  split at h
  · rename_i hinterrupted
    cases h
    exact .interrupted hinterrupted
  · exact .outcome h

theorem Run.ends_command (tools : Toolbox) (c : Command) {w : World} (hw : w.IsOrdinary) :
    Ends (fun f _ => tools.IsFailure f) (command tools c) w := by
  unfold command
  refine .modify_bind ?_
  refine Ends.bind (.check hw fun _ _ hv hover => .ending (hover.isEnding hv)) fun _ v hv => ?_
  refine .get_bind (.modify_bind ⟨_, _, rfl, ?_, fun f hf => Toolbox.isFailure_of_outcomeIn hf⟩)
  unfold World.IsOrdinary
  dsimp only
  split
  · exact Context.ordinary_cancel hv
  · exact hv

/-- Steps that fail only because the context has ended. -/
theorem Run.Ends.cutShort : CheckedCongruence fun x _ =>
    ∀ w, w.IsOrdinary → Ends (fun f v => v.IsOver ∧ f.IsEnding) x w :=
  checkedCongruence fun c _ hv hover => ⟨⟨c, hover⟩, hover.isEnding hv⟩

/-! ### Locators -/

section Locators

variable {tree : SourceTree} {w : World}

namespace SourceTree

/-- The failure of an enumeration that the end of the context cut short. -/
def IsCut (tree : SourceTree) (f : Failure) : Prop :=
  ∃ e : Failure, e.IsEnding ∧ f = .under ("enumerate " ++ tree.root) e

/-- The failure of an enumeration whose root is gone. -/
def IsGone (tree : SourceTree) (f : Failure) (fs : FileSystem) : Prop :=
  ∃ reason, f = .under ("enumerate " ++ tree.root) (.message reason) ∧
    fs.lstat tree.root = .error reason

/-- The enumeration fails only if the context has ended, or the root is gone. -/
theorem ends_files (includeHeaders : Bool) (hw : w.IsOrdinary) :
    Ends (fun f v => v.IsOver ∧ tree.IsCut f ∨ tree.IsGone f v.files)
      (tree.files includeHeaders) w := by
  refine Ends.attempt_bind (?_ : Ends (fun f v => v.IsOver ∧ f.IsEnding ∨
    ∃ reason, f = .message reason ∧ v.files.lstat tree.root = .error reason) _ w)
    (fun paths v hv => .pure hv _) fun f v hv hf => ?_
  · refine .files_bind ?_
    split
    · rename_i reason hreason
      exact .throw hw (.inr ⟨reason, rfl, hreason⟩)
    · exact (Ends.cutShort.collect _ w hw).mono fun _ _ hcut => .inl hcut
  · refine .throw hv (hf.imp ?_ ?_)
    · rintro ⟨hover, hending⟩
      exact ⟨hover, f, hending, rfl⟩
    · rintro ⟨reason, rfl, hgone⟩
      exact ⟨reason, rfl, hgone⟩

end SourceTree

namespace Locator

/-- The failure of a scan that the end of the context cut short. -/
inductive ScanIsCut (tree : SourceTree) : Failure → Prop
  | reading {f : Failure} (h : f.IsEnding) : ScanIsCut tree f
  | listing {f : Failure} (h : tree.IsCut f) : ScanIsCut tree (.under "scan search" f)

/-- The failure of a scan whose root is gone. -/
def ScanIsGone (tree : SourceTree) (f : Failure) (fs : FileSystem) : Prop :=
  ∃ e, f = .under "scan search" e ∧ tree.IsGone e fs

/-- The scan for a harmless name fails only if the context has ended, or the root is gone. -/
theorem ends_scan {name : Text} (hname : FunctionName.IsHarmless name) (includeHeaders : Bool)
    (hw : w.IsOrdinary) :
    Ends (fun f v => v.IsOver ∧ ScanIsCut tree f ∨ ScanIsGone tree f v.files)
      ((scan includeHeaders).locate name tree) w := by
  simp only [scan, hname.checkPattern_eq]
  refine Ends.bind (.pure hw ()) fun _ w hw => ?_
  refine (tree.ends_files includeHeaders hw).attempt_bind (fun paths v hv => ?_) fun f v hv hf => ?_
  · refine (Ends.cutShort.scanFiles name paths v hv).mono fun _ _ ⟨hover, hending⟩ => ?_
    exact .inl ⟨hover, .reading hending⟩
  · refine .throw hv (hf.imp ?_ fun hgone => ⟨f, rfl, hgone⟩)
    rintro ⟨hover, hcut⟩
    exact ⟨hover, .listing hcut⟩

variable {tools : Toolbox}

/-- What the text search can fail with: its command has failed, or its tool was not content. -/
inductive IsGrepFailure (tools : Toolbox) : Failure → Prop
  | command {f : Failure} (h : tools.IsFailure f) : IsGrepFailure tools (.under "grep search" f)
  | message (t : Text) : IsGrepFailure tools (.message t)

theorem IsGrepFailure.isPlain {f : Failure} (h : IsGrepFailure tools f)
    (htools : tools.FailsPlainly) : f.IsPlain := by
  cases h with
  | command h => exact (htools.isPlain h).under _
  | message t => exact ⟨by simp, by simp⟩

theorem ends_grep (tools : Toolbox) (tool name : Text) (includeHeaders : Bool)
    (hw : w.IsOrdinary) :
    Ends (fun f _ => IsGrepFailure tools f) ((grep tools tool includeHeaders).locate name tree)
      w := by
  refine (Run.ends_command tools _ hw).attempt_bind (fun out v hv => ?_) fun f v hv hf => ?_
  · dsimp only
    split
    · exact .pure hv _
    · split
      · exact .throw hv (.message _)
      · split
        · exact .note_bind hv fun u hu _ => .pure hu _
        · exact .pure hv _
  · exact .throw hv (.command hf)

/-- The failure of a lookup for which there is no index. -/
def IsUnavailable (f : Failure) : Prop := ∃ detail, f = .because .indexUnavailable detail

/-- Once the request is over the tool's own failure comes back; before, it counts as unavailable. -/
theorem ends_index (tools : Toolbox) (tool name : Text) (hw : w.IsOrdinary) :
    Ends (fun f v => v.IsOver ∧ tools.IsFailure f ∨ IsUnavailable f)
      ((index tools tool).locate name tree) w := by
  refine (Run.ends_command tools _ hw).attempt_bind (fun out v hv => ?_) fun f v hv hf => ?_
  · dsimp only
    split
    · exact .throw hv (.inr ⟨_, rfl⟩)
    · split
      · exact .throw hv (.inr ⟨_, rfl⟩)
      · exact (Ends.congruence.readIndexLines _ v hv).bind fun _ u hu => .pure hu _
  · refine .look_bind hv (fun _ u hu _ => ?_) fun c u hu hover => ?_
    · exact .throw hu (.inr ⟨_, rfl⟩)
    · exact .throw hu (.inl ⟨⟨c, hover⟩, hf⟩)

end Locator

end Locators

namespace Locator

variable {tree : SourceTree} {name : Text} {P : Failure → World → Prop}

/-! ### Chains -/

/-- The next locator of a chain: when it fails, the chain fails with the cause for which the context
has ended, or goes on to the rest. -/
theorem ends_tryEach_cons {Q : Failure → FileSystem → Prop} {l : Locator} {ls : List Locator}
    {failures : List Failure} {w : World}
    (hcause : ∀ c v, v.IsOrdinary → v.context.IsOver c → P (.cause c) v)
    (hl : Ends (fun f v => v.IsOver ∨ Q f v.files) (l.locate name tree) w)
    (hrest : ∀ f v, v.IsOrdinary → Q f v.files →
      Ends P (tryEach name tree (failures ++ [f]) ls) v) :
    Ends P (tryEach name tree failures (l :: ls)) w := by
  rw [tryEach]
  refine hl.attempt_bind (fun os v hv => ?_) fun f v hv hf => ?_
  · exact .count_bind hv fun u hu _ => .pure hu _
  · refine .look_bind hv (fun hnot u hu hfiles => ?_) fun c u hu hover => ?_
    · refine .count_bind hu fun u' hu' hfiles' => .note_bind hu' fun u'' hu'' hfiles'' => ?_
      refine hrest f u'' hu'' ?_
      rw [hfiles'', hfiles', hfiles]
      exact hf.resolve_left hnot
    · exact .throw hu (hcause c u hu hover)

/-- The failure of a lookup that ended with a scan whose root was gone. -/
def IsLost (tree : SourceTree) (f : Failure) (fs : FileSystem) : Prop :=
  ∃ name failures gone, f = .under ("locate " ++ name) (.join (failures ++ [gone])) ∧
    ScanIsGone tree gone fs

/-- A lookup is cut short by the context, or it is lost; and a lost one tells of the index exactly
if the index was asked. -/
def IsCutOrLost (tree : SourceTree) (indexed : Bool) (f : Failure) (v : World) : Prop :=
  (∃ c, v.context.IsOver c ∧ f = .cause c) ∨
    IsLost tree f v.files ∧ f.has .indexUnavailable = indexed ∧ f.has .fileUnreadable = false

/-- What the locators before the scan have failed with. -/
structure IsTried (indexed : Bool) (failures : List Failure) : Prop where
  index : failures.any (·.has .indexUnavailable) = indexed
  file : failures.any (·.has .fileUnreadable) = false

variable {indexed : Bool} {failures : List Failure} {w : World}

theorem ScanIsGone.isPlain {f : Failure} {fs : FileSystem} (h : ScanIsGone tree f fs) :
    f.IsPlain := by
  obtain ⟨_, rfl, reason, rfl, -⟩ := h
  exact ⟨by simp, by simp⟩

theorem IsTried.concat (h : IsTried indexed failures) {f : Failure} (hf : f.IsPlain) :
    IsTried indexed (failures ++ [f]) where
  index := by simp [h.index, hf.index]
  file := by simp [h.file, hf.file]

theorem ends_tryEach_scan (hname : FunctionName.IsHarmless name) (includeHeaders : Bool)
    (htried : IsTried indexed failures) (hw : w.IsOrdinary) :
    Ends (IsCutOrLost tree indexed) (tryEach name tree failures [scan includeHeaders]) w := by
  refine ends_tryEach_cons (fun c _ _ hover => .inl ⟨c, hover, rfl⟩)
    ((ends_scan hname includeHeaders hw).mono fun _ _ hf => hf.imp_left And.left)
    fun f v hv hf => ?_
  have hsome : (failures ++ [f]).isEmpty = false := by simp
  have hall := htried.concat hf.isPlain
  rw [tryEach, hsome]
  refine .throw hv (.inr ⟨⟨name, failures, f, rfl, hf⟩, ?_, ?_⟩)
  · rw [Failure.has_under, Failure.has_join, hall.index]
  · rw [Failure.has_under, Failure.has_join, hall.file]

end Locator

namespace Engine

open Locator

variable {e : Engine} {tree : SourceTree} {name : Text} {indexed : Bool} {w : World}

/-- The text search, if it is installed, and the scan. -/
theorem ends_tryEach_searches (htools : e.tools.FailsPlainly)
    (hname : FunctionName.IsHarmless name) {failures : List Failure}
    (htried : IsTried indexed failures) (hw : w.IsOrdinary) :
    Ends (IsCutOrLost tree indexed) (tryEach name tree failures (e.locators false)) w := by
  change Ends _ (tryEach name tree failures ((if e.tools.isInstalled e.options.grepTool then
    [grep e.tools e.options.grepTool e.options.includeHeaders] else []) ++ _)) w
  split
  · refine ends_tryEach_cons (Q := fun f _ => f.IsPlain) (fun c _ _ hover => .inl ⟨c, hover, rfl⟩)
      ((ends_grep e.tools _ name _ hw).mono fun _ _ hf => .inr (hf.isPlain htools))
      fun f v hv hf => ?_
    exact ends_tryEach_scan hname _ (htried.concat hf) hv
  · exact ends_tryEach_scan hname _ htried hw

theorem ends_locate (htools : e.tools.FailsPlainly) (hname : FunctionName.IsHarmless name)
    (hw : w.IsOrdinary) :
    Ends (IsCutOrLost tree indexed) ((chain (e.locators indexed)).locate name tree) w := by
  cases indexed with
  | false => exact ends_tryEach_searches htools hname ⟨rfl, rfl⟩ hw
  | true =>
    refine ends_tryEach_cons (Q := fun f _ => IsUnavailable f)
      (fun c _ _ hover => .inl ⟨c, hover, rfl⟩)
      ((ends_index e.tools _ name hw).mono fun _ _ hf => hf.imp_left And.left) fun f v hv hf => ?_
    obtain ⟨detail, rfl⟩ := hf
    exact ends_tryEach_searches htools hname ⟨by simp, by simp⟩ hv

end Engine

/-! ### The hierarchy -/

namespace Hierarchy

variable {P : Failure → World → Prop} {l : Locator} {tree : SourceTree}

/-- A file that cannot be read is no failure: the function around the call site is unknown. -/
theorem ends_expandedSites {name : Text} {depth : Nat} {w : World}
    (h : Ends P (l.locate name tree) w) : Ends P (expandedSites l tree name depth) w := by
  refine Ends.bind (h.bind fun os => Ends.congruence.callsAmong name os []) fun calls v hv => ?_
  exact .note_bind hv fun u hu _ => .pure hu _

end Hierarchy

/-! ### The engine -/

namespace Engine

open Locator

variable {e : Engine} {tree : SourceTree} {w : World}

/-- No failure is excluded: the engine goes on without the index, whatever went wrong. -/
theorem ends_buildIndex (hw : w.IsOrdinary) :
    Ends (fun _ _ => True) (e.buildIndex tree) w := by
  refine (tree.ends_files true hw).attempt_bind (fun paths v hv => ?_) fun f v hv _ => ?_
  · refine (Ends.pure hv paths).bind fun paths v hv => .files_bind ?_
    dsimp only
    split
    · rename_i files _
      have hwritten : World.IsOrdinary { v with files } := hv
      refine .modify_bind ((Run.ends_command e.tools _ hwritten).attempt_bind (fun out u hu => ?_)
        fun f u hu _ => ?_)
      · dsimp only
        split
        · exact .count_bind hu fun x hx _ => .note_bind hx fun y hy _ => .throw hy trivial
        · refine .count_bind hu fun x hx _ => ?_
          exact ⟨.ok (), _, rfl, hx, fun f _ => trivial⟩
      · exact .count_bind hu fun x hx _ => .note_bind hx fun y hy _ => .throw hy trivial
    · exact .count_bind hv fun u hu _ => .throw_bind hu trivial
  · exact .count_bind hv fun u hu _ => .throw_bind hu trivial

/-- Whether there is an index or not, the request goes on. -/
theorem exists_hasIndex (e : Engine) (tree : SourceTree) (hw : w.IsOrdinary) :
    ∃ indexed v, e.hasIndex tree w = .ok indexed v ∧ v.IsOrdinary := by
  have hends : Ends (fun _ _ => False) (e.hasIndex tree) w := by
    unfold hasIndex
    split
    · exact .pure hw _
    · refine (ends_buildIndex hw).attempt_bind (fun _ v hv => .pure hv _) fun f v hv _ => ?_
      exact .note_bind hv fun u hu _ => .pure hu _
  obtain ⟨r, v, hr, hv, hnever⟩ := hends
  cases r with
  | ok indexed => exact ⟨indexed, v, hr, hv⟩
  | error f => exact (hnever f rfl).elim

/-- Once it is clear whether there is an index, the request fails as a lookup fails, or because the
context has ended. -/
theorem ends_resolveIn {P : Failure → World → Prop}
    (hcause : ∀ c v, v.IsOrdinary → v.context.IsOver c → P (.cause c) v) {indexed : Bool}
    {v : World} (hindexed : e.hasIndex tree w = .ok indexed v) (hv : v.IsOrdinary)
    {function : Text} (hname : FunctionName.IsHarmless function)
    (hlocate : ∀ name, FunctionName.IsHarmless name → ∀ w : World, w.IsOrdinary →
      Ends P ((chain (e.locators indexed)).locate name tree) w) (limit : Int) :
    Ends P (e.resolveIn tree function limit) w := by
  have hindexed : e.hasIndex tree w = Run.ofExcept (.ok indexed) v := hindexed
  have hrest : Ends P (do
      e.noteMissing
      Run.note .info "resolving call hierarchy"
        [("function", function), ("base_path", tree.root), ("max_depth", .int limit),
          ("backend", (chain (e.locators indexed)).backend)]
      Hierarchy.build (chain (e.locators indexed)) tree limit function) v := by
    have hbuild : ∀ u : World, u.IsOrdinary →
        Ends P (Hierarchy.build (chain (e.locators indexed)) tree limit function) u := by
      refine Hierarchy.build_of_harmless
        (P := fun x => ∀ u : World, u.IsOrdinary → Ends P x u)
        (Q := fun x => ∀ u : World, u.IsOrdinary → Ends P x u) hname (fun u hu => .pure hu _)
        (fun n d hn u hu => Hierarchy.ends_expandedSites (hlocate n hn u hu)) fun sites hsites => ?_
      exact (Ends.checkedCongruence hcause).grow sites sites hsites limit limit.toNat [] 0 function
    unfold noteMissing
    split
    · exact .note_bind hv fun u hu _ => .note_bind hu fun x hx _ => hbuild x hx
    · refine (Ends.pure hv ()).bind fun _ u hu => ?_
      exact .note_bind hu fun x hx _ => hbuild x hx
  simp only [resolveIn, ready, locator, bind_assoc, pure_bind]
  obtain ⟨r, u, hr, hu, hP⟩ := hrest
  exact ⟨r, u, by rw [Run.bind_of_ok hindexed, ← hr], hu, hP⟩

/-- The two ways in which a request fails. The failure is plain: it is the refusal of the request,
or the cause for which the context has ended. Or a lookup was lost. -/
theorem isPlain_or_isLost (htools : e.tools.FailsPlainly) (hw : w.IsOrdinary)
    {function basePath : Text} {limit : Int} {f : Failure} {v : World}
    (h : e.hierarchy function basePath limit w = .error f v) :
    (f.IsPlain ∧ ∀ tree, ¬ IsLost tree f v.files) ∨
    ∃ tree indexed u, SourceTree.ofRoot w.files basePath e.options.excludes = .ok tree ∧
      e.hasIndex tree w = .ok indexed u ∧ IsLost tree f v.files ∧
      f.has .indexUnavailable = indexed ∧ f.has .fileUnreadable = false := by
  obtain ⟨detail, hanswer⟩ | ⟨tree, hname, -, htree, hanswer⟩ :=
    e.answer_cases function basePath limit w
  · obtain ⟨tallies, hhierarchy⟩ := exists_hierarchy_eq_tallied hanswer
    rw [h] at hhierarchy
    cases hhierarchy
    refine .inl ⟨⟨by simp, by simp⟩, ?_⟩
    rintro tree ⟨name, failures, gone, hshape, -⟩
    cases hshape
  · obtain ⟨indexed, u, hindexed, hu⟩ := e.exists_hasIndex tree hw
    obtain ⟨r, x, hr, hx, hP⟩ := ends_resolveIn (P := IsCutOrLost tree indexed)
      (fun c _ _ hover => .inl ⟨c, hover, rfl⟩) hindexed hu
      (FunctionName.isHarmless_of_validate hname) (fun _ hn _ hv => ends_locate htools hn hv) limit
    obtain ⟨tallies, hhierarchy⟩ := exists_hierarchy_eq_tallied (hanswer.trans hr)
    rw [h] at hhierarchy
    cases r with
    | ok t => cases hhierarchy
    | error f' =>
      cases hhierarchy
      obtain ⟨c, hover, rfl⟩ | ⟨hlost, hhas⟩ := hP f rfl
      · refine .inl ⟨(hover.isEnding hx).isPlain, ?_⟩
        rintro tree ⟨name, failures, gone, hshape, -⟩
        cases hshape
      · exact .inr ⟨tree, indexed, u, htree, hindexed, hlost, hhas⟩

/-- **When an internal cause escapes.** Let the tools fail with plain failures only, whatever they
print, remove or interrupt. The failure of a request never tells of an unreadable file. It tells of
a missing index exactly if the index was built, and then a lookup failed with all locators because
the root had been removed. -/
theorem index_cause_escapes_iff (htools : e.tools.FailsPlainly) (hw : w.IsOrdinary)
    {function basePath : Text} {limit : Int} {f : Failure} {v : World}
    (h : e.hierarchy function basePath limit w = .error f v) :
    f.has .fileUnreadable = false ∧
      (f.has .indexUnavailable = true ↔
        ∃ tree u, SourceTree.ofRoot w.files basePath e.options.excludes = .ok tree ∧
          e.hasIndex tree w = .ok true u ∧ IsLost tree f v.files) := by
  obtain ⟨hplain, hnot⟩ | ⟨tree, indexed, u, htree, hindexed, hlost, hindex, hfile⟩ :=
    isPlain_or_isLost htools hw h
  · refine ⟨hplain.file, fun hhas => ?_, fun ⟨tree, _, _, _, hlost⟩ => absurd hlost (hnot tree)⟩
    rw [hplain.index] at hhas
    cases hhas
  · refine ⟨hfile, fun hhas => ?_, ?_⟩
    · obtain rfl := hindex.symm.trans hhas
      exact ⟨tree, u, htree, hindexed, hlost⟩
    · rintro ⟨tree', u', htree', htrue, -⟩
      obtain rfl := Except.ok.inj (htree.symm.trans htree')
      rw [hindexed] at htrue
      cases htrue
      exact hindex

/-- An engine whose index is built, and removes the sources when it is asked; there is no text
search. -/
def vanishingRoot : Engine where
  tools := {
    answer := fun w c =>
      if c.args.contains "-L" then
        { files := some (w.files.remove "/src"), outcome := .ok { exit := 1 } }
      else { outcome := .ok {} }
    isInstalled := fun _ => false }
  options := {}

/-- The root is removed during the request, and what the caller gets to see is the missing index. -/
theorem missing_index_shows_in_vanished_root :
    ∃ f v, vanishingRoot.hierarchy "f" "/src" 1 { files := oneCall } = .error f v ∧
      f.has .indexUnavailable = true ∧ IsLost ⟨"/src", []⟩ f v.files := by
  have hfails : (Run.failure? (vanishingRoot.hierarchy "f" "/src" 1) { files := oneCall }).map
      (·.has .indexUnavailable) = some true := by decide +kernel
  simp only [Option.map_eq_some_iff, Run.failure?_eq_some_iff] at hfails
  obtain ⟨f, ⟨v, hf⟩, hhas⟩ := hfails
  have htools : vanishingRoot.tools.FailsPlainly := by
    constructor
    · intro w c f hf
      simp only [vanishingRoot] at hf
      split at hf <;> cases hf
    · intro w c f hf
      simp only [vanishingRoot] at hf
      split at hf <;> cases hf
  have hordinary : World.IsOrdinary { files := oneCall } := by
    simp [World.IsOrdinary, Context.cause?]
  obtain ⟨tree, u, htree, -, hlost⟩ := (index_cause_escapes_iff htools hordinary hf).2.mp hhas
  have htree' : SourceTree.ofRoot oneCall "/src" [] = .ok ⟨"/src", []⟩ :=
    eq_ok_of_toOption (by decide +kernel)
  obtain rfl := Except.ok.inj (htree'.symm.trans htree)
  exact ⟨f, v, hf, hhas, hlost⟩

end Engine

end CallerTree
