import CallerTree.Proofs.Interruption
import CallerTree.Proofs.OneAtATime

/-!
# Requests with several tasks

`Engine.hierarchy` expands the callers of a function one after the other and stops at the first
failure. An engine expands them in tasks, as many at a time as its `fanout` allows. So a request can
go in several ways. `Engine.Serves` relates the world in which it begins to its outcome and to the
world that it leaves.

## What is left to chance

Tasks come into play when the request was accepted and the engine is ready, and they are gone when
the outcome is counted. In between, a resolution with one task at a time comes to what the loop
comes to (`Hierarchy.Resolves.build_eq`). With more tasks, chance decides in which order the lookups
are made and, where several of them fail, which failure is returned. Whether there is a tree, which
one it is and which commands are issued for it is not left to chance (`Hierarchy.Resolves.eq_of_ok`,
`Hierarchy.Resolves.exists_perm_issued`), as long as what a lookup does is fixed by the files.

## Main definitions

* `Run.IsFixed` — what a run does depends on the files only, and it leaves them alone
* `Hierarchy.Resolves` — the ways in which a resolution can go
* `Engine.Serves` — the ways in which a request can go

## Main results

* `Hierarchy.Resolves.build_eq`, `Hierarchy.resolves_of_build` — the loop is one of the ways, and
  the only one with one task at a time
* `Hierarchy.Resolves.eq_of_ok`, `Hierarchy.Resolves.exists_perm_issued` — trees and commands
* `Engine.Serves.exists_returned` — the trees of requests are those that resolutions return
-/

namespace CallerTree

variable {α β : Type}

namespace Run

/-- What the run does is fixed by the files, and it leaves them as they are. -/
def IsFixed (fs : FileSystem) (x : Run α) : Prop := ∃ r t, Does fs x r t fs

namespace IsFixed

variable {fs : FileSystem}

protected theorem pure (a : α) : IsFixed fs (pure a) := ⟨_, _, .pure a⟩

protected theorem throw (f : Failure) : IsFixed fs (throw f : Run α) := ⟨_, _, .throw f⟩

protected theorem ofExcept (r : Except Failure α) : IsFixed fs (ofExcept r) := ⟨_, _, .ofExcept r⟩

protected theorem note (level : Level) (message : Text) (attributes : List (Text × Datum)) :
    IsFixed fs (note level message attributes) := ⟨_, _, .note level message attributes⟩

protected theorem count (t : Tally) : IsFixed fs (count t) := ⟨_, _, .count t⟩

protected theorem bind {x : Run α} {f : α → Run β} (hx : IsFixed fs x)
    (hf : ∀ a, IsFixed fs (f a)) : IsFixed fs (x >>= f) := by
  obtain ⟨r, t, hx⟩ := hx
  cases r with
  | error e => exact ⟨_, _, hx.bind_error f⟩
  | ok a =>
    obtain ⟨s, u, hf⟩ := hf a
    exact ⟨_, _, hx.bind hf⟩

theorem attempt {x : Run α} (hx : IsFixed fs x) : IsFixed fs (Run.attempt x) := by
  obtain ⟨r, t, hx⟩ := hx
  exact ⟨_, _, hx.attempt⟩

theorem of_does_bind {x : Run α} {f : α → Run β} {a : α} {t : Trace}
    (hx : Does fs x (.ok a) t fs) (hf : IsFixed fs (f a)) : IsFixed fs (x >>= f) := by
  obtain ⟨r, u, hf⟩ := hf
  exact ⟨_, _, hx.bind hf⟩

/-- Only the given files are read. -/
theorem files_bind {f : FileSystem → Run β} (hf : IsFixed fs (f fs)) : IsFixed fs (files >>= f) :=
  .of_does_bind .files hf

theorem congruence (fs : FileSystem) : FullCongruence fun x _ => IsFixed fs x where
  pure := .pure
  bind hx hf := hx.bind hf
  note := .note
  files := ⟨_, _, .files⟩
  check := ⟨_, _, .check⟩
  throw := .throw
  attempt := attempt
  look := ⟨_, _, .look⟩

end IsFixed

theorem ofExcept_inj {r s : Except Failure α} {w v : World} (h : ofExcept r w = ofExcept s v) :
    r = s ∧ w = v := by
  cases r <;> cases s <;> cases h <;> exact ⟨rfl, rfl⟩

end Run

/-- What a lookup does is fixed by the files and the name. -/
def Locator.IsFixed (l : Locator) (tree : SourceTree) (fs : FileSystem) : Prop :=
  ∀ name, Run.IsFixed fs (l.locate name tree)

theorem Locator.IsFixed.isByName {l : Locator} {tree : SourceTree} {fs : FileSystem}
    (h : l.IsFixed tree fs) : l.IsByName tree fs :=
  fun name => let ⟨_, _, hdoes⟩ := h name; ⟨_, .of_does hdoes⟩

namespace Hierarchy

variable {l : Locator} {tree : SourceTree} {fs : FileSystem} {limit fanout : Int} {name : Text}
  {w w' v v' : World} {r : Except Failure CallTree} {t : CallTree}

namespace Task

variable {x y z : Task} {m n k : Nat} {cancelled : Bool} {es : List Event}

/-- What can happen with few tasks at a time can happen with more. -/
theorem Step.mono (hmn : m ≤ n) (h : Step l tree limit m cancelled x w y w') :
    Step l tree limit n cancelled x w y w' := by
  induction h with
  | leaf h => exact .leaf h
  | expand h => exact .expand h
  | refuse h => exact .refuse h
  | refuse_cancelled => exact .refuse_cancelled
  | terminate h hstop => exact .terminate h hstop
  | enter h hnew => exact .enter h hnew
  | locate h => exact .locate h
  | locate_fails h => exact .locate_fails h
  | locate_cancelled hfiles hcontext => exact .locate_cancelled hfiles hcontext
  | locate_fails_cancelled hfiles hcontext => exact .locate_fails_cancelled hfiles hcontext
  | start before after hfree => exact .start before after (hfree.trans_le hmn)
  | advance before after _ ih => exact .advance before after ih
  | record before after => exact .record before after
  | finish callers => exact .finish callers
  | finish_fails h => exact .finish_fails h

theorem Steps.mono (hmn : m ≤ n) (h : Steps l tree limit m k x w y w') :
    Steps l tree limit n k x w y w' := by
  induction h with
  | refl => exact .refl
  | tail _ hstep ih => exact ih.tail (hstep.mono hmn)

/-- A resolution with one task at a time goes on from where steps have led. -/
theorem Steps.exists_append (hsteps : Steps l tree limit 1 k x w y v)
    (h : Course l tree limit y v es z w') : ∃ n, Steps l tree limit 1 n x w z w' := by
  induction h generalizing k with
  | refl => exact ⟨k, hsteps⟩
  | head hturn _ ih => exact ih (hsteps.tail hturn.step)

theorem exists_answers_of_isByName (hl : l.IsByName tree fs) (name : Text) (depth : Nat) :
    ∃ r, Run.Answers fs (expandedSites l tree name depth) r := by
  obtain ⟨r, hr⟩ := exists_answers_callSites hl name
  cases r with
  | ok calls => exact ⟨_, answers_expandedSites hr depth⟩
  | error e => exact ⟨_, hr.bind_error _⟩

/-- A step that can be taken in one steady world can be taken in every other. -/
theorem Step.exists_step (hl : l.IsByName tree fs) (hw : w.IsSteady fs) (hv : v.IsSteady fs)
    (h : Step l tree limit m cancelled x w y w') :
    ∃ v', v'.IsSteady fs ∧ Step l tree limit m cancelled x v y v' := by
  induction h with
  | leaf h => exact ⟨v, hv, .leaf h⟩
  | expand h => exact ⟨v, hv, .expand h⟩
  | refuse h => exact absurd h ((Run.Answers.check fs).not_error hw)
  | refuse_cancelled => exact ⟨v, hv, .refuse_cancelled⟩
  | terminate _ hstop => exact ⟨v, hv, .terminate hv.check_eq hstop⟩
  | enter _ hnew => exact ⟨v, hv, .enter hv.check_eq hnew⟩
  | @locate _ ancestry name _ _ _ _ h =>
    obtain ⟨r, hr⟩ := exists_answers_of_isByName hl name ancestry.length
    obtain ⟨rfl, -⟩ := hr.eq_of_ok hw h
    obtain ⟨v', hv', heq⟩ := hr v hv
    exact ⟨v', hv', .locate heq⟩
  | @locate_fails _ ancestry name _ _ f _ h =>
    obtain ⟨r, hr⟩ := exists_answers_of_isByName hl name ancestry.length
    cases r with
    | ok calls => exact absurd h (hr.not_error hw)
    | error e =>
      obtain ⟨u, -, hfails⟩ := hr _ hw
      cases h.symm.trans hfails
      obtain ⟨v', hv', heq⟩ := hr v hv
      exact ⟨v', hv', .locate_fails heq⟩
  | locate_cancelled => exact ⟨v, hv, .locate_cancelled rfl rfl⟩
  | locate_fails_cancelled => exact ⟨v, hv, .locate_fails_cancelled rfl rfl⟩
  | start before after hfree => exact ⟨v, hv, .start before after hfree⟩
  | advance before after _ ih =>
    obtain ⟨v', hv', hstep⟩ := ih hw
    exact ⟨v', hv', .advance before after hstep⟩
  | record before after => exact ⟨v, hv, .record before after⟩
  | finish callers => exact ⟨v, hv, .finish callers⟩
  | finish_fails h => exact ⟨v, hv, .finish_fails h⟩

theorem Steps.exists_steps (hl : l.IsByName tree fs) (hw : w.IsSteady fs) (hv : v.IsSteady fs)
    (h : Steps l tree limit m k x w y w') :
    ∃ v', v'.IsSteady fs ∧ Steps l tree limit m k x v y v' := by
  induction h with
  | refl => exact ⟨v, hv, .refl⟩
  | tail hsteps hstep ih =>
    obtain ⟨u, hu, hbefore⟩ := ih hw
    obtain ⟨v', hv', hlast⟩ := hstep.exists_step hl (hsteps.isSteady hl hw) hu
    exact ⟨v', hv', hbefore.tail hlast⟩

end Task

/-! ### The ways of a resolution -/

/-- A resolution can come to this outcome and leave this world. With one task at a time it begins
with the call sites in their order; with more, the steps come in any order. -/
inductive Resolves (l : Locator) (tree : SourceTree) (fanout limit : Int) (name : Text)
    (w : World) : Except Failure CallTree → World → Prop
  | oneAtATime {es x r v} (hfanout : fanout ≤ 1)
      (h : Task.Course l tree limit (.root limit name) w es x v) (hx : x.outcome? = some r) :
      Resolves l tree fanout limit name w r v
  | sideBySide {k x r v} (hfanout : 1 < fanout)
      (h : Task.Steps l tree limit fanout.toNat k (.root limit name) w x v)
      (hx : x.outcome? = some r) : Resolves l tree fanout limit name w r v

namespace Resolves

theorem exists_steps (h : Resolves l tree fanout limit name w r v) :
    ∃ n k x, Task.Steps l tree limit n k (.root limit name) w x v ∧ x.outcome? = some r := by
  cases h with
  | oneAtATime _ h hx =>
    obtain ⟨k, hsteps⟩ := Task.Steps.refl.exists_append h
    exact ⟨1, k, _, hsteps, hx⟩
  | sideBySide _ h hx => exact ⟨_, _, _, h, hx⟩

theorem returned (h : Resolves l tree fanout limit name w (.ok t) v) :
    Returned l tree limit name w t := by
  obtain ⟨n, k, x, hsteps, hx⟩ := h.exists_steps
  obtain rfl := Task.outcome?_eq_ok_iff.mp hx
  exact .interleaved hsteps

theorem isSteady (hl : l.IsByName tree fs) (hw : w.IsSteady fs)
    (h : Resolves l tree fanout limit name w r v) : v.IsSteady fs := by
  obtain ⟨n, k, x, hsteps, -⟩ := h.exists_steps
  exact hsteps.isSteady hl hw

end Resolves

namespace Resolves

/-- Work that comes to a tree: all of it is done on every way, whichever order it is done in. -/
theorem exists_performsAll (hl : l.IsByName tree fs) (hw : w.IsSteady fs) {work : Task.Work}
    (hwork : Task.Due (FoundFor fs l tree) limit work (.root limit name) t)
    (h : Resolves l tree fanout limit name w r v) :
    r = .ok t ∧ ∃ made, made.Perm work ∧ Task.PerformsAll l tree made w v := by
  obtain ⟨n, k, x, hsteps, hx⟩ := h.exists_steps
  obtain ⟨made, rest, -, hperm, hdue, hmade, -⟩ := hwork.steps hl hw hsteps
  cases r with
  | error f =>
    obtain rfl := Task.outcome?_eq_error_iff.mp hx
    exact absurd hdue Task.not_due_failed
  | ok s =>
    obtain rfl := Task.outcome?_eq_ok_iff.mp hx
    obtain ⟨rfl, rfl⟩ := hdue.of_done
    rw [List.append_nil] at hperm
    exact ⟨rfl, made, hperm.symm, hmade⟩

theorem exists_due (hl : l.IsByName tree fs) (hw : w.IsSteady fs)
    (h : Resolves l tree fanout limit name w (.ok t) v) :
    ∃ work, Task.Due (FoundFor fs l tree) limit work (.root limit name) t :=
  Task.exists_due_of_grown _ _ _ _ _ ((returned_iff_grown hl hw).mp h.returned)

/-- A tree that comes out on one way comes out on all of them. -/
theorem eq_of_ok (hl : l.IsByName tree fs) (hw : w.IsSteady fs) (hv : v.IsSteady fs)
    (h : Resolves l tree fanout limit name w (.ok t) w')
    (h' : Resolves l tree fanout limit name v r v') : r = .ok t := by
  obtain ⟨work, hwork⟩ := h.exists_due hl hw
  exact (h'.exists_performsAll hl hv hwork).1

end Resolves

/-! ### Commands -/

/-- What a lookup issues depends on its name alone, so the order of the lookups decides that of the
commands and nothing else. -/
theorem Task.PerformsAll.issued {asked : Text → List Command} (hl : l.IsByName tree fs)
    (hasked : ∀ name depth w calls v, w.IsSteady fs →
      expandedSites l tree name depth w = .ok calls v → v.issued = w.issued ++ asked name)
    (hw : w.IsSteady fs) {made : Task.Work} (h : PerformsAll l tree made w v) :
    v.IsSteady fs ∧ v.issued = w.issued ++ (made.filterMap id).flatMap asked := by
  induction h with
  | refl => exact ⟨hw, by simp⟩
  | @tail made o _ _ _ _ h ih =>
    obtain ⟨hsteady, hissued⟩ := ih hw
    cases o with
    | none =>
      obtain rfl := h
      exact ⟨hsteady, by simpa using hissued⟩
    | some name =>
      obtain ⟨depth, calls, h⟩ := h
      refine ⟨(answers_callSites_of_expandedSites hl hsteady h).2, ?_⟩
      rw [hasked _ _ _ _ _ hsteady h, hissued]
      simp

end Hierarchy

/-! ### Whole requests -/

namespace Engine

/-- A request can come to this outcome and leave this world: it is refused before anything is done,
or it is resolved when the engine is ready. The outcome is counted in either case. -/
inductive Serves (e : Engine) (function basePath : Text) (limit : Int) (w : World)
    (r : Except Failure CallTree) (w' : World) : Prop
  | refused {f v} (haccept : e.accept function basePath limit w = .error f v)
      (hend : conclude (.error f) v = Run.ofExcept r w')
  | resolved {tree v l u s u'} (haccept : e.accept function basePath limit w = .ok tree v)
      (hready : e.ready tree function limit v = .ok l u)
      (hresolve : Hierarchy.Resolves l tree e.options.fanout limit function u s u')
      (hend : conclude s u' = Run.ofExcept r w')

variable {e : Engine} {function basePath : Text} {limit : Int} {tree : SourceTree} {l : Locator}
  {w u v : World} {r : Except Failure CallTree} {f : Failure}

theorem eq_of_conclude {s : Except Failure CallTree} (h : conclude s u = Run.ofExcept r v) :
    r = s ∧ v.files = u.files ∧ v.context = u.context ∧ v.issued = u.issued := by
  obtain ⟨tallies, hs⟩ := exists_conclude_eq_tallied s u
  obtain ⟨rfl, rfl⟩ := Run.ofExcept_inj (h.symm.trans hs)
  exact ⟨rfl, rfl, rfl, rfl⟩

/-- The tree of a request is one that a resolution returns, whatever the fanout. -/
theorem Serves.exists_returned {t : CallTree}
    (h : e.Serves function basePath limit w (.ok t) v) :
    ∃ tree w' l u, e.accept function basePath limit w = .ok tree w' ∧
      e.ready tree function limit w' = .ok l u ∧
      Hierarchy.Returned l tree limit function u t := by
  cases h with
  | refused _ hend =>
    obtain ⟨hok, -⟩ := eq_of_conclude hend
    cases hok
  | resolved haccept hready hresolve hend =>
    obtain ⟨rfl, -⟩ := eq_of_conclude hend
    exact ⟨_, _, _, _, haccept, hready, hresolve.returned⟩

end Engine

end CallerTree
