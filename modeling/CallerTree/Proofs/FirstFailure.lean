import CallerTree.Proofs.Endings
import CallerTree.Proofs.Returns

/-!
# Which failure a resolution reports

When a lookup fails, the group that it belongs to is cancelled, and the other tasks of the group and
of the groups below it fail as well, for no other reason. None of these failures is reported: a
resolution that fails returns the failure of a lookup, made while nothing around it was cancelled.
And whether it fails does not depend on the order in which the tasks take their steps.

## Where a failure comes from

A group is cancelled by the very step that records its first failure. So a failure that is due to a
cancellation finds some group above it whose record is taken, and there it is dropped.
`Task.Carries` says which failures can still get through to the top: one that a group has recorded
hides all that is below it. Followed backwards from the end, the failure that is returned was
carried all the time, down to the step that brought it up, and that step is a lookup
(`Task.Step.carries`).

The returned failure need not be that of the sequential run. Where several lookups fail, the first
one to be recorded wins.

## Main definitions

* `Hierarchy.Task.Carries` — a failure that can get to the top
* `Hierarchy.Task.LookupFails` — a step in which a lookup fails and nothing around it is cancelled

## Main results

* `Hierarchy.Task.Step.carries`, `Hierarchy.Task.Steps.hasFailedLookup` — one step back, and all
* `Hierarchy.failures_are_reported_faithfully`
-/

namespace CallerTree

namespace Hierarchy

namespace Task

variable {l : Locator} {tree : SourceTree} {limit : Int} {fanout : Nat} {fs : FileSystem}
  {f : Failure} {x y : Task} {w w' : World}

/-- What a resolution has come to, if it has ended. -/
def outcome? : Task → Option (Except Failure CallTree)
  | done t => some (.ok t)
  | failed f => some (.error f)
  | _ => none

theorem outcome?_eq_ok_iff {t : CallTree} : x.outcome? = some (.ok t) ↔ x = .done t := by
  cases x <;> simp [outcome?]

theorem outcome?_eq_error_iff : x.outcome? = some (.error f) ↔ x = .failed f := by
  cases x <;> simp [outcome?]

/-! ### The way of a failure to the top -/

/-- The task has failed with `f`, or `f` is the failure recorded first in a group that no recorded
failure hides. -/
inductive Carries (f : Failure) : Task → Prop
  | failed : Carries f (.failed f)
  | recorded {ancestry : Ancestry} {name : Text} {site : Option Occurrence} {slots : List Task} :
      Carries f (.gathering ancestry name site (some f) slots)
  | slot {ancestry : Ancestry} {name : Text} {site : Option Occurrence} {slots : List Task}
      {x : Task} (hmem : x ∈ slots) (h : Carries f x) :
      Carries f (.gathering ancestry name site none slots)

/-- The step in which the lookup of `name` fails with `f`. The context is live, and no group around
the lookup has recorded a failure, so none is cancelled. -/
inductive LookupFails (l : Locator) (tree : SourceTree) (name : Text) (f : Failure) :
    Task → World → Task → World → Prop
  | here {levels : Nat} {ancestry : Ancestry} {site : Option Occurrence} {w w' : World}
      (hlive : w.context = .live) (h : l.locate name tree w = .error f w') :
      LookupFails l tree name f (locating levels ancestry name site) w (failed f) w'
  | within {ancestry : Ancestry} {target : Text} {site : Option Occurrence} {x y : Task}
      {w w' : World} (before after : List Task) (h : LookupFails l tree name f x w y w') :
      LookupFails l tree name f (gathering ancestry target site none (before ++ x :: after)) w
        (gathering ancestry target site none (before ++ y :: after)) w'

/-- Among so many steps there is one in which a lookup fails with `f`. -/
def HasFailedLookup (l : Locator) (tree : SourceTree) (limit : Int) (fanout : Nat) (f : Failure)
    (k : Nat) (x : Task) (w : World) (y : Task) (w' : World) : Prop :=
  ∃ i j name a v b u, i + 1 + j = k ∧ Steps l tree limit fanout i x w a v ∧
    Step l tree limit fanout false a v b u ∧ LookupFails l tree name f a v b u ∧
    Steps l tree limit fanout j b u y w'

/-- A group that carries a failure does so whatever stands in one of its slots, unless the failure
is in that very slot. -/
theorem Carries.of_slot {ancestry : Ancestry} {name : Text} {site : Option Occurrence}
    {fault : Option Failure} {before after : List Task}
    (h : Carries f (.gathering ancestry name site fault (before ++ y :: after))) :
    Carries f (.gathering ancestry name site fault (before ++ x :: after)) ∨
      fault = none ∧ Carries f y := by
  cases h with
  | recorded => exact .inl .recorded
  | slot hmem h =>
    rcases List.mem_append.mp hmem with hmem | hmem
    · exact .inl (.slot (List.mem_append_left _ hmem) h)
    rcases List.mem_cons.mp hmem with rfl | hmem
    · exact .inr ⟨rfl, h⟩
    · exact .inl (.slot (List.mem_append_right _ (List.mem_cons_of_mem _ hmem)) h)

theorem not_carries_slots {levels : Nat} {ancestry : Ancestry} {name : Text}
    {site : Option Occurrence} {calls : List Call} :
    ¬ Carries f (gathering ancestry name site none (slots levels ancestry name calls)) := by
  intro h
  cases h with
  | slot hmem h =>
    obtain ⟨call, -, rfl⟩ := List.mem_map.mp hmem
    cases h

/-- **Only lookups bring failures up.** A failure that is carried after a step was carried before,
or the step is a lookup that fails with it. -/
theorem Step.carries (hl : l.IsByName tree fs) (hw : w.IsSteady fs)
    (hstep : Step l tree limit fanout false x w y w') (h : Carries f y) :
    Carries f x ∨ ∃ name, LookupFails l tree name f x w y w' := by
  generalize hlive : false = cancelled at hstep
  induction hstep with
  | leaf | expand | terminate | enter | finish => cases h
  | refuse hcheck => exact absurd hcheck ((Run.Answers.check fs).not_error hw)
  | refuse_cancelled | locate_cancelled | locate_fails_cancelled => cases hlive
  | locate => exact absurd h not_carries_slots
  | locate_fails hsites =>
    cases h with
    | failed =>
      obtain ⟨hlocate, -⟩ := locate_of_expandedSites_error hl hw hsites
      exact .inr ⟨_, .here hw.context hlocate⟩
  | start before after =>
    refine h.of_slot.imp_right fun ⟨_, h⟩ => ?_
    cases h
  | advance before after _ ih =>
    rcases h.of_slot with hx | ⟨rfl, hy⟩
    · exact .inl hx
    · rcases ih hw hy (by simpa using hlive) with hx | ⟨name, hfails⟩
      · exact .inl (.slot (List.mem_append_right _ List.mem_cons_self) hx)
      · exact .inr ⟨name, .within before after hfails⟩
  | @record _ _ _ _ g _ fault before after =>
    -- the record of a group is taken by the first failure and then stays as it is
    cases fault with
    | some first =>
      cases h
      exact .inl .recorded
    | none =>
      cases h
      exact .inl (.slot (List.mem_append_right _ List.mem_cons_self) .failed)
  | finish_fails =>
    cases h
    exact .inl .recorded

/-- A failure that is carried at the end and not at the start is that of a lookup on the way. -/
theorem Steps.hasFailedLookup (hl : l.IsByName tree fs) (hw : w.IsSteady fs) {k : Nat}
    (hsteps : Steps l tree limit fanout k x w y w') (hx : ¬ Carries f x) (h : Carries f y) :
    HasFailedLookup l tree limit fanout f k x w y w' := by
  induction hsteps with
  | refl => exact absurd h hx
  | @tail k _ _ a v b u hsteps hstep ih =>
    rcases hstep.carries hl (hsteps.isSteady hl hw) h with h | ⟨name, hfails⟩
    · obtain ⟨i, j, name, a', v', b', u', rfl, hbefore, hlookup, hfails, hafter⟩ := ih hw hx h
      exact ⟨i, j + 1, name, a', v', b', u', rfl, hbefore, hlookup, hfails, hafter.tail hstep⟩
    · exact ⟨k, 0, name, a, v, b, u, rfl, hsteps, hstep, hfails, .refl⟩

/-! ### Whole resolutions -/

theorem Steps.isTidy {k : Nat} (hsteps : Steps l tree limit fanout k x w y w') (hx : x.IsTidy) :
    y.IsTidy := by
  induction hsteps with
  | refl => exact hx
  | tail _ hstep ih => exact hstep.isTidy (ih hx)

/-- A resolution goes on until it has come to something. -/
theorem Steps.exists_step (hfanout : 1 ≤ fanout) {k : Nat} {name : Text}
    (hsteps : Steps l tree limit fanout k (.root limit name) w x w') (h : x.outcome? = none) :
    ∃ y u, Step l tree limit fanout false x w' y u := by
  have htidy : x.IsTidy := hsteps.isTidy (.single rfl)
  cases x with
  | waiting levels ancestry target call => exact absurd rfl (hsteps.ne_waiting _ _ _ _)
  | closed =>
    cases hsteps with
    | tail _ hstep => exact absurd rfl hstep.ne_closed
  | done t => cases h
  | failed f => cases h
  | started | entering | locating | gathering => exact htidy.exists_step hfanout rfl

end Task

/-- **Failures are reported faithfully.** With a locator that answers or fails as a function of the
name, and a context that stays live, no resolution with tasks goes on forever. At any moment,

* if it has not ended, then it can take another step;
* if it has ended, then it has failed exactly if the sequential run fails;
* if it has returned a tree, then it is that of the sequential run;
* if it has failed, then with the failure of a lookup that was made in a live context. -/
theorem failures_are_reported_faithfully {l : Locator} {tree : SourceTree} {w : World}
    (hl : l.IsByName tree w.files) (hlive : w.context = .live) {fanout : Nat}
    (hfanout : 1 ≤ fanout) (limit : Int) (name : Text) :
    (∀ run : ℕ → Task × World, ∃ i, ¬ Task.Step l tree limit fanout false (run i).1 (run i).2
      (run (i + 1)).1 (run (i + 1)).2) ∧
    ∀ k x w', Task.Steps l tree limit fanout k (.root limit name) w x w' →
      (x.outcome? = none → ∃ y u, Task.Step l tree limit fanout false x w' y u) ∧
      (∀ r, x.outcome? = some r →
        ((∃ f, r = .error f) ↔ ∃ f v, build l tree limit name w = .error f v)) ∧
      (∀ t, x.outcome? = some (.ok t) → ∃ v, build l tree limit name w = .ok t v) ∧
      ∀ f, x.outcome? = some (.error f) →
        Task.HasFailedLookup l tree limit fanout f k (.root limit name) w x w' := by
  have hw : w.IsSteady w.files := ⟨rfl, hlive⟩
  refine ⟨Task.exists_not_step, fun k x w' hsteps => ?_⟩
  have hdone : ∀ t, x.outcome? = some (.ok t) → ∃ v, build l tree limit name w = .ok t v := by
    intro t ht
    obtain rfl := Task.outcome?_eq_ok_iff.mp ht
    exact (build_ok_iff_grown hl hw).mpr ((returned_iff_grown hl hw).mp (.interleaved hsteps))
  have hfailed : ∀ f, x.outcome? = some (.error f) →
      ∃ f v, build l tree limit name w = .error f v := by
    intro f hf
    obtain rfl := Task.outcome?_eq_error_iff.mp hf
    cases hbuild : build l tree limit name w with
    | error e v => exact ⟨e, v, rfl⟩
    | ok t v =>
      -- the tree of the sequential run would be due at the end
      have hgrown := (build_ok_iff_grown hl hw).mp ⟨v, hbuild⟩
      obtain ⟨n, hn⟩ := Task.exists_due_of_grown _ _ _ _ _ hgrown
      obtain ⟨m, hm⟩ := hsteps.exists_due hl hw hn
      exact absurd hm Task.not_due_failed
  refine ⟨hsteps.exists_step hfanout, fun r hr => ⟨?_, ?_⟩, hdone, fun f hf => ?_⟩
  · rintro ⟨f, rfl⟩
    exact hfailed f hr
  · rintro ⟨f, v, hv⟩
    cases r with
    | error e => exact ⟨e, rfl⟩
    | ok t =>
      obtain ⟨v', hv'⟩ := hdone t hr
      rw [hv] at hv'
      cases hv'
  · obtain rfl := Task.outcome?_eq_error_iff.mp hf
    exact hsteps.hasFailedLookup hl hw (fun h => by cases h) .failed

/-- A function that is called by `g` and by `h`. The lookups of both fail. -/
def twoFailures : Locator where
  backend := "table"
  locate name _ := Run.ofExcept <|
    if name = Text.ofString "f" then
      .ok [{ file := "a.c", line := 3, code := "f();", scope := "g" },
        { file := "a.c", line := 9, code := "f();", scope := "h" }]
    else .error (.message name)

theorem isByName_twoFailures (tree : SourceTree) (fs : FileSystem) :
    twoFailures.IsByName tree fs :=
  fun _ => ⟨_, fun w hw => ⟨w, hw, rfl⟩⟩

theorem exists_sites_twoFailures :
    ∃ g h w', expandedSites twoFailures ⟨"/src", []⟩ "f" 0 { files := .empty } =
        .ok [g, h] w' ∧
      g.caller = "g" ∧ h.caller = "h" ∧ w'.IsSteady .empty := by
  have hsites : (Run.result? (expandedSites twoFailures ⟨"/src", []⟩ "f" 0)
      { files := .empty }).map (·.map (·.caller)) =
        some [Text.ofString "g", Text.ofString "h"] := by decide
  simp only [Option.map_eq_some_iff, Run.result?_eq_some_iff, List.map_eq_cons_iff,
    List.map_eq_nil_iff] at hsites
  obtain ⟨_, ⟨w', hcalls⟩, g, _, rfl, hg, h, _, rfl, hh, rfl⟩ := hsites
  exact ⟨g, h, w', hcalls, hg, hh,
    (answers_callSites_of_expandedSites (isByName_twoFailures _ _) ⟨rfl, rfl⟩ hcalls).2⟩

/-- A run in which the lookup of `h` fails first. The group is cancelled before `g` is entered, so
`g` is refused, and that failure is dropped. -/
theorem exists_steps_twoFailures :
    ∃ w', Task.Steps twoFailures ⟨"/src", []⟩ 2 2 12 (.root 2 "f") { files := .empty }
      (.failed (.message "h")) w' := by
  obtain ⟨g, h, w', hcalls, hg, hh, hw'⟩ := exists_sites_twoFailures
  have hfails : expandedSites twoFailures ⟨"/src", []⟩ h.caller 1 w' =
      .error (.message "h") w' := by
    rw [hh]
    rfl
  have hexpanded : isExpanded "f" h = true ∧ isExpanded "f" g = true := by
    simp only [isExpanded, hg, hh]
    decide
  let group (fault : Option Failure) (x y : Task) : Task := .gathering [] "f" none fault [x, y]
  have hfirst {fault : Option Failure} {x x' y : Task}
      (hx : Task.Step twoFailures ⟨"/src", []⟩ 2 2 fault.isSome x w' x' w') :
      Task.Step twoFailures ⟨"/src", []⟩ 2 2 false (group fault x y) w' (group fault x' y) w' :=
    .advance [] [y] (by simpa using hx)
  have hsecond {x y y' : Task} (hy : Task.Step twoFailures ⟨"/src", []⟩ 2 2 false y w' y' w') :
      Task.Step twoFailures ⟨"/src", []⟩ 2 2 false (group none x y) w' (group none x y') w' :=
    .advance [x] [] hy
  have hstart : Task.Steps twoFailures ⟨"/src", []⟩ 2 2 3 (.root 2 "f")
      { files := .empty }
      (group none (.waiting 1 ["f"] "f" g) (.started 1 ["f"] "f" h)) w' :=
    ((Task.Steps.refl.tail (.enter rfl List.not_mem_nil)).tail (.locate hcalls)).tail
      (.start [.waiting 1 ["f"] "f" g] [] (by simp [Task.isInFlight]))
  have hlookup : Task.Steps twoFailures ⟨"/src", []⟩ 2 2 6 (.root 2 "f")
      { files := .empty }
      (group none (.waiting 1 ["f"] "f" g) (.failed (.message "h"))) w' :=
    ((hstart.tail (hsecond (.expand hexpanded.1))).tail
      (hsecond (.enter hw'.check_eq (by rw [hh]; decide)))).tail (hsecond (.locate_fails hfails))
  have hrecord : Task.Steps twoFailures ⟨"/src", []⟩ 2 2 9 (.root 2 "f")
      { files := .empty }
      (group (some (.message "h")) (.entering 1 ["f"] g.caller (some g.site)) .closed) w' :=
    ((hlookup.tail (.start [] [.failed (.message "h")] (by simp [Task.isInFlight]))).tail
      (hfirst (.expand hexpanded.2))).tail
      (.record [.entering 1 ["f"] g.caller (some g.site)] [])
  exact ⟨w', ((hrecord.tail (hfirst .refuse_cancelled)).tail (.record [] [.closed])).tail
    (.finish_fails (by simp [Task.isOver]))⟩

/-- The sequential run fails at `g`, and the run above at `h`: each with a failure that the locator
came up with, and none with the cancellation. -/
theorem twoFailures_are_reported :
    ∃ w' f v, Task.Steps twoFailures ⟨"/src", []⟩ 2 2 12 (.root 2 "f") { files := .empty }
        (.failed (.message "h")) w' ∧
      Task.HasFailedLookup twoFailures ⟨"/src", []⟩ 2 2 (.message "h") 12 (.root 2 "f")
        { files := .empty } (.failed (.message "h")) w' ∧
      build twoFailures ⟨"/src", []⟩ 2 "f" { files := .empty } = .error f v ∧
      f.text = "g" := by
  have heval : (Run.failure? (build twoFailures ⟨"/src", []⟩ 2 "f")
      { files := .empty }).map Failure.text = some (Text.ofString "g") := by
    decide +kernel
  obtain ⟨w', hsteps⟩ := exists_steps_twoFailures
  obtain ⟨-, hall⟩ := failures_are_reported_faithfully
    (w := { files := .empty }) (isByName_twoFailures ⟨"/src", []⟩ _) rfl
    (by decide : 1 ≤ 2) 2 "f"
  obtain ⟨-, hiff, -, horigin⟩ := hall 12 _ w' hsteps
  obtain ⟨f, v, hv⟩ := (hiff _ rfl).mp ⟨_, rfl⟩
  rw [Run.failure?_eq_some_iff.mpr ⟨v, hv⟩, Option.map_some, Option.some.injEq] at heval
  exact ⟨w', f, v, hsteps, horigin _ rfl, hv, heval⟩

end Hierarchy

end CallerTree
