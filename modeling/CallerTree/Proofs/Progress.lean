import CallerTree.Proofs.Tasks
import Mathlib.Data.Set.List
import Mathlib.Logic.Hydra

/-!
# Resolutions with tasks come to an end

A resolution with tasks could fail to end in two ways: it could come to a state in which no task can
go on although the work is not done, or it could go on forever. Neither happens, in whatever order
the tasks take their steps, and also when lookups fail and groups are cancelled.

## Nothing gets stuck

A group waits for its tasks, and a task may wait for a place in its group. A group that has recorded
no failure returns only when all its tasks are done, so it must not contain a closed one. That is
all there is to keep up (`Task.IsTidy`).

## Nothing goes on forever

There is no bound on the number of steps that depends on the function asked about alone: a lookup
that a cancellation has overtaken may answer with any number of call sites. But each step replaces
one stage of one task by finitely many stages that are further on. So the stages are the heads of a
hydra, and every step is a move of the game whose end is `WellFounded.cutExpand`.

## Main results

* `Hierarchy.Task.IsTidy.exists_step` — a task that has begun can take a step until it has ended
* `Hierarchy.Task.Step.cutExpand`, `Hierarchy.Task.exists_not_step` — no resolution is endless
-/

namespace CallerTree

namespace Hierarchy

namespace Task

variable {l : Locator} {tree : SourceTree} {limit : Int} {fanout : Nat} {cancelled : Bool}
  {x y : Task} {w w' : World}

/-! ### Nothing gets stuck -/

def isGroup : Task → Bool
  | gathering .. => true
  | _ => false

/-- Whether the task has begun and not yet ended. -/
def isActive : Task → Bool
  | started .. | entering .. | locating .. | gathering .. => true
  | _ => false

/-- In every group without a recorded failure, no task is closed. -/
inductive IsTidy : Task → Prop
  | single {x : Task} (h : x.isGroup = false) : IsTidy x
  | group {ancestry : Ancestry} {name : Text} {site : Option Occurrence} {fault : Option Failure}
      {slots : List Task} (hclosed : fault = none → closed ∉ slots) (h : ∀ x ∈ slots, IsTidy x) :
      IsTidy (gathering ancestry name site fault slots)

theorem isTidy_gathering_iff {ancestry : Ancestry} {name : Text} {site : Option Occurrence}
    {fault : Option Failure} {slots : List Task} :
    IsTidy (gathering ancestry name site fault slots) ↔
      (fault = none → closed ∉ slots) ∧ ∀ x ∈ slots, IsTidy x := by
  constructor
  · intro h
    cases h with
    | single h => exact absurd h Bool.noConfusion
    | group hclosed h => exact ⟨hclosed, h⟩
  · rintro ⟨hclosed, h⟩
    exact .group hclosed h

theorem isTidy_slots {levels : Nat} {ancestry : Ancestry} {name : Text} {site : Option Occurrence}
    {calls : List Call} :
    IsTidy (gathering ancestry name site none (slots levels ancestry name calls)) := by
  refine isTidy_gathering_iff.mpr ⟨fun _ => by simp [slots], fun x hx => ?_⟩
  obtain ⟨call, -, rfl⟩ := List.mem_map.mp hx
  exact .single rfl

theorem Step.ne_closed (h : Step l tree limit fanout cancelled x w y w') : y ≠ .closed := by
  cases h <;> simp

theorem Step.isTidy (h : Step l tree limit fanout cancelled x w y w') (hx : x.IsTidy) :
    y.IsTidy := by
  induction h with
  | leaf | expand | refuse | refuse_cancelled | terminate | enter => exact .single rfl
  | locate_fails | locate_fails_cancelled | finish | finish_fails => exact .single rfl
  | locate | locate_cancelled => exact isTidy_slots
  | start before after _ =>
    rw [isTidy_gathering_iff, List.forall_mem_append, List.forall_mem_cons] at hx ⊢
    obtain ⟨hclosed, hbefore, -, hafter⟩ := hx
    exact ⟨by simpa using hclosed, hbefore, .single rfl, hafter⟩
  | advance before after hstep ih =>
    rw [isTidy_gathering_iff, List.forall_mem_append, List.forall_mem_cons] at hx ⊢
    obtain ⟨hclosed, hbefore, hself, hafter⟩ := hx
    refine ⟨fun hfault => ?_, hbefore, ih hself, hafter⟩
    have hnot := hclosed hfault
    simp only [List.mem_append, List.mem_cons, not_or] at hnot ⊢
    exact ⟨hnot.1, hstep.ne_closed.symm, hnot.2.2⟩
  | @record _ _ _ _ f _ fault before after =>
    rw [isTidy_gathering_iff, List.forall_mem_append, List.forall_mem_cons] at hx ⊢
    obtain ⟨-, hbefore, -, hafter⟩ := hx
    -- the failure is on record now, so the group may hold closed tasks
    refine ⟨fun hfault => ?_, hbefore, .single rfl, hafter⟩
    cases fault <;> simp at hfault

/-- A group can go on: one of its tasks can, or a failure is to be noted, or there is a place for
another task, or all have ended. -/
theorem exists_step_gathering (hfanout : 1 ≤ fanout) {ancestry : Ancestry} {name : Text}
    {site : Option Occurrence} {fault : Option Failure} {slots : List Task}
    (hclosed : fault = none → closed ∉ slots)
    (hslots : ∀ x ∈ slots, x.isActive = true →
      ∃ y w', Step l tree limit fanout (cancelled || fault.isSome) x w y w') :
    ∃ y w',
      Step l tree limit fanout cancelled (gathering ancestry name site fault slots) w y w' := by
  by_cases hactive : ∃ x ∈ slots, x.isActive = true
  · obtain ⟨x, hx, hbusy⟩ := hactive
    obtain ⟨y, w', hstep⟩ := hslots x hx hbusy
    obtain ⟨before, after, rfl⟩ := List.append_of_mem hx
    exact ⟨_, w', .advance before after hstep⟩
  by_cases hfailed : ∃ f, failed f ∈ slots
  · obtain ⟨f, hf⟩ := hfailed
    obtain ⟨before, after, rfl⟩ := List.append_of_mem hf
    exact ⟨_, w, .record before after⟩
  push Not at hactive hfailed
  -- what is left are tasks that wait and tasks that are over, so all places are free
  have hfree : slots.countP isInFlight = 0 := by
    refine List.countP_eq_zero.mpr fun x hx => ?_
    have hidle := hactive x hx
    cases x with
    | failed f => exact absurd hx (hfailed f)
    | waiting | done | closed => simp [isInFlight]
    | started | entering | locating | gathering => exact absurd rfl hidle
  by_cases hwaiting : ∃ levels above target call, waiting levels above target call ∈ slots
  · obtain ⟨levels, above, target, call, hx⟩ := hwaiting
    obtain ⟨before, after, rfl⟩ := List.append_of_mem hx
    exact ⟨_, w, .start before after (hfree ▸ hfanout)⟩
  push Not at hwaiting
  have hover : ∀ x ∈ slots, (∃ t, .done t = x) ∨ x = closed := by
    intro x hx
    have hidle := hactive x hx
    cases x with
    | waiting levels above target call => exact absurd hx (hwaiting levels above target call)
    | failed f => exact absurd hx (hfailed f)
    | done t => exact .inl ⟨t, rfl⟩
    | closed => exact .inr rfl
    | started | entering | locating | gathering => exact absurd rfl hidle
  cases fault with
  | some f =>
    refine ⟨_, w, .finish_fails fun x hx => ?_⟩
    obtain ⟨t, rfl⟩ | rfl := hover x hx <;> rfl
  | none =>
    have hdone : ∀ x ∈ slots, ∃ t, .done t = x :=
      fun x hx => (hover x hx).resolve_right fun h => hclosed rfl (h ▸ hx)
    obtain ⟨callers, rfl⟩ : slots ∈ Set.range (List.map .done) := Set.range_list_map _ ▸ hdone
    exact ⟨_, w, .finish callers⟩

/-- A function that is to be resolved goes on, or is refused. -/
theorem exists_step_entering (levels : Nat) (ancestry : Ancestry) (name : Text)
    (site : Option Occurrence) :
    ∃ y w', Step l tree limit fanout cancelled (entering levels ancestry name site) w y w' := by
  cases cancelled with
  | true => exact ⟨_, w, .refuse_cancelled⟩
  | false =>
    cases hcheck : Run.check w with
    | error f w' => exact ⟨_, w', .refuse hcheck⟩
    | ok u w' =>
      by_cases hname : name ∈ ancestry
      · exact ⟨_, w', .terminate hcheck (.inr hname)⟩
      · cases levels with
        | zero => exact ⟨_, w', .terminate hcheck (.inl rfl)⟩
        | succ levels => exact ⟨_, w', .enter hcheck hname⟩

/-- A lookup ends. -/
theorem exists_step_locating (levels : Nat) (ancestry : Ancestry) (name : Text)
    (site : Option Occurrence) :
    ∃ y w', Step l tree limit fanout cancelled (locating levels ancestry name site) w y w' := by
  cases cancelled with
  | true => exact ⟨gathering ancestry name site none (slots levels ancestry name []), w,
      .locate_cancelled rfl rfl⟩
  | false =>
    cases hsites : expandedSites l tree name ancestry.length w with
    | ok calls w' => exact ⟨_, w', .locate hsites⟩
    | error f w' => exact ⟨_, w', .locate_fails hsites⟩

/-- **Nothing gets stuck.** A task that has begun can take a step until it has ended. -/
theorem IsTidy.exists_step (hfanout : 1 ≤ fanout) (h : x.IsTidy) (hactive : x.isActive = true) :
    ∃ y w', Step l tree limit fanout cancelled x w y w' := by
  induction h generalizing cancelled with
  | @single x hsingle =>
    cases x with
    | started levels ancestry target call =>
      cases hexpanded : isExpanded target call with
      | true => exact ⟨_, w, .expand hexpanded⟩
      | false => exact ⟨_, w, .leaf hexpanded⟩
    | entering levels ancestry name site => exact exists_step_entering levels ancestry name site
    | locating levels ancestry name site => exact exists_step_locating levels ancestry name site
    | gathering => exact absurd hsingle Bool.noConfusion
    | waiting | done | failed | closed => exact absurd hactive Bool.noConfusion
  | group hclosed _ ih => exact exists_step_gathering hfanout hclosed fun x hx => ih x hx

/-! ### Nothing goes on forever -/

mutual

/-- The stages in which a task and the tasks below it are. What can come of a stage has smaller
numbers. -/
def stages : Task → Multiset ℕ
  | locating levels .. => {5 * levels + 6}
  | waiting levels .. => {5 * levels + 5}
  | started levels .. => {5 * levels + 4}
  | entering levels .. => {5 * levels + 3}
  | gathering _ _ _ _ slots => {2} + stagesAll slots
  | failed _ => {1}
  | done _ | closed => 0

def stagesAll : List Task → Multiset ℕ
  | [] => 0
  | x :: rest => x.stages + stagesAll rest

end

theorem stagesAll_append (xs ys : List Task) :
    stagesAll (xs ++ ys) = stagesAll xs + stagesAll ys := by
  induction xs with
  | nil => simp [stagesAll]
  | cons x xs ih => simp only [List.cons_append, stagesAll, ih, add_assoc]

theorem stagesAll_eq_zero {xs : List Task} (h : ∀ x ∈ xs, x.isOver = true) : stagesAll xs = 0 := by
  induction xs with
  | nil => rw [stagesAll]
  | cons x xs ih =>
    obtain ⟨hx, hxs⟩ := List.forall_mem_cons.mp h
    rw [stagesAll, ih hxs]
    cases x with
    | done | closed => simp [stages]
    | waiting | started | entering | locating | gathering | failed =>
      exact absurd hx Bool.noConfusion

theorem eq_of_mem_stagesAll_slots {levels : Nat} {ancestry : Ancestry} {name : Text}
    {calls : List Call} {n : ℕ} (h : n ∈ stagesAll (slots levels ancestry name calls)) :
    n = 5 * levels + 5 := by
  induction calls with
  | nil => simp [slots, stagesAll] at h
  | cons call calls ih =>
    rw [slots, List.map_cons, stagesAll, stages, Multiset.mem_add] at h
    rcases h with h | h
    · exact Multiset.mem_singleton.mp h
    · exact ih h

/-- The stages of a group after those of one of its tasks have changed. -/
theorem cutExpand_stages_gathering {ancestry : Ancestry} {name : Text} {site : Option Occurrence}
    {fault fault' : Option Failure} {before after : List Task}
    (h : Relation.CutExpand (· < ·) y.stages x.stages) :
    Relation.CutExpand (· < ·)
      (gathering ancestry name site fault' (before ++ y :: after)).stages
      (gathering ancestry name site fault (before ++ x :: after)).stages := by
  have hsplit : ∀ z : Task, {2} + stagesAll (before ++ z :: after) =
      ({2} + stagesAll before) + (z.stages + stagesAll after) := by
    intro z
    rw [stagesAll_append, stagesAll, add_assoc]
  rw [stages, stages, hsplit, hsplit]
  exact (Relation.cutExpand_add_left _).mpr ((Relation.cutExpand_add_right _).mpr h)

/-- The stages of a function after its lookup. -/
theorem cutExpand_stages_slots {levels : Nat} {ancestry : Ancestry} {name : Text}
    {site : Option Occurrence} {calls : List Call} :
    Relation.CutExpand (· < ·)
      (gathering ancestry name site none (slots levels ancestry name calls)).stages
      (locating levels ancestry name site).stages := by
  refine Relation.cutExpand_singleton fun n hn => ?_
  rw [stages, Multiset.mem_add] at hn
  rcases hn with hn | hn
  · rw [Multiset.mem_singleton.mp hn]
    omega
  · rw [eq_of_mem_stagesAll_slots hn]
    omega

/-- **Every step cuts a head off the hydra.** One stage goes, and finitely many smaller ones come in
its place. -/
theorem Step.cutExpand (h : Step l tree limit fanout cancelled x w y w') :
    Relation.CutExpand (· < ·) y.stages x.stages := by
  have hsingle : ∀ {m n : ℕ}, m < n → Relation.CutExpand (· < ·) {m} {n} :=
    Relation.cutExpand_singleton_singleton
  induction h with
  | leaf | terminate => exact Relation.cutExpand_zero
  | expand => exact hsingle (by omega)
  | refuse | refuse_cancelled => exact hsingle (by omega)
  | enter => exact hsingle (by omega)
  | locate_fails | locate_fails_cancelled => exact hsingle (by omega)
  | locate | locate_cancelled => exact cutExpand_stages_slots
  | start before after _ => exact cutExpand_stages_gathering (hsingle (by omega))
  | advance before after _ ih => exact cutExpand_stages_gathering ih
  | record before after => exact cutExpand_stages_gathering Relation.cutExpand_zero
  | finish callers =>
    have hover : stagesAll (callers.map .done) = 0 := stagesAll_eq_zero (by simp [isOver])
    rw [stages, stages, hover]
    exact Relation.cutExpand_zero
  | finish_fails hover =>
    rw [stages, stages, stagesAll_eq_zero hover, add_zero]
    exact hsingle (by omega)

/-- **Nothing goes on forever.** However the steps are chosen, there comes a moment after which
there is none. -/
theorem exists_not_step (run : ℕ → Task × World) :
    ∃ i, ¬ Step l tree limit fanout cancelled (run i).1 (run i).2 (run (i + 1)).1
      (run (i + 1)).2 := by
  by_contra hendless
  push Not at hendless
  have hdescends : ∀ i, Relation.CutExpand (· < ·) (run (i + 1)).1.stages (run i).1.stages :=
    fun i => (hendless i).cutExpand
  have hwf : WellFounded (Relation.CutExpand fun m n : ℕ => m < n) := wellFounded_lt.cutExpand
  obtain ⟨_, ⟨i, rfl⟩, hmin⟩ := hwf.has_min (Set.range fun i => (run i).1.stages) ⟨_, 0, rfl⟩
  exact hmin _ ⟨i + 1, rfl⟩ (hdescends i)

end Task

end Hierarchy

end CallerTree
