import CallerTree.Proofs.CallSites
import CallerTree.Proofs.Progress

/-!
# The order of the tasks does not matter

Several callers of a function can be expanded side by side, and the same holds below each of them.
In what order the tasks start, go on and end is up to chance. The tree that comes out is not, as
long as every lookup has an answer that depends on the name alone.

## The argument

`Task.Due` relates a task to the tree that it is going to leave in its slot and to the work that it
still has to do: one entry for each step, which names the function if the step is a lookup. The tree
of a group is put together slot by slot and its work is that of all slots, so a step of one task
changes nothing for the others: whoever takes it, the tree that is due stays the same and one entry
of the work is done (`Due.step`). As long as there is work, some task can take a step
(`Due.exists_step`). So nothing but the tree can come out, and no lookups but those in the work are
made.

## Main results

* `Hierarchy.Task.Due.step`, `Hierarchy.Task.Due.exists_step` — one step
* `Hierarchy.Task.Due.steps` — a number of steps
* `Hierarchy.every_interleaving_resolves` — every order leads to the tree of the sequential run
-/

namespace CallerTree

/-- The locator has an answer for every name, as long as the files are `fs` and the context is
live. -/
def Locator.AlwaysAnswers (l : Locator) (tree : SourceTree) (fs : FileSystem) : Prop :=
  ∀ name, ∃ os, Run.Answers fs (l.locate name tree) (.ok os)

theorem Locator.AlwaysAnswers.isByName {l : Locator} {tree : SourceTree} {fs : FileSystem}
    (h : l.AlwaysAnswers tree fs) : l.IsByName tree fs :=
  fun name => let ⟨_, hos⟩ := h name; ⟨_, hos⟩

theorem Locator.alwaysAnswers_ofTable (table : List (Text × List Occurrence)) (tree : SourceTree)
    (fs : FileSystem) : (ofTable table).AlwaysAnswers tree fs :=
  fun _ => ⟨_, .pure _⟩

namespace Hierarchy

/-! ### The sequential run -/

/-- The calls are those found for the name, whenever it is looked up. -/
abbrev FoundFor (fs : FileSystem) (l : Locator) (tree : SourceTree) (name : Text)
    (calls : List Call) : Prop :=
  Run.Answers fs (callSites l tree name) (.ok calls)

section Sequential

variable {fs : FileSystem} {l : Locator} {tree : SourceTree}

theorem exists_answers_expandedSites (hl : l.AlwaysAnswers tree fs) (name : Text) (depth : Nat) :
    ∃ calls, Run.Answers fs (expandedSites l tree name depth) (.ok calls) := by
  obtain ⟨os, hos⟩ := hl name
  exact ⟨_, answers_expandedSites (hos.bind (answers_callsAmong fs tree name os)) depth⟩

theorem exists_answers_grow (hl : l.AlwaysAnswers tree fs) (limit : Int) (remaining : Nat)
    (ancestry : Ancestry) (depth : Nat) (name : Text) :
    ∃ t, Run.Answers fs
      (grow Run.check (expandedSites l tree) limit remaining ancestry depth name) (.ok t) := by
  have hsites : ∀ name depth, True → ∃ calls,
      Run.Answers fs (expandedSites l tree name depth) (.ok calls) ∧
      Run.Answers fs (expandedSites l tree name depth) (.ok calls) ∧
      ∀ call ∈ calls, isExpanded name call = true → True := by
    intro name depth _
    obtain ⟨calls, hcalls⟩ := exists_answers_expandedSites hl name depth
    exact ⟨calls, hcalls, hcalls, fun _ _ _ => trivial⟩
  obtain ⟨t, ht, -⟩ := exists_answers_grow_both hsites limit remaining ancestry depth name trivial
  exact ⟨t, ht⟩

/-- The sequential run returns a tree, and the tree is grown from the call sites. -/
theorem exists_build (hl : l.AlwaysAnswers tree fs) (limit : Int) (name : Text) {w : World}
    (hw : w.IsSteady fs) :
    ∃ t v, build l tree limit name w = .ok t v ∧
      Grown (FoundFor fs l tree) limit limit.toNat [] name none t := by
  obtain ⟨t, ht⟩ := exists_answers_grow hl limit limit.toNat [] 0 name
  obtain ⟨v, -, hv⟩ := ht w hw
  exact ⟨t, v, hv, grown_callSites_of_build hl.isByName hw hv⟩

end Sequential

namespace Task

/-! ### What is due -/

/-- What a task still has to do, step by step: a name is looked up in a step, or none. -/
abbrev Work := List (Option Text)

/-- A task, the work it still has to do and the tree it ends with. -/
structure Debt where
  task : Task
  work : Work
  tree : CallTree

/-- A task that does this work and then ends with the tree, when the lookup of a name answers as
`answers` allows. In which order a group does the work of its slots is left open, so work counts up
to permutation. -/
inductive Due (answers : Text → List Call → Prop) (limit : Int) : Work → Task → CallTree → Prop
  | done (t : CallTree) : Due answers limit [] (done t) t
  | waiting {work levels ancestry target call t}
      (h : Due answers limit work (started levels ancestry target call) t) :
      Due answers limit (none :: work) (waiting levels ancestry target call) t
  | leaf {levels ancestry target call} (h : isExpanded target call = false) :
      Due answers limit [none] (started levels ancestry target call) (leaf ancestry.length call)
  | expanded {work levels ancestry target call t} (hexpanded : isExpanded target call = true)
      (h : Due answers limit work (entering levels ancestry call.caller (some call.site)) t) :
      Due answers limit (none :: work) (started levels ancestry target call) t
  | terminal {levels ancestry name site} (hstop : levels = 0 ∨ name ∈ ancestry) :
      Due answers limit [none] (entering levels ancestry name site)
        (.node (terminalHead limit ancestry name site) [])
  | entering {work levels ancestry name site t} (hnew : name ∉ ancestry)
      (h : Due answers limit work (locating levels ancestry name site) t) :
      Due answers limit (none :: work) (entering (levels + 1) ancestry name site) t
  | locating {work levels ancestry name site calls t} (hcalls : answers name calls)
      (h : Due answers limit work
        (gathering ancestry name site none (slots levels ancestry name calls)) t) :
      Due answers limit (some name :: work) (locating levels ancestry name site) t
  | gathering {ancestry name site} {debts : List Debt}
      (h : ∀ d ∈ debts, Due answers limit d.work d.task d.tree) :
      Due answers limit (none :: debts.flatMap (·.work))
        (gathering ancestry name site none (debts.map (·.task)))
        (.node (expandedHead limit ancestry name site debts.length) (debts.map (·.tree)))

variable {answers : Text → List Call → Prop} {limit : Int}

/-- What stands for a call is due in its slot, if the trees of the callers are due. -/
theorem exists_due_of_standsFor {levels : Nat} {ancestry : Ancestry} {target : Text} {call : Call}
    {c : CallTree}
    (hgrown : ∀ name site t, Grown answers limit levels ancestry name site t →
      ∃ work, Due answers limit work (entering levels ancestry name site) t)
    (h : StandsFor (Grown answers limit levels ancestry) target ancestry.length call c) :
    ∃ work, Due answers limit work (waiting levels ancestry target call) c := by
  unfold StandsFor at h
  by_cases hexpanded : isExpanded target call = true
  · rw [if_pos hexpanded] at h
    obtain ⟨work, hdue⟩ := hgrown _ _ _ h
    exact ⟨none :: none :: work, .waiting (.expanded hexpanded hdue)⟩
  · rw [if_neg hexpanded] at h
    subst h
    exact ⟨[none, none], .waiting (.leaf (eq_false_of_ne_true hexpanded))⟩

/-- Each slot is due on its own, so their work may be done in any order. -/
theorem exists_debts {levels : Nat} {ancestry : Ancestry} {name : Text} {calls : List Call}
    {callers : List CallTree}
    (h : List.Forall₂ (fun call c => ∃ work, Due answers limit work
      (waiting levels (ancestry.extend name) name call) c) calls callers) :
    ∃ debts : List Debt, debts.map (·.task) = slots levels ancestry name calls ∧
      debts.map (·.tree) = callers ∧ ∀ d ∈ debts, Due answers limit d.work d.task d.tree := by
  induction h with
  | nil => exact ⟨[], rfl, rfl, by simp⟩
  | @cons call c calls callers hc _ ih =>
    obtain ⟨work, hdue⟩ := hc
    obtain ⟨debts, htasks, rfl, hdebts⟩ := ih
    refine ⟨⟨_, work, c⟩ :: debts, ?_, rfl, List.forall_mem_cons.mpr ⟨hdue, hdebts⟩⟩
    rw [List.map_cons, htasks]
    rfl

/-- A tree that can be grown is due for the function it is grown for. -/
theorem exists_due_of_grown :
    ∀ (levels : Nat) (ancestry : Ancestry) (name : Text) (site : Option Occurrence) (t : CallTree),
      Grown answers limit levels ancestry name site t →
        ∃ work, Due answers limit work (entering levels ancestry name site) t := by
  intro levels
  induction levels with
  | zero =>
    intro ancestry name site t h
    obtain ⟨hstop, rfl⟩ | ⟨_, _, _, hlevels, _⟩ := grown_iff.mp h
    · exact ⟨[none], .terminal hstop⟩
    · omega
  | succ levels ih =>
    intro ancestry name site t h
    obtain ⟨hstop, rfl⟩ | ⟨_, calls, callers, ⟨⟩, hnew, hcalls, hcallers, rfl⟩ := grown_iff.mp h
    · exact ⟨[none], .terminal hstop⟩
    · have hslots := hcallers.imp fun _ _ hc =>
        exists_due_of_standsFor (ih (ancestry.extend name)) hc
      obtain ⟨debts, htasks, rfl, hdebts⟩ := exists_debts hslots
      have hgathering : Due answers limit (none :: debts.flatMap (·.work))
          (gathering ancestry name site none (slots levels ancestry name calls))
          (.node (expandedHead limit ancestry name site (debts.map (·.tree)).length)
            (debts.map (·.tree))) := by
        rw [← htasks, List.length_map]
        exact .gathering hdebts
      exact ⟨_, .entering hnew (.locating hcalls hgathering)⟩

/-- A task with nothing left to do is done. -/
theorem Due.eq_done {x : Task} {t : CallTree} (h : Due answers limit [] x t) : x = .done t := by
  cases h
  rfl

theorem Due.of_done {work : Work} {t c : CallTree} (h : Due answers limit work (.done c) t) :
    work = [] ∧ c = t := by
  cases h
  exact ⟨rfl, rfl⟩

theorem Due.of_waiting {work : Work} {levels : Nat} {ancestry : Ancestry} {target : Text}
    {call : Call} {t : CallTree}
    (h : Due answers limit work (.waiting levels ancestry target call) t) :
    ∃ rest, work = none :: rest ∧
      Due answers limit rest (.started levels ancestry target call) t := by
  cases h with
  | waiting h => exact ⟨_, rfl, h⟩

theorem not_due_failed {work : Work} {f : Failure} {t : CallTree} :
    ¬ Due answers limit work (.failed f) t := by
  intro h
  cases h

theorem not_due_closed {work : Work} {t : CallTree} : ¬ Due answers limit work .closed t := by
  intro h
  cases h

/-- Tasks that are all done have no work left and hold the trees that are due. -/
theorem debts_of_map_done {debts : List Debt} {callers : List CallTree}
    (hdebts : ∀ d ∈ debts, Due answers limit d.work d.task d.tree)
    (h : debts.map (·.task) = callers.map .done) :
    debts.flatMap (·.work) = [] ∧ callers = debts.map (·.tree) := by
  induction debts generalizing callers with
  | nil =>
    obtain rfl : callers = [] := by simpa using h.symm
    exact ⟨rfl, rfl⟩
  | cons d debts ih =>
    obtain ⟨c, callers, rfl, hc, hrest⟩ := List.map_eq_cons_iff.mp h.symm
    obtain ⟨hd, hdebts⟩ := List.forall_mem_cons.mp hdebts
    have hd : Due answers limit d.work (.done c) d.tree := hc ▸ hd
    obtain ⟨hnone, rfl⟩ := hd.of_done
    obtain ⟨hnones, rfl⟩ := ih hdebts hrest.symm
    exact ⟨by rw [List.flatMap_cons, hnone, hnones, List.append_nil], rfl⟩

/-! ### One step -/

/-- A group of tasks is one step further when one of its tasks is. -/
theorem due_gathering_of_split {ancestry : Ancestry} {name : Text} {site : Option Occurrence}
    {before after : List Debt} {d : Debt} {o : Option Text} {m : Work} {y : Task}
    (hrest : ∀ e ∈ before ++ d :: after, Due answers limit e.work e.task e.tree)
    (hd : d.work.Perm (o :: m)) (hy : Due answers limit m y d.tree) :
    ∃ k : Work, (none :: (before ++ d :: after).flatMap (·.work)).Perm (o :: k) ∧
      Due answers limit k
        (.gathering ancestry name site none
          (before.map (·.task) ++ y :: after.map (·.task)))
        (.node (expandedHead limit ancestry name site (before ++ d :: after).length)
          ((before ++ d :: after).map (·.tree))) := by
  have hdue : ∀ e ∈ before ++ ⟨y, m, d.tree⟩ :: after, Due answers limit e.work e.task e.tree := by
    intro e he
    simp only [List.mem_append, List.mem_cons] at he hrest
    obtain he | rfl | he := he
    · exact hrest e (.inl he)
    · exact hy
    · exact hrest e (.inr (.inr he))
  refine ⟨none :: (before ++ ⟨y, m, d.tree⟩ :: after).flatMap (·.work), ?_, ?_⟩
  · simp only [List.flatMap_append, List.flatMap_cons]
    refine List.Perm.trans (.cons none ?_) (.swap o none _)
    exact ((hd.append_right _).append_left _).trans List.perm_middle
  · have hgroup : Due answers limit _ (.gathering ancestry name site none _) _ := .gathering hdue
    simpa using hgroup

variable {fs : FileSystem} {l : Locator} {tree : SourceTree} {fanout : Nat}

/-- What a step does to the world: it looks the name up, or leaves the world alone. -/
def Performs (l : Locator) (tree : SourceTree) : Option Text → World → World → Prop
  | none, w, w' => w' = w
  | some name, w, w' => ∃ depth calls, expandedSites l tree name depth w = .ok calls w'

/-- A step of a group in which nothing has failed, if the tasks in it behave. -/
theorem due_of_step_gathering {ancestry : Ancestry} {name : Text} {site : Option Occurrence}
    {slots : List Task} {debts : List Debt} {w w' : World} {y : Task}
    (hw : w.IsSteady fs) (hslots : debts.map (·.task) = slots)
    (hdebts : ∀ d ∈ debts, Due answers limit d.work d.task d.tree)
    (ih : ∀ d ∈ debts, ∀ y, Step l tree limit fanout false d.task w y w' →
      ∃ o m, d.work.Perm (o :: m) ∧ Due answers limit m y d.tree ∧ Performs l tree o w w' ∧
        w'.IsSteady fs)
    (h : Step l tree limit fanout false (.gathering ancestry name site none slots) w y w') :
    ∃ o m, (none :: debts.flatMap (·.work)).Perm (o :: m) ∧
      Due answers limit m y
        (.node (expandedHead limit ancestry name site debts.length) (debts.map (·.tree))) ∧
      Performs l tree o w w' ∧ w'.IsSteady fs := by
  cases h with
  | start _ _ hfree =>
    obtain ⟨before, _, rfl, rfl, hrest⟩ := List.map_eq_append_iff.mp hslots
    obtain ⟨d, after, rfl, hd, rfl⟩ := List.map_eq_cons_iff.mp hrest
    obtain ⟨m, hm, hdue⟩ := Due.of_waiting (hd ▸ hdebts d (by simp))
    obtain ⟨k, hk, hgroup⟩ := due_gathering_of_split hdebts (.of_eq hm) hdue
    exact ⟨none, k, hk, hgroup, rfl, hw⟩
  | advance _ _ hstep =>
    obtain ⟨before, _, rfl, rfl, hrest⟩ := List.map_eq_append_iff.mp hslots
    obtain ⟨d, after, rfl, rfl, rfl⟩ := List.map_eq_cons_iff.mp hrest
    obtain ⟨o, m, hm, hdue, hmade, hw'⟩ := ih d (by simp) _ hstep
    obtain ⟨k, hk, hgroup⟩ := due_gathering_of_split hdebts hm hdue
    exact ⟨o, k, hk, hgroup, hmade, hw'⟩
  | record =>
    obtain ⟨before, _, rfl, rfl, hrest⟩ := List.map_eq_append_iff.mp hslots
    obtain ⟨d, after, rfl, hd, rfl⟩ := List.map_eq_cons_iff.mp hrest
    exact absurd (hd ▸ hdebts d (by simp)) not_due_failed
  | finish callers =>
    obtain ⟨hnone, rfl⟩ := debts_of_map_done hdebts hslots
    rw [hnone, List.length_map]
    exact ⟨none, [], .refl _, .done _, rfl, hw⟩

/-- **Every step leads on.** Whichever task takes it, the tree that is due stays the same and one
entry of the work is done. -/
theorem Due.step (hl : l.IsByName tree fs) {work : Work} {x y : Task} {t : CallTree} {w w' : World}
    (h : Due (FoundFor fs l tree) limit work x t) (hw : w.IsSteady fs)
    (hstep : Step l tree limit fanout false x w y w') :
    ∃ o rest, work.Perm (o :: rest) ∧ Due (FoundFor fs l tree) limit rest y t ∧
      Performs l tree o w w' ∧ w'.IsSteady fs := by
  induction h generalizing y w' with
  | done t => cases hstep
  | waiting => cases hstep
  | leaf hleaf =>
    cases hstep with
    | leaf => exact ⟨_, _, .refl _, .done _, rfl, hw⟩
    | expand hexpanded => simp [hleaf] at hexpanded
  | expanded hexpanded h =>
    cases hstep with
    | leaf hleaf => simp [hleaf] at hexpanded
    | expand => exact ⟨_, _, .refl _, h, rfl, hw⟩
  | terminal hstop =>
    cases hstep with
    | refuse hcheck => exact absurd hcheck ((Run.Answers.check fs).not_error hw)
    | terminate hcheck =>
      cases hw.check_eq.symm.trans hcheck
      exact ⟨_, _, .refl _, .done _, rfl, hw⟩
    | enter _ hnew => exact absurd (hstop.resolve_left (by omega)) hnew
  | entering hnew h =>
    cases hstep with
    | refuse hcheck => exact absurd hcheck ((Run.Answers.check fs).not_error hw)
    | terminate _ hstop => exact absurd (hstop.resolve_left (by omega)) hnew
    | enter hcheck =>
      cases hw.check_eq.symm.trans hcheck
      exact ⟨_, _, .refl _, h, rfl, hw⟩
  | locating hcalls h =>
    cases hstep with
    | locate hfound =>
      obtain ⟨hcalls', hw'⟩ := answers_callSites_of_expandedSites hl hw hfound
      obtain rfl := hcalls.unique hcalls'
      exact ⟨_, _, .refl _, h, ⟨_, _, hfound⟩, hw'⟩
    | locate_fails hfails => exact absurd hfails ((answers_expandedSites hcalls _).not_error hw)
  | gathering hdebts ih =>
    exact due_of_step_gathering hw rfl hdebts (fun d hd y hy => ih d hd hy) hstep

/-- A task that is not yet part of the work, or no longer. -/
def IsIdle (x : Task) : Prop :=
  (∃ c, x = .done c) ∨ ∃ levels ancestry target call, x = .waiting levels ancestry target call

theorem IsIdle.isActive_eq_false {x : Task} (h : x.IsIdle) : x.isActive = false := by
  obtain ⟨_, rfl⟩ | ⟨_, _, _, _, rfl⟩ := h <;> rfl

/-- A task that has begun can take a step until it is done. -/
theorem Due.exists_step (hl : l.AlwaysAnswers tree fs) (hfanout : 1 ≤ fanout) {work : Work}
    {x : Task} {t : CallTree} {w : World} (h : Due (FoundFor fs l tree) limit work x t)
    (hw : w.IsSteady fs) :
    x.IsIdle ∨ ∃ y w', Step l tree limit fanout false x w y w' := by
  induction h with
  | done t => exact .inl (.inl ⟨t, rfl⟩)
  | waiting => exact .inl (.inr ⟨_, _, _, _, rfl⟩)
  | leaf hleaf => exact .inr ⟨_, w, .leaf hleaf⟩
  | expanded hexpanded => exact .inr ⟨_, w, .expand hexpanded⟩
  | terminal hstop => exact .inr ⟨_, w, .terminate hw.check_eq hstop⟩
  | entering hnew => exact .inr ⟨_, w, .enter hw.check_eq hnew⟩
  | @locating _ _ ancestry name _ _ _ _ _ =>
    obtain ⟨calls, hcalls⟩ := exists_answers_expandedSites hl name ancestry.length
    obtain ⟨w', -, hw'⟩ := hcalls w hw
    exact .inr ⟨_, w', .locate hw'⟩
  | gathering hdebts ih =>
    refine .inr (exists_step_gathering hfanout (fun _ hclosed => ?_) fun x hx hactive => ?_)
    · obtain ⟨d, hd, hclosed⟩ := List.mem_map.mp hclosed
      exact not_due_closed (hclosed ▸ hdebts d hd)
    · obtain ⟨d, hd, rfl⟩ := List.mem_map.mp hx
      refine (ih d hd).resolve_left fun hidle => ?_
      rw [hidle.isActive_eq_false] at hactive
      exact Bool.false_ne_true hactive

/-! ### Whole runs -/

theorem Step.ne_waiting {cancelled : Bool} {x y : Task} {w w' : World}
    (h : Step l tree limit fanout cancelled x w y w') (levels : Nat) (ancestry : Ancestry)
    (target : Text) (call : Call) : y ≠ .waiting levels ancestry target call := by
  cases h <;> simp

/-- The resolution as a whole is never one that waits for a place in a group. -/
theorem Steps.ne_waiting {k : Nat} {name : Text} {x : Task} {w w' : World}
    (h : Steps l tree limit fanout k (.root limit name) w x w') (levels : Nat) (ancestry : Ancestry)
    (target : Text) (call : Call) : x ≠ .waiting levels ancestry target call := by
  cases h with
  | refl => simp [root]
  | tail _ hstep => exact hstep.ne_waiting _ _ _ _

/-- The entries of the work are done one after the other. -/
inductive PerformsAll (l : Locator) (tree : SourceTree) : Work → World → World → Prop
  | refl {w} : PerformsAll l tree [] w w
  | tail {made o u v w} (hmade : PerformsAll l tree made u v) (h : Performs l tree o v w) :
      PerformsAll l tree (made ++ [o]) u w

/-- After a number of steps, in any order, so many entries of the work are done and the rest is
left. -/
theorem Due.steps (hl : l.IsByName tree fs) {work : Work} {k : Nat} {x y : Task} {t : CallTree}
    {w w' : World} (h : Due (FoundFor fs l tree) limit work x t) (hw : w.IsSteady fs)
    (hsteps : Steps l tree limit fanout k x w y w') :
    ∃ made rest, made.length = k ∧ work.Perm (made ++ rest) ∧
      Due (FoundFor fs l tree) limit rest y t ∧ PerformsAll l tree made w w' ∧
      w'.IsSteady fs := by
  induction hsteps with
  | refl => exact ⟨[], work, rfl, .refl _, h, .refl, hw⟩
  | tail _ hstep ih =>
    obtain ⟨made, rest, rfl, hwork, hdue, hmade, hw⟩ := ih h hw
    obtain ⟨o, rest', hrest, hdue, hlast, hw⟩ := hdue.step hl hw hstep
    refine ⟨made ++ [o], rest', by simp, ?_, hdue, hmade.tail hlast, hw⟩
    rw [List.append_assoc]
    exact hwork.trans (hrest.append_left made)

end Task

/-- **Interleavings agree.** With a locator that answers every name, as a function of the name, the
sequential run returns a tree; and however many tasks of a group may run at a time, there is a
number of steps such that, in whatever order they are taken,

* the resolution never takes more,
* it can take another one as long as it has taken fewer, and
* it is done exactly when it has taken them, with the tree of the sequential run. -/
theorem every_interleaving_resolves {l : Locator} {tree : SourceTree} {w : World}
    (hl : l.AlwaysAnswers tree w.files) (hlive : w.context = .live) {fanout : Nat}
    (hfanout : 1 ≤ fanout) (limit : Int) (name : Text) :
    ∃ t v total, build l tree limit name w = .ok t v ∧
      ∀ k x w', Task.Steps l tree limit fanout k (.root limit name) w x w' →
        k ≤ total ∧ (k < total → ∃ y u, Task.Step l tree limit fanout false x w' y u) ∧
        ∀ u, x = .done u ↔ k = total ∧ u = t := by
  have hw : w.IsSteady w.files := ⟨rfl, hlive⟩
  obtain ⟨t, v, hv, hgrown⟩ := exists_build hl limit name hw
  obtain ⟨work, hwork⟩ := Task.exists_due_of_grown _ _ _ _ _ hgrown
  refine ⟨t, v, work.length, hv, fun k x w' hsteps => ?_⟩
  obtain ⟨made, rest, rfl, hperm, hdue, -, hw'⟩ := hwork.steps hl.isByName hw hsteps
  rw [hperm.length_eq, List.length_append]
  refine ⟨by omega, fun hlt => ?_, fun u => ⟨?_, ?_⟩⟩
  · obtain (⟨u, rfl⟩ | ⟨levels, ancestry, target, call, rfl⟩) | hstep :=
      hdue.exists_step hl hfanout hw'
    · obtain ⟨rfl, -⟩ := hdue.of_done
      exact absurd hlt (Nat.lt_irrefl _)
    · exact absurd rfl (hsteps.ne_waiting levels ancestry target call)
    · exact hstep
  · rintro rfl
    obtain ⟨rfl, rfl⟩ := hdue.of_done
    exact ⟨rfl, rfl⟩
  · rintro ⟨hk, rfl⟩
    obtain rfl : rest = [] := List.eq_nil_of_length_eq_zero (by omega)
    exact hdue.eq_done

/-- Both callers of `f` are being expanded at a time, the second one begun first. -/
theorem exists_steps_mutualCalls :
    ∃ c₁ c₂ w', Task.Steps (.ofTable mutualCalls) ⟨"/src", []⟩ 3 2 4 (.root 3 "f")
      { files := .empty }
      (.gathering [] "f" none none [.started 2 ["f"] "f" c₁, .started 2 ["f"] "f" c₂]) w' := by
  have hsites : (Run.result? (expandedSites (.ofTable mutualCalls) ⟨"/src", []⟩ "f" 0)
      { files := .empty }).map (·.length) = some 2 := by decide +kernel
  simp only [Option.map_eq_some_iff, Run.result?_eq_some_iff, List.length_eq_two] at hsites
  obtain ⟨_, ⟨w', hcalls⟩, c₁, c₂, rfl⟩ := hsites
  have hsecond : Task.Step (.ofTable mutualCalls) ⟨"/src", []⟩ 3 2 false
      (.gathering [] "f" none none [.waiting 2 ["f"] "f" c₁, .waiting 2 ["f"] "f" c₂]) w'
      (.gathering [] "f" none none [.waiting 2 ["f"] "f" c₁, .started 2 ["f"] "f" c₂]) w' :=
    .start [.waiting 2 ["f"] "f" c₁] [] (by simp [Task.isInFlight])
  have hfirst : Task.Step (.ofTable mutualCalls) ⟨"/src", []⟩ 3 2 false
      (.gathering [] "f" none none [.waiting 2 ["f"] "f" c₁, .started 2 ["f"] "f" c₂]) w'
      (.gathering [] "f" none none [.started 2 ["f"] "f" c₁, .started 2 ["f"] "f" c₂]) w' :=
    .start [] [.started 2 ["f"] "f" c₂] (by simp [Task.isInFlight])
  exact ⟨c₁, c₂, w', (((Task.Steps.refl.tail (.enter rfl List.not_mem_nil)).tail
    (.locate hcalls)).tail hsecond).tail hfirst⟩

theorem every_interleaving_resolves_mutual :
    ∃ t v total c₁ c₂ w', build (.ofTable mutualCalls) ⟨"/src", []⟩ 3 "f"
        { files := .empty } = .ok t v ∧
      Task.Steps (.ofTable mutualCalls) ⟨"/src", []⟩ 3 2 4 (.root 3 "f")
        { files := .empty }
        (.gathering [] "f" none none [.started 2 ["f"] "f" c₁, .started 2 ["f"] "f" c₂]) w' ∧
      4 < total ∧
      ∀ k x w', Task.Steps (.ofTable mutualCalls) ⟨"/src", []⟩ 3 2 k (.root 3 "f")
        { files := .empty } x w' → (k = total ↔ x = .done t) := by
  obtain ⟨c₁, c₂, w', hsteps⟩ := exists_steps_mutualCalls
  have hl := Locator.alwaysAnswers_ofTable mutualCalls ⟨"/src", []⟩ .empty
  obtain ⟨t, v, total, hv, hall⟩ := every_interleaving_resolves
    (w := { files := .empty }) hl rfl (by decide : 1 ≤ 2) 3 "f"
  refine ⟨t, v, total, c₁, c₂, w', hv, hsteps, ?_, fun k x u hx => ?_⟩
  · obtain ⟨hle, -, hdone⟩ := hall 4 _ w' hsteps
    refine lt_of_le_of_ne hle fun heq => ?_
    have := (hdone t).mpr ⟨heq, rfl⟩
    cases this
  · obtain ⟨-, -, hdone⟩ := hall k x u hx
    simpa using (hdone t).symm

end Hierarchy

end CallerTree
