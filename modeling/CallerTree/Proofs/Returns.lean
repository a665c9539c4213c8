import CallerTree.Proofs.Interleaving

/-!
# What a resolution returns

`Hierarchy.grown_of_grow` says that a returned tree is grown. This module adds the two other sides.
If the locator answers by name, then a tree that can be grown from the call sites is also returned,
so growing and returning are the same (`Hierarchy.build_ok_iff_grown`). And the trees that tasks
return are grown too, in whatever order the tasks take their steps (`Hierarchy.Returned.grown`).

## The argument for tasks

`Task.Due` follows a resolution forwards: the tree that is due stays due. Here it is followed
backwards. The last task is done, so its tree is due; and what is due after a step was due before it
(`Task.Due.of_step`), because a step that loses a tree, by a failure or in a cancelled group, leaves
a group that will return no tree at all. Back at the start, a tree that is due is grown
(`Task.grown_of_due`).

## Main definitions

* `Hierarchy.Returned` — a tree that is returned, with tasks or without

## Main results

* `Hierarchy.build_ok_iff_grown` — the resolved tree is the tree grown from the call sites
* `Hierarchy.Task.Due.of_step`, `Hierarchy.Task.Steps.due_of_due` — one step back, and all of them
* `Hierarchy.Returned.grown`, `Hierarchy.returned_iff_grown` — which trees are returned
-/

namespace CallerTree

namespace Hierarchy

variable {answers : Text → List Call → Prop} {limit : Int} {l : Locator} {tree : SourceTree}
  {fs : FileSystem}

/-! ### Grown trees are returned -/

/-- The call site of a function is added to the tree that was grown without it. -/
theorem Grown.exists_withSite {remaining : Nat} {ancestry : Ancestry} {name : Text}
    {site : Occurrence} {t : CallTree}
    (h : Grown answers limit remaining ancestry name (some site) t) :
    ∃ u, Grown answers limit remaining ancestry name none u ∧ t = u.withSite site := by
  rw [grown_iff] at h
  obtain ⟨hstop, rfl⟩ | ⟨levels, calls, callers, hlevels, hnew, hcalls, hcallers, rfl⟩ := h
  · exact ⟨_, grown_iff.mpr (.inl ⟨hstop, rfl⟩), rfl⟩
  · exact ⟨_, grown_iff.mpr (.inr ⟨levels, calls, callers, hlevels, hnew, hcalls, hcallers, rfl⟩),
      rfl⟩

theorem answers_expand_of_standsFor {grown : Text → Run CallTree} {remaining : Nat}
    {ancestry : Ancestry} {target : Text} {depth : Nat} {call : Call} {c : CallTree}
    (hgrown : ∀ n t, Grown answers limit remaining ancestry n none t →
      Run.Answers fs (grown n) (.ok t))
    (h : StandsFor (Grown answers limit remaining ancestry) target depth call c) :
    Run.Answers fs (expand grown target depth call) (.ok c) := by
  unfold StandsFor at h
  unfold expand
  by_cases hexpanded : isExpanded target call = true
  · rw [if_pos hexpanded] at h ⊢
    obtain ⟨u, hu, rfl⟩ := h.exists_withSite
    exact (hgrown _ _ hu).bind (.pure _)
  · rw [if_neg hexpanded] at h ⊢
    rw [h]
    exact .pure _

/-- A tree that can be grown from the call sites is what growing it returns. -/
theorem answers_grow_of_grown (remaining : Nat) :
    ∀ (ancestry : Ancestry) (name : Text) (t : CallTree),
      Grown (FoundFor fs l tree) limit remaining ancestry name none t →
        Run.Answers fs
          (grow Run.check (expandedSites l tree) limit remaining ancestry ancestry.length name)
          (.ok t) := by
  have hcheck := Run.Answers.check fs
  induction remaining with
  | zero =>
    intro ancestry name t h
    obtain ⟨-, rfl⟩ | ⟨_, _, _, hlevels, _⟩ := grown_iff.mp h
    · exact hcheck.bind (.pure _)
    · omega
  | succ remaining ih =>
    intro ancestry name t h
    rw [grow]
    obtain ⟨hstop, rfl⟩ | ⟨_, calls, callers, ⟨⟩, hnew, hcalls, hcallers, rfl⟩ := grown_iff.mp h
    · have hcycle : ancestry.has name = true :=
        Ancestry.has_iff.mpr (hstop.resolve_left (by omega))
      rw [if_pos hcycle]
      exact hcheck.bind (.pure _)
    · have hfresh : ¬ ancestry.has name = true := mt Ancestry.has_iff.mp hnew
      rw [if_neg hfresh]
      have hexpand := hcallers.imp fun _ _ hc =>
        answers_expand_of_standsFor (ih (ancestry.extend name)) hc
      exact hcheck.bind ((answers_expandedSites hcalls _).bind
        ((Run.Answers.mapM hexpand).bind (.pure _)))

/-- **The resolved tree is the grown one.** -/
theorem build_ok_iff_grown {w : World} (hl : l.IsByName tree fs) (hw : w.IsSteady fs) {name : Text}
    {t : CallTree} :
    (∃ v, build l tree limit name w = .ok t v) ↔
      Grown (FoundFor fs l tree) limit limit.toNat [] name none t := by
  constructor
  · rintro ⟨v, hv⟩
    exact grown_callSites_of_build hl hw hv
  · intro h
    obtain ⟨v, -, hv⟩ := answers_grow_of_grown limit.toNat [] name t h w hw
    exact ⟨v, hv⟩

namespace Task

/-! ### Trees that are due are grown -/

theorem standsFor_of_due {levels : Nat} {ancestry : Ancestry} {target : Text} {call : Call}
    {work : Work} {c : CallTree}
    (hgrown : ∀ name site work t, Due answers limit work (entering levels ancestry name site) t →
      Grown answers limit levels ancestry name site t)
    (h : Due answers limit work (waiting levels ancestry target call) c) :
    StandsFor (Grown answers limit levels ancestry) target ancestry.length call c := by
  obtain ⟨m, -, h⟩ := h.of_waiting
  unfold StandsFor
  cases h with
  | leaf hleaf => rw [if_neg (by simp [hleaf])]
  | expanded hexpanded h =>
    rw [if_pos hexpanded]
    exact hgrown _ _ _ _ h

/-- The trees that are due in the slots of a function stand for its calls. -/
theorem forall₂_standsFor_of_debts {levels : Nat} {ancestry : Ancestry} {name : Text}
    (hgrown : ∀ n site k t, Due answers limit k (entering levels (ancestry.extend name) n site) t →
      Grown answers limit levels (ancestry.extend name) n site t) :
    ∀ {calls : List Call} {debts : List Debt},
      debts.map (·.task) = slots levels ancestry name calls →
      (∀ d ∈ debts, Due answers limit d.work d.task d.tree) →
      List.Forall₂ (StandsFor (Grown answers limit levels (ancestry.extend name)) name
        (ancestry.length + 1)) calls (debts.map (·.tree)) := by
  intro calls
  induction calls with
  | nil =>
    intro debts htasks _
    obtain rfl := List.map_eq_nil_iff.mp htasks
    exact .nil
  | cons call calls ih =>
    intro debts htasks hdebts
    obtain ⟨d, debts, rfl, hd, htasks⟩ := List.map_eq_cons_iff.mp htasks
    obtain ⟨hdue, hdebts⟩ := List.forall_mem_cons.mp hdebts
    exact .cons (standsFor_of_due hgrown (hd ▸ hdue)) (ih htasks hdebts)

theorem Due.of_gathering {work : Work} {ancestry : Ancestry} {name : Text}
    {site : Option Occurrence} {fault : Option Failure} {slots : List Task} {t : CallTree}
    (h : Due answers limit work (.gathering ancestry name site fault slots) t) :
    fault = none ∧ ∃ debts : List Debt, debts.map (·.task) = slots ∧
      (∀ d ∈ debts, Due answers limit d.work d.task d.tree) ∧
      t = .node (expandedHead limit ancestry name site debts.length) (debts.map (·.tree)) := by
  cases h with
  | gathering hdebts => exact ⟨rfl, _, rfl, hdebts, rfl⟩

/-- A tree that is due for a function can be grown for it. -/
theorem grown_of_due (levels : Nat) :
    ∀ (ancestry : Ancestry) (name : Text) (site : Option Occurrence) (work : Work) (t : CallTree),
      Due answers limit work (entering levels ancestry name site) t →
        Grown answers limit levels ancestry name site t := by
  induction levels with
  | zero =>
    intro ancestry name site work t h
    cases h with
    | terminal hstop => exact grown_iff.mpr (.inl ⟨hstop, rfl⟩)
  | succ levels ih =>
    intro ancestry name site work t h
    cases h with
    | terminal hstop => exact grown_iff.mpr (.inl ⟨hstop, rfl⟩)
    | entering hnew h =>
      cases h with
      | locating hcalls h =>
        obtain ⟨-, debts, htasks, hdebts, rfl⟩ := h.of_gathering
        have hcallers := forall₂_standsFor_of_debts (ih (ancestry.extend name)) htasks hdebts
        refine grown_iff.mpr (.inr ⟨levels, _, _, rfl, hnew, hcalls, hcallers, ?_⟩)
        rw [List.length_map]

/-! ### Steps backwards -/

variable {fanout : Nat} {x y : Task} {w w' : World}

/-- A group is due the same tree if one of its tasks is replaced by another that is. -/
theorem Due.replace {work : Work} {ancestry : Ancestry} {name : Text} {site : Option Occurrence}
    {before after : List Task} {t : CallTree}
    (h : Due answers limit work (.gathering ancestry name site none (before ++ y :: after)) t)
    (hxy : ∀ k c, Due answers limit k y c → ∃ m, Due answers limit m x c) :
    ∃ m, Due answers limit m (.gathering ancestry name site none (before ++ x :: after)) t := by
  obtain ⟨-, debts, htasks, hdebts, rfl⟩ := h.of_gathering
  obtain ⟨before, _, rfl, rfl, hrest⟩ := List.map_eq_append_iff.mp htasks
  obtain ⟨d, after, rfl, rfl, rfl⟩ := List.map_eq_cons_iff.mp hrest
  rw [List.forall_mem_append, List.forall_mem_cons] at hdebts
  obtain ⟨hbefore, hd, hafter⟩ := hdebts
  obtain ⟨m, hm⟩ := hxy _ _ hd
  have hdebts : ∀ e ∈ before ++ ⟨x, m, d.tree⟩ :: after,
      Due answers limit e.work e.task e.tree := by
    rw [List.forall_mem_append, List.forall_mem_cons]
    exact ⟨hbefore, hm, hafter⟩
  have hgroup : Due answers limit _ (.gathering ancestry name site none _) _ := .gathering hdebts
  exact ⟨_, by simpa using hgroup⟩

theorem due_map_done (ancestry : Ancestry) (name : Text) (site : Option Occurrence)
    (callers : List CallTree) :
    ∃ n, Due answers limit n (gathering ancestry name site none (callers.map .done))
      (.node (expandedHead limit ancestry name site callers.length) callers) := by
  have hdebts : ∀ d ∈ callers.map fun c => (⟨.done c, [], c⟩ : Debt),
      Due answers limit d.work d.task d.tree := by
    intro d hd
    obtain ⟨c, -, rfl⟩ := List.mem_map.mp hd
    exact .done c
  have hgroup : Due answers limit _ (.gathering ancestry name site none _) _ := .gathering hdebts
  exact ⟨_, by simpa [Function.comp_def] using hgroup⟩

/-- **A tree that is due after a step was due before it.** -/
theorem Due.of_step
    (hanswers : ∀ n depth calls, expandedSites l tree n depth w = .ok calls w' → answers n calls)
    (hstep : Step l tree limit fanout false x w y w') {work : Work} {t : CallTree}
    (h : Due answers limit work y t) : ∃ m, Due answers limit m x t := by
  generalize hlive : false = cancelled at hstep
  induction hstep generalizing work t with
  | leaf hleaf =>
    obtain ⟨-, rfl⟩ := h.of_done
    exact ⟨_, .leaf hleaf⟩
  | expand hexpanded => exact ⟨_, .expanded hexpanded h⟩
  | terminate _ hstop =>
    obtain ⟨-, rfl⟩ := h.of_done
    exact ⟨_, .terminal hstop⟩
  | enter _ hnew => exact ⟨_, .entering hnew h⟩
  | locate hsites => exact ⟨_, .locating (hanswers _ _ _ hsites) h⟩
  | locate_cancelled => cases hlive
  | refuse | refuse_cancelled => exact absurd h not_due_failed
  | locate_fails | locate_fails_cancelled | finish_fails => exact absurd h not_due_failed
  | start before after _ =>
    obtain ⟨rfl, -⟩ := h.of_gathering
    exact h.replace fun k c hc => ⟨_, .waiting hc⟩
  | advance before after _ ih =>
    obtain ⟨rfl, -⟩ := h.of_gathering
    exact h.replace fun k c hc => ih hanswers hc (by simpa using hlive)
  | @record _ _ _ _ _ _ fault =>
    obtain ⟨hfault, -⟩ := h.of_gathering
    cases fault <;> simp at hfault
  | finish callers =>
    obtain ⟨-, rfl⟩ := h.of_done
    exact due_map_done _ _ _ callers

/-- A group that is due a tree has a tree due in each of its slots. -/
theorem Due.of_mem_slots {work : Work} {ancestry : Ancestry} {name : Text}
    {site : Option Occurrence} {fault : Option Failure} {slots : List Task} {t : CallTree}
    (h : Due answers limit work (.gathering ancestry name site fault slots) t) (hx : x ∈ slots) :
    ∃ k c, Due answers limit k x c := by
  obtain ⟨-, debts, rfl, hdebts, -⟩ := h.of_gathering
  obtain ⟨d, hd, rfl⟩ := List.mem_map.mp hx
  exact ⟨d.work, d.tree, hdebts d hd⟩

/-- What looks at the context and successful lookups keep is kept by every step after which a tree
is still due: nothing has failed then, and no group is cancelled. -/
theorem Step.inv_of_due {Inv : World → Prop}
    (hcheck : ∀ v v', Inv v → Run.check v = .ok () v' → Inv v')
    (hsites : ∀ n depth v calls v', Inv v → expandedSites l tree n depth v = .ok calls v' → Inv v')
    (hstep : Step l tree limit fanout false x w y w') {work : Work} {t : CallTree}
    (h : Due answers limit work y t) (hw : Inv w) : Inv w' := by
  generalize hlive : false = cancelled at hstep
  induction hstep generalizing work t with
  | leaf | expand | start | record | finish => exact hw
  | refuse | refuse_cancelled => exact absurd h not_due_failed
  | locate_fails | locate_fails_cancelled | finish_fails => exact absurd h not_due_failed
  | terminate hcontext => exact hcheck _ _ hw hcontext
  | enter hcontext => exact hcheck _ _ hw hcontext
  | locate hcalls => exact hsites _ _ _ _ _ hw hcalls
  | locate_cancelled => cases hlive
  | advance before after _ ih =>
    obtain ⟨rfl, -⟩ := h.of_gathering
    obtain ⟨k, c, hc⟩ := h.of_mem_slots (List.mem_append_right before List.mem_cons_self)
    exact ih hc hw (by simpa using hlive)

/-- The same over a number of steps, and backwards: what is due at the end was due at the start.
Which trees are due at the end does not matter for the first part, so it goes through with any
answers, and the lookups on the way are known before they are used. -/
theorem Steps.due_of_due {Inv : World → Prop}
    (hcheck : ∀ v v', Inv v → Run.check v = .ok () v' → Inv v')
    (hsites : ∀ n depth v calls v', Inv v → expandedSites l tree n depth v = .ok calls v' →
      answers n calls ∧ Inv v')
    {k : Nat} (hsteps : Steps l tree limit fanout k x w y w') (hw : Inv w) {work : Work}
    {t : CallTree} (h : Due (fun _ _ => True) limit work y t) :
    Inv w' ∧ ∀ m u, Due answers limit m y u → ∃ m', Due answers limit m' x u := by
  induction hsteps generalizing work t with
  | refl => exact ⟨hw, fun m _ hu => ⟨m, hu⟩⟩
  | tail _ hstep ih =>
    obtain ⟨_, h'⟩ := h.of_step (fun _ _ _ _ => trivial) hstep
    obtain ⟨hv, hback⟩ := ih hw h'
    refine ⟨hstep.inv_of_due hcheck (fun n d v c v' hv hc => (hsites n d v c v' hv hc).2) h hv, ?_⟩
    intro m u hu
    obtain ⟨m', hm'⟩ := hu.of_step (fun n d calls hc => (hsites n d _ calls _ hv hc).1) hstep
    exact hback m' u hm'

end Task

/-! ### Returned trees -/

/-- The tree is returned by a resolution of `name` that begins in the world `w`: by one without
tasks, or by one with any number of tasks at a time, in some order of their steps. -/
inductive Returned (l : Locator) (tree : SourceTree) (limit : Int) (name : Text) (w : World)
    (t : CallTree) : Prop
  | sequential {w' : World} (h : build l tree limit name w = .ok t w')
  | interleaved {fanout k : Nat} {w' : World}
      (h : Task.Steps l tree limit fanout k (.root limit name) w (.done t) w')

/-- A returned tree is grown, from what the lookups answer in the worlds that occur. -/
theorem Returned.grown {Inv : World → Prop}
    (hcheck : ∀ v v', Inv v → Run.check v = .ok () v' → Inv v')
    (hsites : ∀ n depth v calls v', Inv v → expandedSites l tree n depth v = .ok calls v' →
      answers n calls ∧ Inv v')
    {name : Text} {w : World} {t : CallTree} (hw : Inv w) (h : Returned l tree limit name w t) :
    Grown answers limit limit.toNat [] name none t := by
  cases h with
  | sequential h => exact (grown_of_grow hcheck hsites limit.toNat [] name hw h).1
  | interleaved hsteps =>
    obtain ⟨-, hback⟩ := hsteps.due_of_due hcheck hsites hw (.done t)
    obtain ⟨work, hwork⟩ := hback [] t (.done t)
    exact Task.grown_of_due _ _ _ _ _ _ hwork

/-- In particular it is grown whatever the locator does. -/
theorem grown_of_returned {name : Text} {w : World} {t : CallTree}
    (h : Returned l tree limit name w t) :
    Grown (fun _ _ => True) limit limit.toNat [] name none t :=
  h.grown (fun _ _ _ _ => trivial) (fun _ _ _ _ _ _ _ => ⟨trivial, trivial⟩) trivial

/-! ### Locators that answer by name -/

/-- A lookup that fails in a steady world fails in the locator. -/
theorem locate_of_expandedSites_error (hl : l.IsByName tree fs) {w w' : World} (hw : w.IsSteady fs)
    {name : Text} {depth : Nat} {f : Failure}
    (h : expandedSites l tree name depth w = .error f w') :
    l.locate name tree w = .error f w' ∧ w'.IsSteady fs := by
  obtain ⟨r, hr⟩ := hl name
  cases r with
  | ok os =>
    have hcalls := answers_callsAmong fs tree name os
    exact absurd h ((answers_expandedSites (hr.bind hcalls) depth).not_error hw)
  | error e =>
    obtain ⟨v, hv, hlocate⟩ := hr w hw
    have hsites : expandedSites l tree name depth w = Run.ofExcept (.error e) v :=
      Run.bind_of_error (Run.bind_of_error hlocate _) _
    rw [h] at hsites
    cases hsites
    exact ⟨hlocate, hv⟩

/-- Whatever the tasks do, files and context stay as they are. -/
theorem Task.Step.isSteady (hl : l.IsByName tree fs) {fanout : Nat} {cancelled : Bool} {x y : Task}
    {w w' : World} (h : Task.Step l tree limit fanout cancelled x w y w') (hw : w.IsSteady fs) :
    w'.IsSteady fs := by
  induction h with
  | leaf | expand | refuse_cancelled | start | record | finish | finish_fails => exact hw
  | refuse hcheck => exact absurd hcheck ((Run.Answers.check fs).not_error hw)
  | terminate hcheck => exact hw.check hcheck
  | enter hcheck => exact hw.check hcheck
  | locate hsites => exact (answers_callSites_of_expandedSites hl hw hsites).2
  | locate_fails hsites => exact (locate_of_expandedSites_error hl hw hsites).2
  | locate_cancelled hfiles hcontext => exact ⟨hfiles.trans hw.files, hcontext.trans hw.context⟩
  | locate_fails_cancelled hfiles hcontext =>
    exact ⟨hfiles.trans hw.files, hcontext.trans hw.context⟩
  | advance _ _ _ ih => exact ih hw

theorem Task.Steps.isSteady (hl : l.IsByName tree fs) {fanout k : Nat} {x y : Task} {w w' : World}
    (hsteps : Task.Steps l tree limit fanout k x w y w') (hw : w.IsSteady fs) : w'.IsSteady fs := by
  induction hsteps with
  | refl => exact hw
  | tail _ hstep ih => exact hstep.isSteady hl (ih hw)

/-- A tree that is due at the start stays due. -/
theorem Task.Steps.exists_due (hl : l.IsByName tree fs) {fanout k : Nat} {x y : Task}
    {w w' : World} (hsteps : Task.Steps l tree limit fanout k x w y w') (hw : w.IsSteady fs)
    {work : Task.Work} {t : CallTree} (h : Task.Due (FoundFor fs l tree) limit work x t) :
    ∃ m, Task.Due (FoundFor fs l tree) limit m y t := by
  obtain ⟨-, rest, -, -, hrest, -⟩ := h.steps hl hw hsteps
  exact ⟨rest, hrest⟩

/-- **Every way to resolve returns the grown tree, and no other.** -/
theorem returned_iff_grown (hl : l.IsByName tree fs) {w : World} (hw : w.IsSteady fs) {name : Text}
    {t : CallTree} :
    Returned l tree limit name w t ↔
      Grown (FoundFor fs l tree) limit limit.toNat [] name none t := by
  constructor
  · exact fun h => h.grown (fun _ _ hv hv' => hv.check hv')
      (fun _ _ _ _ _ hv hcalls => answers_callSites_of_expandedSites hl hv hcalls) hw
  · intro h
    obtain ⟨v, hv⟩ := (build_ok_iff_grown hl hw).mpr h
    exact .sequential hv

theorem Returned.eq_of_grown (hl : l.IsByName tree fs) {w : World} (hw : w.IsSteady fs)
    {name : Text} {t u : CallTree} (hu : Returned l tree limit name w u)
    (h : Grown (FoundFor fs l tree) limit limit.toNat [] name none t) : u = t := by
  obtain ⟨v, hv⟩ := (build_ok_iff_grown hl hw).mpr h
  obtain ⟨v', hv'⟩ := (build_ok_iff_grown hl hw).mpr ((returned_iff_grown hl hw).mp hu)
  rw [hv] at hv'
  cases hv'
  rfl

end Hierarchy

end CallerTree
