import CallerTree.Proofs.FirstFailure
import CallerTree.Proofs.Lookups
import CallerTree.Proofs.Shape

/-!
# Resolving with one task at a time

A group that lets only one of its tasks run, and begins with the call sites in their order, does
what a loop over the call sites would do, as long as nothing fails. After a failure a loop would
stop. The group goes on: it begins with every call site that is left, and waits for it. That these
tasks make no lookup any more is due to the check at the entry of each function, which finds the
group cancelled.

## What is left to do

`Task.rest` is the run that a task still has to make, as a loop would make it: for a group, the
expansion of one slot after the other, and for a group with a recorded failure nothing but that
failure. A step makes the beginning of this run, and leaves the rest (`Task.Turn.sameEnd`). So all
resolutions that begin in the same way come to the same end, whatever is done in cancelled groups.

## Main definitions

* `Hierarchy.Task.Turn` — a step of a resolution with one task at a time, and what happens in it
* `Hierarchy.Task.Course` — a number of such steps
* `Hierarchy.Task.IsOrderly` — slots before the current one are over, and slots behind it wait
* `Hierarchy.Task.rest` — what is left to do

## Main results

* `Hierarchy.Task.Turn.isOrderly`, `Hierarchy.Task.Turn.sameEnd`, `Hierarchy.Task.Turn.balance` —
  one step
* `Hierarchy.Task.Course.sameEnd`, `Hierarchy.Task.Course.balance`,
  `Hierarchy.Task.exists_course` — whole resolutions
* `Hierarchy.lookups_are_made_in_preorder`
-/

namespace CallerTree

namespace Hierarchy

/-- The tree with the call site at which its function was found, if there is one. -/
def atSite (site : Option Occurrence) (t : CallTree) : CallTree :=
  match site with
  | none => t
  | some s => t.withSite s

namespace Task

/-! ### Steps and what happens in them -/

/-- What can be noticed in a resolution. -/
inductive Event where
  /-- A lookup was answered, and these are the call sites. -/
  | found (name : Text) (calls : List Call)
  /-- A lookup has failed. -/
  | missed (name : Text) (f : Failure)
  /-- The expansion of a call site of `target` was begun. -/
  | begun (target : Text) (call : Call)

namespace Event

/-- The lookup that was made, if any. -/
def lookup? : Event → Option Lookup
  | found name _ => some (.answered name)
  | missed name f => some ⟨name, some f⟩
  | begun _ _ => none

/-- The call sites that were found, each with the function called there. -/
def callsFound : Event → List (Text × Call)
  | found name calls => calls.map (name, ·)
  | _ => []

/-- The call site whose expansion was begun, if any, with the function called there. -/
def callsBegun : Event → List (Text × Call)
  | begun target call => [(target, call)]
  | _ => []

end Event

def isWaiting : Task → Bool
  | waiting .. => true
  | _ => false

/-- Whether the task is about to enter a function or to find that there is none to enter. -/
def isFresh : Task → Bool
  | started .. | entering .. => true
  | _ => false

/-- A step of a resolution with one task at a time, with what happens in it. It is a step with the
fanout 1; in addition, a group begins with its call sites in their order. -/
inductive Turn (l : Locator) (tree : SourceTree) (limit : Int) :
    (cancelled : Bool) → Task → World → List Event → Task → World → Prop
  | fresh {cancelled x w y w'} (hx : x.isFresh = true)
      (h : Step l tree limit 1 cancelled x w y w') : Turn l tree limit cancelled x w [] y w'
  | locate {levels ancestry name site w calls w'}
      (h : expandedSites l tree name ancestry.length w = .ok calls w') :
      Turn l tree limit false (locating levels ancestry name site) w [.found name calls]
        (gathering ancestry name site none (slots levels ancestry name calls)) w'
  | locate_fails {levels ancestry name site w f w'}
      (h : expandedSites l tree name ancestry.length w = .error f w') :
      Turn l tree limit false (locating levels ancestry name site) w [.missed name f] (failed f) w'
  | locate_cancelled {levels ancestry name site w calls w'} (hfiles : w'.files = w.files)
      (hcontext : w'.context = w.context) :
      Turn l tree limit true (locating levels ancestry name site) w [.found name calls]
        (gathering ancestry name site none (slots levels ancestry name calls)) w'
  | locate_fails_cancelled {levels ancestry name site w f w'} (hfiles : w'.files = w.files)
      (hcontext : w'.context = w.context) :
      Turn l tree limit true (locating levels ancestry name site) w [.missed name f] (failed f) w'
  | start {cancelled ancestry name site fault levels above target call w} (before after : List Task)
      (hbefore : ∀ x ∈ before, x.isWaiting = false)
      (hfree : (before ++ waiting levels above target call :: after).countP isInFlight < 1) :
      Turn l tree limit cancelled
        (gathering ancestry name site fault (before ++ waiting levels above target call :: after)) w
        [.begun target call]
        (gathering ancestry name site fault (before ++ started levels above target call :: after)) w
  | advance {cancelled ancestry name site w x es y w'} {fault : Option Failure}
      (before after : List Task)
      (h : Turn l tree limit (cancelled || fault.isSome) x w es y w') :
      Turn l tree limit cancelled
        (gathering ancestry name site fault (before ++ x :: after)) w es
        (gathering ancestry name site fault (before ++ y :: after)) w'
  | record {cancelled ancestry name site f w} {fault : Option Failure} (before after : List Task) :
      Turn l tree limit cancelled
        (gathering ancestry name site fault (before ++ failed f :: after)) w []
        (gathering ancestry name site (fault.or (some f)) (before ++ closed :: after)) w
  | finish {cancelled ancestry name site w} (callers : List CallTree) :
      Turn l tree limit cancelled
        (gathering ancestry name site none (callers.map done)) w []
        (done (.node (expandedHead limit ancestry name site callers.length) callers)) w
  | finish_fails {cancelled ancestry name site f w} {slots : List Task}
      (h : ∀ x ∈ slots, x.isOver = true) :
      Turn l tree limit cancelled (gathering ancestry name site (some f) slots) w [] (failed f) w

/-- Steps of a resolution with one task at a time, with what happens on the way. -/
inductive Course (l : Locator) (tree : SourceTree) (limit : Int) :
    Task → World → List Event → Task → World → Prop
  | refl {x w} : Course l tree limit x w [] x w
  | head {x w es y v fs z u} (hturn : Turn l tree limit false x w es y v)
      (hcourse : Course l tree limit y v fs z u) : Course l tree limit x w (es ++ fs) z u

variable {l : Locator} {tree : SourceTree} {limit : Int} {cancelled : Bool} {x y : Task}
  {w w' : World} {es : List Event}

/-- It is a step with the fanout 1. -/
theorem Turn.step (h : Turn l tree limit cancelled x w es y w') :
    Step l tree limit 1 cancelled x w y w' := by
  induction h with
  | fresh _ h => exact h
  | locate h => exact .locate h
  | locate_fails h => exact .locate_fails h
  | locate_cancelled hfiles hcontext => exact .locate_cancelled hfiles hcontext
  | locate_fails_cancelled hfiles hcontext => exact .locate_fails_cancelled hfiles hcontext
  | start before after _ hfree => exact .start before after hfree
  | advance before after _ ih => exact .advance before after ih
  | record before after => exact .record before after
  | finish callers => exact .finish callers
  | finish_fails h => exact .finish_fails h

theorem Step.not_idle {fanout : Nat} (h : Step l tree limit fanout cancelled x w y w') :
    x.isWaiting = false ∧ x.isOver = false := by
  cases h <;> exact ⟨rfl, rfl⟩

/-! ### One after the other -/

/-- Each slot is over, or those behind it wait. -/
def InOrder (slots : List Task) : Prop :=
  slots.Pairwise fun x y => x.isOver = true ∨ y.isWaiting = true

section InOrder

variable {before after : List Task}

theorem InOrder.isOver (h : InOrder (before ++ x :: after)) (hx : x.isWaiting = false) :
    ∀ y ∈ before, y.isOver = true := by
  intro y hy
  have hpair := (List.pairwise_append.mp h).2.2 y hy x List.mem_cons_self
  simpa [hx] using hpair

theorem InOrder.isWaiting (h : InOrder (before ++ x :: after)) (hx : x.isOver = false) :
    ∀ y ∈ after, y.isWaiting = true := by
  intro y hy
  have hpair := (List.pairwise_cons.mp (List.pairwise_append.mp h).2.1).1 y hy
  simpa [hx] using hpair

theorem inOrder_of_split (hbefore : ∀ y ∈ before, y.isOver = true)
    (hafter : ∀ y ∈ after, y.isWaiting = true) (x : Task) : InOrder (before ++ x :: after) := by
  refine List.pairwise_append.mpr ⟨?_, List.pairwise_cons.mpr ⟨?_, ?_⟩, ?_⟩
  · exact List.pairwise_of_forall_mem_list fun y hy _ _ => .inl (hbefore y hy)
  · exact fun y hy => .inr (hafter y hy)
  · exact List.pairwise_of_forall_mem_list fun _ _ y hy => .inr (hafter y hy)
  · exact fun y hy _ _ => .inl (hbefore y hy)

end InOrder

/-- Whether the task may bring up lookups. -/
def isBusy : Task → Bool
  | locating .. | gathering .. => true
  | _ => false

/-- Every group is in order, and one with a recorded failure has no task in it that may bring up
lookups. -/
inductive IsOrderly : Task → Prop
  | single {x : Task} (h : x.isGroup = false) : IsOrderly x
  | group {ancestry : Ancestry} {name : Text} {site : Option Occurrence} {fault : Option Failure}
      {slots : List Task} (horder : InOrder slots)
      (hfault : fault.isSome = true → ∀ x ∈ slots, x.isBusy = false)
      (h : ∀ x ∈ slots, IsOrderly x) : IsOrderly (gathering ancestry name site fault slots)

theorem isOrderly_gathering_iff {ancestry : Ancestry} {name : Text} {site : Option Occurrence}
    {fault : Option Failure} {slots : List Task} :
    IsOrderly (gathering ancestry name site fault slots) ↔
      InOrder slots ∧ (fault.isSome = true → ∀ x ∈ slots, x.isBusy = false) ∧
        ∀ x ∈ slots, IsOrderly x := by
  constructor
  · intro h
    cases h with
    | single h => exact absurd h Bool.noConfusion
    | group horder hfault h => exact ⟨horder, hfault, h⟩
  · rintro ⟨horder, hfault, h⟩
    exact .group horder hfault h

theorem isOrderly_slots {levels : Nat} {ancestry : Ancestry} {name : Text}
    {site : Option Occurrence} {calls : List Call} :
    IsOrderly (gathering ancestry name site none (slots levels ancestry name calls)) := by
  have hwaiting : ∀ x ∈ slots levels ancestry name calls,
      x.isWaiting = true ∧ x.isGroup = false := by
    intro x hx
    obtain ⟨call, -, rfl⟩ := List.mem_map.mp hx
    exact ⟨rfl, rfl⟩
  refine .group ?_ (fun h => absurd h Bool.noConfusion) fun x hx => .single (hwaiting x hx).2
  exact List.pairwise_of_forall_mem_list fun _ _ y hy => .inr (hwaiting y hy).1

/-- A group is orderly if the slots before one are over and those behind it wait. -/
theorem isOrderly_of_split {ancestry : Ancestry} {name : Text} {site : Option Occurrence}
    {fault : Option Failure} {before after : List Task} (hbefore : ∀ y ∈ before, y.isOver = true)
    (hafter : ∀ y ∈ after, y.isWaiting = true) (hx : x.IsOrderly)
    (hbusy : fault.isSome = true → x.isBusy = false) :
    IsOrderly (gathering ancestry name site fault (before ++ x :: after)) := by
  have hidle : ∀ y ∈ before ++ after, y.isBusy = false ∧ y.isGroup = false := by
    refine List.forall_mem_append.mpr ⟨fun y hy => ?_, fun y hy => ?_⟩
    · have hover := hbefore y hy
      cases y with
      | done | closed => exact ⟨rfl, rfl⟩
      | _ => exact absurd hover Bool.noConfusion
    · have hwaiting := hafter y hy
      cases y with
      | waiting => exact ⟨rfl, rfl⟩
      | _ => exact absurd hwaiting Bool.noConfusion
  obtain ⟨hidleBefore, hidleAfter⟩ := List.forall_mem_append.mp hidle
  refine .group (inOrder_of_split hbefore hafter x) (fun hsome => ?_) ?_
  · rw [List.forall_mem_append, List.forall_mem_cons]
    exact ⟨fun y hy => (hidleBefore y hy).1, hbusy hsome, fun y hy => (hidleAfter y hy).1⟩
  · rw [List.forall_mem_append, List.forall_mem_cons]
    exact ⟨fun y hy => .single (hidleBefore y hy).2, hx, fun y hy => .single (hidleAfter y hy).2⟩

/-- What a task does that is in a cancelled group and cannot bring up lookups. -/
theorem Turn.of_not_isBusy (h : Turn l tree limit true x w es y w') (hx : x.isBusy = false) :
    es = [] ∧ y.isBusy = false ∧ { w with context := w'.context } = w' := by
  cases h with
  | locate_cancelled | locate_fails_cancelled => exact absurd hx Bool.noConfusion
  | start | advance | record | finish | finish_fails => exact absurd hx Bool.noConfusion
  | fresh hfresh h =>
    cases h with
    | leaf | expand | refuse_cancelled => exact ⟨rfl, rfl, rfl⟩
    | refuse h =>
      obtain ⟨c, -, -, rfl⟩ := Run.check_error_iff.mp h
      exact ⟨rfl, rfl, rfl⟩
    | _ => exact absurd hfresh Bool.noConfusion

/-- With one slot at a time nothing starts while a sibling is busy, so the order is kept. -/
theorem Turn.isOrderly (h : Turn l tree limit cancelled x w es y w') (hx : x.IsOrderly) :
    y.IsOrderly := by
  induction h with
  | fresh hfresh h =>
    cases h with
    | leaf | expand | refuse | refuse_cancelled | terminate | enter => exact .single rfl
    | _ => exact absurd hfresh Bool.noConfusion
  | locate | locate_cancelled => exact isOrderly_slots
  | locate_fails | locate_fails_cancelled | finish | finish_fails => exact .single rfl
  | start before after hbefore hfree =>
    obtain ⟨horder, -, -⟩ := isOrderly_gathering_iff.mp hx
    -- no slot before this one waits, and none is in flight
    have hover : ∀ x ∈ before, x.isOver = true := by
      intro x hx
      have hbegun := hbefore x hx
      have hidle := List.countP_eq_zero.mp (Nat.lt_one_iff.mp hfree) x (List.mem_append_left _ hx)
      cases x with
      | done | closed => rfl
      | waiting => exact absurd hbegun Bool.noConfusion
      | started | entering | locating | gathering | failed => exact absurd rfl hidle
    exact isOrderly_of_split hover (horder.isWaiting rfl) (.single rfl) fun _ => rfl
  | @advance cancelled _ _ _ _ x es y _ fault before after h ih =>
    obtain ⟨horder, hfault, hslots⟩ := isOrderly_gathering_iff.mp hx
    have hmem : x ∈ before ++ x :: after := List.mem_append_right _ List.mem_cons_self
    obtain ⟨hwaiting, hover⟩ := h.step.not_idle
    refine isOrderly_of_split (horder.isOver hwaiting) (horder.isWaiting hover)
      (ih (hslots x hmem)) fun hsome => ?_
    rw [hsome, Bool.or_true] at h
    exact (h.of_not_isBusy (hfault hsome x hmem)).2.1
  | record before after =>
    obtain ⟨horder, -, -⟩ := isOrderly_gathering_iff.mp hx
    exact isOrderly_of_split (horder.isOver rfl) (horder.isWaiting rfl) (.single rfl) fun _ => rfl

/-! ### What is left to do -/

mutual

/-- What is left to do, as a loop over the call sites would do it. -/
def rest (l : Locator) (tree : SourceTree) (limit : Int) : Task → Watched CallTree
  | waiting levels ancestry target call | started levels ancestry target call =>
    expand (grow (Watched.lift Run.check) (Watched.sites l tree) limit levels ancestry
      ancestry.length) target ancestry.length call
  | entering levels ancestry name site => do
    let t ← grow (Watched.lift Run.check) (Watched.sites l tree) limit levels ancestry
      ancestry.length name
    return atSite site t
  | locating levels ancestry name site => do
    let calls ← Watched.sites l tree name ancestry.length
    let callers ← calls.mapM (expand (grow (Watched.lift Run.check) (Watched.sites l tree) limit
      levels (ancestry.extend name) (ancestry.length + 1)) name (ancestry.length + 1))
    return .node (expandedHead limit ancestry name site callers.length) callers
  | gathering ancestry name site none slots => do
    let callers ← restAll l tree limit slots
    return .node (expandedHead limit ancestry name site callers.length) callers
  | gathering _ _ _ (some f) _ => throw f
  | done t => return t
  | failed f => throw f
  | closed => return .absent

def restAll (l : Locator) (tree : SourceTree) (limit : Int) : List Task → Watched (List CallTree)
  | [] => return []
  | x :: xs => do
    let t ← x.rest l tree limit
    let ts ← restAll l tree limit xs
    return t :: ts

end

/-- Slots that are done have their trees. -/
theorem restAll_done_append (callers : List CallTree) (xs : List Task) :
    restAll l tree limit (callers.map done ++ xs) = do
      let ts ← restAll l tree limit xs
      return callers ++ ts := by
  induction callers with
  | nil => simp
  | cons t callers ih =>
    rw [List.map_cons, List.cons_append, restAll, ih, rest]
    simp

theorem restAll_done (callers : List CallTree) :
    restAll l tree limit (callers.map done) = pure callers := by
  induction callers with
  | nil => rw [List.map_nil, restAll]
  | cons t callers ih => rw [List.map_cons, restAll, ih, rest, pure_bind, pure_bind]

theorem restAll_congr (before after : List Task) (h : x.rest l tree limit = y.rest l tree limit) :
    restAll l tree limit (before ++ x :: after) = restAll l tree limit (before ++ y :: after) := by
  induction before with
  | nil => rw [List.nil_append, List.nil_append, restAll, restAll, h]
  | cons z before ih => rw [List.cons_append, List.cons_append, restAll, restAll, ih]

theorem restAll_slots (levels : Nat) (ancestry : Ancestry) (name : Text) (calls : List Call) :
    restAll l tree limit (slots levels ancestry name calls) =
      calls.mapM (expand (grow (Watched.lift Run.check) (Watched.sites l tree) limit
        levels (ancestry.extend name) (ancestry.length + 1)) name (ancestry.length + 1)) := by
  induction calls with
  | nil => rw [slots, List.map_nil, restAll, List.mapM_nil]
  | cons call calls ih =>
    rw [slots] at ih ⊢
    rw [List.map_cons, restAll, ih, rest, List.mapM_cons]
    rfl

/-- The two outcomes are the same, up to the context in which a failure was found. -/
inductive SameEnd {α : Type} : EStateM.Result Failure (World × List Lookup) α →
    EStateM.Result Failure (World × List Lookup) α → Prop
  | refl {r} : SameEnd r r
  | error {f w v made} (h : { w with context := v.context } = v) :
      SameEnd (.error f (w, made)) (.error f (v, made))

namespace SameEnd

variable {α β : Type}

theorem trans {r s t : EStateM.Result Failure (World × List Lookup) α} (hrs : SameEnd r s)
    (hst : SameEnd s t) : SameEnd r t := by
  cases hrs with
  | refl => exact hst
  | error h =>
    cases hst with
    | refl => exact .error h
    | error h' => exact .error (by rw [← h', ← h])

protected theorem bind {a b : Watched α} {s t : World × List Lookup}
    (h : SameEnd (a s) (b t)) (f : α → Watched β) : SameEnd ((a >>= f) s) ((b >>= f) t) := by
  generalize ha : a s = r at h
  generalize hb : b t = r' at h
  cases h with
  | @refl r =>
    cases r with
    | ok x u =>
      rw [Watched.bind_of_ok ha, Watched.bind_of_ok hb]
      exact .refl
    | error e u =>
      rw [Watched.bind_of_error ha, Watched.bind_of_error hb]
      exact .refl
  | error h =>
    rw [Watched.bind_of_error ha, Watched.bind_of_error hb]
    exact .error h

end SameEnd

/-- The lookups among what has happened. -/
def lookupsIn (es : List Event) : List Lookup := es.filterMap Event.lookup?

theorem append_lookupsIn_nil (made : List Lookup) : made ++ lookupsIn [] = made :=
  List.append_nil made

theorem append_lookupsIn_append (made : List Lookup) (es fs : List Event) :
    made ++ lookupsIn (es ++ fs) = made ++ lookupsIn es ++ lookupsIn fs := by
  rw [lookupsIn, List.filterMap_append, ← List.append_assoc]
  rfl

theorem atSite_terminal (site : Option Occurrence) (ancestry : Ancestry) (name : Text) :
    atSite site (terminal limit ancestry ancestry.length name) =
      .node (terminalHead limit ancestry name site) [] := by
  cases site <;> rfl

theorem atSite_expanded (site : Option Occurrence) (ancestry : Ancestry) (name : Text)
    (callers : List CallTree) :
    atSite site (.node {
        name, depth := ancestry.length,
        total := callers.length,
        atDepthLimit := nearLimit limit ancestry.length } callers) =
      .node (expandedHead limit ancestry name site callers.length) callers := by
  cases site <;> rfl

/-- A fresh task goes on as a loop would. -/
theorem rest_of_isFresh (h : Step l tree limit 1 false x w y w') (hx : x.isFresh = true)
    (made : List Lookup) : x.rest l tree limit (w, made) = y.rest l tree limit (w', made) := by
  cases h with
  | leaf h =>
    rw [rest, rest, expand, if_neg (by simp [h])]
  | expand h =>
    rw [rest, rest, expand, if_pos h]
    rfl
  | @refuse _ levels _ _ _ _ _ _ h =>
    rw [rest, rest]
    cases levels with
    | zero =>
      rw [grow, bind_assoc, Watched.bind_of_error (Watched.lift_of_error h made)]
      rfl
    | succ levels =>
      rw [grow, bind_assoc, Watched.bind_of_error (Watched.lift_of_error h made)]
      rfl
  | @terminate levels ancestry name site _ _ h hstop =>
    rw [rest, rest, ← atSite_terminal]
    cases levels with
    | zero =>
      rw [grow, bind_assoc, Watched.bind_of_ok (Watched.lift_of_ok h made), pure_bind]
    | succ levels =>
      have hhas : ancestry.has name = true := Ancestry.has_iff.mpr (hstop.resolve_left (by simp))
      rw [grow, bind_assoc, Watched.bind_of_ok (Watched.lift_of_ok h made), if_pos hhas, pure_bind]
  | @enter levels ancestry name site _ _ h hnew =>
    have hhas : ¬ ancestry.has name = true := mt Ancestry.has_iff.mp hnew
    rw [rest, rest, grow, bind_assoc, Watched.bind_of_ok (Watched.lift_of_ok h made), if_neg hhas]
    simp only [bind_assoc, pure_bind, atSite_expanded]
  | _ => exact absurd hx Bool.noConfusion

/-- In an orderly group without a failure, the slots before the current one have their trees. -/
theorem exists_callers {before after : List Task} (horder : InOrder (before ++ x :: after))
    (hx : x.isWaiting = false) (hclosed : closed ∉ before ++ x :: after) :
    ∃ callers : List CallTree, before = callers.map done := by
  have hdone : ∀ y ∈ before, ∃ t, done t = y := by
    intro y hy
    have hover := horder.isOver hx y hy
    cases y with
    | done t => exact ⟨t, rfl⟩
    | closed => exact absurd (List.mem_append_left _ hy) hclosed
    | _ => exact absurd hover Bool.noConfusion
  obtain ⟨callers, rfl⟩ : before ∈ Set.range (List.map done) := Set.range_list_map _ ▸ hdone
  exact ⟨callers, rfl⟩

/-- **A step leaves the rest.** What is left to do before a step is what happens in it, and then
what is left to do after it. -/
theorem Turn.sameEnd (h : Turn l tree limit false x w es y w') (hx : x.IsOrderly)
    (htidy : x.IsTidy) (made : List Lookup) :
    SameEnd (x.rest l tree limit (w, made)) (y.rest l tree limit (w', made ++ lookupsIn es)) := by
  generalize hlive : false = cancelled at h
  induction h with
  | fresh hfresh h =>
    subst hlive
    rw [append_lookupsIn_nil, rest_of_isFresh h hfresh]
    exact .refl
  | @locate levels ancestry name site _ calls _ h =>
    rw [rest, Watched.bind_of_ok (Watched.sites_of_ok h made), rest, restAll_slots]
    exact .refl
  | @locate_fails levels ancestry name site _ f _ h =>
    rw [rest, Watched.bind_of_error (Watched.sites_of_error h made), rest]
    exact .refl
  | locate_cancelled | locate_fails_cancelled => cases hlive
  | @start _ ancestry name site fault levels above target call _ before after =>
    have hnone : lookupsIn [.begun target call] = [] := rfl
    rw [hnone, List.append_nil]
    cases fault with
    | some f =>
      rw [rest, rest]
      exact .refl
    | none =>
      rw [rest, rest, restAll_congr before after (x := waiting levels above target call)
        (y := started levels above target call) (by rw [rest, rest])]
      exact .refl
  | @advance _ _ _ _ _ x es y _ fault before after h ih =>
    obtain ⟨horder, hfault, hslots⟩ := isOrderly_gathering_iff.mp hx
    obtain ⟨hclosed, htidies⟩ := isTidy_gathering_iff.mp htidy
    have hmem : x ∈ before ++ x :: after := List.mem_append_right _ List.mem_cons_self
    subst hlive
    cases fault with
    | some f =>
      -- a task that is only refused shows in the context and nowhere else
      obtain ⟨rfl, -, hcontext⟩ := h.of_not_isBusy (hfault rfl x hmem)
      rw [rest, rest, append_lookupsIn_nil]
      exact .error hcontext
    | none =>
      obtain ⟨callers, rfl⟩ := exists_callers horder h.step.not_idle.1 (hclosed rfl)
      rw [rest, rest, restAll_done_append, restAll_done_append, restAll, restAll]
      exact (((ih (hslots x hmem) (htidies x hmem) rfl).bind _).bind _).bind _
  | @record _ _ _ _ f _ fault before after =>
    obtain ⟨horder, -, -⟩ := isOrderly_gathering_iff.mp hx
    obtain ⟨hclosed, -⟩ := isTidy_gathering_iff.mp htidy
    rw [append_lookupsIn_nil]
    cases fault with
    | some g =>
      rw [Option.some_or, rest, rest]
      exact .refl
    | none =>
      -- the loop stops at this slot, since those before it have their trees
      obtain ⟨callers, rfl⟩ := exists_callers horder rfl (hclosed rfl)
      rw [Option.none_or, rest, rest, restAll_done_append, restAll, rest]
      exact .refl
  | finish callers =>
    rw [append_lookupsIn_nil, rest, rest, restAll_done]
    exact .refl
  | finish_fails h =>
    rw [append_lookupsIn_nil, rest, rest]
    exact .refl

/-! ### Call sites that were found and begun with -/

/-- The call sites that were found, among what has happened. -/
def foundIn (es : List Event) : List (Text × Call) := es.flatMap Event.callsFound

/-- The call sites whose expansion was begun, among what has happened. -/
def begunIn (es : List Event) : List (Text × Call) := es.flatMap Event.callsBegun

mutual

/-- The call sites that no one has begun to expand, each with the function called there. -/
def waitingCalls : Task → List (Text × Call)
  | waiting _ _ target call => [(target, call)]
  | gathering _ _ _ _ slots => waitingCallsAll slots
  | _ => []

def waitingCallsAll : List Task → List (Text × Call)
  | [] => []
  | x :: xs => x.waitingCalls ++ waitingCallsAll xs

end

theorem waitingCallsAll_append (xs ys : List Task) :
    waitingCallsAll (xs ++ ys) = waitingCallsAll xs ++ waitingCallsAll ys := by
  induction xs with
  | nil => rw [List.nil_append, waitingCallsAll, List.nil_append]
  | cons x xs ih => rw [List.cons_append, waitingCallsAll, waitingCallsAll, ih, List.append_assoc]

theorem waitingCallsAll_of_isOver {xs : List Task} (h : ∀ x ∈ xs, x.isOver = true) :
    waitingCallsAll xs = [] := by
  induction xs with
  | nil => rw [waitingCallsAll]
  | cons x xs ih =>
    obtain ⟨hx, hxs⟩ := List.forall_mem_cons.mp h
    rw [waitingCallsAll, ih hxs, List.append_nil]
    cases x with
    | done | closed => rw [waitingCalls] <;> simp
    | _ => exact absurd hx Bool.noConfusion

theorem waitingCallsAll_slots (levels : Nat) (ancestry : Ancestry) (name : Text)
    (calls : List Call) :
    waitingCallsAll (slots levels ancestry name calls) = calls.map (name, ·) := by
  induction calls with
  | nil => rw [slots, List.map_nil, waitingCallsAll, List.map_nil]
  | cons call calls ih =>
    rw [slots] at ih ⊢
    rw [List.map_cons, waitingCallsAll, ih, waitingCalls, List.map_cons, List.singleton_append]

/-- A call site waits from when it is found until it is begun with. -/
theorem Turn.balance (h : Turn l tree limit cancelled x w es y w') (p : Text × Call) :
    (begunIn es).count p + y.waitingCalls.count p =
      x.waitingCalls.count p + (foundIn es).count p := by
  simp only [begunIn, foundIn]
  induction h with
  | fresh hfresh h =>
    cases h with
    | leaf | expand | refuse | refuse_cancelled | terminate | enter => simp [waitingCalls]
    | _ => exact absurd hfresh Bool.noConfusion
  | locate | locate_cancelled =>
    simp [waitingCalls, waitingCallsAll_slots, Event.callsFound, Event.callsBegun]
  | locate_fails | locate_fails_cancelled =>
    simp [waitingCalls, Event.callsFound, Event.callsBegun]
  | start before after =>
    simp only [waitingCalls, waitingCallsAll_append, waitingCallsAll, List.count_append,
      List.flatMap_cons, List.flatMap_nil, Event.callsFound, Event.callsBegun, List.count_nil]
    omega
  | advance before after h ih =>
    simp only [waitingCalls, waitingCallsAll_append, waitingCallsAll, List.count_append]
    omega
  | record before after => simp [waitingCalls, waitingCallsAll_append, waitingCallsAll]
  | finish callers =>
    have hover : ∀ x ∈ callers.map done, x.isOver = true := by simp [isOver]
    simp [waitingCalls, waitingCallsAll_of_isOver hover]
  | finish_fails hover => simp [waitingCalls, waitingCallsAll_of_isOver hover]

/-! ### Whole resolutions -/

theorem Course.sameEnd (h : Course l tree limit x w es y w') (hx : x.IsOrderly) (htidy : x.IsTidy)
    (made : List Lookup) :
    SameEnd (x.rest l tree limit (w, made)) (y.rest l tree limit (w', made ++ lookupsIn es)) := by
  induction h generalizing made with
  | refl =>
    rw [append_lookupsIn_nil]
    exact .refl
  | head hturn _ ih =>
    rw [append_lookupsIn_append]
    exact (hturn.sameEnd hx htidy made).trans
      (ih (hturn.isOrderly hx) (hturn.step.isTidy htidy) _)

theorem Course.balance (h : Course l tree limit x w es y w') (p : Text × Call) :
    (begunIn es).count p + y.waitingCalls.count p =
      x.waitingCalls.count p + (foundIn es).count p := by
  induction h with
  | refl => simp [begunIn, foundIn]
  | head hturn _ ih =>
    have hfirst := hturn.balance p
    simp only [begunIn, foundIn, List.flatMap_append, List.count_append] at *
    omega

/-- Where any step is possible, there is one in the order of the call sites. -/
theorem Step.exists_turn (h : Step l tree limit 1 cancelled x w y w') :
    ∃ es y' u, Turn l tree limit cancelled x w es y' u := by
  induction h with
  | leaf h => exact ⟨_, _, _, .fresh rfl (.leaf h)⟩
  | expand h => exact ⟨_, _, _, .fresh rfl (.expand h)⟩
  | refuse h => exact ⟨_, _, _, .fresh rfl (.refuse h)⟩
  | refuse_cancelled => exact ⟨_, _, _, .fresh rfl .refuse_cancelled⟩
  | terminate h hstop => exact ⟨_, _, _, .fresh rfl (.terminate h hstop)⟩
  | enter h hnew => exact ⟨_, _, _, .fresh rfl (.enter h hnew)⟩
  | locate h => exact ⟨_, _, _, .locate h⟩
  | locate_fails h => exact ⟨_, _, _, .locate_fails h⟩
  | @locate_cancelled _ _ name _ _ calls _ hfiles hcontext =>
    exact ⟨[.found name calls], _, _, .locate_cancelled hfiles hcontext⟩
  | locate_fails_cancelled hfiles hcontext =>
    exact ⟨_, _, _, .locate_fails_cancelled (f := .cause .canceled) hfiles hcontext⟩
  | @start _ _ _ _ _ levels above target call _ before after hfree =>
    generalize hslots : before ++ waiting levels above target call :: after = slots at hfree
    -- another slot may wait before this one
    have hwaiting : (slots.find? isWaiting).isSome = true := by
      rw [List.find?_isSome, ← hslots]
      exact ⟨_, List.mem_append_right _ List.mem_cons_self, rfl⟩
    obtain ⟨x, hfind⟩ := Option.isSome_iff_exists.mp hwaiting
    obtain ⟨hx, before, after, rfl, hbefore⟩ := List.find?_eq_some_iff_append.mp hfind
    cases x with
    | waiting => exact ⟨_, _, _, .start before after (by simpa using hbefore) hfree⟩
    | _ => exact absurd hx Bool.noConfusion
  | advance before after _ ih =>
    obtain ⟨es, y', u, h⟩ := ih
    exact ⟨es, _, u, .advance before after h⟩
  | record before after => exact ⟨_, _, _, .record before after⟩
  | finish callers => exact ⟨_, _, _, .finish callers⟩
  | finish_fails h => exact ⟨_, _, _, .finish_fails h⟩

/-- Whether the task has begun, and has not been closed. -/
def isUnderway (x : Task) : Bool := x.isActive || x.outcome?.isSome

theorem Step.isUnderway (h : Step l tree limit 1 cancelled x w y w') : y.isUnderway = true := by
  cases y with
  | waiting levels ancestry target call => exact absurd rfl (h.ne_waiting _ _ _ _)
  | closed => exact absurd rfl h.ne_closed
  | _ => rfl

/-- A resolution with one task at a time comes to something. -/
theorem exists_course (x : Task) (w : World) (htidy : x.IsTidy) (hx : x.isUnderway = true) :
    ∃ es y v, Course l tree limit x w es y v ∧ y.outcome?.isSome = true := by
  have hwf : WellFounded (Relation.CutExpand fun m n : ℕ => m < n) := wellFounded_lt.cutExpand
  induction hstages : x.stages using hwf.induction generalizing x w with
  | _ stages ih =>
    cases hactive : x.isActive with
    | false =>
      rw [Task.isUnderway, hactive, Bool.false_or] at hx
      exact ⟨[], x, w, .refl, hx⟩
    | true =>
      obtain ⟨_, _, hstep⟩ := htidy.exists_step (Nat.le_refl 1) hactive
      obtain ⟨es, y, v, hturn⟩ := hstep.exists_turn
      obtain ⟨fs, z, u, hcourse, hz⟩ := ih y.stages (hstages ▸ hturn.step.cutExpand) y v
        (hturn.step.isTidy htidy) hturn.step.isUnderway rfl
      exact ⟨es ++ fs, z, u, .head hturn hcourse, hz⟩

theorem rest_root (l : Locator) (tree : SourceTree) (limit : Int) (name : Text) :
    (root limit name).rest l tree limit = Watched.build l tree limit name := by
  rw [root, rest]
  exact bind_pure _

/-- Where a resolution has come to something, no call site waits any more. -/
theorem Course.perm {name : Text} (h : Course l tree limit (.root limit name) w es x w')
    (hx : x.outcome?.isSome = true) : (begunIn es).Perm (foundIn es) := by
  refine List.perm_iff_count.mpr fun p => ?_
  have hbalance := h.balance p
  cases x with
  | done t => simpa [waitingCalls, root] using hbalance
  | failed f => simpa [waitingCalls, root] using hbalance
  | _ => exact absurd hx Bool.noConfusion

/-- What the resolution has come to is what the loop comes to. -/
theorem Course.sameEnd_build {name : Text} (h : Course l tree limit (.root limit name) w es x w') :
    SameEnd (Watched.build l tree limit name (w, []))
      (x.rest l tree limit (w', lookupsIn es)) := by
  rw [← rest_root]
  exact h.sameEnd (.single rfl) (.single rfl) []

end Task

/-- **One lookup for each function that is expanded, in pre-order, and none after a failure.**

* A resolution that succeeds has looked up the functions of its tree that can be expanded, in
  pre-order, and each was answered. If a chain leads the lookups, then it has counted that many
  answers.
* In a resolution that fails, all lookups but the last were answered. Either the last one failed,
  and with its failure the resolution, or the context has ended.
* A resolution with one task at a time always comes to something: to the same tree in the same
  world, or to the same failure. It has made the same lookups, and has begun with every call site
  that was found, be it after the failure. -/
theorem lookups_are_made_in_preorder (l : Locator) (tree : SourceTree) (limit : Int) (name : Text)
    (w : World) :
    (∀ t v, build l tree limit name w = .ok t v →
      Watched.build l tree limit name (w, []) = .ok t (v, (t.expanded limit none).map .answered) ∧
      ∀ ls, l = .chain ls → (∀ m ∈ ls, m.CountsNothing) →
        v.answers = w.answers + (t.expanded limit none).length) ∧
    (∀ f v, build l tree limit name w = .error f v →
      ∃ made, Watched.build l tree limit name (w, []) = .error f (v, made) ∧ Breaks made f v) ∧
    (∃ es x v, Task.Course l tree limit (.root limit name) w es x v ∧ x.outcome?.isSome = true) ∧
    ∀ es x v, Task.Course l tree limit (.root limit name) w es x v →
      (x.outcome?.isSome = true → (Task.begunIn es).Perm (Task.foundIn es)) ∧
      (∀ t, x = .done t → Watched.build l tree limit name (w, []) = .ok t (v, Task.lookupsIn es)) ∧
      ∀ f, x = .failed f → ∃ u, { u with context := v.context } = v ∧
        Watched.build l tree limit name (w, []) = .error f (u, Task.lookupsIn es) := by
  refine ⟨fun t v h => ?_, fun f v h => Watched.build_of_error h,
    Task.exists_course _ w (.single rfl) rfl, fun es x v hcourse => ⟨hcourse.perm, ?_, ?_⟩⟩
  · obtain ⟨hwatched, hcount⟩ := Watched.build_of_ok h
    refine ⟨hwatched, ?_⟩
    rintro ls rfl hls
    exact hcount (Locator.countsAnswers_chain hls)
  · rintro t rfl
    have hend := hcourse.sameEnd_build
    generalize Watched.build l tree limit name (w, []) = r at hend ⊢
    rw [Task.rest] at hend
    cases hend with
    | refl => rfl
  · rintro f rfl
    have hend := hcourse.sameEnd_build
    generalize Watched.build l tree limit name (w, []) = r at hend ⊢
    rw [Task.rest] at hend
    cases hend with
    | refl => exact ⟨v, rfl, rfl⟩
    | error h => exact ⟨_, h, rfl⟩

/-- A run in which the lookup of `g` fails. The group begins with `h` all the same, and `h` is
refused. -/
theorem exists_course_twoFailures :
    ∃ g h v, Task.Course twoFailures ⟨"/src", []⟩ 2 (.root 2 "f") { files := .empty }
        [.found "f" [g, h], .begun "f" g, .missed "g" (.message "g"), .begun "f" h]
        (.failed (.message "g")) v ∧
      g.caller = "g" ∧ h.caller = "h" := by
  obtain ⟨g, h, v, hcalls, hg, hh, hv⟩ := exists_sites_twoFailures
  have hfails : expandedSites twoFailures ⟨"/src", []⟩ g.caller 1 v = .error (.message "g") v := by
    rw [hg]
    rfl
  have hexpanded : isExpanded "f" g = true ∧ isExpanded "f" h = true := by
    simp only [isExpanded, hg, hh]
    decide
  let group (fault : Option Failure) (x y : Task) : Task := .gathering [] "f" none fault [x, y]
  have hrefused : Task.Course twoFailures ⟨"/src", []⟩ 2
      (group (some (.message "g")) .closed (.waiting 1 ["f"] "f" h)) v [.begun "f" h]
      (.failed (.message "g")) v :=
    .head (.start [.closed] [] (by simp [Task.isWaiting]) (by simp [Task.isInFlight])) <|
    .head (.advance [.closed] [] (.fresh rfl (.expand hexpanded.2))) <|
    .head (.advance [.closed] [] (.fresh rfl .refuse_cancelled)) <|
    .head (.record [.closed] []) <|
    .head (.finish_fails (by simp [Task.isOver])) .refl
  have hfirst {x x' y : Task} {es : List Task.Event}
      (hx : Task.Turn twoFailures ⟨"/src", []⟩ 2 false x v es x' v) :
      Task.Turn twoFailures ⟨"/src", []⟩ 2 false (group none x y) v es (group none x' y) v :=
    .advance [] [y] hx
  have hmissed : Task.Course twoFailures ⟨"/src", []⟩ 2
      (group none (.waiting 1 ["f"] "f" g) (.waiting 1 ["f"] "f" h)) v
      [.begun "f" g, .missed g.caller (.message "g"), .begun "f" h] (.failed (.message "g")) v :=
    .head (.start [] [.waiting 1 ["f"] "f" h] (by simp) (by simp [Task.isInFlight])) <|
    .head (hfirst (.fresh rfl (.expand hexpanded.1))) <|
    .head (hfirst (.fresh rfl (.enter hv.check_eq (by rw [hg]; decide)))) <|
    .head (hfirst (.locate_fails hfails)) <|
    .head (.record [] [.waiting 1 ["f"] "f" h]) hrefused
  rw [hg] at hmissed
  exact ⟨g, h, v, .head (.fresh rfl (.enter rfl List.not_mem_nil)) (.head (.locate hcalls) hmissed),
    hg, hh⟩

/-- Of the callers of `f`, only `g` is looked up, since the other two are `f` itself and none. Where
the lookup of `g` fails, the call site in `h` is begun with, and `h` is not looked up. -/
theorem sibling_is_begun_but_not_looked_up :
    (∃ t v, Watched.build (.chain [.ofTable mixedCalls]) ⟨"/src", []⟩ 3 "f"
        ({ files := .empty }, []) = .ok t (v, [.answered "f", .answered "g"]) ∧
      v.answers = 2) ∧
    ∃ g h u v, Task.Course twoFailures ⟨"/src", []⟩ 2 (.root 2 "f") { files := .empty }
        [.found "f" [g, h], .begun "f" g, .missed "g" (.message "g"), .begun "f" h]
        (.failed (.message "g")) v ∧
      h.caller = "h" ∧
      Watched.build twoFailures ⟨"/src", []⟩ 2 "f" ({ files := .empty }, []) =
        .error (.message "g") (u, [.answered "f", ⟨"g", some (.message "g")⟩]) := by
  have heval : (Run.result? (build (.chain [.ofTable mixedCalls]) ⟨"/src", []⟩ 3 "f")
      { files := .empty }).map (·.expanded 3 none) =
        some [Text.ofString "f", Text.ofString "g"] := by decide +kernel
  obtain ⟨t, ht, hnames⟩ := Option.map_eq_some_iff.mp heval
  obtain ⟨v, hv⟩ := Run.result?_eq_some_iff.mp ht
  obtain ⟨hwatched, hcount⟩ := (lookups_are_made_in_preorder _ _ _ _ _).1 t v hv
  have hcounted := hcount [.ofTable mixedCalls] rfl
    (List.forall_mem_singleton.mpr fun _ _ => .pure _)
  rw [hnames] at hwatched hcounted
  obtain ⟨g, h, u, hcourse, -, hh⟩ := exists_course_twoFailures
  obtain ⟨-, -, hfailed⟩ := (lookups_are_made_in_preorder _ _ _ _ _).2.2.2 _ _ _ hcourse
  obtain ⟨u', -, hmade⟩ := hfailed _ rfl
  exact ⟨⟨t, v, hwatched, hcounted⟩, g, h, u', u, hcourse, hh, hmade⟩

end Hierarchy

end CallerTree
