import CallerTree.Proofs.Growth

/-!
# Resolving with several tasks

The call sites of one function can be expanded side by side. Each expansion is a task that owns one
slot of the list of callers, and each function that is being expanded is a group of such tasks, so
the groups are nested as the functions are. `Task.Step` says what can happen next: any task of any
group takes one step, in a world that all of them share.

## Groups

A group lets at most `fanout` of its tasks run at a time and returns when all have ended. The first
failure that a group records is the one it returns, and from then on the group is cancelled: tasks
in it, and in groups below it, may still start, but they find their context ended. What a lookup
returns that was under way in a cancelled group is left open.

## Implementation notes

A slot is in one of the stages of `Task`, and a group is itself a task, the one of the slot above
it. So the state of a whole resolution is one task, and a step deep inside a nest of groups is found
by `Task.Step.advance`. The lookup of a name is a single step; the steps of other tasks come between
entering a function (`Task.Step.enter`) and having located it.

## Main definitions

* `Hierarchy.Task`, `Hierarchy.Task.root` — a resolution at some moment, and at its start
* `Hierarchy.Task.Step`, `Hierarchy.Task.Steps` — one step, and a number of steps
-/

namespace CallerTree

namespace Hierarchy

/-- A task at some moment. The ancestry is that of the function the task makes the tree of, and
`levels` are those that are left for it. -/
inductive Task where
  /-- A call site of `target` that no one has begun to expand. -/
  | waiting (levels : Nat) (ancestry : Ancestry) (target : Text) (call : Call)
  /-- A call site of `target` whose expansion has begun. -/
  | started (levels : Nat) (ancestry : Ancestry) (target : Text) (call : Call)
  /-- A function that is to be resolved. -/
  | entering (levels : Nat) (ancestry : Ancestry) (name : Text) (site : Option Occurrence)
  /-- A function whose call sites are being looked up; `levels` are those left below it. -/
  | locating (levels : Nat) (ancestry : Ancestry) (name : Text) (site : Option Occurrence)
  /-- A function whose call sites are being expanded, with the failure recorded first. -/
  | gathering (ancestry : Ancestry) (name : Text) (site : Option Occurrence)
      (fault : Option Failure) (slots : List Task)
  | done (tree : CallTree)
  /-- A task that has failed; its group does not know yet. -/
  | failed (f : Failure)
  /-- A task whose failure its group has taken note of. -/
  | closed

namespace Task

/-- The task that resolves `name`, at most `limit` levels deep. -/
def root (limit : Int) (name : Text) : Task := entering limit.toNat [] name none

/-- Whether the task takes one of the places of its group. -/
def isInFlight : Task → Bool
  | waiting .. | done _ | closed => false
  | _ => true

/-- Whether the task has left its group. -/
def isOver : Task → Bool
  | done _ | closed => true
  | _ => false

/-- The slots of a function with these call sites, before any of them is expanded. -/
def slots (levels : Nat) (ancestry : Ancestry) (name : Text) (calls : List Call) : List Task :=
  calls.map (waiting levels (ancestry.extend name) name)

/-- What a task can do next. Inside a group that is `cancelled`, or below one, the context has ended
for the task, though not for the request. -/
inductive Step (l : Locator) (tree : SourceTree) (limit : Int) (fanout : Nat) :
    (cancelled : Bool) → Task → World → Task → World → Prop
  /-- A caller that is not looked up is a leaf. -/
  | leaf {cancelled levels ancestry target call w} (h : isExpanded target call = false) :
      Step l tree limit fanout cancelled (started levels ancestry target call) w
        (done (leaf ancestry.length call)) w
  /-- Any other caller is resolved. -/
  | expand {cancelled levels ancestry target call w} (h : isExpanded target call = true) :
      Step l tree limit fanout cancelled (started levels ancestry target call) w
        (entering levels ancestry call.caller (some call.site)) w
  | refuse {cancelled levels ancestry name site w f w'} (h : Run.check w = .error f w') :
      Step l tree limit fanout cancelled (entering levels ancestry name site) w (failed f) w'
  | refuse_cancelled {levels ancestry name site w} :
      Step l tree limit fanout true (entering levels ancestry name site) w
        (failed (.cause .canceled)) w
  /-- The branch ends at the limit and at a function that stands above itself. -/
  | terminate {levels ancestry name site w w'} (h : Run.check w = .ok () w')
      (hstop : levels = 0 ∨ name ∈ ancestry) :
      Step l tree limit fanout false (entering levels ancestry name site) w
        (done (.node (terminalHead limit ancestry name site) [])) w'
  | enter {levels ancestry name site w w'} (h : Run.check w = .ok () w') (hnew : name ∉ ancestry) :
      Step l tree limit fanout false (entering (levels + 1) ancestry name site) w
        (locating levels ancestry name site) w'
  | locate {levels ancestry name site w calls w'}
      (h : expandedSites l tree name ancestry.length w = .ok calls w') :
      Step l tree limit fanout false (locating levels ancestry name site) w
        (gathering ancestry name site none (slots levels ancestry name calls)) w'
  | locate_fails {levels ancestry name site w f w'}
      (h : expandedSites l tree name ancestry.length w = .error f w') :
      Step l tree limit fanout false (locating levels ancestry name site) w (failed f) w'
  /-- A lookup that a cancellation has overtaken may still find something, -/
  | locate_cancelled {levels ancestry name site w calls w'} (hfiles : w'.files = w.files)
      (hcontext : w'.context = w.context) :
      Step l tree limit fanout true (locating levels ancestry name site) w
        (gathering ancestry name site none (slots levels ancestry name calls)) w'
  /-- or fail in any way. -/
  | locate_fails_cancelled {levels ancestry name site w f w'} (hfiles : w'.files = w.files)
      (hcontext : w'.context = w.context) :
      Step l tree limit fanout true (locating levels ancestry name site) w (failed f) w'
  /-- A group with a free place begins with any of its call sites. -/
  | start {cancelled ancestry name site fault levels above target call w} (before after : List Task)
      (h : (before ++ waiting levels above target call :: after).countP isInFlight < fanout) :
      Step l tree limit fanout cancelled
        (gathering ancestry name site fault (before ++ waiting levels above target call :: after)) w
        (gathering ancestry name site fault (before ++ started levels above target call :: after)) w
  /-- Any task of a group goes on. -/
  | advance {cancelled ancestry name site w x y w'} {fault : Option Failure}
      (before after : List Task)
      (h : Step l tree limit fanout (cancelled || fault.isSome) x w y w') :
      Step l tree limit fanout cancelled
        (gathering ancestry name site fault (before ++ x :: after)) w
        (gathering ancestry name site fault (before ++ y :: after)) w'
  /-- A group takes note of a failure, and keeps the first one. -/
  | record {cancelled ancestry name site f w} {fault : Option Failure} (before after : List Task) :
      Step l tree limit fanout cancelled
        (gathering ancestry name site fault (before ++ failed f :: after)) w
        (gathering ancestry name site (fault.or (some f)) (before ++ closed :: after)) w
  /-- A group without a failure returns the function with its callers, slot by slot, -/
  | finish {cancelled ancestry name site w} (callers : List CallTree) :
      Step l tree limit fanout cancelled
        (gathering ancestry name site none (callers.map done)) w
        (done (.node (expandedHead limit ancestry name site callers.length) callers)) w
  /-- and any other group the failure that it recorded first. -/
  | finish_fails {cancelled ancestry name site f w} {slots : List Task}
      (h : ∀ x ∈ slots, x.isOver = true) :
      Step l tree limit fanout cancelled (gathering ancestry name site (some f) slots) w
        (failed f) w

/-- So many steps of a resolution, one after the other. -/
inductive Steps (l : Locator) (tree : SourceTree) (limit : Int) (fanout : Nat) :
    Nat → Task → World → Task → World → Prop
  | refl {x w} : Steps l tree limit fanout 0 x w x w
  | tail {k x w y v z u} (hsteps : Steps l tree limit fanout k x w y v)
      (hstep : Step l tree limit fanout false y v z u) : Steps l tree limit fanout (k + 1) x w z u

end Task

end Hierarchy

end CallerTree
