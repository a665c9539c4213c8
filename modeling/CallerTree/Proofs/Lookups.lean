import CallerTree.Proofs.CallSites
import CallerTree.Proofs.Chain

/-!
# The lookups of a resolution

A resolution looks up one function after the other. Which functions it looks up, and in which order,
does not show in the tree alone, nor in the world that it leaves. So the resolution is run a second
time in a monad that writes the lookups down: growing is stated for any monad, and so the very same
definition makes both runs.

A run that succeeds has looked up the functions of its tree that can be expanded, in pre-order, and
nothing else. A run that fails has stopped at once: at the first lookup that failed, or at the first
look at a context that has ended.

## Main definitions

* `CallTree.expanded` — the functions of a tree that can be expanded, in pre-order
* `Watched`, `Watched.build` — runs that write down their lookups, and the resolution among them
* `Breaks` — the lookups of a run that fails
* `Watched.Sees` — a watched run does what the run does, and has made these lookups

## Main results

* `Watched.Sees.bind`, `Watched.Sees.mapM` — putting runs together
* `Watched.sees_build`, `Watched.build_of_ok`, `Watched.build_of_error` — the lookups of a
  resolution
-/

namespace CallerTree

/-! ### Functions in pre-order -/

/-- Whether a function is given its callers, as its tree tells it: the limit allows another level,
the function does not stand above itself, and it is the root or a known function other than the one
it calls. -/
def Head.isExpandable (limit : Int) (parent : Option Text) (h : Head) : Bool :=
  h.depth < limit && !h.isRecursive &&
    parent.all fun p => h.name ≠ Line.unknownCaller && h.name ≠ p

theorem Head.isExpandable_iff {limit : Int} {parent : Option Text} {h : Head} :
    h.isExpandable limit parent = true ↔ h.depth < limit ∧ h.isRecursive = false ∧
      ∀ p ∈ parent, h.name ≠ Line.unknownCaller ∧ h.name ≠ p := by
  cases parent <;> simp [isExpandable, and_assoc]

namespace CallTree

mutual

/-- The functions in pre-order, each with the name of the function that it calls. -/
def withParents (parent : Option Text) : CallTree → List (Option Text × Head)
  | absent => []
  | node head callers => (parent, head) :: withParentsAll head.name callers

def withParentsAll (parent : Text) : List CallTree → List (Option Text × Head)
  | [] => []
  | t :: rest => t.withParents parent ++ withParentsAll parent rest

end

mutual

/-- The order is that in which the functions of a tree are listed. -/
theorem map_withParents (parent : Option Text) :
    (t : CallTree) → (t.withParents parent).map (·.2) = t.heads
  | absent => rfl
  | node head callers => by
    rw [withParents, List.map_cons, map_withParentsAll, heads, walk, if_pos rfl]

theorem map_withParentsAll (parent : Text) :
    (ts : List CallTree) → (withParentsAll parent ts).map (·.2) = walkAll (fun _ => true) ts
  | [] => rfl
  | t :: rest => by
    rw [withParentsAll, List.map_append, map_withParents, map_withParentsAll, walkAll]
    rfl

end

/-- The names of the functions that can be expanded, in pre-order. -/
def expanded (limit : Int) (parent : Option Text) (t : CallTree) : List Text :=
  ((t.withParents parent).filter fun p => p.2.isExpandable limit p.1).map (·.2.name)

theorem expanded_node (limit : Int) (parent : Option Text) (head : Head)
    (callers : List CallTree) :
    (node head callers).expanded limit parent =
      (if head.isExpandable limit parent then [head.name] else []) ++
        callers.flatMap (expanded limit head.name) := by
  have hall : ((withParentsAll head.name callers).filter fun p => p.2.isExpandable limit p.1).map
      (·.2.name) = callers.flatMap (expanded limit head.name) := by
    induction callers with
    | nil => rfl
    | cons t rest ih =>
      rw [withParentsAll, List.filter_append, List.map_append, ih, List.flatMap_cons, expanded]
  rw [expanded, withParents, List.filter_cons]
  by_cases hhead : head.isExpandable limit parent = true
  · rw [if_pos hhead, if_pos hhead, List.map_cons, hall]
    rfl
  · rw [if_neg hhead, if_neg hhead, hall]
    rfl

theorem expanded_withSite (limit : Int) (parent : Option Text) (site : Occurrence) (t : CallTree) :
    (t.withSite site).expanded limit parent = t.expanded limit parent := by
  cases t with
  | absent => rfl
  | node head callers => rw [withSite, expanded_node, expanded_node]; rfl

end CallTree

/-! ### Counted answers -/

/-- Whether the count is that of a lookup that was answered. -/
def Tally.isAnswer : Tally → Bool
  | .locate _ ok => ok
  | _ => false

/-- How many answers to lookups have been counted. -/
def World.answers (w : World) : Nat := w.tallies.countP Tally.isAnswer

/-- The locator counts its answers, and nothing else as an answer. -/
structure Locator.CountsAnswers (l : Locator) : Prop where
  of_ok : ∀ {name tree w os v}, l.locate name tree w = .ok os v → v.answers = w.answers + 1
  of_error : ∀ {name tree w f v}, l.locate name tree w = .error f v → v.answers = w.answers

/-- A chain counts its answers if its locators leave counting to it. -/
theorem Locator.countsAnswers_chain {ls : List Locator} (hls : ∀ l ∈ ls, l.CountsNothing) :
    (chain ls).CountsAnswers := by
  have hanswers (name : Text) (tree : SourceTree) (w : World) :
      ∃ rest failures v counted,
        Ending name tree failures v rest counted ((chain ls).locate name tree w) ∧
        (((chain ls).locate name tree).worldAfter w).answers =
          w.answers + counted.countP Tally.isAnswer := by
    obtain ⟨passed, rest, failures, v, counted, -, -, hending, htallies⟩ :=
      exists_course ls name tree w
    have hzero : (passed.map fun l => Tally.locate l.backend false).countP Tally.isAnswer = 0 := by
      simp [List.countP_eq_zero, Tally.isAnswer]
    refine ⟨rest, failures, v, counted, hending, ?_⟩
    rw [World.answers, htallies hls, List.countP_append, List.countP_append, hzero, Nat.add_zero,
      World.answers]
  constructor
  · intro name tree w os v h
    obtain ⟨rest, failures, u, counted, hending, hcount⟩ := hanswers name tree w
    rw [Run.worldAfter_of_ok h] at hcount
    rw [h] at hending
    cases hending with
    | answered => exact hcount
  · intro name tree w f v h
    obtain ⟨rest, failures, u, counted, hending, hcount⟩ := hanswers name tree w
    rw [Run.worldAfter_of_error h] at hcount
    rw [h] at hending
    cases hending with
    | stopped => exact hcount
    | exhausted => exact hcount

/-! ### Runs that cannot fail, and the check -/

/-- Every failure of a check is that of the context. -/
theorem Run.check_error_iff {f : Failure} {w v : World} :
    check w = .error f v ↔
      ∃ c, w.context.IsOver c ∧ f = .cause c ∧ { w with context := w.context.look.2 } = v := by
  constructor
  · intro h
    cases hlook : w.context.look.1 with
    | none =>
      have hok : check w = .ok () { w with context := w.context.look.2 } :=
        check_ok_iff.mpr ⟨hlook, rfl⟩
      rw [hok] at h
      cases h
    | some c =>
      have hlooked : look w = .ok (some c) { w with context := w.context.look.2 } :=
        look_ok_iff.mpr ⟨hlook, rfl⟩
      rw [check, bind_of_ok hlooked] at h
      cases h
      exact ⟨c, hlook, rfl, rfl⟩
  · rintro ⟨c, hover, rfl, rfl⟩
    have hlooked : look w = .ok (some c) { w with context := w.context.look.2 } :=
      look_ok_iff.mpr ⟨hover, rfl⟩
    rw [check, bind_of_ok hlooked]
    rfl

/-- The run succeeds in every world. -/
def Run.Succeeds {α : Type} (x : Run α) : Prop := ∀ w, ∃ a v, x w = .ok a v

namespace Run.Succeeds

variable {α β : Type}

protected theorem pure (a : α) : Succeeds (pure a) := fun w => ⟨a, w, rfl⟩

theorem note (level : Level) (message : Text) (attributes : List (Text × Datum)) :
    Succeeds (Run.note level message attributes) := fun _ => ⟨(), _, rfl⟩

theorem files : Succeeds Run.files := fun w => ⟨w.files, w, rfl⟩

protected theorem bind {x : Run α} {f : α → Run β} (hx : Succeeds x) (hf : ∀ a, Succeeds (f a)) :
    Succeeds (x >>= f) := by
  intro w
  obtain ⟨a, v, hxw⟩ := hx w
  rw [bind_of_ok hxw]
  exact hf a v

theorem congruence : Congruence fun x _ => Succeeds x where
  pure := .pure
  bind hx hf := hx.bind hf
  note := note
  files := files

end Run.Succeeds

namespace Hierarchy

open Run (Succeeds KeepsTo)

/-! ### Runs that are watched -/

/-- A lookup that was made, with its failure if it has failed. -/
structure Lookup where
  name : Text
  failure : Option Failure

/-- A lookup that was answered. -/
def Lookup.answered (name : Text) : Lookup := ⟨name, none⟩

/-- A run that writes down the lookups that it makes. -/
abbrev Watched := EStateM Failure (World × List Lookup)

namespace Watched

variable {α β : Type}

/-- A run without lookups. -/
def lift (x : Run α) : Watched α := fun s =>
  match x s.1 with
  | .ok a v => .ok a (v, s.2)
  | .error f v => .error f (v, s.2)

/-- A lookup is written down when it is over. -/
def locate (l : Locator) (tree : SourceTree) (name : Text) : Watched (List Occurrence) := fun s =>
  match l.locate name tree s.1 with
  | .ok os v => .ok os (v, s.2 ++ [.answered name])
  | .error f v => .error f (v, s.2 ++ [⟨name, some f⟩])

/-- The call sites of a function that is being expanded. -/
def sites (l : Locator) (tree : SourceTree) (name : Text) (depth : Nat) : Watched (List Call) := do
  let os ← locate l tree name
  lift (expandedSites (.ofTable [(name, os)]) tree name depth)

/-- The caller tree of a name in a source tree. -/
def build (l : Locator) (tree : SourceTree) (limit : Int) (name : Text) : Watched CallTree :=
  resolve (lift Run.check) (sites l tree) limit name

end Watched

/-- The lookups of a resolution that has failed with `f` and left the world `v`. All but the last of
them were answered. Either the last one failed, with this failure, or all were answered and the
context has ended. -/
inductive Breaks : List Lookup → Failure → World → Prop
  | lookup (names : List Text) (name : Text) (f : Failure) (v : World) :
      Breaks (names.map .answered ++ [⟨name, some f⟩]) f v
  | context (names : List Text) {c : Cause} {v : World} (hover : v.context.IsOver c) :
      Breaks (names.map .answered) (.cause c) v

/-- Lookups answered before do not change how a resolution breaks. -/
theorem Breaks.append {made : List Lookup} {f : Failure} {v : World} (h : Breaks made f v)
    (names : List Text) : Breaks (names.map .answered ++ made) f v := by
  cases h with
  | lookup names' name =>
    rw [← List.append_assoc, ← List.map_append]
    exact .lookup _ name f v
  | context names' hover =>
    rw [← List.map_append]
    exact .context _ hover

namespace Watched

variable {α β : Type} {l : Locator}

theorem bind_of_ok {x : Watched α} {a : α} {s t : World × List Lookup} (h : x s = .ok a t)
    (f : α → Watched β) : (x >>= f) s = f a t := by
  change EStateM.bind x f s = _
  rw [EStateM.bind, h]

theorem bind_of_error {x : Watched α} {e : Failure} {s t : World × List Lookup}
    (h : x s = .error e t) (f : α → Watched β) : (x >>= f) s = .error e t := by
  change EStateM.bind x f s = _
  rw [EStateM.bind, h]

theorem lift_of_ok {x : Run α} {a : α} {w v : World} (h : x w = .ok a v) (made : List Lookup) :
    lift x (w, made) = .ok a (v, made) := by
  rw [lift, h]

theorem lift_of_error {x : Run α} {e : Failure} {w v : World} (h : x w = .error e v)
    (made : List Lookup) : lift x (w, made) = .error e (v, made) := by
  rw [lift, h]

/-! ### What a watched run sees -/

/-- The outcome of a watched run next to that of the run itself, from the world `w` and after the
lookups `made`. The names looked up are as `P` says, and the answers are counted. -/
inductive Seen (l : Locator) (P : α → List Text → Prop) (w : World) (made : List Lookup) :
    EStateM.Result Failure (World × List Lookup) α → EStateM.Result Failure World α → Prop
  | ok {a : α} {v : World} {names : List Text} (h : P a names)
      (hcount : l.CountsAnswers → v.answers = w.answers + names.length) :
      Seen l P w made (.ok a (v, made ++ names.map .answered)) (.ok a v)
  | error {f : Failure} {v : World} {new : List Lookup} (h : Breaks new f v) :
      Seen l P w made (.error f (v, made ++ new)) (.error f v)

theorem Seen.ok_nil {P : α → List Text → Prop} {w v : World} {made : List Lookup} {a : α}
    (h : P a []) (hcount : v.answers = w.answers) :
    Seen l P w made (.ok a (v, made)) (.ok a v) := by
  have hseen : Seen l P w made (.ok a (v, made ++ [].map .answered)) (.ok a v) :=
    .ok h fun _ => hcount
  rwa [List.map_nil, List.append_nil] at hseen

theorem Seen.error_nil {P : α → List Text → Prop} {w v : World} {made : List Lookup} {c : Cause}
    (hover : v.context.IsOver c) :
    Seen l P w made (.error (.cause c) (v, made)) (.error (.cause c) v) := by
  have hseen : Seen l P w made (.error (.cause c) (v, made ++ [].map .answered))
      (.error (.cause c) v) := .error (.context [] hover)
  rwa [List.map_nil, List.append_nil] at hseen

/-- The watched run `x` does what the run `y` does. If it succeeds, then it has looked up names as
`P` says; and if it fails, then it has stopped there. -/
def Sees (l : Locator) (x : Watched α) (y : Run α) (P : α → List Text → Prop) : Prop :=
  ∀ w made, Seen l P w made (x (w, made)) (y w)

namespace Sees

variable {x : Watched α} {y : Run α} {P : α → List Text → Prop}

protected theorem pure {a : α} (h : P a []) : Sees l (pure a) (pure a) P :=
  fun _ _ => .ok_nil h rfl

protected theorem bind {f : α → Watched β} {g : α → Run β} {Q : α → β → List Text → Prop}
    {R : β → List Text → Prop} (hx : Sees l x y P) (hf : ∀ a, Sees l (f a) (g a) (Q a))
    (hR : ∀ a b ms ns, P a ms → Q a b ns → R b (ms ++ ns)) : Sees l (x >>= f) (y >>= g) R := by
  intro w made
  have hfirst := hx w made
  generalize hxw : x (w, made) = r at hfirst
  generalize hyw : y w = s at hfirst
  cases hfirst with
  | error h =>
    rw [bind_of_error hxw, Run.bind_of_error hyw]
    exact .error h
  | @ok a v ms hP hcount =>
    have hsecond := hf a v (made ++ ms.map .answered)
    rw [bind_of_ok hxw, Run.bind_of_ok hyw]
    generalize f a (v, made ++ ms.map .answered) = r at hsecond ⊢
    generalize g a v = s at hsecond ⊢
    cases hsecond with
    | @ok b u ns hQ hcount' =>
      rw [List.append_assoc, ← List.map_append]
      refine .ok (hR a b ms ns hP hQ) fun hl => ?_
      rw [hcount' hl, hcount hl, List.length_append, Nat.add_assoc]
    | @error e u new h =>
      rw [List.append_assoc]
      exact .error (h.append ms)

theorem mapM {f : α → Watched β} {g : α → Run β} {names : β → List Text}
    (hf : ∀ a, Sees l (f a) (g a) fun b ns => ns = names b) (as : List α) :
    Sees l (as.mapM f) (as.mapM g) fun bs ns => ns = bs.flatMap names := by
  induction as with
  | nil => exact .pure rfl
  | cons a as ih =>
    rw [List.mapM_cons, List.mapM_cons]
    refine (hf a).bind (fun b => ih.bind (Q := fun bs cs ns => cs = b :: bs ∧ ns = [])
      (R := fun cs ns => ∃ bs, cs = b :: bs ∧ ns = bs.flatMap names) (fun bs => ?_) ?_) ?_
    · exact .pure ⟨rfl, rfl⟩
    · rintro bs cs ms ns rfl ⟨rfl, rfl⟩
      exact ⟨bs, rfl, List.append_nil _⟩
    · rintro b cs ms ns rfl ⟨bs, rfl, rfl⟩
      rw [List.flatMap_cons]

/-- A run without lookups, which counts nothing and fails only with the context. -/
protected theorem lift {y : Run α} (hcount : Run.KeepsTo .countless y)
    (hfails : ∀ w f v, y w = .error f v → ∃ c, v.context.IsOver c ∧ f = .cause c) :
    Sees l (lift y) y fun _ ns => ns = [] := by
  intro w made
  have hsame := hcount w
  cases hy : y w with
  | ok a v =>
    rw [Run.worldAfter_of_ok hy] at hsame
    rw [lift_of_ok hy]
    exact .ok_nil rfl (congrArg (List.countP Tally.isAnswer) hsame)
  | error f v =>
    obtain ⟨c, hover, rfl⟩ := hfails w f v hy
    rw [lift_of_error hy]
    exact .error_nil hover

protected theorem check : Sees l (lift Run.check) Run.check fun _ ns => ns = [] := by
  refine .lift .check fun w f v h => ?_
  obtain ⟨c, hover, rfl, rfl⟩ := Run.check_error_iff.mp h
  exact ⟨c, hover.look, rfl⟩

theorem after_check {f : Unit → Watched α} {g : Unit → Run α} (h : Sees l (f ()) (g ()) P) :
    Sees l (Watched.lift Run.check >>= f) (Run.check >>= g) P := by
  refine Sees.check.bind (Q := fun _ => P) (fun _ => h) ?_
  rintro _ a ms ns rfl ha
  exact ha

theorem locate (tree : SourceTree) (name : Text) :
    Sees l (locate l tree name) (l.locate name tree) fun _ ns => ns = [name] := by
  intro w made
  rw [Watched.locate]
  cases hl : l.locate name tree w with
  | ok os v =>
    have hseen : Seen l (fun _ ns => ns = [name]) w made
        (.ok os (v, made ++ [name].map .answered)) (.ok os v) :=
      .ok rfl fun hcounts => hcounts.of_ok hl
    exact hseen
  | error f v => exact .error (.lookup [] name f v)

end Sees

/-! ### Resolutions -/

variable {tree : SourceTree} {limit : Int}

/-- The call sites, once the function has been located. -/
theorem expandedSites_eq_bind (l : Locator) (tree : SourceTree) (name : Text) (depth : Nat) :
    expandedSites l tree name depth =
      l.locate name tree >>= fun os => expandedSites (.ofTable [(name, os)]) tree name depth := by
  simp [expandedSites, callSites, Locator.ofTable]

theorem succeeds_expandedSites_ofTable (table : List (Text × List Occurrence)) (name : Text)
    (depth : Nat) : Succeeds (expandedSites (.ofTable table) tree name depth) :=
  Succeeds.congruence.expandedSites (.ofTable table) (.ofTable table) (.pure _) depth

theorem sees_sites (l : Locator) (tree : SourceTree) (name : Text) (depth : Nat) :
    Sees l (sites l tree name depth) (expandedSites l tree name depth) fun _ ns => ns = [name] := by
  rw [expandedSites_eq_bind]
  refine (Sees.locate tree name).bind (fun os => .lift ?_ fun w f v h => ?_) ?_
  · exact (KeepsTo.congruence _).expandedSites _ (.ofTable [(name, os)]) (.pure _) depth
  · obtain ⟨calls, v', hcalls⟩ := succeeds_expandedSites_ofTable [(name, os)] name depth w
    rw [hcalls] at h
    cases h
  · rintro os calls ms ns rfl rfl
    rfl

theorem sites_of_ok {name : Text} {depth : Nat} {w v : World} {calls : List Call}
    (h : expandedSites l tree name depth w = .ok calls v) (made : List Lookup) :
    sites l tree name depth (w, made) = .ok calls (v, made ++ [.answered name]) := by
  have hseen := sees_sites l tree name depth w made
  rw [h] at hseen
  generalize sites l tree name depth (w, made) = r at hseen ⊢
  cases hseen with
  | ok hnames => rw [hnames, List.map_singleton]

/-- If the call sites are not found, then it is the lookup that has failed. -/
theorem sites_of_error {name : Text} {depth : Nat} {w v : World} {f : Failure}
    (h : expandedSites l tree name depth w = .error f v) (made : List Lookup) :
    sites l tree name depth (w, made) = .error f (v, made ++ [⟨name, some f⟩]) := by
  rw [expandedSites_eq_bind] at h
  cases hl : l.locate name tree w with
  | ok os u =>
    rw [Run.bind_of_ok hl] at h
    obtain ⟨calls, v', hcalls⟩ := succeeds_expandedSites_ofTable [(name, os)] name depth u
    rw [hcalls] at h
    cases h
  | error e u =>
    rw [Run.bind_of_error hl] at h
    cases h
    refine bind_of_error ?_ _
    rw [locate, hl]

/-- Both reasons to stop are seen in the head: it is at the limit, or marked as recursive. -/
theorem expanded_terminal {remaining : Nat} {ancestry : Ancestry} {name : Text}
    (hlevels : remaining + ancestry.length = limit.toNat)
    (hstop : remaining = 0 ∨ ancestry.has name = true) (parent : Option Text) :
    (terminal limit ancestry ancestry.length name).expanded limit parent = [] := by
  rw [terminal, CallTree.expanded_node, if_neg, List.flatMap_nil, List.append_nil]
  rw [Head.isExpandable_iff]
  rintro ⟨hdepth, hnew, -⟩
  simp only at hdepth hnew
  rcases hstop with rfl | hhas
  · omega
  · rw [hhas] at hnew
    cases hnew

theorem expanded_leaf {target : Text} {call : Call} (h : isExpanded target call = false)
    (depth : Nat) : (leaf depth call).expanded limit target = [] := by
  rw [leaf, CallTree.expanded_node, if_neg, List.flatMap_nil, List.append_nil]
  rw [Head.isExpandable_iff]
  rintro ⟨-, -, hsought⟩
  have hexpanded : isExpanded target call = true := by
    simpa [isExpanded] using hsought target rfl
  rw [h] at hexpanded
  cases hexpanded

theorem sees_expand {grown : Text → Watched CallTree} {grown' : Text → Run CallTree}
    {target : Text} (depth : Nat) (call : Call)
    (h : isExpanded target call = true → Sees l (grown call.caller) (grown' call.caller)
      fun t ns => ns = t.expanded limit target) :
    Sees l (expand grown target depth call) (expand grown' target depth call)
      fun t ns => ns = t.expanded limit target := by
  rw [expand, expand]
  cases hexpanded : isExpanded target call with
  | true =>
    simp only [if_true]
    refine (h hexpanded).bind (fun t => .pure (P := fun c ns => c = t.withSite call.site ∧ ns = [])
      ⟨rfl, rfl⟩) ?_
    rintro t c ms ns rfl ⟨rfl, rfl⟩
    rw [List.append_nil, CallTree.expanded_withSite]
  | false =>
    simp only [Bool.false_eq_true, if_false]
    exact .pure (expanded_leaf hexpanded depth).symm

/-- A function that can be expanded is looked up first, and its callers are resolved after it. -/
theorem sees_node {f : Call → Watched CallTree} {g : Call → Run CallTree} {name : Text}
    {parent : Option Text} (depth : Nat) (head : List CallTree → Head)
    (hhead : ∀ callers, (head callers).name = name ∧
      (head callers).isExpandable limit parent = true)
    (hcallers : ∀ call, Sees l (f call) (g call) fun t ns => ns = t.expanded limit name) :
    Sees l
      (do
        let calls ← sites l tree name depth
        let callers ← calls.mapM f
        return CallTree.node (head callers) callers)
      (do
        let calls ← expandedSites l tree name depth
        let callers ← calls.mapM g
        return CallTree.node (head callers) callers)
      fun t ns => ns = t.expanded limit parent := by
  refine (sees_sites l tree name depth).bind
    (Q := fun _ t ns => ∃ callers, t = .node (head callers) callers ∧
      ns = callers.flatMap (CallTree.expanded limit name)) (fun calls => ?_) ?_
  · refine (Sees.mapM hcallers calls).bind
      (Q := fun callers t ns => t = .node (head callers) callers ∧ ns = [])
      (fun callers => .pure ⟨rfl, rfl⟩) ?_
    rintro callers t ms ns rfl ⟨rfl, rfl⟩
    exact ⟨callers, rfl, List.append_nil _⟩
  · rintro calls t ms ns rfl ⟨callers, rfl, rfl⟩
    obtain ⟨hname, hexpandable⟩ := hhead callers
    rw [CallTree.expanded_node, if_pos hexpandable, hname]

/-- One level of the resolution after the other. -/
theorem sees_grow (remaining : Nat) : ∀ (ancestry : Ancestry) (name : Text) (parent : Option Text),
    remaining + ancestry.length = limit.toNat →
    (∀ p ∈ parent, name ≠ Line.unknownCaller ∧ name ≠ p) →
    Sees l (grow (lift Run.check) (sites l tree) limit remaining ancestry ancestry.length name)
      (grow Run.check (expandedSites l tree) limit remaining ancestry ancestry.length name)
      fun t ns => ns = t.expanded limit parent := by
  induction remaining with
  | zero =>
    intro ancestry name parent hlevels _
    rw [grow, grow]
    exact .after_check (.pure (expanded_terminal hlevels (.inl rfl) parent).symm)
  | succ remaining ih =>
    intro ancestry name parent hlevels hsought
    rw [grow, grow]
    refine .after_check ?_
    by_cases hhas : ancestry.has name = true
    · rw [if_pos hhas, if_pos hhas]
      exact .pure (expanded_terminal hlevels (.inr hhas) parent).symm
    · rw [if_neg hhas, if_neg hhas]
      have hdepth : (ancestry.length : Int) < limit := by omega
      refine sees_node _ _ (fun _ => ⟨rfl, Head.isExpandable_iff.mpr ⟨hdepth, rfl, hsought⟩⟩)
        fun call => sees_expand _ call fun hcall => ih (ancestry.extend name) call.caller name ?_ ?_
      · rw [← hlevels, Ancestry.extend, List.length_cons]
        omega
      · rintro p ⟨⟩
        simpa [isExpanded] using hcall

theorem sees_build (l : Locator) (tree : SourceTree) (limit : Int) (name : Text) :
    Sees l (Watched.build l tree limit name) (Hierarchy.build l tree limit name)
      fun t ns => ns = t.expanded limit none :=
  sees_grow limit.toNat [] name none (by simp) (by simp)

variable {name : Text} {w v : World}

/-- A resolution that succeeds has looked up the functions that can be expanded. -/
theorem build_of_ok {t : CallTree} (h : Hierarchy.build l tree limit name w = .ok t v) :
    Watched.build l tree limit name (w, []) = .ok t (v, (t.expanded limit none).map .answered) ∧
      (l.CountsAnswers → v.answers = w.answers + (t.expanded limit none).length) := by
  have hseen := sees_build l tree limit name w []
  rw [h] at hseen
  generalize Watched.build l tree limit name (w, []) = r at hseen ⊢
  cases hseen with
  | ok hnames hcount =>
    obtain rfl := hnames
    exact ⟨rfl, hcount⟩

/-- A resolution that fails has stopped there. -/
theorem build_of_error {f : Failure} (h : Hierarchy.build l tree limit name w = .error f v) :
    ∃ made, Watched.build l tree limit name (w, []) = .error f (v, made) ∧ Breaks made f v := by
  have hseen := sees_build l tree limit name w []
  rw [h] at hseen
  generalize Watched.build l tree limit name (w, []) = r at hseen ⊢
  cases hseen with
  | error hbreaks => exact ⟨_, rfl, hbreaks⟩

end Watched

end Hierarchy

end CallerTree
