import CallerTree.Hierarchy.Engine

/-!
# Relations that runs inherit from their steps

Much of what is shown about lookups and resolutions holds because it holds of every step and is kept
when steps are put together: what they issue and count, that the files decide what they do, which
failures they end with, that a request which is interrupted follows one which is not. Here the
program is gone through once, for any relation of two runs that is kept in this way. A property of
runs is a relation that ignores the second run.

## Three kinds of steps

Reading files and writing to the log cannot fail. A check fails when the context has ended. A
locator also throws and catches failures of its own, and issues commands. A relation may be kept by
the first kind of steps only, by the first two, or by all.

## Main definitions

* `Run.Congruence`, `Run.CheckedCongruence`, `Run.FullCongruence`

## Main results

* `Run.Congruence.callsAmong` — the functions around call sites
* `Run.CheckedCongruence.grow` — resolution
* `Run.FullCongruence.tryEach`, `Run.FullCongruence.locators` — lookups
-/

namespace CallerTree

namespace Run

/-- A relation that is kept by runs that only read files and write to the log. -/
structure Congruence (R : ∀ {α : Type}, Run α → Run α → Prop) : Prop where
  pure : ∀ {α : Type} (a : α), R (pure a) (pure a)
  bind : ∀ {α β : Type} {x y : Run α} {f g : α → Run β},
    R x y → (∀ a, R (f a) (g a)) → R (x >>= f) (y >>= g)
  note : ∀ (level : Level) (message : Text) (attributes : List (Text × Datum)),
    R (note level message attributes) (note level message attributes)
  files : R files files

/-- A relation that is also kept by checks of the context. -/
structure CheckedCongruence (R : ∀ {α : Type}, Run α → Run α → Prop) : Prop
    extends Congruence R where
  check : R check check

/-- A relation that is also kept when failures are thrown and caught. -/
structure FullCongruence (R : ∀ {α : Type}, Run α → Run α → Prop) : Prop
    extends CheckedCongruence R where
  throw : ∀ {α : Type} (e : Failure), R (throw e : Run α) (throw e)
  attempt : ∀ {α : Type} {x y : Run α}, R x y → R (attempt x) (attempt y)
  look : R look look

variable {R : ∀ {α : Type}, Run α → Run α → Prop} {tree : SourceTree}

/-! ### Reading -/

namespace Congruence

theorem mapM (h : Congruence R) {α β : Type} {f g : α → Run β} (hf : ∀ a, R (f a) (g a))
    (as : List α) : R (as.mapM f) (as.mapM g) := by
  induction as with
  | nil => exact h.pure _
  | cons a as ih =>
    rw [List.mapM_cons, List.mapM_cons]
    exact h.bind (hf a) fun _ => h.bind ih fun _ => h.pure _

theorem readIndexLines (h : Congruence R) (lines : List Text) :
    R (Locator.readIndexLines lines) (Locator.readIndexLines lines) := by
  induction lines with
  | nil => exact h.pure _
  | cons l lines ih =>
    rw [Locator.readIndexLines]
    split
    · exact h.bind ih fun _ => h.pure _
    · exact h.bind (h.note _ _ _) fun _ => ih

theorem linesOf (h : Congruence R) (o : Occurrence) (cache : Hierarchy.FileCache) :
    R (Hierarchy.linesOf tree o cache) (Hierarchy.linesOf tree o cache) := by
  unfold Hierarchy.linesOf
  split
  · exact h.pure _
  · refine h.bind h.files fun fs => ?_
    split
    · exact h.pure _
    · exact h.bind (h.note _ _ _) fun _ => h.pure _

theorem callerOf (h : Congruence R) (o : Occurrence) (cache : Hierarchy.FileCache) :
    R (Hierarchy.callerOf tree o cache) (Hierarchy.callerOf tree o cache) := by
  unfold Hierarchy.callerOf
  split
  · exact h.pure _
  · refine h.bind (h.linesOf o cache) fun p => ?_
    split
    split
    · exact h.pure _
    · exact h.pure _

/-- Finding the functions around call sites takes no look at the context. -/
theorem callsAmong (h : Congruence R) (name : Text) (os : List Occurrence) :
    ∀ cache, R (Hierarchy.callsAmong tree name cache os) (Hierarchy.callsAmong tree name cache os)
    := by
  induction os with
  | nil => exact fun _ => h.pure _
  | cons o os ih =>
    intro cache
    rw [Hierarchy.callsAmong]
    split
    · exact h.bind (h.callerOf o cache) fun p => h.bind (ih p.2) fun _ => h.pure _
    · exact ih cache

theorem expandedSites (h : Congruence R) (l l' : Locator) {name : Text}
    (hl : R (l.locate name tree) (l'.locate name tree)) (depth : Nat) :
    R (Hierarchy.expandedSites l tree name depth) (Hierarchy.expandedSites l' tree name depth) :=
  h.bind (h.bind hl fun os => h.callsAmong name os []) fun _ =>
    h.bind (h.note _ _ _) fun _ => h.pure _

end Congruence

/-! ### Resolution -/

namespace CheckedCongruence

theorem collect (h : CheckedCongruence R) (vs : List SourceTree.Visit) :
    R (SourceTree.collect vs) (SourceTree.collect vs) := by
  induction vs with
  | nil => exact h.pure _
  | cons v vs ih => exact h.bind h.check fun _ => h.bind ih fun _ => h.pure _

theorem scanFiles (h : CheckedCongruence R) (name : Text) (paths : List Text) :
    R (Locator.scanFiles name tree paths) (Locator.scanFiles name tree paths) := by
  induction paths with
  | nil => exact h.pure _
  | cons path paths ih =>
    refine h.bind h.check fun _ => h.bind h.files fun fs => ?_
    split
    · exact h.bind (h.note _ _ _) fun _ => ih
    · exact h.bind ih fun _ => h.pure _

/-- The two sides may find their call sites in different ways, as long as these are related. -/
theorem grow (h : CheckedCongruence R) (sites sites' : Text → Nat → Run (List Call))
    (hsites : ∀ name depth, R (sites name depth) (sites' name depth)) (limit : Int)
    (remaining : Nat) : ∀ (ancestry : Ancestry) (depth : Nat) (name : Text),
      R (Hierarchy.grow Run.check sites limit remaining ancestry depth name)
        (Hierarchy.grow Run.check sites' limit remaining ancestry depth name) := by
  induction remaining with
  | zero => exact fun _ _ _ => h.bind h.check fun _ => h.pure _
  | succ remaining ih =>
    intro ancestry depth name
    rw [Hierarchy.grow, Hierarchy.grow]
    refine h.bind h.check fun _ => ?_
    split
    · exact h.pure _
    · refine h.bind (hsites name depth) fun calls =>
        h.bind (h.mapM (fun call => ?_) calls) fun _ => h.pure _
      unfold Hierarchy.expand
      split
      · exact h.bind (ih _ _ _) fun _ => h.pure _
      · exact h.pure _

theorem build (h : CheckedCongruence R) (l l' : Locator)
    (hl : ∀ name, R (l.locate name tree) (l'.locate name tree)) (limit : Int) (name : Text) :
    R (Hierarchy.build l tree limit name) (Hierarchy.build l' tree limit name) :=
  h.grow _ _ (fun name depth => h.expandedSites l l' (hl name) depth) limit limit.toNat [] 0 name

end CheckedCongruence

/-! ### Lookups -/

namespace FullCongruence

theorem ofExcept (h : FullCongruence R) {α : Type} (r : Except Failure α) :
    R (ofExcept r) (ofExcept r) := by
  cases r with
  | ok a => exact h.pure a
  | error e => exact h.throw e

theorem listing (h : FullCongruence R) (tree : SourceTree) (includeHeaders : Bool) :
    R (tree.files includeHeaders) (tree.files includeHeaders) := by
  refine h.bind (h.attempt (h.bind h.files fun fs => ?_)) fun r => ?_
  · split
    · exact h.throw _
    · exact h.collect _
  · cases r with
    | ok paths => exact h.pure _
    | error e => exact h.throw _

theorem scan (h : FullCongruence R) (includeHeaders : Bool) (name : Text) :
    R ((Locator.scan includeHeaders).locate name tree)
      ((Locator.scan includeHeaders).locate name tree) := by
  refine h.bind (h.ofExcept _) fun _ =>
    h.bind (h.attempt (h.listing tree includeHeaders)) fun r => ?_
  cases r with
  | ok paths => exact h.scanFiles name paths
  | error e => exact h.throw _

variable {tools : Toolbox} {tool name : Text} {includeHeaders : Bool}

theorem grep (h : FullCongruence R) {c : Command}
    (hc : c = { name := tool, args := Locator.grepArgs includeHeaders name tree.root })
    (hcommand : R (command tools c) (command tools c)) :
    R ((Locator.grep tools tool includeHeaders).locate name tree)
      ((Locator.grep tools tool includeHeaders).locate name tree) := by
  subst hc
  refine h.bind (h.attempt hcommand) fun r => ?_
  cases r with
  | error e => exact h.throw _
  | ok out =>
    dsimp only
    split
    · exact h.pure _
    · split
      · exact h.throw _
      · split
        · exact h.bind (h.note _ _ _) fun _ => h.pure _
        · exact h.pure _

theorem index (h : FullCongruence R) {c : Command}
    (hc : c = { name := tool, args := ["-d", "-L", "-3", name], dir := tree.root })
    (hcommand : R (command tools c) (command tools c)) :
    R ((Locator.index tools tool).locate name tree)
      ((Locator.index tools tool).locate name tree) := by
  subst hc
  refine h.bind (h.attempt hcommand) fun r => ?_
  cases r with
  | error e =>
    refine h.bind h.look fun c => ?_
    cases c with
    | some c => exact h.throw _
    | none => exact h.throw _
  | ok out =>
    dsimp only
    split
    · exact h.throw _
    · split
      · exact h.throw _
      · exact h.bind (h.readIndexLines _) fun _ => h.pure _

/-- A chain counts on its own account. -/
theorem tryEach (h : FullCongruence R) {ls : List Locator}
    (hls : ∀ l ∈ ls, R (l.locate name tree) (l.locate name tree) ∧
      ∀ ok, R (count (.locate l.backend ok)) (count (.locate l.backend ok))) :
    ∀ failures, R (Locator.tryEach name tree failures ls)
      (Locator.tryEach name tree failures ls) := by
  induction ls with
  | nil =>
    intro failures
    rw [Locator.tryEach]
    split
    · exact h.throw _
    · exact h.throw _
  | cons l ls ih =>
    intro failures
    obtain ⟨⟨hl, hcount⟩, hls⟩ := List.forall_mem_cons.mp hls
    refine h.bind (h.attempt hl) fun r => ?_
    cases r with
    | ok os => exact h.bind (hcount true) fun _ => h.pure _
    | error e =>
      refine h.bind h.look fun c => ?_
      cases c with
      | some c => exact h.throw _
      | none =>
        exact h.bind (hcount false) fun _ => h.bind (h.note _ _ _) fun _ => ih hls _

/-- The locators of an engine issue two kinds of commands. -/
theorem locators (h : FullCongruence R) {e : Engine} {indexed : Bool}
    (hcommand : ∀ c : Command,
      c = { name := e.options.indexTool, args := ["-d", "-L", "-3", name], dir := tree.root } ∨
        c = { name := e.options.grepTool
              args := Locator.grepArgs e.options.includeHeaders name tree.root } →
      R (command e.tools c) (command e.tools c)) :
    ∀ l ∈ e.locators indexed, R (l.locate name tree) (l.locate name tree) := by
  intro l hl
  simp only [Engine.locators, List.mem_append, List.mem_ite_nil_right, List.mem_singleton] at hl
  obtain (⟨-, rfl⟩ | ⟨-, rfl⟩) | rfl := hl
  · exact h.index rfl (hcommand _ (.inl rfl))
  · exact h.grep rfl (hcommand _ (.inr rfl))
  · exact h.scan _ name

end FullCongruence

end Run

end CallerTree
