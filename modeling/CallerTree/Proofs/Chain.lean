import CallerTree.Proofs.Endings
import CallerTree.Proofs.Frame

/-!
# Chains of locators

A chain asks its locators one after the other, each in the world that the one before it left behind.
It passes over a failure only if the context is live when the failure is there; so what decides is
the context after the locator has run, not before.

A chain ends in one of three ways, and they differ in what is returned, in what is counted and in
who is not asked any more. `Locator.PassedOver` describes the failures that lead up to the end, and
`Locator.Ending` the end itself. Both say what becomes of the whole world, so that they leave
nothing open: a locator that is not mentioned has not been asked, since what it would have done to
the world is not there.

## Main definitions

* `Locator.PassedOver` — locators that have failed in a live context, one after the other
* `Locator.Ending` — how a chain ends after that
* `Locator.CountsNothing` — a locator that leaves counting to its chain

## Main results

* `Locator.PassedOver.tryEach_append` — a chain after the failures passed over
* `Locator.exists_course` — every chain passes over some failures and comes to an end
* `Locator.chains_ask_in_turn`
-/

namespace CallerTree

open Run (KeepsTo)

/-- The bound of runs that count nothing. -/
def Frame.countless : Frame where
  admits w v := v.tallies = w.tallies
  quiet _ htallies := htallies
  trans h h' := h'.trans h

namespace Locator

variable {name : Text} {tree : SourceTree} {l : Locator} {ls others : List Locator}
  {failures : List Failure} {w v u : World}

/-! ### One locator of a chain -/

/-- The world in which the next locator is asked, after `l` has failed with `e`. -/
def fellThrough (l : Locator) (name : Text) (e : Failure) (v : World) : World :=
  { v with
    context := v.context.look.2
    log := v.log ++ [⟨.info, "locator fell through",
      [("backend", l.backend), ("function", name), ("error", e.text)]⟩]
    tallies := v.tallies ++ [.locate l.backend false] }

theorem tryEach_of_ok {os : List Occurrence} (h : l.locate name tree w = .ok os v) :
    tryEach name tree failures (l :: ls) w =
      .ok os { v with tallies := v.tallies ++ [.locate l.backend true] } := by
  rw [tryEach, Run.bind_of_ok (Run.attempt_of_eq (r := .ok os) h)]
  rfl

theorem tryEach_of_isOver {e : Failure} {c : Cause} (h : l.locate name tree w = .error e v)
    (hover : v.context.IsOver c) :
    tryEach name tree failures (l :: ls) w =
      .error (.cause c) { v with context := v.context.look.2 } := by
  rw [tryEach, Run.bind_of_ok (Run.attempt_of_eq (r := .error e) h)]
  have hlook : Run.look v = .ok (some c) { v with context := v.context.look.2 } :=
    Run.look_ok_iff.mpr ⟨hover, rfl⟩
  exact Run.bind_of_ok hlook _

theorem tryEach_of_live {e : Failure} (h : l.locate name tree w = .error e v)
    (hlive : v.context.look.1 = none) :
    tryEach name tree failures (l :: ls) w =
      tryEach name tree (failures ++ [e]) ls (l.fellThrough name e v) := by
  rw [tryEach, Run.bind_of_ok (Run.attempt_of_eq (r := .error e) h)]
  have hlook : Run.look v = .ok none { v with context := v.context.look.2 } :=
    Run.look_ok_iff.mpr ⟨hlive, rfl⟩
  exact Run.bind_of_ok hlook _

/-! ### The course of a chain -/

/-- Each of the locators fails, in the world that the one before it left behind, and the context is
live then. -/
inductive PassedOver (name : Text) (tree : SourceTree) :
    List Locator → World → List Failure → World → Prop
  | nil {w : World} : PassedOver name tree [] w [] w
  | cons {l : Locator} {ls : List Locator} {w v u : World} {e : Failure} {failures : List Failure}
      (h : l.locate name tree w = .error e v) (hlive : v.context.look.1 = none)
      (hrest : PassedOver name tree ls (l.fellThrough name e v) failures u) :
      PassedOver name tree (l :: ls) w (e :: failures) u

/-- How a chain ends that has passed over so many failures, with the locators not yet asked, what it
counts at the end, and the result. -/
inductive Ending (name : Text) (tree : SourceTree) (failures : List Failure) (w : World) :
    List Locator → List Tally → EStateM.Result Failure World (List Occurrence) → Prop
  /-- A locator answers. The others are not asked, even if the answer is empty. -/
  | answered {l : Locator} {others : List Locator} {os : List Occurrence} {v : World}
      (h : l.locate name tree w = .ok os v) :
      Ending name tree failures w (l :: others) [.locate l.backend true]
        (.ok os { v with tallies := v.tallies ++ [.locate l.backend true] })
  /-- A locator fails, and the context has ended. The others are not asked. -/
  | stopped {l : Locator} {others : List Locator} {e : Failure} {v : World} {c : Cause}
      (h : l.locate name tree w = .error e v) (hover : v.context.IsOver c) :
      Ending name tree failures w (l :: others) []
        (.error (.cause c) { v with context := v.context.look.2 })
  /-- There is no locator left. -/
  | exhausted {f : Failure} (h : ∀ c, f.has c = true ↔ ∃ e ∈ failures, e.has c = true) :
      Ending name tree failures w [] [] (.error f w)

/-- The failures are collected, and the chain goes on with the rest. -/
theorem PassedOver.tryEach_append (h : PassedOver name tree ls w failures v) :
    ∀ earlier, tryEach name tree earlier (ls ++ others) w =
      tryEach name tree (earlier ++ failures) others v := by
  induction h with
  | nil =>
    intro earlier
    rw [List.nil_append, List.append_nil]
  | cons h hlive _ ih =>
    intro earlier
    rw [List.cons_append, tryEach_of_live h hlive, ih, List.append_assoc, List.singleton_append]

/-- What a chain without locators left fails with has the causes of the failures before. -/
theorem exists_tryEach_nil (failures : List Failure) :
    ∃ f, tryEach name tree failures [] w = .error f w ∧
      ∀ c, f.has c = true ↔ ∃ e ∈ failures, e.has c = true := by
  cases failures with
  | nil => exact ⟨_, rfl, by simp⟩
  | cons e failures => exact ⟨_, rfl, by simp⟩

/-- The course of every chain: failures that are passed over, and an end. -/
theorem exists_passedOver_ending (ls : List Locator) : ∀ (earlier : List Failure) (w : World),
    ∃ passed rest failures v counted, ls = passed ++ rest ∧
      PassedOver name tree passed w failures v ∧
      Ending name tree (earlier ++ failures) v rest counted (tryEach name tree earlier ls w) := by
  induction ls with
  | nil =>
    intro earlier w
    obtain ⟨f, hf, hcauses⟩ := exists_tryEach_nil earlier
    rw [hf]
    exact ⟨[], [], [], w, [], rfl, .nil, .exhausted (by simpa using hcauses)⟩
  | cons l ls ih =>
    intro earlier w
    cases hl : l.locate name tree w with
    | ok os v =>
      rw [tryEach_of_ok hl]
      exact ⟨[], l :: ls, [], w, _, rfl, .nil, .answered hl⟩
    | error e v =>
      cases hlook : v.context.look.1 with
      | some c =>
        rw [tryEach_of_isOver hl hlook]
        exact ⟨[], l :: ls, [], w, _, rfl, .nil, .stopped hl hlook⟩
      | none =>
        rw [tryEach_of_live hl hlook]
        obtain ⟨passed, rest, failures, u, counted, rfl, hpassed, hending⟩ :=
          ih (earlier ++ [e]) (l.fellThrough name e v)
        rw [List.append_assoc, List.singleton_append] at hending
        exact ⟨l :: passed, rest, e :: failures, u, counted, rfl, .cons hl hlook hpassed, hending⟩

/-- The end does not depend on the locators that are not asked. -/
theorem Ending.tryEach_eq {counted : List Tally}
    {r : EStateM.Result Failure World (List Occurrence)}
    (h : Ending name tree failures w (l :: ls) counted r) (earlier : List Failure) :
    tryEach name tree earlier (l :: others) w = r := by
  cases h with
  | answered h => exact tryEach_of_ok h
  | stopped h hover => exact tryEach_of_isOver h hover

/-! ### Counting -/

/-- The locator leaves counting to the chain that it is in. -/
def CountsNothing (l : Locator) : Prop := ∀ name tree, KeepsTo .countless (l.locate name tree)

theorem CountsNothing.tallies_eq (hl : l.CountsNothing) {r : Except Failure (List Occurrence)}
    (h : l.locate name tree w = Run.ofExcept r v) : v.tallies = w.tallies := by
  have hkeeps := hl name tree w
  cases r with
  | ok os =>
    rw [Run.worldAfter_of_ok h] at hkeeps
    exact hkeeps
  | error e =>
    rw [Run.worldAfter_of_error h] at hkeeps
    exact hkeeps

theorem PassedOver.tallies_eq (h : PassedOver name tree ls w failures v)
    (hls : ∀ l ∈ ls, l.CountsNothing) :
    v.tallies = w.tallies ++ ls.map fun l => .locate l.backend false := by
  induction h with
  | nil => simp
  | @cons l ls w v u e failures h _ _ ih =>
    obtain ⟨hl, hls⟩ := List.forall_mem_cons.mp hls
    have hsame : v.tallies = w.tallies := hl.tallies_eq (r := .error e) h
    rw [ih hls, fellThrough, hsame, List.map_cons, List.append_assoc, List.singleton_append]

theorem Ending.tallies_eq {counted : List Tally} {x : Run (List Occurrence)}
    (h : Ending name tree failures v ls counted (x w)) (hls : ∀ l ∈ ls, l.CountsNothing) :
    (x.worldAfter w).tallies = v.tallies ++ counted := by
  rw [Run.worldAfter]
  generalize x w = r at h
  cases h with
  | @answered l others os u h =>
    have hsame : u.tallies = v.tallies := (hls l List.mem_cons_self).tallies_eq (r := .ok os) h
    simp only [hsame]
  | @stopped l others e u c h hover =>
    have hsame : u.tallies = v.tallies := (hls l List.mem_cons_self).tallies_eq (r := .error e) h
    simp only [hsame, List.append_nil]
  | exhausted => simp only [List.append_nil]

/-- The course of every chain, with what is counted on the way if the locators count nothing. -/
theorem exists_course (ls : List Locator) (name : Text) (tree : SourceTree) (w : World) :
    ∃ passed rest failures v counted, ls = passed ++ rest ∧
      PassedOver name tree passed w failures v ∧
      Ending name tree failures v rest counted ((chain ls).locate name tree w) ∧
      ((∀ l ∈ ls, l.CountsNothing) →
        (((chain ls).locate name tree).worldAfter w).tallies =
          w.tallies ++ passed.map (fun l => .locate l.backend false) ++ counted) := by
  obtain ⟨passed, rest, failures, v, counted, rfl, hpassed, hending⟩ :=
    exists_passedOver_ending ls [] w
  refine ⟨passed, rest, failures, v, counted, rfl, hpassed, hending, fun hls => ?_⟩
  obtain ⟨hbefore, hrest⟩ := List.forall_mem_append.mp hls
  rw [← hpassed.tallies_eq hbefore]
  exact hending.tallies_eq hrest

/-- **Chains ask in turn.** A chain passes over the failures of the first locators of its list, each
of them asked once and in order, and then ends in one of three ways:

* the next locator answers, and its answer is returned as it is;
* the next locator fails and the context has ended, and the cause of the context is returned;
* there is no next locator, and a failure is returned that has the causes of all the failures.

The locators behind the one at which it ends could be any others. If the locators count nothing
themselves, then one failure is counted for each that is passed over and one success for an answer,
and nothing for a failure in an ended context. -/
theorem chains_ask_in_turn (ls : List Locator) (name : Text) (tree : SourceTree) (w : World) :
    ∃ passed rest failures v counted, ls = passed ++ rest ∧
      PassedOver name tree passed w failures v ∧
      Ending name tree failures v rest counted ((chain ls).locate name tree w) ∧
      (∀ l later others, rest = l :: later →
        (chain (passed ++ l :: others)).locate name tree w = (chain ls).locate name tree w) ∧
      ((∀ l ∈ ls, l.CountsNothing) →
        (((chain ls).locate name tree).worldAfter w).tallies =
          w.tallies ++ passed.map (fun l => .locate l.backend false) ++ counted) := by
  obtain ⟨passed, rest, failures, v, counted, rfl, hpassed, hending, htallies⟩ :=
    exists_course ls name tree w
  refine ⟨passed, rest, failures, v, counted, rfl, hpassed, hending, ?_, htallies⟩
  rintro l later others rfl
  exact (hpassed.tryEach_append []).trans (hending.tryEach_eq failures)

/-- A locator that always comes to the same, and may end the context as it runs. -/
def fixed (backend : Text) (r : Except Failure (List Occurrence)) (ends : Bool) : Locator where
  backend
  locate _ _ := do
    modify fun w => { w with context := if ends then w.context.cancel else w.context }
    Run.ofExcept r

theorem countsNothing_fixed (backend : Text) (r : Except Failure (List Occurrence)) (ends : Bool) :
    (fixed backend r ends).CountsNothing :=
  fun _ _ => KeepsTo.bind (.modifies fun _ => rfl) fun _ => .ofExcept r

/-- A chain whose first locator fails and whose second one answers with nothing, or fails as it ends
the context. Whatever comes behind is not asked. None of the locators counts by itself. -/
theorem empty_answer_ends_chain :
    let first := fixed "index" (.error (.cause .indexUnavailable)) false
    let silent := fixed "grep" (.ok []) false
    let deadly := fixed "grep" (.error (.message "killed")) true
    (∀ l ∈ [first, silent, deadly], l.CountsNothing) ∧
    (∃ v, (∀ others, (chain (first :: silent :: others)).locate "f" ⟨"/src", []⟩
        { files := .empty } = .ok [] v) ∧
      v.tallies = [.locate "index" false, .locate "grep" true]) ∧
    ∃ v, (∀ others, (chain (first :: deadly :: others)).locate "f" ⟨"/src", []⟩
        { files := .empty } = .error (.cause .canceled) v) ∧
      v.tallies = [.locate "index" false] := by
  intro first silent deadly
  have hbehind (second : Locator)
      (hstop : ∀ u e v, second.locate "f" ⟨"/src", []⟩ u = .error e v → v.context.look.1 ≠ none) :
      ∀ others, (chain (first :: second :: others)).locate "f" ⟨"/src", []⟩
          { files := .empty } =
        (chain [first, second]).locate "f" ⟨"/src", []⟩ { files := .empty } := by
    obtain ⟨passed, rest, failures, v, counted, hsplit, hpassed, hending, hsame, -⟩ :=
      chains_ask_in_turn [first, second] "f" ⟨"/src", []⟩ { files := .empty }
    cases hpassed with
    | nil =>
      obtain rfl : [first, second] = rest := hsplit
      generalize (chain [first, second]).locate _ _ _ = r at hending
      cases hending with
      | answered h => cases h
      | stopped h hover =>
        cases h
        cases hover
    | cons h hlive hpassed =>
      rw [List.cons_append, List.cons.injEq] at hsplit
      obtain ⟨rfl, hsplit⟩ := hsplit
      cases hpassed with
      | nil => exact fun others => hsame second [] others hsplit.symm
      | cons h hlive _ =>
        rw [List.cons_append, List.cons.injEq] at hsplit
        obtain ⟨rfl, -⟩ := hsplit
        exact absurd hlive (hstop _ _ _ h)
  have hsilent := hbehind silent fun u e v h => by cases h
  have hdeadly := hbehind deadly fun u e v h => by
    cases h
    change u.context.cancel.look.1 ≠ none
    cases u.context with
    | live | ended => simp [Context.cancel, Context.look]
    | ending n => cases n <;> simp [Context.cancel, Context.look]
  refine ⟨?_, ⟨_, hsilent, rfl⟩, _, hdeadly, rfl⟩
  simpa using ⟨countsNothing_fixed _ _ _, countsNothing_fixed _ _ _, countsNothing_fixed _ _ _⟩

end Locator

end CallerTree
