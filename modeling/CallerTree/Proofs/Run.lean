import CallerTree.World
import Mathlib.Data.List.Forall2

/-!
# Reasoning about runs

A run that succeeds is a chain of runs that succeed, so a fact about its result is found by taking
the chain apart. The lemmas here do that for each way of putting runs together.

## Steady worlds

Much of what a request computes depends on the files alone, as long as the context is live: the log,
the counters and the commands issued before have no influence. `Run.Does` says in full what a run
does in all such worlds: how it ends, which files it leaves, and what it adds to the commands, the
log and the counters. `Run.Answers` says only how it ends, and that it leaves files and context as
they are. It is what "the answer is a function of the arguments" means for a run.

## Main definitions

* `World.IsSteady` — the files are the given ones and the context is live
* `Toolbox.IsDeterministic`, `Toolbox.LeavesFiles` — tools that keep the world steady
* `Trace`, `World.after` — what a run adds to its world
* `Run.Does` — what a run does in every steady world
* `Run.Answers` — the result of a run in every steady world

## Main results

* `Run.bind_ok_iff`, `Run.mapM_ok` — taking a successful run apart
* `Run.bind_of_ok`, `Run.bind_of_error` — the outcome of one run after another
* `Run.Answers.bind`, `Run.Answers.eq_of_ok` — answers are composed, and are what a run returns
-/

namespace CallerTree

variable {α β : Type}

theorem eq_ok_of_toOption {ε : Type} {x : Except ε α} {a : α} (h : x.toOption = some a) :
    x = .ok a := by
  cases x with
  | error e => cases h
  | ok b => exact congrArg _ (Option.some.inj h)

namespace Run

/-! ### Successful runs -/

@[simp] theorem bind_ok_iff {x : Run α} {f : α → Run β} {w w' : World} {b : β} :
    (x >>= f) w = .ok b w' ↔ ∃ a v, x w = .ok a v ∧ f a v = .ok b w' := by
  change EStateM.bind x f w = _ ↔ _
  unfold EStateM.bind
  cases x w with
  | ok a v => simp
  | error e v => simp

@[simp] theorem pure_ok_iff {a b : α} {w w' : World} :
    (pure a : Run α) w = .ok b w' ↔ a = b ∧ w = w' := by
  change EStateM.Result.ok a w = .ok b w' ↔ _
  simp

@[simp] theorem throw_ok_iff {e : Failure} {b : α} {w w' : World} :
    (throw e : Run α) w = .ok b w' ↔ False := by
  change EStateM.Result.error e w = .ok b w' ↔ _
  simp

@[simp] theorem files_ok_iff {fs : FileSystem} {w w' : World} :
    files w = .ok fs w' ↔ w.files = fs ∧ w = w' := by
  change EStateM.Result.ok w.files w = .ok fs w' ↔ _
  simp

@[simp] theorem look_ok_iff {c : Option Cause} {w w' : World} :
    look w = .ok c w' ↔ w.context.look.1 = c ∧ { w with context := w.context.look.2 } = w' := by
  change EStateM.Result.ok w.context.look.1 { w with context := w.context.look.2 } = .ok c w' ↔ _
  simp

@[simp] theorem note_ok_iff {level : Level} {message : Text} {attributes : List (Text × Datum)}
    {u : Unit} {w w' : World} :
    note level message attributes w = .ok u w' ↔
      { w with log := w.log ++ [⟨level, message, attributes⟩] } = w' := by
  change EStateM.Result.ok () { w with log := w.log ++ [⟨level, message, attributes⟩] } =
    .ok u w' ↔ _
  simp

@[simp] theorem ofExcept_ok_iff {r : Except Failure α} {a : α} {w w' : World} :
    ofExcept r w = .ok a w' ↔ r = .ok a ∧ w = w' := by
  cases r with
  | ok b =>
    change (pure b : Run α) w = .ok a w' ↔ _
    simp
  | error e =>
    change (throw e : Run α) w = .ok a w' ↔ _
    simp

/-- Looking at the context may use it up, so the world changes even if the check passes. -/
theorem check_ok_iff {u : Unit} {w w' : World} :
    check w = .ok u w' ↔
      w.context.look.1 = none ∧ { w with context := w.context.look.2 } = w' := by
  simp only [check, bind_ok_iff, look_ok_iff]
  constructor
  · rintro ⟨c, v, ⟨rfl, rfl⟩, h⟩
    cases hended : w.context.look.1 with
    | some c =>
      rw [hended] at h
      exact (throw_ok_iff.mp h).elim
    | none =>
      rw [hended] at h
      exact ⟨rfl, (pure_ok_iff.mp h).2⟩
  · rintro ⟨hlive, rfl⟩
    exact ⟨none, _, ⟨hlive, rfl⟩, rfl⟩

/-- The result of a run that succeeds. -/
def result? (x : Run α) (w : World) : Option α :=
  match x w with
  | .ok a _ => some a
  | .error _ _ => none

theorem result?_eq_some_iff {x : Run α} {w : World} {a : α} :
    result? x w = some a ↔ ∃ w', x w = .ok a w' := by
  unfold result?
  cases x w <;> simp

theorem attempt_ok_iff {x : Run α} {a : α} {w w' : World} :
    attempt x w = .ok (.ok a) w' ↔ x w = .ok a w' := by
  unfold attempt
  cases x w <;> simp

/-- What holds of one run of `f` from a world with the invariant holds of each result of `mapM`, in
order. -/
theorem mapM_ok {Inv : World → Prop} {R : α → β → Prop} {f : α → Run β}
    (hf : ∀ a w b w', Inv w → f a w = .ok b w' → R a b ∧ Inv w') :
    ∀ {as : List α} {w bs w'}, Inv w → as.mapM f w = .ok bs w' → List.Forall₂ R as bs ∧ Inv w' := by
  intro as
  induction as with
  | nil =>
    intro w bs w' hw h
    simp only [List.mapM_nil, pure_ok_iff] at h
    obtain ⟨rfl, rfl⟩ := h
    exact ⟨.nil, hw⟩
  | cons a as ih =>
    intro w bs w' hw h
    simp only [List.mapM_cons, bind_ok_iff, pure_ok_iff] at h
    obtain ⟨b, v, hb, bs', v', hbs, rfl, rfl⟩ := h
    obtain ⟨hR, hv⟩ := hf a w b v hw hb
    obtain ⟨hRs, hv'⟩ := ih hv hbs
    exact ⟨.cons hR hRs, hv'⟩

/-! ### The outcome of a composed run -/

theorem bind_of_ok {x : Run α} {a : α} {w v : World} (h : x w = ofExcept (.ok a) v)
    (f : α → Run β) : (x >>= f) w = f a v := by
  change EStateM.bind x f w = _
  rw [EStateM.bind, h]
  rfl

theorem bind_of_error {x : Run α} {e : Failure} {w v : World} (h : x w = ofExcept (.error e) v)
    (f : α → Run β) : (x >>= f) w = ofExcept (.error e) v := by
  change EStateM.bind x f w = _
  rw [EStateM.bind, h]
  rfl

theorem attempt_of_eq {x : Run α} {r : Except Failure α} {w v : World} (h : x w = ofExcept r v) :
    attempt x w = ofExcept (.ok r) v := by
  unfold attempt
  rw [h]
  cases r <;> rfl

/-- A command in a live context. The tools see it among those issued. -/
theorem command_eq {tools : Toolbox} {c : Command} {reply : Reply} {w : World}
    (hlive : w.context = .live)
    (hreply : tools.answer { w with issued := w.issued ++ [c] } c = reply) :
    command tools c w =
      ofExcept (reply.outcomeIn (if reply.cancels then Context.live.cancel else .live)) { w with
        context := if reply.cancels then Context.live.cancel else .live
        files := reply.filesAfter w.files
        issued := w.issued ++ [c]
        log := w.log ++ reply.log } := by
  obtain ⟨files, context, issued, log, tallies, pace⟩ := w
  obtain rfl : context = .live := hlive
  rw [← hreply]
  rfl

/-- The second run matters only for the results of the first. -/
theorem bind_congr_of_ok {x : Run α} {f g : α → Run β}
    (h : ∀ a w v, x w = .ok a v → f a = g a) : x >>= f = x >>= g := by
  funext w
  cases hx : x w with
  | ok a v => rw [bind_of_ok hx, bind_of_ok hx, h a w v hx]
  | error e v => rw [bind_of_error hx, bind_of_error hx]

theorem mapM_congr {f g : α → Run β} {as : List α} (h : ∀ a ∈ as, f a = g a) :
    as.mapM f = as.mapM g := by
  induction as with
  | nil => rfl
  | cons a as ih =>
    obtain ⟨ha, has⟩ := List.forall_mem_cons.mp h
    rw [List.mapM_cons, List.mapM_cons, ha, ih has]

end Run

/-! ### Steady worlds -/

/-- A world over the files `fs` in which a request may go on. -/
structure World.IsSteady (fs : FileSystem) (w : World) : Prop where
  files : w.files = fs
  context : w.context = .live

namespace Toolbox

/-- The reply to a command in every steady world over `fs`: it does not depend on what was issued,
logged or counted before. -/
def Replies (tools : Toolbox) (fs : FileSystem) (c : Command) (reply : Reply) : Prop :=
  ∀ w, w.IsSteady fs → tools.answer w c = reply

/-- The replies depend on the commands and the files alone. -/
def IsDeterministic (tools : Toolbox) : Prop :=
  ∀ w v c, w.files = v.files → tools.answer w c = tools.answer v c

end Toolbox

/-- What a run adds to its world. -/
structure Trace where
  issued : List Command := []
  log : List Record := []
  tallies : List Tally := []

instance : Append Trace where
  append t u := ⟨t.issued ++ u.issued, t.log ++ u.log, t.tallies ++ u.tallies⟩

namespace Trace

@[simp] theorem issued_append (t u : Trace) : (t ++ u).issued = t.issued ++ u.issued := rfl

@[simp] theorem log_append (t u : Trace) : (t ++ u).log = t.log ++ u.log := rfl

@[simp] theorem tallies_append (t u : Trace) : (t ++ u).tallies = t.tallies ++ u.tallies := rfl

end Trace

namespace World

/-- The world after a run that has left this trace and these files. -/
def after (w : World) (t : Trace) (fs : FileSystem) : World :=
  { w with
    files := fs
    issued := w.issued ++ t.issued
    log := w.log ++ t.log
    tallies := w.tallies ++ t.tallies }

theorem after_after (w : World) (t u : Trace) (fs fs' : FileSystem) :
    (w.after t fs).after u fs' = w.after (t ++ u) fs' := by
  simp [after]

theorem after_nil {w : World} {fs : FileSystem} (hw : w.IsSteady fs) : w.after {} fs = w := by
  obtain ⟨files, context, issued, log, tallies, pace⟩ := w
  obtain rfl : files = fs := hw.files
  simp [after]

theorem IsSteady.after {w : World} {fs : FileSystem} (hw : w.IsSteady fs) (t : Trace)
    (fs' : FileSystem) : (w.after t fs').IsSteady fs' :=
  ⟨rfl, hw.context⟩

end World

namespace Run

/-- In every steady world over `fs` the run ends with `r`, adds the trace and leaves the files
`fs'`. -/
def Does (fs : FileSystem) (x : Run α) (r : Except Failure α) (t : Trace) (fs' : FileSystem) :
    Prop :=
  ∀ w, w.IsSteady fs → x w = ofExcept r (w.after t fs')

namespace Does

variable {fs fs₁ fs₂ : FileSystem} {t u : Trace}

protected theorem ofExcept (r : Except Failure α) : Does fs (ofExcept r) r {} fs := by
  intro w hw
  rw [World.after_nil hw]

protected theorem pure (a : α) : Does fs (pure a) (.ok a) {} fs :=
  .ofExcept (.ok a)

protected theorem throw (f : Failure) : Does fs (throw f : Run α) (.error f) {} fs :=
  .ofExcept (.error f)

theorem bind {x : Run α} {f : α → Run β} {a : α} {r : Except Failure β}
    (hx : Does fs x (.ok a) t fs₁) (hf : Does fs₁ (f a) r u fs₂) :
    Does fs (x >>= f) r (t ++ u) fs₂ := by
  intro w hw
  rw [bind_of_ok (hx w hw), hf _ (hw.after t fs₁), World.after_after]

/-- A first step that leaves no trace. -/
theorem bind_of_silent {x : Run α} {f : α → Run β} {a : α} {r : Except Failure β}
    (hx : Does fs x (.ok a) {} fs₁) (hf : Does fs₁ (f a) r u fs₂) : Does fs (x >>= f) r u fs₂ :=
  hx.bind hf

theorem bind_error {x : Run α} {e : Failure} (hx : Does fs x (.error e) t fs₁) (f : α → Run β) :
    Does fs (x >>= f) (.error e) t fs₁ :=
  fun w hw => bind_of_error (hx w hw) f

theorem attempt {x : Run α} {r : Except Failure α} (hx : Does fs x r t fs₁) :
    Does fs (Run.attempt x) (.ok r) t fs₁ :=
  fun w hw => attempt_of_eq (hx w hw)

theorem files : Does fs Run.files (.ok fs) {} fs := by
  intro w hw
  rw [World.after_nil hw, ← hw.files]
  rfl

protected theorem look : Does fs Run.look (.ok none) {} fs := by
  intro w hw
  rw [World.after_nil hw]
  obtain ⟨files, context, issued, log, tallies, pace⟩ := w
  obtain rfl : context = .live := hw.context
  rfl

protected theorem check : Does fs Run.check (.ok ()) {} fs := by
  refine Does.look.bind_of_silent ?_
  exact .pure _

protected theorem note (level : Level) (message : Text) (attributes : List (Text × Datum)) :
    Does fs (Run.note level message attributes) (.ok ())
      { log := [⟨level, message, attributes⟩] } fs := by
  intro w hw
  obtain ⟨files, context, issued, log, tallies, pace⟩ := w
  obtain rfl : files = fs := hw.files
  simp only [World.after, List.append_nil]
  rfl

protected theorem count (t : Tally) : Does fs (Run.count t) (.ok ()) { tallies := [t] } fs := by
  intro w hw
  obtain ⟨files, context, issued, log, tallies, pace⟩ := w
  obtain rfl : files = fs := hw.files
  simp only [World.after, List.append_nil]
  rfl

/-- A command that neither ends the request nor changes files. -/
theorem command {tools : Toolbox} {c : Command} {reply : Reply} (h : tools.Replies fs c reply)
    (hcancels : reply.cancels = false) (hfiles : reply.filesAfter fs = fs) :
    Does fs (Run.command tools c) reply.outcome { issued := [c], log := reply.log } fs := by
  intro w hw
  obtain ⟨files, context, issued, log, tallies, pace⟩ := w
  obtain rfl : context = .live := hw.context
  obtain rfl : files = fs := hw.files
  rw [command_eq rfl (h _ ⟨rfl, rfl⟩), hcancels, hfiles]
  simp only [World.after, List.append_nil]
  rfl

end Does

end Run

/-! ### Answers in steady worlds -/

/-- In every steady world over `fs` the run ends with `r`, in a world that is steady again. -/
def Run.Answers (fs : FileSystem) (x : Run α) (r : Except Failure α) : Prop :=
  ∀ w, w.IsSteady fs → ∃ w', w'.IsSteady fs ∧ x w = Run.ofExcept r w'

namespace Run.Answers

variable {fs : FileSystem}

/-- What a run does says what it answers. -/
theorem of_does {x : Run α} {r : Except Failure α} {t : Trace} (hx : Does fs x r t fs) :
    Answers fs x r :=
  fun w hw => ⟨w.after t fs, hw.after t fs, hx w hw⟩

protected theorem pure (a : α) : Answers fs (pure a) (.ok a) := of_does (.pure a)

theorem bind {x : Run α} {f : α → Run β} {a : α} {r : Except Failure β}
    (hx : Answers fs x (.ok a)) (hf : Answers fs (f a) r) : Answers fs (x >>= f) r := by
  intro w hw
  obtain ⟨v, hv, hxv⟩ := hx w hw
  obtain ⟨w', hw', hfw⟩ := hf v hv
  exact ⟨w', hw', by rw [bind_of_ok hxv, hfw]⟩

theorem bind_error {x : Run α} {e : Failure} (hx : Answers fs x (.error e)) (f : α → Run β) :
    Answers fs (x >>= f) (.error e) := by
  intro w hw
  obtain ⟨v, hv, hxv⟩ := hx w hw
  exact ⟨v, hv, bind_of_error hxv f⟩

theorem note (level : Level) (message : Text) (attributes : List (Text × Datum)) :
    Answers fs (Run.note level message attributes) (.ok ()) :=
  of_does (.note level message attributes)

protected theorem ofExcept (r : Except Failure α) : Answers fs (Run.ofExcept r) r :=
  of_does (.ofExcept r)

theorem files : Answers fs Run.files (.ok fs) := of_does .files

/-- A successful run in a steady world returns the answer and ends in a steady world. -/
theorem eq_of_ok {x : Run α} {r : Except Failure α} (hx : Answers fs x r) {w w' : World} {a : α}
    (hw : w.IsSteady fs) (h : x w = .ok a w') : r = .ok a ∧ w'.IsSteady fs := by
  obtain ⟨v, hv, hxv⟩ := hx w hw
  rw [h] at hxv
  cases r with
  | ok b =>
    obtain ⟨rfl, rfl⟩ := pure_ok_iff.mp hxv.symm
    exact ⟨rfl, hv⟩
  | error e => exact (throw_ok_iff.mp hxv.symm).elim

/-- No steady world with these files sees the run fail. -/
theorem not_error {x : Run α} {a : α} (hx : Answers fs x (.ok a)) {w w' : World} {e : Failure}
    (hw : w.IsSteady fs) : x w ≠ .error e w' := by
  intro h
  obtain ⟨v, -, hxv⟩ := hx w hw
  rw [h] at hxv
  cases hxv

/-- Any steady world tells two answers apart. -/
theorem unique {x : Run α} {a b : α} (ha : Answers fs x (.ok a)) (hb : Answers fs x (.ok b)) :
    a = b := by
  have hsteady : World.IsSteady fs { files := fs } := ⟨rfl, rfl⟩
  obtain ⟨v, -, hv⟩ := ha _ hsteady
  obtain ⟨h, -⟩ := hb.eq_of_ok hsteady hv
  exact (Except.ok.inj h).symm

theorem attempt {x : Run α} {r : Except Failure α} (hx : Answers fs x r) :
    Answers fs (Run.attempt x) (.ok r) := by
  intro w hw
  obtain ⟨v, hv, hxv⟩ := hx w hw
  exact ⟨v, hv, attempt_of_eq hxv⟩

/-- A run that answers for each element answers for the list. -/
theorem mapM {f : α → Run β} {as : List α} {bs : List β}
    (h : List.Forall₂ (fun a b => Answers fs (f a) (.ok b)) as bs) :
    Answers fs (as.mapM f) (.ok bs) := by
  induction h with
  | nil => exact .pure _
  | cons hb _ ih =>
    rw [List.mapM_cons]
    exact hb.bind (ih.bind (.pure _))

/-- Two runs that answer alike for each element answer alike for the list. -/
theorem exists_mapM_both {f g : α → Run β} {as : List α}
    (h : ∀ a ∈ as, ∃ b, Answers fs (f a) (.ok b) ∧ Answers fs (g a) (.ok b)) :
    ∃ bs, Answers fs (as.mapM f) (.ok bs) ∧ Answers fs (as.mapM g) (.ok bs) := by
  induction as with
  | nil => exact ⟨[], .pure _, .pure _⟩
  | cons a as ih =>
    obtain ⟨ha, has⟩ := List.forall_mem_cons.mp h
    obtain ⟨b, hfb, hgb⟩ := ha
    obtain ⟨bs, hfbs, hgbs⟩ := ih has
    rw [List.mapM_cons, List.mapM_cons]
    exact ⟨b :: bs, hfb.bind (hfbs.bind (.pure _)), hgb.bind (hgbs.bind (.pure _))⟩

theorem command {tools : Toolbox} {c : Command} {reply : Reply} (h : tools.Replies fs c reply)
    (hcancels : reply.cancels = false) (hfiles : reply.filesAfter fs = fs) :
    Answers fs (Run.command tools c) reply.outcome :=
  of_does (.command h hcancels hfiles)

end Run.Answers

/-- The check of the context passes in a steady world and leaves it alone. -/
theorem World.IsSteady.check_eq {fs : FileSystem} {w : World} (hw : w.IsSteady fs) :
    Run.check w = .ok () w := by
  obtain ⟨files, context, issued, log, tallies, pace⟩ := w
  obtain rfl : context = .live := hw.context
  rfl

theorem World.IsSteady.check {fs : FileSystem} {w w' : World} (hw : w.IsSteady fs)
    (h : Run.check w = .ok () w') : w'.IsSteady fs := by
  rw [hw.check_eq] at h
  cases h
  exact hw

theorem Run.Answers.check (fs : FileSystem) : Answers fs Run.check (.ok ()) := of_does .check

end CallerTree
