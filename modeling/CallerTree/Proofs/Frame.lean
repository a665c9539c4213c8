import CallerTree.Proofs.Congruence
import CallerTree.Proofs.Run

/-!
# What runs issue and count

The world keeps every command that was issued and everything that was counted, also when a request
fails. So what holds of all commands, or of all counts, is an invariant of runs, and it does not
matter what the tools answer. A `Frame` is a bound on what is issued and counted; a run keeps to the
frame if the world that it leaves is within the bound.

Reading, searching and resolving count nothing by themselves, and issue nothing but commands that
are passed to `Run.command`. So they keep to every frame that these commands keep to.

## Main definitions

* `Run.worldAfter` — the world that a run leaves behind
* `Frame`, `Run.KeepsTo`

## Main results

* `Run.KeepsTo.bind`, `Run.KeepsTo.attempt`, `Run.KeepsTo.command` — putting runs together
* `Run.KeepsTo.congruence` — lookups and resolutions
-/

namespace CallerTree

variable {α β : Type}

/-- A bound on what is issued and counted from one world to another. Files, context and log may
change in any way. -/
structure Frame where
  admits : World → World → Prop
  quiet : ∀ {w v}, v.issued = w.issued → v.tallies = w.tallies → admits w v
  trans : ∀ {u v w}, admits u v → admits v w → admits u w

namespace Run

/-- The world that a run leaves behind, whether it fails or not. -/
def worldAfter (x : Run α) (w : World) : World :=
  match x w with
  | .ok _ v => v
  | .error _ v => v

theorem worldAfter_of_ok {x : Run α} {a : α} {w v : World} (h : x w = .ok a v) :
    x.worldAfter w = v := by
  rw [worldAfter, h]

theorem worldAfter_of_error {x : Run α} {e : Failure} {w v : World} (h : x w = .error e v) :
    x.worldAfter w = v := by
  rw [worldAfter, h]

/-- Whatever comes of the run, the world that it leaves is within the frame. -/
def KeepsTo (F : Frame) (x : Run α) : Prop := ∀ w, F.admits w (x.worldAfter w)

namespace KeepsTo

variable {F : Frame} {x : Run α} {f : α → Run β}

protected theorem pure (a : α) : KeepsTo F (pure a) := fun _ => F.quiet rfl rfl

protected theorem throw (e : Failure) : KeepsTo F (throw e : Run α) := fun _ => F.quiet rfl rfl

theorem throw_bind (e : Failure) (f : α → Run β) : KeepsTo F ((throw e : Run α) >>= f) :=
  fun _ => F.quiet rfl rfl

theorem files : KeepsTo F Run.files := fun _ => F.quiet rfl rfl

theorem look : KeepsTo F Run.look := fun _ => F.quiet rfl rfl

theorem note (level : Level) (message : Text) (attributes : List (Text × Datum)) :
    KeepsTo F (Run.note level message attributes) := fun _ => F.quiet rfl rfl

theorem modifies {g : World → World} (hg : ∀ w, F.admits w (g w)) :
    KeepsTo F (modify g : Run PUnit) := hg

protected theorem bind (hx : KeepsTo F x) (hf : ∀ a, KeepsTo F (f a)) : KeepsTo F (x >>= f) := by
  intro w
  have hfirst := hx w
  cases hxw : x w with
  | ok a v =>
    have hsame : (x >>= f).worldAfter w = (f a).worldAfter v := by
      rw [worldAfter, bind_of_ok hxw, worldAfter]
    rw [worldAfter_of_ok hxw] at hfirst
    rw [hsame]
    exact F.trans hfirst (hf a v)
  | error e v =>
    rw [worldAfter_of_error hxw] at hfirst
    rw [worldAfter_of_error (bind_of_error hxw f)]
    exact hfirst

theorem attempt (hx : KeepsTo F x) : KeepsTo F (Run.attempt x) := by
  intro w
  have hsame : (Run.attempt x).worldAfter w = x.worldAfter w := by
    rw [worldAfter, Run.attempt, worldAfter]
    cases x w <;> rfl
  rw [hsame]
  exact hx w

theorem ofExcept (r : Except Failure α) : KeepsTo F (Run.ofExcept r) := by
  cases r with
  | ok a => exact .pure a
  | error e => exact .throw e

theorem ofExcept_bind {r : Except Failure α} (hf : ∀ a, r = .ok a → KeepsTo F (f a)) :
    KeepsTo F (Run.ofExcept r >>= f) := by
  cases r with
  | ok a => exact hf a rfl
  | error e => exact .throw_bind e f

theorem check : KeepsTo F Run.check := by
  refine look.bind fun c => ?_
  cases c with
  | some c => exact .throw _
  | none => exact .pure _

/-- A command is recorded before anything else, and nothing else is recorded or counted. -/
theorem command {tools : Toolbox} {c : Command}
    (hc : ∀ w, F.admits w { w with issued := w.issued ++ [c] }) :
    KeepsTo F (Run.command tools c) := by
  refine (modifies hc).bind fun _ => check.bind fun _ => ?_
  refine KeepsTo.bind (fun _ => F.quiet rfl rfl) fun _ => ?_
  refine KeepsTo.bind (fun _ => F.quiet rfl rfl) fun _ => ?_
  exact KeepsTo.bind (fun _ => F.quiet rfl rfl) fun _ => ofExcept _

theorem congruence (F : Frame) : FullCongruence fun x _ => KeepsTo F x where
  pure := .pure
  bind hx hf := hx.bind hf
  note := note
  files := files
  check := check
  throw := .throw
  attempt := attempt
  look := look

end KeepsTo

end Run

end CallerTree
