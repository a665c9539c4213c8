import CallerTree.Proofs.Congruence
import CallerTree.Proofs.Run

/-!
# Runs whose context may end

The context of a request can end at any moment, and the request notices only when it looks. This
module compares a run with the run that is not disturbed. The two go in lockstep until the first
look that finds the context ended; what matters is how the disturbed one goes on from there.

## Lockstep

`Run.Follows P cut x₀ x` speaks of the undisturbed run `x₀` and of the run `x` in the same files.
The first ends in a live context, and if it fails then with a failure that `P` admits. The second
has the same outcome and leaves the same files, or its context has ended and it fails as `cut`
admits. So a run that follows never has an outcome of its own making. `Run.FailsOver` is the other
half: how a run fails that finds its context ended from the beginning. It is needed where a failure
is caught (`Follows.attempt_bind`), since the run goes on in an ended context there.

## Main definitions

* `Context.IsOver` — the context has ended, and why
* `Run.Follows`, `Run.FailsOver`

## Main results

* `Run.Follows.bind`, `Run.Follows.attempt_bind`, `Run.Follows.look_bind` — putting runs together
* `Run.Follows.checkedCongruence` — resolutions
-/

namespace CallerTree

variable {α β : Type}

/-! ### Ended contexts -/

/-- The context has ended, and this is the cause. -/
def Context.IsOver (κ : Context) (c : Cause) : Prop := κ.look.1 = some c

namespace Context

/-- A context that has ended stays ended. -/
theorem IsOver.look {κ : Context} {c : Cause} (h : κ.IsOver c) : κ.look.2.IsOver c := by
  match κ, h with
  | ended _, h => exact h
  | ending 0 _, h => exact h

end Context

namespace Run

/-! ### Lockstep -/

/-- The run `x` has the outcome of the undisturbed run `x₀`, or its context has ended and it fails
as `cut` admits. What `x₀` itself fails with is in `P`. -/
def Follows (P : Failure → Prop) (cut : Cause → Failure → Prop) (x₀ x : Run α) : Prop :=
  ∀ w₀ w, w₀.context = .live → w₀.files = w.files →
    ∃ r₀ v₀ r v, x₀ w₀ = ofExcept r₀ v₀ ∧ x w = ofExcept r v ∧ v₀.context = .live ∧
      (∀ f, r₀ = .error f → P f) ∧
      (r = r₀ ∧ v₀.files = v.files ∨ ∃ c f, v.context.IsOver c ∧ r = .error f ∧ cut c f)

/-- In a context that has ended with the cause `c` the run fails as `cut` admits. -/
def FailsOver (cut : Cause → Failure → Prop) (c : Cause) (x : Run α) : Prop :=
  ∀ w, w.context.IsOver c → ∃ f v, x w = ofExcept (.error f) v ∧ v.context.IsOver c ∧ cut c f

/-- The run can have this outcome in a context that is live from beginning to end. -/
def CanEnd (x : Run α) (r : Except Failure α) : Prop :=
  ∃ w v, w.context = .live ∧ v.context = .live ∧ x w = ofExcept r v

/-- The failures of a request that has ended, if nothing was put around the cause. -/
def ByCause (c : Cause) (f : Failure) : Prop := f = .cause c

/-- Any failure. -/
def Anyhow (_ : Cause) (_ : Failure) : Prop := True

variable {P Q : Failure → Prop} {cut cut' : Cause → Failure → Prop}

namespace FailsOver

variable {c : Cause}

protected theorem throw {f : Failure} (hf : cut c f) : FailsOver cut c (throw f : Run α) :=
  fun w hw => ⟨f, w, rfl, hw, hf⟩

protected theorem bind {x : Run α} (hx : FailsOver cut c x) (f : α → Run β) :
    FailsOver cut c (x >>= f) := by
  intro w hw
  obtain ⟨e, v, he, hv, hcut⟩ := hx w hw
  exact ⟨e, v, bind_of_error he f, hv, hcut⟩

theorem note_bind {level : Level} {message : Text} {attributes : List (Text × Datum)}
    {f : Unit → Run β} (hf : FailsOver cut c (f ())) :
    FailsOver cut c (note level message attributes >>= f) :=
  fun w hw => hf { w with log := w.log ++ [⟨level, message, attributes⟩] } hw

theorem count_bind {t : Tally} {f : Unit → Run β} (hf : FailsOver cut c (f ())) :
    FailsOver cut c (count t >>= f) :=
  fun w hw => hf { w with tallies := w.tallies ++ [t] } hw

theorem look_bind {g : Option Cause → Run β} (hg : FailsOver cut c (g (some c))) :
    FailsOver cut c (look >>= g) := by
  intro w hw
  have hlook : look w = ofExcept (.ok (some c)) { w with context := w.context.look.2 } :=
    look_ok_iff.mpr ⟨hw, rfl⟩
  rw [bind_of_ok hlook]
  exact hg _ hw.look

protected theorem check : FailsOver ByCause c check :=
  look_bind (FailsOver.throw rfl)

end FailsOver

namespace Follows

theorem of_imp {x₀ x : Run α} (h : Follows P cut x₀ x) (hP : ∀ f, P f → Q f)
    (hcut : ∀ c f, cut c f → cut' c f) : Follows Q cut' x₀ x := by
  intro w₀ w hlive hfiles
  obtain ⟨r₀, v₀, r, v, hr₀, hr, hv₀, hfails, hend⟩ := h w₀ w hlive hfiles
  refine ⟨r₀, v₀, r, v, hr₀, hr, hv₀, fun f hf => hP f (hfails f hf), ?_⟩
  exact hend.imp_right fun ⟨c, f, hover, hf, hc⟩ => ⟨c, f, hover, hf, hcut c f hc⟩

/-- The undisturbed run, for itself. -/
theorem undisturbed {x₀ x : Run α} (h : Follows P cut x₀ x) {w₀ : World}
    (hlive : w₀.context = .live) :
    ∃ r₀ v₀, x₀ w₀ = ofExcept r₀ v₀ ∧ v₀.context = .live ∧ ∀ f, r₀ = .error f → P f := by
  obtain ⟨r₀, v₀, _, _, hr₀, -, hv₀, hP, -⟩ := h w₀ w₀ hlive rfl
  exact ⟨r₀, v₀, hr₀, hv₀, hP⟩

protected theorem pure (a : α) : Follows P cut (pure a) (pure a) :=
  fun w₀ w hlive hfiles => ⟨.ok a, w₀, .ok a, w, rfl, rfl, hlive, by simp, .inl ⟨rfl, hfiles⟩⟩

protected theorem throw {e : Failure} (he : P e) :
    Follows P cut (throw e : Run α) (throw e) := by
  intro w₀ w hlive hfiles
  refine ⟨.error e, w₀, .error e, w, rfl, rfl, hlive, ?_, .inl ⟨rfl, hfiles⟩⟩
  rintro f ⟨⟩
  exact he

theorem throw_bind {e : Failure} (he : P e) (f₀ f : α → Run β) :
    Follows P cut (throw e >>= f₀) (throw e >>= f) :=
  Follows.throw he

/-- What a run returns in whatever context, the undisturbed run returns too. -/
theorem exists_ok_of_ok {x₀ x : Run α} (hx : Follows P cut x₀ x) {w₀ w v : World} {a : α}
    (hlive : w₀.context = .live) (hfiles : w₀.files = w.files) (h : x w = .ok a v) :
    ∃ v₀, x₀ w₀ = .ok a v₀ := by
  obtain ⟨r₀, v₀, r, v', hr₀, hr, -, -, hend⟩ := hx w₀ w hlive hfiles
  rw [h] at hr
  obtain ⟨rfl, -⟩ | ⟨c, f, -, rfl, -⟩ := hend
  · obtain ⟨rfl, -⟩ := ofExcept_ok_iff.mp hr.symm
    exact ⟨v₀, hr₀⟩
  · cases hr

protected theorem ofExcept {r : Except Failure α} (hr : ∀ f, r = .error f → P f) :
    Follows P cut (Run.ofExcept r) (Run.ofExcept r) := by
  cases r with
  | ok a => exact .pure a
  | error f => exact .throw (hr f rfl)

protected theorem files : Follows P cut Run.files Run.files := by
  intro w₀ w hlive hfiles
  refine ⟨.ok w₀.files, w₀, .ok w.files, w, rfl, rfl, hlive, by simp, .inl ⟨?_, hfiles⟩⟩
  rw [hfiles]

/-- A change of the world that leaves its context alone, and the files the same in both runs. -/
theorem modifies {g : World → World} (hcontext : ∀ w, (g w).context = w.context)
    (hfiles : ∀ w₀ w, w₀.files = w.files → (g w₀).files = (g w).files) :
    Follows P cut (modify g : Run PUnit) (modify g) := by
  intro w₀ w hlive heq
  refine ⟨.ok ⟨⟩, g w₀, .ok ⟨⟩, g w, rfl, rfl, ?_, by simp, .inl ⟨rfl, hfiles w₀ w heq⟩⟩
  rw [hcontext, hlive]

protected theorem note (level : Level) (message : Text) (attributes : List (Text × Datum)) :
    Follows P cut (note level message attributes) (note level message attributes) :=
  modifies (fun _ => rfl) fun _ _ h => h

protected theorem count (t : Tally) : Follows P cut (count t) (count t) :=
  modifies (fun _ => rfl) fun _ _ h => h

/-- If the first run is cut short then the whole is; otherwise the second starts in the same
files. -/
protected theorem bind {x₀ x : Run α} {f₀ f : α → Run β} (hx : Follows P cut x₀ x)
    (hf : ∀ a, Follows P cut (f₀ a) (f a)) : Follows P cut (x₀ >>= f₀) (x >>= f) := by
  intro w₀ w hlive hfiles
  obtain ⟨r₀, v₀, r, v, hr₀, hr, hv₀, hP, hend⟩ := hx w₀ w hlive hfiles
  obtain ⟨rfl, hv⟩ | ⟨c, e, hover, rfl, hcut⟩ := hend
  · cases r with
    | error e =>
      refine ⟨.error e, v₀, .error e, v, bind_of_error hr₀ f₀, bind_of_error hr f, hv₀, ?_,
        .inl ⟨rfl, hv⟩⟩
      rintro _ ⟨⟩
      exact hP e rfl
    | ok a =>
      rw [bind_of_ok hr₀, bind_of_ok hr]
      exact hf a v₀ v hv₀ hv
  · cases r₀ with
    | error e₀ =>
      refine ⟨.error e₀, v₀, .error e, v, bind_of_error hr₀ f₀, bind_of_error hr f, hv₀, ?_,
        .inr ⟨c, e, hover, rfl, hcut⟩⟩
      rintro _ ⟨⟩
      exact hP e₀ rfl
    | ok a =>
      obtain ⟨s₀, u₀, hs₀, hu₀, hP⟩ := (hf a).undisturbed hv₀
      exact ⟨s₀, u₀, .error e, v, by rw [bind_of_ok hr₀, hs₀], bind_of_error hr f, hu₀, hP,
        .inr ⟨c, e, hover, rfl, hcut⟩⟩

/-- If the first run is cut short then the second deals with its failure, in an ended context. -/
theorem attempt_bind {x₀ x : Run α} {f₀ f : Except Failure α → Run β} (hx : Follows Q cut' x₀ x)
    (hf : ∀ r, CanEnd x₀ r → Follows P cut (f₀ r) (f r))
    (hcut : ∀ c e, cut' c e → FailsOver cut c (f (.error e))) :
    Follows P cut (attempt x₀ >>= f₀) (attempt x >>= f) := by
  intro w₀ w hlive hfiles
  obtain ⟨r₀, v₀, r, v, hr₀, hr, hv₀, -, hend⟩ := hx w₀ w hlive hfiles
  rw [bind_of_ok (attempt_of_eq hr₀), bind_of_ok (attempt_of_eq hr)]
  have hf₀ := hf r₀ ⟨w₀, v₀, hlive, hv₀, hr₀⟩
  obtain ⟨rfl, hv⟩ | ⟨c, e, hover, rfl, he⟩ := hend
  · exact hf₀ v₀ v hv₀ hv
  · obtain ⟨s₀, u₀, hs₀, hu₀, hP⟩ := hf₀.undisturbed hv₀
    obtain ⟨e', u, hu, hover, he'⟩ := hcut c e he v hover
    exact ⟨s₀, u₀, .error e', u, hs₀, hu, hu₀, hP, .inr ⟨c, e', hover, rfl, he'⟩⟩

/-- A look at the context is where the two runs may part. -/
theorem look_bind {g₀ g : Option Cause → Run β} (hg : Follows P cut (g₀ none) (g none))
    (hcut : ∀ c, FailsOver cut c (g (some c))) : Follows P cut (look >>= g₀) (look >>= g) := by
  intro w₀ w hlive hfiles
  have hlook₀ : look w₀ = ofExcept (.ok none) w₀ := by
    obtain ⟨files, context, issued, log, tallies⟩ := w₀
    obtain rfl : context = .live := hlive
    rfl
  have hlook : look w =
      ofExcept (.ok w.context.look.1) { w with context := w.context.look.2 } := rfl
  rw [bind_of_ok hlook₀, bind_of_ok hlook]
  cases hended : w.context.look.1 with
  | none => exact hg w₀ _ hlive hfiles
  | some c =>
    obtain ⟨s₀, u₀, hs₀, hu₀, hP⟩ := hg.undisturbed hlive
    have hover : (w.context.look.2).IsOver c := Context.IsOver.look hended
    obtain ⟨e, u, hu, hover, he⟩ := hcut c { w with context := w.context.look.2 } hover
    exact ⟨s₀, u₀, .error e, u, hs₀, hu, hu₀, hP, .inr ⟨c, e, hover, rfl, he⟩⟩

protected theorem check : Follows P ByCause check check :=
  look_bind (.pure _) fun _ => .throw rfl

theorem congruence : Congruence (Follows P cut) where
  pure := .pure
  bind hx hf := hx.bind hf
  note := .note
  files := .files

theorem checkedCongruence : CheckedCongruence (Follows P ByCause) where
  toCongruence := congruence
  check := .check

end Follows

end Run

end CallerTree
