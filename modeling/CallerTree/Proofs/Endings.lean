import CallerTree.Proofs.Lockstep

/-!
# How runs end

`Run.Ends` says what a run fails with from one given world, together with what is known of the world
that it leaves. A failure that is caught is handed on with that world (`Run.Ends.attempt_bind`), so
that a look at the context after a failure can be related to it.

## Why the worlds are given

The files may change during a request, when a tool removes some. So a failure that is due to the
files is described by the files at that moment, and the steps after it are followed from that very
world (`Run.Ends.note_bind`, `Run.Ends.look_bind`). The one property that all worlds of a request
share is that the context ends as contexts do (`World.IsOrdinary`).

## Main definitions

* `World.IsOrdinary`, `World.IsOver` — what the context is like
* `Run.Ends`

## Main results

* `Failure.has_under`, `Failure.has_join` — wrapping and joining keep the causes
* `Run.Ends.bind`, `Run.Ends.attempt_bind`, `Run.Ends.look_bind` — putting runs together
-/

namespace CallerTree

variable {α β : Type}

/-! ### The causes in a failure -/

namespace Failure

@[simp] theorem has_message (c : Cause) (t : Text) : (message t).has c = false := rfl

@[simp] theorem has_cause (c d : Cause) : (cause d).has c = decide (c = d) := rfl

@[simp] theorem has_because (c d : Cause) (detail : Text) :
    (because d detail).has c = decide (c = d) := rfl

@[simp] theorem has_under (c : Cause) (lead : Text) (f : Failure) :
    (under lead f).has c = f.has c := rfl

@[simp] theorem has_join (c : Cause) (fs : List Failure) : (join fs).has c = fs.any (has c) := by
  have hany : anyHas c fs = fs.any (has c) := by
    induction fs with
    | nil => rw [anyHas, List.any_nil]
    | cons f fs ih => rw [anyHas, List.any_cons, ih]
  rw [has, hany]

end Failure

/-! ### Contexts that end as contexts do -/

/-- Why a context ends, if it ever does. -/
def Context.cause? : Context → Option Cause
  | live => none
  | ended c => some c
  | ending _ c => some c

theorem Context.cause?_look (κ : Context) : κ.look.2.cause? = κ.cause? := by
  match κ with
  | live => rfl
  | ended _ => rfl
  | ending 0 _ => rfl
  | ending (_ + 1) _ => rfl

theorem Context.IsOver.cause?_eq {κ : Context} {c : Cause} (h : κ.IsOver c) :
    κ.cause? = some c := by
  match κ, h with
  | ended _, h => exact h
  | ending 0 _, h => exact h

/-- The context has ended. -/
def World.IsOver (w : World) : Prop := ∃ c, w.context.IsOver c

/-- The context ends, if it does, because it is cancelled or its time is up. -/
def World.IsOrdinary (w : World) : Prop := ∀ c ∈ w.context.cause?, c = .canceled ∨ c = .deadline

/-- A cause that is there already stays. -/
theorem Context.ordinary_cancel {κ : Context} (h : ∀ c ∈ κ.cause?, c = .canceled ∨ c = .deadline) :
    ∀ c ∈ κ.cancel.cause?, c = .canceled ∨ c = .deadline := by
  match κ, h with
  | live, _ =>
    rintro c ⟨⟩
    exact .inl rfl
  | ended _, h => exact h
  | ending 0 _, h => exact h
  | ending (_ + 1) _, _ =>
    rintro c ⟨⟩
    exact .inl rfl

namespace Run

/-- The failure of a run that fails. -/
def failure? (x : Run α) (w : World) : Option Failure :=
  match x w with
  | .ok _ _ => none
  | .error f _ => some f

theorem failure?_eq_some_iff {x : Run α} {w : World} {f : Failure} :
    failure? x w = some f ↔ ∃ v, x w = .error f v := by
  unfold failure?
  cases x w <;> simp

/-- From this world the run ends in an ordinary one, and if it fails then as `P` admits there. -/
def Ends (P : Failure → World → Prop) (x : Run α) (w : World) : Prop :=
  ∃ r v, x w = ofExcept r v ∧ v.IsOrdinary ∧ ∀ f, r = .error f → P f v

namespace Ends

variable {P Q : Failure → World → Prop} {x : Run α} {w : World}

protected theorem pure (hw : w.IsOrdinary) (a : α) : Ends P (pure a) w :=
  ⟨.ok a, w, rfl, hw, fun _ h => by cases h⟩

protected theorem throw (hw : w.IsOrdinary) {f : Failure} (hf : P f w) :
    Ends P (throw f : Run α) w := by
  refine ⟨.error f, w, rfl, hw, ?_⟩
  rintro _ ⟨⟩
  exact hf

theorem throw_bind (hw : w.IsOrdinary) {f : Failure} (hf : P f w) {g : α → Run β} :
    Ends P ((throw f : Run α) >>= g) w :=
  Ends.throw hw hf

/-- The second step may start in any ordinary world, as nothing else is known of the first. -/
protected theorem bind {f : α → Run β} (hx : Ends P x w)
    (hf : ∀ a v, v.IsOrdinary → Ends P (f a) v) : Ends P (x >>= f) w := by
  obtain ⟨r, v, hr, hv, hP⟩ := hx
  cases r with
  | error e =>
    refine ⟨.error e, v, bind_of_error hr f, hv, ?_⟩
    rintro _ ⟨⟩
    exact hP e rfl
  | ok a =>
    obtain ⟨s, u, hs, hu, hP⟩ := hf a v hv
    exact ⟨s, u, by rw [bind_of_ok hr, hs], hu, hP⟩

/-- A failure that is caught is handed on with the world it was met in. -/
theorem attempt_bind {f : Except Failure α → Run β} (hx : Ends Q x w)
    (hok : ∀ a v, v.IsOrdinary → Ends P (f (.ok a)) v)
    (herror : ∀ e v, v.IsOrdinary → Q e v → Ends P (f (.error e)) v) :
    Ends P (attempt x >>= f) w := by
  obtain ⟨r, v, hr, hv, hQ⟩ := hx
  have hattempt := attempt_of_eq hr
  have hrest : Ends P (f r) v := by
    cases r with
    | ok a => exact hok a v hv
    | error e => exact herror e v hv (hQ e rfl)
  obtain ⟨s, u, hs, hu, hP⟩ := hrest
  exact ⟨s, u, by rw [bind_of_ok hattempt, hs], hu, hP⟩

theorem get_bind {f : World → Run β} (hf : Ends P (f w) w) : Ends P ((get : Run World) >>= f) w :=
  hf

theorem modify_bind {g : World → World} {f : PUnit → Run β} (hf : Ends P (f ⟨⟩) (g w)) :
    Ends P ((modify g : Run PUnit) >>= f) w :=
  hf

theorem note_bind (hw : w.IsOrdinary) {level : Level} {message : Text}
    {attributes : List (Text × Datum)} {f : Unit → Run β}
    (hf : ∀ v, v.IsOrdinary → v.files = w.files → Ends P (f ()) v) :
    Ends P (note level message attributes >>= f) w :=
  hf { w with log := w.log ++ [⟨level, message, attributes⟩] } hw rfl

theorem count_bind (hw : w.IsOrdinary) {t : Tally} {f : Unit → Run β}
    (hf : ∀ v, v.IsOrdinary → v.files = w.files → Ends P (f ()) v) : Ends P (count t >>= f) w :=
  hf { w with tallies := w.tallies ++ [t] } hw rfl

theorem files_bind {f : FileSystem → Run β} (hf : Ends P (f w.files) w) :
    Ends P (files >>= f) w :=
  hf

/-- A look tells whether the context has ended, and changes nothing else. -/
theorem look_bind (hw : w.IsOrdinary) {f : Option Cause → Run β}
    (hnone : ¬ w.IsOver → ∀ v, v.IsOrdinary → v.files = w.files → Ends P (f none) v)
    (hsome : ∀ c v, v.IsOrdinary → v.context.IsOver c → Ends P (f (some c)) v) :
    Ends P (look >>= f) w := by
  let v : World := { w with context := w.context.look.2 }
  have hv : v.IsOrdinary := by
    unfold World.IsOrdinary
    rw [Context.cause?_look]
    exact hw
  have hlook : look w = ofExcept (.ok w.context.look.1) v := rfl
  have hrest : Ends P (f w.context.look.1) v := by
    cases hended : w.context.look.1 with
    | none =>
      refine hnone ?_ v hv rfl
      rintro ⟨c, hover⟩
      rw [Context.IsOver, hended] at hover
      cases hover
    | some c => exact hsome c v hv (Context.IsOver.look hended)
  obtain ⟨r, u, hr, hu, hP⟩ := hrest
  exact ⟨r, u, by rw [bind_of_ok hlook, hr], hu, hP⟩

/-- The failure is the cause for which the context has ended. -/
protected theorem check (hw : w.IsOrdinary)
    (hP : ∀ c v, v.IsOrdinary → v.context.IsOver c → P (.cause c) v) : Ends P check w :=
  look_bind hw (fun _ _ hv _ => .pure hv _) fun c v hv hover => .throw hv (hP c v hv hover)

theorem of_ok (hx : Ends P x w) {a : α} {v : World} (h : x w = .ok a v) : v.IsOrdinary := by
  obtain ⟨r, u, hr, hu, -⟩ := hx
  rw [h] at hr
  obtain ⟨-, rfl⟩ := ofExcept_ok_iff.mp hr.symm
  exact hu

theorem of_error (hx : Ends P x w) {f : Failure} {v : World} (h : x w = .error f v) :
    v.IsOrdinary ∧ P f v := by
  obtain ⟨r, u, hr, hu, hP⟩ := hx
  rw [h] at hr
  cases r with
  | ok a => cases hr
  | error g =>
    cases hr
    exact ⟨hu, hP f rfl⟩

theorem mono (hx : Ends P x w) (h : ∀ f v, P f v → Q f v) : Ends Q x w := by
  obtain ⟨r, v, hr, hv, hP⟩ := hx
  exact ⟨r, v, hr, hv, fun f hf => h f v (hP f hf)⟩

theorem congruence : Congruence fun x _ => ∀ w, w.IsOrdinary → Ends P x w where
  pure a _ hw := .pure hw a
  bind hx hf w hw := (hx w hw).bind hf
  note _ _ _ _ hw := ⟨.ok (), _, rfl, hw, nofun⟩
  files w hw := ⟨.ok w.files, w, rfl, hw, nofun⟩

/-- A check fails with the cause of a context that is over, and `hP` admits it. -/
theorem checkedCongruence (hP : ∀ c v, v.IsOrdinary → v.context.IsOver c → P (.cause c) v) :
    CheckedCongruence fun x _ => ∀ w, w.IsOrdinary → Ends P x w where
  toCongruence := congruence
  check _ hw := .check hw hP

end Ends

end Run

end CallerTree
