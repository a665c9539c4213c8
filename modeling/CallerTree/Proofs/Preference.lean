import CallerTree.Proofs.Pattern

/-!
# Which match is preferred

A text can match a pattern in several ways. The matcher keeps its threads in order of preference and
drops a thread whose residual it has already. Here all ways to match are listed in that order, and
the matcher is shown to return the first of them: what it drops never comes first.

## Scope

The list is not described by the pattern as a whole. What is needed of it is the way in which a text
begins: `Leads` follows the first residual of each glyph, and a match that goes on from there is
preferred to all that do not.

## Main definitions

* `Pattern.labellings` — all ways to match, in order of preference
* `Pattern.Leads` — a text read in the preferred way, and what it leaves

## Main results

* `Pattern.label?_eq_head?` — the matcher returns the first way to match
* `Pattern.Leads.label?_eq` — what begins in the preferred way is preferred
-/

namespace CallerTree

namespace Pattern

variable {τ : Type}

/-- All ways to match a text, in order of preference. -/
def labellings : Pattern τ → Text → List (List (τ × Glyph))
  | p, [] => if p.nullable then [[]] else []
  | p, g :: t => (p.residuals g.toChar).flatMap fun x => (x.2.labellings t).map ((x.1, g) :: ·)

/-! ### Reading in the preferred way -/

/-- A labelled text that is read by taking the first residual at each glyph, and the residual that
is left after it. -/
inductive Leads : Pattern τ → List (τ × Glyph) → Pattern τ → Prop
  | nil {p : Pattern τ} : Leads p [] p
  | cons {p q r : Pattern τ} {l : τ} {g : Glyph} {m : List (τ × Glyph)}
      (hfirst : (p.residuals g.toChar).head? = some (l, q)) (hrest : Leads q m r) :
      Leads p ((l, g) :: m) r

namespace Leads

variable {p q r : Pattern τ} {m n : List (τ × Glyph)}

theorem append (hm : Leads p m q) (hn : Leads q n r) : Leads p (m ++ n) r := by
  induction hm with
  | nil => exact hn
  | cons hfirst _ ih => exact .cons hfirst (ih hn)

/-- A sequence prefers what its first part prefers. -/
theorem after (hm : Leads p m r) (q : Pattern τ) : Leads (p.after q) m (r.after q) := by
  induction hm with
  | nil => exact .nil
  | @cons p p' r l g m hfirst _ ih =>
    have hseq : (p.after q).residuals g.toChar = (p.seq q).residuals g.toChar := by
      cases p with
      | empty => cases hfirst
      | _ => rfl
    refine .cons ?_ ih
    rw [hseq, residuals, List.head?_append, List.head?_map, hfirst]
    rfl

end Leads

/-! ### The first way to match -/

/-- What a thread may return on a text, in order of preference. -/
def Thread.answers (t : Text) (u : Thread τ) : List (List (τ × Glyph)) :=
  (u.residual.labellings t).map (u.done.reverse ++ ·)

theorem Thread.flatMap_answers_advance (g : Glyph) (t : Text) (u : Thread τ) :
    (u.advance g).flatMap (answers t) = u.answers (g :: t) := by
  simp [advance, answers, labellings, List.flatMap_map, List.map_flatMap, Function.comp_def]

theorem finish?_eq_head? (threads : List (Thread τ)) :
    finish? threads = (threads.flatMap (Thread.answers [])).head? := by
  induction threads with
  | nil => rfl
  | cons u threads ih =>
    rw [finish?, List.find?_cons, List.flatMap_cons, Thread.answers, labellings]
    by_cases hu : u.residual.nullable = true
    · simp [hu]
    · simp [hu, ← ih, finish?]

variable [DecidableEq τ]

/-- A thread is only dropped after one that has the same residual; if that one returns nothing, then
the dropped one would not either. -/
theorem head?_flatMap_preferred (t : Text) (threads : List (Thread τ)) :
    ((preferred threads).flatMap (Thread.answers t)).head? =
      (threads.flatMap (Thread.answers t)).head? := by
  induction threads with
  | nil => rfl
  | cons u threads ih =>
    rw [preferred, List.foldr_cons, List.flatMap_cons, List.flatMap_cons, ← preferred]
    by_cases hu : u.residual.labellings t = []
    · have hnone : ∀ v : Thread τ, v.residual = u.residual → v.answers t = [] := by
        intro v hv
        rw [Thread.answers, hv, hu, List.map_nil]
      have hfilter : ((preferred threads).filter (·.residual ≠ u.residual)).flatMap
          (Thread.answers t) = (preferred threads).flatMap (Thread.answers t) := by
        induction preferred threads with
        | nil => rfl
        | cons v rest ihrest =>
          by_cases hv : v.residual = u.residual
          · rw [List.filter_cons_of_neg (by simpa using hv), List.flatMap_cons, hnone v hv,
              List.nil_append, ihrest]
          · rw [List.filter_cons_of_pos (by simpa using hv), List.flatMap_cons, List.flatMap_cons,
              ihrest]
      rw [hnone u rfl, List.nil_append, List.nil_append, hfilter, ih]
    · have hsome : u.answers t ≠ [] := by simpa [Thread.answers] using hu
      rw [List.head?_append_of_ne_nil _ hsome, List.head?_append_of_ne_nil _ hsome]

theorem run_eq_head? (t : Text) (threads : List (Thread τ)) :
    run threads t = (threads.flatMap (Thread.answers t)).head? := by
  induction t generalizing threads with
  | nil => exact finish?_eq_head? threads
  | cons g t ih =>
    rw [run]
    split
    · rename_i hempty
      rw [List.isEmpty_iff.mp hempty]
      rfl
    · rw [ih, head?_flatMap_preferred, List.flatMap_assoc]
      simp only [Thread.flatMap_answers_advance]

/-- The matcher returns the first way to match. -/
theorem label?_eq_head? (p : Pattern τ) (t : Text) : p.label? t = (p.labellings t).head? := by
  simp [label?, run_eq_head?, Thread.answers]

/-- What is left after a preferred beginning is matched as on its own. -/
theorem Leads.label?_eq {p r : Pattern τ} {m n : List (τ × Glyph)} (hm : Leads p m r) {t : Text}
    (hn : r.label? t = some n) : p.label? (m.map Prod.snd ++ t) = some (m ++ n) := by
  induction hm with
  | nil => exact hn
  | @cons p q r l g m hfirst _ ih =>
    obtain ⟨others, hresiduals⟩ := List.head?_eq_some_iff.mp hfirst
    have hq := ih hn
    rw [label?_eq_head?] at hq
    rw [label?_eq_head?, List.map_cons, List.cons_append, labellings, hresiduals, List.flatMap_cons,
      List.head?_append, List.head?_map, hq]
    rfl

end Pattern

end CallerTree
