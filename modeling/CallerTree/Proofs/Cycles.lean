import CallerTree.Proofs.Callers

/-!
# Cycles in the call graph

Call graphs have cycles, caller trees do not. Each way down from the root carries the names it has
passed, and a name that comes up again is marked and ends the way. Nothing else is carried along, so
what is marked on one way does not depend on any other.

Two kinds of callers are never compared with the names above them: a caller that is unknown, and one
that is the very function it calls. Neither is marked, even when its name occurs further up.

## Main results

* `Hierarchy.Standing.isRecursive_iff` — which functions are marked, from the names above them
* `Hierarchy.nodup_names_of_lineage` — a name is given callers at most once on each way
* `Hierarchy.cycles_are_cut` — the guarantees for every resolved tree
-/

namespace CallerTree

namespace Hierarchy

open CallTree

variable {answers : Text → List Call → Prop} {limit : Int} {levels : Nat}

namespace Standing

variable {above : List Text} {m : Member}

theorem isRecursive_iff (h : Standing answers limit levels above m) :
    m.head.isRecursive = true ↔
      m.name ≠ Line.unknownCaller ∧ (∀ parent ∈ above.head?, m.name ≠ parent) ∧ m.name ∈ above := by
  cases h with
  | leaf hsought =>
    obtain ⟨parent, hparent, hname⟩ := exists_mem_of_not_isSought hsought
    refine ⟨fun h => absurd h Bool.false_ne_true, fun ⟨hknown, hother, _⟩ => ?_⟩
    rcases hname with hname | hname
    · exact absurd hname hknown
    · exact absurd hname (hother parent hparent)
  | @terminal name site hsought hsite hstop =>
    change Ancestry.has above name = true ↔ _
    rw [Ancestry.has_iff]
    refine ⟨fun hmem => ?_, fun ⟨_, _, hmem⟩ => hmem⟩
    cases above with
    | nil => simp at hmem
    | cons parent above =>
      obtain ⟨hknown, -⟩ := hsought parent rfl
      exact ⟨hknown, fun p hp => (hsought p hp).2, hmem⟩
  | @expanded name site calls callers hsought hsite hlevel hnew hcalls hcallers =>
    exact ⟨fun h => absurd h Bool.false_ne_true, fun ⟨_, _, hmem⟩ => absurd hmem hnew⟩

theorem callers_eq_nil (h : Standing answers limit levels above m)
    (hrec : m.head.isRecursive = true) : m.callers = [] := by
  cases h with
  | leaf => rfl
  | terminal => rfl
  | expanded => exact absurd hrec Bool.false_ne_true

theorem name_not_mem (h : Standing answers limit levels above m) (hcallers : m.callers ≠ []) :
    m.name ∉ above := by
  cases h with
  | leaf => exact absurd rfl hcallers
  | terminal => exact absurd rfl hcallers
  | expanded _ _ _ hnew => exact hnew

end Standing

/-- The functions with callers on a way up to the root have different names. Each step down adds one
function, whose name is new if it has callers. -/
theorem nodup_names_of_lineage {name : Text} {t : CallTree}
    (h : Grown answers limit levels [] name none t) {ms : List Member} (hms : t.Lineage ms) :
    (names (ms.filter fun m => !m.callers.isEmpty)).Nodup := by
  induction hms with
  | @root m _ =>
    rw [List.filter_cons]
    split <;> simp
  | @caller m c above hm hc ih =>
    have hstanding := standing_of_lineage h (.caller hm hc)
    rw [List.filter_cons]
    by_cases hcallers : c.callers = []
    · simpa [hcallers] using ih
    · have hnew := hstanding.name_not_mem hcallers
      rw [if_pos (by simpa using hcallers)]
      refine List.nodup_cons.mpr ⟨fun hmem => hnew ?_, ih⟩
      exact (List.filter_sublist.map _).subset hmem

/-- **Cycle safety.** In every tree that is returned, with tasks or without:

* the functions that have callers have different names along each way from the root;
* a function is marked as recursive exactly if its name is known, differs from the name right above
  it and occurs further up;
* a marked function has no callers;
* the mark depends on nothing but the names on the way from the root: wherever else the same names
  come in the same order, in this tree or in any other, the mark is the same. -/
theorem cycles_are_cut {l : Locator} {tree : SourceTree} {name : Text} {w : World} {t : CallTree}
    (h : Returned l tree limit name w t) :
    (∀ ms, t.Lineage ms → (names (ms.filter fun m => !m.callers.isEmpty)).Nodup) ∧
    (∀ m above, t.Lineage (m :: above) →
      (m.head.isRecursive = true ↔ m.name ≠ Line.unknownCaller ∧
        (∀ parent ∈ above.head?, m.name ≠ parent.name) ∧ ∃ a ∈ above, a.name = m.name)) ∧
    (∀ m above, t.Lineage (m :: above) → m.head.isRecursive = true → m.callers = []) ∧
    (∀ l₂ tree₂ limit₂ name₂ v u, Returned l₂ tree₂ limit₂ name₂ v u →
      ∀ m above m₂ above₂, t.Lineage (m :: above) → u.Lineage (m₂ :: above₂) →
        names (m :: above) = names (m₂ :: above₂) → m.head.isRecursive = m₂.head.isRecursive) := by
  have hgrown := grown_of_returned h
  refine ⟨fun ms hms => nodup_names_of_lineage hgrown hms, fun m above hm => ?_,
    fun m above hm => ?_, fun l₂ tree₂ limit₂ name₂ v u h₂ m above m₂ above₂ hm hm₂ hnames => ?_⟩
  · rw [(standing_of_lineage hgrown hm).isRecursive_iff]
    simp [names]
  · exact (standing_of_lineage hgrown hm).callers_eq_nil
  · rw [names_cons, names_cons] at hnames
    obtain ⟨hname, habove⟩ := List.cons.inj hnames
    rw [Bool.eq_iff_iff, (standing_of_lineage hgrown hm).isRecursive_iff,
      (standing_of_lineage (grown_of_returned h₂) hm₂).isRecursive_iff, hname, habove]

theorem cycles_are_cut_mutual :
    ∃ t w' k g m, build (.ofTable mutualCalls) ⟨"/src", []⟩ 3 "f" { files := .empty } =
        .ok t w' ∧ t.Lineage [k, g, m] ∧ k.head.isRecursive = true ∧ k.name ≠ g.name ∧
      k.name = m.name ∧ k.callers = [] := by
  obtain ⟨t, w', k, g, m, h, hk, hname, hrec, hroot, -, -⟩ := exists_lineage_mutualCalls
  obtain ⟨-, hiff, hnil, -⟩ := cycles_are_cut (.sequential h)
  obtain ⟨-, hparent, -⟩ := (hiff k [g, m] hk).mp hrec
  exact ⟨t, w', k, g, m, h, hk, hrec, hparent g rfl, hname.trans hroot.symm,
    hnil k [g, m] hk hrec⟩

end Hierarchy

end CallerTree
