import CallerTree.Proofs.Returns

/-!
# The callers of a function are its call sites

Below each function that is looked up stand its call sites: all of them, none twice, in the order in
which they were found, and each under the name of the function it stands in. What the call sites of
a function are is well defined if the locator answers by name (`Locator.IsByName`). Then it does not
matter in which order the functions were looked up: every way to resolve returns the tree that is
grown from the call sites (`Hierarchy.returned_iff_grown`), and the callers are read off that tree.

## Main results

* `Hierarchy.callers_are_call_sites` — the callers in a resolved tree
-/

namespace CallerTree

namespace Hierarchy

open CallTree

/-- Whether a function with these functions above it is given its callers: the limit allows another
level, it does not stand above itself, and it is the root or a known function other than the one it
calls. -/
def IsExpandable (limit : Int) (above : List Member) (m : Member) : Prop :=
  m.head.depth < limit ∧ m.head.isRecursive = false ∧ IsSought (names above) m.name

/-- **No call site is lost, invented, duplicated or reordered.** In a tree that is resolved with a
locator that answers by name, with tasks or without, an expandable function has one caller for each
of its call sites, in the same order, with the name of the function around the call site and the
call site itself; every other function has no callers. -/
theorem callers_are_call_sites {l : Locator} {tree : SourceTree} {limit : Int} {name : Text}
    {w : World} {t : CallTree} (hl : l.IsByName tree w.files) (hlive : w.context = .live)
    (h : Returned l tree limit name w t) {m : Member} {above : List Member}
    (hm : t.Lineage (m :: above)) :
    (IsExpandable limit above m →
      ∃ calls, (∃ v, callSites l tree m.name w = .ok calls v) ∧ m.callers.length = calls.length ∧
        ∀ (i : Nat) (call : Call), calls[i]? = some call → ∃ c : Member,
          m.callers[i]? = some c.tree ∧ c.name = call.caller ∧ c.head.site = some call.site) ∧
    (¬ IsExpandable limit above m → m.callers = []) := by
  have hw : w.IsSteady w.files := ⟨rfl, hlive⟩
  have hstanding := standing_of_lineage ((returned_iff_grown hl hw).mp h) hm
  unfold IsExpandable
  generalize names above = ns at hstanding ⊢
  cases hstanding with
  | leaf hsought => exact ⟨fun h => absurd h.2.2 hsought, fun _ => rfl⟩
  | @terminal name site hsought hsite hstop =>
    refine ⟨fun ⟨hdepth, hrec, _⟩ => ?_, fun _ => rfl⟩
    rcases hstop with hstop | hstop
    · simp only [terminalHead] at hdepth
      omega
    · simp [terminalHead, Ancestry.has, hstop] at hrec
  | @expanded name site calls callers hsought hsite hlevel hnew hcalls hcallers =>
    constructor
    · intro _
      obtain ⟨v, -, hv⟩ := hcalls w hw
      refine ⟨calls, ⟨v, hv⟩, hcallers.length_eq.symm, fun i call hcall => ?_⟩
      obtain ⟨hi, rfl⟩ := List.getElem?_eq_some_iff.mp hcall
      have hi' : i < callers.length := hcallers.length_eq ▸ hi
      obtain ⟨c, hc, hname, hsite⟩ := hcallers.get hi hi'
      exact ⟨c, List.getElem?_eq_some_iff.mpr ⟨hi', hc⟩, hname, hsite⟩
    · intro hnot
      refine absurd ⟨?_, rfl, hsought⟩ hnot
      simp only [expandedHead]
      omega

/-- Resolving `f` three levels deep finds `g` above it, and there `f` again. -/
theorem exists_lineage_mutualCalls :
    ∃ t w' k g m, build (.ofTable mutualCalls) ⟨"/src", []⟩ 3 "f" { files := .empty } =
        .ok t w' ∧ t.Lineage [k, g, m] ∧ k.name = "f" ∧ k.head.isRecursive = true ∧
      m.name = "f" ∧ m.head.depth = 0 ∧ m.head.isRecursive = false := by
  have heval : ((Run.result? (build (.ofTable mutualCalls) ⟨"/src", []⟩ 3 "f")
      { files := .empty }).bind (·.lineageAt? [0, 0])).map
        (·.map fun m => (m.name, m.head.depth, m.head.isRecursive)) =
      some [(Text.ofString "f", 2, true), (Text.ofString "g", 1, false),
        (Text.ofString "f", 0, false)] := by decide +kernel
  simp only [Option.map_eq_some_iff, Option.bind_eq_some_iff, Run.result?_eq_some_iff,
    List.map_eq_cons_iff, List.map_eq_nil_iff, Prod.mk.injEq] at heval
  obtain ⟨_, ⟨t, ⟨w', h⟩, hat⟩, k, _, rfl, ⟨hk, -, hrec⟩, g, _, rfl, -, m, _, rfl,
    ⟨hm, hdepth, hnew⟩, rfl⟩ := heval
  exact ⟨t, w', k, g, m, h, lineage_of_lineageAt? hat, hk, hrec, hm, hdepth, hnew⟩

theorem callers_are_call_sites_mutual :
    ∃ t w' m g k, build (.ofTable mutualCalls) ⟨"/src", []⟩ 3 "f" { files := .empty } =
        .ok t w' ∧ t.Lineage [m] ∧ t.Lineage [k, g, m] ∧
      IsExpandable 3 [] m ∧ m.callers.length = 2 ∧ ¬ IsExpandable 3 [g, m] k ∧ k.callers = [] := by
  obtain ⟨t, w', k, g, m, h, hk, -, hrec, hname, hdepth, hnew⟩ := exists_lineage_mutualCalls
  have hm : t.Lineage [m] := by
    obtain _ | ⟨_ | ⟨hm, _⟩, _⟩ := hk
    exact hm
  have hsites : (Run.result? (callSites (.ofTable mutualCalls) ⟨"/src", []⟩ "f")
      { files := .empty }).map (·.length) = some 2 := by decide +kernel
  simp only [Option.map_eq_some_iff, Run.result?_eq_some_iff] at hsites
  obtain ⟨calls, ⟨v, hcalls⟩, hlength⟩ := hsites
  have hl := Locator.isByName_ofTable mutualCalls ⟨"/src", []⟩ .empty
  have hexpandable : IsExpandable 3 [] m := ⟨by omega, hnew, by simp [IsSought]⟩
  have hnot : ¬ IsExpandable 3 [g, m] k := by
    rintro ⟨-, hfalse, -⟩
    simp [hrec] at hfalse
  obtain ⟨calls', ⟨v', hcalls'⟩, hlength', -⟩ :=
    (callers_are_call_sites hl rfl (.sequential h) hm).1 hexpandable
  rw [hname, hcalls] at hcalls'
  cases hcalls'
  exact ⟨t, w', m, g, k, h, hm, hk, hexpandable, by rw [hlength', hlength], hnot,
    (callers_are_call_sites hl rfl (.sequential h) hk).2 hnot⟩

end Hierarchy

end CallerTree
