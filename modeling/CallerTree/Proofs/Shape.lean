import CallerTree.Proofs.Returns

/-!
# The shape of caller trees

The heads of a caller tree say things that can also be read off the tree: how many callers there
are, how deep a function stands, whether it has a function above it. Here these are shown to agree,
in every tree that a resolution returns, with tasks or without.

## Where heads come from

A head is written in three places: for a function that ends its branch, for one that is given its
callers and for a caller that is not looked up. The call site is added to it later. `Standing` has
one case for each of the three, with the call site in place, so each field is looked at once for
each case, and nothing here depends on the recursion.

Whether the limit allows no further level is asked only where a function is looked up. So an unknown
caller and a function that calls itself carry no such mark, wherever they stand.

## Main definitions

* `Hierarchy.WellShaped` — what the head of a function says is what the tree shows

## Main results

* `Hierarchy.length_le_of_lineage` — no function stands deeper than the limit
* `Hierarchy.returned_trees_are_well_shaped`
-/

namespace CallerTree

namespace Hierarchy

open CallTree

variable {answers : Text → List Call → Prop} {limit : Int} {levels : Nat}

/-- The limit of a request is a 64-bit number, and the level before a limit that is not negative is
one too. -/
theorem nearLimit_iff (hlimit : 0 ≤ limit) (hmax : limit ≤ maxInt64) {depth : Int} :
    nearLimit limit depth = true ↔ limit - 1 ≤ depth := by
  have hlow : minInt64 ≤ limit - 1 := by
    simp only [minInt64]
    omega
  rw [nearLimit, wrap64_of_mem hlow (by omega), decide_eq_true_iff]

/-! ### The fields of a head -/

namespace Standing

variable {above : List Text} {m : Member}

theorem depth_eq (h : Standing answers limit levels above m) : m.head.depth = above.length := by
  cases h <;> rfl

theorem total_eq (h : Standing answers limit levels above m) :
    m.head.total = m.callers.length := by
  cases h <;> rfl

theorem unlisted_eq_false (h : Standing answers limit levels above m) :
    m.head.unlisted = false := by
  cases h <;> rfl

/-- The callers of a function are functions. -/
theorem absent_not_mem (h : Standing answers limit levels above m) :
    CallTree.absent ∉ m.callers := by
  cases h with
  | leaf => exact List.not_mem_nil
  | terminal => exact List.not_mem_nil
  | expanded _ _ _ _ _ hcallers =>
    intro habsent
    obtain ⟨_, -, c, hc, -⟩ := exists_mem_of_forall₂ hcallers habsent
    cases hc

theorem site_eq_none_iff (h : Standing answers limit levels above m) :
    m.head.site = none ↔ above = [] := by
  cases h with
  | leaf hsought =>
    obtain ⟨parent, hparent, -⟩ := exists_mem_of_not_isSought hsought
    refine ⟨fun hnone => (Option.some_ne_none _ hnone).elim, fun hroot => ?_⟩
    rw [hroot] at hparent
    cases hparent
  | terminal _ hsite => exact hsite
  | expanded _ hsite => exact hsite

theorem atDepthLimit_iff (h : Standing answers limit levels above m) :
    m.head.atDepthLimit = true ↔
      nearLimit limit m.head.depth = true ∧ IsSought above m.name := by
  cases h with
  | leaf hsought =>
    exact ⟨fun hmark => (Bool.false_ne_true hmark).elim, fun h => absurd h.2 hsought⟩
  | terminal hsought => exact ⟨fun hmark => ⟨hmark, hsought⟩, fun h => h.1⟩
  | expanded hsought => exact ⟨fun hmark => ⟨hmark, hsought⟩, fun h => h.1⟩

theorem atDepthLimit_eq_false (h : Standing answers limit levels above m)
    (hnot : ¬ IsSought above m.name) : m.head.atDepthLimit = false := by
  rw [← Bool.not_eq_true, h.atDepthLimit_iff]
  exact fun hmark => hnot hmark.2

/-- A function that has callers was looked up, and there was a level left for them. -/
theorem of_callers_ne_nil (h : Standing answers limit levels above m) (hcallers : m.callers ≠ []) :
    IsSought above m.name ∧ above.length < levels := by
  cases h with
  | leaf => exact absurd rfl hcallers
  | terminal => exact absurd rfl hcallers
  | expanded hsought _ hlevel => exact ⟨hsought, hlevel⟩

end Standing

/-- No function stands deeper than there are levels. For a caller this follows from the function
that it calls, which was given its callers. -/
theorem length_le_of_lineage {name : Text} {t : CallTree}
    (h : Grown answers limit levels [] name none t) {m : Member} {above : List Member}
    (hm : t.Lineage (m :: above)) : above.length ≤ levels := by
  cases hm with
  | root => exact Nat.zero_le _
  | caller hparent hc =>
    have hstanding := standing_of_lineage h hparent
    obtain ⟨-, hlevel⟩ := hstanding.of_callers_ne_nil (List.ne_nil_of_mem hc)
    rw [names, List.length_map] at hlevel
    exact hlevel

/-! ### Whole trees -/

/-- What the head of the function `m` says is what the tree around it shows. -/
structure WellShaped (limit : Int) (above : List Member) (m : Member) : Prop where
  /-- The callers are counted. -/
  total : m.head.total = m.callers.length
  /-- The list of callers has been set. -/
  listed : m.head.unlisted = false
  /-- Each caller in it is a function. -/
  present : CallTree.absent ∉ m.callers
  /-- Depths are counted from the root, -/
  root_depth : above = [] → m.head.depth = 0
  /-- one for each level, -/
  caller_depth : ∀ c : Member, c.tree ∈ m.callers → c.head.depth = m.head.depth + 1
  /-- up to the limit. -/
  depth_le : m.head.depth ≤ limit
  /-- The root, and no other function, is without a call site. -/
  site : m.head.site = none ↔ above = []
  /-- The mark of the limit is on the last two levels, except on callers that are unknown or are the
  function they call. -/
  atDepthLimit : m.head.atDepthLimit = true ↔
    limit - 1 ≤ m.head.depth ∧ IsSought (names above) m.name

/-- **Caller trees are what they say they are.** A tree that is returned for `name` has a root of
this name, and at each function in it the head agrees with the tree. This holds for every locator,
for every limit of a request and for any number of tasks at a time, whatever the order of their
steps. -/
theorem returned_trees_are_well_shaped {l : Locator} {tree : SourceTree} {name : Text} {w : World}
    {t : CallTree} (hlimit : 0 ≤ limit) (hmax : limit ≤ maxInt64)
    (h : Returned l tree limit name w t) :
    (∃ root : Member, t = root.tree ∧ root.name = name) ∧
      ∀ m above, t.Lineage (m :: above) → WellShaped limit above m := by
  have hgrown := grown_of_returned h
  constructor
  · obtain ⟨root, hroot, hname, -⟩ := hgrown.exists_member
    exact ⟨root, hroot, hname⟩
  · intro m above hm
    have hstanding := standing_of_lineage hgrown hm
    have hdepth : m.head.depth = above.length := by
      rw [hstanding.depth_eq, names, List.length_map]
    have hlevels := length_le_of_lineage hgrown hm
    exact {
      total := hstanding.total_eq
      listed := hstanding.unlisted_eq_false
      present := hstanding.absent_not_mem
      root_depth := fun hroot => by rw [hdepth, hroot]; rfl
      caller_depth := fun c hc => by
        rw [(standing_of_lineage hgrown (hm.caller hc)).depth_eq, hstanding.depth_eq, names_cons,
          List.length_cons]
        rfl
      depth_le := by omega
      site := by rw [hstanding.site_eq_none_iff, names, List.map_eq_nil_iff]
      atDepthLimit := by rw [hstanding.atDepthLimit_iff, nearLimit_iff hlimit hmax] }

/-- A function that is called by itself, outside every function and by `g`. -/
def mixedCalls : List (Text × List Occurrence) :=
  [("f", [{ file := "a.c", line := 3, code := "f();", scope := "f" },
    { file := "a.c", line := 4, code := "f();", scope := "unknown" },
    { file := "a.c", line := 5, code := "f();", scope := "g" }])]

/-- Two of the callers on the last level are `f` itself and `g`. -/
theorem exists_lineages_mixedCalls :
    ∃ t w' f g root root', build (.ofTable mixedCalls) ⟨"/src", []⟩ 1 "f"
        { files := .empty } = .ok t w' ∧ t.Lineage [f, root] ∧ t.Lineage [g, root'] ∧
      f.name = "f" ∧ root.name = "f" ∧ g.name = "g" ∧ root'.name = "f" := by
  have heval : ((Run.result? (build (.ofTable mixedCalls) ⟨"/src", []⟩ 1 "f")
      { files := .empty }).map fun t =>
        [t.lineageAt? [0], t.lineageAt? [2]].map (·.map names)) =
      some [some [Text.ofString "f", Text.ofString "f"],
        some [Text.ofString "g", Text.ofString "f"]] := by decide +kernel
  simp only [Option.map_eq_some_iff, Run.result?_eq_some_iff, List.map_cons, List.map_nil,
    List.cons.injEq, and_true, names, List.map_eq_cons_iff, List.map_eq_nil_iff] at heval
  obtain ⟨t, ⟨w', h⟩, ⟨_, hat, f, _, rfl, hf, root, _, rfl, hroot, rfl⟩,
    _, hat', g, _, rfl, hg, root', _, rfl, hroot', rfl⟩ := heval
  exact ⟨t, w', f, g, root, root', h, lineage_of_lineageAt? hat, lineage_of_lineageAt? hat', hf,
    hroot, hg, hroot'⟩

/-- The limit is reached at `g`, while `f`, which is not looked up again, carries no mark. With the
limit 0 it is reached at the root, which is then the only task. -/
theorem mixedCalls_are_well_shaped :
    (∃ t w' f g root root', build (.ofTable mixedCalls) ⟨"/src", []⟩ 1 "f"
        { files := .empty } = .ok t w' ∧ t.Lineage [f, root] ∧ t.Lineage [g, root'] ∧
      WellShaped 1 [root] f ∧ f.head.atDepthLimit = false ∧
      WellShaped 1 [root'] g ∧ g.head.depth = 1 ∧ g.head.atDepthLimit = true) ∧
    ∃ root : Member, Task.Steps (.ofTable mixedCalls) ⟨"/src", []⟩ 0 2 1 (.root 0 "f")
        { files := .empty } (.done root.tree) { files := .empty } ∧
      WellShaped 0 [] root ∧ root.head.atDepthLimit = true := by
  constructor
  · obtain ⟨t, w', f, g, root, root', h, hf, hg, hfname, hroot, hgname, hroot'⟩ :=
      exists_lineages_mixedCalls
    obtain ⟨-, hshape⟩ := returned_trees_are_well_shaped (by decide) (by decide) (.sequential h)
    have hdepth : g.head.depth = 1 := by
      cases hg with
      | caller hroot hc =>
        rw [(hshape _ _ hroot).caller_depth g hc, (hshape _ _ hroot).root_depth rfl]
        rfl
    refine ⟨t, w', f, g, root, root', h, hf, hg, hshape _ _ hf, ?_, hshape _ _ hg, hdepth, ?_⟩
    · rw [← Bool.not_eq_true, (hshape _ _ hf).atDepthLimit]
      rintro ⟨-, hsought⟩
      exact (hsought root.name rfl).2 (hfname.trans hroot.symm)
    · rw [(hshape _ _ hg).atDepthLimit, hdepth]
      refine ⟨by decide, fun parent hparent => ?_⟩
      obtain rfl : root'.name = parent := Option.some.inj hparent
      rw [hgname, hroot']
      decide
  · let root : Member := ⟨terminalHead 0 [] "f" none, []⟩
    have hsteps : Task.Steps (.ofTable mixedCalls) ⟨"/src", []⟩ 0 2 1 (.root 0 "f")
        { files := .empty } (.done root.tree) { files := .empty } :=
      Task.Steps.refl.tail (.terminate rfl (.inl rfl))
    obtain ⟨-, hshape⟩ :=
      returned_trees_are_well_shaped (by decide) (by decide) (.interleaved hsteps)
    have hroot := hshape root [] (.root rfl)
    refine ⟨root, hsteps, hroot, ?_⟩
    rw [hroot.atDepthLimit, hroot.root_depth rfl]
    exact ⟨by decide, by simp [IsSought]⟩

end Hierarchy

end CallerTree
