import CallerTree.Proofs.Cycles
import CallerTree.Proofs.DepthLimit

/-!
# The number of functions bounds the depth

Call graphs are finite, and a resolution ends because of that, however large its limit is. On each
way down from the root the functions that are given callers have different names, so if the names
that can come up are those of a finite set, then no way is longer than the set is large. From there
on the limit has nothing left to cut.

## What is asked of a locator

The names that come up are the name of the root and, for each of them, the callers at its call
sites. A locator may answer differently in different worlds, so the set has to be good for all the
worlds that a resolution gets to: any set of worlds will do that looks at the context and successful
lookups do not leave (`Locator.StaysWithin`). Callers that are not looked up are not asked for. They
end a way and may have any name.

## Main definitions

* `Locator.StaysWithin` — call sites of functions in a set are in functions of the set
* `Hierarchy.IsWay` — the names on a way down, as far as it has come
* `CallTree.unmarked` — a caller tree without the marks of the limit

## Main results

* `Hierarchy.isWay_of_lineage` — what a returned tree shows of the guard against cycles
* `Hierarchy.Grown.unmarked_cut` — beyond the number of names nothing is cut
* `Hierarchy.depth_is_bounded_by_functions`
-/

namespace CallerTree

/-- The locator, asked for a function in `names` in one of the worlds, reports only calls in
functions in `names`, apart from calls that are not followed. -/
structure Locator.StaysWithin (l : Locator) (tree : SourceTree) (worlds : World → Prop)
    (names : Finset Text) : Prop where
  check : ∀ w w', worlds w → Run.check w = .ok () w' → worlds w'
  lookup : ∀ name depth w calls w', worlds w →
    Hierarchy.expandedSites l tree name depth w = .ok calls w' → worlds w'
  callers : ∀ name ∈ names, ∀ w calls w', worlds w →
    Hierarchy.callSites l tree name w = .ok calls w' →
      ∀ call ∈ calls, Hierarchy.isExpanded name call = true → call.caller ∈ names

namespace CallTree

/-! ### Trees up to the marks of the limit -/

mutual

/-- The tree without the marks of the limit. -/
def unmarked : CallTree → CallTree
  | absent => absent
  | node head callers => node { head with atDepthLimit := false } (unmarkedAll callers)

def unmarkedAll : List CallTree → List CallTree
  | [] => []
  | t :: rest => t.unmarked :: unmarkedAll rest

end

theorem unmarkedAll_eq_map (ts : List CallTree) : unmarkedAll ts = ts.map unmarked := by
  induction ts with
  | nil => rw [unmarkedAll, List.map_nil]
  | cons t ts ih => rw [unmarkedAll, List.map_cons, ih]

theorem unmarked_node (head : Head) (callers : List CallTree) :
    (node head callers).unmarked =
      node { head with atDepthLimit := false } (callers.map unmarked) := by
  rw [unmarked, unmarkedAll_eq_map]

/-- Apart from the marks, a function above the limit is cut as its callers are, -/
theorem unmarked_cut_of_lt {limit : Int} {head : Head} (h : head.depth < limit)
    (parent : Option Text) (callers : List CallTree) :
    ((node head callers).cut limit parent).unmarked =
      node { head with atDepthLimit := false }
        ((callers.map (cut limit head.name)).map unmarked) := by
  rw [cut_node, unmarked_node, if_pos h]
  unfold Head.cut
  rw [if_pos h]

/-- and a function without callers is not cut at all. -/
theorem unmarked_cut_of_total_eq_zero {head : Head} (h : head.total = 0) (limit : Int)
    (parent : Option Text) :
    ((node head []).cut limit parent).unmarked = (node head []).unmarked := by
  rw [cut_node, List.map_nil, ite_self, unmarked_node, unmarked_node]
  unfold Head.cut
  rw [h, ite_self]

end CallTree

namespace Hierarchy

open CallTree

variable {answers : Text → List Call → Prop} {limit limit' : Int} {levels : Nat}
  {functions : Finset Text}

/-! ### Ways down -/

/-- A way down that has come to `name`: the names above are different, and all are in the set. -/
structure IsWay (functions : Finset Text) (ancestry : Ancestry) (name : Text) : Prop where
  nodup : ancestry.Nodup
  mem : ∀ n ∈ ancestry, n ∈ functions
  name_mem : name ∈ functions

namespace IsWay

variable {ancestry : Ancestry} {name : Text}

theorem root (h : name ∈ functions) : IsWay functions [] name :=
  ⟨List.nodup_nil, fun _ hn => absurd hn List.not_mem_nil, h⟩

/-- A function that is given callers is a new one, and the set has room for it. -/
theorem length_lt (h : IsWay functions ancestry name) (hnew : name ∉ ancestry) :
    ancestry.length < functions.card := by
  have hnodup : (name :: ancestry).Nodup := List.nodup_cons.mpr ⟨hnew, h.nodup⟩
  have hsubset : (name :: ancestry).toFinset ⊆ functions := by
    intro n hn
    rcases List.mem_cons.mp (List.mem_toFinset.mp hn) with rfl | hn
    · exact h.name_mem
    · exact h.mem n hn
  calc ancestry.length < (name :: ancestry).length := by rw [List.length_cons]; omega
    _ = (name :: ancestry).toFinset.card := (List.toFinset_card_of_nodup hnodup).symm
    _ ≤ functions.card := Finset.card_le_card hsubset

/-- When the way is as long as the set is large, the next function stands above itself. -/
theorem mem_of_card_le (h : IsWay functions ancestry name)
    (hcard : functions.card ≤ ancestry.length) : name ∈ ancestry := by
  by_contra hnew
  exact absurd (h.length_lt hnew) (by omega)

theorem caller (h : IsWay functions ancestry name) (hnew : name ∉ ancestry) {caller : Text}
    (hcaller : caller ∈ functions) : IsWay functions (name :: ancestry) caller :=
  ⟨List.nodup_cons.mpr ⟨hnew, h.nodup⟩, List.forall_mem_cons.mpr ⟨h.name_mem, h.mem⟩, hcaller⟩

end IsWay

/-- The callers that are followed from a function in the set are in the set. -/
def FollowsWithin (functions : Finset Text) (name : Text) (calls : List Call) : Prop :=
  name ∈ functions → ∀ call ∈ calls, isExpanded name call = true → call.caller ∈ functions

/-- Down to each function that is looked up leads a way. The induction is on the lineage: a function
with callers was looked up and was new. -/
theorem isWay_of_lineage {name : Text} {t : CallTree}
    (h : Grown (FollowsWithin functions) limit levels [] name none t) (hname : name ∈ functions)
    {ms : List Member} (hms : t.Lineage ms) :
    ∀ m above, ms = m :: above → IsSought (names above) m.name →
      IsWay functions (names above) m.name := by
  induction hms with
  | root htree =>
    rintro m above ⟨⟩ _
    obtain ⟨m', htree', hname', -⟩ := (htree ▸ h).exists_member
    obtain rfl := Member.tree_eq_node_iff.mp htree'
    exact .root (hname' ▸ hname)
  | @caller parent c above hparent hc ih =>
    rintro m above ⟨⟩ hsought
    have hstanding := standing_of_lineage h hparent
    have hcallers := List.ne_nil_of_mem hc
    have hway := ih _ _ rfl (hstanding.of_callers_ne_nil hcallers).1
    have hsite : c.head.site ≠ none := by
      rw [Ne, (standing_of_lineage h (hparent.caller hc)).site_eq_none_iff]
      exact List.cons_ne_nil _ _
    obtain ⟨site, hsite⟩ := Option.ne_none_iff_exists'.mp hsite
    obtain ⟨_, _, calls, call, ⟨⟩, hcalls, hcall, hcaller, -⟩ :=
      h.exists_call (hparent.caller hc) hsite
    rw [names_cons, hcaller] at hsought ⊢
    exact hway.caller (hstanding.name_not_mem hcallers)
      (hcalls hway.name_mem call hcall (isSought_cons_iff.mp hsought))

/-- No function stands deeper than there are names. -/
theorem length_le_card_of_lineage {name : Text} {t : CallTree}
    (h : Grown (FollowsWithin functions) limit levels [] name none t) (hname : name ∈ functions)
    {m : Member} {above : List Member} (hm : t.Lineage (m :: above)) :
    above.length ≤ functions.card := by
  cases hm with
  | root => exact Nat.zero_le _
  | caller hparent hc =>
    have hstanding := standing_of_lineage h hparent
    have hcallers := List.ne_nil_of_mem hc
    have hway :=
      isWay_of_lineage h hname hparent _ _ rfl (hstanding.of_callers_ne_nil hcallers).1
    have hlt := hway.length_lt (hstanding.name_not_mem hcallers)
    rw [names, List.length_map] at hlt
    exact hlt

/-! ### Limits beyond the number of names -/

/-- A limit that is not below the number of names cuts nothing. -/
theorem Grown.unmarked_cut (hanswers : ∀ n calls, answers n calls → FollowsWithin functions n calls)
    (hcard : (functions.card : Int) ≤ limit') :
    ∀ (remaining : Nat) (ancestry : Ancestry) (name : Text) (site : Option Occurrence)
      (t : CallTree) (parent : Option Text), IsWay functions ancestry name →
      Grown answers limit remaining ancestry name site t →
        (t.cut limit' parent).unmarked = t.unmarked := by
  intro remaining
  induction remaining with
  | zero =>
    intro ancestry name site t parent _ h
    obtain ⟨-, rfl⟩ | ⟨_, _, _, hlevels, _⟩ := grown_iff.mp h
    · exact unmarked_cut_of_total_eq_zero rfl _ _
    · omega
  | succ remaining ih =>
    intro ancestry name site t parent hway h
    obtain ⟨-, rfl⟩ | ⟨_, calls, callers, ⟨⟩, hnew, hcalls, hcallers, rfl⟩ := grown_iff.mp h
    · exact unmarked_cut_of_total_eq_zero rfl _ _
    · have hlt := hway.length_lt hnew
      have hdepth : (expandedHead limit ancestry name site callers.length).depth < limit' := by
        change (ancestry.length : Int) < limit'
        omega
      rw [unmarked_cut_of_lt hdepth, unmarked_node, List.map_map]
      congr 1
      refine List.map_congr_left fun c hc => ?_
      obtain ⟨call, hcall, hstands⟩ := exists_mem_of_forall₂ hcallers hc
      unfold StandsFor at hstands
      by_cases hexpanded : isExpanded name call = true
      · rw [if_pos hexpanded] at hstands
        have hcaller := hanswers _ _ hcalls hway.name_mem call hcall hexpanded
        exact ih _ _ _ _ _ (hway.caller hnew hcaller) hstands
      · rw [if_neg hexpanded] at hstands
        rw [hstands]
        exact unmarked_cut_of_total_eq_zero rfl _ _

/-- What is grown under one such limit can be grown under any other. -/
theorem Grown.of_card_le (hanswers : ∀ n calls, answers n calls → FollowsWithin functions n calls)
    (hcard : (functions.card : Int) ≤ limit) (hcard' : (functions.card : Int) ≤ limit')
    (hmax : limit' ≤ maxInt64) {name : Text} (hname : name ∈ functions) {t : CallTree}
    (h : Grown answers limit limit.toNat [] name none t) :
    Grown answers limit' limit'.toNat [] name none (t.cut limit' none) := by
  -- both limits leave at least as many levels as there are names that have not come up
  let Fits : Nat → Nat → Ancestry → Text → Prop := fun a b ancestry n =>
    IsWay functions ancestry n ∧ functions.card ≤ a + ancestry.length ∧
      functions.card ≤ b + ancestry.length
  have hstop : ∀ {b ancestry n}, Fits 0 b ancestry n → b = 0 ∨ n ∈ ancestry :=
    fun ⟨hway, hleft, _⟩ => .inr (hway.mem_of_card_le (by omega))
  have hcaller : ∀ {a b ancestry n calls call}, Fits (a + 1) (b + 1) ancestry n → n ∉ ancestry →
      answers n calls → call ∈ calls → isExpanded n call = true →
      Fits a b (ancestry.extend n) call.caller := by
    intro a b ancestry n calls call ⟨hway, hleft, hleft'⟩ hnew hcalls hcall hexpanded
    have hin := hanswers _ _ hcalls hway.name_mem call hcall hexpanded
    refine ⟨hway.caller hnew hin, ?_, ?_⟩ <;> rw [Ancestry.extend, List.length_cons] <;> omega
  have hlevels : limit' = limit'.toNat + ([] : Ancestry).length := by
    rw [List.length_nil]
    omega
  have hfits : Fits limit.toNat limit'.toNat [] name := by
    refine ⟨.root hname, ?_, ?_⟩ <;> rw [List.length_nil] <;> omega
  exact Grown.cut Fits (by omega) hmax hstop hcaller _ _ [] name none t hfits hlevels isSought_nil h

/-- **The number of functions bounds the depth.** Let `name` and the callers that come up from it be
in a finite set.

* In a tree that is returned for `name`, no function stands deeper than the limit, and none deeper
  than there are functions in the set. This holds for every locator, and for every limit.
* If the locator answers by name, then the limits that are not below the number of functions all
  lead to the same outcome: when one of them returns a tree, so does each other one, with the same
  tree up to the marks of the limit. -/
theorem depth_is_bounded_by_functions {l : Locator} {tree : SourceTree} {worlds : World → Prop}
    {name : Text} {w : World} (hl : l.StaysWithin tree worlds functions) (hw : worlds w)
    (hname : name ∈ functions) :
    (∀ (limit : Int) t, 0 ≤ limit → Returned l tree limit name w t →
      ∀ m above, t.Lineage (m :: above) → m.head.depth ≤ min limit functions.card) ∧
    (l.IsByName tree w.files → w.context = .live → ∀ (limit limit' : Int) t,
      functions.card ≤ limit → functions.card ≤ limit' → limit' ≤ maxInt64 →
      Returned l tree limit name w t →
        (∃ t' v, build l tree limit' name w = .ok t' v) ∧
        ∀ t', Returned l tree limit' name w t' → t'.unmarked = t.unmarked) := by
  have hsites : ∀ n depth v calls v', worlds v → expandedSites l tree n depth v = .ok calls v' →
      FollowsWithin functions n calls ∧ worlds v' := by
    intro n depth v calls v' hv hcalls
    refine ⟨fun hn => ?_, hl.lookup n depth v calls v' hv hcalls⟩
    simp only [expandedSites, Run.bind_ok_iff, Run.pure_ok_iff] at hcalls
    obtain ⟨_, u, hcalls, _, _, _, rfl, _⟩ := hcalls
    exact hl.callers n hn v _ u hv hcalls
  constructor
  · intro limit t hlimit h m above hm
    have hgrown := h.grown hl.check hsites hw
    have hdepth := (standing_of_lineage hgrown hm).depth_eq
    rw [names, List.length_map] at hdepth
    have hlevels := length_le_of_lineage hgrown hm
    have hcard := length_le_card_of_lineage hgrown hname hm
    rw [hdepth, le_min_iff]
    constructor <;> omega
  · intro hbyName hlive limit limit' t hcard hcard' hmax h
    have hsteady : w.IsSteady w.files := ⟨rfl, hlive⟩
    have hanswers : ∀ n calls, FoundFor w.files l tree n calls →
        FollowsWithin functions n calls := by
      intro n calls hcalls hn
      obtain ⟨v, -, hv⟩ := hcalls w hsteady
      exact hl.callers n hn w calls v hw hv
    have hgrown := (returned_iff_grown hbyName hsteady).mp h
    have hcut := hgrown.of_card_le hanswers hcard hcard' hmax hname
    refine ⟨⟨_, (build_ok_iff_grown hbyName hsteady).mpr hcut⟩, fun t' h' => ?_⟩
    rw [h'.eq_of_grown hbyName hsteady hcut]
    exact hgrown.unmarked_cut hanswers hcard' _ [] name none t none (.root hname)

/-- For a locator that answers by name, what is asked of the call sites can be tried in one
world. -/
theorem staysWithin_of_isByName {l : Locator} {tree : SourceTree} {w : World}
    (hl : l.IsByName tree w.files) (hlive : w.context = .live)
    (h : ∀ name ∈ functions, ∀ calls v, callSites l tree name w = .ok calls v →
      ∀ call ∈ calls, isExpanded name call = true → call.caller ∈ functions) :
    l.StaysWithin tree (World.IsSteady w.files) functions where
  check _ _ hv hv' := hv.check hv'
  lookup _ _ _ _ _ hv hcalls := (answers_callSites_of_expandedSites hl hv hcalls).2
  callers name hname v calls v' hv hcalls := by
    obtain ⟨r, hr⟩ := exists_answers_callSites hl name
    obtain ⟨rfl, -⟩ := hr.eq_of_ok hv hcalls
    obtain ⟨u, -, hu⟩ := hr w ⟨rfl, hlive⟩
    exact h name hname calls u hu

/-- Two functions that call each other: with the largest limit there is, the tree of `f` is the one
that the limit 2 gives. -/
theorem depth_is_bounded_mutual :
    ∃ t w' t' v, build (.ofTable mutualCalls) ⟨"/src", []⟩ 2 "f" { files := .empty } =
        .ok t w' ∧ t.size = 5 ∧
      build (.ofTable mutualCalls) ⟨"/src", []⟩ maxInt64 "f" { files := .empty } =
        .ok t' v ∧ t'.unmarked = t.unmarked ∧
      ∀ m above, t'.Lineage (m :: above) → m.head.depth ≤ 2 := by
  have heval : (Run.result? (build (.ofTable mutualCalls) ⟨"/src", []⟩ 2 "f")
      { files := .empty }).map (·.size) = some 5 := by decide +kernel
  have hcalls : ∀ name ∈ (mutualCalls.map (·.1)).toFinset,
      (Run.result? (callSites (.ofTable mutualCalls) ⟨"/src", []⟩ name)
        { files := .empty }).all
          (·.all fun call => call.caller ∈ (mutualCalls.map (·.1)).toFinset) = true := by
    decide +kernel
  simp only [Option.map_eq_some_iff, Run.result?_eq_some_iff] at heval
  obtain ⟨t, ⟨w', h⟩, hsize⟩ := heval
  have hbyName := Locator.isByName_ofTable mutualCalls ⟨"/src", []⟩ .empty
  have hl : (Locator.ofTable mutualCalls).StaysWithin ⟨"/src", []⟩
      (World.IsSteady .empty) (mutualCalls.map (·.1)).toFinset := by
    refine staysWithin_of_isByName (w := { files := .empty }) hbyName rfl ?_
    intro name hname calls v hv call hcall _
    have hall := hcalls name hname
    rw [Run.result?_eq_some_iff.mpr ⟨v, hv⟩] at hall
    simpa using List.all_eq_true.mp hall call hcall
  have hw : World.IsSteady .empty { files := .empty } := ⟨rfl, rfl⟩
  have hf : Text.ofString "f" ∈ (mutualCalls.map (·.1)).toFinset := by decide
  obtain ⟨hdepth, hsame⟩ := depth_is_bounded_by_functions hl hw hf
  obtain ⟨⟨t', v, hv⟩, heq⟩ :=
    hsame hbyName rfl 2 maxInt64 t (by decide) (by decide) (by decide) (.sequential h)
  refine ⟨t, w', t', v, h, hsize, hv, heq t' (.sequential hv), fun m above hm => ?_⟩
  exact (hdepth maxInt64 t' (by decide) (.sequential hv) m above hm).trans (by decide)

end Hierarchy

end CallerTree
