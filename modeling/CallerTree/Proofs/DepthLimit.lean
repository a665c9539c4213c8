import CallerTree.Proofs.Shape

/-!
# The depth limit only cuts

A resolution with a smaller limit returns what one with a larger limit returns, cut off at the
smaller one. Nothing above the cut changes but the marks that speak of the limit itself.

## What differs at the cut

A function right at the smaller limit ends its branch there, while the larger limit lets it be
expanded. In both cases the head says whether the function stands above itself: at the end of a
branch by a look at the names above, and for an expanded function because it would not have been
expanded otherwise. So the mark of recursion survives the cut.

## Main definitions

* `CallTree.cut` — a caller tree cut off at a limit

## Main results

* `Hierarchy.Grown.cut` — what is grown under one limit can be grown under another, after the cut
* `Hierarchy.depth_limit_only_cuts`
-/

namespace CallerTree

/-! ### Cutting a caller tree -/

/-- The head of a function below `parent` after the cut. A function at the limit has no callers any
more. The mark of the limit is renewed, except on callers that are unknown or are the function they
call. -/
def Head.cut (limit : Int) (parent : Option Text) (h : Head) : Head :=
  { h with
    total := if h.depth < limit then h.total else 0
    atDepthLimit :=
      if parent.all fun p => h.name ≠ Line.unknownCaller && h.name ≠ p then
        decide (limit - 1 ≤ h.depth)
      else h.atDepthLimit }

namespace CallTree

mutual

/-- The tree without the functions that are deeper than `limit`, with the marks for that limit. -/
def cut (limit : Int) (parent : Option Text) : CallTree → CallTree
  | absent => absent
  | node head callers =>
    node (head.cut limit parent) (if head.depth < limit then cutAll limit head.name callers else [])

def cutAll (limit : Int) (parent : Text) : List CallTree → List CallTree
  | [] => []
  | t :: rest => t.cut limit parent :: cutAll limit parent rest

end

theorem cutAll_eq_map (limit : Int) (parent : Text) (ts : List CallTree) :
    cutAll limit parent ts = ts.map (cut limit parent) := by
  induction ts with
  | nil => rw [cutAll, List.map_nil]
  | cons t ts ih => rw [cutAll, List.map_cons, ih]

theorem cut_node (limit : Int) (parent : Option Text) (head : Head) (callers : List CallTree) :
    (node head callers).cut limit parent =
      node (head.cut limit parent)
        (if head.depth < limit then callers.map (cut limit head.name) else []) := by
  rw [cut, cutAll_eq_map]

end CallTree

namespace Hierarchy

open CallTree

variable {answers : Text → List Call → Prop} {limit limit' : Int}

theorem all_head?_iff {ancestry : Ancestry} {name : Text} :
    (ancestry.head?.all fun p => name ≠ Line.unknownCaller && name ≠ p) = true ↔
      IsSought ancestry name := by
  unfold IsSought
  cases ancestry.head? <;> simp

/-- The mark of a function that is looked up is renewed. -/
theorem cut_of_isSought (hlimit : 0 ≤ limit') (hmax : limit' ≤ maxInt64) {ancestry : Ancestry}
    {head : Head} (hsought : IsSought ancestry head.name) :
    head.cut limit' ancestry.head? =
      { head with
        total := if head.depth < limit' then head.total else 0
        atDepthLimit := nearLimit limit' head.depth } := by
  have hmark : decide (limit' - 1 ≤ head.depth) = nearLimit limit' head.depth := by
    rw [Bool.eq_iff_iff, decide_eq_true_iff, nearLimit_iff hlimit hmax]
  unfold Head.cut
  rw [if_pos (all_head?_iff.mpr hsought), hmark]

/-- The head of a function that ends its branch is that of the other limit. -/
theorem cut_terminalHead (hlimit : 0 ≤ limit') (hmax : limit' ≤ maxInt64) {ancestry : Ancestry}
    {name : Text} (hsought : IsSought ancestry name) (site : Option Occurrence) :
    (terminalHead limit ancestry name site).cut limit' ancestry.head? =
      terminalHead limit' ancestry name site := by
  rw [cut_of_isSought hlimit hmax hsought]
  unfold terminalHead
  rw [ite_self]

/-- So is the head of a function with callers, if it is above the limit, -/
theorem cut_expandedHead_of_lt (hlimit : 0 ≤ limit') (hmax : limit' ≤ maxInt64)
    {ancestry : Ancestry} {name : Text} (hsought : IsSought ancestry name)
    (site : Option Occurrence) (total : Nat) (hdepth : (ancestry.length : Int) < limit') :
    (expandedHead limit ancestry name site total).cut limit' ancestry.head? =
      expandedHead limit' ancestry name site total := by
  rw [cut_of_isSought hlimit hmax hsought]
  unfold expandedHead
  rw [if_pos hdepth]

/-- and otherwise it is that of the end of a branch. -/
theorem cut_expandedHead_of_le (hlimit : 0 ≤ limit') (hmax : limit' ≤ maxInt64)
    {ancestry : Ancestry} {name : Text} (hsought : IsSought ancestry name) (hnew : name ∉ ancestry)
    (site : Option Occurrence) (total : Nat) (hdepth : limit' ≤ (ancestry.length : Int)) :
    (expandedHead limit ancestry name site total).cut limit' ancestry.head? =
      terminalHead limit' ancestry name site := by
  have hfresh : ancestry.has name = false := by
    rw [← Bool.not_eq_true, Ancestry.has_iff]
    exact hnew
  rw [cut_of_isSought hlimit hmax hsought]
  unfold expandedHead terminalHead
  rw [if_neg (not_lt.mpr hdepth), hfresh]

/-- A caller that is not looked up looks the same under every limit. -/
theorem cut_leaf {target : Text} {call : Call} (hleaf : ¬ isExpanded target call = true)
    (depth : Nat) : (leaf depth call).cut limit' target = leaf depth call := by
  have hkept : ¬ ((some target).all fun p =>
      call.caller ≠ Line.unknownCaller && call.caller ≠ p) = true := hleaf
  rw [leaf, cut_node, List.map_nil, ite_self]
  unfold Head.cut
  rw [if_neg hkept, ite_self]

/-- What is grown under one limit can be grown under another after the cut. `Fits a b` relates the
levels that are left under the two limits at each place: where the first one ends a branch, the
second one has to end it too. -/
theorem Grown.cut (Fits : Nat → Nat → Ancestry → Text → Prop) (hlimit : 0 ≤ limit')
    (hmax : limit' ≤ maxInt64)
    (hstop : ∀ {b ancestry name}, Fits 0 b ancestry name → b = 0 ∨ name ∈ ancestry)
    (hcaller : ∀ {a b ancestry name calls call}, Fits (a + 1) (b + 1) ancestry name →
      name ∉ ancestry → answers name calls → call ∈ calls → isExpanded name call = true →
      Fits a b (ancestry.extend name) call.caller) :
    ∀ (a b : Nat) (ancestry : Ancestry) (name : Text) (site : Option Occurrence) (t : CallTree),
      Fits a b ancestry name → limit' = b + ancestry.length → IsSought ancestry name →
      Grown answers limit a ancestry name site t →
        Grown answers limit' b ancestry name site (t.cut limit' ancestry.head?) := by
  intro a
  induction a with
  | zero =>
    intro b ancestry name site t hfits _ hsought h
    obtain ⟨-, rfl⟩ | ⟨_, _, _, hlevels, _⟩ := grown_iff.mp h
    · rw [cut_node, cut_terminalHead hlimit hmax hsought, List.map_nil, ite_self]
      exact grown_iff.mpr (.inl ⟨hstop hfits, rfl⟩)
    · omega
  | succ a ih =>
    intro b ancestry name site t hfits hlevels hsought h
    obtain ⟨hend, rfl⟩ | ⟨_, calls, callers, ⟨⟩, hnew, hcalls, hcallers, rfl⟩ := grown_iff.mp h
    · rw [cut_node, cut_terminalHead hlimit hmax hsought, List.map_nil, ite_self]
      exact grown_iff.mpr (.inl ⟨.inr (hend.resolve_left (by omega)), rfl⟩)
    · have hdepth : (expandedHead limit ancestry name site callers.length).depth =
          ancestry.length := rfl
      rw [cut_node, hdepth]
      cases b with
      | zero =>
        rw [cut_expandedHead_of_le hlimit hmax hsought hnew _ _ (by omega), if_neg (by omega)]
        exact grown_iff.mpr (.inl ⟨.inl rfl, rfl⟩)
      | succ b =>
        rw [cut_expandedHead_of_lt hlimit hmax hsought _ _ (by omega), if_pos (by omega)]
        have hcut : List.Forall₂ (StandsFor (Grown answers limit' b (ancestry.extend name)) name
            (ancestry.length + 1)) calls (callers.map (CallTree.cut limit' name)) := by
          rw [List.forall₂_map_right_iff]
          -- the caller at a call comes with the call's being one of `calls`
          refine ((List.forall₂_and_left _ _).mpr ⟨fun _ hcall => hcall, hcallers⟩).imp ?_
          rintro call c ⟨hcall, hc⟩
          unfold StandsFor at hc ⊢
          by_cases hexpanded : isExpanded name call = true
          · rw [if_pos hexpanded] at hc ⊢
            have hlevels' : limit' = b + (ancestry.extend name).length := by
              rw [Ancestry.extend, List.length_cons]
              omega
            exact ih b (ancestry.extend name) call.caller (some call.site) c
              (hcaller hfits hnew hcalls hcall hexpanded) hlevels'
              (isSought_cons_iff.mpr hexpanded) hc
          · rw [if_neg hexpanded] at hc ⊢
            rw [hc, cut_leaf hexpanded]
        refine grown_iff.mpr (.inr ⟨b, calls, _, rfl, hnew, hcalls, hcut, ?_⟩)
        rw [List.length_map]
        rfl

/-- **The depth limit only cuts.** If `name` resolves to `t` with some limit, then it also resolves
with every smaller limit, and to the tree `t` cut off there; no order of tasks leads to another one.
Callers that are unknown or are the function they call, on which the cut leaves the mark of the
limit alone, are without it in both trees. -/
theorem depth_limit_only_cuts {l : Locator} {tree : SourceTree} {name : Text} {w : World}
    {t : CallTree} (hl : l.IsByName tree w.files) (hlive : w.context = .live) (hlimit : 0 ≤ limit)
    (hmax : limit ≤ maxInt64) (hle : limit ≤ limit') (h : Returned l tree limit' name w t) :
    (∃ v, build l tree limit name w = .ok (t.cut limit none) v) ∧
    (∀ u, Returned l tree limit name w u → u = t.cut limit none) ∧
    ∀ u ∈ [t, t.cut limit none], ∀ m above, u.Lineage (m :: above) →
      ¬ IsSought (names above) m.name → m.head.atDepthLimit = false := by
  have hw : w.IsSteady w.files := ⟨rfl, hlive⟩
  have hgrown := (returned_iff_grown hl hw).mp h
  have hcut :
      Grown (FoundFor w.files l tree) limit limit.toNat [] name none (t.cut limit none) := by
    have hlevels : limit = limit.toNat + ([] : Ancestry).length := by
      rw [List.length_nil]
      omega
    exact Grown.cut (fun a b _ _ => b ≤ a) hlimit hmax (fun hb => .inl (by omega))
      (fun hb _ _ _ _ => by omega) limit'.toNat limit.toNat [] name none t (by omega) hlevels
      isSought_nil hgrown
  refine ⟨(build_ok_iff_grown hl hw).mpr hcut, fun u hu => hu.eq_of_grown hl hw hcut,
    fun u hu m above hm hnot => ?_⟩
  rcases List.mem_pair.mp hu with rfl | rfl
  · exact (standing_of_lineage hgrown hm).atDepthLimit_eq_false hnot
  · exact (standing_of_lineage hcut hm).atDepthLimit_eq_false hnot

/-- Of the five functions in the tree of `f` three are left at limit 1, and at limit 2 it is kept
that `f` stands above itself. -/
theorem depth_limit_cuts_mutual :
    ∃ t w' v v', build (.ofTable mutualCalls) ⟨"/src", []⟩ 3 "f" { files := .empty } =
        .ok t w' ∧
      build (.ofTable mutualCalls) ⟨"/src", []⟩ 1 "f" { files := .empty } =
        .ok (t.cut 1 none) v ∧
      build (.ofTable mutualCalls) ⟨"/src", []⟩ 2 "f" { files := .empty } =
        .ok (t.cut 2 none) v' ∧
      t.size = 5 ∧ (t.cut 1 none).size = 3 ∧ (t.cut 2 none).heads.any (·.isRecursive) = true := by
  have heval : (Run.result? (build (.ofTable mutualCalls) ⟨"/src", []⟩ 3 "f")
      { files := .empty }).map (fun t => (t.size, (t.cut 1 none).size,
        (t.cut 2 none).heads.any (·.isRecursive))) = some (5, 3, true) := by decide +kernel
  simp only [Option.map_eq_some_iff, Run.result?_eq_some_iff, Prod.mk.injEq] at heval
  obtain ⟨t, ⟨w', h⟩, hsize, hsize', hrec⟩ := heval
  have hl := Locator.isByName_ofTable mutualCalls ⟨"/src", []⟩ .empty
  have hcut : ∀ limit : Int, 0 ≤ limit → limit ≤ maxInt64 → limit ≤ 3 → ∃ v,
      build (.ofTable mutualCalls) ⟨"/src", []⟩ limit "f" { files := .empty } =
        .ok (t.cut limit none) v :=
    fun _ hlimit hmax hle => (depth_limit_only_cuts hl rfl hlimit hmax hle (.sequential h)).1
  obtain ⟨v, hv⟩ := hcut 1 (by decide) (by decide) (by decide)
  obtain ⟨v', hv'⟩ := hcut 2 (by decide) (by decide) (by decide)
  exact ⟨t, w', v, v', h, hv, hv', hsize, hsize', hrec⟩

end Hierarchy

end CallerTree
