import CallerTree.Export.Mermaid
import CallerTree.Export.Outline
import CallerTree.Proofs.Shape

/-!
# The mark of the depth limit

An outline and a graph show where the depth limit has cut a branch off: the line of such a function
ends in `[max depth]`, and its node in the graph is drawn as a subroutine. A reader takes this to
mean that the function may have callers that nobody has looked for.

## One level too many

Resolving sets the flag of the limit on the last two levels: on functions at the limit, which are
not looked up, and on those one level above, whose callers are at the limit. The exports show the
flag on functions without callers. On the level above the limit these are the functions that were
looked up and have no callers at all. So the mark is on every function that is cut off, but also on
the bare functions one level above the limit, and there it says the wrong thing.

## Implementation notes

That a line ends in the mark is stated about the finished text. For the root this would be wrong,
since a name may end in the same glyphs. Every other function has a call site, which puts a closing
parenthesis between the name and the mark.

## Main definitions

* `Hierarchy.IsCutOff`, `Hierarchy.IsBareAboveLimit` — the two kinds of functions that are marked

## Main results

* `Outline.mark_suffix_line_iff`, `Mermaid.shape_eq_cutOffShape_iff` — what the two exports mark
* `Hierarchy.depth_marks_are_shown_iff`
-/

namespace CallerTree

/-! ### What the exports mark -/

/-- The flag of the limit is shown on functions below the root that have no callers and are not
recursive. -/
def Head.ShowsLimit (head : Head) (isLeaf : Bool) : Prop :=
  head.isRecursive = false ∧ head.atDepthLimit = true ∧ isLeaf = true

namespace Outline

variable {head : Head} {isLeaf : Bool}

def limitMark : Text := " [max depth]"

theorem endNote_cases (hdepth : 0 < head.depth) (isLeaf : Bool) :
    head.ShowsLimit isLeaf ∧ endNote head isLeaf = limitMark ∨
      ¬ head.ShowsLimit isLeaf ∧ (endNote head isLeaf = " [recursive]" ∨
        endNote head isLeaf = []) := by
  unfold endNote Head.ShowsLimit
  by_cases hrec : head.isRecursive = true
  · rw [if_pos hrec]
    exact .inr ⟨fun h => Bool.false_ne_true (h.1.symm.trans hrec), .inl rfl⟩
  · rw [if_neg hrec]
    by_cases hmark : head.atDepthLimit = true ∧ isLeaf = true
    · rw [if_pos ⟨hdepth, hmark⟩]
      exact .inl ⟨⟨Bool.eq_false_of_not_eq_true hrec, hmark⟩, rfl⟩
    · rw [if_neg fun h => hmark h.2]
      exact .inr ⟨fun h => hmark h.2, .inr rfl⟩

/-- The line of a function with a call site ends in the mark exactly if the mark is meant. -/
theorem mark_suffix_line_iff (hdepth : 0 < head.depth) {site : Occurrence}
    (hsite : head.site = some site) :
    limitMark <:+ line head isLeaf ↔ head.ShowsLimit isLeaf := by
  rw [line]
  obtain ⟨hshows, hnote⟩ | ⟨hnot, hnote | hnote⟩ := endNote_cases hdepth isLeaf
  · rw [hnote]
    exact ⟨fun _ => hshows, fun _ => List.suffix_append _ _⟩
  · refine ⟨fun hsuffix => ?_, fun h => absurd h hnot⟩
    rw [hnote] at hsuffix
    have h := List.suffix_of_suffix_length_le hsuffix (List.suffix_append _ _) (by decide)
    exact absurd h (by decide)
  · refine ⟨fun hsuffix => ?_, fun h => absurd h hnot⟩
    rw [hnote, List.append_nil, hsite, siteNote, ← List.append_assoc] at hsuffix
    have h := List.suffix_of_suffix_length_le (List.suffix_append _ _) hsuffix (by decide)
    exact absurd h (by decide)

end Outline

namespace Mermaid

variable {head : Head} {isLeaf : Bool}

/-- The node of a function that is shown as cut off. -/
def cutOffShape (name : Text) : Text := "[[\"" ++ escape name ++ " …\"]]"

theorem shape_eq_cutOffShape_iff (hdepth : 0 < head.depth) :
    shape head isLeaf = cutOffShape head.name ↔ head.ShowsLimit isLeaf := by
  unfold shape Head.ShowsLimit cutOffShape
  rw [if_neg hdepth.ne']
  by_cases hrec : head.isRecursive = true
  · rw [if_pos hrec]
    refine ⟨fun h => ?_, fun h => absurd (h.1.symm.trans hrec) Bool.false_ne_true⟩
    have hfirst : Glyph.char '\x7b' = .char '[' := Option.some.inj (congrArg (·[0]?) h)
    exact absurd hfirst (by decide)
  · rw [if_neg hrec]
    by_cases hmark : head.atDepthLimit = true ∧ isLeaf = true
    · rw [if_pos hmark]
      exact ⟨fun _ => ⟨Bool.eq_false_of_not_eq_true hrec, hmark⟩, fun _ => rfl⟩
    · rw [if_neg hmark]
      refine ⟨fun h => ?_, fun h => absurd h.2 hmark⟩
      have hsecond : Glyph.char '"' = .char '[' := Option.some.inj (congrArg (·[1]?) h)
      exact absurd hsecond (by decide)

end Mermaid

namespace Hierarchy

open CallTree

/-! ### What is cut off -/

variable {limit : Int}

/-- The limit is what stopped the function `m` below `parent`. -/
structure IsCutOff (limit : Int) (parent m : Member) : Prop where
  depth : m.head.depth = limit
  new : m.head.isRecursive = false
  known : m.name ≠ Line.unknownCaller
  other : m.name ≠ parent.name

/-- The function `m` below `parent` was looked up on the level above the limit, and nothing calls
it. -/
structure IsBareAboveLimit (limit : Int) (parent m : Member) : Prop where
  depth : m.head.depth = limit - 1
  new : m.head.isRecursive = false
  known : m.name ≠ Line.unknownCaller
  other : m.name ≠ parent.name
  bare : m.callers = []

/-- A function that is not stopped by anything has been looked up. There are three reasons to stop:
it is not sought, it stands above itself, or no level is left. Each hypothesis excludes one. -/
theorem Standing.exists_answers {answers : Text → List Call → Prop} {levels : Nat}
    {above : List Text} {m : Member} (h : Standing answers limit levels above m)
    (hsought : IsSought above m.name) (hnew : m.head.isRecursive = false)
    (hlevel : above.length < levels) :
    ∃ calls, answers m.name calls ∧ List.Forall₂ IsCallerAt calls m.callers := by
  cases h with
  | leaf hnot => exact absurd hsought hnot
  | terminal _ _ hstop =>
    rcases hstop with hstop | hstop
    · omega
    · exact absurd (hnew.symm.trans (Ancestry.has_iff.mpr hstop)) Bool.false_ne_true
  | expanded _ _ _ _ hcalls hcallers => exact ⟨_, hcalls, hcallers⟩

/-- A function one level above the limit that nothing calls shows the mark too, so the mark alone
does not say that something was cut off. -/
theorem Standing.showsLimit_iff {answers : Text → List Call → Prop} {levels : Nat}
    {parent : Member} {above : List Text} {m : Member}
    (h : Standing answers limit levels (parent.name :: above) m) (hlevels : levels = limit.toNat)
    (hle : m.head.depth ≤ limit) (hmax : limit ≤ maxInt64) :
    m.head.ShowsLimit m.callers.isEmpty ↔
      IsCutOff limit parent m ∨ IsBareAboveLimit limit parent m := by
  have hdepth := h.depth_eq
  rw [List.length_cons] at hdepth
  have hsought : IsSought (parent.name :: above) m.name ↔
      m.name ≠ Line.unknownCaller ∧ m.name ≠ parent.name := by simp [IsSought]
  unfold Head.ShowsLimit
  rw [h.atDepthLimit_iff, nearLimit_iff (by omega) hmax, hsought, List.isEmpty_iff]
  constructor
  · rintro ⟨hnew, ⟨hnear, hknown, hother⟩, hbare⟩
    rcases hle.eq_or_lt with hat | hlt
    · exact .inl ⟨hat, hnew, hknown, hother⟩
    · exact .inr ⟨by omega, hnew, hknown, hother, hbare⟩
  · rintro (⟨hat, hnew, hknown, hother⟩ | ⟨hat, hnew, hknown, hother, hbare⟩)
    · refine ⟨hnew, ⟨by omega, hknown, hother⟩, ?_⟩
      by_contra hcallers
      have := (h.of_callers_ne_nil hcallers).2
      rw [List.length_cons] at this
      omega
    · exact ⟨hnew, ⟨by omega, hknown, hother⟩, hbare⟩

/-- **Which functions are shown as cut off.** In a returned tree, the line of a function below the
root ends in the mark, and its node is drawn as cut off, exactly if the limit has stopped it or it
stands on the level above the limit and has no callers. The second kind has been looked up: the
lookup of its name has found no call site. -/
theorem depth_marks_are_shown_iff {l : Locator} {tree : SourceTree} {name : Text} {w : World}
    {t : CallTree} (hmax : limit ≤ maxInt64) (h : Returned l tree limit name w t)
    {m parent : Member} {above : List Member} (hm : t.Lineage (m :: parent :: above)) :
    (Outline.limitMark <:+ Outline.line m.head m.callers.isEmpty ↔
      IsCutOff limit parent m ∨ IsBareAboveLimit limit parent m) ∧
    (Mermaid.shape m.head m.callers.isEmpty = Mermaid.cutOffShape m.name ↔
      IsCutOff limit parent m ∨ IsBareAboveLimit limit parent m) ∧
    (IsBareAboveLimit limit parent m →
      ∃ depth v v', expandedSites l tree m.name depth v = .ok [] v') := by
  have hgrown : Grown (fun n calls => ∃ depth v v', expandedSites l tree n depth v = .ok calls v')
      limit limit.toNat [] name none t :=
    h.grown (fun _ _ _ _ => trivial) (fun n d v calls v' _ hcalls => ⟨⟨d, v, v', hcalls⟩, trivial⟩)
      trivial
  have hstanding := standing_of_lineage hgrown hm
  rw [names_cons] at hstanding
  have hdepth : m.head.depth = above.length + 1 := by
    rw [hstanding.depth_eq, names, List.length_cons, List.length_map]
    rfl
  have hlevels := length_le_of_lineage hgrown hm
  rw [List.length_cons] at hlevels
  obtain ⟨site, hsite⟩ : ∃ site, m.head.site = some site :=
    Option.ne_none_iff_exists'.mp fun hnone =>
      List.cons_ne_nil _ _ (hstanding.site_eq_none_iff.mp hnone)
  have hshows := hstanding.showsLimit_iff rfl (by omega) hmax
  refine ⟨?_, ?_, fun hbare => ?_⟩
  · rw [Outline.mark_suffix_line_iff (by omega) hsite, hshows]
  · rw [Mermaid.shape_eq_cutOffShape_iff (by omega), hshows]
  · have hlevel := hbare.depth
    have hlast : (parent.name :: names above).length < limit.toNat := by
      rw [List.length_cons, names, List.length_map]
      omega
    have hsought : IsSought (parent.name :: names above) m.name := by
      simpa [IsSought] using ⟨hbare.known, hbare.other⟩
    obtain ⟨calls, hcalls, hcallers⟩ := hstanding.exists_answers hsought hbare.new hlast
    rw [hbare.bare] at hcallers
    cases hcallers
    exact hcalls

/-- A function that is called by `g`, which nothing calls, and by `h`, which `k` calls. -/
def bareAndCalled : List (Text × List Occurrence) :=
  [("f", [{ file := "a.c", line := 3, code := "f();", scope := "g" },
      { file := "a.c", line := 7, code := "f();", scope := "h" }]),
    ("h", [{ file := "a.c", line := 11, code := "h();", scope := "k" }])]

/-- Two levels deep, `g` is found one level above the limit and `k` at the limit. -/
theorem exists_lineages_bareAndCalled :
    ∃ t w' g f k h f', build (.ofTable bareAndCalled) ⟨"/src", []⟩ 2 "f"
        { files := .empty } = .ok t w' ∧ t.Lineage [g, f] ∧ t.Lineage [k, h, f'] ∧
      IsBareAboveLimit 2 f g ∧ IsCutOff 2 h k := by
  have hlineage : ∀ {t : CallTree} {position : List Nat} {m : Member} {above : List Member},
      (t.lineageAt? position).getD [] = m :: above → t.Lineage (m :: above) := by
    intro t position m above hat
    cases hms : t.lineageAt? position with
    | none =>
      rw [hms] at hat
      cases hat
    | some ms =>
      rw [hms, Option.getD_some] at hat
      exact lineage_of_lineageAt? (hat ▸ hms)
  have heval : (Run.result? (build (.ofTable bareAndCalled) ⟨"/src", []⟩ 2 "f")
      { files := .empty }).map (fun t => [[0], [0, 1]].map fun position =>
        ((t.lineageAt? position).getD []).map fun m =>
          (m.name, m.head.depth, m.head.isRecursive, m.callers.isEmpty)) =
      some [[(Text.ofString "g", 1, false, true), (Text.ofString "f", 0, false, false)],
        [(Text.ofString "k", 2, false, true), (Text.ofString "h", 1, false, false),
          (Text.ofString "f", 0, false, false)]] := by decide +kernel
  simp only [Option.map_eq_some_iff, Run.result?_eq_some_iff, List.map_cons, List.map_nil,
    List.cons.injEq, and_true, List.map_eq_cons_iff, List.map_eq_nil_iff, Prod.mk.injEq,
    List.isEmpty_iff] at heval
  obtain ⟨t, ⟨w', ht⟩, ⟨g, _, hat, ⟨hg, hgdepth, hgnew, hgbare⟩, f, _, rfl, ⟨hf, -⟩, rfl⟩,
    k, _, hat', ⟨hk, hkdepth, hknew, -⟩, h, _, rfl, ⟨hh, -⟩, f', _, rfl, -, rfl⟩ := heval
  refine ⟨t, w', g, f, k, h, f', ht, hlineage hat, hlineage hat',
    ⟨hgdepth, hgnew, ?_, ?_, hgbare⟩, hkdepth, hknew, ?_, ?_⟩
  · rw [hg]
    decide
  · rw [hg, hf]
    decide
  · rw [hk]
    decide
  · rw [hk, hh]
    decide

/-- Both are marked in the same way, though the lookup of `g` has found that it has no callers. -/
theorem bare_function_is_shown_as_cut_off :
    ∃ t w' g f k h f', build (.ofTable bareAndCalled) ⟨"/src", []⟩ 2 "f"
        { files := .empty } = .ok t w' ∧ t.Lineage [g, f] ∧ t.Lineage [k, h, f'] ∧
      ¬ IsCutOff 2 f g ∧ Outline.limitMark <:+ Outline.line g.head g.callers.isEmpty ∧
      Mermaid.shape g.head g.callers.isEmpty = Mermaid.cutOffShape g.name ∧
      IsCutOff 2 h k ∧ Outline.limitMark <:+ Outline.line k.head k.callers.isEmpty ∧
      Mermaid.shape k.head k.callers.isEmpty = Mermaid.cutOffShape k.name := by
  obtain ⟨t, w', g, f, k, h, f', ht, hg, hk, hbare, hcut⟩ := exists_lineages_bareAndCalled
  obtain ⟨hgline, hgshape, -⟩ := depth_marks_are_shown_iff (by decide) (.sequential ht) hg
  obtain ⟨hkline, hkshape, -⟩ := depth_marks_are_shown_iff (by decide) (.sequential ht) hk
  refine ⟨t, w', g, f, k, h, f', ht, hg, hk, fun hnot => ?_, hgline.mpr (.inr hbare),
    hgshape.mpr (.inr hbare), hcut, hkline.mpr (.inl hcut), hkshape.mpr (.inl hcut)⟩
  have := hnot.depth.symm.trans hbare.depth
  omega

end Hierarchy

end CallerTree
