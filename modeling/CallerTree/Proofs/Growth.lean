import CallerTree.Hierarchy.CallSites
import CallerTree.Proofs.Run

/-!
# How a caller tree grows

`Hierarchy.grow` recurses over the levels left and over the call sites of one function, in a monad
with effects. This module says once what trees can come out of it, whatever the effects, and then
what that means for each single function of such a tree.

## The two descriptions

`Hierarchy.Grown` follows the recursion: it relates an ancestry and a name to the trees that may be
grown there, given which lists of calls a lookup may answer. `Hierarchy.Standing` is local: it says
what a function of the tree looks like, given only the names above it. The first is what a run
establishes (`grown_of_grow`), the second is what every property of caller trees is read off from
(`standing_of_lineage`). Between them stands `grown_iff`, the only place where `Grown` is unfolded.

## Implementation notes

The ancestry that a run passes down is the list of the names above, and the depth is its length. So
`Grown` has no depth of its own, and the guard against cycles is stated in terms of the functions
that really stand above in the finished tree.

## Main definitions

* `CallTree.Member`, `CallTree.Lineage` — a function with its callers, and all functions above it
* `Hierarchy.Grown`, `Hierarchy.Standing`

## Main results

* `Hierarchy.grown_of_grow` — a successful run grows a tree
* `Hierarchy.standing_of_lineage` — what a function of a grown tree is like
-/

namespace CallerTree

/-! ### Lineages -/

namespace CallTree

/-- A function in a caller tree, with its callers. -/
structure Member where
  head : Head
  callers : List CallTree

namespace Member

def tree (m : Member) : CallTree := .node m.head m.callers

abbrev name (m : Member) : Text := m.head.name

theorem tree_eq_node_iff {m : Member} {head : Head} {callers : List CallTree} :
    m.tree = .node head callers ↔ m = ⟨head, callers⟩ := by
  cases m
  simp [tree]

end Member

/-- The functions on the way from one in the tree up to the root, in this order. -/
inductive Lineage (t : CallTree) : List Member → Prop
  | root {m : Member} (h : t = m.tree) : Lineage t [m]
  | caller {m c : Member} {above : List Member} (hm : Lineage t (m :: above))
      (hc : c.tree ∈ m.callers) : Lineage t (c :: m :: above)

/-- The lineage of the function at a position: which caller to take at each level, the last level
first. -/
def lineageAt? (t : CallTree) : (position : List Nat) → Option (List Member)
  | [] =>
    match t with
    | .node head callers => some [⟨head, callers⟩]
    | .absent => none
  | i :: position =>
    match t.lineageAt? position with
    | some (m :: above) =>
      match m.callers[i]? with
      | some (.node head callers) => some (⟨head, callers⟩ :: m :: above)
      | _ => none
    | _ => none

theorem lineage_of_lineageAt? {t : CallTree} {position : List Nat} {ms : List Member}
    (h : t.lineageAt? position = some ms) : t.Lineage ms := by
  induction position generalizing ms with
  | nil =>
    cases t with
    | absent => simp [lineageAt?] at h
    | node head callers =>
      obtain rfl := Option.some.inj h
      exact .root rfl
  | cons i position ih =>
    rw [lineageAt?] at h
    split at h
    · rename_i m above hm
      split at h
      · rename_i head callers hc
        obtain rfl := Option.some.inj h
        exact .caller (ih hm) (List.mem_of_getElem? hc)
      · simp at h
    · simp at h

/-- The names of the functions in a lineage. -/
def names (ms : List Member) : List Text := ms.map (·.name)

@[simp] theorem names_nil : names [] = [] := rfl

@[simp] theorem names_cons (m : Member) (ms : List Member) : names (m :: ms) = m.name :: names ms :=
  rfl

end CallTree

@[simp] theorem Ancestry.has_iff {a : Ancestry} {name : Text} : a.has name = true ↔ name ∈ a := by
  simp [Ancestry.has]

namespace Hierarchy

open CallTree

/-! ### Grown trees -/

/-- The head of a function that ends its branch: at the limit, or standing above itself. -/
def terminalHead (limit : Int) (ancestry : Ancestry) (name : Text) (site : Option Occurrence) :
    Head where
  name := name
  depth := ancestry.length
  isRecursive := ancestry.has name
  atDepthLimit := nearLimit limit ancestry.length
  site := site

/-- The head of a function whose `total` call sites were found. -/
def expandedHead (limit : Int) (ancestry : Ancestry) (name : Text) (site : Option Occurrence)
    (total : Nat) : Head where
  name := name
  depth := ancestry.length
  total := total
  atDepthLimit := nearLimit limit ancestry.length
  site := site

/-- The tree `c` stands for a call in a function at `depth`: one that is grown for the caller, or a
leaf when the caller is not looked up. -/
def StandsFor (grown : Text → Option Occurrence → CallTree → Prop) (target : Text) (depth : Nat)
    (call : Call) (c : CallTree) : Prop :=
  if isExpanded target call then grown call.caller (some call.site) c else c = leaf depth call

/-- The trees of `name` with `remaining` levels left, when a lookup of `n` may answer any `calls`
with `answers n calls`. -/
def Grown (answers : Text → List Call → Prop) (limit : Int) :
    (remaining : Nat) → Ancestry → Text → Option Occurrence → CallTree → Prop
  | 0, ancestry, name, site, t => t = .node (terminalHead limit ancestry name site) []
  | remaining + 1, ancestry, name, site, t =>
    if ancestry.has name then t = .node (terminalHead limit ancestry name site) []
    else ∃ calls callers, answers name calls ∧
      List.Forall₂ (StandsFor (Grown answers limit remaining (ancestry.extend name)) name
        (ancestry.length + 1)) calls callers ∧
      t = .node (expandedHead limit ancestry name site callers.length) callers

variable {answers : Text → List Call → Prop} {limit : Int}

/-- The two ways to grow a tree: the branch ends, or the call sites are looked up. -/
theorem grown_iff {remaining : Nat} {ancestry : Ancestry} {name : Text} {site : Option Occurrence}
    {t : CallTree} :
    Grown answers limit remaining ancestry name site t ↔
      (remaining = 0 ∨ name ∈ ancestry) ∧ t = .node (terminalHead limit ancestry name site) [] ∨
      ∃ levels calls callers, remaining = levels + 1 ∧ name ∉ ancestry ∧ answers name calls ∧
        List.Forall₂ (StandsFor (Grown answers limit levels (ancestry.extend name)) name
          (ancestry.length + 1)) calls callers ∧
        t = .node (expandedHead limit ancestry name site callers.length) callers := by
  cases remaining with
  | zero => simp [Grown]
  | succ remaining =>
    rw [Grown]
    by_cases hname : name ∈ ancestry
    · simp [hname]
    · simp [hname]

/-- Nothing in the tree depends on the call site of its root. -/
theorem Grown.withSite {remaining : Nat} {ancestry : Ancestry} {name : Text}
    {site : Option Occurrence} {t : CallTree}
    (h : Grown answers limit remaining ancestry name site t) (s : Occurrence) :
    Grown answers limit remaining ancestry name (some s) (t.withSite s) := by
  rw [grown_iff] at h ⊢
  obtain ⟨hstop, rfl⟩ | ⟨levels, calls, callers, hlevels, hnew, hcalls, hcallers, rfl⟩ := h
  · exact .inl ⟨hstop, rfl⟩
  · exact .inr ⟨levels, calls, callers, hlevels, hnew, hcalls, hcallers, rfl⟩

/-- `Inv` is what a lookup leaves for the next one to start from. -/
theorem standsFor_of_expand {Inv : World → Prop} {grown : Text → Run CallTree} {remaining : Nat}
    {ancestry : Ancestry} {name : Text} {depth : Nat}
    (hgrown : ∀ n w t w', Inv w → grown n w = .ok t w' →
      Grown answers limit remaining ancestry n none t ∧ Inv w')
    (call : Call) (w : World) (c : CallTree) (w' : World) (hw : Inv w)
    (h : expand grown name depth call w = .ok c w') :
    StandsFor (Grown answers limit remaining ancestry) name depth call c ∧ Inv w' := by
  unfold expand at h
  unfold StandsFor
  by_cases hexpanded : isExpanded name call = true
  · rw [if_pos hexpanded] at h ⊢
    simp only [Run.bind_ok_iff, Run.pure_ok_iff] at h
    obtain ⟨t, v, ht, rfl, rfl⟩ := h
    obtain ⟨ht, hv⟩ := hgrown _ _ _ _ hw ht
    exact ⟨ht.withSite call.site, hv⟩
  · rw [if_neg hexpanded] at h ⊢
    obtain ⟨rfl, rfl⟩ := Run.pure_ok_iff.mp h
    exact ⟨rfl, hw⟩

/-- A run that returns a tree has grown it, if its lookups answer as `answers` allows in the worlds
that occur. -/
theorem grown_of_grow {Inv : World → Prop} {check : Run Unit} {sites : Text → Nat → Run (List Call)}
    (hcheck : ∀ w w', Inv w → check w = .ok () w' → Inv w')
    (hsites : ∀ n d w calls w', Inv w → sites n d w = .ok calls w' → answers n calls ∧ Inv w') :
    ∀ (remaining : Nat) (ancestry : Ancestry) (name : Text) {w : World} {t : CallTree} {w' : World},
      Inv w → grow check sites limit remaining ancestry ancestry.length name w = .ok t w' →
        Grown answers limit remaining ancestry name none t ∧ Inv w' := by
  intro remaining
  induction remaining with
  | zero =>
    intro ancestry name w t w' hw h
    simp only [grow, Run.bind_ok_iff, Run.pure_ok_iff] at h
    obtain ⟨_, v, hv, rfl, rfl⟩ := h
    exact ⟨grown_iff.mpr (.inl ⟨.inl rfl, rfl⟩), hcheck _ _ hw hv⟩
  | succ remaining ih =>
    intro ancestry name w t w' hw h
    simp only [grow, Run.bind_ok_iff] at h
    obtain ⟨_, v, hv, h⟩ := h
    have hv := hcheck _ _ hw hv
    by_cases hname : ancestry.has name = true
    · rw [if_pos hname] at h
      obtain ⟨rfl, rfl⟩ := Run.pure_ok_iff.mp h
      exact ⟨grown_iff.mpr (.inl ⟨.inr (Ancestry.has_iff.mp hname), rfl⟩), hv⟩
    · rw [if_neg hname] at h
      simp only [Run.bind_ok_iff, Run.pure_ok_iff] at h
      obtain ⟨calls, u, hcalls, callers, u', hcallers, rfl, rfl⟩ := h
      obtain ⟨hanswer, hu⟩ := hsites _ _ _ _ _ hv hcalls
      have hgrow := fun n w t w' hw h => @ih (ancestry.extend name) n w t w' hw h
      obtain ⟨hgrown, hu'⟩ := Run.mapM_ok (standsFor_of_expand hgrow) hu hcallers
      have hnew : name ∉ ancestry := mt Ancestry.has_iff.mpr hname
      exact ⟨grown_iff.mpr (.inr ⟨remaining, calls, callers, rfl, hnew, hanswer, hgrown, rfl⟩), hu'⟩

/-- A resolved tree is grown, whatever the locator does. -/
theorem grown_of_build {l : Locator} {tree : SourceTree} {name : Text} {w w' : World} {t : CallTree}
    (h : build l tree limit name w = .ok t w') :
    Grown (fun _ _ => True) limit limit.toNat [] name none t :=
  (grown_of_grow (fun _ _ _ _ => trivial) (fun _ _ _ _ _ _ _ => ⟨trivial, trivial⟩) limit.toNat []
    name trivial h).1

/-! ### The functions of a grown tree -/

/-- A function with these names above it is looked up, unless something stops it: it is the root, or
a known function other than the one it calls. -/
def IsSought (above : List Text) (name : Text) : Prop :=
  ∀ parent ∈ above.head?, name ≠ Line.unknownCaller ∧ name ≠ parent

theorem isSought_nil {name : Text} : IsSought [] name := by
  simp [IsSought]

theorem isSought_cons_iff {parent : Text} {above : List Text} {call : Call} :
    IsSought (parent :: above) call.caller ↔ isExpanded parent call = true := by
  simp [IsSought, isExpanded]

/-- The root is always sought: it has no parent whose name it could repeat. -/
theorem exists_mem_of_not_isSought {above : List Text} {name : Text} (h : ¬ IsSought above name) :
    ∃ parent ∈ above.head?, name = Line.unknownCaller ∨ name = parent := by
  unfold IsSought at h
  push Not at h
  obtain ⟨parent, hparent, h⟩ := h
  exact ⟨parent, hparent, or_iff_not_imp_left.mpr h⟩

/-- The tree `c` is the function at a call, called from there. -/
def IsCallerAt (call : Call) (c : CallTree) : Prop :=
  ∃ m : Member, c = m.tree ∧ m.name = call.caller ∧ m.head.site = some call.site

/-- What a function of a tree of `levels` levels is like, given the names above it. -/
inductive Standing (answers : Text → List Call → Prop) (limit : Int) (levels : Nat) :
    List Text → Member → Prop
  /-- A caller that is not looked up. -/
  | leaf {above : List Text} {call : Call} (hsought : ¬ IsSought above call.caller) :
      Standing answers limit levels above
        ⟨{ name := call.caller, depth := above.length, site := some call.site }, []⟩
  /-- The end of a branch. -/
  | terminal {above : List Text} {name : Text} {site : Option Occurrence}
      (hsought : IsSought above name) (hsite : site = none ↔ above = [])
      (hstop : levels ≤ above.length ∨ name ∈ above) :
      Standing answers limit levels above ⟨terminalHead limit above name site, []⟩
  /-- A function with its call sites. -/
  | expanded {above : List Text} {name : Text} {site : Option Occurrence} {calls : List Call}
      {callers : List CallTree}
      (hsought : IsSought above name) (hsite : site = none ↔ above = [])
      (hlevel : above.length < levels) (hnew : name ∉ above) (hcalls : answers name calls)
      (hcallers : List.Forall₂ IsCallerAt calls callers) :
      Standing answers limit levels above
        ⟨expandedHead limit above name site callers.length, callers⟩

theorem Grown.exists_member {remaining : Nat} {ancestry : Ancestry} {name : Text}
    {site : Option Occurrence} {t : CallTree}
    (h : Grown answers limit remaining ancestry name site t) :
    ∃ m : Member, t = m.tree ∧ m.name = name ∧ m.head.site = site := by
  obtain ⟨-, h⟩ | ⟨_, _, _, -, -, -, -, h⟩ := grown_iff.mp h
  · exact ⟨⟨_, _⟩, h, rfl, rfl⟩
  · exact ⟨⟨_, _⟩, h, rfl, rfl⟩

theorem StandsFor.isCallerAt {remaining : Nat} {ancestry : Ancestry} {name : Text} {depth : Nat}
    {call : Call} {c : CallTree}
    (h : StandsFor (Grown answers limit remaining ancestry) name depth call c) :
    IsCallerAt call c := by
  unfold StandsFor at h
  split at h
  · exact h.exists_member
  · exact ⟨⟨_, _⟩, h, rfl, rfl⟩

/-- What the way down from the root keeps: a function is a leaf, or a tree was grown for it under
the names that stand above it. -/
inductive Placed (answers : Text → List Call → Prop) (limit : Int) (levels : Nat)
    (above : List Text) (m : Member) : Prop
  | leaf (call : Call) (hsought : ¬ IsSought above call.caller)
      (htree : m.tree = Hierarchy.leaf above.length call)
  | grown (remaining : Nat) (name : Text) (site : Option Occurrence)
      (hlevels : remaining + above.length = levels) (hsought : IsSought above name)
      (hsite : site = none ↔ above = [])
      (htree : Grown answers limit remaining above name site m.tree)

theorem Placed.standing {levels : Nat} {above : List Text} {m : Member}
    (h : Placed answers limit levels above m) : Standing answers limit levels above m := by
  cases h with
  | leaf call hsought htree =>
    obtain rfl := Member.tree_eq_node_iff.mp htree
    exact .leaf hsought
  | grown remaining name site hlevels hsought hsite htree =>
    obtain ⟨hstop, htree⟩ | ⟨_, calls, callers, rfl, hnew, hcalls, hcallers, htree⟩ :=
      grown_iff.mp htree
    · obtain rfl := Member.tree_eq_node_iff.mp htree
      exact .terminal hsought hsite (hstop.imp_left fun hzero => by omega)
    · obtain rfl := Member.tree_eq_node_iff.mp htree
      exact .expanded hsought hsite (by omega) hnew hcalls
        (hcallers.imp fun _ _ h => h.isCallerAt)

theorem exists_mem_of_forall₂ {α β : Type} {R : α → β → Prop} {as : List α} {bs : List β}
    (h : List.Forall₂ R as bs) {b : β} (hb : b ∈ bs) : ∃ a ∈ as, R a b := by
  induction h with
  | nil => simp at hb
  | @cons a b' as bs hR _ ih =>
    rcases List.mem_cons.mp hb with rfl | hb
    · exact ⟨a, List.mem_cons_self, hR⟩
    · obtain ⟨a', ha', hR'⟩ := ih hb
      exact ⟨a', List.mem_cons_of_mem _ ha', hR'⟩

/-- One step down: a caller of a placed function is placed below it. -/
theorem Placed.caller {levels : Nat} {above : List Text} {m c : Member}
    (h : Placed answers limit levels above m) (hc : c.tree ∈ m.callers) :
    Placed answers limit levels (m.name :: above) c := by
  cases h with
  | leaf call hsought htree =>
    obtain rfl := Member.tree_eq_node_iff.mp htree
    simp at hc
  | grown remaining name site hlevels hsought hsite htree =>
    obtain ⟨-, htree⟩ | ⟨levels', calls, callers, rfl, -, -, hcallers, htree⟩ :=
      grown_iff.mp htree
    · obtain rfl := Member.tree_eq_node_iff.mp htree
      simp at hc
    · obtain rfl := Member.tree_eq_node_iff.mp htree
      obtain ⟨call, -, hcall⟩ := exists_mem_of_forall₂ hcallers hc
      unfold StandsFor at hcall
      by_cases hexpanded : isExpanded name call = true
      · rw [if_pos hexpanded] at hcall
        have hlevel : levels' + (name :: above).length = levels := by
          rw [List.length_cons]
          omega
        exact .grown levels' call.caller (some call.site) hlevel
          (isSought_cons_iff.mpr hexpanded) (by simp) hcall
      · rw [if_neg hexpanded] at hcall
        exact .leaf call (mt isSought_cons_iff.mp hexpanded) hcall

/-- Placing goes down from the root: what a function is follows from what its parent is. -/
theorem placed_of_lineage {levels : Nat} {name : Text} {t : CallTree}
    (h : Grown answers limit levels [] name none t) {ms : List Member} (hms : t.Lineage ms) :
    ∀ m above, ms = m :: above → Placed answers limit levels (names above) m := by
  induction hms with
  | root ht =>
    rintro m above ⟨⟩
    rw [ht] at h
    exact .grown levels name none rfl isSought_nil (by simp) h
  | caller _ hc ih =>
    rintro m above ⟨⟩
    exact (ih _ _ rfl).caller hc

/-- What every function of a grown tree is like, in terms of the functions above it. -/
theorem standing_of_lineage {levels : Nat} {name : Text} {t : CallTree}
    (h : Grown answers limit levels [] name none t) {m : Member} {above : List Member}
    (hm : t.Lineage (m :: above)) : Standing answers limit levels (names above) m :=
  (placed_of_lineage h hm m above rfl).standing

/-- In a grown tree a function with a call site stands under another one, at one of its calls. -/
theorem Grown.exists_call {answers : Text → List Call → Prop} {limit : Int} {levels : Nat}
    {name : Text} {t : CallTree} (h : Grown answers limit levels [] name none t) {m : Member}
    {above : List Member} (hm : t.Lineage (m :: above)) {site : Occurrence}
    (hsite : m.head.site = some site) :
    ∃ parent rest calls call, above = parent :: rest ∧ answers parent.name calls ∧ call ∈ calls ∧
      m.name = call.caller ∧ call.site = site := by
  cases hm with
  | root htree =>
    obtain ⟨m', htree', -, hnone⟩ := (htree ▸ h).exists_member
    obtain rfl := Member.tree_eq_node_iff.mp htree'
    rw [hnone] at hsite
    cases hsite
  | @caller parent _ rest hparent hc =>
    have hstanding := standing_of_lineage h hparent
    generalize names rest = above at hstanding
    cases hstanding with
    | leaf => simp at hc
    | terminal => simp at hc
    | @expanded name' site' calls callers _ _ _ _ hcalls hcallers =>
      obtain ⟨call, hcall, m', htree, hname, hsite'⟩ := exists_mem_of_forall₂ hcallers hc
      obtain rfl := Member.tree_eq_node_iff.mp htree
      rw [hsite, Option.some.injEq] at hsite'
      exact ⟨_, rest, calls, call, rfl, hcalls, hcall, hname, hsite'.symm⟩

end Hierarchy

end CallerTree
