import CallerTree.Proofs.Growth
import Mathlib.Data.List.Chain
import Mathlib.Data.List.Lex

/-!
# The functions of a caller tree, one after the other

The exports write a caller tree from left to right, a function before its callers. What they write
about a function depends on where it stands: how deep, and whether it and the functions above it are
the last callers of theirs. Here the functions are listed in this order, each with its way from the
root, so that an export can be described as a function of the list.

## Ways

A way has one turn for each level, and a turn says which of how many callers is taken. So whether a
function has a sibling behind it can be read off its way alone, and so can the functions above it:
their ways are what the way begins with. The numbers of the callers without their totals are the
address of the function.

The heads of a tree are already listed by `CallTree.heads`, but a function may stand at many places
under the same head. `CallTree.Lineage` looks from a function up to the root; here a place is
reached from the root, and places are told apart by their ways.

## Addresses by depth

In a tree without absent entries the address of the next function follows from its depth: if it is
deeper, it is the first caller, and otherwise the next caller on its level. So the depths, in order,
determine the shape of the tree (`CallTree.address_eq_of_lengths`).

## Main definitions

* `CallTree.Reaches` — where a way leads
* `CallTree.places` — all functions with their ways
* `CallTree.IsFull` — no entry of the tree is absent

## Main results

* `CallTree.mem_places_iff`, `CallTree.map_head_places`, `CallTree.pairwise_address_places`
* `CallTree.address_eq_of_lengths`
-/

namespace CallerTree

namespace CallTree

/-- A property of all caller trees, shown for a function from its callers. -/
@[elab_as_elim]
theorem induct {motive : CallTree → Prop} (absent : motive .absent)
    (node : ∀ head callers, (∀ c ∈ callers, motive c) → motive (.node head callers))
    (t : CallTree) : motive t :=
  @CallTree.rec motive (fun callers => ∀ c ∈ callers, motive c) absent node
    (fun _ hc => absurd hc List.not_mem_nil)
    (fun _ _ hc hcs => List.forall_mem_cons.mpr ⟨hc, hcs⟩) t

/-! ### Heads -/

theorem walkAll_eq_flatMap (ts : List CallTree) :
    walkAll (fun _ => true) ts = ts.flatMap heads := by
  induction ts with
  | nil => rw [walkAll, List.flatMap_nil]
  | cons t ts ih => rw [walkAll, List.flatMap_cons, ih, heads]

@[simp] theorem heads_absent : absent.heads = [] := by rw [heads, walk]

@[simp] theorem heads_node (head : Head) (callers : List CallTree) :
    (node head callers).heads = head :: callers.flatMap heads := by
  rw [heads, walk, if_pos rfl, walkAll_eq_flatMap]

@[simp] theorem size_absent : absent.size = 0 := by rw [size, heads_absent, List.length_nil]

/-! ### Full trees -/

/-- No entry is without a function. -/
def IsFull (t : CallTree) : Prop := t.isFull = true

theorem allFull_iff {ts : List CallTree} : allFull ts = true ↔ ∀ t ∈ ts, t.IsFull := by
  induction ts with
  | nil => simp [allFull]
  | cons t ts ih => rw [allFull, Bool.and_eq_true, ih, List.forall_mem_cons, IsFull]

theorem isFull_node_iff {head : Head} {callers : List CallTree} :
    (node head callers).IsFull ↔ ∀ c ∈ callers, c.IsFull := by
  rw [IsFull, isFull, allFull_iff]

theorem not_isFull_absent : ¬ absent.IsFull := by simp [IsFull, isFull]

/-- A full tree is written, and one that has a root and is not full ends in a panic. -/
theorem writtenBy_of_isFull {t : CallTree} (write : CallTree → Text) :
    (t.IsFull → t.writtenBy write = .ok (write t)) ∧
      (¬ t.IsFull → t ≠ absent → t.writtenBy write = .error .absent) := by
  cases t with
  | absent => exact ⟨fun h => absurd h not_isFull_absent, fun _ h => absurd rfl h⟩
  | node head callers =>
    rw [writtenBy, isFull_node_iff, ← allFull_iff]
    exact ⟨fun h => if_pos h, fun h _ => if_neg h⟩

/-! ### Ways -/

/-- One level on the way down: the caller that is taken, and how many there are. -/
structure Turn where
  index : Nat
  total : Nat
  deriving DecidableEq, Repr

/-- Whether there are callers behind the one that is taken. -/
def Turn.hasLater (turn : Turn) : Bool := turn.index + 1 < turn.total

/-- The way leads down the tree to a function. -/
inductive Reaches : CallTree → List Turn → Member → Prop
  | here {head : Head} {callers : List CallTree} : Reaches (.node head callers) [] ⟨head, callers⟩
  | down {head : Head} {callers : List CallTree} {i : Nat} {c : CallTree} {way : List Turn}
      {m : Member} (hc : callers[i]? = some c) (h : Reaches c way m) :
      Reaches (.node head callers) (⟨i, callers.length⟩ :: way) m

/-- A function of a caller tree, and the way to it. -/
structure Place where
  way : List Turn
  member : Member

namespace Place

abbrev head (p : Place) : Head := p.member.head

/-- Which caller is taken on each level. -/
def address (p : Place) : List Nat := p.way.map (·.index)

/-- The place in a tree in which the tree of `p` is the caller at `turn`. -/
def under (turn : Turn) (p : Place) : Place := ⟨turn :: p.way, p.member⟩

@[simp] theorem way_under (turn : Turn) (p : Place) : (p.under turn).way = turn :: p.way := rfl

@[simp] theorem member_under (turn : Turn) (p : Place) : (p.under turn).member = p.member := rfl

@[simp] theorem address_under (turn : Turn) (p : Place) :
    (p.under turn).address = turn.index :: p.address := rfl

@[simp] theorem length_address (p : Place) : p.address.length = p.way.length :=
  List.length_map _

end Place

mutual

/-- The functions in pre-order. -/
def places : CallTree → List Place
  | absent => []
  | node head callers => ⟨[], ⟨head, callers⟩⟩ :: placesBelow 0 callers.length callers

/-- The functions at and below the last of `total` callers, from the one with the number `index`
on. -/
def placesBelow (index total : Nat) : List CallTree → List Place
  | [] => []
  | c :: rest => c.places.map (·.under ⟨index, total⟩) ++ placesBelow (index + 1) total rest

end

@[simp] theorem places_absent : absent.places = [] := by rw [places]

theorem places_node (head : Head) (callers : List CallTree) :
    (node head callers).places =
      ⟨[], ⟨head, callers⟩⟩ :: placesBelow 0 callers.length callers := by
  rw [places]

@[simp] theorem placesBelow_nil (index total : Nat) : placesBelow index total [] = [] := by
  rw [placesBelow]

theorem placesBelow_cons (index total : Nat) (c : CallTree) (rest : List CallTree) :
    placesBelow index total (c :: rest) =
      c.places.map (·.under ⟨index, total⟩) ++ placesBelow (index + 1) total rest := by
  rw [placesBelow]

/-! ### The list is complete and in order -/

theorem mem_placesBelow_iff {index total : Nat} {cs : List CallTree} {p : Place} :
    p ∈ placesBelow index total cs ↔
      ∃ (i : Nat) (c : CallTree) (q : Place),
        cs[i]? = some c ∧ q ∈ c.places ∧ p = q.under ⟨index + i, total⟩ := by
  induction cs generalizing index with
  | nil => simp
  | cons c rest ih =>
    rw [placesBelow_cons, List.mem_append, ih, List.mem_map]
    constructor
    · rintro (⟨q, hq, rfl⟩ | ⟨i, c', q, hc, hq, rfl⟩)
      · exact ⟨0, c, q, rfl, hq, rfl⟩
      · exact ⟨i + 1, c', q, hc, hq, by rw [Nat.add_right_comm, Nat.add_assoc]⟩
    · rintro ⟨i, c', q, hc, hq, rfl⟩
      cases i with
      | zero =>
        obtain rfl : c = c' := Option.some.inj hc
        exact .inl ⟨q, hq, rfl⟩
      | succ i => exact .inr ⟨i, c', q, hc, hq, by rw [Nat.add_right_comm, Nat.add_assoc]⟩

/-- The places are those that are reached. -/
theorem mem_places_iff {t : CallTree} {p : Place} : p ∈ t.places ↔ t.Reaches p.way p.member := by
  induction t using induct generalizing p with
  | absent => exact ⟨fun h => by simp at h, nofun⟩
  | node head callers ih =>
    rw [places_node, List.mem_cons, mem_placesBelow_iff]
    constructor
    · rintro (rfl | ⟨i, c, q, hc, hq, rfl⟩)
      · exact .here
      · rw [Nat.zero_add]
        exact .down hc ((ih c (List.mem_of_getElem? hc)).mp hq)
    · obtain ⟨way, m⟩ := p
      intro h
      cases h with
      | here => exact .inl rfl
      | @down _ _ i c way _ hc h =>
        refine .inr ⟨i, c, ⟨way, m⟩, hc, (ih c (List.mem_of_getElem? hc)).mpr h, ?_⟩
        rw [Nat.zero_add]
        rfl

theorem map_head_placesBelow {cs : List CallTree}
    (ih : ∀ c ∈ cs, c.places.map (·.head) = c.heads) (index total : Nat) :
    (placesBelow index total cs).map (·.head) = cs.flatMap heads := by
  induction cs generalizing index with
  | nil => rw [placesBelow_nil, List.map_nil, List.flatMap_nil]
  | cons c rest ihrest =>
    obtain ⟨hc, hrest⟩ := List.forall_mem_cons.mp ih
    rw [placesBelow_cons, List.map_append, List.map_map, ihrest hrest, List.flatMap_cons, ← hc]
    rfl

/-- The heads of the places are the heads of the tree, in the same order. -/
theorem map_head_places (t : CallTree) : t.places.map (·.head) = t.heads := by
  induction t using induct with
  | absent => rw [places_absent, heads_absent, List.map_nil]
  | node head callers ih =>
    rw [places_node, List.map_cons, map_head_placesBelow ih, heads_node]

@[simp] theorem length_places (t : CallTree) : t.places.length = t.size := by
  rw [size, ← map_head_places, List.length_map]

theorem head_mem_heads {t : CallTree} {p : Place} (h : p ∈ t.places) : p.head ∈ t.heads :=
  map_head_places t ▸ List.mem_map_of_mem h

/-- The addresses below a function begin with the numbers of its callers. -/
theorem exists_address_of_mem_placesBelow {index total : Nat} {cs : List CallTree} {p : Place}
    (h : p ∈ placesBelow index total cs) :
    ∃ i rest, p.address = i :: rest ∧ index ≤ i := by
  obtain ⟨i, c, q, -, -, rfl⟩ := mem_placesBelow_iff.mp h
  exact ⟨index + i, q.address, rfl, Nat.le_add_right _ _⟩

/-- Siblings are told apart by the index in front, and the rest is the induction. -/
theorem pairwise_address_placesBelow {cs : List CallTree}
    (ih : ∀ c ∈ cs, c.places.Pairwise fun p q => p.address < q.address) (index total : Nat) :
    (placesBelow index total cs).Pairwise fun p q => p.address < q.address := by
  induction cs generalizing index with
  | nil =>
    rw [placesBelow_nil]
    exact .nil
  | cons c rest ihrest =>
    obtain ⟨hc, hrest⟩ := List.forall_mem_cons.mp ih
    rw [placesBelow_cons, List.pairwise_append, List.pairwise_map]
    refine ⟨hc.imp fun h => ?_, ihrest hrest _, fun p hp q hq => ?_⟩
    · exact List.cons_lt_cons_iff.mpr (.inr ⟨rfl, h⟩)
    · obtain ⟨p, -, rfl⟩ := List.mem_map.mp hp
      obtain ⟨i, back, hq, hi⟩ := exists_address_of_mem_placesBelow hq
      rw [hq, Place.address_under]
      exact List.cons_lt_cons_iff.mpr (.inl hi)

/-- The places are in pre-order: a function comes before those below it, and these before what is
below a later sibling. -/
theorem pairwise_address_places (t : CallTree) :
    t.places.Pairwise fun p q => p.address < q.address := by
  induction t using induct with
  | absent =>
    rw [places_absent]
    exact .nil
  | node head callers ih =>
    rw [places_node, List.pairwise_cons]
    refine ⟨fun p hp => ?_, pairwise_address_placesBelow ih _ _⟩
    obtain ⟨i, back, hp, -⟩ := exists_address_of_mem_placesBelow hp
    rw [hp]
    exact List.nil_lt_cons _ _

/-- A way leads to one place of the list. -/
theorem eq_of_getElem?_places {t : CallTree} {i j : Nat} {p q : Place}
    (hp : t.places[i]? = some p) (hq : t.places[j]? = some q) (h : p.way = q.way) : i = j := by
  have hnodup : (t.places.map (·.address)).Nodup :=
    List.pairwise_map.mpr ((pairwise_address_places t).imp ne_of_lt)
  have hi : i < (t.places.map (·.address)).length := by
    rw [List.length_map]
    exact (List.getElem?_eq_some_iff.mp hp).1
  refine (List.getElem?_inj hi hnodup).mp ?_
  rw [List.getElem?_map, List.getElem?_map, hp, hq, Option.map_some, Option.map_some,
    Place.address, Place.address, h]

/-- The root comes first. -/
theorem way_eq_nil_iff {t : CallTree} {i : Nat} {p : Place} (h : t.places[i]? = some p) :
    p.way = [] ↔ i = 0 := by
  cases t with
  | absent => simp at h
  | node head callers =>
    have hroot : (node head callers).places[0]? = some ⟨[], ⟨head, callers⟩⟩ := by
      rw [places_node, List.getElem?_cons_zero]
    constructor
    · exact fun hway => eq_of_getElem?_places h hroot hway
    · rintro rfl
      rw [hroot] at h
      exact congrArg Place.way (Option.some.inj h).symm

/-! ### Addresses by depth -/

/-- The address `b` may come right after `a`: it is that of the first caller there, or of the next
caller on some level. -/
def Follows (a b : List Nat) : Prop :=
  b = a ++ [0] ∨ ∃ front i back, a = front ++ i :: back ∧ b = front ++ [i + 1]

theorem Follows.cons {a b : List Nat} (h : Follows a b) (i : Nat) : Follows (i :: a) (i :: b) := by
  obtain rfl | ⟨front, j, back, rfl, rfl⟩ := h
  · exact .inl rfl
  · exact .inr ⟨i :: front, j, back, rfl, rfl⟩

/-- Which of the addresses comes next follows from its depth. -/
theorem Follows.eq_of_length {a b c : List Nat} (hb : Follows a b) (hc : Follows a c)
    (h : b.length = c.length) : b = c := by
  obtain rfl | ⟨front, i, back, rfl, rfl⟩ := hb
  · obtain rfl | ⟨front, i, back, rfl, rfl⟩ := hc
    · rfl
    · simp only [List.length_append, List.length_cons, List.length_nil] at h
      omega
  · obtain rfl | ⟨front', i', back', hfront, rfl⟩ := hc
    · simp only [List.length_append, List.length_cons, List.length_nil] at h
      omega
    · have hlength : front.length = front'.length := by
        simpa only [List.length_append, List.length_singleton, Nat.add_right_cancel_iff] using h
      obtain ⟨rfl, hback⟩ := List.append_inj hfront hlength
      obtain ⟨rfl, -⟩ := List.cons.inj hback
      rfl

theorem head?_address_places {t : CallTree} (h : t.IsFull) :
    (t.places.map (·.address)).head? = some [] := by
  cases t with
  | absent => exact absurd h not_isFull_absent
  | node => rw [places_node, List.map_cons, List.head?_cons]; rfl

theorem isChain_address_placesBelow {cs : List CallTree} (hfull : ∀ c ∈ cs, c.IsFull)
    (ih : ∀ c ∈ cs, (c.places.map (·.address)).IsChain Follows) (index total : Nat) :
    ((placesBelow index total cs).map (·.address)).IsChain Follows ∧
      ∀ a ∈ ((placesBelow index total cs).map (·.address)).head?, a = [index] := by
  induction cs generalizing index with
  | nil => simp
  | cons c rest ihrest =>
    obtain ⟨hc, hrest⟩ := List.forall_mem_cons.mp hfull
    obtain ⟨ihc, ih⟩ := List.forall_mem_cons.mp ih
    obtain ⟨hchain, hfirst⟩ := ihrest hrest ih (index + 1)
    have hmap : (c.places.map (·.under ⟨index, total⟩)).map (·.address) =
        (c.places.map (·.address)).map (index :: ·) := by
      rw [List.map_map, List.map_map]
      rfl
    rw [placesBelow_cons, List.map_append, hmap]
    constructor
    · rw [List.isChain_append, List.isChain_map]
      refine ⟨ihc.imp fun _ _ h => h.cons index, hchain, fun a ha b hb => ?_⟩
      rw [hfirst b hb]
      obtain ⟨a, -, rfl⟩ := List.mem_map.mp (List.mem_of_getLast? ha)
      exact .inr ⟨[], index, a, rfl, rfl⟩
    · obtain ⟨a, as, has⟩ : ∃ a as, c.places.map (·.address) = a :: as :=
        List.exists_cons_of_ne_nil fun hnil => by simpa [hnil] using head?_address_places hc
      have hroot := head?_address_places hc
      rw [has, List.head?_cons, Option.some.injEq] at hroot
      intro b hb
      rw [has, hroot] at hb
      exact (Option.some.inj hb).symm

/-- In a full tree nothing is left out, so each address is followed by the next one there is. -/
theorem isChain_address_places {t : CallTree} (h : t.IsFull) :
    (t.places.map (·.address)).IsChain Follows := by
  induction t using induct with
  | absent => exact absurd h not_isFull_absent
  | node head callers ih =>
    have hfull := isFull_node_iff.mp h
    obtain ⟨hchain, hfirst⟩ := isChain_address_placesBelow hfull
      (fun c hc => ih c hc (hfull c hc)) 0 callers.length
    rw [places_node, List.map_cons, List.isChain_cons]
    refine ⟨fun a ha => ?_, hchain⟩
    rw [hfirst a ha]
    exact .inl rfl

/-- Below a known address only the level of the next one is open, so the levels determine all. -/
theorem eq_of_isChain_follows {as bs : List (List Nat)} {a : List Nat}
    (has : (a :: as).IsChain Follows) (hbs : (a :: bs).IsChain Follows)
    (h : as.map List.length = bs.map List.length) : as = bs := by
  induction as generalizing bs a with
  | nil =>
    rw [List.map_nil] at h
    exact (List.map_eq_nil_iff.mp h.symm).symm
  | cons b as ih =>
    obtain ⟨c, bs, rfl, hlength, hrest⟩ := List.map_eq_cons_iff.mp h.symm
    obtain ⟨hab, has⟩ := List.isChain_cons_cons.mp has
    obtain ⟨hac, hbs⟩ := List.isChain_cons_cons.mp hbs
    obtain rfl := hab.eq_of_length hac hlength.symm
    rw [ih has hbs hrest.symm]

/-- **The depths in pre-order determine the shape of a tree.** -/
theorem address_eq_of_lengths {s t : CallTree} (hs : s.IsFull) (ht : t.IsFull)
    (h : s.places.map (·.way.length) = t.places.map (·.way.length)) :
    s.places.map (·.address) = t.places.map (·.address) := by
  have hlengths : ∀ u : CallTree,
      (u.places.map (·.address)).map List.length = u.places.map (·.way.length) := by
    intro u
    rw [List.map_map]
    exact List.map_congr_left fun p _ => p.length_address
  have hcons : ∀ {u : CallTree}, u.IsFull → ∃ as, u.places.map (·.address) = [] :: as := by
    intro u hu
    exact List.head?_eq_some_iff.mp (head?_address_places hu)
  rw [← hlengths, ← hlengths] at h
  have hschain := isChain_address_places hs
  have htchain := isChain_address_places ht
  obtain ⟨as, has⟩ := hcons hs
  obtain ⟨bs, hbs⟩ := hcons ht
  rw [has] at h hschain ⊢
  rw [hbs] at h htchain ⊢
  rw [List.map_cons, List.map_cons, List.cons.injEq] at h
  rw [eq_of_isChain_follows hschain htchain h.2]

end CallTree

/-! ### Grown trees -/

namespace Hierarchy

variable {answers : Text → List Call → Prop} {limit : Int}

/-- What is grown has no absent entries. -/
theorem Grown.isFull {remaining : Nat} {ancestry : Ancestry} {name : Text}
    {site : Option Occurrence} {t : CallTree}
    (h : Grown answers limit remaining ancestry name site t) : t.IsFull := by
  induction remaining generalizing ancestry name site t with
  | zero =>
    obtain ⟨-, rfl⟩ | ⟨levels, _, _, hlevels, -⟩ := grown_iff.mp h
    · exact CallTree.isFull_node_iff.mpr (by simp)
    · cases hlevels
  | succ remaining ih =>
    obtain ⟨-, rfl⟩ | ⟨_, calls, callers, ⟨⟩, -, -, hcallers, rfl⟩ := grown_iff.mp h
    · exact CallTree.isFull_node_iff.mpr (by simp)
    · refine CallTree.isFull_node_iff.mpr fun c hc => ?_
      obtain ⟨call, -, hcall⟩ := exists_mem_of_forall₂ hcallers hc
      unfold StandsFor at hcall
      split at hcall
      · exact ih hcall
      · rw [hcall]
        exact CallTree.isFull_node_iff.mpr (by simp)

end Hierarchy

end CallerTree
