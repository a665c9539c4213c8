import CallerTree.Export.Outline
import CallerTree.Proofs.Preorder
import CallerTree.Proofs.ToolOutput

/-!
# An outline determines its tree

An outline has one line for each function. In front of the function the branches are drawn, one
group of four glyphs for each level: the last group leads to the function itself, and each group
before it shows whether the branch of a function above goes on further down. So each group says
something about another function on the way, and what it says is the turn of the way on that level.

## Proof outline

Drawing goes down the tree with the groups of the levels above in hand. A line is what was in hand
followed by the groups of the way below that point (`Outline.render_eq_unlines`); at the root
nothing is in hand, and the groups of the whole way are left.

For the way back, a name does not begin with a glyph that branches are drawn with. So the groups end
where the first other glyph stands, their number is the depth, and the depths determine the shape.

## Main definitions

* `Outline.lead` — the groups of a way
* `Head.IsOneLine`, `Head.IsPlain` — heads that can be told from line ends and from branches

## Main results

* `Outline.outline_eq_unlines` — the lines of an outline
* `Outline.outline_determines_tree`
-/

namespace CallerTree

/-- What the exports write about the function stays on one line. -/
structure Head.IsOneLine (head : Head) : Prop where
  name : Glyph.char '\n' ∉ head.name
  file : ∀ site ∈ head.site, Glyph.char '\n' ∉ site.file

instance (head : Head) : Decidable head.IsOneLine :=
  decidable_of_iff (Glyph.char '\n' ∉ head.name ∧ ∀ site ∈ head.site, Glyph.char '\n' ∉ site.file)
    ⟨fun h => ⟨h.1, h.2⟩, fun h => ⟨h.name, h.file⟩⟩

theorem Text.not_mem_ofInt {c : Char} (hdigit : c.isDigit = false) (hsign : c ≠ '-') (n : Int) :
    Glyph.char c ∉ ofInt n := by
  cases n with
  | ofNat n => exact not_mem_ofNat hdigit n
  | negSucc n =>
    rw [ofInt, List.mem_cons, not_or]
    exact ⟨fun h => hsign (Glyph.char.inj h), not_mem_ofNat hdigit _⟩

theorem Text.unlines_inj {ls ls' : List Text} (hls : ∀ l ∈ ls, Glyph.char '\n' ∉ l)
    (hls' : ∀ l ∈ ls', Glyph.char '\n' ∉ l) (h : unlines ls = unlines ls') : ls = ls' := by
  rw [← lines_unlines hls, h, lines_unlines hls']

theorem map_eq_map_of_imp {α β γ : Type} {f : α → β} {g : α → γ} {l l' : List α}
    (h : l.map f = l'.map f) (himp : ∀ a ∈ l, ∀ b ∈ l', f a = f b → g a = g b) :
    l.map g = l'.map g := by
  induction l generalizing l' with
  | nil =>
    obtain rfl := List.map_eq_nil_iff.mp h.symm
    rfl
  | cons a l ih =>
    obtain ⟨b, l', rfl, hab, hrest⟩ := List.map_eq_cons_iff.mp h.symm
    have hhead := himp a List.mem_cons_self b List.mem_cons_self hab.symm
    rw [List.map_cons, List.map_cons, hhead, ih hrest.symm fun a ha b hb =>
      himp a (List.mem_cons_of_mem _ ha) b (List.mem_cons_of_mem _ hb)]

namespace Outline

open CallTree

/-! ### The groups of a way -/

/-- The group that leads to a function. -/
def branch (turn : Turn) : Text := if turn.hasLater then "├── " else "└── "

/-- The group of a function further up. -/
def trunk (turn : Turn) : Text := if turn.hasLater then "│   " else "    "

/-- The groups in front of a function. -/
def lead : List Turn → Text
  | [] => []
  | [turn] => branch turn
  | turn :: turn' :: way => trunk turn ++ lead (turn' :: way)

theorem lead_cons {way : List Turn} (h : way ≠ []) (turn : Turn) :
    lead (turn :: way) = trunk turn ++ lead way := by
  cases way with
  | nil => exact absurd rfl h
  | cons => rfl

@[simp] theorem length_branch (turn : Turn) : (branch turn).length = 4 := by
  unfold branch
  split <;> rfl

@[simp] theorem length_trunk (turn : Turn) : (trunk turn).length = 4 := by
  unfold trunk
  split <;> rfl

/-- Four columns for each level, so the indent tells the depth. -/
theorem length_lead (way : List Turn) : (lead way).length = 4 * way.length := by
  fun_induction lead way with
  | case1 => rfl
  | case2 turn => exact length_branch turn
  | case3 turn turn' way ih =>
    rw [List.length_append, length_trunk, ih]
    simp only [List.length_cons]
    omega

/-- The group with the number `k`, from the left. -/
def group (t : Text) (k : Nat) : Text := (t.drop (4 * k)).take 4

/-- Each group is that of the turn on its level. -/
theorem group_lead {way : List Turn} {k : Nat} {turn : Turn} (h : way[k]? = some turn) :
    group (lead way) k = if k + 1 = way.length then branch turn else trunk turn := by
  induction way generalizing k with
  | nil => simp at h
  | cons first way ih =>
    cases way with
    | nil =>
      obtain ⟨hk, rfl⟩ := List.getElem?_eq_some_iff.mp h
      obtain rfl : k = 0 := Nat.lt_one_iff.mp hk
      exact List.take_of_length_le (length_branch _).le
    | cons second way =>
      rw [lead_cons (List.cons_ne_nil _ _)]
      cases k with
      | zero =>
        obtain rfl : first = turn := Option.some.inj h
        have hnot : ¬ 0 + 1 = (first :: second :: way).length := by simp
        rw [if_neg hnot, group, Nat.mul_zero, List.drop_zero, List.take_append_of_le_length
          (length_trunk first).ge, List.take_of_length_le (length_trunk first).le]
      | succ k =>
        have hdrop : 4 * (k + 1) = (trunk first).length + 4 * k := by
          rw [length_trunk]
          omega
        have hlast : k + 1 = (second :: way).length ↔ k + 1 + 1 = (first :: second :: way).length :=
          Nat.succ_inj.symm
        rw [group, hdrop, List.drop_length_add_append, ← group, ih h]
        exact if_congr hlast rfl rfl

/-! ### Lines -/

/-- The line of the function at a place. -/
def drawn (p : Place) : Text := lead p.way ++ line p.head p.member.callers.isEmpty

/-- The line of the function at a place of a tree that is drawn behind `first` and `further`. -/
def drawnBehind (first further : Text) (p : Place) : Text :=
  if p.way = [] then first ++ line p.head p.member.callers.isEmpty else further ++ drawn p

theorem drawnBehind_branch (indent : Text) (turn : Turn) (p : Place) :
    drawnBehind (indent ++ branch turn) (indent ++ trunk turn) p =
      indent ++ drawn (p.under turn) := by
  unfold drawnBehind drawn
  by_cases hway : p.way = []
  · rw [if_pos hway, Place.way_under, hway, List.append_assoc]
    rfl
  · rw [if_neg hway, Place.way_under, lead_cons hway, List.append_assoc, List.append_assoc]
    rfl

theorem renderAll_cons (indent : Text) (index total : Nat) (c : CallTree) (rest : List CallTree)
    (htotal : index + (c :: rest).length = total) :
    renderAll indent (c :: rest) =
      render (indent ++ branch ⟨index, total⟩) (indent ++ trunk ⟨index, total⟩) c ++
        renderAll indent rest := by
  rw [renderAll, branch, trunk, Turn.hasLater]
  rw [List.length_cons] at htotal
  by_cases hrest : rest = []
  · have hlast : ¬ index + 1 < total := by
      rw [hrest, List.length_nil] at htotal
      omega
    simp [hrest, hlast]
  · have hlater : index + 1 < total := by
      have := List.length_pos_iff.mpr hrest
      omega
    simp [hrest, hlater]

theorem renderAll_eq_unlines {cs : List CallTree}
    (ih : ∀ c ∈ cs, ∀ first further,
      render first further c = Text.unlines (c.places.map (drawnBehind first further)))
    (indent : Text) (index total : Nat) (htotal : index + cs.length = total) :
    renderAll indent cs =
      Text.unlines ((placesBelow index total cs).map fun p => indent ++ drawn p) := by
  induction cs generalizing index with
  | nil => rw [renderAll, placesBelow_nil, List.map_nil, Text.unlines_nil]
  | cons c rest ihrest =>
    obtain ⟨hc, hrest⟩ := List.forall_mem_cons.mp ih
    have htotal' : index + 1 + rest.length = total := by
      rw [List.length_cons] at htotal
      omega
    rw [renderAll_cons indent index total c rest htotal, hc, ihrest hrest _ htotal',
      placesBelow_cons, List.map_append, Text.unlines_append, List.map_map]
    congr 2
    exact List.map_congr_left fun p _ => drawnBehind_branch indent _ p

/-- A tree is drawn line by line, behind what is in hand. -/
theorem render_eq_unlines (t : CallTree) (first further : Text) :
    render first further t = Text.unlines (t.places.map (drawnBehind first further)) := by
  induction t using induct generalizing first further with
  | absent => rw [render, places_absent, List.map_nil, Text.unlines_nil]
  | node head callers ih =>
    have hbelow : (placesBelow 0 callers.length callers).map (drawnBehind first further) =
        (placesBelow 0 callers.length callers).map fun p => further ++ drawn p := by
      refine List.map_congr_left fun p hp => if_neg fun hway => ?_
      obtain ⟨i, back, haddress, -⟩ := exists_address_of_mem_placesBelow hp
      rw [Place.address, hway] at haddress
      cases haddress
    rw [render, places_node, List.map_cons, Text.unlines_cons, hbelow,
      renderAll_eq_unlines ih further 0 callers.length (Nat.zero_add _), List.append_assoc]
    rfl

/-- What a line shows depends on its place alone and not on the lines around it. -/
theorem outline_eq_unlines (t : CallTree) : t.outline = Text.unlines (t.places.map drawn) := by
  rw [CallTree.outline, render_eq_unlines]
  refine congrArg Text.unlines (List.map_congr_left fun p _ => ?_)
  unfold drawnBehind drawn
  split
  · rename_i hway
    rw [hway]
    rfl
  · rfl

theorem feed_notMem_line {head : Head} (h : head.IsOneLine) (isLeaf : Bool) :
    Glyph.char '\n' ∉ line head isLeaf := by
  have hsite : Glyph.char '\n' ∉ siteNote head.site := by
    cases hsite : head.site with
    | none => exact List.not_mem_nil
    | some site =>
      simp only [siteNote, List.mem_append, not_or]
      exact ⟨⟨⟨⟨by decide, h.file site hsite⟩, by decide⟩,
        Text.not_mem_ofInt (by decide) (by decide) _⟩, by decide⟩
  have hend : Glyph.char '\n' ∉ endNote head isLeaf := by
    unfold endNote
    split
    · decide
    · split
      · decide
      · decide
  rw [line, List.mem_append, List.mem_append, not_or, not_or]
  exact ⟨⟨h.name, hsite⟩, hend⟩

/-! ### Telling the branches from the name -/

/-- The glyphs that branches are drawn with. -/
def isDrawn (g : Glyph) : Bool := [' ', '│', '├', '└', '─'].any (g = .char ·)

theorem isDrawn_of_mem_lead {way : List Turn} : ∀ g ∈ lead way, isDrawn g = true := by
  have hbranch : ∀ turn : Turn, ∀ g ∈ branch turn, isDrawn g = true := by
    intro turn
    unfold branch
    split <;> decide +kernel
  have htrunk : ∀ turn : Turn, ∀ g ∈ trunk turn, isDrawn g = true := by
    intro turn
    unfold trunk
    split <;> decide +kernel
  fun_induction lead way with
  | case1 => exact fun g hg => absurd hg List.not_mem_nil
  | case2 turn => exact hbranch turn
  | case3 turn turn' way ih =>
    intro g hg
    exact (List.mem_append.mp hg).elim (htrunk turn g) (ih g)

theorem feed_notMem_drawn {p : Place} (h : p.head.IsOneLine) : Glyph.char '\n' ∉ drawn p := by
  rw [drawn, List.mem_append, not_or]
  exact ⟨fun hmem => absurd (isDrawn_of_mem_lead _ hmem) (by decide +kernel), feed_notMem_line h _⟩

end Outline

/-- The name begins, and not with a glyph that branches are drawn with. -/
def Head.IsPlain (head : Head) : Prop := ∃ g ∈ head.name.head?, Outline.isDrawn g = false

instance (head : Head) : Decidable head.IsPlain :=
  decidable_of_iff (head.name.head?.any (!Outline.isDrawn ·) = true)
    (by simp [Head.IsPlain, Option.any_eq_true])

namespace Outline

open CallTree

theorem takeWhile_drawn {p : Place} (h : p.head.IsPlain) :
    (drawn p).takeWhile isDrawn = lead p.way := by
  obtain ⟨g, hg, hplain⟩ := h
  obtain ⟨rest, hname⟩ := List.head?_eq_some_iff.mp hg
  rw [drawn, List.takeWhile_append_of_pos isDrawn_of_mem_lead, line, hname, List.cons_append,
    List.cons_append, List.takeWhile_cons_of_neg (by simp [hplain]), List.append_nil]

/-- A line tells the depth of its function, and what stands there about it. -/
theorem eq_of_drawn_eq {p q : Place} (hp : p.head.IsPlain) (hq : q.head.IsPlain)
    (h : drawn p = drawn q) :
    p.way.length = q.way.length ∧
      line p.head p.member.callers.isEmpty = line q.head q.member.callers.isEmpty := by
  have hlead : lead p.way = lead q.way := by
    rw [← takeWhile_drawn hp, ← takeWhile_drawn hq, h]
  constructor
  · have hlength := congrArg List.length hlead
    rw [length_lead, length_lead] at hlength
    omega
  · rw [drawn, drawn, hlead] at h
    exact List.append_cancel_left h

/-! ### Outlines -/

/-- The line `l` is that of the function at `p`. Behind one group for each level stands what there
is to say about the function. The last group shows whether it has a later sibling, and each group
before shows this of the function above it on that level. -/
structure IsLineOf (p : Place) (l : Text) : Prop where
  length_le : 4 * p.way.length ≤ l.length
  text : l.drop (4 * p.way.length) = line p.head p.member.callers.isEmpty
  group : ∀ k turn, p.way[k]? = some turn →
    group l k =
      if k + 1 = p.way.length then if turn.hasLater then "├── " else "└── "
      else if turn.hasLater then "│   " else "    "

theorem isLineOf_drawn (p : Place) : IsLineOf p (drawn p) where
  length_le := by
    rw [drawn, List.length_append, length_lead]
    exact Nat.le_add_right _ _
  text := List.drop_left' (length_lead p.way)
  group := by
    intro k turn hturn
    obtain ⟨hk, -⟩ := List.getElem?_eq_some_iff.mp hturn
    have hlead : group (drawn p) k = group (lead p.way) k := by
      have hlength := length_lead p.way
      rw [drawn, group, group, List.drop_append_of_le_length (by omega),
        List.take_append_of_le_length (by rw [List.length_drop]; omega)]
    rw [hlead, group_lead hturn]
    rfl

/-- Equal outlines have the same depths and the same texts, in the same order. -/
theorem map_eq_of_outline_eq {s t : CallTree} (hs : ∀ h ∈ s.heads, h.IsOneLine ∧ h.IsPlain)
    (ht : ∀ h ∈ t.heads, h.IsOneLine ∧ h.IsPlain) (h : s.outline = t.outline) :
    s.places.map (·.way.length) = t.places.map (·.way.length) ∧
      s.places.map (fun p => line p.head p.member.callers.isEmpty) =
        t.places.map fun p => line p.head p.member.callers.isEmpty := by
  have hdrawn : s.places.map drawn = t.places.map drawn := by
    rw [outline_eq_unlines, outline_eq_unlines] at h
    refine Text.unlines_inj ?_ ?_ h
    · exact List.forall_mem_map.mpr fun p hp => feed_notMem_drawn (hs _ (head_mem_heads hp)).1
    · exact List.forall_mem_map.mpr fun p hp => feed_notMem_drawn (ht _ (head_mem_heads hp)).1
  have heq := fun p hp q hq =>
    eq_of_drawn_eq (hs _ (head_mem_heads (p := p) hp)).2 (ht _ (head_mem_heads (p := q) hq)).2
  exact ⟨map_eq_map_of_imp hdrawn fun p hp q hq h => (heq p hp q hq h).1,
    map_eq_map_of_imp hdrawn fun p hp q hq h => (heq p hp q hq h).2⟩

/-- **An outline determines its tree.** If names and paths hold no line feeds, then an outline has
as many lines as there are functions. The line with the number `i` is that of the function that
comes at this place in pre-order, and its groups say where this function stands. The outline is what
is written if no entry is absent; otherwise nothing is, and the request ends in a panic.

If no entry is absent and no name is empty or begins with a glyph that branches are drawn with, then
trees with the same outline have functions at the same addresses, with the same text about each. -/
theorem outline_determines_tree {t : CallTree} (hlines : ∀ h ∈ t.heads, h.IsOneLine) :
    (t.places.map (·.head) = t.heads ∧ t.places.Pairwise fun p q => p.address < q.address) ∧
    (∃ lines : List Text, t.outline = Text.unlines lines ∧ (∀ l ∈ lines, Glyph.char '\n' ∉ l) ∧
      lines.length = t.size ∧
      ∀ (i : Nat) (l : Text), lines[i]? = some l →
        ∃ p, t.places[i]? = some p ∧ t.Reaches p.way p.member ∧ IsLineOf p l) ∧
    ((t.IsFull → t.writtenBy CallTree.outline = .ok t.outline) ∧
      (¬ t.IsFull → t ≠ .absent → t.writtenBy CallTree.outline = .error .absent)) ∧
    ∀ u : CallTree, t.IsFull → u.IsFull → (∀ h ∈ u.heads, h.IsOneLine) →
      (∀ h ∈ t.heads, h.IsPlain) → (∀ h ∈ u.heads, h.IsPlain) → t.outline = u.outline →
        t.places.map (·.address) = u.places.map (·.address) ∧
          t.places.map (fun p => line p.head p.member.callers.isEmpty) =
            u.places.map fun p => line p.head p.member.callers.isEmpty := by
  refine ⟨⟨map_head_places t, pairwise_address_places t⟩, ⟨t.places.map drawn,
    outline_eq_unlines t, ?_, by rw [List.length_map, length_places], fun i l hl => ?_⟩,
    writtenBy_of_isFull _, ?_⟩
  · exact List.forall_mem_map.mpr fun p hp => feed_notMem_drawn (hlines _ (head_mem_heads hp))
  · rw [List.getElem?_map, Option.map_eq_some_iff] at hl
    obtain ⟨p, hp, rfl⟩ := hl
    exact ⟨p, hp, mem_places_iff.mp (List.mem_of_getElem? hp), isLineOf_drawn p⟩
  · intro u htfull hufull hulines htplain huplain h
    obtain ⟨hdepths, htexts⟩ := map_eq_of_outline_eq
      (fun h hh => ⟨hlines h hh, htplain h hh⟩) (fun h hh => ⟨hulines h hh, huplain h hh⟩) h
    exact ⟨address_eq_of_lengths htfull hufull hdepths, htexts⟩

/-- A call of `callee` in the function `name`. -/
def calling (callee name : Text) (depth : Int) : Head where
  name := name
  depth := depth
  site := some { file := "a.c", line := 3, code := callee ++ "();" }

/-- A function `f` with two callers, the first of which has a caller `h` of its own. -/
def twoBranches : CallTree :=
  .node { name := "f", depth := 0 } [
    .node (calling "f" "g" 1) [.node (calling "g" "h" 2) []], .node (calling "f" "k" 1) []]

/-- The same functions, where `k` calls `g`. -/
def oneBranch : CallTree :=
  .node { name := "f", depth := 0 } [
    .node (calling "f" "g" 1) [.node (calling "g" "h" 2) [], .node (calling "g" "k" 2) []]]

/-- In front of `h` stands the branch that goes on to `k`, and the outline shows whom `k` calls. -/
theorem outlines_of_branches_differ :
    (∃ lines l, twoBranches.outline = Text.unlines lines ∧ lines.length = 4 ∧
      lines[2]? = some l ∧ group l 0 = "│   " ∧ group l 1 = "└── ") ∧
    twoBranches.outline ≠ oneBranch.outline := by
  obtain ⟨-, ⟨lines, htext, -, hlength, hline⟩, -, hsame⟩ :=
    outline_determines_tree (t := twoBranches) (by decide +kernel)
  have hsize : twoBranches.size = 4 := by decide +kernel
  constructor
  · obtain ⟨p, hp, -, hl⟩ := hline 2 lines[2] (List.getElem?_eq_getElem _)
    have hway : (twoBranches.places.map (·.way))[2]? = some [⟨0, 2⟩, ⟨0, 1⟩] := by decide +kernel
    rw [List.getElem?_map, hp, Option.map_some, Option.some.injEq] at hway
    have hfirst := hl.group 0 ⟨0, 2⟩ (by rw [hway]; rfl)
    have hsecond := hl.group 1 ⟨0, 1⟩ (by rw [hway]; rfl)
    rw [hway] at hfirst hsecond
    exact ⟨lines, _, htext, hlength.trans hsize, List.getElem?_eq_getElem _, hfirst, hsecond⟩
  · intro h
    have hfull : twoBranches.IsFull ∧ oneBranch.IsFull := by
      simp [twoBranches, oneBranch, isFull_node_iff]
    obtain ⟨haddress, -⟩ := hsame oneBranch hfull.1 hfull.2 (by decide +kernel) (by decide +kernel)
      (by decide +kernel) h
    exact absurd haddress (by decide +kernel)

end Outline

end CallerTree
