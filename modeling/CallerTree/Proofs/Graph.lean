import CallerTree.Export.Mermaid
import CallerTree.Proofs.OutlineLines
import CallerTree.Proofs.Path

/-!
# The graph is the tree

A graph has one statement on each line: a node with its number, its border and its label, or an edge
between two numbers. The numbers are handed out on the way down the tree, the line of a function is
written before those of its callers, and the edge of a caller after all lines of its own callers. So
nodes come in pre-order and edges in post-order, and those of different subtrees are interleaved.

## Four facts about the statements

`Mermaid.items` are the statements as data, from a first number on. Each of the following is proved
by one induction over the tree, for any first number:

* the nodes are the functions in pre-order, numbered one by one (`filter_isNode_items`);
* each number but the first is the caller of exactly one edge (`callers_items`);
* an edge leads from a function to the one it calls (`isArrow_of_mem_items`);
* the ends of an edge have been declared before it (`inOrder_items`).

## Reading back

A label holds no double quote, because quotes are written by name. So a label ends at the next
quote, and a line is read from left to right without a look ahead: a number is followed by a blank
in an edge, and by a bracket or brace in a node.

## Main definitions

* `Mermaid.Item`, `Mermaid.read?` — a statement, and the reader of graphs
* `Mermaid.items` — the statements of a tree
* `Mermaid.Depicts` — what it means that statements are a tree

## Main results

* `Mermaid.emit_eq` — what is emitted is the text of the statements
* `Mermaid.readItem?_line` — a statement is read back from its line
* `Mermaid.graph_is_the_tree`
-/

namespace CallerTree

namespace Mermaid

open CallTree

/-! ### Statements -/

inductive Border where
  | stadium
  | hexagon
  | subroutine
  | box
  deriving DecidableEq, Repr

namespace Border

def opening : Border → Text
  | stadium => "(["
  | hexagon => "\x7b\x7b"
  | subroutine => "[["
  | box => "["

def closing : Border → Text
  | stadium => "])"
  | hexagon => "\x7d\x7d"
  | subroutine => "]]"
  | box => "]"

/-- A label within its border. -/
def around (border : Border) (label : Text) : Text :=
  border.opening ++ "\"" ++ label ++ "\"" ++ border.closing

end Border

/-- A statement of a graph. -/
inductive Item where
  | node (id : Nat) (border : Border) (label : Text)
  | edge (caller callee : Nat) (label : Option Text)
  deriving DecidableEq, Repr

namespace Item

def isNode : Item → Bool
  | node .. => true
  | edge .. => false

/-- The number that a node declares. -/
def declares? : Item → Option Nat
  | node id _ _ => some id
  | edge .. => none

/-- Where an edge starts. -/
def caller? : Item → Option Nat
  | node .. => none
  | edge caller _ _ => some caller

def label? : Item → Option Text
  | node _ _ label => some label
  | edge _ _ label => label

/-- What stands between the arrow of an edge and the number it points to. -/
def onArrow : Option Text → Text
  | some label => "|" ++ ("\"" ++ label ++ "\"" ++ "| ")
  | none => " "

/-- The line of a statement. -/
def line : Item → Text
  | node id border label => "  " ++ (nodeId id ++ border.around label)
  | edge caller callee label =>
    "  " ++ (nodeId caller ++ (" -->" ++ (onArrow label ++ nodeId callee)))

end Item

/-! ### The reader -/

def isDigit (g : Glyph) : Bool := (Text.digit? g).isSome

/-- The number of a node, and what follows it. -/
def readId? (t : Text) : Option (Nat × Text) := do
  let t ← t.strip? "N"
  return (← Text.readNat? (t.takeWhile isDigit), t.dropWhile isDigit)

/-- A quoted label, and what follows it. -/
def readLabel? (t : Text) : Option (Text × Text) := do
  (← t.strip? "\"").cut? '"'

/-- The number of a node up to the end of the line. -/
def readEnd? (t : Text) : Option Nat := do
  let (id, t) ← readId? t
  if t = [] then some id else none

/-- A label within the given border. -/
def readWithin? (id : Nat) (t : Text) (border : Border) : Option Item := do
  let (label, t) ← readLabel? (← t.strip? border.opening)
  if t = border.closing then some (.node id border label) else none

/-- A label within some border. -/
def readNode? (id : Nat) (t : Text) : Option Item :=
  [.stadium, .hexagon, .subroutine, .box].findSome? (readWithin? id t)

/-- What follows the arrow of an edge, with or without a label. -/
def readEdge? (caller : Nat) (t : Text) : Option Item :=
  match t.strip? "|" with
  | some t => do
    let (label, t) ← readLabel? t
    return .edge caller (← readEnd? (← t.strip? "| ")) (some label)
  | none => do
    return .edge caller (← readEnd? (← t.strip? " ")) none

def readItem? (t : Text) : Option Item := do
  let (id, t) ← readId? (← t.strip? "  ")
  match t.strip? " -->" with
  | some t => readEdge? id t
  | none => readNode? id t

/-- The statements of a graph whose arrows point upwards. -/
def read? (t : Text) : Option (List Item) :=
  match t.lines with
  | [] => none
  | first :: rest => if first = "graph BT" then rest.mapM readItem? else none

/-! ### Reading back -/

theorem isDigit_of_mem_ofNat (n : Nat) : ∀ g ∈ Text.ofNat n, isDigit g = true := by
  intro g hg
  obtain ⟨c, rfl, hc⟩ := Text.exists_char_of_mem_ofNat hg
  rw [isDigit, Text.digit?_char hc, Option.isSome_some]

/-- A number is read up to the first glyph that is no digit. -/
theorem readId?_nodeId (n : Nat) {rest : Text} (h : ∀ g ∈ rest.head?, isDigit g = false) :
    readId? (nodeId n ++ rest) = some (n, rest) := by
  have hstrip : Text.strip? (nodeId n ++ rest) "N" = some (Text.ofNat n ++ rest) :=
    Text.strip?_eq_some_iff.mpr (List.append_assoc _ _ _)
  have htake : rest.takeWhile isDigit = [] ∧ rest.dropWhile isDigit = rest := by
    cases rest with
    | nil => exact ⟨rfl, rfl⟩
    | cons g rest =>
      have hg := h g rfl
      rw [List.takeWhile_cons_of_neg (by simp [hg]), List.dropWhile_cons_of_neg (by simp [hg])]
      exact ⟨rfl, rfl⟩
  rw [readId?, hstrip, Option.bind_eq_bind, Option.bind_some,
    List.takeWhile_append_of_pos (isDigit_of_mem_ofNat n),
    List.dropWhile_append_of_pos (isDigit_of_mem_ofNat n), htake.1, htake.2, List.append_nil,
    Text.readNat?_ofNat]
  rfl

theorem readEnd?_nodeId (n : Nat) : readEnd? (nodeId n) = some n := by
  have hread := @readId?_nodeId n [] (by simp)
  rw [List.append_nil] at hread
  rw [readEnd?, hread]
  rfl

theorem readLabel?_quoted {label : Text} (h : Glyph.char '"' ∉ label) (rest : Text) :
    readLabel? ("\"" ++ label ++ "\"" ++ rest) = some (label, rest) := by
  have hstrip : Text.strip? (Text.ofString "\"" ++ label ++ Text.ofString "\"" ++ rest) "\"" =
      some (label ++ .char '"' :: rest) :=
    Text.strip?_eq_some_iff.mpr (by rw [List.append_assoc, List.append_assoc]; rfl)
  rw [readLabel?, hstrip, Option.bind_eq_bind, Option.bind_some, Text.cut?_append_cons h]

theorem readWithin?_around {label : Text} (h : Glyph.char '"' ∉ label) (id : Nat)
    (border : Border) :
    readWithin? id (border.around label) border = some (.node id border label) := by
  have hstrip : (border.around label).strip? border.opening =
      some (Text.ofString "\"" ++ label ++ Text.ofString "\"" ++ border.closing) :=
    Text.strip?_eq_some_iff.mpr (by simp only [Border.around, List.append_assoc])
  rw [readWithin?, hstrip, Option.bind_eq_bind, Option.bind_some, readLabel?_quoted h]
  exact if_pos rfl

theorem readWithin?_of_strip? {id : Nat} {t : Text} {border : Border}
    (h : t.strip? border.opening = none) : readWithin? id t border = none := by
  rw [readWithin?, h]
  rfl

/-- No opening is taken for another one, though one begins another. -/
theorem readNode?_around {label : Text} (h : Glyph.char '"' ∉ label) (id : Nat)
    (border : Border) :
    readNode? id (border.around label) = some (.node id border label) := by
  have hself := readWithin?_around h id border
  unfold readNode?
  cases border with
  | stadium => rw [List.findSome?_cons, hself]
  | hexagon =>
    rw [List.findSome?_cons, readWithin?_of_strip? rfl, List.findSome?_cons, hself]
  | subroutine =>
    rw [List.findSome?_cons, readWithin?_of_strip? rfl, List.findSome?_cons,
      readWithin?_of_strip? rfl, List.findSome?_cons, hself]
  | box =>
    rw [List.findSome?_cons, readWithin?_of_strip? rfl, List.findSome?_cons,
      readWithin?_of_strip? rfl, List.findSome?_cons, readWithin?_of_strip? rfl,
      List.findSome?_cons, hself]

/-- A quote would end the label early, which `h` excludes; escaped names have none. -/
theorem readEdge?_onArrow {label : Option Text} (h : ∀ l ∈ label, Glyph.char '"' ∉ l)
    (caller callee : Nat) :
    readEdge? caller (Item.onArrow label ++ nodeId callee) = some (.edge caller callee label) := by
  cases label with
  | none =>
    have hbar : Text.strip? (Item.onArrow none ++ nodeId callee) "|" = none := rfl
    have hstrip : Text.strip? (Item.onArrow none ++ nodeId callee) " " = some (nodeId callee) :=
      Text.strip?_eq_some_iff.mpr rfl
    rw [readEdge?, hbar]
    dsimp only
    rw [hstrip, Option.bind_eq_bind, Option.bind_some, readEnd?_nodeId]
    rfl
  | some l =>
    have hbar : Text.strip? (Item.onArrow (some l) ++ nodeId callee) "|" =
        some (Text.ofString "\"" ++ l ++ Text.ofString "\"" ++
          (Text.ofString "| " ++ nodeId callee)) :=
      Text.strip?_eq_some_iff.mpr (by simp only [Item.onArrow, List.append_assoc])
    have hstrip : Text.strip? (Text.ofString "| " ++ nodeId callee) "| " = some (nodeId callee) :=
      Text.strip?_eq_some_iff.mpr rfl
    rw [readEdge?, hbar]
    dsimp only
    rw [readLabel?_quoted (h l rfl), Option.bind_eq_bind, Option.bind_some]
    dsimp only
    rw [hstrip, Option.bind_eq_bind, Option.bind_some, readEnd?_nodeId]
    rfl

/-- **A statement is read back from its line**, if its label holds no double quote. -/
theorem readItem?_line {item : Item} (h : ∀ l ∈ item.label?, Glyph.char '"' ∉ l) :
    readItem? item.line = some item := by
  have hstrip : ∀ t, Text.strip? (Text.ofString "  " ++ t) "  " = some t :=
    fun t => Text.strip?_eq_some_iff.mpr rfl
  cases item with
  | node id border label =>
    have hdigit : ∀ g ∈ (border.around label).head?, isDigit g = false := by
      cases border <;> rintro g ⟨⟩ <;> decide
    have harrow : (border.around label).strip? " -->" = none := by cases border <;> rfl
    rw [readItem?, Item.line, hstrip, Option.bind_eq_bind, Option.bind_some,
      readId?_nodeId id hdigit, Option.bind_eq_bind, Option.bind_some]
    dsimp only
    rw [harrow]
    exact readNode?_around (h label rfl) id border
  | edge caller callee label =>
    have hdigit : ∀ g ∈ (Text.ofString " -->" ++ (Item.onArrow label ++ nodeId callee)).head?,
        isDigit g = false := by
      rintro g ⟨⟩
      decide
    have harrow : Text.strip? (Text.ofString " -->" ++ (Item.onArrow label ++ nodeId callee))
        " -->" = some (Item.onArrow label ++ nodeId callee) := Text.strip?_eq_some_iff.mpr rfl
    rw [readItem?, Item.line, hstrip, Option.bind_eq_bind, Option.bind_some,
      readId?_nodeId caller hdigit, Option.bind_eq_bind, Option.bind_some]
    dsimp only
    rw [harrow]
    exact readEdge?_onArrow h caller callee

/-! ### The statements of a tree -/

/-- The border of a function in a tree. -/
def borderOf (m : Member) : Border :=
  if m.head.depth = 0 then .stadium
  else if m.head.isRecursive then .hexagon
  else if m.head.atDepthLimit ∧ m.callers.isEmpty then .subroutine
  else .box

/-- What stands behind the name within a border. -/
def Border.mark : Border → Text
  | stadium => []
  | hexagon => " ↺"
  | subroutine => " …"
  | box => []

def nodeItem (n : Nat) (m : Member) : Item :=
  .node n (borderOf m) (escape m.name ++ (borderOf m).mark)

/-- The label of the edge from a function to the one it calls: its call site, if there is one. -/
def edgeLabel (head : Head) : Option Text := head.site.map fun site => escape (siteLabel site)

/-- The edge from the root of a tree with the number `caller`. -/
def edgeItems (callee caller : Nat) : CallTree → List Item
  | .absent => []
  | .node head _ => [.edge caller callee (edgeLabel head)]

mutual

/-- The statements of a tree whose root gets the number `n`. -/
def items (n : Nat) : CallTree → List Item
  | .absent => []
  | .node head callers => nodeItem n ⟨head, callers⟩ :: itemsBelow n (n + 1) callers

/-- The statements of callers of `callee`, the first of which gets the number `n`. -/
def itemsBelow (callee n : Nat) : List CallTree → List Item
  | [] => []
  | c :: rest => items n c ++ edgeItems callee n c ++ itemsBelow callee (n + c.size) rest

end

theorem shape_eq_around (head : Head) (callers : List CallTree) :
    shape head callers.isEmpty =
      (borderOf ⟨head, callers⟩).around (escape head.name ++ (borderOf ⟨head, callers⟩).mark) := by
  unfold shape borderOf
  dsimp only
  split
  · simp only [Border.around, Border.mark, List.append_assoc, List.nil_append]
    rfl
  · split
    · simp only [Border.around, Border.mark, List.append_assoc]
      rfl
    · split
      · simp only [Border.around, Border.mark, List.append_assoc]
        rfl
      · simp only [Border.around, Border.mark, List.append_assoc, List.nil_append]
        rfl

theorem edge_eq_line (head : Head) (caller callee : Nat) :
    edge head caller callee = (Item.edge caller callee (edgeLabel head)).line ++ "\n" := by
  unfold edge edgeLabel
  cases head.site with
  | none =>
    simp only [Item.line, Item.onArrow, Option.map_none, List.append_assoc]
    rfl
  | some site =>
    simp only [Item.line, Item.onArrow, Option.map_some, List.append_assoc]
    rfl

theorem size_node (head : Head) (callers : List CallTree) :
    (CallTree.node head callers).size = (callers.flatMap heads).length + 1 := by
  rw [size, heads_node, List.length_cons]

theorem emit_node (n : Nat) (head : Head) (callers : List CallTree) :
    emit n (.node head callers) =
      ((nodeItem n ⟨head, callers⟩).line ++ .char '\n' :: (emitAll n (n + 1) callers).1,
        (emitAll n (n + 1) callers).2) := by
  rw [emit, shape_eq_around]
  simp only [nodeItem, Item.line, List.append_assoc]
  rfl

theorem emitAll_cons (callee n : Nat) (c : CallTree) (rest : List CallTree) :
    emitAll callee n (c :: rest) =
      ((emit n c).1 ++ Text.unlines ((edgeItems callee n c).map Item.line) ++
          (emitAll callee (emit n c).2 rest).1,
        (emitAll callee (emit n c).2 rest).2) := by
  cases c with
  | absent =>
    rw [emitAll]
    rfl
  | node head callers =>
    rw [emitAll, edge_eq_line, edgeItems, List.map_singleton, Text.unlines_cons, Text.unlines_nil]
    rfl

theorem emitAll_eq {cs : List CallTree}
    (ih : ∀ c ∈ cs, ∀ n, emit n c = (Text.unlines ((items n c).map Item.line), n + c.size))
    (callee n : Nat) :
    emitAll callee n cs =
      (Text.unlines ((itemsBelow callee n cs).map Item.line), n + (cs.flatMap heads).length) := by
  induction cs generalizing n with
  | nil =>
    rw [emitAll, itemsBelow]
    rfl
  | cons c rest ihrest =>
    obtain ⟨hc, hrest⟩ := List.forall_mem_cons.mp ih
    rw [emitAll_cons, hc, ihrest hrest, itemsBelow, List.map_append, List.map_append,
      Text.unlines_append, Text.unlines_append, List.flatMap_cons, List.length_append,
      Nat.add_assoc]
    rfl

/-- **What is emitted is the text of the statements.** -/
theorem emit_eq (n : Nat) (t : CallTree) :
    emit n t = (Text.unlines ((items n t).map Item.line), n + t.size) := by
  induction t using induct generalizing n with
  | absent =>
    rw [emit, items, size_absent]
    rfl
  | node head callers ih =>
    rw [emit_node, emitAll_eq ih, items, List.map_cons, Text.unlines_cons, size_node,
      Nat.add_right_comm, Nat.add_assoc]

/-! ### Nodes -/

/-- The numbered functions below a function: those of its first caller, and those of the rest. -/
theorem zipIdx_placesBelow_cons (index total n : Nat) (c : CallTree) (rest : List CallTree) :
    (placesBelow index total (c :: rest)).zipIdx n =
      (c.places.zipIdx n).map (Prod.map (·.under ⟨index, total⟩) id) ++
        (placesBelow (index + 1) total rest).zipIdx (n + c.size) := by
  rw [placesBelow_cons, List.zipIdx_append, List.zipIdx_map, List.length_map, length_places]

theorem filter_isNode_edgeItems (callee caller : Nat) (c : CallTree) :
    (edgeItems callee caller c).filter Item.isNode = [] := by
  cases c <;> rfl

theorem filter_isNode_itemsBelow {cs : List CallTree}
    (ih : ∀ c ∈ cs, ∀ n, (items n c).filter Item.isNode =
      (c.places.zipIdx n).map fun x => nodeItem x.2 x.1.member)
    (callee n index total : Nat) :
    (itemsBelow callee n cs).filter Item.isNode =
      ((placesBelow index total cs).zipIdx n).map fun x => nodeItem x.2 x.1.member := by
  induction cs generalizing n index with
  | nil =>
    rw [itemsBelow, placesBelow_nil]
    rfl
  | cons c rest ihrest =>
    obtain ⟨hc, hrest⟩ := List.forall_mem_cons.mp ih
    rw [itemsBelow, List.filter_append, List.filter_append, filter_isNode_edgeItems,
      List.append_nil, hc, ihrest hrest _ (index + 1), zipIdx_placesBelow_cons, List.map_append,
      List.map_map]
    rfl

/-- The nodes are the functions in pre-order, numbered one by one. -/
theorem filter_isNode_items (n : Nat) (t : CallTree) :
    (items n t).filter Item.isNode = (t.places.zipIdx n).map fun x => nodeItem x.2 x.1.member := by
  induction t using induct generalizing n with
  | absent =>
    rw [items, places_absent]
    rfl
  | node head callers ih =>
    rw [items, List.filter_cons_of_pos (by rfl),
      filter_isNode_itemsBelow ih n (n + 1) 0 callers.length, places_node, List.zipIdx_cons,
      List.map_cons]

/-! ### Where edges start -/

theorem callers_append_edgeItems {n : Nat} {c : CallTree}
    (h : ((items n c).filterMap Item.caller?).Perm (List.range' (n + 1) (c.size - 1)))
    (callee : Nat) :
    ((items n c ++ edgeItems callee n c).filterMap Item.caller?).Perm (List.range' n c.size) := by
  cases c with
  | absent =>
    rw [items, size_absent]
    exact .refl _
  | node head callers =>
    rw [size_node, Nat.add_sub_cancel] at h
    rw [size_node, List.filterMap_append, List.range'_succ]
    exact (h.append_right [n]).trans (List.perm_append_singleton n _)

/-- Each function below is the caller of exactly one edge, so numbers are used up without a gap. -/
theorem callers_itemsBelow {cs : List CallTree}
    (ih : ∀ c ∈ cs, ∀ n,
      ((items n c).filterMap Item.caller?).Perm (List.range' (n + 1) (c.size - 1)))
    (callee n : Nat) :
    ((itemsBelow callee n cs).filterMap Item.caller?).Perm
      (List.range' n (cs.flatMap heads).length) := by
  induction cs generalizing n with
  | nil =>
    rw [itemsBelow]
    exact .refl _
  | cons c rest ihrest =>
    obtain ⟨hc, hrest⟩ := List.forall_mem_cons.mp ih
    rw [itemsBelow, List.filterMap_append, List.flatMap_cons, List.length_append,
      ← List.range'_append_1]
    exact (callers_append_edgeItems (hc n) callee).append (ihrest hrest _)

/-- Each number but the first is the caller of exactly one edge. -/
theorem callers_items (n : Nat) (t : CallTree) :
    ((items n t).filterMap Item.caller?).Perm (List.range' (n + 1) (t.size - 1)) := by
  induction t using induct generalizing n with
  | absent =>
    rw [items, size_absent]
    exact .refl _
  | node head callers ih =>
    rw [items, size_node, Nat.add_sub_cancel]
    exact callers_itemsBelow ih n (n + 1)

/-! ### Where edges lead -/

/-- Among numbered functions, the one with the number `i` calls the one with the number `j`, and the
label is that of the call. -/
def IsArrow (numbered : List (Place × Nat)) (i j : Nat) (label : Option Text) : Prop :=
  ∃ p q turn, (p, i) ∈ numbered ∧ (q, j) ∈ numbered ∧ p.way = q.way ++ [turn] ∧
    label = edgeLabel p.head

theorem IsArrow.mono {numbered numbered' : List (Place × Nat)} {i j : Nat} {label : Option Text}
    (h : IsArrow numbered i j label) (hsub : numbered ⊆ numbered') :
    IsArrow numbered' i j label := by
  obtain ⟨p, q, turn, hp, hq, hway, hlabel⟩ := h
  exact ⟨p, q, turn, hsub hp, hsub hq, hway, hlabel⟩

theorem IsArrow.under {numbered : List (Place × Nat)} {i j : Nat} {label : Option Text}
    (h : IsArrow numbered i j label) (turn : Turn) :
    IsArrow (numbered.map (Prod.map (·.under turn) id)) i j label := by
  obtain ⟨p, q, last, hp, hq, hway, hlabel⟩ := h
  exact ⟨p.under turn, q.under turn, last, List.mem_map_of_mem hp, List.mem_map_of_mem hq,
    congrArg (turn :: ·) hway, hlabel⟩

theorem isArrow_of_mem_itemsBelow {cs : List CallTree}
    (ih : ∀ c ∈ cs, ∀ n i j label, .edge i j label ∈ items n c →
      IsArrow (c.places.zipIdx n) i j label)
    {callee n : Nat} {i j : Nat} {label : Option Text}
    (h : .edge i j label ∈ itemsBelow callee n cs) (m : Member) (index total : Nat) :
    IsArrow ((⟨[], m⟩, callee) :: (placesBelow index total cs).zipIdx n) i j label := by
  induction cs generalizing n index with
  | nil =>
    rw [itemsBelow] at h
    exact absurd h List.not_mem_nil
  | cons c rest ihrest =>
    obtain ⟨hc, hrest⟩ := List.forall_mem_cons.mp ih
    rw [itemsBelow, List.mem_append, List.mem_append] at h
    rw [zipIdx_placesBelow_cons]
    obtain (hitem | hedge) | hlater := h
    · exact ((hc n i j label hitem).under ⟨index, total⟩).mono
        (List.subset_cons_of_subset _ (List.subset_append_left _ _))
    · cases c with
      | absent => exact absurd hedge List.not_mem_nil
      | node head callers =>
        obtain ⟨rfl, rfl, rfl⟩ := Item.edge.inj (List.mem_singleton.mp hedge)
        refine ⟨⟨[⟨index, total⟩], ⟨head, callers⟩⟩, ⟨[], m⟩, ⟨index, total⟩, ?_,
          List.mem_cons_self, rfl, rfl⟩
        rw [places_node, List.zipIdx_cons, List.map_cons]
        exact List.mem_cons_of_mem _ (List.mem_append_left _ List.mem_cons_self)
    · exact (ihrest hrest hlater (index + 1)).mono
        (List.cons_subset_cons _ (List.subset_append_right _ _))

/-- An edge leads from a function to the one it calls. -/
theorem isArrow_of_mem_items {n : Nat} {t : CallTree} {i j : Nat} {label : Option Text}
    (h : .edge i j label ∈ items n t) : IsArrow (t.places.zipIdx n) i j label := by
  induction t using induct generalizing n i j label with
  | absent =>
    rw [items] at h
    exact absurd h List.not_mem_nil
  | node head callers ih =>
    rw [items, List.mem_cons] at h
    rw [places_node, List.zipIdx_cons]
    exact isArrow_of_mem_itemsBelow (fun c hc n i j label => ih c hc)
      (h.resolve_left nofun) _ _ _

/-! ### Declarations come first -/

/-- The numbers that are declared. -/
def declared (is : List Item) : List Nat := is.filterMap Item.declares?

/-- The ends of each edge are known, or declared before it. -/
def InOrder (known : List Nat) (is : List Item) : Prop :=
  ∀ before i j label after, is = before ++ .edge i j label :: after →
    i ∈ known ++ declared before ∧ j ∈ known ++ declared before

/-- What the first part declares is known to the second. -/
theorem InOrder.append {known : List Nat} {is is' : List Item} (h : InOrder known is)
    (h' : InOrder (known ++ declared is) is') : InOrder known (is ++ is') := by
  have hlater : ∀ before i j label after, is' = before ++ .edge i j label :: after →
      i ∈ known ++ declared (is ++ before) ∧ j ∈ known ++ declared (is ++ before) := by
    intro before i j label after hsplit
    have hends := h' before i j label after hsplit
    rwa [List.append_assoc, declared, declared, ← List.filterMap_append] at hends
  intro before i j label after hsplit
  obtain ⟨more, rfl, hmore⟩ | ⟨more, hmore, hrest⟩ := List.append_eq_append_iff.mp hsplit
  · exact hlater more i j label after hmore
  · cases more with
    | nil =>
      rw [List.append_nil] at hmore
      subst hmore
      have hends := hlater [] i j label after hrest.symm
      rwa [List.append_nil] at hends
    | cons item more =>
      obtain ⟨rfl, -⟩ := List.cons.inj hrest
      exact h before i j label more hmore

theorem InOrder.of_mem {known : List Nat} {is : List Item}
    (h : ∀ i j label, .edge i j label ∈ is → i ∈ known ∧ j ∈ known) : InOrder known is := by
  rintro before i j label after rfl
  obtain ⟨hi, hj⟩ := h i j label (List.mem_append_right _ List.mem_cons_self)
  exact ⟨List.mem_append_left _ hi, List.mem_append_left _ hj⟩

theorem inOrder_edgeItems {known : List Nat} {callee n : Nat} (hcallee : callee ∈ known)
    (c : CallTree) : InOrder (known ++ declared (items n c)) (edgeItems callee n c) := by
  refine .of_mem fun i j label h => ?_
  cases c with
  | absent => exact absurd h List.not_mem_nil
  | node head callers =>
    obtain ⟨rfl, rfl, -⟩ := Item.edge.inj (List.mem_singleton.mp h)
    rw [items]
    exact ⟨List.mem_append_right _ List.mem_cons_self, List.mem_append_left _ hcallee⟩

theorem inOrder_itemsBelow {cs : List CallTree}
    (ih : ∀ c ∈ cs, ∀ known n, InOrder known (items n c)) {known : List Nat} {callee : Nat}
    (hcallee : callee ∈ known) (n : Nat) : InOrder known (itemsBelow callee n cs) := by
  induction cs generalizing known n with
  | nil =>
    rw [itemsBelow]
    exact .of_mem fun i j label h => absurd h List.not_mem_nil
  | cons c rest ihrest =>
    obtain ⟨hc, hrest⟩ := List.forall_mem_cons.mp ih
    rw [itemsBelow]
    exact ((hc known n).append (inOrder_edgeItems hcallee c)).append
      (ihrest hrest (List.mem_append_left _ hcallee) _)

/-- The ends of an edge have been declared before it. -/
theorem inOrder_items (known : List Nat) (n : Nat) (t : CallTree) : InOrder known (items n t) := by
  induction t using induct generalizing known n with
  | absent =>
    rw [items]
    exact .of_mem fun i j label h => absurd h List.not_mem_nil
  | node head callers ih =>
    rw [items, ← List.singleton_append]
    refine .append (.of_mem fun i j label h => ?_) (inOrder_itemsBelow ih ?_ _)
    · exact absurd (List.mem_singleton.mp h) nofun
    · exact List.mem_append_right _ List.mem_cons_self

/-! ### Labels -/

/-- A statement is the node of a function, or the edge of one. -/
theorem exists_place_of_mem_items {n : Nat} {t : CallTree} {item : Item} (h : item ∈ items n t) :
    ∃ p ∈ t.places, (∃ k, item = nodeItem k p.member) ∨
      ∃ i j, item = .edge i j (edgeLabel p.head) := by
  cases item with
  | node id border label =>
    have hnode := List.mem_filter.mpr ⟨h, (rfl : Item.isNode (.node id border label) = true)⟩
    rw [filter_isNode_items, List.mem_map] at hnode
    obtain ⟨⟨p, k⟩, hp, heq⟩ := hnode
    exact ⟨p, List.fst_mem_of_mem_zipIdx hp, .inl ⟨k, heq.symm⟩⟩
  | edge i j label =>
    obtain ⟨p, q, turn, hp, -, -, rfl⟩ := isArrow_of_mem_items h
    exact ⟨p, List.fst_mem_of_mem_zipIdx hp, .inr ⟨i, j, rfl⟩⟩

/-- Holds none of the glyphs that are written by their names. -/
structure IsEscaped (t : Text) : Prop where
  quote : Glyph.char '"' ∉ t
  less : Glyph.char '<' ∉ t
  greater : Glyph.char '>' ∉ t

theorem mem_of_mem_escape {t : Text} {g : Glyph}
    (hg : g ∉ Text.ofString "#quot;" ++ Text.ofString "#lt;" ++ Text.ofString "#gt;")
    (h : g ∈ escape t) : g ∈ t ∧ g ≠ .char '"' ∧ g ≠ .char '<' ∧ g ≠ .char '>' := by
  simp only [List.mem_append, not_or] at hg
  obtain ⟨⟨hquot, hlt⟩, hgt⟩ := hg
  rw [escape, Text.mem_substitute_iff, Text.mem_substitute_iff, Text.mem_substitute_iff] at h
  grind

theorem isEscaped_escape (t : Text) : IsEscaped (escape t) where
  quote h := (mem_of_mem_escape (by decide) h).2.1 rfl
  less h := (mem_of_mem_escape (by decide) h).2.2.1 rfl
  greater h := (mem_of_mem_escape (by decide) h).2.2.2 rfl

theorem IsEscaped.append {t u : Text} (ht : IsEscaped t) (hu : IsEscaped u) :
    IsEscaped (t ++ u) where
  quote h := (List.mem_append.mp h).elim ht.quote hu.quote
  less h := (List.mem_append.mp h).elim ht.less hu.less
  greater h := (List.mem_append.mp h).elim ht.greater hu.greater

theorem isEscaped_mark (border : Border) : IsEscaped border.mark := by
  cases border <;> exact ⟨by decide, by decide, by decide⟩

theorem isEscaped_of_mem_items {n : Nat} {t : CallTree} {item : Item} (h : item ∈ items n t) :
    ∀ l ∈ item.label?, IsEscaped l := by
  intro l hl
  obtain ⟨p, -, ⟨k, rfl⟩ | ⟨i, j, rfl⟩⟩ := exists_place_of_mem_items h
  · obtain rfl := Option.some.inj hl
    exact (isEscaped_escape _).append (isEscaped_mark _)
  · obtain ⟨site, -, rfl⟩ := Option.map_eq_some_iff.mp hl
    exact isEscaped_escape _

theorem feed_notMem_siteLabel {site : Occurrence} (h : Glyph.char '\n' ∉ site.file) :
    Glyph.char '\n' ∉ siteLabel site := by
  rw [siteLabel, List.mem_append, List.mem_append, not_or, not_or]
  exact ⟨⟨fun hmem => h (Path.mem_of_mem_short (by decide) hmem), by decide⟩,
    Text.not_mem_ofInt (by decide) (by decide) _⟩

theorem feed_notMem_label {n : Nat} {t : CallTree} (hlines : ∀ h ∈ t.heads, h.IsOneLine)
    {item : Item} (h : item ∈ items n t) : ∀ l ∈ item.label?, Glyph.char '\n' ∉ l := by
  intro l hl
  obtain ⟨p, hp, hitem⟩ := exists_place_of_mem_items h
  have hhead := hlines _ (head_mem_heads hp)
  obtain ⟨k, rfl⟩ | ⟨i, j, rfl⟩ := hitem
  · obtain rfl := Option.some.inj hl
    have hmark : ∀ border : Border, Glyph.char '\n' ∉ border.mark := by
      intro border
      cases border <;> decide
    rw [List.mem_append, not_or]
    exact ⟨fun hmem => hhead.name (mem_of_mem_escape (by decide) hmem).1, hmark _⟩
  · obtain ⟨site, hsite, rfl⟩ := Option.map_eq_some_iff.mp hl
    exact fun hmem => feed_notMem_siteLabel (hhead.file site hsite)
      (mem_of_mem_escape (by decide) hmem).1

theorem feed_notMem_itemLine {item : Item} (h : ∀ l ∈ item.label?, Glyph.char '\n' ∉ l) :
    Glyph.char '\n' ∉ item.line := by
  have hid : ∀ n, Glyph.char '\n' ∉ nodeId n := by
    intro n
    rw [nodeId, List.mem_append, not_or]
    exact ⟨by decide, Text.not_mem_ofNat (by decide) n⟩
  cases item with
  | node id border label =>
    have hborder : Glyph.char '\n' ∉ border.opening ∧ Glyph.char '\n' ∉ border.closing := by
      cases border <;> exact ⟨by decide, by decide⟩
    simp only [Item.line, Border.around, List.mem_append, not_or]
    exact ⟨by decide, hid id, ⟨⟨⟨hborder.1, by decide⟩, h label rfl⟩, by decide⟩, hborder.2⟩
  | edge caller callee label =>
    have harrow : Glyph.char '\n' ∉ Item.onArrow label := by
      cases label with
      | none => decide
      | some l =>
        simp only [Item.onArrow, List.mem_append, not_or]
        exact ⟨by decide, ⟨⟨by decide, h l rfl⟩, by decide⟩, by decide⟩
    simp only [Item.line, List.mem_append, not_or]
    exact ⟨by decide, hid caller, by decide, harrow, hid callee⟩

/-! ### Graphs -/

theorem mermaid_eq_unlines (t : CallTree) :
    t.mermaid = Text.unlines ("graph BT" :: (items 0 t).map Item.line) := by
  rw [CallTree.mermaid, emit_eq, Text.unlines_cons]
  rfl

/-- The graph is read line by line, so no name may break a line. -/
theorem read?_mermaid {t : CallTree} (hlines : ∀ h ∈ t.heads, h.IsOneLine) :
    read? t.mermaid = some (items 0 t) := by
  have hfeeds : ∀ l ∈ Text.ofString "graph BT" :: (items 0 t).map Item.line,
      Glyph.char '\n' ∉ l := by
    refine List.forall_mem_cons.mpr ⟨by decide, List.forall_mem_map.mpr fun item hitem => ?_⟩
    exact feed_notMem_itemLine (feed_notMem_label hlines hitem)
  have hitems : ((items 0 t).map Item.line).mapM readItem? = some (items 0 t) :=
    Text.mapM_map_eq_some_iff.mpr fun item hitem =>
      readItem?_line fun l hl => (isEscaped_of_mem_items hitem l hl).quote
  rw [mermaid_eq_unlines, read?, Text.lines_unlines hfeeds]
  exact (if_pos rfl).trans hitems

/-- The statements are a tree. -/
structure Depicts (t : CallTree) (is : List Item) : Prop where
  /-- The functions are declared in pre-order. -/
  nodes : is.filter Item.isNode = t.places.zipIdx.map fun x => nodeItem x.2 x.1.member
  /-- Each number is declared once. -/
  declared : declared is = List.range t.size
  /-- Each function but the root has one edge. -/
  callers : (is.filterMap Item.caller?).Perm (List.range' 1 (t.size - 1))
  /-- The edges lead from each function to the one it calls, with the call site if there is one. -/
  edge_iff : ∀ i j label, .edge i j label ∈ is ↔
    ∃ p q turn, t.places[i]? = some p ∧ t.places[j]? = some q ∧ p.way = q.way ++ [turn] ∧
      label = p.head.site.map fun site => escape (siteLabel site)
  /-- Both ends of an edge are declared before it. -/
  inOrder : InOrder [] is

theorem declared_items (t : CallTree) : declared (items 0 t) = List.range t.size := by
  have hnodes : declared (items 0 t) = declared ((items 0 t).filter Item.isNode) := by
    rw [declared, declared, List.filterMap_filter]
    congr 1
    funext item
    cases item <;> rfl
  have hnumbers : declared (t.places.zipIdx.map fun x => nodeItem x.2 x.1.member) =
      t.places.zipIdx.map Prod.snd := by
    rw [declared, List.filterMap_map]
    exact congrFun List.filterMap_eq_map _
  rw [hnodes, filter_isNode_items, hnumbers, List.zipIdx_map_snd, length_places,
    List.range_eq_range']

/-- A function other than the root has an edge. -/
theorem exists_edge_of_callers {t : CallTree} {is : List Item}
    (h : (is.filterMap Item.caller?).Perm (List.range' 1 (t.size - 1))) {i : Nat} {p : Place}
    (hp : t.places[i]? = some p) (hway : p.way ≠ []) : ∃ j label, .edge i j label ∈ is := by
  have hpos : i ≠ 0 := fun hi => hway ((way_eq_nil_iff hp).mpr hi)
  have hlt : i < t.size := length_places t ▸ (List.getElem?_eq_some_iff.mp hp).1
  have hmem : i ∈ is.filterMap Item.caller? :=
    h.mem_iff.mpr (List.mem_range'_1.mpr ⟨by omega, by omega⟩)
  obtain ⟨item, hitem, hcaller⟩ := List.mem_filterMap.mp hmem
  cases item with
  | node => exact absurd hcaller nofun
  | edge caller j label =>
    obtain rfl := Option.some.inj hcaller
    exact ⟨j, label, hitem⟩

/-- An edge goes from a function to the one it stands below, and there are no others. -/
theorem mem_edge_items_iff {t : CallTree} {i j : Nat} {label : Option Text} :
    .edge i j label ∈ items 0 t ↔
      ∃ p q turn, t.places[i]? = some p ∧ t.places[j]? = some q ∧ p.way = q.way ++ [turn] ∧
        label = edgeLabel p.head := by
  have hsound : ∀ {j label}, .edge i j label ∈ items 0 t →
      ∃ p q turn, t.places[i]? = some p ∧ t.places[j]? = some q ∧ p.way = q.way ++ [turn] ∧
        label = edgeLabel p.head := by
    intro j label h
    obtain ⟨p, q, turn, hp, hq, hway, hlabel⟩ := isArrow_of_mem_items h
    exact ⟨p, q, turn, List.mem_zipIdx_iff_getElem?.mp hp, List.mem_zipIdx_iff_getElem?.mp hq,
      hway, hlabel⟩
  refine ⟨hsound, ?_⟩
  -- Some edge starts at `i`; it leads to the function whose way is shorter by one turn, and there
  -- is only one such function.
  rintro ⟨p, q, turn, hp, hq, hway, rfl⟩
  obtain ⟨j', label, hedge⟩ := exists_edge_of_callers (callers_items 0 t) hp (by simp [hway])
  obtain ⟨p', q', turn', hp', hq', hway', rfl⟩ := hsound hedge
  obtain rfl : p = p' := Option.some.inj (hp.symm.trans hp')
  obtain ⟨hcallee, -⟩ := List.append_inj' (hway.symm.trans hway') rfl
  rwa [eq_of_getElem?_places hq hq' hcallee]

theorem depicts_items (t : CallTree) : Depicts t (items 0 t) where
  nodes := filter_isNode_items 0 t
  declared := declared_items t
  callers := callers_items 0 t
  edge_iff _ _ _ := mem_edge_items_iff
  inOrder := inOrder_items [] 0 t

/-- Statements that depict two trees have the functions of both on the same levels. -/
theorem Depicts.length_way_eq {s t : CallTree} {is : List Item} (hs : Depicts s is)
    (ht : Depicts t is) {i : Nat} {p q : Place} (hp : s.places[i]? = some p)
    (hq : t.places[i]? = some q) : p.way.length = q.way.length := by
  induction hn : p.way.length generalizing i p q with
  | zero =>
    have hp0 := (way_eq_nil_iff hp).mp (List.length_eq_zero_iff.mp hn)
    rw [(way_eq_nil_iff hq).mpr hp0, List.length_nil]
  | succ n ih =>
    obtain ⟨j, label, hedge⟩ := exists_edge_of_callers hs.callers hp
      (List.ne_nil_of_length_eq_add_one hn)
    obtain ⟨p', pc, turn, hp', hpc, hpway, -⟩ := (hs.edge_iff i j label).mp hedge
    obtain ⟨q', qc, turn', hq', hqc, hqway, -⟩ := (ht.edge_iff i j label).mp hedge
    obtain rfl : p = p' := Option.some.inj (hp.symm.trans hp')
    obtain rfl : q = q' := Option.some.inj (hq.symm.trans hq')
    rw [hpway, List.length_append, List.length_singleton, Nat.add_right_cancel_iff] at hn
    rw [hqway, List.length_append, List.length_singleton, ih hpc hqc hn]

theorem Depicts.map_length_eq {s t : CallTree} {is : List Item} (hs : Depicts s is)
    (ht : Depicts t is) : s.places.map (·.way.length) = t.places.map (·.way.length) := by
  have hsize : s.size = t.size := by
    rw [← List.length_range (n := s.size), ← hs.declared, ht.declared, List.length_range]
  refine List.ext_getElem (by simp [hsize]) fun i hi hi' => ?_
  rw [List.getElem_map, List.getElem_map]
  exact hs.length_way_eq ht (List.getElem?_eq_getElem _) (List.getElem?_eq_getElem _)

/-- **The graph is the tree.** If names and paths hold no line feeds, then a graph is read back line
by line, and its statements are the tree: a node for each function, in pre-order, and an edge from
each function but the root to the one it calls. No label holds a quote or an angle bracket. The
graph is what is written if no entry is absent; otherwise the request ends in a panic.

If no entry is absent, then trees with the same graph have functions at the same addresses. -/
theorem graph_is_the_tree {t : CallTree} (hlines : ∀ h ∈ t.heads, h.IsOneLine) :
    (t.places.map (·.head) = t.heads ∧ t.places.Pairwise fun p q => p.address < q.address) ∧
    (∃ is : List Item, t.mermaid = Text.unlines ("graph BT" :: is.map Item.line) ∧
      (∀ item ∈ is, Glyph.char '\n' ∉ item.line) ∧ read? t.mermaid = some is ∧ Depicts t is ∧
      ∀ item ∈ is, ∀ l ∈ item.label?, IsEscaped l) ∧
    ((t.IsFull → t.writtenBy CallTree.mermaid = .ok t.mermaid) ∧
      (¬ t.IsFull → t ≠ .absent → t.writtenBy CallTree.mermaid = .error .absent)) ∧
    ∀ u : CallTree, t.IsFull → u.IsFull → (∀ h ∈ u.heads, h.IsOneLine) → t.mermaid = u.mermaid →
      t.places.map (·.address) = u.places.map (·.address) := by
  refine ⟨⟨map_head_places t, pairwise_address_places t⟩, ⟨items 0 t, mermaid_eq_unlines t,
    fun item hitem => feed_notMem_itemLine (feed_notMem_label hlines hitem), read?_mermaid hlines,
    depicts_items t, fun item => isEscaped_of_mem_items⟩, writtenBy_of_isFull _, ?_⟩
  intro u ht hu hulines h
  have hitems : items 0 t = items 0 u := by
    have hread := read?_mermaid hlines
    rw [h, read?_mermaid hulines] at hread
    exact (Option.some.inj hread).symm
  refine address_eq_of_lengths ht hu ((depicts_items t).map_length_eq ?_)
  rw [hitems]
  exact depicts_items u

/-- A function `f` with two callers of one name, of which the first is called by an operator. -/
def firstCalled : CallTree :=
  .node { name := "f", depth := 0 } [
    .node (Outline.calling "f" "g" 1) [.node { name := "operator<", depth := 2 } []],
    .node { name := "g", depth := 1 } []]

/-- The same functions, where the second caller is called by the operator. -/
def secondCalled : CallTree :=
  .node { name := "f", depth := 0 } [
    .node (Outline.calling "f" "g" 1) [],
    .node { name := "g", depth := 1 } [.node { name := "operator<", depth := 2 } []]]

/-- The graph tells callers of one name apart. -/
theorem graph_tells_namesakes_apart :
    (∃ is, read? firstCalled.mermaid = some is ∧ .node 2 .box "operator#lt;" ∈ is ∧
      .edge 1 0 (some "a.c:3") ∈ is ∧ .edge 2 1 none ∈ is ∧ ∀ label, .edge 2 3 label ∉ is) ∧
    firstCalled.mermaid ≠ secondCalled.mermaid := by
  obtain ⟨-, ⟨is, -, -, hread, hdepicts, -⟩, -, hsame⟩ :=
    graph_is_the_tree (t := firstCalled) (by decide +kernel)
  constructor
  · refine ⟨is, hread, ?_, ?_, ?_, fun label h => ?_⟩
    · refine List.mem_of_mem_filter (p := Item.isNode) ?_
      rw [hdepicts.nodes]
      decide +kernel
    · exact (hdepicts.edge_iff _ _ _).mpr ⟨_, _, ⟨0, 2⟩, rfl, rfl, rfl, by decide +kernel⟩
    · exact (hdepicts.edge_iff _ _ _).mpr ⟨_, _, ⟨0, 1⟩, rfl, rfl, rfl, rfl⟩
    · obtain ⟨p, q, turn, hp, hq, hway, -⟩ := (hdepicts.edge_iff _ _ _).mp h
      obtain rfl := Option.some.inj hp
      obtain rfl := Option.some.inj hq
      cases hway
  · intro h
    have hfull : firstCalled.IsFull ∧ secondCalled.IsFull := by
      simp [firstCalled, secondCalled, isFull_node_iff]
    exact absurd (hsame secondCalled hfull.1 hfull.2 (by decide +kernel) h) (by decide +kernel)

end Mermaid

end CallerTree
