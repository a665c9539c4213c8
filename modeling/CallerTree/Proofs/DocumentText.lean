import CallerTree.Export.Document
import CallerTree.Proofs.JsonText
import CallerTree.Proofs.Preorder

/-!
# Documents lose nothing

A document is decoded by the names of its fields. A field that is missing or null stands for the
zero value of its type: for an empty text, for no site, for a list of callers that was never set.

## Main definitions

* `CallTree.ofJson?`, `Document.ofFields?` — decoding by field names
* `CallTree.IsValid` — the texts of the tree have no stray bytes
* `Json.objectsWith` — the number of objects with a given field
* `Json.nesting`, `CallTree.levels` — how deep a value and a tree go

## Main results

* `CallTree.ofJson?_toJson`, `CallTree.objectsWith_toJson`
* `Json.overflow?_eq_none_iff`, `CallTree.overflow?_toJson` — what is nested too deep
* `Document.render_loses_nothing`

## Implementation notes

The containers of a document alternate: the document is an object with a function in it, and a
function is an object with a list of functions in it. So a limit on the nesting is one on the levels
of the tree, and of two containers at the limit the first is a list of callers.
-/

namespace CallerTree

/-! ### Decoding -/

namespace Json

def text? : Json → Option Text
  | null => some []
  | str t => some t
  | _ => none

def int? : Json → Option Int
  | null => some 0
  | num n => some n
  | _ => none

def flag? : Json → Option Bool
  | null => some false
  | bool b => some b
  | _ => none

mutual

/-- The number of objects with the field `key` in a value. -/
def objectsWith (key : Text) : Json → Nat
  | arr items => objectsWithIn key items
  | obj fields => (if (fields.lookup key).isSome then 1 else 0) + objectsWithBelow key fields
  | _ => 0

def objectsWithIn (key : Text) : List Json → Nat
  | [] => 0
  | j :: rest => j.objectsWith key + objectsWithIn key rest

def objectsWithBelow (key : Text) : List (Text × Json) → Nat
  | [] => 0
  | (_, j) :: rest => j.objectsWith key + objectsWithBelow key rest

end

/-! ### Nesting -/

mutual

/-- The number of containers around the innermost value. -/
def nesting : Json → Nat
  | arr items => nestingIn items + 1
  | obj fields => nestingBelow fields + 1
  | _ => 0

def nestingIn : List Json → Nat
  | [] => 0
  | j :: rest => max j.nesting (nestingIn rest)

def nestingBelow : List (Text × Json) → Nat
  | [] => 0
  | (_, j) :: rest => max j.nesting (nestingBelow rest)

end

mutual

theorem overflow?_eq_none_iff (room : Nat) :
    ∀ j : Json, j.overflow? room = none ↔ j.nesting ≤ room
  | null | bool _ | num _ | str _ => by simp [overflow?, nesting]
  | arr items => by
    rw [overflow?, nesting]
    split
    · simp_all
    · rw [overflowItems?_eq_none_iff]
      omega
  | obj fields => by
    rw [overflow?, nesting]
    split
    · simp_all
    · rw [overflowFields?_eq_none_iff]
      omega

theorem overflowItems?_eq_none_iff (room : Nat) :
    ∀ items : List Json, overflowItems? room items = none ↔ nestingIn items ≤ room
  | [] => by simp [overflowItems?, nestingIn]
  | j :: rest => by
    rw [overflowItems?, nestingIn, Option.or_eq_none_iff, overflow?_eq_none_iff,
      overflowItems?_eq_none_iff, max_le_iff]

theorem overflowFields?_eq_none_iff (room : Nat) :
    ∀ fields : List (Text × Json), overflowFields? room fields = none ↔ nestingBelow fields ≤ room
  | [] => by simp [overflowFields?, nestingBelow]
  | (_, j) :: rest => by
    rw [overflowFields?, nestingBelow, Option.or_eq_none_iff, overflow?_eq_none_iff,
      overflowFields?_eq_none_iff, max_le_iff]

end

end Json

/-- A missing site is null. -/
def Occurrence.ofJson? : Json → Option (Option Occurrence)
  | .null => some none
  | .obj fields => do
    return some {
      file := ← (Json.field fields "file_path").text?
      line := ← (Json.field fields "line_number").int?
      code := ← (Json.field fields "code_line").text?
      scope := ← (Json.field fields "function_context").text? }
  | _ => none

namespace CallTree

mutual

def ofJson? : Json → Option CallTree
  | .null => some .absent
  | .obj fields => do
    let callers ← callersIn? fields
    return .node {
      name := ← (Json.field fields "function_name").text?
      depth := ← (Json.field fields "depth").int?
      total := ← (Json.field fields "total_callers").int?
      isRecursive := ← (Json.field fields "is_recursive").flag?
      atDepthLimit := ← (Json.field fields "max_depth_reached").flag?
      site := ← Occurrence.ofJson? (Json.field fields "call_site")
      unlisted := callers.isNone } (callers.getD [])
  | _ => none

/-- The callers among the fields of a function, or none if the list was never set. -/
def callersIn? : List (Text × Json) → Option (Option (List CallTree))
  | [] => some none
  | (key, j) :: rest => if key = "callers" then callers? j else callersIn? rest

def callers? : Json → Option (Option (List CallTree))
  | .null => some none
  | .arr items => (allOfJson? items).map some
  | _ => none

def allOfJson? : List Json → Option (List CallTree)
  | [] => some []
  | j :: rest => return (← ofJson? j) :: (← allOfJson? rest)

end

end CallTree

/-- What a decoded document says. -/
structure Document.Content where
  function : Text
  basePath : Text
  maxDepth : Int
  exportedAt : Text
  nodes : Int
  hierarchy : CallTree

def Document.ofFields? (fields : List (Text × Json)) : Option Content := do
  return {
    function := ← (Json.field fields "function").text?
    basePath := ← (Json.field fields "basePath").text?
    maxDepth := ← (Json.field fields "maxDepth").int?
    exportedAt := ← (Json.field fields "exportedAt").text?
    nodes := ← (Json.field fields "nodes").int?
    hierarchy := ← CallTree.ofJson? (Json.field fields "hierarchy") }

/-! ### Valid trees -/

/-- The text consists of characters. -/
def Text.IsValid (t : Text) : Prop := ∀ g ∈ t, ∃ c, g = .char c

theorem Text.isValid_ofString (s : String) : (Text.ofString s).IsValid := by
  intro g hg
  obtain ⟨c, -, rfl⟩ := List.mem_map.mp hg
  exact ⟨c, rfl⟩

theorem Text.IsValid.visible_eq {t : Text} (h : t.IsValid) : t.visible = t := by
  refine (List.map_congr_left fun g hg => ?_).trans (List.map_id t)
  obtain ⟨c, rfl⟩ := h g hg
  rfl

structure Occurrence.IsValid (o : Occurrence) : Prop where
  file : o.file.IsValid
  code : o.code.IsValid
  scope : o.scope.IsValid

/-- All texts are valid, and a list of callers that was never set has none. -/
inductive CallTree.IsValid : CallTree → Prop
  | absent : IsValid .absent
  | node {head : Head} {callers : List CallTree} (name : head.name.IsValid)
      (site : ∀ o, head.site = some o → o.IsValid) (unlisted : head.unlisted = true → callers = [])
      (below : ∀ c ∈ callers, c.IsValid) : IsValid (.node head callers)

/-! ### Texts of valid trees show all of them -/

open Json in
theorem Occurrence.shown_toJson {o : Occurrence} (h : o.IsValid) : o.toJson.shown = o.toJson := by
  by_cases hscope : o.scope.isEmpty = true <;>
    simp [toJson, objWith, shown, shownFields_eq, shownField, hscope, h.file.visible_eq,
      h.code.visible_eq, h.scope.visible_eq]

/-- A site is not counted as a function. -/
theorem Occurrence.objectsWith_toJson (o : Occurrence) :
    o.toJson.objectsWith "function_name" = 0 := by
  rcases o with ⟨file, line, code, _ | ⟨g, scope⟩⟩ <;> rfl

theorem Occurrence.nesting_toJson (o : Occurrence) : o.toJson.nesting = 1 := by
  rcases o with ⟨file, line, code, _ | ⟨g, scope⟩⟩ <;> rfl

namespace CallTree

theorem shownItems_callersToJson {callers : List CallTree}
    (h : ∀ c ∈ callers, c.toJson.shown = c.toJson) :
    Json.shownItems (callersToJson callers) = callersToJson callers := by
  induction callers with
  | nil => rw [callersToJson, Json.shownItems]
  | cons c rest ih =>
    obtain ⟨hc, hrest⟩ := List.forall_mem_cons.mp h
    rw [callersToJson, Json.shownItems, hc, ih hrest]

open Json in
/-- Stray bytes are not kept by the writing, and a valid tree has none. -/
theorem shown_toJson {t : CallTree} (h : t.IsValid) : t.toJson.shown = t.toJson := by
  induction t using induct with
  | absent => rw [toJson]; rfl
  | node head callers ih =>
    obtain _ | ⟨hname, hsite, -, hbelow⟩ := h
    have hcallers := shownItems_callersToJson fun c hc => ih c hc (hbelow c hc)
    have hlist : (if head.unlisted then null else arr (callersToJson callers)).shown =
        if head.unlisted then null else arr (callersToJson callers) := by
      split
      · rfl
      · rw [shown, hcallers]
    rw [toJson]
    cases hhead : head.site with
    | none =>
      simp [objWith, shown, shownFields_eq, shownField, hlist, hname.visible_eq]
    | some site =>
      simp [objWith, shown, shownFields_eq, shownField, hlist, hname.visible_eq,
        Occurrence.shown_toJson (hsite site hhead)]

/-! ### Decoding gives back -/

theorem allOfJson?_callersToJson {callers : List CallTree}
    (h : ∀ c ∈ callers, ofJson? c.toJson = some c) :
    allOfJson? (callersToJson callers) = some callers := by
  induction callers with
  | nil => rw [callersToJson, allOfJson?]
  | cons c rest ih =>
    obtain ⟨hc, hrest⟩ := List.forall_mem_cons.mp h
    rw [callersToJson, allOfJson?, hc, ih hrest]
    rfl

/-- The callers are the third field. -/
theorem callersIn?_fields (name depth callers : Json) (rest : List (Text × Json)) :
    callersIn? (("function_name", name) :: ("depth", depth) :: ("callers", callers) :: rest) =
      callers? callers := by
  rfl

theorem ofJson?_toJson {t : CallTree} (h : t.IsValid) : ofJson? t.toJson = some t := by
  induction t using induct with
  | absent => rw [toJson, ofJson?]
  | node head callers ih =>
    obtain _ | ⟨-, -, hunlisted, hbelow⟩ := h
    have hall := allOfJson?_callersToJson fun c hc => ih c hc (hbelow c hc)
    obtain ⟨name, depth, total, isRecursive, atDepthLimit, site, unlisted⟩ := head
    rw [toJson, Json.objWith, ofJson?]
    simp only [List.cons_append, callersIn?_fields]
    cases unlisted with
    | false =>
      rw [if_neg Bool.false_ne_true, callers?, hall]
      rcases site with _ | ⟨file, line, code, _ | ⟨g, scope⟩⟩ <;> rfl
    | true =>
      rw [hunlisted rfl, if_pos rfl, callers?]
      rcases site with _ | ⟨file, line, code, _ | ⟨g, scope⟩⟩ <;> rfl

/-! ### Counting -/

theorem objectsWithIn_callersToJson {callers : List CallTree}
    (h : ∀ c ∈ callers, c.toJson.objectsWith "function_name" = c.size) :
    Json.objectsWithIn "function_name" (callersToJson callers) =
      (callers.flatMap heads).length := by
  induction callers with
  | nil => rw [callersToJson, Json.objectsWithIn]; rfl
  | cons c rest ih =>
    obtain ⟨hc, hrest⟩ := List.forall_mem_cons.mp h
    rw [callersToJson, Json.objectsWithIn, hc, ih hrest, List.flatMap_cons, List.length_append,
      size]

/-- Every node is one object with a name, so the nodes can be counted in the document. -/
theorem objectsWith_toJson {t : CallTree} (h : t.IsValid) :
    t.toJson.objectsWith "function_name" = t.size := by
  induction t using induct with
  | absent => rw [toJson, size_absent]; rfl
  | node head callers ih =>
    obtain _ | ⟨-, -, hunlisted, hbelow⟩ := h
    have hcallers := objectsWithIn_callersToJson fun c hc => ih c hc (hbelow c hc)
    have hlist : (if head.unlisted then .null else .arr (callersToJson callers) : Json).objectsWith
        "function_name" = (callers.flatMap heads).length := by
      split
      next hlisted => rw [hunlisted hlisted]; rfl
      next => rw [Json.objectsWith, hcallers]
    rw [size, heads_node, List.length_cons, toJson]
    cases head.site with
    | none => simp [Json.objWith, Json.objectsWith, Json.objectsWithBelow, hlist, Nat.add_comm]
    | some site =>
      simp [Json.objWith, Json.objectsWith, Json.objectsWithBelow, hlist, Nat.add_comm,
        site.objectsWith_toJson]

/-! ### Levels -/

mutual

/-- The number of functions on the longest way down. -/
def levels : CallTree → Nat
  | absent => 0
  | node _ callers => levelsBelow callers + 1

def levelsBelow : List CallTree → Nat
  | [] => 0
  | t :: rest => max t.levels (levelsBelow rest)

end

theorem nestingIn_callersToJson_le {callers : List CallTree}
    (h : ∀ c ∈ callers, c.toJson.nesting ≤ 2 * c.levels) :
    Json.nestingIn (callersToJson callers) ≤ 2 * levelsBelow callers := by
  induction callers with
  | nil => simp [callersToJson, Json.nestingIn]
  | cons c rest ih =>
    obtain ⟨hc, hrest⟩ := List.forall_mem_cons.mp h
    have hrest := ih hrest
    rw [callersToJson, Json.nestingIn, levelsBelow]
    omega

/-- Each level has a function and its list of callers. -/
theorem nesting_toJson_le (t : CallTree) : t.toJson.nesting ≤ 2 * t.levels := by
  induction t using induct with
  | absent => simp [toJson, Json.nesting]
  | node head callers ih =>
    have hcallers := nestingIn_callersToJson_le ih
    have hlist : (if head.unlisted then .null else .arr (callersToJson callers) : Json).nesting ≤
        2 * levelsBelow callers + 1 := by
      split
      · simp [Json.nesting]
      · rw [Json.nesting]
        omega
    rw [toJson, levels]
    cases head.site with
    | none =>
      simp only [Json.objWith, List.cons_append, List.nil_append, Json.nesting, Json.nestingBelow]
      omega
    | some site =>
      simp only [Json.objWith, List.cons_append, List.nil_append, Json.nesting, Json.nestingBelow,
        site.nesting_toJson]
      omega

/-- Every caller that is too deep is refused at the same mark, so the first one speaks for all. -/
theorem overflowItems?_callersToJson {room levels : Nat} {callers : List CallTree}
    (h : ∀ c ∈ callers, c.toJson.overflow? room = if levels < c.levels then some '[' else none) :
    Json.overflowItems? room (callersToJson callers) =
      if levels < levelsBelow callers then some '[' else none := by
  induction callers with
  | nil => simp [callersToJson, Json.overflowItems?, levelsBelow]
  | cons c rest ih =>
    obtain ⟨hc, hrest⟩ := List.forall_mem_cons.mp h
    rw [callersToJson, Json.overflowItems?, hc, ih hrest, levelsBelow]
    by_cases hlevels : levels < c.levels
    · simp [hlevels]
    · simp [hlevels]

/-- A function whose lists are all there is too deep if it has more levels than there is room for,
and then it is a list that does not fit. -/
theorem overflow?_toJson {t : CallTree} (h : ∀ head ∈ t.heads, head.unlisted = false) :
    ∀ levels, t.toJson.overflow? (2 * levels + 1) =
      if levels < t.levels then some '[' else none := by
  induction t using induct with
  | absent => simp [toJson, Json.overflow?, CallTree.levels]
  | node head callers ih =>
    intro levels
    rw [heads_node, List.forall_mem_cons] at h
    obtain ⟨hlisted, hbelow⟩ := h
    have hcallers : ∀ levels, Json.overflowItems? (2 * levels + 1) (callersToJson callers) =
        if levels < levelsBelow callers then some '[' else none := fun levels =>
      overflowItems?_callersToJson fun c hc =>
        ih c hc (fun g hg => hbelow g (List.mem_flatMap.mpr ⟨c, hc, hg⟩)) levels
    have hlist : (Json.arr (callersToJson callers)).overflow? (2 * levels) =
        if levels < levelsBelow callers + 1 then some '[' else none := by
      cases levels with
      | zero => simp [Json.overflow?]
      | succ levels =>
        rw [Json.overflow?, if_neg (by omega), show 2 * (levels + 1) - 1 = 2 * levels + 1 by omega,
          hcallers]
        simp
    rw [toJson, CallTree.levels, hlisted, if_neg Bool.false_ne_true]
    generalize Json.arr (callersToJson callers) = list at hlist ⊢
    simp only [Json.objWith, List.cons_append, List.nil_append, Json.overflow?,
      Nat.add_one_ne_zero, if_false, Nat.add_one_sub_one, Json.overflowFields?, hlist,
      Option.none_or]
    by_cases hdeep : levels < levelsBelow callers + 1
    · simp [hdeep]
    · -- The list fits, so there is room for a site as well.
      rw [if_neg hdeep, Option.none_or]
      cases head.site with
      | none => rfl
      | some site =>
        have hsite : site.toJson.overflow? (2 * levels) = none := by
          rw [Json.overflow?_eq_none_iff, site.nesting_toJson]
          omega
        rw [Json.overflowFields?, hsite]
        rfl

end CallTree

/-! ### Documents -/

namespace Document

theorem ofFields?_of_hierarchy (function basePath time : Text) (maxDepth nodes : Int) {j : Json}
    {tree : CallTree} (h : CallTree.ofJson? j = some tree) :
    ofFields? [("function", .str function), ("basePath", .str basePath),
      ("maxDepth", .num maxDepth), ("exportedAt", .str time), ("nodes", .num nodes),
      ("hierarchy", j)] =
    some ⟨function, basePath, maxDepth, time, nodes, tree⟩ := by
  change (CallTree.ofJson? j >>= fun tree => pure _) = _
  rw [h]
  rfl

theorem render_eq_ok_iff {d : Document} {text : Text} :
    d.render = .ok text ↔
      d.toJson.nesting ≤ Json.nestingLimit ∧ text = d.toJson.indented 0 ++ "\n" := by
  rw [← Json.overflow?_eq_none_iff, render]
  cases d.toJson.overflow? Json.nestingLimit with
  | none => simp [eq_comm]
  | some bracket => simp

/-- There is one container more in a document than in its tree. -/
theorem nesting_toJson (d : Document) : d.toJson.nesting = d.tree.toJson.nesting + 1 := by
  simp [toJson, Json.nesting, Json.nestingBelow]

/-- A tree whose lists are all there is too deep from the level on whose lists do not fit. -/
theorem render_of_levels {d : Document} (h : ∀ head ∈ d.tree.heads, head.unlisted = false)
    (hlevels : 5000 ≤ d.tree.levels) : d.render = .error (tooDeep '[') := by
  have htree : d.tree.toJson.overflow? 9999 = some '[' :=
    (CallTree.overflow?_toJson h 4999).trans (if_pos hlevels)
  have hdocument : d.toJson.overflow? Json.nestingLimit = some '[' := by
    simp [toJson, Json.nestingLimit, Json.overflow?, Json.overflowFields?, htree]
  rw [render, hdocument]

open Json in
/-- **Documents lose nothing.** The text that is written of a document is JSON. Decoded, it gives
back the tree with the request that led to it, and its `nodes` are as many as there are functions
written below `hierarchy`. A text is written exactly if its containers are nested at most ten
thousand deep, which is so if the tree has less than five thousand levels; and only if it has less
when no list of callers is missing. Instead of a text that is nested too deep there is a failure,
and nothing is written. -/
theorem render_loses_nothing {d : Document} (htree : d.tree.IsValid) (hbase : d.basePath.IsValid) :
    (∀ text, d.render = .ok text → ∃ fields,
      read? text = some (.obj fields) ∧
      ofFields? fields = some {
        function := d.head.name
        basePath := d.basePath
        maxDepth := d.maxDepth
        exportedAt := d.time.visible
        nodes := (field fields "hierarchy").objectsWith "function_name"
        hierarchy := d.tree }) ∧
    ((∃ text, d.render = .ok text) ↔ d.toJson.nesting ≤ 10000) ∧
    (d.tree.levels < 5000 → d.toJson.nesting ≤ 10000) ∧
    ((∀ head ∈ d.tree.heads, head.unlisted = false) → 5000 ≤ d.tree.levels →
      d.render = .error (tooDeep '[')) := by
  refine ⟨fun text htext => ?_, ?_, fun hlevels => ?_, render_of_levels⟩
  · have hname : d.head.name.IsValid := by
      cases htree
      assumption
    obtain ⟨-, rfl⟩ := render_eq_ok_iff.mp htext
    refine ⟨[("function", .str d.head.name), ("basePath", .str d.basePath),
      ("maxDepth", .num d.maxDepth), ("exportedAt", .str d.time.visible),
      ("nodes", .num d.tree.size), ("hierarchy", d.tree.toJson)], ?_, ?_⟩
    · rw [read?_indented, toJson, shown, shownFields_eq]
      simp [shownField, shown, hname.visible_eq, hbase.visible_eq, CallTree.shown_toJson htree]
    · rw [← CallTree.objectsWith_toJson htree]
      exact ofFields?_of_hierarchy _ _ _ _ _ (CallTree.ofJson?_toJson htree)
  · simp only [render_eq_ok_iff, exists_and_left, exists_eq, and_true]
    rfl
  · have hnesting := d.tree.nesting_toJson_le
    rw [nesting_toJson]
    omega

/-- A tree with an absent entry, a list that was never set, and texts that need escapes. -/
def oddDocument : Document where
  head := ⟨"f<T>", 0, 1, false, false, none, false⟩
  callers := [
    .absent,
    .node ⟨"main", 1, 0, false, true, some ⟨"a \"b\".c", 7, "\tf(\\\u2028);\x0b", "main"⟩, true⟩ [],
    .node ⟨"é\n", 1, 0, true, false, some ⟨"", -1, "&f", []⟩, false⟩ []]
  basePath := "/src"
  maxDepth := -3
  time := "now"

theorem isValid_oddDocument : oddDocument.tree.IsValid := by
  have hvalid := Text.isValid_ofString
  have hnil : Text.IsValid [] := hvalid ""
  refine .node (hvalid _) nofun nofun ?_
  simp only [oddDocument, List.forall_mem_cons]
  refine ⟨.absent, .node (hvalid _) ?_ (fun _ => rfl) nofun, .node (hvalid _) ?_ nofun nofun, nofun⟩
  · rintro _ ⟨⟩
    exact ⟨hvalid _, hvalid _, hvalid _⟩
  · rintro _ ⟨⟩
    exact ⟨hvalid _, hvalid _, hnil⟩

theorem render_oddDocument :
    ∃ text fields, oddDocument.render = .ok text ∧ Json.read? text = some (.obj fields) ∧
      ofFields? fields = some ⟨"f<T>", "/src", -3, "now",
        (Json.field fields "hierarchy").objectsWith "function_name", oddDocument.tree⟩ := by
  obtain ⟨hreads, hwritten, hshallow, -⟩ :=
    render_loses_nothing isValid_oddDocument (Text.isValid_ofString _)
  obtain ⟨text, htext⟩ := hwritten.mpr (hshallow (by decide))
  obtain ⟨fields, hfields, hcontent⟩ := hreads text htext
  exact ⟨text, fields, htext, hfields, hcontent⟩

end Document

end CallerTree
