import CallerTree.Path
import CallerTree.Proofs.Pieces

/-!
# Paths and their components

A cleaned path is determined by its components, and every list of proper names is the list of
components of a path. So statements about cleaned paths are statements about lists of names: joining
appends a name, and being relative to a root drops the root's names from the front.

## Main results

* `Path.components_ofComponents` — the components of the path with the given components
* `Path.join_ofComponents`, `Path.relativeTo_ofComponents` — going down, and seen from above
* `Path.isName_of_mem_components` — the components of an absolute path are names
* `Path.components_of_relativeTo_eq` — what is relative to a root determines the components
-/

namespace CallerTree

namespace Path

/-! ### Splitting at slashes -/

theorem split_append_slash (p q : Text) :
    Text.split (p ++ Glyph.char '/' :: q) '/' = p.split '/' ++ q.split '/' :=
  pieces_append_cons p (by simp) q

theorem split_of_not_mem {p : Text} (h : Glyph.char '/' ∉ p) : p.split '/' = [p] :=
  pieces_of_forall_not fun g hg => by
    rw [decide_eq_true_iff]
    rintro rfl
    exact h hg

theorem split_join {cs : List Text} (hne : cs ≠ []) (h : ∀ c ∈ cs, Glyph.char '/' ∉ c) :
    (Text.join "/" cs).split '/' = cs := by
  obtain ⟨c, cs, rfl⟩ := List.exists_cons_of_ne_nil hne
  obtain ⟨hc, hcs⟩ := List.forall_mem_cons.mp h
  rw [Text.join]
  clear hne h
  induction cs generalizing c with
  | nil => rw [List.flatMap_nil, List.append_nil, split_of_not_mem hc]
  | cons d cs ih =>
    obtain ⟨hd, hcs⟩ := List.forall_mem_cons.mp hcs
    have hsplit := split_append_slash c (d ++ cs.flatMap (Text.ofString "/" ++ ·))
    rw [ih d hd hcs, split_of_not_mem hc] at hsplit
    exact hsplit

/-! ### Components -/

theorem push_of_isName {c : Text} (h : IsName c) (rooted : Bool) (stack : List Text) :
    push rooted stack c = c :: stack := by
  unfold push
  rw [if_neg (by simp [h.ne_nil, h.ne_dot]), if_neg h.ne_dots]

theorem foldl_push_of_isName {cs : List Text} (h : ∀ c ∈ cs, IsName c) (rooted : Bool)
    (stack : List Text) : cs.foldl (push rooted) stack = cs.reverse ++ stack := by
  induction cs generalizing stack with
  | nil => rfl
  | cons c cs ih =>
    obtain ⟨hc, hcs⟩ := List.forall_mem_cons.mp h
    rw [List.foldl_cons, push_of_isName hc, ih hcs, List.reverse_cons, List.append_assoc,
      List.singleton_append]

theorem isAbsolute_ofComponents {cs : List Text} (h : ∀ c ∈ cs, IsName c) (rooted : Bool) :
    isAbsolute (ofComponents rooted cs) = rooted := by
  cases rooted with
  | true => rfl
  | false =>
    cases cs with
    | nil => rfl
    | cons c cs =>
      have hc := h c List.mem_cons_self
      cases c with
      | nil => exact absurd rfl hc.ne_nil
      | cons g c =>
        have hg : g ≠ .char '/' := fun hg => hc.slash_not_mem (hg ▸ List.mem_cons_self)
        simp [ofComponents, Text.join, isAbsolute, hg]

/-- Even without components there is a path: the root, or a dot. -/
theorem ofComponents_ne_nil {cs : List Text} (h : ∀ c ∈ cs, IsName c) (rooted : Bool) :
    ofComponents rooted cs ≠ [] := by
  cases rooted with
  | true => exact List.cons_ne_nil _ _
  | false =>
    cases cs with
    | nil => exact List.cons_ne_nil _ _
    | cons c cs => exact List.append_ne_nil_of_left_ne_nil (h c List.mem_cons_self).ne_nil _

/-- The piece before the leading slash is empty. -/
theorem split_ofComponents_true {cs : List Text} (hne : cs ≠ []) (h : ∀ c ∈ cs, IsName c) :
    (ofComponents true cs).split '/' = [] :: cs := by
  have hsplit := split_append_slash [] (Text.join "/" cs)
  rw [split_join hne fun c hc => (h c hc).slash_not_mem] at hsplit
  exact hsplit

/-- Names survive the cleaning, so components and paths of names determine each other. -/
theorem components_ofComponents {cs : List Text} (h : ∀ c ∈ cs, IsName c) (rooted : Bool) :
    components (ofComponents rooted cs) = cs := by
  rw [components, isAbsolute_ofComponents h]
  cases cs with
  | nil => cases rooted <;> decide
  | cons c cs =>
    have hne : c :: cs ≠ [] := List.cons_ne_nil c cs
    have hfold := foldl_push_of_isName h rooted []
    have hsplit : ((ofComponents rooted (c :: cs)).split '/').foldl (push rooted) [] =
        (c :: cs).foldl (push rooted) [] := by
      cases rooted with
      | false => exact congrArg _ (split_join hne fun d hd => (h d hd).slash_not_mem)
      | true =>
        rw [split_ofComponents_true hne h]
        rfl
    rw [hsplit, hfold, List.append_nil, List.reverse_reverse]

theorem eq_of_ofComponents_eq {cs ds : List Text} (hcs : ∀ c ∈ cs, IsName c)
    (hds : ∀ d ∈ ds, IsName d) {rooted : Bool}
    (h : ofComponents rooted cs = ofComponents rooted ds) : cs = ds := by
  rw [← components_ofComponents hcs rooted, h, components_ofComponents hds rooted]

theorem clean_ofComponents {cs : List Text} (h : ∀ c ∈ cs, IsName c) (rooted : Bool) :
    clean (ofComponents rooted cs) = ofComponents rooted cs := by
  rw [clean, isAbsolute_ofComponents h, components_ofComponents h]

/-- One more component of a rooted path: dots are resolved at once, so only names stay. -/
theorem isName_of_mem_push {stack : List Text} (hstack : ∀ c ∈ stack, IsName c) {c : Text}
    (hc : Glyph.char '/' ∉ c) : ∀ d ∈ push true stack c, IsName d := by
  unfold push
  by_cases hskip : c = [] ∨ c = "."
  · rwa [if_pos hskip]
  · rw [if_neg hskip]
    obtain ⟨hne, hdot⟩ := not_or.mp hskip
    by_cases hdots : c = ".."
    · rw [if_pos hdots]
      cases stack with
      | nil => simp
      | cons top rest =>
        obtain ⟨htop, hrest⟩ := List.forall_mem_cons.mp hstack
        simpa [htop.ne_dots] using hrest
    · rw [if_neg hdots]
      exact List.forall_mem_cons.mpr ⟨⟨hne, hdot, hdots, hc⟩, hstack⟩

/-- In a relative path a leading `..` may be left, so this needs an absolute one. -/
theorem isName_of_mem_components {p : Text} (hp : isAbsolute p = true) :
    ∀ c ∈ components p, IsName c := by
  have hfold : ∀ (parts stack : List Text), (∀ c ∈ parts, Glyph.char '/' ∉ c) →
      (∀ c ∈ stack, IsName c) → ∀ c ∈ parts.foldl (push true) stack, IsName c := by
    intro parts
    induction parts with
    | nil => exact fun stack _ hstack => hstack
    | cons part parts ih =>
      intro stack hparts hstack
      obtain ⟨hpart, hparts⟩ := List.forall_mem_cons.mp hparts
      exact ih _ hparts (isName_of_mem_push hstack hpart)
  have hsplit : ∀ c ∈ p.split '/', Glyph.char '/' ∉ c := by
    intro c hc hmem
    exact not_of_mem_pieces hc hmem (by simp)
  intro c hc
  rw [components, hp, List.mem_reverse] at hc
  exact hfold _ [] hsplit (by simp) c hc

/-- What is left of the parts of a path are parts of it. -/
theorem mem_push {rooted : Bool} {stack : List Text} {c d : Text}
    (hd : d ∈ push rooted stack c) : d ∈ stack ∨ d = c := by
  unfold push at hd
  split at hd
  · exact .inl hd
  · split at hd
    · cases stack with
      | nil =>
        cases rooted with
        | false => exact .inr (List.mem_singleton.mp hd)
        | true => simp at hd
      | cons top rest =>
        simp only at hd
        split at hd
        · exact (List.mem_cons.mp hd).symm
        · exact .inl (List.mem_cons_of_mem _ hd)
    · exact (List.mem_cons.mp hd).symm

theorem mem_split_of_mem_components {p c : Text} (hc : c ∈ components p) : c ∈ p.split '/' := by
  have hfold : ∀ (parts stack : List Text), c ∈ parts.foldl (push (isAbsolute p)) stack →
      c ∈ stack ∨ c ∈ parts := by
    intro parts
    induction parts with
    | nil => exact fun stack hc => .inl hc
    | cons part parts ih =>
      intro stack hc
      rcases ih _ hc with hc | hc
      · exact (mem_push hc).imp_right (List.mem_cons.mpr <| .inl ·)
      · exact .inr (List.mem_cons_of_mem _ hc)
  rw [components, List.mem_reverse] at hc
  exact (hfold _ [] hc).resolve_left List.not_mem_nil

theorem mem_of_mem_components {p c : Text} (hc : c ∈ components p) {g : Glyph} (hg : g ∈ c) :
    g ∈ p :=
  mem_of_mem_pieces (mem_split_of_mem_components hc) hg

/-- A glyph of a path that is no slash is a glyph of a component. -/
theorem exists_mem_of_mem_ofComponents {cs : List Text} {g : Glyph} (hg : g ≠ .char '/')
    (h : g ∈ ofComponents true cs) : ∃ c ∈ cs, g ∈ c := by
  have hslash : ∀ t : Text, g ∈ Text.ofString "/" ++ t → g ∈ t := fun t ht =>
    (List.mem_append.mp ht).resolve_left fun hmem => hg (List.mem_singleton.mp hmem)
  have hjoin : g ∈ Text.join "/" cs := hslash _ h
  cases cs with
  | nil => simp [Text.join] at hjoin
  | cons c cs =>
    rcases List.mem_append.mp hjoin with hmem | hmem
    · exact ⟨c, List.mem_cons_self, hmem⟩
    · obtain ⟨d, hd, hmem⟩ := List.mem_flatMap.mp hmem
      exact ⟨d, List.mem_cons_of_mem _ hd, hslash _ hmem⟩

theorem mem_of_mem_short {p : Text} {g : Glyph} (hg : g ≠ .char '/') (h : g ∈ short p) : g ∈ p := by
  obtain ⟨c, hc, hmem⟩ := exists_mem_of_mem_ofComponents hg (List.mem_append_right _ h)
  exact mem_of_mem_pieces (List.mem_of_mem_drop hc) hmem

/-- Going down from a cleaned path appends the names. -/
theorem join_ofComponents_ofComponents {root cs : List Text} (hroot : ∀ c ∈ root, IsName c)
    (hcs : ∀ c ∈ cs, IsName c) :
    join (ofComponents true root) (ofComponents false cs) = ofComponents true (root ++ cs) := by
  have hsplit : ∀ stack, ((ofComponents false cs).split '/').foldl (push true) stack =
      cs.reverse ++ stack := by
    intro stack
    cases cs with
    | nil => rfl
    | cons c cs =>
      have hjoin := split_join (List.cons_ne_nil c cs) fun d hd => (hcs d hd).slash_not_mem
      exact (congrArg _ hjoin).trans (foldl_push_of_isName hcs true stack)
  have hroots := components_ofComponents hroot true
  have habs : isAbsolute (ofComponents true root ++ Glyph.char '/' :: ofComponents false cs) =
      true := rfl
  rw [components, isAbsolute_ofComponents hroot] at hroots
  rw [join, if_pos (ofComponents_ne_nil hroot true)]
  change clean (ofComponents true root ++ [Glyph.char '/'] ++ ofComponents false cs) = _
  rw [List.append_assoc, List.singleton_append, clean, habs, components, habs, split_append_slash,
    List.foldl_append, hsplit, List.reverse_append, List.reverse_reverse, hroots]

theorem join_ofComponents {cs : List Text} (h : ∀ c ∈ cs, IsName c) {name : Text}
    (hname : IsName name) :
    join (ofComponents true cs) name = ofComponents true (cs ++ [name]) := by
  have hsingle : ofComponents false [name] = name := List.append_nil name
  rw [← join_ofComponents_ofComponents h (List.forall_mem_singleton.mpr hname), hsingle]

/-- The same for a path that is seen from a root. -/
theorem join_ofComponents_append {root cs : List Text} (hroot : ∀ c ∈ root, IsName c)
    (hcs : ∀ c ∈ cs, IsName c) {name : Text} (hname : IsName name) :
    join (ofComponents true (root ++ cs)) name = ofComponents true (root ++ (cs ++ [name])) := by
  rw [join_ofComponents (List.forall_mem_append.mpr ⟨hroot, hcs⟩) hname, List.append_assoc]

theorem below?_append (root cs : List Text) : below? root (root ++ cs) = some cs := by
  induction root with
  | nil => rfl
  | cons r root ih => rw [List.cons_append, below?, if_pos rfl, ih]

theorem eq_append_of_below? {root cs ds : List Text} (h : below? root cs = some ds) :
    cs = root ++ ds := by
  induction root generalizing cs with
  | nil => exact Option.some.inj h
  | cons r root ih =>
    cases cs with
    | nil => cases h
    | cons c cs =>
      rw [below?] at h
      split at h
      · rename_i heq
        rw [heq, ih h, List.cons_append]
      · cases h

/-- A cleaned path below a cleaned root is written with the names after those of the root. -/
theorem relativeTo_ofComponents {root cs : List Text} (hroot : ∀ c ∈ root, IsName c)
    (hcs : ∀ c ∈ cs, IsName c) :
    relativeTo (ofComponents true root) (ofComponents true (root ++ cs)) =
      ofComponents false cs := by
  have hall : ∀ c ∈ root ++ cs, IsName c := List.forall_mem_append.mpr ⟨hroot, hcs⟩
  rw [relativeTo, isAbsolute_ofComponents hroot, isAbsolute_ofComponents hall,
    components_ofComponents hroot, components_ofComponents hall, below?_append]
  rfl

/-- An absolute path that is written with the names `cs` relative to a root has these names below
those of the root. -/
theorem components_of_relativeTo_eq {root cs : List Text} {p : Text} (hp : isAbsolute p = true)
    (hroot : ∀ c ∈ root, IsName c) (hcs : ∀ c ∈ cs, IsName c)
    (h : relativeTo (ofComponents true root) p = ofComponents false cs) :
    components p = root ++ cs := by
  rw [relativeTo, isAbsolute_ofComponents hroot, hp, components_ofComponents hroot] at h
  simp only [Bool.and_self, if_true] at h
  split at h
  · rename_i ds hds
    have heq := eq_append_of_below? hds
    have hnames : ∀ d ∈ ds, IsName d := fun d hd =>
      isName_of_mem_components hp d (heq ▸ List.mem_append_right _ hd)
    have hparts := congrArg components h
    rw [components_ofComponents hnames, components_ofComponents hcs] at hparts
    rw [heq, hparts]
  · rw [h, isAbsolute_ofComponents hcs] at hp
    cases hp

end Path

end CallerTree
