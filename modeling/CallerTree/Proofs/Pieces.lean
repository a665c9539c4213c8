import CallerTree.Text.Basic
import Mathlib.Data.List.DropRight

/-!
# The pieces between separators

Lines of a file, components of a path and words of a line are all pieces between separators. The
lemmas here say how `pieces` follows a list from left to right, and how it sees a list that is put
together around a separator.

## Main results

* `pieces_append_cons` — a separator splits the pieces
* `pieces_of_forall_not` — without separators there is one piece
* `length_pieces`, `getLast?_pieces` — the number of pieces, and the last one
* `pieces_or` — two kinds of separators, one after the other
* `exists_lines`, `pieces_lines` — a list as lines with a separator behind each, and a rest
-/

namespace CallerTree

variable {α : Type} {p : α → Bool}

@[simp] theorem pieces_nil : pieces p [] = [[]] := rfl

theorem pieces_cons_of_pos {a : α} (h : p a = true) (l : List α) :
    pieces p (a :: l) = [] :: pieces p l := by
  rw [pieces, List.foldr_cons, if_pos h]
  rfl

theorem pieces_ne_nil (l : List α) : pieces p l ≠ [] := by
  cases l with
  | nil => simp
  | cons a l =>
    rw [pieces, List.foldr_cons]
    split
    · simp
    · split <;> simp

/-- An element that is no separator goes to the front of the first piece. -/
theorem pieces_cons_of_neg {a : α} (h : ¬ p a = true) {l part : List α} {rest : List (List α)}
    (hl : pieces p l = part :: rest) : pieces p (a :: l) = (a :: part) :: rest := by
  rw [pieces] at hl
  rw [pieces, List.foldr_cons, if_neg h, hl]

theorem pieces_append_cons (l : List α) {a : α} (h : p a = true) (r : List α) :
    pieces p (l ++ a :: r) = pieces p l ++ pieces p r := by
  induction l with
  | nil => exact pieces_cons_of_pos h r
  | cons b l ih =>
    by_cases hb : p b = true
    · rw [List.cons_append, pieces_cons_of_pos hb, pieces_cons_of_pos hb, ih, List.cons_append]
    · obtain ⟨part, rest, hl⟩ := List.exists_cons_of_ne_nil (pieces_ne_nil (p := p) l)
      rw [hl, List.cons_append] at ih
      rw [List.cons_append, pieces_cons_of_neg hb hl, pieces_cons_of_neg hb ih, List.cons_append]

theorem pieces_of_forall_not {l : List α} (h : ∀ a ∈ l, ¬ p a = true) : pieces p l = [l] := by
  induction l with
  | nil => rfl
  | cons a l ih =>
    obtain ⟨ha, hl⟩ := List.forall_mem_cons.mp h
    exact pieces_cons_of_neg ha (ih hl)

/-- A piece holds members of the list between two marks. -/
theorem of_mem_pieces {l part : List α} (hpart : part ∈ pieces p l) {a : α} (ha : a ∈ part) :
    a ∈ l ∧ ¬ p a = true := by
  induction l generalizing part with
  | nil =>
    rw [pieces_nil, List.mem_singleton] at hpart
    exact absurd ha (hpart ▸ List.not_mem_nil)
  | cons b l ih =>
    have hlater : ∀ part ∈ pieces p l, a ∈ part → a ∈ b :: l ∧ ¬ p a = true :=
      fun part hpart ha => (ih hpart ha).imp_left (List.mem_cons_of_mem b)
    by_cases hb : p b = true
    · rw [pieces_cons_of_pos hb] at hpart
      rcases List.mem_cons.mp hpart with rfl | hpart
      · exact absurd ha List.not_mem_nil
      · exact hlater _ hpart ha
    · obtain ⟨first, rest, hl⟩ := List.exists_cons_of_ne_nil (pieces_ne_nil (p := p) l)
      rw [pieces_cons_of_neg hb hl] at hpart
      rw [hl] at hlater
      rcases List.mem_cons.mp hpart with rfl | hpart
      · rcases List.mem_cons.mp ha with rfl | ha
        · exact ⟨List.mem_cons_self, hb⟩
        · exact hlater _ List.mem_cons_self ha
      · exact hlater _ (List.mem_cons_of_mem _ hpart) ha

theorem mem_of_mem_pieces {l part : List α} (hpart : part ∈ pieces p l) {a : α} (ha : a ∈ part) :
    a ∈ l :=
  (of_mem_pieces hpart ha).1

theorem not_of_mem_pieces {l part : List α} (hpart : part ∈ pieces p l) {a : α} (ha : a ∈ part) :
    ¬ p a = true :=
  (of_mem_pieces hpart ha).2

theorem length_pieces (l : List α) : (pieces p l).length = l.countP p + 1 := by
  induction l with
  | nil => rfl
  | cons a l ih =>
    by_cases h : p a = true
    · rw [pieces_cons_of_pos h, List.length_cons, ih, List.countP_cons_of_pos h]
    · obtain ⟨part, rest, hl⟩ := List.exists_cons_of_ne_nil (pieces_ne_nil (p := p) l)
      rw [pieces_cons_of_neg h hl, List.countP_cons_of_neg h, ← ih, hl, List.length_cons,
        List.length_cons]

/-- The last piece is what follows the last separator. -/
theorem getLast?_pieces (l : List α) :
    (pieces p l).getLast? = some (l.rtakeWhile fun a => !p a) := by
  have htail : pieces p (l.rtakeWhile fun a => !p a) = [l.rtakeWhile fun a => !p a] :=
    pieces_of_forall_not fun a ha => by simpa using List.mem_rtakeWhile_imp ha
  have hl := List.rdropWhile_append_rtakeWhile (p := fun a => !p a) (l := l)
  rcases List.eq_nil_or_concat (l.rdropWhile fun a => !p a) with hfront | ⟨front, a, hfront⟩
  · rw [hfront, List.nil_append] at hl
    rw [hl] at htail
    rw [htail, hl, List.getLast?_singleton]
  · have ha : p a = true := by
      have hne : (l.rdropWhile fun a => !p a) ≠ [] := by simp [hfront]
      have := List.rdropWhile_last_not (fun a => !p a) l hne
      simpa [hfront] using this
    rw [hfront, List.concat_eq_append, List.append_assoc, List.singleton_append] at hl
    conv_lhs => rw [← hl, pieces_append_cons front ha, htail]
    exact List.getLast?_concat

/-- Cutting at two kinds of separators is cutting at one kind and then each piece at the other. -/
theorem pieces_or (q : α → Bool) (l : List α) :
    pieces (fun a => p a || q a) l = (pieces p l).flatMap (pieces q) := by
  induction l with
  | nil => rfl
  | cons a l ih =>
    obtain ⟨part, rest, hl⟩ := List.exists_cons_of_ne_nil (pieces_ne_nil (p := p) l)
    rw [hl, List.flatMap_cons] at ih
    by_cases hp : p a = true
    · rw [pieces_cons_of_pos (by simp [hp]), pieces_cons_of_pos hp, ih, hl]
      rfl
    · rw [pieces_cons_of_neg hp hl, List.flatMap_cons]
      by_cases hq : q a = true
      · rw [pieces_cons_of_pos (by simp [hq]), pieces_cons_of_pos hq, ih, List.cons_append]
      · obtain ⟨first, more, hpart⟩ := List.exists_cons_of_ne_nil (pieces_ne_nil (p := q) part)
        rw [hpart, List.cons_append] at ih
        rw [pieces_cons_of_neg (by simp [hp, hq]) ih, pieces_cons_of_neg hq hpart,
          List.cons_append]

section Lines

variable [DecidableEq α] {sep : α}

/-- Every list consists of lines that end in the separator, and a rest without it. -/
theorem exists_lines (sep : α) (l : List α) :
    ∃ (ls : List (List α)) (tail : List α), (∀ x ∈ ls, sep ∉ x) ∧ sep ∉ tail ∧
      l = ls.flatMap (· ++ [sep]) ++ tail := by
  induction l with
  | nil => exact ⟨[], [], by simp, by simp, rfl⟩
  | cons a l ih =>
    obtain ⟨ls, tail, hls, htail, rfl⟩ := ih
    by_cases ha : a = sep
    · exact ⟨[] :: ls, tail, List.forall_mem_cons.mpr ⟨List.not_mem_nil, hls⟩, htail, by simp [ha]⟩
    · have hcons : ∀ {x}, sep ∉ x → sep ∉ a :: x := fun hx hmem =>
        (List.mem_cons.mp hmem).elim (fun h => ha h.symm) hx
      cases ls with
      | nil => exact ⟨[], a :: tail, by simp, hcons htail, rfl⟩
      | cons x ls =>
        obtain ⟨hx, hls⟩ := List.forall_mem_cons.mp hls
        exact ⟨(a :: x) :: ls, tail, List.forall_mem_cons.mpr ⟨hcons hx, hls⟩, htail, by simp⟩

/-- The pieces of such a list are the lines and the rest. -/
theorem pieces_lines {ls : List (List α)} {tail : List α} (hls : ∀ x ∈ ls, sep ∉ x)
    (htail : sep ∉ tail) :
    pieces (fun a => decide (a = sep)) (ls.flatMap (· ++ [sep]) ++ tail) = ls ++ [tail] := by
  have hnot : ∀ {x : List α}, sep ∉ x → ∀ a ∈ x, ¬ decide (a = sep) = true := by
    intro x hx a ha heq
    rw [of_decide_eq_true heq] at ha
    exact hx ha
  induction ls with
  | nil => exact pieces_of_forall_not (hnot htail)
  | cons x ls ih =>
    obtain ⟨hx, hls⟩ := List.forall_mem_cons.mp hls
    rw [List.flatMap_cons, List.append_assoc, List.append_assoc, List.singleton_append,
      pieces_append_cons x (by simp), pieces_of_forall_not (hnot hx), ih hls]
    rfl

end Lines

end CallerTree
