import CallerTree.Pattern
import Mathlib.Data.List.Basic

/-!
# What patterns match

A pattern stands for a set of labelled texts, `Pattern.Matches`. The matcher does not search that
set: it follows the text with a list of residual patterns and drops every residual that it has
already. This module says that nothing is lost or added on the way, and what can be read off a
pattern without matching at all.

## Main definitions

* `Pattern.Matches` — a labelled text in the language of a pattern
* `Pattern.admits`, `Pattern.mentions`, `Pattern.requires` — which glyphs can carry a label, and
  whether it occurs at all and in every match
* `Pattern.isOnly` — whether all glyphs carry one label
* `Pattern.holds`, `Pattern.starts`, `Pattern.ends` — which glyphs can occur, come first and last

## Main results

* `Pattern.matches_cons_iff` — one glyph and the residuals it leaves
* `Pattern.matches_of_label?`, `Pattern.accepts_iff` — the matcher finds a match exactly if there is
  one
* `Pattern.accepts_seq_iff`, `Pattern.accepts_star_iff` — what is accepted, without the labels
-/

namespace CallerTree

namespace Pattern

variable {τ : Type}

/-- The labelled text is in the language of the pattern. -/
inductive Matches : Pattern τ → List (τ × Glyph) → Prop
  | empty : Matches empty []
  | one {accepted : CharClass} {label : τ} {g : Glyph} (h : accepted.accepts g.toChar = true) :
      Matches (one accepted label) [(label, g)]
  | seq {p q : Pattern τ} {m n : List (τ × Glyph)} (hp : Matches p m) (hq : Matches q n) :
      Matches (seq p q) (m ++ n)
  | left {p q : Pattern τ} {m : List (τ × Glyph)} (h : Matches p m) : Matches (alt p q) m
  | right {p q : Pattern τ} {m : List (τ × Glyph)} (h : Matches q m) : Matches (alt p q) m
  | star_nil {p : Pattern τ} : Matches (star p) []
  | star_append {p : Pattern τ} {m n : List (τ × Glyph)} (hp : Matches p m)
      (hrest : Matches (star p) n) : Matches (star p) (m ++ n)

/-! ### Inversion -/

variable {p q : Pattern τ} {m : List (τ × Glyph)}

theorem matches_empty_iff : Matches (empty : Pattern τ) m ↔ m = [] := by
  constructor
  · rintro ⟨⟩
    rfl
  · rintro rfl
    exact .empty

theorem matches_one_iff {accepted : CharClass} {label : τ} :
    Matches (.one accepted label) m ↔ ∃ g, accepted.accepts g.toChar = true ∧ m = [(label, g)] := by
  constructor
  · rintro ⟨⟩
    exact ⟨_, ‹_›, rfl⟩
  · rintro ⟨g, h, rfl⟩
    exact .one h

theorem matches_seq_iff :
    Matches (.seq p q) m ↔ ∃ n o, m = n ++ o ∧ Matches p n ∧ Matches q o := by
  constructor
  · rintro ⟨⟩
    exact ⟨_, _, rfl, ‹_›, ‹_›⟩
  · rintro ⟨n, o, rfl, hp, hq⟩
    exact .seq hp hq

theorem matches_alt_iff : Matches (.alt p q) m ↔ Matches p m ∨ Matches q m := by
  constructor
  · rintro (_ | _)
    · exact .inl ‹_›
    · exact .inr ‹_›
  · rintro (h | h)
    · exact .left h
    · exact .right h

theorem matches_seq_assoc {r : Pattern τ} :
    Matches (.seq (.seq p q) r) m ↔ Matches (.seq p (.seq q r)) m := by
  constructor
  · rintro ⟨⟩
    rename_i hpq hr
    obtain ⟨n, o, rfl, hp, hq⟩ := matches_seq_iff.mp hpq
    exact List.append_assoc _ _ _ ▸ .seq hp (.seq hq hr)
  · rintro ⟨⟩
    rename_i hp hqr
    obtain ⟨n, o, rfl, hq, hr⟩ := matches_seq_iff.mp hqr
    exact List.append_assoc _ _ _ ▸ .seq (.seq hp hq) hr

theorem matches_seq_congr {q' : Pattern τ} (h : ∀ n, Matches q n ↔ Matches q' n) :
    Matches (.seq p q) m ↔ Matches (.seq p q') m := by
  simp only [matches_seq_iff, h]

theorem matches_after : Matches (after p q) m ↔ Matches (.seq p q) m := by
  cases p with
  | empty =>
    change Matches q m ↔ _
    simp [matches_seq_iff, matches_empty_iff]
  | _ => rfl

/-- Whether a thread is finished can so be computed. -/
theorem matches_nil_iff : Matches p [] ↔ p.nullable = true := by
  induction p with
  | empty => exact iff_of_true .empty rfl
  | one => exact iff_of_false (by rintro ⟨⟩) Bool.false_ne_true
  | seq p q hp hq =>
    refine Iff.trans ?_ Bool.and_eq_true_iff.symm
    simp [matches_seq_iff, hp, hq]
  | alt p q hp hq => exact matches_alt_iff.trans ((or_congr hp hq).trans Bool.or_eq_true_iff.symm)
  | star p => exact iff_of_true .star_nil rfl

/-- The repetitions that match nothing can be left out. -/
theorem matches_star_cons_iff {a : τ × Glyph} :
    Matches (.star p) (a :: m) ↔
      ∃ n o, m = n ++ o ∧ Matches p (a :: n) ∧ Matches (.star p) o := by
  constructor
  · intro h
    generalize hq : star p = q at h
    generalize hm : a :: m = m' at h
    induction h generalizing m with
    | @star_append p' n o hp hrest _ ih =>
      obtain rfl := (Pattern.star.inj hq)
      cases n with
      | nil => exact ih hq hm
      | cons b n =>
        obtain ⟨rfl, rfl⟩ := List.cons.inj hm
        exact ⟨n, o, rfl, hp, hrest⟩
    | _ => cases hq <;> cases hm
  · rintro ⟨n, o, rfl, hp, hrest⟩
    exact .star_append hp hrest

theorem mem_residuals_seq {c : Char} {l : τ} {r : Pattern τ} :
    (l, r) ∈ (seq p q).residuals c ↔
      (∃ s, (l, s) ∈ p.residuals c ∧ after s q = r) ∨
        p.nullable = true ∧ (l, r) ∈ q.residuals c := by
  refine List.mem_append.trans (or_congr ?_ ?_)
  · simp
  · split <;> simp_all

theorem mem_residuals_star {c : Char} {l : τ} {r : Pattern τ} :
    (l, r) ∈ (star p).residuals c ↔ ∃ s, (l, s) ∈ p.residuals c ∧ after s (star p) = r := by
  refine List.mem_map.trans ?_
  simp

/-- A match that starts with a glyph goes on with one of the residuals it leaves. -/
theorem matches_cons_iff {l : τ} {g : Glyph} :
    Matches p ((l, g) :: m) ↔ ∃ r, (l, r) ∈ p.residuals g.toChar ∧ Matches r m := by
  induction p generalizing m with
  | empty => exact iff_of_false (by rintro ⟨⟩) (by rintro ⟨_, ⟨⟩, _⟩)
  | one accepted label =>
    have hresiduals : (one accepted label).residuals g.toChar =
        if accepted.accepts g.toChar then [(label, empty)] else [] := rfl
    rw [matches_one_iff, hresiduals]
    split <;> simp_all [matches_empty_iff]
  | seq p q hp hq =>
    constructor
    · intro h
      obtain ⟨n, o, hm, hn, ho⟩ := matches_seq_iff.mp h
      cases n with
      | nil =>
        rw [List.nil_append] at hm
        subst hm
        obtain ⟨r, hr, hrm⟩ := hq.mp ho
        exact ⟨r, mem_residuals_seq.mpr (.inr ⟨matches_nil_iff.mp hn, hr⟩), hrm⟩
      | cons a n =>
        obtain ⟨rfl, rfl⟩ := List.cons.inj hm
        obtain ⟨r, hr, hrn⟩ := hp.mp hn
        exact ⟨after r q, mem_residuals_seq.mpr (.inl ⟨r, hr, rfl⟩),
          matches_after.mpr (.seq hrn ho)⟩
    · rintro ⟨r, hr, hrm⟩
      obtain ⟨s, hs, rfl⟩ | ⟨hnull, hr⟩ := mem_residuals_seq.mp hr
      · obtain ⟨n, o, rfl, hn, ho⟩ := matches_seq_iff.mp (matches_after.mp hrm)
        exact .seq (hp.mpr ⟨s, hs, hn⟩) ho
      · exact .seq (matches_nil_iff.mpr hnull) (hq.mpr ⟨r, hr, hrm⟩)
  | alt p q hp hq =>
    refine matches_alt_iff.trans ((or_congr hp hq).trans ?_)
    rw [← exists_or]
    exact exists_congr fun r => or_and_right.symm.trans (and_congr_left' List.mem_append.symm)
  | star p hp =>
    rw [matches_star_cons_iff]
    constructor
    · rintro ⟨n, o, rfl, hn, ho⟩
      obtain ⟨r, hr, hrn⟩ := hp.mp hn
      exact ⟨_, mem_residuals_star.mpr ⟨r, hr, rfl⟩, matches_after.mpr (.seq hrn ho)⟩
    · rintro ⟨r, hr, hrm⟩
      obtain ⟨s, hs, rfl⟩ := mem_residuals_star.mp hr
      obtain ⟨n, o, rfl, hn, ho⟩ := matches_seq_iff.mp (matches_after.mp hrm)
      exact ⟨n, o, rfl, hp.mpr ⟨s, hs, hn⟩, ho⟩

/-! ### The matcher -/

/-- A thread goes on in every way that its residual allows. -/
theorem mem_advance {t u : Thread τ} {g : Glyph} :
    u ∈ t.advance g ↔
      ∃ l, (l, u.residual) ∈ t.residual.residuals g.toChar ∧ u.done = (l, g) :: t.done := by
  obtain ⟨residual, done⟩ := u
  simp only [Thread.advance, List.mem_map, Prod.exists, Thread.mk.injEq]
  constructor
  · rintro ⟨l, r, hr, rfl, rfl⟩
    exact ⟨l, hr, rfl⟩
  · rintro ⟨l, hr, rfl⟩
    exact ⟨l, residual, hr, rfl, rfl⟩

variable [DecidableEq τ]

theorem mem_of_mem_preferred {threads : List (Thread τ)} {t : Thread τ}
    (h : t ∈ preferred threads) : t ∈ threads := by
  induction threads with
  | nil => exact h
  | cons u threads ih =>
    obtain rfl | h := List.mem_cons.mp h
    · exact List.mem_cons_self
    · exact List.mem_cons_of_mem _ (ih (List.mem_of_mem_filter h))

/-- A thread that is dropped has the residual of one that is kept. -/
theorem exists_mem_preferred {threads : List (Thread τ)} {t : Thread τ} (h : t ∈ threads) :
    ∃ u ∈ preferred threads, u.residual = t.residual := by
  induction threads with
  | nil => simp at h
  | cons u threads ih =>
    by_cases heq : u.residual = t.residual
    · exact ⟨u, List.mem_cons_self, heq⟩
    · obtain rfl | h := List.mem_cons.mp h
      · exact absurd rfl heq
      · obtain ⟨v, hv, hvt⟩ := ih h
        refine ⟨v, List.mem_cons_of_mem _ (List.mem_filter.mpr ⟨hv, ?_⟩), hvt⟩
        simpa [hvt] using Ne.symm heq

/-- What the matcher returns is what one of its threads has read, followed by a match of what that
thread has left. -/
theorem exists_mem_of_run {threads : List (Thread τ)} {t : Text} {m : List (τ × Glyph)}
    (h : run threads t = some m) :
    ∃ u ∈ threads, ∃ n, Matches u.residual n ∧ n.map Prod.snd = t ∧ m = u.done.reverse ++ n := by
  induction t generalizing threads with
  | nil =>
    obtain ⟨u, hu, rfl⟩ := Option.map_eq_some_iff.mp h
    have hnull := List.find?_some hu
    exact ⟨u, List.mem_of_find?_eq_some hu, [], matches_nil_iff.mpr hnull, rfl, by simp⟩
  | cons g t ih =>
    rw [run] at h
    split at h
    · cases h
    · obtain ⟨v, hv, n, hn, rfl, rfl⟩ := ih h
      obtain ⟨u, hu, hv⟩ := List.mem_flatMap.mp (mem_of_mem_preferred hv)
      obtain ⟨l, hl, hdone⟩ := mem_advance.mp hv
      exact ⟨u, hu, (l, g) :: n, matches_cons_iff.mpr ⟨_, hl, hn⟩, rfl, by simp [hdone]⟩

/-- The matcher finds a match if what some thread has left matches the text. -/
theorem isSome_run {threads : List (Thread τ)} {u : Thread τ} (hu : u ∈ threads)
    {n : List (τ × Glyph)} (hn : Matches u.residual n) : (run threads (n.map Prod.snd)).isSome := by
  induction n generalizing threads u with
  | nil =>
    rw [List.map_nil, run, finish?, Option.isSome_map, List.find?_isSome]
    exact ⟨u, hu, matches_nil_iff.mp hn⟩
  | cons a n ih =>
    obtain ⟨l, g⟩ := a
    obtain ⟨r, hr, hrn⟩ := matches_cons_iff.mp hn
    have hv : (⟨r, (l, g) :: u.done⟩ : Thread τ) ∈ threads.flatMap (·.advance g) :=
      List.mem_flatMap.mpr ⟨u, hu, mem_advance.mpr ⟨l, hr, rfl⟩⟩
    obtain ⟨v, hv, hvr⟩ := exists_mem_preferred hv
    rw [List.map_cons, run, if_neg (by simpa using List.ne_nil_of_mem hu)]
    exact ih hv (hvr ▸ hrn)

/-- The labels that the matcher gives are those of a match of the whole text. -/
theorem matches_of_label? {t : Text} (h : p.label? t = some m) :
    Matches p m ∧ m.map Prod.snd = t := by
  obtain ⟨u, hu, n, hn, rfl, rfl⟩ := exists_mem_of_run h
  obtain rfl := List.mem_singleton.mp hu
  exact ⟨hn, rfl⟩

/-- Threads are followed in parallel, but a text is accepted if any match of it exists. -/
theorem accepts_iff {t : Text} : p.accepts t = true ↔ ∃ m, Matches p m ∧ m.map Prod.snd = t := by
  constructor
  · intro h
    obtain ⟨m, hm⟩ := Option.isSome_iff_exists.mp h
    exact ⟨m, matches_of_label? hm⟩
  · rintro ⟨m, hm, rfl⟩
    exact isSome_run List.mem_cons_self hm

/-! ### What a pattern accepts -/

theorem accepts_empty_iff {t : Text} : (empty : Pattern τ).accepts t = true ↔ t = [] := by
  simp only [accepts_iff, matches_empty_iff, exists_eq_left, List.map_nil]
  exact eq_comm

theorem accepts_one_iff {accepted : CharClass} {label : τ} {t : Text} :
    (one accepted label).accepts t = true ↔ ∃ g, accepted.accepts g.toChar = true ∧ t = [g] := by
  simp only [accepts_iff, matches_one_iff]
  constructor
  · rintro ⟨_, ⟨g, h, rfl⟩, rfl⟩
    exact ⟨g, h, rfl⟩
  · rintro ⟨g, h, rfl⟩
    exact ⟨_, ⟨g, h, rfl⟩, rfl⟩

theorem accepts_seq_iff {t : Text} :
    (seq p q).accepts t = true ↔ ∃ u v, t = u ++ v ∧ p.accepts u = true ∧ q.accepts v = true := by
  simp only [accepts_iff, matches_seq_iff]
  constructor
  · rintro ⟨_, ⟨m, n, rfl, hp, hq⟩, rfl⟩
    exact ⟨_, _, List.map_append, ⟨m, hp, rfl⟩, ⟨n, hq, rfl⟩⟩
  · rintro ⟨_, _, rfl, ⟨m, hp, rfl⟩, n, hq, rfl⟩
    exact ⟨m ++ n, ⟨m, n, rfl, hp, hq⟩, List.map_append⟩

theorem accepts_alt_iff {t : Text} :
    (alt p q).accepts t = true ↔ p.accepts t = true ∨ q.accepts t = true := by
  simp only [accepts_iff, matches_alt_iff, or_and_right, exists_or]

/-- A repetition accepts what can be cut into accepted parts. -/
theorem accepts_star_iff {t : Text} :
    (star p).accepts t = true ↔
      ∃ parts : List Text, (∀ s ∈ parts, p.accepts s = true) ∧ t = parts.flatten := by
  simp only [accepts_iff]
  constructor
  · rintro ⟨m, hm, rfl⟩
    generalize hq : star p = q at hm
    induction hm with
    | empty | one | seq | left | right => cases hq
    | star_nil => exact ⟨[], by simp, rfl⟩
    | star_append hp _ _ ih =>
      cases hq
      obtain ⟨parts, hparts, hflat⟩ := ih rfl
      refine ⟨_ :: parts, List.forall_mem_cons.mpr ⟨⟨_, hp, rfl⟩, hparts⟩, ?_⟩
      rw [List.map_append, hflat, List.flatten_cons]
  · rintro ⟨parts, hparts, rfl⟩
    induction parts with
    | nil => exact ⟨[], .star_nil, rfl⟩
    | cons s parts ih =>
      obtain ⟨⟨m, hm, rfl⟩, hrest⟩ := List.forall_mem_cons.mp hparts
      obtain ⟨n, hn, hflat⟩ := ih hrest
      exact ⟨m ++ n, .star_append hm hn, by rw [List.map_append, hflat, List.flatten_cons]⟩

theorem accepts_star_one_iff {accepted : CharClass} {label : τ} {t : Text} :
    (star (one accepted label)).accepts t = true ↔ ∀ g ∈ t, accepted.accepts g.toChar = true := by
  rw [accepts_star_iff]
  constructor
  · rintro ⟨parts, hparts, rfl⟩ g hg
    obtain ⟨s, hs, hg⟩ := List.mem_flatten.mp hg
    obtain ⟨g', hg', rfl⟩ := accepts_one_iff.mp (hparts s hs)
    rwa [List.mem_singleton.mp hg]
  · intro h
    refine ⟨t.map fun g => [g], ?_, (List.flatMap_singleton' t).symm⟩
    rintro _ hs
    obtain ⟨g, hg, rfl⟩ := List.mem_map.mp hs
    exact accepts_one_iff.mpr ⟨g, h g hg, rfl⟩

/-- If `p` matched the empty text then `plus p` would accept it as well. -/
theorem accepts_plus_iff {t : Text} (hp : p.nullable = false) :
    (plus p).accepts t = true ↔ t ≠ [] ∧ (star p).accepts t = true := by
  have hnil : ∀ s, p.accepts s = true → s ≠ [] := by
    rintro s hs rfl
    obtain ⟨m, hm, hnil⟩ := accepts_iff.mp hs
    rw [List.map_eq_nil_iff.mp hnil, matches_nil_iff, hp] at hm
    cases hm
  simp only [plus, accepts_seq_iff, accepts_star_iff]
  constructor
  · rintro ⟨u, _, rfl, hu, parts, hparts, rfl⟩
    exact ⟨List.append_ne_nil_of_left_ne_nil (hnil u hu) _, u :: parts,
      List.forall_mem_cons.mpr ⟨hu, hparts⟩, rfl⟩
  · rintro ⟨hne, _ | ⟨u, parts⟩, hparts, rfl⟩
    · exact absurd rfl hne
    · obtain ⟨hu, hparts⟩ := List.forall_mem_cons.mp hparts
      exact ⟨u, _, rfl, hu, parts, hparts, rfl⟩

/-- A fixed word accepts what looks like it. -/
theorem accepts_word_iff {label : τ} {w t : Text} :
    (word label w).accepts t = true ↔ t.map Glyph.toChar = w.map Glyph.toChar := by
  have hone : ∀ {g : Glyph} {t : Text}, (one (.exactly g.toChar) label).accepts t = true ↔
      t.map Glyph.toChar = [g.toChar] := by
    intro g t
    simp [accepts_one_iff, CharClass.accepts, List.map_eq_singleton_iff, and_comm]
  induction w generalizing t with
  | nil => exact accepts_empty_iff.trans List.map_eq_nil_iff.symm
  | cons g w ih =>
    cases w with
    | nil => exact hone
    | cons g' w =>
      have hseq : word label (g :: g' :: w) =
          seq (one (.exactly g.toChar) label) (word label (g' :: w)) := rfl
      rw [hseq, accepts_seq_iff, List.map_cons]
      simp only [hone, ih]
      constructor
      · rintro ⟨u, v, rfl, hu, hv⟩
        rw [List.map_append, hu, hv, List.singleton_append]
      · intro h
        obtain ⟨g₀, t, rfl, hg, ht⟩ := List.map_eq_cons_iff.mp h
        exact ⟨[g₀], t, rfl, by simp [hg], ht⟩

/-- The choice among no words accepts the empty text, which `hws` excludes. -/
theorem accepts_oneOf_iff {label : τ} {ws : List Text} (hws : ws ≠ []) {t : Text} :
    (oneOf label ws).accepts t = true ↔ ∃ w ∈ ws, (word label w).accepts t = true := by
  induction ws with
  | nil => exact absurd rfl hws
  | cons w ws ih =>
    cases ws with
    | nil => simp [oneOf]
    | cons v ws =>
      rw [oneOf, accepts_alt_iff, ih (by simp)]
      simp

/-! ### What a pattern says about a label -/

/-- Whether a glyph shown as `c` can carry the label. -/
def admits (l : τ) (c : Char) : Pattern τ → Bool
  | empty => false
  | one accepted label => label = l && accepted.accepts c
  | seq p q | alt p q => p.admits l c || q.admits l c
  | star p => p.admits l c

/-- Whether some atom has the label. -/
def mentions (l : τ) : Pattern τ → Bool
  | empty => false
  | one _ label => label = l
  | seq p q | alt p q => p.mentions l || q.mentions l
  | star p => p.mentions l

/-- Whether every match has a glyph with the label. -/
def requires (l : τ) : Pattern τ → Bool
  | empty | star _ => false
  | one _ label => label = l
  | seq p q => p.requires l || q.requires l
  | alt p q => p.requires l && q.requires l

theorem admits_eq_false {l : τ} (h : p.mentions l = false) (c : Char) : p.admits l c = false := by
  induction p with
  | empty => rfl
  | one => exact Bool.and_eq_false_iff.mpr (.inl h)
  | seq p q hp hq | alt p q hp hq =>
    obtain ⟨h, h'⟩ := Bool.or_eq_false_iff.mp h
    exact Bool.or_eq_false_iff.mpr ⟨hp h, hq h'⟩
  | star p hp => exact hp h

/-- An upper bound, as are `holds`, `starts` and `ends` below: they rule matches out. -/
theorem Matches.admits (h : Matches p m) {l : τ} {g : Glyph} (hg : (l, g) ∈ m) :
    p.admits l g.toChar = true := by
  induction h with
  | empty => simp at hg
  | one h =>
    cases List.mem_singleton.mp hg
    exact Bool.and_eq_true_iff.mpr ⟨decide_eq_true rfl, h⟩
  | seq _ _ hp hq => exact Bool.or_eq_true_iff.mpr ((List.mem_append.mp hg).imp hp hq)
  | left _ hp => exact Bool.or_eq_true_iff.mpr (.inl (hp hg))
  | right _ hq => exact Bool.or_eq_true_iff.mpr (.inr (hq hg))
  | star_nil => simp at hg
  | star_append _ _ hp hrest => exact (List.mem_append.mp hg).elim hp hrest

theorem Matches.exists_mem_of_requires (h : Matches p m) {l : τ} (hl : p.requires l = true) :
    ∃ g, (l, g) ∈ m := by
  induction h with
  | empty | star_nil | star_append => cases hl
  | @one _ label g _ =>
    obtain rfl : label = l := of_decide_eq_true hl
    exact ⟨g, List.mem_cons_self⟩
  | seq _ _ hp hq =>
    obtain hl | hl := Bool.or_eq_true_iff.mp hl
    · obtain ⟨g, hg⟩ := hp hl
      exact ⟨g, List.mem_append_left _ hg⟩
    · obtain ⟨g, hg⟩ := hq hl
      exact ⟨g, List.mem_append_right _ hg⟩
  | left _ hp => exact hp (Bool.and_eq_true_iff.mp hl).1
  | right _ hq => exact hq (Bool.and_eq_true_iff.mp hl).2

/-- Whether all atoms have the label. -/
def isOnly (l : τ) : Pattern τ → Bool
  | empty => true
  | one _ label => label = l
  | seq p q | alt p q => p.isOnly l && q.isOnly l
  | star p => p.isOnly l

theorem isOnly_word (l : τ) (w : Text) : (word l w).isOnly l = true := by
  induction w with
  | nil => rfl
  | cons g w ih =>
    cases w with
    | nil => exact decide_eq_true rfl
    | cons g' w => exact Bool.and_eq_true_iff.mpr ⟨decide_eq_true rfl, ih⟩

theorem Matches.eq_map_of_isOnly (h : Matches p m) {l : τ} (hl : p.isOnly l = true) :
    m = (m.map Prod.snd).map (Prod.mk l) := by
  induction h with
  | empty | star_nil => rfl
  | @one _ label g _ =>
    obtain rfl : label = l := of_decide_eq_true hl
    rfl
  | seq _ _ hp hq =>
    obtain ⟨hl, hl'⟩ := Bool.and_eq_true_iff.mp hl
    rw [List.map_append, List.map_append, ← hp hl, ← hq hl']
  | left _ hp => exact hp (Bool.and_eq_true_iff.mp hl).1
  | right _ hq => exact hq (Bool.and_eq_true_iff.mp hl).2
  | star_append _ _ hp hrest => rw [List.map_append, List.map_append, ← hp hl, ← hrest hl]

/-- With one label for all glyphs, what is matched is what is accepted. -/
theorem matches_iff_of_isOnly {l : τ} (hl : p.isOnly l = true) :
    Matches p m ↔ ∃ t, p.accepts t = true ∧ m = t.map (Prod.mk l) := by
  constructor
  · intro h
    exact ⟨_, accepts_iff.mpr ⟨m, h, rfl⟩, h.eq_map_of_isOnly hl⟩
  · rintro ⟨t, ht, rfl⟩
    obtain ⟨m, hm, rfl⟩ := accepts_iff.mp ht
    rwa [← hm.eq_map_of_isOnly hl]

/-! ### What a pattern says about the characters of a text -/

omit [DecidableEq τ] in
/-- Whether a glyph shown as `c` can occur. -/
def holds (c : Char) : Pattern τ → Bool
  | empty => false
  | one accepted _ => accepted.accepts c
  | seq p q | alt p q => p.holds c || q.holds c
  | star p => p.holds c

omit [DecidableEq τ] in
/-- Whether a glyph shown as `c` can come first. -/
def starts (c : Char) : Pattern τ → Bool
  | empty => false
  | one accepted _ => accepted.accepts c
  | seq p q => p.starts c || p.nullable && q.starts c
  | alt p q => p.starts c || q.starts c
  | star p => p.starts c

omit [DecidableEq τ] in
/-- Whether a glyph shown as `c` can come last. -/
def ends (c : Char) : Pattern τ → Bool
  | empty => false
  | one accepted _ => accepted.accepts c
  | seq p q => q.ends c || q.nullable && p.ends c
  | alt p q => p.ends c || q.ends c
  | star p => p.ends c

omit [DecidableEq τ] in
theorem holds_of_starts {c : Char} (h : p.starts c = true) : p.holds c = true := by
  induction p with
  | empty => cases h
  | one => exact h
  | seq p q hp hq =>
    have h := (Bool.or_eq_true_iff.mp h).imp_right Bool.and_eq_true_iff.mp
    exact Bool.or_eq_true_iff.mpr (h.imp hp fun h => hq h.2)
  | alt p q hp hq => exact Bool.or_eq_true_iff.mpr ((Bool.or_eq_true_iff.mp h).imp hp hq)
  | star p hp => exact hp h

omit [DecidableEq τ] in
theorem holds_of_ends {c : Char} (h : p.ends c = true) : p.holds c = true := by
  induction p with
  | empty => cases h
  | one => exact h
  | seq p q hp hq =>
    have h := (Bool.or_eq_true_iff.mp h).imp_right Bool.and_eq_true_iff.mp
    exact Bool.or_eq_true_iff.mpr (h.imp hq fun h => hp h.2).symm
  | alt p q hp hq => exact Bool.or_eq_true_iff.mpr ((Bool.or_eq_true_iff.mp h).imp hp hq)
  | star p hp => exact hp h

omit [DecidableEq τ] in
theorem exists_of_holds_word {label : τ} {w : Text} {c : Char}
    (h : (word label w).holds c = true) : ∃ g ∈ w, c = g.toChar := by
  induction w with
  | nil => cases h
  | cons g w ih =>
    cases w with
    | nil => exact ⟨g, by simp, of_decide_eq_true h⟩
    | cons g' w =>
      rcases Bool.or_eq_true_iff.mp h with h | h
      · exact ⟨g, by simp, of_decide_eq_true h⟩
      · obtain ⟨a, ha, hc⟩ := ih h
        exact ⟨a, List.mem_cons_of_mem _ ha, hc⟩

omit [DecidableEq τ] in
theorem exists_of_holds_oneOf {label : τ} {ws : List Text} {c : Char}
    (h : (oneOf label ws).holds c = true) : ∃ w ∈ ws, ∃ g ∈ w, c = g.toChar := by
  induction ws with
  | nil => cases h
  | cons w ws ih =>
    cases ws with
    | nil => exact ⟨w, by simp, exists_of_holds_word h⟩
    | cons v ws =>
      rcases Bool.or_eq_true_iff.mp h with h | h
      · exact ⟨w, by simp, exists_of_holds_word h⟩
      · obtain ⟨w', hw', hc⟩ := ih h
        exact ⟨w', List.mem_cons_of_mem _ hw', hc⟩

omit [DecidableEq τ] in
theorem Matches.holds (h : Matches p m) {a : τ × Glyph} (ha : a ∈ m) :
    p.holds a.2.toChar = true := by
  induction h with
  | empty | star_nil => simp at ha
  | one h =>
    rw [List.mem_singleton.mp ha]
    exact h
  | seq _ _ hp hq => exact Bool.or_eq_true_iff.mpr ((List.mem_append.mp ha).imp hp hq)
  | left _ hp => exact Bool.or_eq_true_iff.mpr (.inl (hp ha))
  | right _ hq => exact Bool.or_eq_true_iff.mpr (.inr (hq ha))
  | star_append _ _ hp hrest => exact (List.mem_append.mp ha).elim hp hrest

omit [DecidableEq τ] in
theorem Matches.starts (h : Matches p m) {l : τ} {g : Glyph} (hg : (l, g) ∈ m.head?) :
    p.starts g.toChar = true := by
  induction h with
  | empty | star_nil => cases hg
  | one h =>
    cases hg
    exact h
  | @seq p q m n hm _ hp hq =>
    refine Bool.or_eq_true_iff.mpr ?_
    cases m with
    | nil => exact .inr (Bool.and_eq_true_iff.mpr ⟨matches_nil_iff.mp hm, hq hg⟩)
    | cons a m => exact .inl (hp hg)
  | left _ hp => exact Bool.or_eq_true_iff.mpr (.inl (hp hg))
  | right _ hq => exact Bool.or_eq_true_iff.mpr (.inr (hq hg))
  | @star_append p m n _ _ hp hrest =>
    cases m with
    | nil => exact hrest hg
    | cons a m => exact hp hg

omit [DecidableEq τ] in
theorem Matches.ends (h : Matches p m) {l : τ} {g : Glyph} (hg : (l, g) ∈ m.getLast?) :
    p.ends g.toChar = true := by
  induction h with
  | empty | star_nil => cases hg
  | one h =>
    cases hg
    exact h
  | @seq p q m n _ hn hp hq =>
    refine Bool.or_eq_true_iff.mpr ?_
    rcases List.eq_nil_or_concat n with rfl | ⟨n, a, rfl⟩
    · exact .inr (Bool.and_eq_true_iff.mpr ⟨matches_nil_iff.mp hn, hp (by simpa using hg)⟩)
    · exact .inl (hq (by simpa using hg))
  | left _ hp => exact Bool.or_eq_true_iff.mpr (.inl (hp hg))
  | right _ hq => exact Bool.or_eq_true_iff.mpr (.inr (hq hg))
  | @star_append p m n _ _ hp hrest =>
    rcases List.eq_nil_or_concat n with rfl | ⟨n, a, rfl⟩
    · exact hp (by simpa using hg)
    · exact hrest (by simpa using hg)

theorem starts_of_accepts {t : Text} (h : p.accepts t = true) {g : Glyph} (hg : g ∈ t.head?) :
    p.starts g.toChar = true := by
  obtain ⟨m, hm, rfl⟩ := accepts_iff.mp h
  rw [List.head?_map] at hg
  obtain ⟨⟨l, g⟩, ha, rfl⟩ := Option.map_eq_some_iff.mp hg
  exact hm.starts ha

theorem ends_of_accepts {t : Text} (h : p.accepts t = true) {g : Glyph} (hg : g ∈ t.getLast?) :
    p.ends g.toChar = true := by
  obtain ⟨m, hm, rfl⟩ := accepts_iff.mp h
  rw [List.getLast?_map] at hg
  obtain ⟨⟨l, g⟩, ha, rfl⟩ := Option.map_eq_some_iff.mp hg
  exact hm.ends ha

theorem holds_of_accepts {t : Text} (h : p.accepts t = true) {g : Glyph} (hg : g ∈ t) :
    p.holds g.toChar = true := by
  obtain ⟨m, hm, rfl⟩ := accepts_iff.mp h
  obtain ⟨a, ha, rfl⟩ := List.mem_map.mp hg
  exact hm.holds ha

end Pattern

/-- A glyph with a label is one that the label's part of the text has. -/
theorem mem_labelled {τ : Type} [DecidableEq τ] {l : τ} {m : List (τ × Glyph)} {g : Glyph} :
    g ∈ labelled l m ↔ (l, g) ∈ m := by
  simp [labelled]

end CallerTree
