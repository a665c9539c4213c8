import CallerTree.Occurrence
import CallerTree.Proofs.Pieces

/-!
# Lines printed by tools

A tool prints one occurrence per line, in one of two formats, and the locators read the lines back.
This module has the two formats as functions and says exactly which texts are read as which
occurrences.

## What can go wrong

Both formats put a path in front of a separator that a path may contain. The reader cuts at the
first separator, so a path with a colon in it, or with a blank in the other format, is cut short and
the rest of it is read as something else. Carriage returns at the end of a line are not part of it.
Everything else is read back as it was printed, and the readers are characterised without any
condition (`ofGrepLine?_eq_some_iff`, `ofIndexLine?_eq_some_iff`).

## Main definitions

* `Text.unlines`, `Text.lines` — lines as they are printed, and the lines of a text
* `ToolFormat` — the two formats, with the line of an occurrence and the readers of a line and of an
  output

## Main results

* `Occurrence.outputLines_unlines` — the lines that are read from a printed text
* `ToolFormat.read?_line` — reading back
-/

namespace CallerTree

namespace Text

theorem contains_singleton_iff {t : Text} {g : Glyph} :
    t.contains [g] = true ↔ g ∈ t := by
  induction t with
  | nil => simp [contains]
  | cons h t ih =>
    by_cases hg : h = g
    · simp [contains, startsWith, strip?, hg]
    · simp [contains, startsWith, strip?, hg, ih, Ne.symm hg]

theorem mem_substitute_iff {t new : Text} {old g : Glyph} :
    g ∈ t.substitute old new ↔ g ∈ t ∧ g ≠ old ∨ old ∈ t ∧ g ∈ new := by
  rw [substitute, List.mem_flatMap]
  constructor
  · rintro ⟨h, hh, hg⟩
    by_cases hold : h = old
    · rw [if_pos hold] at hg
      exact .inr ⟨hold ▸ hh, hg⟩
    · rw [if_neg hold, List.mem_singleton] at hg
      exact .inl ⟨hg ▸ hh, hg ▸ hold⟩
  · rintro (⟨hg, hold⟩ | ⟨hold, hg⟩)
    · exact ⟨g, hg, by rw [if_neg hold]; exact List.mem_singleton_self g⟩
    · exact ⟨old, hold, by rw [if_pos rfl]; exact hg⟩

theorem strip?_eq_some_iff {t lead rest : Text} :
    t.strip? lead = some rest ↔ t = lead ++ rest := by
  induction lead generalizing t with
  | nil => simp
  | cons g lead ih =>
    cases t with
    | nil => simp [strip?]
    | cons h t =>
      rw [strip?]
      split <;> simp_all

/-! ### Cutting at the first separator -/

@[simp] theorem cut?_cons_self (g : Glyph) (t : Text) : cut? (g :: t) g = some ([], t) := by
  simp [cut?]

theorem cut?_cons_of_ne {g sep : Glyph} (hg : g ≠ sep) (t : Text) :
    cut? (g :: t) sep = (cut? t sep).map fun p => (g :: p.1, p.2) := by
  simp only [cut?, List.dropWhile, List.takeWhile, hg, ne_eq, not_false_eq_true, decide_true]
  cases List.dropWhile (fun x => decide (¬ x = sep)) t <;> rfl

/-- The cut is at the first separator, so there is at most one. -/
theorem cut?_eq_some_iff {t before after : Text} {sep : Glyph} :
    t.cut? sep = some (before, after) ↔ t = before ++ sep :: after ∧ sep ∉ before := by
  induction t generalizing before with
  | nil => simp [cut?]
  | cons g t ih =>
    by_cases hg : g = sep
    · subst hg
      rw [cut?_cons_self]
      cases before with
      | nil => simp
      | cons h before =>
        constructor
        · intro heq
          cases heq
        · rintro ⟨heq, hsep⟩
          obtain ⟨rfl, -⟩ := List.cons.inj heq
          exact absurd List.mem_cons_self hsep
    · rw [cut?_cons_of_ne hg, Option.map_eq_some_iff]
      constructor
      · rintro ⟨⟨before', after'⟩, h, heq⟩
        obtain ⟨rfl, rfl⟩ := Prod.mk.inj heq
        obtain ⟨rfl, hsep⟩ := ih.mp h
        exact ⟨rfl, by simpa [Ne.symm hg] using hsep⟩
      · rintro ⟨h, hsep⟩
        cases before with
        | nil =>
          obtain ⟨rfl, -⟩ := List.cons.inj h
          exact absurd rfl hg
        | cons h' before =>
          obtain ⟨rfl, rfl⟩ := List.cons.inj h
          exact ⟨(before, after), ih.mpr ⟨rfl, fun hmem => hsep (List.mem_cons_of_mem _ hmem)⟩, rfl⟩

theorem cut?_append_cons {t : Text} {sep : Glyph} (h : sep ∉ t) (u : Text) :
    cut? (t ++ sep :: u) sep = some (t, u) :=
  cut?_eq_some_iff.mpr ⟨rfl, h⟩

/-! ### Cutting at the last separator -/

theorem exists_last_of_mem {t : Text} {sep : Glyph} (h : sep ∈ t) :
    ∃ before after, t = before ++ sep :: after ∧ sep ∉ after := by
  obtain ⟨after, before, heq, hnot⟩ := List.eq_append_cons_of_mem (List.mem_reverse.mpr h)
  refine ⟨before.reverse, after.reverse, ?_, mt List.mem_reverse.mp hnot⟩
  rw [← t.reverse_reverse, heq]
  simp

theorem cutLast?_append_cons {sep : Glyph} (before : Text) {after : Text} (h : sep ∉ after) :
    cutLast? (before ++ sep :: after) sep = some (before, after) := by
  have hreverse : (before ++ sep :: after).reverse = after.reverse ++ sep :: before.reverse := by
    simp
  rw [cutLast?, hreverse, cut?_append_cons (mt List.mem_reverse.mp h)]
  simp

theorem cutLast?_of_not_mem {t : Text} {sep : Glyph} (h : sep ∉ t) : cutLast? t sep = none := by
  rw [cutLast?, Option.map_eq_none_iff, Option.eq_none_iff_forall_not_mem]
  rintro ⟨after, before⟩ hcut
  obtain ⟨heq, -⟩ := cut?_eq_some_iff.mp hcut
  exact h (List.mem_reverse.mp (heq ▸ List.mem_append_right _ List.mem_cons_self))

/-- A text without the separator that ends another one ends what stands after a separator there. -/
theorem suffix_of_suffix_append_cons {s before after : Text} {sep : Glyph} (hs : sep ∉ s)
    (h : s <:+ before ++ sep :: after) : s <:+ after := by
  have hafter : sep :: after <:+ before ++ sep :: after := ⟨before, rfl⟩
  rcases List.suffix_or_suffix_of_suffix h hafter with h | h
  · exact (List.suffix_cons_iff.mp h).resolve_left fun heq => hs (heq ▸ List.mem_cons_self)
  · exact absurd (h.subset List.mem_cons_self) hs

/-! ### Numerals -/

theorem digit?_char {c : Char} (h : c.isDigit = true) :
    digit? (.char c) = some (c.toNat - '0'.toNat) := by
  rw [digit?, if_pos h]

/-- Digits are read from the left, each one after ten times what stands before it. -/
theorem foldlM_digit? {cs : List Char} (h : ∀ c ∈ cs, c.isDigit = true) :
    ∀ n, (ofChars cs).foldlM (fun n g => (digit? g).map (n * 10 + ·)) n =
      some (Nat.ofDigitChars 10 cs n) := by
  induction cs with
  | nil => exact fun n => rfl
  | cons c cs ih =>
    intro n
    obtain ⟨hc, hcs⟩ := List.forall_mem_cons.mp h
    rw [Nat.ofDigitChars_cons, ofChars, List.map_cons, List.foldlM_cons, digit?_char hc,
      Nat.mul_comm 10 n]
    exact ih hcs _

theorem forall_isDigit_toDigits (n : Nat) : ∀ c ∈ Nat.toDigits 10 n, c.isDigit = true :=
  fun _ hc => Nat.isDigit_of_mem_toDigits (by decide) (by decide) hc

theorem exists_ofNat_eq_cons (n : Nat) :
    ∃ c cs, ofNat n = .char c :: cs ∧ c.isDigit = true := by
  obtain ⟨c, cs, hcs⟩ := List.exists_cons_of_ne_nil (Nat.toDigits_ne_nil (n := n) (b := 10))
  refine ⟨c, ofChars cs, ?_, forall_isDigit_toDigits n c (hcs ▸ List.mem_cons_self)⟩
  rw [ofNat, hcs]
  rfl

theorem readNat?_ofChars {cs : List Char} (hne : cs ≠ []) (h : ∀ c ∈ cs, c.isDigit = true) :
    readNat? (ofChars cs) = some (Nat.ofDigitChars 10 cs 0) := by
  have hread := foldlM_digit? h 0
  obtain ⟨c, cs, rfl⟩ := List.exists_cons_of_ne_nil hne
  exact hread

theorem readNat?_ofNat (n : Nat) : readNat? (ofNat n) = some n := by
  rw [ofNat, readNat?_ofChars Nat.toDigits_ne_nil (forall_isDigit_toDigits n),
    Nat.ofDigitChars_toDigits (by decide) (by decide)]

/-- What starts with a digit has no sign. -/
theorem readInt?_of_isDigit {c : Char} (hc : c.isDigit = true) (t : Text) :
    readInt? (.char c :: t) = (readNat? (.char c :: t)).bind fun n => fit64? n := by
  unfold readInt?
  split
  · rename_i heq
    obtain ⟨heq, -⟩ := List.cons.inj heq
    cases heq
    exact absurd hc (by decide)
  · rename_i heq
    obtain ⟨heq, -⟩ := List.cons.inj heq
    cases heq
    exact absurd hc (by decide)
  · rfl

/-- A numeral without a sign is read as it was written, if it fits into 64 signed bits. -/
theorem readInt?_ofNat {n : Nat} (h : (n : Int) ≤ maxInt64) :
    readInt? (ofNat n) = some (n : Int) := by
  have hread := readNat?_ofNat n
  obtain ⟨c, cs, hcs, hc⟩ := exists_ofNat_eq_cons n
  rw [hcs] at hread ⊢
  rw [readInt?_of_isDigit hc, hread, Option.bind_some, fit64?,
    if_pos ⟨by simp only [minInt64]; omega, h⟩]

theorem exists_char_of_mem_ofNat {n : Nat} {g : Glyph} (h : g ∈ ofNat n) :
    ∃ c, g = .char c ∧ c.isDigit = true := by
  obtain ⟨c, hc, rfl⟩ := List.mem_map.mp h
  exact ⟨c, rfl, forall_isDigit_toDigits n c hc⟩

theorem not_mem_ofNat {c : Char} (hc : c.isDigit = false) (n : Nat) : Glyph.char c ∉ ofNat n := by
  intro hmem
  obtain ⟨d, hd, hdigit⟩ := exists_char_of_mem_ofNat hmem
  cases hd
  exact Bool.false_ne_true (hc.symm.trans hdigit)

/-! ### Lines -/

/-- Lines, each ended by a line feed. -/
def unlines (ls : List Text) : Text := ls.flatMap (· ++ "\n")

@[simp] theorem unlines_nil : unlines [] = [] := rfl

theorem unlines_cons (l : Text) (ls : List Text) :
    unlines (l :: ls) = l ++ Glyph.char '\n' :: unlines ls := by
  change l ++ [Glyph.char '\n'] ++ unlines ls = _
  rw [List.append_assoc, List.singleton_append]

/-- Behind the last line feed an empty piece is left. -/
theorem split_unlines {ls : List Text} (h : ∀ l ∈ ls, Glyph.char '\n' ∉ l) :
    (unlines ls).split '\n' = ls ++ [[]] := by
  induction ls with
  | nil => rfl
  | cons l ls ih =>
    obtain ⟨hl, hls⟩ := List.forall_mem_cons.mp h
    have hsingle : pieces (· = Glyph.char '\n') l = [l] := pieces_of_forall_not fun g hg => by
      rw [decide_eq_true_iff]
      rintro rfl
      exact hl hg
    rw [unlines_cons, split, pieces_append_cons l (by simp), hsingle, List.singleton_append]
    exact congrArg (l :: ·) (ih hls)

theorem unlines_append (ls ls' : List Text) : unlines (ls ++ ls') = unlines ls ++ unlines ls' :=
  List.flatMap_append

/-- The lines of a text; a line feed at its end starts no further line. -/
def lines (t : Text) : List Text :=
  let parts := t.split '\n'
  if parts.getLast? = some [] then parts.dropLast else parts

theorem lines_unlines {ls : List Text} (h : ∀ l ∈ ls, Glyph.char '\n' ∉ l) :
    lines (unlines ls) = ls := by
  rw [lines, split_unlines h, if_pos (by simp), List.dropLast_concat]

/-- What is printed line by line is read line by line, if each line is read back. -/
theorem mapM_map_eq_some_iff {α : Type} {read : Text → Option α} {print : α → Text} {l : List α} :
    (l.map print).mapM read = some l ↔ ∀ a ∈ l, read (print a) = some a := by
  induction l with
  | nil => simp
  | cons a l ih =>
    rw [List.forall_mem_cons, ← ih, List.map_cons, List.mapM_cons]
    cases read (print a) with
    | none => simp
    | some b => cases (l.map print).mapM read <;> simp

theorem exists_of_mem_split_unlines {ls : List Text} {l : Text}
    (h : l ∈ (unlines ls).split '\n') : l = [] ∨ ∃ printed ∈ ls, l ∈ printed.split '\n' := by
  induction ls with
  | nil => exact .inl (List.mem_singleton.mp h)
  | cons printed ls ih =>
    rw [unlines_cons, split, pieces_append_cons printed (by simp)] at h
    rcases List.mem_append.mp h with h | h
    · exact .inr ⟨printed, List.mem_cons_self, h⟩
    · exact (ih h).imp_right fun ⟨printed', hmem, h⟩ => ⟨printed', List.mem_cons_of_mem _ hmem, h⟩

/-- Only the last line of a text goes on with what is written after it on the same line. -/
theorem exists_tail_of_mem_split {t rest l : Text} (hrest : Glyph.char '\n' ∉ rest)
    (h : l ∈ (t ++ rest).split '\n') :
    (∀ g ∈ l, g ∈ t) ∨ ∃ tail, l = tail ++ rest ∧
      (tail = t ∨ ∃ before, t = before ++ Glyph.char '\n' :: tail) := by
  have hsingle : ∀ {tail : Text}, Glyph.char '\n' ∉ tail →
      split (tail ++ rest) '\n' = [tail ++ rest] := by
    intro tail htail
    refine pieces_of_forall_not fun g hg hfeed => ?_
    obtain rfl := of_decide_eq_true hfeed
    exact (List.mem_append.mp hg).elim htail hrest
  by_cases ht : Glyph.char '\n' ∈ t
  · obtain ⟨before, tail, rfl, htail⟩ := exists_last_of_mem ht
    rw [List.append_assoc, List.cons_append, split, pieces_append_cons before (by simp)] at h
    rcases List.mem_append.mp h with h | h
    · exact .inl fun g hg => List.mem_append_left _ (mem_of_mem_pieces h hg)
    · rw [← split, hsingle htail] at h
      exact .inr ⟨tail, List.mem_singleton.mp h, .inr ⟨before, rfl⟩⟩
  · rw [hsingle ht] at h
    exact .inr ⟨t, List.mem_singleton.mp h, .inl rfl⟩

/-- What does not end in the glyph keeps its end. -/
theorem dropEndWhile_eq_self {t : Text} {g : Glyph} (h : t.getLast? ≠ some g) :
    dropEndWhile (· = g) t = t := by
  refine List.rdropWhile_eq_self_iff.mpr fun hne => ?_
  rw [decide_eq_true_iff]
  intro heq
  exact h (by rw [List.getLast?_eq_some_getLast hne, heq])

/-- Dropping from the end stops at a glyph of another kind. -/
theorem dropEndWhile_append_cons {p : Glyph → Bool} {g : Glyph} (hg : p g = false) (t u : Text) :
    dropEndWhile p (t ++ g :: u) = t ++ g :: dropEndWhile p u := by
  induction u using List.reverseRecOn with
  | nil =>
    have hnil : dropEndWhile p [] = [] := rfl
    rw [hnil]
    exact List.rdropWhile_concat_neg p t g (by simp [hg])
  | append_singleton u a ih =>
    have hassoc : t ++ g :: (u ++ [a]) = (t ++ g :: u) ++ [a] := by simp
    by_cases ha : p a = true
    · have hleft : dropEndWhile p (t ++ g :: u ++ [a]) = dropEndWhile p (t ++ g :: u) :=
        List.rdropWhile_concat_pos p _ a ha
      have hright : dropEndWhile p (u ++ [a]) = dropEndWhile p u :=
        List.rdropWhile_concat_pos p u a ha
      rw [hassoc, hleft, hright, ih]
    · have hleft : dropEndWhile p (t ++ g :: u ++ [a]) = t ++ g :: u ++ [a] :=
        List.rdropWhile_concat_neg p _ a ha
      have hright : dropEndWhile p (u ++ [a]) = u ++ [a] :=
        List.rdropWhile_concat_neg p u a ha
      rw [hassoc, hleft, hright, ← hassoc]

/-- What is dropped from the end is a run of the class behind a glyph of another kind. -/
theorem dropEndWhile_append {p : Glyph → Bool} {t u : Text} (hu : ∀ g ∈ u, p g = true)
    (ht : ∀ g ∈ t.getLast?, p g = false) : dropEndWhile p (t ++ u) = t := by
  have hreverse : ∀ g ∈ u.reverse, p g = true := fun g hg => hu g (List.mem_reverse.mp hg)
  rw [dropEndWhile, List.reverse_append, List.dropWhile_append_of_pos hreverse]
  rcases List.eq_nil_or_concat t with rfl | ⟨t, g, rfl⟩
  · rfl
  · rw [List.concat_eq_append, List.reverse_concat,
      List.dropWhile_cons_of_neg (by simp [ht g (by simp)]), List.reverse_cons,
      List.reverse_reverse]

theorem eq_dropEndWhile_append (p : Glyph → Bool) (t : Text) :
    t = dropEndWhile p t ++ t.rtakeWhile p :=
  (List.rdropWhile_append_rtakeWhile (p := p) (l := t)).symm

/-- Trimming takes the blanks in front and those at the end. -/
theorem trim_append {u v w : Text} {c : Glyph} (hu : ∀ g ∈ u, isBlank g = true)
    (hv : ∀ g ∈ v.head?, isBlank g = false) (hc : isBlank c = false) :
    trim (u ++ v ++ c :: w) = v ++ c :: dropEndWhile isBlank w := by
  have hfront : (v ++ c :: w).dropWhile isBlank = v ++ c :: w := by
    cases v with
    | nil => exact List.dropWhile_cons_of_neg (by simp [hc])
    | cons g v => exact List.dropWhile_cons_of_neg (by simp [hv g rfl])
  rw [trim, List.append_assoc, List.dropWhile_append_of_pos hu, hfront,
    dropEndWhile_append_cons hc]

/-- A text is what trimming leaves of it, between blanks. -/
theorem eq_append_trim (t : Text) :
    t = t.takeWhile isBlank ++ t.trim ++ (t.dropWhile isBlank).rtakeWhile isBlank := by
  rw [List.append_assoc, trim, ← eq_dropEndWhile_append, List.takeWhile_append_dropWhile]

theorem getLast?_append_cons_ne {g x : Glyph} (hg : g ≠ x) {u : Text} (hu : u.getLast? ≠ some x)
    (t : Text) : (t ++ g :: u).getLast? ≠ some x := by
  rw [List.getLast?_append_of_ne_nil _ (List.cons_ne_nil g u), List.getLast?_cons]
  cases hlast : u.getLast? with
  | none => simpa using hg
  | some y => simpa [hlast] using hu

theorem isAllBlank_eq_false {t : Text} {g : Glyph} (hg : g ∈ t) (hblank : isBlank g = false) :
    t.isAllBlank = false :=
  List.all_eq_false.mpr ⟨g, hg, by simp [hblank]⟩

theorem isBlank_of_isDigit {c : Char} (hc : c.isDigit = true) : isBlank (.char c) = false := by
  have hrange := Char.isDigit_iff_toNat.mp hc
  grind [isBlank, Glyph.toChar, isBlankChar]

end Text

namespace Occurrence

/-! ### The lines of an output -/

/-- A line that is read as it stands: one line, without a carriage return at its end, and not
blank. -/
structure IsTidyLine (l : Text) : Prop where
  feed_not_mem : Glyph.char '\n' ∉ l
  getLast?_ne : l.getLast? ≠ some (Glyph.char '\r')
  not_blank : l.isAllBlank = false

theorem outputLines_unlines {ls : List Text} (h : ∀ l ∈ ls, Glyph.char '\n' ∉ l) :
    outputLines (Text.unlines ls) =
      (ls.map (Text.dropEndWhile (· = Glyph.char '\r'))).filter fun l => !l.isAllBlank := by
  rw [outputLines, Text.split_unlines h, List.map_append, List.filter_append]
  exact List.append_nil _

/-- Carriage returns and blank lines are dropped, so other lines would not come back. -/
theorem outputLines_unlines_of_isTidyLine {ls : List Text} (h : ∀ l ∈ ls, IsTidyLine l) :
    outputLines (Text.unlines ls) = ls := by
  rw [outputLines_unlines fun l hl => (h l hl).feed_not_mem]
  have hmap : ls.map (Text.dropEndWhile (· = Glyph.char '\r')) = ls :=
    (List.map_congr_left fun l hl => Text.dropEndWhile_eq_self (h l hl).getLast?_ne).trans
      (List.map_id ls)
  rw [hmap]
  exact List.filter_eq_self.mpr fun l hl => by rw [(h l hl).not_blank]; rfl

/-! ### The readers of a line -/

/-- The first colon ends the file and the second the number; the code may have more of them. -/
theorem ofGrepLine?_eq_some_iff {t : Text} {o : Occurrence} :
    ofGrepLine? t = some o ↔ ∃ number, t = o.file ++ Glyph.char ':' :: (number ++
        Glyph.char ':' :: o.code) ∧ Glyph.char ':' ∉ o.file ∧ Glyph.char ':' ∉ number ∧
      readLineNumber? number = some o.line ∧ o.scope = [] := by
  simp only [ofGrepLine?, Option.bind_eq_bind, Option.pure_def, Option.bind_eq_some_iff,
    Option.some.injEq, Prod.exists, Text.cut?_eq_some_iff]
  constructor
  · rintro ⟨file, _, ⟨rfl, hfile⟩, number, code, ⟨rfl, hnumber⟩, line, hline, rfl⟩
    exact ⟨number, rfl, hfile, hnumber, hline, rfl⟩
  · rintro ⟨number, rfl, hfile, hnumber, hline, hscope⟩
    refine ⟨o.file, _, ⟨rfl, hfile⟩, number, o.code, ⟨rfl, hnumber⟩, o.line, hline, ?_⟩
    rw [← hscope]

theorem ofIndexLine?_eq_some_iff {t : Text} {o : Occurrence} :
    ofIndexLine? t = some o ↔ ∃ number, t = o.file ++ Glyph.char ' ' :: (o.scope ++
        Glyph.char ' ' :: (number ++ Glyph.char ' ' :: o.code)) ∧ Glyph.char ' ' ∉ o.file ∧
      Glyph.char ' ' ∉ o.scope ∧ Glyph.char ' ' ∉ number ∧
      readLineNumber? number = some o.line := by
  simp only [ofIndexLine?, Option.bind_eq_bind, Option.pure_def, Option.bind_eq_some_iff,
    Option.some.injEq, Prod.exists, Text.cut?_eq_some_iff]
  constructor
  · rintro ⟨file, _, ⟨rfl, hfile⟩, scope, _, ⟨rfl, hscope⟩, number, code, ⟨rfl, hnumber⟩, line,
      hline, rfl⟩
    exact ⟨number, rfl, hfile, hscope, hnumber, hline⟩
  · rintro ⟨number, rfl, hfile, hscope, hnumber, hline⟩
    exact ⟨o.file, _, ⟨rfl, hfile⟩, o.scope, _, ⟨rfl, hscope⟩, number, o.code, ⟨rfl, hnumber⟩,
      o.line, hline, rfl⟩

/-- A line number that a file can have. -/
def IsLineNumber (n : Int) : Prop := 1 ≤ n ∧ n ≤ maxInt64

theorem IsLineNumber.exists_ofNat {n : Int} (h : IsLineNumber n) :
    ∃ k : Nat, n = k ∧ Text.ofInt n = Text.ofNat k := by
  obtain ⟨k, rfl⟩ := Int.eq_ofNat_of_zero_le (show 0 ≤ n by have := h.1; omega)
  exact ⟨k, rfl, rfl⟩

theorem readLineNumber?_ofInt {n : Int} (h : IsLineNumber n) :
    readLineNumber? (Text.ofInt n) = some n := by
  obtain ⟨k, rfl, htext⟩ := h.exists_ofNat
  rw [readLineNumber?, htext, Text.readInt?_ofNat h.2, Option.bind_some, if_pos h.1]

theorem IsLineNumber.not_mem_ofInt {n : Int} (h : IsLineNumber n) {c : Char}
    (hc : c.isDigit = false) : Glyph.char c ∉ Text.ofInt n := by
  obtain ⟨k, -, htext⟩ := h.exists_ofNat
  rw [htext]
  exact Text.not_mem_ofNat hc k

end Occurrence

/-! ### The two formats -/

/-- The formats in which tools print occurrences. -/
inductive ToolFormat where
  /-- That of the text search: `file:line:code`. -/
  | grep
  /-- That of the index: `file scope line code`. -/
  | index
  deriving DecidableEq, Repr

namespace ToolFormat

open Occurrence

/-- What stands between the parts of a line. -/
def separator : ToolFormat → Char
  | grep => ':'
  | index => ' '

/-- The parts of a line in front of the number. -/
def fields : ToolFormat → Occurrence → List Text
  | grep, o => [o.file]
  | index, o => [o.file, o.scope]

/-- The line of an occurrence, with its number spelled as given. -/
def lineWith (number : Text) : ToolFormat → Occurrence → Text
  | grep, o => o.file ++ Glyph.char ':' :: (number ++ Glyph.char ':' :: o.code)
  | index, o => o.file ++ Glyph.char ' ' :: (o.scope ++ Glyph.char ' ' :: (number ++
      Glyph.char ' ' :: o.code))

/-- The line of an occurrence. -/
def line (f : ToolFormat) (o : Occurrence) : Text := f.lineWith (Text.ofInt o.line) o

/-- The reader of a line. -/
def read? : ToolFormat → Text → Option Occurrence
  | grep => ofGrepLine?
  | index => ofIndexLine?

/-- What a line says of an occurrence: the text search knows no scopes. -/
def told : ToolFormat → Occurrence → Occurrence
  | grep, o => { o with scope := [] }
  | index, o => o

/-- The occurrences in the output of a tool. -/
def readAll (f : ToolFormat) (output : Text) : List Occurrence :=
  (outputLines output).filterMap f.read?

@[simp] theorem readAll_nil (f : ToolFormat) : f.readAll [] = [] := rfl

variable {f : ToolFormat} {o : Occurrence}

/-- The reader cuts at the first separator, so the parts before the number must be free of it. The
code, which comes last, may hold whatever it likes. -/
theorem read?_line (hline : IsLineNumber o.line)
    (hfields : ∀ t ∈ f.fields o, Glyph.char f.separator ∉ t) :
    f.read? (f.line o) = some (f.told o) := by
  have hread := readLineNumber?_ofInt hline
  cases f with
  | grep =>
    exact ofGrepLine?_eq_some_iff.mpr ⟨Text.ofInt o.line, rfl, hfields _ List.mem_cons_self,
      hline.not_mem_ofInt (by decide), hread, rfl⟩
  | index =>
    obtain ⟨hfile, hscope⟩ := List.forall_mem_cons.mp hfields
    exact ofIndexLine?_eq_some_iff.mpr ⟨Text.ofInt o.line, rfl, hfile,
      hscope _ List.mem_cons_self, hline.not_mem_ofInt (by decide), hread⟩

/-- The line has the digits of a number in it, so it is not blank, and it ends as the code does. -/
theorem isTidyLine_line (hline : IsLineNumber o.line)
    (hfeed : ∀ t ∈ o.code :: f.fields o, Glyph.char '\n' ∉ t)
    (hreturn : o.code.getLast? ≠ some (Glyph.char '\r')) : IsTidyLine (f.line o) := by
  obtain ⟨hcode, hfields⟩ := List.forall_mem_cons.mp hfeed
  have hnumber := hline.not_mem_ofInt (c := '\n') (by decide)
  obtain ⟨k, -, htext⟩ := hline.exists_ofNat
  obtain ⟨c, cs, hcs, hc⟩ := Text.exists_ofNat_eq_cons k
  have hblank := Text.isBlank_of_isDigit hc
  cases f with
  | grep =>
    have hfile := hfields _ List.mem_cons_self
    exact {
      feed_not_mem := by simp [line, lineWith, hfile, hcode, hnumber]
      getLast?_ne := by
        refine Text.getLast?_append_cons_ne (by decide) ?_ _
        exact Text.getLast?_append_cons_ne (by decide) hreturn _
      not_blank := Text.isAllBlank_eq_false (by simp [line, lineWith, htext, hcs]) hblank }
  | index =>
    obtain ⟨hfile, hscope⟩ := List.forall_mem_cons.mp hfields
    have hscope := hscope _ List.mem_cons_self
    exact {
      feed_not_mem := by simp [line, lineWith, hfile, hscope, hcode, hnumber]
      getLast?_ne := by
        refine Text.getLast?_append_cons_ne (by decide) ?_ _
        refine Text.getLast?_append_cons_ne (by decide) ?_ _
        exact Text.getLast?_append_cons_ne (by decide) hreturn _
      not_blank := Text.isAllBlank_eq_false (by simp [line, lineWith, htext, hcs]) hblank }

/-- Lines that are read as they stand are read one by one. -/
theorem readAll_unlines {os : List Occurrence} (h : ∀ o ∈ os, IsTidyLine (f.line o)) :
    f.readAll (Text.unlines (os.map f.line)) = os.filterMap fun o => f.read? (f.line o) := by
  rw [readAll, outputLines_unlines_of_isTidyLine (List.forall_mem_map.mpr h), List.filterMap_map]
  rfl

end ToolFormat

end CallerTree
