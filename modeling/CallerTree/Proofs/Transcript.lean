import CallerTree.Proofs.ToolOutput

/-!
# What tools print is what is read

The output of a tool is more than the lines of occurrences: some lines are blank, some hold warnings
and the like, and lines may end in a carriage return besides the line feed. Reading takes the lines
apart, drops carriage returns and blank lines, and passes over every line that it cannot read. This
module shows that the occurrences printed are the occurrences read, and that there is only one way
to print what has been read.

## Why noise does no harm

Carriage returns are dropped before a line is read, so a line that would be refused might be
accepted without them. It is not: what ends a line that is accepted belongs to the code, so whatever
is accepted is also accepted with something behind it (`ToolFormat.read?_append`).

## The spelling of numbers

A line number is printed in one way and read in many: with a plus sign, and with zeros in front.
This is all that is lost when a line is read (`Occurrence.readLineNumber?_eq_some_iff`).

## Main definitions

* `Text.Spells` — the spellings of a number
* `ToolFormat.Carries` — an occurrence that can be read from its line
* `ToolFormat.Printed`, `Text.Joined` — the lines of an output, and the output

## Main results

* `ToolFormat.read?_eq_some_iff` — the lines that are accepted
* `ToolFormat.printed_occurrences_are_read_back` — printing and reading
-/

namespace CallerTree

namespace Text

/-! ### The spelling of numbers -/

/-- A numeral of `n`, which may have a plus sign and zeros in front. -/
def Spells (t : Text) (n : Int) : Prop :=
  ∃ sign : Text, (sign = [] ∨ sign = "+") ∧
    ∃ zeros, t = sign ++ List.replicate zeros (Glyph.char '0') ++ ofInt n

theorem toNat_of_isDigit {c : Char} (hc : c.isDigit = true) : 48 ≤ c.toNat ∧ c.toNat ≤ 57 :=
  Char.isDigit_iff_toNat.mp hc

theorem digitChar_of_isDigit {c : Char} (hc : c.isDigit = true) :
    Nat.digitChar (c.toNat - '0'.toNat) = c := by
  have hrange := toNat_of_isDigit hc
  refine Char.toNat_inj.mp ?_
  change (Nat.digitChar (c.toNat - 48)).toNat = c.toNat
  rw [Nat.toNat_digitChar_of_lt_ten (by omega)]
  omega

/-- Digits behind a numeral make the numeral of a larger number, if there is something before
them. -/
theorem toDigits_append_digits {cs : List Char} (hcs : ∀ c ∈ cs, c.isDigit = true) :
    ∀ {n : Nat}, 0 < n → Nat.toDigits 10 n ++ cs = Nat.toDigits 10 (Nat.ofDigitChars 10 cs n) := by
  induction cs with
  | nil =>
    intro n _
    rw [List.append_nil, Nat.ofDigitChars_nil]
  | cons c cs ih =>
    intro n hn
    obtain ⟨hc, hcs⟩ := List.forall_mem_cons.mp hcs
    have hdigit : c.toNat - '0'.toNat < 10 := by
      have hrange := toNat_of_isDigit hc
      change c.toNat - 48 < 10
      omega
    have hstep := Nat.toDigits_append_toDigits (by decide) hn hdigit
    rw [Nat.toDigits_of_lt_base hdigit, digitChar_of_isDigit hc] at hstep
    rw [Nat.ofDigitChars_cons, ← ih hcs (by omega), ← hstep, List.append_assoc,
      List.singleton_append]

/-- Digits are a numeral behind zeros. -/
theorem eq_replicate_append_toDigits {cs : List Char} (hcs : ∀ c ∈ cs, c.isDigit = true)
    (hpos : 0 < Nat.ofDigitChars 10 cs 0) :
    ∃ zeros, cs = List.replicate zeros '0' ++ Nat.toDigits 10 (Nat.ofDigitChars 10 cs 0) := by
  induction cs with
  | nil => simp at hpos
  | cons c cs ih =>
    obtain ⟨hc, hrest⟩ := List.forall_mem_cons.mp hcs
    have hrange := toNat_of_isDigit hc
    rw [Nat.ofDigitChars_cons, Nat.mul_zero, Nat.zero_add] at hpos ⊢
    by_cases hzero : c = '0'
    · subst hzero
      obtain ⟨zeros, heq⟩ := ih hrest hpos
      refine ⟨zeros + 1, ?_⟩
      rw [List.replicate_succ, List.cons_append]
      exact congrArg ('0' :: ·) heq
    · have hdigit : 0 < c.toNat - '0'.toNat ∧ c.toNat - '0'.toNat < 10 := by
        have hne : c.toNat ≠ 48 := fun h => hzero (Char.toNat_inj.mp h)
        change 0 < c.toNat - 48 ∧ c.toNat - 48 < 10
        omega
      refine ⟨0, ?_⟩
      rw [← toDigits_append_digits hrest hdigit.1, Nat.toDigits_of_lt_base hdigit.2,
        digitChar_of_isDigit hc]
      rfl

theorem exists_digits_of_foldlM {t : Text} {n k : Nat}
    (h : t.foldlM (fun n g => (digit? g).map (n * 10 + ·)) n = some k) :
    ∃ cs, t = ofChars cs ∧ (∀ c ∈ cs, c.isDigit = true) ∧ Nat.ofDigitChars 10 cs n = k := by
  induction t generalizing n with
  | nil => exact ⟨[], rfl, by simp, by simpa using h⟩
  | cons g t ih =>
    rw [List.foldlM_cons, Option.bind_eq_bind, Option.bind_eq_some_iff] at h
    obtain ⟨m, hm, h⟩ := h
    obtain ⟨d, hd, rfl⟩ := Option.map_eq_some_iff.mp hm
    obtain ⟨cs, rfl, hcs, rfl⟩ := ih h
    cases g with
    | stray b => cases hd
    | char c =>
      rw [digit?] at hd
      split at hd
      · rename_i hc
        obtain rfl := Option.some.inj hd
        refine ⟨c :: cs, rfl, List.forall_mem_cons.mpr ⟨hc, hcs⟩, ?_⟩
        rw [Nat.ofDigitChars_cons, Nat.mul_comm]
      · cases hd

theorem foldlM_of_readNat? {t : Text} {n : Nat} (h : readNat? t = some n) :
    t.foldlM (fun n g => (digit? g).map (n * 10 + ·)) 0 = some n := by
  cases t with
  | nil => cases h
  | cons g t => exact h

/-- A positive number is read from its numeral behind zeros only. -/
theorem exists_zeros_of_readNat? {t : Text} {n : Nat} (h : readNat? t = some n) (hn : 0 < n) :
    ∃ zeros, t = List.replicate zeros (Glyph.char '0') ++ ofNat n := by
  obtain ⟨cs, rfl, hcs, rfl⟩ := exists_digits_of_foldlM (foldlM_of_readNat? h)
  obtain ⟨zeros, heq⟩ := eq_replicate_append_toDigits hcs hn
  refine ⟨zeros, ?_⟩
  conv_lhs => rw [heq]
  rw [ofChars, List.map_append, List.map_replicate]
  rfl

/-- The digits of a numeral behind zeros. -/
theorem replicate_append_ofNat (zeros n : Nat) :
    List.replicate zeros (Glyph.char '0') ++ ofNat n =
      ofChars (List.replicate zeros '0' ++ Nat.toDigits 10 n) := by
  rw [ofChars, List.map_append, List.map_replicate]
  rfl

theorem forall_isDigit_replicate_append (zeros n : Nat) :
    ∀ c ∈ List.replicate zeros '0' ++ Nat.toDigits 10 n, c.isDigit = true := by
  intro c hc
  rcases List.mem_append.mp hc with hc | hc
  · rw [List.eq_of_mem_replicate hc]
    decide
  · exact forall_isDigit_toDigits n c hc

theorem readNat?_replicate_append_ofNat (zeros n : Nat) :
    readNat? (List.replicate zeros (Glyph.char '0') ++ ofNat n) = some n := by
  have hne : List.replicate zeros '0' ++ Nat.toDigits 10 n ≠ [] := by simp
  rw [replicate_append_ofNat, readNat?_ofChars hne (forall_isDigit_replicate_append zeros n),
    Nat.ofDigitChars_append, Nat.ofDigitChars_replicate_zero, Nat.mul_zero,
    Nat.ofDigitChars_toDigits (by decide) (by decide)]

theorem readInt?_replicate_append_ofNat (zeros n : Nat) :
    readInt? (List.replicate zeros (Glyph.char '0') ++ ofNat n) = fit64? n := by
  have hread := readNat?_replicate_append_ofNat zeros n
  have hdigits := forall_isDigit_replicate_append zeros n
  obtain ⟨c, cs, hcs⟩ := List.exists_cons_of_ne_nil
    (show List.replicate zeros '0' ++ Nat.toDigits 10 n ≠ [] by simp)
  rw [replicate_append_ofNat, hcs] at hread ⊢
  exact (readInt?_of_isDigit (hdigits c (hcs ▸ List.mem_cons_self)) _).trans
    (congrArg (·.bind fun n : Nat => fit64? n) hread)

theorem fit64?_eq_some_iff {n m : Int} :
    fit64? n = some m ↔ n = m ∧ minInt64 ≤ n ∧ n ≤ maxInt64 := by
  rw [fit64?]
  split
  · rename_i hfits
    simp [hfits]
  · rename_i hfits
    simp [hfits]

theorem spells_of_readInt? {t : Text} {n : Int} (h : readInt? t = some n) (hn : 1 ≤ n) :
    n ≤ maxInt64 ∧ Spells t n := by
  unfold readInt? at h
  split at h
  · obtain ⟨k, -, hfit⟩ := Option.bind_eq_some_iff.mp h
    have hneg := (fit64?_eq_some_iff.mp hfit).1
    omega
  · obtain ⟨k, hk, hfit⟩ := Option.bind_eq_some_iff.mp h
    obtain ⟨rfl, -, hmax⟩ := fit64?_eq_some_iff.mp hfit
    obtain ⟨zeros, rfl⟩ := exists_zeros_of_readNat? hk (by omega)
    exact ⟨hmax, "+", .inr rfl, zeros, rfl⟩
  · obtain ⟨k, hk, hfit⟩ := Option.bind_eq_some_iff.mp h
    obtain ⟨rfl, -, hmax⟩ := fit64?_eq_some_iff.mp hfit
    obtain ⟨zeros, rfl⟩ := exists_zeros_of_readNat? hk (by omega)
    exact ⟨hmax, [], .inl rfl, zeros, rfl⟩

theorem Spells.readInt?_eq {t : Text} {n : Nat} (h : Spells t n) : readInt? t = fit64? n := by
  obtain ⟨sign, rfl | rfl, zeros, rfl⟩ := h
  · exact readInt?_replicate_append_ofNat zeros n
  · exact congrArg (·.bind fun n : Nat => fit64? n) (readNat?_replicate_append_ofNat zeros n)

/-- A spelling has only the sign and digits in it. -/
theorem Spells.not_mem {t : Text} {n : Nat} (h : Spells t n) {c : Char} (hc : c.isDigit = false)
    (hsign : c ≠ '+') : Glyph.char c ∉ t := by
  obtain ⟨sign, hcases, zeros, rfl⟩ := h
  have hnumeral : Glyph.char c ∉ ofInt n := not_mem_ofNat hc n
  have hzeros : Glyph.char c ∉ List.replicate zeros (Glyph.char '0') := by
    intro hmem
    cases List.eq_of_mem_replicate hmem
    exact absurd hc (by decide)
  have hfront : Glyph.char c ∉ sign := by
    rcases hcases with rfl | rfl
    · exact List.not_mem_nil
    · intro hmem
      cases List.mem_singleton.mp hmem
      exact hsign rfl
  simp [hfront, hzeros, hnumeral]

end Text

/-- A line number is read from its spellings, and from nothing else. -/
theorem Occurrence.readLineNumber?_eq_some_iff {t : Text} {n : Int} :
    readLineNumber? t = some n ↔ IsLineNumber n ∧ t.Spells n := by
  rw [readLineNumber?, Option.bind_eq_some_iff]
  constructor
  · rintro ⟨m, hm, hline⟩
    split at hline
    · rename_i hpos
      obtain rfl := Option.some.inj hline
      obtain ⟨hmax, hspells⟩ := Text.spells_of_readInt? hm hpos
      exact ⟨⟨hpos, hmax⟩, hspells⟩
    · cases hline
  · rintro ⟨hline, hspells⟩
    obtain ⟨k, rfl, -⟩ := hline.exists_ofNat
    refine ⟨k, ?_, if_pos hline.1⟩
    rw [hspells.readInt?_eq, Text.fit64?_eq_some_iff]
    exact ⟨rfl, by simp only [minInt64]; omega, hline.2⟩

/-! ### The formats -/

namespace ToolFormat

open Occurrence

/-- The occurrence can be read from its line. -/
structure Carries (f : ToolFormat) (o : Occurrence) : Prop where
  isLineNumber : IsLineNumber o.line
  separator_not_mem : ∀ t ∈ f.fields o, Glyph.char f.separator ∉ t
  feed_not_mem : ∀ t ∈ o.code :: f.fields o, Glyph.char '\n' ∉ t
  getLast?_ne : o.code.getLast? ≠ some (Glyph.char '\r')

variable {f : ToolFormat} {o : Occurrence} {t : Text}

/-- The lines that are accepted are those of an occurrence, in any spelling of its number. -/
theorem read?_eq_some_iff :
    f.read? t = some o ↔ (∃ number, number.Spells o.line ∧ t = f.lineWith number o) ∧
      IsLineNumber o.line ∧ (∀ u ∈ f.fields o, Glyph.char f.separator ∉ u) ∧ f.told o = o := by
  have hspells : ∀ {number : Text} {c : Char}, IsLineNumber o.line → number.Spells o.line →
      c.isDigit = false → c ≠ '+' → Glyph.char c ∉ number := by
    intro number c hline hnumber hc hsign
    obtain ⟨k, hk, -⟩ := hline.exists_ofNat
    rw [hk] at hnumber
    exact hnumber.not_mem hc hsign
  cases f with
  | grep =>
    refine ofGrepLine?_eq_some_iff.trans ⟨?_, ?_⟩
    · rintro ⟨number, rfl, hfile, -, hread, hscope⟩
      obtain ⟨hline, hnumber⟩ := readLineNumber?_eq_some_iff.mp hread
      exact ⟨⟨number, hnumber, rfl⟩, hline, List.forall_mem_singleton.mpr hfile, by
        rw [told, ← hscope]⟩
    · rintro ⟨⟨number, hnumber, rfl⟩, hline, hfields, htold⟩
      exact ⟨number, rfl, hfields _ List.mem_cons_self,
        hspells hline hnumber (by decide) (by decide),
        readLineNumber?_eq_some_iff.mpr ⟨hline, hnumber⟩, (congrArg (·.scope) htold).symm⟩
  | index =>
    refine ofIndexLine?_eq_some_iff.trans ⟨?_, ?_⟩
    · rintro ⟨number, rfl, hfile, hscope, -, hread⟩
      obtain ⟨hline, hnumber⟩ := readLineNumber?_eq_some_iff.mp hread
      exact ⟨⟨number, hnumber, rfl⟩, hline,
        List.forall_mem_cons.mpr ⟨hfile, List.forall_mem_singleton.mpr hscope⟩, rfl⟩
    · rintro ⟨⟨number, hnumber, rfl⟩, hline, hfields, -⟩
      obtain ⟨hfile, hscope⟩ := List.forall_mem_cons.mp hfields
      exact ⟨number, rfl, hfile, hscope _ List.mem_cons_self,
        hspells hline hnumber (by decide) (by decide),
        readLineNumber?_eq_some_iff.mpr ⟨hline, hnumber⟩⟩

theorem lineWith_append (number : Text) (f : ToolFormat) (o : Occurrence) (u : Text) :
    f.lineWith number o ++ u = f.lineWith number { o with code := o.code ++ u } := by
  cases f <;> simp [lineWith]

theorem getLast?_lineWith (number : Text) (f : ToolFormat) {g : Glyph}
    (h : o.code.getLast? = some g) : (f.lineWith number o).getLast? = some g := by
  have hend : ∃ front, f.lineWith number o = front ++ Glyph.char f.separator :: o.code := by
    cases f with
    | grep => exact ⟨o.file ++ Glyph.char ':' :: number, by simp [lineWith, separator]⟩
    | index =>
      exact ⟨o.file ++ Glyph.char ' ' :: (o.scope ++ Glyph.char ' ' :: number),
        by simp [lineWith, separator]⟩
  obtain ⟨front, hfront⟩ := hend
  rw [hfront, List.getLast?_append_of_ne_nil _ (List.cons_ne_nil _ _), List.getLast?_cons, h,
    Option.getD_some]

/-- What stands behind an accepted line goes to the code. -/
theorem read?_append (h : f.read? t = some o) (u : Text) :
    f.read? (t ++ u) = some { o with code := o.code ++ u } := by
  obtain ⟨⟨number, hnumber, rfl⟩, hline, hfields, htold⟩ := read?_eq_some_iff.mp h
  refine read?_eq_some_iff.mpr ⟨⟨number, hnumber, lineWith_append ..⟩, hline, ?_, ?_⟩
  · cases f <;> exact hfields
  · cases f with
    | grep => exact congrArg (fun o' : Occurrence => { o' with code := o.code ++ u }) htold
    | index => rfl

/-- Without the carriage returns at its end a refused line is refused too. -/
theorem read?_dropEndWhile (h : f.read? t = none) (p : Glyph → Bool) :
    f.read? (t.dropEndWhile p) = none := by
  cases hread : f.read? (t.dropEndWhile p) with
  | none => rfl
  | some o =>
    have happend := read?_append hread (t.rtakeWhile p)
    rw [← Text.eq_dropEndWhile_append, h] at happend
    cases happend

theorem Carries.isTidyLine (h : f.Carries o) : IsTidyLine (f.line o) :=
  isTidyLine_line h.isLineNumber h.feed_not_mem h.getLast?_ne

end ToolFormat

/-! ### Outputs -/

/-- Lines put together, each ended by a line feed or by a carriage return and a line feed; the last
one may also be left open. -/
inductive Text.Joined : List Text → Text → Prop
  | nil : Joined [] []
  | last (l : Text) : Joined [l] l
  | feed (l : Text) {ls : List Text} {t : Text} (h : Joined ls t) :
      Joined (l :: ls) (l ++ Glyph.char '\n' :: t)
  | returnFeed (l : Text) {ls : List Text} {t : Text} (h : Joined ls t) :
      Joined (l :: ls) (l ++ Glyph.char '\r' :: Glyph.char '\n' :: t)

theorem Text.dropEndWhile_concat {p : Glyph → Bool} {g : Glyph} (hg : p g = true) (t : Text) :
    dropEndWhile p (t ++ [g]) = dropEndWhile p t :=
  List.rdropWhile_concat_pos p t g hg

theorem Text.getLast?_dropEndWhile_ne {t : Text} {g : Glyph} :
    (t.dropEndWhile (· = g)).getLast? ≠ some g := by
  intro hlast
  have hne : t.dropEndWhile (· = g) ≠ [] := fun hnil => by simp [hnil] at hlast
  have hnot := List.rdropWhile_last_not (· = g) t hne
  rw [List.getLast?_eq_some_getLast hne] at hlast
  exact hnot (decide_eq_true (Option.some.inj hlast))

/-- The lines that are read are those put together, whichever way they are ended. -/
theorem Occurrence.outputLines_of_joined {ls : List Text} {output : Text}
    (h : Text.Joined ls output) (hfeed : ∀ l ∈ ls, Glyph.char '\n' ∉ l) :
    outputLines output = (ls.map (Text.dropEndWhile (· = Glyph.char '\r'))).filter
      fun l => !l.isAllBlank := by
  have hsingle : ∀ {l : Text}, Glyph.char '\n' ∉ l → pieces (· = Glyph.char '\n') l = [l] := by
    intro l hl
    refine pieces_of_forall_not fun g hg hsep => ?_
    rw [of_decide_eq_true hsep] at hg
    exact hl hg
  have hcons : ∀ {l t : Text}, Glyph.char '\n' ∉ l →
      (l ++ Glyph.char '\n' :: t).split '\n' = l :: t.split '\n' := by
    intro l t hl
    rw [Text.split, pieces_append_cons l (by simp), hsingle hl]
    rfl
  induction h with
  | nil => rfl
  | last l =>
    have hl := hfeed l List.mem_cons_self
    rw [outputLines, Text.split, hsingle hl]
  | feed l _ ih =>
    obtain ⟨hl, hls⟩ := List.forall_mem_cons.mp hfeed
    rw [outputLines, hcons hl, List.map_cons, List.map_cons, List.filter_cons, List.filter_cons,
      ← ih hls]
    rfl
  | returnFeed l _ ih =>
    obtain ⟨hl, hls⟩ := List.forall_mem_cons.mp hfeed
    have hreturn : Glyph.char '\n' ∉ l ++ [Glyph.char '\r'] := by simpa using hl
    rw [List.append_cons, outputLines, hcons hreturn, List.map_cons, List.map_cons,
      Text.dropEndWhile_concat (by simp), List.filter_cons, List.filter_cons, ← ih hls]
    rfl

theorem Text.isAllBlank_dropEndWhile {t : Text} (h : t.isAllBlank = true) (p : Glyph → Bool) :
    (t.dropEndWhile p).isAllBlank = true := by
  rw [eq_dropEndWhile_append p t, isAllBlank, List.all_append, Bool.and_eq_true] at h
  exact h.1

namespace ToolFormat

open Occurrence

/-- The lines of occurrences, in order, with blank lines and lines that are refused in between. -/
inductive Printed (f : ToolFormat) : List Occurrence → List Text → Prop
  | nil : Printed f [] []
  | occurrence {o : Occurrence} {os : List Occurrence} {ls : List Text} (ho : f.Carries o)
      (h : Printed f os ls) : Printed f (o :: os) (f.line o :: ls)
  | blank {l : Text} {os : List Occurrence} {ls : List Text} (hl : l.isAllBlank = true)
      (hfeed : Glyph.char '\n' ∉ l) (h : Printed f os ls) : Printed f os (l :: ls)
  | refused {l : Text} {os : List Occurrence} {ls : List Text} (hl : f.read? l = none)
      (hfeed : Glyph.char '\n' ∉ l) (h : Printed f os ls) : Printed f os (l :: ls)

theorem Printed.feed_not_mem {f : ToolFormat} {os : List Occurrence} {ls : List Text}
    (h : f.Printed os ls) : ∀ l ∈ ls, Glyph.char '\n' ∉ l := by
  induction h with
  | nil => simp
  | occurrence ho _ ih => exact List.forall_mem_cons.mpr ⟨ho.isTidyLine.feed_not_mem, ih⟩
  | blank _ hfeed _ ih => exact List.forall_mem_cons.mpr ⟨hfeed, ih⟩
  | refused _ hfeed _ ih => exact List.forall_mem_cons.mpr ⟨hfeed, ih⟩

/-- The occurrences that are printed are read, in order. -/
theorem Printed.readAll_eq {f : ToolFormat} {os : List Occurrence} {ls : List Text} {output : Text}
    (h : f.Printed os ls) (hjoined : Text.Joined ls output) :
    f.readAll output = os.map f.told := by
  rw [readAll, outputLines_of_joined hjoined h.feed_not_mem]
  clear hjoined
  induction h with
  | nil => rfl
  | occurrence ho _ ih =>
    have htidy := ho.isTidyLine
    rw [List.map_cons, Text.dropEndWhile_eq_self htidy.getLast?_ne,
      List.filter_cons_of_pos (by simp [htidy.not_blank]),
      List.filterMap_cons_some (read?_line ho.isLineNumber ho.separator_not_mem), ih, List.map_cons]
  | blank hl _ _ ih =>
    rw [List.map_cons, List.filter_cons_of_neg (by simp [Text.isAllBlank_dropEndWhile hl]), ih]
  | refused hl _ _ ih =>
    rw [List.map_cons, List.filter_cons]
    split
    · rw [List.filterMap_cons_none (read?_dropEndWhile hl _), ih]
    · exact ih

/-- What is read from an output can be printed and read again. -/
theorem carries_of_mem_readAll {f : ToolFormat} {output : Text} {o : Occurrence}
    (h : o ∈ f.readAll output) : f.Carries o ∧ f.told o = o := by
  obtain ⟨l, hl, hread⟩ := List.mem_filterMap.mp h
  simp only [outputLines, List.mem_filter, List.mem_map] at hl
  obtain ⟨⟨piece, hpiece, rfl⟩, -⟩ := hl
  obtain ⟨⟨number, -, heq⟩, hline, hfields, htold⟩ := read?_eq_some_iff.mp hread
  have hfeed : Glyph.char '\n' ∉ f.lineWith number o := by
    intro hmem
    have hmem : Glyph.char '\n' ∈ piece := by
      rw [Text.eq_dropEndWhile_append (· = Glyph.char '\r') piece, heq]
      exact List.mem_append_left _ hmem
    exact not_of_mem_pieces hpiece hmem (by simp)
  have hlast : o.code.getLast? ≠ some (Glyph.char '\r') := by
    intro hreturn
    have hline := getLast?_lineWith number f hreturn
    rw [← heq] at hline
    exact Text.getLast?_dropEndWhile_ne hline
  refine ⟨⟨hline, hfields, fun t ht hmem => hfeed ?_, hlast⟩, htold⟩
  cases f with
  | grep =>
    rcases List.mem_cons.mp ht with rfl | ht
    · simp [lineWith, hmem]
    · obtain rfl := List.mem_singleton.mp ht
      simp [lineWith, hmem]
  | index =>
    rcases List.mem_cons.mp ht with rfl | ht
    · simp [lineWith, hmem]
    · rcases List.mem_cons.mp ht with rfl | ht
      · simp [lineWith, hmem]
      · obtain rfl := List.mem_singleton.mp ht
        simp [lineWith, hmem]

/-- **What tools print is what is read.** Let the lines of occurrences be printed in one of the two
formats, with blank lines and lines that are refused anywhere in between, each line ended by a line
feed or by a carriage return and a line feed. Then reading the output gives the occurrences back, in
order, as far as the format tells them. A line is accepted exactly if it is the line of the
occurrence read from it in some spelling of its number, with a plus sign or zeros in front; and
whatever has been read from an output can be printed and read again. -/
theorem printed_occurrences_are_read_back (f : ToolFormat) :
    (∀ os ls output, f.Printed os ls → Text.Joined ls output →
      f.readAll output = os.map f.told) ∧
    (∀ l o, f.read? l = some o ↔ (∃ number, number.Spells o.line ∧ l = f.lineWith number o) ∧
      IsLineNumber o.line ∧ (∀ t ∈ f.fields o, Glyph.char f.separator ∉ t) ∧ f.told o = o) ∧
    ∀ output, ∀ o ∈ f.readAll output, f.Carries o ∧ f.told o = o :=
  ⟨fun _ _ _ h hjoined => h.readAll_eq hjoined, fun _ _ => read?_eq_some_iff,
    fun _ _ => carries_of_mem_readAll⟩

/-- Warnings, blank lines and separators in the code stand between two occurrences; the last line
is left open in the first output, and ended twice over in the second. -/
theorem noisy_outputs_are_read_back :
    grep.readAll "a.c:12:\tf(\":1:\");\r\n \t\r\ngrep: b.c: denied\nb.c:9223372036854775807:" =
      [⟨"a.c", 12, "\tf(\":1:\");", []⟩, ⟨"b.c", 9223372036854775807, [], []⟩] ∧
    index.readAll "a.c g 7  f(1, 2); \n\ncscope: 1 line\r\nb.c  1 \r\n\r\n" =
      [⟨"a.c", 7, " f(1, 2); ", "g"⟩, ⟨"b.c", 1, [], []⟩] := by
  have hgrep : Text.ofString
      "a.c:12:\tf(\":1:\");\r\n \t\r\ngrep: b.c: denied\nb.c:9223372036854775807:" =
      grep.line ⟨"a.c", 12, "\tf(\":1:\");", []⟩ ++ Glyph.char '\r' :: Glyph.char '\n' ::
        (Text.ofString " \t" ++ Glyph.char '\r' :: Glyph.char '\n' ::
          (Text.ofString "grep: b.c: denied" ++ Glyph.char '\n' ::
            grep.line ⟨"b.c", 9223372036854775807, [], []⟩)) := by decide +kernel
  have hindex : Text.ofString "a.c g 7  f(1, 2); \n\ncscope: 1 line\r\nb.c  1 \r\n\r\n" =
      index.line ⟨"a.c", 7, " f(1, 2); ", "g"⟩ ++ Glyph.char '\n' ::
        ([] ++ Glyph.char '\n' ::
          (Text.ofString "cscope: 1 line" ++ Glyph.char '\r' :: Glyph.char '\n' ::
            (index.line ⟨"b.c", 1, [], []⟩ ++ Glyph.char '\r' :: Glyph.char '\n' ::
              ([] ++ Glyph.char '\r' :: Glyph.char '\n' :: [])))) := by decide +kernel
  rw [hgrep, hindex]
  constructor
  · refine (printed_occurrences_are_read_back grep).1
      [⟨"a.c", 12, "\tf(\":1:\");", []⟩, ⟨"b.c", 9223372036854775807, [], []⟩] _ _ ?_
      (.returnFeed _ (.returnFeed _ (.feed _ (.last _))))
    refine .occurrence ?_ (.blank ?_ ?_ (.refused ?_ ?_ (.occurrence ?_ .nil)))
    · exact ⟨⟨by decide, by decide⟩, by decide +kernel, by decide +kernel, by decide +kernel⟩
    · decide +kernel
    · decide +kernel
    · decide +kernel
    · decide +kernel
    · exact ⟨⟨by decide, by decide⟩, by decide +kernel, by decide +kernel, by decide +kernel⟩
  · refine (printed_occurrences_are_read_back index).1
      [⟨"a.c", 7, " f(1, 2); ", "g"⟩, ⟨"b.c", 1, [], []⟩] _ _ ?_
      (.feed _ (.feed _ (.returnFeed _ (.returnFeed _ (.returnFeed _ .nil)))))
    refine .occurrence ?_ (.blank ?_ ?_ (.refused ?_ ?_ (.occurrence ?_ (.blank ?_ ?_ .nil))))
    · exact ⟨⟨by decide, by decide⟩, by decide +kernel, by decide +kernel, by decide +kernel⟩
    · rfl
    · exact List.not_mem_nil
    · decide +kernel
    · decide +kernel
    · exact ⟨⟨by decide, by decide⟩, by decide +kernel, by decide +kernel, by decide +kernel⟩
    · rfl
    · exact List.not_mem_nil

end ToolFormat

end CallerTree
