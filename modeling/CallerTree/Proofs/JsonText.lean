import CallerTree.Json
import CallerTree.Proofs.ToolOutput
import Mathlib.Tactic.IntervalCases

/-!
# Reading JSON texts back

A JSON text is read in two passes, and each is a machine that takes one thing at a time. The first
makes tokens of glyphs: it knows whether it is between tokens, in a word, or in a string, and in
which part of an escape. The second makes a value of tokens: it keeps the arrays and objects that
are open on a stack. Both layouts of a value, on one line and indented, consist of the same tokens.

The reader accepts nothing but JSON texts. It refuses two kinds of them that are never written here:
those with a number that is no integer, and those with a character that is escaped as a pair of
surrogates.

## Main definitions

* `Json.read?` — the value that a text stands for
* `Json.tokens` — the tokens of a value
* `Json.shown` — the value with its stray bytes replaced, which is what its texts show

## Main results

* `Json.read?_compact`, `Json.read?_indented`
-/

namespace CallerTree

/-- The text as it is shown, stray bytes replaced. -/
def Text.visible (t : Text) : Text := t.map fun g => .char g.toChar

@[simp] theorem Text.visible_ofString (s : String) :
    (Text.ofString s).visible = Text.ofString s := by
  rw [visible, Text.ofString, Text.ofChars, List.map_map]
  rfl

namespace Json

/-- The value of a field, null if it is missing. -/
def field (fields : List (Text × Json)) (key : Text) : Json := (fields.lookup key).getD .null

/-- A property of all values, shown for arrays and objects from what they hold. -/
@[elab_as_elim]
theorem induct {motive : Json → Prop} (null : motive .null) (bool : ∀ b, motive (.bool b))
    (num : ∀ n, motive (.num n)) (str : ∀ t, motive (.str t))
    (arr : ∀ items, (∀ j ∈ items, motive j) → motive (.arr items))
    (obj : ∀ fields, (∀ f ∈ fields, motive f.2) → motive (.obj fields)) (j : Json) : motive j :=
  @Json.rec motive (fun items => ∀ j ∈ items, motive j) (fun fields => ∀ f ∈ fields, motive f.2)
    (fun f => motive f.2) null bool num str arr obj
    (fun _ hj => absurd hj List.not_mem_nil)
    (fun _ _ hj hjs => List.forall_mem_cons.mpr ⟨hj, hjs⟩)
    (fun _ hf => absurd hf List.not_mem_nil)
    (fun _ _ hf hfs => List.forall_mem_cons.mpr ⟨hf, hfs⟩)
    (fun _ _ hj => hj) j

/-! ### Tokens of a text -/

inductive Mark where
  | openItems
  | closeItems
  | openFields
  | closeFields
  | comma
  | colon

inductive Token where
  | mark (m : Mark)
  /-- A value that is a word. -/
  | plain (j : Json)
  | text (t : Text)

def Mark.ofChar? (c : Char) : Option Mark :=
  if c = '[' then some openItems
  else if c = ']' then some closeItems
  else if c = '\x7b' then some openFields
  else if c = '\x7d' then some closeFields
  else if c = ',' then some comma
  else if c = ':' then some colon
  else none

/-- What may stand around tokens. -/
def isGap (c : Char) : Bool := c = ' ' || c = '\n' || c = '\t' || c = '\r'

/-- A number that is not negative has no zero in front. -/
def natural? (t : Text) : Option Nat :=
  if t.head? = some (.char '0') ∧ t ≠ [.char '0'] then none else Text.readNat? t

def word? (t : Text) : Option Json :=
  if t = "null" then some .null
  else if t = "true" then some (.bool true)
  else if t = "false" then some (.bool false)
  else if t.head? = some (.char '-') then (natural? t.tail).map fun n : Nat => .num (-n)
  else (natural? t).map fun n : Nat => .num n

/-- The character that a letter behind a backslash stands for. -/
def unescaped? (c : Char) : Option Char :=
  if c = '"' ∨ c = '\\' ∨ c = '/' then some c
  else if c = 'b' then some '\x08'
  else if c = 'f' then some '\x0c'
  else if c = 'n' then some '\n'
  else if c = 'r' then some '\r'
  else if c = 't' then some '\t'
  else none

def hexDigit? (c : Char) : Option Nat :=
  if c.isDigit then some (c.toNat - '0'.toNat)
  else if 'a' ≤ c ∧ c ≤ 'f' then some (c.toNat - 'a'.toNat + 10)
  else if 'A' ≤ c ∧ c ≤ 'F' then some (c.toNat - 'A'.toNat + 10)
  else none

/-- Where in a text the reader is. -/
inductive Mode where
  | between
  | word (t : Text)
  /-- In a string that begins with `t`. -/
  | string (t : Text)
  /-- Behind a backslash in it. -/
  | escape (t : Text)
  /-- Behind some of the four digits of a character in it. -/
  | code (t : Text) (digits value : Nat)

/-- The tokens read so far, and where the reader is. -/
structure Scan where
  tokens : List Token := []
  mode : Mode := .between

namespace Scan

/-- The tokens, if the text may end here. -/
def finished? (s : Scan) : Option (List Token) :=
  match s.mode with
  | .between => some s.tokens
  | .word t => (word? t).map fun j => s.tokens ++ [.plain j]
  | _ => none

/-- Reads a character that is not in a string. -/
def stepOutside (s : Scan) (c : Char) : Option Scan :=
  match Mark.ofChar? c with
  | some m => s.finished?.map fun ts => { tokens := ts ++ [.mark m] }
  | none =>
    if isGap c then s.finished?.map fun ts => { tokens := ts }
    else match s.mode with
      | .between => some { s with mode := if c = '"' then .string [] else .word [.char c] }
      | .word t => if c = '"' then none else some { s with mode := .word (t ++ [.char c]) }
      | _ => none

/-- Reads a glyph. -/
def step (s : Scan) : Glyph → Option Scan
  | .stray _ => none
  | .char c =>
    match s.mode with
    | .string t =>
      if c = '"' then some { tokens := s.tokens ++ [.text t] }
      else if c = '\\' then some { s with mode := .escape t }
      else if c.toNat < 0x20 then none
      else some { s with mode := .string (t ++ [.char c]) }
    | .escape t =>
      if c = 'u' then some { s with mode := .code t 0 0 }
      else (unescaped? c).map fun d => { s with mode := .string (t ++ [.char d]) }
    | .code t digits value => do
      let value := value * 16 + (← hexDigit? c)
      if digits < 3 then some { s with mode := .code t (digits + 1) value }
      else if value.isValidChar then
        some { s with mode := .string (t ++ [.char (Char.ofNat value)]) }
      else none
    | _ => s.stepOutside c

end Scan

/-! ### Values of tokens -/

/-- An array or an object that is open. -/
inductive Frame where
  | items (done : List Json)
  | fields (done : List (Text × Json)) (key : Text)

/-- What has been read, and what may follow. -/
inductive Phase where
  | value (stack : List Frame)
  | key (done : List (Text × Json)) (stack : List Frame)
  | colon (done : List (Text × Json)) (key : Text) (stack : List Frame)
  | after (j : Json) (stack : List Frame)

/-- Reads a token. -/
def Phase.step : Phase → Token → Option Phase
  | value stack, .plain j => some (after j stack)
  | value stack, .text t => some (after (.str t) stack)
  | value stack, .mark .openItems => some (value (.items [] :: stack))
  | value stack, .mark .openFields => some (key [] stack)
  | value (.items [] :: stack), .mark .closeItems => some (after (.arr []) stack)
  | key done stack, .text t => some (colon done t stack)
  | key [] stack, .mark .closeFields => some (after (.obj []) stack)
  | colon done k stack, .mark .colon => some (value (.fields done k :: stack))
  | after j (.items done :: stack), .mark .comma => some (value (.items (done ++ [j]) :: stack))
  | after j (.items done :: stack), .mark .closeItems => some (after (.arr (done ++ [j])) stack)
  | after j (.fields done k :: stack), .mark .comma => some (key (done ++ [(k, j)]) stack)
  | after j (.fields done k :: stack), .mark .closeFields =>
    some (after (.obj (done ++ [(k, j)])) stack)
  | _, _ => none

/-- The value that a text stands for. -/
def read? (t : Text) : Option Json := do
  let s ← t.foldlM Scan.step {}
  match ← (← s.finished?).foldlM Phase.step (.value []) with
  | .after j [] => some j
  | _ => none

/-! ### Tokens of a value -/

mutual

def tokens : Json → List Token
  | str t => [.text t.visible]
  | arr items =>
    .mark .openItems :: [.mark .comma].intercalate (itemTokens items) ++ [.mark .closeItems]
  | obj fields =>
    .mark .openFields :: [.mark .comma].intercalate (fieldTokens fields) ++ [.mark .closeFields]
  | j => [.plain j]

def itemTokens : List Json → List (List Token)
  | [] => []
  | j :: rest => j.tokens :: itemTokens rest

def fieldTokens : List (Text × Json) → List (List Token)
  | [] => []
  | (k, j) :: rest => (.text k.visible :: .mark .colon :: j.tokens) :: fieldTokens rest

end

mutual

/-- The value with all its texts as they are shown. -/
def shown : Json → Json
  | str t => str t.visible
  | arr items => arr (shownItems items)
  | obj fields => obj (shownFields fields)
  | j => j

def shownItems : List Json → List Json
  | [] => []
  | j :: rest => j.shown :: shownItems rest

def shownFields : List (Text × Json) → List (Text × Json)
  | [] => []
  | (k, j) :: rest => (k.visible, j.shown) :: shownFields rest

end

/-- The tokens of a field. -/
def fieldToken (f : Text × Json) : List Token := .text f.1.visible :: .mark .colon :: f.2.tokens

/-- A field as it is shown. -/
def shownField (f : Text × Json) : Text × Json := (f.1.visible, f.2.shown)

theorem itemTokens_eq (items : List Json) : itemTokens items = items.map tokens := by
  induction items with
  | nil => rw [itemTokens, List.map_nil]
  | cons j rest ih => rw [itemTokens, List.map_cons, ih]

theorem fieldTokens_eq (fields : List (Text × Json)) :
    fieldTokens fields = fields.map fieldToken := by
  induction fields with
  | nil => rw [fieldTokens, List.map_nil]
  | cons f rest ih => rw [fieldTokens, List.map_cons, ih, fieldToken]

theorem shownItems_eq (items : List Json) : shownItems items = items.map shown := by
  induction items with
  | nil => rw [shownItems, List.map_nil]
  | cons j rest ih => rw [shownItems, List.map_cons, ih]

theorem shownFields_eq (fields : List (Text × Json)) :
    shownFields fields = fields.map shownField := by
  induction fields with
  | nil => rw [shownFields, List.map_nil]
  | cons f rest ih => rw [shownFields, List.map_cons, ih, shownField]

/-! ### Tokens are read back -/

/-- From a place where a value may stand, the tokens of `j` lead behind it. -/
def IsRead (j : Json) : Prop :=
  ∀ stack, j.tokens.foldlM Phase.step (.value stack) = some (.after j.shown stack)

/-- The parts of a container that is open, up to its end. With `done` read the next part is read
from `inside done`, and behind it comes a comma or the end. -/
theorem foldlM_parts {α β : Type} {parts : List α} {f : α → List Token} {g : α → β}
    (inside whole : List β → Phase) (behind : List β → α → Phase) {close : Mark}
    (hpart : ∀ a ∈ parts, ∀ done,
      (f a).foldlM Phase.step (inside done) = some (behind done a))
    (hcomma : ∀ done a, (behind done a).step (.mark .comma) = some (inside (done ++ [g a])))
    (hclose : ∀ done a, (behind done a).step (.mark close) = some (whole (done ++ [g a])))
    (hne : parts ≠ []) : ∀ done,
      List.foldlM Phase.step (inside done)
        ([.mark .comma].intercalate (parts.map f) ++ [.mark close]) =
      some (whole (done ++ parts.map g)) := by
  induction parts with
  | nil => exact absurd rfl hne
  | cons a rest ih =>
    intro done
    obtain ⟨ha, hrest⟩ := List.forall_mem_cons.mp hpart
    cases rest with
    | nil =>
      rw [List.map_cons, List.map_nil, List.intercalate_singleton, List.foldlM_append, ha,
        Option.bind_eq_bind, Option.bind_some, List.foldlM_cons, hclose]
      rfl
    | cons b rest =>
      have hstep := ih hrest (by simp) (done ++ [g a])
      rw [List.append_assoc] at hstep
      rw [List.map_cons, List.map_cons, List.intercalate_cons_cons, List.append_assoc,
        List.append_assoc, List.foldlM_append, ha, Option.bind_eq_bind, Option.bind_some,
        List.singleton_append, List.foldlM_cons, hcomma]
      exact hstep

theorem isRead (j : Json) : IsRead j := by
  induction j using induct with
  | null => exact fun _ => rfl
  | bool b => exact fun _ => rfl
  | num n => exact fun _ => rfl
  | str t => exact fun _ => rfl
  | arr items ih =>
    intro stack
    rw [tokens, itemTokens_eq, shown, shownItems_eq, List.cons_append, List.foldlM_cons]
    by_cases hne : items = []
    · subst hne
      rfl
    · exact foldlM_parts (fun done => .value (.items done :: stack))
        (fun done => .after (.arr done) stack) (fun done j => .after j.shown (.items done :: stack))
        (fun j hj done => ih j hj _) (fun _ _ => rfl) (fun _ _ => rfl) hne []
  | obj fields ih =>
    intro stack
    rw [tokens, fieldTokens_eq, shown, shownFields_eq, List.cons_append, List.foldlM_cons]
    by_cases hne : fields = []
    · subst hne
      rfl
    · exact foldlM_parts (f := fieldToken) (g := shownField) (fun done => .key done stack)
        (fun done => .after (.obj done) stack)
        (fun done f => .after f.2.shown (.fields done f.1.visible :: stack))
        (fun f hf done => ih f hf _) (fun _ _ => rfl) (fun _ _ => rfl) hne []

/-! ### Texts consist of tokens -/

section Reads

variable {t u : Text} {ts us : List Token}

/-- Between tokens, `t` is read as `ts` and the reader is between tokens again. -/
def Closes (t : Text) (ts : List Token) : Prop :=
  ∀ done, t.foldlM Scan.step ⟨done, .between⟩ = some ⟨done ++ ts, .between⟩

/-- Between tokens, `t` is read as `ts` if it ends there. -/
def Reads (t : Text) (ts : List Token) : Prop :=
  ∀ done, ∃ s, t.foldlM Scan.step ⟨done, .between⟩ = some s ∧ s.finished? = some (done ++ ts)

/-- A text that may stand around tokens. -/
def IsBlank (t : Text) : Prop := ∀ g ∈ t, ∃ c, g = .char c ∧ isGap c = true

theorem isBlank_nil : IsBlank [] := by simp [IsBlank]

theorem Closes.reads (h : Closes t ts) : Reads t ts := fun done => ⟨_, h done, rfl⟩

theorem Closes.append (ht : Closes t ts) (hu : Closes u us) : Closes (t ++ u) (ts ++ us) := by
  intro done
  rw [List.foldlM_append, ht, Option.bind_eq_bind, Option.bind_some, hu, List.append_assoc]

theorem Closes.append_reads (ht : Closes t ts) (hu : Reads u us) : Reads (t ++ u) (ts ++ us) := by
  intro done
  rw [List.foldlM_append, ht, Option.bind_eq_bind, Option.bind_some, ← List.append_assoc]
  exact hu (done ++ ts)

/-- Where a text may end, no string is open. -/
theorem Scan.step_of_finished {s : Scan} (hs : s.finished? = some ts) (c : Char) :
    s.step (.char c) = s.stepOutside c := by
  obtain ⟨tokens, mode⟩ := s
  cases mode with
  | between | word t => rfl
  | string t | escape t | code t digits value => simp [Scan.finished?] at hs

theorem Reads.append_mark {c : Char} {m : Mark} (h : Reads t ts) (hc : Mark.ofChar? c = some m) :
    Closes (t ++ [.char c]) (ts ++ [.mark m]) := by
  intro done
  obtain ⟨s, hread, hs⟩ := h done
  rw [List.foldlM_append, hread, Option.bind_eq_bind, Option.bind_some, List.foldlM_cons,
    Scan.step_of_finished hs, Scan.stepOutside, hc, hs, ← List.append_assoc]
  rfl

theorem Scan.step_gap {s : Scan} (hs : s.finished? = some ts) {c : Char} (hc : isGap c = true) :
    s.step (.char c) = some ⟨ts, .between⟩ := by
  have hmark : Mark.ofChar? c = none := by
    simp only [isGap, Bool.or_eq_true, decide_eq_true_eq] at hc
    rcases hc with ((rfl | rfl) | rfl) | rfl <;> rfl
  rw [Scan.step_of_finished hs, Scan.stepOutside, hmark, if_pos hc, hs]
  rfl

theorem closes_blank (hu : IsBlank u) : Closes u [] := by
  intro done
  induction u with
  | nil => rw [List.append_nil]; rfl
  | cons g rest ih =>
    obtain ⟨⟨c, rfl, hc⟩, hrest⟩ := List.forall_mem_cons.mp hu
    rw [List.foldlM_cons, Scan.step_gap rfl hc]
    exact ih hrest

theorem Reads.append_blank (h : Reads t ts) (hu : IsBlank u) : Reads (t ++ u) ts := by
  cases u with
  | nil => rwa [List.append_nil]
  | cons g rest =>
    intro done
    obtain ⟨⟨c, rfl, hc⟩, hrest⟩ := List.forall_mem_cons.mp hu
    obtain ⟨s, hread, hs⟩ := h done
    refine ⟨⟨done ++ ts, .between⟩, ?_, rfl⟩
    rw [List.foldlM_append, hread, Option.bind_eq_bind, Option.bind_some, List.foldlM_cons,
      Scan.step_gap hs hc, Option.bind_eq_bind, Option.bind_some, closes_blank hrest,
      List.append_nil]

/-! ### Strings -/

/-- These are the characters written by their number, none of which takes more than four digits. -/
theorem foldlM_hex {c : Char} (h : c.toNat < 0x20 ∨ c ∈ ['\u2028', '\u2029', '<', '>', '&'])
    (done : List Token) (t : Text) :
    (Text.hex 4 c.toNat).foldlM Scan.step ⟨done, .code t 0 0⟩ =
      some ⟨done, .string (t ++ [.char c])⟩ := by
  rcases h with h | h
  · obtain ⟨n, rfl, hn⟩ : ∃ n, c = Char.ofNat n ∧ n < 0x20 := ⟨_, (Char.ofNat_toNat c).symm, h⟩
    interval_cases n <;> rfl
  · simp only [List.mem_cons, List.not_mem_nil, or_false] at h
    rcases h with rfl | rfl | rfl | rfl | rfl <;> rfl

theorem foldlM_escapedChar (markup : Bool) (c : Char) (done : List Token) (t : Text) :
    (escapedChar markup c).foldlM Scan.step ⟨done, .string t⟩ =
      some ⟨done, .string (t ++ [.char c])⟩ := by
  by_cases hshort : c ∈ ['"', '\\', '\n', '\r', '\t', '\x08', '\x0c']
  · simp only [List.mem_cons, List.not_mem_nil, or_false] at hshort
    rcases hshort with rfl | rfl | rfl | rfl | rfl | rfl | rfl <;> rfl
  · simp only [List.mem_cons, List.not_mem_nil, or_false, not_or] at hshort
    obtain ⟨hquote, hslash, hn, hr, ht, hb, hf⟩ := hshort
    rw [escapedChar, if_neg hquote, if_neg hslash, if_neg hn, if_neg hr, if_neg ht, if_neg hb,
      if_neg hf]
    split
    next h =>
      rw [List.foldlM_append]
      exact foldlM_hex (by simp; tauto) done t
    next h =>
      simp [Scan.step, hquote, hslash, (not_or.mp h).1]

theorem foldlM_flatMap_escapedChar (markup : Bool) (done : List Token) :
    ∀ u : Text, (t.flatMap fun g => escapedChar markup g.toChar).foldlM Scan.step
      ⟨done, .string u⟩ = some ⟨done, .string (u ++ t.visible)⟩ := by
  induction t with
  | nil => exact fun u => by rw [Text.visible, List.map_nil, List.append_nil]; rfl
  | cons g rest ih =>
    intro u
    rw [List.flatMap_cons, List.foldlM_append, foldlM_escapedChar, Option.bind_eq_bind,
      Option.bind_some, ih, List.append_assoc]
    rfl

/-- Whatever is escaped on the way, the reader gets the visible text back. -/
theorem closes_quotedText (markup : Bool) (t : Text) :
    Closes (quotedText markup t) [.text t.visible] := by
  intro done
  have hopen : List.foldlM Scan.step ⟨done, .between⟩ ("\"" : Text) = some ⟨done, .string []⟩ := rfl
  rw [quotedText, List.foldlM_append, List.foldlM_append, hopen, Option.bind_eq_bind,
    Option.bind_some, foldlM_flatMap_escapedChar]
  rfl

/-! ### Words -/

/-- A character that goes on with a word. -/
def IsWordChar (c : Char) : Prop := Mark.ofChar? c = none ∧ isGap c = false ∧ c ≠ '"'

theorem isWordChar_of_isDigit {c : Char} (h : c.isDigit = true) : IsWordChar c := by
  have hne : ∀ d : Char, d.isDigit = false → c ≠ d := by
    rintro d hd rfl
    exact absurd h (by rw [hd]; decide)
  simp [IsWordChar, Mark.ofChar?, isGap, hne]

/-- Only what follows a word ends it, so it does not satisfy `Closes`. -/
theorem reads_word {j : Json} (hne : t ≠ [])
    (ht : ∀ g ∈ t, ∃ c, g = .char c ∧ IsWordChar c) (hj : word? t = some j) :
    Reads t [.plain j] := by
  intro done
  refine ⟨⟨done, .word t⟩, ?_, by simp [Scan.finished?, hj]⟩
  obtain ⟨g, rest, rfl⟩ := List.exists_cons_of_ne_nil hne
  obtain ⟨⟨c, rfl, hmark, hgap, hquote⟩, hrest⟩ := List.forall_mem_cons.mp ht
  have hbegin : Scan.step ⟨done, .between⟩ (.char c) = some ⟨done, .word [.char c]⟩ := by
    simp [Scan.step, Scan.stepOutside, hmark, hgap, hquote]
  have hgo : ∀ (rest : Text) (u : Text), (∀ g ∈ rest, ∃ c, g = .char c ∧ IsWordChar c) →
      rest.foldlM Scan.step ⟨done, .word u⟩ = some ⟨done, .word (u ++ rest)⟩ := by
    intro rest
    induction rest with
    | nil => simp
    | cons g rest ih =>
      intro u h
      obtain ⟨⟨c, rfl, hmark, hgap, hquote⟩, hrest⟩ := List.forall_mem_cons.mp h
      simp [Scan.step, Scan.stepOutside, hmark, hgap, hquote, ih _ hrest]
  rw [List.foldlM_cons, hbegin]
  exact hgo rest [.char c] hrest

/-- No zero stands in front of a numeral, unless the numeral is zero. -/
theorem head?_toDigits_ne {n : Nat} (hn : 0 < n) : (Nat.toDigits 10 n).head? ≠ some '0' := by
  induction n using Nat.strongRecOn with
  | ind n ih =>
    by_cases hlt : n < 10
    · rw [Nat.toDigits_of_lt_base hlt]
      interval_cases n <;> decide
    · rw [Nat.toDigits_of_base_le (by decide) (Nat.le_of_not_lt hlt),
        List.head?_append_of_ne_nil _ Nat.toDigits_ne_nil]
      exact ih (n / 10) (by omega) (by omega)

theorem natural?_ofNat (n : Nat) : natural? (Text.ofNat n) = some n := by
  rw [natural?, Text.readNat?_ofNat, if_neg]
  rintro ⟨hhead, hne⟩
  rcases Nat.eq_zero_or_pos n with rfl | hn
  · exact hne rfl
  · have hdigit := head?_toDigits_ne hn
    rw [Text.ofNat, Text.ofChars, List.head?_map] at hhead
    simp_all

/-- A word that begins as no name does is a number. -/
theorem word?_cons {c : Char} (hc : c ≠ 'n' ∧ c ≠ 't' ∧ c ≠ 'f') (cs : Text) :
    word? (.char c :: cs) =
      if c = '-' then (natural? cs).map fun n : Nat => .num (-n)
      else (natural? (.char c :: cs)).map fun n : Nat => .num n := by
  have hne : ∀ {d : Char} (ds : Text), c ≠ d → (.char c :: cs : Text) ≠ .char d :: ds := by
    intro d ds hd h
    injection h with h
    exact hd (by injection h)
  have hnull : (.char c :: cs : Text) ≠ "null" := hne _ hc.1
  have htrue : (.char c :: cs : Text) ≠ "true" := hne _ hc.2.1
  have hfalse : (.char c :: cs : Text) ≠ "false" := hne _ hc.2.2
  simp [word?, hnull, htrue, hfalse]

theorem word?_ofInt (n : Int) : word? (Text.ofInt n) = some (.num n) := by
  cases n with
  | ofNat n =>
    obtain ⟨c, cs, hcs, hc⟩ := Text.exists_ofNat_eq_cons n
    have hne : ∀ d : Char, d.isDigit = false → c ≠ d := by
      rintro d hd rfl
      exact absurd hc (by rw [hd]; decide)
    rw [Text.ofInt, hcs, word?_cons ⟨hne _ rfl, hne _ rfl, hne _ rfl⟩, if_neg (hne _ rfl), ← hcs,
      natural?_ofNat]
    rfl
  | negSucc n =>
    rw [Text.ofInt, word?_cons (by decide), if_pos rfl, natural?_ofNat]
    rfl

theorem reads_ofInt (n : Int) : Reads (Text.ofInt n) [.plain (.num n)] := by
  have hdigits : ∀ n, ∀ g ∈ Text.ofNat n, ∃ c, g = .char c ∧ IsWordChar c := by
    intro n g hg
    obtain ⟨c, rfl, hc⟩ := Text.exists_char_of_mem_ofNat hg
    exact ⟨c, rfl, isWordChar_of_isDigit hc⟩
  cases n with
  | ofNat n =>
    obtain ⟨c, cs, hcs, -⟩ := Text.exists_ofNat_eq_cons n
    exact reads_word (t := Text.ofNat n) (hcs ▸ List.cons_ne_nil _ _) (hdigits n) (word?_ofInt n)
  | negSucc n =>
    refine reads_word (List.cons_ne_nil _ _) ?_ (word?_ofInt _)
    exact List.forall_mem_cons.mpr ⟨⟨'-', rfl, rfl, rfl, by decide⟩, hdigits (n + 1)⟩

/-! ### Layouts -/

/-- Parts with a comma and a blank text between them. -/
theorem reads_join {α : Type} {parts : List α} {f : α → Text} {g : α → List Token}
    (h : ∀ a ∈ parts, Reads (f a) (g a)) (hu : IsBlank u) :
    Reads (Text.join ("," ++ u) (parts.map f)) ([.mark .comma].intercalate (parts.map g)) := by
  induction parts with
  | nil => exact fun done => ⟨_, rfl, by simp [Scan.finished?]⟩
  | cons a rest ih =>
    obtain ⟨ha, hrest⟩ := List.forall_mem_cons.mp h
    cases rest with
    | nil => simpa [Text.join] using ha
    | cons b rest =>
      have hcomma := (ha.append_mark (c := ',') rfl).append (closes_blank hu)
      simpa [Text.join, show ("," : Text) = [.char ','] from rfl] using
        hcomma.append_reads (ih hrest)

/-- A container: an opening mark, its parts, and a closing mark. -/
theorem closes_enclosed {α : Type} {parts : List α} {f : α → Text} {g : α → List Token}
    {o c : Char} {opening closing : Mark} (h : ∀ a ∈ parts, Reads (f a) (g a))
    (hopening : Mark.ofChar? o = some opening) (hclosing : Mark.ofChar? c = some closing)
    {v : Text} (hu : IsBlank u) (hv : IsBlank v) :
    Closes ([.char o] ++ u ++ Text.join ("," ++ u) (parts.map f) ++ v ++ [.char c])
      (.mark opening :: [.mark .comma].intercalate (parts.map g) ++ [.mark closing]) := by
  have hopen : Closes ([.char o] ++ u) [.mark opening] := by
    simpa using ((closes_blank isBlank_nil).reads.append_mark hopening).append (closes_blank hu)
  exact ((hopen.append_reads (reads_join h hu)).append_blank hv).append_mark hclosing

theorem reads_field {f : Text × Json} (hu : IsBlank u) (h : Reads t f.2.tokens) :
    Reads (quotedText true f.1 ++ (":" ++ u) ++ t) (fieldToken f) := by
  have hcolon := ((closes_quotedText true f.1).reads.append_mark (c := ':') rfl).append
    (closes_blank hu)
  simpa [fieldToken, show (":" : Text) = [.char ':'] from rfl] using hcolon.append_reads h

end Reads

theorem compactItems_eq (items : List Json) : compactItems items = items.map compact := by
  induction items with
  | nil => rw [compactItems, List.map_nil]
  | cons j rest ih => rw [compactItems, List.map_cons, ih]

theorem compactFields_eq (fields : List (Text × Json)) :
    compactFields fields = fields.map fun f => quotedText true f.1 ++ ":" ++ f.2.compact := by
  induction fields with
  | nil => rw [compactFields, List.map_nil]
  | cons f rest ih => rw [compactFields, List.map_cons, ih]

theorem reads_compact (j : Json) : Reads j.compact j.tokens := by
  induction j using induct with
  | null => exact fun _ => ⟨_, rfl, rfl⟩
  | bool b => cases b <;> exact fun _ => ⟨_, rfl, rfl⟩
  | num n => exact reads_ofInt n
  | str t => exact (closes_quotedText true t).reads
  | arr items ih =>
    rw [compact, compactItems_eq, tokens, itemTokens_eq]
    have h := closes_enclosed (o := '[') (c := ']') ih rfl rfl isBlank_nil isBlank_nil
    simp only [List.append_nil] at h
    exact h.reads
  | obj fields ih =>
    rw [compact, compactFields_eq, tokens, fieldTokens_eq]
    have hfield := fun f hf => reads_field (f := f) isBlank_nil (ih f hf)
    have h := closes_enclosed (o := '\x7b') (c := '\x7d') hfield rfl rfl isBlank_nil isBlank_nil
    simp only [List.append_nil] at h
    exact h.reads

theorem indentedItems_eq (level : Nat) (items : List Json) :
    indentedItems level items = items.map (indented level) := by
  induction items with
  | nil => rw [indentedItems, List.map_nil]
  | cons j rest ih => rw [indentedItems, List.map_cons, ih]

theorem indentedFields_eq (level : Nat) (fields : List (Text × Json)) :
    indentedFields level fields =
      fields.map fun f => quotedText true f.1 ++ ": " ++ f.2.indented level := by
  induction fields with
  | nil => rw [indentedFields, List.map_nil]
  | cons f rest ih => rw [indentedFields, List.map_cons, ih]

theorem isBlank_newline (n : Nat) :
    IsBlank (Text.ofChars ('\n' :: List.replicate (2 * n) ' ')) := by
  simp [IsBlank, Text.ofChars, isGap]

/-- Arrays and objects differ in their marks only; the parts may be of any kind. -/
theorem closes_bracketed {α : Type} {parts : List α} {f : α → Text} {g : α → List Token}
    {o c : Char} {opening closing : Mark} (h : ∀ a ∈ parts, Reads (f a) (g a))
    (hopening : Mark.ofChar? o = some opening) (hclosing : Mark.ofChar? c = some closing)
    (level : Nat) :
    Closes (bracketed [.char o] [.char c] level (parts.map f))
      (.mark opening :: [.mark .comma].intercalate (parts.map g) ++ [.mark closing]) := by
  rw [bracketed]
  split
  next hnil =>
    have henclosed := closes_enclosed h hopening hclosing isBlank_nil isBlank_nil
    rw [List.isEmpty_iff.mp hnil] at henclosed
    simpa [Text.join] using henclosed
  next =>
    exact closes_enclosed h hopening hclosing (isBlank_newline _) (isBlank_newline _)

/-- The level changes blanks alone, so the tokens do not depend on it. -/
theorem reads_indented (j : Json) : ∀ level, Reads (j.indented level) j.tokens := by
  induction j using induct with
  | null => exact fun _ _ => ⟨_, rfl, rfl⟩
  | bool b => cases b <;> exact fun _ _ => ⟨_, rfl, rfl⟩
  | num n => exact fun _ => reads_ofInt n
  | str t => exact fun _ => (closes_quotedText true t).reads
  | arr items ih =>
    intro level
    rw [indented, indentedItems_eq, tokens, itemTokens_eq]
    exact (closes_bracketed (o := '[') (c := ']') (fun j hj => ih j hj _) rfl rfl level).reads
  | obj fields ih =>
    intro level
    rw [indented, indentedFields_eq, tokens, fieldTokens_eq]
    have hblank : IsBlank " " := List.forall_mem_singleton.mpr ⟨' ', rfl, rfl⟩
    have hfield := fun f hf => reads_field (f := f) hblank (ih f hf (level + 1))
    exact (closes_bracketed (o := '\x7b') (c := '\x7d') hfield rfl rfl level).reads

/-! ### Texts are read back -/

theorem read?_of_reads {t u : Text} {j : Json} (h : Reads t j.tokens) (hu : IsBlank u) :
    read? (t ++ u) = some j.shown := by
  obtain ⟨s, hscan, hs⟩ := h.append_blank hu []
  rw [List.nil_append] at hs
  simp [read?, hscan, hs, isRead j []]

/-- A value that is written on one line is read back. -/
theorem read?_compact (j : Json) : read? (j.compact ++ "\n") = some j.shown :=
  read?_of_reads (reads_compact j) (isBlank_newline 0)

/-- A value that is written indented is read back. -/
theorem read?_indented (j : Json) : read? (j.indented 0 ++ "\n") = some j.shown :=
  read?_of_reads (reads_indented j 0) (isBlank_newline 0)

end Json

end CallerTree
