import CallerTree.Line.Enclosing
import CallerTree.Proofs.LineNumbers
import CallerTree.Proofs.Stream

/-!
# The lines of a file and its line feeds

Tools that search a file number its lines by counting line feeds. The lines in which callers are
looked up are made in another order: bytes that belong to no character are dropped from the whole
file, then carriage returns before line feeds, and only then the text is cut. This module compares
the two.

## Why the order hardly matters

A line feed is no part of a longer character, so no character is decoded across one
(`Text.ofUtf8_append_feed`), and dropping stray bytes can neither make a line feed nor take one
away. A carriage return that stands before a line feed once the stray bytes are gone is the last
character of its line. So all three steps can be done line by line.

The one exception is at the end. Behind the last line feed there is a last line only if something is
left there, and if what is left are stray bytes, then they are gone before that is looked at.

## Main definitions

* `SourceLines.rawLines` — the lines by line feeds alone
* `SourceLines.ofRaw` — the raw lines, each read by itself
* `SourceLines.EndsInStrays` — the exception

## Main results

* `Text.ofUtf8_append_feed` — decoding stops at line feeds
* `SourceLines.ofBytes_lines`, `SourceLines.ofRaw_lines` — the two readings of a file, by its lines
* `SourceLines.lines_are_counted_by_feeds` — when they agree, and that lookups always do
-/

namespace CallerTree

namespace Text

/-! ### Decoding up to a line feed -/

theorem decodeOnto_append (done more : Text) (bytes : Bytes) :
    decodeOnto (more ++ done) bytes = done.reverse ++ decodeOnto more bytes := by
  fun_induction decodeOnto more bytes with
  | case1 more => simp [decodeOnto]
  | case2 more b rest c n hsome ih =>
    rw [decodeOnto]
    simp only [hsome]
    exact ih
  | case3 more b rest hnone ih =>
    rw [decodeOnto]
    simp only [hnone]
    exact ih

theorem ofUtf8_cons_of_some {b : UInt8} {rest : Bytes} {c : Char} {n : Nat}
    (h : decodeChar? b rest = some (c, n)) :
    ofUtf8 (b :: rest) = .char c :: ofUtf8 (rest.drop n) := by
  rw [ofUtf8, decodeOnto]
  simp only [h]
  exact decodeOnto_append [.char c] [] _

theorem ofUtf8_cons_of_none {b : UInt8} {rest : Bytes} (h : decodeChar? b rest = none) :
    ofUtf8 (b :: rest) = .stray b :: ofUtf8 rest := by
  rw [ofUtf8, decodeOnto]
  simp only [h]
  exact decodeOnto_append [.stray b] [] _

/-- A byte that continues no character ends the one before it. -/
theorem decodeChar?_append {b x : UInt8} (hx : payload? x = none) (rest more : Bytes) :
    decodeChar? b (rest ++ x :: more) = decodeChar? b rest := by
  unfold decodeChar?
  rcases rest with _ | ⟨b₁, _ | ⟨b₂, _ | ⟨b₃, rest⟩⟩⟩ <;>
    rcases more with _ | ⟨m₁, _ | ⟨m₂, more⟩⟩ <;> simp [hx]

theorem toNat_ofNat_of_isValidChar {n : Nat} (h : n.isValidChar) : (Char.ofNat n).toNat = n := by
  rw [Char.ofNat, dif_pos h]
  rfl

theorem le_toNat_of_scalar? {lo hi n : Nat} {c : Char} (hhi : hi ≤ 0x10FFFF)
    (h : scalar? lo hi n = some c) : lo ≤ c.toNat := by
  rw [scalar?] at h
  split at h
  · rename_i hrange
    obtain rfl := Option.some.inj h
    have hvalid : n.isValidChar := by
      simp only [Nat.isValidChar]
      omega
    rw [toNat_ofNat_of_isValidChar hvalid]
    exact hrange.1
  · cases h

/-- A byte below 128 is a character of its own; any other character lies beyond them and takes
bytes that are there. -/
theorem decodeChar?_cases {b : UInt8} {rest : Bytes} {c : Char} {n : Nat}
    (h : decodeChar? b rest = some (c, n)) :
    (b < 0x80 ∧ c = Char.ofNat b.toNat ∧ n = 0) ∨ (0x80 ≤ c.toNat ∧ n ≤ rest.length) := by
  unfold decodeChar? at h
  split at h
  · rename_i hb
    obtain ⟨rfl, rfl⟩ := Prod.mk.inj (Option.some.inj h)
    exact .inl ⟨hb, rfl, rfl⟩
  · right
    split at h
    · split at h
      · simp only [Option.bind_eq_bind, Option.bind_eq_some_iff, Option.pure_def,
          Option.some.injEq, Prod.mk.injEq] at h
        obtain ⟨x₁, -, c', hc, rfl, rfl⟩ := h
        exact ⟨le_trans (by decide) (le_toNat_of_scalar? (by decide) hc), by simp⟩
      · cases h
    · split at h
      · split at h
        · simp only [Option.bind_eq_bind, Option.bind_eq_some_iff, Option.pure_def,
            Option.some.injEq, Prod.mk.injEq] at h
          obtain ⟨x₁, -, x₂, -, c', hc, rfl, rfl⟩ := h
          exact ⟨le_trans (by decide) (le_toNat_of_scalar? (by decide) hc), by simp⟩
        · cases h
      · split at h
        · split at h
          · simp only [Option.bind_eq_bind, Option.bind_eq_some_iff, Option.pure_def,
              Option.some.injEq, Prod.mk.injEq] at h
            obtain ⟨x₁, -, x₂, -, x₃, -, c', hc, rfl, rfl⟩ := h
            exact ⟨le_trans (by decide) (le_toNat_of_scalar? (by decide) hc), by simp⟩
          · cases h
        · cases h

theorem payload?_lineFeed : payload? Stream.lineFeed = none := by decide

theorem length_drop_lt_cons (b : UInt8) (rest : Bytes) (n : Nat) :
    (rest.drop n).length < (b :: rest).length := by
  rw [List.length_drop, List.length_cons]
  omega

/-- No character goes over a line feed. -/
theorem ofUtf8_append_feed (u v : Bytes) :
    ofUtf8 (u ++ Stream.lineFeed :: v) = ofUtf8 u ++ .char '\n' :: ofUtf8 v := by
  induction hlength : u.length using Nat.strongRecOn generalizing u with
  | _ k ih =>
    subst hlength
    cases u with
    | nil =>
      have hfeed : decodeChar? Stream.lineFeed v = some ('\n', 0) := rfl
      rw [ofUtf8_nil]
      exact ofUtf8_cons_of_some hfeed
    | cons b rest =>
      have happend := decodeChar?_append (b := b) payload?_lineFeed rest v
      rw [List.cons_append]
      cases hchar : decodeChar? b rest with
      | none =>
        rw [ofUtf8_cons_of_none (happend.trans hchar), ofUtf8_cons_of_none hchar,
          ih rest.length (by simp) rest rfl, List.cons_append]
      | some found =>
        obtain ⟨c, n⟩ := found
        have hn : n ≤ rest.length := by
          rcases decodeChar?_cases hchar with ⟨-, -, rfl⟩ | ⟨-, hn⟩
          · exact Nat.zero_le _
          · exact hn
        rw [ofUtf8_cons_of_some (happend.trans hchar), ofUtf8_cons_of_some hchar,
          List.drop_append_of_le_length hn,
          ih _ (length_drop_lt_cons b rest n) (rest.drop n) rfl, List.cons_append]

theorem eq_lineFeed_of_decodeChar? {b : UInt8} {rest : Bytes} {n : Nat}
    (h : decodeChar? b rest = some ('\n', n)) : b = Stream.lineFeed := by
  rcases decodeChar?_cases h with ⟨hb, hc, -⟩ | ⟨hc, -⟩
  · have hlt : b.toNat < 0x80 := UInt8.lt_iff_toNat_lt.mp hb
    have hvalid : b.toNat.isValidChar := .inl (by omega)
    have hnat := congrArg Char.toNat hc
    rw [toNat_ofNat_of_isValidChar hvalid] at hnat
    exact UInt8.toNat_inj.mp (show b.toNat = Stream.lineFeed.toNat from hnat.symm)
  · exact absurd hc (by decide)

/-- A line feed has no longer encoding, so bytes and text are cut into the same lines. -/
theorem feed_notMem_ofUtf8 {u : Bytes} (hu : Stream.lineFeed ∉ u) : Glyph.char '\n' ∉ ofUtf8 u := by
  induction hlength : u.length using Nat.strongRecOn generalizing u with
  | _ k ih =>
    subst hlength
    cases u with
    | nil => simp
    | cons b rest =>
      obtain ⟨hb, hrest⟩ := not_or.mp (mt List.mem_cons.mpr hu)
      cases hchar : decodeChar? b rest with
      | none =>
        rw [ofUtf8_cons_of_none hchar, List.mem_cons, not_or]
        exact ⟨by simp, ih _ (by simp) hrest rfl⟩
      | some found =>
        obtain ⟨c, n⟩ := found
        rw [ofUtf8_cons_of_some hchar, List.mem_cons, not_or]
        refine ⟨?_, ih _ (length_drop_lt_cons b rest n)
          (fun h => hrest (List.mem_of_mem_drop h)) rfl⟩
        intro hc
        obtain rfl : '\n' = c := by simpa using hc
        exact hb (eq_lineFeed_of_decodeChar? hchar).symm

/-- The characters of a byte string. -/
def cleaned (data : Bytes) : Text := (ofUtf8 data).wellFormed

@[simp] theorem cleaned_nil : cleaned [] = [] := by rw [cleaned, ofUtf8_nil, wellFormed]; rfl

theorem cleaned_append_feed (u v : Bytes) :
    cleaned (u ++ Stream.lineFeed :: v) = cleaned u ++ .char '\n' :: cleaned v := by
  rw [cleaned, ofUtf8_append_feed, wellFormed, List.filter_append]
  rfl

theorem feed_notMem_cleaned {u : Bytes} (hu : Stream.lineFeed ∉ u) : Glyph.char '\n' ∉ cleaned u :=
  fun h => feed_notMem_ofUtf8 hu (List.mem_of_mem_filter h)

end Text

namespace SourceLines

/-- Without one carriage return at the end. -/
def dropReturn (t : Text) : Text := if t.getLast? = some (.char '\r') then t.dropLast else t

theorem joinReturns_cons {g : Glyph} (t : Text)
    (h : ¬ (g = .char '\r' ∧ t.head? = some (.char '\n'))) :
    joinReturns (g :: t) = g :: joinReturns t := by
  rw [joinReturns]
  rintro u rfl rfl
  exact h ⟨rfl, rfl⟩

theorem joinReturns_of_notMem {t : Text} (ht : Glyph.char '\n' ∉ t) : joinReturns t = t := by
  induction t with
  | nil => rfl
  | cons g t ih =>
    obtain ⟨-, ht⟩ := not_or.mp (mt List.mem_cons.mpr ht)
    rw [joinReturns_cons t fun h => ht (List.mem_of_mem_head? h.2), ih ht]

theorem dropReturn_cons (g : Glyph) {t : Text} (ht : t ≠ []) :
    dropReturn (g :: t) = g :: dropReturn t := by
  obtain ⟨h, t, rfl⟩ := List.exists_cons_of_ne_nil ht
  rw [dropReturn, dropReturn, List.getLast?_cons_cons, List.dropLast_cons_cons]
  split <;> rfl

/-- A line feed takes the carriage return before it. -/
theorem joinReturns_append_feed {u : Text} (hu : Glyph.char '\n' ∉ u) (v : Text) :
    joinReturns (u ++ .char '\n' :: v) = dropReturn u ++ .char '\n' :: joinReturns v := by
  induction u with
  | nil => exact joinReturns_cons v (by simp)
  | cons g u ih =>
    obtain ⟨-, hu⟩ := not_or.mp (mt List.mem_cons.mpr hu)
    cases u with
    | nil =>
      by_cases hg : g = .char '\r'
      · subst hg
        rfl
      · rw [List.singleton_append, joinReturns_cons _ (fun h => hg h.1),
          joinReturns_cons v (by simp)]
        simp [dropReturn, hg]
    | cons h u =>
      have hne : ¬ (g = .char '\r' ∧ (h :: u ++ .char '\n' :: v).head? = some (.char '\n')) := by
        rintro ⟨-, hh⟩
        exact hu (List.mem_cons.mpr (.inl (Option.some.inj hh).symm))
      rw [List.cons_append, joinReturns_cons _ hne, ih hu, dropReturn_cons g (by simp)]
      rfl

theorem feed_notMem_dropReturn {t : Text} (ht : Glyph.char '\n' ∉ t) :
    Glyph.char '\n' ∉ dropReturn t := by
  rw [dropReturn]
  split
  · exact fun h => ht ((List.dropLast_sublist t).subset h)
  · exact ht

/-- How a text of lines and a rest is cut. -/
theorem cutLines_lines {ls : List Text} {tail : Text} (hls : ∀ l ∈ ls, Glyph.char '\n' ∉ l)
    (htail : Glyph.char '\n' ∉ tail) :
    cutLines (ls.flatMap (· ++ [.char '\n']) ++ tail) =
      if tail = [] ∧ ls ≠ [] then ls else ls ++ [tail] := by
  rcases List.eq_nil_or_concat tail with rfl | ⟨front, g, rfl⟩
  · rcases List.eq_nil_or_concat ls with rfl | ⟨ls, l, rfl⟩
    · rfl
    · rw [List.concat_eq_append] at hls ⊢
      obtain ⟨hls, hl⟩ := List.forall_mem_append.mp hls
      rw [if_pos ⟨rfl, by simp⟩, cutLines, List.append_nil, List.flatMap_append,
        List.flatMap_singleton, ← List.append_assoc, dropTail_concat, if_pos rfl]
      exact pieces_lines hls (hl l (List.mem_singleton_self l))
  · have hg : g ≠ .char '\n' := by
      rintro rfl
      simp at htail
    rw [if_neg (by simp), cutLines]
    rw [List.concat_eq_append] at htail ⊢
    rw [← List.append_assoc, dropTail_concat, if_neg hg, List.append_assoc]
    exact pieces_lines hls htail

/-! ### The lines of a file -/

/-- What stands between the line feeds of a file. Behind a line feed at its end there is no line. -/
def rawLines (data : Bytes) : List Bytes :=
  if data.getLast? = some Stream.lineFeed then (pieces (· = Stream.lineFeed) data).dropLast
  else pieces (· = Stream.lineFeed) data

/-- How a raw line should be read: without the bytes that belong to no character and, if a line feed
ends it, without one carriage return before that. -/
def readRaw (isEnded : Bool) (raw : Bytes) : Text :=
  if isEnded then dropReturn (Text.cleaned raw) else Text.cleaned raw

/-- All raw lines, each as it should be read. -/
def ofRaw (data : Bytes) : List Text :=
  (rawLines data).mapIdx fun i raw => readRaw (decide (i < data.count Stream.lineFeed)) raw

variable {ls : List Bytes} {tail : Bytes}

theorem joinReturns_cleaned (hls : ∀ l ∈ ls, Stream.lineFeed ∉ l) (htail : Stream.lineFeed ∉ tail) :
    joinReturns (Text.cleaned (ls.flatMap (· ++ [Stream.lineFeed]) ++ tail)) =
      (ls.map (readRaw true)).flatMap (· ++ [.char '\n']) ++ Text.cleaned tail := by
  induction ls with
  | nil => exact joinReturns_of_notMem (Text.feed_notMem_cleaned htail)
  | cons l ls ih =>
    obtain ⟨hl, hls⟩ := List.forall_mem_cons.mp hls
    rw [List.flatMap_cons, List.append_assoc, List.append_assoc, List.singleton_append,
      Text.cleaned_append_feed, joinReturns_append_feed (Text.feed_notMem_cleaned hl), ih hls]
    simp [readRaw]

theorem ofBytes_lines (hls : ∀ l ∈ ls, Stream.lineFeed ∉ l) (htail : Stream.lineFeed ∉ tail) :
    ofBytes (ls.flatMap (· ++ [Stream.lineFeed]) ++ tail) =
      if Text.cleaned tail = [] ∧ ls ≠ [] then ls.map (readRaw true)
      else ls.map (readRaw true) ++ [readRaw false tail] := by
  have hread : ∀ l ∈ ls.map (readRaw true), Glyph.char '\n' ∉ l := by
    intro l hl
    obtain ⟨raw, hraw, rfl⟩ := List.mem_map.mp hl
    exact feed_notMem_dropReturn (Text.feed_notMem_cleaned (hls raw hraw))
  have hcut := cutLines_lines hread (Text.feed_notMem_cleaned htail)
  simp only [← joinReturns_cleaned hls htail, ne_eq, List.map_eq_nil_iff] at hcut
  exact hcut

theorem getLast?_lines_iff (htail : Stream.lineFeed ∉ tail) :
    (ls.flatMap (· ++ [Stream.lineFeed]) ++ tail).getLast? = some Stream.lineFeed ↔
      tail = [] ∧ ls ≠ [] := by
  rcases List.eq_nil_or_concat tail with rfl | ⟨front, b, rfl⟩
  · rcases List.eq_nil_or_concat ls with rfl | ⟨ls, l, rfl⟩
    · simp
    · simp [List.flatMap_append]
  · have hb : b ≠ Stream.lineFeed := by
      rintro rfl
      simp at htail
    simp [← List.append_assoc, hb]

theorem count_lines (hls : ∀ l ∈ ls, Stream.lineFeed ∉ l) (htail : Stream.lineFeed ∉ tail) :
    (ls.flatMap (· ++ [Stream.lineFeed]) ++ tail).count Stream.lineFeed = ls.length := by
  induction ls with
  | nil => exact List.count_eq_zero.mpr htail
  | cons l ls ih =>
    obtain ⟨hl, hls⟩ := List.forall_mem_cons.mp hls
    rw [List.flatMap_cons, List.append_assoc, List.append_assoc, List.count_append,
      List.count_append, List.count_eq_zero.mpr hl, ih hls, List.count_singleton_self,
      List.length_cons]
    omega

theorem ofRaw_lines (hls : ∀ l ∈ ls, Stream.lineFeed ∉ l) (htail : Stream.lineFeed ∉ tail) :
    ofRaw (ls.flatMap (· ++ [Stream.lineFeed]) ++ tail) =
      if tail = [] ∧ ls ≠ [] then ls.map (readRaw true)
      else ls.map (readRaw true) ++ [readRaw false tail] := by
  have hended : (ls.mapIdx fun i raw => readRaw (decide (i < ls.length)) raw) =
      ls.map (readRaw true) := by
    refine List.ext_getElem (by simp) fun i hi _ => ?_
    rw [List.length_mapIdx] at hi
    simp [hi]
  rw [ofRaw, rawLines, count_lines hls htail, pieces_lines hls htail]
  simp only [getLast?_lines_iff htail]
  split
  · rw [List.dropLast_concat, hended]
  · rw [List.mapIdx_concat, hended]
    simp

theorem unterminated_lines (hls : ∀ l ∈ ls, Stream.lineFeed ∉ l) (htail : Stream.lineFeed ∉ tail) :
    Stream.unterminated (ls.flatMap (· ++ [Stream.lineFeed]) ++ tail) = tail := by
  have hlast := getLast?_pieces (p := fun b => decide (b = Stream.lineFeed))
    (ls.flatMap (· ++ [Stream.lineFeed]) ++ tail)
  rw [pieces_lines hls htail, List.getLast?_concat, Option.some.injEq] at hlast
  rw [Stream.unterminated]
  simpa using hlast.symm

theorem feed_mem_lines_iff (hls : ∀ l ∈ ls, Stream.lineFeed ∉ l) (htail : Stream.lineFeed ∉ tail) :
    Stream.lineFeed ∈ ls.flatMap (· ++ [Stream.lineFeed]) ++ tail ↔ ls ≠ [] := by
  rw [← List.count_pos_iff, count_lines hls htail, List.length_pos_iff]

/-- Behind the last line feed there are bytes, but no characters. -/
def EndsInStrays (data : Bytes) : Prop :=
  Stream.lineFeed ∈ data ∧ Stream.unterminated data ≠ [] ∧
    Text.cleaned (Stream.unterminated data) = []

/-- The two readings differ only in whether bytes without a character make a last line. -/
theorem ofBytes_eq_ofRaw {data : Bytes} (h : ¬ EndsInStrays data) :
    ofBytes data = ofRaw data := by
  obtain ⟨ls, tail, hls, htail, rfl⟩ := exists_lines Stream.lineFeed data
  rw [EndsInStrays, feed_mem_lines_iff hls htail, unterminated_lines hls htail] at h
  have hempty : Text.cleaned tail = [] ∧ ls ≠ [] ↔ tail = [] ∧ ls ≠ [] := by
    constructor
    · rintro ⟨hclean, hne⟩
      exact ⟨by_contra fun htail => h ⟨hne, htail, hclean⟩, hne⟩
    · rintro ⟨rfl, hne⟩
      exact ⟨Text.cleaned_nil, hne⟩
  rw [ofBytes_lines hls htail, ofRaw_lines hls htail]
  simp only [hempty]

theorem ofRaw_eq_ofBytes_append {data : Bytes} (h : EndsInStrays data) :
    ofRaw data = ofBytes data ++ [[]] := by
  obtain ⟨ls, tail, hls, htail, rfl⟩ := exists_lines Stream.lineFeed data
  rw [EndsInStrays, feed_mem_lines_iff hls htail, unterminated_lines hls htail] at h
  obtain ⟨hne, hbytes, hclean⟩ := h
  have hread : readRaw false tail = [] := hclean
  rw [ofBytes_lines hls htail, if_pos ⟨hclean, hne⟩, ofRaw_lines hls htail,
    if_neg fun hnil => hbytes hnil.1, hread]

end SourceLines

namespace Line

theorem opensBlock_append_nil (lines : List Text) :
    opensBlock (lines ++ [[]]) = opensBlock lines := by
  rw [opensBlock, opensBlock, List.find?_append]
  cases lines.find? fun l => !l.isAllBlank <;> rfl

theorem headerName?_append_nil (line : Text) (following : List Text) :
    headerName? line (following ++ [[]]) = headerName? line following := by
  rw [headerName?, headerName?, opensBlock_append_nil]

theorem nearestHeader?_append_nil (passed following : List Text) :
    nearestHeader? passed (following ++ [[]]) = nearestHeader? passed following := by
  induction passed generalizing following with
  | nil => rfl
  | cons line passed ih =>
    rw [nearestHeader?, nearestHeader?, headerName?_append_nil, ← List.cons_append, ih]

theorem headerName?_nil (following : List Text) : headerName? [] following = none := by
  have hbrace : headerWithEnding? (.mark '\x7b') [] = none := by decide
  have heol : headerWithEnding? .eol [] = none := by decide
  rw [headerName?, hbrace, heol]

/-- An empty line at the end changes nothing for the lines of a file. -/
theorem enclosingFunction_append_nil (lines : List Text) (number : Int) :
    enclosingFunction (lines ++ [[]]) number = enclosingFunction lines number := by
  rw [enclosingFunction, enclosingFunction]
  cases wrap64 (number - 1) with
  | negSucc i => rfl
  | ofNat i =>
    simp only
    rcases Nat.lt_or_ge lines.length (i + 1) with hi | hi
    · rw [List.take_of_length_le (by simp; omega), List.drop_of_length_le (by simp; omega),
        List.take_of_length_le hi.le, List.drop_of_length_le hi.le, List.reverse_concat,
        nearestHeader?, headerName?_nil]
      exact congrArg (·.getD unknownCaller) (nearestHeader?_append_nil lines.reverse [])
    · rw [List.take_append_of_le_length hi, List.drop_append_of_le_length hi,
        nearestHeader?_append_nil]

end Line

namespace SourceLines

/-- The lines of a file are its raw lines, each without the bytes that belong to no character and,
if a line feed ends it, without one carriage return. Only if the last raw line holds nothing but
such bytes, and is not the only one, then there is no line for it. Even then the function around a
line is the same as if there were. -/
theorem lines_are_counted_by_feeds (data : Bytes) :
    (¬ EndsInStrays data → ofBytes data = ofRaw data) ∧
      (EndsInStrays data → ofRaw data = ofBytes data ++ [[]]) ∧
      ∀ number, Line.enclosingFunction (ofBytes data) number =
        Line.enclosingFunction (ofRaw data) number := by
  refine ⟨ofBytes_eq_ofRaw, ofRaw_eq_ofBytes_append, fun number => ?_⟩
  by_cases hstrays : EndsInStrays data
  · rw [ofRaw_eq_ofBytes_append hstrays, Line.enclosingFunction_append_nil]
  · rw [ofBytes_eq_ofRaw hstrays]

/-- Two cut characters, one of them between a carriage return and its line feed. -/
def cutCharacters : Bytes := [0x61, 0xE2, 0x82, 0x0D, 0xC3, 0x0A, 0xF0, 0x9F, 0x0D]

/-- The lines keep their numbers, and only the first loses its carriage return. -/
theorem cut_characters_keep_lines :
    ¬ EndsInStrays cutCharacters ∧ ofBytes cutCharacters = ["a", "\r"] := by
  have hstrays : ¬ EndsInStrays cutCharacters := by
    rintro ⟨-, -, hnone⟩
    exact absurd hnone (by decide +kernel)
  refine ⟨hstrays, ?_⟩
  rw [(lines_are_counted_by_feeds cutCharacters).1 hstrays]
  decide +kernel

/-- A last line of one stray byte is not among the lines. -/
theorem stray_line_vanishes :
    rawLines [0x61, 0x0A, 0xFF] = [[0x61], [0xFF]] ∧ ofRaw [0x61, 0x0A, 0xFF] = ["a", ""] ∧
      ofBytes [0x61, 0x0A, 0xFF] = ["a"] := by
  decide +kernel

end SourceLines

end CallerTree
