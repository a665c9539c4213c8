import CallerTree.Proofs.Pieces
import CallerTree.Stream

/-!
# Which lines of a stream are accounted for

Every line of a stream should become one event: it is handed on, or it is skipped because it is too
long. That holds for the lines that end in a line feed. For the rest after the last line feed it
depends on where the stream ends: a rest that fills its buffers without remainder is announced as a
line that goes on, and then nothing follows.

## The exact condition

`FillsBuffers` describes such a rest by the way it lies in the buffers. A full buffer is consumed as
a whole, unless it ends in a carriage return, which is kept back and starts the next buffer. Without
carriage returns it means that the length is a positive multiple of the buffer size
(`fillsBuffers_iff_dvd`).

## Main results

* `Stream.countP_fragments_ended`, `Stream.countP_fragments_unended` — the fragments that complete
  a line
* `Stream.length_events` — the events of a stream, counted by the fragments that complete a line
* `Stream.lines_and_skips_account_for_input` — all lines but a rest that fills its buffers
-/

namespace CallerTree

namespace Stream

/-- The line is cut into full buffers without remainder. -/
inductive FillsBuffers (size : Nat) : Bytes → Prop
  | last {buffer : Bytes} (hsize : buffer.length = size)
      (hlast : buffer.getLast? ≠ some carriageReturn) : FillsBuffers size buffer
  | full {buffer rest : Bytes} (hsize : buffer.length = size)
      (hlast : buffer.getLast? ≠ some carriageReturn) (hrest : FillsBuffers size rest) :
      FillsBuffers size (buffer ++ rest)
  /-- The carriage return at the end of the buffer is kept for the next one. -/
  | held {buffer rest : Bytes} (hsize : buffer.length + 1 = size)
      (hrest : FillsBuffers size (carriageReturn :: rest)) :
      FillsBuffers size (buffer ++ carriageReturn :: rest)

variable {size : Nat}

theorem FillsBuffers.size_le {line : Bytes} (h : FillsBuffers size line) : size ≤ line.length := by
  cases h with
  | last hsize _ => exact hsize.ge
  | full hsize _ _ =>
    rw [List.length_append]
    omega
  | held hsize _ =>
    rw [List.length_append, List.length_cons]
    omega

/-- A line whose first buffer does not end in a carriage return: the buffer is consumed. -/
theorem fillsBuffers_iff_of_ne {line : Bytes} (hle : size ≤ line.length)
    (hlast : (line.take size).getLast? ≠ some carriageReturn) :
    FillsBuffers size line ↔ line.drop size = [] ∨ FillsBuffers size (line.drop size) := by
  have htake : (line.take size).length = size := List.length_take_of_le hle
  constructor
  · rintro (⟨hsize, _⟩ | ⟨hsize, _, hrest⟩ | ⟨hsize, _⟩)
    · exact .inl (List.drop_of_length_le hsize.le)
    · rw [List.drop_left' hsize]
      exact .inr hrest
    · rw [← List.singleton_append, ← List.append_assoc,
        List.take_left' (by simpa using hsize)] at hlast
      simp at hlast
  · rintro (hnil | hrest)
    · rw [List.drop_eq_nil_iff] at hnil
      rw [List.take_of_length_le hnil] at hlast
      exact .last (by omega) hlast
    · rw [← List.take_append_drop size line]
      exact .full htake hlast hrest

/-- A line whose first buffer ends in a carriage return: the buffer is consumed up to it. -/
theorem fillsBuffers_iff_of_eq {line : Bytes}
    (hlast : (line.take (size + 1)).getLast? = some carriageReturn) (hle : size + 1 ≤ line.length) :
    FillsBuffers (size + 1) line ↔ FillsBuffers (size + 1) (line.drop size) := by
  obtain ⟨buffer, hbuffer⟩ := List.getLast?_eq_some_iff.mp hlast
  have hsize : buffer.length = size := by
    have := congrArg List.length hbuffer
    rw [List.length_take_of_le hle, List.length_append, List.length_singleton] at this
    omega
  have hline : line = buffer ++ carriageReturn :: line.drop (size + 1) := by
    conv_lhs => rw [← List.take_append_drop (size + 1) line, hbuffer, List.append_assoc,
      List.singleton_append]
  constructor
  · rintro (⟨hlength, hne⟩ | ⟨hlength, hne, _⟩ | ⟨hlength, hrest⟩)
    · rw [List.take_of_length_le hlength.le] at hlast
      exact absurd hlast hne
    · rw [List.take_left' hlength] at hlast
      exact absurd hlast hne
    · rw [List.drop_left' (by omega)]
      exact hrest
  · intro hrest
    rw [hline, List.drop_left' hsize] at hrest
    rw [hline]
    exact .held (by omega) hrest

/-- One full buffer is taken off a line that fills its buffers. -/
theorem fillsBuffers_iff (hsize : 2 ≤ size) {line : Bytes} (hle : size ≤ line.length) :
    FillsBuffers size line ↔ line.drop (fullLength size line) = [] ∨
      FillsBuffers size (line.drop (fullLength size line)) := by
  by_cases hlast : (line.take size).getLast? = some carriageReturn
  · obtain ⟨size, rfl⟩ : ∃ n, size = n + 1 := ⟨size - 1, by omega⟩
    have hfull : fullLength (size + 1) line = size := by
      rw [fullLength, if_pos hlast]
      omega
    have hdrop : line.drop size ≠ [] := by
      rw [Ne, List.drop_eq_nil_iff]
      omega
    rw [hfull, fillsBuffers_iff_of_eq hlast hle]
    exact ⟨.inr, fun h => h.resolve_left hdrop⟩
  · have hfull : fullLength size line = size := by
      rw [fullLength, if_neg hlast]
      omega
    rw [hfull, fillsBuffers_iff_of_ne hle hlast]

/-- Without carriage returns only the length counts. -/
theorem fillsBuffers_iff_dvd (hsize : 0 < size) {line : Bytes} (hline : carriageReturn ∉ line) :
    FillsBuffers size line ↔ line ≠ [] ∧ size ∣ line.length := by
  constructor
  · intro h
    refine ⟨fun hnil => ?_, ?_⟩
    · have hle := h.size_le
      rw [hnil, List.length_nil] at hle
      omega
    · induction h with
      | last hlength _ => exact hlength ▸ Nat.dvd_refl _
      | full hlength _ _ ih =>
        rw [List.length_append, hlength]
        exact Nat.dvd_add (Nat.dvd_refl _) (ih fun hmem => hline (List.mem_append_right _ hmem))
      | held => simp at hline
  · -- Induction on the number of buffers: the first one is taken off.
    rintro ⟨hne, n, hn⟩
    induction n generalizing line with
    | zero => exact absurd (List.length_eq_zero_iff.mp (by simpa using hn)) hne
    | succ n ih =>
      rw [Nat.mul_succ] at hn
      have hlast : (line.take size).getLast? ≠ some carriageReturn := fun h =>
        hline (List.mem_of_mem_take (List.mem_of_getLast? h))
      rw [fillsBuffers_iff_of_ne (by omega) hlast]
      refine or_iff_not_imp_left.mpr fun hdrop => ih ?_ hdrop ?_
      · exact fun hmem => hline (List.mem_of_mem_drop hmem)
      · rw [List.length_drop]
        omega

/-! ### Fragments -/

/-- Whether a fragment completes a line. -/
def Fragment.completes (f : Fragment) : Bool := !f.partial_

theorem countP_fragments_ended (line : Bytes) :
    (fragments size true line).countP Fragment.completes = 1 := by
  fun_induction fragments size true line with
  | case1 line _ ih => rw [List.countP_cons_of_neg (by simp [Fragment.completes]), ih]
  | case2 line _ _ => rfl
  | case3 h _ => exact absurd rfl h
  | case4 _ _ h _ => exact absurd rfl h

theorem countP_fragments_unended (hsize : 2 ≤ size) (line : Bytes) :
    (fragments size false line).countP Fragment.completes ≤ 1 ∧
      ((fragments size false line).countP Fragment.completes = 0 ↔
        line = [] ∨ FillsBuffers size line) := by
  fun_induction fragments size false line with
  | case1 line hfull ih =>
    rw [List.countP_cons_of_neg (by simp [Fragment.completes]), fillsBuffers_iff hsize hfull.2]
    simpa only [hfull.1, false_or] using ih
  | case2 _ _ h => exact absurd h Bool.false_ne_true
  | case3 => simp
  | case4 line hfull _ hne =>
    have hnot : ¬ FillsBuffers size line := fun h => hfull ⟨hne, h.size_le⟩
    simp [Fragment.completes, hne, hnot]

/-- What follows the last line feed. -/
def unterminated (input : Bytes) : Bytes := input.rtakeWhile (· ≠ lineFeed)

theorem unterminated_ne_nil_iff {input : Bytes} :
    unterminated input ≠ [] ↔ input ≠ [] ∧ input.getLast? ≠ some lineFeed := by
  rw [unterminated, Ne, List.rtakeWhile_eq_nil_iff]
  rcases List.eq_nil_or_concat input with rfl | ⟨front, b, rfl⟩
  · simp
  · simp

theorem countP_flatMap_ended (ls : List Bytes) :
    (ls.flatMap (fragments size true)).countP Fragment.completes = ls.length := by
  induction ls with
  | nil => rfl
  | cons line ls ih =>
    rw [List.flatMap_cons, List.countP_append, countP_fragments_ended, ih, List.length_cons,
      Nat.add_comm]

/-- One completed line for each line feed, and what is completed after the last one. -/
theorem countP_allFragments (input : Bytes) :
    (allFragments size input).countP Fragment.completes =
      input.count lineFeed +
        (fragments size false (unterminated input)).countP Fragment.completes := by
  have hlast := getLast?_pieces (p := fun b => decide (b = lineFeed)) input
  have hlength := length_pieces (p := fun b => decide (b = lineFeed)) input
  have hcount : input.countP (fun b => decide (b = lineFeed)) = input.count lineFeed :=
    List.countP_congr fun b _ => by simp
  rw [allFragments, hlast, List.countP_append, countP_flatMap_ended, List.length_dropLast, hlength,
    hcount]
  simp [unterminated]

/-! ### Events -/

/-- One fragment gives an event exactly if it completes a line. -/
theorem length_events_add (limit : Int) (a : Assembly) (f : Fragment) :
    (a.add limit f).events.length = a.events.length + if f.completes then 1 else 0 := by
  obtain ⟨data, goesOn⟩ := f
  cases goesOn <;> simp [Assembly.add, Fragment.completes]

theorem length_events_foldl (limit : Int) (fs : List Fragment) (a : Assembly) :
    (fs.foldl (Assembly.add limit) a).events.length =
      a.events.length + fs.countP Fragment.completes := by
  induction fs generalizing a with
  | nil => rfl
  | cons f fs ih => rw [List.foldl_cons, ih, length_events_add, List.countP_cons, Nat.add_assoc,
      Nat.add_comm (ite _ _ _)]

theorem length_events (limit : Int) (input : Bytes) :
    (events size limit input).length = (allFragments size input).countP Fragment.completes := by
  rw [events, List.length_reverse, length_events_foldl]
  exact Nat.zero_add _

@[simp] theorem lines_cons_line (data : Bytes) (es : List Event) :
    lines (.line data :: es) = data :: lines es := rfl

@[simp] theorem lines_cons_skip (es : List Event) : lines (.skip :: es) = lines es := rfl

@[simp] theorem skipped_cons_line (data : Bytes) (es : List Event) :
    skipped (.line data :: es) = skipped es := List.countP_cons_of_neg (by simp)

@[simp] theorem skipped_cons_skip (es : List Event) : skipped (.skip :: es) = skipped es + 1 :=
  List.countP_cons_of_pos (by simp)

theorem length_lines_add_skipped (es : List Event) :
    (lines es).length + skipped es = es.length := by
  induction es with
  | nil => rfl
  | cons e es ih =>
    cases e with
    | line data =>
      rw [lines_cons_line, skipped_cons_line, List.length_cons, List.length_cons, ← ih]
      omega
    | skip =>
      rw [lines_cons_skip, skipped_cons_skip, List.length_cons, ← ih]
      omega

/-- **Which lines are accounted for.** The lines handed on and those skipped are as many as the line
feeds of the stream, plus one if the stream does not end in a line feed. The one exception is a rest
after the last line feed that fills its buffers: it is neither handed on nor skipped. -/
theorem lines_and_skips_account_for_input (limit : Int) (input : Bytes) :
    (¬ FillsBuffers bufferSize (unterminated input) →
      (lines (events bufferSize limit input)).length + skipped (events bufferSize limit input) =
        input.count lineFeed + if input ≠ [] ∧ input.getLast? ≠ some lineFeed then 1 else 0) ∧
    (FillsBuffers bufferSize (unterminated input) →
      (lines (events bufferSize limit input)).length + skipped (events bufferSize limit input) + 1 =
        input.count lineFeed + if input ≠ [] ∧ input.getLast? ≠ some lineFeed then 1 else 0) := by
  have hsize : 2 ≤ bufferSize := by decide
  obtain ⟨hle, hzero⟩ := countP_fragments_unended hsize (unterminated input)
  rw [length_lines_add_skipped, length_events, countP_allFragments]
  simp only [← unterminated_ne_nil_iff]
  constructor
  · intro hnot
    by_cases hnil : unterminated input = []
    · rw [if_neg (not_not.mpr hnil), hzero.mpr (.inl hnil)]
    · rw [if_pos hnil]
      have hpos := mt hzero.mp (not_or.mpr ⟨hnil, hnot⟩)
      omega
  · intro hfills
    have hlength := hfills.size_le
    have hne : unterminated input ≠ [] := fun hnil => by
      rw [hnil, List.length_nil] at hlength
      omega
    rw [if_pos hne, hzero.mpr (.inr hfills)]

/-- A stream of one full buffer is lost as a whole. -/
theorem full_buffer_unaccounted :
    FillsBuffers bufferSize (unterminated (List.replicate bufferSize 0x61)) ∧
      (lines (events bufferSize lineLimit (List.replicate bufferSize 0x61))).length +
        skipped (events bufferSize lineLimit (List.replicate bufferSize 0x61)) = 0 := by
  have hunterminated :
      unterminated (List.replicate bufferSize 0x61) = List.replicate bufferSize 0x61 := by
    rw [unterminated, List.rtakeWhile_eq_self_iff]
    intro b hb
    rw [List.eq_of_mem_replicate hb]
    decide
  have hfills : FillsBuffers bufferSize (unterminated (List.replicate bufferSize 0x61)) := by
    rw [hunterminated, fillsBuffers_iff_dvd (by decide) (by simp [carriageReturn])]
    rw [Ne, List.replicate_eq_nil_iff, List.length_replicate]
    exact ⟨by decide, Nat.dvd_refl _⟩
  have hcount :=
    (lines_and_skips_account_for_input lineLimit (List.replicate bufferSize 0x61)).2 hfills
  have hfeeds : (List.replicate bufferSize 0x61).count lineFeed = 0 := by
    rw [List.count_eq_zero]
    simp [lineFeed]
  refine ⟨hfills, ?_⟩
  rw [hfeeds] at hcount
  split at hcount <;> omega

end Stream

end CallerTree
