import CallerTree.Proofs.Stream

/-!
# Lines and their fragments

A line is cut into fragments by the size of the buffer and judged by its length, and both happen
while its bytes come in. Here the outcome is stated without fragments: a line that ends in a line
feed is handed on without its carriage return if what remains is within the limit, and skipped
otherwise.

## The carriage return

A line loses a carriage return at its end, a fragment in the midst of a line does not. The two rules
agree since no fragment but the last one of a line ends where the carriage return of the line could
stand (`dropReturn_fullLength`): a full buffer keeps it for the fragment that completes the line.

## Main results

* `Stream.dropReturn_fullLength` — a full buffer has no share in the end of its line
* `Stream.Assembly.eventsOf_fragments` — the fragments of one line
* `Stream.events_of_terminated` — a stream whose last line ends in a line feed
* `Stream.allFragments_append_feed`, `Stream.allFragments_full`, `Stream.allFragments_remainder` —
  the fragments of a stream, taken off its front
-/

namespace CallerTree

namespace Stream

/-- The lines of a stream that end in a line feed. -/
def terminatedLines (input : Bytes) : List Bytes := (pieces (· = lineFeed) input).dropLast

/-- What becomes of a line that ends in a line feed. -/
def verdict (limit : Int) (line : Bytes) : Event :=
  if limit < (dropReturn line).length then .skip else .line (dropReturn line)

variable {size : Nat} {limit : Int} {line : Bytes}

/-! ### Full buffers -/

/-- Only the last byte counts, so this fails if `v` is empty and `u` ends in a return. -/
theorem dropReturn_append {u v : Bytes} (h : v ≠ [] ∨ u.getLast? ≠ some carriageReturn) :
    dropReturn (u ++ v) = u ++ dropReturn v := by
  by_cases hv : v = []
  · have hu := h.resolve_left (not_not.mpr hv)
    subst hv
    rw [List.append_nil, dropReturn, if_neg hu]
    exact (List.append_nil u).symm
  · rw [dropReturn, dropReturn, List.getLast?_append_of_ne_nil u hv,
      List.dropLast_append_of_ne_nil hv]
    split <;> rfl

theorem fullLength_le (hsize : 0 < size) : fullLength size line ≤ size := by
  rw [fullLength]
  split <;> omega

/-- What a full buffer hands on does not reach the end of the line, or else does not end in a
carriage return. -/
theorem dropReturn_fullLength (hsize : 2 ≤ size) (hle : size ≤ line.length) :
    dropReturn line =
      line.take (fullLength size line) ++ dropReturn (line.drop (fullLength size line)) := by
  conv_lhs => rw [← List.take_append_drop (fullLength size line) line]
  apply dropReturn_append
  by_cases hlast : (line.take size).getLast? = some carriageReturn
  · left
    rw [fullLength, if_pos hlast, Ne, List.drop_eq_nil_iff]
    omega
  · right
    have hfull : fullLength size line = size := by
      rw [fullLength, if_neg hlast]
      omega
    rwa [hfull]

/-- How much a full buffer hands on depends on the buffer only. -/
theorem fullLength_append {buffer : Bytes} (hbuffer : buffer.length = size) (more : Bytes) :
    fullLength size (buffer ++ more) = fullLength size buffer := by
  rw [fullLength, fullLength, List.take_left' hbuffer, List.take_of_length_le hbuffer.le]

/-! ### The events of fragments -/

namespace Assembly

/-- What becomes of the line under assembly when its last fragment comes. -/
def completed (limit : Int) (a : Assembly) (data : Bytes) : Event :=
  if a.overlong = true ∨ limit < a.held.length + data.length then .skip else .line (a.held ++ data)

/-- The events that the fragments add. -/
def eventsOf (limit : Int) (a : Assembly) (fs : List Fragment) : List Event :=
  (fs.foldl (add limit) { a with events := [] }).events.reverse

variable {a : Assembly} {data : Bytes} {fs : List Fragment}

theorem add_completing :
    a.add limit ⟨data, false⟩ = { events := a.completed limit data :: a.events } := by
  by_cases h : a.overlong = true ∨ limit < a.held.length + data.length
  · simp [add, completed, h]
  · simp [add, completed, h]

theorem eventsOf_nil : a.eventsOf limit [] = [] := rfl

theorem eventsOf_partial : a.eventsOf limit (⟨data, true⟩ :: fs) =
    (a.add limit ⟨data, true⟩).eventsOf limit fs := rfl

/-- The events so far have no influence on those to come. -/
theorem events_foldl_add (fs : List Fragment) (a : Assembly) :
    (fs.foldl (add limit) a).events = (a.eventsOf limit fs).reverse ++ a.events := by
  induction fs generalizing a with
  | nil => rfl
  | cons f fs ih =>
    obtain ⟨data, goesOn⟩ := f
    cases goesOn with
    | true => exact ih (a.add limit ⟨data, true⟩)
    | false =>
      have hfresh : ∀ es, (fs.foldl (add limit) { events := es }).events =
          (eventsOf limit {} fs).reverse ++ es := fun es => ih { events := es }
      rw [eventsOf, List.foldl_cons, List.foldl_cons, add_completing, add_completing, hfresh,
        hfresh, List.reverse_reverse, List.append_assoc]
      rfl

theorem eventsOf_completing : a.eventsOf limit (⟨data, false⟩ :: fs) =
    a.completed limit data :: eventsOf limit {} fs := by
  rw [eventsOf, List.foldl_cons, add_completing, events_foldl_add]
  simp [eventsOf, completed]

/-- A fragment that was taken up counts as if it came with the next one. -/
theorem completed_add (u v : Bytes) :
    (a.add limit ⟨u, true⟩).completed limit v = a.completed limit (u ++ v) := by
  have hlength : (a.held.length + (u ++ v).length : Int) = a.held.length + u.length + v.length := by
    rw [List.length_append, Int.natCast_add, Int.add_assoc]
  by_cases h : a.overlong = true ∨ limit < a.held.length + u.length
  · -- Once too long, always too long.
    have hlong : a.overlong = true ∨ limit < a.held.length + (u ++ v).length :=
      h.imp_right fun hlt => by omega
    rw [completed, completed, if_pos hlong, if_pos (.inl (by simpa [add] using h))]
  · obtain ⟨hshort, hle⟩ := not_or.mp h
    have hadd : a.add limit ⟨u, true⟩ = { a with held := a.held ++ u, overlong := false } := by
      simp [add, hshort, hle]
    rw [hadd, completed, completed, List.append_assoc, hlength, List.length_append,
      Int.natCast_add]
    simp [hshort]

/-- **The fragments of one line.** They come to one event, and that is the same as if the line came
as a whole. -/
theorem eventsOf_fragments (hsize : 2 ≤ size) (line : Bytes) (a : Assembly) :
    a.eventsOf limit (fragments size true line ++ fs) =
      a.completed limit (dropReturn line) :: eventsOf limit {} fs := by
  fun_induction fragments size true line generalizing a with
  | case1 line hfull ih =>
    rw [List.cons_append, eventsOf_partial, ih, completed_add,
      ← dropReturn_fullLength hsize hfull.2]
  | case2 line _ _ => exact eventsOf_completing
  | case3 h _ => exact absurd rfl h
  | case4 _ _ h _ => exact absurd rfl h

end Assembly

/-- The whole lines at the front of a stream are judged one by one. -/
theorem eventsOf_flatMap_fragments (hsize : 2 ≤ size) (ls : List Bytes) (fs : List Fragment) :
    Assembly.eventsOf limit {} (ls.flatMap (fragments size true) ++ fs) =
      ls.map (verdict limit) ++ Assembly.eventsOf limit {} fs := by
  induction ls with
  | nil => rfl
  | cons line ls ih =>
    rw [List.flatMap_cons, List.append_assoc, Assembly.eventsOf_fragments hsize, ih, List.map_cons,
      List.cons_append]
    simp [Assembly.completed, verdict]

theorem terminated_iff {input : Bytes} :
    unterminated input = [] ↔ input = [] ∨ input.getLast? = some lineFeed := by
  rw [← not_iff_not, ← Ne, unterminated_ne_nil_iff, not_or]

theorem allFragments_eq (size : Nat) (input : Bytes) :
    allFragments size input =
      (terminatedLines input).flatMap (fragments size true) ++
        fragments size false (unterminated input) := by
  rw [allFragments, getLast?_pieces, Option.map_some, Option.getD_some, terminatedLines]
  simp [unterminated]

theorem fragments_nil : fragments size false [] = [] := by
  rw [fragments, if_neg (by simp), if_neg (by simp), if_pos rfl]

/-- A stream of lines that end in line feeds gives one verdict for each of them, whatever the size
of the buffer. -/
theorem events_of_terminated (hsize : 2 ≤ size) (limit : Int) {input : Bytes}
    (h : unterminated input = []) :
    events size limit input = (terminatedLines input).map (verdict limit) := by
  calc events size limit input
      = Assembly.eventsOf limit {} (allFragments size input) := rfl
    _ = Assembly.eventsOf limit {}
          ((terminatedLines input).flatMap (fragments size true) ++ []) := by
      rw [allFragments_eq, h, fragments_nil]
    _ = (terminatedLines input).map (verdict limit) := by
      rw [eventsOf_flatMap_fragments hsize, Assembly.eventsOf_nil, List.append_nil]

/-! ### The fragments at the front of a stream -/

theorem fragments_full {ended : Bool} (hsize : 0 < size) (hle : size ≤ line.length) :
    fragments size ended line = ⟨line.take (fullLength size line), true⟩ ::
      fragments size ended (line.drop (fullLength size line)) := by
  rw [fragments, if_pos ⟨List.length_pos_iff.mp (by omega), hle⟩]

theorem pieces_of_feed_notMem (hline : lineFeed ∉ line) :
    pieces (fun b => decide (b = lineFeed)) line = [line] :=
  pieces_of_forall_not fun _ hb heq => hline (of_decide_eq_true heq ▸ hb)

theorem allFragments_of_notMem (hline : lineFeed ∉ line) :
    allFragments size line = fragments size false line := by
  rw [allFragments, pieces_of_feed_notMem hline]
  rfl

theorem allFragments_nil : allFragments size [] = [] :=
  (allFragments_of_notMem List.not_mem_nil).trans fragments_nil

theorem allFragments_append_feed (hline : lineFeed ∉ line) (after : Bytes) :
    allFragments size (line ++ lineFeed :: after) =
      fragments size true line ++ allFragments size after := by
  have hpieces : pieces (fun b => decide (b = lineFeed)) (line ++ lineFeed :: after) =
      line :: pieces (fun b => decide (b = lineFeed)) after := by
    rw [pieces_append_cons line (by simp), pieces_of_feed_notMem hline]
    rfl
  have hne : pieces (fun b => decide (b = lineFeed)) after ≠ [] := pieces_ne_nil after
  rw [allFragments, allFragments, hpieces]
  simp only [List.dropLast_cons_of_ne_nil hne, List.getLast?_cons_of_ne_nil hne,
    List.flatMap_cons, List.append_assoc]

/-- A line that is within the buffer is completed by its line feed. -/
theorem allFragments_short (hline : lineFeed ∉ line) (hlt : line.length < size) (after : Bytes) :
    allFragments size (line ++ lineFeed :: after) =
      ⟨dropReturn line, false⟩ :: allFragments size after := by
  rw [allFragments_append_feed hline, fragments, if_neg (by omega), if_pos rfl]
  rfl

/-- A buffer that is full and holds no line feed. -/
theorem allFragments_full {buffer : Bytes} (hsize : 0 < size) (hbuffer : buffer.length = size)
    (hfeed : lineFeed ∉ buffer) (more : Bytes) :
    allFragments size (buffer ++ more) =
      ⟨buffer.take (fullLength size buffer), true⟩ ::
        allFragments size (buffer.drop (fullLength size buffer) ++ more) := by
  have hle : fullLength size buffer ≤ buffer.length := (fullLength_le hsize).trans hbuffer.ge
  have hstep : ∀ (ended : Bool) (u : Bytes), fragments size ended (buffer ++ u) =
      ⟨buffer.take (fullLength size buffer), true⟩ ::
        fragments size ended (buffer.drop (fullLength size buffer) ++ u) := by
    intro ended u
    rw [fragments_full hsize (by rw [List.length_append]; omega), fullLength_append hbuffer,
      List.take_append_of_le_length hle, List.drop_append_of_le_length hle]
  have hdrop : lineFeed ∉ buffer.drop (fullLength size buffer) := fun hmem =>
    hfeed (List.mem_of_mem_drop hmem)
  have happend : ∀ {u v : Bytes}, lineFeed ∉ u → lineFeed ∉ v → lineFeed ∉ u ++ v :=
    fun hu hv hmem => (List.mem_append.mp hmem).elim hu hv
  -- The line that the buffer belongs to ends at the first line feed behind it, if there is one.
  by_cases hmore : lineFeed ∈ more
  · obtain ⟨u, v, rfl, hu⟩ := List.eq_append_cons_of_mem hmore
    rw [← List.append_assoc, allFragments_append_feed (happend hfeed hu), hstep,
      ← List.append_assoc, allFragments_append_feed (happend hdrop hu), List.cons_append]
  · rw [allFragments_of_notMem (happend hfeed hmore), hstep,
      allFragments_of_notMem (happend hdrop hmore)]

/-- What remains behind the last line feed, if it does not fill a buffer. -/
theorem allFragments_remainder (hline : lineFeed ∉ line) (hne : line ≠ [])
    (hlt : line.length < size) : allFragments size line = [⟨line, false⟩] := by
  rw [allFragments_of_notMem hline, fragments, if_neg (by omega), if_neg (by simp), if_neg hne]

end Stream

end CallerTree
