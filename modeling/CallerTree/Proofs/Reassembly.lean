import CallerTree.Proofs.Fragments
import CallerTree.Stream.Reader

/-!
# Lines are put together exactly

The lines that a reader hands on depend on the bytes of the stream alone: not on the portions in
which they come, not on the size of the buffer, and not on where in the buffer a line ends.

## What is asked of a source

A reader gives up on a source that gives nothing for too long, so a source has to be steady. It may
report its end with the last bytes or after them. This makes a difference only for a rest without a
line feed that fills the buffer: reported with the end it is complete, and otherwise it is announced
as a line that goes on. `Reader.IsSound` leaves that case out.

## Main results

* `Stream.Reader.IsSound.fill`, `Stream.Reader.IsSound.await` — asking the source keeps a reader
  sound
* `Stream.Reader.IsSound.handOn` — one step: a fragment is taken off the front of the stream
* `Stream.Reader.assemble_eq` — what a reader puts together are the events of the stream
* `Stream.lines_are_put_together_exactly` — for streams whose lines all end in line feeds
-/

namespace CallerTree

namespace Stream

/-- The events up to the first line after which no more is wanted. -/
def upToRefusal (accepts : List Bytes → Bool) : (handed : List Bytes) → List Event → List Event
  | _, [] => []
  | handed, .skip :: es => .skip :: upToRefusal accepts handed es
  | handed, .line l :: es =>
    .line l :: if accepts (handed ++ [l]) then upToRefusal accepts (handed ++ [l]) es else []

/-- One that wants `n + 1` lines more gets the events up to the last of these. -/
theorem upToRefusal_length_lt (n : Nat) (handed : List Bytes) (es : List Event) :
    upToRefusal (fun ls => decide (ls.length < handed.length + (n + 1))) handed es =
      upToLine (n + 1) es := by
  induction es generalizing n handed with
  | nil => rfl
  | cons e es ih =>
    cases e with
    | skip => exact congrArg (Event.skip :: ·) (ih n handed)
    | line l =>
      rw [upToRefusal, upToLine]
      cases n with
      | zero => cases es <;> simp [upToLine]
      | succ n =>
        have hlength : handed.length + (n + 1 + 1) = (handed ++ [l]).length + (n + 1) := by
          rw [List.length_append, List.length_singleton]
          omega
        rw [hlength, if_pos (by simp), ih]

/-! ### Steady sources -/

/-- The source never gives nothing so often in a row that a reader loses patience. -/
def Source.IsSteady (s : Source) : Prop := ¬ List.replicate patience [] <:+: s.portions

instance (s : Source) : Decidable s.IsSteady := inferInstanceAs (Decidable (¬ _))

variable {s : Source} {room : Nat} {r : Reader} {p : Bytes} {ps : List Bytes}

namespace Source

theorem IsSteady.of_suffix (h : s.IsSteady) (hps : ps <:+ s.portions) :
    IsSteady { s with portions := ps } := fun hrun => h (hrun.trans hps.isInfix)

theorem IsSteady.cons (h : IsSteady { s with portions := ps }) (hp : p ≠ []) :
    IsSteady { s with portions := p :: ps } := by
  intro hrun
  rcases List.infix_cons_iff.mp hrun with hfirst | hlater
  · rw [patience, List.replicate_succ, List.cons_prefix_cons] at hfirst
    exact hp hfirst.1.symm
  · exact h hlater

/-- What an answer can be: the end, a whole portion or a part of one. -/
theorem read_cases (s : Source) (room : Nat) :
    (s.portions = [] ∧ (s.read room).bytes = [] ∧ (s.read room).ending = some s.ending ∧
      (s.read room).source = s) ∨
    ∃ p ps, s.portions = p :: ps ∧
      (((s.read room).bytes = p ∧
          (s.read room).ending = (if ps.isEmpty && s.isPrompt then some s.ending else none) ∧
          (s.read room).source = { s with portions := ps }) ∨
        room < p.length ∧ (s.read room).bytes = p.take room ∧ (s.read room).ending = none ∧
          (s.read room).source = { s with portions := p.drop room :: ps }) := by
  rw [read]
  split
  · next hportions => exact .inl ⟨hportions, rfl, rfl, rfl⟩
  · next p ps hportions =>
    refine .inr ⟨p, ps, hportions, ?_⟩
    split
    · exact .inl ⟨rfl, rfl, rfl⟩
    · next h => exact .inr ⟨Nat.lt_of_not_le h, rfl, rfl, rfl⟩

@[simp] theorem ending_read (s : Source) (room : Nat) : (s.read room).source.ending = s.ending := by
  obtain ⟨-, -, -, h⟩ | ⟨p, ps, -, ⟨-, -, h⟩ | ⟨-, -, -, h⟩⟩ := s.read_cases room <;> rw [h]

@[simp] theorem isPrompt_read (s : Source) (room : Nat) :
    (s.read room).source.isPrompt = s.isPrompt := by
  obtain ⟨-, -, -, h⟩ | ⟨p, ps, -, ⟨-, -, h⟩ | ⟨-, -, -, h⟩⟩ := s.read_cases room <;> rw [h]

theorem IsSteady.read (h : s.IsSteady) (room : Nat) : (s.read room).source.IsSteady := by
  obtain ⟨-, -, -, hsource⟩ | ⟨p, ps, hportions, hanswer⟩ := s.read_cases room
  · rwa [hsource]
  · have hps : IsSteady { s with portions := ps } := h.of_suffix (hportions ▸ List.suffix_cons p ps)
    obtain ⟨-, -, hsource⟩ | ⟨hlt, -, -, hsource⟩ := hanswer
    · rwa [hsource]
    · rw [hsource]
      exact hps.cons fun hnil => absurd (List.drop_eq_nil_iff.mp hnil) (Nat.not_le.mpr hlt)

/-- The end is reported when nothing is left, and only a prompt source gives bytes with it. -/
theorem eq_of_mem_ending_read {e : Ending} (h : e ∈ (s.read room).ending) :
    e = s.ending ∧ (s.read room).source.portions = [] ∧
      ((s.read room).bytes = [] ∨ s.isPrompt = true) := by
  obtain ⟨hportions, hbytes, hending, hsource⟩ |
    ⟨p, ps, hportions, ⟨hbytes, hending, hsource⟩ | ⟨-, -, hending, -⟩⟩ := s.read_cases room
  · rw [hending, Option.mem_some] at h
    exact ⟨h.symm, by rw [hsource, hportions], .inl hbytes⟩
  · rw [hending] at h
    split at h
    · next hlast =>
      rw [Bool.and_eq_true, List.isEmpty_iff] at hlast
      rw [Option.mem_some] at h
      exact ⟨h.symm, hsource ▸ hlast.1, .inr hlast.2⟩
    · cases h
  · rw [hending] at h
    cases h

/-- An answer that brings nothing takes an empty portion off. -/
theorem portions_of_vain (hroom : 0 < room) (hbytes : (s.read room).bytes = [])
    (hending : (s.read room).ending = none) :
    s.portions = [] :: (s.read room).source.portions := by
  obtain ⟨-, -, h, -⟩ | ⟨p, ps, hportions, ⟨h, -, hsource⟩ | ⟨hlt, h, -, -⟩⟩ := s.read_cases room
  · rw [h] at hending
    cases hending
  · rw [hportions, hsource, ← h, hbytes]
  · rw [h, List.take_eq_nil_iff] at hbytes
    rcases hbytes with hzero | hnil
    · omega
    · rw [hnil, List.length_nil] at hlt
      omega

end Source

/-! ### Sound readers -/

theorem unterminated_of_suffix {u v : Bytes} (huv : u <:+ v) (hv : unterminated v = []) :
    unterminated u = [] := by
  obtain ⟨t, rfl⟩ := huv
  rw [terminated_iff] at hv ⊢
  by_cases hu : u = []
  · exact .inl hu
  · rw [List.getLast?_append_of_ne_nil t hu] at hv
    exact .inr (hv.resolve_left (by simp [hu]))

namespace Reader

/-- The states of a reader in which its answers are determined by the bytes to come. -/
structure IsSound (r : Reader) : Prop where
  isSteady : r.source.IsSteady
  /-- An ending is pending only if the source has nothing more to give. -/
  eq_of_pending : ∀ e ∈ r.pending, e = r.source.ending ∧ r.source.portions = []
  /-- The ending was reported without bytes, unless it follows a line feed. -/
  lt_of_pending : ∀ e ∈ r.pending, r.buffer.length < r.size ∨ unterminated r.rest = []
  isLate : r.source.isPrompt = false ∨ unterminated r.rest = []

theorem isSound_ofSource (size : Nat) (hsteady : s.IsSteady)
    (hlate : s.isPrompt = false ∨ unterminated s.left = []) : (ofSource size s).IsSound :=
  ⟨hsteady, by simp [ofSource], by simp [ofSource], hlate⟩

theorem IsSound.take_read (hr : r.IsSound) (hroom : r.buffer.length < r.size) :
    (r.take (r.source.read r.room)).IsSound := by
  have hlate : r.source.isPrompt = false ∨
      unterminated (r.take (r.source.read r.room)).rest = [] := by
    rw [rest_take_read]
    exact hr.isLate
  refine ⟨hr.isSteady.read _, fun e he => ?_, fun e he => ?_, ?_⟩
  · obtain ⟨rfl, hportions, -⟩ := Source.eq_of_mem_ending_read he
    exact ⟨(Source.ending_read ..).symm, hportions⟩
  · obtain ⟨-, -, hnil | hprompt⟩ := Source.eq_of_mem_ending_read he
    · left
      change (r.buffer ++ (r.source.read r.room).bytes).length < r.size
      rwa [hnil, List.append_nil]
    · exact .inr (hlate.resolve_left (by simp [hprompt]))
  · exact (Source.isPrompt_read r.source r.room).symm ▸ hlate

/-- A source that keeps giving nothing would be given up, which `htries` excludes. -/
theorem IsSound.fill {tries : Nat} (hr : r.IsSound) (hroom : r.buffer.length < r.size)
    (htries : ¬ List.replicate tries [] <+: r.source.portions) : (r.fill tries).IsSound := by
  fun_induction Reader.fill tries r with
  | case1 => exact absurd (List.nil_prefix) htries
  | case2 tries r d hvain ih =>
    rw [Bool.and_eq_true, List.isEmpty_iff, Option.isNone_iff_eq_none] at hvain
    obtain ⟨hbytes, hending⟩ := hvain
    have hportions := Source.portions_of_vain (Nat.sub_pos_of_lt hroom) hbytes hending
    refine ih (hr.take_read hroom) ?_ fun hrun => htries ?_
    · change (r.buffer ++ d.bytes).length < r.size
      rwa [hbytes, List.append_nil]
    · rw [hportions, List.replicate_succ, List.cons_prefix_cons]
      exact ⟨rfl, hrun⟩
  | case3 tries r d _ => exact hr.take_read hroom

theorem IsSound.await (hr : r.IsSound) : r.await.IsSound := by
  fun_induction Reader.await r with
  | case1 => exact hr
  | case2 r hready ih =>
    obtain ⟨-, hroom⟩ : (lineFeed ∉ r.buffer ∧ r.pending = none) ∧ r.buffer.length < r.size := by
      simpa [isReady] using hready
    exact ih (hr.fill hroom fun hrun => hr.isSteady hrun.isInfix)

@[simp] theorem ending_fill (tries : Nat) (r : Reader) :
    (r.fill tries).source.ending = r.source.ending := by
  fun_induction Reader.fill tries r with
  | case1 => rfl
  | case2 tries r d _ ih => exact ih.trans (Source.ending_read ..)
  | case3 tries r d _ => exact Source.ending_read ..

@[simp] theorem ending_await (r : Reader) : r.await.source.ending = r.source.ending := by
  fun_induction Reader.await r with
  | case1 => rfl
  | case2 r _ ih => rw [ih, ending_fill]

theorem rest_consume (r : Reader) (n : Nat) :
    (r.consume n).rest = r.buffer.drop n ++ r.source.left := rfl

theorem rest_consume_suffix (r : Reader) (n : Nat) : (r.consume n).rest <:+ r.rest := by
  obtain ⟨t, ht⟩ := List.drop_suffix n r.buffer
  exact ⟨t, by rw [rest_consume, ← List.append_assoc, ht, rest]⟩

theorem IsSound.consume (hr : r.IsSound) (n : Nat) : (r.consume n).IsSound := by
  have hrest : unterminated r.rest = [] → unterminated (r.consume n).rest = [] :=
    unterminated_of_suffix (r.rest_consume_suffix n)
  refine ⟨hr.isSteady, hr.eq_of_pending, fun e he => ?_, hr.isLate.imp_right hrest⟩
  refine (hr.lt_of_pending e he).imp (fun hlt => ?_) hrest
  change (r.buffer.drop n).length < r.size
  rw [List.length_drop]
  omega

theorem IsSound.clear (hr : r.IsSound) : r.clear.IsSound :=
  ⟨hr.isSteady, by simp [Reader.clear], by simp [Reader.clear],
    (hr.consume r.buffer.length).isLate⟩

/-- A line feed in the buffer completes a line. -/
theorem handOn_of_feed {u v : Bytes} (hbuffer : r.buffer = u ++ lineFeed :: v) (hu : lineFeed ∉ u) :
    r.handOn = (.ok ⟨dropReturn u, false⟩, r.consume (u.length + 1)) ∧
      (r.consume (u.length + 1)).rest = v ++ r.source.left := by
  have hline : r.buffer.takeWhile (fun b => decide (b ≠ lineFeed)) = u := by
    rw [hbuffer, List.takeWhile_append_of_pos, List.takeWhile_cons_of_neg (by simp),
      List.append_nil]
    exact fun b hb => decide_eq_true fun heq => hu (heq ▸ hb)
  have hmem : lineFeed ∈ r.buffer := by simp [hbuffer]
  constructor
  · rw [handOn, if_pos hmem, hline]
  · rw [rest_consume, hbuffer, List.append_cons, List.drop_left' (by simp)]

/-- One step of a reader: a fragment is taken off the front of what is to come, or nothing is to
come. -/
theorem IsSound.handOn (hr : r.IsSound) (hready : r.isReady = true) :
    (r.rest = [] ∧ ∃ r', r.handOn = (.error r.source.ending, r')) ∨
      ∃ f r', r.handOn = (.ok f, r') ∧ r'.IsSound ∧ r'.size = r.size ∧
        r'.source.ending = r.source.ending ∧
        allFragments r.size r.rest = f :: allFragments r.size r'.rest := by
  by_cases hfeed : lineFeed ∈ r.buffer
  · obtain ⟨u, v, hbuffer, hu⟩ := List.eq_append_cons_of_mem hfeed
    obtain ⟨hhand, hrest⟩ := handOn_of_feed hbuffer hu
    have hlt : u.length < r.size := by
      have hfits := r.fits
      rw [hbuffer, List.length_append, List.length_cons] at hfits
      omega
    refine .inr ⟨_, _, hhand, hr.consume _, rfl, rfl, ?_⟩
    rw [hrest, rest, hbuffer, List.append_assoc, List.cons_append, allFragments_short hu hlt]
  · rw [Reader.handOn, if_neg hfeed]
    cases hpending : r.pending with
    | some e =>
      obtain ⟨rfl, hportions⟩ := hr.eq_of_pending e hpending
      have hrest : r.rest = r.buffer := by simp [rest, Source.left, hportions]
      by_cases hempty : r.buffer = []
      · exact .inl ⟨hrest.trans hempty, r.clear, by simp [hempty]⟩
      · -- Bytes without a line feed before the end: they do not fill the buffer.
        have hlt : r.buffer.length < r.size := by
          refine (hr.lt_of_pending _ hpending).resolve_right fun hnil => ?_
          rw [hrest, terminated_iff] at hnil
          exact hfeed (List.mem_of_getLast? (hnil.resolve_left hempty))
        refine .inr ⟨⟨r.buffer, false⟩, r.clear, by simp [hempty], hr.clear, rfl, rfl, ?_⟩
        have hclear : r.clear.rest = [] := by simp [rest, Reader.clear, Source.left, hportions]
        rw [hrest, hclear, allFragments_remainder hfeed hempty hlt, allFragments_nil]
    | none =>
      have hfull : r.buffer.length = r.size := by
        have hfits := r.fits
        have hle : r.size ≤ r.buffer.length := by simpa [isReady, hfeed, hpending] using hready
        omega
      have hsize : 16 ≤ r.size := r.leastSize_le
      refine .inr ⟨_, _, rfl, hr.consume _, rfl, rfl, ?_⟩
      exact allFragments_full (by omega) hfull hfeed r.source.left

/-- A sound reader has no fragment only if nothing is to come. -/
theorem IsSound.of_readLine_eq_error {e : Ending} {r' : Reader} (hr : r.IsSound)
    (h : r.readLine = (.error e, r')) : r.rest = [] ∧ e = r.source.ending := by
  have hstep := hr.await.handOn r.isReady_await
  rw [rest_await, ending_await, size_await] at hstep
  change r.await.handOn = _ at h
  obtain ⟨hrest, _, herror⟩ | ⟨_, _, hok, -⟩ := hstep
  · rw [h] at herror
    cases herror
    exact ⟨hrest, rfl⟩
  · rw [h] at hok
    cases hok

/-- The fragment of a sound reader is the first one of what is to come. -/
theorem IsSound.of_readLine_eq_ok {f : Fragment} {r' : Reader} (hr : r.IsSound)
    (h : r.readLine = (.ok f, r')) :
    r'.IsSound ∧ r'.size = r.size ∧ r'.source.ending = r.source.ending ∧
      allFragments r.size r.rest = f :: allFragments r.size r'.rest := by
  have hstep := hr.await.handOn r.isReady_await
  rw [rest_await, ending_await, size_await] at hstep
  change r.await.handOn = _ at h
  obtain ⟨-, _, herror⟩ | ⟨_, _, hok, hnext⟩ := hstep
  · rw [h] at herror
    cases herror
  · rw [h] at hok
    cases hok
    exact hnext

end Reader

/-! ### The whole run -/

variable {limit : Int} {accepts : List Bytes → Bool}

namespace Assembly

/-- The events after the given fragments, if they are taken up as long as more is wanted. -/
def outcome (limit : Int) (accepts : List Bytes → Bool) (a : Assembly) (fs : List Fragment) :
    List Event :=
  a.events.reverse ++ upToRefusal accepts (lines a.events.reverse) (a.eventsOf limit fs)

variable {a : Assembly} {f : Fragment}

theorem outcome_nil (a : Assembly) : a.outcome limit accepts [] = a.events.reverse :=
  List.append_nil _

theorem lines_reverse_cons_line (l : Bytes) (es : List Event) :
    lines (Event.line l :: es).reverse = lines es.reverse ++ [l] := by
  rw [List.reverse_cons, lines, List.filterMap_append]
  rfl

/-- A fragment after which more is wanted is taken up. -/
theorem outcome_cons_of_goesOn (h : (f.partial_ || (a.add limit f).goesOn accepts) = true)
    (fs : List Fragment) :
    a.outcome limit accepts (f :: fs) = (a.add limit f).outcome limit accepts fs := by
  obtain ⟨data, goesOn⟩ := f
  cases goesOn with
  | true => rfl
  | false =>
    rw [Bool.false_or, add_completing, goesOn] at h
    rw [outcome, outcome, eventsOf_completing, add_completing]
    cases hevent : a.completed limit data with
    | skip => simp [upToRefusal, eventsOf, lines]
    | line l =>
      simp only [hevent, lines_reverse_cons_line] at h
      rw [lines_reverse_cons_line, upToRefusal, if_pos h, List.reverse_cons, List.append_assoc]
      rfl

/-- After the line that was one too many nothing is taken up. -/
theorem outcome_cons_of_not (h : ¬ (f.partial_ || (a.add limit f).goesOn accepts) = true)
    (fs : List Fragment) :
    a.outcome limit accepts (f :: fs) = (a.add limit f).events.reverse := by
  obtain ⟨data, goesOn⟩ := f
  cases goesOn with
  | true => exact absurd rfl h
  | false =>
    rw [Bool.false_or, add_completing, goesOn] at h
    rw [outcome, eventsOf_completing, add_completing]
    cases hevent : a.completed limit data with
    | skip => simp [hevent] at h
    | line l =>
      simp only [hevent, lines_reverse_cons_line] at h
      rw [upToRefusal, if_neg h, List.reverse_cons]

end Assembly

/-- **What a reader puts together.** The events are those of the bytes to come, up to the line after
which no more is wanted. -/
theorem Reader.assemble_eq (hr : r.IsSound) (a : Assembly) :
    (r.assemble limit accepts a).events =
        a.outcome limit accepts (allFragments r.size r.rest) ∧
      (r.source.ending = .complete → (r.assemble limit accepts a).failure = none) := by
  -- The induction follows the fragments: after each of them the reader is sound again.
  fun_induction Reader.assemble limit accepts r a with
  | case1 r a e r' hread =>
    obtain ⟨hrest, rfl⟩ := hr.of_readLine_eq_error hread
    refine ⟨?_, fun hcomplete => by rw [hcomplete]; rfl⟩
    rw [hrest, allFragments_nil, Assembly.outcome_nil]
  | case2 r a f r' hread a' hgo ih =>
    obtain ⟨hsound, hsize, hending, hfragments⟩ := hr.of_readLine_eq_ok hread
    rw [hfragments, Assembly.outcome_cons_of_goesOn hgo, ← hsize, ← hending]
    exact ih hsound
  | case3 r a f r' hread a' hstop =>
    obtain ⟨-, -, -, hfragments⟩ := hr.of_readLine_eq_ok hread
    rw [hfragments, Assembly.outcome_cons_of_not hstop]
    exact ⟨rfl, fun _ => rfl⟩

/-- Reading from a steady source gives the events of its bytes. The end of the source must not come
together with bytes that lack a line feed. -/
theorem readLines_eq (size : Nat) (limit : Int) (accepts : List Bytes → Bool)
    (hsteady : s.IsSteady) (hlate : s.isPrompt = false ∨ unterminated s.left = []) :
    (readLines size limit accepts s).events =
        upToRefusal accepts [] (events (max size leastSize) limit s.left) ∧
      (s.ending = .complete → (readLines size limit accepts s).failure = none) :=
  Reader.assemble_eq (Reader.isSound_ofSource size hsteady hlate) {}

/-- Whatever the size of the buffer and the portions in which the bytes come: of a stream whose
lines all end in line feeds, each line whose length is within the limit is handed on, in its order
and without a carriage return at its end, and each longer line is skipped, up to the line after
which no more is wanted. One that takes `n + 1` lines gets the events of the stream up to the last
of these. -/
theorem lines_are_put_together_exactly (size : Nat) (limit : Int) {source : Source}
    (hsteady : source.IsSteady)
    (hinput : source.left = [] ∨ source.left.getLast? = some lineFeed) :
    (∀ accepts, (readLines size limit accepts source).events =
        upToRefusal accepts [] ((terminatedLines source.left).map (verdict limit)) ∧
      (source.ending = .complete → (readLines size limit accepts source).failure = none)) ∧
    events (max size leastSize) limit source.left =
      (terminatedLines source.left).map (verdict limit) ∧
    ∀ n, (readLines size limit (fun handed => decide (handed.length < n + 1)) source).events =
      upToLine (n + 1) (events (max size leastSize) limit source.left) := by
  have hterminated : unterminated source.left = [] := terminated_iff.mpr hinput
  have hread := fun accepts => readLines_eq size limit accepts hsteady (.inr hterminated)
  have hsize : 2 ≤ max size leastSize := Nat.le_trans (by decide) (Nat.le_max_right ..)
  have hevents := events_of_terminated hsize limit hterminated
  refine ⟨fun accepts => ⟨?_, (hread accepts).2⟩, hevents, fun n => ?_⟩
  · rw [(hread accepts).1, hevents]
  · rw [(hread _).1]
    simpa using upToRefusal_length_lt n [] (events (max size leastSize) limit source.left)

/-- A carriage return in the last place of the buffer, its line feed in another portion, a line that
is too long, and a receiver that takes two lines. -/
theorem lines_across_full_buffers :
    ∃ source : Source, source.portions =
        [List.replicate 15 0x61 ++ [0x0D], [], 0x0A :: List.replicate 30 0x62,
          [0x0A, 0x63, 0x0A, 0x64, 0x0A]] ∧
      source.isPrompt = true ∧ source.IsSteady ∧ source.left.getLast? = some lineFeed ∧
      (readLines 16 20 (fun handed => decide (handed.length < 2)) source).events =
        [.line (List.replicate 15 0x61), .skip, .line [0x63]] := by
  refine ⟨⟨_, .complete, true⟩, rfl, rfl, by decide +kernel, by decide +kernel, ?_⟩
  refine ((lines_are_put_together_exactly 16 20 ?_ ?_).1 _).1.trans ?_ <;> decide +kernel

end Stream

end CallerTree
