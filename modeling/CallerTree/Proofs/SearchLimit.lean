import CallerTree.Proofs.Run
import CallerTree.Search

/-!
# Searches with a limit

The tool of a search prints lines, and they are shown to the search one by one. With a limit the
search cannot know that there are more lines than it returns before it is shown one of them, so it
refuses the first line behind the limit and the tool is stopped. How many lines there are, whether
the tool was stopped and how it ended are looked at only afterwards.

## The argument

As long as there is room, every line is taken up (`Search.feed_of_fits`). All three ways a search
can go are read off this: the lines fit, there is no limit, or the line that follows the last one
that fits is refused.

## Main definitions

* `Search.IsCut` — the result that lines have under a limit

## Main results

* `Search.gather_of_fits`, `Search.gather_of_not_fits` — what becomes of the lines
* `Search.run_of_ok` — a search by what its tool prints
* `Search.limit_cuts_results`
-/

namespace CallerTree

namespace Search

/-! ### Lines one by one -/

variable {limit : Int} {lines : List Text}

/-- There is room for `n` lines. -/
def Fits (limit : Int) (n : Nat) : Prop := limit ≤ 0 ∨ n ≤ limit

theorem feed_cons_of_room {h : Handover SearchResult}
    (hroom : ¬ (0 < limit ∧ (h.state.lines.length : Int) = limit)) (line : Text) :
    Handover.feed (receive limit) h (line :: lines) =
      Handover.feed (receive limit)
        ⟨⟨h.state.lines ++ [line.trim], h.state.limited⟩, h.shown + 1, false⟩ lines := by
  simp [Handover.feed, receive, hroom]

theorem feed_cons_of_full {h : Handover SearchResult}
    (hfull : 0 < limit ∧ (h.state.lines.length : Int) = limit) (line : Text) :
    Handover.feed (receive limit) h (line :: lines) =
      ⟨⟨h.state.lines, true⟩, h.shown + 1, true⟩ := by
  simp [Handover.feed, receive, hfull]

/-- Lines for which there is room are taken up. -/
theorem feed_of_fits {h : Handover SearchResult} (hgoesOn : h.isStopped = false)
    (hfits : Fits limit (h.state.lines.length + lines.length)) (rest : List Text) :
    Handover.feed (receive limit) h (lines ++ rest) =
      Handover.feed (receive limit)
        ⟨⟨h.state.lines ++ lines.map Text.trim, h.state.limited⟩, h.shown + lines.length, false⟩
        rest := by
  induction lines generalizing h with
  | nil =>
    obtain ⟨⟨found, limited⟩, shown, isStopped⟩ := h
    obtain rfl : isStopped = false := hgoesOn
    simp
  | cons line lines ih =>
    have hroom : ¬ (0 < limit ∧ (h.state.lines.length : Int) = limit) := by
      simp only [Fits, List.length_cons] at hfits
      omega
    rw [List.cons_append, feed_cons_of_room hroom, ih rfl]
    · simp [Nat.add_assoc, Nat.add_comm 1]
    · simp only [Fits, List.length_append, List.length_cons, List.length_nil] at hfits ⊢
      omega

/-- Lines that all fit are all taken up. -/
theorem gather_of_fits (h : Fits limit lines.length) :
    gather limit lines = ⟨⟨lines.map Text.trim, false⟩, lines.length, false⟩ := by
  have hfeed := feed_of_fits (h := { state := ⟨[], false⟩ }) rfl (by simpa using h) []
  simpa [gather, Handover.feed] using hfeed

/-- The first line that does not fit is refused. -/
theorem gather_of_not_fits (h : ¬ Fits limit lines.length) :
    gather limit lines =
      ⟨⟨(lines.take limit.toNat).map Text.trim, true⟩, limit.toNat + 1, true⟩ := by
  obtain ⟨hpos, hmore⟩ : 0 < limit ∧ limit.toNat < lines.length := by
    simp only [Fits] at h
    omega
  have hlength : (lines.take limit.toNat).length = limit.toNat := by
    rw [List.length_take]
    omega
  have hfits : Fits limit (([] : List Text).length + (lines.take limit.toNat).length) :=
    .inr (by simp only [List.length_nil, hlength]; omega)
  have hfeed := feed_of_fits (h := { state := ⟨[], false⟩ }) rfl hfits (lines.drop limit.toNat)
  have hfull : ((([] : List Text) ++ (lines.take limit.toNat).map Text.trim).length : Int) =
      limit := by
    rw [List.nil_append, List.length_map, hlength]
    omega
  rw [List.take_append_drop, List.drop_eq_getElem_cons hmore,
    feed_cons_of_full ⟨hpos, hfull⟩] at hfeed
  simpa [gather, hlength] using hfeed

/-! ### Results -/

/-- What becomes of lines under a limit: the first ones are returned, trimmed, and it is told
whether there are more. -/
structure IsCut (limit : Int) (lines : List Text) (r : SearchResult) : Prop where
  lines_eq : r.lines = (if 0 < limit then lines.take limit.toNat else lines).map Text.trim
  limited_iff : r.limited = true ↔ 0 < limit ∧ limit < lines.length

/-- A higher limit only adds lines, and adds none if there were no more. -/
theorem IsCut.lines_le {limit' : Int} {r r' : SearchResult} (h : IsCut limit lines r)
    (h' : IsCut limit' lines r') (hpos : 0 < limit) (hle : limit ≤ limit') :
    r.lines <+: r'.lines ∧ (r.limited = false → r.lines = r'.lines) := by
  rw [h.lines_eq, h'.lines_eq, if_pos hpos, if_pos (by omega)]
  refine ⟨(List.take_prefix_take_left (by omega)).map _, fun hlimited => ?_⟩
  have hall : ¬ (0 < limit ∧ limit < lines.length) := by
    rw [← h.limited_iff, hlimited]
    exact Bool.false_ne_true
  rw [List.take_of_length_le (by omega), List.take_of_length_le (by omega)]

theorem isCut_gather (limit : Int) (lines : List Text) :
    IsCut limit lines (gather limit lines).state := by
  by_cases hfits : Fits limit lines.length
  · rw [gather_of_fits hfits]
    simp only [Fits] at hfits
    refine ⟨?_, iff_of_false nofun (by omega)⟩
    split
    · rw [List.take_of_length_le (by omega)]
    · rfl
  · rw [gather_of_not_fits hfits]
    simp only [Fits] at hfits
    exact ⟨by rw [if_pos (by omega)], iff_of_true rfl (by omega)⟩

/-- One line more than the limit is shown to the search, if there is one. -/
theorem shown_gather (limit : Int) (lines : List Text) :
    (gather limit lines).shown =
      if 0 < limit then min (limit.toNat + 1) lines.length else lines.length := by
  by_cases hfits : Fits limit lines.length
  · rw [gather_of_fits hfits]
    simp only [Fits] at hfits ⊢
    split <;> omega
  · rw [gather_of_not_fits hfits]
    simp only [Fits] at hfits ⊢
    split <;> omega

/-- Nothing was taken up only if there was nothing to take up. -/
theorem gathered_nothing_iff (limit : Int) (lines : List Text) :
    (gather limit lines).state.lines = [] ↔ lines = [] := by
  rw [(isCut_gather limit lines).lines_eq, List.map_eq_nil_iff]
  split
  · rw [List.take_eq_nil_iff, or_iff_right (by omega)]
  · rfl

/-! ### Searches -/

variable {tools : Toolbox} {tool root pattern : Text} {w : World}

/-- A search that may be made: in a directory, and for something. -/
structure IsSound (fs : FileSystem) (root pattern : Text) : Prop where
  absolute : Path.isAbsolute root = true
  folder : ∃ e, fs.stat root = .ok e ∧ e.isFolder = true
  pattern : ∃ g ∈ pattern, Text.isBlank g = false

theorem IsSound.validateDirectory_eq {fs : FileSystem} (h : IsSound fs root pattern) :
    validateDirectory fs root = .ok () := by
  obtain ⟨e, hstat, hfolder⟩ := h.folder
  simp [validateDirectory, h.absolute, hstat, hfolder]

theorem IsSound.isAllBlank_eq {fs : FileSystem} (h : IsSound fs root pattern) :
    pattern.isAllBlank = false := by
  simpa [Text.isAllBlank] using h.pattern

section Outcome

variable (h : IsSound w.files root pattern) (limit : Int) {v : World}

include h

/-- A sound search is its command and what follows it. -/
theorem run_eq :
    run tools tool root pattern limit w =
      (do match ← Run.attempt (Run.command tools (command tool root pattern)) with
        | .error f => throw (.under ("search " ++ root) f)
        | .ok out => conclude tool root pattern limit out : Run SearchResult) w := by
  have hfiles : Run.files w = Run.ofExcept (.ok w.files) w := rfl
  unfold run
  rw [Run.bind_of_ok hfiles, h.validateDirectory_eq, h.isAllBlank_eq]
  rfl

/-- The search fails when its command does. -/
theorem run_of_error {f : Failure}
    (hcommand : Run.command tools (command tool root pattern) w = .error f v) :
    run tools tool root pattern limit w = .error (.under ("search " ++ root) f) v := by
  have hattempt := Run.attempt_of_eq (r := .error f) hcommand
  rw [run_eq h, Run.bind_of_ok hattempt]
  rfl

/-- After its command the search is a matter of the output alone. -/
theorem run_of_ok {out : Output}
    (hcommand : Run.command tools (command tool root pattern) w = .ok out v) :
    run tools tool root pattern limit w = conclude tool root pattern limit out v := by
  have hattempt := Run.attempt_of_eq (r := .ok out) hcommand
  rw [run_eq h, Run.bind_of_ok hattempt]

end Outcome

/-- The tool has printed nothing and was not content. -/
def IsComplaint (out : Output) : Prop := out.streamed = [] ∧ 1 < out.exit

theorem conclude_of_isComplaint {out : Output} (h : IsComplaint out) (limit : Int) (v : World) :
    ∃ f, conclude tool root pattern limit out v = .error f v := by
  have hempty : gather limit out.streamed = ⟨⟨[], false⟩, 0, false⟩ := by
    rw [h.1]
    rfl
  have hcomplains : (1 : Int) < out.exit := h.2
  unfold conclude
  simp only [hempty, hcomplains]
  exact ⟨_, rfl⟩

theorem conclude_of_not_isComplaint {out : Output} (h : ¬ IsComplaint out) (limit : Int)
    (v : World) :
    ∃ u, conclude tool root pattern limit out v = .ok (gather limit out.streamed).state u := by
  have hcontent : (!(gather limit out.streamed).isStopped && decide (1 < out.exit) &&
      (gather limit out.streamed).state.lines.isEmpty) = false := by
    rw [Bool.eq_false_iff]
    intro hcomplains
    simp only [Bool.and_eq_true, decide_eq_true_eq, List.isEmpty_iff, gathered_nothing_iff]
      at hcomplains
    exact h ⟨hcomplains.2, hcomplains.1.2⟩
  unfold conclude
  simp only [hcontent]
  exact ⟨_, rfl⟩

/-- A search that succeeds returns what it has gathered from the lines of its tool. -/
theorem eq_gather_of_run (h : IsSound w.files root pattern) {limit : Int} {out : Output}
    {v u : World} {r : SearchResult}
    (hcommand : Run.command tools (command tool root pattern) w = .ok out v)
    (hrun : run tools tool root pattern limit w = .ok r u) :
    r = (gather limit out.streamed).state := by
  rw [run_of_ok h limit hcommand] at hrun
  by_cases hcomplaint : IsComplaint out
  · obtain ⟨f, hf⟩ := conclude_of_isComplaint hcomplaint limit v
    rw [hf] at hrun
    cases hrun
  · obtain ⟨u', hu'⟩ := conclude_of_not_isComplaint hcomplaint limit v
    rw [hu'] at hrun
    cases hrun
    rfl

/-- **Searches under a limit.** A sound search fails exactly if its command does, or if the tool
prints nothing and exits above 1. Whatever lines it is shown, by a reader of finished output or of
a stream, it is shown at most one more than the limit, and all of them if there is no limit; and it
gathers the first ones, up to the limit, trimmed, and tells whether there are more. That is what a
search that succeeds returns. So a higher limit only adds results, and adds none to a result that is
not limited. -/
theorem limit_cuts_results (h : IsSound w.files root pattern) (limit : Int) :
    ((∃ f v, run tools tool root pattern limit w = .error f v) ↔
      (∃ f v, Run.command tools (command tool root pattern) w = .error f v) ∨
        ∃ out v, Run.command tools (command tool root pattern) w = .ok out v ∧
          out.streamed = [] ∧ 1 < out.exit) ∧
    (∀ lines, (0 < limit → (gather limit lines).shown ≤ limit + 1) ∧
      (limit ≤ 0 → (gather limit lines).shown = lines.length) ∧
      (gather limit lines).state.lines =
        (if 0 < limit then lines.take limit.toNat else lines).map Text.trim ∧
      ((gather limit lines).state.limited = true ↔ 0 < limit ∧ limit < lines.length)) ∧
    (∀ out v, Run.command tools (command tool root pattern) w = .ok out v →
      ∀ r u, run tools tool root pattern limit w = .ok r u →
        r = (gather limit out.streamed).state) ∧
    ∀ limit' r r' u u', 0 < limit → limit ≤ limit' →
      run tools tool root pattern limit w = .ok r u →
      run tools tool root pattern limit' w = .ok r' u' →
      r.lines <+: r'.lines ∧ (r.limited = false → r.lines = r'.lines) := by
  have hgather : ∀ lines, (0 < limit → (gather limit lines).shown ≤ limit + 1) ∧
      (limit ≤ 0 → (gather limit lines).shown = lines.length) ∧
      (gather limit lines).state.lines =
        (if 0 < limit then lines.take limit.toNat else lines).map Text.trim ∧
      ((gather limit lines).state.limited = true ↔ 0 < limit ∧ limit < lines.length) := by
    intro lines
    obtain ⟨hlines, hlimited⟩ := isCut_gather limit lines
    refine ⟨fun hpos => ?_, fun hnone => ?_, hlines, hlimited⟩
    · rw [shown_gather, if_pos hpos]
      omega
    · rw [shown_gather, if_neg (by omega)]
  cases hcommand : Run.command tools (command tool root pattern) w with
  | error f v =>
    have hfails := fun limit => run_of_error h limit hcommand
    refine ⟨iff_of_true ⟨_, v, hfails limit⟩ (.inl ⟨f, v, rfl⟩), hgather, nofun, ?_⟩
    intro limit' r r' u u' _ _ hrun
    rw [hfails] at hrun
    cases hrun
  | ok out v =>
    refine ⟨?_, hgather, ?_, ?_⟩
    · rw [run_of_ok h limit hcommand]
      by_cases hcomplaint : IsComplaint out
      · obtain ⟨f, hf⟩ := conclude_of_isComplaint hcomplaint limit v
        exact iff_of_true ⟨f, v, hf⟩ (.inr ⟨out, v, rfl, hcomplaint⟩)
      · obtain ⟨u, hu⟩ := conclude_of_not_isComplaint hcomplaint limit v
        rw [hu]
        refine iff_of_false nofun ?_
        rintro (⟨f, v, ⟨⟩⟩ | ⟨out, v, ⟨⟩, hempty⟩)
        exact hcomplaint hempty
    · rintro out v ⟨⟩ r u hrun
      exact eq_gather_of_run h hcommand hrun
    · intro limit' r r' u u' hpos hle hrun hrun'
      rw [eq_gather_of_run h hcommand hrun, eq_gather_of_run h hcommand hrun']
      exact (isCut_gather limit out.streamed).lines_le (isCut_gather limit' out.streamed) hpos hle

/-- Tools that print three lines and complain. -/
def threeHits : Toolbox where
  answer _ _ :=
    { outcome := .ok { stdout := " a.c:1: f();\nb.c:2:f \n\n".toUTF8.toList, exit := 2 } }
  isInstalled _ := true

/-- With a limit of two the third line is shown and not returned; with a limit of three it is. -/
theorem two_of_threeHits :
    ∃ r u r' u' out v,
      run threeHits "ag" "/" "f" 2 { files := .empty } = .ok r u ∧
      run threeHits "ag" "/" "f" 3 { files := .empty } = .ok r' u' ∧
      Run.command threeHits (command "ag" "/" "f") { files := .empty } = .ok out v ∧
      (gather 2 out.streamed).shown ≤ (3 : Int) ∧ r.lines = ["a.c:1: f();", "b.c:2:f"] ∧
      r.limited = true ∧ r'.lines = ["a.c:1: f();", "b.c:2:f", ""] ∧ r.lines <+: r'.lines := by
  have hsound : IsSound .empty "/" "f" :=
    ⟨by decide, ⟨.folder [], rfl, rfl⟩, ⟨.char 'f', List.mem_singleton_self _, by decide⟩⟩
  have hresult : Run.result? (run threeHits "ag" "/" "f" 2) { files := .empty } =
      some ⟨["a.c:1: f();", "b.c:2:f"], true⟩ := by decide +kernel
  have hresult' : Run.result? (run threeHits "ag" "/" "f" 3) { files := .empty } =
      some ⟨["a.c:1: f();", "b.c:2:f", ""], false⟩ := by decide +kernel
  obtain ⟨u, hu⟩ := Run.result?_eq_some_iff.mp hresult
  obtain ⟨u', hu'⟩ := Run.result?_eq_some_iff.mp hresult'
  obtain ⟨-, hgather, -, hmore⟩ := limit_cuts_results (w := { files := .empty }) hsound 2
  exact ⟨_, u, _, u', _, _, hu, hu', rfl, (hgather _).1 (by decide), rfl, rfl, rfl,
    (hmore 3 _ _ u u' (by decide) (by decide) hu hu').1⟩

end Search

end CallerTree
