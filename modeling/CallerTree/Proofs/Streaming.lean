import CallerTree.Posix.Launch
import CallerTree.Proofs.Fragments
import CallerTree.Proofs.SearchLimit

/-!
# Searches on a machine

A search is stated for tools that answer with a finished output, whose lines are then shown to it
(`Output.streamed`). On a machine the lines are shown while the tool still runs, by a reader with a
buffer (`Posix.Machine.stream`). Here both are compared: for a tool that succeeds they show the same
lines, so what is proved of searches with any tools is true of searches on a machine.

## Where the two readers differ

The reader of a finished output stops at a line that fills its buffer; the other one puts such a
line together, and skips it only beyond a limit. And a carriage return is dropped from a last line
without a line feed by the one and not by the other. So the lines are assumed to fit into the buffer
and to be ended.

## Main results

* `Output.IsReadable.streamed_eq_lines` — the two readers show the same lines
* `Posix.Machine.stream_of_run` — a command that is streamed and the same command run to its end
* `Posix.Machine.search_gathers_streamed_lines` — a search on a machine
-/

namespace CallerTree

open CallerTree.Stream

/-! ### Readers -/

/-- Every line ends in a line feed and fits into the buffer. -/
structure Output.IsReadable (o : Output) : Prop where
  ended : unterminated o.stdout = []
  short : ∀ line ∈ terminatedLines o.stdout, line.length < bufferSize

theorem Output.IsReadable.streamed_eq_map {o : Output} (h : o.IsReadable) :
    o.streamed = (terminatedLines o.stdout).map fun l => Text.ofUtf8 (dropReturn l) := by
  have hlast : (pieces (· = lineFeed) o.stdout).getLast? = some [] := by
    rw [getLast?_pieces, ← h.ended]
    simp [unterminated]
  rw [streamed, if_pos hlast, ← terminatedLines, List.takeWhile_eq_self_iff.mpr]
  exact fun l hl => decide_eq_true (h.short l hl)

theorem dropReturn_length_le (line : Bytes) : (dropReturn line).length ≤ line.length := by
  rw [dropReturn]
  split
  · rw [List.length_dropLast]
    omega
  · exact le_rfl

theorem Output.IsReadable.events_eq_map {o : Output} (h : o.IsReadable) :
    events bufferSize lineLimit o.stdout =
      (terminatedLines o.stdout).map fun l => .line (dropReturn l) := by
  rw [events_of_terminated (by decide) _ h.ended]
  refine List.map_congr_left fun l hl => if_neg ?_
  have hlength := (dropReturn_length_le l).trans_lt (h.short l hl)
  simp only [bufferSize, lineLimit] at hlength ⊢
  omega

/-- The two readers show the same lines, and none is skipped. -/
theorem Output.IsReadable.streamed_eq_lines {o : Output} (h : o.IsReadable) :
    (lines (events bufferSize lineLimit o.stdout)).map Text.ofUtf8 = o.streamed ∧
      skipped (events bufferSize lineLimit o.stdout) = 0 := by
  rw [h.events_eq_map, h.streamed_eq_map]
  constructor
  · simp [lines, List.filterMap_map, Function.comp_def]
  · simp [skipped]

namespace Posix

namespace Course

/-- Nothing is written after the output was closed. -/
theorem time_le_closing (exit : Int) (isEnded : Bool) (s : State) :
    ∀ k ∈ (ofState exit isEnded s).chunks, k.time ≤ (ofState exit isEnded s).closing := by
  intro k hk
  have hwritten : k ∈ s.chunks := by simpa [ofState] using hk
  refine (List.max?_eq_some_iff.mp List.max?_cons').2 k.time (List.mem_cons_of_mem _ ?_)
  exact List.mem_append_right _ (List.mem_map_of_mem hwritten)

theorem written_of_time_le {c : Course} {moment : Nat} (h : ∀ k ∈ c.chunks, k.time ≤ moment)
    (pipe : Nat) : c.written pipe (some moment) = c.written pipe none := by
  rw [written, written]
  refine congrArg _ (List.filter_congr fun k hk => ?_)
  simp [h k hk]

end Course

namespace Machine

variable {m m' : Machine} {context : Context} {c : Command} {out : Output}

/-- A command that has succeeded without a deadline succeeds in the same way when its output is read
along. That it exited with zero excludes the one case in which output is given up: a background job
that holds on to it for longer than the machine waits. -/
theorem stream_of_run (h : m.run context none c = (.ok out, m')) (hexit : out.exit = 0)
    (hout : out.IsReadable) :
    ∃ s : Streamed, m.stream context none 0 c = (.ok s, m') ∧
      s.lines.map Text.ofUtf8 = out.streamed ∧ s.skipped = 0 ∧ s.isStopped = false ∧
      s.exit = 0 ∧ s.stderr = out.stderr := by
  unfold run at h
  unfold stream
  cases hlook : context.look.1 with
  | some cause => simp [hlook] at h
  | none =>
    cases hstart : m.start c with
    | error f => simp [hlook, hstart] at h
    | ok started =>
      obtain ⟨program, args, files⟩ := started
      have hle : ∀ k ∈ (course program args files none none).1.chunks,
          k.time ≤ (course program args files none none).1.closing :=
        Course.time_le_closing _ _ _
      simp only [hlook, hstart, if_true] at h ⊢
      generalize course program args files none none = result at h hle ⊢
      obtain ⟨went, after⟩ := result
      cases hfinish : went.finish with
      | none => simp [hfinish] at h
      | some finish =>
        simp only [hfinish, Option.any_none, Bool.false_eq_true, if_false] at h
        split at h
        · cases h
        · rename_i hgivenUp
          simp only [Prod.mk.injEq, Except.ok.injEq] at h
          obtain ⟨rfl, rfl⟩ := h
          have hclean : min went.closing (finish + m.grace) = went.closing := by
            by_contra hgiven
            exact hgivenUp ⟨hexit, fun hclean => hgiven hclean.2⟩
          have hwritten := Course.written_of_time_le (hclean ▸ hle)
          obtain ⟨hlines, hskipped⟩ := hout.streamed_eq_lines
          simp only [hwritten] at hlines hskipped ⊢
          let es := events bufferSize lineLimit (went.written 1 none)
          refine ⟨⟨lines es, skipped es, false, went.exit, went.written 2 none⟩, ?_, hlines,
            hskipped, rfl, hexit, rfl⟩
          simp [es]

/-- The tools of a machine answer with what it makes of the command. -/
theorem exists_command_toolbox {w : World} (hlive : w.context = .live)
    (h : { m with files := w.files }.run .live none c = (.ok out, m')) :
    ∃ v, Run.command m.toolbox c w = .ok out v ∧ v.files = m'.files := by
  have hreply : m.toolbox.answer { w with issued := w.issued ++ [c] } c = {
      outcome := .ok out
      files := some m'.files
      log := [⟨.debug, "process finished",
        [("cmd", c.name), ("dir", c.dir), ("exit", .int out.exit)]⟩] } := by
    simp only [toolbox, h]
  rw [Run.command_eq hlive hreply]
  exact ⟨_, rfl, rfl⟩

/-- **Searches on a machine.** A sound search with a tool of the machine that succeeds returns what
it gathers from the lines that the machine shows it while the tool runs. -/
theorem search_gathers_streamed_lines {w : World} {tool root pattern : Text} (limit : Int)
    (hlive : w.context = .live) (hsound : Search.IsSound w.files root pattern)
    (hrun : { m with files := w.files }.run .live none (Search.command tool root pattern) =
      (.ok out, m')) (hexit : out.exit = 0) (hout : out.IsReadable) :
    ∃ s v, { m with files := w.files }.stream .live none 0 (Search.command tool root pattern) =
        (.ok s, m') ∧
      Search.run m.toolbox tool root pattern limit w =
        .ok (Search.gather limit (s.lines.map Text.ofUtf8)).state v := by
  obtain ⟨s, hstream, hlines, -⟩ := stream_of_run hrun hexit hout
  obtain ⟨u, hcommand, -⟩ := exists_command_toolbox hlive hrun
  have hcontent : ¬ Search.IsComplaint out := fun h => absurd h.2 (by omega)
  obtain ⟨v, hv⟩ := Search.conclude_of_not_isComplaint hcontent limit u
  refine ⟨s, v, hstream, ?_⟩
  rw [Search.run_of_ok hsound limit hcommand, hv, hlines]

end Machine

end Posix

end CallerTree
