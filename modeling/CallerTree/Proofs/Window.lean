import CallerTree.Proofs.LineNumbers

/-!
# Windows at the edge of the number range

A request for a line and its neighbours is admitted if the line number is positive and the width is
not negative, however large they are. The last line of the window is their sum, and the sum is a
64-bit number: it may wrap around. Then the window is empty, although the lines are there.

## The room for a window

The room that is set aside for a window is computed from its bounds, and that computation may wrap a
second time. The difference between a last line far below zero and a first line far above it comes
back as twice the width, whatever the length of the file (`room_of_narrow`). So room is set aside
for lines that do not exist; and where it is more than can be addressed, the request is refused. A
width of half the range of positive numbers or more has no such effect: the difference then stays
below zero, or comes back there when one is added to it (`room_of_wide`).

## Main definitions

* `FileContext.IsAdmitted` — a request about a file that is not refused by a check
* `FileContext.IsWindow` — the lines around a line, with distances that do not wrap

## Main results

* `FileContext.room_fits_file_iff` — when no more room is set aside than the file has lines
* `FileContext.windows_are_exact_iff` — when the window holds the lines around the line
-/

namespace CallerTree

/-! ### Numbers that leave the range on one side -/

/-- How many 64-bit numbers there are. -/
def range64 : Int := 0x10000000000000000

theorem wrap64_of_gt {n : Int} (lo : maxInt64 < n) (hi : n ≤ maxInt64 + range64) :
    wrap64 n = n - range64 := by
  have hsame : wrap64 (n - range64) = wrap64 n := Int.sub_bmod_right n 0x10000000000000000
  simp only [maxInt64, range64] at lo hi
  rw [← hsame]
  exact wrap64_of_mem (by simp only [minInt64, range64]; omega)
    (by simp only [maxInt64, range64]; omega)

theorem wrap64_of_lt {n : Int} (lo : minInt64 - range64 ≤ n) (hi : n < minInt64) :
    wrap64 n = n + range64 := by
  have hsame : wrap64 (n + range64) = wrap64 n := Int.add_bmod_right n 0x10000000000000000
  simp only [minInt64, range64] at lo hi
  rw [← hsame]
  exact wrap64_of_mem (by simp only [minInt64, range64]; omega)
    (by simp only [maxInt64, range64]; omega)

namespace FileContext

/-- A request that passes the checks, for a file with this data. -/
structure IsAdmitted (fs : FileSystem) (path basePath : Text) (line width : Int) (data : Bytes) :
    Prop where
  path_ne : path ≠ []
  contents_eq : contents fs (resolvedPath path basePath) = .ok data
  one_le_line : 1 ≤ line
  line_le : line ≤ maxInt64
  zero_le_width : 0 ≤ width
  width_le : width ≤ maxInt64

/-! ### The room for a window -/

section Room

variable {total : Nat} {line width : Int}

theorem length_window (lines : List Text) (line first last : Int) :
    (window lines line first last).length = min last.toNat lines.length - (first - 1).toNat := by
  simp [window]

/-- Within the range, the room is the length of the window. -/
theorem room_of_le {lines : List Text} (hline : 1 ≤ line) (hwidth : 0 ≤ width)
    (hsum : line + width ≤ maxInt64) :
    room lines.length line width = (window lines line (bounds lines.length line width).1
      (bounds lines.length line width).2).length := by
  rw [room_eq hline hwidth hsum, length_window, bounds_eq hline hwidth hsum]
  simp only
  omega

/-- A sum beyond the range comes back below zero, and is the last line whatever the file. -/
theorem bounds_of_gt (hline : 1 ≤ line) (hmaxLine : line ≤ maxInt64) (hwidth : 0 ≤ width)
    (hmaxWidth : width ≤ maxInt64) (hsum : maxInt64 < line + width) :
    bounds total line width = (max 1 (line - width), line + width - range64) := by
  have hdiff : wrap64 (line - width) = line - width := by
    refine wrap64_of_mem ?_ (by omega)
    simp only [maxInt64, minInt64] at *
    omega
  have hwrapped : wrap64 (line + width) = line + width - range64 := by
    refine wrap64_of_gt hsum ?_
    simp only [maxInt64, range64] at *
    omega
  have hlast : min (total : Int) (line + width - range64) = line + width - range64 := by
    simp only [maxInt64, range64] at *
    omega
  rw [bounds, hdiff, hwrapped, hlast]

theorem window_of_gt {lines : List Text} (hline : 1 ≤ line) (hmaxLine : line ≤ maxInt64)
    (hwidth : 0 ≤ width) (hmaxWidth : width ≤ maxInt64) (hsum : maxInt64 < line + width) :
    window lines line (bounds lines.length line width).1 (bounds lines.length line width).2 =
      [] := by
  rw [bounds_of_gt hline hmaxLine hwidth hmaxWidth hsum, ← List.length_eq_zero_iff, length_window]
  simp only [maxInt64, range64] at *
  omega

/-- Beyond the range and with a width below half of it, the room has nothing to do with the file:
both numbers wrap, and what is left is twice the width and the line itself. -/
theorem room_of_narrow (hline : 1 ≤ line) (hmaxLine : line ≤ maxInt64) (hwidth : 0 ≤ width)
    (hsum : maxInt64 < line + width) (hnarrow : width < 0x4000000000000000) :
    room total line width = 2 * width + 1 := by
  have hmaxWidth : width ≤ maxInt64 := by
    simp only [maxInt64]
    omega
  have hfirst : max 1 (line - width) = line - width := by
    simp only [maxInt64] at *
    omega
  have hdiff : wrap64 (line + width - range64 - (line - width)) = 2 * width := by
    rw [wrap64_of_lt]
    · omega
    · simp only [minInt64, range64]
      omega
    · simp only [minInt64, range64]
      omega
  rw [room, bounds_of_gt hline hmaxLine hwidth hmaxWidth hsum]
  simp only
  rw [hfirst, hdiff, wrap64_of_mem (by simp only [minInt64]; omega)
    (by simp only [maxInt64]; omega)]
  omega

/-- Beyond the range and with a width of at least half of it, no room is set aside. -/
theorem room_of_wide (hline : 1 ≤ line) (hmaxLine : line ≤ maxInt64) (hmaxWidth : width ≤ maxInt64)
    (hsum : maxInt64 < line + width) (hwide : 0x4000000000000000 ≤ width) :
    room total line width = 0 := by
  rw [room, bounds_of_gt hline hmaxLine (by omega) hmaxWidth hsum]
  simp only
  by_cases hlow : minInt64 ≤ line + width - range64 - max 1 (line - width)
  · rw [wrap64_of_mem hlow (by simp only [maxInt64, range64] at *; omega),
      wrap64_of_mem (by omega) (by simp only [maxInt64, range64] at *; omega)]
    simp only [maxInt64, range64] at *
    omega
  · -- only the least sum beyond the range gets here, and then both steps wrap
    have hleast : line + width - range64 - max 1 (line - width) = minInt64 - 1 := by
      simp only [maxInt64, minInt64, range64] at *
      omega
    rw [hleast]
    decide

end Room

/-- **When the room for a window fits the file.** For an admitted request about a file with `total`
lines, the room that is set aside is at most `total` exactly if the sum of line and width is in
range, or the width is at least half of the range, or `total` is at least twice the width and one.
Within the range the room is the length of the window. Beyond it, it is twice the width and one, or
nothing. The request gets no answer but a panic, with the message of the runtime, exactly if the
room is more than can be addressed. -/
theorem room_fits_file_iff {fs : FileSystem} {path basePath : Text} {line width : Int}
    {data : Bytes} (h : IsAdmitted fs path basePath line width data) :
    let lines := SourceLines.shown data
    (room lines.length line width ≤ lines.length ↔
      line + width ≤ maxInt64 ∨ 0x4000000000000000 ≤ width ∨ 2 * width + 1 ≤ lines.length) ∧
    (line + width ≤ maxInt64 → room lines.length line width =
      (window lines line (bounds lines.length line width).1
        (bounds lines.length line width).2).length) ∧
    (maxInt64 < line + width → room lines.length line width =
      if width < 0x4000000000000000 then 2 * width + 1 else 0) ∧
    ∀ p, read fs path line width basePath = .error (.panicked p) ↔
      roomLimit < room lines.length line width ∧
        p.text = "runtime error: makeslice: cap out of range" := by
  obtain ⟨-, -, hline, hmaxLine, hwidth, hmaxWidth⟩ := id h
  intro lines
  have hin : line + width ≤ maxInt64 → room lines.length line width =
      (window lines line (bounds lines.length line width).1
        (bounds lines.length line width).2).length := room_of_le hline hwidth
  have hout : maxInt64 < line + width → room lines.length line width =
      if width < 0x4000000000000000 then 2 * width + 1 else 0 := by
    intro hsum
    by_cases hnarrow : width < 0x4000000000000000
    · rw [if_pos hnarrow, room_of_narrow hline hmaxLine hwidth hsum hnarrow]
    · rw [if_neg hnarrow, room_of_wide hline hmaxLine hmaxWidth hsum (by omega)]
  refine ⟨?_, hin, hout, fun p => ?_⟩
  · by_cases hsum : line + width ≤ maxInt64
    · have hlength := length_window lines line (bounds lines.length line width).1
        (bounds lines.length line width).2
      have hroom := hin hsum
      omega
    · rw [hout (by omega)]
      split <;> omega
  · rw [read_eq h.path_ne hline hwidth h.contents_eq]
    by_cases hroom : roomLimit < room lines.length line width
    · rw [if_pos hroom]
      cases p with
      | outOfRange => exact ⟨fun _ => ⟨hroom, rfl⟩, fun _ => rfl⟩
      | absent => exact ⟨nofun, fun ⟨_, htext⟩ => absurd htext (by decide)⟩
    · rw [if_neg hroom]
      exact ⟨nofun, fun ⟨hwide, _⟩ => absurd hwide hroom⟩

/-- A file of four lines. -/
def fourLines : FileSystem where
  tree := .folder [("src", .folder [("x.cpp", .file 0o644 "a\nb\nc\nd\n".toUTF8.toList)])]

theorem isAdmitted_fourLines (line width : Int) (hline : 1 ≤ line) (hmaxLine : line ≤ maxInt64)
    (hwidth : 0 ≤ width) (hmaxWidth : width ≤ maxInt64) :
    IsAdmitted fourLines "x.cpp" "/src" line width "a\nb\nc\nd\n".toUTF8.toList :=
  ⟨by decide, eq_ok_of_toOption (by decide +kernel), hline, hmaxLine, hwidth, hmaxWidth⟩

theorem shown_fourLines :
    SourceLines.shown "a\nb\nc\nd\n".toUTF8.toList = ["a", "b", "c", "d"] := by
  decide +kernel

/-- Around the greatest line number, room is wanted for as many lines as there are numbers. -/
theorem greatest_line_gets_no_answer :
    room 4 maxInt64 0x3fffffffffffffff = maxInt64 ∧ ¬ room 4 maxInt64 0x3fffffffffffffff ≤ 4 ∧
      read fourLines "x.cpp" maxInt64 0x3fffffffffffffff "/src" =
        .error (.panicked .outOfRange) := by
  have hadmitted := isAdmitted_fourLines maxInt64 0x3fffffffffffffff
    (by decide) (by decide) (by decide) (by decide)
  obtain ⟨hfits, -, hroom, hwide⟩ := room_fits_file_iff hadmitted
  rw [shown_fourLines] at hfits hroom hwide
  have hnumber : room 4 maxInt64 0x3fffffffffffffff = maxInt64 := hroom (by decide)
  refine ⟨hnumber, fun hle => absurd (hfits.mp hle) (by decide),
    (hwide .outOfRange).mpr ⟨?_, rfl⟩⟩
  change roomLimit < room 4 maxInt64 0x3fffffffffffffff
  rw [hnumber]
  decide

/-! ### The lines of a window -/

/-- The lines with a distance of at most `width` from `line`, in ascending order, each once under
its number and with its content. The line itself is marked. -/
structure IsWindow (lines : List Text) (line width : Int) (ls : List ContextLine) : Prop where
  ascending : ls.Pairwise fun l l' => l.number < l'.number
  mem_iff : ∀ l, l ∈ ls ↔ 1 ≤ l.number ∧ l.number ≤ lines.length ∧
    ((l.number - line).natAbs : Int) ≤ width ∧
    lines[(l.number - 1).toNat]? = some l.content ∧ l.isTarget = decide (l.number = line)

theorem pairwise_window (lines : List Text) (line first last : Int) :
    (window lines line first last).Pairwise fun l l' => l.number < l'.number := by
  rw [window, List.pairwise_map]
  refine List.pairwise_iff_getElem.mpr fun i j hi hj hij => ?_
  simp only [List.getElem_zipIdx]
  omega

/-- Bounds that do not wrap give the window. -/
theorem isWindow_window {lines : List Text} {line width : Int} :
    IsWindow lines line width
      (window lines line (max 1 (line - width)) (min (lines.length : Int) (line + width))) := by
  refine ⟨pairwise_window _ _ _ _, fun l => mem_window_iff.trans ⟨?_, ?_⟩⟩
  · rintro ⟨i, hfirst, hlast, hcontent, hnumber, htarget⟩
    have hindex : (l.number - 1).toNat = i := by omega
    exact ⟨by omega, by omega, by omega, by rw [hindex, hcontent], htarget⟩
  · rintro ⟨hone, htotal, hnear, hcontent, htarget⟩
    exact ⟨(l.number - 1).toNat, by omega, by omega, hcontent, by omega, htarget⟩

theorem IsWindow.mem_target {lines : List Text} {line width : Int} {ls : List ContextLine}
    (h : IsWindow lines line width ls) (hline : 1 ≤ line) (hwidth : 0 ≤ width) {content : Text}
    (hcontent : lines[(line - 1).toNat]? = some content) : ⟨line, content, true⟩ ∈ ls := by
  have hlt := (List.getElem?_eq_some_iff.mp hcontent).1
  refine (h.mem_iff _).mpr ⟨hline, ?_, ?_, hcontent, ?_⟩
  · simp only
    omega
  · simp only
    omega
  · simp

/-- No line of the file is near enough exactly if the file ends before the window would begin. -/
theorem isWindow_nil_iff {lines : List Text} {line width : Int} (hline : 1 ≤ line)
    (hwidth : 0 ≤ width) :
    IsWindow lines line width [] ↔ (lines.length : Int) < max 1 (line - width) := by
  constructor
  · intro h
    refine Int.not_le.mp fun hle => ?_
    -- the last line of the file, or the line itself if that comes before it
    have hlt : (min (lines.length : Int) line - 1).toNat < lines.length := by omega
    have hmem := (h.mem_iff ⟨min (lines.length : Int) line,
      lines[(min (lines.length : Int) line - 1).toNat],
      decide (min (lines.length : Int) line = line)⟩).mpr
      ⟨by simp only; omega, by simp only; omega, by simp only; omega,
        List.getElem?_eq_getElem hlt, rfl⟩
    exact List.not_mem_nil hmem
  · intro hshort
    refine ⟨.nil, fun l => ⟨fun hl => absurd hl List.not_mem_nil, ?_⟩⟩
    rintro ⟨hone, htotal, hnear, -⟩
    omega

/-- **When the window is exact.** An admitted request is answered unless the room is more than can
be addressed. The lines in the answer are those around the line, as distances between integers have
it, exactly if the sum of line and width is in range or no line of the file is that near. If the sum
is in range then the line itself is among them, provided that the file has it; and otherwise there
are no lines at all. -/
theorem windows_are_exact_iff {fs : FileSystem} {path basePath : Text} {line width : Int}
    {data : Bytes} (h : IsAdmitted fs path basePath line width data) :
    let lines := SourceLines.shown data
    (roomLimit < room lines.length line width →
      read fs path line width basePath = .error (.panicked .outOfRange)) ∧
    (room lines.length line width ≤ roomLimit → ∃ c,
      read fs path line width basePath = .ok c ∧ c.path = path ∧ c.target = line ∧
      c.total = lines.length ∧
      (IsWindow lines line width c.lines ↔
        line + width ≤ maxInt64 ∨ (lines.length : Int) < max 1 (line - width)) ∧
      (line + width ≤ maxInt64 → ∀ content, lines[(line - 1).toNat]? = some content →
        ⟨line, content, true⟩ ∈ c.lines) ∧
      (maxInt64 < line + width → c.lines = [])) := by
  obtain ⟨-, -, hline, hmaxLine, hwidth, hmaxWidth⟩ := id h
  intro lines
  rw [read_eq h.path_ne hline hwidth h.contents_eq]
  refine ⟨fun hwide => if_pos hwide, fun hfits => ?_⟩
  rw [if_neg (Int.not_lt.mpr hfits)]
  refine ⟨_, rfl, rfl, rfl, rfl, ?_⟩
  by_cases hsum : line + width ≤ maxInt64
  · have hwindow : IsWindow lines line width (window lines line
        (bounds lines.length line width).1 (bounds lines.length line width).2) := by
      rw [bounds_eq hline hwidth hsum]
      exact isWindow_window
    exact ⟨⟨fun _ => .inl hsum, fun _ => hwindow⟩,
      fun _ _ hcontent => hwindow.mem_target hline hwidth hcontent, fun hgt => by omega⟩
  · have hempty : window lines line (bounds lines.length line width).1
        (bounds lines.length line width).2 = [] :=
      window_of_gt hline hmaxLine hwidth hmaxWidth (by omega)
    refine ⟨?_, fun hle => absurd hle hsum, fun _ => hempty⟩
    change IsWindow lines line width (window lines line (bounds lines.length line width).1
      (bounds lines.length line width).2) ↔ _
    rw [hempty, isWindow_nil_iff hline hwidth]
    exact ⟨.inr, fun hnear => hnear.resolve_left hsum⟩

/-- The second line with its neighbours, and the first line with as many neighbours as can be asked
for: the whole file is near enough, and nothing is shown. -/
theorem widest_window_is_empty :
    (∃ c, read fourLines "x.cpp" 2 1 "/src" = .ok c ∧
      IsWindow ["a", "b", "c", "d"] 2 1 c.lines ∧ ⟨2, "b", true⟩ ∈ c.lines) ∧
    ∃ c, read fourLines "x.cpp" 1 maxInt64 "/src" = .ok c ∧ c.lines = [] ∧
      ¬ IsWindow ["a", "b", "c", "d"] 1 maxInt64 c.lines := by
  have hadmitted := isAdmitted_fourLines 2 1
    (by decide) (by decide) (by decide) (by decide)
  have hwidest := isAdmitted_fourLines 1 maxInt64
    (by decide) (by decide) (by decide) (by decide)
  obtain ⟨-, hanswer⟩ := windows_are_exact_iff hadmitted
  obtain ⟨-, hanswer'⟩ := windows_are_exact_iff hwidest
  rw [shown_fourLines] at hanswer hanswer'
  obtain ⟨c, hc, -, -, -, hexact, htarget, -⟩ := hanswer (by decide)
  obtain ⟨c', hc', -, -, -, hexact', -, hempty⟩ := hanswer' (by decide)
  exact ⟨⟨c, hc, hexact.mpr (.inl (by decide)), htarget (by decide) _ rfl⟩,
    c', hc', hempty (by decide), fun hwindow => absurd (hexact'.mp hwindow) (by decide)⟩

end FileContext

end CallerTree
