import CallerTree.Stream

/-!
# Reading a stream through a buffer

A source gives the bytes of a stream in portions of any length, also of none. A reader collects them
in a buffer until a line feed is among them or no room is left, and hands on what the buffer then
holds of a line. Out of these fragments the lines are put together again, until the one who receives
them has had enough.

## Contract

The end of a stream is known when the source reports it, with its last bytes or after them. What the
buffer holds is handed on first. A source that gives nothing `patience` times in a row is taken to
have ended there.

## Implementation notes

`Reader.rest` is what is still to come, be it in the buffer already or not. Asking the source leaves
it as it is, and every fragment makes it shorter.
-/

namespace CallerTree

namespace Stream

/-! ### Sources -/

/-- Why no more bytes come. -/
inductive Ending where
  | complete
  /-- The source gave nothing, time after time. -/
  | stuck
  | failed (message : Text)
  deriving DecidableEq, Repr

/-- What went wrong, if something did. -/
def Ending.failure? : Ending → Option Ending
  | .complete => none
  | e => some e

structure Source where
  portions : List Bytes
  ending : Ending := .complete
  /-- The ending is reported with the last portion, not after it. -/
  isPrompt : Bool := false

/-- The bytes to come. -/
def Source.left (s : Source) : Bytes := s.portions.flatten

/-- The answer of a source that was asked for at most `room` bytes. -/
structure Delivery (room : Nat) where
  bytes : Bytes
  ending : Option Ending
  source : Source
  fits : bytes.length ≤ room

/-- One portion, or as much of it as there is room for. -/
def Source.read (s : Source) (room : Nat) : Delivery room :=
  match s.portions with
  | [] => ⟨[], some s.ending, s, Nat.zero_le room⟩
  | p :: ps =>
    if h : p.length ≤ room then
      ⟨p, if ps.isEmpty && s.isPrompt then some s.ending else none, { s with portions := ps }, h⟩
    else
      ⟨p.take room, none, { s with portions := p.drop room :: ps }, List.length_take_le room p⟩

theorem Source.bytes_append_left (s : Source) (room : Nat) :
    (s.read room).bytes ++ (s.read room).source.left = s.left := by
  rw [read]
  split
  · rfl
  · next p ps hportions =>
    split
    · simp [left, hportions]
    · simp [left, hportions, ← List.append_assoc]

/-! ### Readers -/

/-- The size of the smallest buffer. -/
def leastSize : Nat := 16

/-- The number of times that a source is asked in vain. -/
def patience : Nat := 100

structure Reader where
  size : Nat
  buffer : Bytes
  /-- Reported once the buffer is empty. -/
  pending : Option Ending
  source : Source
  leastSize_le : leastSize ≤ size
  fits : buffer.length ≤ size

namespace Reader

/-- A reader with a buffer of the given size, if that is not too small. -/
def ofSource (size : Nat) (source : Source) : Reader :=
  ⟨max size leastSize, [], none, source, Nat.le_max_right size leastSize, Nat.zero_le _⟩

/-- The bytes to come. -/
def rest (r : Reader) : Bytes := r.buffer ++ r.source.left

def room (r : Reader) : Nat := r.size - r.buffer.length

theorem fits_take (r : Reader) (d : Delivery r.room) : (r.buffer ++ d.bytes).length ≤ r.size := by
  have hbuffer := r.fits
  have hbytes : d.bytes.length ≤ r.size - r.buffer.length := d.fits
  rw [List.length_append]
  omega

/-- Puts a delivery into the buffer. -/
def take (r : Reader) (d : Delivery r.room) : Reader :=
  ⟨r.size, r.buffer ++ d.bytes, d.ending, d.source, r.leastSize_le, r.fits_take d⟩

theorem fits_consume (r : Reader) (n : Nat) : (r.buffer.drop n).length ≤ r.size := by
  have hbuffer := r.fits
  rw [List.length_drop]
  omega

/-- Takes bytes off the front of the buffer. -/
def consume (r : Reader) (n : Nat) : Reader :=
  ⟨r.size, r.buffer.drop n, r.pending, r.source, r.leastSize_le, r.fits_consume n⟩

/-- Takes everything off the buffer, and the ending that was pending. -/
def clear (r : Reader) : Reader :=
  ⟨r.size, r.buffer.drop r.buffer.length, none, r.source, r.leastSize_le,
    r.fits_consume r.buffer.length⟩

/-- Asks the source until it gives something or reports its end, at most `tries` times. -/
def fill : (tries : Nat) → Reader → Reader
  | 0, r => ⟨r.size, r.buffer, some .stuck, r.source, r.leastSize_le, r.fits⟩
  | tries + 1, r =>
    let d := r.source.read r.room
    if d.bytes.isEmpty && d.ending.isNone then fill tries (r.take d) else r.take d

@[simp] theorem size_fill (tries : Nat) (r : Reader) : (r.fill tries).size = r.size := by
  fun_induction fill tries r with
  | case1 => rfl
  | case2 tries r d _ ih => exact ih
  | case3 => rfl

theorem rest_take_read (r : Reader) : (r.take (r.source.read r.room)).rest = r.rest := by
  rw [rest, rest, take, List.append_assoc, Source.bytes_append_left]

@[simp] theorem rest_fill (tries : Nat) (r : Reader) : (r.fill tries).rest = r.rest := by
  fun_induction fill tries r with
  | case1 => rfl
  | case2 tries r d _ ih => exact ih.trans r.rest_take_read
  | case3 tries r d _ => exact r.rest_take_read

/-- There is something to hand on or to report. -/
def isReady (r : Reader) : Bool :=
  r.buffer.contains lineFeed || r.pending.isSome || decide (r.size ≤ r.buffer.length)

/-- How often the source may still have to be asked. -/
def demand (r : Reader) : Nat := if r.pending.isSome then 0 else r.source.left.length + 1

theorem demand_fill_lt (tries : Nat) {r : Reader} (hpending : r.pending = none) :
    (r.fill tries).demand < r.demand := by
  have hdemand : r.demand = r.source.left.length + 1 := by simp [demand, hpending]
  induction tries generalizing r with
  | zero => simp [fill, demand, hpending]
  | succ tries ih =>
    have hleft := congrArg List.length (r.source.bytes_append_left r.room)
    rw [List.length_append] at hleft
    rw [fill]
    by_cases hvain : ((r.source.read r.room).bytes.isEmpty &&
        (r.source.read r.room).ending.isNone) = true
    · rw [if_pos hvain]
      rw [Bool.and_eq_true, Option.isNone_iff_eq_none] at hvain
      have htake : (r.take (r.source.read r.room)).demand =
          (r.source.read r.room).source.left.length + 1 := by simp [take, demand, hvain.2]
      have hlt := ih (r := r.take (r.source.read r.room)) hvain.2 htake
      omega
    · rw [if_neg hvain, hdemand]
      cases hending : (r.source.read r.room).ending with
      | some e => simp [take, demand, hending]
      | none =>
        have hbytes : 0 < (r.source.read r.room).bytes.length := by
          rw [List.length_pos_iff]
          intro hnil
          simp [hnil, hending] at hvain
        simp only [take, demand, hending, Option.isSome_none, Bool.false_eq_true, if_false]
        omega

/-- Fills the buffer until there is something to hand on or to report. -/
def await (r : Reader) : Reader :=
  if r.isReady then r else (r.fill patience).await
termination_by r.demand
decreasing_by
  rename_i h
  refine demand_fill_lt patience (Option.not_isSome_iff_eq_none.mp fun hsome => h ?_)
  simp [isReady, hsome]

@[simp] theorem size_await (r : Reader) : r.await.size = r.size := by
  fun_induction await r with
  | case1 => rfl
  | case2 r _ ih => rw [ih, size_fill]

@[simp] theorem rest_await (r : Reader) : r.await.rest = r.rest := by
  fun_induction await r with
  | case1 => rfl
  | case2 r _ ih => rw [ih, rest_fill]

theorem isReady_await (r : Reader) : r.await.isReady = true := by
  fun_induction await r with
  | case1 r h => exact h
  | case2 r _ ih => exact ih

/-- What the buffer holds of a line, once it is ready. A full buffer keeps a carriage return at its
end, which may belong to a line feed that is still to come. -/
def handOn (r : Reader) : Except Ending Fragment × Reader :=
  if lineFeed ∈ r.buffer then
    let line := r.buffer.takeWhile (· ≠ lineFeed)
    (.ok ⟨dropReturn line, false⟩, r.consume (line.length + 1))
  else match r.pending with
    | some ending =>
      if r.buffer.isEmpty then (.error ending, r.clear) else (.ok ⟨r.buffer, false⟩, r.clear)
    | none =>
      let n := fullLength r.size r.buffer
      (.ok ⟨r.buffer.take n, true⟩, r.consume n)

/-- The next fragment, or the reason why there is none. -/
def readLine (r : Reader) : Except Ending Fragment × Reader := r.await.handOn

theorem length_rest_consume_lt {r : Reader} {n : Nat} (hn : 0 < n) (hbuffer : r.buffer ≠ []) :
    (r.consume n).rest.length < r.rest.length := by
  have hpos := List.length_pos_iff.mpr hbuffer
  simp only [rest, consume, List.length_append, List.length_drop]
  omega

theorem length_rest_readLine_lt {r r' : Reader} {f : Fragment} (h : r.readLine = (.ok f, r')) :
    r'.rest.length < r.rest.length := by
  have hready := r.isReady_await
  rw [← r.rest_await]
  rw [readLine] at h
  generalize r.await = s at h hready
  rw [handOn] at h
  split at h
  · next hfeed =>
    cases h
    exact length_rest_consume_lt (Nat.succ_pos _) (List.ne_nil_of_mem hfeed)
  · next hfeed =>
    split at h
    · next ending hpending =>
      split at h
      · cases h
      · next hempty =>
        cases h
        have hne : s.buffer ≠ [] := fun hnil => hempty (by rw [hnil]; rfl)
        exact length_rest_consume_lt (List.length_pos_iff.mpr hne) hne
    · next hpending =>
      cases h
      have hfull : s.size ≤ s.buffer.length := by simpa [isReady, hfeed, hpending] using hready
      have hsize : 16 ≤ s.size := s.leastSize_le
      have hne : s.buffer ≠ [] := List.length_pos_iff.mp (by omega)
      exact length_rest_consume_lt (Nat.lt_of_lt_of_le Nat.one_pos (Nat.le_max_left ..)) hne

end Reader

/-! ### Lines -/

/-- What the reading of a stream comes to. -/
structure Report where
  events : List Event
  /-- What broke the reading off, if something did. -/
  failure : Option Ending

/-- Whether more is wanted. The receiver is asked after each line it was handed, and sees all lines
that it was handed so far. -/
def Assembly.goesOn (accepts : List Bytes → Bool) (a : Assembly) : Bool :=
  match a.events with
  | .line _ :: _ => accepts (lines a.events.reverse)
  | _ => true

/-- Puts the fragments of a reader together. -/
def Reader.assemble (limit : Int) (accepts : List Bytes → Bool) (r : Reader) (a : Assembly) :
    Report :=
  match _hread : r.readLine with
  | (.error ending, _) => ⟨a.events.reverse, ending.failure?⟩
  | (.ok f, r') =>
    let a' := a.add limit f
    if f.partial_ || a'.goesOn accepts then assemble limit accepts r' a'
    else ⟨a'.events.reverse, none⟩
termination_by r.rest.length
decreasing_by exact length_rest_readLine_lt _hread

/-- Reads the lines of a source. -/
def readLines (size : Nat) (limit : Int) (accepts : List Bytes → Bool) (source : Source) : Report :=
  (Reader.ofSource size source).assemble limit accepts {}

end Stream

end CallerTree
