import CallerTree.Stream

/-!
# What a process reads

A process reads bytes from a file, a pipe or a device. Some sources never end: a device that repeats
a block, or a pipe from a process that keeps writing.
-/

namespace CallerTree

namespace Posix

/-- What comes behind the bytes that are known. -/
inductive Remainder where
  | ended
  /-- The block comes again and again. -/
  | repeats (block : Bytes)
  /-- More that was never worked out. -/
  | unknown
  deriving DecidableEq, Repr

structure Source where
  data : Bytes := []
  remainder : Remainder := .ended
  deriving DecidableEq, Repr

namespace Source

def ofBytes (data : Bytes) : Source := { data }

def ofText (t : Text) : Source := ofBytes t.utf8

/-- The device that gives zeros. -/
def zeros : Source := { remainder := .repeats (List.replicate 4096 0) }

/-- All bytes, if there is an end. -/
def all? (s : Source) : Option Bytes :=
  match s.remainder with
  | .ended => some s.data
  | _ => none

/-- The source with `n` more copies of the repeating block written out. -/
def unrolled (n : Nat) (s : Source) : Source :=
  match s.remainder with
  | .repeats block => { s with data := s.data ++ (List.replicate n block).flatten }
  | _ => s

/-- Changes every byte by itself. -/
def mapBytes (f : Bytes → Bytes) (s : Source) : Source where
  data := f s.data
  remainder := match s.remainder with
    | .repeats block => if (f block).isEmpty then .unknown else .repeats (f block)
    | r => r

/-- One source after the other. -/
def append (s t : Source) : Source :=
  match s.remainder with
  | .ended => { t with data := s.data ++ t.data }
  | _ => s

/-- The first `n` bytes, or all if there are fewer. -/
def take? (n : Nat) (s : Source) : Option Bytes :=
  let s := s.unrolled <| match s.remainder with
    | .repeats block => (n - s.data.length) / (max 1 block.length) + 1
    | _ => 0
  if n ≤ s.data.length then some (s.data.take n) else s.all?

/-- The number of bytes up to the end of line `n`. -/
def lengthOfLines (n : Nat) (data : Bytes) : Nat :=
  (data.foldl (fun (left, length) b =>
    if left = 0 then (0, length)
    else (if b = Stream.lineFeed then left - 1 else left, length + 1)) (n, 0)).2

def countLines (data : Bytes) : Nat := data.countP (· = Stream.lineFeed)

/-- The first `n` lines, or all if there are fewer. -/
def takeLines? (n : Nat) (s : Source) : Option Bytes :=
  let s := s.unrolled n
  if n ≤ countLines s.data then some (s.data.take (lengthOfLines n s.data)) else s.all?

end Source

/-- The lines of some bytes without their ends. -/
def linesOf (data : Bytes) : List Bytes :=
  let lines := pieces (· = Stream.lineFeed) data
  if lines.getLast? = some [] then lines.dropLast else lines

/-- Lines with an end behind each. -/
def unlines (lines : List Bytes) : Bytes := lines.flatMap (· ++ [Stream.lineFeed])

end Posix

end CallerTree
