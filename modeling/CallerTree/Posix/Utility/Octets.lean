import CallerTree.Posix.Regex
import CallerTree.Posix.Utility.Basic

/-!
# Replacing bytes

A program that replaces bytes.
-/

namespace CallerTree

namespace Posix

namespace Utility

/-- All bytes, as characters. -/
def allOctets : List Char := (List.range 256).map Char.ofNat

/-- A character of a set, which may be escaped, and what follows. -/
def setChar? : List Char → Option (Char × List Char)
  | '\\' :: c :: rest =>
    let digits := ((c :: rest).take 3).takeWhile fun d => '0' ≤ d && d ≤ '7'
    if digits.isEmpty then
      some (if c = 'b' then '\x08' else Regex.escapedChar c, rest)
    else
      let n := digits.foldl (fun n d => n * 8 + (d.toNat - 48)) 0
      some (Char.ofNat (n % 256), (c :: rest).drop digits.length)
  | c :: rest => some (c, rest)
  | [] => none

/-- The characters that a set stands for, or a range in it whose ends are reversed. -/
def setChars : (fuel : Nat) → List Char → Except (List Char) (List Char)
  | 0, _ => .ok []
  | fuel + 1, cs =>
    match cs with
    | [] => .ok []
    | '[' :: ':' :: rest =>
      let name := rest.takeWhile (· ≠ ':')
      let ranges := (Regex.classRanges? name).getD []
      let members := allOctets.filter fun c => ranges.any fun r => r.1 ≤ c && c ≤ r.2
      return members ++ (← setChars fuel (rest.drop (name.length + 2)))
    | cs =>
      match setChar? cs with
      | none => .ok []
      | some (first, '-' :: c :: rest) =>
        match setChar? (c :: rest) with
        | none => .ok [first]
        | some (last, rest) =>
          if last < first then .error [first, '-', last]
          else return allOctets.filter (fun d => first ≤ d && d ≤ last) ++ (← setChars fuel rest)
      | some (c, rest) => return c :: (← setChars fuel rest)

/-- Leaves one of several equal neighbours in a set. -/
def squeezed (isIn : UInt8 → Bool) (data : Bytes) : Bytes :=
  (data.foldl (fun (out : List UInt8) b =>
    if out.head? = some b && isIn b then out else b :: out) []).reverse

/-- What each byte is replaced by: the last place of a character in the first set counts, and the
second set is continued by its last character. -/
def replacements (first second : List Char) : Array UInt8 :=
  (allOctets.map fun c =>
    match first.reverse.idxOf? c with
    | none => c.toNat.toUInt8
    | some k => ((second[first.length - 1 - k]?).getD (second.getLastD c)).toNat.toUInt8).toArray

/-- Replaces or deletes bytes. -/
def tr : Utility := fun c =>
  let table : OptionTable := {
    plain := "cCdst", stopsEarly := true
    long := [("complement", 'c'), ("delete", 'd'), ("squeeze-repeats", 's'),
      ("truncate-set1", 't')] }
  withOptions "tr" table c fun o =>
    let expanded := o.operands.mapM fun t => setChars (t.utf8.length + 1) (octets t)
    match expanded with
    | .error range => misuse ("tr: range-endpoints of '" ++ textOfOctets range ++
        "' are in reverse collating sequence order") 1
    | .ok sets =>
      let deletes := o.has 'd'
      let squeezes := o.has 's'
      let sets := match sets with
        | first :: rest =>
          (if o.has 'c' || o.has 'C' then allOctets.filter fun c => !first.contains c else first) ::
            rest
        | [] => []
      let tableOf := fun (set : List Char) => (allOctets.map set.contains).toArray
      let isIn := fun (set : List Char) =>
        let t := tableOf set
        fun (b : UInt8) => t.getD b.toNat false
      match sets with
      | [] => misuseOf "tr" "missing operand"
      | [first] =>
        if deletes && !squeezes then
          let gone := isIn first
          done (c.input.mapBytes (·.filter fun b => !gone b))
        else if squeezes && !deletes then done (c.input.mapBytes (squeezed (isIn first)))
        else
          let use : Text :=
            if deletes then "both deleting and squeezing repeats" else "translating"
          misuseOf "tr" ("missing operand after '" ++ o.operands.headD [] ++
            "'\nTwo strings must be given when " ++ use ++ ".")
      | [first, second] =>
        if deletes then
          if squeezes then
            let gone := isIn first
            done (c.input.mapBytes fun b => squeezed (isIn second) (b.filter fun b => !gone b))
          else misuseOf "tr" ("extra operand '" ++ (o.operands.drop 1).headD [] ++
            "'\nOnly one string may be given when deleting without squeezing repeats.")
        else
          let first := if o.has 't' then first.take second.length else first
          let t := replacements first second
          let out := c.input.mapBytes (·.map fun b => t.getD b.toNat b)
          done (if squeezes then out.mapBytes (squeezed (isIn second)) else out)
      | _ => misuseOf "tr" ("extra operand '" ++ (o.operands.drop 2).headD [] ++ "'")

end Utility

end Posix

end CallerTree
