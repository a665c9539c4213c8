import CallerTree.Text.Numeral
import CallerTree.Text.Utf8

/-!
# Addresses to listen on

An address is a host and a port, with a colon between them. A host that has colons itself stands in
brackets. An empty host means all of them, and a port may be a number or the name of a service.
-/

namespace CallerTree

namespace Http

structure Address where
  host : Text
  port : Nat
  deriving DecidableEq, Repr

def Address.shown (a : Address) : Text :=
  (if a.host.any (· = .char ':') then "[" ++ a.host ++ "]" else a.host) ++ ":" ++ Text.ofNat a.port

/-- Why an address cannot be listened on. -/
inductive AddressError where
  | missingPort (address : Text)
  | tooManyColons (address : Text)
  | unclosed (address : Text)
  | strayBracket (bracket : Char) (address : Text)
  | badPort (port : Text)
  | unknownService (name : Text)
  | unknownHost (host : Text)
  | notLocal (a : Address)
  deriving DecidableEq, Repr

def AddressError.text : AddressError → Text
  | missingPort a => "listen tcp: address " ++ a ++ ": missing port in address"
  | tooManyColons a => "listen tcp: address " ++ a ++ ": too many colons in address"
  | unclosed a => "listen tcp: address " ++ a ++ ": missing ']' in address"
  | strayBracket b a =>
    "listen tcp: address " ++ a ++ ": unexpected '" ++ [Glyph.char b] ++ "' in address"
  | badPort p => "listen tcp: address " ++ p ++ ": invalid port"
  | unknownService name => "listen tcp: lookup tcp/" ++ name ++ ": unknown port"
  | unknownHost host => "listen tcp: lookup " ++ host ++ ": no such host"
  | notLocal a => "listen tcp " ++ a.shown ++ ": bind: cannot assign requested address"

namespace Address

/-! ### Host and port -/

/-- Splits an address at the colon before the port. -/
def split (t : Text) : Except AddressError (Text × Text) := do
  let some (host, port) := t.cutLast? ':' | throw (.missingPort t)
  let noOpening := fun (u : Text) =>
    if u.any (· = .char '[') then throw (AddressError.strayBracket '[' t) else pure ()
  let noClosing := fun (u : Text) =>
    if u.any (· = .char ']') then throw (AddressError.strayBracket ']' t) else pure ()
  match t with
  | .char '[' :: inside =>
    match Text.cut? inside ']' with
    | none => throw (.unclosed t)
    | some (name, after) =>
      if after = ":" ++ port then
        noOpening inside
        noClosing after
        return (name, port)
      else if after.head? = some (.char ':') then throw (.tooManyColons t)
      else throw (.missingPort t)
  | _ =>
    if host.any (· = .char ':') then throw (.tooManyColons t)
    noOpening t
    noClosing t
    return (host, port)

/-- The services that may be given by name. -/
def services : List (Text × Nat) := [
  ("domain", 53), ("ftp", 21), ("ftps", 990), ("gopher", 70), ("http", 80), ("https", 443),
  ("imap2", 143), ("imap3", 220), ("imaps", 993), ("pop3", 110), ("pop3s", 995), ("smtp", 25),
  ("submissions", 465), ("ssh", 22), ("telnet", 23)]

/-- The size of a number whose digits are added up in 32 bits. From a number of at least `2 ^ 30` on
the further digits are not looked at; `none` stands for a size beyond the range. A text with other
glyphs among those that are looked at is no number. -/
def portSize : (sum : Nat) → Text → Option (Option Nat)
  | sum, [] => some (if sum < 2 ^ 30 then some sum else none)
  | sum, g :: rest =>
    match Text.digit? g with
    | none => none
    | some d =>
      if 2 ^ 30 ≤ sum then some none
      else
        let shifted := sum * 10 % 2 ^ 32
        if 2 ^ 32 ≤ shifted + d then some none else portSize (shifted + d) rest

/-- A port; an empty one is zero. -/
def readPort (t : Text) : Except AddressError Nat :=
  let (isNegative, digits) := match t with
    | .char '-' :: rest => (true, rest)
    | .char '+' :: rest => (false, rest)
    | rest => (false, rest)
  match portSize 0 digits with
  | some (some n) => if (isNegative ∧ n ≠ 0) ∨ 65535 < n then .error (.badPort t) else .ok n
  | some none => .error (.badPort t)
  | none =>
    match services.lookup (t.map fun g => .char g.toChar.toLower) with
    | some n => .ok n
    | none => .error (.unknownService t)

/-! ### Hosts -/

/-- The numbers of a host that is written as four of them. -/
def quad? (host : Text) : Option (List Nat) := do
  let fields := host.split '.'
  guard (fields.length = 4)
  fields.mapM fun f => do
    let n ← Text.readNat? f
    guard (n ≤ 255 ∧ Text.ofNat n = f)
    return n

/-- A group of at most four hexadecimal digits. -/
def group? (t : Text) : Option Nat := do
  guard (0 < t.length ∧ t.length ≤ 4)
  t.foldlM (fun n g => (hexDigit? g).map (n * 16 + ·)) 0
where
  hexDigit? : Glyph → Option Nat
    | .char c =>
      if c.isDigit then some (c.toNat - 48)
      else if 'a' ≤ c ∧ c ≤ 'f' then some (c.toNat - 87)
      else if 'A' ≤ c ∧ c ≤ 'F' then some (c.toNat - 55)
      else none
    | .stray _ => none

/-- Groups with colons between them; the last two may be written as four decimal numbers. -/
def groups? (t : Text) : Option (List Nat) :=
  if t.isEmpty then some []
  else
    let fields := t.split ':'
    match quad? (fields.getLastD []) with
    | some [a, b, c, d] => do
      return (← fields.dropLast.mapM group?) ++ [a * 256 + b, c * 256 + d]
    | _ => fields.mapM group?

/-- Splits a text at the first pair of colons. -/
def cutColons? : Text → Option (Text × Text)
  | .char ':' :: .char ':' :: rest => some ([], rest)
  | g :: rest => (cutColons? rest).map fun (before, after) => (g :: before, after)
  | [] => none

/-- The eight groups of a host that is written with colons. A pair of colons stands for as many
zeros as are missing, which is at least one. -/
def octet? (host : Text) : Option (List Nat) := do
  match cutColons? host with
  | none =>
    let groups ← groups? host
    guard (groups.length = 8)
    return groups
  | some (before, after) =>
    let front ← before.split ':' |>.mapM group? |> fun gs => if before.isEmpty then some [] else gs
    let back ← groups? after
    guard (front.length + back.length < 8)
    return front ++ List.replicate (8 - front.length - back.length) 0 ++ back

/-- The length of the run of zeros at the start of a list. -/
def zeros (l : List Nat) : Nat := (l.takeWhile (· = 0)).length

/-- The shortest writing of eight groups: the first of the longest runs of zeros is left out if it
has at least two of them. -/
def writeGroups (groups : List Nat) : Text :=
  let shown := fun (l : List Nat) => Text.join ":" (l.map (Text.hex 1))
  let runs := (List.range groups.length).map fun i => (i, zeros (groups.drop i))
  let longest := runs.foldl (fun best r => if best.2 < r.2 then r else best) (0, 0)
  if longest.2 < 2 then shown groups
  else shown (groups.take longest.1) ++ "::" ++ shown (groups.drop (longest.1 + longest.2))

/-- The address behind four numbers, if this machine has it. -/
def resolveQuad (ns : List Nat) (port : Nat) : Except AddressError Address :=
  let host := Text.join "." (ns.map Text.ofNat)
  if ns.head? = some 127 ∨ ns.all (· = 0) then .ok ⟨host, port⟩
  else .error (.notLocal ⟨host, port⟩)

/-- The address behind eight groups, if this machine has it. Some of them only wrap four numbers. -/
def resolveGroups (groups : List Nat) (port : Nat) : Except AddressError Address :=
  match groups with
  | [0, 0, 0, 0, 0, 0xFFFF, a, b] => resolveQuad [a / 256, a % 256, b / 256, b % 256] port
  | _ =>
    let host := writeGroups groups
    if groups.dropLast.all (· = 0) && groups.getLastD 0 ≤ 1 then .ok ⟨host, port⟩
    else .error (.notLocal ⟨host, port⟩)

/-- The name of this machine, in any case of letters and with or without a point behind it. -/
def isThisMachine (host : Text) : Bool :=
  let name : Text := host.map fun g => match g with
    | .char c => .char c.toLower
    | g => g
  name = "localhost" || name = "localhost."

/-- The address behind a host and a port, if this machine has it. -/
def resolve (host : Text) (port : Nat) : Except AddressError Address :=
  if host.isEmpty then .ok ⟨"::", port⟩
  else if isThisMachine host then .ok ⟨"127.0.0.1", port⟩
  else match quad? host, octet? host with
    | some ns, _ => resolveQuad ns port
    | none, some groups => resolveGroups groups port
    | none, none => .error (.unknownHost host)

/-- Reads an address. An empty one means any free port. -/
def ofText (t : Text) : Except AddressError Address := do
  if t.isEmpty then return ⟨"::", 0⟩
  let (host, port) ← split t
  resolve host (← readPort port)

end Address

end Http

end CallerTree
