import CallerTree.Text.Basic

/-!
# Failures

A failure is a message with a structure: it may wrap another failure, join several, or carry a code
for clients. Some failures have a cause that callers test for (`Failure.has`), whatever is wrapped
around it.

## Contract

Wrapping keeps causes and codes, and so does joining. Quoting another failure's text in a
`message` keeps neither.

## Main definitions

* `Failure.text` — the message
* `Failure.has` — whether a cause is among the wrapped failures
* `Failure.code`, `Code.status` — the class shown to clients and its HTTP status
* `Failure.report` — the failure as shown to clients
-/

namespace CallerTree

/-- The causes that callers test for. -/
inductive Cause where
  /-- A request about a call hierarchy that cannot be served. -/
  | invalidRequest
  /-- A search or a file request that cannot be served. -/
  | invalidSearch
  | indexUnavailable
  | fileUnreadable
  | toolNotFound
  | canceled
  | deadline
  deriving DecidableEq, Repr, Inhabited

def Cause.text : Cause → Text
  | invalidRequest => "invalid input"
  | invalidSearch => "invalid input"
  | indexUnavailable => "symbol index unavailable"
  | fileUnreadable => "source file unreadable"
  | toolNotFound => "proc: tool not found"
  | canceled => "context canceled"
  | deadline => "context deadline exceeded"

/-! ### Codes -/

/-- The class of a failure as clients see it: a label. -/
structure Code where
  label : Text
  deriving DecidableEq, Repr

namespace Code

def invalidInput : Code := ⟨"INVALID_INPUT"⟩

def timeout : Code := ⟨"TIMEOUT"⟩

def internalError : Code := ⟨"INTERNAL_ERROR"⟩

/-- The code of what is no failure. -/
def success : Code := ⟨[]⟩

/-- The HTTP status of an answer with this code. A label of its own counts as an internal error. -/
def status (c : Code) : Nat :=
  if c = success then 200
  else if c = invalidInput then 400
  else if c = timeout then 504
  else 500

end Code

inductive Failure where
  | cause (c : Cause)
  | message (t : Text)
  /-- Another failure with text around it. -/
  | within (lead : Text) (inner : Failure) (trail : Text)
  | join (parts : List Failure)
  | coded (code : Code) (message : Text)
  | codedOver (code : Code) (message : Text) (origin : Failure)
  deriving Repr, Inhabited

namespace Failure

/-- The cause followed by what is wrong. -/
def because (c : Cause) (detail : Text) : Failure := within [] (cause c) (": " ++ detail)

/-- Another failure behind a lead. -/
def under (lead : Text) (inner : Failure) : Failure := within (lead ++ ": ") inner []

mutual

def text : Failure → Text
  | cause c => c.text
  | message t => t
  | within lead inner trail => lead ++ inner.text ++ trail
  | join parts => Text.join "\n" (texts parts)
  | coded code msg => "[" ++ code.label ++ "] " ++ msg
  | codedOver code msg origin =>
    let o := origin.text
    let detail : Text := if o = msg then [] else ": " ++ o
    "[" ++ code.label ++ "] " ++ msg ++ detail

def texts : List Failure → List Text
  | [] => []
  | f :: rest => f.text :: texts rest

end

mutual

/-- Whether `c` is the failure itself or is wrapped in it. -/
def has (c : Cause) : Failure → Bool
  | cause d => c = d
  | message _ => false
  | within _ inner _ => inner.has c
  | join parts => anyHas c parts
  | coded _ _ => false
  | codedOver _ _ origin => origin.has c

def anyHas (c : Cause) : List Failure → Bool
  | [] => false
  | f :: rest => f.has c || anyHas c rest

end

/-- A failure as shown to clients. -/
structure Report where
  code : Code
  message : Text
  origin : Option Failure
  deriving Repr

mutual

/-- The outermost and leftmost coded failure. -/
def reported? : Failure → Option Report
  | cause _ => none
  | message _ => none
  | within _ inner _ => inner.reported?
  | join parts => firstReported? parts
  | coded code msg => some ⟨code, msg, none⟩
  | codedOver code msg origin => some ⟨code, msg, some origin⟩

def firstReported? : List Failure → Option Report
  | [] => none
  | f :: rest => (f.reported?).or (firstReported? rest)

end

def code (f : Failure) : Code :=
  match f.reported? with
  | some r => r.code
  | none =>
    if f.has .invalidRequest || f.has .invalidSearch then .invalidInput
    else if f.has .deadline then .timeout
    else .internalError

/-- The failure as shown to clients: one that carries a code already is kept as it is. -/
def report (f : Failure) : Report := f.reported?.getD ⟨f.code, f.text, some f⟩

def Report.failure (r : Report) : Failure :=
  match r.origin with
  | some o => codedOver r.code r.message o
  | none => coded r.code r.message

def Report.status (r : Report) : Nat := r.code.status

end Failure

/-! ### Panics -/

/-- What ends a request without an answer, not even a failure. -/
inductive Panic where
  /-- Room for more than can be addressed is asked for. -/
  | outOfRange
  /-- A function is looked at where there is none. -/
  | absent
  deriving DecidableEq, Repr

def Panic.text : Panic → Text
  | outOfRange => "runtime error: makeslice: cap out of range"
  | absent => "runtime error: invalid memory address or nil pointer dereference"

/-- The code of an outcome that may be a success. -/
def outcomeCode : Option Failure → Code
  | none => .success
  | some f => f.code

end CallerTree
