/-
  ValueRpc.Core.Error — errors and their codes (`valuerpc/error.go`: `Error`, `CodeOf`;
  `valuerpc/peer.go`: `HandlerErrorCode`, `NewHandlerError`; `valueserver/serving_client.go`:
  `handlerErrCode`, `handlerError`).

  A code is one of the source's, or any number where it comes off the wire, and a text is a
  string or bytes.
-/

namespace ValueRpc.Core

inductive Code where
  | ok
  | unknown
  | canceled
  | invalidArgument
  | deadlineExceeded
  | notFound
  | resourceExhausted
  | unavailable
  | unauthenticated
  | internal
  deriving DecidableEq, Repr

class OfCode (κ : Type) where
  ofCode : Code → κ

export OfCode (ofCode)

instance : OfCode Code := ⟨id⟩

/-- A `*valuerpc.Error`. -/
structure ErrorOf (κ τ : Type) where
  code : κ
  message : τ
  deriving DecidableEq, Repr

abbrev Error := ErrorOf Code String

/-- An error, by what the code asks about it. -/
inductive FailureOf (κ τ : Type) where
  | coded (e : ErrorOf κ τ)
  /-- Another error, with a `*valuerpc.Error` in its chain. -/
  | wraps (text : τ) (e : ErrorOf κ τ)
  | canceled
  | deadlineExceeded
  | timeout
  | noResponse
  | other (text : τ)
  deriving DecidableEq, Repr

abbrev Failure := FailureOf Code String

section

variable {κ τ : Type} [OfCode κ]

def codeOf : Option (FailureOf κ τ) → κ
  | none => ofCode .ok
  | some (.coded e) => e.code
  | some (.wraps _ e) => e.code
  | some _ => ofCode .unknown

/-- A `*valuerpc.Error` that says Unknown says nothing. -/
def handlerErrorCode [DecidableEq κ] (err : FailureOf κ τ) : κ :=
  if codeOf (some err) ≠ ofCode .unknown then codeOf (some err)
  else
    match err with
    | .deadlineExceeded => ofCode .deadlineExceeded
    | .canceled => ofCode .canceled
    | _ => ofCode .internal

/-- The server has its own copy. -/
def handlerErrCode [DecidableEq κ] (err : FailureOf κ τ) : κ := handlerErrorCode err

/-- The text in an answer: of a `*valuerpc.Error` the message alone. -/
def FailureOf.text (str : String → τ) : FailureOf κ τ → τ
  | .coded e => e.message
  | .wraps text _ => text
  | .canceled => str "context canceled"
  | .deadlineExceeded => str "context deadline exceeded"
  | .timeout => str "timeout error"
  | .noResponse => str "no response"
  | .other text => text

def newHandlerError [DecidableEq κ] [Append τ] (str : String → τ) (place : τ) (err : FailureOf κ τ) : ErrorOf κ τ :=
  ⟨handlerErrorCode err, place ++ str ": " ++ err.text str⟩

def handlerError [DecidableEq κ] [Append τ] (str : String → τ) (place : τ) (err : FailureOf κ τ) : ErrorOf κ τ :=
  ⟨handlerErrCode err, place ++ str ": " ++ err.text str⟩

end

end ValueRpc.Core
