/-
  ValueRpc.Core.Envelope — the messages of a unary call as maps (`valuerpc/protocol.go`:
  `MessageType`, `Dialect`; `valuerpc/peer.go`: `NewFunctionRequest`, `NewFunctionResult`,
  `NewFunctionError`, `HandlerErrorCode`, `NewHandlerError`; `valuerpc/metadata.go`;
  `valueserver/serving_client.go`: `FunctionError`, `handlerErrCode`, `handlerError`;
  `valueclient/client.go`: `constructRequest`).

  A message is built field by field, packed, and read field by field at the other end, where
  each value is what the wire made of it. The names of the fields are the dialect's; all that
  is asked of them is that they differ (`Dialect.Distinct`). A Go string is its bytes, a
  `Code` an int32.

  `get_put_field` is all that proofs know of building, and `decodeMetadata_of` says that
  metadata come back.
-/

import ValueRpc.Core.Error
import ValueRpc.Core.MessageType
import ValueRpc.Core.Verify

namespace ValueRpc.Core.Envelope

open Verify

def str (s : String) : Bytes := s.toList.flatMap String.utf8EncodeChar

/-! ## Maps -/

abbrev Entries := List (String × Val)

def put (m : Entries) (field : String) (v : Val) : Entries := (field, v) :: m.filter fun e => e.1 != field

def long (n : Int) : Val := .number ⟨n, .fin n⟩

theorem lookup_filter (m : Entries) {field k : String} (h : k ≠ field) :
    (m.filter fun e => e.1 != field).lookup k = m.lookup k := by
  induction m with
  | nil => rfl
  | cons e m ih =>
    obtain ⟨key, v⟩ := e
    by_cases hk : key = field
    · subst hk
      have : (k == key) = false := by simpa using h
      simp [List.lookup_cons, ih, this]
    · simp [List.lookup_cons, hk, ih]

theorem get_put (m : Entries) (field k : String) (v : Val) :
    Val.get (put m field v) k = if k = field then v else Val.get m k := by
  by_cases h : k = field
  · subst h
    simp [put, Val.get]
  · have : (k == field) = false := by simpa using h
    simp [put, Val.get, List.lookup_cons, this, lookup_filter m h, h]

/-- How a message shows to `GetNumberField` and `GetStringField`. -/
def msg (m : Entries) : Msg := fun field =>
  match Val.get m field with
  | .nil | .null => .absent
  | .number n => .number n
  | .string s => .string s
  | _ => .other 0

theorem getNumberField_msg (m : Entries) (field : String) : getNumberField (msg m) field =
    match Val.get m field with
    | .number n => some n
    | _ => none := by
  unfold getNumberField msg
  cases Val.get m field <;> rfl

theorem getStringField_msg (m : Entries) (field : String) : getStringField (msg m) field =
    match Val.get m field with
    | .string s => some s
    | _ => none := by
  unfold getStringField msg
  cases Val.get m field <;> rfl

/-! ## The dialect -/

/-- The fields of a `Dialect` that a unary call reads. -/
inductive FieldName where
  | messageType
  | requestId
  | timeout
  | functionName
  | arguments
  | result
  | error
  | code
  | metadata
  deriving DecidableEq, Repr

structure Dialect where
  /-- `MessageTypeField`, `RequestIdField` and so on. -/
  field : FieldName → String

def Dialect.Distinct (d : Dialect) : Prop := ∀ a b, d.field a = d.field b → a = b

def newDialect : Dialect where
  field
    | .messageType => "t"
    | .requestId => "rid"
    | .timeout => "sla"
    | .functionName => "fn"
    | .arguments => "args"
    | .result => "res"
    | .error => "err"
    | .code => "code"
    | .metadata => "md"

theorem newDialect_distinct : newDialect.Distinct := by
  intro a b
  cases a <;> cases b <;> decide

/-! ## Errors -/

def codeNum : Code → Int32
  | .ok => 0
  | .unknown => 1
  | .canceled => 2
  | .invalidArgument => 3
  | .deadlineExceeded => 4
  | .notFound => 5
  | .resourceExhausted => 6
  | .unavailable => 7
  | .unauthenticated => 8
  | .internal => 9

instance : OfCode Int32 := ⟨codeNum⟩

abbrev RpcError := ErrorOf Int32 Bytes

abbrev Err := FailureOf Int32 Bytes

/-! ## Metadata -/

/-- A Go map: keys are distinct, and their order is nobody's. -/
abbrev Metadata := List (String × Bytes)

def encodeMetadata (md : Metadata) : Option Entries :=
  if md.isEmpty then none else some (md.map fun e => (e.1, .string e.2))

/-- `DecodeMetadata`: what is not a string is left out. -/
def decodeMetadata (d : Dialect) (req : Entries) : Option Metadata :=
  match Val.get req (d.field .metadata) with
  | .map hm =>
    if hm.isEmpty then none
    else some (hm.filterMap fun e =>
      match e.2 with
      | .string s => some (e.1, s)
      | _ => none)
  | _ => none

def putMetadata (d : Dialect) (req : Entries) (md : Metadata) : Entries :=
  match encodeMetadata md with
  | some m => put req (d.field .metadata) (.map m)
  | none => req

/-! ## Builders -/

variable (d : Dialect)

/-- `constructRequest`, with what the injector made of the caller's context. -/
def constructRequest (mt : MessageType) (name : Bytes) (args : Val) (timeout : Int) (md : Metadata) : Entries :=
  let req := put (put (put [] (d.field .messageType) (long mt.num)) (d.field .functionName) (.string name))
    (d.field .arguments) args
  let req := if 0 < timeout then put req (d.field .timeout) (long timeout) else req
  putMetadata d req md

def withRequestId (req : Entries) (requestId : Int) : Entries := put req (d.field .requestId) (long requestId)

def newFunctionRequest (requestId : Int) (name : Bytes) (args : Val) : Entries :=
  let req := put (put (put [] (d.field .messageType) (long MessageType.functionRequest.num))
    (d.field .requestId) (long requestId))
    (d.field .functionName) (.string name)
  match args with
  | .nil => req
  | args => put req (d.field .arguments) args

def newFunctionResult (requestId : Number) (result : Val) : Entries :=
  let resp := put (put [] (d.field .messageType) (long MessageType.functionResponse.num))
    (d.field .requestId) (.number requestId)
  match result with
  | .nil => resp
  | result => put resp (d.field .result) result

def newFunctionError (requestId : Number) (e : RpcError) : Entries :=
  put (put (put (put [] (d.field .messageType) (long MessageType.errorResponse.num)) (d.field .requestId)
    (.number requestId))
    (d.field .code) (long e.code.toInt)) (d.field .error) (.string e.message)

def functionError (requestId : Number) (e : RpcError) : Entries := newFunctionError d requestId e

/-! ## Reading what was built -/

variable {d}

theorem get_put_field (h : d.Distinct) (m : Entries) (a b : FieldName) (v : Val) :
    Val.get (put m (d.field a) v) (d.field b) = if b = a then v else Val.get m (d.field b) := by
  rw [get_put]
  by_cases hb : b = a
  · rw [if_pos hb, if_pos (congrArg d.field hb)]
  · rw [if_neg hb, if_neg fun he => hb (h _ _ he)]

@[simp] theorem get_nil (k : String) : Val.get [] k = .null := rfl

@[simp] theorem wire_long (n : Int) : (long n).wire = long n := rfl

@[simp] theorem wire_string (s : Bytes) : (Val.string s).wire = .string s := rfl

@[simp] theorem wire_number (n : Number) : (Val.number n).wire = .number n := rfl

@[simp] theorem wire_null : Val.null.wire = .null := rfl

theorem wireEntries_strings (md : Metadata) :
    Val.wireEntries (md.map fun e => (e.1, Val.string e.2)) = md.map fun e => (e.1, Val.string e.2) := by
  induction md with
  | nil => rfl
  | cons e md ih => simp [Val.wireEntries, ih]

/-- The metadata field: Null when there are none. -/
def metadataVal (md : Metadata) : Val := (encodeMetadata md).elim .null .map

theorem get_putMetadata (h : d.Distinct) {m : Entries} (hm : Val.get m (d.field .metadata) = .null)
    (md : Metadata) (b : FieldName) :
    Val.get (putMetadata d m md) (d.field b) = if b = .metadata then metadataVal md else Val.get m (d.field b) := by
  unfold putMetadata metadataVal
  cases encodeMetadata md with
  | some e => rw [get_put_field h]; rfl
  | none =>
    by_cases hb : b = .metadata
    · rw [if_pos hb, hb, hm]; rfl
    · rw [if_neg hb]

theorem strings_filterMap (md : Metadata) : ((md.map fun e => (e.1, Val.string e.2)).filterMap fun e =>
    match e.2 with
    | .string s => some (e.1, s)
    | _ => none) = md := by
  induction md with
  | nil => rfl
  | cons e md ih => simp [ih]

/-- Metadata come back as they were sent, and nil when there were none. -/
theorem decodeMetadata_of {m : Entries} {md : Metadata}
    (hm : Val.get m (d.field .metadata) = (metadataVal md).wire) :
    decodeMetadata d m = if md.isEmpty then none else some md := by
  unfold decodeMetadata
  rw [hm]
  cases md with
  | nil => rfl
  | cons e md =>
    have hw := wireEntries_strings (e :: md)
    have hf := strings_filterMap (e :: md)
    simp only [List.map_cons] at hw hf
    simp [metadataVal, encodeMetadata, Val.wire, hw, hf]

end ValueRpc.Core.Envelope
