/-
  ValueRpc.Unary.Frames — what each end makes of the other's frames (see
  `ValueRpc.Unary.Session`).

  For every frame an end sends there is one lemma that says what the read loop of its peer
  does with it, in terms of the call and of the reply and no more of fields.
-/

import ValueRpc.Unary.Session

namespace ValueRpc.Unary

open ValueRpc.Core ValueRpc.Core.Envelope ValueRpc.Core.Verify
open ValueRpc.Route (Side requestId)

variable {c : Cfg}

/-- `value.Long(id)` as the peer reads it. -/
def num (id : Int) : Number := ⟨id, .fin id⟩

theorem long_eq (id : Int) : long id = .number (num id) := rfl

/-- The reply a caller gets, from what its peer sent. -/
def received : Except RpcError Val → Reply
  | .ok res => .ok (orNil res.wire)
  | .error e => .error e

def ctxOf (c : Cfg) (σ : Side) (r : Request) : Ctx :=
  handlerCtx c (other σ) (if 0 < r.timeout then some (Call.Sla.duration r.timeout) else none)
    (if r.metadata.isEmpty then none else some r.metadata)

def handlingOf (c : Cfg) (σ : Side) (id : Int) (r : Request) (fn : Fn) : Handling :=
  ⟨num id, r.name, fn, ctxOf c σ r, r.args.wire⟩

/-- The fields of a request; a server leaves nil arguments out, and sends no bound. -/
def requestField (σ : Side) (id : Int) (r : Request) : FieldName → Val
  | .messageType => long MessageType.functionRequest.num
  | .requestId => long id
  | .functionName => .string r.name
  | .arguments =>
    match σ, r.args with
    | .server, .nil => .null
    | _, args => args
  | .timeout =>
    match σ with
    | .client => if 0 < r.timeout then long r.timeout else .null
    | .server => .null
  | .metadata => metadataVal r.metadata
  | _ => .null

/-- The fields of a response; a nil result is left out. -/
def respondField (id : Int) : Except RpcError Val → FieldName → Val
  | _, .requestId => long id
  | .ok _, .messageType => long MessageType.functionResponse.num
  | .ok .nil, .result => .null
  | .ok res, .result => res
  | .error _, .messageType => long MessageType.errorResponse.num
  | .error e, .code => long e.code.toInt
  | .error e, .error => .string e.message
  | _, _ => .null

theorem wire_arguments (σ : Side) (id : Int) (r : Request) :
    (requestField σ id r .arguments).wire = r.args.wire := by
  obtain ⟨name, args, md, timeout⟩ := r
  cases σ <;> cases args <;> rfl

section

variable (h : c.d.Distinct)
include h

theorem get_request (σ : Side) (id : Int) (r : Request) (b : FieldName) :
    Val.get (Val.wireEntries (request c σ id r)) (c.d.field b) = (requestField σ id r b).wire := by
  rw [get_wire]
  congr 1
  obtain ⟨name, args, md, timeout⟩ := r
  cases σ with
  | client =>
    simp only [request, withRequestId, constructRequest, get_put_field h]
    rw [get_putMetadata h]
    · by_cases ht : 0 < timeout <;> cases b <;> simp [ht, requestField, get_put_field h]
    · by_cases ht : 0 < timeout <;> simp [ht, get_put_field h]
  | server =>
    simp only [request, newFunctionRequest]
    rw [get_putMetadata h]
    · cases b <;> cases args <;> simp [requestField, get_put_field h]
    · cases args <;> simp [get_put_field h]

/-- A request comes to the checks with its name and arguments, and to the handler with its context. -/
theorem serve_request (σ : Side) (id : Int) (r : Request) :
    serve c (other σ) (num id) (Val.wireEntries (request c σ id r)) =
    match admits c (other σ) r.name r.args.wire with
    | .error e => .error (respond c (num id) (.error e))
    | .ok fn => .ok (handlingOf c σ id r fn) := by
  have hn : getStringField (msg (Val.wireEntries (request c σ id r))) (c.d.field .functionName) = some r.name := by
    rw [getStringField_msg, get_request h]
    rfl
  have ha : Val.get (Val.wireEntries (request c σ id r)) (c.d.field .arguments) = r.args.wire := by
    rw [get_request h, wire_arguments]
  have hm : decodeMetadata c.d
    (Val.wireEntries (request c σ id r)) = if r.metadata.isEmpty then none else some r.metadata :=
    decodeMetadata_of (get_request h σ id r .metadata)
  have hc : handlerCtx c (other σ) (requestTimeout c (Val.wireEntries (request c σ id r)))
      (decodeMetadata c.d (Val.wireEntries (request c σ id r))) = ctxOf c σ r := by
    rw [hm, ctxOf]
    cases σ with
    | server => rfl
    | client =>
      have ht : requestTimeout c (Val.wireEntries (request c .client id r)) =
          if 0 < r.timeout then some (Call.Sla.duration r.timeout) else none := by
        rw [requestTimeout, getNumberField_msg, get_request h]
        by_cases ht : 0 < r.timeout
        · simp [requestField, ht, long_eq, num]
        · simp [requestField, ht]
      rw [ht]
  unfold serve
  simp only [hn, ha, hc]
  cases admits c (other σ) r.name r.args.wire with
  | error e => rfl
  | ok fn => rfl

theorem doServe_request (id : Int) (r : Request) :
    doServeFunctionRequest c (Val.wireEntries (request c .client id r)) =
    match admits c .server r.name r.args.wire with
    | .error e => .error (respond c (num id) (.error e))
    | .ok fn => .ok (handlingOf c .client id r fn) := by
  have hid : getNumberField (msg (Val.wireEntries (request c .client id r))) (c.d.field .requestId) = some
    (num id) := by
    rw [getNumberField_msg, get_request h]
    rfl
  unfold doServeFunctionRequest
  rw [hid]
  exact serve_request h .client id r

/-- What a read loop does with a request. -/
theorem reads_request (σ : Side) (n : Nat) (id : Int) (r : Request) :
    reads c (other σ) n (Val.wireEntries (request c σ id r)) =
    match σ with
    | .client =>
      if 0 < c.maxConcurrentRequests ∧
        c.maxConcurrentRequests < n + 1 then .refuses (respond c (num id) (.error (busy c)))
      else .runs (.spawned (Val.wireEntries (request c .client id r)))
    | .server =>
      match admits c .client r.name r.args.wire with
      | .error e => .refuses (respond c (num id) (.error e))
      | .ok fn => .runs (.handling .client (handlingOf c .server id r fn)) := by
  have hid : getNumberField (msg (Val.wireEntries (request c σ id r))) (c.d.field .requestId) = some (num id) := by
    rw [getNumberField_msg, get_request h]
    rfl
  have hmt : getNumberField (msg (Val.wireEntries (request c σ id r))) (c.d.field .messageType) =
      some (num MessageType.functionRequest.num) := by
    rw [getNumberField_msg, get_request h]
    rfl
  cases σ with
  | client =>
    simp only [reads, other, processRequest, hmt, hid, num, serveNewRequest]
    rfl
  | server =>
    have hs := serve_request h .server id r
    simp only [reads, other, getResponseHandler, hmt, serveInboundCall, hid] at hs ⊢
    rw [hs]
    cases admits c .client r.name r.args.wire with
    | error e => rfl
    | ok fn => rfl

theorem get_respond (id : Int) (sent : Except RpcError Val) (b : FieldName) :
    Val.get (Val.wireEntries (respond c (num id) sent)) (c.d.field b) = (respondField id sent b).wire := by
  rw [get_wire]
  congr 1
  cases sent with
  | ok res => cases b <;> cases res <;> simp [respond, respondField, newFunctionResult, get_put_field h, long_eq]
  | error e => cases b <;> simp [respond, respondField, newFunctionError, get_put_field h, long_eq]

/-- A response completes the call of its id. -/
theorem reads_respond (σ : Side) (n : Nat) (id : Int) (sent : Except RpcError Val) :
    reads c σ n (Val.wireEntries (respond c (num id) sent)) = .completes id (received sent) := by
  have hid : getNumberField (msg (Val.wireEntries (respond c (num id) sent))) (c.d.field .requestId) = some
    (num id) := by
    rw [getNumberField_msg, get_respond h]
    cases sent <;> rfl
  cases sent with
  | ok res =>
    have hmt : getNumberField (msg (Val.wireEntries (respond c (num id) (.ok res)))) (c.d.field .messageType) =
        some (num MessageType.functionResponse.num) := by
      rw [getNumberField_msg, get_respond h]
      rfl
    have hr : readResult c (Val.wireEntries (respond c (num id) (.ok res))) = received (.ok res) := by
      rw [readResult, get_respond h, received]
      cases res <;> rfl
    cases σ <;> simp only [reads, getResponseHandler, processRequest, hmt, hid, hr] <;> rfl
  | error e =>
    have hmt : getNumberField (msg (Val.wireEntries (respond c (num id) (.error e)))) (c.d.field .messageType) =
        some (num MessageType.errorResponse.num) := by
      rw [getNumberField_msg, get_respond h]
      rfl
    have hr : readError c (Val.wireEntries (respond c (num id) (.error e))) = received (.error e) := by
      simp only [readError, getNumberField_msg, getStringField_msg, get_respond h, respondField, wire_long,
        wire_string]
      simp only [long, Int32.ofInt_toInt, Option.getD_some, received]
    cases σ <;> simp only [reads, getResponseHandler, processRequest, hmt, hid, hr] <;> rfl

end

end ValueRpc.Unary
