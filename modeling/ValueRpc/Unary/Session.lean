/-
  ValueRpc.Unary.Session — unary calls between a client and a server, from the arguments of
  `CallFunction` to what it returns, in both directions (`valueclient/client.go`: `invokeUnary`,
  `sendRequest`, `getResponseHandler`, `processResponse`, `serveInboundCall`, `reply`;
  `valueclient/request.go`: `SingleResp`; `valueserver/serving_client.go`: `CallFunction`,
  `completePendingCall`, `processRequest`, `serveNewRequest`, `serveFunctionRequest`,
  `doServeFunctionRequest`, `newRequestContext`).

  Frames are maps. A call stores a record under its id and sends a request; the peer's read
  loop takes it, checks it, and has a goroutine run the handler and send a response, which the
  caller's read loop completes the record with. Handlers return what they like, and callers
  give up when they like. A frame may get lost; the frames of a connection are read in order,
  but nothing is made of that here: `work` has those on their way and the goroutines in one
  list, and any of them may be next. The CancelRequest of a client that gives up is left out:
  all it does is to end the context of a handler. A panic in a handler is caught by the server,
  which then answers nothing, and ends a client's process.

  The two ends check the same things in a different order, in different words, and give their
  handlers different contexts; a caller of either end has its own way to wait.

  The server counts its goroutines (`inFlight`); one that has sent its answer is counted until
  it ends.

  A frame, a goroutine and a run of a handler carry the call they are there for (`Key`), which
  nothing looks at; `runs` and `losses` are records of the run.
-/

import ValueRpc.Call.Sla
import ValueRpc.Core.Envelope
import ValueRpc.Route.Session

namespace ValueRpc.Unary

open Function ValueRpc.Core ValueRpc.Core.Envelope ValueRpc.Core.Verify ValueRpc.Lib
open ValueRpc.Route (Side requestId)

def other : Side → Side
  | .client => .server
  | .server => .client

/-! ## Functions -/

/-- What a `function` or a `clientFunction` is registered with. -/
structure Fn where
  ft : Core.Kind
  args : TypeDef
  res : TypeDef
  deriving DecidableEq, Repr

def ftNum : Core.Kind → Nat
  | .unary => 0
  | .getStream => 1
  | .putStream => 2
  | .chat => 3

structure Ctx where
  metadata : Option Metadata
  principal : Bytes
  timeout : Option Int
  peer : Bool
  deriving DecidableEq, Repr

inductive Out where
  | returns (res : Val)
  | fails (err : Err)
  | panics

structure Cfg where
  d : Envelope.Dialect
  /-- `functionMap` of each end. -/
  functions : Side → Bytes → Option Fn
  /-- Of the session, empty when there is none. -/
  principal : Bytes
  metadataExtractor : Option (Ctx → Metadata → Ctx)
  maxConcurrentRequests : Int
  /-- Empty unless `DebugPayloadInErrors` is set. -/
  valDetail : Val → Bytes

variable (c : Cfg)

/-- The checks of `doServeFunctionRequest` and of `serveInboundCall` once the name is there. -/
def admits (σ : Side) (name : Bytes) (args : Val) : Except RpcError Fn :=
  match c.functions σ name with
  | none => .error ⟨codeNum .notFound, str "function not found " ++ name⟩
  | some fn =>
    match σ with
    | .server =>
      if !verify args fn.args then
        .error ⟨codeNum .invalidArgument, str "function '" ++ name ++ str "' invalid args" ++ c.valDetail args⟩
      else if fn.ft ≠ .unary then
        .error ⟨codeNum .invalidArgument, str "function wrong type " ++ name ++
          str (", expected " ++ toString (ftNum fn.ft)
          ++ ", actual " ++ toString (ftNum .unary))⟩
      else .ok fn
    | .client =>
      -- the kind comes first here
      if fn.ft ≠ .unary then .error ⟨codeNum .invalidArgument, str "function '" ++ name ++ str "' is not unary"⟩
      else if !verify args fn.args then .error ⟨codeNum .invalidArgument,
        str "function '" ++ name ++ str "' invalid args"⟩
      else .ok fn

/-- The context of a handler, from the request's bound and metadata. -/
def handlerCtx (σ : Side) (timeout : Option Int) (md : Option Metadata) : Ctx :=
  match σ with
  | .client => ⟨md, [], none, false⟩
  | .server =>
    let ctx : Ctx := ⟨none, [], timeout, false⟩
    let ctx :=
      match md with
      | none => ctx
      | some md =>
        let ctx := { ctx with metadata := some md }
        match c.metadataExtractor with
        | none => ctx
        | some extract => extract ctx md
    let ctx := if c.principal.isEmpty then ctx else { ctx with principal := c.principal }
    { ctx with peer := true }

/-- What is sent for what a handler did; for a panic nothing. -/
def replyTo (σ : Side) (name : Bytes) (fn : Fn) : Out → Option (Except RpcError Val)
  | .panics => none
  | .fails err => some (.error (handlerError str (str "function " ++ name) err))
  | .returns res =>
    if verify res fn.res then some (.ok res)
    else
      match σ with
      | .server => some (.error ⟨codeNum .internal, str "function '" ++ name ++ str "' invalid results" ++
          c.valDetail res⟩)
      | .client => some (.error ⟨codeNum .internal, str "function '" ++ name ++ str "' invalid result"⟩)

/-! ## Requests and responses -/

structure Request where
  name : Bytes
  args : Val
  metadata : Metadata
  /-- `effectiveTimeout`; a server's call has none. -/
  timeout : Int

def request (σ : Side) (id : Int) (r : Request) : Entries :=
  match σ with
  | .client => withRequestId c.d (constructRequest c.d .functionRequest r.name r.args r.timeout r.metadata) id
  | .server => putMetadata c.d (newFunctionRequest c.d id r.name r.args) r.metadata

def respond (reqId : Number) : Except RpcError Val → Entries
  | .ok res => newFunctionResult c.d reqId res
  | .error e => newFunctionError c.d reqId e

abbrev Reply := Except RpcError Val

/-- A Null result is a void return. -/
def orNil : Val → Val
  | .null => .nil
  | v => v

/-- `processResponse` and `completePendingCall` of a FunctionResponse. -/
def readResult (resp : Entries) : Reply := .ok (orNil (Val.get resp (c.d.field .result)))

def readError (resp : Entries) : Reply :=
  .error {
    code :=
      match getNumberField (msg resp) (c.d.field .code) with
      | some code => Int32.ofInt code.long
      | none => codeNum .unknown
    message := (getStringField (msg resp) (c.d.field .error)).getD [] }

/-! ## Serving -/

structure Handling where
  reqId : Number
  name : Bytes
  fn : Fn
  ctx : Ctx
  args : Val

/-- A frame on its way, or a goroutine that serves a request. -/
inductive Work where
  | frame (dst : Side) (m : Entries)
  /-- A goroutine of `serveNewRequest`, before `doServeFunctionRequest`. -/
  | spawned (req : Entries)
  | handling (σ : Side) (h : Handling)

def Work.serves (σ : Side) : Work → Bool
  | .frame _ _ => false
  | .spawned _ => decide (σ = .server)
  | .handling τ _ => decide (σ = τ)

/-- What `newRequestContext` makes of the request's bound. -/
def requestTimeout (req : Entries) : Option Int :=
  match getNumberField (msg req) (c.d.field .timeout) with
  | some sla => if 0 < sla.long then some (Call.Sla.duration sla.long) else none
  | none => none

/-- Serving a request up to the handler: an answer, or the handler's goroutine. -/
def serve (σ : Side) (reqId : Number) (req : Entries) : Except Entries Handling :=
  match getStringField (msg req) (c.d.field .functionName) with
  | none => .error (newFunctionError c.d reqId ⟨codeNum .invalidArgument, str "function name field not found"⟩)
  | some name =>
    let args := Val.get req (c.d.field .arguments)
    match admits c σ name args with
    | .error e => .error (newFunctionError c.d reqId e)
    | .ok fn => .ok ⟨reqId, name, fn, handlerCtx c σ (requestTimeout c req) (decodeMetadata c.d req), args⟩

/-- `doServeFunctionRequest` of a unary function; without an id the answer goes to 0. -/
def doServeFunctionRequest (req : Entries) : Except Entries Handling :=
  serve c .server ((getNumberField (msg req) (c.d.field .requestId)).getD ⟨0, .fin 0⟩) req

inductive Action where
  /-- Nothing, or the error is logged. -/
  | ignores
  | completes (reqId : Int) (r : Reply)
  | refuses (resp : Entries)
  | runs (x : Work)

def serveInboundCall (req : Entries) : Action :=
  match getNumberField (msg req) (c.d.field .requestId) with
  | none => .ignores
  | some reqId =>
    match serve c .client reqId req with
    | .error resp => .refuses resp
    | .ok h => .runs (.handling .client h)

/-- `getResponseHandler`, of a client that has no streams. -/
def getResponseHandler (resp : Entries) : Action :=
  match getNumberField (msg resp) (c.d.field .messageType) with
  | none => .ignores
  | some mt =>
    if mt.long = MessageType.handshakeResponse.num then .ignores
    else if mt.long = MessageType.functionRequest.num then serveInboundCall c resp
    else
      match getNumberField (msg resp) (c.d.field .requestId) with
      | none => .ignores
      | some id =>
        if mt.long = MessageType.functionResponse.num then .completes id.long (readResult c resp)
        else if mt.long = MessageType.errorResponse.num then .completes id.long (readError c resp)
        else .ignores

def busy : RpcError :=
  ⟨codeNum .resourceExhausted,
    str ("server busy: too many concurrent requests (max " ++ toString c.maxConcurrentRequests ++ ")")⟩

/-- `serveNewRequest` of a FunctionRequest, with `inFlight` handlers at work. -/
def serveNewRequest (inFlight : Nat) (req : Entries) : Action :=
  if 0 < c.maxConcurrentRequests ∧ c.maxConcurrentRequests < inFlight + 1 then
    match getNumberField (msg req) (c.d.field .requestId) with
    | some reqId => .refuses (functionError c.d reqId (busy c))
    | none => .ignores
  else .runs (.spawned req)

/-- `processRequest`, of a session that has no streams. -/
def processRequest (inFlight : Nat) (req : Entries) : Action :=
  match getNumberField (msg req) (c.d.field .messageType) with
  | none => .ignores
  | some mt =>
    match getNumberField (msg req) (c.d.field .requestId) with
    | none => .ignores
    | some reqId =>
      if mt.long = MessageType.functionResponse.num then .completes reqId.long (readResult c req)
      else if mt.long = MessageType.errorResponse.num then .completes reqId.long (readError c req)
      else if mt.long = MessageType.cancelRequest.num then .ignores -- the handler's context shows it
      else if mt.long = MessageType.functionRequest.num then serveNewRequest c inFlight req
      else .ignores

def reads (σ : Side) (inFlight : Nat) (m : Entries) : Action :=
  match σ with
  | .client => getResponseHandler c m
  | .server => processRequest c inFlight m

/-! ## The ends -/

/-- Errors of the caller's own end. -/
inductive GaveUp where
  | canceled
  | deadlineExceeded
  | timeout
  | closed
  deriving DecidableEq, Repr

inductive Status where
  | waiting (got : Option Reply)
  | returned (r : Reply)
  | gaveUp (err : GaveUp)

structure Call where
  req : Request
  status : Status

/-- The call that a frame, a goroutine or a run is there for. -/
abbrev Key := Side × Nat

structure Run where
  side : Side
  name : Bytes
  ctx : Ctx
  args : Val
  out : Out

structure St where
  calls : Side → List Call
  /-- `requestCtxMap`, `pendingCalls`. -/
  pending : Side × Int → Option Nat
  work : List (Key × Work)
  /-- Goroutines of the server behind their `t.send`, before `inFlight.Add(-1)`. -/
  leaving : Nat
  runs : List (Key × Run)
  losses : Nat

def start : St := ⟨fun _ => [], fun _ => none, [], 0, [], 0⟩

def St.inFlight (s : St) : Nat := (s.work.countP fun x => x.2.serves .server) + s.leaving

def sends (σ : Side) (m : Entries) : Work := .frame σ (Val.wireEntries m)

def St.add (s : St) (k : Key) (x : Work) : St := { s with work := s.work ++ [(k, x)] }

def St.drop (s : St) (j : Nat) : St := { s with work := s.work.eraseIdx j }

def St.put (s : St) (j : Nat) (k : Key) (x : Work) : St := { s with work := s.work.set j (k, x) }

def St.addRun (s : St) (k : Key) (r : Run) : St := { s with runs := s.runs ++ [(k, r)] }

def St.lost (s : St) : St := { s with losses := s.losses + 1 }

/-- A goroutine of `σ` has sent its answer. -/
def St.leave (s : St) : Side → St
  | .client => s
  | .server => { s with leaving := s.leaving + 1 }

def St.addCall (s : St) (σ : Side) (i : Nat) (req : Request) : St :=
  { s with
    calls := update s.calls σ (s.calls σ ++ [⟨req, .waiting none⟩])
    pending := update s.pending (σ, requestId σ (i + 1)) (some i) }

def St.modifyCall (s : St) (σ : Side) (i : Nat) (f : Call → Call) : St :=
  { s with calls := update s.calls σ ((s.calls σ).modify i f) }

def St.forget (s : St) (σ : Side) (id : Int) : St := { s with pending := update s.pending (σ, id) none }

def Call.got (r : Reply) (call : Call) : Call :=
  match call.status with
  | .waiting _ => { call with status := .waiting (some r) }
  | _ => call

/-- `SingleResp` on a timer prefers the error the record has. -/
def timedOut : Option Reply → Status
  | some (.error e) => .returned (.error e)
  | _ => .gaveUp .timeout

def mayGiveUp : Side → GaveUp → Bool
  | .client, .closed => false
  | .server, .timeout => false
  | _, _ => true

inductive Ev where
  | call (σ : Side) (req : Request)
  | recv (j : Nat)
  | serve (j : Nat)
  | finish (j : Nat) (out : Out)
  /-- A goroutine of the server ends: `inFlight.Add(-1)`. -/
  | ends
  | take (σ : Side) (i : Nat)
  | giveUp (σ : Side) (i : Nat) (err : GaveUp)
  | lose (j : Nat)

/-- The record is taken out, and its call gets the reply. -/
def St.complete (s : St) (σ : Side) (id : Int) (r : Reply) : St :=
  match s.pending (σ, id) with
  | none => s
  | some i => (s.forget σ id).modifyCall σ i (Call.got r)

def act (s : St) (j : Nat) (σ : Side) (k : Key) : Action → St
  | .ignores => s.drop j
  | .completes id r => (s.drop j).complete σ id r
  | .refuses resp => s.put j k (sends (other σ) resp)
  | .runs x => s.put j k x

def step (s : St) : Ev → Option St
  | .call σ req =>
    let i := (s.calls σ).length
    some ((s.addCall σ i req).add (σ, i) (sends (other σ) (request c σ (requestId σ (i + 1)) req)))
  | .recv j =>
    match s.work[j]? with
    | some (k, .frame σ m) => some (act s j σ k (reads c σ s.inFlight m))
    | _ => none
  | .serve j =>
    match s.work[j]? with
    | some (k, .spawned req) =>
      match doServeFunctionRequest c req with
      | .error resp => some ((s.put j k (sends .client resp)).leave .server)
      | .ok h => some (s.put j k (.handling .server h))
    | _ => none
  | .finish j out =>
    match s.work[j]? with
    | some (k, .handling σ h) =>
      let s' := s.addRun k ⟨σ, h.name, h.ctx, h.args, out⟩
      match replyTo c σ h.name h.fn out with
      | some sent => some ((s'.put j k (sends (other σ) (respond c h.reqId sent))).leave σ)
      | none =>
        match σ with
        | .client => none
        | .server => some (s'.drop j).lost
    | _ => none
  | .ends =>
    match s.leaving with
    | 0 => none
    | n + 1 => some { s with leaving := n }
  | .take σ i =>
    match (s.calls σ)[i]? with
    | some ⟨_, .waiting (some r)⟩ => some (s.modifyCall σ i fun call => { call with status := .returned r })
    | _ => none
  | .giveUp σ i err =>
    match (s.calls σ)[i]? with
    | some ⟨_, .waiting got⟩ =>
      if mayGiveUp σ err then
        let id := requestId σ (i + 1)
        let s' := s.modifyCall σ i fun call => { call with
          status := if err = .timeout then timedOut got else .gaveUp err }
        match σ with
        | .client => some s'
        | .server => some (s'.forget .server id)
      else none
    | _ => none
  | .lose j =>
    match s.work[j]? with
    | some (_, .frame _ _) => some (s.drop j).lost
    | _ => none

def sys : Sys St Ev := ⟨fun s => s = start, step c⟩

/-- An end makes fewer calls than there are ids. -/
def ok (s : St) : Ev → Prop
  | .call σ _ => ((s.calls σ).length + 1 : Nat) < 2 ^ 63
  | _ => True

instance (s : St) (e : Ev) : Decidable (ok s e) :=
  match e with
  | .call σ _ => inferInstanceAs (Decidable (((s.calls σ).length + 1 : Nat) < 2 ^ 63))
  | .recv _ | .serve _ | .finish _ _ | .ends | .take _ _ | .giveUp _ _ _ | .lose _ => .isTrue trivial

end ValueRpc.Unary
