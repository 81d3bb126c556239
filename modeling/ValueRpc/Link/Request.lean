/-
  ValueRpc.Link.Request — a request of the client on both ends of a connection that stays up
  (`valueclient/client.go`: `invokeUnary`, `GetStream`, `PutStream`, `Chat`, `watchContext`,
  `streamOut`, `CancelRequest`, `processResponse`; `valueclient/request.go`: `SingleResp`,
  `Close`, `TryGetClose`, `TryPutClose`; `valueserver/serving_client.go`: `processRequest`,
  `serveNewRequest`, `serveFunctionRequest`; `valueserver/serving_request.go`:
  `serveRunningRequest`, `closeRequest`, `outgoingStreamer`).

  The client's goroutines are the caller up to the end of `SingleResp` and what follows it,
  the one of `watchContext`, and `streamOut`; its response loop reads `s2c`. The server's are
  the one that runs the handler and the streamer; its read loop reads `c2s`. A queue, a
  socket and a read loop of one direction are one FIFO. Timers and contexts fire at any time,
  and so do explicit cancels; a handler returns, fails or panics when it likes, and the
  limits refuse what they like.

  The credit is left out: an open gate lets a sender through at any time. A teardown and the
  handling of a frame are one step, and so are `TryPutClose` and the Delete behind it.

  The requests of a session share nothing but the order of their frames, so a session is all
  of them side by side (`session`).
-/

import ValueRpc.Lib.Runs
import ValueRpc.Route.Session

namespace ValueRpc.Link.Request

open ValueRpc.Lib
open ValueRpc.Core (Kind MessageType Statement)

inductive ToServer where
  | request
  | cancel
  | value
  | fin
  | credit
  deriving DecidableEq, Repr

inductive ToClient where
  | result
  | error
  | ready
  | value
  | fin
  | credit
  deriving DecidableEq, Repr

def ToClient.last : ToClient → Bool
  | .result | .error | .fin => true
  | _ => false

/-! ## The client -/

structure Ctx where
  inMap : Bool
  getClosed : Bool
  putClosed : Bool
  /-- `closeResult` ran: `done`, the gate and the result channel are closed. -/
  done : Bool
  cancelOnce : Bool
  /-- The caller's result, or the ack, is in the result channel. -/
  acked : Bool
  deriving DecidableEq, Repr

namespace Ctx

def close (r : Ctx) : Ctx := { r with getClosed := true, putClosed := true, done := true }

def delete (r : Ctx) : Ctx := { r with inMap := false }

def tryGetClose (kind : Kind) (r : Ctx) : Ctx × Bool :=
  ({ r with getClosed := true, done := true }, if kind = .chat then r.putClosed else true)

def tryPutClose (kind : Kind) (r : Ctx) : Ctx × Bool :=
  if kind = .putStream then ({ r with putClosed := true, done := true },
    true) else ({ r with putClosed := true }, r.getClosed)

/-- `if requestCtx.Try…Close() { requestCtxMap.Delete }`. -/
def deleteIf (p : Ctx × Bool) : Ctx := if p.2 then p.1.delete else p.1

def notifyResult (r : Ctx) : Ctx := { r with acked := r.acked || !r.done }

/-- The request as a whole is finished. -/
def isClosed (kind : Kind) (r : Ctx) : Bool := if kind = .chat then r.getClosed && r.putClosed else r.done

end Ctx

def ToClient.type : ToClient → MessageType
  | .result => .functionResponse
  | .error => .errorResponse
  | .ready => .streamReady
  | .value => .streamValue
  | .fin => .streamEnd
  | .credit => .streamCredit

def Ctx.runs (kind : Kind) (x : Ctx × List ToServer) : Statement → Ctx × List ToServer
  | .notifyResult => (x.1.notifyResult, x.2)
  | .cancelOnce =>
    -- a value for a closed request counts as an overrun, and is reported once
    if x.1.done && !x.1.cancelOnce then ({ x.1 with cancelOnce := true }, x.2 ++ [.cancel]) else x
  | .close => (x.1.close, x.2)
  | .delete => (x.1.delete, x.2)
  | .tryGetClose => (Ctx.deleteIf (x.1.tryGetClose kind), x.2)
  | .notifyPayload | .setError | .grant => x

def processResponse (kind : Kind) (r : Ctx) (f : ToClient) : Ctx × List ToServer :=
  (Core.processResponse f.type).foldl (Ctx.runs kind) (r, [])

inductive Caller where
  | fresh
  /-- The record is stored, the request not sent. -/
  | sending
  | waiting
  | leaving
  | returned
  | established
  deriving DecidableEq, Repr

inductive Watch where
  | off
  | watching
  | cancelled
  | ended
  deriving DecidableEq, Repr

inductive Out where
  | off
  | check
  | recv
  | acquire
  | send
  /-- Out of the loop, before `TryPutClose`. -/
  | leave
  | ended
  deriving DecidableEq, Repr

structure Client where
  caller : Caller
  watch : Watch
  out : Out
  ctx : Ctx
  heard : Bool
  deriving DecidableEq, Repr

inductive ClientEv where
  | issue
  | send
  | ack
  | refused
  | timeout
  | abort
  | watchCancel
  | watchClose
  | watchDone
  | cancel
  | grant
  | outCheck
  | outRecv
  | outClosed
  | outAcquire
  | outSend
  | outLeave
  deriving DecidableEq, Repr

/-- What follows `SingleResp` when it has a result. -/
def Client.establish (kind : Kind) (cl : Client) : Client :=
  match kind with
  | .unary => { cl with caller := .returned }
  | .getStream => { cl with caller := .established, watch := .watching }
  | .putStream | .chat => { cl with caller := .established, watch := .watching, out := .check }

def Client.act (kind : Kind) (cl : Client) : ClientEv → Option (Client × List ToServer)
  | .issue => if cl.caller = .fresh then some
      ({ cl with caller := .sending, ctx := { cl.ctx with inMap := true } }, []) else none
  | .send => if cl.caller = .sending then some ({ cl with caller := .waiting }, [.request]) else none
  | .ack => if cl.caller = .waiting ∧ cl.ctx.acked = true then some (cl.establish kind, []) else none
  | .refused =>
    -- `Close` may drop an ack that was not read
    if cl.caller = .waiting ∧ cl.ctx.done = true ∧
      (cl.ctx.acked = false ∨ cl.ctx.getClosed = true ∧ cl.ctx.putClosed = true) then
      some ({ cl with caller := .returned, ctx := cl.ctx.close }, [])
    else none
  | .timeout => if cl.caller = .waiting then some ({ cl with caller := .leaving }, [.cancel]) else none
  | .abort => if cl.caller = .leaving then some ({ cl with caller := .returned, ctx := cl.ctx.close }, []) else none
  | .watchCancel => if cl.watch = .watching then some ({ cl with watch := .cancelled }, [.cancel]) else none
  | .watchClose => if cl.watch = .cancelled then some ({ cl with watch := .ended, ctx := cl.ctx.close }, []) else none
  | .watchDone => if cl.watch = .watching ∧ cl.ctx.done = true then some ({ cl with watch := .ended }, []) else none
  | .cancel => if cl.caller ≠ .fresh ∧ cl.caller ≠ .sending then some (cl, [.cancel]) else none
  | .grant => if cl.caller = .established ∧ (kind = .getStream ∨ kind = .chat) then some (cl, [.credit]) else none
  | .outCheck => if cl.out = .check then some
      ({ cl with out := if cl.ctx.putClosed then .leave else .recv }, []) else none
  | .outRecv => if cl.out = .recv then some ({ cl with out := .acquire }, []) else none
  | .outClosed => if cl.out = .recv then some ({ cl with out := .leave }, [.fin]) else none
  | .outAcquire => if cl.out = .acquire then some
      ({ cl with out := if cl.ctx.done then .leave else .send }, []) else none
  | .outSend => if cl.out = .send then some ({ cl with out := .check }, [.value]) else none
  | .outLeave => if cl.out = .leave then some
      ({ cl with out := .ended, ctx := Ctx.deleteIf (cl.ctx.tryPutClose kind) }, []) else none

/-- The response loop: a frame without a record is a protocol error. -/
def Client.recv (kind : Kind) (cl : Client) (f : ToClient) : Client × List ToServer :=
  let heard := cl.heard || f == .ready
  if cl.ctx.inMap then
    let p := processResponse kind cl.ctx f
    ({ cl with ctx := p.1, heard := heard }, p.2)
  else ({ cl with heard := heard }, [])

/-! ## The server -/

inductive Handler where
  | idle
  | spawned
  | running
  deriving DecidableEq, Repr

inductive Streamer where
  | off
  | ready
  | recv
  /-- It has a value, and is in `Acquire`. -/
  | hold
  | send
  | ends
  /-- StreamEnd is sent; before `closeRequest`. -/
  | retire
  | ended
  deriving DecidableEq, Repr

/-- StreamEnd is still to come. -/
def Streamer.alive : Streamer → Bool
  | .ready | .recv | .hold | .send | .ends => true
  | _ => false

structure Server where
  handler : Handler
  streamer : Streamer
  serving : Bool
  /-- `closed`, `done` and the gate of the `servingRequest`. -/
  closed : Bool
  registered : Bool
  deriving DecidableEq, Repr

def Server.closeRequest (sv : Server) : Server := { sv with serving := false, closed := true }

inductive ServerEv where
  | register
  | reject
  | returns (ok : Bool)
  | panics
  | grant
  /-- The streamer's receive: a value, the closed channel, or `done`. -/
  | streamRecv
  | streamClosed
  | streamDone
  | stream
  deriving DecidableEq, Repr

def Server.returns (kind : Kind) (sv : Server) (ok : Bool) : Server × List ToClient :=
  let sv := { sv with handler := .idle }
  match kind with
  | .unary => (sv, [if ok then .result else .error])
  | .putStream => if ok then (sv, [.ready]) else (sv.closeRequest, [.error])
  | .getStream | .chat => if ok then ({ sv with streamer := .ready }, []) else (sv.closeRequest, [.error])

def Server.stream (sv : Server) : Option (Server × List ToClient) :=
  match sv.streamer with
  | .ready => some ({ sv with streamer := .recv }, [.ready])
  | .hold => if sv.closed then some ({ sv.closeRequest with streamer := .ended },
      []) else some ({ sv with streamer := .send }, [])
  | .send => some ({ sv with streamer := .recv }, [.value])
  | .ends => some ({ sv with streamer := .retire }, [.fin])
  | .retire => some ({ sv.closeRequest with streamer := .ended }, [])
  | .off | .recv | .ended => none

def Server.act (kind : Kind) (sv : Server) : ServerEv → Option (Server × List ToClient)
  | .register =>
    if sv.handler = .spawned then
      some (if kind = .unary then { sv with handler := .running }
        else { sv with handler := .running, serving := true, registered := true }, [])
    else none
  | .reject => if sv.handler = .spawned then some ({ sv with handler := .idle }, [.error]) else none
  | .returns ok => if sv.handler = .running then some (sv.returns kind ok) else none
  | .panics => if sv.handler ≠ .idle then some ({ sv with handler := .idle }, []) else none
  | .grant => if sv.registered = true ∧ (kind = .putStream ∨ kind = .chat) then some (sv, [.credit]) else none
  | .streamRecv =>
    if sv.streamer = .recv then some ({ sv with streamer := if sv.closed then .ends else .hold }, []) else none
  | .streamClosed => if sv.streamer = .recv then some ({ sv with streamer := .ends }, []) else none
  | .streamDone => if sv.streamer = .recv ∧ sv.closed = true then some ({ sv with streamer := .ends }, []) else none
  | .stream => sv.stream

/-- The read loop. `exceeds`: the request is over a limit, or the value overran the pump. -/
def Server.recv (kind : Kind) (sv : Server) (exceeds : Bool) : ToServer → Server × List ToClient
  | .request => if exceeds then (sv, [.error]) else ({ sv with handler := .spawned }, [])
  | .cancel => if sv.serving then (sv.closeRequest, []) else (sv, [])
  | .value => if sv.serving && exceeds && (kind == .putStream || kind == .chat) then (sv.closeRequest,
      [.error]) else (sv, [])
  | .fin => if sv.serving && kind == .putStream then ({ sv with serving := false }, []) else (sv, [])
  | .credit => (sv, [])

/-! ## Both -/

structure St where
  cl : Client
  sv : Server
  c2s : List ToServer
  s2c : List ToClient
  deriving DecidableEq, Repr

def start : St where
  cl := ⟨.fresh, .off, .off, ⟨false, false, false, false, false, false⟩, false⟩
  sv := ⟨.idle, .off, false, false, false⟩
  c2s := []
  s2c := []

inductive Ev where
  | client (e : ClientEv)
  | server (e : ServerEv)
  | clientRead
  | serverRead (exceeds : Bool)
  deriving DecidableEq, Repr

def step (kind : Kind) (s : St) : Ev → Option St
  | .client e => (s.cl.act kind e).map fun p => { s with cl := p.1, c2s := s.c2s ++ p.2 }
  | .server e => (s.sv.act kind e).map fun p => { s with sv := p.1, s2c := s.s2c ++ p.2 }
  | .clientRead =>
    match s.s2c with
    | f :: rest => some { s with cl := (s.cl.recv kind f).1, c2s := s.c2s ++ (s.cl.recv kind f).2, s2c := rest }
    | [] => none
  | .serverRead exceeds =>
    match s.c2s with
    | f :: rest => some { s with
        sv := (s.sv.recv kind exceeds f).1, s2c := s.s2c ++ (s.sv.recv kind exceeds f).2, c2s := rest }
    | [] => none

def sys (kind : Kind) : Sys St Ev := ⟨fun s => s = start, step kind⟩

def session (kinds : Int → Kind) : Sys (Int → St) (Int × Ev) := Sys.each fun id => sys (kinds id)

/-! ## Stale records -/

/-- The server is done with the id, and no frame carries it. -/
def Quiet (s : St) : Prop :=
  s.sv.handler = .idle ∧ (s.sv.streamer = .off ∨ s.sv.streamer = .ended) ∧ s.sv.serving = false ∧
    s.c2s = [] ∧ s.s2c = []

instance (s : St) : Decidable (Quiet s) := inferInstanceAs (Decidable (_ ∧ _))

def Stale (kind : Kind) (s : St) : Prop := s.cl.ctx.inMap = true ∧ s.cl.ctx.isClosed kind = true

instance (kind : Kind) (s : St) : Decidable (Stale kind s) := inferInstanceAs (Decidable (_ ∧ _))

/-- The application has the channel of a stream and nothing closed it. -/
def Waits (kind : Kind) (s : St) : Prop :=
  s.cl.caller = .established ∧ (kind = .getStream ∨ kind = .chat) ∧ s.cl.ctx.done = false

instance (kind : Kind) (s : St) : Decidable (Waits kind s) := inferInstanceAs (Decidable (_ ∧ _))

/-- A goroutine of the client is between its CancelRequest and its `Close`. -/
def Client.closing (cl : Client) : Bool := cl.caller == .leaving || cl.watch == .cancelled

/-- The client deleted the record, or has it open and nobody is about to close it. -/
def Settled (kind : Kind) (cl : Client) : Prop := cl.ctx.inMap = false ∨ cl.ctx.isClosed kind = false ∧
    cl.closing = false

instance (kind : Kind) (cl : Client) : Decidable (Settled kind cl) := inferInstanceAs (Decidable (_ ∨ _))

/-- The server's handler or streamer runs, or its last frame is under way. -/
def Answering (s : St) : Prop := s.sv.handler ≠ .idle ∨ s.sv.streamer.alive = true ∨ s.s2c.any ToClient.last = true

instance (s : St) : Decidable (Answering s) := inferInstanceAs (Decidable (_ ∨ _))

/-- No handler panics; a CancelRequest does not close the gate on a streamer with a value in
    hand, and does not come to a server that is done while the client is closing the record
    or has it closed; nor is a put-stream accepted then, when it is no longer served; and the
    StreamEnd of a chat does not come between a CancelRequest of the client and its `Close`. -/
def noPanicOrCancelRace (kind : Kind) (s : St) : Ev → Prop
  | .server .panics => False
  | .server (.returns true) =>
    kind = .putStream → s.sv.serving = true ∨ Settled kind s.cl ∨ ToServer.cancel ∈ s.c2s
  | .serverRead _ =>
    match s.c2s with
    | .cancel :: rest => s.sv.streamer ≠ .hold ∧ (Answering s ∨ Settled kind s.cl ∨ ToServer.cancel ∈ rest)
    | _ => True
  | .clientRead => kind = .chat → s.s2c.head? = some .fin → s.cl.closing = false
  | _ => True

instance (kind : Kind) (s : St) : ∀ e, Decidable (noPanicOrCancelRace kind s e)
  | .server .panics => .isFalse id
  | .server (.returns true) => inferInstanceAs (Decidable (_ → _))
  | .server (.returns false) => .isTrue trivial
  | .server .register => .isTrue trivial
  | .server .reject => .isTrue trivial
  | .server .grant => .isTrue trivial
  | .server .streamRecv => .isTrue trivial
  | .server .streamClosed => .isTrue trivial
  | .server .streamDone => .isTrue trivial
  | .server .stream => .isTrue trivial
  | .serverRead _ =>
    match h : s.c2s with
    | .cancel :: rest => decidable_of_iff (s.sv.streamer ≠ .hold ∧
        (Answering s ∨ Settled kind s.cl ∨ ToServer.cancel ∈ rest))
        (by simp only [noPanicOrCancelRace, h])
    | [] => .isTrue (by simp only [noPanicOrCancelRace, h])
    | .request :: _ => .isTrue (by simp only [noPanicOrCancelRace, h])
    | .value :: _ => .isTrue (by simp only [noPanicOrCancelRace, h])
    | .fin :: _ => .isTrue (by simp only [noPanicOrCancelRace, h])
    | .credit :: _ => .isTrue (by simp only [noPanicOrCancelRace, h])
  | .clientRead => inferInstanceAs (Decidable (_ → _ → _))
  | .client _ => .isTrue trivial

end ValueRpc.Link.Request
