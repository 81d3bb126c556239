/-
  ValueRpc.Route.Session — which record a frame of a session gets to
  (`valueserver/serving_client.go`: `processRequest`, `serveNewRequest`, `CallFunction`,
  `completePendingCall`; `valueserver/serving_stream.go`: `nextServerRequestId`,
  `openStream`; `valueclient/client.go`: `getResponseHandler`, `processResponse`,
  `sendRequest`, `serveInboundCall`, `Reconnect`; `valueclient/request.go`: `SingleResp`;
  `valueclient/serving.go`: `serveInboundStream`).

  Either end issues unary calls and streams, and serves those of the other. An exchange is
  one such request, `n`-th of the end that issued it; a frame carries the number its end
  made of that, an int64, and `ex` says which exchange it was sent for: nothing here looks
  at `ex`. Each end has tables of records by request id and probes them one after the
  other, one step each, on the read loop of every connection there is; the map an entry is
  in holds the exchange its record was made for.

  What a record does besides (its pump, its gate, its context) does not show: whoever has it
  may send any frame of its end and take it out of its table at any time. A request may be
  refused. Connections are numbered; a frame goes to any of them, or nowhere, and the frames
  toward one end of a connection are read in order, up to where it breaks.
-/

import ValueRpc.Core.MessageType
import ValueRpc.Lib.Runs
import Mathlib.Logic.Function.Basic
import Mathlib.Algebra.Order.Ring.Int
import Mathlib.Tactic.Common

namespace ValueRpc.Route

open Function ValueRpc.Lib
open ValueRpc.Core (Kind MessageType Statement)

inductive Side where
  | client
  | server
  deriving DecidableEq, Repr

/-- An exchange: the end that issued it, its number there, and what it is. -/
structure Exch where
  side : Side
  n : Nat
  kind : Kind
  deriving DecidableEq, Repr

def wrap (i : Int) : Int := i.bmod (2 ^ 64)

/-- `lastRequest.Add(1)` and `-lastServerRequest.Add(1)`, when the count was `n - 1`. -/
def requestId : Side → Nat → Int
  | .client, n => wrap n
  | .server, n => wrap (-wrap n)

def Exch.id (x : Exch) : Int := requestId x.side x.n

structure Frame where
  mt : MessageType
  reqId : Int
  ex : Exch
  deriving DecidableEq, Repr

/-- What the end that issued an exchange sends for it behind the request. A server tells the
    client that a stream overran its buffer; it does not cancel a call. -/
def initiates : Exch → MessageType → Bool
  | ⟨.client, _, .unary⟩, .cancelRequest => true
  | ⟨_, _, .unary⟩, _ => false
  | _, .cancelRequest => true
  | ⟨_, _, .getStream⟩, .streamCredit | ⟨_, _, .chat⟩, .streamCredit => true
  | ⟨_, _, .putStream⟩, .streamValue | ⟨_, _, .chat⟩, .streamValue => true
  | ⟨_, _, .putStream⟩, .streamEnd | ⟨_, _, .chat⟩, .streamEnd => true
  | ⟨.server, _, .getStream⟩, .errorResponse | ⟨.server, _, .chat⟩, .errorResponse => true
  | _, _ => false

/-- What the end that serves it sends. -/
def responds : Kind → MessageType → Bool
  | .unary, .functionResponse => true
  | _, .errorResponse => true
  | .unary, _ => false
  | _, .streamReady => true
  | .getStream, .streamValue | .chat, .streamValue => true
  | .getStream, .streamEnd | .chat, .streamEnd => true
  | .putStream, .streamCredit | .chat, .streamCredit => true
  | _, _ => false

inductive Tab where
  | requestCtxMap
  | servingMap
  | pendingStreams
  | pendingCalls
  | requestMap
  | requestCancels
  deriving DecidableEq, Repr

def Tab.side : Tab → Side
  | .requestCtxMap | .servingMap => .client
  | _ => .server

def Exch.table (x : Exch) : Tab :=
  match x.side, x.kind with
  | .client, _ => .requestCtxMap
  | .server, .unary => .pendingCalls
  | .server, _ => .pendingStreams

def servingTable : Kind → Tab
  | .unary => .requestCancels
  | _ => .requestMap

/-- A goroutine that serves a request, or the refusal of one. -/
inductive Phase where
  | spawned
  | running
  | refused
  deriving DecidableEq, Repr

structure Exec where
  side : Side
  ex : Exch
  reqId : Int
  kind : Kind
  phase : Phase
  deriving DecidableEq, Repr

/-- What a call is answered with: the exchange of the frame it came in, or nothing of a
    frame (a context, a timeout, a lost connection). -/
inductive Outcome where
  | result (x : Exch)
  | error (x : Exch)
  | own
  deriving DecidableEq, Repr

structure Ctx where
  resultCh : Option Exch
  resultErr : Option Outcome
  closed : Bool
  returned : Option Outcome
  deriving DecidableEq, Repr

def newRequestCtx : Ctx := ⟨none, none, false, none⟩

inductive CallPc where
  | waiting
  /-- Before the deferred Delete. -/
  | leaving (o : Outcome)
  | returned (o : Outcome)
  deriving DecidableEq, Repr

/-- Where the right to complete a call is: its entry, the read loop that took the entry, or
    used up. -/
inductive Slot where
  | inMap
  | held (c : Nat)
  | used
  | gone
  deriving DecidableEq, Repr

/-- A `CallFunction` of the server and its `resCh`, which holds one result. -/
structure Call where
  resCh : Option Outcome
  pc : CallPc
  slot : Slot
  completions : Nat
  deriving DecidableEq, Repr

/-- What `processResponse` does with the record of a unary call, a step at a time. -/
inductive Op where
  | notifyResult
  | setError
  | close
  | delete
  deriving DecidableEq, Repr

/-- A statement on the record of a unary call; the CancelRequest of an overrun may be sent at any
    time. -/
def Op.ofStatement : Statement → List Op
  | .notifyResult | .notifyPayload => [.notifyResult]
  | .setError => [.setError]
  | .close => [.close]
  | .delete => [.delete]
  | .tryGetClose => [.close, .delete]
  | .cancelOnce | .grant => []

def processResponse (mt : MessageType) : List Op := (Core.processResponse mt).flatMap Op.ofStatement

inductive Pc where
  | idle
  | probe (t : Tab) (f : Frame)
  /-- `serveNewRequest`, `serveInboundCall`, `serveInboundStream`. -/
  | new (f : Frame)
  | process (x : Exch) (f : Frame) (ops : List Op)
  /-- `completePendingCall`, before it sends to `resCh`. -/
  | completing (x : Exch) (f : Frame)
  deriving DecidableEq, Repr

structure St where
  last : Side → Nat
  opened : List Exch
  /-- The exchanges whose request was sent. -/
  sent : List Exch
  maps : Tab × Int → Option Exch
  conns : Nat
  /-- On a connection toward an end: written and not read. -/
  lanes : Nat × Side → List Frame
  dead : Nat × Side → Bool
  loops : Nat × Side → Pc
  outgoingQueue : List Frame
  execs : List Exec
  ctxs : Nat → Ctx
  calls : Nat → Call
  /-- The frames a record was found for, and the exchange it was made for. -/
  handled : List (Frame × Exch)
  /-- The frames no record was found for, and the end they came to. -/
  unhandled : List (Side × Frame)

def start : St where
  last := fun _ => 0
  opened := []
  sent := []
  maps := fun _ => none
  conns := 0
  lanes := fun _ => []
  dead := fun _ => false
  loops := fun _ => .idle
  outgoingQueue := []
  execs := []
  ctxs := fun _ => newRequestCtx
  calls := fun _ => ⟨none, .waiting, .gone, 0⟩
  handled := []
  unhandled := []

inductive Ret where
  | recv
  | closed
  | done
  | timer
  deriving DecidableEq, Repr

inductive Ev where
  | connect
  /-- Toward an end, a connection breaks behind its next `k` frames. -/
  | cut (c : Nat) (d : Side) (k : Nat)
  | issue (d : Side) (kind : Kind)
  /-- A request is sent; a unary one of the client perhaps again, after a reconnect. -/
  | request (x : Exch) (c : Option Nat)
  | send (x : Exch) (mt : MessageType) (c : Option Nat)
  | reply (i : Nat) (mt : MessageType) (c : Option Nat)
  | register (i : Nat)
  | refuse (i : Nat)
  | retire (t : Tab) (x : Exch)
  | write (c : Option Nat)
  | read (c : Nat) (d : Side)
  | serve (c : Nat) (d : Side) (accept : Bool)
  /-- `failRequest`, or the end of a call that failed: the error, then the close. -/
  | fail (n : Nat)
  | close (n : Nat)
  | singleResp (n : Nat) (r : Ret)
  /-- The select of a server's call: its channel, or its context or the session's end. -/
  | select (n : Nat) (recv : Bool)
  | leave (n : Nat)
  deriving DecidableEq, Repr

def St.goto (s : St) (c : Nat) (d : Side) (pc : Pc) : St := { s with loops := update s.loops (c, d) pc }
def St.put (s : St) (t : Tab) (id : Int) (x : Option Exch) : St := { s with maps := update s.maps (t, id) x }

/-- Written to a connection, unless it broke. -/
def St.onto (s : St) (c : Nat) (d : Side) (f : Frame) : St :=
  if c < s.conns ∧ s.dead (c, d) = false then { s with lanes := update s.lanes (c, d) (s.lanes (c, d) ++ [f]) } else s

/-- `SendRequest` and `reply` of the client, `send` of the server. -/
def St.emit (s : St) (d : Side) (f : Frame) : Option Nat → St
  | none => s
  | some c =>
    match d with
    | .client => s.onto c .server f
    | .server => { s with outgoingQueue := s.outgoingQueue ++ [f] }

def dispatch : Side → Frame → Pc
  | .server, f => .probe .pendingStreams f
  | .client, f => if f.mt.kind?.isSome then .new f else .probe .servingMap f

/-- No record in a table: the next table, or none. -/
def miss (f : Frame) : Tab → Option Pc
  | .pendingStreams =>
    if f.mt = .functionResponse ∨ f.mt = .errorResponse then some (.probe .pendingCalls f) else some
      (.probe .requestMap f)
  | .requestMap => if f.mt = .cancelRequest then some (.probe .requestCancels f) else some (.new f)
  | .servingMap => some (.probe .requestCtxMap f)
  | .pendingCalls | .requestCancels | .requestCtxMap => none

def St.hit (s : St) (c : Nat) (d : Side) (f : Frame) (x : Exch) : Tab → St
  | .pendingCalls =>
    { (s.put .pendingCalls f.reqId none).goto c d (.completing x f) with
      calls := update s.calls x.n { s.calls x.n with slot := .held c } }
  | .requestCtxMap => if x.kind = .unary then s.goto c d (.process x f (processResponse f.mt)) else s.goto c d .idle
  | _ => s.goto c d .idle

def St.serveNew (s : St) (c : Nat) (d : Side) (f : Frame) (accept : Bool) : St :=
  match f.mt.kind? with
  | none => { s.goto c d .idle with unhandled := s.unhandled ++ [(d, f)] }
  | some kind =>
    let exec := fun phase => { s.goto c d .idle with execs := s.execs ++ [⟨d, f.ex, f.reqId, kind, phase⟩] }
    if !accept then exec .refused
    else
      match d with
      | .server => exec .spawned
      | .client => if kind = .unary then exec .running else (exec .running).put .servingMap f.reqId (some f.ex)

def St.process (s : St) (c : Nat) (d : Side) (x : Exch) (f : Frame) (ops : List Op) : Op → Option St
  | .notifyResult =>
    if (s.ctxs x.n).closed then some (s.goto c d (.process x f ops))
    else if (s.ctxs x.n).resultCh.isNone then
      some { s.goto c d (.process x f ops) with ctxs := update s.ctxs x.n { s.ctxs x.n with resultCh := some f.ex } }
    else none
  | .setError =>
    some { s.goto c d (.process x f ops) with
      ctxs := update s.ctxs x.n { s.ctxs x.n with resultErr := some (.error f.ex) } }
  | .close => some { s.goto c d (.process x f ops) with ctxs := update s.ctxs x.n { s.ctxs x.n with closed := true } }
  | .delete => some ((s.put .requestCtxMap x.id none).goto c d (.process x f ops))

/-- `completePendingCall` sends to `resCh`; a full channel blocks. -/
def St.complete (s : St) (c : Nat) (d : Side) (x : Exch) (f : Frame) : Option St :=
  if (s.calls x.n).resCh.isNone then
    let o : Outcome := if f.mt = .errorResponse then .error f.ex else .result f.ex
    some { s.goto c d .idle with
      calls := update s.calls x.n { s.calls x.n with
        resCh := some o
        slot := .used
        completions := (s.calls x.n).completions + 1 } }
  else none

def St.serve (s : St) (c : Nat) (d : Side) (accept : Bool) : Option St :=
  match s.loops (c, d) with
  | .idle => none
  | .probe t f =>
    match s.maps (t, f.reqId) with
    | some x => some { s.hit c d f x t with handled := s.handled ++ [(f, x)] }
    | none =>
      match miss f t with
      | some pc => some (s.goto c d pc)
      | none => some { s.goto c d .idle with unhandled := s.unhandled ++ [(d, f)] }
  | .new f => some (s.serveNew c d f accept)
  | .process _ _ [] => some (s.goto c d .idle)
  | .process x f (op :: ops) => s.process c d x f ops op
  | .completing x f => s.complete c d x f

def singleResp (t : Ctx) : Ret → Option Outcome
  | .recv => t.resultCh.map .result
  | .closed => if t.closed && t.resultCh.isNone then some (t.resultErr.getD .own) else none
  | .done => some .own
  | .timer => some (t.resultErr.getD .own)

def step (s : St) : Ev → Option St
  | .connect => some { s with conns := s.conns + 1 }
  | .cut c d k =>
    some { s with lanes := update s.lanes (c, d) ((s.lanes (c, d)).take k), dead := update s.dead (c, d) true }
  | .issue d kind =>
    let x : Exch := ⟨d, s.last d + 1, kind⟩
    let s := { s with last := update s.last d x.n, opened := x :: s.opened }.put x.table x.id (some x)
    some (if x.table = .pendingCalls then { s with calls := update s.calls x.n ⟨none, .waiting, .inMap, 0⟩ } else s)
  | .request x c =>
    if x ∈ s.opened ∧ (x ∉ s.sent ∨ x.side = .client ∧ x.kind = .unary) then
      some ({ s with sent := x :: s.sent }.emit x.side ⟨x.kind.request, x.id, x⟩ c)
    else none
  | .send x mt c => if x ∈ s.sent ∧ initiates x mt then some (s.emit x.side ⟨mt, x.id, x⟩ c) else none
  | .reply i mt c =>
    match s.execs[i]? with
    | some e =>
      if (e.phase = .running ∧ responds e.kind mt) ∨ (e.phase = .refused ∧ mt = .errorResponse) then
        some (s.emit e.side ⟨mt, e.reqId, e.ex⟩ c)
      else none
    | none => none
  | .register i =>
    match s.execs[i]? with
    | some e =>
      if e.phase = .spawned then
        some ({ s with execs := s.execs.set i { e with phase := .running } }.put
          (servingTable e.kind) e.reqId (some e.ex))
      else none
    | none => none
  | .refuse i =>
    match s.execs[i]? with
    | some e => if e.phase = .spawned then some { s with
        execs := s.execs.set i { e with phase := .refused } } else none
    | none => none
  | .retire t x => if x ∈ s.opened ∧ t ≠ .pendingCalls then some (s.put t x.id none) else none
  | .write c =>
    match s.outgoingQueue with
    | [] => none
    | f :: fs =>
      let s := { s with outgoingQueue := fs }
      some (match c with
        | some c => s.onto c .client f
        | none => s)
  | .read c d =>
    match s.loops (c, d), s.lanes (c, d) with
    | .idle, f :: fs => some ({ s with lanes := update s.lanes (c, d) fs }.goto c d (dispatch d f))
    | _, _ => none
  | .serve c d accept => s.serve c d accept
  | .fail n => some { s with ctxs := update s.ctxs n { s.ctxs n with resultErr := some .own } }
  | .close n => some { s with ctxs := update s.ctxs n { s.ctxs n with closed := true } }
  | .singleResp n r =>
    if (s.ctxs n).returned.isNone then
      (singleResp (s.ctxs n) r).map fun o => { s with
        ctxs := update s.ctxs n { s.ctxs n with returned := some o, resultCh := none } }
    else none
  | .select n recv =>
    match (s.calls n).pc with
    | .waiting =>
      if recv then
        (s.calls n).resCh.map fun o => { s with
          calls := update s.calls n { s.calls n with pc := .leaving o, resCh := none } }
      else some { s with calls := update s.calls n { s.calls n with pc := .leaving .own } }
    | _ => none
  | .leave n =>
    match (s.calls n).pc with
    | .leaving o =>
      some { s.put .pendingCalls (requestId .server n) none with
        calls := update s.calls n { s.calls n with
          pc := .returned o
          slot := if (s.calls n).slot = .inMap then .gone else (s.calls n).slot } }
    | _ => none

def sys : Sys St Ev := ⟨fun s => s = start, step⟩

def bounded (s : St) : Ev → Bool
  | .issue d _ => decide (s.last d + 1 < 2 ^ 63)
  | _ => true

end ValueRpc.Route
