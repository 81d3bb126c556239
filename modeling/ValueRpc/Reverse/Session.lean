/-
  ValueRpc.Reverse.Session — streams a server opens toward its client, across connection
  drops and restarts of the server (`valueserver/serving_stream.go`: `openStream`,
  `handleInbound`, `streamOut`; `valueserver/serving_client.go`: `sender`;
  `valueclient/serving.go`: `serveInboundStream`, `serveRunning`, `outgoingStreamer`;
  `valueclient/client.go`: `reply`, `Reconnect`).

  A direction of such a stream is a flow: from the client's `outgoingStreamer` to the
  server's `clientStream` (get-stream, a chat's output), or from the server's `streamOut` to
  the client's `clientServingRequest` (put-stream, a chat's input). The ends' records are
  those of `Stream.Endpoint`. Frames carry the number of a request id that a session counts
  from 1, so a restarted server uses it again; `flow` says which flow a frame is of, and
  nothing here looks at it. A receiving record is found by direction and number.

  Neither `Reconnect` nor the server's resumption touches any of this. `reply` hands a frame
  to the connection there is, or drops it when there is none; the server's sender does the
  same with the head of its queue. Connections are numbered and belong to the session they
  were attached to; what is left on one can be lost (`cut`). A server that was restarted has
  none of its records and reads no older connection; the client's records stay.

  StreamCredit, CancelRequest and ErrorResponse, a context that ends, a handler that fails
  come at any time, and so does the request of a get-stream (`accept`), once. The request of
  a put-stream is in front of its values; that `streamOut` starts only after the client's ack
  is left out, so there are more runs here than the code has. `taken`, `emitted` and
  `arrived` are records of the run: what the producer loop took from its channel, the frames
  handed to a connection or dropped, and those that were read.
-/

import ValueRpc.Lib.Keyed
import ValueRpc.Lib.Runs
import ValueRpc.Stream.Inbound
import Mathlib.Logic.Function.Basic

namespace ValueRpc.Reverse

open Function ValueRpc.Core ValueRpc.Lib ValueRpc.Stream

variable {α : Type}

inductive Way where
  | toServer
  | toClient
  deriving DecidableEq, Repr

def Way.dir : Way → Dir
  | .toServer => .reverseGet
  | .toClient => .reversePut

inductive Kind where
  | getStream
  | putStream
  | chat
  deriving DecidableEq, Repr

/-- What is sent in a direction, in this order: StreamReady or the request, then values,
    then StreamEnd. -/
inductive Body (α : Type) where
  | request
  | frame (f : Frame α)
  deriving DecidableEq, Repr

structure Packet (α : Type) where
  way : Way
  /-- The request id is `-n`. -/
  n : Nat
  body : Body α
  flow : Nat
  deriving DecidableEq, Repr

structure Flow (α : Type) where
  way : Way
  chat : Bool
  era : Nat
  n : Nat
  req : Bool
  tx : Option (Sender α)
  rx : Option (Inbound α)
  src : List (Value α)
  srcClosed : Bool
  taken : List (Value α)
  emitted : List (Body α)
  arrived : List (Body α)
  deriving DecidableEq, Repr

structure Cfg where
  maxPending : Int64
  grow : Nat → Nat

structure St (α : Type) where
  count : Nat
  flows : Nat → Flow α
  era : Nat
  lastServerRequest : Nat
  conns : List Nat
  dead : List Nat
  wires : Way → List (Nat × Packet α)
  outgoingQueue : List (Packet α)
  /-- `pendingStreams` and `servingMap`: the receiving record under a number. -/
  records : Way × Nat → Option Nat

inductive Ev (α : Type) where
  | connect
  | restart
  | cut (conn : Nat)
  | issue (kind : Kind) (receiveCap : Nat)
  | accept (k : Nat) (ok : Bool)
  | emit (k : Nat) (v : Value α)
  | closeSrc (k : Nat)
  | check (k : Nat)
  | recv (k : Nat)
  | recvClosed (k : Nat)
  | recvDone (k : Nat)
  | acquire (k : Nat)
  | send (k : Nat) (conn : Option Nat)
  | retire (k : Nat)
  | write (conn : Option Nat)
  | read (w : Way) (conn : Nat) (ok : Bool)
  | act (k : Nat) (a : Act)
  | granted (k : Nat) (n : Int)
  | closeTx (k : Nat)
  | closeRx (k : Nat)
  | halfTx (k : Nat)
  | halfRx (k : Nat)
  | forget (w : Way) (n : Nat)
  deriving DecidableEq, Repr

def newFlow (s : St α) (w : Way) (chat : Bool) (n receiveCap : Nat) : Flow α where
  way := w
  chat := chat
  era := s.era
  n := n
  req := w = .toServer
  tx := match w with
    | .toServer => none
    | .toClient => some (newSender chat)
  rx := match w with
    | .toServer => some ⟨newClientStream (-n) chat receiveCap defaultMaxPending, [], false⟩
    | .toClient => none
  src := []
  srcClosed := false
  taken := []
  emitted := []
  arrived := []

def St.add (s : St α) (w : Way) (chat : Bool) (n receiveCap : Nat) : St α :=
  { s with
    count := s.count + 1
    flows := update s.flows s.count (newFlow s w chat n receiveCap)
    records := match w with
      | .toServer => update s.records (w, n) (some s.count)
      | .toClient => s.records }

def St.modify (s : St α) (k : Nat) (f : Flow α) : St α := { s with flows := update s.flows k f }

/-- A step of the sending end's goroutine or of its record; a server that was restarted takes
    none. -/
def St.tx (s : St α) (k : Nat) (g : Flow α → Sender α → Option (Flow α)) : Option (St α) :=
  match (s.flows k).tx with
  | some t =>
    if (s.flows k).way = .toServer ∨ (s.flows k).era = s.era then (g (s.flows k) t).map (s.modify k) else none
  | none => none

def Flow.goto (f : Flow α) (t : Sender α) (pc : SendPc α) : Flow α := { f with tx := some { t with pc := pc } }

def Flow.took (f : Flow α) (v : Value α) (rest : List (Value α)) : Flow α :=
  { f with src := rest, taken := f.taken ++ [v] }

/-- What the goroutine is about to send, and where it is then. -/
def Sender.next (w : Way) (t : Sender α) : Option (Body α × SendPc α) :=
  let loop := match w with
    | .toServer => SendPc.receiving
    | .toClient => SendPc.check
  match t.pc with
  | .start =>
    some (match w with
      | .toServer => .frame .ready
      | .toClient => .request, loop)
  | .sending v => some (.frame (.value v.wire), loop)
  | .ending v => some (.frame (.fin v.wire), .retiring)
  | _ => none

def St.hand (s : St α) (p : Packet α) (conn : Option Nat) : St α :=
  let s := s.modify p.flow { s.flows p.flow with emitted := (s.flows p.flow).emitted ++ [p.body] }
  match conn with
  | some c =>
    if c < s.conns.length ∧ c ∉ s.dead then { s with wires := update s.wires p.way (s.wires p.way ++ [(c, p)]) } else s
  | none => s

/-- `handleInbound`, `serveRunning`: the record takes a frame, and goes when that ends it. -/
def St.receive (c : Cfg) (s : St α) (w : Way) (n : Nat) (f : Frame α) : St α :=
  match s.records (w, n) with
  | some k =>
    match (s.flows k).rx with
    | some i =>
      let r := (w.dir.receive c.grow i.rx f).1
      let s := s.modify k { s.flows k with rx := some { i with rx := r } }
      if r.live then s else { s with records := update s.records (w, n) none }
    | none => s
  | none => s

def St.serveInbound (c : Cfg) (s : St α) (p : Packet α) (ok : Bool) : St α :=
  if ok then
    let rx := setupInboundClient (-p.n) (s.flows p.flow).chat c.maxPending.toInt
    { s.modify p.flow { s.flows p.flow with rx := some ⟨rx, [], false⟩ } with
      records := update s.records (p.way, p.n) (some p.flow) }
  else s

def St.arrive (c : Cfg) (s : St α) (p : Packet α) (ok : Bool) : St α :=
  let s := s.modify p.flow { s.flows p.flow with arrived := (s.flows p.flow).arrived ++ [p.body] }
  match p.body with
  | .request => s.serveInbound c p ok
  | .frame f => s.receive c p.way p.n f

def step (c : Cfg) (s : St α) : Ev α → Option (St α)
  | .connect => some { s with conns := s.conns ++ [s.era] }
  | .restart =>
    some { s with
      era := s.era + 1
      lastServerRequest := 0
      outgoingQueue := []
      records := fun r => if r.1 = Way.toServer then none else s.records r }
  | .cut conn => some { s with dead := conn :: s.dead, wires := fun w => (s.wires w).filter fun x => x.1 ≠ conn }
  | .issue kind receiveCap =>
    let n := s.lastServerRequest + 1
    let s := { s with lastServerRequest := n }
    some (match kind with
      | .getStream => s.add .toServer false n receiveCap
      | .putStream => s.add .toClient false n 0
      | .chat => (s.add .toServer true n (receiveCap + 1)).add .toClient true n 0)
  | .accept k ok =>
    if (s.flows k).req then
      some (s.modify k { s.flows k with req := false, tx := if ok then some (newSender (s.flows k).chat) else none })
    else none
  | .emit k v =>
    if k < s.count ∧ (s.flows k).srcClosed = false then
      some (s.modify k { s.flows k with src := (s.flows k).src ++ [v] })
    else none
  | .closeSrc k => if k < s.count then some (s.modify k { s.flows k with srcClosed := true }) else none
  | .check k =>
    s.tx k fun f t =>
      match t.pc with
      | .check => some (f.goto t (if t.closed then .retiring else .receiving))
      | _ => none
  | .recv k =>
    s.tx k fun f t =>
      match t.pc, f.src with
      | .receiving, v :: rest =>
        -- `outgoingStreamer` looks at `closed` after the receive, `streamOut` does not
        some ((f.took v rest).goto t (if f.way = .toServer ∧ t.closed = true then .ending v else .acquiring v))
      | _, _ => none
  | .recvClosed k =>
    s.tx k fun f t =>
      match t.pc, f.src with
      | .receiving, [] => if f.srcClosed then some (f.goto t (.ending .nil)) else none
      | _, _ => none
  | .recvDone k =>
    s.tx k fun f t =>
      match t.pc with
      | .receiving => if f.way = .toServer ∧ t.closed = true then some (f.goto t (.ending .nil)) else none
      | _ => none
  | .acquire k =>
    s.tx k fun f t =>
      match t.pc with
      | .acquiring v =>
        match t.gate.acquire with
        | some (true, g) => some (f.goto { t with gate := g } (.sending v))
        | some (false, g) => some (f.goto { t with gate := g } .retiring)
        | none => none
      | _ => none
  | .send k conn =>
    match (s.flows k).tx with
    | some t =>
      match Sender.next (s.flows k).way t with
      | some (body, pc) =>
        let p : Packet α := ⟨(s.flows k).way, (s.flows k).n, body, k⟩
        match (s.flows k).way with
        | .toServer => some ((s.modify k ((s.flows k).goto t pc)).hand p conn)
        | .toClient =>
          if (s.flows k).era = s.era then
            some { s.modify k ((s.flows k).goto t pc) with outgoingQueue := s.outgoingQueue ++ [p] }
          else none
      | none => none
    | none => none
  | .retire k =>
    s.tx k fun f t =>
      match t.pc with
      | .retiring => some (f.goto (if f.way = .toServer then t.closeRequest else t.tryPutClose) .ended)
      | _ => none
  | .write conn =>
    match s.outgoingQueue with
    | p :: rest =>
      -- the connections of the session only
      some ({ s with outgoingQueue := rest }.hand p (conn.filter fun c => s.conns[c]? == some s.era))
    | [] => none
  | .read w conn ok =>
    if w = .toServer ∧ s.conns[conn]? ≠ some s.era then none
    else (takeFrom conn (s.wires w)).map fun r => { s with wires := update s.wires w r.2 }.arrive c r.1 ok
  | .act k a =>
    match (s.flows k).rx with
    | some i => (i.act a).map fun r => s.modify k { s.flows k with rx := some r.1 }
    | none => none
  | .granted k n => s.tx k fun f t => some { f with tx := some { t with gate := t.gate.grant n } }
  | .closeTx k => s.tx k fun f t => some { f with tx := some (if f.way = .toServer then t.closeRequest else t.close) }
  | .closeRx k =>
    match (s.flows k).rx with
    | some i =>
      some (s.modify k { s.flows k with
        rx := some { i with rx := if (s.flows k).way = .toServer then i.rx.close else i.rx.closeRequest } })
    | none => none
  | .halfTx k => s.tx k fun f t => if f.chat then some { f with tx := some t.tryGetClose } else none
  | .halfRx k =>
    match (s.flows k).rx with
    | some i =>
      if (s.flows k).chat then some
        (s.modify k { s.flows k with rx := some { i with rx := { i.rx with putClosed := true } } }) else none
    | none => none
  | .forget w n => some { s with records := update s.records (w, n) none }

def noFlow : Flow α := ⟨.toServer, false, 0, 0, false, none, none, [], false, [], [], []⟩

def start : St α where
  count := 0
  flows := fun _ => noFlow
  era := 0
  lastServerRequest := 0
  conns := []
  dead := []
  wires := fun _ => []
  outgoingQueue := []
  records := fun _ => none

def sys (c : Cfg) : Sys (St α) (Ev α) := ⟨fun s => s = start, step c⟩

/-! ## Nothing lost, nothing left over -/

def inFlight (s : St α) (k : Nat) : List (Nat × Packet α) := (s.wires (s.flows k).way).filter fun x => x.2.flow = k

/-- Every earlier frame of the flow was read, or is ahead on the same connection. -/
def ahead (s : St α) (k conn : Nat) : Bool :=
  (s.flows k).emitted.length = (s.flows k).arrived.length + ((inFlight s k).filter fun x => x.1 = conn).length

/-- Something of a flow is left where the client or the session could come upon it. -/
def left [DecidableEq α] (s : St α) (k : Nat) : Bool :=
  let f := s.flows k
  f.req || (f.way = .toServer && f.tx.any fun t => decide (t.pc ≠ .ended)) || s.records (f.way, f.n) = some k ||
    !(inFlight s k).isEmpty || s.outgoingQueue.any fun p => p.flow = k

/-- A number is given to a stream when nothing is left of an older one with that number. -/
def unused [DecidableEq α] (s : St α) (n : Nat) : Bool :=
    (List.range s.count).all fun k => (s.flows k).n ≠ n || !left s k

/-- What a StreamEnd brings finds room at the record it comes to. -/
def room (s : St α) (p : Packet α) : Bool :=
  match p.body, (s.records (p.way, p.n)).bind fun k => (s.flows k).rx with
  | .frame (.fin v), some i => !v.isData || i.rx.pump.pending.length < i.rx.pump.maxPending
  | _, _ => true

/-- A frame goes behind the earlier ones of its flow, a number is free when it is given out, the
    values are no nil, and a StreamEnd finds room for its value. -/
def noReorderReuseNilOrOverrun [DecidableEq α] (s : St α) : Ev α → Bool
  | .send k (some conn) =>
    match (s.flows k).way with
    | .toServer => ahead s k conn
    | .toClient => true
  | .write (some conn) =>
    match s.outgoingQueue with
    | p :: _ => ahead s p.flow conn
    | [] => true
  | .recv k => (s.flows k).src.head?.all Value.isData
  | .issue _ _ => unused s (s.lastServerRequest + 1)
  | .read w conn _ => (takeFrom conn (s.wires w)).all fun r => room s r.1
  | _ => true

end ValueRpc.Reverse
