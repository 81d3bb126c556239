/-
  ValueRpc.Stream.PutReconnect — a put-stream, or the input half of a chat, across
  connection drops and the client's `Reconnect` on the same session.

  The client's `streamOut` runs as in `Flow`, except that each frame is handed to a
  connection: `getConn` takes the one installed (`getConn`, waiting for one when there is
  none) and `SendRequest` hands the frame over, or drops it when that connection is closed
  (`enqueue`). Connections are numbered in the order they are made. Each is a FIFO; what is
  left of it can be lost (`cut`), and a closed one takes no more frames. The server reads
  from any connection that still has frames.

  `Reconnect` is three moves that other goroutines interleave with: `reset` takes the
  connection away, `fail` closes the stream's record (`failRequest`), and `connect`
  installs the next connection, as a request that dials on its own also does. The server's
  record knows nothing of all this: the session keeps it, and frames of the new connection
  reach it.

  `streamOut` looks at `IsPutOpen` only before it waits on `putCh`. Parked there while
  `Reconnect` fails the stream, it sends StreamEnd on the new connection when the
  application closes `putCh`, and the server ends the handler's input as complete
  (`truncated_gracefully`). With StreamEnd handed to the connection that every StreamValue
  was handed to, a graceful end is a complete one (`graceful_end_complete`).

  The values are payloads. `taken`, `sent` and `finSent` are records of the run: what
  `streamOut` took from `putCh`, the values it handed over and to which connection, and
  that it handed over StreamEnd.
-/

import ValueRpc.Lib.Keyed
import ValueRpc.Lib.Runs
import ValueRpc.Stream.Inbound

namespace ValueRpc.Stream.Put

open ValueRpc.Core ValueRpc.Lib

variable {α : Type}

structure Cfg where
  chat : Bool
  requestId : Int
  incomingQueueCap : Nat
  maxPending : Int64
  grow : Nat → Nat

/-- The server takes the configured bound as the window. -/
def Cfg.window (c : Cfg) : Int := c.maxPending.toInt

inductive Msg (α : Type) where
  | frame (f : Frame α)
  | cancel
  deriving DecidableEq, Repr

structure St (α : Type) where
  tx : Sender α
  /-- The connection `getConn` returned for the frame being sent. -/
  via : Option Nat
  inb : Inbound α
  src : List α
  srcClosed : Bool
  installed : Option Nat
  nextConn : Nat
  dead : List Nat
  reconnecting : Bool
  wire : List (Nat × Msg α)
  back : List Back
  granted : Bool
  taken : List (Value α)
  sent : List (Nat × Value α)
  finSent : Bool
  deriving DecidableEq, Repr

/-- The stream is established on connection 0 and `streamOut` starts. -/
def start (c : Cfg) : St α where
  tx := { (newSender c.chat : Sender α) with pc := .check }
  via := none
  inb := ⟨setupInboundServer c.requestId c.chat c.incomingQueueCap c.maxPending.toInt, [], false⟩
  src := []
  srcClosed := false
  installed := some 0
  nextConn := 1
  dead := []
  reconnecting := false
  wire := []
  back := []
  granted := false
  taken := []
  sent := []
  finSent := false

inductive Ev (α : Type) where
  | emit (a : α)
  | closeSrc
  | check
  | recv
  | recvClosed
  | acquire
  | getConn
  | enqueue
  | retire
  | reset
  | fail
  | connect
  | reconnected
  | ctxDone
  | deliver (conn : Nat)
  | cut (conn : Nat)
  | deliverBack
  | loseBack
  | act (a : Act)
  | grantInitial
  | servingEnds
  | toldEnded
  deriving DecidableEq, Repr

def sendOn (conn : Nat) (m : Msg α) (s : St α) : List (Nat × Msg α) :=
  if conn ∈ s.dead then s.wire else s.wire ++ [(conn, m)]

def setPc (s : St α) (pc : SendPc α) : St α := { s with tx := { s.tx with pc := pc } }

def serve (c : Cfg) (s : St α) (m : Msg α) (rest : List (Nat × Msg α)) : St α :=
  if s.inb.rx.live then
    match m with
    | .frame f =>
      let r := serveRunningRequest c.grow s.inb.rx f
      { s with inb := { s.inb with rx := r.1 }, wire := rest, back := s.back ++ r.2 }
    | .cancel => { s with inb := { s.inb with rx := s.inb.rx.closeRequest }, wire := rest }
  else { s with wire := rest }

def step (c : Cfg) (s : St α) : Ev α → Option (St α)
  | .emit a => if s.srcClosed then none else some { s with src := s.src ++ [a] }
  | .closeSrc => if s.srcClosed then none else some { s with srcClosed := true }
  | .check =>
    match s.tx.pc with
    | .check => some (setPc s (if s.tx.closed then .retiring else .receiving))
    | _ => none
  | .recv =>
    match s.tx.pc, s.src with
    | .receiving, a :: rest => some (setPc { s with src := rest, taken := s.taken ++ [.data a] }
        (.acquiring (.data a)))
    | _, _ => none
  | .recvClosed =>
    match s.tx.pc, s.src with
    | .receiving, [] => if s.srcClosed then some (setPc s (.ending .nil)) else none
    | _, _ => none
  | .acquire =>
    match s.tx.pc with
    | .acquiring v =>
      match s.tx.gate.acquire with
      | some (true, g) => some { s with tx := { s.tx with gate := g, pc := .sending v } }
      | some (false, g) => some { s with tx := { s.tx with gate := g, pc := .retiring } }
      | none => none
    | _ => none
  | .getConn =>
    match s.tx.pc, s.via with
    | .sending _, none => if s.installed.isSome then some { s with via := s.installed } else none
    | .ending _, none => if s.installed.isSome then some { s with via := s.installed } else none
    | _, _ => none
  | .enqueue =>
    match s.tx.pc, s.via with
    | .sending v, some conn =>
      some (setPc { s with via := none, wire := sendOn conn (.frame (.value v.wire)) s, sent := s.sent ++ [(conn, v)] }
        .check)
    | .ending v, some conn =>
      some (setPc { s with via := none, wire := sendOn conn (.frame (.fin v.wire)) s, finSent := true } .retiring)
    | _, _ => none
  | .retire =>
    match s.tx.pc with
    | .retiring => some { s with tx := { s.tx.tryPutClose with pc := .ended } }
    | _ => none
  | .reset =>
    if s.reconnecting then none
    else some { s with reconnecting := true, installed := none, dead := s.installed.toList ++ s.dead }
  | .fail => if s.reconnecting && s.tx.live then some { s with tx := s.tx.close } else none
  | .connect =>
    if s.installed.isNone then some { s with installed := some s.nextConn, nextConn := s.nextConn + 1 } else none
  | .reconnected => if s.reconnecting && !s.tx.live then some { s with reconnecting := false } else none
  | .ctxDone =>
    -- `watchContext`: CancelRequest on the connection there is, and `Close` with the record left in its map
    if s.tx.closed then none
    else some { s with
      tx := { s.tx.close with live := s.tx.live }
      wire := match s.installed with
        | some conn => sendOn conn .cancel s
        | none => s.wire }
  | .deliver conn => (takeFrom conn s.wire).map fun r => serve c s r.1 r.2
  | .cut conn => some { s with dead := conn :: s.dead, wire := s.wire.filter fun x => x.1 ≠ conn }
  | .deliverBack =>
    match s.back with
    | b :: rest => some { s with back := rest, tx := if s.tx.live then processResponseBack s.tx b else s.tx }
    | [] => none
  | .loseBack =>
    match s.back with
    | _ :: rest => some { s with back := rest }
    | [] => none
  | .act a => (s.inb.act a).map fun r => { s with inb := r.1, back := s.back ++ r.2 }
  | .grantInitial =>
    if s.granted then none else some { s with granted := true, back := s.back ++ [.credit s.inb.rx.creditWindow] }
  | .servingEnds => if c.chat then some { s with inb := { s.inb with rx := s.inb.rx.closeRequest } } else none
  | .toldEnded => if c.chat && s.tx.live then some { s with tx := s.tx.tryGetClose } else none

def sys (c : Cfg) : Sys (St α) (Ev α) := ⟨fun s => s = start c, step c⟩

/-- StreamEnd is handed only to the connection every StreamValue was handed to. -/
def endOnSameConn (s : St α) : Ev α → Bool
  | .enqueue =>
    match s.tx.pc, s.via with
    | .ending _, some conn => s.sent.all fun x => x.1 == conn
    | _, _ => true
  | _ => true

/-! ## What is in flight -/

def Msg.items : Msg α → List (Value α)
  | .frame (.value v) => [v]
  | _ => []

def Msg.isValue : Msg α → Bool
  | .frame (.value _) => true
  | _ => false

def laneItems (conn : Nat) (w : List (Nat × Msg α)) : List (Value α) := (row conn w).flatMap Msg.items

end ValueRpc.Stream.Put
