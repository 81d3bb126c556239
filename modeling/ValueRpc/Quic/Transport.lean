/-
  ValueRpc.Quic.Transport — the QUIC transport (`quic/transport.go`: `quicMsgConn`) between the
  two RPC cores of one live connection.

  The client opens a QUIC stream for the first frame it writes under a request id
  (`streamForWrite`), the server registers a stream under the id of the first frame it reads
  there (`register`). A QUIC stream is reliable and ordered: each half is the frames written and
  not yet read, and whether it was closed (FIN). Every stream has a reader goroutine on each
  side, which reads a frame, hands it to `ReadMessage` through the one unbuffered channel, and
  on the client then looks at `finOnRead`. `WriteMessage` is called by one goroutine on each
  side and is four steps here, between which readers can run: the lookup, the look at
  `writeClosed`, the write, and `finOnWrite`. `writeClosed` and `localDone` are one field, as
  they are set together.

  Of the cores there is what the results about the transport need: which message types a side
  may pass for an exchange (`legal`, where the order is left open beyond what the request, the
  ack and a side's own StreamEnd fix), when the exchange is over on a side (its record is gone
  or it passed its last frame), and when nothing of it is left there (`retired`). A late
  StreamCredit or CancelRequest can still come after that. A server-initiated exchange has a
  negative id.

  Left out: deadlines, the stream limit, the close of the connection, and that the server reads
  the first frame of the first stream before it accepts the next one. The close of a half and
  the flag that says so are one step: only the writer could see them apart, and a frame it
  writes in between is as one written before. `due`, `home`, `called`, `written` and `lost` are
  records of the run that no step looks at.
-/

import ValueRpc.Core.MessageType
import ValueRpc.Lib.Runs
import Mathlib.Logic.Function.Basic

namespace ValueRpc.Quic

open Function ValueRpc.Lib
open ValueRpc.Core (MessageType)

variable {α : Type}

inductive Side where
  | client
  | server
  deriving DecidableEq, Repr

def Side.peer : Side → Side
  | client => server
  | server => client

inductive Kind where
  | handshake
  | unary
  | getStream
  | putStream
  | chat
  deriving DecidableEq, Repr

def Kind.request : Kind → MessageType
  | .handshake => .handshakeRequest
  | .unary => .functionRequest
  | .getStream => .getStreamRequest
  | .putStream => .putStreamRequest
  | .chat => .chatRequest

structure Frame (α : Type) where
  mt : MessageType
  rid : Int
  body : α
  /-- It was written when the exchange was not over on the peer. -/
  due : Bool
  deriving DecidableEq, Repr

/-! ## The tables of the transport -/

def finOnWrite (d : Side) (mt reqType : MessageType) : Bool :=
  match d with
  | .client => mt = .streamEnd || mt = .cancelRequest
  | .server =>
    match mt with
    | .handshakeResponse | .functionResponse | .errorResponse | .streamEnd => true
    | .streamReady => reqType = .putStreamRequest
    | _ => false

def finOnRead (mt reqType : MessageType) : Bool :=
  match reqType with
  | .functionRequest => mt = .functionResponse || mt = .errorResponse
  | .getStreamRequest => mt = .streamEnd || mt = .errorResponse
  | .handshakeRequest => mt = .handshakeResponse
  | _ => false

/-! ## State -/

inductive Reader (α : Type) where
  /-- There is none yet: the server has not accepted the stream. -/
  | off
  | idle
  /-- At the send into `incoming`. -/
  | funneling (m : Frame α)
  /-- `ReadMessage` took the frame. -/
  | funneled (m : Frame α)
  | gone
  deriving DecidableEq, Repr

structure StreamState (α : Type) where
  rid : Int
  reqType : MessageType
  registered : Bool
  writeClosed : Bool
  remoteDone : Bool
  reader : Reader α
  deriving DecidableEq, Repr

inductive Writer (α : Type) where
  | idle
  | found (sid : Nat) (m : Frame α) (reqType : MessageType)
  /-- The write half was open. -/
  | clear (sid : Nat) (m : Frame α) (reqType : MessageType)
  | wrote (sid : Nat) (m : Frame α) (reqType : MessageType)
  deriving DecidableEq, Repr

structure Half (α : Type) where
  frames : List (Frame α)
  fin : Bool
  deriving DecidableEq, Repr

structure St (α : Type) where
  opened : Nat
  accepted : Nat
  halves : Side × Nat → Half α
  states : Side × Nat → StreamState α
  streams : Side × Int → Option Nat
  writer : Side → Writer α
  -- the cores
  lastRequest : Nat
  lastServerRequest : Nat
  kinds : Int → Option Kind
  passed : Side × Int → List MessageType
  finished : Side × Int → Bool
  retired : Side × Int → Bool
  -- records of the run
  home : Int → Option Nat
  called : Side × Int → List (MessageType × α)
  written : Side × Int → List (Frame α)
  /-- The frames a side wrote that the peer's `ReadMessage` returned. -/
  returned : Side × Int → List (Frame α)
  /-- Frames that were swallowed or refused, and whether the exchange was over on the peer. -/
  lost : List (Side × Frame α × Bool)

inductive Ev (α : Type) where
  | issue (kind : Kind)
  | reverse (kind : Kind)
  | pass (d : Side) (rid : Int) (mt : MessageType) (body : α)
  | check (d : Side)
  | put (d : Side)
  | finish (d : Side)
  | accept
  | take (d : Side) (sid : Nat)
  | eof (d : Side) (sid : Nat)
  | read (d : Side) (sid : Nat)
  | resume (d : Side) (sid : Nat)
  | drop (d : Side) (rid : Int)
  | retire (d : Side) (rid : Int)
  deriving DecidableEq, Repr

/-! ## What a core may pass, and when an exchange is over for it -/

def initiator (rid : Int) : Side := if rid < 0 then .server else .client

def St.got (s : St α) (d : Side) (rid : Int) (mt : MessageType) : Bool :=
    (s.returned (d.peer, rid)).any fun m => m.mt = mt

def legalInitiator (s : St α) (d : Side) (rid : Int) (kind : Kind) (mt : MessageType) : Bool :=
  if s.passed (d, rid) = [] then mt = kind.request
  else
    match mt with
    | .cancelRequest => kind ≠ .handshake
    | .streamCredit => kind = .getStream || kind = .chat
    | .streamValue | .streamEnd =>
      (kind = .putStream || kind = .chat) && !(s.passed (d, rid)).contains .streamEnd && s.got d rid .streamReady
    | _ => false

def legalResponder (kind : Kind) (mt : MessageType) : Bool :=
  match kind, mt with
  | .handshake, .handshakeResponse => true
  | .unary, .functionResponse | .unary, .errorResponse => true
  | .getStream, .streamReady | .getStream, .streamValue | .getStream, .streamEnd | .getStream, .errorResponse => true
  | .putStream, .streamReady | .putStream, .streamCredit | .putStream, .errorResponse => true
  | .chat, .streamReady | .chat, .streamValue | .chat, .streamEnd | .chat, .streamCredit | .chat,
      .errorResponse => true
  | _, _ => false

/-- Behind the end of everything else only a grant or a cancel can come. -/
def late (mt : MessageType) : Bool := mt = .streamCredit || mt = .cancelRequest

def legal (s : St α) (d : Side) (rid : Int) (mt : MessageType) : Bool :=
  match s.kinds rid with
  | some kind =>
    (!s.retired (d, rid) || late mt) &&
      if initiator rid = d then legalInitiator s d rid kind mt
      else !(s.returned (d.peer, rid)).isEmpty && legalResponder kind mt
  | none => false

def endsOnPass (s : St α) (d : Side) (rid : Int) (mt : MessageType) : Bool :=
  if initiator rid = d then
    mt = .cancelRequest ||
      mt = .streamEnd && (s.kinds rid = some .putStream || s.kinds rid = some .chat && s.got d rid .streamEnd)
  else mt = .handshakeResponse || mt = .functionResponse || mt = .errorResponse || mt = .streamEnd

def endsOnRead (s : St α) (d : Side) (rid : Int) (mt : MessageType) : Bool :=
  if initiator rid = d then
    mt = .handshakeResponse || mt = .functionResponse || mt = .errorResponse ||
      mt = .streamEnd && (s.kinds rid = some .getStream ||
        s.kinds rid = some .chat && (s.passed (d, rid)).contains .streamEnd)
  else mt = .cancelRequest || mt = .streamEnd && s.kinds rid = some .putStream

/-! ## Steps -/

def St.setState (s : St α) (d : Side) (sid : Nat) (x : StreamState α) : St α :=
  { s with states := update s.states (d, sid) x }

def St.setWriter (s : St α) (d : Side) (w : Writer α) : St α := { s with writer := update s.writer d w }

def St.lose (s : St α) (d : Side) (m : Frame α) : St α :=
  { s.setWriter d .idle with lost := s.lost ++ [(d, m, s.finished (d.peer, m.rid))] }

def St.finWrite (s : St α) (d : Side) (sid : Nat) : St α :=
  let x := s.states (d, sid)
  if x.writeClosed then s
  else
    { s with
      states := update s.states (d, sid) { x with writeClosed := true }
      streams := if x.remoteDone then update s.streams (d, x.rid) none else s.streams
      halves := update s.halves (d, sid) { s.halves (d, sid) with fin := true } }

def St.markRemoteDone (s : St α) (d : Side) (sid : Nat) : St α :=
  let x := s.states (d, sid)
  { s with
    states := update s.states (d, sid) { x with remoteDone := true, reader := .gone }
    streams := if x.writeClosed then update s.streams (d, x.rid) none else s.streams }

def St.register (s : St α) (d : Side) (sid : Nat) (m : Frame α) : St α :=
  let x := s.states (d, sid)
  if x.registered then s
  else
    { s with
      states := update s.states (d, sid) { x with registered := true, reqType := m.mt, rid := m.rid }
      streams := update s.streams (d, m.rid) (some sid) }

/-- The new stream of a client's first frame under an id. -/
def St.openStream (s : St α) (m : Frame α) : St α :=
  { s with
    opened := s.opened + 1
    states := update s.states (.client, s.opened) ⟨m.rid, m.mt, true, false, false, .idle⟩
    streams := update s.streams (.client, m.rid) (some s.opened)
    home := if s.home m.rid = none then update s.home m.rid (some s.opened) else s.home }

/-- The core's side of a call of `WriteMessage`. -/
def St.passing (s : St α) (d : Side) (rid : Int) (mt : MessageType) : St α :=
  { s with
    passed := update s.passed (d, rid) (s.passed (d, rid) ++ [mt])
    finished := update s.finished (d, rid) (s.finished (d, rid) || endsOnPass s d rid mt) }

def St.streamForWrite (s : St α) (d : Side) (m : Frame α) : St α :=
  match s.streams (d, m.rid) with
  | some sid => s.setWriter d (.found sid m (s.states (d, sid)).reqType)
  | none =>
    match d with
    | .server => s.lose .server m
    | .client => (s.openStream m).setWriter .client (.found s.opened m m.mt)

/-- A call of `WriteMessage`, up to the stream. -/
def St.call (s : St α) (d : Side) (rid : Int) (mt : MessageType) (body : α) : St α :=
  { (s.passing d rid mt).streamForWrite d ⟨mt, rid, body, false⟩ with
    called := update s.called (d, rid) (s.called (d, rid) ++ [(mt, body)]) }

def St.writeFrame (s : St α) (d : Side) (sid : Nat) (m : Frame α) (reqType : MessageType) : St α :=
  let m := { m with due := !s.finished (d.peer, m.rid) }
  { s.setWriter d (.wrote sid m reqType) with
    halves := update s.halves (d, sid) { s.halves (d, sid) with frames := (s.halves (d, sid)).frames ++ [m] }
    written := update s.written (d, m.rid) (s.written (d, m.rid) ++ [m]) }

def step (s : St α) : Ev α → Option (St α)
  | .issue kind =>
    match kind with
    | .handshake => if s.kinds 0 = none then some { s with kinds := update s.kinds 0 (some .handshake) } else none
    | _ =>
      some { s with
        lastRequest := s.lastRequest + 1
        kinds := update s.kinds ((s.lastRequest : Int) + 1) (some kind) }
  | .reverse kind =>
    if kind = .handshake then none
    else
      some { s with
        lastServerRequest := s.lastServerRequest + 1
        kinds := update s.kinds (-((s.lastServerRequest : Int) + 1)) (some kind) }
  | .pass d rid mt body =>
    match s.writer d with
    | .idle => if legal s d rid mt then some (s.call d rid mt body) else none
    | _ => none
  | .check d =>
    match s.writer d with
    | .found sid m reqType =>
      some (if (s.states (d, sid)).writeClosed then s.lose d m else s.setWriter d (.clear sid m reqType))
    | _ => none
  | .put d =>
    match s.writer d with
    | .clear sid m reqType =>
      -- a write on a half that was closed meanwhile fails, and is swallowed
      some (if (s.halves (d, sid)).fin then s.lose d m else s.writeFrame d sid m reqType)
    | _ => none
  | .finish d =>
    match s.writer d with
    | .wrote sid m reqType =>
      some ((if finOnWrite d m.mt reqType then s.finWrite d sid else s).setWriter d .idle)
    | _ => none
  | .accept =>
    if s.accepted < s.opened then
      some { s.setState .server s.accepted ⟨0, .handshakeRequest, false, false, false, .idle⟩ with
        accepted := s.accepted + 1 }
    else none
  | .take d sid =>
    match (s.states (d, sid)).reader, (s.halves (d.peer, sid)).frames with
    | .idle, m :: rest =>
      let s := s.register d sid m
      some { s.setState d sid { s.states (d, sid) with reader := .funneling m } with
        halves := update s.halves (d.peer, sid) { s.halves (d.peer, sid) with frames := rest } }
    | _, _ => none
  | .eof d sid =>
    match (s.states (d, sid)).reader, (s.halves (d.peer, sid)).frames with
    | .idle, [] => if (s.halves (d.peer, sid)).fin then some (s.markRemoteDone d sid) else none
    | _, _ => none
  | .read d sid =>
    match (s.states (d, sid)).reader with
    | .funneling m =>
      some { s.setState d sid { s.states (d, sid) with reader := .funneled m } with
        returned := update s.returned (d.peer, m.rid) (s.returned (d.peer, m.rid) ++ [m])
        finished := update s.finished (d, m.rid) (s.finished (d, m.rid) || endsOnRead s d m.rid m.mt) }
    | _ => none
  | .resume d sid =>
    match (s.states (d, sid)).reader with
    | .funneled m =>
      let s := s.setState d sid { s.states (d, sid) with reader := .idle }
      some (if d = .client ∧ finOnRead m.mt (s.states (d, sid)).reqType = true then s.finWrite d sid else s)
    | _ => none
  | .drop d rid =>
    if s.passed (d, rid) = [] ∧ (s.returned (d.peer, rid)).isEmpty = true then none
    else some { s with finished := update s.finished (d, rid) true }
  | .retire d rid => if s.finished (d, rid) then some { s with retired := update s.retired (d, rid) true } else none

def noStream : StreamState α := ⟨0, .handshakeRequest, false, false, false, .off⟩

def start : St α where
  opened := 0
  accepted := 0
  halves := fun _ => ⟨[], false⟩
  states := fun _ => noStream
  streams := fun _ => none
  writer := fun _ => .idle
  lastRequest := 0
  lastServerRequest := 0
  kinds := fun _ => none
  passed := fun _ => []
  finished := fun _ => false
  retired := fun _ => false
  home := fun _ => none
  called := fun _ => []
  written := fun _ => []
  returned := fun _ => []
  lost := []

def sys : Sys (St α) (Ev α) := ⟨fun s => s = start, step⟩

end ValueRpc.Quic
