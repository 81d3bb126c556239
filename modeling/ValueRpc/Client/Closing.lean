/-
  ValueRpc.Client.Closing — `Close` beside the requests of a client, and the goroutines that
  serve them (`valueclient/client.go`: `Close`, `sendRequest`, `sendSystemRequest`,
  `sendStreamCredit`, `watchContext`, `invokeUnary`, `GetStream`, `PutStream`, `Chat`,
  `streamOut`, `processResponse`; `valueclient/request.go`: `notifyResult`, `closeResult`,
  `Close`, `TryGetClose`, `TryPutClose`, `SingleResp`; `valueclient/sync_conn.go`: `getConn`,
  `reset`; `valuerpc/pump.go`, `valuerpc/credit.go`).

  A request has a record and up to four goroutines: its caller, in `sendRequest`,
  `SingleResp` and what follows; a context watcher and a `streamOut` once a stream is
  established; and the pump of a stream that receives. A response loop that has read a
  message for it is a fifth. What one of them does next is a function of the record and of
  whether a connection is installed, and it is `none` when the goroutine waits.

  They come to `getConn` in five ways, and it waits there until a connection is installed:
  to send the request, to send a cancel (behind `ensureConnection`, which dials when there is
  none), to grant credit (behind `hasConn`), and from `streamOut`, behind nothing, for a
  value and for the end of the stream.

  `Close` sets the flag, stores nil and closes the connection. It does not look at the
  records. That the reverse streams are closed by it is left out, and so is `Reconnect`: the
  connection does not fail before it is closed. A stream's consumer reads what the pump
  delivers, and there is room in `resultCh` where there is no pump. A request may begin at
  any time: it passed `ensureConnection` before.
-/

import ValueRpc.Lib.Runs
import ValueRpc.Lib.Tally
import ValueRpc.Client.Reconnect

namespace ValueRpc.Client.Closing

open ValueRpc.Lib
open ValueRpc.Core (Kind MessageType Statement)

/-- At `ensureConnection` or `hasConn`, and then in `getConn`. -/
inductive Wait where
  | look
  | conn
  deriving DecidableEq, Repr

inductive Caller where
  | gettingConn
  | waiting
  /-- In `CancelRequest`, after its context or its timer. -/
  | cancelling (w : Wait)
  | failing
  /-- In `sendInitialCredit`. -/
  | crediting (w : Wait)
  | returned (ok : Bool)
  deriving DecidableEq, Repr

inductive Watcher where
  | off
  | waiting
  | cancelling (w : Wait)
  | closing
  | finished
  deriving DecidableEq, Repr

inductive Out where
  | off
  | checking
  | receiving
  | acquiring
  /-- In `getConn`; `last` when it sends the StreamEnd. -/
  | gettingConn (last : Bool)
  | closing
  | finished
  deriving DecidableEq, Repr

inductive Pump where
  | off
  | running
  /-- In `grantCredit`, after a delivery. -/
  | granting (w : Wait)
  | finished
  deriving DecidableEq, Repr

structure Rec where
  kind : Kind
  /-- The caller's context can be cancelled, and it was. -/
  watched : Bool
  ctxDone : Bool
  caller : Caller
  watcher : Watcher
  out : Out
  pump : Pump
  inMap : Bool
  /-- `done` and the credit gate are closed. -/
  closed : Bool
  putClosed : Bool
  cancelled : Bool
  /-- Values in the pump, and in `resultCh`. -/
  queue : Nat
  buffered : Nat
  /-- The pump's `inputEnd` and `stopCh`. -/
  inputEnd : Bool
  stopped : Bool
  chanClosed : Bool
  credit : Nat
  /-- How often `RequestEnd` fired. -/
  ends : Nat
  deriving DecidableEq, Repr

def pumps : Kind → Bool
  | .getStream | .chat => true
  | .unary | .putStream => false

def puts : Kind → Bool
  | .putStream | .chat => true
  | .unary | .getStream => false

namespace Rec

def fresh (kind : Kind) (watched : Bool) : Rec :=
  ⟨kind, watched, false, .gettingConn, .off, .off, if pumps kind then .running else .off, true, false,
    false, false, 0, 0,
    false, false, false, 0, 0⟩

def closeResult (r : Rec) : Rec :=
  if r.closed then r
  else { r with closed := true, inputEnd := true, chanClosed := r.chanClosed || !pumps r.kind, ends := r.ends + 1 }

def close (r : Rec) : Rec := { r.closeResult with putClosed := true, stopped := true }

/-- `notifyResult`; `full` when the pump's queue is. -/
def notifyResult (r : Rec) (full : Bool) : Rec × Bool :=
  if pumps r.kind then
    if r.inputEnd || r.stopped then (r, false)
    else if full then ({ r with inputEnd := true }, false)
    else ({ r with queue := r.queue + 1 }, true)
  else if r.closed then (r, false)
  else ({ r with buffered := r.buffered + 1 }, true)

def established (r : Rec) : Rec :=
  { r with
    caller := .returned true
    watcher := if r.watched then .waiting else .off
    out := if puts r.kind then .checking else .off }

def received (r : Rec) : Rec :=
  match r.kind with
  | .unary => { r with caller := .returned true, buffered := r.buffered - 1 }
  | .putStream => { r with buffered := r.buffered - 1 }.established
  | .getStream | .chat => { r with caller := .crediting .look, buffered := r.buffered - 1 }

end Rec

/-! ## What a goroutine does next

  `inst` says whether a connection is installed, and `b` decides where there is a choice:
  whether a dial succeeds, which ready case a select takes, whether a grant is due. The
  second result is true when a connection was dialed and installed. -/

def callerStep (inst : Bool) (r : Rec) (b : Bool) : Option (Rec × Bool) :=
  match r.caller with
  | .gettingConn => if inst then some ({ r with caller := .waiting }, false) else none
  | .waiting =>
    if r.ctxDone && b then some ({ r with caller := .cancelling .look }, false)
    else if r.buffered ≠ 0 then some (r.received, false)
    else if r.chanClosed then some ({ r with caller := .failing }, false)
    else if r.ctxDone then some ({ r with caller := .cancelling .look }, false)
    else none
  | .cancelling .look =>
    if inst then some ({ r with caller := .cancelling .conn }, false)
    else if b then some ({ r with caller := .cancelling .conn }, true)
    else some ({ r with caller := .failing }, false)
  | .cancelling .conn => if inst then some ({ r with caller := .failing }, false) else none
  | .failing => some ({ r.close with caller := .returned false }, false)
  | .crediting .look => some (if inst then { r with caller := .crediting .conn } else r.established, false)
  | .crediting .conn => if inst then some (r.established, false) else none
  | .returned _ => none

def watcherStep (inst : Bool) (r : Rec) (b : Bool) : Option (Rec × Bool) :=
  match r.watcher with
  | .waiting =>
    if r.ctxDone && b then some ({ r with watcher := .cancelling .look }, false)
    else if r.closed then some ({ r with watcher := .finished }, false)
    else if r.ctxDone then some ({ r with watcher := .cancelling .look }, false)
    else none
  | .cancelling .look =>
    if inst then some ({ r with watcher := .cancelling .conn }, false)
    else if b then some ({ r with watcher := .cancelling .conn }, true)
    else some ({ r with watcher := .closing }, false)
  | .cancelling .conn => if inst then some ({ r with watcher := .closing }, false) else none
  | .closing => some ({ r.close with watcher := .finished }, false)
  | .off | .finished => none

def tryPutClose (r : Rec) : Rec :=
  if r.kind = .putStream then { r.closeResult with putClosed := true, inMap := false }
  else { r with putClosed := true, inMap := r.inMap && !r.closed }

def outStep (inst : Bool) (r : Rec) : Option Rec :=
  match r.out with
  | .checking => some { r with out := if r.putClosed then .closing else .receiving }
  | .acquiring =>
    if r.closed then some { r with out := .closing }
    else if r.credit ≠ 0 then some { r with out := .gettingConn false, credit := r.credit - 1 }
    else none
  | .gettingConn last => if inst then some { r with out := if last then .closing else .checking } else none
  | .closing => some { tryPutClose r with out := .finished }
  | .off | .receiving | .finished => none

def pumpStep (inst : Bool) (r : Rec) (b : Bool) : Option Rec :=
  match r.pump with
  | .running =>
    if r.stopped then some { r with pump := .finished, chanClosed := true }
    else if r.queue ≠ 0 then
      some { r with queue := r.queue - 1, buffered := r.buffered + 1, pump := if b then .granting .look else .running }
    else if r.inputEnd then some { r with pump := .finished, chanClosed := true }
    else none
  | .granting .look => some { r with pump := if inst then .granting .conn else .running }
  | .granting .conn => if inst then some { r with pump := .running } else none
  | .off | .finished => none

inductive Msg where
  | result
  | error
  | ready
  | value
  | streamEnd (hasValue : Bool)
  | cancel
  | credit (n : Nat)
  deriving DecidableEq, Repr

def Msg.final : Msg → Bool
  | .result | .error | .streamEnd _ | .cancel => true
  | .ready | .value | .credit _ => false

def Msg.type : Msg → MessageType
  | .result => .functionResponse
  | .error => .errorResponse
  | .ready => .streamReady
  | .value => .streamValue
  | .streamEnd _ => .streamEnd
  | .cancel => .cancelRequest
  | .credit _ => .streamCredit

def Msg.hasPayload : Msg → Bool
  | .value => true
  | .streamEnd hasValue => hasValue
  | _ => false

structure Handling where
  record : Rec
  taken : Bool
  /-- It goes on to `CancelRequest`. -/
  cancels : Bool

def Handling.notify (x : Handling) (full : Bool) : Handling :=
  { x with record := (x.record.notifyResult full).1, taken := (x.record.notifyResult full).2 }

def Handling.runs (m : Msg) (full : Bool) (x : Handling) : Statement → Handling
  | .notifyResult => x.notify full
  | .notifyPayload => if m.hasPayload then x.notify full else x
  | .cancelOnce =>
    if x.taken || x.record.cancelled then x else { x with
      record := { x.record with cancelled := true }, cancels := true }
  | .setError => x
  | .close => { x with record := x.record.close }
  | .delete => { x with record := { x.record with inMap := false } }
  | .tryGetClose =>
    let r := x.record.closeResult
    { x with record := { r with inMap := r.inMap && decide (r.kind = .chat) && !r.putClosed } }
  | .grant =>
    match m with
    | .credit n => { x with
        record := { x.record with credit := if puts x.record.kind then x.record.credit + n else x.record.credit } }
    | _ => x

/-- True when it goes on to `CancelRequest`. -/
def processResponse (r : Rec) (m : Msg) (full : Bool) : Rec × Bool :=
  let x := (Core.processResponse m.type).foldl (Handling.runs m full) ⟨r, true, false⟩
  (x.record, x.cancels)

/-- A response loop that has a message. -/
inductive At where
  | handling (m : Msg)
  | cancelling (w : Wait)
  deriving DecidableEq, Repr

structure Proc where
  k : Nat
  pc : At
  deriving DecidableEq, Repr

inductive Phase where
  | idle
  | flagged
  | cleared
  | returned
  deriving DecidableEq, Repr

structure St where
  recs : List Rec
  procs : List Proc
  installed : Bool
  /-- A connection is open: messages may come. -/
  opened : Bool
  phase : Phase

def start : St := ⟨[], [], true, true, .idle⟩

inductive Ev where
  | caller (k : Nat) (b : Bool)
  | watcher (k : Nat) (b : Bool)
  | out (k : Nat)
  | pump (k : Nat) (b : Bool)
  | proc (i : Nat) (b : Bool)
  | close
  /-- The user makes a request, cancels a context, sends on `putCh` or closes it (`last`);
      a call's timer fires; the server sends a message. -/
  | begin (kind : Kind) (watched : Bool)
  | cancel (k : Nat)
  | put (k : Nat) (last : Bool)
  | timer (k : Nat)
  | respond (k : Nat) (m : Msg)
  deriving DecidableEq, Repr

def Ev.own : Ev → Bool
  | .caller _ _ | .watcher _ _ | .out _ | .pump _ _ | .proc _ _ | .close => true
  | _ => false

namespace St

def setRec (s : St) (k : Nat) (r : Rec) : St := { s with recs := s.recs.modify k fun _ => r }

def dialed (s : St) (d : Bool) : St := { s with installed := s.installed || d, opened := s.opened || d }

end St

def procStep (s : St) (i : Nat) (q : Proc) (b : Bool) : Option St :=
  match q.pc with
  | .handling m =>
    s.recs[q.k]?.map fun r =>
      if (processResponse r m b).2 then
        { s.setRec q.k (processResponse r m b).1 with
          procs := s.procs.modify i fun q => { q with pc := .cancelling .look } }
      else { s.setRec q.k (processResponse r m b).1 with procs := s.procs.eraseIdx i }
  | .cancelling .look =>
    if s.installed then some { s with procs := s.procs.modify i fun q => { q with pc := .cancelling .conn } }
    else if b then some { s.dialed true with procs := s.procs.modify i fun q => { q with pc := .cancelling .conn } }
    else some { s with procs := s.procs.eraseIdx i }
  | .cancelling .conn => if s.installed then some { s with procs := s.procs.eraseIdx i } else none

def step (s : St) : Ev → Option St
  | .caller k b => s.recs[k]?.bind fun r => (callerStep s.installed r b).map fun x => (s.setRec k x.1).dialed x.2
  | .watcher k b => s.recs[k]?.bind fun r => (watcherStep s.installed r b).map fun x => (s.setRec k x.1).dialed x.2
  | .out k => s.recs[k]?.bind fun r => (outStep s.installed r).map fun r' => s.setRec k r'
  | .pump k b => s.recs[k]?.bind fun r => (pumpStep s.installed r b).map fun r' => s.setRec k r'
  | .proc i b => s.procs[i]?.bind fun q => procStep s i q b
  | .close =>
    match s.phase with
    | .idle => some { s with phase := .flagged }
    | .flagged => some { s with phase := .cleared, installed := false }
    | .cleared => some { s with phase := .returned, opened := s.installed }
    | .returned => none
  | .begin kind watched => some { s with recs := s.recs ++ [.fresh kind watched] }
  | .cancel k =>
    s.recs[k]?.bind fun r => if r.watched then some (s.setRec k { r with ctxDone := true }) else none
  | .put k last =>
    s.recs[k]?.bind fun r =>
      if r.out = .receiving then some
        (s.setRec k { r with out := if last then .gettingConn true else .acquiring }) else none
  | .timer k =>
    s.recs[k]?.bind fun r => if r.caller = .waiting then some
      (s.setRec k { r with caller := .cancelling .look }) else none
  | .respond k m =>
    s.recs[k]?.bind fun r =>
      if s.opened = true ∧ r.inMap = true then some { s with procs := s.procs ++ [⟨k, .handling m⟩] } else none

def sys : Sys St Ev := ⟨fun s => s = start, step⟩

/-- Nothing that is the client's own can move. -/
def St.Stuck (s : St) : Prop := ∀ e : Ev, e.own = true → step s e = none

end ValueRpc.Client.Closing
