/-
  ValueRpc.Stream.Endpoint — the two ends of one stream direction, as the four
  hand-mirrored implementations have them.

  A direction carries values from a sender to a receiver, and StreamCredit back. The
  side that opened the stream is the initiator, the other the responder.

  Receivers. An initiator (client `rpcRequestCtx`, server `clientStream`) gets the
  StreamReady ack through its pump as a nil and starts its delivery count at -1; a
  responder (server `servingRequest`, client `clientServingRequest`) has no ack and
  starts at 0. The server's `setupInbound` takes the configured bound as its window as
  it is; the other three turn a bound of 0 or less into the default first.

  Senders. A responder runs `outgoingStreamer`: StreamReady, then the handler's values,
  each after an `Acquire`, then StreamEnd and `closeRequest`. An initiator runs
  `streamOut`: it checks that the put side is open, takes a value, acquires, sends; a
  closed input channel sends StreamEnd; then `TryPutClose`.

  Each frame handler below is the part of the source's handler for the frames of the
  direction: `processResponse`, `serveRunningRequest`, `handleInbound`, `serveRunning`.
-/

import ValueRpc.Core.Credit
import ValueRpc.Core.Error
import ValueRpc.Core.MessageType
import ValueRpc.Core.Pump

namespace ValueRpc.Stream

open ValueRpc.Core

variable {α : Type}

/-- The frames from the sender: StreamReady, StreamValue, StreamEnd. A value is as the
    peer decodes it. -/
inductive Frame (α : Type) where
  | ready
  | value (v : Value α)
  | fin (v : Value α)
  deriving DecidableEq, Repr

/-- The frames from the receiver: StreamCredit, ErrorResponse, CancelRequest. -/
inductive Back where
  | credit (n : Int)
  | error (e : Error)
  | cancel
  deriving DecidableEq, Repr

def Back.amount : Back → Int
  | .credit n => max n 0
  | _ => 0

theorem Back.amount_credit (n : Int) : (Back.credit n).amount = max n 0 := rfl

theorem Back.amount_nonneg (b : Back) : 0 ≤ b.amount := by
  unfold Back.amount
  split <;> omega

theorem amounts_nonneg (bs : List Back) : 0 ≤ (bs.map Back.amount).sum := by
  induction bs with
  | nil => simp
  | cons b bs ih =>
    have := b.amount_nonneg
    simp only [List.map_cons, List.sum_cons]; omega

/-! ## Receivers -/

structure Receiver (α : Type) where
  requestId : Int
  chat : Bool
  creditWindow : Int
  /-- `recvDelivered` or `inboundDelivered`: values delivered since the last grant. -/
  delivered : Int
  pump : StreamPump α
  pc : RunPc α
  /-- What is buffered in the consumer's channel (`resultCh` or `inC`), and its capacity. -/
  out : List (Value α)
  outCap : Nat
  /-- The record is in its map, so frames reach it. -/
  live : Bool
  /-- `getClosed` of an initiator, `inClosed` of a responder. -/
  ended : Bool
  /-- `putClosed` of an initiator: its other half is over. -/
  putClosed : Bool
  cancelOnce : Bool
  resultErr : Option Error
  deriving DecidableEq, Repr

def newReceiver (requestId : Int) (chat : Bool) (creditWindow delivered maxPending : Int) (outCap : Nat) :
    Receiver α where
  requestId := requestId
  chat := chat
  creditWindow := creditWindow
  delivered := delivered
  pump := .new maxPending
  pc := .waiting
  out := []
  outCap := outCap
  live := true
  ended := false
  putClosed := false
  cancelOnce := false
  resultErr := none

/-- `if maxPending <= 0 { maxPending = DefaultMaxPending }`. -/
def orDefault (maxPending : Int) : Int := if maxPending ≤ 0 then defaultMaxPending else maxPending

/-- An initiator's record: the ack will bring the count from -1 to 0. -/
def initiatorReceiver (requestId : Int) (chat : Bool) (receiveCap : Nat) (maxPending : Int) : Receiver α :=
  newReceiver requestId chat (orDefault maxPending) (-1) (orDefault maxPending) receiveCap

/-- Client `NewRequestCtx` (get-stream, chat). -/
def newRequestCtx (requestId : Int) (chat : Bool) (receiveCap : Nat) (maxPending : Int) : Receiver α :=
  initiatorReceiver requestId chat receiveCap maxPending

/-- Server `newClientStream` (get-stream, chat). -/
def newClientStream (requestId : Int) (chat : Bool) (receiveCap : Nat) (maxPending : Int) : Receiver α :=
  initiatorReceiver requestId chat receiveCap maxPending

/-- Server `setupInbound`: the window is the configured bound, whatever it is. -/
def setupInboundServer (requestId : Int) (chat : Bool) (incomingQueueCap : Nat) (maxPending : Int) : Receiver α :=
  newReceiver requestId chat maxPending 0 maxPending incomingQueueCap

/-- Client `setupInbound`: `inC` has the bound as its capacity. -/
def setupInboundClient (requestId : Int) (chat : Bool) (maxPending : Int) : Receiver α :=
  newReceiver requestId chat (orDefault maxPending) 0 (orDefault maxPending) (orDefault maxPending).toNat

/-- What the pump's goroutine took and has not put into the channel. -/
def runItems : RunPc α → List (Value α)
  | .holding v => [v]
  | _ => []

namespace Receiver

/-! ### The pump goroutine -/

/-- One turn of `run` under the lock: take a value, or return. -/
def turn (r : Receiver α) : Option (Receiver α) :=
  match r.pc with
  | .waiting =>
    if r.pump.stopped then some { r with pc := .finished }
    else match r.pump.take with
      | some (v, p) => some { r with pump := p, pc := .holding v }
      | none => if r.pump.inputEnd then some { r with pc := .finished } else none
  | _ => none

/-- `p.out <- v`, the value it holds in the channel. -/
def putOut (r : Receiver α) : Option (Receiver α) :=
  match r.pc with
  | .holding v => some { r with out := r.out ++ [v], pc := .delivered v }
  | _ => none

/-- `case <-p.stopCh` at the send. -/
def abandon (r : Receiver α) : Option (Receiver α) :=
  match r.pc with
  | .holding _ => if r.pump.stopped then some { r with pc := .finished } else none
  | _ => none

theorem turn_some {r r' : Receiver α} (h : r.turn = some r') : r.pc = .waiting ∧
    ((∃ v p, r.pump.stopped = false ∧ r.pump.take = some (v, p) ∧ r' = { r with pump := p, pc := .holding v }) ∨
      (r.pump.stopped = true ∨ r.pump.take = none ∧ r.pump.inputEnd = true) ∧ r' = { r with pc := .finished }) := by
  unfold turn at h
  split at h
  · rename_i hp
    refine ⟨hp, ?_⟩
    split at h
    · cases h
      exact .inr ⟨.inl ‹_›, rfl⟩
    · rename_i hs
      split at h
      · cases h
        exact .inl ⟨_, _, Bool.eq_false_iff.mpr hs, ‹_›, rfl⟩
      · split at h
        · cases h
          exact .inr ⟨.inr ⟨‹_›, ‹_›⟩, rfl⟩
        · cases h
  · cases h

theorem putOut_some {r r' : Receiver α} (h : r.putOut = some r') :
    ∃ v, r.pc = .holding v ∧ r' = { r with out := r.out ++ [v], pc := .delivered v } := by
  unfold putOut at h
  split at h
  · cases h
    exact ⟨_, ‹_›, rfl⟩
  · cases h

theorem abandon_some {r r' : Receiver α} (h : r.abandon = some r') :
    ∃ v, r.pc = .holding v ∧ r.pump.stopped = true ∧ r' = { r with pc := .finished } := by
  unfold abandon at h
  split at h
  · split at h
    · cases h
      exact ⟨_, ‹_›, ‹_›, rfl⟩
    · cases h
  · cases h

/-- The deliver hook, one body in all four: count the delivery, and at half the window
    grant what was counted. -/
def grantDelivered (r : Receiver α) : Receiver α :=
  let n := r.delivered + 1
  if grantBatch r.creditWindow ≤ n then { r with delivered := 0, pc := .granting n }
  else { r with delivered := n, pc := .waiting }

/-- Client `rpcRequestCtx.grantRecv`. -/
def grantRecv (r : Receiver α) : Receiver α := r.grantDelivered

/-- Server `clientStream.grantRecv`. -/
def grantRecvServer (r : Receiver α) : Receiver α := r.grantDelivered

/-- Server `servingRequest.grantInbound`. -/
def grantInbound (r : Receiver α) : Receiver α := r.grantDelivered

/-- Client `clientServingRequest.grantInbound`. -/
def grantInboundClient (r : Receiver α) : Receiver α := r.grantDelivered

/-! ### Teardown -/

/-- `TryGetClose` / `tryGetClose`: the get side is over; the pump drains and finishes.
    A chat's record stays until the put side is over too. -/
def tryGetClose (r : Receiver α) : Receiver α :=
  { r with ended := true, pump := r.pump.close, live := r.live && r.chat && !r.putClosed }

def close (r : Receiver α) : Receiver α :=
  { r with ended := true, putClosed := true, pump := r.pump.stop.close, live := false }

/-- `closeInboundChan`: end of input for the handler, once. -/
def closeInboundChan (r : Receiver α) : Receiver α :=
  if r.ended then r else { r with ended := true, pump := r.pump.close }

/-- A responder's `closeRequest`: drop the record and abandon the input. -/
def closeRequest (r : Receiver α) : Receiver α := { r with ended := true, pump := r.pump.stop, live := false }

/-- `offer` / `Push` / `notifyResult`: the record after the push, and what it returned. -/
def offer (grow : Nat → Nat) (r : Receiver α) (v : Value α) : Receiver α × Bool :=
  ({ r with pump := (r.pump.push grow v).1 }, (r.pump.push grow v).2)

end Receiver

/-! ### Frames from the sender -/

def truncated (what : String) (r : Receiver α) (who : String) : Error :=
  ⟨.resourceExhausted, what ++ " " ++ toString r.requestId ++ " truncated: " ++ who ++ " exceeded flow-control credit"⟩

def Frame.type : Frame α → MessageType
  | .ready => .streamReady
  | .value _ => .streamValue
  | .fin _ => .streamEnd

def Frame.payload : Frame α → Value α
  | .ready => .nil
  | .value v | .fin v => v

structure Handling (α : Type) where
  record : Receiver α
  /-- What `notifyResult` returned. -/
  taken : Bool
  sent : List Back

def Handling.notify (x : Handling α) (grow : Nat → Nat) (v : Value α) : Handling α :=
  { x with record := (x.record.offer grow v).1, taken := (x.record.offer grow v).2 }

def Handling.runs (grow : Nat → Nat) (v : Value α) (x : Handling α) : Statement → Handling α
  | .notifyResult => x.notify grow .nil
  | .notifyPayload => if v.isData then x.notify grow v else x
  | .cancelOnce =>
    if x.taken || x.record.cancelOnce then x
    else
      { x with
        record := { x.record with cancelOnce := true, resultErr := some (truncated "stream" x.record "server") }
        sent := [.cancel] }
  | .tryGetClose => { x with record := x.record.tryGetClose }
  -- of no frame of a stream's sender
  | .setError | .close | .delete | .grant => x

def processResponse (grow : Nat → Nat) (r : Receiver α) (f : Frame α) : Receiver α × List Back :=
  let x := (Core.processResponse f.type).foldl (Handling.runs grow f.payload) ⟨r, true, []⟩
  (x.record, x.sent)

theorem processResponse_value (grow : Nat → Nat) (r : Receiver α) (v : Value α) :
    processResponse grow r (.value v) =
      if v.isData then
        match r.offer grow v with
        | (r', true) => (r', [])
        | (r', false) =>
          if r'.cancelOnce then (r', [])
          else ({ r' with cancelOnce := true, resultErr := some (truncated "stream" r' "server") }, [.cancel])
      else (r, []) := by
  cases hv : v.isData with
  | false => simp [processResponse, Frame.type, Frame.payload, Core.processResponse, Handling.runs, hv]
  | true =>
    cases hr : r.offer grow v with | mk r' taken =>
    simp only [processResponse, Frame.type, Frame.payload, Core.processResponse, List.foldl, Handling.runs,
      hv, if_true,
      Handling.notify, hr]
    cases taken with
    | true => rfl
    | false => cases hc : r'.cancelOnce <;> simp [hc]

theorem processResponse_fin (grow : Nat → Nat) (r : Receiver α) (v : Value α) :
    processResponse grow r (.fin v) = ((if v.isData then (r.offer grow v).1 else r).tryGetClose, []) := by
  cases hv : v.isData <;>
    simp [processResponse, Frame.type, Frame.payload, Core.processResponse, Handling.runs, Handling.notify, hv]

/-- Server `clientStream.handleInbound`. -/
def handleInbound (grow : Nat → Nat) (r : Receiver α) : Frame α → Receiver α × List Back
  | .ready => ((r.offer grow .nil).1, [])
  | .value v =>
    if v.isData then
      match r.offer grow v with
      | (r', true) => (r', [])
      | (r', false) =>
        if r'.pump.overflow then (r'.close, [.error (truncated "reverse stream" r' "peer")]) else (r', [])
    else (r, [])
  | .fin v => ((if v.isData then (r.offer grow v).1 else r).tryGetClose, [])

def incomingStreamValue (grow : Nat → Nat) (r : Receiver α) (v : Value α) : Receiver α :=
  if v.neNull then (r.offer grow v).1 else r

def incomingStreamEnd (grow : Nat → Nat) (r : Receiver α) (v : Value α) : Receiver α :=
  let r := if v.neNull then (r.offer grow v).1 else r
  if r.chat then r.closeInboundChan
  else { r.closeInboundChan with live := false }

/-- Server `serveRunningRequest`; StreamReady is an unknown message there. -/
def serveRunningRequest (grow : Nat → Nat) (r : Receiver α) : Frame α → Receiver α × List Back
  | .ready => (r, [])
  | .value v =>
    let r := incomingStreamValue grow r v
    if r.pump.overflow then (r.closeRequest, [.error (truncated "inbound stream" r "client")]) else (r, [])
  | .fin v => (incomingStreamEnd grow r v, [])

/-- A value at a record whose input is over changes nothing. -/
theorem Receiver.serveRunningRequest_refused {grow : Nat → Nat} {r : Receiver α} {v : Value α}
    (h : r.pump.inputEnd = true ∨ r.pump.stopped = true) (ho : r.pump.overflow = false) :
    serveRunningRequest grow r (.value v) = (r, []) := by
  have hr : incomingStreamValue grow r v = r := by
    unfold incomingStreamValue Receiver.offer
    rw [StreamPump.push_refused grow v h]
    split <;> rfl
  simp [serveRunningRequest, hr, ho]

theorem Receiver.serveRunningRequest_ended (grow : Nat → Nat) {r : Receiver α} (h : r.ended = true) :
    ∃ live, serveRunningRequest grow r (.fin .null) = ({ r with live := live }, []) := by
  have hr : r.closeInboundChan = r := by
    unfold closeInboundChan
    rw [if_pos h]
  refine ⟨if r.chat then r.live else false, ?_⟩
  simp only [serveRunningRequest, incomingStreamEnd, Value.neNull, Bool.false_eq_true, if_false, hr]
  split <;> rfl

/-- Client `serveRunning`. -/
def serveRunning (grow : Nat → Nat) (r : Receiver α) : Frame α → Receiver α × List Back
  | .ready => (r, [])
  | .value v =>
    let r := if v.isData then (r.offer grow v).1 else r
    if r.pump.overflow then (r.closeRequest, [.error (truncated "inbound stream" r "peer")]) else (r, [])
  | .fin v =>
    let r := (if v.isData then (r.offer grow v).1 else r).closeInboundChan
    (if r.chat then r else { r with live := false }, [])

/-! ## Senders -/

inductive SendPc (α : Type) where
  | start
  /-- `streamOut`'s loop condition. -/
  | check
  | receiving
  /-- It took a value and waits in `Acquire`. -/
  | acquiring (v : Value α)
  /-- It holds a credit for the value and is at the send. -/
  | sending (v : Value α)
  | ending (v : Value α)
  /-- Past the loop, before the record is retired. -/
  | retiring
  | ended
  deriving DecidableEq, Repr

/-- The value the sender goroutine took and has not sent. -/
def SendPc.inHand : SendPc α → List (Value α)
  | .acquiring v => [v]
  | .sending v => [v]
  | _ => []

def SendPc.isDone : SendPc α → Bool
  | .retiring => true
  | .ended => true
  | _ => false

structure Sender (α : Type) where
  gate : CreditGate
  pc : SendPc α
  chat : Bool
  /-- The record is in its map, so StreamCredit reaches it. -/
  live : Bool
  /-- `closed` of a responder, `putClosed` of an initiator. -/
  closed : Bool
  /-- `getClosed` of an initiator: its other half is over. -/
  getClosed : Bool
  deriving DecidableEq, Repr

def newSender (chat : Bool) : Sender α := ⟨.new, .start, chat, true, false, false⟩

namespace Sender

def closeRequest (t : Sender α) : Sender α := { t with live := false, closed := true, gate := t.gate.close }

/-- An initiator's `Close` with the record dropped. -/
def close (t : Sender α) : Sender α :=
    { t with live := false, closed := true, getClosed := true, gate := t.gate.close }

/-- `TryPutClose`: terminal for a put-stream; a chat's record stays until its get side
    is over. -/
def tryPutClose (t : Sender α) : Sender α :=
  if t.chat then { t with closed := true, live := t.live && !t.getClosed }
  else { t with closed := true, gate := t.gate.close, live := false }

/-- The get side of a chat ended (`TryGetClose`): `closeResult` closes the gate. -/
def tryGetClose (t : Sender α) : Sender α :=
  { t with getClosed := true, gate := t.gate.close, live := t.live && !t.closed }

end Sender

/-! ### Frames from the receiver -/

def processResponseBack (t : Sender α) : Back → Sender α
  | .credit n => { t with gate := t.gate.grant n }
  | .error _ => t.close
  | .cancel => t.close

/-- Server `clientStream.handleInbound`; CancelRequest falls to its default. -/
def handleInboundBack (t : Sender α) : Back → Sender α
  | .credit n => { t with gate := t.gate.grant n }
  | .error _ => t.close
  | .cancel => t

/-- A responder: an ErrorResponse does not reach the serving request on the server
    (it completes a pending call), and `serveRunning` has no case for it. -/
def servingBack (t : Sender α) : Back → Sender α
  | .credit n => { t with gate := t.gate.grant n }
  | .error _ => t
  | .cancel => t.closeRequest

def serveRunningRequestBack (t : Sender α) (b : Back) : Sender α := servingBack t b

def serveRunningBack (t : Sender α) (b : Back) : Sender α := servingBack t b

/-! ## The four directions -/

inductive Dir where
  /-- Server `outgoingStreamer` to client `rpcRequestCtx`: get-stream, a chat's output. -/
  | get
  /-- Client `streamOut` to server `servingRequest`: put-stream, a chat's input. -/
  | put
  /-- Client `outgoingStreamer` to server `clientStream`. -/
  | reverseGet
  /-- Server `streamOut` to client `clientServingRequest`. -/
  | reversePut
  deriving DecidableEq, Repr

namespace Dir

/-- The receiver opened the stream. -/
def toInitiator : Dir → Bool
  | get => true
  | put => false
  | reverseGet => true
  | reversePut => false

def receiver (d : Dir) (requestId : Int) (chat : Bool) (outCap : Nat) (maxPending : Int) : Receiver α :=
  match d with
  | get => newRequestCtx requestId chat outCap maxPending
  | put => setupInboundServer requestId chat outCap maxPending
  | reverseGet => newClientStream requestId chat outCap maxPending
  | reversePut => setupInboundClient requestId chat maxPending

def window (d : Dir) (maxPending : Int) : Int :=
  match d with
  | put => maxPending
  | _ => orDefault maxPending

/-- One shape for the four: the window is also the pump's bound, and the count starts
    below zero where the ack goes through the pump. -/
theorem receiver_eq (d : Dir) (requestId : Int) (chat : Bool) (outCap : Nat) (n : Int) :
    ∃ cap, (d.receiver requestId chat outCap n : Receiver α) =
      newReceiver requestId chat (d.window n) (if d.toInitiator then -1 else 0) (d.window n) cap := by
  cases d with
  | get => exact ⟨outCap, rfl⟩
  | put => exact ⟨outCap, rfl⟩
  | reverseGet => exact ⟨outCap, rfl⟩
  | reversePut => exact ⟨(orDefault n).toNat, rfl⟩

def receive (d : Dir) (grow : Nat → Nat) (r : Receiver α) (f : Frame α) : Receiver α × List Back :=
  match d with
  | get => processResponse grow r f
  | put => serveRunningRequest grow r f
  | reverseGet => handleInbound grow r f
  | reversePut => serveRunning grow r f

def receiveBack (d : Dir) (t : Sender α) (b : Back) : Sender α :=
  match d with
  | get => serveRunningRequestBack t b
  | put => processResponseBack t b
  | reverseGet => serveRunningBack t b
  | reversePut => handleInboundBack t b

def onDeliver (d : Dir) (r : Receiver α) : Receiver α :=
  match d with
  | get => r.grantRecv
  | put => r.grantInbound
  | reverseGet => r.grantRecvServer
  | reversePut => r.grantInboundClient

/-! ### What a frame does, one lemma for the four -/

theorem receive_ready {d : Dir} (grow : Nat → Nat) (r : Receiver α) (hi : d.toInitiator = true) :
    d.receive grow r .ready = ({ r with pump := (r.pump.push grow .nil).1 }, []) := by
  cases d with
  | get => rfl
  | put => cases hi
  | reverseGet => rfl
  | reversePut => cases hi

/-- A payload the pump accepts is queued, and nothing else happens. -/
theorem receive_data (d : Dir) {grow : Nat → Nat} {r : Receiver α} {v : Value α} {p : StreamPump α}
    (hv : v.isData = true) (hp : r.pump.push grow v = (p, true)) (ho : p.overflow = false) :
    d.receive grow r (.value v) = ({ r with pump := p }, []) := by
  have hn : v.neNull = true := by cases v <;> simp_all [Value.isData, Value.neNull]
  cases d with
  | get => simp [receive, processResponse_value, Receiver.offer, hv, hp]
  | put => simp [receive, serveRunningRequest, incomingStreamValue, Receiver.offer, hn, hp, ho]
  | reverseGet => simp [receive, handleInbound, Receiver.offer, hv, hp]
  | reversePut => simp [receive, serveRunning, Receiver.offer, hv, hp, ho]

/-- A Null is skipped: nothing is queued and no credit goes back. -/
theorem receive_null (d : Dir) (grow : Nat → Nat) {r : Receiver α} (ho : r.pump.overflow = false) :
    d.receive grow r (.value .null) = (r, []) := by
  cases d with
  | get => rfl
  | put => simp [receive, serveRunningRequest, incomingStreamValue, Value.neNull, ho]
  | reverseGet => rfl
  | reversePut => simp [receive, serveRunning, Value.isData, ho]

/-- StreamEnd ends the input; the record stays or goes. -/
theorem receive_fin (d : Dir) (grow : Nat → Nat) {r : Receiver α} (he : r.ended = false) :
    ∃ live, d.receive grow r (.fin .null) = ({ r with ended := true, pump := r.pump.close, live := live }, []) := by
  cases d with
  | get => exact ⟨_, rfl⟩
  | reverseGet => exact ⟨_, rfl⟩
  | put =>
    cases hc : r.chat with
    | true => exact ⟨r.live, by simp [receive, serveRunningRequest, incomingStreamEnd, Value.neNull,
        Receiver.closeInboundChan, he, hc]⟩
    | false => exact ⟨false, by simp [receive, serveRunningRequest, incomingStreamEnd, Value.neNull,
        Receiver.closeInboundChan, he, hc]⟩
  | reversePut =>
    cases hc : r.chat with
    | true => exact ⟨r.live, by simp [receive, serveRunning, Value.isData, Receiver.closeInboundChan, he, hc]⟩
    | false => exact ⟨false, by simp [receive, serveRunning, Value.isData, Receiver.closeInboundChan, he, hc]⟩

theorem onDeliver_eq (d : Dir) (r : Receiver α) : d.onDeliver r = r.grantDelivered := by cases d <;> rfl

theorem receiveBack_credit (d : Dir) (t : Sender α) (n : Int) :
    d.receiveBack t (.credit n) = { t with gate := t.gate.grant n } := by cases d <;> rfl

end Dir

end ValueRpc.Stream
