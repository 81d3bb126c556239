/-
  ValueRpc.Call.Retry — one `CallFunction` of a client through the `Retry` interceptor
  (resilience/retry.go), over connection drops and `Reconnect`.

  Attempts are numbered 1, 2, ..; an attempt's number is its request id (other calls'
  ids in between change nothing). An attempt is `invokeUnary`: `sendRequest` makes sure of a
  connection, draws the id, registers the record, and hands the request to the connection
  installed then; `SingleResp` waits for the result, the close of the record, the timer or
  the context; its outcome is the attempt's report. `Retry` re-invokes while the report is
  retryable and attempts are left.

  `Reconnect` runs beside it: it resets the connection, goes over the records registered up
  to its cutoff and fails them with ErrConnectionLost, or collects them for replay when
  `ReplayUnary` says so, dials, and re-sends the collected ones or fails them. The server
  reads requests from any connection, turns them away when it is busy or serves each on a
  goroutine of its own (`runHandler`, `refuse`), and its answers go out on whatever
  connection it has, or are lost.

  `runs`, `reports`, `handed`, `seen` and `handlerCodes` are records of the run: handler
  executions, what was reported to `Retry`, attempts whose request was handed to a
  connection, requests the server read, and the codes handlers failed with.
-/

import ValueRpc.Core.Error
import ValueRpc.Core.MessageType
import ValueRpc.Lib.Keyed
import ValueRpc.Lib.Runs

namespace ValueRpc.Call

open ValueRpc.Core ValueRpc.Lib

/-! ## Errors -/

inductive Source where
  | library
  | handler
  deriving DecidableEq, Repr

/-- An error of a call. Dial errors, timeouts, context errors and ErrNoResponse carry no code. -/
inductive CallErr where
  | coded (src : Source) (code : Code)
  | uncoded
  deriving DecidableEq, Repr

/-- Whose error it is and what it says make no difference. -/
def CallErr.failure : CallErr → FailureOf Code Unit
  | .coded _ code => .coded ⟨code, ()⟩
  | .uncoded => .other ()

def retryableCode : Code → Bool
  | .unavailable => true
  | .resourceExhausted => true
  | _ => false

def defaultRetryable (e : CallErr) : Bool := retryableCode (codeOf (some e.failure))

def errConnectionLost : CallErr := .coded .library .unavailable

def errBusy : CallErr := .coded .library .resourceExhausted

/-! ## The system -/

structure Cfg where
  maxAttempts : Nat
  /-- `ReplayUnary` says yes for the function. -/
  replayUnary : Bool

structure Rec where
  inMap : Bool
  closed : Bool
  result : Bool
  resultErr : Option CallErr
  /-- Its response was processed and the record is about to leave the map. -/
  deleting : Bool
  deriving DecidableEq, Repr

def Rec.none : Rec := ⟨false, false, false, .none, false⟩

inductive Pc where
  /-- `ensureConnection`. -/
  | ensuring
  /-- The id is drawn and the record not yet in the map. -/
  | registering
  /-- In `getConn`. -/
  | gettingConn
  /-- At `SendRequest` on a connection. -/
  | sending (conn : Nat)
  | waiting
  | backoff
  | returned
  deriving DecidableEq, Repr

inductive Phase where
  | idle
  | ranging (cutoff : Nat)
  | dialing
  deriving DecidableEq, Repr

inductive Resp where
  | result
  | error (e : CallErr)
  deriving DecidableEq, Repr

structure St where
  attempt : Nat
  pc : Pc
  recs : Nat → Rec
  lastRequest : Nat
  installed : Option Nat
  nextConn : Nat
  dead : List Nat
  phase : Phase
  replay : List Nat
  wire : List (Nat × Nat)
  serving : List Nat
  back : List (Nat × Resp)
  runs : List Nat
  reports : List (Nat × Option CallErr)
  handed : List Nat
  seen : List Nat
  handlerCodes : List Code

def start : St where
  attempt := 1
  pc := .ensuring
  recs := fun _ => .none
  lastRequest := 0
  installed := none
  nextConn := 0
  dead := []
  phase := .idle
  replay := []
  wire := []
  serving := []
  back := []
  runs := []
  reports := []
  handed := []
  seen := []
  handlerCodes := []

inductive Outcome where
  | ok
  | failed (code : Code)
  /-- The result does not verify. -/
  | badResult
  deriving DecidableEq, Repr

def Outcome.resp : Outcome → Resp
  | .ok => .result
  | .failed code => .error (.coded .handler code)
  | .badResult => .error (.coded .library .internal)

inductive Ev where
  | ensured
  | dialFailed
  | register
  | getConn
  | send
  | takeResult
  | takeClosed
  | timeout
  | ctxDone
  | nextAttempt
  | giveUp
  | reset
  | fail (k : Nat)
  | collect (k : Nat)
  | ranged
  | connect
  | resend (k : Nat)
  | failReplay (k : Nat)
  | reconnected
  | cut (conn : Nat)
  | readBusy (conn : Nat)
  | readServe (conn : Nat)
  | refuse (k : Nat) (notFound : Bool)
  | runHandler (k : Nat) (o : Outcome)
  | deliverBack
  | loseBack
  | delete (k : Nat)
  deriving DecidableEq, Repr

def setRec (s : St) (k : Nat) (r : Rec) : St := { s with recs := Function.update s.recs k r }

def report (c : Cfg) (s : St) (o : Option CallErr) : St :=
  { s with
    reports := s.reports ++ [(s.attempt, o)]
    pc := match o with
      | none => .returned
      | some e => if c.maxAttempts ≤ s.attempt || !defaultRetryable e then .returned else .backoff }

/-- `invokeUnary` on an error: record it and `Close`, with the record left in the map. -/
def fails (c : Cfg) (s : St) (e : CallErr) : St :=
  let r := s.recs s.attempt
  report c (setRec s s.attempt { r with resultErr := some e, closed := true }) (some e)

def errorOr (s : St) : CallErr := (s.recs s.attempt).resultErr.getD .uncoded

def failRequest (s : St) (k : Nat) : St :=
  setRec s k { s.recs k with resultErr := some errConnectionLost, closed := true, inMap := false }

def Resp.type : Resp → MessageType
  | .result => .functionResponse
  | .error _ => .errorResponse

/-- A statement of `processResponse`; the `Delete` is a step of its own. -/
def Rec.runs (x : Resp) (r : Rec) : Statement → Rec
  | .notifyResult => { r with result := r.result || !r.closed }
  | .setError =>
    match x with
    | .error e => { r with resultErr := some e }
    | .result => r
  | .close => { r with closed := true }
  | .delete => { r with deleting := true }
  -- of no message for a unary call
  | .notifyPayload | .cancelOnce | .tryGetClose | .grant => r

def processResponse (r : Rec) (x : Resp) : Rec := (Core.processResponse x.type).foldl (Rec.runs x) r

def sendOn (s : St) (conn k : Nat) : List (Nat × Nat) := if conn ∈ s.dead then s.wire else s.wire ++ [(conn, k)]

def step (c : Cfg) (s : St) : Ev → Option St
  | .ensured =>
    match s.pc, s.installed with
    | .ensuring, some _ => some { s with pc := .registering, lastRequest := s.lastRequest + 1 }
    | _, _ => none
  | .dialFailed =>
    match s.pc, s.installed with
    | .ensuring, none => some (report c s (some .uncoded))
    | _, _ => none
  | .register =>
    match s.pc with
    | .registering => some { setRec s s.attempt { Rec.none with inMap := true } with pc := .gettingConn }
    | _ => none
  | .getConn =>
    match s.pc, s.installed with
    | .gettingConn, some conn => some { s with pc := .sending conn }
    | _, _ => none
  | .send =>
    match s.pc with
    | .sending conn =>
      some { s with pc := .waiting, wire := sendOn s conn s.attempt, handed := s.handed ++ [s.attempt] }
    | _ => none
  | .takeResult =>
    match s.pc with
    | .waiting => if (s.recs s.attempt).result then some (report c s none) else none
    | _ => none
  | .takeClosed =>
    match s.pc with
    | .waiting =>
      if (s.recs s.attempt).closed && !(s.recs s.attempt).result then some (fails c s (errorOr s)) else none
    | _ => none
  | .timeout =>
    match s.pc with
    | .waiting => some (fails c s (errorOr s))
    | _ => none
  | .ctxDone =>
    match s.pc with
    | .waiting => some (fails c s .uncoded)
    | _ => none
  | .nextAttempt =>
    match s.pc with
    | .backoff => some { s with pc := .ensuring, attempt := s.attempt + 1 }
    | _ => none
  | .giveUp =>
    match s.pc with
    | .backoff => some { s with pc := .returned }
    | _ => none
  | .reset =>
    match s.phase with
    | .idle => some { s with phase := .ranging s.lastRequest, installed := none, dead := s.installed.toList ++ s.dead }
    | _ => none
  | .fail k =>
    match s.phase with
    | .ranging cutoff =>
      if k ≤ cutoff ∧ (s.recs k).inMap = true ∧ c.replayUnary = false then some (failRequest s k) else none
    | _ => none
  | .collect k =>
    match s.phase with
    | .ranging cutoff =>
      if k ≤ cutoff ∧ (s.recs k).inMap = true ∧ c.replayUnary = true ∧ k ∉ s.replay then
        some { s with replay := s.replay ++ [k] }
      else none
    | _ => none
  | .ranged =>
    match s.phase with
    | .ranging cutoff =>
      -- every record that stays in the map was visited
      if (List.range (cutoff + 1)).all fun k => !(s.recs k).inMap || s.replay.contains k then
        some { s with phase := .dialing }
      else none
    | _ => none
  | .connect =>
    match s.installed with
    | none => some { s with installed := some s.nextConn, nextConn := s.nextConn + 1 }
    | some _ => none
  | .resend k =>
    match s.phase, s.installed with
    | .dialing, some conn =>
      if k ∈ s.replay then some { s with replay := s.replay.erase k, wire := sendOn s conn k } else none
    | _, _ => none
  | .failReplay k =>
    match s.phase with
    | .dialing => if k ∈ s.replay then some { failRequest s k with replay := s.replay.erase k } else none
    | _ => none
  | .reconnected =>
    match s.phase, s.replay with
    | .dialing, [] => some { s with phase := .idle }
    | _, _ => none
  | .cut conn => some { s with dead := conn :: s.dead, wire := s.wire.filter fun x => x.1 ≠ conn }
  | .readBusy conn =>
    (takeFrom conn s.wire).map fun r =>
      { s with wire := r.2, seen := s.seen ++ [r.1], back := s.back ++ [(r.1, .error errBusy)] }
  | .readServe conn =>
    (takeFrom conn s.wire).map fun r => { s with wire := r.2, seen := s.seen ++ [r.1], serving := s.serving ++ [r.1] }
  | .refuse k notFound =>
    if k ∈ s.serving then
      some { s with
        serving := s.serving.erase k
        back := s.back ++ [(k, .error (.coded .library (if notFound then .notFound else .invalidArgument)))] }
    else none
  | .runHandler k o =>
    if k ∈ s.serving then
      some { s with
        serving := s.serving.erase k
        runs := s.runs ++ [k]
        back := s.back ++ [(k, o.resp)]
        handlerCodes := match o with
          | .failed code => s.handlerCodes ++ [code]
          | _ => s.handlerCodes }
    else none
  | .deliverBack =>
    match s.back with
    | (k, r) :: rest =>
      some (if (s.recs k).inMap then { setRec s k (processResponse (s.recs k) r) with back := rest }
        else { s with back := rest })
    | [] => none
  | .loseBack =>
    match s.back with
    | _ :: rest => some { s with back := rest }
    | [] => none
  | .delete k =>
    if (s.recs k).inMap ∧ (s.recs k).deleting then some (setRec s k { s.recs k with inMap := false }) else none

def sys (c : Cfg) : Sys St Ev := ⟨fun s => s = start, step c⟩

/-- `Reconnect` fails or collects an attempt only when its request was handed to a
    connection and lost there: it is not in flight and the server has not read it. -/
def disposesLost (s : St) : Ev → Bool
  | .fail k => s.handed.contains k && !s.seen.contains k && !s.wire.any fun x => x.2 == k
  | .collect k => s.handed.contains k && !s.seen.contains k && !s.wire.any fun x => x.2 == k
  | _ => true

end ValueRpc.Call
