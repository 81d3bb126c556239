/-
  ValueRpc.Ledger.Session — what a session counts and reports of the requests it serves
  (`valueserver/serving_client.go`: `serveNewRequest`, `serveFunctionRequest`,
  `doServeFunctionRequest`, `newServingRequest`, `deleteRequest`, `Close`;
  `valueserver/serving_request.go`: `serveRunningRequest`, `incomingStreamEnd`,
  `closeRequest`, `outgoingStreamer`).

  `inFlight` and `liveStreams` are the two counters the limits read, `requestMap` and
  `requestCancels` the two maps, RequestBegin and RequestEnd what the metrics are told. An
  atomic add, a map access, a metrics call and a send are one step each, in any
  interleaving. A session may have any number of read loops, so a request frame is a
  request of its own from the moment a read loop found no stream under its id, and a
  teardown (`closeRequest`, the end of a put-stream's input) is a job of its own, whoever
  runs it: a read loop, the streamer, or the handler's goroutine, which waits for it.

  `Serve.Session` is the same session with its contexts and without its counters. Here
  the contexts are left out (a handler returns when it likes), and so are the values of a
  stream: what ends one is an event. `n`, `ran`, `registered`, `begins`, `ends`,
  `released` and `replies` of a request are a record of what happened to it.

  `step_cases` says what a step does; the modules after this one use that and nothing else
  of `step`.
-/

import ValueRpc.Lib.Runs
import ValueRpc.Lib.Tally
import ValueRpc.Serve.Session

namespace ValueRpc.Ledger

open Function ValueRpc.Lib
open ValueRpc.Serve (FunctionType)

structure Config where
  /-- 0 turns the limit off. -/
  maxConcurrentRequests : Int
  /-- 0 turns the limit off. -/
  maxConcurrentStreams : Int
  deriving DecidableEq, Repr

inductive Reply where
  | result
  | error
  | streamReady
  /-- CodeResourceExhausted: "server busy: too many concurrent requests". -/
  | requestsExhausted
  /-- CodeResourceExhausted: "server busy: too many concurrent streams". -/
  | streamsExhausted
  deriving DecidableEq, Repr

/-- The goroutine that has a request: a read loop in `serveNewRequest`, then the one that
    `serveFunctionRequest` runs in. -/
inductive Pc where
  /-- Before `inFlight.Add(1)`. -/
  | arrived
  /-- Over the limit: before `inFlight.Add(-1)`. -/
  | rollback
  | rejecting
  | rejected
  | spawned
  /-- In the checks of `doServeFunctionRequest`; the next one is the stream limit. -/
  | checking
  /-- A stream the limit let through, before `newServingRequest`'s RequestBegin. -/
  | opening
  /-- Before the Store into `requestMap` or `requestCancels`. -/
  | storing
  /-- Before `liveStreams.Add(1)`. -/
  | counting
  | handling
  /-- In `closeRequest`, which is job `j`. -/
  | closing (j : Nat)
  /-- Before `requestCancels.Delete`; `none` when the handler panicked. -/
  | unregistering (r : Option Reply)
  | ending (r : Reply)
  | replying (r : Reply)
  /-- Before the deferred `inFlight.Add(-1)`. -/
  | releasing
  | done
  deriving DecidableEq, Repr

inductive Streamer where
  | unstarted
  | running
  /-- At its `closeRequest`, or past it. -/
  | finished
  deriving DecidableEq, Repr

structure Req where
  reqId : Int
  ft : FunctionType
  pc : Pc
  streamer : Streamer
  /-- `closed` of the `servingRequest`. -/
  closed : Bool
  ended : Bool
  /-- What `inFlight.Add(1)` returned. -/
  n : Int
  ran : Bool
  registered : Bool
  begins : Nat
  ends : Nat
  /-- How often its slot was given back by the handler's goroutine. -/
  released : Nat
  replies : List Reply
  deriving DecidableEq, Repr

def Req.arrive (reqId : Int) (ft : FunctionType) : Req :=
  ⟨reqId, ft, .arrived, .unstarted, false, false, 0, false, false, 0, 0, 0, []⟩

inductive Retiring where
  /-- Before `requestMap.LoadAndDelete`. -/
  | delete
  /-- It deleted the entry of `y`; before `liveStreams.Add(-1)`. -/
  | uncount (y : Nat)
  /-- Before RequestEnd of `y`. -/
  | report (y : Nat)
  /-- Before `Close` of the `servingRequest`. -/
  | close
  | gone
  deriving DecidableEq, Repr

structure Job where
  x : Nat
  /-- `closeRequest`; else the end of a put-stream's input, which does not close it. -/
  hard : Bool
  at_ : Retiring
  deriving DecidableEq, Repr

structure St where
  reqs : List Req
  requestMap : AList fun _ : Int => Nat
  requestCancels : Int → Option Nat
  inFlight : Int
  liveStreams : Int
  jobs : List Job
  stopped : Bool

def start : St := ⟨[], ∅, fun _ => none, 0, 0, [], false⟩

inductive Frame where
  | cancel
  /-- A StreamValue that overran the pump. -/
  | overrun
  | streamEnd
  deriving DecidableEq, Repr

inductive Ev where
  /-- A read loop takes a frame for a new request: nothing is registered under its id. -/
  | arrive (reqId : Int) (ft : FunctionType)
  | run (x : Nat)
  /-- A check before the stream limit fails. -/
  | refuse (x : Nat)
  /-- The handler function returns; for a unary call `ok` means a valid result. -/
  | handled (x : Nat) (ok : Bool)
  /-- The handler function panics, or the metadata extractor before it. -/
  | panics (x : Nat)
  /-- A send returns ErrClientClosed. -/
  | unsent (x : Nat)
  | finish (x : Nat)
  /-- A read loop finds the stream of a frame that ends it. -/
  | inbound (reqId : Int) (f : Frame)
  | teardown (j : Nat)
  | close
  /-- `Close` comes to the entry of `x` and closes its `servingRequest`. -/
  | sweep (x : Nat)
  deriving DecidableEq, Repr

namespace St

def upd (s : St) (x : Nat) (f : Req → Req) : St := { s with reqs := s.reqs.modify x f }

def goto (s : St) (x : Nat) (pc : Pc) : St := s.upd x fun r => { r with pc := pc }

def spawn (s : St) (j : Job) : St := { s with jobs := s.jobs ++ [j] }

def jobTo (s : St) (j : Nat) (k : Retiring) : St := { s with jobs := s.jobs.modify j fun b => { b with at_ := k } }

end St

def Config.overRequests (cfg : Config) (n : Int) : Bool :=
    decide (0 < cfg.maxConcurrentRequests ∧ cfg.maxConcurrentRequests < n)

def Config.overStreams (cfg : Config) (live : Int) : Bool :=
    decide (0 < cfg.maxConcurrentStreams ∧ cfg.maxConcurrentStreams ≤ live)

/-- A step of `serveNewRequest`, `serveFunctionRequest` or what they call. -/
def run (cfg : Config) (s : St) (x : Nat) (r : Req) : Option St :=
  match r.pc with
  | .arrived =>
    let n := s.inFlight + 1
    some { s.upd x fun r => { r with
             n := n
             ran := !cfg.overRequests n
             pc := if cfg.overRequests n then .rollback else .spawned } with
           inFlight := n }
  | .rollback => some { s.goto x .rejecting with inFlight := s.inFlight - 1 }
  | .rejecting => some (s.upd x fun r => { r with pc := .rejected, replies := r.replies ++ [.requestsExhausted] })
  | .spawned =>
    if r.ft = .singleFunction then some (s.upd x fun r => { r with pc := .checking, begins := r.begins + 1 })
    else some (s.goto x .checking)
  | .checking =>
    if r.ft = .singleFunction then some (s.goto x .storing)
    else if cfg.overStreams s.liveStreams then some (s.goto x (.replying .streamsExhausted))
    else some (s.goto x .opening)
  | .opening => some (s.upd x fun r => { r with pc := .storing, begins := r.begins + 1 })
  | .storing =>
    if r.ft = .singleFunction then
      some { s.goto x .handling with requestCancels := update s.requestCancels r.reqId (some x) }
    else
      some { s.upd x fun r => { r with pc := .counting, registered := true } with
             requestMap := s.requestMap.insert r.reqId x }
  | .counting => some { s.goto x .handling with liveStreams := s.liveStreams + 1 }
  | .closing j =>
    match s.jobs[j]? with
    | some b => if b.at_ = .gone then some (s.goto x (.replying .error)) else none
    | none => none
  | .unregistering o =>
    some { s.goto x (match o with | some a => .ending a | none => .releasing) with
           requestCancels := update s.requestCancels r.reqId none }
  | .ending a => some (s.upd x fun r => { r with pc := .replying a, ends := r.ends + 1 })
  | .replying a => some (s.upd x fun r => { r with pc := .releasing, replies := r.replies ++ [a] })
  | .releasing =>
    some { s.upd x fun r => { r with pc := .done, released := r.released + 1 } with inFlight := s.inFlight - 1 }
  | .rejected | .handling | .done => none

def handled (s : St) (x : Nat) (r : Req) (ok : Bool) : St :=
  match r.ft with
  | .singleFunction => s.goto x (.unregistering (some (if ok then .result else .error)))
  | .incomingStream =>
    if ok then s.goto x (.replying .streamReady) else (s.spawn ⟨x, true, .delete⟩).goto x (.closing s.jobs.length)
  | .outgoingStream | .chat =>
    if ok then s.upd x fun r => { r with pc := .releasing, streamer := .running }
    else (s.spawn ⟨x, true, .delete⟩).goto x (.closing s.jobs.length)

def teardown (s : St) (j : Nat) (b : Job) : Option St :=
  let next := if b.hard then Retiring.close else .gone
  match b.at_ with
  | .delete =>
    match s.reqs[b.x]? with
    | some r =>
      match s.requestMap.lookup r.reqId with
      | some y => some { s.jobTo j (.uncount y) with requestMap := s.requestMap.erase r.reqId }
      | none => some (s.jobTo j next)
    | none => none
  | .uncount y => some { s.jobTo j (.report y) with liveStreams := s.liveStreams - 1 }
  | .report y => some ((s.jobTo j next).upd y fun r => { r with ends := r.ends + 1 })
  | .close => some ((s.jobTo j .gone).upd b.x fun r => { r with closed := true })
  | .gone => none

/-- `serveRunningRequest` on a frame that ends stream `x`. -/
def inbound (s : St) (x : Nat) (r : Req) : Frame → Option St
  | .cancel => some (s.spawn ⟨x, true, .delete⟩)
  | .overrun => if r.ft = .incomingStream ∨ r.ft = .chat then some (s.spawn ⟨x, true, .delete⟩) else none
  | .streamEnd =>
    if r.ft = .incomingStream then some ((s.spawn ⟨x, false, .delete⟩).upd x fun r => { r with ended := true })
    else none

def step (cfg : Config) (s : St) : Ev → Option St
  | .arrive reqId ft =>
    if s.requestMap.lookup reqId = none then some { s with reqs := s.reqs ++ [.arrive reqId ft] } else none
  | .run x => s.reqs[x]?.bind (run cfg s x)
  | .refuse x =>
    s.reqs[x]?.bind fun r =>
      if r.pc = .checking then
        some (s.goto x (if r.ft = .singleFunction then .ending .error else .replying .error))
      else none
  | .handled x ok => s.reqs[x]?.bind fun r => if r.pc = .handling then some (handled s x r ok) else none
  | .panics x =>
    s.reqs[x]?.bind fun r =>
      match r.pc with
      | .handling => some (s.goto x (if r.ft = .singleFunction then .unregistering none else .releasing))
      | .opening => some (s.goto x .releasing)
      | .storing => if r.ft = .singleFunction then some (s.goto x .releasing) else none
      | _ => none
  | .unsent x =>
    if s.stopped then
      s.reqs[x]?.bind fun r =>
        match r.pc with
        | .rejecting => some (s.goto x .rejected)
        | .replying _ => some (s.goto x .releasing)
        | _ => none
    else none
  | .finish x =>
    s.reqs[x]?.bind fun r =>
      if r.streamer = .running then
        some ((s.spawn ⟨x, true, .delete⟩).upd x fun r => { r with streamer := .finished })
      else none
  | .inbound reqId f => (s.requestMap.lookup reqId).bind fun x => s.reqs[x]?.bind fun r => inbound s x r f
  | .teardown j => s.jobs[j]?.bind (teardown s j)
  | .close => if s.stopped then none else some { s with stopped := true }
  | .sweep x =>
    s.reqs[x]?.bind fun r =>
      if s.stopped ∧ s.requestMap.lookup r.reqId = some x then some (s.upd x fun r => { r with closed := true })
      else none

def sys (cfg : Config) : Sys St Ev := ⟨fun s => s = start, step cfg⟩

/-! ## What a step does -/

inductive Does (cfg : Config) (s : St) : Ev → St → Prop
  | arrive {i : Int} {ft : FunctionType} (h : s.requestMap.lookup i = none) :
      Does cfg s (.arrive i ft) { s with reqs := s.reqs ++ [.arrive i ft] }
  | reject {x : Nat} {r : Req} (hr : s.reqs[x]? = some r) (hp : r.pc = .arrived)
      (ho : cfg.overRequests (s.inFlight + 1) = true) :
      Does cfg s (.run x) { s.upd x fun r => { r with n := s.inFlight + 1, ran := false, pc := .rollback } with
        inFlight := s.inFlight + 1 }
  | admits {x : Nat} {r : Req} (hr : s.reqs[x]? = some r) (hp : r.pc = .arrived)
      (ho : cfg.overRequests (s.inFlight + 1) = false) :
      Does cfg s (.run x) { s.upd x fun r => { r with n := s.inFlight + 1, ran := true, pc := .spawned } with
        inFlight := s.inFlight + 1 }
  | rollback {x : Nat} {r : Req} (hr : s.reqs[x]? = some r) (hp : r.pc = .rollback) :
      Does cfg s (.run x) { s.goto x .rejecting with inFlight := s.inFlight - 1 }
  | rejected {x : Nat} {r : Req} (hr : s.reqs[x]? = some r) (hp : r.pc = .rejecting) :
      Does cfg s (.run x) (s.upd x fun r => { r with pc := .rejected, replies := r.replies ++ [.requestsExhausted] })
  | begins {x : Nat} {r : Req} (hr : s.reqs[x]? = some r) (hp : r.pc = .spawned) (hft : r.ft = .singleFunction) :
      Does cfg s (.run x) (s.upd x fun r => { r with pc := .checking, begins := r.begins + 1 })
  | checks {x : Nat} {r : Req} (hr : s.reqs[x]? = some r) (hp : r.pc = .spawned) (hft : r.ft ≠ .singleFunction) :
      Does cfg s (.run x) (s.goto x .checking)
  | checked {x : Nat} {r : Req} (hr : s.reqs[x]? = some r) (hp : r.pc = .checking) (hft : r.ft = .singleFunction) :
      Does cfg s (.run x) (s.goto x .storing)
  | exhausted {x : Nat} {r : Req} (hr : s.reqs[x]? = some r) (hp : r.pc = .checking) (hft : r.ft ≠ .singleFunction)
      (ho : cfg.overStreams s.liveStreams = true) : Does cfg s (.run x) (s.goto x (.replying .streamsExhausted))
  | passes {x : Nat} {r : Req} (hr : s.reqs[x]? = some r) (hp : r.pc = .checking) (hft : r.ft ≠ .singleFunction)
      (ho : cfg.overStreams s.liveStreams = false) : Does cfg s (.run x) (s.goto x .opening)
  | opens {x : Nat} {r : Req} (hr : s.reqs[x]? = some r) (hp : r.pc = .opening) :
      Does cfg s (.run x) (s.upd x fun r => { r with pc := .storing, begins := r.begins + 1 })
  | storeCancel {x : Nat} {r : Req} (hr : s.reqs[x]? = some r) (hp : r.pc = .storing) (hft : r.ft = .singleFunction) :
      Does cfg s (.run x) { s.goto x .handling with requestCancels := update s.requestCancels r.reqId (some x) }
  | store {x : Nat} {r : Req} (hr : s.reqs[x]? = some r) (hp : r.pc = .storing) (hft : r.ft ≠ .singleFunction) :
      Does cfg s (.run x) { s.upd x fun r => { r with pc := .counting, registered := true } with
        requestMap := s.requestMap.insert r.reqId x }
  | count {x : Nat} {r : Req} (hr : s.reqs[x]? = some r) (hp : r.pc = .counting) :
      Does cfg s (.run x) { s.goto x .handling with liveStreams := s.liveStreams + 1 }
  | closed {x j : Nat} {r : Req} {b : Job} (hr : s.reqs[x]? = some r) (hp : r.pc = .closing j)
      (hb : s.jobs[j]? = some b)
      (hk : b.at_ = .gone) : Does cfg s (.run x) (s.goto x (.replying .error))
  | unregister {x : Nat} {r : Req} {a : Reply} (hr : s.reqs[x]? = some r) (hp : r.pc = .unregistering (some a)) :
      Does cfg s (.run x) { s.goto x (.ending a) with requestCancels := update s.requestCancels r.reqId none }
  | unwind {x : Nat} {r : Req} (hr : s.reqs[x]? = some r) (hp : r.pc = .unregistering none) :
      Does cfg s (.run x) { s.goto x .releasing with requestCancels := update s.requestCancels r.reqId none }
  | ends {x : Nat} {r : Req} {a : Reply} (hr : s.reqs[x]? = some r) (hp : r.pc = .ending a) :
      Does cfg s (.run x) (s.upd x fun r => { r with pc := .replying a, ends := r.ends + 1 })
  | replies {x : Nat} {r : Req} {a : Reply} (hr : s.reqs[x]? = some r) (hp : r.pc = .replying a) :
      Does cfg s (.run x) (s.upd x fun r => { r with pc := .releasing, replies := r.replies ++ [a] })
  | release {x : Nat} {r : Req} (hr : s.reqs[x]? = some r) (hp : r.pc = .releasing) :
      Does cfg s (.run x) { s.upd x fun r => { r with pc := .done, released := r.released + 1 } with
        inFlight := s.inFlight - 1 }
  | refuseCall {x : Nat} {r : Req} (hr : s.reqs[x]? = some r) (hp : r.pc = .checking) (hft : r.ft = .singleFunction) :
      Does cfg s (.refuse x) (s.goto x (.ending .error))
  | refuseStream {x : Nat} {r : Req} (hr : s.reqs[x]? = some r) (hp : r.pc = .checking)
      (hft : r.ft ≠ .singleFunction) :
      Does cfg s (.refuse x) (s.goto x (.replying .error))
  | returns {x : Nat} {ok : Bool} {r : Req} (a : Reply) (hr : s.reqs[x]? = some r) (hp : r.pc = .handling)
      (hft : r.ft = .singleFunction) : Does cfg s (.handled x ok) (s.goto x (.unregistering (some a)))
  | ready {x : Nat} {r : Req} (hr : s.reqs[x]? = some r) (hp : r.pc = .handling) (hft : r.ft = .incomingStream) :
      Does cfg s (.handled x true) (s.goto x (.replying .streamReady))
  | streams {x : Nat} {r : Req} (hr : s.reqs[x]? = some r) (hp : r.pc = .handling)
      (hft : r.ft = .outgoingStream ∨ r.ft = .chat) :
      Does cfg s (.handled x true) (s.upd x fun r => { r with pc := .releasing, streamer := .running })
  | fails {x : Nat} {r : Req} (hr : s.reqs[x]? = some r) (hp : r.pc = .handling) (hft : r.ft ≠ .singleFunction) :
      Does cfg s (.handled x false) ((s.spawn ⟨x, true, .delete⟩).goto x (.closing s.jobs.length))
  | panicCall {x : Nat} {r : Req} (hr : s.reqs[x]? = some r) (hp : r.pc = .handling) (hft : r.ft = .singleFunction) :
      Does cfg s (.panics x) (s.goto x (.unregistering none))
  | panicStream {x : Nat} {r : Req} (hr : s.reqs[x]? = some r) (hp : r.pc = .handling) (hft : r.ft ≠ .singleFunction) :
      Does cfg s (.panics x) (s.goto x .releasing)
  | panicEarly {x : Nat} {r : Req} (hr : s.reqs[x]? = some r)
      (hp : r.pc = .opening ∨ r.pc = .storing ∧ r.ft = .singleFunction) : Does cfg s (.panics x) (s.goto x .releasing)
  | dropReject {x : Nat} {r : Req} (hstop : s.stopped = true) (hr : s.reqs[x]? = some r) (hp : r.pc = .rejecting) :
      Does cfg s (.unsent x) (s.goto x .rejected)
  | dropReply {x : Nat} {r : Req} {a : Reply} (hstop : s.stopped = true) (hr : s.reqs[x]? = some r)
      (hp : r.pc = .replying a) : Does cfg s (.unsent x) (s.goto x .releasing)
  | finish {x : Nat} {r : Req} (hr : s.reqs[x]? = some r) (hst : r.streamer = .running) :
      Does cfg s (.finish x) ((s.spawn ⟨x, true, .delete⟩).upd x fun r => { r with streamer := .finished })
  | cut {i : Int} {f : Frame} {x : Nat} {r : Req} (hm : s.requestMap.lookup i = some x) (hr : s.reqs[x]? = some r) :
      Does cfg s (.inbound i f) (s.spawn ⟨x, true, .delete⟩)
  | endInput {i : Int} {x : Nat} {r : Req} (hm : s.requestMap.lookup i = some x) (hr : s.reqs[x]? = some r)
      (hft : r.ft = .incomingStream) :
      Does cfg s (.inbound i .streamEnd) ((s.spawn ⟨x, false, .delete⟩).upd x fun r => { r with ended := true })
  | delete {j y : Nat} {b : Job} {r : Req} (hb : s.jobs[j]? = some b) (hk : b.at_ = .delete)
      (hr : s.reqs[b.x]? = some r)
      (hm : s.requestMap.lookup r.reqId = some y) :
      Does cfg s (.teardown j) { s.jobTo j (.uncount y) with requestMap := s.requestMap.erase r.reqId }
  | deleted {j : Nat} {b : Job} {r : Req} (hb : s.jobs[j]? = some b) (hk : b.at_ = .delete)
      (hr : s.reqs[b.x]? = some r)
      (hm : s.requestMap.lookup r.reqId = none) :
      Does cfg s (.teardown j) (s.jobTo j (if b.hard then .close else .gone))
  | uncount {j y : Nat} {b : Job} (hb : s.jobs[j]? = some b) (hk : b.at_ = .uncount y) :
      Does cfg s (.teardown j) { s.jobTo j (.report y) with liveStreams := s.liveStreams - 1 }
  | report {j y : Nat} {b : Job} (hb : s.jobs[j]? = some b) (hk : b.at_ = .report y) :
      Does cfg s (.teardown j)
        ((s.jobTo j (if b.hard then .close else .gone)).upd y fun r => { r with ends := r.ends + 1 })
  | closes {j : Nat} {b : Job} (hb : s.jobs[j]? = some b) (hk : b.at_ = .close) :
      Does cfg s (.teardown j) ((s.jobTo j .gone).upd b.x fun r => { r with closed := true })
  | stop (h : s.stopped = false) : Does cfg s .close { s with stopped := true }
  | sweep {x : Nat} {r : Req} (hr : s.reqs[x]? = some r) (hstop : s.stopped = true)
      (hm : s.requestMap.lookup r.reqId = some x) :
      Does cfg s (.sweep x) (s.upd x fun r => { r with closed := true })

variable {cfg : Config} {s t : St} {e : Ev}

theorem run_cases {x : Nat} {r : Req} (hr : s.reqs[x]? = some r) (h : run cfg s x r = some t) :
    Does cfg s (.run x) t := by
  unfold run at h
  cases hp : r.pc with
  | arrived =>
    simp only [hp] at h
    cases ho : cfg.overRequests (s.inFlight + 1) with
    | true =>
      simp only [ho, if_true] at h
      cases h
      exact .reject hr hp ho
    | false =>
      simp only [ho, Bool.false_eq_true, if_false] at h
      cases h
      exact .admits hr hp ho
  | rollback => simp only [hp] at h; cases h; exact .rollback hr hp
  | rejecting => simp only [hp] at h; cases h; exact .rejected hr hp
  | rejected => simp only [hp] at h; cases h
  | spawned =>
    simp only [hp] at h
    by_cases hft : r.ft = .singleFunction
    · rw [if_pos hft] at h; cases h; exact .begins hr hp hft
    · rw [if_neg hft] at h; cases h; exact .checks hr hp hft
  | checking =>
    simp only [hp] at h
    by_cases hft : r.ft = .singleFunction
    · rw [if_pos hft] at h; cases h; exact .checked hr hp hft
    · rw [if_neg hft] at h
      by_cases ho : cfg.overStreams s.liveStreams = true
      · rw [if_pos ho] at h; cases h; exact .exhausted hr hp hft ho
      · rw [if_neg ho] at h; cases h; exact .passes hr hp hft (Bool.eq_false_iff.mpr ho)
  | opening => simp only [hp] at h; cases h; exact .opens hr hp
  | storing =>
    simp only [hp] at h
    by_cases hft : r.ft = .singleFunction
    · rw [if_pos hft] at h; cases h; exact .storeCancel hr hp hft
    · rw [if_neg hft] at h; cases h; exact .store hr hp hft
  | counting => simp only [hp] at h; cases h; exact .count hr hp
  | handling => simp only [hp] at h; cases h
  | closing j =>
    simp only [hp] at h
    cases hb : s.jobs[j]? with
    | none => simp only [hb] at h; cases h
    | some b =>
      simp only [hb] at h
      by_cases hk : b.at_ = .gone
      · rw [if_pos hk] at h; cases h; exact .closed hr hp hb hk
      · rw [if_neg hk] at h; cases h
  | unregistering o =>
    simp only [hp] at h
    cases o with
    | none => cases h; exact .unwind hr hp
    | some a => cases h; exact .unregister hr hp
  | ending a => simp only [hp] at h; cases h; exact .ends hr hp
  | replying a => simp only [hp] at h; cases h; exact .replies hr hp
  | releasing => simp only [hp] at h; cases h; exact .release hr hp
  | done => simp only [hp] at h; cases h

theorem handled_cases {x : Nat} {ok : Bool} {r : Req} (hr : s.reqs[x]? = some r) (hp : r.pc = .handling) :
    Does cfg s (.handled x ok) (handled s x r ok) := by
  unfold handled
  cases hft : r.ft with
  | singleFunction => exact .returns _ hr hp hft
  | incomingStream =>
    cases ok with
    | true => exact .ready hr hp hft
    | false => exact .fails hr hp (by rw [hft]; decide)
  | outgoingStream =>
    cases ok with
    | true => exact .streams hr hp (.inl hft)
    | false => exact .fails hr hp (by rw [hft]; decide)
  | chat =>
    cases ok with
    | true => exact .streams hr hp (.inr hft)
    | false => exact .fails hr hp (by rw [hft]; decide)

theorem teardown_cases {j : Nat} {b : Job} (hb : s.jobs[j]? = some b) (h : teardown s j b = some t) :
    Does cfg s (.teardown j) t := by
  unfold teardown at h
  cases hk : b.at_ with
  | delete =>
    simp only [hk] at h
    cases hr : s.reqs[b.x]? with
    | none => simp only [hr] at h; cases h
    | some r =>
      simp only [hr] at h
      cases hm : s.requestMap.lookup r.reqId with
      | none => simp only [hm] at h; cases h; exact .deleted hb hk hr hm
      | some y => simp only [hm] at h; cases h; exact .delete hb hk hr hm
  | uncount y => simp only [hk] at h; cases h; exact .uncount hb hk
  | report y => simp only [hk] at h; cases h; exact .report hb hk
  | close => simp only [hk] at h; cases h; exact .closes hb hk
  | gone => simp only [hk] at h; cases h

theorem step_cases (h : step cfg s e = some t) : Does cfg s e t := by
  cases e with
  | arrive i ft =>
    simp only [step] at h
    by_cases hm : s.requestMap.lookup i = none
    · rw [if_pos hm] at h; cases h; exact .arrive hm
    · rw [if_neg hm] at h; cases h
  | run x =>
    obtain ⟨r, hr, h⟩ := Option.bind_eq_some_iff.mp h
    exact run_cases hr h
  | refuse x =>
    obtain ⟨r, hr, h⟩ := Option.bind_eq_some_iff.mp h
    by_cases hp : r.pc = .checking
    · rw [if_pos hp] at h
      by_cases hft : r.ft = .singleFunction
      · rw [if_pos hft] at h; cases h; exact .refuseCall hr hp hft
      · rw [if_neg hft] at h; cases h; exact .refuseStream hr hp hft
    · rw [if_neg hp] at h; cases h
  | handled x ok =>
    obtain ⟨r, hr, h⟩ := Option.bind_eq_some_iff.mp h
    by_cases hp : r.pc = .handling
    · rw [if_pos hp] at h; cases h; exact handled_cases hr hp
    · rw [if_neg hp] at h; cases h
  | panics x =>
    obtain ⟨r, hr, h⟩ := Option.bind_eq_some_iff.mp h
    cases hp : r.pc with
    | opening => simp only [hp] at h; cases h; exact .panicEarly hr (.inl hp)
    | storing =>
      simp only [hp] at h
      by_cases hft : r.ft = .singleFunction
      · rw [if_pos hft] at h; cases h; exact .panicEarly hr (.inr ⟨hp, hft⟩)
      · rw [if_neg hft] at h; cases h
    | handling =>
      simp only [hp] at h
      cases h
      by_cases hft : r.ft = .singleFunction
      · rw [if_pos hft]; exact .panicCall hr hp hft
      · rw [if_neg hft]; exact .panicStream hr hp hft
    | _ => simp only [hp] at h; cases h
  | unsent x =>
    simp only [step] at h
    by_cases hstop : s.stopped = true
    · rw [if_pos hstop] at h
      obtain ⟨r, hr, h⟩ := Option.bind_eq_some_iff.mp h
      cases hp : r.pc with
      | rejecting => simp only [hp] at h; cases h; exact .dropReject hstop hr hp
      | replying a => simp only [hp] at h; cases h; exact .dropReply hstop hr hp
      | _ => simp only [hp] at h; cases h
    · rw [if_neg hstop] at h; cases h
  | finish x =>
    obtain ⟨r, hr, h⟩ := Option.bind_eq_some_iff.mp h
    by_cases hst : r.streamer = .running
    · rw [if_pos hst] at h; cases h; exact .finish hr hst
    · rw [if_neg hst] at h; cases h
  | inbound i f =>
    obtain ⟨x, hm, h⟩ := Option.bind_eq_some_iff.mp h
    obtain ⟨r, hr, h⟩ := Option.bind_eq_some_iff.mp h
    cases f with
    | cancel => cases h; exact .cut hm hr
    | overrun =>
      simp only [inbound] at h
      by_cases hft : r.ft = .incomingStream ∨ r.ft = .chat
      · rw [if_pos hft] at h; cases h; exact .cut hm hr
      · rw [if_neg hft] at h; cases h
    | streamEnd =>
      simp only [inbound] at h
      by_cases hft : r.ft = .incomingStream
      · rw [if_pos hft] at h; cases h; exact .endInput hm hr hft
      · rw [if_neg hft] at h; cases h
  | teardown j =>
    obtain ⟨b, hb, h⟩ := Option.bind_eq_some_iff.mp h
    exact teardown_cases hb h
  | close =>
    simp only [step] at h
    by_cases hstop : s.stopped = true
    · rw [if_pos hstop] at h; cases h
    · rw [if_neg hstop] at h; cases h; exact .stop (Bool.eq_false_iff.mpr hstop)
  | sweep x =>
    obtain ⟨r, hr, h⟩ := Option.bind_eq_some_iff.mp h
    by_cases hc : s.stopped = true ∧ s.requestMap.lookup r.reqId = some x
    · rw [if_pos hc] at h; cases h; exact .sweep hr hc.1 hc.2
    · rw [if_neg hc] at h; cases h

end ValueRpc.Ledger
