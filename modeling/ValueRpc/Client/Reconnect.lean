/-
  ValueRpc.Client.Reconnect — one `Reconnect` beside the requests of a client
  (`valueclient/client.go`: `Reconnect`, `failRequest`, `newRequestCtx`, `sendRequest`,
  `processResponse`, `invokeUnary`; `valueclient/sync_conn.go`: `hasConn`, `getConn`,
  `reset`; `valueclient/request.go`: `closeResult`, `Close`, `TryPutClose`, `SingleResp`).

  A request takes four steps: it draws its id, stores its record in `requestCtxMap`, gets
  the installed connection, and hands its frame to it. `Reconnect` takes its own: it loads
  the installed connection and stores nil over it (`reset`), reads the last id drawn as its
  cutoff, goes over the records, connects, and re-sends what it collected for replay or
  fails it too. There is no lock between them. Request `k` has id `k + 1`, so the cutoff is
  the number of ids drawn, and a request is at or below it when its number is less.

  Connection 0 is installed to begin with. When nil is stored anyone may connect: a request
  in `ensureConnection`, or `Reconnect` itself; what it takes to dial is left out, and an
  installed connection stays, since a failure on it finds `reconnecting` set. The response
  loops of all connections go on; taking a record out of the map, answering it and deleting
  it are three steps. One that has a record of a stream may get to it late with a value, which
  the pump then refuses. `via`, `handed`, `settled`, `outcomes`, `streamErrors`, `failed`,
  `unreplayed` and `resent` are records of the run.

  `step_cases` says what a step does.
-/

import ValueRpc.Core.MessageType
import ValueRpc.Lib.Runs
import ValueRpc.Lib.Tally

namespace ValueRpc.Client.Reconnect

open ValueRpc.Lib
open ValueRpc.Core (Kind)

structure Policy where
  replayUnary : Option (String → Bool)

inductive Err where
  | connectionLost
  /-- Of the server, of the caller's context or timer, or ErrNoResponse. -/
  | other
  deriving DecidableEq, Repr

inductive Outcome where
  | result
  | error (e : Err)
  deriving DecidableEq, Repr

inductive Pc where
  /-- The id is drawn; before `requestCtxMap.Store`. -/
  | registering
  | gettingConn
  | sending (c : Nat)
  | waiting
  | returned
  deriving DecidableEq, Repr

structure Rec where
  kind : Kind
  name : String
  pc : Pc
  inMap : Bool
  result : Bool
  closed : Bool
  resultErr : Option Err
  /-- What the error handler's `StreamError` was told of it. -/
  streamErrors : List Err
  /-- `cancelOnce` ran: its pump refused a value. -/
  cancelOnce : Bool
  /-- What `getConn` returned to the request. -/
  via : Option Nat
  /-- The connections its frame was handed to, oldest first. -/
  handed : List Nat
  /-- Its last response was read, or its own sending side finished it. -/
  settled : Bool
  outcomes : List Outcome
  deriving DecidableEq, Repr

def Rec.drawn (kind : Kind) (name : String) : Rec :=
  ⟨kind, name, .registering, false, false, false, none, [], false, none, [], false, []⟩

def Policy.replays (p : Policy) (r : Rec) : Bool := decide (r.kind = .unary) && p.replayUnary.any (· r.name)

/-- `StreamError` for a request that is not unary. -/
def Rec.reportLost (r : Rec) : Rec :=
  { r with streamErrors := if r.kind = .unary then r.streamErrors else r.streamErrors ++ [.connectionLost] }

inductive Failing where
  | setError
  | report
  | close
  | delete
  deriving DecidableEq, Repr

inductive Phase where
  | idle
  /-- `reset` loaded connection `c`. -/
  | loaded (c : Nat)
  /-- `reset` stored nil; before it closes `c`. -/
  | cleared (c : Nat)
  | reset
  /-- The cutoff is read. -/
  | counted (cutoff : Nat)
  /-- In `Range`: the records that were in the map when it began, those it came to, and the
      one it is failing. -/
  | ranging (cutoff : Nat) (present visited : List Nat) (cur : Option (Nat × Failing))
  | connecting
  | resending (left : List Nat)
  | failing (left : List Nat) (at_ : Failing)
  | returned (ok : Bool)
  deriving DecidableEq, Repr

structure Proc where
  k : Nat
  err : Option Err
  /-- False at the StreamEnd of a chat whose sending side is open. -/
  deletes : Bool
  /-- Answered and closed; before the Delete. -/
  deleting : Bool
  deriving DecidableEq, Repr

structure St where
  recs : List Rec
  installed : Option Nat
  conns : Nat
  phase : Phase
  procs : List Proc
  replay : List Nat
  failed : List Nat
  /-- Failed because the new connection could not be had. -/
  unreplayed : List Nat
  resent : List (Nat × Nat)

def start : St := ⟨[], some 0, 1, .idle, [], [], [], [], []⟩

inductive Ev where
  /-- `sendRequest`, past `ensureConnection`, draws an id. -/
  | draw (kind : Kind) (name : String)
  | store (k : Nat)
  | getConn (k : Nat)
  | send (k : Nat)
  | ready (k : Nat)
  /-- A response loop that has the record gets a stream value its pump refuses. -/
  | overrun (k : Nat)
  /-- A response loop finds the record for its last response; `err` when that is an error. -/
  | respond (k : Nat) (err : Option Err) (deletes : Bool)
  | process (i : Nat)
  /-- `streamOut` of a put-stream finishes its request, and then deletes it. -/
  | putDone (k : Nat)
  | putDelete (k : Nat)
  | watch (k : Nat)
  | receive (k : Nat)
  /-- `SingleResp` returns on its timer or its context. -/
  | timeout (k : Nat) (ctx : Bool)
  | connect
  | go
  | visit (k : Nat)
  | dialFailed
  deriving DecidableEq, Repr

namespace St

def upd (s : St) (k : Nat) (f : Rec → Rec) : St := { s with recs := s.recs.modify k f }

def keys (s : St) : List Nat := (List.range s.recs.length).filter fun k => (s.recs[k]?.map Rec.inMap).getD false

def inMap (s : St) (k : Nat) : Bool := (s.recs[k]?.map Rec.inMap).getD false

/-- A step of `failRequest`; `none` after the last. -/
def fail (s : St) (k : Nat) : Failing → St × Option Failing
  | .setError => (s.upd k fun r => { r with resultErr := some .connectionLost }, some .report)
  | .report => (s.upd k Rec.reportLost, some .close)
  | .close => (s.upd k fun r => { r with closed := true }, some .delete)
  | .delete => (s.upd k fun r => { r with inMap := false }, none)

end St

def go (s : St) : Option St :=
  match s.phase with
  | .idle => s.installed.map fun c => { s with phase := .loaded c }
  | .loaded c => some { s with installed := none, phase := .cleared c }
  | .cleared _ => some { s with phase := .reset }
  | .reset => some { s with phase := .counted s.recs.length }
  | .counted cutoff => some { s with phase := .ranging cutoff s.keys [] none }
  | .ranging cutoff present visited (some (k, f)) =>
    match s.fail k f with
    | (t, some f') => some { t with phase := .ranging cutoff present visited (some (k, f')) }
    | (t, none) => some { t with phase := .ranging cutoff present visited none, failed := s.failed ++ [k] }
  | .ranging _ present visited none =>
    -- a record that is in the map from one end of the pass to the other is come to
    if present.all fun k => !s.inMap k || visited.contains k then some { s with phase := .connecting } else none
  | .connecting => if s.installed.isSome then some { s with phase := .resending s.replay } else none
  | .resending [] => some { s with phase := .returned true }
  | .resending (k :: left) =>
    s.installed.map fun c =>
      { s.upd k fun r => { r with handed := r.handed ++ [c] } with
        phase := .resending left, resent := s.resent ++ [(k, c)] }
  | .failing [] _ => some { s with phase := .returned false }
  | .failing (k :: left) f =>
    match s.fail k f with
    | (t, some f') => some { t with phase := .failing (k :: left) f' }
    | (t, none) => some { t with phase := .failing left .setError, unreplayed := s.unreplayed ++ [k] }
  | .returned _ => none

def visit (p : Policy) (s : St) (k : Nat) (r : Rec) : Option St :=
  match s.phase with
  | .ranging cutoff present visited none =>
    if r.inMap = true ∧ k ∉ visited then
      if cutoff ≤ k then some { s with phase := .ranging cutoff present (k :: visited) none }
      else if p.replays r then
        some { s with phase := .ranging cutoff present (k :: visited) none, replay := s.replay ++ [k] }
      else some { s with phase := .ranging cutoff present (k :: visited) (some (k, .setError)) }
    else none
  | _ => none

def Rec.answer (r : Rec) : Option Err → Rec
  | none => { r with result := r.result || !r.closed, closed := true }
  | some e => { r with resultErr := some e, streamErrors := r.streamErrors ++ [e], closed := true }

def process (s : St) (i : Nat) (q : Proc) : St :=
  if q.deleting then
    { s.upd q.k fun r => { r with inMap := r.inMap && !q.deletes } with procs := s.procs.eraseIdx i }
  else { s.upd q.k fun r => r.answer q.err with procs := s.procs.modify i fun q => { q with deleting := true } }

/-- `SingleResp` returned an error: it is recorded and the record closed. -/
def Rec.fails (r : Rec) (e : Err) : Rec :=
  { r with pc := .returned, resultErr := some e, closed := true, outcomes := r.outcomes ++ [.error e] }

def step (p : Policy) (s : St) : Ev → Option St
  | .draw kind name => some { s with recs := s.recs ++ [.drawn kind name] }
  | .store k =>
    s.recs[k]?.bind fun r =>
      if r.pc = .registering then some (s.upd k fun r => { r with pc := .gettingConn, inMap := true }) else none
  | .getConn k =>
    s.recs[k]?.bind fun r =>
      if r.pc = .gettingConn then s.installed.map fun c => s.upd k fun r => { r with pc := .sending c, via := some c }
      else none
  | .send k =>
    s.recs[k]?.bind fun r =>
      match r.pc with
      | .sending c => some (s.upd k fun r => { r with pc := .waiting, handed := r.handed ++ [c] })
      | _ => none
  | .ready k =>
    s.recs[k]?.bind fun r =>
      if r.inMap = true ∧ r.kind ≠ .unary then some
        (s.upd k fun r => { r with result := r.result || !r.closed }) else none
  | .overrun k =>
    s.recs[k]?.bind fun r =>
      if r.pc ≠ .registering ∧ (r.kind = .getStream ∨ r.kind = .chat) ∧ r.cancelOnce = false then
        some (s.upd k fun r => { r with
          resultErr := some .other, streamErrors := r.streamErrors ++ [.other], cancelOnce := true })
      else none
  | .respond k err deletes =>
    s.recs[k]?.bind fun r =>
      if r.inMap = true ∧ r.handed ≠ [] ∧ (deletes = true ∨ r.kind = .chat) then
        some { s.upd k fun r => { r with settled := true } with procs := s.procs ++ [⟨k, err, deletes, false⟩] }
      else none
  | .process i => s.procs[i]?.map (process s i)
  | .putDone k =>
    s.recs[k]?.bind fun r =>
      if r.kind = .putStream ∧
        r.outcomes = [.result] then some (s.upd k fun r => { r with settled := true, closed := true })
      else none
  | .putDelete k =>
    s.recs[k]?.bind fun r =>
      if r.kind = .putStream ∧ r.outcomes = [.result] ∧
        r.settled = true then some (s.upd k fun r => { r with inMap := false })
      else none
  | .watch k =>
    s.recs[k]?.bind fun r =>
      if r.kind ≠ .unary ∧ r.outcomes = [.result] then some (s.upd k fun r => { r with closed := true }) else none
  | .receive k =>
    s.recs[k]?.bind fun r =>
      if r.pc = .waiting then
        if r.result then some
          (s.upd k fun r => { r with pc := .returned, result := false, outcomes := r.outcomes ++ [.result] })
        else if r.closed then some (s.upd k fun r => r.fails (r.resultErr.getD .other))
        else none
      else none
  | .timeout k ctx =>
    s.recs[k]?.bind fun r =>
      if r.pc = .waiting then some
        (s.upd k fun r => r.fails (if ctx then .other else r.resultErr.getD .other)) else none
  | .connect =>
    if s.installed = none then some { s with installed := some s.conns, conns := s.conns + 1 } else none
  | .go => go s
  | .visit k => s.recs[k]?.bind (visit p s k)
  | .dialFailed => if s.phase = .connecting then some { s with phase := .failing s.replay .setError } else none

def sys (p : Policy) : Sys St Ev := ⟨fun s => s = start, step p⟩

/-! ## What a step does -/

/-- What a caller, a stream or a response loop does to a record by itself. -/
inductive Turn (s : St) : Rec → Rec → Prop
  | store {r : Rec} (hp : r.pc = .registering) : Turn s r { r with pc := .gettingConn, inMap := true }
  | getConn {r : Rec} {c : Nat} (hp : r.pc = .gettingConn) (hc : s.installed = some c) :
      Turn s r { r with pc := .sending c, via := some c }
  | send {r : Rec} {c : Nat} (hp : r.pc = .sending c) : Turn s r { r with pc := .waiting, handed := r.handed ++ [c] }
  | ready {r : Rec} : Turn s r { r with result := r.result || !r.closed }
  | overrun {r : Rec} (hk : r.kind ≠ .unary) :
      Turn s r { r with resultErr := some .other, streamErrors := r.streamErrors ++ [.other], cancelOnce := true }
  | putDone {r : Rec} (ho : r.outcomes = [.result]) : Turn s r { r with settled := true, closed := true }
  | putDelete {r : Rec} (ho : r.settled = true) : Turn s r { r with inMap := false }
  | watch {r : Rec} : Turn s r { r with closed := true }
  | receive {r : Rec} (hp : r.pc = .waiting) :
      Turn s r { r with pc := .returned, result := false, outcomes := r.outcomes ++ [.result] }
  | fails {r : Rec} (e : Err) (hp : r.pc = .waiting) : Turn s r (r.fails e)

inductive Does (p : Policy) (s : St) : Ev → St → Prop
  | draw {kind : Kind} {name : String} : Does p s (.draw kind name) { s with recs := s.recs ++ [.drawn kind name] }
  | turn {e : Ev} {k : Nat} {r : Rec} {f : Rec → Rec} (hr : s.recs[k]? = some r) (hf : Turn s r (f r)) :
      Does p s e (s.upd k f)
  | respond {k : Nat} {err : Option Err} {b : Bool} {r : Rec} (hr : s.recs[k]? = some r) (hm : r.inMap = true) :
      Does p s (.respond k err b)
        { s.upd k fun r => { r with settled := true } with procs := s.procs ++ [⟨k, err, b, false⟩] }
  | answer {i : Nat} {q : Proc} (hq : s.procs[i]? = some q) :
      Does p s (.process i)
        { s.upd q.k fun r => r.answer q.err with procs := s.procs.modify i fun q => { q with deleting := true } }
  | delete {i : Nat} {q : Proc} (hq : s.procs[i]? = some q) :
      Does p s (.process i) { s.upd q.k fun r => { r with inMap := r.inMap && !q.deletes } with
        procs := s.procs.eraseIdx i }
  | connect (h : s.installed = none) : Does p s .connect { s with installed := some s.conns, conns := s.conns + 1 }
  | load {c : Nat} (hp : s.phase = .idle) (hc : s.installed = some c) : Does p s .go { s with phase := .loaded c }
  | clear {c : Nat} (hp : s.phase = .loaded c) : Does p s .go { s with installed := none, phase := .cleared c }
  | close {c : Nat} (hp : s.phase = .cleared c) : Does p s .go { s with phase := .reset }
  | cutoff (hp : s.phase = .reset) : Does p s .go { s with phase := .counted s.recs.length }
  | range {n : Nat} (hp : s.phase = .counted n) : Does p s .go { s with phase := .ranging n s.keys [] none }
  | failing {n k : Nat} {l v : List Nat} {f f' : Failing} {t : St} (hp : s.phase = .ranging n l v (some (k, f)))
      (hf : s.fail k f = (t, some f')) : Does p s .go { t with phase := .ranging n l v (some (k, f')) }
  | failed {n k : Nat} {l v : List Nat} {f : Failing} {t : St} (hp : s.phase = .ranging n l v (some (k, f)))
      (hf : s.fail k f = (t, none)) : Does p s .go { t with phase := .ranging n l v none, failed := s.failed ++ [k] }
  | ranged {n : Nat} {l v : List Nat} (hp : s.phase = .ranging n l v none)
      (hall : ∀ k ∈ l, s.inMap k = true → k ∈ v) : Does p s .go { s with phase := .connecting }
  | connected {c : Nat} (hp : s.phase = .connecting) (hc : s.installed = some c) :
      Does p s .go { s with phase := .resending s.replay }
  | resend {k c : Nat} {left : List Nat} (hp : s.phase = .resending (k :: left)) (hc : s.installed = some c) :
      Does p s .go { s.upd k fun r => { r with handed := r.handed ++ [c] } with
        phase := .resending left, resent := s.resent ++ [(k, c)] }
  | resentAll (hp : s.phase = .resending []) : Does p s .go { s with phase := .returned true }
  | unreplaying {k : Nat} {left : List Nat} {f f' : Failing} {t : St} (hp : s.phase = .failing (k :: left) f)
      (hf : s.fail k f = (t, some f')) : Does p s .go { t with phase := .failing (k :: left) f' }
  | unreplayed {k : Nat} {left : List Nat} {f : Failing} {t : St} (hp : s.phase = .failing (k :: left) f)
      (hf : s.fail k f = (t, none)) :
        Does p s .go { t with phase := .failing left .setError, unreplayed := s.unreplayed ++ [k] }
  | unreplayedAll {f : Failing} (hp : s.phase = .failing [] f) : Does p s .go { s with phase := .returned false }
  | dialFailed (hp : s.phase = .connecting) : Does p s .dialFailed { s with phase := .failing s.replay .setError }
  | skip {n k : Nat} {l v : List Nat} {r : Rec} (hp : s.phase = .ranging n l v none) (hr : s.recs[k]? = some r)
      (hm : r.inMap = true) (hn : n ≤ k) : Does p s (.visit k) { s with phase := .ranging n l (k :: v) none }
  | collect {n k : Nat} {l v : List Nat} {r : Rec} (hp : s.phase = .ranging n l v none) (hr : s.recs[k]? = some r)
      (hm : r.inMap = true) (hn : k < n) (hrep : p.replays r = true) :
      Does p s (.visit k) { s with phase := .ranging n l (k :: v) none, replay := s.replay ++ [k] }
  | dispose {n k : Nat} {l v : List Nat} {r : Rec} (hp : s.phase = .ranging n l v none) (hr : s.recs[k]? = some r)
      (hm : r.inMap = true) (hn : k < n) (hrep : p.replays r = false) :
      Does p s (.visit k) { s with phase := .ranging n l (k :: v) (some (k, .setError)) }

variable {p : Policy} {s t : St} {e : Ev}

theorem go_cases (h : go s = some t) : Does p s .go t := by
  unfold go at h
  cases hp : s.phase with
  | idle =>
    simp only [hp] at h
    obtain ⟨c, hc, rfl⟩ := Option.map_eq_some_iff.mp h
    exact .load hp hc
  | loaded c => simp only [hp] at h; cases h; exact .clear hp
  | cleared c => simp only [hp] at h; cases h; exact .close hp
  | reset => simp only [hp] at h; cases h; exact .cutoff hp
  | counted n => simp only [hp] at h; cases h; exact .range hp
  | ranging n l v cur =>
    cases cur with
    | some x =>
      obtain ⟨k, f⟩ := x
      simp only [hp] at h
      split at h
      · rename_i u f' hf
        cases h
        exact .failing hp hf
      · rename_i u hf
        cases h
        exact .failed hp hf
    | none =>
      simp only [hp] at h
      split at h
      · rename_i hall
        cases h
        refine .ranged hp fun k hk hm => ?_
        have := List.all_eq_true.mp hall k hk
        simpa [hm] using this
      · cases h
  | connecting =>
    simp only [hp] at h
    split at h
    · rename_i hc
      cases h
      obtain ⟨c, hc⟩ := Option.isSome_iff_exists.mp hc
      exact .connected hp hc
    · cases h
  | resending left =>
    cases left with
    | nil => simp only [hp] at h; cases h; exact .resentAll hp
    | cons k left =>
      simp only [hp] at h
      obtain ⟨c, hc, rfl⟩ := Option.map_eq_some_iff.mp h
      exact .resend hp hc
  | failing left f =>
    cases left with
    | nil => simp only [hp] at h; cases h; exact .unreplayedAll hp
    | cons k left =>
      simp only [hp] at h
      split at h
      · rename_i u f' hf
        cases h
        exact .unreplaying hp hf
      · rename_i u hf
        cases h
        exact .unreplayed hp hf
  | returned ok => simp only [hp] at h; cases h

theorem visit_cases {k : Nat} {r : Rec} (hr : s.recs[k]? = some r) (h : visit p s k r = some t) :
    Does p s (.visit k) t := by
  unfold visit at h
  split at h
  · rename_i n l v hp
    split at h
    · rename_i hm
      split at h
      · rename_i hn
        cases h
        exact .skip hp hr hm.1 hn
      · rename_i hn
        split at h
        · rename_i hrep
          cases h
          exact .collect hp hr hm.1 (by omega) hrep
        · rename_i hrep
          cases h
          exact .dispose hp hr hm.1 (by omega) (Bool.eq_false_iff.mpr hrep)
    · cases h
  · cases h

theorem step_cases (h : step p s e = some t) : Does p s e t := by
  cases e with
  | draw kind name => cases h; exact .draw
  | store k =>
    obtain ⟨r, hr, h⟩ := Option.bind_eq_some_iff.mp h
    split at h
    · rename_i hp; cases h; exact .turn hr (.store hp)
    · cases h
  | getConn k =>
    obtain ⟨r, hr, h⟩ := Option.bind_eq_some_iff.mp h
    split at h
    · rename_i hp
      obtain ⟨c, hc, rfl⟩ := Option.map_eq_some_iff.mp h
      exact .turn hr (.getConn hp hc)
    · cases h
  | send k =>
    obtain ⟨r, hr, h⟩ := Option.bind_eq_some_iff.mp h
    split at h
    · rename_i c hp; cases h; exact .turn hr (.send hp)
    · cases h
  | ready k =>
    obtain ⟨r, hr, h⟩ := Option.bind_eq_some_iff.mp h
    split at h
    · cases h; exact .turn hr .ready
    · cases h
  | overrun k =>
    obtain ⟨r, hr, h⟩ := Option.bind_eq_some_iff.mp h
    split at h
    · rename_i hk
      cases h
      exact .turn hr (.overrun (by rcases hk.2.1 with h | h <;> rw [h] <;> simp))
    · cases h
  | respond k err b =>
    obtain ⟨r, hr, h⟩ := Option.bind_eq_some_iff.mp h
    split at h
    · rename_i hm; cases h; exact .respond hr hm.1
    · cases h
  | process i =>
    obtain ⟨q, hq, rfl⟩ := Option.map_eq_some_iff.mp h
    unfold process
    split
    · exact .delete hq
    · exact .answer hq
  | putDone k =>
    obtain ⟨r, hr, h⟩ := Option.bind_eq_some_iff.mp h
    split at h
    · rename_i ho; cases h; exact .turn hr (.putDone ho.2)
    · cases h
  | putDelete k =>
    obtain ⟨r, hr, h⟩ := Option.bind_eq_some_iff.mp h
    split at h
    · rename_i ho; cases h; exact .turn hr (.putDelete ho.2.2)
    · cases h
  | watch k =>
    obtain ⟨r, hr, h⟩ := Option.bind_eq_some_iff.mp h
    split at h
    · cases h; exact .turn hr .watch
    · cases h
  | receive k =>
    obtain ⟨r, hr, h⟩ := Option.bind_eq_some_iff.mp h
    split at h
    · rename_i hp
      split at h
      · cases h; exact .turn hr (.receive hp)
      · split at h
        · cases h; exact .turn hr (.fails _ hp)
        · cases h
    · cases h
  | timeout k ctx =>
    obtain ⟨r, hr, h⟩ := Option.bind_eq_some_iff.mp h
    split at h
    · rename_i hp; cases h; exact .turn hr (.fails _ hp)
    · cases h
  | connect =>
    simp only [step] at h
    split at h
    · rename_i hi; cases h; exact .connect hi
    · cases h
  | go => exact go_cases h
  | visit k =>
    obtain ⟨r, hr, h⟩ := Option.bind_eq_some_iff.mp h
    exact visit_cases hr h
  | dialFailed =>
    simp only [step] at h
    split at h
    · rename_i hp; cases h; exact .dialFailed hp
    · cases h

end ValueRpc.Client.Reconnect
