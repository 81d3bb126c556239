/-
  ValueRpc.Client.Conns — the connections of one client, and who installs and closes them
  (`valueclient/client.go`: `Close`, `BadConnection`, `retryReconnect`, `ConnectContext`,
  `Reconnect`; `valueclient/sync_conn.go`: `connect`, `hasConn`, `reset`;
  `valueclient/connection.go`: `newConn`, `requestLoop`, `responseLoop`).

  Every goroutine that touches the connection is a call with a place in the code: a request
  or the user in `ConnectContext`, the user in `Reconnect` or `Close`, and the two loops of
  a connection in `BadConnection`. Shared are `syncConn.conn` (`installed`), the mutex
  `connecting` (`lock`), the flag `reconnecting`, and `shuttingDown`. A load, a store, a
  swap and a lock are a step each. `lock` and `reconnecting` name the call that holds them.

  `newConn` starts the request loop before the handshake and the response loop before it
  returns, so both can report a connection that is not installed yet. The response loop
  reports once and ends; the request loop reports and goes on. `reset` is a load, a store
  and a close, under no lock.

  What a request does with a connection is left out, and so is `getConn`, which takes
  `connecting` only to wait. The pass of `Reconnect` over the records is one step that says
  how many requests are to be replayed. `knows` is a record of the run: the connections
  whose response loop had read an error when the `Reconnect` that runs swapped the flag.

  `step_cases` says what a step does, `base_step` what holds whatever happens: the lock and
  the flag are held by the call that has them, no connection is installed while another is
  dialed, and none is installed twice.
-/

import ValueRpc.Lib.Runs
import ValueRpc.Lib.Mutex

namespace ValueRpc.Client.Conns

open ValueRpc.Lib

/-- `ReconnectPolicy`, as far as `retryReconnect` reads it. -/
structure Policy where
  maxAttempts : Int

inductive Who where
  | caller
  | responseLoop (c : Nat)
  | requestLoop (c : Nat)
  deriving DecidableEq, Repr

inductive Task where
  | connect
  /-- With the number of requests to replay. -/
  | reconnect (replays : Nat)
  | retry (attempt : Nat)
  | close
  deriving DecidableEq, Repr

inductive Pc where
  /-- `Close`: before `shuttingDown.Store(true)`. -/
  | flag
  /-- `BadConnection`: before `shuttingDown.Load`. -/
  | shutdown
  /-- `Reconnect`: before `CompareAndSwap`. -/
  | cas
  /-- `reset`: before the Load, the Store of nil, and the Close of what was loaded. -/
  | load
  | store (x : Option Nat)
  | close (x : Option Nat)
  /-- `Reconnect`: before the pass over the records. -/
  | dispose
  /-- `ConnectContext`: before `hasConn`, and before `handshakeToken`. -/
  | look
  | token
  /-- `connect`: before `connecting.Lock`, before `hasConn`, in `newConn` before the dial and
      before the handshake response, before the Store, before the Unlock. -/
  | lock
  | relook
  | dial
  | handshake (c : Nat)
  | install (c : Nat)
  | unlock (ok : Bool)
  | replay (left : Nat)
  /-- `Reconnect` returns: before `reconnecting.Store(false)`. -/
  | clear (ok : Bool)
  /-- `retryReconnect`: at the head of the loop until the timer fires, and before
      `shuttingDown.Load`. -/
  | backoff (attempt : Nat)
  | recheck (attempt : Nat)
  | done (ok : Bool)
  deriving DecidableEq, Repr

structure Call where
  who : Who
  task : Task
  pc : Pc
  deriving DecidableEq, Repr

inductive Loop where
  | unstarted
  | reading
  /-- `ReadMessage` failed; before `closedIntentionally`. -/
  | erred
  | ended
  | reported
  deriving DecidableEq, Repr

structure Conn where
  /-- `newConn` returned it. -/
  returned : Bool
  stored : Bool
  closed : Bool
  loop : Loop
  deriving DecidableEq, Repr

structure St where
  conns : List Conn
  installed : Option Nat
  lock : Option Nat
  reconnecting : Option Nat
  shuttingDown : Bool
  calls : List Call
  knows : List Nat

def start : St := ⟨[], none, none, none, false, [], []⟩

inductive Ev where
  /-- A request or the user calls `ConnectContext`; the user calls `Reconnect` or `Close`. -/
  | connect
  | reconnect
  | close
  /-- The response loop's `ReadMessage` fails, and then it looks whether it was closed. -/
  | readError (c : Nat)
  | check (c : Nat)
  | writeError (c : Nat)
  /-- The next step of a call, where it has no choice. -/
  | run (i : Nat)
  | dispose (i : Nat) (replays : Nat)
  | token (i : Nat) (ok : Bool)
  | dial (i : Nat) (ok : Bool)
  | handshake (i : Nat) (ok : Bool)
  /-- `Close` wakes a backoff. -/
  | wake (i : Nat)
  deriving DecidableEq, Repr

namespace St

def goto (s : St) (i : Nat) (pc : Pc) : St := { s with calls := s.calls.modify i fun x => { x with pc := pc } }

def setConn (s : St) (c : Nat) (f : Conn → Conn) : St := { s with conns := s.conns.modify c f }

def callAt (s : St) (i : Nat) : Option Pc := s.calls[i]?.map (·.pc)

def broken (s : St) : List Nat :=
  (List.range s.conns.length).filter fun c => s.conns[c]?.any fun k => decide (k.loop = .erred ∨ k.loop = .reported)

end St

def Task.back (ok : Bool) : Task → Pc
  | .connect | .close => .done ok
  | .reconnect replays => if ok then .replay replays else .clear false
  | .retry attempt => if ok then .done true else .backoff (attempt + 1)

def Who.back (ok : Bool) : Who → Pc
  | .caller => .done ok
  | .responseLoop _ | .requestLoop _ => if ok then .done true else .backoff 1

def Policy.allows (p : Policy) (attempt : Nat) : Bool := decide (p.maxAttempts < 0 ∨ (attempt : Int) ≤ p.maxAttempts)

def run (p : Policy) (s : St) (i : Nat) (x : Call) : Option St :=
  match x.pc with
  | .flag => some { s.goto i .load with shuttingDown := true }
  | .shutdown => some (s.goto i (if s.shuttingDown then .done true else .cas))
  | .cas =>
    match s.reconnecting with
    | some _ => some (s.goto i (.done true))
    | none => some { s.goto i .load with reconnecting := some i, knows := s.broken }
  | .load => some (s.goto i (.store s.installed))
  | .store c => some { s.goto i (.close c) with installed := none }
  | .close none => some (s.goto i (if x.task = .close then .done true else .dispose))
  | .close (some c) =>
    some ((s.setConn c fun k => { k with closed := true }).goto i (if x.task = .close then .done true else .dispose))
  | .look => some (s.goto i (if s.installed.isSome then x.task.back true else .token))
  | .lock => if s.lock = none then some { s.goto i .relook with lock := some i } else none
  | .relook => some (s.goto i (if s.installed.isSome then .unlock true else .dial))
  | .install c => some { (s.setConn c fun k => { k with stored := true }).goto i (.unlock true) with
      installed := some c }
  | .unlock ok => some { s.goto i (x.task.back ok) with lock := none }
  | .replay 0 => some (s.goto i (.clear true))
  | .replay (left + 1) => if s.installed.isSome then some (s.goto i (.replay left)) else none
  | .clear ok => some { s.goto i (x.who.back ok) with reconnecting := none }
  | .backoff attempt => some (s.goto i (if p.allows attempt then .recheck attempt else .done false))
  | .recheck attempt =>
    if s.shuttingDown then some (s.goto i (.done false))
    else some { s with calls := s.calls.modify i fun x => { x with task := .retry attempt, pc := .look } }
  | .dispose | .token | .dial | .handshake _ | .done _ => none

def St.idle (s : St) (w : Who) : Bool :=
    s.calls.all fun x => x.who != w || (match x.pc with | .done _ => true | _ => false)

def step (p : Policy) (s : St) : Ev → Option St
  | .connect => some { s with calls := s.calls ++ [⟨.caller, .connect, .look⟩] }
  | .reconnect => some { s with calls := s.calls ++ [⟨.caller, .reconnect 0, .cas⟩] }
  | .close => some { s with calls := s.calls ++ [⟨.caller, .close, .flag⟩] }
  | .readError c =>
    s.conns[c]?.bind fun k =>
      if k.loop = .reading then some (s.setConn c fun k => { k with loop := .erred }) else none
  | .check c =>
    s.conns[c]?.bind fun k =>
      if k.loop = .erred then
        if k.closed then some (s.setConn c fun k => { k with loop := .ended })
        else some { s.setConn c fun k => { k with loop := .reported } with
          calls := s.calls ++ [⟨.responseLoop c, .reconnect 0, .shutdown⟩] }
      else none
  | .writeError c =>
    s.conns[c]?.bind fun k =>
      if k.closed = false ∧ s.idle (.requestLoop c) = true then
        some { s with calls := s.calls ++ [⟨.requestLoop c, .reconnect 0, .shutdown⟩] }
      else none
  | .run i => s.calls[i]?.bind (run p s i)
  | .dispose i replays =>
    s.calls[i]?.bind fun x =>
      if x.pc = .dispose then
        some { s with calls := s.calls.modify i fun x => { x with task := .reconnect replays, pc := .look } }
      else none
  | .token i ok =>
    s.calls[i]?.bind fun x => if x.pc = .token then some (s.goto i (if ok then .lock else x.task.back false)) else none
  | .dial i ok =>
    s.calls[i]?.bind fun x =>
      if x.pc = .dial then
        if ok then some { s.goto i (.handshake s.conns.length) with
          conns := s.conns ++ [⟨false, false, false, .unstarted⟩] }
        else some (s.goto i (.unlock false))
      else none
  | .handshake i ok =>
    s.calls[i]?.bind fun x =>
      match x.pc with
      | .handshake c =>
        if ok then some ((s.setConn c fun k => { k with returned := true, loop := .reading }).goto i (.install c))
        else some ((s.setConn c fun k => { k with closed := true }).goto i (.unlock false))
      | _ => none
  | .wake i =>
    s.calls[i]?.bind fun x =>
      match x.pc with
      | .backoff attempt => if p.allows attempt = true ∧
          s.shuttingDown = true then some (s.goto i (.done false)) else none
      | _ => none

def sys (p : Policy) : Sys St Ev := ⟨fun s => s = start, step p⟩

def makes (i : Nat) : List Ev := [.run i, .token i true, .run i, .run i, .dial i true, .handshake i true]

def installs (i : Nat) : List Ev := [.run i, .run i]

/-! ## What a step does -/

inductive Turn (s : St) : Call → Call → Prop
  | shutdown {x : Call} (hp : x.pc = .shutdown) (hs : s.shuttingDown = true) : Turn s x { x with pc := .done true }
  | pass {x : Call} (hp : x.pc = .shutdown) (hs : s.shuttingDown = false) : Turn s x { x with pc := .cas }
  | load {x : Call} (hp : x.pc = .load) : Turn s x { x with pc := .store s.installed }
  | closeNone {x : Call} (hp : x.pc = .close none) :
      Turn s x { x with pc := if x.task = .close then .done true else .dispose }
  | dispose {x : Call} (m : Nat) (hp : x.pc = .dispose) : Turn s x { x with task := .reconnect m, pc := .look }
  | back {x : Call} (ok : Bool) (hp : x.pc = .look ∨ x.pc = .token) : Turn s x { x with pc := x.task.back ok }
  | look {x : Call} (hp : x.pc = .look) : Turn s x { x with pc := .token }
  | token {x : Call} (hp : x.pc = .token) : Turn s x { x with pc := .lock }
  | found {x : Call} (hp : x.pc = .relook) : Turn s x { x with pc := .unlock true }
  | missing {x : Call} (hp : x.pc = .relook) (hi : s.installed = none) : Turn s x { x with pc := .dial }
  | dialFails {x : Call} (hp : x.pc = .dial) : Turn s x { x with pc := .unlock false }
  | replay {x : Call} {m : Nat} (hp : x.pc = .replay (m + 1)) : Turn s x { x with pc := .replay m }
  | replayed {x : Call} (hp : x.pc = .replay 0) : Turn s x { x with pc := .clear true }
  | backoff {x : Call} {n : Nat} (hp : x.pc = .backoff n) : Turn s x { x with pc := .recheck n }
  | giveUp {x : Call} {n : Nat} (hp : x.pc = .backoff n ∨ x.pc = .recheck n) : Turn s x { x with pc := .done false }
  | retry {x : Call} {n : Nat} (hp : x.pc = .recheck n) : Turn s x { x with task := .retry n, pc := .look }

inductive Fresh : Call → Prop
  | connect : Fresh ⟨.caller, .connect, .look⟩
  | reconnect : Fresh ⟨.caller, .reconnect 0, .cas⟩
  | close : Fresh ⟨.caller, .close, .flag⟩
  | responseLoop (c : Nat) : Fresh ⟨.responseLoop c, .reconnect 0, .shutdown⟩
  | requestLoop (c : Nat) : Fresh ⟨.requestLoop c, .reconnect 0, .shutdown⟩

inductive Does (s : St) : Ev → St → Prop
  | enter {e : Ev} {x : Call} (hx : Fresh x) : Does s e { s with calls := s.calls ++ [x] }
  | readError {c : Nat} : Does s (.readError c) (s.setConn c fun k => { k with loop := .erred })
  | ended {c : Nat} : Does s (.check c) (s.setConn c fun k => { k with loop := .ended })
  | report {c : Nat} : Does s (.check c) { s.setConn c fun k => { k with loop := .reported } with
      calls := s.calls ++ [⟨.responseLoop c, .reconnect 0, .shutdown⟩] }
  | turn {e : Ev} {i : Nat} {x : Call} {f : Call → Call} (hx : s.calls[i]? = some x) (hf : Turn s x (f x)) :
      Does s e { s with calls := s.calls.modify i f }
  | flag {i : Nat} {x : Call} (hx : s.calls[i]? = some x) (hp : x.pc = .flag) :
      Does s (.run i) { s.goto i .load with shuttingDown := true }
  | cas {i : Nat} {x : Call} (hx : s.calls[i]? = some x) (hp : x.pc = .cas) (hn : s.reconnecting = none) :
      Does s (.run i) { s.goto i .load with reconnecting := some i, knows := s.broken }
  | skip {i j : Nat} {x : Call} (hx : s.calls[i]? = some x) (hp : x.pc = .cas) (hj : s.reconnecting = some j) :
      Does s (.run i) (s.goto i (.done true))
  | store {i : Nat} {x : Call} {c : Option Nat} (hx : s.calls[i]? = some x) (hp : x.pc = .store c) :
      Does s (.run i) { s.goto i (.close c) with installed := none }
  | close {i c : Nat} {x : Call} (hx : s.calls[i]? = some x) (hp : x.pc = .close (some c)) :
      Does s (.run i) ((s.setConn c fun k => { k with closed := true }).goto i
        (if x.task = .close then .done true else .dispose))
  | lock {i : Nat} {x : Call} (hx : s.calls[i]? = some x) (hp : x.pc = .lock) (hn : s.lock = none) :
      Does s (.run i) { s.goto i .relook with lock := some i }
  | dial {i : Nat} {x : Call} (hx : s.calls[i]? = some x) (hp : x.pc = .dial) :
      Does s (.dial i true)
        { s.goto i (.handshake s.conns.length) with conns := s.conns ++ [⟨false, false, false, .unstarted⟩] }
  | accepted {i c : Nat} {x : Call} (hx : s.calls[i]? = some x) (hp : x.pc = .handshake c) :
      Does s (.handshake i true)
        ((s.setConn c fun k => { k with returned := true, loop := .reading }).goto i (.install c))
  | refused {i c : Nat} {x : Call} (hx : s.calls[i]? = some x) (hp : x.pc = .handshake c) :
      Does s (.handshake i false) ((s.setConn c fun k => { k with closed := true }).goto i (.unlock false))
  | install {i c : Nat} {x : Call} (hx : s.calls[i]? = some x) (hp : x.pc = .install c) :
      Does s (.run i) { (s.setConn c fun k => { k with stored := true }).goto i (.unlock true) with
        installed := some c }
  | unlock {i : Nat} {x : Call} {ok : Bool} (hx : s.calls[i]? = some x) (hp : x.pc = .unlock ok) :
      Does s (.run i) { s.goto i (x.task.back ok) with lock := none }
  | clear {i : Nat} {x : Call} {ok : Bool} (hx : s.calls[i]? = some x) (hp : x.pc = .clear ok) :
      Does s (.run i) { s.goto i (x.who.back ok) with reconnecting := none }

variable {p : Policy} {s t : St} {e : Ev} {i c : Nat} {x : Call}

theorem run_cases (hx : s.calls[i]? = some x) (h : run p s i x = some t) : Does s (.run i) t := by
  unfold run at h
  cases hp : x.pc with
  | flag => simp only [hp] at h; cases h; exact .flag hx hp
  | shutdown =>
    simp only [hp] at h
    cases h
    cases hs : s.shuttingDown with
    | true => exact .turn hx (.shutdown hp hs)
    | false => exact .turn hx (.pass hp hs)
  | cas =>
    simp only [hp] at h
    cases hr : s.reconnecting with
    | some j => simp only [hr] at h; cases h; exact .skip hx hp hr
    | none => simp only [hr] at h; cases h; exact .cas hx hp hr
  | load => simp only [hp] at h; cases h; exact .turn hx (.load hp)
  | store c => simp only [hp] at h; cases h; exact .store hx hp
  | close c =>
    cases c with
    | none => simp only [hp] at h; cases h; exact .turn hx (.closeNone hp)
    | some c => simp only [hp] at h; cases h; exact .close hx hp
  | look =>
    simp only [hp] at h
    cases h
    cases hi : s.installed with
    | some c => exact .turn hx (.back true (.inl hp))
    | none => exact .turn hx (.look hp)
  | lock =>
    simp only [hp] at h
    split at h
    · rename_i hn; cases h; exact .lock hx hp hn
    · cases h
  | relook =>
    simp only [hp] at h
    cases h
    cases hi : s.installed with
    | some c => exact .turn hx (.found hp)
    | none => exact .turn hx (.missing hp hi)
  | install c => simp only [hp] at h; cases h; exact .install hx hp
  | unlock ok => simp only [hp] at h; cases h; exact .unlock hx hp
  | replay m =>
    cases m with
    | zero => simp only [hp] at h; cases h; exact .turn hx (.replayed hp)
    | succ m =>
      simp only [hp] at h
      split at h
      · cases h; exact .turn hx (.replay hp)
      · cases h
  | clear ok => simp only [hp] at h; cases h; exact .clear hx hp
  | backoff n =>
    simp only [hp] at h
    cases h
    cases ha : p.allows n with
    | true => exact .turn hx (.backoff hp)
    | false => exact .turn hx (.giveUp (.inl hp))
  | recheck n =>
    simp only [hp] at h
    split at h
    · cases h; exact .turn hx (.giveUp (.inr hp))
    · cases h; exact .turn hx (.retry hp)
  | _ => simp only [hp] at h; cases h

theorem step_cases (h : step p s e = some t) : Does s e t := by
  cases e with
  | connect => cases h; exact .enter .connect
  | reconnect => cases h; exact .enter .reconnect
  | close => cases h; exact .enter .close
  | readError c =>
    obtain ⟨k, hk, h⟩ := Option.bind_eq_some_iff.mp h
    split at h
    · cases h; exact .readError
    · cases h
  | check c =>
    obtain ⟨k, hk, h⟩ := Option.bind_eq_some_iff.mp h
    split at h
    · split at h
      · cases h; exact .ended
      · cases h; exact .report
    · cases h
  | writeError c =>
    obtain ⟨k, hk, h⟩ := Option.bind_eq_some_iff.mp h
    split at h
    · cases h; exact .enter (.requestLoop c)
    · cases h
  | run i =>
    obtain ⟨x, hx, h⟩ := Option.bind_eq_some_iff.mp h
    exact run_cases hx h
  | dispose i m =>
    obtain ⟨x, hx, h⟩ := Option.bind_eq_some_iff.mp h
    split at h
    · rename_i hp; cases h; exact .turn hx (.dispose m hp)
    · cases h
  | token i ok =>
    obtain ⟨x, hx, h⟩ := Option.bind_eq_some_iff.mp h
    split at h
    · rename_i hp
      cases h
      cases ok with
      | true => exact .turn hx (.token hp)
      | false => exact .turn hx (.back false (.inr hp))
    · cases h
  | dial i ok =>
    obtain ⟨x, hx, h⟩ := Option.bind_eq_some_iff.mp h
    split at h
    · rename_i hp
      cases ok with
      | true => cases h; exact .dial hx hp
      | false => cases h; exact .turn hx (.dialFails hp)
    · cases h
  | handshake i ok =>
    obtain ⟨x, hx, h⟩ := Option.bind_eq_some_iff.mp h
    split at h
    · rename_i c hp
      cases ok with
      | true => cases h; exact .accepted hx hp
      | false => cases h; exact .refused hx hp
    · cases h
  | wake i =>
    obtain ⟨x, hx, h⟩ := Option.bind_eq_some_iff.mp h
    split at h
    · rename_i n hp
      split at h
      · cases h; exact .turn hx (.giveUp (.inl hp))
      · cases h
    · cases h

/-! ## What holds whatever happens -/

def Pc.inside : Pc → Bool
  | .relook | .dial | .handshake _ | .install _ | .unlock _ => true
  | _ => false

def Pc.outside : Pc → Bool
  | .flag | .shutdown | .cas | .backoff _ | .recheck _ | .done _ => true
  | _ => false

def Task.isReconnect : Task → Bool
  | .reconnect _ => true
  | _ => false

def Call.flagged (x : Call) : Bool := x.task.isReconnect && !x.pc.outside

/-- Under the lock, having seen that no connection is installed. -/
def Pc.dialing : Pc → Bool
  | .dial | .handshake _ | .install _ => true
  | _ => false

def Pc.making : Pc → Option Nat
  | .handshake c | .install c => some c
  | _ => none

def Call.Fits (x : Call) : Prop :=
  match x.pc with
  | .dispose | .replay _ | .clear _ => x.task.isReconnect = true
  | .flag => x.task = .close
  | .load | .store _ | .close _ => x.task = .close ∨ x.task.isReconnect = true
  | .shutdown | .cas => x.task.isReconnect = true
  | _ => True

structure Base (s : St) : Prop where
  lock : Held (fun x => x.pc.inside) s.calls s.lock
  flag : Held Call.flagged s.calls s.reconnecting
  fits : ∀ (i : Nat) (x : Call), s.calls[i]? = some x → x.Fits
  dialing : ∀ (i : Nat) (x : Call), s.calls[i]? = some x → x.pc.dialing = true → s.installed = none
  making : ∀ (i : Nat) (x : Call) (c : Nat), s.calls[i]? = some x → x.pc.making = some c →
    ∃ k, s.conns[c]? = some k ∧ k.stored = false
  installed : ∀ c, s.installed = some c → ∃ k, s.conns[c]? = some k ∧ k.stored = true

def Stays (s t : St) : Prop := ∀ (c : Nat) (k : Conn), s.conns[c]? = some k → ∃ k',
    t.conns[c]? = some k' ∧ k'.stored = k.stored

theorem Stays.of_eq (h : t.conns = s.conns) : Stays s t := fun c k hk => ⟨k, by rw [h, hk], rfl⟩

theorem stays_modify {f : Conn → Conn} (ht : t.conns = s.conns.modify c f) (hf : ∀ k, (f k).stored = k.stored) :
    Stays s t := by
  intro c' k hk
  by_cases hc : c = c'
  · subst hc
    exact ⟨f k, by simp [ht, hk], hf k⟩
  · exact ⟨k, by simp [ht, hc, hk], rfl⟩

theorem Fresh.outside {x : Call} (h : Fresh x) :
    x.pc.inside = false ∧ x.flagged = false ∧ x.pc.dialing = false ∧
    x.pc.making = none ∧ x.Fits := by
  cases h <;> exact ⟨rfl, rfl, rfl, rfl, by simp [Call.Fits, Task.isReconnect]⟩

theorem Task.back_outside (ok : Bool) (task : Task) :
    (task.back ok).inside = false ∧ (task.back ok).dialing = false ∧
    (task.back ok).making = none := by
  cases task <;> cases ok <;> exact ⟨rfl, rfl, rfl⟩

theorem Task.back_fits (ok : Bool) (x : Call) : Call.Fits { x with pc := x.task.back ok } := by
  obtain ⟨who, task, pc⟩ := x
  cases task <;> cases ok <;> simp [Call.Fits, Task.back, Task.isReconnect]

theorem Who.back_outside (ok : Bool) (who : Who) :
    (who.back ok).outside = true ∧ (who.back ok).inside = false ∧
    (who.back ok).dialing = false ∧ (who.back ok).making = none := by
  cases who <;> cases ok <;> exact ⟨rfl, rfl, rfl, rfl⟩

theorem Who.back_fits (ok : Bool) (x : Call) : Call.Fits { x with pc := x.who.back ok } := by
  obtain ⟨who, task, pc⟩ := x
  cases who <;> cases ok <;> simp [Call.Fits, Who.back]

theorem Base.enter (hb : Base s) (hcalls : t.calls = s.calls ++ [x]) (hx : Fresh x) (hconns : Stays s t)
    (hlock : t.lock = s.lock) (hflag : t.reconnecting = s.reconnecting) (hinst : t.installed = s.installed) :
    Base t := by
  obtain ⟨hin, hfl, hdial, hmake, hfits⟩ := hx.outside
  refine ⟨?_, ?_, fun i y hy => ?_, fun i y hy hd => ?_, fun i y c hy hm => ?_, fun c hc => ?_⟩
  · rw [hcalls, hlock]
    exact hb.lock.spawn hin
  · rw [hcalls, hflag]
    exact hb.flag.spawn hfl
  · rw [hcalls] at hy
    rcases append_get hy with hy | ⟨-, rfl⟩
    · exact hb.fits i y hy
    · exact hfits
  · rw [hcalls] at hy
    rw [hinst]
    rcases append_get hy with hy | ⟨-, rfl⟩
    · exact hb.dialing i y hy hd
    · rw [hdial] at hd
      cases hd
  · rw [hcalls] at hy
    rcases append_get hy with hy | ⟨-, rfl⟩
    · obtain ⟨k, hk, hs⟩ := hb.making i y c hy hm
      obtain ⟨k', hk', hs'⟩ := hconns c k hk
      exact ⟨k', hk', hs'.trans hs⟩
    · rw [hmake] at hm
      cases hm
  · rw [hinst] at hc
    obtain ⟨k, hk, hs⟩ := hb.installed c hc
    obtain ⟨k', hk', hs'⟩ := hconns c k hk
    exact ⟨k', hk', hs'.trans hs⟩

theorem Base.loops (hb : Base s) {f : Conn → Conn} (hf : ∀ k, (f k).stored = k.stored) :
    Base (s.setConn c f) := by
  have hconns : Stays s (s.setConn c f) := stays_modify rfl hf
  refine ⟨hb.lock, hb.flag, hb.fits, hb.dialing, fun i x c' hx hm => ?_, fun c' hc => ?_⟩
  · obtain ⟨k, hk, hs⟩ := hb.making i x c' hx hm
    obtain ⟨k', hk', hs'⟩ := hconns c' k hk
    exact ⟨k', hk', hs'.trans hs⟩
  · obtain ⟨k, hk, hs⟩ := hb.installed c' hc
    obtain ⟨k', hk', hs'⟩ := hconns c' k hk
    exact ⟨k', hk', hs'.trans hs⟩

theorem Base.moves (hb : Base s) {f : Call → Call} (hx : s.calls[i]? = some x)
    (hcalls : t.calls = s.calls.modify i f) (hlock : Held (fun x => x.pc.inside) t.calls t.lock)
    (hflag : Held Call.flagged t.calls t.reconnecting) (hfits : (f x).Fits)
    (hinst : t.installed = s.installed ∨ t.installed = none) (hconns : Stays s t)
    (hdial : (f x).pc.dialing = true → x.pc.dialing = true ∨ t.installed = none)
    (hmake : ∀ c, (f x).pc.making = some c → x.pc.making = some c ∨ ∃ k, t.conns[c]? = some k ∧ k.stored = false) :
    Base t := by
  have hnone : s.installed = none → t.installed = none := fun h => hinst.elim (fun h' => h'.trans h) id
  refine ⟨hlock, hflag, fun j y hy => ?_, fun j y hy hd => ?_, fun j y c hy hm => ?_, fun c hc => ?_⟩
  · rw [hcalls] at hy
    rcases modify_get hy with ⟨rfl, x', hx', rfl⟩ | ⟨-, hy⟩
    · cases hx.symm.trans hx'
      exact hfits
    · exact hb.fits j y hy
  · rw [hcalls] at hy
    rcases modify_get hy with ⟨rfl, x', hx', rfl⟩ | ⟨-, hy⟩
    · cases hx.symm.trans hx'
      rcases hdial hd with h | h
      · exact hnone (hb.dialing _ x hx h)
      · exact h
    · exact hnone (hb.dialing j y hy hd)
  · rw [hcalls] at hy
    have hold : (∃ k, s.conns[c]? = some k ∧ k.stored = false) ∨ ∃ k, t.conns[c]? = some k ∧ k.stored = false := by
      rcases modify_get hy with ⟨rfl, x', hx', rfl⟩ | ⟨-, hy⟩
      · cases hx.symm.trans hx'
        exact (hmake c hm).imp_left (hb.making _ x c hx)
      · exact .inl (hb.making j y c hy hm)
    rcases hold with ⟨k, hk, hs⟩ | h
    · obtain ⟨k', hk', hs'⟩ := hconns c k hk
      exact ⟨k', hk', hs'.trans hs⟩
    · exact h
  · rcases hinst with h | h
    · rw [h] at hc
      obtain ⟨k, hk, hs⟩ := hb.installed c hc
      obtain ⟨k', hk', hs'⟩ := hconns c k hk
      exact ⟨k', hk', hs'.trans hs⟩
    · rw [h] at hc
      cases hc

/-- A turn enters no section, and dials only where nothing is installed. -/
theorem Turn.within {x x' : Call} (h : Turn s x x') (hfits : x.Fits) :
    (x'.pc.inside = true → x.pc.inside = true) ∧
    (x'.flagged = true → x.flagged = true) ∧ x'.Fits ∧
      (x'.pc.dialing = true → x.pc.dialing = true ∨ s.installed = none) ∧
    x'.pc.making = none := by
  unfold Call.Fits at hfits
  cases h with
  | shutdown hp =>
    exact ⟨nofun, fun h => by simp [Call.flagged, Pc.outside] at h, trivial, nofun, rfl⟩
  | pass hp =>
    simp only [hp] at hfits
    exact ⟨nofun, fun h => by simp [Call.flagged, Pc.outside] at h, hfits, nofun, rfl⟩
  | load hp =>
    simp only [hp] at hfits
    exact ⟨nofun, fun h => by simpa [Call.flagged, Pc.outside, hp] using h, hfits, nofun, rfl⟩
  | closeNone hp =>
    simp only [hp] at hfits
    by_cases ht : x.task = .close
    · simp only [ht, if_true]
      exact ⟨nofun, fun h => by simp [Call.flagged, Pc.outside] at h, trivial, nofun, rfl⟩
    · have hrec := hfits.resolve_left ht
      simp only [ht, if_false]
      exact ⟨nofun, fun h => by simpa [Call.flagged, Pc.outside, hp] using h, hrec, nofun, rfl⟩
  | dispose m hp =>
    simp only [hp] at hfits
    exact ⟨nofun, fun h => by simpa [Call.flagged, Pc.outside, hp] using hfits, trivial, nofun, rfl⟩
  | back ok hp =>
    obtain ⟨h1, h2, h3⟩ := Task.back_outside ok x.task
    refine ⟨fun h => ?_, fun h => ?_, Task.back_fits ok x, fun h => ?_, h3⟩
    · rw [h1] at h
      cases h
    · have ht : x.task.isReconnect = true := by
        simp only [Call.flagged, Bool.and_eq_true] at h
        exact h.1
      rcases hp with hp | hp <;> simp [Call.flagged, Pc.outside, hp, ht]
    · rw [h2] at h
      cases h
  | look hp | token hp =>
    exact ⟨nofun, fun h => by simpa [Call.flagged, Pc.outside, hp] using h, trivial, nofun, rfl⟩
  | found hp | dialFails hp =>
    exact ⟨fun _ => (by simp [Pc.inside, hp]), fun h => by simpa [Call.flagged, Pc.outside, hp] using h, trivial,
      nofun, rfl⟩
  | missing hp hi =>
    exact ⟨fun _ => (by simp [Pc.inside, hp]), fun h => by simpa [Call.flagged, Pc.outside, hp] using h, trivial,
      fun _ => .inr hi, rfl⟩
  | replay hp | replayed hp =>
    simp only [hp] at hfits
    exact ⟨nofun, fun h => by simpa [Call.flagged, Pc.outside, hp] using h, hfits, nofun, rfl⟩
  | backoff hp | giveUp hp =>
    exact ⟨nofun, fun h => by simp [Call.flagged, Pc.outside] at h, trivial, nofun, rfl⟩
  | retry hp =>
    exact ⟨nofun, fun h => by simp [Call.flagged, Task.isReconnect] at h, trivial, nofun, rfl⟩

theorem dialing_inside {q : Pc} (h : q.dialing = true) : q.inside = true := by
  cases q <;> first | rfl | cases h

theorem making_inside {q : Pc} (h : q.making = some c) : q.inside = true := by
  cases q <;> first | rfl | cases h

/-- The call at the Store is the only one under the lock, so nobody else is making a
    connection. -/
theorem Base.install (hb : Base s) (hx : s.calls[i]? = some x) (hp : x.pc = .install c) :
    Base { (s.setConn c fun k => { k with stored := true }).goto i (.unlock true) with installed := some c } := by
  have hin : x.pc.inside = true := by rw [hp]; rfl
  refine ⟨hb.lock.keep hx fun _ => ?_, hb.flag.keep hx fun h => ?_, fun j y hy => ?_, fun j y hy hd => ?_,
    fun j y c' hy hm => ?_, fun c' hc => ?_⟩
  · exact hin
  · simpa [Call.flagged, Pc.outside, hp] using h
  · rcases modify_get hy with ⟨rfl, y', hy', rfl⟩ | ⟨-, hy⟩
    · trivial
    · exact hb.fits j y hy
  · rcases modify_get hy with ⟨rfl, y', hy', rfl⟩ | ⟨hij, hy⟩
    · cases hd
    · exact absurd (hb.lock.unique hx hin hy (dialing_inside hd)) hij
  · rcases modify_get hy with ⟨rfl, y', hy', rfl⟩ | ⟨hij, hy⟩
    · cases hm
    · exact absurd (hb.lock.unique hx hin hy (making_inside hm)) hij
  · cases hc
    obtain ⟨k, hk, -⟩ := hb.making i x c hx (by rw [hp]; rfl)
    exact ⟨{ k with stored := true }, by simp [St.setConn, St.goto, hk], rfl⟩

theorem base_step (hb : Base s) (h : step p s e = some t) : Base t := by
  cases step_cases h with
  | enter hx => exact hb.enter rfl hx (.of_eq rfl) rfl rfl rfl
  | readError | ended => exact hb.loops fun _ => rfl
  | report => exact hb.enter rfl (.responseLoop _) (stays_modify rfl fun _ => rfl) rfl rfl rfl
  | turn hx hf =>
    obtain ⟨h1, h2, h3, h4, h5⟩ := hf.within (hb.fits _ _ hx)
    refine hb.moves hx rfl (hb.lock.keep hx h1) (hb.flag.keep hx h2) h3 (.inl rfl) (.of_eq rfl) h4 fun c hc => ?_
    rw [h5] at hc
    cases hc
  | flag hx hp =>
    have hfits := hb.fits _ _ hx
    simp only [Call.Fits, hp] at hfits
    refine hb.moves hx rfl (hb.lock.keep hx nofun) (hb.flag.keep hx fun h => ?_) (.inl hfits) (.inl rfl)
      (.of_eq rfl) nofun nofun
    simp [Call.flagged, hfits, Task.isReconnect] at h
  | cas hx hp hn =>
    have hfits := hb.fits _ _ hx
    simp only [Call.Fits, hp] at hfits
    have hflag := hb.flag
    rw [hn] at hflag
    exact hb.moves hx rfl (hb.lock.keep hx nofun) hflag.enter (.inr hfits) (.inl rfl) (.of_eq rfl)
      nofun nofun
  | skip hx hp hj =>
    exact hb.moves hx rfl (hb.lock.keep hx nofun)
      (hb.flag.keep hx fun h => by simp [Call.flagged, Pc.outside] at h) trivial (.inl rfl) (.of_eq rfl)
      nofun nofun
  | store hx hp =>
    have hfits := hb.fits _ _ hx
    simp only [Call.Fits, hp] at hfits
    refine hb.moves hx rfl (hb.lock.keep hx nofun) (hb.flag.keep hx fun h => ?_) hfits (.inr rfl)
      (.of_eq rfl) nofun nofun
    simpa [Call.flagged, Pc.outside, hp] using h
  | @close i c x hx hp =>
    have hfits := hb.fits _ _ hx
    simp only [Call.Fits, hp] at hfits
    by_cases ht : x.task = .close
    · simp only [ht, if_true]
      exact hb.moves hx rfl (hb.lock.keep hx nofun)
        (hb.flag.keep hx fun h => by simp [Call.flagged, Pc.outside] at h) trivial (.inl rfl)
        (stays_modify rfl fun _ => rfl) nofun nofun
    · simp only [ht, if_false]
      refine hb.moves hx rfl (hb.lock.keep hx nofun) (hb.flag.keep hx fun h => ?_)
        (hfits.resolve_left ht) (.inl rfl) (stays_modify rfl fun _ => rfl) nofun nofun
      simpa [Call.flagged, Pc.outside, hp] using h
  | lock hx hp hn =>
    have hlock := hb.lock
    rw [hn] at hlock
    refine hb.moves hx rfl hlock.enter (hb.flag.keep hx fun h => ?_) trivial (.inl rfl) (.of_eq rfl)
      nofun nofun
    simpa [Call.flagged, Pc.outside, hp] using h
  | dial hx hp =>
    refine hb.moves hx rfl (hb.lock.keep hx fun _ => ?_) (hb.flag.keep hx fun h => ?_) trivial (.inl rfl)
      (fun c k hk => ⟨k, get_append _ hk, rfl⟩) (fun _ => .inl (by rw [hp]; rfl)) fun c hc => .inr ?_
    · simp [Pc.inside, hp]
    · simpa [Call.flagged, Pc.outside, hp] using h
    · cases hc
      exact ⟨⟨false, false, false, .unstarted⟩, by simp, rfl⟩
  | accepted hx hp =>
    refine hb.moves hx rfl (hb.lock.keep hx fun _ => ?_) (hb.flag.keep hx fun h => ?_) trivial (.inl rfl)
      (stays_modify rfl fun _ => rfl) (fun _ => .inl (by rw [hp]; rfl)) fun c hc => .inl (by rw [hp]; exact hc)
    · simp [Pc.inside, hp]
    · simpa [Call.flagged, Pc.outside, hp] using h
  | refused hx hp =>
    refine hb.moves hx rfl (hb.lock.keep hx fun _ => ?_) (hb.flag.keep hx fun h => ?_) trivial (.inl rfl)
      (stays_modify rfl fun _ => rfl) nofun nofun
    · simp [Pc.inside, hp]
    · simpa [Call.flagged, Pc.outside, hp] using h
  | install hx hp => exact hb.install hx hp
  | @unlock i x ok hx hp =>
    obtain ⟨h1, h2, h3⟩ := Task.back_outside ok x.task
    refine hb.moves hx rfl (hb.lock.leave hx (by rw [hp]; rfl) h1) (hb.flag.keep hx fun h => ?_)
      (Task.back_fits ok x) (.inl rfl)
      (.of_eq rfl) (fun h => ?_) fun c h => ?_
    · have ht : x.task.isReconnect = true := by
        simp only [Call.flagged, Bool.and_eq_true] at h
        exact h.1
      simp [Call.flagged, Pc.outside, hp, ht]
    · rw [h2] at h
      cases h
    · rw [h3] at h
      cases h
  | @clear i x ok hx hp =>
    obtain ⟨h1, h2, h3, h4⟩ := Who.back_outside ok x.who
    have hfits := hb.fits _ _ hx
    simp only [Call.Fits, hp] at hfits
    refine hb.moves hx rfl (hb.lock.keep hx fun h => ?_) (hb.flag.leave hx ?_ ?_) (Who.back_fits ok x) (.inl rfl)
      (.of_eq rfl) (fun h => ?_) fun c h => ?_
    · rw [h2] at h
      cases h
    · simp [Call.flagged, Pc.outside, hp, hfits]
    · simp [Call.flagged, h1]
    · rw [h3] at h
      cases h
    · rw [h4] at h
      cases h

theorem base_start : Base start := by
  refine ⟨Held.nil, Held.nil, fun i x hx => ?_, fun i x hx => ?_, fun i x c hx => ?_, fun c hc => ?_⟩
  · simp [start] at hx
  · simp [start] at hx
  · simp [start] at hx
  · cases hc

end ValueRpc.Client.Conns
