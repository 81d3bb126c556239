/-
  ValueRpc.Serve.Session — the requests a session serves
  (`valueserver/serving_client.go`: `processRequest`, `serveNewRequest`,
  `doServeFunctionRequest`, `newServingRequest`, `deleteRequest`, `Close`;
  `valueserver/serving_request.go`: `serveRunningRequest`, `closeRequest`,
  `incomingStreamEnd`; `valueserver/server.go`: the read loop of `handleConnection`).

  A session has the read loops of the connections that attached to it, and the executions
  of the requests they read, numbered in the order they were spawned. Requests are looked
  up in `requestMap` (streams) and `requestCancels` (unary calls), which the executions fill
  and the read loops look into; a request id may have several executions. A map access, a
  swap of `closed`, a cancel of a context are one step each, in any interleaving.

  Any request may be refused (its name, its arguments, the limits), a handler may return or
  not, a value may overrun the input's pump or not, a deadline may pass. Frames of
  server-initiated streams never get here; a FunctionResponse or ErrorResponse touches no
  execution.

  Every step keeps `Sound` (`step_keeps`): the maps hold requests of their own kind, a
  request that is over has its context cancelled, or a goroutine that is about to, and once
  the session stops every context is cancelled.
-/

import ValueRpc.Lib.Runs
import Mathlib.Logic.Function.Basic
import Mathlib.Tactic.Common

namespace ValueRpc.Serve

open Function ValueRpc.Lib

inductive FunctionType where
  | singleFunction
  | outgoingStream
  | incomingStream
  | chat
  deriving DecidableEq, Repr

/-- Where a goroutine stands in `closeRequest`, or at the end of a put-stream's input, which
    does not swap `closed`. -/
inductive Closing where
  | delete
  | swap
  | cancel
  deriving DecidableEq, Repr

/-- The goroutine of an execution; for a stream also the streamer it starts. -/
inductive Pc where
  | spawned
  /-- Answered with an error before a context was made. -/
  | refused
  /-- Before the Store into its map. -/
  | registering
  | handling
  | returned
  /-- Before `requestCancels.Delete`. -/
  | unregistering
  | streaming
  | closing (k : Closing)
  | done
  deriving DecidableEq, Repr

structure Exec where
  reqId : Int
  ft : FunctionType
  pc : Pc
  /-- The handler's context is cancelled; before it is made, the session's. -/
  cancelled : Bool
  closed : Bool
  ended : Bool
  deriving DecidableEq, Repr

inductive Frame where
  | request (ft : FunctionType)
  | cancel
  /-- StreamValue, and whether the pump overran. -/
  | value (overran : Bool)
  | streamEnd
  /-- FunctionResponse or ErrorResponse. -/
  | response
  | other
  deriving DecidableEq, Repr

inductive Loop where
  | idle
  /-- Before `findServingRequest`. -/
  | find (reqId : Int) (f : Frame)
  /-- Before `requestCancels.Load`. -/
  | findCancel (reqId : Int)
  | cancelFunc (x : Nat)
  /-- In `closeRequest` (`hard`), or at the end of a put-stream's input. -/
  | closing (hard : Bool) (reqId : Int) (x : Nat) (k : Closing)
  /-- In `serveNewRequest`. -/
  | accept (reqId : Int) (ft : FunctionType)
  | returned
  deriving DecidableEq, Repr

inductive Stop where
  | up
  | cancelled
  | done
  | swept
  deriving DecidableEq, Repr

structure St where
  execs : List Exec
  requestMap : Int → Option Nat
  requestCancels : Int → Option Nat
  loops : List Loop
  stop : Stop

def start : St := ⟨[], fun _ => none, fun _ => none, [.idle], .up⟩

inductive Ev where
  | attach
  /-- The read loop of connection `c` returns. -/
  | hangUp (c : Nat)
  | read (c : Nat) (reqId : Int) (f : Frame)
  | serve (c : Nat)
  /-- `serveNewRequest` is over its limit. -/
  | reject (c : Nat)
  | refuse (x : Nat)
  | run (x : Nat)
  | handled (x : Nat) (ok : Bool)
  | finish (x : Nat)
  | expire (x : Nat)
  | close
  deriving DecidableEq, Repr

namespace St

def goto (s : St) (c : Nat) (l : Loop) : St := { s with loops := s.loops.set c l }

def upd (s : St) (x : Nat) (f : Exec → Exec) : St := { s with execs := s.execs.modify x f }

def isClosed (s : St) (x : Nat) : Bool := (s.execs[x]?.map Exec.closed).getD false

def isPut (s : St) (x : Nat) : Bool := (s.execs[x]?.map fun e => decide (e.ft = .incomingStream)).getD false

def isInbound (s : St) (x : Nat) : Bool :=
  (s.execs[x]?.map fun e => decide (e.ft = .incomingStream ∨ e.ft = .chat)).getD false

def closes (s : St) (reqId : Int) (x : Nat) : Closing → St
  | .delete => { s with requestMap := update s.requestMap reqId none }
  | .swap => s.upd x fun e => { e with closed := true }
  | .cancel => s.upd x fun e => { e with cancelled := true }

end St

def Closing.next (hard closed : Bool) : Closing → Option Closing
  | .delete => some (if hard then .swap else .cancel)
  | .swap => if closed then none else some .cancel
  | .cancel => none

/-- `serveRunningRequest`, up to `closeRequest` and the rest of `incomingStreamEnd`. -/
def serveRunning (s : St) (c : Nat) (reqId : Int) (x : Nat) : Frame → St
  | .cancel => s.goto c (.closing true reqId x .delete)
  | .value true => s.goto c (if s.isInbound x then .closing true reqId x .delete else .idle)
  | .streamEnd =>
    if s.isPut x then (s.upd x fun e => { e with ended := true }).goto c (.closing false reqId x .delete)
    else s.goto c .idle
  | _ => s.goto c .idle

def serve (s : St) (c : Nat) : Option St :=
  match s.loops[c]? with
  | some (.find reqId f) =>
    if f = .response then some (s.goto c .idle)
    else match s.requestMap reqId with
      | some x => some (serveRunning s c reqId x f)
      | none =>
        match f with
        | .cancel => some (s.goto c (.findCancel reqId))
        | .request ft => some (s.goto c (.accept reqId ft))
        | _ => some (s.goto c .idle)
  | some (.findCancel reqId) =>
    match s.requestCancels reqId with
    | some x => some (s.goto c (.cancelFunc x))
    | none => some (s.goto c .idle)
  | some (.cancelFunc x) => some ((s.upd x fun e => { e with cancelled := true }).goto c .idle)
  | some (.closing hard reqId x k) =>
    some ((s.closes reqId x k).goto c (((k.next hard (s.isClosed x)).map (.closing hard reqId x)).getD .idle))
  | some (.accept reqId ft) =>
    some { s.goto c .idle with execs := s.execs ++ [⟨reqId, ft, .spawned, decide (s.stop ≠ .up), false, false⟩] }
  | _ => none

/-- A step of `doServeFunctionRequest`, or of a streamer, outside the handler. -/
def run (s : St) (x : Nat) : Option St :=
  match s.execs[x]? with
  | none => none
  | some e =>
    match e.pc with
    | .spawned => some (s.upd x fun e => { e with pc := .registering })
    | .registering =>
      if e.ft = .singleFunction then
        some { s.upd x fun e => { e with pc := .handling } with
          requestCancels := update s.requestCancels e.reqId (some x) }
      else some { s.upd x fun e => { e with pc := .handling } with requestMap := update s.requestMap e.reqId (some x) }
    | .returned => some (s.upd x fun e => { e with pc := .unregistering, cancelled := true })
    | .unregistering =>
      some { s.upd x fun e => { e with pc := .done } with requestCancels := update s.requestCancels e.reqId none }
    | .closing k =>
      some ((s.closes e.reqId x k).upd x fun e' => { e' with pc := ((k.next true e.closed).map .closing).getD .done })
    | _ => none

/-- The session's or the server's `Close`: every context, then `done`, then the streams. -/
def close (s : St) : Option St :=
  match s.stop with
  | .up => some { s with stop := .cancelled, execs := s.execs.map fun e => { e with cancelled := true } }
  | .cancelled => some { s with stop := .done }
  | .done =>
    some { s with
      stop := .swept
      execs := s.execs.mapIdx fun x e => if s.requestMap e.reqId = some x then { e with closed := true } else e }
  | .swept => none

def step (s : St) : Ev → Option St
  | .attach => some { s with loops := s.loops ++ [.idle] }
  | .hangUp c => if s.loops[c]? = some .idle then some (s.goto c .returned) else none
  | .read c reqId f => if s.loops[c]? = some .idle then some (s.goto c (.find reqId f)) else none
  | .serve c => serve s c
  | .reject c =>
    match s.loops[c]? with
    | some (.accept _ _) => some (s.goto c .idle)
    | _ => none
  | .refuse x =>
    match s.execs[x]? with
    | some e => if e.pc = .spawned then some (s.upd x fun e => { e with pc := .refused }) else none
    | none => none
  | .run x => run s x
  | .handled x ok =>
    match s.execs[x]? with
    | some e =>
      if e.pc = .handling then
        some (s.upd x fun e => { e with
          pc := if e.ft = .singleFunction then .returned else if ok then .streaming else .closing .delete })
      else none
    | none => none
  | .finish x =>
    match s.execs[x]? with
    | some e =>
      if e.pc = .streaming ∧ e.ft ≠ .incomingStream then some (s.upd x fun e => { e with pc := .closing .delete })
      else none
    | none => none
  | .expire x =>
    match s.execs[x]? with
    | some e =>
      if e.pc = .handling ∧ e.ft = .singleFunction then some (s.upd x fun e => { e with cancelled := true }) else none
    | none => none
  | .close => close s

def sys : Sys St Ev := ⟨fun s => s = start, step⟩

/-! ## What a step leaves alone -/

/-- A request keeps its kind, and what is over stays over. -/
structure Grown (e e' : Exec) : Prop where
  reqId : e'.reqId = e.reqId
  ft : e'.ft = e.ft
  cancelled : e.cancelled = true → e'.cancelled = true
  closed : e.closed = true → e'.closed = true
  ended : e.ended = true → e'.ended = true

theorem Grown.refl (e : Exec) : Grown e e := ⟨rfl, rfl, id, id, id⟩

def Grows (s t : St) : Prop := ∀ (x : Nat) (e : Exec), s.execs[x]? = some e → ∃ e', t.execs[x]? = some e' ∧ Grown e e'

variable {s t : St}
  {x c y : Nat} {l l' : Loop} {m : Int → Option Nat} {e : Exec} {f : Exec → Exec} {i : Int}

@[simp] theorem goto_execs (s : St) (c : Nat) (l : Loop) : (s.goto c l).execs = s.execs := rfl

theorem upd_get (s : St) (x y : Nat) (f : Exec → Exec) :
    (s.upd x f).execs[y]? = s.execs[y]?.map fun e => if x = y then f e else e := by
  simp [St.upd, List.getElem?_modify]

theorem upd_self (f : Exec → Exec) (h : s.execs[x]? = some e) : (s.upd x f).execs[x]? = some (f e) := by
  rw [upd_get, h]
  simp

theorem goto_get {d : Nat} (h : (s.goto c l').loops[d]? = some l) :
    (d = c ∧ l = l') ∨ s.loops[d]? = some l := by
  simp only [St.goto, List.getElem?_set] at h
  split at h
  · rename_i hcd
    split at h
    · cases h
      exact .inl ⟨hcd.symm, rfl⟩
    · cases h
  · exact .inr h

theorem grows_of_execs (h : t.execs = s.execs) : Grows s t := fun x e hx => ⟨e, by rw [h]; exact hx, .refl e⟩

theorem grows_upd (hf : ∀ e, Grown e (f e)) : Grows s (s.upd x f) := by
  intro y e hy
  refine ⟨if x = y then f e else e, by rw [upd_get, hy]; rfl, ?_⟩
  split
  · exact hf e
  · exact .refl e

/-! ## Who still has to cancel a context -/

/-- The request a read loop is closing and whose context it will cancel. -/
def Loop.owes : Loop → Option Nat
  | .closing hard _ x k => if k = .cancel ∨ hard = false then some x else none
  | _ => none

/-- A goroutine took it on itself to cancel the context of `x`, and has not yet. -/
def Closer (s : St) (x : Nat) : Prop :=
  (∃ e, s.execs[x]? = some e ∧ e.pc = .closing .cancel) ∨ ∃ (c : Nat) (l : Loop),
    s.loops[c]? = some l ∧ l.owes = some x

theorem Closer.goto (h : Closer s y) (hl : s.loops[c]? = some l)
    (ho : l.owes = some y → l'.owes = some y) : Closer (s.goto c l') y := by
  rcases h with h | ⟨d, l₁, hd, hy⟩
  · exact .inl h
  · have hc : c < s.loops.length := (List.getElem?_eq_some_iff.mp hl).1
    by_cases hcd : c = d
    · subst hcd
      cases hl.symm.trans hd
      exact .inr ⟨c, l', by simp [St.goto, hc], ho hy⟩
    · exact .inr ⟨d, l₁, by simp [St.goto, hcd, hd], hy⟩

theorem Closer.upd (h : Closer s y)
    (hf : ∀ e, s.execs[x]? = some e → e.pc = .closing .cancel → x = y → (f e).pc = .closing .cancel) :
    Closer (s.upd x f) y := by
  rcases h with ⟨e, hy, hp⟩ | h
  · refine .inl ⟨if x = y then f e else e, by rw [upd_get, hy]; rfl, ?_⟩
    split
    · rename_i hxy
      exact hf e (hxy ▸ hy) hp hxy
    · exact hp
  · exact .inr h

theorem Closer.spawn (h : Closer s y) (e : Exec) : Closer { s with execs := s.execs ++ [e] } y := by
  rcases h with ⟨e', hy, hp⟩ | h
  · refine .inl ⟨e', ?_, hp⟩
    show (s.execs ++ [e])[y]? = some e'
    rw [List.getElem?_append_left (List.getElem?_eq_some_iff.mp hy).1, hy]
  · exact .inr h

/-! ## Sound states -/

def LoopOk (s : St) : Loop → Prop
  | .cancelFunc x => ∃ e, s.execs[x]? = some e ∧ e.ft = .singleFunction
  | .closing hard _ x k =>
    ∃ e, s.execs[x]? = some e ∧ e.ft ≠ .singleFunction ∧ (hard = true → k = .cancel → e.closed = true) ∧
      (hard = false → e.ended = true ∧ k ≠ .swap)
  | _ => True

structure ExecOk (s : St) (x : Nat) (e : Exec) : Prop where
  torn : e.closed = true ∨ e.ended = true → e.cancelled = true ∨ Closer s x
  done : e.pc = .done → e.cancelled = true ∨ e.closed = true
  unregistering : e.pc = .unregistering → e.cancelled = true
  stopped : s.stop ≠ .up → e.cancelled = true

structure Sound (s : St) : Prop where
  map : ∀ i x, s.requestMap i = some x → ∃ e, s.execs[x]? = some e ∧ e.ft ≠ .singleFunction
  cancels : ∀ i x, s.requestCancels i = some x → ∃ e, s.execs[x]? = some e ∧ e.ft = .singleFunction
  loops : ∀ (c : Nat) (l : Loop), s.loops[c]? = some l → LoopOk s l
  execs : ∀ (x : Nat) (e : Exec), s.execs[x]? = some e → ExecOk s x e

theorem sound_start : Sound start where
  map := nofun
  cancels := nofun
  loops := fun c l h => by
    cases c with
    | zero => cases h; trivial
    | succ c => cases h
  execs := nofun

theorem LoopOk.grows (h : LoopOk s l) (hg : Grows s t) : LoopOk t l := by
  cases l with
  | cancelFunc x =>
    obtain ⟨e, hx, hft⟩ := h
    obtain ⟨e', hx', hg'⟩ := hg x e hx
    exact ⟨e', hx', hg'.ft.trans hft⟩
  | closing hard i x k =>
    obtain ⟨e, hx, hft, hh, hs⟩ := h
    obtain ⟨e', hx', hg'⟩ := hg x e hx
    exact ⟨e', hx', hg'.ft ▸ hft, fun a b => hg'.closed (hh a b), fun a => ⟨hg'.ended (hs a).1, (hs a).2⟩⟩
  | _ => trivial

structure Keeps (s t : St) : Prop where
  grows : Grows s t
  sound : Sound t

/-- What is to be shown of a step: new entries of the maps and the loop that moved are of
    the right kind, and every request is accounted for. -/
theorem Sound.grows (hs : Sound s) (hg : Grows s t)
    (hmap : ∀ i x, t.requestMap i = some x → s.requestMap i = some x ∨
      ∃ e, s.execs[x]? = some e ∧ e.ft ≠ .singleFunction)
    (hcancels : ∀ i x, t.requestCancels i = some x → s.requestCancels i = some x ∨
      ∃ e, s.execs[x]? = some e ∧ e.ft = .singleFunction)
    (hloops : ∀ (c : Nat) (l : Loop), t.loops[c]? = some l → s.loops[c]? = some l ∨ LoopOk t l)
    (hexecs : ∀ (x : Nat) (e : Exec), t.execs[x]? = some e → ExecOk t x e) : Keeps s t := by
  refine ⟨hg, fun i x hi => ?_, fun i x hi => ?_,
    fun c l hl => (hloops c l hl).elim (fun h => (hs.loops c l h).grows hg) id, hexecs⟩
  · obtain ⟨e, hx, hft⟩ := (hmap i x hi).elim (hs.map i x) id
    obtain ⟨e', hx', hg'⟩ := hg x e hx
    exact ⟨e', hx', hg'.ft ▸ hft⟩
  · obtain ⟨e, hx, hft⟩ := (hcancels i x hi).elim (hs.cancels i x) id
    obtain ⟨e', hx', hg'⟩ := hg x e hx
    exact ⟨e', hx', hg'.ft.trans hft⟩

theorem ExecOk.keep (h : ExecOk s x e) (hstop : t.stop = s.stop) (hc : Closer s x → Closer t x) :
    ExecOk t x e :=
  ⟨fun ho => (h.torn ho).imp_right hc, h.done, h.unregistering, fun hn => h.stopped (hstop ▸ hn)⟩

theorem Sound.loop (hs : Sound s) (hl : s.loops[c]? = some l)
    (hm : ∀ i x, m i = some x → s.requestMap i = some x) (hok : LoopOk s l')
    (ho : ∀ x, l.owes = some x → l'.owes = some x) : Keeps s { s.goto c l' with requestMap := m } := by
  refine hs.grows (grows_of_execs rfl) (fun i x h => .inl (hm i x h)) (fun i x h => .inl h) (fun d l₁ hd => ?_)
    fun x e hx => ?_
  · rcases goto_get (s := s) hd with ⟨-, rfl⟩ | h
    · exact .inr hok
    · exact .inl h
  · exact (hs.execs x e hx).keep rfl fun hc => Closer.goto hc hl (ho x)

theorem Sound.exec (hs : Sound s) {m' : Int → Option Nat} (hf : ∀ e, Grown e (f e))
    (hm : ∀ i y, m i = some y → s.requestMap i = some y ∨ ∃ e, s.execs[y]? = some e ∧ e.ft ≠ .singleFunction)
    (hm' : ∀ i y, m' i = some y → s.requestCancels i = some y ∨ ∃ e, s.execs[y]? = some e ∧ e.ft = .singleFunction)
    (hx : ∀ e, s.execs[x]? = some e → ExecOk (s.upd x f) x (f e)) :
    Keeps s { s.upd x f with requestMap := m, requestCancels := m' } := by
  refine hs.grows (fun y e hy => grows_upd hf y e hy) hm hm' (fun d l hd => .inl hd) fun y e' hy => ?_
  rw [show St.execs _ = (s.upd x f).execs from rfl, upd_get] at hy
  obtain ⟨e, hye, rfl⟩ := Option.map_eq_some_iff.mp hy
  split
  · rename_i hxy
    subst hxy
    exact (hx e hye).keep rfl id
  · rename_i hxy
    exact (hs.execs y e hye).keep rfl fun hc => Closer.upd hc fun _ _ _ h => absurd h hxy

theorem Sound.loop_exec (hs : Sound s) (hl : s.loops[c]? = some l)
    (hf : ∀ e, Grown e (f e)) (hpc : ∀ e, (f e).pc = e.pc) (hok : LoopOk (s.upd x f) l')
    (ho : ∀ y, y ≠ x → l.owes = some y → l'.owes = some y)
    (hx : ∀ e, s.execs[x]? = some e → (f e).cancelled = true ∨ l'.owes = some x ∨ e.closed = true ∧ l.owes = none) :
    Keeps s ((s.upd x f).goto c l') := by
  have hgrows : Grows s ((s.upd x f).goto c l') := fun y e hy => grows_upd hf y e hy
  have hc : c < s.loops.length := (List.getElem?_eq_some_iff.mp hl).1
  refine hs.grows hgrows (fun i y h => .inl h) (fun i y h => .inl h) (fun d l₁ hd => ?_) fun y e' hy => ?_
  · rcases goto_get (s := s.upd x f) hd with ⟨-, rfl⟩ | h
    · exact .inr hok
    · exact .inl h
  · rw [goto_execs, upd_get] at hy
    obtain ⟨e, hye, rfl⟩ := Option.map_eq_some_iff.mp hy
    have hold := hs.execs y e hye
    split
    · rename_i hxy
      subst hxy
      have hcan := (hf e).cancelled
      refine ⟨fun _ => ?_, fun hd => ?_, fun hu => hcan (hold.unregistering ((hpc e) ▸ hu)),
        fun hn => hcan (hold.stopped hn)⟩
      · rcases hx e hye with hcl | hl' | ⟨hcl, hl'⟩
        · exact .inl hcl
        · exact .inr (.inr ⟨c, l', by simp [St.goto, St.upd, hc], hl'⟩)
        · refine (hold.torn (.inl hcl)).imp hcan fun hcr => ?_
          exact Closer.goto (Closer.upd hcr fun e _ hp _ => (hpc e).trans hp) hl fun h => by rw [hl'] at h; cases h
      · exact (hold.done ((hpc e) ▸ hd)).imp hcan (hf e).closed
    · rename_i hxy
      exact hold.keep rfl fun hcl =>
        Closer.goto (Closer.upd hcl fun _ _ _ h => absurd h hxy) hl (ho y fun h => hxy h.symm)

/-- Only the place of an execution changes, and not at the end of its teardown. -/
theorem Sound.moves (hs : Sound s) {pc : Exec → Pc} {m' : Int → Option Nat} (he : s.execs[x]? = some e)
    (hpc : e.pc ≠ .closing .cancel) (hd : pc e ≠ .done) (hu : pc e ≠ .unregistering)
    (hm : ∀ i y, m i = some y → s.requestMap i = some y ∨ ∃ e, s.execs[y]? = some e ∧ e.ft ≠ .singleFunction)
    (hm' : ∀ i y, m' i = some y → s.requestCancels i = some y ∨ ∃ e, s.execs[y]? = some e ∧ e.ft = .singleFunction) :
    Keeps s { s.upd x fun e => { e with pc := pc e } with requestMap := m, requestCancels := m' } := by
  refine hs.exec (fun e => ⟨rfl, rfl, id, id, id⟩) hm hm' fun e₁ he₁ => ?_
  cases he.symm.trans he₁
  have hold := hs.execs x e he
  refine ⟨fun ho => (hold.torn ho).imp_right fun hc => Closer.upd hc fun e₂ he₂ hp _ => ?_, fun h => absurd h hd,
    fun h => absurd h hu, hold.stopped⟩
  cases he.symm.trans he₂
  exact absurd hp hpc

theorem update_none {j : Int} (h : update m i none j = some x) : m j = some x := by
  by_cases hji : j = i
  · rw [hji, update_self] at h
    cases h
  · rwa [update_of_ne hji] at h

theorem update_some {j : Int} (h : update m i (some x) j = some y) :
    m j = some y ∨ y = x := by
  by_cases hji : j = i
  · rw [hji, update_self] at h
    exact .inr (Option.some.inj h).symm
  · rw [update_of_ne hji] at h
    exact .inl h

theorem serveRunning_keeps (hs : Sound s) {f : Frame} (hl : s.loops[c]? = some (.find i f))
    (hx : s.requestMap i = some x) : Keeps s (serveRunning s c i x f) := by
  obtain ⟨e, he, hft⟩ := hs.map i x hx
  have hidle : Keeps s (s.goto c .idle) := hs.loop hl (fun _ _ => id) trivial fun _ => id
  have hclose : Keeps s (s.goto c (.closing true i x .delete)) :=
    hs.loop hl (fun _ _ => id) ⟨e, he, hft, by simp, by simp⟩ nofun
  unfold serveRunning
  split
  · exact hclose
  · split
    · exact hclose
    · exact hidle
  · split
    · refine hs.loop_exec hl (fun e => ⟨rfl, rfl, id, id, fun _ => rfl⟩) (fun _ => rfl) ?_ nofun
        fun _ _ => .inr (.inl rfl)
      exact ⟨_, upd_self _ he, hft, by simp, by simp⟩
    · exact hidle
  · exact hidle

theorem closing_keeps (hs : Sound s) {hard : Bool} {k : Closing}
    (hl : s.loops[c]? = some (.closing hard i x k)) :
    Keeps s ((s.closes i x k).goto c (((k.next hard (s.isClosed x)).map (.closing hard i x)).getD .idle)) := by
  obtain ⟨e, he, hft, hhard, hsoft⟩ := hs.loops c _ hl
  cases k with
  | delete =>
    cases hard with
    | true =>
      exact hs.loop hl (fun _ _ => update_none) ⟨e, he, hft, by simp, by simp⟩
        nofun
    | false =>
      exact hs.loop hl (fun _ _ => update_none) ⟨e, he, hft, by simp, fun _ => ⟨(hsoft rfl).1, by decide⟩⟩
        fun _ h => h
  | swap =>
    cases hard with
    | false => exact absurd rfl (hsoft rfl).2
    | true =>
      have hcl : s.isClosed x = e.closed := by simp [St.isClosed, he]
      rw [hcl]
      cases hec : e.closed with
      | true =>
        refine hs.loop_exec hl (fun e => ⟨rfl, rfl, id, fun _ => rfl, id⟩) (fun _ => rfl) trivial
          nofun fun e₁ he₁ => ?_
        cases he.symm.trans he₁
        exact .inr (.inr ⟨hec, rfl⟩)
      | false =>
        refine hs.loop_exec hl (fun e => ⟨rfl, rfl, id, fun _ => rfl, id⟩) (fun _ => rfl) ?_
          nofun fun _ _ => .inr (.inl rfl)
        exact ⟨_, upd_self _ he, hft, fun _ _ => rfl, by simp⟩
  | cancel =>
    refine hs.loop_exec hl (fun e => ⟨rfl, rfl, fun _ => rfl, id, id⟩) (fun _ => rfl) trivial (fun y hy h => ?_)
      fun _ _ => .inl rfl
    simp only [Loop.owes, true_or, if_true] at h
    exact absurd (Option.some.inj h).symm hy

theorem serve_keeps (hs : Sound s) (h : serve s c = some t) : Keeps s t := by
  unfold serve at h
  split at h
  · rename_i i f hl
    have hidle : Keeps s (s.goto c .idle) := hs.loop hl (fun _ _ => id) trivial fun _ => id
    split at h
    · cases h
      exact hidle
    · split at h
      · cases h
        exact serveRunning_keeps hs hl ‹_›
      · split at h <;> cases h
        · exact hs.loop hl (fun _ _ => id) trivial fun _ => id
        · exact hs.loop hl (fun _ _ => id) trivial fun _ => id
        · exact hidle
  · rename_i i hl
    split at h <;> cases h
    · rename_i x hx
      exact hs.loop hl (fun _ _ => id) (hs.cancels i x hx) fun _ => id
    · exact hs.loop hl (fun _ _ => id) trivial fun _ => id
  · rename_i x hl
    cases h
    exact hs.loop_exec hl (fun e => ⟨rfl, rfl, fun _ => rfl, id, id⟩) (fun _ => rfl) trivial nofun
      fun _ _ => .inl rfl
  · rename_i hl
    cases h
    exact closing_keeps hs hl
  · rename_i i ft hl
    cases h
    have hgrows : Grows s { s.goto c .idle with
      execs := s.execs ++ [⟨i, ft, .spawned, decide (s.stop ≠ .up), false, false⟩] } :=
      fun x e hx => ⟨e, by
        show (s.execs ++ _)[x]? = some e
        rw [List.getElem?_append_left (List.getElem?_eq_some_iff.mp hx).1, hx], .refl e⟩
    refine hs.grows hgrows (fun _ _ => .inl) (fun _ _ => .inl) (fun d l hd => ?_) fun x e hx => ?_
    · rcases goto_get (s := s) hd with ⟨-, rfl⟩ | hd
      · exact .inr trivial
      · exact .inl hd
    · replace hx : (s.execs ++ [_])[x]? = some e := hx
      rw [List.getElem?_append] at hx
      split at hx
      · exact (hs.execs x e hx).keep rfl fun hc => (Closer.goto hc hl nofun).spawn _
      · obtain rfl := List.mem_singleton.mp (List.mem_of_getElem? hx)
        exact ⟨by simp, by simp, by simp, fun hn => decide_eq_true hn⟩
  · cases h

theorem upd_upd (s : St) (x : Nat) (f g : Exec → Exec) : (s.upd x f).upd x g = s.upd x fun e => g (f e) := by
  simp only [St.upd, List.modify_modify_eq]
  rfl

theorem exec_closing_keeps (hs : Sound s) {k : Closing} (he : s.execs[x]? = some e) (hp : e.pc = .closing k) :
    Keeps s ((s.closes e.reqId x k).upd x fun e' => { e' with
      pc := ((k.next true e.closed).map .closing).getD .done }) := by
  have hold := hs.execs x e he
  cases k with
  | delete =>
    exact hs.moves he (by rw [hp]; decide) (by simp [Closing.next]) (by simp [Closing.next])
      (fun _ _ h => .inl (update_none h))
      fun _ _ => .inl
  | swap =>
    rw [show s.closes e.reqId x .swap = s.upd x _ from rfl, upd_upd]
    refine hs.exec (fun _ => ⟨rfl, rfl, id, fun _ => rfl, id⟩) (fun _ _ => .inl) (fun _ _ => .inl) fun e₁ he₁ => ?_
    cases he.symm.trans he₁
    cases hec : e.closed with
    | true =>
      refine ⟨fun _ => (hold.torn (.inl hec)).imp_right fun hc => Closer.upd hc fun e₂ he₂ hp₂ _ => ?_,
        fun _ => .inr rfl,
        by simp [Closing.next], hold.stopped⟩
      cases he.symm.trans he₂
      rw [hp] at hp₂
      cases hp₂
    | false =>
      exact ⟨fun _ => .inr (.inl ⟨_, upd_self _ he, rfl⟩), by simp [Closing.next], by simp [Closing.next],
        hold.stopped⟩
  | cancel =>
    rw [show s.closes e.reqId x .cancel = s.upd x _ from rfl, upd_upd]
    exact hs.exec (fun _ => ⟨rfl, rfl, fun _ => rfl, id, id⟩) (fun _ _ => .inl) (fun _ _ => .inl)
      fun _ _ => ⟨fun _ => .inl rfl, fun _ => .inl rfl, fun _ => rfl, fun _ => rfl⟩

theorem run_keeps (hs : Sound s) (h : run s x = some t) : Keeps s t := by
  unfold run at h
  split at h
  · cases h
  · rename_i e he
    have hold := hs.execs x e he
    split at h
    · rename_i hp
      cases h
      exact hs.moves he (by rw [hp]; decide) (by decide) (by decide) (fun _ _ => .inl) fun _ _ => .inl
    · rename_i hp
      split at h
      · rename_i hft
        cases h
        refine hs.moves he (by rw [hp]; decide) (by decide) (by decide) (fun _ _ => .inl) fun i y hy => ?_
        exact (update_some hy).imp_right fun hyx => ⟨e, by rw [hyx]; exact he, hft⟩
      · rename_i hft
        cases h
        refine hs.moves he (by rw [hp]; decide) (by decide) (by decide) (fun i y hy => ?_) fun _ _ => .inl
        exact (update_some hy).imp_right fun hyx => ⟨e, by rw [hyx]; exact he, hft⟩
    · cases h
      exact hs.exec (fun _ => ⟨rfl, rfl, fun _ => rfl, id, id⟩) (fun _ _ => .inl) (fun _ _ => .inl)
        fun _ _ => ⟨fun _ => .inl rfl, fun _ => .inl rfl, fun _ => rfl, fun _ => rfl⟩
    · rename_i hp
      cases h
      refine hs.exec (fun _ => ⟨rfl, rfl, id, id, id⟩) (fun _ _ => .inl)
        (fun _ _ h => .inl (update_none h)) fun e₁ he₁ => ?_
      cases he.symm.trans he₁
      have hc := hold.unregistering hp
      exact ⟨fun _ => .inl hc, fun _ => .inl hc, fun _ => hc, fun _ => hc⟩
    · rename_i k hp
      cases h
      exact exec_closing_keeps hs he hp
    · cases h

theorem close_keeps (hs : Sound s) (h : close s = some t) : Keeps s t := by
  unfold close at h
  split at h
  · cases h
    have hgrows : Grows s { s with stop := .cancelled, execs := s.execs.map fun e => { e with cancelled := true } } :=
      fun x e hx => ⟨{ e with cancelled := true }, by
        show (s.execs.map _)[x]? = _
        rw [List.getElem?_map, hx]; rfl, ⟨rfl, rfl, fun _ => rfl, id, id⟩⟩
    refine hs.grows hgrows (fun _ _ => .inl) (fun _ _ => .inl) (fun _ _ => .inl) fun x e hx => ?_
    replace hx : (s.execs.map fun e => { e with cancelled := true })[x]? = some e := hx
    rw [List.getElem?_map] at hx
    obtain ⟨e₀, -, rfl⟩ := Option.map_eq_some_iff.mp hx
    exact ⟨fun _ => .inl rfl, fun _ => .inl rfl, fun _ => rfl, fun _ => rfl⟩
  · rename_i hstop
    cases h
    refine hs.grows (grows_of_execs rfl) (fun _ _ => .inl) (fun _ _ => .inl) (fun _ _ => .inl) fun x e hx => ?_
    have hold := hs.execs x e hx
    exact ⟨hold.torn, hold.done, hold.unregistering, fun _ => hold.stopped (by rw [hstop]; decide)⟩
  · rename_i hstop
    cases h
    have hgrows : Grows s { s with
        stop := .swept
        execs := s.execs.mapIdx fun x e => if s.requestMap e.reqId = some x then { e with
          closed := true } else e } := by
      intro x e hx
      refine ⟨if s.requestMap e.reqId = some x then { e with closed := true } else e, ?_, ?_⟩
      · show (s.execs.mapIdx _)[x]? = _
        rw [List.getElem?_mapIdx, hx]
        rfl
      · split
        · exact ⟨rfl, rfl, id, fun _ => rfl, id⟩
        · exact .refl e
    refine hs.grows hgrows (fun _ _ => .inl) (fun _ _ => .inl) (fun _ _ => .inl) fun x e hx => ?_
    replace hx : (s.execs.mapIdx _)[x]? = some e := hx
    rw [List.getElem?_mapIdx] at hx
    obtain ⟨e₀, hx₀, rfl⟩ := Option.map_eq_some_iff.mp hx
    have hc := (hs.execs x e₀ hx₀).stopped (by rw [hstop]; decide)
    have hc' : (if s.requestMap e₀.reqId = some x then { e₀ with closed := true } else e₀).cancelled = true := by
      split <;> exact hc
    exact ⟨fun _ => .inl hc', fun _ => .inl hc', fun _ => hc', fun _ => hc'⟩
  · cases h

theorem attach_keeps (hs : Sound s) : Keeps s { s with loops := s.loops ++ [.idle] } := by
  refine hs.grows (grows_of_execs rfl) (fun _ _ => .inl) (fun _ _ => .inl) (fun c l hl => ?_) fun x e hx => ?_
  · replace hl : (s.loops ++ [.idle])[c]? = some l := hl
    rw [List.getElem?_append] at hl
    split at hl
    · exact .inl hl
    · obtain rfl := List.mem_singleton.mp (List.mem_of_getElem? hl)
      exact .inr trivial
  · refine (hs.execs x e hx).keep rfl fun hc => hc.imp_right fun ⟨c, l, hl, ho⟩ => ⟨c, l, ?_, ho⟩
    show (s.loops ++ [.idle])[c]? = some l
    rw [List.getElem?_append_left (List.getElem?_eq_some_iff.mp hl).1, hl]

theorem step_keeps {e : Ev} (hs : Sound s) (h : step s e = some t) : Keeps s t := by
  cases e with
  | attach =>
    cases h
    exact attach_keeps hs
  | hangUp c =>
    simp only [step] at h
    split at h <;> cases h
    rename_i hl
    exact hs.loop hl (fun _ _ => id) trivial fun _ => id
  | read c i f =>
    simp only [step] at h
    split at h <;> cases h
    rename_i hl
    exact hs.loop hl (fun _ _ => id) trivial fun _ => id
  | serve c => exact serve_keeps hs h
  | reject c =>
    simp only [step] at h
    split at h <;> cases h
    rename_i hl
    exact hs.loop hl (fun _ _ => id) trivial fun _ => id
  | refuse x =>
    simp only [step] at h
    split at h
    · split at h <;> cases h
      rename_i he hp
      exact hs.moves he (by rw [hp]; decide) (by decide) (by decide) (fun _ _ => .inl) fun _ _ => .inl
    · cases h
  | run x => exact run_keeps hs h
  | handled x ok =>
    simp only [step] at h
    split at h
    · split at h <;> cases h
      rename_i e he hp
      refine hs.moves he (by rw [hp]; decide) ?_ ?_ (fun _ _ => .inl) fun _ _ => .inl
      · split
        · decide
        · split <;> decide
      · split
        · decide
        · split <;> decide
    · cases h
  | finish x =>
    simp only [step] at h
    split at h
    · split at h <;> cases h
      rename_i he hp
      exact hs.moves he (by rw [hp.1]; decide) (by decide) (by decide) (fun _ _ => .inl) fun _ _ => .inl
    · cases h
  | expire x =>
    simp only [step] at h
    split at h
    · split at h <;> cases h
      exact hs.exec (fun _ => ⟨rfl, rfl, fun _ => rfl, id, id⟩) (fun _ _ => .inl) (fun _ _ => .inl)
        fun _ _ => ⟨fun _ => .inl rfl, fun _ => .inl rfl, fun _ => rfl, fun _ => rfl⟩
    · cases h
  | close => exact close_keeps hs h

/-! ## Who moves the read loops -/

def Ev.ofExec : Ev → Bool
  | .refuse _ | .run _ | .handled _ _ | .finish _ | .expire _ | .close => true
  | _ => false

@[simp] theorem closes_loops (s : St) (i : Int) (x : Nat) (k : Closing) :
    (s.closes i x k).loops = s.loops := by
  cases k <;> rfl

theorem run_loops (h : run s x = some t) : t.loops = s.loops := by
  unfold run at h
  split at h
  · cases h
  · split at h
    · cases h; rfl
    · split at h <;> cases h <;> rfl
    · cases h; rfl
    · cases h; rfl
    · cases h
      exact closes_loops ..
    · cases h

theorem close_loops (h : close s = some t) : t.loops = s.loops := by
  unfold close at h
  split at h <;> cases h <;> rfl

theorem exec_loops {e : Ev} (he : e.ofExec = true) (h : step s e = some t) : t.loops = s.loops := by
  cases e with
  | run x => exact run_loops h
  | close => exact close_loops h
  | refuse x | handled x ok | finish x | expire x =>
    simp only [step] at h
    split at h
    · split at h <;> cases h
      rfl
    · cases h
  | _ => cases he

end ValueRpc.Serve
