/-
  ValueRpc.Stream.Flow — one direction of a stream as a transition system: producer,
  sender, frames in flight, receiver, pump goroutine, consumer.

  The connection stays up and delivers frames in order (`fwd` from the sender, `back`
  from the receiver; the sending queues, the socket and the read loops between the two
  ends are one FIFO each way). Any interleaving of the goroutines is a run:
  - the producer emits values and closes its channel (`emit`, `closeSrc`);
  - the sender goroutine is `outgoingStreamer` when the receiver opened the stream and
    `streamOut` when the sender did (`start` .. `retire`);
  - a frame reaches the other end's record, or none when the record is gone
    (`deliver`, `deliverBack`);
  - the pump goroutine takes, delivers, runs the deliver hook and sends the grant it
    decided on (`turn`, `putOut`, `handoff`, `abandon`, `hook`, `grant`);
  - the receiving side grants the initial window (`grantInitial`): a responder once it
    is registered, an initiator once its establisher read the ack;
  - the establisher (`SingleResp`, `awaitReady`) and then the consumer read (`read`).
    A send with the consumer already waiting goes past the buffer (`handoff`).
  For the input half of a chat the serving side may end its output at any time
  (`servingEnds`: `closeRequest` abandons the input), which the initiator learns later
  (`toldEnded`); for the output half the put side may finish (`putDone`).

  `leaked` and `dropped` record what is gone from the books: values whose payload the
  receiver skips, and grants that reach a retired sender.
-/

import ValueRpc.Lib.Runs
import ValueRpc.Stream.Endpoint

namespace ValueRpc.Stream

open ValueRpc.Core ValueRpc.Lib

variable {α : Type}

structure Cfg where
  dir : Dir
  chat : Bool
  requestId : Int
  /-- Capacity of the consumer's channel (`receiveCap`, `incomingQueueCap`). -/
  outCap : Nat
  /-- The bound handed to the receiver's constructor. -/
  maxPending : Int64
  /-- The runtime's growth of a full slice. -/
  grow : Nat → Nat

def Cfg.window (c : Cfg) : Int := c.dir.window c.maxPending.toInt

structure St (α : Type) where
  tx : Sender α
  rx : Receiver α
  /-- Emitted values the sender has not taken. -/
  src : List (Value α)
  srcClosed : Bool
  fwd : List (Frame α)
  back : List Back
  first : Option (Value α)
  granted : Bool
  got : List (Value α)
  /-- The serving side of a chat ended its output. -/
  servingEnded : Bool
  emitted : List (Value α)
  leaked : Nat
  dropped : Int
  deriving DecidableEq, Repr

def start (c : Cfg) : St α where
  tx := newSender c.chat
  rx := c.dir.receiver c.requestId c.chat c.outCap c.maxPending.toInt
  src := []
  srcClosed := false
  fwd := []
  back := []
  first := none
  granted := false
  got := []
  servingEnded := false
  emitted := []
  leaked := 0
  dropped := 0

inductive Ev (α : Type) where
  | emit (v : Value α)
  | closeSrc
  | start
  | check
  | recv
  | recvClosed
  | recvDone
  | acquire
  | send
  | sendEnd
  | retire
  | deliver
  | deliverBack
  | turn
  | putOut
  | handoff
  | abandon
  | hook
  | grant
  | grantInitial
  | read
  | servingEnds
  | toldEnded
  | putDone
  deriving DecidableEq, Repr

def Frame.skipped : Frame α → Bool
  | .value v => !v.isData
  | _ => false

/-- A read of the consumer's channel: the establisher's first one, then the consumer's. -/
def takeOut (c : Cfg) (s : St α) : Option (St α) :=
  match s.rx.out with
  | v :: rest =>
    if c.dir.toInitiator && s.first.isNone then some { s with rx := { s.rx with out := rest }, first := some v }
    else some { s with rx := { s.rx with out := rest }, got := s.got ++ [v] }
  | [] => none

/-- `outgoingStreamer` sends StreamReady; `streamOut` enters its loop. -/
def begin (c : Cfg) (s : St α) : St α :=
  if c.dir.toInitiator then { s with tx := { s.tx with pc := .receiving }, fwd := s.fwd ++ [.ready] }
  else { s with tx := { s.tx with pc := .check } }

def setPc (s : St α) (pc : SendPc α) : St α := { s with tx := { s.tx with pc := pc } }

/-- The head of `fwd` reaches the receiver's record, or nobody. -/
def deliver (c : Cfg) (s : St α) (f : Frame α) (rest : List (Frame α)) : St α :=
  if s.rx.live then
    let r := c.dir.receive c.grow s.rx f
    { s with rx := r.1, fwd := rest, back := s.back ++ r.2, leaked := if f.skipped then s.leaked + 1 else s.leaked }
  else { s with fwd := rest }

/-- The head of `back` reaches the sender's record, or nobody. -/
def deliverBack (c : Cfg) (s : St α) (b : Back) (rest : List Back) : St α :=
  if s.tx.live then { s with tx := c.dir.receiveBack s.tx b, back := rest }
  else { s with back := rest, dropped := s.dropped + b.amount }

def step (c : Cfg) (s : St α) : Ev α → Option (St α)
  | .emit v => if s.srcClosed then none else some { s with src := s.src ++ [v], emitted := s.emitted ++ [v] }
  | .closeSrc => if s.srcClosed then none else some { s with srcClosed := true }
  | .start =>
    match s.tx.pc with
    | .start => some (begin c s)
    | _ => none
  | .check =>
    match s.tx.pc with
    | .check => some (setPc s (if s.tx.closed then .retiring else .receiving))
    | _ => none
  | .recv =>
    match s.tx.pc, s.src with
    | .receiving, v :: rest =>
      -- `outgoingStreamer` looks at `closed` after the receive, `streamOut` does not
      some (setPc { s with src := rest } (if c.dir.toInitiator && s.tx.closed then .ending v else .acquiring v))
    | _, _ => none
  | .recvClosed =>
    match s.tx.pc, s.src with
    | .receiving, [] => if s.srcClosed then some (setPc s (.ending .nil)) else none
    | _, _ => none
  | .recvDone =>
    match s.tx.pc with
    | .receiving => if c.dir.toInitiator && s.tx.closed then some (setPc s (.ending .nil)) else none
    | _ => none
  | .acquire =>
    match s.tx.pc with
    | .acquiring v =>
      match s.tx.gate.acquire with
      | some (true, g) => some { s with tx := { s.tx with gate := g, pc := .sending v } }
      | some (false, g) => some { s with tx := { s.tx with gate := g, pc := .retiring } }
      | none => none
    | _ => none
  | .send =>
    match s.tx.pc with
    | .sending v =>
      some (setPc { s with fwd := s.fwd ++ [.value v.wire] } (if c.dir.toInitiator then .receiving else .check))
    | _ => none
  | .sendEnd =>
    match s.tx.pc with
    | .ending v => some (setPc { s with fwd := s.fwd ++ [.fin v.wire] } .retiring)
    | _ => none
  | .retire =>
    match s.tx.pc with
    | .retiring =>
      some { s with tx := { (if c.dir.toInitiator then s.tx.closeRequest else s.tx.tryPutClose) with pc := .ended } }
    | _ => none
  | .deliver =>
    match s.fwd with
    | f :: rest => some (deliver c s f rest)
    | [] => none
  | .deliverBack =>
    match s.back with
    | b :: rest => some (deliverBack c s b rest)
    | [] => none
  | .turn => s.rx.turn.map fun r => { s with rx := r }
  | .putOut => if s.rx.out.length < s.rx.outCap then s.rx.putOut.map fun r => { s with rx := r } else none
  | .handoff => if s.rx.out.isEmpty then s.rx.putOut.bind fun r => takeOut c { s with rx := r } else none
  | .abandon => s.rx.abandon.map fun r => { s with rx := r }
  | .hook =>
    match s.rx.pc with
    | .delivered _ => some { s with rx := c.dir.onDeliver s.rx }
    | _ => none
  | .grant =>
    match s.rx.pc with
    | .granting n => some { s with rx := { s.rx with pc := .waiting }, back := s.back ++ [.credit n] }
    | _ => none
  | .grantInitial =>
    if s.granted = false ∧ (c.dir.toInitiator = true → s.first.isSome = true) then
      some { s with granted := true, back := s.back ++ [.credit s.rx.creditWindow] }
    else none
  | .read => takeOut c s
  | .servingEnds =>
    if c.chat = true ∧ c.dir.toInitiator = false ∧ s.servingEnded = false then
      some { s with rx := s.rx.closeRequest, servingEnded := true }
    else none
  | .toldEnded =>
    if c.chat = true ∧ s.servingEnded = true ∧
      s.tx.getClosed = false then some { s with tx := s.tx.tryGetClose } else none
  | .putDone =>
    if c.chat = true ∧ c.dir.toInitiator = true ∧ s.rx.putClosed = false then
      some { s with rx := { s.rx with putClosed := true, live := s.rx.live && !s.rx.ended } }
    else none

def sys (c : Cfg) : Sys (St α) (Ev α) := ⟨fun s => s = start c, step c⟩

/-! ## What a step does -/

inductive Does (c : Cfg) (s : St α) : Ev α → St α → Prop
  | emit (v : Value α) : s.srcClosed = false →
      Does c s (.emit v) { s with src := s.src ++ [v], emitted := s.emitted ++ [v] }
  | closeSrc : Does c s .closeSrc { s with srcClosed := true }
  | start : s.tx.pc = .start → Does c s .start (begin c s)
  | check : s.tx.pc = .check → Does c s .check (setPc s (if s.tx.closed then .retiring else .receiving))
  | recv {v : Value α} {rest : List (Value α)} : s.tx.pc = .receiving → s.src = v :: rest →
      Does c s .recv (setPc { s with src := rest }
        (if c.dir.toInitiator && s.tx.closed then .ending v else .acquiring v))
  | recvClosed : s.tx.pc = .receiving → s.src = [] → s.srcClosed = true → Does c s .recvClosed (setPc s (.ending .nil))
  | recvDone : s.tx.pc = .receiving → (c.dir.toInitiator && s.tx.closed) = true →
      Does c s .recvDone (setPc s (.ending .nil))
  | acquire {v : Value α} : s.tx.pc = .acquiring v → 0 < s.tx.gate.credit →
      Does c s .acquire { s with
        tx := { s.tx with gate := { s.tx.gate with credit := s.tx.gate.credit - 1 }, pc := .sending v } }
  | refused {v : Value α} : s.tx.pc = .acquiring v → s.tx.gate.closed = true →
      Does c s .acquire (setPc s .retiring)
  | send {v : Value α} : s.tx.pc = .sending v →
      Does c s .send (setPc { s with fwd := s.fwd ++ [.value v.wire] }
        (if c.dir.toInitiator then .receiving else .check))
  | sendEnd {v : Value α} : s.tx.pc = .ending v →
      Does c s .sendEnd (setPc { s with fwd := s.fwd ++ [.fin v.wire] } .retiring)
  | retire {t : Sender α} : s.tx.pc = .retiring → t.gate.credit = s.tx.gate.credit → t.pc = .ended →
      Does c s .retire { s with tx := t }
  | deliver {f : Frame α} {rest : List (Frame α)} : s.fwd = f :: rest → Does c s .deliver (deliver c s f rest)
  | deliverBack {b : Back} {rest : List Back} : s.back = b :: rest → Does c s .deliverBack (deliverBack c s b rest)
  | take {v : Value α} {p : StreamPump α} : s.rx.pc = .waiting → s.rx.pump.stopped = false →
      s.rx.pump.take = some (v, p) →
      Does c s .turn { s with rx := { s.rx with pump := p, pc := .holding v } }
  | drain : s.rx.pc = .waiting → s.rx.pump.stopped = true ∨ s.rx.pump.take = none ∧ s.rx.pump.inputEnd = true →
      Does c s .turn { s with rx := { s.rx with pc := .finished } }
  | put {v : Value α} : s.rx.pc = .holding v →
      Does c s .putOut { s with rx := { s.rx with out := s.rx.out ++ [v], pc := .delivered v } }
  | handoff {v : Value α} {t : St α} : s.rx.pc = .holding v →
      takeOut c { s with rx := { s.rx with out := s.rx.out ++ [v], pc := .delivered v } } = some t →
        Does c s .handoff t
  | abandon {v : Value α} : s.rx.pc = .holding v → s.rx.pump.stopped = true →
      Does c s .abandon { s with rx := { s.rx with pc := .finished } }
  | hook {v : Value α} : s.rx.pc = .delivered v → Does c s .hook { s with rx := s.rx.grantDelivered }
  | grant {n : Int} : s.rx.pc = .granting n →
      Does c s .grant { s with rx := { s.rx with pc := .waiting }, back := s.back ++ [.credit n] }
  | grantInitial : s.granted = false → (c.dir.toInitiator = true → s.first.isSome = true) →
      Does c s .grantInitial { s with granted := true, back := s.back ++ [.credit s.rx.creditWindow] }
  | read {t : St α} : takeOut c s = some t → Does c s .read t
  | servingEnds : c.chat = true → c.dir.toInitiator = false →
      Does c s .servingEnds { s with rx := s.rx.closeRequest, servingEnded := true }
  | toldEnded : s.servingEnded = true → Does c s .toldEnded { s with tx := s.tx.tryGetClose }
  | putDone : s.rx.putClosed = false →
      Does c s .putDone { s with rx := { s.rx with putClosed := true, live := s.rx.live && !s.rx.ended } }

section

variable {c : Cfg} {s t : St α}

theorem acquire_does (h : step c s .acquire = some t) : Does c s .acquire t := by
  simp only [step] at h
  split at h
  · rename_i v hp
    split at h
    · rename_i g hg
      obtain ⟨-, hpos, rfl⟩ | ⟨hb, -⟩ := CreditGate.acquire_some hg
      · cases h
        exact .acquire hp hpos
      · cases hb
    · rename_i g hg
      obtain ⟨hb, -⟩ | ⟨-, hcl, rfl⟩ := CreditGate.acquire_some hg
      · cases hb
      · cases h
        exact .refused hp hcl
    · cases h
  · cases h

theorem retire_does (h : step c s .retire = some t) : Does c s .retire t := by
  simp only [step] at h
  split at h
  · rename_i hp
    cases h
    refine .retire hp ?_ rfl
    unfold Sender.closeRequest Sender.tryPutClose
    repeat' split
    all_goals rfl
  · cases h

theorem pump_does {e : Ev α} (he : e = .turn ∨ e = .putOut ∨ e = .handoff ∨ e = .abandon)
    (h : step c s e = some t) : Does c s e t := by
  rcases he with rfl | rfl | rfl | rfl
  · obtain ⟨r, hr, rfl⟩ := Option.map_eq_some_iff.mp h
    obtain ⟨hp, ⟨v, p, hs, ht, rfl⟩ | ⟨hend, rfl⟩⟩ := Receiver.turn_some hr
    · exact .take hp hs ht
    · exact .drain hp hend
  · simp only [step] at h
    split at h
    · obtain ⟨r, hr, rfl⟩ := Option.map_eq_some_iff.mp h
      obtain ⟨v, hp, rfl⟩ := Receiver.putOut_some hr
      exact .put hp
    · cases h
  · simp only [step] at h
    split at h
    · obtain ⟨r, hr, ht⟩ := Option.bind_eq_some_iff.mp h
      obtain ⟨v, hp, rfl⟩ := Receiver.putOut_some hr
      exact .handoff hp ht
    · cases h
  · obtain ⟨r, hr, rfl⟩ := Option.map_eq_some_iff.mp h
    obtain ⟨v, hp, hs, rfl⟩ := Receiver.abandon_some hr
    exact .abandon hp hs

theorem step_cases {e : Ev α} (h : step c s e = some t) : Does c s e t := by
  cases e with
  | acquire => exact acquire_does h
  | retire => exact retire_does h
  | turn => exact pump_does (.inl rfl) h
  | putOut => exact pump_does (.inr (.inl rfl)) h
  | handoff => exact pump_does (.inr (.inr (.inl rfl))) h
  | abandon => exact pump_does (.inr (.inr (.inr rfl))) h
  | read => exact .read h
  | hook =>
    simp only [step, Dir.onDeliver_eq] at h
    split at h
    · cases h
      exact .hook ‹_›
    · cases h
  | emit v =>
    simp only [step] at h
    split at h
    · cases h
    · cases h
      exact .emit v (Bool.eq_false_iff.mpr ‹_›)
  | closeSrc =>
    simp only [step] at h
    split at h
    · cases h
    · cases h
      exact .closeSrc
  | recvClosed | recvDone =>
    simp only [step] at h
    split at h
    · split at h
      · cases h
        constructor <;> assumption
      · cases h
    · cases h
  | grantInitial =>
    simp only [step] at h
    split at h
    · rename_i hg
      cases h
      exact .grantInitial hg.1 hg.2
    · cases h
  | servingEnds =>
    simp only [step] at h
    split at h
    · rename_i hg
      cases h
      exact .servingEnds hg.1 hg.2.1
    · cases h
  | toldEnded =>
    simp only [step] at h
    split at h
    · rename_i hg
      cases h
      exact .toldEnded hg.2.1
    · cases h
  | putDone =>
    simp only [step] at h
    split at h
    · rename_i hg
      cases h
      exact .putDone hg.2.2
    · cases h
  | start | check | recv | send | sendEnd | deliver | deliverBack | grant =>
    simp only [step] at h
    split at h
    · cases h
      constructor
      all_goals assumption
    · cases h

end

/-! ## The books -/

def Frame.isValue : Frame α → Bool
  | .value _ => true
  | _ => false

/-- Granted and not yet at the gate: StreamCredit frames in flight, and the grant the
    pump goroutine is sending. -/
def creditInFlight (s : St α) : Int :=
  (s.back.map Back.amount).sum + match s.rx.pc with
    | .granting n => n
    | _ => 0

/-- Values that took a credit and have not reached the receiver. -/
def valuesInFlight (s : St α) : Nat :=
  s.fwd.countP Frame.isValue + match s.tx.pc with
    | .sending _ => 1
    | _ => 0

/-- Values queued in the pump; the ack's nil is none. -/
def queued (s : St α) : Nat := s.rx.pump.pending.countP Value.isData

/-- The value the pump goroutine took and has not counted as delivered. -/
def held (s : St α) : Nat :=
  match s.rx.pc with
  | .holding v => if v.isData then 1 else 0
  | .delivered v => if v.isData then 1 else 0
  | _ => 0

def sinceGrant (s : St α) : Int := max s.rx.delivered 0

def outstanding (s : St α) : Int :=
  s.tx.gate.credit + creditInFlight s + valuesInFlight s + queued s + held s + sinceGrant s

def outClosed (s : St α) : Bool :=
  match s.rx.pc with
  | .finished => true
  | _ => false

end ValueRpc.Stream
