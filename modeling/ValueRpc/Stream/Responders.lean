/-
  ValueRpc.Stream.Responders — the two responders of a stream: the server's `servingRequest`
  (`valueserver/serving_request.go`, with `doServeFunctionRequest`) and its hand-written
  mirror, the client's `clientServingRequest` (`valueclient/serving.go`, with
  `serveInboundStream`).

  Each is translated as it stands, as lists of instructions over the primitives the two share
  (the registry, the atomics, `StreamPump`, `CreditGate`, the send): what the read loop does
  with a frame, and what the handler's goroutine does when the handler returns and in
  `outgoingStreamer`. One machine runs either of them. The handler's goroutine, the read loop
  and the pump's goroutine take turns in any order; a frame for a request that is not
  registered any more finds nobody.

  The request is registered and the connection stays up. What is left of registering is the
  initial grant. The client's response loop does it before it reads on; on the server it is
  the handler's goroutine's, so the read loop may take frames before it.

  - `responders_mirror`: a schedule of the client's responder is one of the server's, with the
    same frames (up to message texts), values and state. Conversely every schedule of the
    server's is one of the client's once the initial grant is moved to the front.
-/

import ValueRpc.Lib.Mealy
import ValueRpc.Stream.Served

namespace ValueRpc.Stream.Responders

open ValueRpc.Core ValueRpc.Lib ValueRpc.Stream.Served

variable {α : Type}

/-- `functionType` and `clientFnKind`, by what the opener calls: the responder of a get-stream
    sends values, that of a put-stream receives them. -/
inductive Kind where
  | get
  | put
  | chat
  deriving DecidableEq, Repr

def Kind.input : Kind → Bool
  | .get => false
  | .put | .chat => true

def Kind.output : Kind → Bool
  | .put => false
  | .get | .chat => true

def Kind.where_ : Kind → String
  | .get => "out stream "
  | .put => "in stream "
  | .chat => "chat "

structure Cfg where
  kind : Kind
  requestId : Int
  name : String
  /-- `maxPending` of both. -/
  window : Int
  window_pos : 1 ≤ window
  /-- The server's `inC`; the client's has the window as its capacity. -/
  incomingQueueCap : Nat
  buffer : incomingQueueCap = window.toNat
  grow : Nat → Nat

/-! ## The primitives -/

inductive Op (α : Type) where
  /-- `cli.send`, `t.reply`. -/
  | send (o : Out α)
  /-- `deleteRequest`, `deleteServing`. -/
  | delete
  /-- `closed.CompareAndSwap(false, true)`: where it fails, the next `skip` are passed by. -/
  | swapClosed (skip : Nat)
  | closeDone
  | cancelCtx
  /-- `if sendCredit != nil { sendCredit.Close() }`. -/
  | closeCredit
  | storeInClosed
  | stopPump
  /-- `inClosed.CompareAndSwap(false, true)`. -/
  | swapInClosed (skip : Nat)
  | closePump
  | push (v : Value α)
  | ifOverflowed
  | grant (n : Int)
  deriving DecidableEq, Repr

inductive Pc (α : Type) where
  /-- Registered, before `grantInitialInbound`. -/
  | granting
  | handling
  /-- At these statements; then at the select again, or out. -/
  | run (ops : List (Op α)) (loops : Bool)
  /-- `outgoingStreamer`'s select. -/
  | select
  | look (ok : Bool) (v : Value α)
  | acquiring (v : Value α)
  | returned
  deriving DecidableEq, Repr

structure Core (α : Type) where
  pc : Pc α
  loop : List (Op α)
  live : Bool
  closed : Bool
  done : Bool
  cancelled : Bool
  sendCredit : Option CreditGate
  /-- `inPump` with its channel and what the handler read; `ended` is `inClosed`. -/
  inb : Option (Inbound α)
  deriving DecidableEq, Repr

def Core.mapRx (k : Core α) (f : Receiver α → Receiver α) : Core α :=
  { k with inb := k.inb.map fun i => { i with rx := f i.rx } }

def Core.inClosed (k : Core α) : Bool := k.inb.any fun i => i.rx.ended

def Core.overflowed (k : Core α) : Bool := k.inb.any fun i => i.rx.pump.overflow

/-- An instruction, with the ones after it: the record, what is left to do, and what was sent. -/
def Op.exec (grow : Nat → Nat) (k : Core α) (rest : List (Op α)) : Op α → Core α × List (Op α) × List (Out α)
  | .send o => (k, rest, [o])
  | .delete => ({ k with live := false }, rest, [])
  | .swapClosed skip => if k.closed then (k, rest.drop skip, []) else ({ k with closed := true }, rest, [])
  | .closeDone => ({ k with done := true }, rest, [])
  | .cancelCtx => ({ k with cancelled := true }, rest, [])
  | .closeCredit => ({ k with sendCredit := k.sendCredit.map CreditGate.close }, rest, [])
  | .storeInClosed => (k.mapRx fun r => { r with ended := true }, rest, [])
  | .stopPump => (k.mapRx fun r => { r with pump := r.pump.stop }, rest, [])
  | .swapInClosed skip => if k.inClosed then (k, rest.drop skip,
      []) else (k.mapRx fun r => { r with ended := true }, rest, [])
  | .closePump => (k.mapRx fun r => { r with pump := r.pump.close }, rest, [])
  | .push v => (k.mapRx fun r => (r.offer grow v).1, rest, [])
  | .ifOverflowed => (k, if k.overflowed then rest else [], [])
  | .grant n => ({ k with sendCredit := k.sendCredit.map fun g => g.grant n }, rest, [])

/-- What tells one responder from the other. -/
structure Responder (α : Type) where
  /-- `grantInitialInbound` is the read loop's. -/
  grantsFirst : Bool
  inbound : Receiver α
  serve : In α → List (Op α)
  /-- What the goroutine does when the handler returned an error, and when it did not. -/
  failed : Failure → List (Op α)
  established : List (Op α)
  /-- `outgoingStreamer`: a value, the end, and a closed gate. -/
  value : Value α → List (Op α)
  ended : Value α → List (Op α)
  refused : List (Op α)

def exceeded (c : Cfg) (who : String) : Error :=
  ⟨.resourceExhausted, "inbound stream " ++ toString c.requestId ++ " truncated: " ++ who ++
    " exceeded flow-control credit"⟩

/-! ## The server's `servingRequest` -/

namespace Server

variable (c : Cfg)

def close : List (Op α) := [.swapClosed 5, .closeDone, .cancelCtx, .closeCredit, .storeInClosed, .stopPump]

def closeRequest : List (Op α) := .delete :: close

def closeInboundChan : List (Op α) := [.swapInClosed 1, .closePump]

def offered (v : Value α) : List (Op α) := if v.neNull then [.push v] else []

def incomingStreamEnd (v : Value α) : List (Op α) :=
  offered v ++ if c.kind = .chat then closeInboundChan else closeInboundChan ++ [.delete, .cancelCtx]

/-- Without an `inPump` it returns an error for a StreamValue or StreamEnd, and for an unknown
    message. -/
def serveRunningRequest : In α → List (Op α)
  | .cancel => closeRequest
  | .value v =>
    if c.kind.input then
      offered v ++ [.ifOverflowed, .send (.back (.error (exceeded c "client")))] ++ closeRequest
    else []
  | .fin v => if c.kind.input then incomingStreamEnd c v else []
  | .credit n => [.grant n]
  | .unknown => []

def errorResponse (f : Failure) : Out α := .back (.error (handlerError id (c.kind.where_ ++ c.name) f))

def servingRequest : Responder α where
  grantsFirst := false
  inbound := setupInboundServer c.requestId (c.kind = .chat) c.incomingQueueCap c.window
  serve := serveRunningRequest c
  failed f := closeRequest ++ [.send (errorResponse c f)]
  established := [.send (.frame .ready)]
  value v := [.send (.frame (.value v))]
  ended v := .send (.frame (.fin v)) :: closeRequest
  refused := closeRequest

end Server

/-! ## The client's `clientServingRequest` -/

namespace Client

variable (c : Cfg)

def close : List (Op α) := [.swapClosed 5, .closeDone, .cancelCtx, .closeCredit, .storeInClosed, .stopPump]

def closeRequest : List (Op α) := .delete :: close

def closeInboundChan : List (Op α) := [.swapInClosed 1, .closePump]

/-- The payload, if it is one and there is an `inPump`, to `Push`. -/
def pushed (v : Value α) : List (Op α) := if v.isData && c.kind.input then [.push v] else []

/-- StreamEnd closes the input whatever the kind is. -/
def serveRunning : In α → List (Op α)
  | .cancel => closeRequest
  | .value v =>
    pushed c v ++ [.ifOverflowed, .send (.back (.error (exceeded c "peer")))] ++ closeRequest
  | .fin v => pushed c v ++ closeInboundChan ++ if c.kind ≠ .chat then [.delete, .cancelCtx] else []
  | .credit n => [.grant n]
  | .unknown => []

def errorResponse (f : Failure) : Out α := .back (.error (newHandlerError id (c.kind.where_ ++ c.name) f))

def clientServingRequest : Responder α where
  grantsFirst := true
  inbound := setupInboundClient c.requestId (c.kind = .chat) c.window
  serve := serveRunning c
  failed f := closeRequest ++ [.send (errorResponse c f)]
  established := [.send (.frame .ready)]
  value v := [.send (.frame (.value v))]
  ended v := .send (.frame (.fin v)) :: closeRequest
  refused := closeRequest

end Client

/-! ## The machine -/

inductive Ev (α : Type) where
  | initial
  /-- The handler returns: a channel (or nothing, for a put-stream), or an error. -/
  | returns (r : Option Failure)
  /-- The streamer's receive: a value, the closed channel, or `done`. -/
  | recv (v : Value α)
  | recvClosed
  | recvDone
  | go
  | arrive (m : In α)
  | serve
  /-- The pump's goroutine, or the handler reads. -/
  | act (a : Act)
  deriving DecidableEq, Repr

def start (c : Cfg) (R : Responder α) : Core α where
  pc := if c.kind.input then .granting else .handling
  loop := []
  live := true
  closed := false
  done := false
  cancelled := false
  sendCredit := if c.kind.output then some .new else none
  inb := if c.kind.input then some ⟨R.inbound, [], false⟩ else none

def Pc.next (loops : Bool) : List (Op α) → Pc α
  | [] => if loops then .select else .returned
  | op :: ops => .run (op :: ops) loops

def goes (c : Cfg) (R : Responder α) (k : Core α) : Option (Core α × List (Out α)) :=
  match k.pc with
  | .run (op :: rest) loops =>
    let r := op.exec c.grow k rest
    some ({ r.1 with pc := .next loops r.2.1 }, r.2.2)
  | .look ok v => some ({ k with pc := if !ok || k.closed then .run (R.ended v) false else .acquiring v }, [])
  | .acquiring v =>
    match k.sendCredit with
    | none => some ({ k with pc := .run (R.value v) true }, [])
    | some g =>
      match g.acquire with
      | some (true, g) => some ({ k with sendCredit := some g, pc := .run (R.value v) true }, [])
      | some (false, _) => some ({ k with pc := .run R.refused false }, [])
      | none => none
  | _ => none

def Pc.called : Pc α → Bool
  | .granting => false
  | _ => true

/-- The handler's own reads need the handler. -/
def mayAct (k : Core α) : Act → Bool
  | .read | .handoff => k.pc.called
  | _ => true

def step (c : Cfg) (R : Responder α) (k : Core α) : Ev α → Option (Core α × List (Out α))
  | .initial =>
    match k.pc with
    | .granting => some ({ k with pc := .handling }, [.back (.credit R.inbound.creditWindow)])
    | _ => none
  | .returns r =>
    match k.pc with
    | .handling =>
      some ({ k with pc := match r with
        | none => .run R.established c.kind.output
        | some f => .run (R.failed f) false }, [])
    | _ => none
  | .recv v =>
    match k.pc with
    | .select => some ({ k with pc := .look true v }, [])
    | _ => none
  | .recvClosed =>
    match k.pc with
    | .select => some ({ k with pc := .look false .nil }, [])
    | _ => none
  | .recvDone =>
    match k.pc, k.done with
    | .select, true => some ({ k with pc := .look false .nil }, [])
    | _, _ => none
  | .go => goes c R k
  | .arrive m =>
    if k.loop.isEmpty && (k.pc.called || !R.grantsFirst) then
      some ({ k with loop := if k.live then R.serve m else [] }, [])
    else none
  | .serve =>
    match k.loop with
    | [] => none
    | op :: rest =>
      let r := op.exec c.grow k rest
      some ({ r.1 with loop := r.2.1 }, r.2.2)
  | .act a =>
    match k.inb with
    | none => none
    | some i => if mayAct k a then (i.act a).map fun r => ({ k with inb := some r.1 }, r.2.map .back) else none

def machine (c : Cfg) (R : Responder α) : Mealy (Core α) (Ev α) (Out α) := ⟨step c R⟩

/-- The frames that are legal for the kind, as they come off the wire. -/
def legal (kind : Kind) : Ev α → Prop
  | .arrive .cancel => True
  | .arrive (.value v) => kind.input = true ∧ v ≠ .nil
  | .arrive (.fin v) => kind.input = true ∧ v ≠ .nil
  | .arrive (.credit _) => kind.output = true
  | .arrive .unknown => False
  | _ => True

def arrivals (es : List (Ev α)) : List (In α) :=
  es.filterMap fun e => match e with
    | .arrive m => some m
    | _ => none

inductive Status where
  | opened
  | halfClosed
  | retired
  deriving DecidableEq, Repr

def Core.status (k : Core α) : Status :=
  if k.live = false then .retired else if k.inClosed then .halfClosed else .opened

def Core.got (k : Core α) : List (Value α) := k.inb.elim [] Inbound.got

/-! ## Up to message texts -/

def quietOut : Out α → Out α
  | .back (.error e) => .back (.error { e with message := "" })
  | o => o

def Op.quiet : Op α → Op α
  | .send o => .send (quietOut o)
  | op => op

def Pc.quiet : Pc α → Pc α
  | .run ops loops => .run (ops.map Op.quiet) loops
  | pc => pc

def Core.quiet (k : Core α) : Core α := { k with pc := k.pc.quiet, loop := k.loop.map Op.quiet }

def Responder.quiet (R : Responder α) : Responder α where
  grantsFirst := R.grantsFirst
  inbound := R.inbound
  serve m := (R.serve m).map Op.quiet
  failed f := (R.failed f).map Op.quiet
  established := R.established.map Op.quiet
  value v := (R.value v).map Op.quiet
  ended v := (R.ended v).map Op.quiet
  refused := R.refused.map Op.quiet

variable {c : Cfg} {R : Responder α} {k k' : Core α} {e : Ev α}

@[simp] theorem quiet_mapRx (k : Core α) (f : Receiver α → Receiver α) :
    (k.mapRx f).quiet = k.quiet.mapRx f := rfl

theorem exec_quiet (grow : Nat → Nat) (k : Core α) (rest : List (Op α)) (op : Op α) :
    op.quiet.exec grow k.quiet (rest.map Op.quiet) =
      (((op.exec grow k rest).1).quiet, (op.exec grow k rest).2.1.map Op.quiet,
        (op.exec grow k rest).2.2.map quietOut) := by
  cases op with
  | swapClosed n => cases h : k.closed <;> simp [Op.quiet, Op.exec, Core.quiet, h]
  | swapInClosed n =>
    have hq : k.quiet.inClosed = k.inClosed := rfl
    cases h : k.inClosed <;> simp [Op.quiet, Op.exec, hq, h]
  | ifOverflowed =>
    have hq : k.quiet.overflowed = k.overflowed := rfl
    cases h : k.overflowed <;> simp [Op.quiet, Op.exec, hq, h]
  | _ => rfl

theorem called_quiet (pc : Pc α) : pc.quiet.called = pc.called := by cases pc <;> rfl

theorem next_quiet (loops : Bool) (ops : List (Op α)) :
    (Pc.next loops ops).quiet = .next loops (ops.map Op.quiet) := by
  cases ops with
  | nil => cases loops <;> rfl
  | cons op ops => rfl

theorem goes_quiet (c : Cfg) (R : Responder α) (k : Core α) :
    (goes c R k).map (Mealy.image Core.quiet quietOut) = goes c R.quiet k.quiet := by
  have hcl : k.quiet.closed = k.closed := rfl
  have hcr : k.quiet.sendCredit = k.sendCredit := rfl
  unfold goes
  cases hp : k.pc with
  | run ops loops =>
    have hq : k.quiet.pc = .run (ops.map Op.quiet) loops := by simp [Core.quiet, hp, Pc.quiet]
    rw [hq]
    cases ops with
    | nil => rfl
    | cons op rest =>
      simp only [List.map_cons, exec_quiet, Option.map_some, Mealy.image]
      rw [← next_quiet]
      rfl
  | look ok v =>
    have hq : k.quiet.pc = .look ok v := by simp [Core.quiet, hp, Pc.quiet]
    rw [hq]
    cases h : !ok || k.closed <;> simp [Mealy.image, Core.quiet, Pc.quiet, Responder.quiet, h]
  | acquiring v =>
    have hq : k.quiet.pc = .acquiring v := by simp [Core.quiet, hp, Pc.quiet]
    rw [hq, hcr]
    cases k.sendCredit with
    | none => simp [Mealy.image, Core.quiet, Pc.quiet, Responder.quiet]
    | some g =>
      cases ha : g.acquire with
      | none => simp [ha]
      | some r =>
        obtain ⟨b, g'⟩ := r
        cases b <;> simp [ha, Mealy.image, Core.quiet, Pc.quiet, Responder.quiet]
  | granting => simp [Core.quiet, Pc.quiet, hp]
  | handling => simp [Core.quiet, Pc.quiet, hp]
  | select => simp [Core.quiet, Pc.quiet, hp]
  | returned => simp [Core.quiet, Pc.quiet, hp]

theorem quiet_credits {bs : List Back} (h : ∀ b ∈ bs, ∃ n, b = .credit n) :
    bs.map (quietOut ∘ (Out.back : Back → Out α)) = bs.map Out.back := by
  refine List.map_congr_left fun b hb => ?_
  obtain ⟨n, rfl⟩ := h b hb
  rfl

/-- Without the texts, a responder takes the same steps. -/
theorem step_quiet (c : Cfg) (R : Responder α) (k : Core α) (e : Ev α) :
    (step c R k e).map (Mealy.image Core.quiet quietOut) = step c R.quiet k.quiet e := by
  cases e with
  | initial => cases hp : k.pc <;> simp [step, Core.quiet, Pc.quiet, hp, Mealy.image, quietOut, Responder.quiet]
  | returns r =>
    cases hp : k.pc <;> cases r <;> simp [step, Core.quiet, Pc.quiet, hp, Mealy.image, Responder.quiet]
  | recv v => cases hp : k.pc <;> simp [step, Core.quiet, Pc.quiet, hp, Mealy.image]
  | recvClosed => cases hp : k.pc <;> simp [step, Core.quiet, Pc.quiet, hp, Mealy.image]
  | recvDone => cases hp : k.pc <;> cases hd : k.done <;> simp [step, Core.quiet, Pc.quiet, hp, hd, Mealy.image]
  | go => exact goes_quiet c R k
  | arrive m =>
    have hc : (k.quiet.loop.isEmpty && (k.quiet.pc.called || !R.quiet.grantsFirst)) =
        (k.loop.isEmpty && (k.pc.called || !R.grantsFirst)) := by simp [Core.quiet, called_quiet, Responder.quiet]
    simp only [step]
    rw [hc]
    by_cases h : (k.loop.isEmpty && (k.pc.called || !R.grantsFirst)) = true
    · rw [if_pos h, if_pos h]
      cases hl : k.live <;> simp [Mealy.image, Core.quiet, Responder.quiet, hl]
    · rw [if_neg h, if_neg h]
      rfl
  | serve =>
    cases hl : k.loop with
    | nil => simp [step, Core.quiet, hl]
    | cons op rest =>
      have hx := exec_quiet c.grow k rest op
      have hq : k.quiet.loop = op.quiet :: rest.map Op.quiet := by simp [Core.quiet, hl]
      simp only [step, hl, hq, hx, Option.map_some, Mealy.image]
      rfl
  | act a =>
    have hm : mayAct k.quiet a = mayAct k a := by cases a <;> simp [mayAct, Core.quiet, called_quiet]
    have hi : k.quiet.inb = k.inb := rfl
    cases hb : k.inb with
    | none => simp [step, hb, hi]
    | some i =>
      simp only [step, hb, hi, hm]
      cases mayAct k a with
      | false => rfl
      | true =>
        simp only [if_true, Option.map_map]
        cases ha : i.act a with
        | none => rfl
        | some r =>
          simp only [Option.map_some, Function.comp_apply, Mealy.image, List.map_map]
          rw [quiet_credits (Inbound.act_credits (show i.act a = some (r.1, r.2) from ha))]
          rfl

/-! ## The two programs -/

/-- The two `setupInbound`s make the same pump. -/
theorem inbound_eq (c : Cfg) :
    (Client.clientServingRequest c : Responder α).inbound = (Server.servingRequest c : Responder α).inbound := by
  have hw : orDefault c.window = c.window := if_neg (by have := c.window_pos; omega)
  simp only [Client.clientServingRequest, Server.servingRequest, setupInboundClient, setupInboundServer, hw, c.buffer]

/-- On a decoded payload the two tests agree. -/
theorem pushed_eq {c : Cfg} (h : c.kind.input = true) {v : Value α} (hv : v ≠ .nil) :
    Client.pushed c v = Server.offered v := by
  cases v with
  | nil => exact absurd rfl hv
  | null => rfl
  | data a => simp [Client.pushed, Server.offered, Value.isData, Value.neNull, h]

/-- For a legal frame the two read loops do the same, but for the texts. -/
theorem serve_eq (c : Cfg) {m : In α} (h : legal c.kind (.arrive m)) :
    (Client.clientServingRequest c).quiet.serve m = (Server.servingRequest c).quiet.serve m := by
  cases m with
  | cancel => rfl
  | value v =>
    simp only [Responder.quiet, Client.clientServingRequest, Server.servingRequest, Client.serveRunning,
      Server.serveRunningRequest, h.1,
      if_true, pushed_eq h.1 h.2, List.map_append]
    rfl
  | fin v =>
    simp only [Responder.quiet, Client.clientServingRequest, Server.servingRequest, Client.serveRunning,
      Server.serveRunningRequest, h.1,
      if_true, pushed_eq h.1 h.2, Server.incomingStreamEnd]
    by_cases hk : c.kind = .chat
    · simp [hk, Client.closeInboundChan, Server.closeInboundChan]
    · simp [hk, Client.closeInboundChan, Server.closeInboundChan]
  | credit n => rfl
  | unknown => exact h.elim

/-- What the client's responder does, the server's can do: it only need not grant first. -/
theorem step_mono (c : Cfg) (hl : legal c.kind e) {r : Core α × List (Out α)}
    (h : step c (Client.clientServingRequest c).quiet k e = some r) :
    step c (Server.servingRequest c).quiet k e = some r := by
  cases e with
  | initial =>
    rw [← h]
    simp only [step, Responder.quiet, inbound_eq]
  | returns r' => cases r' <;> exact h
  | arrive m =>
    simp only [step, serve_eq c hl] at h ⊢
    split at h
    · rename_i hg
      rw [if_pos ?_]
      · exact h
      · simp only [Bool.and_eq_true, Bool.or_eq_true] at hg ⊢
        exact ⟨hg.1, .inr rfl⟩
    · cases h
  | recv v => exact h
  | recvClosed => exact h
  | recvDone => exact h
  | go => exact h
  | serve => exact h
  | act a => exact h

/-- Past the initial grant there is no difference. -/
theorem step_eq (c : Cfg) (hl : legal c.kind e) (hc : k.pc.called = true) :
    step c (Client.clientServingRequest c).quiet k e = step c (Server.servingRequest c).quiet k e := by
  cases e with
  | initial => simp only [step, Responder.quiet, inbound_eq]
  | returns r => cases r <;> rfl
  | arrive m =>
    simp only [step, serve_eq c hl, hc]
    rfl
  | _ => rfl

theorem exec_pc (grow : Nat → Nat) (k : Core α) (rest : List (Op α)) (op : Op α) :
    (op.exec grow k rest).1.pc = k.pc := by
  cases op with
  | swapClosed n => simp only [Op.exec]; split <;> rfl
  | swapInClosed n => simp only [Op.exec]; split <;> rfl
  | _ => rfl

theorem next_called (loops : Bool) (ops : List (Op α)) : (Pc.next loops ops).called = true := by
  cases ops with
  | nil => cases loops <;> rfl
  | cons op ops => rfl

theorem step_called {w : List (Out α)} (h : step c R k e = some (k', w)) (hc : k.pc.called = true) :
    k'.pc.called = true := by
  cases e with
  | initial =>
    simp only [step] at h
    split at h
    · cases h; rfl
    · cases h
  | returns r =>
    simp only [step] at h
    split at h
    · cases h; cases r <;> rfl
    · cases h
  | recv v =>
    simp only [step] at h
    split at h
    · cases h; rfl
    · cases h
  | recvClosed =>
    simp only [step] at h
    split at h
    · cases h; rfl
    · cases h
  | recvDone =>
    simp only [step] at h
    split at h
    · cases h; rfl
    · cases h
  | go =>
    simp only [step, goes] at h
    split at h
    · cases h; exact next_called ..
    · cases h
      dsimp only
      split <;> rfl
    · split at h
      · cases h; rfl
      · split at h
        · cases h; rfl
        · cases h; rfl
        · cases h
    · cases h
  | arrive m =>
    simp only [step] at h
    split at h
    · cases h; exact hc
    · cases h
  | serve =>
    simp only [step] at h
    split at h
    · cases h
    · cases h
      dsimp only
      rw [exec_pc]
      exact hc
  | act a =>
    simp only [step] at h
    split at h
    · cases h
    · split at h
      · obtain ⟨r, -, hr⟩ := Option.map_eq_some_iff.mp h
        cases hr
        exact hc
      · cases h

/-! ## Schedules -/

theorem called_run (c : Cfg) (R : Responder α) :
    ∀ (es : List (Ev α)) (k : Core α) (r : Core α × List (Out α)), k.pc.called = true →
    (machine c R).run k es = some r → r.1.pc.called = true
  | [], _, _, hc, h => by cases h; exact hc
  | _ :: es, _, r, hc, h => by
    obtain ⟨k₁, _, w, hs, hr, -⟩ := Mealy.run_cons h
    exact called_run c R es k₁ (r.1, w) (step_called hs hc) hr

theorem run_mono (c : Cfg) :
    ∀ (es : List (Ev α)) (k : Core α) (r : Core α × List (Out α)), (∀ e ∈ es, legal c.kind e) →
    (machine c (Client.clientServingRequest c).quiet).run k es = some r →
      (machine c (Server.servingRequest c).quiet).run k es = some r
  | [], _, _, _, h => h
  | e :: es, k, r, hl, h => by
    obtain ⟨k₁, w, w', hs, hr, hw⟩ := Mealy.run_cons h
    have ih := run_mono c es k₁ _ (fun e' he' => hl e' (List.mem_cons_of_mem _ he')) hr
    rw [Mealy.run_of_step (M := machine c (Server.servingRequest c).quiet)
      (step_mono c (hl e (List.mem_cons_self ..)) hs) ih, ← hw]

theorem run_called (c : Cfg) :
    ∀ (es : List (Ev α)) (k : Core α) (r : Core α × List (Out α)), (∀ e ∈ es, legal c.kind e) →
    k.pc.called = true → (machine c (Server.servingRequest c).quiet).run k es = some r →
      (machine c (Client.clientServingRequest c).quiet).run k es = some r
  | [], _, _, _, _, h => h
  | e :: es, k, r, hl, hc, h => by
    obtain ⟨k₁, w, w', hs, hr, hw⟩ := Mealy.run_cons h
    have ih := run_called c es k₁ _ (fun e' he' => hl e' (List.mem_cons_of_mem _ he')) (step_called hs hc) hr
    have hs' := (step_eq c (hl e (List.mem_cons_self ..)) hc).trans hs
    rw [Mealy.run_of_step (M := machine c (Client.clientServingRequest c).quiet) hs' ih, ← hw]

def Core.granted (k : Core α) : Core α := { k with pc := .handling }

theorem exec_granted (grow : Nat → Nat) (k : Core α) (rest : List (Op α)) (op : Op α) :
    op.exec grow k.granted rest = ((op.exec grow k rest).1.granted, (op.exec grow k rest).2.1,
      (op.exec grow k rest).2.2) := by
  cases op with
  | swapClosed n => cases h : k.closed <;> simp [Op.exec, Core.granted, h]
  | swapInClosed n =>
    have hq : k.granted.inClosed = k.inClosed := rfl
    simp only [Op.exec, hq]
    cases k.inClosed <;> rfl
  | _ => rfl

theorem step_serve (c : Cfg) (R : Responder α) {op : Op α} {rest : List (Op α)} (h : k.loop = op :: rest) :
    step c R k .serve =
      some ({ (op.exec c.grow k rest).1 with loop := (op.exec c.grow k rest).2.1 }, (op.exec c.grow k rest).2.2) := by
  simp only [step, h]

theorem step_act (c : Cfg) (R : Responder α) {i : Inbound α} {a : Act} (h : k.inb = some i)
    (hm : mayAct k a = true) :
    step c R k (.act a) = (i.act a).map fun r => ({ k with inb := some r.1 }, r.2.map .back) := by
  simp only [step, h, hm, if_true]

/-- Before the grant nothing depends on the handler's goroutine. -/
theorem step_granting {w : List (Out α)} (hk : k.pc = .granting) (he : e ≠ .initial)
    (hR : R.grantsFirst = false) (h : step c R k e = some (k', w)) :
    k'.pc = .granting ∧ step c R k.granted e = some (k'.granted, w) := by
  cases e with
  | initial => exact absurd rfl he
  | returns r => simp [step, hk] at h
  | recv v => simp [step, hk] at h
  | recvClosed => simp [step, hk] at h
  | recvDone => simp [step, hk] at h
  | go => simp [step, goes, hk] at h
  | arrive m =>
    simp only [step, hR, Bool.not_false, Bool.or_true, Bool.and_true] at h ⊢
    split at h
    · rename_i hl
      cases h
      exact ⟨hk, if_pos hl⟩
    · cases h
  | serve =>
    cases hl : k.loop with
    | nil => simp [step, hl] at h
    | cons op rest =>
      rw [step_serve c R hl] at h
      cases h
      refine ⟨(exec_pc ..).trans hk, ?_⟩
      rw [step_serve c R (k := k.granted) hl, exec_granted]
      rfl
  | act a =>
    cases hi : k.inb with
    | none => simp [step, hi] at h
    | some i =>
      cases hm : mayAct k a with
      | false => simp [step, hi, hm] at h
      | true =>
        have hm' : mayAct k.granted a = true := by cases a <;> rfl
        rw [step_act c R hi hm] at h
        obtain ⟨r, hr, hkw⟩ := Option.map_eq_some_iff.mp h
        cases hkw
        exact ⟨hk, by rw [step_act c R (k := k.granted) hi hm', hr]; rfl⟩

/-- Something written somewhere in `w` is written first in `w'`; the rest is in the same order. -/
def Delayed (o w w' : List (Out α)) : Prop := ∃ before after, w = before ++ o ++ after ∧ w' = o ++ (before ++ after)

/-- The server's initial grant, once the loop may run ahead of it: moved to the front, the
    schedule does the same, and writes the same but for the place of the StreamCredit. -/
theorem initial_first (c : Cfg) (R : Responder α) (hR : R.grantsFirst = false) :
    ∀ (es : List (Ev α)) (k s : Core α) (w : List (Out α)), k.pc = .granting → (machine c R).run k es = some (s, w) →
      ∃ es' t w', arrivals es' = arrivals es ∧ (∀ e ∈ es', e ∈ es) ∧ (machine c R).run k.granted es' = some (t, w') ∧
        (s.pc.called = true ∧ t = s ∧
            Delayed [.back (.credit R.inbound.creditWindow)] w (.back (.credit R.inbound.creditWindow) :: w') ∨
          s.pc = .granting ∧ t = s.granted ∧ w' = w)
  | [], k, s, w, hk, h => by
    cases h
    exact ⟨[], _, [], rfl, fun _ h => h, rfl, .inr ⟨hk, rfl, rfl⟩⟩
  | e :: es, k, s, w, hk, h => by
    obtain ⟨k₁, w₁, w₂, hs, hr, hw⟩ := Mealy.run_cons h
    dsimp only at hw hr
    by_cases he : e = .initial
    · subst he
      simp only [machine, step, hk] at hs
      cases hs
      have hcalled := called_run c R es _ _ rfl hr
      exact ⟨es, s, w₂, rfl, fun e h => List.mem_cons_of_mem _ h, hr, .inl ⟨hcalled, rfl, [], w₂, hw, rfl⟩⟩
    · obtain ⟨hk₁, hs'⟩ := step_granting hk he hR hs
      obtain ⟨es', t, w', harr, hmem, hrun, hcase⟩ := initial_first c R hR es k₁ s w₂ hk₁ hr
      refine ⟨e :: es', t, w₁ ++ w', ?_, ?_, Mealy.run_of_step (M := machine c R) hs' hrun, ?_⟩
      · simp only [arrivals, List.filterMap_cons] at harr ⊢
        rw [harr]
      · intro e' h'
        rcases List.mem_cons.mp h' with rfl | h'
        · exact List.mem_cons_self ..
        · exact List.mem_cons_of_mem _ (hmem e' h')
      · rcases hcase with ⟨h1, h2, h3⟩ | ⟨h1, h2, h3⟩
        · obtain ⟨before, after, rfl, h3⟩ := h3
          refine .inl ⟨h1, h2, w₁ ++ before, after, by simp [hw], ?_⟩
          rw [List.cons.inj h3 |>.2]
          simp
        · exact .inr ⟨h1, h2, by rw [hw, h3]⟩

/-! ## The same machine -/

def serverSide (c : Cfg) : Mealy (Core α) (Ev α) (Out α) := machine c (Server.servingRequest c)

def clientSide (c : Cfg) : Mealy (Core α) (Ev α) (Out α) := machine c (Client.clientServingRequest c)

def serverStart (c : Cfg) : Core α := start c (Server.servingRequest c)

def clientStart (c : Cfg) : Core α := start c (Client.clientServingRequest c)

def initials (c : Cfg) : List (Ev α) := if c.kind.input then [.initial] else []

def initialGrant (c : Cfg) : List (Out α) := if c.kind.input then [.back (.credit c.window)] else []

/-- The initial StreamCredit, as long as it is to come. -/
def due (c : Cfg) (k : Core α) : List (Out α) := if k.pc.called then [] else [.back (.credit c.window)]

/-- Open, half-closed or retired alike, with the same values handed to the handler and the same
    state of its context. -/
structure Alike (s t : Core α) : Prop where
  status : s.status = t.status
  got : s.got = t.got
  inb : s.inb = t.inb
  cancelled : s.cancelled = t.cancelled

theorem alike_of_quiet {s t : Core α} (h : t.quiet = s.quiet ∨ t.quiet = s.quiet.granted) : Alike s t := by
  have hlive : t.quiet.live = s.quiet.live := h.elim (congrArg Core.live) (congrArg Core.live)
  have hinb : t.quiet.inb = s.quiet.inb := h.elim (congrArg Core.inb) (congrArg Core.inb)
  have hctx : t.quiet.cancelled = s.quiet.cancelled := h.elim (congrArg Core.cancelled) (congrArg Core.cancelled)
  simp only [Core.quiet] at hlive hinb hctx
  refine ⟨?_, ?_, hinb.symm, hctx.symm⟩
  · rw [Core.status, Core.status, Core.inClosed, Core.inClosed, hlive, hinb]
  · rw [Core.got, Core.got, hinb]

theorem start_quiet (c : Cfg) : (clientStart c : Core α).quiet = (serverStart c).quiet := by
  simp only [clientStart, serverStart, start, inbound_eq]

theorem server_quiet (c : Cfg) (es : List (Ev α)) :
    ((serverSide c).run (serverStart c) es).map (Mealy.image Core.quiet quietOut) =
      (machine c (Server.servingRequest c).quiet).run (serverStart c).quiet es :=
  Mealy.run_map (fun k e => step_quiet c _ k e) es _

theorem client_quiet (c : Cfg) (es : List (Ev α)) :
    ((clientSide c).run (clientStart c) es).map (Mealy.image Core.quiet quietOut) =
      (machine c (Client.clientServingRequest c).quiet).run (serverStart c).quiet es := by
  rw [← start_quiet]
  exact Mealy.run_map (fun k e => step_quiet c _ k e) es _

/-- A run of the quiet client is one of the client's. -/
theorem client_of_quiet {c : Cfg} {es : List (Ev α)} {r : Core α × List (Out α)}
    (h : (machine c (Client.clientServingRequest c).quiet).run (serverStart c).quiet es = some r) :
    ∃ t w, (clientSide c).run (clientStart c) es = some (t, w) ∧ t.quiet = r.1 ∧ w.map quietOut = r.2 := by
  rw [← client_quiet] at h
  obtain ⟨⟨t, w⟩, hrun, rfl⟩ := Option.map_eq_some_iff.mp h
  exact ⟨t, w, hrun, rfl, rfl⟩

/-- The client grants first and goes on as the server does behind its grant. -/
theorem client_initial {c : Cfg} {es : List (Ev α)} {t : Core α} {w : List (Out α)} (hk : k.pc = .granting)
    (hl : ∀ e ∈ es, legal c.kind e)
    (h : (machine c (Server.servingRequest c).quiet).run k.granted es = some (t, w)) :
    (machine c (Client.clientServingRequest c).quiet).run k (.initial :: es) = some (t,
      .back (.credit c.window) :: w) := by
  have hs : (machine c (Client.clientServingRequest c).quiet).step k .initial = some (k.granted,
    [.back (.credit c.window)]) := by
    simp only [machine, step, hk, Responder.quiet, inbound_eq]
    rfl
  exact Mealy.run_of_step hs (run_called c es _ _ hl rfl h)

theorem responders_mirror (c : Cfg) (es : List (Ev α)) (hl : ∀ e ∈ es, legal c.kind e) :
    (∀ t w, (clientSide c).run (clientStart c) es = some (t, w) →
      ∃ s w', (serverSide c).run (serverStart c) es = some (s, w') ∧ w'.map quietOut = w.map quietOut ∧ Alike s t) ∧
    (∀ s w, (serverSide c).run (serverStart c) es = some (s, w) →
      ∃ es' t w', arrivals es' = arrivals es ∧ ((initials c).IsPrefix es → es' = es) ∧
        (clientSide c).run (clientStart c) es' = some (t, w') ∧
        Delayed (initialGrant c) ((w ++ due c s).map quietOut) (w'.map quietOut) ∧ Alike s t) := by
  refine ⟨fun t w ht => ?_, fun s w hs => ?_⟩
  · have hq := client_quiet c es
    rw [ht] at hq
    have hs := run_mono c es _ _ hl hq.symm
    rw [← server_quiet] at hs
    obtain ⟨⟨s, w'⟩, hrun, himg⟩ := Option.map_eq_some_iff.mp hs
    simp only [Mealy.image, Prod.mk.injEq] at himg
    exact ⟨s, w', hrun, himg.2, alike_of_quiet (.inl himg.1.symm)⟩
  · have hq := server_quiet c es
    rw [hs] at hq
    have hq := hq.symm
    have hcalled : s.quiet.pc.called = s.pc.called := called_quiet s.pc
    cases hin : c.kind.input with
    | false =>
      have hk : (serverStart c : Core α).quiet.pc.called = true :=
        by simp [serverStart, start, Core.quiet, hin, Pc.quiet, Pc.called]
      obtain ⟨t, w', ht, htq, hw⟩ := client_of_quiet (run_called c es _ _ hl hk hq)
      have hdue : due c s = [] := if_pos (hcalled.symm.trans (called_run c _ es _ _ hk hq))
      refine ⟨es, t, w', rfl, fun _ => rfl, ht, ?_, alike_of_quiet (.inl htq)⟩
      rw [hdue, List.append_nil, hw, initialGrant, if_neg (by simp [hin])]
      exact ⟨[], _, rfl, rfl⟩
    | true =>
      have hk : (serverStart c : Core α).quiet.pc = .granting :=
        by simp [serverStart, start, Core.quiet, hin, Pc.quiet]
      have hini : (initials c : List (Ev α)) = [.initial] := if_pos hin
      have hgrant : (initialGrant c : List (Out α)) = [.back (.credit c.window)] := if_pos hin
      by_cases hpre : (initials c).IsPrefix es
      · -- the grant comes first anyway
        obtain ⟨es₀, rfl⟩ := hpre
        rw [hini, List.singleton_append] at hq hl ⊢
        obtain ⟨k₁, w₁, w₂, hst, hr, hw₂⟩ := Mealy.run_cons hq
        simp only [machine, step, hk, Option.some.injEq, Prod.mk.injEq] at hst
        obtain ⟨rfl, rfl⟩ := hst
        have hrun := client_initial hk (fun e he => hl e (List.mem_cons_of_mem _ he)) hr
        obtain ⟨t, w', ht, htq, hw⟩ := client_of_quiet hrun
        have hdue : due c s = [] := if_pos (hcalled.symm.trans (called_run c _ es₀ _ _ rfl hr))
        refine ⟨_, t, w', rfl, fun _ => rfl, ht, ?_, alike_of_quiet (.inl htq)⟩
        rw [hdue, List.append_nil, hw]
        dsimp only [Mealy.image] at hw₂
        rw [hw₂, hgrant]
        exact ⟨[], w₂, rfl, rfl⟩
      · obtain ⟨es', k', w₂, harr, hmem, hrun, hcase⟩ :=
          initial_first c (Server.servingRequest c).quiet rfl es _ _ _ hk hq
        obtain ⟨t, w', ht, htq, hw⟩ := client_of_quiet (client_initial hk (fun e he => hl e (hmem e he)) hrun)
        refine ⟨.initial :: es', t, w', harr, fun h => absurd h hpre, ht, ?_, ?_⟩
        · rw [hw, hgrant]
          rcases hcase with ⟨hc, -, hdel⟩ | ⟨hc, -, rfl⟩
          · rw [due, if_pos (hcalled.symm.trans hc), List.append_nil]
            exact hdel
          · have hn : s.pc.called = false := hcalled.symm.trans (by rw [show s.quiet.pc = .granting from hc]; rfl)
            rw [due, if_neg (by simp [hn]), List.map_append]
            exact ⟨_, [], (List.append_nil _).symm, by rw [List.append_nil]; rfl⟩
        · rcases hcase with ⟨-, rfl, -⟩ | ⟨-, rfl, -⟩
          · exact alike_of_quiet (.inl htq)
          · exact alike_of_quiet (.inr htq)

theorem two_slots : (1 : Int) ≤ 2 := by decide

def twoSlots : Cfg := ⟨.chat, 5, "echo", 2, two_slots, 2, rfl, id⟩

/-- The handler answers, and the peer sends three values against a credit of two. -/
def flooded : List (Ev Nat) :=
  [.initial, .returns none, .go, .arrive (.credit 1), .serve, .recv (.data 9), .go, .go, .go,
    .arrive (.value (.data 1)), .serve, .serve,
    .arrive (.value (.data 2)), .serve, .serve, .arrive (.value (.data 3)), .serve, .serve, .serve, .serve, .serve]

theorem responders_mirror_flooded :
    ∃ s t w w', (serverSide twoSlots).run (serverStart twoSlots) flooded = some (s, w') ∧
    (clientSide twoSlots).run (clientStart twoSlots) flooded = some (t, w) ∧ t.status = .retired ∧
    w.map quietOut = [.back (.credit 2), .frame .ready, .frame (.value (.data 9)),
      .back (.error ⟨.resourceExhausted, ""⟩)] ∧
    w'.map quietOut = w.map quietOut ∧ Alike s t := by
  have hrun : ((clientSide twoSlots).run (clientStart twoSlots) flooded).any (fun r => decide (r.1.status = .retired ∧
      r.2.map quietOut = [.back (.credit 2), .frame .ready, .frame (.value (.data 9)),
        .back (.error ⟨.resourceExhausted, ""⟩)])) = true := by
    decide +kernel
  have hl : ∀ e ∈ flooded, legal twoSlots.kind e := by simp [flooded, legal, twoSlots, Kind.input, Kind.output]
  cases hc : (clientSide twoSlots).run (clientStart twoSlots) flooded with
  | none =>
    rw [hc] at hrun
    cases hrun
  | some r =>
    rw [hc] at hrun
    obtain ⟨hst, hw⟩ := of_decide_eq_true hrun
    obtain ⟨s, w', hs, hww, ha⟩ := (responders_mirror twoSlots flooded hl).1 r.1 r.2 hc
    exact ⟨s, r.1, r.2, w', hs, rfl, hst, hw, hww, ha⟩

end ValueRpc.Stream.Responders
