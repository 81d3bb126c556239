/-
  ValueRpc.Link.Loops — the four loops a client and a server share a connection with, and
  the two queues between them (`valueclient/connection.go`: `requestLoop`, `responseLoop`,
  `SendRequest`; `valueserver/serving_client.go`: `sender`, `send`, `processRequest`,
  `serveNewRequest`; `valueclient/client.go`: `getResponseHandler`, `serveInboundCall`,
  `reply`; `valueclient/serving.go`: `serveInboundStream`; `valuerpc/transport_mem.go`).

  The transport is the in-memory one: a write ends when the peer reads. Each end has
  - a bounded queue (`reqCh`, `outgoingQueue`), which any goroutine sends to (`send`);
  - a loop that takes a frame from it and writes it (`requestLoop`, `sender`): `take`;
  - a loop that reads (`responseLoop`, the read loop of `handleConnection`): `read`. What it
    does with a frame may end with a send of its own to the queue, which blocks the loop
    while the queue is full (`reply`): the server rejects a request over its limit, the
    client rejects a reverse request or grants a reverse stream its window, and either end
    reports a value that overran its buffer.
  Handlers, callers and streams come and go as they like: they may send any frame at any
  time, a record may enter a table or leave it (`record`), and a handler may end (`finish`).

  - `loops_never_deadlock`: while both read loops are in the middle of such a send, one of
    the queues keeps room: then the four loops are never all blocked, and unless they have
    nothing to do one of them can go on.
  - `rejections_deadlock`: without that, rejections on both ends block all four for good.
-/

import ValueRpc.Lib.Runs
import ValueRpc.Core.Error
import ValueRpc.Route.CrossTalk
import ValueRpc.Stream.Endpoint

namespace ValueRpc.Link

open Function ValueRpc.Lib ValueRpc.Core ValueRpc.Route

variable {α : Type}

/-- A message; `args` is nil where the source has none. -/
structure Frame (α : Type) where
  mt : MessageType
  reqId : Int
  name : Option String
  args : Option α
  error : Option Error
  credit : Int
  deriving DecidableEq, Repr

def newRequest (kind : Kind) (id : Int) (name : String) (args : Option α) : Frame α :=
  ⟨kind.request, id, some name, args, none, 0⟩

def newFunctionError (id : Int) (code : Code) (message : String) : Frame α :=
  ⟨.errorResponse, id, none, none, some ⟨code, message⟩, 0⟩

def newStreamCredit (id credit : Int) : Frame α := ⟨.streamCredit, id, none, none, none, credit⟩

def newCancelRequest (id : Int) : Frame α := ⟨.cancelRequest, id, none, none, none, 0⟩

/-- A function the client registered; `args` is what `Verify` answers. -/
structure ClientFunction (α : Type) where
  ft : Kind
  args : Option α → Bool

structure Cfg where
  sendingCap : Nat
  outgoingQueueCap : Nat
  maxConcurrentRequests : Int
  maxPending : Int

structure Half (α : Type) where
  queue : List (Frame α)
  /-- The writing loop is in `WriteMessage`. -/
  writing : Option (Frame α)
  /-- The reading loop is in a send of its own. -/
  replying : Option (Frame α)
  deriving DecidableEq, Repr

structure St (α : Type) where
  half : Side → Half α
  functionMap : String → Option (ClientFunction α)
  /-- What the record under an id is of. -/
  maps : Tab × Int → Option Kind
  inFlight : Int

def start : St α where
  half := fun _ => ⟨[], none, none⟩
  functionMap := fun _ => none
  maps := fun _ => none
  inFlight := 0

def St.setHalf (s : St α) (d : Side) (h : Half α) : St α := { s with half := update s.half d h }
def St.put (s : St α) (t : Tab) (id : Int) (kind : Option Kind) : St α := { s with maps := update s.maps (t, id) kind }

/-! ## Queues -/

/-- A send to a channel: into its buffer, or to the writing loop when that waits at an
    unbuffered one. -/
def Half.enqueue (cap : Nat) (h : Half α) (f : Frame α) : Option (Half α) :=
  if h.queue.length < cap then some { h with queue := h.queue ++ [f] }
  else if h.queue = [] ∧ h.writing = none then some { h with writing := some f }
  else none

def sendRequest (c : Cfg) (h : Half α) (f : Frame α) : Option (Half α) := h.enqueue c.sendingCap f

def send (c : Cfg) (h : Half α) (f : Frame α) : Option (Half α) := h.enqueue c.outgoingQueueCap f

def Cfg.enqueue (c : Cfg) : Side → Half α → Frame α → Option (Half α)
  | .client => sendRequest c
  | .server => send c

def Half.take (h : Half α) : Option (Half α) :=
  match h.writing, h.queue with
  | none, f :: rest => some { h with queue := rest, writing := some f }
  | _, _ => none

/-! ## The server's read loop

Each function gives the session after it and what the loop sends itself. `overran` says
that the record's pump had no room for the value. -/

def handleInbound (s : St α) (kind : Kind) (f : Frame α) (overran : Bool) : St α × Option (Frame α) :=
  match f.mt with
  | .streamValue =>
    if overran && kind != .putStream then
      (s.put .pendingStreams f.reqId none, some (newFunctionError f.reqId .resourceExhausted
        ("reverse stream " ++ toString f.reqId ++ " truncated: peer exceeded flow-control credit")))
    else (s, none)
  | .streamEnd =>
    -- a chat's record stays until the put side is done too
    if kind = .chat then (s, none) else (s.put .pendingStreams f.reqId none, none)
  | .errorResponse => (s.put .pendingStreams f.reqId none, none)
  | _ => (s, none)

/-- `serveRunningRequest`; a get-stream has no pump. -/
def serveRunningRequest (s : St α) (kind : Kind) (f : Frame α) (overran : Bool) : St α × Option (Frame α) :=
  match f.mt with
  | .cancelRequest => (s.put .requestMap f.reqId none, none)
  | .streamValue =>
    if overran && kind != .getStream then
      (s.put .requestMap f.reqId none, some (newFunctionError f.reqId .resourceExhausted
        ("inbound stream " ++ toString f.reqId ++ " truncated: client exceeded flow-control credit")))
    else (s, none)
  | .streamEnd => if kind = .putStream then (s.put .requestMap f.reqId none, none) else (s, none)
  | _ => (s, none)

def serveNewRequest (c : Cfg) (s : St α) (f : Frame α) : St α × Option (Frame α) :=
  match f.mt.kind? with
  | none => (s, none)
  | some _ =>
    let n := s.inFlight + 1
    if 0 < c.maxConcurrentRequests ∧ c.maxConcurrentRequests < n then
      (s, some (newFunctionError f.reqId .resourceExhausted
        ("server busy: too many concurrent requests (max " ++ toString c.maxConcurrentRequests ++ ")")))
    else ({ s with inFlight := n }, none)

def processRequest (c : Cfg) (s : St α) (f : Frame α) (overran : Bool) : St α × Option (Frame α) :=
  match s.maps (.pendingStreams, f.reqId) with
  | some kind => handleInbound s kind f overran
  | none =>
    -- `completePendingCall`: the call's channel has room for its one result
    if f.mt = .functionResponse ∨ f.mt = .errorResponse then (s.put .pendingCalls f.reqId none, none)
    else
      match s.maps (.requestMap, f.reqId) with
      | some kind => serveRunningRequest s kind f overran
      | none => if f.mt = .cancelRequest then (s, none) else serveNewRequest c s f

/-! ## The client's response loop -/

/-- `serveInboundCall`: the handler's own reply comes from its goroutine. -/
def serveInboundCall (s : St α) (f : Frame α) : St α × Option (Frame α) :=
  match f.name with
  | none => (s, some (newFunctionError f.reqId .invalidArgument "function name field not found"))
  | some name =>
    match s.functionMap name with
    | none => (s, some (newFunctionError f.reqId .notFound ("function not found " ++ name)))
    | some cf =>
      if cf.ft ≠ .unary then (s,
        some (newFunctionError f.reqId .invalidArgument ("function '" ++ name ++ "' is not unary")))
      else if !cf.args f.args then
        (s, some (newFunctionError f.reqId .invalidArgument ("function '" ++ name ++ "' invalid args")))
      else (s, none)

def serveInboundStream (c : Cfg) (s : St α) (kind : Kind) (f : Frame α) : St α × Option (Frame α) :=
  match f.name with
  | none => (s, some (newFunctionError f.reqId .invalidArgument "function name field not found"))
  | some name =>
    match s.functionMap name with
    | none => (s, some (newFunctionError f.reqId .notFound ("function not found " ++ name)))
    | some cf =>
      if cf.ft ≠ kind then
        (s, some (newFunctionError f.reqId .invalidArgument ("function '" ++ name ++ "' wrong stream type")))
      else if !cf.args f.args then
        (s, some (newFunctionError f.reqId .invalidArgument ("stream '" ++ name ++ "' invalid args")))
      else
        (s.put .servingMap f.reqId (some kind),
          -- `grantInitialInbound`, from the loop too
          if kind = .getStream then none else some (newStreamCredit f.reqId (Stream.orDefault c.maxPending)))

def serveRunning (s : St α) (kind : Kind) (f : Frame α) (overran : Bool) : St α × Option (Frame α) :=
  match f.mt with
  | .cancelRequest => (s.put .servingMap f.reqId none, none)
  | .streamValue =>
    if overran && kind != .getStream then
      (s.put .servingMap f.reqId none, some (newFunctionError f.reqId .resourceExhausted
        ("inbound stream " ++ toString f.reqId ++ " truncated: peer exceeded flow-control credit")))
    else (s, none)
  | .streamEnd => if kind = .chat then (s, none) else (s.put .servingMap f.reqId none, none)
  | _ => (s, none)

/-- A statement of `processResponse`; `overran` is a `notifyResult` that returned false, the first
    time. -/
def runs (kind : Kind) (f : Frame α) (overran : Bool) (r : St α × Option (Frame α)) : Statement →
    St α × Option (Frame α)
  | .delete => (r.1.put .requestCtxMap f.reqId none, r.2)
  | .tryGetClose => if kind = .chat then r else (r.1.put .requestCtxMap f.reqId none, r.2)
  | .cancelOnce => if overran then (r.1, some (newCancelRequest f.reqId)) else r
  | _ => r

def processResponse (s : St α) (kind : Kind) (f : Frame α) (overran : Bool) : St α × Option (Frame α) :=
  (Core.processResponse f.mt).foldl (runs kind f overran) (s, none)

def getResponseHandler (c : Cfg) (s : St α) (f : Frame α) (overran : Bool) : St α × Option (Frame α) :=
  match f.mt.kind? with
  | some .unary => serveInboundCall s f
  | some kind => serveInboundStream c s kind f
  | none =>
    match s.maps (.servingMap, f.reqId) with
    | some kind => serveRunning s kind f overran
    | none =>
      match s.maps (.requestCtxMap, f.reqId) with
      | some kind => processResponse s kind f overran
      | none => (s, none)

/-! ## Steps -/

def handle (c : Cfg) : Side → St α → Frame α → Bool → St α × Option (Frame α)
  | .server => processRequest c
  | .client => getResponseHandler c

inductive Ev (α : Type) where
  | send (d : Side) (f : Frame α)
  | take (d : Side)
  | read (d : Side) (overran : Bool)
  | reply (d : Side)
  | finish
  | record (t : Tab) (id : Int) (kind : Option Kind)
  | addFunction (name : String) (cf : ClientFunction α)

def Ev.ofLoop : Ev α → Bool
  | .take _ | .read _ _ | .reply _ => true
  | _ => false

def step (c : Cfg) (s : St α) : Ev α → Option (St α)
  | .send d f => (c.enqueue d (s.half d) f).map (s.setHalf d)
  | .take d => (s.half d).take.map (s.setHalf d)
  | .read d overran =>
    match (s.half d).replying, (s.half d.other).writing with
    | none, some f =>
      let r := handle c d s f overran
      some ((r.1.setHalf d.other { s.half d.other with writing := none }).setHalf d { s.half d with replying := r.2 })
    | _, _ => none
  | .reply d =>
    match (s.half d).replying with
    | some f => (c.enqueue d (s.half d) f).map fun h => s.setHalf d { h with replying := none }
    | none => none
  | .finish => if 0 < s.inFlight then some { s with inFlight := s.inFlight - 1 } else none
  | .record t id kind => some (s.put t id kind)
  | .addFunction name cf => some { s with functionMap := update s.functionMap name (some cf) }

def sys (c : Cfg) : Sys (St α) (Ev α) := ⟨fun s => s = start, step c⟩

/-! ## Blocked loops -/

def Cfg.cap (c : Cfg) : Side → Nat
  | .client => c.sendingCap
  | .server => c.outgoingQueueCap

def Half.Room (cap : Nat) (h : Half α) : Prop := h.queue.length < cap ∨ h.queue = [] ∧ h.writing = none

instance (cap : Nat) (h : Half α) [DecidableEq α] : Decidable (h.Room cap) := inferInstanceAs (Decidable (_ ∨ _))

/-- The reading loop is in a send of its own and the queue is full. -/
def readBlocked (c : Cfg) (s : St α) (d : Side) : Prop := (s.half d).replying ≠ none ∧ ¬ (s.half d).Room (c.cap d)

/-- The writing loop writes and the peer does not read. -/
def writeBlocked (s : St α) (d : Side) : Prop := (s.half d).writing ≠ none ∧ (s.half d.other).replying ≠ none

def Deadlocked (c : Cfg) (s : St α) : Prop := ∀ d, readBlocked c s d ∧ writeBlocked s d

/-- The four loops wait for something to do. -/
def AtRest (s : St α) : Prop := ∀ d, s.half d = ⟨[], none, none⟩

/-- With both reading loops in a send of their own, one of the queues keeps room. -/
def keepsRoom (c : Cfg) (s : St α) : Ev α → Prop
  | .read d overran =>
    ∀ f ∈ (s.half d.other).writing, (handle c d s f overran).2 ≠ none → (s.half d.other).replying ≠ none →
      (s.half d).Room (c.cap d) ∨ (s.half d.other).Room (c.cap d.other)
  | .send d _ =>
    (s.half d).replying ≠ none → (s.half d.other).replying ≠ none →
      (s.half d).queue.length + 1 < c.cap d ∨ (s.half d.other).Room (c.cap d.other)
  | _ => True

instance [DecidableEq α] (c : Cfg) (s : St α) : ∀ e, Decidable (keepsRoom c s e)
  | .read _ _ => inferInstanceAs (Decidable (∀ f ∈ _, _))
  | .send _ _ => inferInstanceAs (Decidable (_ → _ → _))
  | .take _ => .isTrue trivial
  | .reply _ => .isTrue trivial
  | .finish => .isTrue trivial
  | .record _ _ _ => .isTrue trivial
  | .addFunction _ _ => .isTrue trivial

variable {c : Cfg} {s t : St α} {d : Side} {h h' : Half α} {f : Frame α} {cap : Nat}

/-! ## What each part does to the loops -/

@[simp] theorem setHalf_half (s : St α) (d : Side) (h : Half α) :
    (s.setHalf d h).half = update s.half d h := rfl

@[simp] theorem other_other (d : Side) : d.other.other = d := by cases d <;> rfl

theorem enqueue_eq (c : Cfg) (d : Side) (h : Half α) (f : Frame α) :
    c.enqueue d h f = h.enqueue (c.cap d) f := by
  cases d <;> rfl

theorem enqueue_none (hr : ¬ h.Room cap) : h.enqueue cap f = none := by
  obtain ⟨hlt, hidle⟩ := not_or.mp hr
  rw [Half.enqueue, if_neg hlt, if_neg hidle]

theorem enqueue_isSome (hr : h.Room cap) : (h.enqueue cap f).isSome = true := by
  unfold Half.enqueue
  split
  · rfl
  · rename_i hlt
    rw [if_pos (hr.resolve_left hlt)]
    rfl

/-- A send leaves the reading loop where it is, and room where there was room for two. -/
theorem enqueue_spec (h0 : h.enqueue cap f = some h') :
    h'.replying = h.replying ∧ (h.queue.length + 1 < cap → h'.Room cap) := by
  unfold Half.enqueue at h0
  split at h0
  · cases h0
    refine ⟨rfl, fun hlt => .inl ?_⟩
    rw [List.length_append]
    exact hlt
  · rename_i hfull
    split at h0
    · cases h0
      exact ⟨rfl, fun hlt => absurd (Nat.lt_of_succ_lt hlt) hfull⟩
    · cases h0

theorem take_spec (cap : Nat) (h0 : h.take = some h') :
    h'.replying = h.replying ∧ (h.Room cap → h'.Room cap) := by
  unfold Half.take at h0
  split at h0
  · rename_i f rest hw hq
    cases h0
    refine ⟨rfl, fun hr => .inl ?_⟩
    rcases hr with hlt | ⟨hnil, -⟩
    · rw [hq, List.length_cons] at hlt
      exact Nat.lt_of_succ_lt hlt
    · rw [hq] at hnil
      cases hnil
  · cases h0

/-! ## Some loop can go on -/

/-- With both reading loops in a send of their own, there is room at one of the ends. -/
def RoomAt (c : Cfg) (s : St α) (d : Side) : Prop :=
  (s.half d).replying ≠ none → (s.half d.other).replying ≠ none →
    (s.half d).Room (c.cap d) ∨ (s.half d.other).Room (c.cap d.other)

/-- It does not matter from which end one looks. -/
theorem RoomAt.all (hr : RoomAt c s d) (x : Side) : RoomAt c s x := by
  by_cases hx : x = d
  · rw [hx]
    exact hr
  · rw [Side.eq_other hx]
    intro h1 h2
    rw [other_other] at h2 ⊢
    exact (hr h2 h1).symm

theorem RoomAt.congr (hr : RoomAt c s d) (hh : t.half = s.half) : RoomAt c t d := by
  unfold RoomAt at hr ⊢
  rw [hh]
  exact hr

theorem roomAt_step {e : Ev α} (hi : ∀ d, RoomAt c s d) (ho : keepsRoom c s e) (h : step c s e = some t) :
    ∀ d, RoomAt c t d := by
  cases e with
  | send d f =>
    obtain ⟨h', henq, rfl⟩ := Option.map_eq_some_iff.mp h
    rw [enqueue_eq] at henq
    obtain ⟨hrep, hroom⟩ := enqueue_spec henq
    refine RoomAt.all (d := d) fun h1 h2 => ?_
    simp only [setHalf_half, update_self, update_of_ne d.ne_other.symm] at h1 h2 ⊢
    rw [hrep] at h1
    exact (ho h1 h2).imp_left hroom
  | take d =>
    obtain ⟨h', htake, rfl⟩ := Option.map_eq_some_iff.mp h
    obtain ⟨hrep, hroom⟩ := take_spec (c.cap d) htake
    refine RoomAt.all (d := d) fun h1 h2 => ?_
    simp only [setHalf_half, update_self, update_of_ne d.ne_other.symm] at h1 h2 ⊢
    rw [hrep] at h1
    exact (hi d h1 h2).imp_left hroom
  | read d overran =>
    simp only [step] at h
    split at h
    · rename_i f hrep hw
      cases h
      refine RoomAt.all (d := d) fun h1 h2 => ?_
      simp only [setHalf_half, update_self, update_of_ne d.ne_other.symm] at h1 h2 ⊢
      -- the peer's write is over, which can only make room there
      exact (ho f hw h1 h2).imp id fun hroom => hroom.imp id fun hidle => ⟨hidle.1, rfl⟩
    · cases h
  | reply d =>
    simp only [step] at h
    split at h
    · obtain ⟨h', henq, rfl⟩ := Option.map_eq_some_iff.mp h
      refine RoomAt.all (d := d) fun h1 _ => ?_
      simp only [setHalf_half, update_self] at h1
      exact absurd rfl h1
    · cases h
  | finish =>
    simp only [step] at h
    split at h
    · cases h
      exact fun d => (hi d).congr rfl
    · cases h
  | record tab id kind =>
    cases h
    exact fun d => (hi d).congr rfl
  | addFunction name cf =>
    cases h
    exact fun d => (hi d).congr rfl

theorem roomAt_reach (h : (sys c).Reach (keepsRoom c) s) : ∀ d, RoomAt c s d := by
  refine h.inv (P := fun s => ∀ d, RoomAt c s d) (fun s hs => ?_) fun _ _ _ hi ho hs => roomAt_step hi ho hs
  cases hs
  exact fun d h1 => absurd rfl h1

theorem can_read (hr : (s.half d).replying = none) (hw : (s.half d.other).writing = some f) :
    (step c s (.read d false)).isSome = true := by
  simp only [step, hr, hw, Option.isSome_some]

theorem can_take {rest : List (Frame α)} (hw : (s.half d).writing = none) (hq : (s.half d).queue = f :: rest) :
    (step c s (.take d)).isSome = true := by
  simp only [step, Half.take, hw, hq, Option.map_some, Option.isSome_some]

theorem can_reply (hr : (s.half d).replying = some f) (hroom : (s.half d).Room (c.cap d)) :
    (step c s (.reply d)).isSome = true := by
  simp only [step, hr, enqueue_eq, Option.isSome_map, enqueue_isSome hroom]

/-- An end whose frames are being read goes on, or has nothing to do. -/
theorem goes_on (hr : (s.half d.other).replying = none) :
    s.half d = ⟨[], none, none⟩ ∨ ∃ e : Ev α, e.ofLoop = true ∧ (step c s e).isSome = true := by
  cases hw : (s.half d).writing with
  | some f => exact .inr ⟨.read d.other false, rfl, can_read hr (by rw [other_other]; exact hw)⟩
  | none =>
    cases hq : (s.half d).queue with
    | cons f rest => exact .inr ⟨.take d, rfl, can_take hw hq⟩
    | nil =>
      cases hrep : (s.half d).replying with
      | some f => exact .inr ⟨.reply d, rfl, can_reply hrep (.inr ⟨hq, hw⟩)⟩
      | none =>
        refine .inl ?_
        calc s.half d = ⟨(s.half d).queue, (s.half d).writing, (s.half d).replying⟩ := rfl
          _ = ⟨[], none, none⟩ := by rw [hq, hw, hrep]

theorem progress (hi : ∀ d, RoomAt c s d) :
    AtRest s ∨ ∃ e : Ev α, e.ofLoop = true ∧ (step c s e).isSome = true := by
  by_cases hboth : ∀ d, (s.half d).replying ≠ none
  · have hreply : ∀ d, (s.half d).Room (c.cap d) → ∃ e : Ev α, e.ofLoop = true ∧ (step c s e).isSome = true := by
      intro d hroom
      obtain ⟨f, hf⟩ := Option.ne_none_iff_exists'.mp (hboth d)
      exact ⟨.reply d, rfl, can_reply hf hroom⟩
    exact .inr ((hi .client (hboth _) (hboth _)).elim (hreply _) (hreply _))
  · obtain ⟨d, hd⟩ := not_forall.mp hboth
    have hd := not_not.mp hd
    -- the other end is read; if it rests, so does its reading loop, and this end is read too
    rcases goes_on (c := c) (s := s) (d := d.other) (by rw [other_other]; exact hd) with hrest | hgo
    · rcases goes_on (c := c) (s := s) (d := d) (by rw [hrest]) with hrest' | hgo
      · refine .inl fun x => ?_
        by_cases hx : x = d
        · rw [hx]
          exact hrest'
        · rw [Side.eq_other hx]
          exact hrest
      · exact .inr hgo
    · exact .inr hgo

/-! ## A deadlock is for good -/

theorem Deadlocked.stuck (hd : Deadlocked c s) {e : Ev α} (he : e.ofLoop = true) : step c s e = none := by
  cases e with
  | take d =>
    obtain ⟨f, hf⟩ := Option.ne_none_iff_exists'.mp (hd d).2.1
    simp only [step, Half.take, hf, Option.map_none]
  | read d overran =>
    obtain ⟨f, hf⟩ := Option.ne_none_iff_exists'.mp (hd d).1.1
    simp only [step, hf]
  | reply d =>
    obtain ⟨f, hf⟩ := Option.ne_none_iff_exists'.mp (hd d).1.1
    simp only [step, hf, enqueue_eq, enqueue_none (hd d).1.2, Option.map_none]
  | send d f => cases he
  | finish => cases he
  | record tab id kind => cases he
  | addFunction name cf => cases he

theorem Deadlocked.congr (hd : Deadlocked c s) (hh : t.half = s.half) : Deadlocked c t := by
  unfold Deadlocked readBlocked writeBlocked at hd ⊢
  rw [hh]
  exact hd

theorem Deadlocked.step {e : Ev α} (hd : Deadlocked c s) (h : step c s e = some t) : Deadlocked c t := by
  cases e with
  | take d =>
    rw [hd.stuck rfl] at h
    cases h
  | read d overran =>
    rw [hd.stuck rfl] at h
    cases h
  | reply d =>
    rw [hd.stuck rfl] at h
    cases h
  | send d f =>
    simp only [Link.step, enqueue_eq, enqueue_none (hd d).1.2, Option.map_none] at h
    cases h
  | finish =>
    simp only [Link.step] at h
    split at h
    · cases h
      exact hd.congr rfl
    · cases h
  | record tab id kind =>
    cases h
    exact hd.congr rfl
  | addFunction name cf =>
    cases h
    exact hd.congr rfl

/-! ## The result -/

/-- The four loops are never all blocked, and one of them can go on unless all wait for work. -/
theorem loops_never_deadlock (c : Cfg) (s : St α) (hr : (sys c).Reach (keepsRoom c) s) :
    ¬ Deadlocked c s ∧ (AtRest s ∨ ∃ e : Ev α, e.ofLoop = true ∧ (step c s e).isSome = true) := by
  have hp := progress (roomAt_reach hr)
  refine ⟨fun hd => ?_, hp⟩
  rcases hp with hrest | ⟨e, he, hstep⟩
  · have hrep := (hd .client).1.1
    rw [hrest] at hrep
    exact hrep rfl
  · rw [hd.stuck he] at hstep
    cases hstep

def small : Cfg := ⟨1, 1, 1, 4⟩

def call (id : Int) : Frame Nat := newRequest .unary id "work" none

def reverseCall (id : Int) : Frame Nat := newRequest .unary id "missing" none

def firstServed : List (Ev Nat) := [.send .client (call 1), .take .client, .read .server false]

/-- The client sends two requests too many and the server two calls of a function the client
    does not have; both ends come to reject one with their queues empty. -/
def bothReject : List (Ev Nat) :=
  firstServed ++ ([.send .client (call 2), .take .client, .send .server (reverseCall (-1)), .take .server,
    .read .server false,
    .read .client false] : List (Ev Nat))

theorem loops_never_deadlock_bothReject : ∃ s : St Nat, (sys small).Reach (keepsRoom small) s ∧
    (s.half .client).replying = some (newFunctionError (-1) .notFound "function not found missing") ∧
    (s.half .server).replying = some
      (newFunctionError 2 .resourceExhausted "server busy: too many concurrent requests (max 1)") ∧
    ¬ Deadlocked small s ∧ ∃ e : Ev Nat, e.ofLoop = true ∧ (step small s e).isSome = true := by
  obtain ⟨s, hr, hc, hs⟩ := (sys small).reach_of_exec (keepsRoom small) (start : St Nat) rfl bothReject
    (P := fun s => (s.half .client).replying = some (newFunctionError (-1) .notFound "function not found missing") ∧
      (s.half .server).replying = some
        (newFunctionError 2 .resourceExhausted "server busy: too many concurrent requests (max 1)"))
    (by decide +kernel)
  obtain ⟨hd, hgo⟩ := loops_never_deadlock small s hr
  refine ⟨s, hr, hc, hs, hd, hgo.resolve_left fun hrest => ?_⟩
  rw [hrest] at hc
  cases hc

/-- As before, but callers and handlers fill both queues behind the two rejected frames. -/
def saturated : List (Ev Nat) :=
  firstServed ++ ([.send .client (call 2), .take .client, .send .client (call 3),
    .send .server (reverseCall (-1)), .take .server,
    .send .server (reverseCall (-2)), .read .client false, .take .server, .send .server (reverseCall (-3)),
      .read .server false, .take .client,
    .send .client (call 4)] : List (Ev Nat))

/-- All four loops are blocked, and stay so whatever happens. -/
theorem rejections_deadlock : ∃ s : St Nat, (sys small).Reach Sys.any s ∧ Deadlocked small s ∧
    ∀ t, (sys small).Steps Sys.any s t → Deadlocked small t ∧ ∀ e : Ev Nat,
      e.ofLoop = true → step small t e = none := by
  obtain ⟨s, hr, hc, hs⟩ := (sys small).reach_of_exec Sys.any (start : St Nat) rfl saturated
    (P := fun s => s.half .client = ⟨[call 4], some (call 3),
      some (newFunctionError (-1) .notFound "function not found missing")⟩ ∧
      s.half .server = ⟨[reverseCall (-3)], some (reverseCall (-2)),
        some (newFunctionError 2 .resourceExhausted "server busy: too many concurrent requests (max 1)")⟩)
    (by decide +kernel)
  have hd : Deadlocked small s := by
    intro d
    cases d <;> simp [readBlocked, writeBlocked, Half.Room, Side.other, Cfg.cap, small, hc, hs]
  refine ⟨s, hr, hd, fun t ht => ?_⟩
  have hdt := ht.keep (P := Deadlocked small) (fun _ _ _ h _ hstep => h.step hstep) hd
  exact ⟨hdt, fun e he => hdt.stuck he⟩

end ValueRpc.Link
