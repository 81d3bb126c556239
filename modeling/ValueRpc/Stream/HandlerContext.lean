/-
  ValueRpc.Stream.HandlerContext — the context of an incoming-stream handler at the end of
  its input (`valueserver/serving_request.go`: `incomingStreamEnd`; `valueclient/serving.go`:
  `serveRunning`, StreamEnd).

  The peer sends values by credit, then a StreamEnd; nothing is cancelled and the connection
  stays up. The read loop takes a StreamEnd in three steps: it ends the pump's input, drops the
  request from its map, and cancels the handler's context. The pump's goroutine and the
  handler go at their own pace meanwhile (`Inbound.act`), and the handler has come to the end
  of its input when it finds `inC` closed. `credit` is what the peer may still send, in its
  gate or under way.

  - `context_never_outlives`: for every responder, window, capacity and values sent there is a
    run that cancels the context before the handler has read the last value and the end.
  - `cancelled_before_input`: two of them, with nothing read.
-/

import Mathlib.Data.List.Induction
import ValueRpc.Lib.Runs
import ValueRpc.Stream.Inbound

namespace ValueRpc.Stream.HandlerContext

open ValueRpc.Core ValueRpc.Lib

variable {α : Type}

structure Cfg where
  /-- `put` is the server's `servingRequest`, `reversePut` the client's `clientServingRequest`. -/
  dir : Dir
  responder : dir.toInitiator = false
  requestId : Int
  incomingQueueCap : Nat
  maxPending : Int
  grow : Nat → Nat

inductive Loop where
  | idle
  /-- Behind `closeInboundChan`, before the request is dropped. -/
  | deleting
  /-- Before `cancelCtx`. -/
  | cancelling
  deriving DecidableEq, Repr

structure St (α : Type) where
  inb : Inbound α
  loop : Loop
  credit : Int
  sent : List (Value α)
  ended : Bool
  /-- The handler found `inC` closed. -/
  sawEnd : Bool
  cancelled : Bool
  deriving DecidableEq, Repr

def Cfg.setupInbound (c : Cfg) : Receiver α := c.dir.receiver c.requestId false c.incomingQueueCap c.maxPending

def Cfg.window (c : Cfg) : Int := c.dir.window c.maxPending

/-- The request is registered and the initial window granted. -/
def start (c : Cfg) : St α :=
  ⟨⟨c.setupInbound, [], false⟩, .idle, max (c.setupInbound : Receiver α).creditWindow 0, [], false, false, false⟩

inductive Ev (α : Type) where
  /-- The read loop takes a StreamValue with a payload, or a StreamEnd. -/
  | value (a : α)
  | streamEnd
  | loop
  /-- The pump's goroutine, or a read of the handler's. -/
  | act (a : Act)
  | readEnd
  deriving DecidableEq, Repr

def St.atEnd (s : St α) : Bool :=
  match s.inb.rx.pc, s.inb.rx.out with
  | .finished, [] => true
  | _, _ => false

def step (c : Cfg) (s : St α) : Ev α → Option (St α)
  | .value a =>
    if s.loop = .idle ∧ s.inb.rx.live = true ∧ s.ended = false ∧ 0 < s.credit then
      some { s with
        inb := { s.inb with rx := (c.dir.receive c.grow s.inb.rx (.value (.data a))).1 }
        credit := s.credit - 1
        sent := s.sent ++ [.data a] }
    else none
  | .streamEnd =>
    if s.loop = .idle ∧ s.inb.rx.live = true ∧ s.ended = false then
      some { s with inb := { s.inb with rx := s.inb.rx.closeInboundChan }, loop := .deleting, ended := true }
    else none
  | .loop =>
    match s.loop with
    | .idle => none
    | .deleting => some { s with inb := { s.inb with rx := { s.inb.rx with live := false } }, loop := .cancelling }
    | .cancelling => some { s with loop := .idle, cancelled := true }
  | .act a => (s.inb.act a).map fun r => { s with inb := r.1, credit := s.credit + (r.2.map Back.amount).sum }
  | .readEnd => if s.atEnd = true ∧ s.sawEnd = false then some { s with sawEnd := true } else none

def sys (c : Cfg) : Sys (St α) (Ev α) := ⟨fun s => s = start c, step c⟩

/-- The three steps are the frame handlers' StreamEnd. -/
theorem receive_streamEnd (c : Cfg) (r : Receiver α) (h : r.chat = false) :
    (c.dir.receive c.grow r (.fin .null)).1 = { r.closeInboundChan with live := false } := by
  have hc : r.closeInboundChan.chat = false := by
    unfold Receiver.closeInboundChan
    split <;> exact h
  have hresp := c.responder
  cases hd : c.dir with
  | put => simp [Dir.receive, serveRunningRequest, incomingStreamEnd, Value.neNull, h]
  | reversePut => simp [Dir.receive, serveRunning, Value.isData, hc]
  | get => rw [hd] at hresp; cases hresp
  | reverseGet => rw [hd] at hresp; cases hresp

/-- What is claimed of a stream: whatever the handler's pace, a cancelled context means that it
    received every value and the end of its input. -/
def Outlives (c : Cfg) (vs : List α) : Prop :=
  ∀ s, (sys c).Reach Sys.any s → s.sent = vs.map .data → s.cancelled = true → s.sawEnd = true ∧ s.inb.got = s.sent

/-! ## A handler that reads all but the last value -/

/-- The peer sent `vs`, the handler read them, and the goroutine waits for more. -/
structure CaughtUp (c : Cfg) (vs : List α) (s : St α) : Prop where
  loop : s.loop = .idle
  live : s.inb.rx.live = true
  open_ : s.ended = false ∧ s.sawEnd = false
  sent : s.sent = vs.map .data
  got : s.inb.got = s.sent
  waits : s.inb.rx.pc = .waiting ∧ s.inb.rx.out = []
  empty : s.inb.rx.pump.pending = [] ∧ 0 < s.inb.rx.pump.maxPending
  flows : s.inb.rx.pump.inputEnd = false ∧ s.inb.rx.pump.stopped = false ∧ s.inb.rx.pump.overflow = false
  window : s.inb.rx.creditWindow = c.window
  /-- Deliveries since the last grant, fewer than a grant takes. -/
  delivered : 0 ≤ s.inb.rx.delivered ∧ s.inb.rx.delivered < grantBatch c.window
  credit : s.credit + s.inb.rx.delivered = max c.window 0

variable {c : Cfg} {s : St α} {vs : List α}

theorem caughtUp_start (c : Cfg) : CaughtUp c [] (start c : St α) := by
  obtain ⟨cap, hrec⟩ := c.dir.receiver_eq (α := α) c.requestId false c.incomingQueueCap c.maxPending
  rw [c.responder, if_neg (by simp)] at hrec
  unfold start Cfg.setupInbound
  rw [hrec]
  exact
    { loop := rfl, live := rfl, open_ := ⟨rfl, rfl⟩, sent := rfl, got := rfl, waits := ⟨rfl, rfl⟩,
      empty := ⟨rfl, StreamPump.new_maxPending_pos _⟩, flows := ⟨rfl, rfl, rfl⟩, window := rfl,
      delivered := ⟨Int.le_refl 0, grantBatch_pos _⟩, credit := Int.add_zero _ }

def St.queued (s : St α) (p : StreamPump α) (a : α) : St α :=
  { s with
    inb := { s.inb with rx := { s.inb.rx with pump := p } }
    credit := s.credit - 1
    sent := s.sent ++ [.data a] }

/-- A handler that has caught up leaves the peer credit, and the next value is queued. -/
theorem CaughtUp.value (h : CaughtUp c vs s) (hw : 0 < c.window) (a : α) :
    ∃ p, (sys c).step s (.value a) = some (s.queued p a) ∧ p.pending = [.data a] ∧ 0 < p.maxPending ∧
      p.inputEnd = false ∧ p.stopped = false ∧ p.overflow = false := by
  obtain ⟨he, hs, ho⟩ := h.flows
  obtain ⟨hpend, hm⟩ := h.empty
  obtain ⟨p, hp, hpend', he', ho', hs', hm'⟩ :=
    StreamPump.push_ok c.grow (.data a) he hs (by rw [hpend]; exact hm)
  have hcredit : 0 < s.credit := by
    have := h.credit
    have := h.delivered
    have := grantBatch_le hw
    omega
  refine ⟨p, ?_, by rw [hpend', hpend, List.nil_append], hm' ▸ hm, he', hs', ho'.trans ho⟩
  simp only [sys, step]
  rw [if_pos ⟨h.loop, h.live, h.open_.1, hcredit⟩, c.dir.receive_data rfl hp (ho'.trans ho)]
  rfl

def St.handedOver (s : St α) (p : StreamPump α) (a : α) (pc : RunPc α) (delivered credit : Int) : St α :=
  { s.queued p a with
    inb := { s.inb with rx := { s.inb.rx with pump := p, pc, delivered }, got := s.inb.got ++ [.data a] }
    credit }

/-- The value is taken and handed to the waiting handler. -/
theorem CaughtUp.handed (h : CaughtUp c vs s) (hw : 0 < c.window) (a : α) :
    ∃ p, (sys c).Steps Sys.any s (s.handedOver p a (.delivered (.data a)) s.inb.rx.delivered (s.credit - 1)) ∧
      (p.pending = [] ∧ 0 < p.maxPending) ∧ p.inputEnd = false ∧ p.stopped = false ∧ p.overflow = false := by
  obtain ⟨p, hval, hpend, hm, he, hs, ho⟩ := h.value hw a
  obtain ⟨⟨v, p'⟩, htake⟩ : ∃ r, p.take = some r := by
    cases ht : p.take with
    | some r => exact ⟨r, rfl⟩
    | none =>
      rw [StreamPump.take_none ht] at hpend
      cases hpend
  obtain ⟨hpend', he', ho', hs', hm'⟩ := StreamPump.take_some htake
  rw [hpend] at hpend'
  obtain ⟨rfl, hnil⟩ := List.cons.inj hpend'
  have hturn : (sys c).step (s.queued p a) (.act .turn) =
      some { s.queued p a with
        inb := { s.inb with rx := { s.inb.rx with pump := p', pc := .holding (.data a) } } } := by
    simp [sys, step, Inbound.act, Receiver.turn, St.queued, h.waits.1, hs, htake]
  refine ⟨p', .tail (.tail (.tail .refl trivial hval) trivial hturn) (e := .act .handoff) trivial ?_,
    ⟨hnil.symm, hm' ▸ hm⟩, he'.trans he, hs'.trans hs, ho'.trans ho⟩
  simp [sys, step, Inbound.act, St.queued, St.handedOver, h.waits.2]

/-- The hook counts the delivery, and a grant is sent when it is due. -/
theorem CaughtUp.next (h : CaughtUp c vs s) (hw : 0 < c.window) (a : α) :
    ∃ t, (sys c).Steps Sys.any s t ∧ CaughtUp c (vs ++ [a]) t := by
  obtain ⟨p, hst, hempty, hflows⟩ := h.handed hw a
  have hc := h.credit
  have hd := h.delivered
  have hagain : ∀ d cr, 0 ≤ d ∧ d < grantBatch c.window → cr + d = max c.window 0 →
      CaughtUp c (vs ++ [a]) (s.handedOver p a .waiting d cr) := fun d cr hd hcr =>
    { loop := h.loop, live := h.live, open_ := h.open_, sent := by simp [St.handedOver, St.queued, h.sent],
      got := by simp [St.handedOver, St.queued, h.got], waits := ⟨rfl, h.waits.2⟩, empty := hempty, flows := hflows,
      window := h.window, delivered := hd, credit := hcr }
  by_cases hb : grantBatch c.window ≤ s.inb.rx.delivered + 1
  · have hhook : (sys c).step (s.handedOver p a (.delivered (.data a)) s.inb.rx.delivered (s.credit - 1))
      (.act .hook) =
        some (s.handedOver p a (.granting (s.inb.rx.delivered + 1)) 0 (s.credit - 1)) := by
      simp [sys, step, Inbound.act, Receiver.grantInbound, Receiver.grantDelivered, St.handedOver, h.window, hb]
    refine ⟨s.handedOver p a .waiting 0 (s.credit - 1 + (s.inb.rx.delivered + 1)),
      .tail (.tail hst trivial hhook) (e := .act .grant) trivial ?_,
      hagain _ _ ⟨Int.le_refl 0, grantBatch_pos _⟩ (by omega)⟩
    have hmax : max (s.inb.rx.delivered + 1) 0 = s.inb.rx.delivered + 1 := by omega
    simp [sys, step, Inbound.act, St.handedOver, Back.amount, hmax]
  · refine ⟨s.handedOver p a .waiting (s.inb.rx.delivered + 1) (s.credit - 1), .tail hst (e := .act .hook) trivial ?_,
      hagain _ _ ⟨by omega, by omega⟩ (by omega)⟩
    simp [sys, step, Inbound.act, Receiver.grantInbound, Receiver.grantDelivered, St.handedOver, h.window, hb]

theorem reach_caughtUp (c : Cfg) (vs : List α) (hw : vs = [] ∨ 0 < c.window) :
    ∃ s, (sys c).Reach Sys.any s ∧ CaughtUp c vs s := by
  induction vs using List.reverseRecOn with
  | nil => exact ⟨start c, .init rfl, caughtUp_start c⟩
  | append_singleton vs a ih =>
    have hw := hw.resolve_left (by simp)
    obtain ⟨s, hr, h⟩ := ih (.inr hw)
    obtain ⟨t, hst, ht⟩ := h.next hw a
    exact ⟨t, hr.steps hst, ht⟩

/-- The read loop takes the StreamEnd and comes to the context with the others where they
    stand. -/
theorem ends_at_once (hl : s.loop = .idle) (hlive : s.inb.rx.live = true) (he : s.ended = false) :
    ∃ t, (sys c).Steps Sys.any s t ∧ t.cancelled = true ∧ t.sent = s.sent ∧ t.inb.got = s.inb.got ∧
      t.sawEnd = s.sawEnd := by
  let t₁ : St α := { s with inb := { s.inb with rx := s.inb.rx.closeInboundChan }, loop := .deleting, ended := true }
  let t₂ : St α := { t₁ with inb := { t₁.inb with rx := { t₁.inb.rx with live := false } }, loop := .cancelling }
  have h₁ : (sys c).step s .streamEnd = some t₁ := by
    simp only [sys, step]
    rw [if_pos ⟨hl, hlive, he⟩]
  have h₂ : (sys c).step t₁ .loop = some t₂ := rfl
  have h₃ : (sys c).step t₂ .loop = some { t₂ with loop := .idle, cancelled := true } := rfl
  exact ⟨_, .tail (.tail (.tail .refl trivial h₁) trivial h₂) trivial h₃, rfl, rfl, rfl, rfl⟩

theorem context_never_outlives (c : Cfg) (vs : List α) (hw : vs = [] ∨ 0 < c.window) :
    ¬ Outlives c vs ∧ ∃ s, (sys c).Reach Sys.any s ∧ s.sent = vs.map .data ∧ s.cancelled = true ∧ s.sawEnd = false ∧
      s.inb.got = s.sent.dropLast := by
  have hrun : ∃ s, (sys c).Reach Sys.any s ∧ s.sent = vs.map .data ∧ s.cancelled = true ∧ s.sawEnd = false ∧
      s.inb.got = s.sent.dropLast := by
    rcases List.eq_nil_or_concat vs with rfl | ⟨us, a, rfl⟩
    · obtain ⟨t, hst, hc, hsent, hgot, hsaw⟩ := ends_at_once (c := c) (s := (start c : St α)) rfl
        (caughtUp_start c).live rfl
      exact ⟨t, Sys.Reach.steps (.init rfl) hst, hsent, hc, hsaw, by rw [hgot, hsent]; rfl⟩
    · have hw := hw.resolve_left (by simp)
      obtain ⟨s, hr, h⟩ := reach_caughtUp c us (.inr hw)
      obtain ⟨p, hval, -⟩ := h.value hw a
      obtain ⟨t, hst, hc, hsent, hgot, hsaw⟩ := ends_at_once (c := c) (s := s.queued p a) h.loop h.live h.open_.1
      have hr' := (hr.step trivial hval).steps hst
      refine ⟨t, hr', ?_, hc, hsaw.trans h.open_.2, ?_⟩
      · rw [hsent]
        simp [St.queued, h.sent]
      · rw [hgot, hsent]
        simp [St.queued, h.got]
  refine ⟨fun hout => ?_, hrun⟩
  obtain ⟨s, hr, hsent, hc, hsaw, -⟩ := hrun
  rw [(hout s hr hsent hc).1] at hsaw
  cases hsaw

def upload : Cfg := ⟨.put, rfl, 7, 1, 2, id⟩

def download : Cfg := ⟨.reversePut, rfl, 7, 1, 2, id⟩

theorem context_never_outlives_both : ¬ Outlives upload [1, 2, 3] ∧ ¬ Outlives download [1, 2, 3] :=
  ⟨(context_never_outlives upload [1, 2, 3] (.inr (by decide))).1,
    (context_never_outlives download [1, 2, 3] (.inr (by decide))).1⟩

/-- Two values and the StreamEnd arrive before the handler has read one. -/
def lags : List (Ev Nat) := [.value 1, .value 2, .streamEnd, .loop, .loop]

/-- The context of a handler that lags is cancelled with its input unread, on the server and
    on the client. -/
theorem cancelled_before_input :
    (∃ s : St Nat, (sys upload).Reach Sys.any s ∧ s.cancelled = true ∧ s.sent = [.data 1, .data 2] ∧ s.inb.got = [] ∧
      s.sawEnd = false) ∧
    ∃ s : St Nat, (sys download).Reach Sys.any s ∧ s.cancelled = true ∧
      s.sent = [.data 1, .data 2] ∧ s.inb.got = [] ∧ s.sawEnd = false :=
  ⟨(sys _).reach_of_exec Sys.any (start _) rfl lags (by decide +kernel),
    (sys _).reach_of_exec Sys.any (start _) rfl lags (by decide +kernel)⟩

end ValueRpc.Stream.HandlerContext
