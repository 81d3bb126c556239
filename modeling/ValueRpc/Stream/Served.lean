/-
  ValueRpc.Stream.Served — the frames the server enqueues for a get-stream or a chat it
  serves (`valueserver/serving_request.go`: `outgoingStreamer`, `serveRunningRequest`,
  `closeRequest`, `Close`).

  Two goroutines write: the streamer, and the connection's read loop, which answers an
  overrun of a chat's input with an ErrorResponse. Either may tear the request down:
  `closeRequest` takes it out of the map, then `Close` sets `closed`, and closes `done`, the
  credit gate and the input, in this order, each a step of its own. The pump's goroutine
  adds StreamCredit. The session stays open, so every send enqueues.

  The streamer has three ways out. A closed channel and a closed request send StreamEnd; a
  closed gate sends nothing.

  - `one_terminal_frame`: where an overrun is reported only to a streamer that waits for
    credit, and a CancelRequest never closes the gate on one (`inTime`), the frames are
    StreamReady, StreamValues and one terminal frame.
  - `no_and_two_terminal_frames`: a CancelRequest handled while the streamer waits for
    credit leaves the stream without a terminal frame, and an overrun handled while it waits
    for its handler gets a StreamEnd behind the ErrorResponse.
-/

import ValueRpc.Lib.Runs
import ValueRpc.Stream.Inbound

namespace ValueRpc.Stream.Served

open ValueRpc.Core ValueRpc.Lib

variable {α : Type}

structure Cfg where
  chat : Bool
  requestId : Int
  incomingQueueCap : Nat
  maxPending : Int64
  grow : Nat → Nat

/-- What the server enqueues for the request. -/
inductive Out (α : Type) where
  | frame (f : Frame α)
  | back (b : Back)
  deriving DecidableEq, Repr

inductive In (α : Type) where
  | cancel
  | value (v : Value α)
  | fin (v : Value α)
  | credit (n : Int)
  /-- Any other message type, or a StreamCredit without a number. -/
  | unknown
  deriving DecidableEq, Repr

inductive Closing where
  | delete
  | swap
  | done
  | gate
  | input
  deriving DecidableEq, Repr

inductive Pc (α : Type) where
  | ready
  | select
  /-- Past the select, before it looks at `ok` and `closed`. -/
  | look (ok : Bool) (v : Value α)
  | acquiring (v : Value α)
  | sending (v : Value α)
  | ending (v : Value α)
  | closing (k : Closing)
  | returned
  deriving DecidableEq, Repr

/-- The connection's read loop, at a frame for this request. -/
inductive Loop (α : Type) where
  | idle
  | serving (m : In α)
  | reporting
  /-- In `closeRequest`, for an overrun or for a CancelRequest. -/
  | closing (overrun : Bool) (k : Closing)
  deriving DecidableEq, Repr

structure St (α : Type) where
  pc : Pc α
  loop : Loop α
  live : Bool
  closed : Bool
  done : Bool
  gate : CreditGate
  inb : Inbound α
  queue : List (Out α)
  deriving DecidableEq, Repr

/-- The request is registered, a chat's initial window granted, and the streamer starts. -/
def start (c : Cfg) : St α where
  pc := .ready
  loop := .idle
  live := true
  closed := false
  done := false
  gate := .new
  inb := ⟨setupInboundServer c.requestId c.chat c.incomingQueueCap c.maxPending.toInt, [], false⟩
  queue := if c.chat then [.back (.credit c.maxPending.toInt)] else []

inductive Ev (α : Type) where
  /-- The streamer's receive: a value, the closed channel, or `done`. -/
  | recv (v : Value α)
  | recvClosed
  | recvDone
  | stream
  /-- A frame for the request: the read loop found its record. -/
  | arrive (m : In α)
  | serve
  /-- The input's pump goroutine or the handler that reads it. -/
  | act (a : Act)
  deriving DecidableEq, Repr

def closes (s : St α) : Closing → St α
  | .delete => { s with live := false }
  | .swap => { s with closed := true }
  | .done => { s with done := true }
  | .gate => { s with gate := s.gate.close }
  | .input => { s with inb := { s.inb with rx := { s.inb.rx with ended := true, pump := s.inb.rx.pump.stop } } }

/-- Where it goes on: only who swapped `closed` closes the rest. -/
def Closing.next (closed : Bool) : Closing → Option Closing
  | .delete => some .swap
  | .swap => if closed then none else some .done
  | .done => some .gate
  | .gate => some .input
  | .input => none

/-- `serveRunningRequest`, up to the overrun's ErrorResponse and `closeRequest`. -/
def handle (c : Cfg) (s : St α) : In α → St α
  | .cancel => { s with loop := .closing false .delete }
  | .value v =>
    if c.chat then
      let r := incomingStreamValue c.grow s.inb.rx v
      { s with inb := { s.inb with rx := r }, loop := if r.pump.overflow then .reporting else .idle }
    else { s with loop := .idle }
  | .fin v =>
    if c.chat then { s with inb := { s.inb with rx := incomingStreamEnd c.grow s.inb.rx v }, loop := .idle }
    else { s with loop := .idle }
  | .credit n => { s with gate := s.gate.grant n, loop := .idle }
  | .unknown => { s with loop := .idle }

def streams (s : St α) : Option (St α) :=
  match s.pc with
  | .ready => some { s with pc := .select, queue := s.queue ++ [.frame .ready] }
  | .look ok v => some { s with pc := if !ok || s.closed then .ending v else .acquiring v }
  | .acquiring v =>
    match s.gate.acquire with
    | some (true, g) => some { s with gate := g, pc := .sending v }
    | some (false, g) => some { s with gate := g, pc := .closing .delete }
    | none => none
  | .sending v => some { s with pc := .select, queue := s.queue ++ [.frame (.value v)] }
  | .ending v => some { s with pc := .closing .delete, queue := s.queue ++ [.frame (.fin v)] }
  | .closing k => some { closes s k with pc := (k.next s.closed).elim .returned .closing }
  | .select | .returned => none

/-- The read loop's steps on a frame it found the record for. -/
def serves (c : Cfg) (s : St α) : Option (St α) :=
  match s.loop with
  | .idle => none
  | .serving m => some (handle c s m)
  | .reporting =>
    some { s with
      loop := .closing true .delete
      queue := s.queue ++ [.back (.error (truncated "inbound stream" s.inb.rx "client"))] }
  | .closing overrun k => some { closes s k with loop := (k.next s.closed).elim .idle (.closing overrun) }

def step (c : Cfg) (s : St α) : Ev α → Option (St α)
  | .recv v =>
    match s.pc with
    | .select => some { s with pc := .look true v }
    | _ => none
  | .recvClosed =>
    match s.pc with
    | .select => some { s with pc := .look false .nil }
    | _ => none
  | .recvDone =>
    match s.pc, s.done with
    | .select, true => some { s with pc := .look false .nil }
    | _, _ => none
  | .stream => streams s
  | .arrive m =>
    match s.loop, s.live with
    | .idle, true => some { s with loop := .serving m }
    | _, _ => none
  | .serve => serves c s
  | .act a =>
    if c.chat then
      (s.inb.act a).map fun r => { s with inb := r.1, queue := s.queue ++ r.2.map .back }
    else none

def sys (c : Cfg) : Sys (St α) (Ev α) := ⟨fun s => s = start c, step c⟩

def Pc.waiting : Pc α → Bool
  | .acquiring _ => true
  | _ => false

def Pc.over : Pc α → Bool
  | .closing _ | .returned => true
  | _ => false

/-- An overrun is reported while the streamer waits for credit and there is none, and a
    CancelRequest does not close the gate on a waiting streamer. -/
def inTime (s : St α) : Ev α → Bool
  | .serve =>
    match s.loop with
    | .reporting => s.pc.waiting && decide (s.gate.credit ≤ 0)
    | .closing false .gate => !s.pc.waiting
    | _ => true
  | _ => true

/-! ## The frames -/

def Out.isCredit : Out α → Bool
  | .back (.credit _) => true
  | _ => false

def Out.terminal : Out α → Bool
  | .frame (.fin _) | .back (.error _) => true
  | _ => false

def spoken (q : List (Out α)) : List (Out α) := q.filter fun o => !o.isCredit

/-- StreamReady, then values. -/
def Running (l : List (Out α)) : Prop := ∃ vs : List (Value α), l = .frame .ready :: vs.map fun v => .frame (.value v)

/-- And one terminal frame. -/
def Ended (l : List (Out α)) : Prop := ∃ b o, Running b ∧ o.terminal = true ∧ l = b ++ [o]

theorem spoken_append (q : List (Out α)) {o : Out α} (h : o.isCredit = false) :
    spoken (q ++ [o]) = spoken q ++ [o] := by
  simp [spoken, h]

theorem Running.value {q : List (Out α)} (h : Running (spoken q)) (v : Value α) :
    Running (spoken (q ++ [.frame (.value v)])) := by
  obtain ⟨vs, hq⟩ := h
  exact ⟨vs ++ [v], by rw [spoken_append q rfl, hq]; simp⟩

theorem Running.ended {q : List (Out α)} {o : Out α} (h : Running (spoken q)) (ho : o.terminal = true) :
    Ended (spoken (q ++ [o])) := by
  have hc : o.isCredit = false := by
    cases o with
    | frame f => rfl
    | back b => cases b <;> first | rfl | cases ho
  exact ⟨_, o, h, ho, spoken_append q hc⟩

theorem spoken_credits (q : List (Out α)) {bs : List Back} (h : ∀ b ∈ bs, ∃ n, b = .credit n) :
    spoken (q ++ bs.map .back) = spoken q := by
  have hnil : (bs.map Out.back).filter (fun o : Out α => !o.isCredit) = [] := by
    refine List.filter_eq_nil_iff.mpr fun o ho => ?_
    obtain ⟨b, hb, rfl⟩ := List.mem_map.mp ho
    obtain ⟨n, rfl⟩ := h b hb
    simp [Out.isCredit]
  simp [spoken, hnil]

/-! ## The invariant -/

/-- `closed` is set from here on. -/
def Closing.late : Closing → Bool
  | .delete | .swap => false
  | _ => true

/-- The read loop cannot come back to a record that is out of the map. -/
def Loop.gone : Loop α → Bool
  | .idle => true
  | .closing _ k => k.late
  | _ => false

/-- The gate is closed, or an overrun's `closeRequest` is on its way to close it and no
    credit comes before that. -/
def Refusing (s : St α) : Prop :=
  s.gate.closed = true ∨ s.gate.credit ≤ 0 ∧
    ∃ k, s.loop = .closing true k ∧ k ≠ .input ∧ (k.late = false → s.closed = false)

/-- What was enqueued, by where the streamer stands. -/
def Said (s : St α) : Pc α → Prop
  | .ready => spoken s.queue = []
  | .acquiring _ =>
    (Running (spoken s.queue) ∧ s.gate.closed = false ∧ ∀ k, s.loop ≠ .closing true k) ∨
      (Ended (spoken s.queue) ∧ Refusing s)
  | .closing _ | .returned => Ended (spoken s.queue)
  | _ => Running (spoken s.queue)

structure Inv (s : St α) : Prop where
  said : Said s s.pc
  counts : s.inb.Counts
  gate : s.gate.closed = true → s.closed = true
  loopLate : ∀ o k, s.loop = .closing o k → k.late = true → s.closed = true
  pcLate : ∀ k, s.pc = .closing k → k.late = true → s.closed = true
  dropped : ∀ o k, s.loop = .closing o k → k ≠ .delete → s.live = false
  closed : s.closed = true → s.pc.over = true ∨ s.live = false ∧ s.loop.gone = true
  overrun : ∀ k, s.loop = .closing true k → s.pc.waiting = true ∨ s.pc.over = true

theorem inv_start (c : Cfg) : Inv (start c : St α) where
  said := by
    unfold start Said
    dsimp only
    split <;> rfl
  counts := ⟨Int.le_refl 0, nofun⟩
  gate := nofun
  loopLate := nofun
  pcLate := nofun
  dropped := nofun
  closed := nofun
  overrun := nofun

variable {c : Cfg} {s t : St α}

/-! ### The streamer -/

theorem Inv.goto (hi : Inv s) (pc : Pc α) {q : List (Out α)} {g : CreditGate}
    (hsaid : Said { s with pc := pc, queue := q, gate := g } pc) (hg : g.closed = s.gate.closed)
    (hover : s.pc.over = false) (hlate : ∀ k, pc = .closing k → k.late = false)
    (hrun : ∀ k, s.loop = .closing true k → pc.waiting = true ∨ pc.over = true) :
    Inv { s with pc := pc, queue := q, gate := g } where
  said := hsaid
  counts := hi.counts
  gate := fun h => hi.gate (hg ▸ h)
  loopLate := hi.loopLate
  pcLate := fun k hk hl => by rw [hlate k hk] at hl; cases hl
  dropped := hi.dropped
  closed := fun hc => .inr ((hi.closed hc).resolve_left (by rw [hover]; decide))
  overrun := hrun

/-- No overrun is being served while the streamer neither waits for credit nor is done. -/
theorem Inv.no_overrun (hi : Inv s) (hw : s.pc.waiting = false) (ho : s.pc.over = false) (k : Closing) :
    s.loop ≠ .closing true k := by
  intro hl
  rcases hi.overrun k hl with h | h
  · rw [hw] at h; cases h
  · rw [ho] at h; cases h

theorem Inv.selected (hi : Inv s) (hp : s.pc = .select) (ok : Bool) (v : Value α) :
    Inv { s with pc := .look ok v } := by
  have hsaid := hi.said
  rw [hp] at hsaid
  refine hi.goto (.look ok v) (q := s.queue) (g := s.gate) hsaid rfl (by rw [hp]; rfl) (by simp) fun k hl => ?_
  exact absurd hl (hi.no_overrun (by rw [hp]; rfl) (by rw [hp]; rfl) k)

theorem acquire_refused {g : CreditGate} {b : Bool} (h : Refusing s) (ha : s.gate.acquire = some (b, g)) :
    b = false := by
  unfold CreditGate.acquire at ha
  rcases h with hc | ⟨hcr, -⟩
  · rw [if_neg (by simp [hc]), if_pos hc] at ha
    cases ha
    rfl
  · split at ha
    · cases ha
    · split at ha
      · cases ha
        rfl
      · rename_i hw hc
        exact absurd ⟨hcr, Bool.eq_false_iff.mpr hc⟩ hw

theorem Inv.acquired (hi : Inv s) {v : Value α} (hp : s.pc = .acquiring v) {b : Bool} {g : CreditGate}
    (ha : s.gate.acquire = some (b, g)) :
    Inv { s with gate := g, pc := if b then .sending v else .closing .delete } := by
  have hsaid := hi.said
  have hover : s.pc.over = false := by rw [hp]; rfl
  rw [hp] at hsaid
  rcases CreditGate.acquire_some ha with ⟨rfl, -, rfl⟩ | ⟨rfl, hc, rfl⟩
  · rcases hsaid with ⟨hrun, -, hl⟩ | ⟨-, href⟩
    · exact hi.goto (.sending v) (q := s.queue) hrun rfl hover (by simp) fun k hk => absurd hk (hl k)
    · cases acquire_refused href ha
  · rcases hsaid with ⟨-, hopen, -⟩ | ⟨hend, -⟩
    · rw [hc] at hopen
      cases hopen
    · exact hi.goto (.closing .delete) (q := s.queue) hend rfl hover (fun k hk => by cases hk; rfl)
        fun k _ => .inr rfl

/-- `closeRequest`, by either goroutine, enqueues nothing and leaves both where they are. -/
structure Closed (s t : St α) (k : Closing) : Prop where
  pc : t.pc = s.pc
  loop : t.loop = s.loop
  queue : t.queue = s.queue
  counts : s.inb.Counts → t.inb.Counts
  credit : t.gate.credit = s.gate.credit
  gate : t.gate.closed = (s.gate.closed || decide (k = .gate))
  live : t.live = (s.live && decide (k ≠ .delete))
  closed : t.closed = (s.closed || decide (k = .swap))

theorem closes_closed (s : St α) (k : Closing) : Closed s (closes s k) k := by
  cases k with
  | input =>
    exact ⟨rfl, rfl, rfl, fun h => ⟨h.delivered, h.granting⟩, rfl, by simp [closes], by simp [closes],
      by simp [closes]⟩
  | _ => exact ⟨rfl, rfl, rfl, id, rfl, by simp [closes, CreditGate.close], by simp [closes], by simp [closes]⟩

theorem Inv.streamer_closes (hi : Inv s) {k : Closing} (hp : s.pc = .closing k) :
    Inv { closes s k with pc := (k.next s.closed).elim .returned .closing } := by
  have h := closes_closed s k
  have hsaid := hi.said
  rw [hp] at hsaid
  have hmono : s.closed = true → (closes s k).closed = true := fun hc => by rw [h.closed, hc]; rfl
  have hover : Pc.over (α := α) ((k.next s.closed).elim .returned .closing) = true := by
    cases k.next s.closed <;> rfl
  refine ⟨?_, h.counts hi.counts, fun hg => ?_, fun o k' hl => ?_, fun k' hk hl => ?_, fun o k' hl hk => ?_,
    fun _ => .inl hover, fun _ _ => .inr hover⟩
  · show Said _ ((k.next s.closed).elim .returned .closing)
    have hend : Ended (spoken (closes s k).queue) := h.queue ▸ hsaid
    cases k.next s.closed <;> exact hend
  · rw [show (closes s k).gate.closed = _ from h.gate, Bool.or_eq_true, decide_eq_true_iff] at hg
    rcases hg with hg | rfl
    · exact hmono (hi.gate hg)
    · exact hmono (hi.pcLate _ hp rfl)
  · exact fun hlate => hmono (hi.loopLate o k' (h.loop.symm.trans hl) hlate)
  · -- the goroutine that got past the swap made it
    cases k with
    | delete => cases hk; cases hl
    | swap => rfl
    | done | gate => exact hi.pcLate _ hp rfl
    | input => cases hk
  · show (closes s k).live = false
    rw [h.live, hi.dropped o k' (h.loop.symm.trans hl) hk]
    rfl

theorem streams_inv (hi : Inv s) (h : streams s = some t) : Inv t := by
  have hsaid := hi.said
  unfold streams at h
  cases hp : s.pc with
  | ready =>
    simp only [hp] at h hsaid
    cases h
    have hrun : Running (spoken (s.queue ++ [.frame .ready])) := ⟨[], by rw [spoken_append _ rfl, hsaid]; rfl⟩
    refine hi.goto .select (g := s.gate) hrun rfl (by rw [hp]; rfl) (by simp) fun k hl => ?_
    exact absurd hl (hi.no_overrun (by rw [hp]; rfl) (by rw [hp]; rfl) k)
  | look ok v =>
    simp only [hp] at h hsaid
    cases h
    have hl := hi.no_overrun (by rw [hp]; rfl) (by rw [hp]; rfl)
    cases hend : !ok || s.closed with
    | true =>
      exact hi.goto (.ending v) (q := s.queue) (g := s.gate) hsaid rfl (by rw [hp]; rfl) (by simp)
        fun k hk => absurd hk (hl k)
    | false =>
      -- a closed gate would show in `closed`
      have hopen : s.gate.closed = false := by
        refine Bool.eq_false_iff.mpr fun hc => ?_
        rw [hi.gate hc, Bool.or_true] at hend
        cases hend
      exact hi.goto (.acquiring v) (q := s.queue) (g := s.gate) (.inl ⟨hsaid, hopen, hl⟩) rfl (by rw [hp]; rfl)
        (by simp) fun k hk => absurd hk (hl k)
  | acquiring v =>
    simp only [hp] at h
    split at h
    · cases h
      exact hi.acquired hp ‹_›
    · cases h
      exact hi.acquired hp ‹_›
    · cases h
  | sending v =>
    simp only [hp] at h hsaid
    cases h
    refine hi.goto .select (g := s.gate) (Running.value hsaid v) rfl (by rw [hp]; rfl) (by simp) fun k hl => ?_
    exact absurd hl (hi.no_overrun (by rw [hp]; rfl) (by rw [hp]; rfl) k)
  | ending v =>
    simp only [hp] at h hsaid
    cases h
    exact hi.goto (.closing .delete) (g := s.gate) (Running.ended hsaid rfl) rfl (by rw [hp]; rfl)
      (fun k hk => by cases hk; rfl) fun _ _ => .inr rfl
  | closing k =>
    simp only [hp] at h
    cases h
    exact hi.streamer_closes hp
  | select | returned => simp only [hp] at h; cases h

/-! ### The read loop and the input -/

/-- The frames are as they were; where the streamer waits for credit, so is what it waits for. -/
theorem Said.keep {pc : Pc α} (h : Said s pc) (hq : spoken t.queue = spoken s.queue)
    (hopen : pc.waiting = true → s.gate.closed = false → (∀ k, s.loop ≠ .closing true k) →
      t.gate.closed = false ∧ ∀ k, t.loop ≠ .closing true k)
    (href : pc.waiting = true → Refusing s → Refusing t) : Said t pc := by
  cases pc with
  | acquiring v =>
    rcases h with ⟨hrun, hc, hl⟩ | ⟨hend, hr⟩
    · exact .inl ⟨hq ▸ hrun, hopen rfl hc hl⟩
    · exact .inr ⟨hq ▸ hend, href rfl hr⟩
  | _ => simpa only [Said, hq] using h

structure Loops (s t : St α) : Prop where
  pc : t.pc = s.pc
  queue : t.queue = s.queue
  counts : s.inb.Counts → t.inb.Counts
  gate : t.gate.closed = s.gate.closed
  live : t.live = s.live
  closed : t.closed = s.closed
  before : ∀ o k, s.loop ≠ .closing o k
  after : ∀ o k, t.loop = .closing o k → o = false ∧ k = .delete
  /-- It holds the record, or finds it in the map. -/
  found : s.live = true ∨ s.loop.gone = false

theorem Inv.loops (hi : Inv s) (h : Loops s t) : Inv t where
  said := by
    rw [h.pc]
    refine hi.said.keep (by rw [h.queue]) (fun _ hc _ => ⟨h.gate.trans hc, fun k hl => ?_⟩) fun _ hr => ?_
    · cases (h.after true k hl).1
    · rcases hr with hc | ⟨-, k, hl, -⟩
      · exact .inl (h.gate.trans hc)
      · exact absurd hl (h.before true k)
  counts := h.counts hi.counts
  gate := fun hc => h.closed.trans (hi.gate (h.gate ▸ hc))
  loopLate := fun o k hl hlate => by
    rw [(h.after o k hl).2] at hlate
    cases hlate
  pcLate := fun k hp hlate => h.closed.trans (hi.pcLate k (h.pc ▸ hp) hlate)
  dropped := fun o k hl hk => absurd (h.after o k hl).2 hk
  closed := fun hc => by
    rw [h.pc]
    rcases hi.closed (h.closed ▸ hc) with ho | ⟨hlive, hgone⟩
    · exact .inl ho
    · rcases h.found with hf | hf
      · rw [hlive] at hf; cases hf
      · rw [hgone] at hf; cases hf
  overrun := fun k hl => by cases (h.after true k hl).1

theorem incomingStreamValue_keeps (grow : Nat → Nat) (r : Receiver α) (v : Value α) :
    (incomingStreamValue grow r v).delivered = r.delivered ∧ (incomingStreamValue grow r v).pc = r.pc := by
  unfold incomingStreamValue
  split <;> exact ⟨rfl, rfl⟩

theorem incomingStreamEnd_keeps (grow : Nat → Nat) (r : Receiver α) (v : Value α) :
    (incomingStreamEnd grow r v).delivered = r.delivered ∧ (incomingStreamEnd grow r v).pc = r.pc := by
  unfold incomingStreamEnd Receiver.closeInboundChan
  dsimp only
  split <;> split <;> split <;> exact ⟨rfl, rfl⟩

/-- The counts are of the delivery, which a frame does not touch. -/
theorem counts_of_rx {i : Inbound α} {r : Receiver α} (h : i.Counts)
    (hr : r.delivered = i.rx.delivered ∧ r.pc = i.rx.pc) : ({ i with rx := r } : Inbound α).Counts :=
  ⟨le_of_le_of_eq h.delivered hr.1.symm, fun n hn => h.granting n (hr.2.symm.trans hn)⟩

theorem handle_loops {m : In α} (hl : s.loop = .serving m) : Loops s (handle c s m) := by
  have hbefore : ∀ o k, s.loop ≠ .closing o k := by rw [hl]; simp
  have hfound : s.live = true ∨ s.loop.gone = false := .inr (by rw [hl]; rfl)
  unfold handle
  cases m with
  | cancel => exact ⟨rfl, rfl, id, rfl, rfl, rfl, hbefore, fun o k h => by cases h; exact ⟨rfl, rfl⟩, hfound⟩
  | value v =>
    dsimp only
    split
    · refine ⟨rfl, rfl, fun h => counts_of_rx h (incomingStreamValue_keeps ..), rfl, rfl, rfl, hbefore,
        fun o k h => ?_, hfound⟩
      dsimp only at h
      split at h <;> cases h
    · exact ⟨rfl, rfl, id, rfl, rfl, rfl, hbefore, by simp, hfound⟩
  | fin v =>
    dsimp only
    split
    · exact ⟨rfl, rfl, fun h => counts_of_rx h (incomingStreamEnd_keeps ..), rfl, rfl, rfl, hbefore, by simp, hfound⟩
    · exact ⟨rfl, rfl, id, rfl, rfl, rfl, hbefore, by simp, hfound⟩
  | credit n =>
    exact ⟨rfl, rfl, id, CreditGate.grant_closed .., rfl, rfl, hbefore, by simp, hfound⟩
  | unknown => exact ⟨rfl, rfl, id, rfl, rfl, rfl, hbefore, by simp, hfound⟩

/-- The overrun is reported to a streamer that waits without credit: it will say no more. -/
theorem Inv.reports (hi : Inv s) (hl : s.loop = .reporting) (hw : s.pc.waiting = true)
    (hcr : s.gate.credit ≤ 0) (e : Error) :
    Inv { s with loop := .closing true .delete, queue := s.queue ++ [.back (.error e)] } := by
  have hover : s.pc.over = false := by
    cases hp : s.pc <;> rw [hp] at hw <;> first | rfl | cases hw
  have hopen : s.closed = false := by
    refine Bool.eq_false_iff.mpr fun hc => ?_
    rcases hi.closed hc with h | ⟨-, h⟩
    · rw [hover] at h; cases h
    · rw [hl] at h; cases h
  refine ⟨?_, hi.counts, hi.gate, fun o k hk hlate => ?_, hi.pcLate, fun o k hk hd => ?_, fun hc => ?_,
    fun _ _ => .inl hw⟩
  · have hsaid := hi.said
    cases hp : s.pc with
    | acquiring v =>
      rw [hp] at hsaid
      rcases hsaid with ⟨hrun, -, -⟩ | ⟨-, hc | ⟨-, k, hk, -⟩⟩
      · exact .inr ⟨hrun.ended rfl, .inr ⟨hcr, .delete, rfl, by decide, fun _ => hopen⟩⟩
      · rw [hi.gate hc] at hopen; cases hopen
      · rw [hl] at hk; cases hk
    | _ => rw [hp] at hw; cases hw
  · cases hk; cases hlate
  · cases hk; exact absurd rfl hd
  · rw [show s.closed = _ from hc] at hopen; cases hopen

theorem Inv.loop_closes (hi : Inv s) {o : Bool} {k : Closing} (hl : s.loop = .closing o k)
    (hw : o = false → k = .gate → s.pc.waiting = false) :
    Inv { closes s k with loop := (k.next s.closed).elim .idle (.closing o) } := by
  have h := closes_closed s k
  have hmono : s.closed = true → (closes s k).closed = true := fun hc => by rw [h.closed, hc]; rfl
  refine ⟨?_, h.counts hi.counts, fun hg => ?_, fun o' k' hk hlate => ?_, fun k' hp hlate => ?_, fun o' k' hk hd => ?_,
    fun hc => ?_, fun k' hk => ?_⟩
  · show Said _ (closes s k).pc
    rw [h.pc]
    refine hi.said.keep (by rw [← h.queue]) (fun hwait hc hno => ?_) fun hwait hr => ?_
    · -- a CancelRequest's: not at the gate
      have ho : o = false := Bool.eq_false_iff.mpr fun ho => hno k (ho ▸ hl)
      have hk : k ≠ .gate := fun hk => by rw [hw ho hk] at hwait; cases hwait
      refine ⟨by rw [show (closes s k).gate.closed = _ from h.gate, hc, decide_eq_false hk]; rfl, fun k' hk' => ?_⟩
      dsimp only at hk'
      cases hn : k.next s.closed with
      | none => rw [hn] at hk'; cases hk'
      | some k'' => rw [hn, ho] at hk'; cases hk'
    · rcases hr with hc | ⟨hcr, k₀, hk₀, hne, hopen⟩
      · exact .inl (by rw [show (closes s k).gate.closed = _ from h.gate, hc]; rfl)
      · -- an overrun's, on its way to the gate
        rw [hl] at hk₀
        cases hk₀
        cases k with
        | delete => exact .inr ⟨hcr, .swap, rfl, by decide, hopen⟩
        | swap => exact .inr ⟨hcr, .done, by simp [Closing.next, hopen rfl], by decide, nofun⟩
        | done => exact .inr ⟨hcr, .gate, rfl, by decide, nofun⟩
        | gate => exact .inl rfl
        | input => exact absurd rfl hne
  · rw [show (closes s k).gate.closed = _ from h.gate, Bool.or_eq_true, decide_eq_true_iff] at hg
    rcases hg with hg | rfl
    · exact hmono (hi.gate hg)
    · exact hmono (hi.loopLate _ _ hl rfl)
  · cases k with
    | delete => cases hk; cases hlate
    | swap => rfl
    | done | gate => exact hi.loopLate _ _ hl rfl
    | input => cases hk
  · exact hmono (hi.pcLate k' (h.pc ▸ hp) hlate)
  · show (closes s k).live = false
    by_cases hkd : k = .delete
    · rw [h.live, hkd, Bool.and_comm]; rfl
    · rw [h.live, hi.dropped _ _ hl hkd]; rfl
  · show (closes s k).pc.over = true ∨ (closes s k).live = false ∧ _
    rw [h.pc]
    by_cases hsc : s.closed = true
    · refine (hi.closed hsc).imp_right fun ⟨hlive, hgone⟩ => ⟨by rw [h.live, hlive]; rfl, ?_⟩
      rw [hl] at hgone
      cases k with
      | delete | swap => cases hgone
      | done | gate | input => rfl
    · have hk : k = .swap := by
        rw [show (closes s k).closed = _ from h.closed, Bool.eq_false_iff.mpr hsc] at hc
        simpa using hc
      subst hk
      refine .inr ⟨by rw [h.live, hi.dropped _ _ hl (by decide)]; rfl, ?_⟩
      simp [Closing.next, hsc, Loop.gone, Closing.late]
  · show (closes s k).pc.waiting = true ∨ (closes s k).pc.over = true
    rw [h.pc]
    refine hi.overrun k ?_
    rw [hl]
    dsimp only at hk
    cases hn : k.next s.closed with
    | none => rw [hn] at hk; cases hk
    | some k'' => rw [hn] at hk; cases hk; rfl

theorem serves_inv (hi : Inv s) (hok : inTime s .serve = true) (h : serves c s = some t) : Inv t := by
  unfold serves at h
  simp only [inTime] at hok
  cases hl : s.loop with
  | idle => simp only [hl] at h; cases h
  | serving m =>
    simp only [hl] at h
    cases h
    exact hi.loops (handle_loops hl)
  | reporting =>
    simp only [hl, Bool.and_eq_true, decide_eq_true_iff] at h hok
    cases h
    exact hi.reports hl hok.1 hok.2 _
  | closing o k =>
    simp only [hl] at h hok
    cases h
    refine hi.loop_closes hl fun ho hk => ?_
    subst ho hk
    simpa using hok

theorem Inv.acts (hi : Inv s) {a : Act} {r : Inbound α × List Back} (h : s.inb.act a = some r) :
    Inv { s with inb := r.1, queue := s.queue ++ r.2.map .back } := by
  have hok := Inbound.act_ok hi.counts h
  exact { hi with
    said := hi.said.keep (spoken_credits s.queue hok.credits) (fun _ hc hl => ⟨hc, hl⟩) fun _ hr => hr
    counts := hok.counts }

theorem step_inv {e : Ev α} (hi : Inv s) (hok : inTime s e = true) (h : step c s e = some t) : Inv t := by
  unfold step at h
  cases e with
  | recv v =>
    dsimp only at h
    split at h <;> cases h
    exact hi.selected ‹_› _ _
  | recvClosed =>
    dsimp only at h
    split at h <;> cases h
    exact hi.selected ‹_› _ _
  | recvDone =>
    dsimp only at h
    split at h <;> cases h
    exact hi.selected ‹_› _ _
  | stream => exact streams_inv hi h
  | arrive m =>
    dsimp only at h
    split at h <;> cases h
    rename_i hl hlive
    exact hi.loops ⟨rfl, rfl, id, rfl, rfl, rfl, by rw [hl]; simp, by simp, .inl hlive⟩
  | serve => exact serves_inv hi hok h
  | act a =>
    dsimp only at h
    split at h
    · obtain ⟨r, hr, rfl⟩ := Option.map_eq_some_iff.mp h
      exact hi.acts hr
    · cases h

/-! ## The end of a served stream -/

theorem one_terminal_frame (c : Cfg) {s : St α} (hr : (sys c).Reach (fun s e => inTime s e = true) s)
    (hp : s.pc = .returned) :
    ∃ (vs : List (Value α)) (o : Out α), o.terminal = true ∧
      spoken s.queue = .frame .ready :: (vs.map fun v => .frame (.value v)) ++ [o] := by
  have hi : Inv s := hr.inv (fun s hs => hs ▸ inv_start c) fun s e t hi hok h => step_inv hi hok h
  have hsaid := hi.said
  rw [hp] at hsaid
  obtain ⟨b, o, ⟨vs, rfl⟩, ho, hq⟩ := hsaid
  exact ⟨vs, o, ho, hq⟩

def small (chat : Bool) : Cfg := ⟨chat, 5, 1, 1, fun n => 2 * n⟩

/-- A chat: one value sent, the streamer waits with the next, and the input overruns. -/
def overrunWhileWaiting : List (Ev Nat) :=
  [.stream, .arrive (.credit 1), .serve, .recv (.data 1), .stream, .stream, .stream, .recv (.data 2), .stream,
    .arrive (.value (.data 7)), .serve, .arrive (.value (.data 8)), .serve, .serve,
    .serve, .serve, .serve, .serve, .serve, .stream, .stream, .stream]

theorem one_terminal_frame_overrun : ∃ s : St Nat, s.pc = .returned ∧ s.inb.rx.pump.overflow = true ∧
    ∃ (vs : List (Value Nat)) (o : Out Nat), o.terminal = true ∧
      spoken s.queue = .frame .ready :: (vs.map fun v => .frame (.value v)) ++ [o] := by
  obtain ⟨s, hr, hpc, hover⟩ := Sys.reach_of_exec (sys (small true)) (fun s e => inTime s e = true)
    (start (small true)) rfl
    overrunWhileWaiting (P := fun s => s.pc = .returned ∧ s.inb.rx.pump.overflow = true) (by decide +kernel)
  exact ⟨s, hpc, hover, one_terminal_frame (small true) hr hpc⟩

/-- A get-stream: the CancelRequest is served while the streamer waits for credit. -/
def cancelWhileWaiting : List (Ev Nat) :=
  [.stream, .recv (.data 1), .stream, .arrive .cancel, .serve, .serve, .serve, .serve, .serve, .stream,
    .stream, .stream]

/-- A chat: the input overruns while the streamer waits for its handler. -/
def overrunWhileIdle : List (Ev Nat) :=
  [.stream, .arrive (.value (.data 7)), .serve, .arrive (.value (.data 8)), .serve, .serve, .serve, .serve, .serve,
    .recvDone, .stream, .stream, .stream, .stream]

theorem no_and_two_terminal_frames :
    (∃ s : St Nat, (sys (small false)).Reach Sys.any s ∧ s.pc = .returned ∧ s.queue = [.frame .ready]) ∧
    ∃ s : St Nat, (sys (small true)).Reach Sys.any s ∧ s.pc = .returned ∧
      spoken s.queue = [.frame .ready, .back (.error (truncated "inbound stream" s.inb.rx "client")),
        .frame (.fin .nil)] :=
  ⟨Sys.reach_of_exec (sys (small false)) Sys.any (start (small false)) rfl cancelWhileWaiting (by decide +kernel),
    Sys.reach_of_exec (sys (small true)) Sys.any (start (small true)) rfl overrunWhileIdle (by decide +kernel)⟩

end ValueRpc.Stream.Served
