/-
  ValueRpc.Stream.Accusation — when a receiver says "exceeded flow-control credit", with the
  library at both ends (`processResponse`, `serveRunningRequest`, `handleInbound`,
  `serveRunning`).

  One stream direction (`Stream.Flow`), and the ways it is torn down while values are under
  way:
  - the initiator that receives cancels: `CancelRequest` by itself, or `watchContext`,
    `SingleResp` and `cancelClientStream`, which also close the record (`cancel`, `hangUp`);
    the client's `Close` leaves the record in `requestCtxMap`, the server's
    `cancelClientStream` deletes it first;
  - the responder that receives tears down and sends an error (`hangUp`);
  - the sender's ErrorResponse or CancelRequest reaches the receiver's record (`torn`);
  - the sender's own side closes its record (`hangUpTx`).
  Each may happen at any time. `accused` are the errors the receiver produced.

  A sender that waits for credit never has more under way than it was granted, whatever is
  torn down when: the books of `Stream.Flow`, as an inequality (`Fine.books`). So no pump
  overflows before the stream's end. Three receivers look at `Overflowed`. The client takes a
  refused push for an overrun, and `Push` also refuses once the request is closed.

  - `never_accused`: if no StreamValue finds a request of the client's that is closed and still
    in its map (`stillOpen`), nobody is accused.
  - `cancelled_is_accused`: as it is, a cancelled get-stream accuses its server.
-/

import ValueRpc.Stream.FlowInv
import ValueRpc.Stream.Inbound

namespace ValueRpc.Stream.Accusation

open ValueRpc.Core ValueRpc.Lib

variable {α : Type} {v : Value α} {f : Frame α} {rest : List (Frame α)}

structure St (α : Type) where
  flow : Stream.St α
  accused : List Error
  deriving DecidableEq, Repr

def start (c : Cfg) : St α := ⟨Stream.start c, []⟩

inductive Ev (α : Type) where
  | flow (e : Stream.Ev α)
  | cancel
  /-- The receiving side closes its record; a responder also sends `e`. -/
  | hangUp (e : Error)
  /-- An ErrorResponse or CancelRequest of the sender's side. -/
  | torn
  | hangUpTx
  deriving DecidableEq, Repr

/-- The receiver's side closes its record: `watchContext` and `SingleResp` leave it in the map. -/
def hangUp (d : Dir) (r : Receiver α) : Receiver α :=
  match d with
  | .get => { r.close with live := r.live }
  | .reverseGet => r.close
  | .put => r.closeRequest
  | .reversePut => r.closeRequest

def hangUpTx (d : Dir) (t : Sender α) : Sender α :=
  match d with
  | .get => t.closeRequest
  | .reverseGet => t.closeRequest
  | .put => { t.close with live := t.live }
  | .reversePut => t.close

/-- The errors a receiver produced: in an ErrorResponse, or for `StreamError` in `cancelOnce`. -/
def blame (r r' : Receiver α) (bs : List Back) : List Error :=
  (bs.filterMap fun b => match b with
    | .error e => some e
    | _ => none) ++ if r.cancelOnce = r'.cancelOnce then [] else r'.resultErr.toList

def accusation (c : Cfg) (s : Stream.St α) : Stream.Ev α → List Error
  | .deliver =>
    match s.fwd with
    | f :: _ => if s.rx.live then blame s.rx (c.dir.receive c.grow s.rx f).1 (c.dir.receive c.grow s.rx f).2 else []
    | [] => []
  | _ => []

def step (c : Cfg) (s : St α) : Ev α → Option (St α)
  | .flow e => (Stream.step c s.flow e).map fun t => ⟨t, s.accused ++ accusation c s.flow e⟩
  | .cancel =>
    if c.dir.toInitiator then some { s with flow := { s.flow with back := s.flow.back ++ [.cancel] } } else none
  | .hangUp e =>
    some { s with flow := { s.flow with
      rx := hangUp c.dir s.flow.rx, back := s.flow.back ++ if c.dir.toInitiator then [] else [.error e] } }
  | .torn =>
    if s.flow.rx.live then
      some { s with flow := { s.flow with
        rx := if c.dir.toInitiator then s.flow.rx.close else s.flow.rx.closeRequest } }
    else none
  | .hangUpTx => some { s with flow := { s.flow with tx := hangUpTx c.dir s.flow.tx } }

def sys (c : Cfg) : Sys (St α) (Ev α) := ⟨fun s => s = start c, step c⟩

/-- A payload for a request of the client's finds it open. -/
def findsOpen (c : Cfg) (r : Receiver α) : Frame α → Prop
  | .value v => c.dir = .get ∧ r.live = true ∧ v.isData = true → r.ended = false
  | _ => True

instance (c : Cfg) (r : Receiver α) : (f : Frame α) → Decidable (findsOpen c r f)
  | .value _ => inferInstanceAs (Decidable (_ → _))
  | .ready | .fin _ => .isTrue trivial

def stillOpen (c : Cfg) (s : St α) : Ev α → Prop
  | .flow e => e = .deliver → ∀ f ∈ s.flow.fwd.head?, findsOpen c s.flow.rx f
  | _ => True

instance [DecidableEq α] (c : Cfg) (s : St α) : (e : Ev α) → Decidable (stillOpen c s e)
  | .flow e => inferInstanceAs (Decidable (e = .deliver → ∀ f ∈ s.flow.fwd.head?, findsOpen c s.flow.rx f))
  | .cancel | .hangUp _ | .torn | .hangUpTx => .isTrue trivial

/-! ## The books -/

def isReady : Frame α → Bool
  | .ready => true
  | _ => false

/-- The ack to come: it takes a place in an initiator's pump and no credit. -/
def readyDue (c : Cfg) (s : Stream.St α) : Nat :=
  if c.dir.toInitiator then s.fwd.countP isReady + (if s.tx.pc.started then 0 else 1) else 0

/-- What the receiver has and has not granted again. An initiator's count of -1 stands for the
    ack. -/
def owed (r : Receiver α) : Int := r.pump.pending.length + Inbound.claim r.pc + r.delivered

def ungranted (c : Cfg) (s : Stream.St α) : Int := if s.granted then 0 else max c.window 0

/-- More may be sent, or is under way. -/
def Alive (s : Stream.St α) : Prop := s.tx.pc.isDone = false ∨ 0 < valuesInFlight s

/-- While something may still come: the books, and no overflow. StreamEnd may bring a value no
    credit was taken for, but only as the last frame. -/
structure Fine (c : Cfg) (s : Stream.St α) : Prop where
  credit : 0 ≤ s.tx.gate.credit
  books : s.tx.gate.credit + (s.back.map Back.amount).sum + valuesInFlight s + readyDue c s + owed s.rx + ungranted c s ≤
    max c.window 0
  before : s.granted = false → s.tx.gate.credit = 0 ∧ creditInFlight s = 0 ∧ valuesInFlight s = 0
  overflow : s.rx.pump.overflow = false
  shut : s.rx.pump.inputEnd = true ∨ s.rx.pump.stopped = true → s.rx.ended = true

structure Inv (c : Cfg) (s : Stream.St α) : Prop where
  window : s.rx.creditWindow = c.window
  bound : max c.window 1 ≤ s.rx.pump.maxPending
  counted : (if c.dir.toInitiator then -1 else 0) ≤ s.rx.delivered
  granting : ∀ n, s.rx.pc = .granting n → 0 ≤ n
  /-- Once the ack was handed out it was counted, or is about to be. -/
  acked : s.first.isSome = true ∨ s.rx.out ≠ [] → 0 ≤ s.rx.delivered + unseen s.rx.pc
  granted : s.granted = true → c.dir.toInitiator = true → s.first.isSome = true
  wire : ∀ v, .value v ∈ s.fwd → v ≠ .nil
  fins : NoFin s.fwd ∨ s.tx.pc.isDone = true ∧ ∃ l v, s.fwd = l ++ [.fin v] ∧ NoFin l
  fine : Alive s → Fine c s

variable {c : Cfg} {s t : Stream.St α}

theorem unseen_le_claim {pc : RunPc α} (h : ∀ n, pc = .granting n → 0 ≤ n) :
    (unseen pc : Int) ≤ Inbound.claim pc := by
  cases pc with
  | granting n => exact h n rfl
  | delivered v => exact Int.le_refl 1
  | holding v => exact Int.zero_le_ofNat 1
  | waiting => exact Int.le_refl 0
  | finished => exact Int.le_refl 0

/-- What is counted and claimed is no less than nothing, once the window was granted. -/
theorem Inv.claimed (hi : Inv c s) (hg : s.granted = true) : 0 ≤ Inbound.claim s.rx.pc + s.rx.delivered := by
  have hu := unseen_le_claim hi.granting
  have hc := hi.counted
  cases hd : c.dir.toInitiator with
  | true =>
    have ha := hi.acked (.inl (hi.granted hg hd))
    omega
  | false =>
    rw [hd, if_neg (by simp)] at hc
    omega

/-- A value under way finds room. -/
theorem Inv.room (hi : Inv c s) (hv : 0 < valuesInFlight s) :
    s.rx.pump.pending.length < s.rx.pump.maxPending := by
  have hf := hi.fine (.inr hv)
  have hg : s.granted = true := by
    cases hg : s.granted with
    | true => rfl
    | false =>
      have := (hf.before hg).2.2
      omega
  have hb := hf.books
  have hcl := hi.claimed hg
  have hm := hi.bound
  have ha := amounts_nonneg s.back
  have hcr := hf.credit
  simp only [owed, ungranted, hg, if_true] at hb
  omega

/-- So does the ack. -/
theorem Inv.roomReady (hi : Inv c s) (hf : Fine c s) (hr : 0 < readyDue c s) :
    s.rx.pump.pending.length < s.rx.pump.maxPending := by
  have hb := hf.books
  have hm := hi.bound
  have ha := amounts_nonneg s.back
  have hcr := hf.credit
  cases hg : s.granted with
  | true =>
    have hcl := hi.claimed hg
    simp only [owed, ungranted, hg, if_true] at hb
    omega
  | false =>
    have hu := unseen_le_claim hi.granting
    have hc := hi.counted
    have hcn : -1 ≤ s.rx.delivered := by split at hc <;> omega
    simp only [owed, ungranted, hg, Bool.false_eq_true, if_false] at hb
    omega

/-! ## The sender's steps -/

structure Sends (c : Cfg) (s t : Stream.St α) : Prop where
  rest : t.rx = s.rx ∧ t.back = s.back ∧ t.first = s.first ∧ t.granted = s.granted
  fwd : t.fwd = s.fwd ∨ s.tx.pc.isDone = false ∧ ∃ f, t.fwd = s.fwd ++ [f] ∧ f ≠ .value .nil ∧
    ∀ v, f = .fin v → t.tx.pc.isDone = true
  done : s.tx.pc.isDone = true → t.tx.pc.isDone = true ∧ valuesInFlight t = valuesInFlight s
  /-- A credit taken is a value under way. -/
  flight : t.tx.gate.credit + valuesInFlight t = s.tx.gate.credit + valuesInFlight s
  credit : 0 ≤ s.tx.gate.credit → 0 ≤ t.tx.gate.credit
  ready : readyDue c t ≤ readyDue c s

theorem Sends.alive (h : Sends c s t) (ha : Alive t) : Alive s := by
  cases hd : s.tx.pc.isDone with
  | false => exact .inl hd
  | true =>
    obtain ⟨hdt, hv⟩ := h.done hd
    rcases ha with ha | ha
    · rw [hdt] at ha; cases ha
    · exact .inr (hv ▸ ha)

theorem Sends.fine (h : Sends c s t) (hf : Fine c s) : Fine c t := by
  obtain ⟨hrx, hback, -, hgr⟩ := h.rest
  have hfl := h.flight
  have hrd := h.ready
  have hcr := h.credit hf.credit
  refine ⟨hcr, ?_, ?_, by rw [hrx]; exact hf.overflow, by rw [hrx]; exact hf.shut⟩
  · have hb := hf.books
    rw [hrx, hback, ungranted, hgr]
    rw [ungranted] at hb
    omega
  · intro hg
    obtain ⟨h1, h2, h3⟩ := hf.before (hgr ▸ hg)
    refine ⟨by omega, ?_, by omega⟩
    rw [creditInFlight, hrx, hback]
    exact h2

theorem Sends.inv (h : Sends c s t) (hi : Inv c s) : Inv c t := by
  obtain ⟨hrx, -, hfirst, hgr⟩ := h.rest
  refine ⟨by rw [hrx]; exact hi.window, by rw [hrx]; exact hi.bound, by rw [hrx]; exact hi.counted,
    by rw [hrx]; exact hi.granting, by rw [hrx, hfirst]; exact hi.acked, by rw [hgr, hfirst]; exact hi.granted, ?_, ?_,
    fun ha => h.fine (hi.fine (h.alive ha))⟩
  · intro v hv
    rcases h.fwd with hf | ⟨-, f, hf, hn, -⟩
    · exact hi.wire v (hf ▸ hv)
    · rw [hf] at hv
      rcases List.mem_append.mp hv with hv | hv
      · exact hi.wire v hv
      · cases List.mem_singleton.mp hv
        rintro rfl
        exact hn rfl
  · rcases h.fwd with hf | ⟨hnd, f, hf, -, hfin⟩
    · rw [hf]
      exact hi.fins.imp_right fun hr => ⟨(h.done hr.1).1, hr.2⟩
    · rw [hf]
      have hno : NoFin s.fwd := by
        rcases hi.fins with hno | ⟨hd, -⟩
        · exact hno
        · rw [hnd] at hd; cases hd
      cases f with
      | fin v => exact .inr ⟨hfin v rfl, s.fwd, v, rfl, hno⟩
      | ready => exact .inl fun v hv => hno v (by simpa using hv)
      | value w => exact .inl fun v hv => hno v (by simpa using hv)

theorem Sends.move (hr : t.rx = s.rx ∧ t.back = s.back ∧ t.first = s.first ∧ t.granted = s.granted)
    (hf : t.fwd = s.fwd) (hc : t.tx.gate.credit = s.tx.gate.credit) (hs : t.tx.pc.started = s.tx.pc.started)
    (hd : s.tx.pc.isDone = true → t.tx.pc.isDone = true)
    (hv : ∀ v, t.tx.pc = .sending v ↔ s.tx.pc = .sending v) : Sends c s t := by
  have hflight : valuesInFlight t = valuesInFlight s := by
    rw [valuesInFlight, valuesInFlight, hf]
    cases hp : s.tx.pc with
    | sending v => rw [(hv v).mpr hp]
    | _ =>
      cases hq : t.tx.pc with
      | sending v =>
        rw [(hv v).mp hq] at hp
        cases hp
      | _ => rfl
  refine ⟨hr, .inl hf, fun h => ⟨hd h, hflight⟩, by rw [hflight, hc], fun h => by rw [hc]; exact h, ?_⟩
  rw [readyDue, readyDue, hf, hs]

theorem Sends.setPc {pc : SendPc α} (src : List (Value α)) (hs : s.tx.pc.started = true)
    (hd : s.tx.pc.isDone = false) (hv : ∀ v, s.tx.pc ≠ .sending v) (hs' : pc.started = true)
    (hv' : ∀ v, pc ≠ .sending v) : Sends c s (setPc { s with src := src } pc) :=
  .move ⟨rfl, rfl, rfl, rfl⟩ rfl rfl (hs'.trans hs.symm) (fun h => by rw [hd] at h; cases h)
    fun v => ⟨fun h => absurd h (hv' v), fun h => absurd h (hv v)⟩

theorem sends_begin (hp : s.tx.pc = .start) : Sends c s (begin c s) := by
  have hd : s.tx.pc.isDone = false := by rw [hp]; rfl
  unfold begin
  cases hi : c.dir.toInitiator with
  | true =>
    rw [if_pos rfl]
    refine ⟨⟨rfl, rfl, rfl, rfl⟩, .inr ⟨hd, .ready, rfl, by simp, by simp⟩,
      fun h => (by rw [hd] at h; cases h), ?_, id, ?_⟩
    · simp [valuesInFlight, hp, Frame.isValue]
    · simp [readyDue, hi, hp, SendPc.started, isReady]
  | false =>
    rw [if_neg (by simp)]
    refine ⟨⟨rfl, rfl, rfl, rfl⟩, .inl rfl, fun h => (by rw [hd] at h; cases h),
      (by simp [valuesInFlight, hp]), id, ?_⟩
    simp [readyDue, hi]

theorem sends_acquire (hp : s.tx.pc = .acquiring v) (hc : 0 < s.tx.gate.credit) :
    Sends c s { s with tx := { s.tx with
      gate := { s.tx.gate with credit := s.tx.gate.credit - 1 }, pc := .sending v } } := by
  refine ⟨⟨rfl, rfl, rfl, rfl⟩, .inl rfl, fun h => (by rw [hp] at h; cases h), ?_, fun _ => (by dsimp only; omega), ?_⟩
  · simp only [valuesInFlight, hp]; omega
  · simp [readyDue, hp, SendPc.started]

theorem sends_send {pc : SendPc α} (hp : s.tx.pc = .sending v) (hpc : pc = .receiving ∨ pc = .check) :
    Sends c s (setPc { s with fwd := s.fwd ++ [.value v.wire] } pc) := by
  have hs : pc.started = true := by rcases hpc with rfl | rfl <;> rfl
  have hv : valuesInFlight (setPc { s with fwd := s.fwd ++ [.value v.wire] } pc) = s.fwd.countP Frame.isValue + 1 := by
    rcases hpc with rfl | rfl <;> simp [valuesInFlight, setPc, Frame.isValue]
  refine ⟨⟨rfl, rfl, rfl, rfl⟩, .inr ⟨by rw [hp]; rfl, .value v.wire, rfl, ?_, by simp⟩,
    fun h => (by rw [hp] at h; cases h), ?_, id, ?_⟩
  · intro h
    injection h with h
    exact v.wire_ne_nil h
  · rw [hv]; simp only [valuesInFlight, hp, setPc]
  · have hs' : s.tx.pc.started = true := by rw [hp]; rfl
    simp [readyDue, setPc, hs, hs', isReady]

theorem sends_end (hp : s.tx.pc = .ending v) :
    Sends c s (setPc { s with fwd := s.fwd ++ [.fin v.wire] } .retiring) := by
  refine ⟨⟨rfl, rfl, rfl, rfl⟩, .inr ⟨by rw [hp]; rfl, .fin v.wire, rfl, by simp, fun _ _ => rfl⟩,
    fun h => (by rw [hp] at h; cases h), ?_, id, ?_⟩
  · simp [valuesInFlight, hp, setPc, Frame.isValue]
  · simp [readyDue, setPc, hp, SendPc.started, isReady]

/-! ## The receiver's steps -/

/-- What a step of the pump's goroutine, of the consumer or of a teardown may do, with the
    frames it sends. -/
structure Runs (r r' : Receiver α) (bs : List Back) : Prop where
  window : r'.creditWindow = r.creditWindow
  bound : r'.pump.maxPending = r.pump.maxPending
  overflow : r'.pump.overflow = r.pump.overflow
  shut : (r.pump.inputEnd = true ∨ r.pump.stopped = true → r.ended = true) →
    r'.pump.inputEnd = true ∨ r'.pump.stopped = true → r'.ended = true
  owed : (∀ n, r.pc = .granting n → 0 ≤ n) → owed r' + (bs.map Back.amount).sum ≤ owed r
  counted : min r.delivered 0 ≤ r'.delivered
  out : r'.out ≠ [] → r.out ≠ [] ∨ unseen r'.pc = 1
  acked : 0 ≤ r.delivered + unseen r.pc → 0 ≤ r'.delivered + unseen r'.pc
  /-- A grant is decided on when a batch was counted. -/
  granting : ∀ n, r'.pc = .granting n → r.pc = .granting n ∨ 1 ≤ n ∧ n ≤ Inbound.claim r.pc + r.delivered
  sent : ∀ b ∈ bs, b.amount = 0 ∨ ∃ n, b = .credit n ∧ r.pc = .granting n

variable {r r' : Receiver α} {bs : List Back}

theorem amounts_zero {bs : List Back} (h : ∀ b ∈ bs, b.amount = 0) : (bs.map Back.amount).sum = 0 := by
  induction bs with
  | nil => rfl
  | cons b bs ih =>
    rw [List.map_cons, List.sum_cons, h b (List.mem_cons_self ..), ih fun b' hb' => h b' (List.mem_cons_of_mem _ hb')]
    rfl

/-- A teardown: the record's flags change, and no credit is sent. -/
theorem Runs.teardown {live ended putClosed inputEnd stopped : Bool} (hbs : ∀ b ∈ bs, b.amount = 0)
    (hs : (r.pump.inputEnd = true ∨ r.pump.stopped = true → r.ended = true) → inputEnd = true ∨
      stopped = true → ended = true) :
    Runs r { r with
      live := live, ended := ended, putClosed := putClosed,
        pump := { r.pump with inputEnd := inputEnd, stopped := stopped } } bs := by
  refine ⟨rfl, rfl, rfl, hs, fun _ => ?_, Int.min_le_left _ _, .inl, id, fun _ h => .inl h,
    fun b hb => .inl (hbs b hb)⟩
  rw [amounts_zero hbs, Int.add_zero]
  exact Int.le_refl _

theorem Runs.finish (hp : r.pc = .waiting ∨ ∃ v, r.pc = .holding v) :
    Runs r { r with pc := .finished } [] := by
  refine ⟨rfl, rfl, rfl, id, fun _ => ?_, Int.min_le_left _ _, .inl, ?_, fun _ h => (by cases h),
    fun _ h => (by cases h)⟩
  · rcases hp with hp | ⟨v, hp⟩ <;> simp [Accusation.owed, Inbound.claim, hp]
  · rcases hp with hp | ⟨v, hp⟩ <;> simp [unseen, hp]

theorem Runs.took {p : StreamPump α} (hp : r.pc = .waiting) (ht : r.pump.take = some (v, p)) :
    Runs r { r with pump := p, pc := .holding v } [] := by
  obtain ⟨hpend, he, ho, hs, hm⟩ := StreamPump.take_some ht
  refine ⟨rfl, hm, ho, fun h => by dsimp only; rw [he, hs]; exact h, fun _ => ?_, Int.min_le_left _ _,
    .inl, ?_, fun _ h => (by cases h),
    fun _ h => (by cases h)⟩
  · simp only [Accusation.owed, Inbound.claim, hp, hpend, List.length_cons, List.map_nil, List.sum_nil]
    omega
  · simp [unseen, hp]

theorem Runs.put {out : List (Value α)} (hp : r.pc = .holding v) :
    Runs r { r with out := out, pc := .delivered v } [] := by
  refine ⟨rfl, rfl, rfl, id, fun _ => ?_, Int.min_le_left _ _, fun _ => .inr rfl, ?_,
    fun _ h => (by cases h), fun _ h => (by cases h)⟩
  · simp [Accusation.owed, Inbound.claim, hp]
  · simp only [unseen, hp]; omega

theorem Runs.hook (hp : r.pc = .delivered v) : Runs r r.grantDelivered [] := by
  have hpos := grantBatch_pos r.creditWindow
  unfold Receiver.grantDelivered
  dsimp only
  split
  · refine ⟨rfl, rfl, rfl, id, fun _ => ?_, Int.min_le_right _ _, .inl, fun _ => Int.le_refl 0, fun n h => .inr ?_,
      fun _ h => (by cases h)⟩
    · simp only [Accusation.owed, Inbound.claim, hp, List.map_nil, List.sum_nil]; omega
    · injection h with h
      simp only [Inbound.claim, hp]
      omega
  · refine ⟨rfl, rfl, rfl, id, fun _ => ?_, by dsimp only; omega, .inl, ?_, fun _ h => (by cases h),
      fun _ h => (by cases h)⟩
    · simp only [Accusation.owed, Inbound.claim, hp, List.map_nil, List.sum_nil]; omega
    · simp only [unseen, hp]; omega

theorem Runs.grant {n : Int} (hp : r.pc = .granting n) : Runs r { r with pc := .waiting } [.credit n] := by
  refine ⟨rfl, rfl, rfl, id, fun h => ?_, Int.min_le_left _ _, .inl, ?_, fun _ h => (by cases h),
    fun b hb => .inr ⟨n, ?_, hp⟩⟩
  · have := h n hp
    simp only [Accusation.owed, Inbound.claim, hp, Back.amount, List.map_cons, List.map_nil, List.sum_cons,
      List.sum_nil]
    omega
  · simp [unseen, hp]
  · exact List.mem_singleton.mp hb

theorem Runs.read {out : List (Value α)} (ho : r.out ≠ []) : Runs r { r with out := out } [] :=
  ⟨rfl, rfl, rfl, id, fun _ => by simp [Accusation.owed], Int.min_le_left _ _, fun _ => .inl ho, id,
    fun _ h => .inl h, fun _ h => (by cases h)⟩

theorem Runs.fine (hi : Inv c s) (hf : Fine c s) (h : Runs s.rx r bs)
    (ht : t.tx = s.tx ∧ t.fwd = s.fwd ∧ t.granted = s.granted) (hr : t.rx = r) (hb : t.back = s.back ++ bs) :
    Fine c t := by
  obtain ⟨htx, hfwd, hgr⟩ := ht
  have hv : valuesInFlight t = valuesInFlight s := by rw [valuesInFlight, htx, hfwd]; rfl
  have hrd : readyDue c t = readyDue c s := by rw [readyDue, htx, hfwd]; rfl
  have hbk := hf.books
  have ho := h.owed hi.granting
  have hsum : (t.back.map Back.amount).sum = (s.back.map Back.amount).sum + (bs.map Back.amount).sum := by
    rw [hb, List.map_append, List.sum_append]
  refine ⟨by rw [htx]; exact hf.credit, ?_, ?_, by rw [hr]; exact h.overflow.trans hf.overflow,
    by rw [hr]; exact h.shut hf.shut⟩
  · rw [htx, hsum, hv, hrd, hr, ungranted, hgr]
    rw [ungranted] at hbk
    omega
  · intro hg
    obtain ⟨h1, h2, h3⟩ := hf.before (hgr ▸ hg)
    refine ⟨by rw [htx]; exact h1, ?_, hv.trans h3⟩
    -- before the window was granted no batch can have been counted
    have ha := amounts_nonneg s.back
    have hnone : ∀ n, s.rx.pc = .granting n → n = 0 := by
      intro n hn
      have := hi.granting n hn
      simp only [creditInFlight, hn] at h2
      omega
    have hback : (s.back.map Back.amount).sum = 0 := by
      unfold creditInFlight at h2
      split at h2
      · have := hi.granting _ ‹_›
        omega
      · omega
    have hbs : (bs.map Back.amount).sum = 0 := by
      refine amounts_zero fun b hb => ?_
      rcases h.sent b hb with hz | ⟨n, rfl, hn⟩
      · exact hz
      · rw [hnone n hn]; rfl
    have hpc : ∀ n, r.pc = .granting n → n = 0 := by
      intro n hn
      rcases h.granting n hn with hs | ⟨h1n, hle⟩
      · exact hnone n hs
      · simp only [Accusation.owed, ungranted, hgr.symm.trans hg, Bool.false_eq_true, if_false] at hbk
        omega
    rw [creditInFlight, hsum, hback, hbs, hr]
    split
    · rename_i n hn
      rw [hpc n hn]; rfl
    · rfl

theorem Runs.inv (hi : Inv c s) (h : Runs s.rx r bs)
    (ht : t.tx = s.tx ∧ t.fwd = s.fwd ∧ t.granted = s.granted) (hr : t.rx = r) (hb : t.back = s.back ++ bs)
    (hfirst : s.first.isSome = true → t.first.isSome = true)
    (hnew : t.first.isSome = true → s.first.isSome = true ∨ s.rx.out ≠ [] ∨ unseen r.pc = 1) : Inv c t := by
  obtain ⟨htx, hfwd, hgr⟩ := ht
  have hc := hi.counted
  have hcn := h.counted
  refine ⟨by rw [hr]; exact h.window.trans hi.window, by rw [hr, h.bound]; exact hi.bound, ?_, ?_, ?_, ?_,
    by rw [hfwd]; exact hi.wire,
    by rw [hfwd, htx]; exact hi.fins, fun ha => h.fine hi (hi.fine ?_) ⟨htx, hfwd, hgr⟩ hr hb⟩
  · rw [hr]
    split at hc <;> rename_i hd
    · rw [if_pos hd]; omega
    · rw [if_neg hd]; omega
  · rw [hr]
    intro n hn
    rcases h.granting n hn with hs | ⟨h1, -⟩
    · exact hi.granting n hs
    · omega
  · rw [hr]
    intro hor
    have hcount : -1 ≤ s.rx.delivered := by split at hc <;> omega
    have hcase : (s.first.isSome = true ∨ s.rx.out ≠ []) ∨ unseen r.pc = 1 := by
      rcases hor with hor | hor
      · rcases hnew hor with h1 | h1 | h1
        · exact .inl (.inl h1)
        · exact .inl (.inr h1)
        · exact .inr h1
      · exact (h.out hor).imp_left .inr
    rcases hcase with hcase | hcase
    · exact h.acked (hi.acked hcase)
    · omega
  · intro hg hd
    exact hfirst (hi.granted (hgr ▸ hg) hd)
  · rwa [Alive, valuesInFlight, htx, hfwd] at ha

/-! ## Frames -/

theorem push_maxPending (grow : Nat → Nat) (p : StreamPump α) (v : Value α) :
    (p.push grow v).1.maxPending = p.maxPending := by
  unfold StreamPump.push
  split
  · rfl
  · split
    · rfl
    · exact p.compact_flags.2.2.2

structure Keeps (r r' : Receiver α) : Prop where
  window : r'.creditWindow = r.creditWindow
  bound : r'.pump.maxPending = r.pump.maxPending
  rest : r'.delivered = r.delivered ∧ r'.pc = r.pc ∧ r'.out = r.out

theorem Keeps.offer (grow : Nat → Nat) (r : Receiver α) (v : Value α) (b : Bool) :
    Keeps r (if b then (r.offer grow v).1 else r) := by
  cases b with
  | true => exact ⟨rfl, push_maxPending grow r.pump v, rfl, rfl, rfl⟩
  | false => exact ⟨rfl, rfl, rfl, rfl, rfl⟩

theorem Keeps.trans {r'' : Receiver α} (h : Keeps r r') (h' : Keeps r' r'') : Keeps r r'' :=
  ⟨h'.window.trans h.window, h'.bound.trans h.bound, h'.rest.1.trans h.rest.1,
    h'.rest.2.1.trans h.rest.2.1, h'.rest.2.2.trans h.rest.2.2⟩

theorem keeps_closeInboundChan (r : Receiver α) : Keeps r r.closeInboundChan := by
  unfold Receiver.closeInboundChan
  split <;> exact ⟨rfl, rfl, rfl, rfl, rfl⟩

theorem keeps_retire (r : Receiver α) (b : Bool) : Keeps r (if b then r else { r with live := false }) := by
  cases b <;> exact ⟨rfl, rfl, rfl, rfl, rfl⟩

theorem keeps_report (r : Receiver α) (e : Error) :
    Keeps r (if r.pump.overflow then (r.closeRequest, [Back.error e]) else (r, [])).1 := by
  split <;> exact ⟨rfl, rfl, rfl, rfl, rfl⟩

theorem receive_keeps (d : Dir) (grow : Nat → Nat) (r : Receiver α) (f : Frame α) :
    Keeps r (d.receive grow r f).1 := by
  have hoff := fun v b => Keeps.offer grow r v b
  cases f with
  | ready =>
    cases d with
    | get => exact hoff .nil true
    | put => exact ⟨rfl, rfl, rfl, rfl, rfl⟩
    | reverseGet => exact hoff .nil true
    | reversePut => exact ⟨rfl, rfl, rfl, rfl, rfl⟩
  | value v =>
    cases d with
    | get =>
      have hk := hoff v v.isData
      simp only [Dir.receive, processResponse_value]
      split
      · rename_i hv
        rw [hv, if_pos rfl] at hk
        split
        · rename_i h; rw [h] at hk; exact hk
        · rename_i h
          rw [h] at hk
          split
          · exact hk
          · exact hk.trans ⟨rfl, rfl, rfl, rfl, rfl⟩
      · exact ⟨rfl, rfl, rfl, rfl, rfl⟩
    | put => exact (hoff v v.neNull).trans (keeps_report _ _)
    | reverseGet =>
      have hk := hoff v v.isData
      simp only [Dir.receive, handleInbound]
      split
      · rename_i hv
        rw [hv, if_pos rfl] at hk
        split
        · rename_i h; rw [h] at hk; exact hk
        · rename_i h
          rw [h] at hk
          split
          · exact hk.trans ⟨rfl, rfl, rfl, rfl, rfl⟩
          · exact hk
      · exact ⟨rfl, rfl, rfl, rfl, rfl⟩
    | reversePut => exact (hoff v v.isData).trans (keeps_report _ _)
  | fin v =>
    cases d with
    | get =>
      simp only [Dir.receive, processResponse_fin]
      exact (hoff v v.isData).trans ⟨rfl, rfl, rfl, rfl, rfl⟩
    | put => exact ((hoff v v.neNull).trans (keeps_closeInboundChan _)).trans (keeps_retire _ _)
    | reverseGet => exact (hoff v v.isData).trans ⟨rfl, rfl, rfl, rfl, rfl⟩
    | reversePut => exact ((hoff v v.isData).trans (keeps_closeInboundChan _)).trans (keeps_retire _ _)

/-- The frame is not taken, or goes to the pump's queue. -/
inductive Takes (r : Receiver α) : Receiver α → Prop
  | skip : Takes r r
  | queue {p : StreamPump α} {v : Value α} : p.pending = r.pump.pending ++ [v] → p.inputEnd = r.pump.inputEnd →
      p.stopped = r.pump.stopped → p.overflow = r.pump.overflow → Takes r { r with pump := p }

theorem Takes.flags (h : Takes r r') : r'.pump.inputEnd = r.pump.inputEnd ∧ r'.pump.stopped = r.pump.stopped ∧
    r'.pump.overflow = r.pump.overflow ∧ r'.ended = r.ended := by
  cases h with
  | skip => exact ⟨rfl, rfl, rfl, rfl⟩
  | queue _ he hs ho => exact ⟨he, hs, ho, rfl⟩

theorem Takes.owed_le (h : Takes r r') : owed r' ≤ owed r + 1 := by
  cases h with
  | skip => omega
  | queue hp _ _ _ =>
    simp only [owed, hp, List.length_append, List.length_singleton]
    omega

/-- A push with room for the value, into a pump that may be over. -/
theorem push_takes (grow : Nat → Nat) (r : Receiver α) (v : Value α)
    (hr : r.pump.pending.length < r.pump.maxPending) :
    Takes r { r with pump := (r.pump.push grow v).1 } := by
  by_cases h : r.pump.inputEnd = true ∨ r.pump.stopped = true
  · rw [StreamPump.push_refused grow v h]
    exact .skip
  · have he : r.pump.inputEnd = false := Bool.eq_false_iff.mpr fun h' => h (.inl h')
    have hs : r.pump.stopped = false := Bool.eq_false_iff.mpr fun h' => h (.inr h')
    obtain ⟨p, hp, hpend, he', ho, hs', -⟩ := StreamPump.push_ok grow v he hs hr
    rw [hp]
    exact .queue hpend (he'.trans he.symm) (hs'.trans hs.symm) ho

theorem receive_ready_takes (c : Cfg) (r : Receiver α)
    (hr : c.dir.toInitiator = true → r.pump.pending.length < r.pump.maxPending) :
    Takes r (c.dir.receive c.grow r .ready).1 := by
  cases hd : c.dir.toInitiator with
  | true =>
    rw [Dir.receive_ready c.grow r hd]
    exact push_takes c.grow r .nil (hr hd)
  | false =>
    cases hc : c.dir with
    | put => exact .skip
    | reversePut => exact .skip
    | get => rw [hc] at hd; cases hd
    | reverseGet => rw [hc] at hd; cases hd

/-- A value that the record has room for, or refuses because its input is over: nothing is
    said, except by the client about a closed request. -/
theorem receive_value_takes (c : Cfg) {r : Receiver α} (hv : v ≠ .nil) (hlive : r.live = true)
    (hr : r.pump.pending.length < r.pump.maxPending) (ho : r.pump.overflow = false)
    (hs : r.pump.inputEnd = true ∨ r.pump.stopped = true → r.ended = true) (hopen : findsOpen c r (.value v)) :
    ∃ r', c.dir.receive c.grow r (.value v) = (r', []) ∧ Takes r r' ∧ r'.cancelOnce = r.cancelOnce := by
  cases hd : v.isData with
  | false =>
    have hnull : v = .null := by cases v <;> simp_all [Value.isData]
    subst hnull
    exact ⟨r, c.dir.receive_null c.grow ho, .skip, rfl⟩
  | true =>
    by_cases h : r.pump.inputEnd = true ∨ r.pump.stopped = true
    · have hpush := StreamPump.push_refused c.grow v h
      have hn : v.neNull = true := by cases v <;> simp_all [Value.isData, Value.neNull]
      refine ⟨r, ?_, .skip, rfl⟩
      cases hc : c.dir with
      | get =>
        have := hopen ⟨hc, hlive, hd⟩
        rw [hs h] at this
        cases this
      | put => simp [Dir.receive, serveRunningRequest, incomingStreamValue, Receiver.offer, hn, hpush, ho]
      | reverseGet => simp [Dir.receive, handleInbound, Receiver.offer, hd, hpush, ho]
      | reversePut => simp [Dir.receive, serveRunning, Receiver.offer, hd, hpush, ho]
    · have he : r.pump.inputEnd = false := Bool.eq_false_iff.mpr fun h' => h (.inl h')
      have hst : r.pump.stopped = false := Bool.eq_false_iff.mpr fun h' => h (.inr h')
      obtain ⟨p, hp, hpend, he', ho', hs', -⟩ := StreamPump.push_ok c.grow v he hst hr
      exact ⟨_, c.dir.receive_data hd hp (ho'.trans ho),
        .queue hpend (he'.trans he.symm) (hs'.trans hst.symm) ho', rfl⟩

/-- StreamReady and StreamEnd bring no accusation. -/
theorem receive_quiet (d : Dir) (grow : Nat → Nat) (r : Receiver α) (hf : f.isValue = false) :
    (d.receive grow r f).2 = [] ∧ (d.receive grow r f).1.cancelOnce = r.cancelOnce := by
  have hclose : ∀ r : Receiver α, r.closeInboundChan.cancelOnce = r.cancelOnce := by
    intro r
    unfold Receiver.closeInboundChan
    split <;> rfl
  cases f with
  | ready => cases d <;> exact ⟨rfl, rfl⟩
  | value v => cases hf
  | fin v =>
    cases d with
    | get =>
      simp only [Dir.receive, processResponse_fin, Receiver.tryGetClose, true_and]
      split <;> rfl
    | put =>
      refine ⟨rfl, ?_⟩
      simp only [Dir.receive, serveRunningRequest, incomingStreamEnd]
      split <;> split <;> exact hclose _
    | reverseGet =>
      refine ⟨rfl, ?_⟩
      simp only [Dir.receive, handleInbound, Receiver.tryGetClose]
      split <;> rfl
    | reversePut =>
      refine ⟨rfl, ?_⟩
      simp only [Dir.receive, serveRunning]
      split <;> split <;> exact hclose _

theorem fins_tail {done : Bool}
    (h : NoFin (f :: rest) ∨ done = true ∧ ∃ l v, f :: rest = l ++ [.fin v] ∧ NoFin l) :
    NoFin rest ∨ done = true ∧ ∃ l v, rest = l ++ [.fin v] ∧ NoFin l := by
  rcases h with h | ⟨hd, l, v, hl, hn⟩
  · exact .inl fun v hv => h v (List.mem_cons_of_mem _ hv)
  · cases l with
    | nil =>
      cases hl
      exact .inl fun _ hv => (by cases hv)
    | cons g l =>
      cases hl
      exact .inr ⟨hd, l, v, rfl, fun w hw => hn w (List.mem_cons_of_mem _ hw)⟩

/-- StreamEnd is the last frame, of a sender that is through. -/
theorem fins_head {done : Bool}
    (h : NoFin (.fin v :: rest) ∨ done = true ∧ ∃ l w, .fin v :: rest = l ++ [.fin w] ∧ NoFin l) :
    done = true ∧ rest = [] := by
  rcases h with h | ⟨hd, l, w, hl, hn⟩
  · exact absurd (List.mem_cons_self ..) (h v)
  · cases l with
    | nil => cases hl; exact ⟨hd, rfl⟩
    | cons g l => cases hl; exact absurd (List.mem_cons_self ..) (hn v)

/-- A frame reached its receiver, which had a place for what it took, or found nobody. -/
theorem Inv.frame (hi : Inv c s) (hf : s.fwd = f :: rest)
    (ht : t.tx = s.tx ∧ t.fwd = rest ∧ t.back = s.back ∧ t.first = s.first ∧ t.granted = s.granted)
    (hk : Keeps s.rx t.rx)
    (hrx : Alive t → Takes s.rx t.rx ∧
      (t.rx = s.rx ∨ f.isValue = true ∨ isReady f = true ∧ c.dir.toInitiator = true)) :
    Inv c t := by
  obtain ⟨htx, hfwd, hback, hfirst, hgr⟩ := ht
  obtain ⟨hw, hm, hd, hpc, hout⟩ := hk
  have hfins := hi.fins
  rw [hf] at hfins
  have hv : valuesInFlight s = valuesInFlight t + (if f.isValue then 1 else 0) := by
    rw [valuesInFlight, valuesInFlight, hf, hfwd, htx, List.countP_cons]
    exact Nat.add_right_comm _ _ _
  have hr : c.dir.toInitiator = true → readyDue c s = readyDue c t + (if isReady f then 1 else 0) := by
    intro hini
    rw [readyDue, readyDue, hf, hfwd, htx, List.countP_cons, if_pos hini, if_pos hini]
    exact Nat.add_right_comm _ _ _
  have hr0 : c.dir.toInitiator = false → readyDue c s = 0 ∧ readyDue c t = 0 := by
    intro hini
    simp [readyDue, hini]
  have halive : Alive t → Alive s := by
    rintro (ha | ha)
    · exact .inl (htx ▸ ha)
    · exact .inr (by omega)
  refine ⟨hw.trans hi.window, by rw [hm]; exact hi.bound, by rw [hd]; exact hi.counted, by rw [hpc]; exact hi.granting,
    by rw [hfirst, hout, hd, hpc]; exact hi.acked, by rw [hgr, hfirst]; exact hi.granted, ?_, ?_, fun ha => ?_⟩
  · rw [hfwd]
    exact fun v hv => hi.wire v (by rw [hf]; exact List.mem_cons_of_mem _ hv)
  · rw [hfwd, htx]
    exact fins_tail hfins
  · have hfine := hi.fine (halive ha)
    obtain ⟨htk, hplace⟩ := hrx ha
    obtain ⟨hin, hst, hov, hend⟩ := htk.flags
    refine ⟨by rw [htx]; exact hfine.credit, ?_, ?_, hov.trans hfine.overflow,
      by rw [hin, hst, hend]; exact hfine.shut⟩
    · have hb := hfine.books
      have ho := htk.owed_le
      rw [htx, hback, ungranted, hgr]
      rw [ungranted] at hb
      cases hini : c.dir.toInitiator with
      | true =>
        have := hr hini
        rcases hplace with heq | hval | ⟨hrd, -⟩
        · rw [heq]; omega
        · rw [hval, if_pos rfl] at hv; omega
        · rw [hrd, if_pos rfl] at this; omega
      | false =>
        have := hr0 hini
        rcases hplace with heq | hval | ⟨-, hi'⟩
        · rw [heq]; omega
        · rw [hval, if_pos rfl] at hv; omega
        · rw [hini] at hi'; cases hi'
    · intro hg
      obtain ⟨h1, h2, h3⟩ := hfine.before (hgr ▸ hg)
      refine ⟨by rw [htx]; exact h1, ?_, by omega⟩
      rw [creditInFlight, hback, hpc]
      exact h2

theorem receiveBack_kept (d : Dir) (t : Sender α) (b : Back) :
    (d.receiveBack t b).pc = t.pc ∧ ((∃ n, b = .credit n) ∨ (d.receiveBack t b).gate.credit = t.gate.credit) := by
  cases b with
  | credit n => rw [Dir.receiveBack_credit]; exact ⟨rfl, .inl ⟨n, rfl⟩⟩
  | error e => cases d <;> exact ⟨rfl, .inr rfl⟩
  | cancel => cases d <;> exact ⟨rfl, .inr rfl⟩

/-- A frame of the receiver's reached the sender's gate, or nobody. -/
theorem Inv.backFrame (hi : Inv c s) {b : Back} {rest : List Back} (hb : s.back = b :: rest)
    (ht : t.rx = s.rx ∧ t.fwd = s.fwd ∧ t.back = rest ∧ t.first = s.first ∧ t.granted = s.granted)
    (hpc : t.tx.pc = s.tx.pc)
    (hc : Fine c s → s.tx.gate.credit ≤ t.tx.gate.credit ∧ t.tx.gate.credit ≤ s.tx.gate.credit + b.amount) :
    Inv c t := by
  obtain ⟨hrx, hfwd, hback, hfirst, hgr⟩ := ht
  have hv : valuesInFlight t = valuesInFlight s := by rw [valuesInFlight, hpc, hfwd]; rfl
  have hrd : readyDue c t = readyDue c s := by rw [readyDue, hpc, hfwd]; rfl
  have hsum : (s.back.map Back.amount).sum = b.amount + (t.back.map Back.amount).sum := by
    rw [hb, hback, List.map_cons, List.sum_cons]
  have hamt := b.amount_nonneg
  have hrest := amounts_nonneg t.back
  refine ⟨by rw [hrx]; exact hi.window, by rw [hrx]; exact hi.bound, by rw [hrx]; exact hi.counted,
    by rw [hrx]; exact hi.granting,
    by rw [hrx, hfirst]; exact hi.acked, by rw [hgr, hfirst]; exact hi.granted, by rw [hfwd]; exact hi.wire,
    by rw [hfwd, hpc]; exact hi.fins, fun ha => ?_⟩
  have hfine := hi.fine (by rwa [Alive, hpc, hv] at ha)
  obtain ⟨hlo, hhi⟩ := hc hfine
  have hcr := hfine.credit
  refine ⟨by omega, ?_, ?_, by rw [hrx]; exact hfine.overflow, by rw [hrx]; exact hfine.shut⟩
  · have hbk := hfine.books
    rw [hv, hrd, hrx, ungranted, hgr]
    rw [ungranted] at hbk
    omega
  · intro hg
    obtain ⟨h1, h2, h3⟩ := hfine.before (hgr ▸ hg)
    have hpos : 0 ≤ creditInFlight t - (t.back.map Back.amount).sum := by
      rw [creditInFlight, hrx]
      split
      · have := hi.granting _ ‹_›
        omega
      · omega
    have hsame : creditInFlight s = b.amount + creditInFlight t := by
      rw [creditInFlight, creditInFlight, hrx, hsum]
      omega
    exact ⟨by omega, by omega, hv.trans h3⟩

theorem blame_nil (h : r'.cancelOnce = r.cancelOnce) : blame r r' [] = [] := by
  simp [blame, h]

/-- A sender that is done holds no value. -/
theorem valuesInFlight_done (h : t.tx.pc.isDone = true) : valuesInFlight t = t.fwd.countP Frame.isValue := by
  unfold valuesInFlight
  split
  · rename_i hp
    rw [hp] at h
    cases h
  · rfl

/-- A frame reaches the receiver's record. -/
theorem inv_deliver (hi : Inv c s) (hf : s.fwd = f :: rest) (ho : findsOpen c s.rx f) :
    Inv c (deliver c s f rest) ∧
      (s.rx.live = true → blame s.rx (c.dir.receive c.grow s.rx f).1 (c.dir.receive c.grow s.rx f).2 = []) := by
  unfold deliver
  by_cases hlive : s.rx.live = true
  · rw [if_pos hlive]
    dsimp only
    have hk := receive_keeps c.dir c.grow s.rx f
    cases f with
    | ready =>
      obtain ⟨hbs, hco⟩ := receive_quiet c.dir c.grow s.rx (f := .ready) rfl
      refine ⟨hi.frame hf ⟨rfl, rfl, by rw [hbs, List.append_nil], rfl, rfl⟩ hk fun ha => ?_,
        fun _ => by rw [hbs]; exact blame_nil hco⟩
      have hs : Alive s := by
        rcases ha with ha | ha
        · exact .inl ha
        · refine .inr ?_
          rw [valuesInFlight, hf, List.countP_cons]
          exact Nat.lt_of_lt_of_le ha (by simp [valuesInFlight, Frame.isValue])
      have hroom := fun hd : c.dir.toInitiator = true => hi.roomReady (hi.fine hs) (by
        rw [readyDue, if_pos hd, hf, List.countP_cons_of_pos rfl]
        omega)
      refine ⟨receive_ready_takes c s.rx hroom, ?_⟩
      cases hd : c.dir.toInitiator with
      | true => exact .inr (.inr ⟨rfl, rfl⟩)
      | false =>
        refine .inl ?_
        cases hc : c.dir with
        | put => rfl
        | reversePut => rfl
        | get => rw [hc] at hd; cases hd
        | reverseGet => rw [hc] at hd; cases hd
    | value v =>
      have hv : 0 < valuesInFlight s := by
        rw [valuesInFlight, hf, List.countP_cons_of_pos rfl]
        omega
      have hfine := hi.fine (.inr hv)
      obtain ⟨r', hr, htk, hco⟩ :=
        receive_value_takes c (hi.wire v (by rw [hf]; exact List.mem_cons_self ..)) hlive (hi.room hv)
        hfine.overflow hfine.shut ho
      rw [hr] at hk ⊢
      exact ⟨hi.frame hf ⟨rfl, rfl, List.append_nil _, rfl, rfl⟩ hk fun _ => ⟨htk, .inr (.inl rfl)⟩,
        fun _ => blame_nil hco⟩
    | fin v =>
      obtain ⟨hbs, hco⟩ := receive_quiet c.dir c.grow s.rx (f := .fin v) rfl
      refine ⟨hi.frame hf ⟨rfl, rfl, by rw [hbs, List.append_nil], rfl, rfl⟩ hk fun ha => ?_,
        fun _ => by rw [hbs]; exact blame_nil hco⟩
      -- nothing comes after it, so its value may be one too many
      have hfins := hi.fins
      rw [hf] at hfins
      obtain ⟨hd, rfl⟩ := fins_head hfins
      rcases ha with ha | ha
      · rw [show s.tx.pc.isDone = false from ha] at hd
        cases hd
      · have hz := Nat.lt_of_lt_of_eq ha (valuesInFlight_done hd)
        exact absurd hz (Nat.lt_irrefl 0)
  · rw [if_neg hlive]
    exact ⟨hi.frame hf ⟨rfl, rfl, rfl, rfl, rfl⟩ ⟨rfl, rfl, rfl, rfl, rfl⟩ fun _ => ⟨.skip, .inl rfl⟩,
      fun h => absurd h hlive⟩

/-- Within the window, a grant does not wrap the gate's int64. -/
theorem Inv.fits (hi : Inv c s) (hf : Fine c s) {b : Back} {rest : List Back} (hb : s.back = b :: rest) :
    s.tx.gate.credit + b.amount < 2 ^ 63 := by
  have hw := c.window_lt
  have hrest := amounts_nonneg rest
  have hsum : (s.back.map Back.amount).sum = b.amount + (rest.map Back.amount).sum :=
    by rw [hb, List.map_cons, List.sum_cons]
  cases hg : s.granted with
  | true =>
    have hbk := hf.books
    have hcl := hi.claimed hg
    simp only [owed, ungranted, hg, if_true] at hbk
    omega
  | false =>
    obtain ⟨h1, h2, -⟩ := hf.before hg
    unfold creditInFlight at h2
    split at h2
    · have := hi.granting _ ‹_›
      omega
    · omega

theorem inv_deliverBack (hi : Inv c s) {b : Back} {rest : List Back} (hb : s.back = b :: rest) :
    Inv c (deliverBack c s b rest) := by
  have hamt := b.amount_nonneg
  unfold deliverBack
  split
  · obtain ⟨hpc, hcr⟩ := receiveBack_kept c.dir s.tx b
    refine hi.backFrame hb ⟨rfl, rfl, rfl, rfl, rfl⟩ hpc fun hfine => ?_
    rcases hcr with ⟨n, rfl⟩ | hcr
    · have hle := hi.fits hfine hb
      rw [Back.amount_credit] at hle
      simp only [Dir.receiveBack_credit, CreditGate.grant_credit hfine.credit hle, Back.amount_credit]
      omega
    · simp only [hcr]
      omega
  · exact hi.backFrame hb ⟨rfl, rfl, rfl, rfl, rfl⟩ rfl fun _ => ⟨Int.le_refl _, by dsimp only; omega⟩

theorem inv_grantInitial (hi : Inv c s) (hg : s.granted = false)
    (hf : c.dir.toInitiator = true → s.first.isSome = true) :
    Inv c { s with granted := true, back := s.back ++ [.credit s.rx.creditWindow] } := by
  refine { hi with granted := fun _ => hf, fine := fun ha => ?_ }
  have hfine := hi.fine ha
  refine { hfine with books := ?_, before := fun h => (by cases h) }
  have hb := hfine.books
  simp only [ungranted, hg, Bool.false_eq_true, if_false] at hb
  simp only [ungranted, if_true, List.map_append, List.sum_append, List.map_cons, List.map_nil,
    List.sum_cons, List.sum_nil, Back.amount,
    hi.window]
  simp only [valuesInFlight, readyDue] at hb ⊢
  omega

/-- A read by the establisher or the consumer, from what is there or is being handed over. -/
theorem inv_takeOut (hi : Inv c s) {r : Receiver α} (hr : ∀ out, Runs s.rx { r with out := out } [])
    (hnew : s.rx.out ≠ [] ∨ unseen r.pc = 1) (h : takeOut c { s with rx := r } = some t) : Inv c t := by
  unfold takeOut at h
  split at h
  · split at h
    · cases h
      exact (hr _).inv hi ⟨rfl, rfl, rfl⟩ rfl (List.append_nil _).symm (fun _ => rfl) fun _ => .inr hnew
    · cases h
      exact (hr _).inv hi ⟨rfl, rfl, rfl⟩ rfl (List.append_nil _).symm id .inl
  · cases h

theorem runs_closeRequest (r : Receiver α) (hbs : ∀ b ∈ bs, b.amount = 0) : Runs r r.closeRequest bs :=
  Runs.teardown hbs fun _ _ => rfl

theorem runs_close (r : Receiver α) :
    Runs r r.close [] := Runs.teardown (fun _ h => (by cases h)) fun _ _ => rfl

theorem inv_flow {e : Stream.Ev α} (hi : Inv c s) (ho : e = .deliver → ∀ f ∈ s.fwd.head?, findsOpen c s.rx f)
    (h : Stream.step c s e = some t) : Inv c t := by
  -- the pump's goroutine and its record: nothing is handed to the sender
  have hrx {r : Receiver α} (hruns : Runs s.rx r []) : Inv c { s with rx := r } :=
    hruns.inv hi ⟨rfl, rfl, rfl⟩ rfl (List.append_nil _).symm id .inl
  cases step_cases h with
  | emit v _ => exact Sends.inv (s := s) (.move ⟨rfl, rfl, rfl, rfl⟩ rfl rfl rfl id fun _ => Iff.rfl) hi
  | closeSrc => exact Sends.inv (s := s) (.move ⟨rfl, rfl, rfl, rfl⟩ rfl rfl rfl id fun _ => Iff.rfl) hi
  | start hp => exact (sends_begin hp).inv hi
  | check hp =>
    refine (Sends.setPc s.src (by rw [hp]; rfl) (by rw [hp]; rfl) (by rw [hp]; simp) ?_ ?_).inv hi
    · split <;> rfl
    · split <;> simp
  | @recv v rest hp hsrc =>
    refine (Sends.setPc rest (by rw [hp]; rfl) (by rw [hp]; rfl) (by rw [hp]; simp) ?_ ?_).inv hi
    · split <;> rfl
    · split <;> simp
  | recvClosed hp _ _ =>
    exact (Sends.setPc s.src (by rw [hp]; rfl) (by rw [hp]; rfl) (by rw [hp]; simp) rfl (by simp)).inv hi
  | recvDone hp _ =>
    exact (Sends.setPc s.src (by rw [hp]; rfl) (by rw [hp]; rfl) (by rw [hp]; simp) rfl (by simp)).inv hi
  | acquire hp hpos => exact (sends_acquire hp hpos).inv hi
  | refused hp _ =>
    exact (Sends.setPc s.src (by rw [hp]; rfl) (by rw [hp]; rfl) (by rw [hp]; simp) rfl (by simp)).inv hi
  | send hp => exact (sends_send hp (by split <;> simp)).inv hi
  | sendEnd hp => exact (sends_end hp).inv hi
  | retire hp hg hpc =>
    exact Sends.inv (s := s) (.move ⟨rfl, rfl, rfl, rfl⟩ rfl hg (by dsimp only; rw [hp, hpc]; rfl)
      (fun _ => by dsimp only; rw [hpc]; rfl)
      (by dsimp only; rw [hp, hpc]; simp)) hi
  | @deliver f rest hf => exact (inv_deliver hi hf (ho rfl f (by rw [hf]; rfl))).1
  | deliverBack hb => exact inv_deliverBack hi hb
  | take hp _ ht => exact hrx (.took hp ht)
  | drain hp _ => exact hrx (.finish (.inl hp))
  | put hp => exact hrx (.put hp)
  | handoff hp ht => exact inv_takeOut hi (fun _ => .put hp) (.inr rfl) ht
  | abandon hp _ => exact hrx (.finish (.inr ⟨_, hp⟩))
  | hook hp => exact hrx (.hook hp)
  | grant hp => exact (Runs.grant hp).inv hi ⟨rfl, rfl, rfl⟩ rfl rfl id .inl
  | grantInitial hg hf => exact inv_grantInitial hi hg hf
  | read ht =>
    have hout : s.rx.out ≠ [] := by
      intro hn
      simp [takeOut, hn] at ht
    exact inv_takeOut hi (fun _ => .read hout) (.inl hout) ht
  | servingEnds _ _ =>
    exact (runs_closeRequest _ (fun _ h => (by cases h))).inv hi ⟨rfl, rfl, rfl⟩ rfl (List.append_nil _).symm id .inl
  | toldEnded _ => exact Sends.inv (s := s) (.move ⟨rfl, rfl, rfl, rfl⟩ rfl rfl rfl id fun _ => Iff.rfl) hi
  | putDone _ => exact hrx (Runs.teardown (fun _ h => (by cases h)) id)

theorem accusation_nil {e : Stream.Ev α} (hi : Inv c s)
    (ho : e = .deliver → ∀ f ∈ s.fwd.head?, findsOpen c s.rx f) : accusation c s e = [] := by
  unfold accusation
  split
  · split
    · rename_i f rest hf
      split
      · exact (inv_deliver hi hf (ho rfl f (by rw [hf]; rfl))).2 ‹_›
      · rfl
    · rfl
  · rfl

theorem runs_hangUp (d : Dir) (r : Receiver α) (e : Error) :
    Runs r (hangUp d r) (if d.toInitiator then [] else [.error e]) := by
  have herr : ∀ b ∈ [Back.error e], b.amount = 0 := by simp [Back.amount]
  cases d with
  | get => exact Runs.teardown (fun _ h => (by cases h)) fun _ _ => rfl
  | reverseGet => exact runs_close r
  | put => exact runs_closeRequest r herr
  | reversePut => exact runs_closeRequest r herr

theorem inv_step {s t : St α} {e : Ev α} (hi : Inv c s.flow) (ha : s.accused = []) (ho : stillOpen c s e)
    (h : step c s e = some t) : Inv c t.flow ∧ t.accused = [] := by
  cases e with
  | flow e =>
    obtain ⟨u, hu, rfl⟩ := Option.map_eq_some_iff.mp h
    exact ⟨inv_flow hi ho hu, by dsimp only; rw [ha, accusation_nil hi ho]; rfl⟩
  | cancel =>
    simp only [step] at h
    split at h
    · cases h
      have hruns : Runs s.flow.rx s.flow.rx [.cancel] := Runs.teardown (by simp [Back.amount]) id
      exact ⟨hruns.inv hi ⟨rfl, rfl, rfl⟩ rfl rfl id .inl, ha⟩
    · cases h
  | hangUp e =>
    cases h
    exact ⟨(runs_hangUp c.dir s.flow.rx e).inv hi ⟨rfl, rfl, rfl⟩ rfl rfl id .inl, ha⟩
  | torn =>
    simp only [step] at h
    split at h
    · cases h
      have hruns : Runs s.flow.rx (if c.dir.toInitiator then s.flow.rx.close else s.flow.rx.closeRequest) [] := by
        split
        · exact runs_close _
        · exact runs_closeRequest _ fun _ h => (by cases h)
      exact ⟨hruns.inv hi ⟨rfl, rfl, rfl⟩ rfl (List.append_nil _).symm id .inl, ha⟩
    · cases h
  | hangUpTx =>
    cases h
    refine ⟨Sends.inv (s := s.flow) (.move ⟨rfl, rfl, rfl, rfl⟩ rfl ?_ ?_ ?_ ?_) hi, ha⟩
    all_goals simp only [hangUpTx]
    · cases c.dir <;> rfl
    · cases c.dir <;> rfl
    · cases c.dir <;> exact id
    · cases c.dir <;> exact fun _ => Iff.rfl

theorem inv_start (c : Cfg) : Inv c (Stream.start c : Stream.St α) := by
  obtain ⟨cap, hrec⟩ := c.dir.receiver_eq (α := α) c.requestId c.chat c.outCap c.maxPending.toInt
  have hbound : max c.window 1 ≤ (StreamPump.new c.window : StreamPump α).maxPending := by
    have hpos := StreamPump.new_maxPending_pos (α := α) c.window
    by_cases h : 1 ≤ c.window
    · rw [StreamPump.new_maxPending h]; omega
    · omega
  have hrx : (Stream.start c : Stream.St α).rx =
      newReceiver c.requestId c.chat c.window (if c.dir.toInitiator then -1 else 0) c.window cap := hrec
  have hready : (readyDue c (Stream.start c : Stream.St α) : Int) = if c.dir.toInitiator then 1 else 0 := by
    unfold readyDue
    split <;> rfl
  refine ⟨by rw [hrx]; rfl, by rw [hrx]; exact hbound, by rw [hrx]; exact Int.le_refl _, ?_, ?_, fun h => (by cases h),
    fun _ h => (by cases h), .inl fun _ h => (by cases h),
      fun _ => ⟨Int.le_refl 0, ?_, fun _ => ⟨rfl, ?_, rfl⟩, ?_, ?_⟩⟩
  all_goals try rw [creditInFlight]
  all_goals rw [hrx]
  · intro n h; cases h
  · rintro (h | h)
    · cases h
    · exact absurd rfl h
  · have howed : owed (newReceiver c.requestId c.chat c.window
      (if c.dir.toInitiator then -1 else 0) c.window cap : Receiver α) =
        if c.dir.toInitiator then -1 else 0 := by
      simp [owed, newReceiver, Inbound.claim]
    rw [hready, howed]
    show 0 + 0 + 0 + _ + _ + max c.window 0 ≤ _
    split <;> omega
  · rfl
  · rfl
  · rintro (h | h) <;> cases h

theorem inv_reach {s : St α} (h : (sys c).Reach (stillOpen c) s) : Inv c s.flow ∧ s.accused = [] := by
  refine h.inv (P := fun s => Inv c s.flow ∧ s.accused = []) (fun s hs => ?_) fun _ _ _ hi ho hs =>
    inv_step hi.1 hi.2 ho hs
  cases hs
  exact ⟨inv_start c, rfl⟩

/-- Nobody is accused of an overrun. -/
theorem never_accused (c : Cfg) (s : St α) (h : (sys c).Reach (stillOpen c) s) :
    s.accused = [] := (inv_reach h).2

def watched : Cfg := ⟨.get, false, 7, 2, 2, id⟩

def opened : List (Ev Nat) :=
  [.flow .start, .flow .deliver, .flow .turn, .flow .handoff, .flow .hook, .flow .grantInitial, .flow .deliverBack,
    .flow (.emit (.data 1)), .flow .recv, .flow .acquire, .flow .send, .flow (.emit (.data 2)),
      .flow .recv, .flow .acquire, .flow .send]

/-- The first arrives, the client cancels, and the server learns it; the second finds a request
    that an error of the server's has deleted. -/
def cancelled : List (Ev Nat) := opened ++
    ([.flow .deliver, .cancel, .flow .deliverBack, .flow .recvDone, .torn, .flow .deliver] : List (Ev Nat))

theorem never_accused_cancelled :
    ∃ s : St Nat, (sys watched).Reach (stillOpen watched) s ∧ s.flow.tx.closed = true ∧
    s.flow.fwd = [] ∧ s.accused = [] := by
  obtain ⟨s, hr, hc, hf⟩ := (sys watched).reach_of_exec (stillOpen watched) (start watched : St Nat) rfl cancelled
    (P := fun s => s.flow.tx.closed = true ∧ s.flow.fwd = []) (by decide +kernel)
  exact ⟨s, hr, hc, hf, never_accused watched s hr⟩

/-- `watchContext` cancels and closes the request with two values under way. -/
def watchedAway : List (Ev Nat) := opened ++ ([.cancel, .hangUp ⟨.canceled, ""⟩, .flow .deliver] : List (Ev Nat))

/-- A server within its credit is accused of having exceeded it. -/
theorem cancelled_is_accused : ∃ s : St Nat, (sys watched).Reach Sys.any s ∧
    s.accused = [⟨.resourceExhausted, "stream 7 truncated: server exceeded flow-control credit"⟩] ∧
      valuesInFlight s.flow + s.flow.rx.pump.pending.length < 2 :=
  (sys watched).reach_of_exec Sys.any (start watched) rfl watchedAway (by decide +kernel)

end ValueRpc.Stream.Accusation
