/-
  ValueRpc.Stream.Conservation — what flow control gives one stream direction.

  (1) `credit_conserved_lossless`: while no value is Null, the window is always
      somewhere: at the gate, in flight, in the pump, in its goroutine's hand or in the
      count since the last grant, except for grants that reach a sender whose record is
      gone. So no push overruns the pump, the establisher reads the ack and the consumer
      the payloads in order, and once the producer closes its channel every value is
      delivered and then the consumer's channel closes, whatever the schedule
      (`Inevitable`).
  (2) `quiet_credit_iff`: with the stream open and nothing of it under way, the sender has
      a credit exactly when the Null values sent and the count since the last grant do
      not use up the window. Nothing returns the credit of a Null value
      (`Inv.quiet_books`), and the server's `setupInbound` makes a window of the
      configured bound as it is, 0 and less included.
-/

import ValueRpc.Stream.FlowStep

namespace ValueRpc.Stream

open ValueRpc.Core ValueRpc.Lib

variable {α : Type} {c : Cfg} {s : St α}

/-! ## Work left -/

/-- The steps of the library and of a consumer that reads, as opposed to the producer's
    and to the end of a chat's output. -/
def Ev.internal : Ev α → Bool
  | .emit _ => false
  | .closeSrc => false
  | .servingEnds => false
  | _ => true

def SendPc.work : SendPc α → Nat
  | .start => 18
  | .check => 11
  | .receiving => 10
  | .acquiring _ => 20
  | .sending _ => 19
  | .ending _ => 9
  | .retiring => 1
  | .ended => 0

def runWork : RunPc α → Nat
  | .waiting => 1
  | .holding _ => 6
  | .delivered _ => 4
  | .granting _ => 3
  | .finished => 0

/-- Steps left, at most: every value, frame and grant weighs more the further it is from
    where it ends. -/
def work (s : St α) : Nat :=
  11 * s.src.length + s.tx.pc.work + 7 * s.fwd.length + 6 * s.rx.pump.pending.length + runWork s.rx.pc +
    s.rx.out.length + s.back.length + 2 * (!s.granted).toNat + (!s.rx.putClosed).toNat

theorem takeOut_spec {t : St α} (h : takeOut c s = some t) :
    ∃ v rest, s.rx.out = v :: rest ∧
      t = { s with rx := { s.rx with out := rest }, first := t.first, got := t.got } := by
  unfold takeOut at h
  split at h
  · rename_i v rest hv
    refine ⟨v, rest, hv, ?_⟩
    split at h <;> cases h <;> rfl
  · cases h

theorem Happens.work_lt {e : Ev α} {t : St α} (hh : Happens c s e t) (hi : e.internal = true) :
    work t < work s := by
  cases hh with
  | emit _ => cases hi
  | closeSrc => cases hi
  | start hp =>
    unfold begin
    split <;> simp only [work, hp, SendPc.work, List.length_append, List.length_singleton] <;> omega
  | check hp => simp only [work, setPc, hp, SendPc.work]; omega
  | recv hp hsrc => simp only [work, setPc, hp, hsrc, SendPc.work, List.length_cons]; omega
  | recvClosed hp _ _ => simp only [work, setPc, hp, SendPc.work]; omega
  | acquire hp _ => simp only [work, hp, SendPc.work]; omega
  | send hp hpc =>
    rcases hpc with rfl | rfl <;>
      simp only [work, setPc, hp, SendPc.work, List.length_append, List.length_singleton] <;> omega
  | sendEnd hp => simp only [work, setPc, hp, SendPc.work, List.length_append, List.length_singleton]; omega
  | retire hp _ hpc => simp only [work, hp, hpc, SendPc.work]; omega
  | accept hf _ _ _ _ hp _ _ _ _ =>
    simp only [work, hf, hp, List.length_append, List.length_cons, List.length_nil]; omega
  | skip hf => simp only [work, hf, List.length_cons]; omega
  | inputEnd hf => simp only [work, hf, List.length_cons, StreamPump.close_pending]; omega
  | credit hb _ _ _ => simp only [work, hb, List.length_cons]; omega
  | drop hb _ => simp only [work, hb, List.length_cons]; omega
  | take hp ht =>
    have := (StreamPump.take_some ht).1
    simp only [work, hp, this, runWork, List.length_cons]; omega
  | drain hp _ _ => simp only [work, hp, runWork]; omega
  | put hp => simp only [work, hp, runWork, List.length_append, List.length_singleton]; omega
  | handoff hp ht =>
    obtain ⟨v, rest, ho, ht⟩ := takeOut_spec ht
    have hlen := congrArg List.length ho
    simp only [List.length_append, List.length_cons, List.length_nil] at hlen
    rw [ht]
    simp only [work, hp, runWork]; omega
  | hook hp _ hpc =>
    rcases hpc with ⟨rfl, -⟩ | ⟨rfl, -⟩ <;> simp only [work, hp, runWork] <;> omega
  | grant hp => simp only [work, hp, runWork, List.length_append, List.length_singleton]; omega
  | grantInitial hg _ =>
    simp only [work, hg, List.length_append, List.length_singleton, Bool.not_false, Bool.not_true, Bool.toNat_true,
      Bool.toNat_false]
    omega
  | read ht =>
    obtain ⟨v, rest, ho, ht⟩ := takeOut_spec ht
    rw [ht]
    simp only [work, ho, List.length_cons]; omega
  | putDone hp => simp only [work, hp, Bool.not_false, Bool.not_true, Bool.toNat_true, Bool.toNat_false]; omega

/-- No internal step touches what the producer did. -/
theorem Happens.producer {e : Ev α} {t : St α} (hh : Happens c s e t) (hi : e.internal = true) :
    t.emitted = s.emitted ∧ t.srcClosed = s.srcClosed ∧ t.servingEnded = s.servingEnded := by
  cases hh with
  | emit _ => cases hi
  | closeSrc => cases hi
  | start _ => unfold begin; split <;> exact ⟨rfl, rfl, rfl⟩
  | handoff _ ht => obtain ⟨_, _, _, ht⟩ := takeOut_spec ht; rw [ht]; exact ⟨rfl, rfl, rfl⟩
  | read ht => obtain ⟨_, _, _, ht⟩ := takeOut_spec ht; rw [ht]; exact ⟨rfl, rfl, rfl⟩
  | _ => exact ⟨rfl, rfl, rfl⟩

/-! ## Nothing under way -/

/-- The stream is open on both ends, its initial window granted, and nothing of it is
    under way: no frame in flight or about to be sent, the pump empty and its goroutine
    at the wait, the consumer's channel empty. -/
structure Quiet (s : St α) : Prop where
  granted : s.granted = true
  txOpen : s.tx.pc.isDone = false
  rxOpen : s.rx.pump.inputEnd = false
  fwd : s.fwd = []
  back : s.back = []
  noneSending : valuesInFlight s = 0
  pump : s.rx.pump.pending = []
  idle : s.rx.pc = .waiting
  taken : s.rx.out = []

instance [DecidableEq α] (s : St α) : Decidable (Quiet s) :=
  decidable_of_iff (s.granted = true ∧ s.tx.pc.isDone = false ∧ s.rx.pump.inputEnd = false ∧ s.fwd = [] ∧ s.back = [] ∧
      valuesInFlight s = 0 ∧ s.rx.pump.pending = [] ∧ s.rx.pc = .waiting ∧ s.rx.out = [])
    ⟨fun ⟨hg, ht, hr, hf, hb, hn, hp, hi, ho⟩ => ⟨hg, ht, hr, hf, hb, hn, hp, hi, ho⟩,
      fun h => ⟨h.granted, h.txOpen, h.rxOpen, h.fwd, h.back, h.noneSending, h.pump, h.idle, h.taken⟩⟩

theorem Inv.handed_length (h : Inv c s) (hg : s.granted = true) (ho : s.rx.out = []) :
    (handed s).length = s.got.length + if c.dir.toInitiator then 1 else 0 := by
  cases hi : c.dir.toInitiator with
  | false => simp [handed, h.noFirst hi, ho]
  | true =>
    cases hf : s.first with
    | none =>
      have := (h.beforeFirst hi hf).2
      rw [hg] at this; cases this
    | some v => simp [handed, hf, ho]

/-- The books of a quiet state: what is missing at the gate is the Null values' credit
    and the count since the last grant. -/
theorem Inv.quiet_books (h : Inv c s) (hq : Quiet s) :
    s.tx.gate.credit + s.leaked + s.got.length % grantBatch c.window = max c.window 0 := by
  have hb := h.books
  have hpos := grantBatch_pos c.window
  have hlive := h.txOpen (by intro he; have := hq.txOpen; rw [he] at this; cases this)
  have hdrop : s.dropped = 0 := by
    by_contra hne
    have := h.droppedDead hne
    rw [hlive.2.1] at this; cases this
  have hd : s.rx.delivered = s.got.length % grantBatch c.window := by
    have hc := h.counter
    rw [h.handed_length hq.granted hq.taken, hq.idle] at hc
    rw [hc]
    unfold countAt unseen
    split
    · simp
    · simp
  have hmod := Int.emod_nonneg (s.got.length : Int) (by omega : grantBatch c.window ≠ 0)
  simp only [outstanding, creditInFlight, queued, held, sinceGrant, hq.noneSending, hq.back, hq.idle,
    hq.pump, hq.granted, hdrop, hd,
    List.map_nil, List.sum_nil, List.countP_nil, if_true] at hb
  omega

/-! ## Stuck is done -/

theorem Inv.live_nulls (h : Inv c s) (hd : ∀ v ∈ s.emitted, v.isData = true) : s.leaked = 0 := by
  have hn := h.nulls
  have : s.emitted.countP (fun v => !v.isData) = 0 := List.countP_eq_zero.mpr fun v hv => by simp [hd v hv]
  omega

def Stuck (c : Cfg) (s : St α) : Prop := ∀ e : Ev α, e.internal = true → step c s e = none

theorem Stuck.empty (h : Stuck c s) : s.fwd = [] ∧ s.back = [] ∧ s.rx.out = [] := by
  refine ⟨?_, ?_, ?_⟩
  · have := h .deliver rfl
    simp only [step] at this
    split at this
    · cases this
    · assumption
  · have := h .deliverBack rfl
    simp only [step] at this
    split at this
    · cases this
    · assumption
  · have := h .read rfl
    simp only [step, takeOut] at this
    split at this
    · split at this <;> cases this
    · assumption

/-- The sender waits for credit or has ended. -/
theorem Inv.stuck_sender (h : Inv c s) (hcl : s.srcClosed = true) (hs : Stuck c s) :
    s.tx.pc = .ended ∨ (∃ v, s.tx.pc = .acquiring v) ∧ s.tx.gate.credit = 0 := by
  cases hp : s.tx.pc with
  | start => have := hs .start rfl; simp [step, hp] at this
  | check => have := hs .check rfl; simp [step, hp] at this
  | receiving =>
    have h1 := hs .recv rfl
    have h2 := hs .recvClosed rfl
    cases hsrc : s.src with
    | nil => simp [step, hp, hsrc, hcl] at h2
    | cons v rest => simp [step, hp, hsrc] at h1
  | acquiring v =>
    have h1 := hs .acquire rfl
    refine .inr ⟨⟨v, rfl⟩, ?_⟩
    by_contra hne
    have := h.nonneg.1
    cases hg : s.tx.gate.acquire with
    | none => exact CreditGate.acquire_isSome (by omega) hg
    | some r =>
      obtain ⟨b, g⟩ := r
      cases b <;> simp [step, hp, hg] at h1
  | sending v => have := hs .send rfl; simp [step, hp] at this
  | ending v => have := hs .sendEnd rfl; simp [step, hp] at this
  | retiring => have := hs .retire rfl; simp [step, hp] at this
  | ended => exact .inl rfl

/-- The pump goroutine waits for input or has returned. -/
theorem Inv.stuck_pump (h : Inv c s) (hs : Stuck c s) :
    (s.rx.pc = .waiting ∧ s.rx.pump.pending = [] ∧ s.rx.pump.inputEnd = false) ∨ s.rx.pc = .finished := by
  cases hp : s.rx.pc with
  | waiting =>
    have h1 := hs .turn rfl
    simp only [step, Receiver.turn, hp, h.calm.1, Bool.false_eq_true, if_false, Option.map_eq_none_iff] at h1
    split at h1
    · cases h1
    · rename_i ht
      split at h1
      · cases h1
      · exact .inl ⟨rfl, StreamPump.take_none ht, Bool.eq_false_iff.mpr ‹_›⟩
  | holding v =>
    -- with the channel empty the reader is waiting and takes the value
    have h1 := hs .handoff rfl
    simp only [step, hs.empty.2.2, List.isEmpty_nil, if_true, Receiver.putOut, hp, Option.bind_some, takeOut,
      List.nil_append] at h1
    split at h1 <;> cases h1
  | delivered v => have := hs .hook rfl; simp [step, hp] at this
  | granting n => have := hs .grant rfl; simp [step, hp] at this
  | finished => exact .inr rfl

theorem Inv.first_of_handed (h : Inv c s) (hi : c.dir.toInitiator = true) (ho : s.rx.out = [])
    (hne : handed s ≠ []) : s.first.isSome = true := by
  cases hf : s.first with
  | some v => rfl
  | none => exact absurd (by simp [handed, hf, (h.beforeFirst hi hf).1, ho]) hne

/-- What was handed out, once nothing is on the way. -/
theorem Inv.handed_eq (h : Inv c s) (hd : ∀ v ∈ s.emitted, v.isData = true) (hfwd : s.fwd = [])
    (hpend : s.rx.pump.pending = []) (hrun : runItems s.rx.pc = []) :
    handed s ++ (unsent s).filter Value.isData = acks c s ++ s.emitted := by
  have hw := h.whole
  rw [List.filter_eq_self.mpr hd] at hw
  rw [← hw]
  simp [line, hfwd, hpend, hrun]

/-- With a window of at least 1 a stuck sender is not waiting for credit. -/
theorem Inv.stuck_ended (h : Inv c s) (hw : 1 ≤ c.window) (hd : ∀ v ∈ s.emitted, v.isData = true)
    (hcl : s.srcClosed = true) (hs : Stuck c s) : s.tx.pc = .ended := by
  rcases h.stuck_sender hcl hs with he | ⟨⟨v, hp⟩, hc⟩
  · exact he
  · obtain ⟨hfwd, hback, hout⟩ := hs.empty
    have hfin := h.finAt
    rw [hp] at hfin
    rcases h.stuck_pump hs with ⟨hpc, hpend, hie⟩ | hpc
    · -- quiet, so the books say the whole window is at the gate or counted since the last grant
      have hg : s.granted = true := by
        have hgi := hs .grantInitial rfl
        have hf : c.dir.toInitiator = true → s.first.isSome = true := by
          intro hi
          refine h.first_of_handed hi hout ?_
          intro hn
          have hw := h.whole
          simp [line, hfwd, hpend, hpc, runItems, hn, acks, hi, hp, SendPc.started] at hw
          have := (List.mem_filter.mp (hw ▸ List.mem_cons_self .. : (Value.nil : Value α) ∈ _)).2
          cases this
        simp only [step] at hgi
        cases hg : s.granted with
        | true => rfl
        | false => rw [if_pos ⟨hg, hf⟩] at hgi; cases hgi
      have hq : Quiet s := ⟨hg, by rw [hp]; rfl, hie, hfwd, hback, by simp [valuesInFlight, hfwd, hp],
        hpend, hpc, hout⟩
      have hb := h.quiet_books hq
      have hl := h.live_nulls hd
      have hlt := Int.emod_lt_of_pos (s.got.length : Int)
        (by have := grantBatch_pos c.window; omega : 0 < grantBatch c.window)
      have hle := grantBatch_le hw
      omega
    · have := (h.finished hpc).1
      rw [this] at hfin
      exact hfin.elim

/-- Where no internal step can happen and the producer has closed its channel,
    everything was read and the consumer's channel is closed. -/
theorem Inv.stuck (h : Inv c s) (hw : 1 ≤ c.window) (hd : ∀ v ∈ s.emitted, v.isData = true)
    (hcl : s.srcClosed = true) (hs : Stuck c s) : s.got = s.emitted ∧ outClosed s = true := by
  have hp := h.stuck_ended hw hd hcl hs
  obtain ⟨hfwd, hback, hout⟩ := hs.empty
  have hie : s.rx.pump.inputEnd = true := by
    have hfin := h.finAt
    rw [hp, hfwd] at hfin
    cases hie : s.rx.pump.inputEnd with
    | true => rfl
    | false =>
      rw [hie] at hfin
      obtain ⟨l, hl, -⟩ := hfin
      simp at hl
  have hpc : s.rx.pc = .finished := by
    rcases h.stuck_pump hs with ⟨-, -, hf⟩ | hpc
    · rw [hie] at hf; cases hf
    · exact hpc
  have he := h.handed_eq hd hfwd (h.finished hpc).2 (by rw [hpc]; rfl)
  simp only [unsent, hp, SendPc.inHand, (h.srcDone (by rw [hp]; rfl)).1, List.append_nil, List.filter_nil] at he
  refine ⟨?_, by simp [outClosed, hpc]⟩
  cases hi : c.dir.toInitiator with
  | false => simpa [handed, h.noFirst hi, hout, acks, hi] using he
  | true =>
    have hne : handed s ≠ [] := by rw [he]; simp [acks, hi, hp, SendPc.started]
    obtain ⟨v, hv⟩ := Option.isSome_iff_exists.mp (h.first_of_handed hi hout hne)
    simp [handed, hv, hout, acks, hi, hp, SendPc.started] at he
    exact he.2

/-! ## Conservation and lossless delivery -/

/-- A stream direction that may be judged: for the input half of a chat, the serving
    side has not ended its output. -/
def Serving (c : Cfg) (s : St α) : Prop := c.chat = true → c.dir.toInitiator = false → s.servingEnded = false

theorem Serving.inv (hse : Serving c s) (hr : (sys c).Reach Sys.any s) :
    s.servingEnded = false ∧ Inv c s := by
  have hf : s.servingEnded = false := by
    cases he : s.servingEnded with
    | false => rfl
    | true =>
      obtain ⟨hc, hi⟩ := reach_servingEnded hr he
      rw [hse hc hi] at he; cases he
  exact ⟨hf, reach_inv hr hf⟩

theorem Inv.no_drop (h : Inv c s) (hl : s.tx.live = true) : s.dropped = 0 := by
  by_contra hne
  have := h.droppedDead hne
  rw [hl] at this; cases this

theorem Inv.first_nil (h : Inv c s) : s.first = none ∨ c.dir.toInitiator = true ∧ s.first = some .nil := by
  cases hf : s.first with
  | none => exact .inl rfl
  | some v =>
    cases hi : c.dir.toInitiator with
    | false => have := h.noFirst hi; rw [hf] at this; cases this
    | true =>
      have := h.ack_first hi (v := v) (l := s.got ++ s.rx.out ++ runItems s.rx.pc ++ s.rx.pump.pending ++
        s.fwd.flatMap Frame.items) (by simp [line, handed, hf])
      exact .inr ⟨rfl, by rw [this]⟩

/-- What the consumer read is a part from the start of what was emitted. -/
theorem Inv.got_isPrefix (h : Inv c s) (hd : ∀ v ∈ s.emitted, v.isData = true) : s.got <+: s.emitted := by
  have hw := h.whole
  rw [List.filter_eq_self.mpr hd] at hw
  cases hi : c.dir.toInitiator with
  | false =>
    refine ⟨s.rx.out ++ runItems s.rx.pc ++ s.rx.pump.pending ++ s.fwd.flatMap Frame.items ++
      (unsent s).filter Value.isData, ?_⟩
    simpa [line, handed, h.noFirst hi, acks, hi] using hw
  | true =>
    cases hf : s.first with
    | none => rw [(h.beforeFirst hi hf).1]; exact List.nil_prefix
    | some v =>
      have hst := h.started_of_line (by simp [line, handed, hf])
      refine ⟨s.rx.out ++ runItems s.rx.pc ++ s.rx.pump.pending ++ s.fwd.flatMap Frame.items ++
        (unsent s).filter Value.isData, ?_⟩
      simp [line, handed, hf, acks, hi, hst] at hw
      simpa using hw.2

theorem Inv.closed_complete (h : Inv c s) (hd : ∀ v ∈ s.emitted, v.isData = true) (hc : outClosed s = true) :
    s.srcClosed = true ∧ handed s = (if c.dir.toInitiator then [.nil] else []) ++ s.emitted := by
  have hpc : s.rx.pc = .finished := by
    unfold outClosed at hc
    split at hc
    · assumption
    · cases hc
  obtain ⟨hie, hpend⟩ := h.finished hpc
  have hfin := h.finAt
  rw [hie] at hfin
  have hdone : s.tx.pc.isDone = true := by
    cases hd : s.tx.pc.isDone with
    | true => rfl
    | false => rw [hd] at hfin; exact hfin.elim
  rw [hdone] at hfin
  obtain ⟨hsrc, hcl⟩ := h.srcDone hdone
  have hhand : s.tx.pc.inHand = [] := by
    cases hp : s.tx.pc <;> simp_all [SendPc.isDone, SendPc.inHand]
  have hst : s.tx.pc.started = true := by
    cases hp : s.tx.pc <;> simp_all [SendPc.isDone, SendPc.started]
  have he := h.handed_eq hd hfin hpend (by rw [hpc]; rfl)
  simp only [unsent, hhand, hsrc, List.append_nil, List.filter_nil, acks, hst, Bool.and_true] at he
  exact ⟨hcl, he⟩

theorem Inv.delivery_inevitable (h : Inv c s) (hse : s.servingEnded = false) (hw : 1 ≤ c.window)
    (hd : ∀ v ∈ s.emitted, v.isData = true) (hcl : s.srcClosed = true) :
    (sys c).Inevitable (fun _ e => e.internal = true) (fun t => t.got = s.emitted ∧ outClosed t = true) s := by
  refine Sys.inevitable_of_measure (I := fun t => Inv c t ∧ t.servingEnded = false ∧ t.srcClosed = true ∧
    t.emitted = s.emitted) work ?_ ?_ ⟨h, hse, hcl, rfl⟩
  · rintro t e u ⟨ht, hte, htc, htm⟩ hi hst
    rcases ht.happens hte hst with rfl | hh
    · cases hi
    · obtain ⟨h1, h2, h3⟩ := hh.producer hi
      exact ⟨⟨hh.inv ht, h3.trans hte, h2.trans htc, h1.trans htm⟩, hh.work_lt hi⟩
  · rintro t ⟨ht, -, htc, htm⟩ hstuck
    rw [← htm]
    exact ht.stuck hw (htm ▸ hd) htc hstuck

theorem credit_conserved_lossless (hw : 1 ≤ c.window) (hr : (sys c).Reach Sys.any s) (hse : Serving c s)
    (hd : ∀ v ∈ s.emitted, v.isData = true) :
    (s.granted = true → outstanding s + s.dropped = c.window) ∧ (s.tx.live = true → s.dropped = 0) ∧
    s.rx.pump.overflow = false ∧ (∀ b ∈ s.back, ∃ n, b = .credit n) ∧
    (s.first = none ∨ c.dir.toInitiator = true ∧ s.first = some .nil) ∧ s.got <+: s.emitted ∧
    (outClosed s = true →
      s.srcClosed = true ∧ handed s = (if c.dir.toInitiator then [.nil] else []) ++ s.emitted) ∧
    (s.srcClosed = true →
      (sys c).Inevitable (fun _ e => e.internal = true) (fun t => t.got = s.emitted ∧ outClosed t = true) s) := by
  obtain ⟨hf, h⟩ := hse.inv hr
  refine ⟨?_, h.no_drop, h.calm.2, h.credits, h.first_nil, h.got_isPrefix hd, h.closed_complete hd,
    h.delivery_inevitable hf hw hd⟩
  intro hg
  have hb := h.books
  have hl := h.live_nulls hd
  rw [hg, if_pos rfl] at hb
  omega

/-- A get-stream with a window of 1 and a channel that holds one value. -/
def oneAtATime (d : Dir) : Cfg := ⟨d, false, 1, 1, 1, id⟩

/-- One value goes through; its grant is in flight when the streamer ends. -/
def grantAfterEnd : List (Ev Nat) :=
  [.start, .deliver, .turn, .putOut, .hook, .read, .grantInitial, .deliverBack, .emit (.data 7), .recv,
    .acquire, .send,
   .deliver, .turn, .putOut, .hook, .grant, .closeSrc, .recvClosed, .sendEnd, .retire, .deliverBack]

theorem credit_lost_at_retired_sender : ∃ s : St Nat, (sys (oneAtATime .get)).Reach Sys.any s ∧
    (oneAtATime .get).window = 1 ∧ s.granted = true ∧ s.emitted = [.data 7] ∧ outstanding s = 0 :=
  Sys.reach_of_exec (sys (oneAtATime .get)) Sys.any (start (oneAtATime .get)) rfl grantAfterEnd (by decide +kernel)

/-- The run up to the grant: the window of 1 is in flight. -/
theorem credit_conserved_one : ∃ s : St Nat, (sys (oneAtATime .get)).Reach Sys.any s ∧ s.granted = true ∧
    s.emitted = [.data 7] ∧ outstanding s + s.dropped = 1 := by
  obtain ⟨s, hr, hg, he⟩ := Sys.reach_of_exec (sys (oneAtATime .get)) Sys.any (start (oneAtATime .get)) rfl
    (grantAfterEnd.take 17)
    (P := fun s => s.granted = true ∧ s.emitted = [.data 7]) (by decide +kernel)
  exact ⟨s, hr, hg, he, (credit_conserved_lossless (by decide) hr (by intro h; cases h) (by rw [he]; decide)).1 hg⟩

/-! ## Starvation -/

theorem quiet_credit_iff (hr : (sys c).Reach Sys.any s) (hse : Serving c s) (hq : Quiet s) :
    (1 ≤ s.tx.gate.credit ↔ s.leaked + s.got.length % grantBatch c.window < c.window) ∧
    s.leaked + (unsent s).countP (fun v => !v.isData) = s.emitted.countP (fun v => !v.isData) := by
  obtain ⟨-, h⟩ := hse.inv hr
  have hb := h.quiet_books hq
  have hn := h.nulls
  have hmod := Int.emod_nonneg (s.got.length : Int)
    (by have := grantBatch_pos c.window; omega : grantBatch c.window ≠ 0)
  refine ⟨by omega, ?_⟩
  rw [hq.fwd] at hn
  simpa using hn

def unboundedPut : Cfg := ⟨.put, false, 1, 1, 0, id⟩

def noWindow : List (Ev Nat) := [.grantInitial, .deliverBack, .start, .check, .emit (.data 7), .recv]

def nullSent : List (Ev Nat) :=
  [.start, .deliver, .turn, .putOut, .hook, .read, .grantInitial, .deliverBack, .emit .null, .recv,
    .acquire, .send, .deliver]

theorem quiet_without_credit :
    (∃ s : St Nat, (sys unboundedPut).Reach Sys.any s ∧ Quiet s ∧ s.emitted = [.data 7] ∧ s.tx.gate.credit = 0) ∧
    (∃ s : St Nat, (sys (oneAtATime .get)).Reach Sys.any s ∧ Quiet s ∧ s.emitted = [.null] ∧ s.tx.gate.credit = 0) :=
  ⟨Sys.reach_of_exec (sys unboundedPut) Sys.any (start unboundedPut) rfl noWindow (by decide +kernel),
    Sys.reach_of_exec (sys (oneAtATime .get)) Sys.any (start (oneAtATime .get)) rfl nullSent (by decide +kernel)⟩

def windowOf4 : Cfg := ⟨.get, false, 1, 1, 4, id⟩

def passes (n : Nat) : List (Ev Nat) :=
  [.emit (.data n), .recv, .acquire, .send, .deliver, .turn, .putOut, .hook, .read]

/-- Three values, with the grant for the first two between them. -/
def pastBatch : List (Ev Nat) :=
  nullSent.take 8 ++ passes 1 ++ passes 2 ++ ([.grant, .deliverBack] : List (Ev Nat)) ++ passes 3

theorem quiet_credit_pastBatch :
    ∃ s : St Nat, (sys windowOf4).Reach Sys.any s ∧ s.got = [.data 1, .data 2, .data 3] ∧
    grantBatch windowOf4.window = 2 ∧ 1 ≤ s.tx.gate.credit := by
  obtain ⟨s, hr, hq, hgot, hlt⟩ := Sys.reach_of_exec (sys windowOf4) Sys.any (start windowOf4) rfl pastBatch
    (P := fun s => Quiet s ∧ s.got = [.data 1, .data 2, .data 3] ∧
      s.leaked + s.got.length % grantBatch windowOf4.window < windowOf4.window) (by decide +kernel)
  exact ⟨s, hr, hgot, by decide, (quiet_credit_iff hr (by intro h; cases h) hq).1.mpr hlt⟩

end ValueRpc.Stream
