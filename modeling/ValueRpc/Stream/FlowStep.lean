/-
  ValueRpc.Stream.FlowStep — every step of one stream direction keeps the invariant.

  One lemma for each thing that can happen (a value emitted, a credit taken, a frame
  delivered, a value handed out, a delivery counted, ..), then `inv_step` over the
  events and `reach_inv` over the runs.
-/

import ValueRpc.Stream.FlowInv

namespace ValueRpc.Stream

open ValueRpc.Core ValueRpc.Lib

variable {α : Type} {c : Cfg} {s : St α} {v : Value α} {rest : List (Frame α)} {f : Frame α} {t : St α}
  {d : Bool} {b : Back} {e : Ev α}

/-! ## The producer and the sender -/

theorem Inv.emits (h : Inv c s) (v : Value α) (ho : s.srcClosed = false) :
    Inv c { s with src := s.src ++ [v], emitted := s.emitted ++ [v] } :=
  { h with
    whole := by
      have hw := congrArg (· ++ [v].filter Value.isData) h.whole
      simp only [unsent, List.filter_append, List.append_assoc] at hw ⊢
      exact hw
    nulls := by
      have hn := h.nulls
      simp only [unsent, List.countP_append] at hn ⊢
      omega
    srcDone := fun hd => by have := (h.srcDone hd).2; rw [ho] at this; cases this
    ending := fun w hw => by have := (h.ending w hw).2.2; rw [ho] at this; cases this }

theorem Inv.srcClosed (h : Inv c s) : Inv c { s with srcClosed := true } :=
  { h with
    srcDone := fun hd => ⟨(h.srcDone hd).1, rfl⟩
    ending := fun w hw => ⟨(h.ending w hw).1, (h.ending w hw).2.1, rfl⟩ }

theorem valuesInFlight_eq (h : ∀ v, s.tx.pc ≠ .sending v) :
    valuesInFlight s = s.fwd.countP Frame.isValue := by
  unfold valuesInFlight
  split
  · exact absurd ‹_› (h _)
  · rfl

/-- A move of the sender between its start and its end that sends nothing and takes no
    credit. -/
theorem Inv.move (h : Inv c s) (pc : SendPc α) (src : List (Value α)) (hs : s.tx.pc.started = true)
    (hd : s.tx.pc.isDone = false) (hv : ∀ v, s.tx.pc ≠ .sending v) (hs' : pc.started = true)
    (hd' : pc.isDone = false) (hv' : ∀ v, pc ≠ .sending v) (hi : pc.inHand ++ src = unsent s)
    (he : ∀ v, pc = .ending v → v = .nil ∧ src = [] ∧ s.srcClosed = true) :
    Inv c (setPc { s with src := src } pc) :=
  { h with
    txOpen := fun _ => h.txOpen (by intro he; rw [he] at hd; cases hd)
    whole := by
      have hw := h.whole
      rw [acks, hs, ← hi] at hw
      show line s ++ (pc.inHand ++ src).filter Value.isData = acks c (setPc { s with src := src } pc) ++ _
      rw [hw]
      simp [acks, setPc, hs']
    nulls := by
      have hn := h.nulls
      rw [← hi] at hn
      exact hn
    unstarted := fun hf => by rw [show (setPc _ pc).tx.pc = pc from rfl, hs'] at hf; cases hf
    books := by
      have hb := h.books
      simp only [outstanding, valuesInFlight_eq hv] at hb ⊢
      rw [valuesInFlight_eq hv']
      exact hb
    srcDone := fun hf => by rw [show (setPc _ pc).tx.pc = pc from rfl, hd'] at hf; cases hf
    ending := he
    finAt := by
      have hf := h.finAt
      rw [hd] at hf
      show FinAt pc.isDone _ _
      rw [hd']
      exact hf }

theorem Inv.began (h : Inv c s) (hp : s.tx.pc = .start) : Inv c (begin c s) := by
  have hl := h.unstarted (by rw [hp]; rfl)
  have hw := h.whole
  have ho := h.txOpen (by rw [hp]; simp)
  have hf := h.finAt
  have hb := h.books
  have hv : valuesInFlight s = s.fwd.countP Frame.isValue := valuesInFlight_eq (by rw [hp]; exact nofun)
  have hn := h.nulls
  simp only [unsent, hp, SendPc.isDone, SendPc.inHand, hl, acks, SendPc.started, Bool.and_false, Bool.false_eq_true,
    if_false] at hw hf hn
  simp only [outstanding, hv] at hb
  unfold begin
  cases hi : c.dir.toInitiator with
  | true =>
    simp only [if_true]
    refine { h with txOpen := fun _ => ho, frames := ?_, whole := ?_, nulls := ?_, unstarted := ?_, books := ?_,
                    srcDone := ?_, ending := ?_, finAt := ?_ }
    · intro f hf
      rcases List.mem_append.mp hf with hf | hf
      · exact h.frames f hf
      · cases List.mem_singleton.mp hf; exact hi
    · have hl' : line { s with tx := { s.tx with pc := .receiving }, fwd := s.fwd ++ [.ready] } = [.nil] := by
        simp only [line, handed, List.flatMap_append] at hl ⊢
        rw [← List.append_assoc, hl]; rfl
      rw [hl']
      simpa [acks, hi, SendPc.started, unsent, SendPc.inHand] using hw
    · simp only [unsent, List.countP_append] at hn ⊢
      exact hn
    · intro hf; cases hf
    · simp only [outstanding, valuesInFlight, List.countP_append] at hb ⊢
      exact hb
    · intro hf; cases hf
    · intro v hv; cases hv
    · show FinAt false s.rx.pump.inputEnd (s.fwd ++ [.ready])
      cases he : s.rx.pump.inputEnd with
      | true => rw [he] at hf; exact hf.elim
      | false =>
        rw [he] at hf
        intro v hv
        rcases List.mem_append.mp hv with hv | hv
        · exact hf v hv
        · cases List.mem_singleton.mp hv
  | false =>
    simp only [Bool.false_eq_true, if_false]
    refine { h with txOpen := fun _ => ho, whole := ?_, nulls := hn, unstarted := ?_, books := ?_, srcDone := ?_,
                    ending := ?_, finAt := hf }
    · have hl' : line { s with tx := { s.tx with pc := .check } } = [] := hl
      rw [hl']
      simpa [acks, hi, unsent, SendPc.inHand] using hw
    · intro _; exact hl
    · exact hb
    · intro hf; cases hf
    · intro v hv; cases hv

theorem Inv.acquired (h : Inv c s) (hp : s.tx.pc = .acquiring v) (hc : 0 < s.tx.gate.credit) :
    Inv c { s with tx := { s.tx with
      gate := { s.tx.gate with credit := s.tx.gate.credit - 1 }, pc := .sending v } } := by
  have ho := h.txOpen (by rw [hp]; simp)
  have hw := h.whole
  have hf := h.finAt
  have hb := h.books
  have hn := h.nonneg
  have hnull := h.nulls
  simp only [unsent, hp, acks, SendPc.started, SendPc.isDone, SendPc.inHand] at hw hf hnull
  simp only [outstanding, valuesInFlight, hp] at hb
  refine { h with txOpen := fun _ => ho, whole := hw, nulls := hnull, unstarted := ?_, nonneg := ?_, books := ?_,
                  srcDone := ?_, ending := ?_, finAt := hf }
  · intro hf; cases hf
  · exact ⟨by dsimp only; omega, hn.2⟩
  · simp only [outstanding, valuesInFlight, creditInFlight, queued, held, sinceGrant] at hb ⊢
    omega
  · intro hf; cases hf
  · intro v hv; cases hv

theorem filter_wire (v : Value α) : [v.wire].filter Value.isData = [v].filter Value.isData := by
  cases v <;> rfl

theorem finAt_snoc {fwd : List (Frame α)} (hn : ∀ v, f ≠ .fin v) (h : FinAt false d fwd) :
    FinAt false d (fwd ++ [f]) := by
  cases d with
  | true => exact h
  | false =>
    intro v hv
    rcases List.mem_append.mp hv with hv | hv
    · exact h v hv
    · exact hn v (List.mem_singleton.mp hv).symm

theorem Inv.sent (h : Inv c s) {pc : SendPc α} (hp : s.tx.pc = .sending v)
    (hpc : pc = .receiving ∨ pc = .check) :
    Inv c (setPc { s with fwd := s.fwd ++ [.value v.wire] } pc) := by
  have ho := h.txOpen (by rw [hp]; simp)
  have hw := h.whole
  have hf := h.finAt
  have hb := h.books
  have hnull := h.nulls
  simp only [unsent, hp, acks, SendPc.started, SendPc.isDone, SendPc.inHand, List.filter_append,
    List.countP_append] at hw hf hnull
  simp only [outstanding, valuesInFlight, hp] at hb
  have hs : pc.started = true := by rcases hpc with rfl | rfl <;> rfl
  have hd : pc.isDone = false := by rcases hpc with rfl | rfl <;> rfl
  have hi : pc.inHand = [] := by rcases hpc with rfl | rfl <;> rfl
  refine { h with txOpen := fun _ => ho, frames := ?_, whole := ?_, nulls := ?_, unstarted := ?_, books := ?_,
                  srcDone := ?_, ending := ?_, finAt := ?_ }
  · intro f hf
    rcases List.mem_append.mp hf with hf | hf
    · exact h.frames f hf
    · cases List.mem_singleton.mp hf; exact v.wire_ne_nil
  · have hl : line (setPc { s with fwd := s.fwd ++ [.value v.wire] } pc) = line s ++ [v].filter Value.isData := by
      simp only [line, handed, setPc, List.flatMap_append, List.flatMap_singleton, Frame.items, filter_wire,
        List.append_assoc]
    rw [hl]
    simp only [unsent, acks, setPc, hs, hi, List.nil_append, List.append_assoc]
    exact hw
  · simp only [unsent, setPc, hi, List.nil_append, List.countP_append, List.countP_singleton, Frame.skipped,
      Value.isData_wire] at hnull ⊢
    omega
  · intro hf
    rw [show (setPc _ pc).tx.pc = pc from rfl, hs] at hf; cases hf
  · have hv : valuesInFlight
      (setPc { s with fwd := s.fwd ++ [.value v.wire] } pc) = s.fwd.countP Frame.isValue + 1 := by
      rcases hpc with rfl | rfl <;> simp [valuesInFlight, setPc, Frame.isValue]
    simp only [outstanding, hv]
    exact hb
  · intro hf
    rw [show (setPc _ pc).tx.pc = pc from rfl, hd] at hf; cases hf
  · intro w hw
    rcases hpc with rfl | rfl <;> cases hw
  · show FinAt pc.isDone _ _
    rw [hd]
    exact finAt_snoc (by simp) hf

theorem Inv.sentEnd (h : Inv c s) (hp : s.tx.pc = .ending v) :
    Inv c (setPc { s with fwd := s.fwd ++ [.fin v.wire] } .retiring) := by
  obtain ⟨rfl, hsrc, hcl⟩ := h.ending v hp
  have ho := h.txOpen (by rw [hp]; simp)
  have hw := h.whole
  have hf := h.finAt
  have hb := h.books
  have hnull := h.nulls
  simp only [unsent, hp, acks, SendPc.started, SendPc.isDone, SendPc.inHand] at hw hf hnull
  simp only [outstanding, valuesInFlight, hp] at hb
  refine { h with txOpen := fun _ => ho, frames := ?_, whole := ?_, nulls := ?_, unstarted := ?_, books := ?_,
                  srcDone := ?_, ending := ?_, finAt := ?_ }
  · intro f hf
    rcases List.mem_append.mp hf with hf | hf
    · exact h.frames f hf
    · cases List.mem_singleton.mp hf; rfl
  · have hl : line (setPc { s with fwd := s.fwd ++ [.fin (Value.nil : Value α).wire] } .retiring) = line s := by
      simp [line, handed, setPc, Frame.items, Value.wire, Value.isData]
    rw [hl]
    exact hw
  · simp only [unsent, setPc, SendPc.inHand, List.countP_append] at hnull ⊢
    exact hnull
  · intro hf; cases hf
  · simp only [outstanding, valuesInFlight, setPc, List.countP_append] at hb ⊢
    exact hb
  · exact fun _ => ⟨hsrc, hcl⟩
  · intro w hw; cases hw
  · show FinAt true s.rx.pump.inputEnd _
    cases he : s.rx.pump.inputEnd with
    | true => rw [he] at hf; exact hf.elim
    | false => rw [he] at hf; exact ⟨s.fwd, rfl, hf⟩

theorem Inv.retired (h : Inv c s) {t : Sender α} (hp : s.tx.pc = .retiring)
    (ht : t.gate.credit = s.tx.gate.credit) (hpc : t.pc = .ended) : Inv c { s with tx := t } := by
  have ho := h.txOpen (by rw [hp]; simp)
  have hw := h.whole
  have hf := h.finAt
  have hb := h.books
  have hs := h.srcDone (by rw [hp]; rfl)
  have hnull := h.nulls
  simp only [unsent, hp, acks, SendPc.started, SendPc.isDone, SendPc.inHand] at hw hf hnull
  simp only [outstanding, valuesInFlight, hp] at hb
  refine { h with txOpen := ?_, whole := ?_, nulls := ?_, unstarted := ?_, nonneg := ?_, books := ?_, droppedDead := ?_,
                  srcDone := fun _ => hs, ending := ?_, finAt := ?_ }
  · intro hne; exact absurd hpc hne
  · simp only [unsent, acks, hpc, SendPc.started, SendPc.inHand]
    exact hw
  · simp only [unsent, hpc, SendPc.inHand]
    exact hnull
  · intro hf; rw [hpc] at hf; cases hf
  · exact ⟨by dsimp only; rw [ht]; exact h.nonneg.1, h.nonneg.2⟩
  · simp only [outstanding, valuesInFlight, hpc, ht]
    exact hb
  · intro hd
    have := h.droppedDead hd
    rw [ho.2.1] at this; cases this
  · intro v hv; rw [hpc] at hv; cases hv
  · show FinAt t.pc.isDone _ _
    rw [hpc]; exact hf

/-! ## Frames -/

/-- A frame in flight finds the input open and the record there. -/
theorem Inv.open_of_fwd (h : Inv c s) (hf : s.fwd = f :: rest) :
    s.rx.pump.inputEnd = false ∧ s.rx.live = true := by
  have he : s.rx.pump.inputEnd = false := by
    have ha := h.finAt
    cases he : s.rx.pump.inputEnd with
    | false => rfl
    | true =>
      rw [he, hf] at ha
      cases hd : s.tx.pc.isDone with
      | false => rw [hd] at ha; exact ha.elim
      | true => rw [hd] at ha; cases ha
  exact ⟨he, h.rxLive he⟩

theorem finAt_tail (hn : ∀ v, f ≠ .fin v) (h : FinAt d false (f :: rest)) :
    FinAt d false rest := by
  cases d with
  | false => exact fun v hv => h v (List.mem_cons_of_mem _ hv)
  | true =>
    obtain ⟨l, hl, hnf⟩ := h
    cases l with
    | nil => cases hl; exact absurd rfl (hn _)
    | cons g l =>
      cases hl
      exact ⟨l, rfl, fun v hv => hnf v (List.mem_cons_of_mem _ hv)⟩

theorem finAt_fin (h : FinAt d false (.fin v :: rest)) :
    d = true ∧ rest = [] := by
  cases d with
  | false => exact absurd (List.mem_cons_self ..) (h v)
  | true =>
    obtain ⟨l, hl, hnf⟩ := h
    cases l with
    | nil => cases hl; exact ⟨rfl, rfl⟩
    | cons g l => cases hl; exact absurd (List.mem_cons_self ..) (hnf v)

/-- A frame the pump accepts moves its item from the frames to the pump. -/
theorem Inv.accepted (h : Inv c s) {p : StreamPump α} (hf : s.fwd = f :: rest) (hi : f.items = [v])
    (hn : ∀ w, f ≠ .fin w) (hc : f.isValue = v.isData) (hk : f.skipped = false)
    (hp : p.pending = s.rx.pump.pending ++ [v]) (he : p.inputEnd = s.rx.pump.inputEnd)
    (ho : p.overflow = s.rx.pump.overflow) (hs : p.stopped = s.rx.pump.stopped)
    (hm : p.maxPending = s.rx.pump.maxPending) :
    Inv c { s with rx := { s.rx with pump := p }, fwd := rest } := by
  obtain ⟨hend, -⟩ := h.open_of_fwd hf
  have hb := h.books
  have ha := h.finAt
  have hl : line { s with rx := { s.rx with pump := p }, fwd := rest } = line s := by
    simp [line, handed, hp, hf, hi]
  refine { h with bound := ?_, calm := ?_, endedIff := ?_, rxLive := ?_, frames := ?_, whole := ?_, nulls := ?_,
                  unstarted := ?_, books := ?_, finAt := ?_, finished := ?_ }
  · dsimp only; rw [hm]; exact h.bound
  · dsimp only; rw [hs, ho]; exact h.calm
  · dsimp only; rw [he]; exact h.endedIff
  · dsimp only; rw [he]; exact h.rxLive
  · intro g hg
    exact h.frames g (by rw [hf]; exact List.mem_cons_of_mem _ hg)
  · rw [hl]; exact h.whole
  · have hn := h.nulls
    rw [hf, List.countP_cons_of_neg (by simp [hk])] at hn
    exact hn
  · rw [hl]; exact h.unstarted
  · simp only [outstanding, valuesInFlight, queued, hf, hp, List.countP_append, List.countP_cons, hc,
      List.countP_nil] at hb ⊢
    simp only [creditInFlight, held, sinceGrant] at hb ⊢
    omega
  · dsimp only
    rw [he, hend]
    rw [hend, hf] at ha
    exact finAt_tail hn ha
  · intro hfin
    have := (h.finished hfin).1
    rw [hend] at this; cases this

/-- A skipped value leaves the books by one. -/
theorem Inv.skipped (h : Inv c s) (hf : s.fwd = .value .null :: rest) :
    Inv c { s with fwd := rest, leaked := s.leaked + 1 } := by
  obtain ⟨hend, -⟩ := h.open_of_fwd hf
  have hb := h.books
  have ha := h.finAt
  have hl : line { s with fwd := rest, leaked := s.leaked + 1 } = line s := by
    simp [line, handed, hf, Frame.items, Value.isData]
  refine { h with frames := ?_, whole := ?_, nulls := ?_, unstarted := ?_, books := ?_, finAt := ?_ }
  · intro g hg
    exact h.frames g (by rw [hf]; exact List.mem_cons_of_mem _ hg)
  · rw [hl]; exact h.whole
  · have hn := h.nulls
    rw [hf, List.countP_cons_of_pos rfl] at hn
    dsimp only
    simp only [unsent] at hn ⊢
    omega
  · rw [hl]; exact h.unstarted
  · simp only [outstanding, valuesInFlight, hf, List.countP_cons, Frame.isValue, if_true] at hb ⊢
    simp only [creditInFlight, queued, held, sinceGrant] at hb ⊢
    omega
  · dsimp only
    rw [hend] at ha ⊢
    rw [hf] at ha
    exact finAt_tail (by simp) ha

theorem Inv.inputEnded (h : Inv c s) (hf : s.fwd = .fin .null :: rest) (live : Bool) :
    Inv c { s with rx := { s.rx with ended := true, pump := s.rx.pump.close, live := live }, fwd := rest } := by
  obtain ⟨hend, -⟩ := h.open_of_fwd hf
  have hb := h.books
  have ha := h.finAt
  rw [hend, hf] at ha
  obtain ⟨hd, rfl⟩ := finAt_fin ha
  have hl : line { s with
    rx := { s.rx with ended := true, pump := s.rx.pump.close, live := live }, fwd := [] } = line s := by
    simp [line, handed, hf, Frame.items, Value.isData]
  refine { h with endedIff := rfl, rxLive := ?_, frames := ?_, whole := ?_, nulls := ?_, unstarted := ?_, books := ?_,
                  finAt := ?_, finished := ?_ }
  · intro he; cases he
  · intro g hg; cases hg
  · rw [hl]; exact h.whole
  · have hn := h.nulls
    rw [hf, List.countP_cons_of_neg (by simp [Frame.skipped])] at hn
    exact hn
  · rw [hl]; exact h.unstarted
  · simp only [outstanding, valuesInFlight, hf, List.countP_cons, Frame.isValue, Bool.false_eq_true, if_false] at hb ⊢
    exact hb
  · show FinAt s.tx.pc.isDone true []
    rw [hd]; rfl
  · intro hfin
    have := (h.finished hfin).1
    rw [hend] at this; cases this

/-- A StreamCredit that reaches the gate, as a change of the books. -/
theorem Inv.credited (h : Inv c s) {g : CreditGate} {rest : List Back} (hb : s.back = b :: rest)
    (hg : g.credit = s.tx.gate.credit + b.amount) (hc : g.closed = s.tx.gate.closed) :
    Inv c { s with tx := { s.tx with gate := g }, back := rest } := by
  have hbk := h.books
  have hn := h.nonneg
  have hamt := b.amount_nonneg
  simp only [outstanding, creditInFlight, valuesInFlight, queued, held, sinceGrant, hb, List.map_cons,
    List.sum_cons] at hbk
  refine { h with txOpen := ?_, credits := ?_, nonneg := ?_, books := ?_ }
  · intro hne
    rw [hc]
    exact h.txOpen hne
  · exact fun b' hb' => h.credits b' (by rw [hb]; exact List.mem_cons_of_mem _ hb')
  · exact ⟨by dsimp only; omega, hn.2⟩
  · simp only [outstanding, creditInFlight, valuesInFlight, queued, held, sinceGrant, hg]
    omega

/-- One that finds the sender's record gone. -/
theorem Inv.creditDropped (h : Inv c s) {rest : List Back} (hb : s.back = b :: rest)
    (hl : s.tx.live = false) : Inv c { s with back := rest, dropped := s.dropped + b.amount } := by
  have hbk := h.books
  have hn := h.nonneg
  have hamt := b.amount_nonneg
  simp only [outstanding, creditInFlight, valuesInFlight, queued, held, sinceGrant, hb, List.map_cons,
    List.sum_cons] at hbk
  refine { h with credits := ?_, nonneg := ?_, books := ?_, droppedDead := fun _ => hl }
  · exact fun b' hb' => h.credits b' (by rw [hb]; exact List.mem_cons_of_mem _ hb')
  · exact ⟨hn.1, by dsimp only; omega⟩
  · simp only [outstanding, creditInFlight, valuesInFlight, queued, held, sinceGrant]
    omega

/-! ## The pump goroutine and the consumer -/

theorem Inv.took (h : Inv c s) {p : StreamPump α} (hp : s.rx.pc = .waiting)
    (ht : s.rx.pump.take = some (v, p)) :
    Inv c { s with rx := { s.rx with pump := p, pc := .holding v } } := by
  obtain ⟨hpend, he, ho, hs, hm⟩ := StreamPump.take_some ht
  have hb := h.books
  have hl : line { s with rx := { s.rx with pump := p, pc := .holding v } } = line s := by
    simp [line, handed, hp, hpend, runItems]
  refine { h with bound := ?_, calm := ?_, endedIff := ?_, rxLive := ?_, whole := ?_, unstarted := ?_, counter := ?_,
                  hookLast := ?_, granting := ?_, books := ?_, finAt := ?_, finished := ?_ }
  · dsimp only; rw [hm]; exact h.bound
  · dsimp only; rw [hs, ho]; exact h.calm
  · dsimp only; rw [he]; exact h.endedIff
  · dsimp only; rw [he]; exact h.rxLive
  · rw [hl]; exact h.whole
  · rw [hl]; exact h.unstarted
  · have := h.counter
    rw [hp] at this
    exact this
  · intro w hw; cases hw
  · intro n hn; cases hn
  · simp only [outstanding, creditInFlight, queued, held, hp, hpend, List.countP_cons] at hb ⊢
    simp only [valuesInFlight, sinceGrant] at hb ⊢
    omega
  · dsimp only; rw [he]; exact h.finAt
  · intro hf; cases hf

theorem Inv.drained (h : Inv c s) (hp : s.rx.pc = .waiting) (ht : s.rx.pump.take = none)
    (he : s.rx.pump.inputEnd = true) : Inv c { s with rx := { s.rx with pc := .finished } } := by
  have hb := h.books
  have hl : line { s with rx := { s.rx with pc := .finished } } = line s := by simp [line, handed, hp, runItems]
  refine { h with whole := ?_, unstarted := ?_, counter := ?_, hookLast := ?_, granting := ?_, books := ?_, finished := ?_ }
  · rw [hl]; exact h.whole
  · rw [hl]; exact h.unstarted
  · have := h.counter
    rw [hp] at this
    exact this
  · intro w hw; cases hw
  · intro n hn; cases hn
  · simp only [outstanding, creditInFlight, held, hp] at hb ⊢
    exact hb
  · exact fun _ => ⟨he, StreamPump.take_none ht⟩

theorem Inv.put (h : Inv c s) (hp : s.rx.pc = .holding v) :
    Inv c { s with rx := { s.rx with out := s.rx.out ++ [v], pc := .delivered v } } := by
  have hb := h.books
  have hh : handed { s with rx := { s.rx with out := s.rx.out ++ [v], pc := .delivered v } } = handed s ++ [v] := by
    simp [handed]
  have hl : line { s with rx := { s.rx with out := s.rx.out ++ [v], pc := .delivered v } } = line s := by
    simp [line, handed, hp, runItems]
  refine { h with whole := ?_, unstarted := ?_, counter := ?_, hookLast := ?_, granting := ?_, books := ?_, finished := ?_ }
  · rw [hl]; exact h.whole
  · rw [hl]; exact h.unstarted
  · have := h.counter
    rw [hp] at this
    rw [hh]
    simpa [unseen] using this
  · intro w hw
    cases hw
    exact ⟨_, hh⟩
  · intro n hn; cases hn
  · simp only [outstanding, creditInFlight, held, hp] at hb ⊢
    exact hb
  · intro hf; cases hf

/-- A read moves a value within what was handed out. -/
theorem Inv.outTaken (h : Inv c s) (ht : takeOut c s = some t) : Inv c t := by
  unfold takeOut at ht
  split at ht
  case h_2 => cases ht
  case h_1 v rest ho =>
  split at ht
  · rename_i hfirst
    simp only [Bool.and_eq_true, Option.isNone_iff_eq_none] at hfirst
    obtain ⟨hi, hnone⟩ := hfirst
    obtain ⟨hgot, hgr⟩ := h.beforeFirst hi hnone
    cases ht
    have hh : handed { s with rx := { s.rx with out := rest }, first := some v } = handed s := by
      simp [handed, hnone, hgot, ho]
    refine { h with whole := ?_, unstarted := ?_, noFirst := ?_, beforeFirst := ?_, counter := ?_, hookLast := ?_ }
    · simp only [line, hh]; exact h.whole
    · simp only [line, hh]; exact h.unstarted
    · intro hf; rw [hi] at hf; cases hf
    · intro _ hf; cases hf
    · rw [hh]; exact h.counter
    · rw [hh]; exact h.hookLast
  · rename_i hfirst
    cases ht
    have hh : handed { s with rx := { s.rx with out := rest }, got := s.got ++ [v] } = handed s := by
      simp [handed, ho]
    refine { h with whole := ?_, unstarted := ?_, beforeFirst := ?_, counter := ?_, hookLast := ?_ }
    · simp only [line, hh]; exact h.whole
    · simp only [line, hh]; exact h.unstarted
    · intro hi hn
      have hn : s.first = none := hn
      exact absurd (by simp [hi, hn]) hfirst
    · rw [hh]; exact h.counter
    · rw [hh]; exact h.hookLast

/-- What the hook is about to count: the ack at -1, a payload at 0 or more. -/
theorem Inv.delivered_cases (h : Inv c s) (hp : s.rx.pc = .delivered v) :
    (v.isData = false ∧ s.rx.delivered = -1) ∨ (v.isData = true ∧ 0 ≤ s.rx.delivered) := by
  obtain ⟨l, hl⟩ := h.hookLast v hp
  have hc := h.counter
  rw [hl, hp] at hc
  simp only [List.length_append, List.length_singleton, unseen, Nat.add_sub_cancel] at hc
  have hline : line s = l ++ (v :: (s.rx.pump.pending ++ s.fwd.flatMap Frame.items)) := by
    simp [line, hl, hp, runItems]
  by_cases hfirst : c.dir.toInitiator = true ∧ l = []
  · obtain ⟨hi, rfl⟩ := hfirst
    have := h.ack_first hi hline
    subst this
    exact .inl ⟨rfl, by rw [hc, hi]; rfl⟩
  · refine .inr ⟨h.payloads hline (fun hi he => hfirst ⟨hi, he⟩) v (by simp), ?_⟩
    rw [hc]
    exact countAt_nonneg (grantBatch_pos _) (fun hi he => hfirst ⟨hi, by simpa using he⟩)

/-- The hook's two outcomes: count on, or start over and grant what was counted. -/
theorem Inv.counted (h : Inv c s) {d : Int} {pc : RunPc α} (hp : s.rx.pc = .delivered v)
    (hd : d = countAt c.dir.toInitiator (grantBatch c.window) (handed s).length)
    (hpc : (pc = .waiting ∧ d = s.rx.delivered + 1) ∨ (pc = .granting (s.rx.delivered + 1) ∧ d = 0)) :
    Inv c { s with rx := { s.rx with delivered := d, pc := pc } } := by
  have hcase := h.delivered_cases hp
  have hb := h.books
  simp only [outstanding, creditInFlight, valuesInFlight, queued, held, hp, sinceGrant] at hb
  have hheld : (if v.isData = true then 1 else 0 : Nat) + max s.rx.delivered 0 = s.rx.delivered + 1 := by
    rcases hcase with ⟨hv, hd⟩ | ⟨hv, hd⟩
    · rw [hv, hd]; decide
    · rw [hv, if_pos rfl]; omega
  have hl : line { s with rx := { s.rx with delivered := d, pc := pc } } = line s := by
    rcases hpc with ⟨rfl, -⟩ | ⟨rfl, -⟩ <;> simp [line, handed, hp, runItems]
  refine { h with whole := ?_, unstarted := ?_, counter := ?_, hookLast := ?_, granting := ?_, books := ?_,
                  finished := ?_ }
  · rw [hl]; exact h.whole
  · rw [hl]; exact h.unstarted
  · rcases hpc with ⟨rfl, -⟩ | ⟨rfl, -⟩ <;> exact hd
  · intro w hw
    rcases hpc with ⟨rfl, -⟩ | ⟨rfl, -⟩ <;> cases hw
  · intro n hn
    rcases hpc with ⟨rfl, -⟩ | ⟨rfl, -⟩
    · cases hn
    · cases hn; rcases hcase with ⟨-, hd⟩ | ⟨-, hd⟩ <;> omega
  · simp only [outstanding, creditInFlight, valuesInFlight, queued, held, sinceGrant]
    rcases hpc with ⟨rfl, rfl⟩ | ⟨rfl, rfl⟩ <;> dsimp only <;> omega
  · intro hf
    rcases hpc with ⟨rfl, -⟩ | ⟨rfl, -⟩ <;> cases hf

theorem Inv.grantSent (h : Inv c s) {n : Int} (hp : s.rx.pc = .granting n) :
    Inv c { s with rx := { s.rx with pc := .waiting }, back := s.back ++ [.credit n] } := by
  have hn := h.granting n hp
  have hb := h.books
  have hc := h.counter
  have hl : line { s with rx := { s.rx with pc := .waiting }, back := s.back ++ [.credit n] } = line s := by
    simp [line, handed, hp, runItems]
  rw [hp] at hc
  refine { h with credits := ?_, whole := ?_, unstarted := ?_, counter := hc, hookLast := ?_, granting := ?_, books := ?_,
                  finished := ?_ }
  · intro b hb
    rcases List.mem_append.mp hb with hb | hb
    · exact h.credits b hb
    · exact ⟨n, List.mem_singleton.mp hb⟩
  · rw [hl]; exact h.whole
  · rw [hl]; exact h.unstarted
  · intro w hw; cases hw
  · intro m hm; cases hm
  · simp only [outstanding, creditInFlight, valuesInFlight, queued, held, hp, sinceGrant, List.map_append,
      List.sum_append,
      List.map_cons, List.map_nil, List.sum_cons, List.sum_nil, Back.amount] at hb ⊢
    omega
  · intro hf; cases hf

theorem Inv.windowGranted (h : Inv c s) (hg : s.granted = false)
    (hf : c.dir.toInitiator = true → s.first.isSome = true) :
    Inv c { s with granted := true, back := s.back ++ [.credit s.rx.creditWindow] } := by
  have hb := h.books
  refine { h with credits := ?_, beforeFirst := ?_, books := ?_ }
  · intro b hb
    rcases List.mem_append.mp hb with hb | hb
    · exact h.credits b hb
    · exact ⟨_, List.mem_singleton.mp hb⟩
  · intro hi hn
    have := hf hi
    rw [show s.first = none from hn] at this; cases this
  · simp only [outstanding, creditInFlight, valuesInFlight, queued, held, sinceGrant, hg, List.map_append,
      List.sum_append,
      List.map_cons, List.map_nil, List.sum_cons, List.sum_nil, Back.amount, h.window, Bool.false_eq_true, if_false,
      if_true] at hb ⊢
    omega

theorem Inv.putEnded (h : Inv c s) :
    Inv c { s with rx := { s.rx with putClosed := true, live := s.rx.live && !s.rx.ended } } := by
  refine { h with rxLive := ?_ }
  intro he
  have hl := h.rxLive he
  have hd := h.endedIff
  rw [show s.rx.pump.inputEnd = false from he] at hd
  simp [hl, hd]

/-! ## What a step does

From a state with the invariant and the serving side not ended, none of the branches
for a closed gate, a refused push, an overrun or a stop is taken. -/

inductive Happens (c : Cfg) (s : St α) : Ev α → St α → Prop
  | emit {v : Value α} : s.srcClosed = false →
      Happens c s (.emit v) { s with src := s.src ++ [v], emitted := s.emitted ++ [v] }
  | closeSrc : Happens c s .closeSrc { s with srcClosed := true }
  | start : s.tx.pc = .start → Happens c s .start (begin c s)
  | check : s.tx.pc = .check → Happens c s .check (setPc s .receiving)
  | recv {v : Value α} {rest : List (Value α)} : s.tx.pc = .receiving → s.src = v :: rest →
      Happens c s .recv (setPc { s with src := rest } (.acquiring v))
  | recvClosed : s.tx.pc = .receiving → s.src = [] → s.srcClosed = true →
      Happens c s .recvClosed (setPc s (.ending .nil))
  | acquire {v : Value α} : s.tx.pc = .acquiring v → 0 < s.tx.gate.credit →
      Happens c s .acquire { s with
        tx := { s.tx with gate := { s.tx.gate with credit := s.tx.gate.credit - 1 }, pc := .sending v } }
  | send {v : Value α} {pc : SendPc α} : s.tx.pc = .sending v → pc = .receiving ∨ pc = .check →
      Happens c s .send (setPc { s with fwd := s.fwd ++ [.value v.wire] } pc)
  | sendEnd {v : Value α} : s.tx.pc = .ending v →
      Happens c s .sendEnd (setPc { s with fwd := s.fwd ++ [.fin v.wire] } .retiring)
  | retire {t : Sender α} : s.tx.pc = .retiring → t.gate.credit = s.tx.gate.credit → t.pc = .ended →
      Happens c s .retire { s with tx := t }
  | accept {f : Frame α} {v : Value α} {rest : List (Frame α)} {p : StreamPump α} : s.fwd = f :: rest →
      f.items = [v] → (∀ w, f ≠ .fin w) → f.isValue = v.isData → f.skipped = false →
      p.pending = s.rx.pump.pending ++ [v] → p.inputEnd = s.rx.pump.inputEnd → p.overflow = s.rx.pump.overflow →
      p.stopped = s.rx.pump.stopped → p.maxPending = s.rx.pump.maxPending →
      Happens c s .deliver { s with rx := { s.rx with pump := p }, fwd := rest }
  | skip {rest : List (Frame α)} : s.fwd = .value .null :: rest →
      Happens c s .deliver { s with fwd := rest, leaked := s.leaked + 1 }
  | inputEnd {rest : List (Frame α)} {live : Bool} : s.fwd = .fin .null :: rest →
      Happens c s .deliver { s with
        rx := { s.rx with ended := true, pump := s.rx.pump.close, live := live }, fwd := rest }
  | credit {g : CreditGate} {b : Back} {rest : List Back} : s.back = b :: rest → s.tx.live = true →
      g.credit = s.tx.gate.credit + b.amount → g.closed = s.tx.gate.closed →
      Happens c s .deliverBack { s with tx := { s.tx with gate := g }, back := rest }
  | drop {b : Back} {rest : List Back} : s.back = b :: rest → s.tx.live = false →
      Happens c s .deliverBack { s with back := rest, dropped := s.dropped + b.amount }
  | take {v : Value α} {p : StreamPump α} : s.rx.pc = .waiting → s.rx.pump.take = some (v, p) →
      Happens c s .turn { s with rx := { s.rx with pump := p, pc := .holding v } }
  | drain : s.rx.pc = .waiting → s.rx.pump.take = none → s.rx.pump.inputEnd = true →
      Happens c s .turn { s with rx := { s.rx with pc := .finished } }
  | put {v : Value α} : s.rx.pc = .holding v →
      Happens c s .putOut { s with rx := { s.rx with out := s.rx.out ++ [v], pc := .delivered v } }
  | handoff {v : Value α} {t : St α} : s.rx.pc = .holding v →
      takeOut c { s with rx := { s.rx with out := s.rx.out ++ [v], pc := .delivered v } } = some t →
      Happens c s .handoff t
  | hook {v : Value α} {d : Int} {pc : RunPc α} : s.rx.pc = .delivered v →
      d = countAt c.dir.toInitiator (grantBatch c.window) (handed s).length →
      (pc = .waiting ∧ d = s.rx.delivered + 1) ∨ (pc = .granting (s.rx.delivered + 1) ∧ d = 0) →
      Happens c s .hook { s with rx := { s.rx with delivered := d, pc := pc } }
  | grant {n : Int} : s.rx.pc = .granting n →
      Happens c s .grant { s with rx := { s.rx with pc := .waiting }, back := s.back ++ [.credit n] }
  | grantInitial : s.granted = false → (c.dir.toInitiator = true → s.first.isSome = true) →
      Happens c s .grantInitial { s with granted := true, back := s.back ++ [.credit s.rx.creditWindow] }
  | read {t : St α} : takeOut c s = some t → Happens c s .read t
  | putDone : s.rx.putClosed = false →
      Happens c s .putDone { s with rx := { s.rx with putClosed := true, live := s.rx.live && !s.rx.ended } }

theorem Happens.inv (hh : Happens c s e t) (h : Inv c s) : Inv c t := by
  cases hh with
  | emit ho => exact h.emits _ ho
  | closeSrc => exact h.srcClosed
  | start hp => exact h.began hp
  | check hp =>
    exact h.move .receiving s.src (by rw [hp]; rfl) (by rw [hp]; rfl) (by rw [hp]; simp) rfl rfl (by simp)
      (by rw [unsent, hp]; rfl) (by simp)
  | @recv v rest hp hsrc =>
    exact h.move (.acquiring v) rest (by rw [hp]; rfl) (by rw [hp]; rfl) (by rw [hp]; simp) rfl rfl (by simp)
      (by rw [unsent, hp, hsrc]; rfl) (by simp)
  | recvClosed hp hsrc hcl =>
    exact h.move (.ending .nil) s.src (by rw [hp]; rfl) (by rw [hp]; rfl) (by rw [hp]; simp) rfl rfl (by simp)
      (by rw [unsent, hp]; rfl) (by intro v hv; cases hv; exact ⟨rfl, hsrc, hcl⟩)
  | acquire hp hc => exact h.acquired hp hc
  | send hp hpc => exact h.sent hp hpc
  | sendEnd hp => exact h.sentEnd hp
  | retire hp ht hpc => exact h.retired hp ht hpc
  | accept hf hi hn hc hk hp he ho hs hm => exact h.accepted hf hi hn hc hk hp he ho hs hm
  | skip hf => exact h.skipped hf
  | inputEnd hf => exact h.inputEnded hf _
  | credit hb _ hg hc => exact h.credited hb hg hc
  | drop hb hl => exact h.creditDropped hb hl
  | take hp ht => exact h.took hp ht
  | drain hp ht he => exact h.drained hp ht he
  | put hp => exact h.put hp
  | handoff hp ht => exact (h.put hp).outTaken ht
  | hook hp hd hpc => exact h.counted hp hd hpc
  | grant hp => exact h.grantSent hp
  | grantInitial hg hf => exact h.windowGranted hg hf
  | read ht => exact h.outTaken ht
  | putDone _ => exact h.putEnded

theorem Inv.deliver_happens (h : Inv c s) (hf : s.fwd = f :: rest) :
    Happens c s .deliver (deliver c s f rest) := by
  obtain ⟨hend, hlive⟩ := h.open_of_fwd hf
  have hsound := h.frames f (by rw [hf]; exact List.mem_cons_self ..)
  unfold deliver
  rw [if_pos hlive]
  cases f with
  | ready =>
    -- the ack comes first, so it finds the pump empty
    have hempty : s.rx.pump.pending = [] := by
      by_contra hne
      have := h.payloads (l := handed s ++ runItems s.rx.pc ++ s.rx.pump.pending)
        (r := .nil :: rest.flatMap Frame.items) (by simp [line, hf, Frame.items]) (by simp [hne]) .nil (by simp)
      cases this
    obtain ⟨p, hp, hpend, he, ho, hs, hm⟩ := StreamPump.push_ok c.grow .nil hend h.calm.1
      (by rw [hempty]; exact h.bound.1)
    simp only [Dir.receive_ready c.grow s.rx hsound, hp, List.append_nil]
    exact .accept hf rfl (by simp) rfl rfl hpend (he.trans hend.symm) ho (hs.trans h.calm.1.symm) hm
  | value v =>
    cases hv : v.isData with
    | true =>
      have hroom : s.rx.pump.pending.length < s.rx.pump.maxPending :=
        h.room (by simp only [valuesInFlight, hf, List.countP_cons, Frame.isValue, if_true]; omega)
      obtain ⟨p, hp, hpend, he, ho, hs, hm⟩ := StreamPump.push_ok c.grow v hend h.calm.1 hroom
      simp only [c.dir.receive_data hv hp (ho.trans h.calm.2), List.append_nil, Frame.skipped, hv]
      exact .accept hf (by simp [Frame.items, hv]) (by simp) hv.symm (by simp [Frame.skipped, hv]) hpend
        (he.trans hend.symm) ho (hs.trans h.calm.1.symm) hm
    | false =>
      have hnull : v = .null := by cases v <;> simp_all [Sound, Value.isData]
      subst hnull
      simp only [c.dir.receive_null c.grow h.calm.2, List.append_nil]
      exact .skip hf
  | fin v =>
    have hnull : v = .null := hsound
    subst hnull
    obtain ⟨live, hr⟩ := c.dir.receive_fin c.grow (r := s.rx) (h.endedIff.trans hend)
    simp only [hr, List.append_nil]
    exact .inputEnd hf

theorem Inv.deliverBack_happens (h : Inv c s) {rest : List Back} (hb : s.back = b :: rest) :
    Happens c s .deliverBack (deliverBack c s b rest) := by
  obtain ⟨n, rfl⟩ := h.credits b (by rw [hb]; exact List.mem_cons_self ..)
  unfold deliverBack
  split
  · rename_i hlive
    have hfits := h.grant_fits hb
    rw [Back.amount_credit] at hfits
    have hcredit := CreditGate.grant_credit h.nonneg.1 hfits
    rw [Dir.receiveBack_credit]
    exact .credit hb hlive hcredit (CreditGate.grant_closed _ _)
  · exact .drop hb (Bool.eq_false_iff.mpr ‹_›)

theorem Inv.hook_happens (h : Inv c s) (hp : s.rx.pc = .delivered v) :
    Happens c s .hook { s with rx := s.rx.grantDelivered } := by
  obtain ⟨l, hl⟩ := h.hookLast v hp
  have hc := h.counter
  have hsucc := countAt_succ c.dir.toInitiator (grantBatch_pos c.window) l.length
  rw [hl, hp] at hc
  simp only [List.length_append, List.length_singleton, unseen, Nat.add_sub_cancel] at hc
  rw [← hc] at hsucc
  unfold Receiver.grantDelivered
  dsimp only
  split
  all_goals rename_i hle; rw [h.window] at hle
  all_goals simp only [hle, if_true, if_false] at hsucc
  · exact .hook hp (by rw [hl, List.length_append, List.length_singleton, hsucc]) (.inr ⟨rfl, rfl⟩)
  · exact .hook hp (by rw [hl, List.length_append, List.length_singleton, hsucc]) (.inl ⟨rfl, rfl⟩)

/-- Every step is one of these, or the serving side ends its output. -/
theorem Inv.happens (h : Inv c s) (hse : s.servingEnded = false) (hst : step c s e = some t) :
    e = .servingEnds ∨ Happens c s e t := by
  -- a sender that has not ended is open
  have hopen : s.tx.pc = .receiving → (c.dir.toInitiator && s.tx.closed) = false := fun hp => by
    rw [(h.txOpen (by rw [hp]; simp)).2.2, Bool.and_false]
  cases step_cases hst with
  | emit v ho => exact .inr (.emit ho)
  | closeSrc => exact .inr .closeSrc
  | start hp => exact .inr (.start hp)
  | check hp =>
    rw [(h.txOpen (by rw [hp]; simp)).2.2]
    exact .inr (.check hp)
  | recv hp hsrc =>
    rw [hopen hp]
    exact .inr (.recv hp hsrc)
  | recvClosed hp hsrc hcl => exact .inr (.recvClosed hp hsrc hcl)
  | recvDone hp hcl =>
    rw [hopen hp] at hcl
    cases hcl
  | acquire hp hpos => exact .inr (.acquire hp hpos)
  | refused hp hcl =>
    rw [(h.txOpen (by rw [hp]; simp)).1] at hcl
    cases hcl
  | send hp => exact .inr (.send hp (by split <;> simp))
  | sendEnd hp => exact .inr (.sendEnd hp)
  | retire hp hg hpc => exact .inr (.retire hp hg hpc)
  | deliver hf => exact .inr (h.deliver_happens hf)
  | deliverBack hb => exact .inr (h.deliverBack_happens hb)
  | take hp _ ht => exact .inr (.take hp ht)
  | drain hp hend =>
    obtain ⟨ht, he⟩ := hend.resolve_left (by rw [h.calm.1]; simp)
    exact .inr (.drain hp ht he)
  | put hp => exact .inr (.put hp)
  | handoff hp ht => exact .inr (.handoff hp ht)
  | abandon _ hs =>
    rw [h.calm.1] at hs
    cases hs
  | hook hp => exact .inr (h.hook_happens hp)
  | grant hp => exact .inr (.grant hp)
  | grantInitial hg hf => exact .inr (.grantInitial hg hf)
  | read ht => exact .inr (.read ht)
  | servingEnds _ _ => exact .inl rfl
  | toldEnded hs =>
    rw [hse] at hs
    cases hs
  | putDone hp => exact .inr (.putDone hp)

/-! ## Every run -/

theorem begin_servingEnded : (begin c s).servingEnded = s.servingEnded := by
  unfold begin
  split <;> rfl

theorem deliver_servingEnded (f : Frame α) (rest : List (Frame α)) :
    (deliver c s f rest).servingEnded = s.servingEnded := by
  unfold deliver
  split <;> rfl

theorem deliverBack_servingEnded (b : Back) (rest : List Back) :
    (deliverBack c s b rest).servingEnded = s.servingEnded := by
  unfold deliverBack
  split <;> rfl

theorem takeOut_servingEnded (h : takeOut c s = some t) : t.servingEnded = s.servingEnded := by
  unfold takeOut at h
  split at h
  · split at h <;> cases h <;> rfl
  · cases h

/-- Only the serving side of a chat ends its output, once and for all. -/
theorem step_servingEnded (hst : step c s e = some t) :
    (t.servingEnded = true ∧ c.chat = true ∧ c.dir.toInitiator = false) ∨ t.servingEnded = s.servingEnded := by
  cases step_cases hst with
  | start => exact .inr begin_servingEnded
  | deliver => exact .inr (deliver_servingEnded ..)
  | deliverBack => exact .inr (deliverBack_servingEnded ..)
  | handoff _ ht =>
    have hkeep := takeOut_servingEnded ht
    exact .inr hkeep
  | read ht => exact .inr (takeOut_servingEnded ht)
  | servingEnds hc hd => exact .inl ⟨rfl, hc, hd⟩
  | _ => exact .inr rfl

theorem reach_servingEnded (h : (sys c).Reach Sys.any s) :
    s.servingEnded = true → c.chat = true ∧ c.dir.toInitiator = false := by
  refine h.inv (P := fun s => s.servingEnded = true → c.chat = true ∧ c.dir.toInitiator = false) ?_ ?_
  · rintro s rfl hs; cases hs
  · intro s e t hs _ hst ht
    rcases step_servingEnded hst with hc | heq
    · exact hc.2
    · exact hs (heq ▸ ht)

/-- The invariant holds until the serving side of a chat ends its output. -/
theorem reach_inv (h : (sys c).Reach Sys.any s) (hse : s.servingEnded = false) : Inv c s := by
  refine h.inv (P := fun s => s.servingEnded = false → Inv c s) ?_ ?_ hse
  · rintro s rfl _
    exact inv_start c
  · intro s e t hs _ hst ht
    rcases step_servingEnded hst with ⟨hc, -⟩ | heq
    · rw [ht] at hc; cases hc
    · have hi := hs (heq.symm.trans ht)
      rcases hi.happens (heq.symm.trans ht) hst with rfl | hh
      · simp only [sys, step] at hst
        split at hst
        · cases hst; cases ht
        · cases hst
      · exact hh.inv hi

end ValueRpc.Stream
