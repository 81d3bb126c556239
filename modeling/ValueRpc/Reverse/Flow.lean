/-
  ValueRpc.Reverse.Flow — one direction of a server-initiated stream, seen from its two ends.

  What the producer has sent is an opening frame, then values it took in the order it took
  them, then at most one StreamEnd, after the last of them (`Sound`); `Loop` is the same with
  the goroutine's place. What arrives is a beginning of what was sent (`FlowOk.behind`), and
  the record's pump holds what those frames bring until it is stopped (`RxOk`).

  `receive_value`, `receive_fin` and `receive_stopped` say once what a frame does to either kind
  of receiving record; the rest of the file takes one flow through each thing that can happen
  to it.
-/

import ValueRpc.Reverse.Session

namespace ValueRpc.Reverse

open ValueRpc.Core ValueRpc.Lib ValueRpc.Stream

variable {α : Type} {w : Way} {taken : List (Value α)} {l : List (Body α)} {here' : Prop} {rx : Receiver α}

/-! ## What a producer sends -/

def opening : Way → Body α
  | .toServer => .frame .ready
  | .toClient => .request

def dataOf (v : Value α) : List (Value α) := if v.isData then [v] else []

def valueBody (v : Value α) : Body α := .frame (.value v.wire)

def Body.pushes (w : Way) : Body α → List (Value α)
  | .request => []
  | .frame .ready =>
    match w with
    | .toServer => [.nil]
    | .toClient => []
  | .frame (.value v) => dataOf v
  | .frame (.fin v) => dataOf v

def pushed (w : Way) (l : List (Body α)) : List (Value α) := l.flatMap (Body.pushes w)

/-- The ack that `awaitReady` takes from the channel. -/
def lead : Way → List (Value α)
  | .toServer => [.nil]
  | .toClient => []

def Body.isFin : Body α → Bool
  | .frame (.fin _) => true
  | _ => false

def Fin (l : List (Body α)) : Prop := ∃ b ∈ l, b.isFin = true

inductive Sound (w : Way) (taken : List (Value α)) : List (Body α) → Prop
  | none : Sound w taken []
  | started {vs : List (Value α)} : vs.IsPrefix taken → Sound w taken (opening w :: vs.map valueBody)
  | whole {vs : List (Value α)} {v : Value α} : vs ++ dataOf v = taken →
      Sound w taken (opening w :: vs.map valueBody ++ [.frame (.fin v.wire)])

theorem pushed_append (w : Way) (l l' : List (Body α)) : pushed w (l ++ l') = pushed w l ++ pushed w l' :=
  List.flatMap_append

theorem pushed_opening (w : Way) : Body.pushes w (opening w : Body α) = lead w := by cases w <;> rfl

theorem isFin_opening (w : Way) : (opening w : Body α).isFin = false := by cases w <;> rfl

theorem dataOf_wire (v : Value α) : dataOf v.wire = dataOf v := by cases v <;> rfl

theorem pushed_values {vs : List (Value α)} (h : ∀ v ∈ vs, v.isData = true) :
    pushed w (vs.map valueBody) = vs := by
  induction vs with
  | nil => rfl
  | cons v vs ih =>
    obtain ⟨hv, hvs⟩ := List.forall_mem_cons.mp h
    have := ih hvs
    simp only [pushed, List.map_cons, List.flatMap_cons] at this ⊢
    rw [this]
    simp [Body.pushes, valueBody, dataOf, Value.wire_of_isData hv, hv]

theorem not_fin_values (vs : List (Value α)) : ¬ Fin (opening w :: vs.map valueBody) := by
  rintro ⟨b, hb, hf⟩
  rcases List.mem_cons.mp hb with rfl | hb
  · simp [isFin_opening] at hf
  · obtain ⟨v, -, rfl⟩ := List.mem_map.mp hb
    cases hf

/-- A beginning of what was sent could have been all of it. -/
theorem Sound.of_isPrefix {l' : List (Body α)} (h : Sound w taken l) (hp : l'.IsPrefix l) :
    Sound w taken l' := by
  -- a beginning of the opening frame and the values
  have started {vs : List (Value α)} (hv : vs.IsPrefix taken) {l' : List (Body α)}
      (hp : l'.IsPrefix (opening w :: vs.map valueBody)) : Sound w taken l' := by
    cases l' with
    | nil => exact .none
    | cons b l' =>
      obtain ⟨rfl, ht⟩ := List.cons_prefix_cons.mp hp
      obtain ⟨us, hus, rfl⟩ := List.prefix_map_iff.mp ht
      exact .started (hus.trans hv)
  cases h with
  | none => rw [List.prefix_nil.mp hp]; exact .none
  | started hv => exact started hv hp
  | whole hv =>
    rcases List.prefix_concat_iff.mp hp with rfl | hp
    · exact .whole hv
    · exact started ⟨_, hv⟩ hp

theorem Sound.pushed_isPrefix (h : Sound w taken l) (hd : ∀ v ∈ taken, v.isData = true) :
    (pushed w l).IsPrefix (lead w ++ taken) := by
  cases h with
  | none => exact List.nil_prefix
  | started hv =>
    have := pushed_values (w := w) fun v hm => hd v (hv.subset hm)
    simp only [pushed, List.flatMap_cons, pushed_opening] at this ⊢
    rw [this]
    exact (List.prefix_append_right_inj _).mpr hv
  | @whole vs v hv =>
    have := pushed_values (w := w) fun u hm => hd u (hv ▸ List.mem_append_left _ hm)
    simp only [pushed, List.cons_append, List.flatMap_cons, List.flatMap_append, pushed_opening] at this ⊢
    rw [this]
    simp [Body.pushes, dataOf_wire, hv]

/-- After a StreamEnd everything the producer took has been sent. -/
theorem Sound.pushed_of_fin (h : Sound w taken l) (hd : ∀ v ∈ taken, v.isData = true) (hf : Fin l) :
    pushed w l = lead w ++ taken := by
  cases h with
  | none => obtain ⟨b, hb, -⟩ := hf; cases hb
  | started hv => exact absurd hf (not_fin_values _)
  | @whole vs v hv =>
    have := pushed_values (w := w) fun u hm => hd u (hv ▸ List.mem_append_left _ hm)
    simp only [pushed, List.cons_append, List.flatMap_cons, List.flatMap_append, pushed_opening] at this ⊢
    rw [this]
    simp [Body.pushes, dataOf_wire, hv]

/-- Nothing follows a StreamEnd. -/
theorem Sound.not_fin {b : Body α} (h : Sound w taken (l ++ [b])) : ¬ Fin l := by
  generalize hl : l ++ [b] = m at h
  cases h with
  | none => simp at hl
  | @started vs hv =>
    rintro ⟨x, hx, hf⟩
    exact not_fin_values (w := w) vs ⟨x, hl ▸ List.mem_append_left _ hx, hf⟩
  | whole hv =>
    obtain ⟨rfl, -⟩ := List.append_inj' hl rfl
    exact not_fin_values _

/-- The opening frame is the first, and only the first. -/
theorem Sound.opening_iff {b : Body α} (h : Sound w taken (l ++ [b])) : b = opening w ↔ l = [] := by
  have value (v : Value α) : valueBody v ≠ opening w := by cases w <;> simp [valueBody, opening]
  have last {vs : List (Value α)} (hl : l ++ [b] = opening w :: vs.map valueBody) : b = opening w ↔ l = [] := by
    cases l with
    | nil => simp at hl; simp [hl.1]
    | cons x l =>
      obtain ⟨-, hl⟩ := List.cons.inj hl
      have hb : b ∈ vs.map valueBody := hl ▸ by simp
      obtain ⟨v, -, rfl⟩ := List.mem_map.mp hb
      simp [value v]
  generalize hm : l ++ [b] = m at h
  cases h with
  | none => simp at hm
  | started hv => exact last hm
  | whole hv =>
    obtain ⟨rfl, hb⟩ := List.append_inj' hm rfl
    cases hb
    cases w <;> simp [opening]

/-- A frame of a flow is its opening frame, a value or a StreamEnd. -/
theorem Sound.frame_cases {b : Body α} (h : Sound w taken (l ++ [b])) :
    b = opening w ∨ (∃ v, b = .frame (.value v)) ∨ ∃ v, b = .frame (.fin v) := by
  generalize hm : l ++ [b] = m at h
  have hb : b ∈ m := hm ▸ by simp
  cases h with
  | none => cases hb
  | started hv =>
    rcases List.mem_cons.mp hb with rfl | hb
    · exact .inl rfl
    · obtain ⟨v, -, rfl⟩ := List.mem_map.mp hb
      exact .inr (.inl ⟨_, rfl⟩)
  | whole hv =>
    rcases List.mem_append.mp hb with hb | hb
    · rcases List.mem_cons.mp hb with rfl | hb
      · exact .inl rfl
      · obtain ⟨v, -, rfl⟩ := List.mem_map.mp hb
        exact .inr (.inl ⟨_, rfl⟩)
    · exact .inr (.inr ⟨_, List.mem_singleton.mp hb⟩)

/-- What was sent, by the goroutine's place. -/
def Loop (w : Way) (taken : List (Value α)) (sent : List (Body α)) : Option (SendPc α) → Prop
  | none => sent = [] ∧ taken = []
  | some .start => sent = [] ∧ taken = []
  | some .check => sent = opening w :: taken.map valueBody
  | some .receiving => sent = opening w :: taken.map valueBody
  | some (.acquiring v) => ∃ vs, taken = vs ++ [v] ∧ sent = opening w :: vs.map valueBody
  | some (.sending v) => ∃ vs, taken = vs ++ [v] ∧ sent = opening w :: vs.map valueBody
  | some (.ending v) => ∃ vs, taken = vs ++ dataOf v ∧ sent = opening w :: vs.map valueBody
  | some .retiring => Sound w taken sent
  | some .ended => Sound w taken sent

theorem Loop.sound {pc : Option (SendPc α)} (h : Loop w taken l pc) : Sound w taken l := by
  cases pc with
  | none => rw [h.1]; exact .none
  | some pc =>
    cases pc with
    | start => rw [h.1]; exact .none
    | check => rw [show l = _ from h]; exact .started (List.prefix_refl _)
    | receiving => rw [show l = _ from h]; exact .started (List.prefix_refl _)
    | acquiring v => obtain ⟨vs, rfl, rfl⟩ := h; exact .started (List.prefix_append _ _)
    | sending v => obtain ⟨vs, rfl, rfl⟩ := h; exact .started (List.prefix_append _ _)
    | ending v => obtain ⟨vs, rfl, rfl⟩ := h; exact .started (List.prefix_append _ _)
    | retiring => exact h
    | ended => exact h

theorem Loop.next {t : Sender α} {b : Body α} {pc : SendPc α} (h : Loop w taken l (some t.pc))
    (hn : Sender.next w t = some (b, pc)) : Loop w taken (l ++ [b]) (some pc) := by
  cases hp : t.pc with
  | start =>
    rw [hp] at h
    obtain ⟨rfl, rfl⟩ := h
    simp only [Sender.next, hp, Option.some.injEq, Prod.mk.injEq] at hn
    obtain ⟨rfl, rfl⟩ := hn
    cases w <;> rfl
  | sending v =>
    rw [hp] at h
    obtain ⟨vs, rfl, rfl⟩ := h
    simp only [Sender.next, hp, Option.some.injEq, Prod.mk.injEq] at hn
    obtain ⟨rfl, rfl⟩ := hn
    cases w <;> simp [Loop, valueBody]
  | ending v =>
    rw [hp] at h
    obtain ⟨vs, rfl, rfl⟩ := h
    simp only [Sender.next, hp, Option.some.injEq, Prod.mk.injEq] at hn
    obtain ⟨rfl, rfl⟩ := hn
    exact .whole rfl
  | check => simp [Sender.next, hp] at hn
  | receiving => simp [Sender.next, hp] at hn
  | acquiring v => simp [Sender.next, hp] at hn
  | retiring => simp [Sender.next, hp] at hn
  | ended => simp [Sender.next, hp] at hn

/-! ## What a frame does to a receiving record -/

variable {r : Receiver α} {f : Frame α}

structure Aside (r r' : Receiver α) : Prop where
  out : r'.out = r.out
  pc : r'.pc = r.pc
  maxPending : r'.pump.maxPending = r.pump.maxPending

theorem push_maxPending (grow : Nat → Nat) (p : StreamPump α) (v : Value α) :
    (p.push grow v).1.maxPending = p.maxPending := by
  unfold StreamPump.push
  split
  · rfl
  · split
    · rfl
    · exact p.compact_flags.2.2.2

theorem aside_offer (grow : Nat → Nat) (r : Receiver α) (v : Value α) : Aside r (r.offer grow v).1 :=
  ⟨rfl, rfl, push_maxPending grow r.pump v⟩

theorem aside_ite {r r' r'' : Receiver α} {c : Prop} [Decidable c] (h : Aside r r') (h' : Aside r r'') :
    Aside r (if c then r' else r'') := by
  split
  · exact h
  · exact h'

theorem aside_closeInboundChan {r r' : Receiver α} (h : Aside r r') : Aside r r'.closeInboundChan :=
  aside_ite h ⟨h.out, h.pc, h.maxPending⟩

theorem receive_aside (w : Way) (grow : Nat → Nat) (r : Receiver α) (f : Frame α) :
    Aside r (w.dir.receive grow r f).1 := by
  have same : Aside r r := ⟨rfl, rfl, rfl⟩
  have offered (v : Value α) : Aside r (if v.isData then (r.offer grow v).1 else r) :=
    aside_ite (aside_offer grow r v) same
  cases w with
  | toServer =>
    cases f with
    | ready => exact aside_offer grow r .nil
    | value v =>
      have ho := aside_offer grow r v
      simp only [Way.dir, Dir.receive, handleInbound]
      split
      · split
        · rename_i heq; rw [heq] at ho; exact ho
        · rename_i heq
          rw [heq] at ho
          split
          · exact ⟨ho.out, ho.pc, ho.maxPending⟩
          · exact ho
      · exact same
    | fin v => exact ⟨(offered v).out, (offered v).pc, (offered v).maxPending⟩
  | toClient =>
    cases f with
    | ready => exact same
    | value v =>
      have ho := offered v
      simp only [Way.dir, Dir.receive, serveRunning]
      generalize (if v.isData then (r.offer grow v).1 else r) = r' at ho ⊢
      split
      · exact ⟨ho.out, ho.pc, ho.maxPending⟩
      · exact ho
    | fin v =>
      have ho := aside_closeInboundChan (offered v)
      simp only [Way.dir, Dir.receive, serveRunning]
      generalize (if v.isData then (r.offer grow v).1 else r).closeInboundChan = r' at ho ⊢
      exact aside_ite ho ⟨ho.out, ho.pc, ho.maxPending⟩

theorem offer_stopped {grow : Nat → Nat} (v : Value α) (h : r.pump.stopped = true) :
    r.offer grow v = (r, false) := by
  unfold Receiver.offer
  rw [StreamPump.push_refused grow v (.inr h)]

theorem closeInboundChan_stopped (h : r.pump.stopped = true) : r.closeInboundChan.pump.stopped = true := by
  unfold Receiver.closeInboundChan
  split <;> exact h

/-- A record that was given up stays so. -/
theorem receive_stopped (w : Way) (grow : Nat → Nat) (f : Frame α) (h : r.pump.stopped = true) :
    (w.dir.receive grow r f).1.pump.stopped = true := by
  cases w with
  | toServer =>
    cases f with
    | ready => simp [Way.dir, Dir.receive, handleInbound, offer_stopped _ h, h]
    | value v =>
      simp only [Way.dir, Dir.receive, handleInbound, offer_stopped v h]
      split
      · split
        · rfl
        · exact h
      · exact h
    | fin v => simp [Way.dir, Dir.receive, handleInbound, offer_stopped v h, Receiver.tryGetClose, h]
  | toClient =>
    cases f with
    | ready => exact h
    | value v =>
      simp only [Way.dir, Dir.receive, serveRunning, offer_stopped v h, ite_self]
      split
      · rfl
      · exact h
    | fin v =>
      simp only [Way.dir, Dir.receive, serveRunning, offer_stopped v h, ite_self]
      split <;> exact closeInboundChan_stopped h

structure Open (r : Receiver α) : Prop where
  stopped : r.pump.stopped = false
  inputEnd : r.pump.inputEnd = false
  ended : r.ended = false

/-- A value is queued, or the peer overran the pump and the record is given up. -/
theorem receive_value (w : Way) (grow : Nat → Nat) {v : Value α} (h : Open r) :
    (w.dir.receive grow r (.value v)).1.pump.stopped = true ∨
      Open (w.dir.receive grow r (.value v)).1 ∧
        (w.dir.receive grow r (.value v)).1.pump.pending = r.pump.pending ++ dataOf v := by
  cases hv : v.isData with
  | false =>
    have hd : dataOf v = [] := by simp [dataOf, hv]
    cases w with
    | toServer => exact .inr (by simpa [Way.dir, Dir.receive, handleInbound, hv, hd] using h)
    | toClient =>
      simp only [Way.dir, Dir.receive, serveRunning, hv, Bool.false_eq_true, if_false]
      split
      · exact .inl rfl
      · exact .inr ⟨h, by simp [hd]⟩
  | true =>
    have hd : dataOf v = [v] := by simp [dataOf, hv]
    by_cases hl : r.pump.pending.length < r.pump.maxPending
    · obtain ⟨p, hp, hpend, he, -, hs, -⟩ := StreamPump.push_ok grow v h.inputEnd h.stopped hl
      cases w with
      | toServer => exact .inr (by simpa [Way.dir, Dir.receive, handleInbound, Receiver.offer, hv, hp, hd, hpend] using
          ⟨hs, he, h.ended⟩)
      | toClient =>
        simp only [Way.dir, Dir.receive, serveRunning, Receiver.offer, hv, hp, if_true]
        split
        · exact .inl rfl
        · exact .inr ⟨⟨hs, he, h.ended⟩, by simp [hd, hpend]⟩
    · have hp := StreamPump.push_overflow grow v h.inputEnd h.stopped (Nat.le_of_not_lt hl)
      cases w with
      | toServer => exact .inl (by simp [Way.dir, Dir.receive, handleInbound, Receiver.offer, hv, hp, Receiver.close,
          StreamPump.stop])
      | toClient => exact .inl (by simp [Way.dir, Dir.receive, serveRunning, Receiver.offer, hv, hp,
          Receiver.closeRequest, StreamPump.stop])

/-- StreamEnd ends the input behind what it brings. -/
theorem receive_fin (w : Way) (grow : Nat → Nat) {v : Value α} (h : Open r)
    (hl : v.isData = true → r.pump.pending.length < r.pump.maxPending) :
    (w.dir.receive grow r (.fin v)).1.pump.stopped = false ∧ (w.dir.receive grow r (.fin v)).1.pump.inputEnd = true ∧
      (w.dir.receive grow r (.fin v)).1.pump.pending = r.pump.pending ++ dataOf v := by
  -- the record with the value queued
  obtain ⟨p, hp, hpend, hs⟩ : ∃ p, (if v.isData then (r.offer grow v).1 else r) = { r with pump := p } ∧
      p.pending = r.pump.pending ++ dataOf v ∧ p.stopped = false := by
    cases hv : v.isData with
    | false => exact ⟨r.pump, rfl, by simp [dataOf, hv], h.stopped⟩
    | true =>
      obtain ⟨p, hp, hpend, -, -, hs, -⟩ := StreamPump.push_ok grow v h.inputEnd h.stopped (hl hv)
      exact ⟨p, by simp [Receiver.offer, hp], by simp [dataOf, hv, hpend], hs⟩
  cases w with
  | toServer =>
    simp only [Way.dir, Dir.receive, handleInbound, hp, Receiver.tryGetClose]
    exact ⟨hs, rfl, hpend⟩
  | toClient =>
    simp only [Way.dir, Dir.receive, serveRunning, hp, Receiver.closeInboundChan, h.ended,
      Bool.false_eq_true, if_false]
    split <;> exact ⟨hs, rfl, hpend⟩

/-! ## What a receiving record holds -/

/-- `here`: frames still reach the record. -/
structure RxOk (w : Way) (arrived : List (Body α)) (here : Prop) (i : Inbound α) : Prop where
  front : (i.handed ++ runItems i.rx.pc).IsPrefix (pushed w arrived)
  kept : i.rx.pump.stopped = false → i.stream.IsPrefix (pushed w arrived)
  current : here → i.rx.pump.stopped = false → i.rx.pump.inputEnd = false → i.stream = pushed w arrived
  closed : i.rx.pump.stopped = false → i.rx.pump.inputEnd = true → Fin arrived ∧ i.stream = pushed w arrived
  graceful : i.graceful = true → Fin arrived ∧ i.handed = pushed w arrived ∧ i.rx.pc = .finished
  ended : i.rx.ended = true → i.rx.pump.stopped = true ∨ i.rx.pump.inputEnd = true
  room : 0 < i.rx.pump.maxPending

variable {arrived : List (Body α)} {here : Prop} {i : Inbound α} {b : Body α}

theorem RxOk.forget (h : RxOk w arrived here i) : RxOk w arrived False i := { h with current := False.elim }

theorem RxOk.mono (h : RxOk w arrived here i) (hh : here' → here) : RxOk w arrived here' i :=
  { h with current := fun h' => h.current (hh h') }

theorem RxOk.new (hn : pushed w arrived = []) (hp : rx.pump.pending = []) (ho : rx.out = [])
    (hpc : rx.pc = .waiting) (he : rx.ended = false) (hi : rx.pump.inputEnd = false)
    (hm : 0 < rx.pump.maxPending) : RxOk w arrived here ⟨rx, [], false⟩ := by
  have hs : (⟨rx, [], false⟩ : Inbound α).stream = [] := by
    simp [Inbound.stream, Inbound.handed, runItems, hp, ho, hpc]
  refine ⟨?_, fun _ => ?_, fun _ _ _ => ?_, fun _ h => ?_, fun h => ?_, fun h => ?_, hm⟩
  · simp [Inbound.handed, runItems, ho, hpc]
  · rw [hs]; exact List.nil_prefix
  · rw [hs, hn]
  · rw [hi] at h; cases h
  · cases h
  · rw [he] at h; cases h

/-- Given up by its side: what the goroutine holds can still be delivered. -/
theorem RxOk.stop (h : RxOk w arrived here i) (hs : rx.pump.stopped = true)
    (ha : Aside i.rx rx) : RxOk w arrived here' { i with rx := rx } := by
  have hn : rx.pump.stopped ≠ false := by simp [hs]
  refine ⟨?_, fun h' => absurd h' hn, fun _ h' => absurd h' hn, fun h' => absurd h' hn, ?_, fun _ => .inl hs, ?_⟩
  · simpa [Inbound.handed, ha.out, ha.pc] using h.front
  · intro hg
    simpa [Inbound.handed, ha.out, ha.pc] using h.graceful hg
  · rw [ha.maxPending]; exact h.room

theorem RxOk.act {j : Inbound α} {a : Act} {bs : List Back} (h : RxOk w arrived here i)
    (ha : i.act a = some (j, bs)) : RxOk w arrived here j := by
  have hk := Inbound.act_kept ha
  obtain ⟨he, hs, -, hm⟩ := hk.pump
  have hfront : (j.handed ++ runItems j.rx.pc).IsPrefix j.stream := List.prefix_append _ _
  refine ⟨?_, fun h' => ?_, fun hh h' hi => ?_, fun h' hi => ?_, fun hg => ?_, fun hj => ?_, hm ▸ h.room⟩
  · cases hst : i.rx.pump.stopped with
    | true => exact (hk.front hst).trans h.front
    | false => exact hfront.trans (hk.stream hst ▸ h.kept hst)
  · rw [hs] at h'
    rw [hk.stream h']; exact h.kept h'
  · rw [hs] at h'; rw [he] at hi
    rw [hk.stream h']; exact h.current hh h' hi
  · rw [hs] at h'; rw [he] at hi
    rw [hk.stream h']; exact h.closed h' hi
  · rcases hk.graceful hg with hg | ⟨h', hi, hpc, hj⟩
    · obtain ⟨hf, hh, hpc⟩ := h.graceful hg
      obtain ⟨hpc', hh'⟩ := hk.finished hpc
      exact ⟨hf, hh'.trans hh, hpc'⟩
    · obtain ⟨hf, hst⟩ := h.closed h' hi
      exact ⟨hf, hj.trans hst, hpc⟩
  · rw [hs, he]
    exact h.ended (hk.record.2.1 ▸ hj)

theorem RxOk.skip (h : RxOk w arrived here i) (hb : b.pushes w = []) : RxOk w (arrived ++ [b]) here i := by
  have hp : pushed w (arrived ++ [b]) = pushed w arrived := by rw [pushed_append]; simp [pushed, hb]
  have hf : Fin arrived → Fin (arrived ++ [b]) := fun ⟨x, hx, h⟩ => ⟨x, List.mem_append_left _ hx, h⟩
  refine ⟨?_, ?_, ?_, ?_, ?_, h.ended, h.room⟩
  · rw [hp]; exact h.front
  · rw [hp]; exact h.kept
  · rw [hp]; exact h.current
  · rw [hp]; exact fun h' hi => (h.closed h' hi).imp_left hf
  · rw [hp]; exact fun hg => (h.graceful hg).imp_left hf

theorem RxOk.miss (h : RxOk w arrived False i) (hn : ¬ Fin arrived) : RxOk w (arrived ++ [b]) False i := by
  have hp : (pushed w arrived).IsPrefix (pushed w (arrived ++ [b])) := by
    rw [pushed_append]; exact List.prefix_append _ _
  exact ⟨h.front.trans hp, fun h' => (h.kept h').trans hp, False.elim, fun h' hi => absurd (h.closed h' hi).1 hn,
    fun hg => absurd (h.graceful hg).1 hn, h.ended, h.room⟩

/-- What a frame brought is behind everything that came before. -/
theorem RxOk.feed (h : RxOk w arrived here i) (hst : i.stream = pushed w arrived)
    (hn : ¬ Fin arrived) (ha : Aside i.rx rx)
    (hp : rx.pump.pending = i.rx.pump.pending ++ b.pushes w) (hf : rx.pump.inputEnd = true → b.isFin = true)
    (he : rx.ended = true → rx.pump.inputEnd = true) : RxOk w (arrived ++ [b]) here { i with rx := rx } := by
  have hstream : ({ i with rx := rx } : Inbound α).stream = pushed w (arrived ++ [b]) := by
    have : ({ i with rx := rx } : Inbound α).stream = i.stream ++ b.pushes w := by
      simp [Inbound.stream, Inbound.handed, ha.out, ha.pc, hp]
    rw [this, hst, pushed_append]
    simp [pushed]
  refine ⟨?_, fun _ => ?_, fun _ _ _ => hstream, fun _ hi => ⟨⟨b, by simp, hf hi⟩, hstream⟩, fun hg => ?_,
    fun h' => .inr (he h'), ha.maxPending ▸ h.room⟩
  · exact hstream ▸ List.prefix_append _ _
  · exact hstream ▸ List.prefix_refl _
  · exact absurd (h.graceful hg).1 hn

/-- A frame that reaches the record. -/
theorem RxOk.receive (grow : Nat → Nat) (h : RxOk w arrived True i)
    (hs : Sound w taken (arrived ++ [.frame f]))
    (hroom : ∀ v, f = .fin v → v.isData = true → i.rx.pump.pending.length < i.rx.pump.maxPending) :
    RxOk w (arrived ++ [.frame f]) True { i with rx := (w.dir.receive grow i.rx f).1 } := by
  have ha := receive_aside w grow i.rx f
  have hn := hs.not_fin
  have hmiss : RxOk w (arrived ++ [.frame f]) False i := h.forget.miss hn
  cases hst : i.rx.pump.stopped with
  | true => exact hmiss.stop (receive_stopped w grow f hst) ha
  | false =>
    have hie : i.rx.pump.inputEnd = false := Bool.eq_false_iff.mpr fun hi => hn (h.closed hst hi).1
    have ho : Open i.rx := ⟨hst, hie, Bool.eq_false_iff.mpr fun he => by
      rcases h.ended he with h' | h'
      · rw [hst] at h'; cases h'
      · rw [hie] at h'; cases h'⟩
    have hcur := h.current trivial hst hie
    rcases hs.frame_cases with hb | ⟨v, hb⟩ | ⟨v, hb⟩
    · -- the ack is the first frame, so the pump is empty
      cases w with
      | toClient => cases hb
      | toServer =>
        cases hb
        have hnil : arrived = [] := hs.opening_iff.mp rfl
        have hpend : i.rx.pump.pending = [] := by
          rw [hnil] at hcur
          exact (List.append_eq_nil_iff.mp hcur).2
        obtain ⟨p, hp, hpp, hpe, -⟩ :=
          StreamPump.push_ok grow .nil hie hst (by rw [hpend]; exact h.room)
        have hr : (Way.toServer.dir.receive grow i.rx .ready).1 = { i.rx with pump := p } := by
          rw [Way.dir, Dir.receive_ready grow i.rx rfl, hp]
        refine h.feed hcur hn ha ?_ ?_ ?_
        · rw [hr]; exact hpp
        · rw [hr]; intro hi; rw [hpe] at hi; cases hi
        · rw [hr]; intro he; rw [show i.rx.ended = false from ho.ended] at he; cases he
    · cases hb
      rcases receive_value w grow (v := v) ho with hs' | ⟨ho', hp⟩
      · exact hmiss.stop hs' ha
      · refine h.feed hcur hn ha hp ?_ ?_
        · intro hi; rw [ho'.inputEnd] at hi; cases hi
        · intro he; rw [ho'.ended] at he; cases he
    · cases hb
      obtain ⟨-, hi, hp⟩ := receive_fin w grow (v := v) ho (hroom v rfl)
      exact h.feed hcur hn ha hp (fun _ => rfl) fun _ => hi

/-! ## One flow -/

/-- `q` is what is queued for it, `x` what is on the wire with its connection, and `runs`
    that its producer is not one of a server that is gone. -/
structure FlowOk (f : Flow α) (q : List (Body α)) (x : List (Nat × Body α)) (here runs : Prop) : Prop where
  data : ∀ v ∈ f.taken, v.isData = true
  sound : Sound f.way f.taken (f.emitted ++ q)
  loop : runs → Loop f.way f.taken (f.emitted ++ q) (f.tx.map (·.pc))
  oneConn : ∃ c, ∀ y ∈ x, y.1 = c
  behind : (f.arrived ++ x.map (·.2)).IsPrefix f.emitted
  rx : ∀ i, f.rx = some i → RxOk f.way f.arrived here i
  req : f.req = true → f.way = .toServer ∧ f.tx = none

variable {f g : Flow α} {q : List (Body α)} {x : List (Nat × Body α)} {runs : Prop}

theorem FlowOk.tx (h : FlowOk f q x here runs) (hw : g.way = f.way) (he : g.emitted = f.emitted)
    (ha : g.arrived = f.arrived) (hr : g.rx = f.rx) (hd : ∀ v ∈ g.taken, v.isData = true)
    (hq : g.req = true → g.way = .toServer ∧ g.tx = none) (hs : Sound f.way g.taken (f.emitted ++ q))
    (hl : runs → Loop f.way g.taken (f.emitted ++ q) (g.tx.map (·.pc))) : FlowOk g q x here runs := by
  refine ⟨hd, ?_, ?_, h.oneConn, ?_, ?_, hq⟩
  · rw [hw, he]; exact hs
  · rw [hw, he]; exact hl
  · rw [he, ha]; exact h.behind
  · rw [hw, hr, ha]; exact h.rx

theorem FlowOk.setRx {j : Inbound α} (h : FlowOk f q x here runs) (hj : RxOk f.way f.arrived here' j) :
    FlowOk { f with rx := some j } q x here' runs :=
  ⟨h.data, h.sound, h.loop, h.oneConn, h.behind, fun _ hi => by cases hi; exact hj, h.req⟩

theorem FlowOk.mono {runs' : Prop} (h : FlowOk f q x here runs) (hh : here' → here) (hr : runs' → runs) :
    FlowOk f q x here' runs' :=
  { h with loop := fun h' => h.loop (hr h'), rx := fun i hi => (h.rx i hi).mono hh }

theorem FlowOk.dropQueue {runs' : Prop} (h : FlowOk f q x here runs) (hh : here' → here)
    (hr : runs' → runs ∧ q = []) : FlowOk f [] x here' runs' := by
  refine { h with sound := ?_, loop := ?_, rx := fun i hi => (h.rx i hi).mono hh }
  · rw [List.append_nil]
    exact h.sound.of_isPrefix (List.prefix_append _ _)
  · intro h'
    obtain ⟨hruns, rfl⟩ := hr h'
    exact h.loop hruns

/-- A connection goes: all of the flow that is in flight, or nothing. -/
theorem FlowOk.cut (h : FlowOk f q x here runs) (c : Nat) :
    FlowOk f q (x.filter fun y => y.1 ≠ c) here runs := by
  obtain ⟨d, hd⟩ := h.oneConn
  refine { h with oneConn := ⟨d, fun y hy => hd y (List.mem_filter.mp hy).1⟩, behind := ?_ }
  by_cases hc : d = c
  · have hnil : (x.filter fun y => y.1 ≠ c) = [] := List.filter_eq_nil_iff.mpr fun y hy => by simp [hd y hy, hc]
    rw [hnil, List.map_nil, List.append_nil]
    exact (List.prefix_append _ _).trans h.behind
  · have hall : (x.filter fun y => y.1 ≠ c) = x := List.filter_eq_self.mpr fun y hy => by simp [hd y hy, hc]
    rw [hall]
    exact h.behind

/-- A frame is handed to no connection, or to one that has every earlier frame in front of
    it. -/
theorem FlowOk.hand {q' : List (Body α)} {b : Body α} {x' : List (Nat × Body α)} (h : FlowOk f q x here runs)
    (hg : g = { f with tx := g.tx, emitted := f.emitted ++ [b] })
    (hq : g.req = true → g.way = .toServer ∧ g.tx = none) (hs : Sound f.way f.taken (f.emitted ++ [b] ++ q'))
    (hl : runs → Loop f.way f.taken (f.emitted ++ [b] ++ q') (g.tx.map (·.pc)))
    (hx : x' = x ∨ ∃ c, x' = x ++ [(c, b)] ∧
      f.emitted.length = f.arrived.length + (x.filter fun y => y.1 = c).length) : FlowOk g q' x' here runs := by
  rw [hg]
  refine ⟨h.data, hs, ?_, ?_, ?_, h.rx, hg ▸ hq⟩
  · intro hr
    rw [hg] at hl
    exact hl hr
  · rcases hx with rfl | ⟨c, rfl, hlen⟩
    · exact h.oneConn
    · -- the count leaves no frame on another connection
      have hle := h.behind.length_le
      rw [List.length_append, List.length_map] at hle
      have hall := List.length_filter_eq_length_iff.mp
        (Nat.le_antisymm (List.length_filter_le (fun y => decide (y.1 = c)) x) (by omega))
      refine ⟨c, fun y hy => ?_⟩
      rcases List.mem_append.mp hy with hy | hy
      · simpa using hall y hy
      · rw [List.mem_singleton.mp hy]
  · rcases hx with rfl | ⟨c, rfl, hlen⟩
    · exact h.behind.trans (List.prefix_append _ _)
    · have hle := List.length_filter_le (fun y => decide (y.1 = c)) x
      have heq : f.arrived ++ x.map (·.2) = f.emitted :=
        h.behind.eq_of_length_le (by rw [List.length_append, List.length_map]; omega)
      rw [List.map_append, ← List.append_assoc, heq]
      exact List.prefix_refl _

/-- The first frame of the flow on its connection is read. -/
theorem FlowOk.arrive {c : Nat} {b : Body α} {l k : List (Nat × Body α)} (h : FlowOk f q x here runs)
    (hx : x = l ++ (c, b) :: k) (hl : ∀ y ∈ l, y.1 ≠ c) :
    l = [] ∧ Sound f.way f.taken (f.arrived ++ [b]) ∧ (f.arrived ++ [b] ++ k.map (·.2)).IsPrefix f.emitted ∧
      ∃ d, ∀ y ∈ k, y.1 = d := by
  obtain ⟨d, hd⟩ := h.oneConn
  have hdc : c = d := hd (c, b) (by simp [hx])
  have hnil : l = [] := List.eq_nil_iff_forall_not_mem.mpr fun y hy =>
    hl y hy ((hd y (by simp [hx, hy])).trans hdc.symm)
  subst hnil
  have hb : (f.arrived ++ [b] ++ k.map (·.2)).IsPrefix f.emitted := by simpa [hx] using h.behind
  refine ⟨rfl, ?_, hb, d, fun y hy => hd y (by simp [hx, hy])⟩
  exact h.sound.of_isPrefix (((List.prefix_append _ _).trans hb).trans (List.prefix_append _ _))

/-- Reading a frame, with what it does to the record of the flow. -/
theorem FlowOk.read {here' : Prop} {c : Nat} {b : Body α} {l k : List (Nat × Body α)}
    (h : FlowOk f q x here runs) (hx : x = l ++ (c, b) :: k) (hl : ∀ y ∈ l, y.1 ≠ c)
    (hg : g = { f with arrived := f.arrived ++ [b], rx := g.rx })
    (hr : ∀ i, g.rx = some i → RxOk f.way (f.arrived ++ [b]) here' i) : FlowOk g q (l ++ k) here' runs := by
  obtain ⟨rfl, -, hb, d, hd⟩ := h.arrive hx hl
  rw [hg]
  exact ⟨h.data, h.sound, h.loop, ⟨d, hd⟩, hb, hr, h.req⟩

/-- What the consumer of a flow can tell. -/
theorem FlowOk.noHole (h : FlowOk f q x here runs) {i : Inbound α} (hi : f.rx = some i) :
    i.handed.IsPrefix (lead f.way ++ f.taken) ∧ (i.graceful = true → i.handed = lead f.way ++ f.taken) := by
  have hr := h.rx i hi
  have hs : Sound f.way f.taken f.arrived :=
    h.sound.of_isPrefix (((List.prefix_append _ _).trans h.behind).trans (List.prefix_append _ _))
  refine ⟨?_, fun hg => ?_⟩
  · exact ((List.prefix_append _ _).trans hr.front).trans (hs.pushed_isPrefix h.data)
  · obtain ⟨hf, hh, -⟩ := hr.graceful hg
    exact hh.trans (hs.pushed_of_fin h.data hf)

end ValueRpc.Reverse
