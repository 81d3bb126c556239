/-
  ValueRpc.Stream.FlowInv — the invariant of one stream direction, over every run.

  Three things carry it:
  - the line: what the consumer read, what is in its channel, in the pump goroutine's
    hand, in the pump's queue and in the frames, in this order, followed by what the
    sender holds and has not taken, is the ack (once sent) and then the payloads
    emitted (`whole`). Everything about order, loss and the ack is read off this list;
  - the books: the window's credit is somewhere (`books`), so that a value in flight
    leaves room for itself in the pump;
  - the count: the receiver's delivery counter is the number of deliveries its hook saw
    modulo the batch, the ack's -1 included (`counter`).

  It holds until the serving side of a chat ends its output (`reach_inv`).
-/

import ValueRpc.Stream.Flow

namespace ValueRpc.Stream

open ValueRpc.Core ValueRpc.Lib

variable {α : Type} {c : Cfg} {s : St α}

/-! ## The line -/

def Frame.items : Frame α → List (Value α)
  | .ready => [.nil]
  | .value v => [v].filter Value.isData
  | .fin v => [v].filter Value.isData

def unsent (s : St α) : List (Value α) := s.tx.pc.inHand ++ s.src

/-- What the establisher and the consumer read or can read now. -/
def handed (s : St α) : List (Value α) := s.first.toList ++ s.got ++ s.rx.out

def line (s : St α) : List (Value α) :=
  handed s ++ runItems s.rx.pc ++ s.rx.pump.pending ++ s.fwd.flatMap Frame.items

def SendPc.started : SendPc α → Bool
  | .start => false
  | _ => true

def acks (c : Cfg) (s : St α) : List (Value α) := if c.dir.toInitiator && s.tx.pc.started then [.nil] else []

/-! ## The count -/

/-- The counter after `n` runs of the deliver hook, with batch `b`. -/
def countAt (toInitiator : Bool) (b : Int) (n : Nat) : Int :=
  if toInitiator then (if n = 0 then -1 else ((n : Int) - 1) % b) else (n : Int) % b

/-- A delivery the hook has not seen. -/
def unseen : RunPc α → Nat
  | .delivered _ => 1
  | _ => 0

theorem emod_succ {b x : Int} (hb : 1 ≤ b) : (x + 1) % b = if b ≤ x % b + 1 then 0 else x % b + 1 := by
  have h0 := Int.emod_nonneg x (by omega : b ≠ 0)
  have h1 := Int.emod_lt_of_pos x (by omega : 0 < b)
  rw [← Int.emod_add_emod]
  split
  · have : x % b + 1 = b := by omega
    rw [this, Int.emod_self]
  · exact Int.emod_eq_of_lt (by omega) (by omega)

theorem countAt_succ (i : Bool) {b : Int} (hb : 1 ≤ b) (n : Nat) :
    countAt i b (n + 1) = if b ≤ countAt i b n + 1 then 0 else countAt i b n + 1 := by
  unfold countAt
  cases i with
  | false => simpa using emod_succ hb (x := (n : Int))
  | true =>
    simp only [if_true, Nat.add_eq_zero_iff, Nat.one_ne_zero, and_false, if_false]
    have he : ((n + 1 : Nat) : Int) - 1 = ((n : Int) - 1) + 1 := by omega
    rw [he]
    by_cases h : n = 0
    · subst h
      simp only [if_true, Int.reduceNeg, Int.reduceAdd]
      rw [if_neg (by omega)]
      simp
    · rw [if_neg h]
      exact emod_succ hb

theorem countAt_nonneg {i : Bool} {b : Int} (hb : 1 ≤ b) {n : Nat} (h : i = true → n ≠ 0) :
    0 ≤ countAt i b n := by
  have h0 := Int.emod_nonneg (n : Int) (by omega : b ≠ 0)
  have h1 := Int.emod_nonneg ((n : Int) - 1) (by omega : b ≠ 0)
  unfold countAt
  split
  · rw [if_neg (h ‹_›)]; exact h1
  · exact h0

/-! ## The end of the stream -/

def NoFin (fwd : List (Frame α)) : Prop := ∀ v, .fin v ∉ fwd

/-- Where the one StreamEnd is: not sent, last in flight, or taken by the pump. -/
def FinAt (done inputEnd : Bool) (fwd : List (Frame α)) : Prop :=
  match done, inputEnd with
  | false, false => NoFin fwd
  | true, false => ∃ l, fwd = l ++ [.fin .null] ∧ NoFin l
  | true, true => fwd = []
  | false, true => False

/-- A frame the sender of this direction sends. -/
def Sound (c : Cfg) : Frame α → Prop
  | .ready => c.dir.toInitiator = true
  | .value v => v ≠ .nil
  | .fin v => v = .null

/-! ## The invariant -/

structure Inv (c : Cfg) (s : St α) : Prop where
  window : s.rx.creditWindow = c.window
  bound : 0 < s.rx.pump.maxPending ∧ (1 ≤ c.window → (s.rx.pump.maxPending : Int) = c.window)
  calm : s.rx.pump.stopped = false ∧ s.rx.pump.overflow = false
  endedIff : s.rx.ended = s.rx.pump.inputEnd
  rxLive : s.rx.pump.inputEnd = false → s.rx.live = true
  txOpen : s.tx.pc ≠ .ended → s.tx.gate.closed = false ∧ s.tx.live = true ∧ s.tx.closed = false
  credits : ∀ b ∈ s.back, ∃ n, b = .credit n
  frames : ∀ f ∈ s.fwd, Sound c f
  whole : line s ++ (unsent s).filter Value.isData = acks c s ++ s.emitted.filter Value.isData
  nulls : s.leaked + s.fwd.countP Frame.skipped + (unsent s).countP (fun v => !v.isData) =
    s.emitted.countP (fun v => !v.isData)
  unstarted : s.tx.pc.started = false → line s = []
  noFirst : c.dir.toInitiator = false → s.first = none
  beforeFirst : c.dir.toInitiator = true → s.first = none → s.got = [] ∧ s.granted = false
  counter : s.rx.delivered = countAt c.dir.toInitiator (grantBatch c.window) ((handed s).length - unseen s.rx.pc)
  hookLast : ∀ v, s.rx.pc = .delivered v → ∃ l, handed s = l ++ [v]
  granting : ∀ n, s.rx.pc = .granting n → 0 ≤ n
  nonneg : 0 ≤ s.tx.gate.credit ∧ 0 ≤ s.dropped
  books : outstanding s + s.leaked + s.dropped = if s.granted then max c.window 0 else 0
  droppedDead : s.dropped ≠ 0 → s.tx.live = false
  srcDone : s.tx.pc.isDone = true → s.src = [] ∧ s.srcClosed = true
  ending : ∀ v, s.tx.pc = .ending v → v = .nil ∧ s.src = [] ∧ s.srcClosed = true
  finAt : FinAt s.tx.pc.isDone s.rx.pump.inputEnd s.fwd
  finished : s.rx.pc = .finished → s.rx.pump.inputEnd = true ∧ s.rx.pump.pending = []

theorem inv_start (c : Cfg) : Inv c (start c : St α) := by
  obtain ⟨cap, hr⟩ := c.dir.receiver_eq (α := α) c.requestId c.chat c.outCap c.maxPending.toInt
  have hs : (start c : St α) = ⟨newSender c.chat, newReceiver c.requestId c.chat c.window
      (if c.dir.toInitiator then -1 else 0) c.window cap, [], false, [], [], none, false, [], false, [], 0, 0⟩ := by
    unfold start; rw [hr]; rfl
  rw [hs]
  constructor
  case window => rfl
  case bound => exact ⟨StreamPump.new_maxPending_pos _, StreamPump.new_maxPending⟩
  case calm => exact ⟨rfl, rfl⟩
  case endedIff => rfl
  case rxLive => exact fun _ => rfl
  case txOpen => exact fun _ => ⟨rfl, rfl, rfl⟩
  case credits => intro b hb; cases hb
  case frames => intro f hf; cases hf
  case whole => simp [line, handed, newReceiver, newSender, runItems, unsent, SendPc.inHand, acks, SendPc.started]
  case nulls => rfl
  case unstarted => intro _; simp [line, handed, newReceiver, runItems]
  case noFirst => exact fun _ => rfl
  case beforeFirst => exact fun _ _ => ⟨rfl, rfl⟩
  case counter =>
    simp only [handed, newReceiver, countAt]
    split <;> simp
  case hookLast => intro v hv; cases hv
  case granting => intro n hn; cases hn
  case nonneg => exact ⟨Int.le_refl _, Int.le_refl _⟩
  case books =>
    simp only [outstanding, creditInFlight, valuesInFlight, queued, held, sinceGrant, newReceiver, newSender,
      CreditGate.new]
    split
    · have hmax : max (-1 : Int) 0 = 0 := by decide
      rw [hmax]
      simp
    · simp
  case droppedDead => intro h; exact absurd rfl h
  case srcDone => intro h; cases h
  case ending => intro v h; cases h
  case finAt => intro v hv; cases hv
  case finished => intro h; cases h

/-! ## Reading the line -/

theorem Inv.started_of_line (h : Inv c s) (hl : line s ≠ []) : s.tx.pc.started = true := by
  cases hs : s.tx.pc.started with
  | false => exact absurd (h.unstarted hs) hl
  | true => rfl

/-- The first thing an initiator gets is the ack. -/
theorem Inv.ack_first (h : Inv c s) (hi : c.dir.toInitiator = true) {v : Value α} {l : List (Value α)}
    (hl : line s = v :: l) : v = .nil := by
  have hs := h.started_of_line (by rw [hl]; simp)
  have hw := h.whole
  simp only [acks, hi, hs, Bool.and_self, if_true, hl, List.cons_append, List.nil_append, List.cons.injEq] at hw
  exact hw.1

/-- Past the ack there are only payloads. -/
theorem Inv.payloads (h : Inv c s) {l r : List (Value α)} (hl : line s = l ++ r)
    (hne : c.dir.toInitiator = true → l ≠ []) : ∀ v ∈ r, v.isData = true := by
  intro v hv
  have hw := h.whole
  rw [hl] at hw
  have hmem : v ∈ s.emitted.filter Value.isData := by
    by_cases ha : c.dir.toInitiator && s.tx.pc.started
    · -- the ack is the head of `l`
      simp only [Bool.and_eq_true] at ha
      obtain ⟨x, l', rfl⟩ := List.exists_cons_of_ne_nil (hne ha.1)
      simp only [acks, ha.1, ha.2, Bool.and_self, if_true, List.cons_append, List.nil_append, List.cons.injEq] at hw
      rw [← hw.2]
      simp [hv]
    · simp only [acks, ha, Bool.false_eq_true, if_false, List.nil_append] at hw
      rw [← hw]
      simp [hv]
  exact (List.mem_filter.mp hmem).2

theorem Inv.granted_handed (h : Inv c s) (hi : c.dir.toInitiator = true) (hg : s.granted = true) :
    handed s ≠ [] := by
  cases hf : s.first with
  | none =>
    have := (h.beforeFirst hi hf).2
    rw [hg] at this; cases this
  | some v => simp [handed, hf]

/-! ## Room in the pump -/

theorem Inv.creditInFlight_nonneg (h : Inv c s) : 0 ≤ creditInFlight s := by
  have := amounts_nonneg s.back
  unfold creditInFlight
  split
  · rename_i n hn
    have := h.granting n hn
    omega
  · omega

/-- With a value in flight, the window was granted and the pump has room for it. -/
theorem Inv.room (h : Inv c s) (hv : 0 < valuesInFlight s) :
    s.rx.pump.pending.length < s.rx.pump.maxPending := by
  have hb := h.books
  have hc := h.creditInFlight_nonneg
  obtain ⟨hn1, hn2⟩ := h.nonneg
  simp only [outstanding, sinceGrant] at hb
  have hg : s.granted = true := by
    cases hg : s.granted with
    | true => rfl
    | false => rw [hg] at hb; simp only [Bool.false_eq_true, if_false] at hb; omega
  rw [hg, if_pos rfl] at hb
  have hlen : s.rx.pump.pending.length = queued s := by
    symm
    unfold queued
    rw [List.countP_eq_length]
    refine fun v hv => h.payloads (l := handed s) (r := runItems s.rx.pc ++ s.rx.pump.pending ++
      s.fwd.flatMap Frame.items) ?_
      (fun hi => h.granted_handed hi hg) v (by simp [hv])
    simp [line]
  have := h.bound.2 (by omega)
  omega

theorem Cfg.window_lt (c : Cfg) : c.window < 2 ^ 63 := by
  have hm := Int64.toInt_lt c.maxPending
  have ho : orDefault c.maxPending.toInt < 2 ^ 63 := by
    unfold orDefault defaultMaxPending
    split <;> omega
  unfold Cfg.window Dir.window
  split
  · exact hm
  · exact ho

/-- A grant in flight fits the gate's int64. -/
theorem Inv.grant_fits (h : Inv c s) {b : Back} {rest : List Back} (hb : s.back = b :: rest) :
    s.tx.gate.credit + b.amount < 2 ^ 63 := by
  have hbk := h.books
  obtain ⟨-, hn⟩ := h.nonneg
  have hr := amounts_nonneg rest
  have hc : b.amount ≤ creditInFlight s := by
    unfold creditInFlight
    rw [hb, List.map_cons, List.sum_cons]
    split
    · have := h.granting _ ‹_›
      omega
    · omega
  have hw := c.window_lt
  simp only [outstanding, sinceGrant] at hbk
  split at hbk <;> omega

end ValueRpc.Stream
