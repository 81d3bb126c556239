/-
  ValueRpc.Core.PumpRun — a `StreamPump` in use (valuerpc/pump.go): any callers of `Push`,
  `Close` and `Stop`, the goroutine of `run`, and the consumer that reads `out`.

  A step is what is done under the lock, or one channel operation. `Stop` closes `stopCh`
  without the lock, so it may come between `Push`'s look at it and the rest of `Push`; the
  rest does not read it, and `Push` is one step. `out` is a channel of any capacity: a value
  is put into its buffer, or handed to a consumer that waits at an empty one.

  The pump refines the bounded queue of `Lib.Fifo` step for step (`fifo`, `label`,
  `simulates`): a `Close` is the queue's close, a `Stop` its stop. What is pending is
  `queue[head:]`, and the slice, its head, its compaction and its growth are not seen from
  there.

  - `pump_refines_fifo`: with what that says of a run of the pump, that `Push` is refused for
    good after a `Close` or a `Stop`, and when the backing array is reallocated.
-/

import ValueRpc.Core.Pump
import ValueRpc.Lib.Fifo

namespace ValueRpc.Core.PumpRun

open ValueRpc.Lib

variable {α : Type}

structure St (α : Type) where
  pump : StreamPump α
  pc : RunPc α
  out : List (Value α)
  got : List (Value α)
  /-- The values `Push` returned true for, and those sent into `out`. -/
  accepted : List (Value α)
  sent : List (Value α)
  /-- How often `onDeliver` ran, and `out` was closed. -/
  hooks : Nat
  closes : Nat
  /-- `run` returned drained, with the input at its end. -/
  drained : Bool
  deriving DecidableEq, Repr

def start (maxPending : Int) : St α := ⟨.new maxPending, .waiting, [], [], [], [], 0, 0, false⟩

inductive Ev (α : Type) where
  | push (v : Value α)
  | close
  | stop
  | turn
  /-- `p.out <- v`, into the buffer or to the waiting consumer. -/
  | putOut
  | handoff
  | abandon
  | hook
  | read
  deriving DecidableEq, Repr

def St.returns (s : St α) (drained : Bool) : St α := { s with pc := .finished, closes := s.closes + 1, drained }

def step (grow : Nat → Nat) (outCap : Nat) (s : St α) : Ev α → Option (St α)
  | .push v =>
    some { s with
      pump := (s.pump.push grow v).1, accepted := if (s.pump.push grow v).2 then s.accepted ++ [v] else s.accepted }
  | .close => some { s with pump := s.pump.close }
  | .stop => some { s with pump := s.pump.stop }
  | .turn =>
    match s.pc with
    | .waiting =>
      if s.pump.stopped then some (s.returns s.drained)
      else match s.pump.take with
        | some (v, p) => some { s with pump := p, pc := .holding v }
        | none => if s.pump.inputEnd then some (s.returns true) else none
    | _ => none
  | .putOut =>
    match s.pc with
    | .holding v =>
      if s.out.length < outCap then some { s with
        pc := .delivered v, out := s.out ++ [v], sent := s.sent ++ [v] } else none
    | _ => none
  | .handoff =>
    match s.pc, s.out with
    | .holding v, [] => some { s with pc := .delivered v, got := s.got ++ [v], sent := s.sent ++ [v] }
    | _, _ => none
  | .abandon =>
    match s.pc with
    | .holding _ => if s.pump.stopped then some (s.returns s.drained) else none
    | _ => none
  | .hook =>
    match s.pc with
    | .delivered _ => some { s with pc := .waiting, hooks := s.hooks + 1 }
    | _ => none
  | .read =>
    match s.out with
    | v :: rest => some { s with out := rest, got := s.got ++ [v] }
    | [] => none

def sys (grow : Nat → Nat) (outCap : Nat) (maxPending : Int) : Sys (St α) (Ev α) :=
    ⟨fun s => s = start maxPending, step grow outCap⟩

/-! ## The queue it refines -/

/-- `run` as the worker. The hook is not taken apart here, so it is never at a grant. -/
def worker : RunPc α → Worker (Value α)
  | .waiting => .idle
  | .holding v => .holding v
  | .delivered _ | .granting _ => .handed
  | .finished => .returned

def St.fifo (s : St α) : Fifo (Value α) where
  pending := s.pump.pending
  ended := s.pump.inputEnd
  stopped := s.pump.stopped
  worker := worker s.pc
  accepted := s.accepted
  sent := s.sent
  hooks := s.hooks
  closes := s.closes
  drained := s.drained

variable {grow : Nat → Nat} {outCap : Nat} {s t : St α} {e : Ev α}

/-- `Push` is answered as the queue's offer is. -/
theorem push_accepts (grow : Nat → Nat) (s : St α) (v : Value α) :
    (s.pump.push grow v).2 = s.fifo.accepts s.pump.maxPending := by
  unfold StreamPump.push Fifo.accepts
  simp only [St.fifo, StreamPump.length_pending]
  by_cases h : (s.pump.inputEnd || s.pump.stopped) = true
  · rw [if_pos h]
    cases he : s.pump.inputEnd with
    | true => simp
    | false =>
      rw [he, Bool.false_or] at h
      simp [h]
  · rw [if_neg h]
    obtain ⟨he, hs⟩ := Bool.or_eq_false_iff.mp (Bool.eq_false_iff.mpr h)
    by_cases hl : s.pump.maxPending ≤ s.pump.queue.length - s.pump.head
    · rw [if_pos hl]
      simp [Nat.not_lt.mpr hl]
    · rw [if_neg hl]
      simp [he, hs, Nat.not_le.mp hl]

theorem simulates_push (grow : Nat → Nat) (s : St α) (v : Value α) :
    Fifo.step s.pump.maxPending s.fifo (.offer v) = some (St.fifo { s with
      pump := (s.pump.push grow v).1, accepted := if (s.pump.push grow v).2 then s.accepted ++
        [v] else s.accepted }) := by
  have hacc := push_accepts grow s v
  simp only [Fifo.step, ← hacc]
  cases hb : (s.pump.push grow v).2 with
  | true =>
    have ha : s.fifo.accepts s.pump.maxPending = true := hacc.symm.trans hb
    simp only [Fifo.accepts, Bool.and_eq_true, Bool.not_eq_true', decide_eq_true_eq] at ha
    obtain ⟨⟨he, hs⟩, hl⟩ := ha
    obtain ⟨p, hp, hpend, hend, -, hstop, -⟩ := StreamPump.push_ok grow v he hs hl
    simp only [if_true, hp, St.fifo, hpend, hend, hstop]
    rw [show s.pump.inputEnd = false from he, show s.pump.stopped = false from hs]
  | false =>
    simp only [Bool.false_eq_true, if_false]
    by_cases h : s.pump.inputEnd = true ∨ s.pump.stopped = true
    · rw [StreamPump.push_refused grow v h]
      have : (s.pump.inputEnd || !s.pump.stopped) = s.pump.inputEnd := by
        rcases h with h | h <;> simp [h]
      simp only [St.fifo, this]
    · have he : s.pump.inputEnd = false := Bool.eq_false_iff.mpr fun h' => h (.inl h')
      have hs : s.pump.stopped = false := Bool.eq_false_iff.mpr fun h' => h (.inr h')
      have hl : s.pump.maxPending ≤ s.pump.pending.length := by
        by_contra hlt
        obtain ⟨p, hp, -⟩ := StreamPump.push_ok grow v he hs (Nat.not_le.mp hlt)
        rw [hp] at hb
        cases hb
      rw [StreamPump.push_overflow grow v he hs hl]
      simp only [St.fifo, hs, Bool.not_false, Bool.or_true]
      rfl

/-- The queue's event a step is; a read is none. -/
def label (s : St α) : Ev α → Option (Fifo.Ev (Value α))
  | .push v => some (.offer v)
  | .close => some .close
  | .stop => some .stop
  | .turn => some (if s.pump.stopped then .abandon else if s.pump.pending = [] then .finish else .take)
  | .putOut | .handoff => some .send
  | .abandon => some .abandon
  | .hook => some .hook
  | .read => none

/-- The queue does what its event says, or nothing. -/
def Follows (b : Nat) (q q' : Fifo (Value α)) : Option (Fifo.Ev (Value α)) → Prop
  | some e => Fifo.step b q e = some q'
  | none => q' = q

theorem simulates_turn (h : step grow outCap s .turn = some t) :
    Follows s.pump.maxPending s.fifo t.fifo (label s .turn) := by
  cases hp : s.pc with
  | waiting =>
    simp only [step, hp] at h
    cases hs : s.pump.stopped with
    | true =>
      rw [hs, if_pos rfl] at h
      cases h
      simp [Follows, label, Fifo.step, St.fifo, St.returns, hp, hs, worker]
    | false =>
      rw [hs, if_neg (by simp)] at h
      cases ht : s.pump.take with
      | some r =>
        obtain ⟨v, p⟩ := r
        obtain ⟨hpend, he, -, hst, -⟩ := StreamPump.take_some ht
        rw [ht] at h
        cases h
        simp [Follows, label, Fifo.step, St.fifo, hp, hs, hpend, he, hst, worker]
      | none =>
        have hpend := StreamPump.take_none ht
        rw [ht] at h
        cases he : s.pump.inputEnd with
        | true =>
          simp only [he, if_true] at h
          cases h
          simp [Follows, label, Fifo.step, St.fifo, St.returns, hp, hs, hpend, he, worker]
        | false =>
          simp only [he, Bool.false_eq_true, if_false] at h
          cases h
  | _ => simp only [step, hp] at h; cases h

/-- A step of the pump is the queue's step of its label. -/
theorem simulates (h : step grow outCap s e = some t) :
    Follows s.pump.maxPending s.fifo t.fifo (label s e) := by
  cases e with
  | push v => cases h; exact simulates_push grow s v
  | close => cases h; rfl
  | stop => cases h; rfl
  | turn => exact simulates_turn h
  | putOut =>
    cases hp : s.pc with
    | holding v =>
      simp only [step, hp] at h
      split at h
      · cases h; simp [Follows, label, Fifo.step, St.fifo, hp, worker]
      · cases h
    | _ => simp only [step, hp] at h; cases h
  | handoff =>
    cases hp : s.pc with
    | holding v =>
      cases ho : s.out with
      | nil =>
        simp only [step, hp, ho] at h
        cases h
        simp [Follows, label, Fifo.step, St.fifo, hp, worker]
      | cons w rest => simp only [step, hp, ho] at h; cases h
    | _ => simp only [step, hp] at h; cases h
  | abandon =>
    cases hp : s.pc with
    | holding v =>
      simp only [step, hp] at h
      split at h
      · rename_i hs
        cases h
        simp [Follows, label, Fifo.step, St.fifo, St.returns, hp, hs, worker]
      · cases h
    | _ => simp only [step, hp] at h; cases h
  | hook =>
    cases hp : s.pc with
    | delivered v =>
      simp only [step, hp] at h
      cases h
      simp [Follows, label, Fifo.step, St.fifo, hp, worker]
    | _ => simp only [step, hp] at h; cases h
  | read =>
    simp only [step] at h
    split at h
    · cases h; rfl
    · cases h

/-! ## The backing array -/

/-- `Push` gets a new array only from a full one whose live region is all of it. -/
theorem push_capacity (grow : Nat → Nat) (p : StreamPump α) (v : Value α) :
    (p.push grow v).1.capacity = p.capacity ∨
      p.head = 0 ∧ p.queue.length = p.capacity ∧ p.queue.length < p.maxPending ∧
        (p.push grow v).1.capacity = max (p.capacity + 1) (grow p.capacity) := by
  have hle := p.length_le
  have hh := p.head_le
  unfold StreamPump.push
  split
  · exact .inl rfl
  · split
    · exact .inl rfl
    · rename_i hl
      unfold StreamPump.compact StreamPump.append
      split
      · -- compaction made room
        rename_i hc
        refine .inl ?_
        simp only [List.length_drop]
        rw [if_pos (by omega)]
      · rename_i hc
        dsimp only
        split
        · exact .inl rfl
        · exact .inr ⟨by omega, by omega, by omega, rfl⟩

theorem push_maxPending (grow : Nat → Nat) (p : StreamPump α) (v : Value α) :
    (p.push grow v).1.maxPending = p.maxPending := by
  unfold StreamPump.push
  split
  · rfl
  · split
    · rfl
    · exact p.compact_flags.2.2.2

theorem take_capacity {p p' : StreamPump α} {v : Value α} (h : p.take = some (v, p')) :
    p'.capacity = p.capacity := by
  unfold StreamPump.take at h
  split at h
  · split at h <;> (cases h; rfl)
  · cases h

/-- The pump is changed by its callers and by a take. -/
theorem step_pump (h : step grow outCap s e = some t) :
    (∃ v, e = .push v ∧ t.pump = (s.pump.push grow v).1) ∨
      t.pump.maxPending = s.pump.maxPending ∧ t.pump.capacity = s.pump.capacity := by
  cases e with
  | push v => cases h; exact .inl ⟨v, rfl, rfl⟩
  | close => cases h; exact .inr ⟨rfl, rfl⟩
  | stop => cases h; exact .inr ⟨rfl, rfl⟩
  | turn =>
    refine .inr ?_
    simp only [step] at h
    split at h
    · split at h
      · cases h; exact ⟨rfl, rfl⟩
      · split at h
        · rename_i v p ht
          cases h
          exact ⟨(StreamPump.take_some ht).2.2.2.2, take_capacity ht⟩
        · split at h
          · cases h; exact ⟨rfl, rfl⟩
          · cases h
    · cases h
  | _ =>
    refine .inr ?_
    simp only [step] at h
    repeat' split at h
    all_goals first | (cases h; exact ⟨rfl, rfl⟩) | cases h

theorem step_maxPending (h : step grow outCap s e = some t) : t.pump.maxPending = s.pump.maxPending := by
  rcases step_pump h with ⟨v, -, hp⟩ | ⟨hm, -⟩
  · rw [hp]
    exact push_maxPending grow s.pump v
  · exact hm

theorem step_capacity (h : step grow outCap s e = some t) : t.pump.capacity = s.pump.capacity ∨
    s.pump.head = 0 ∧ s.pump.queue.length = s.pump.capacity ∧ s.pump.queue.length < s.pump.maxPending ∧
      t.pump.capacity = max (s.pump.capacity + 1) (grow s.pump.capacity) := by
  rcases step_pump h with ⟨v, -, hp⟩ | ⟨-, hc⟩
  · rw [hp]
    exact push_capacity grow s.pump v
  · exact .inl hc

/-- What was sent into `out` was read or is in its buffer. -/
theorem step_sent (h : step grow outCap s e = some t) (hs : s.got ++ s.out = s.sent) :
    t.got ++ t.out = t.sent := by
  cases e with
  | push v => cases h; exact hs
  | close => cases h; exact hs
  | stop => cases h; exact hs
  | turn =>
    simp only [step] at h
    repeat' split at h
    all_goals first | (cases h; exact hs) | cases h
  | putOut =>
    simp only [step] at h
    repeat' split at h
    · cases h; dsimp only; rw [← hs, List.append_assoc]
    · cases h
    · cases h
  | handoff =>
    simp only [step] at h
    split at h
    · rename_i hp ho
      cases h
      rw [ho, List.append_nil] at hs
      dsimp only
      rw [ho, List.append_nil, hs]
    · cases h
  | abandon =>
    simp only [step] at h
    repeat' split at h
    all_goals first | (cases h; exact hs) | cases h
  | hook =>
    simp only [step] at h
    split at h
    · cases h; exact hs
    · cases h
  | read =>
    simp only [step] at h
    split at h
    · rename_i v rest ho
      cases h
      rw [← hs, ho]
      simp
    · cases h

/-! ## Every run -/

def bound (maxPending : Int) : Nat := (StreamPump.new maxPending : StreamPump Unit).maxPending

structure Inv (grow : Nat → Nat) (b : Nat) (s : St α) : Prop where
  maxPending : s.pump.maxPending = b
  sent : s.got ++ s.out = s.sent
  capacity : ∀ n, (∀ c < b, max (c + 1) (grow c) ≤ n) → s.pump.capacity ≤ n

theorem inv_step {b : Nat} (hi : Inv grow b s) (h : step grow outCap s e = some t) : Inv grow b t := by
  refine ⟨(step_maxPending h).trans hi.maxPending, step_sent h hi.sent, fun n hn => ?_⟩
  rcases step_capacity h with hc | ⟨-, hfull, hlt, hc⟩
  · rw [hc]
    exact hi.capacity n hn
  · rw [hc]
    refine hn _ ?_
    rw [← hfull, ← hi.maxPending]
    exact hlt

variable {maxPending : Int}

theorem inv_reach (h : (sys grow outCap maxPending).Reach Sys.any s) : Inv grow (bound maxPending) s := by
  refine h.inv (P := Inv grow (bound maxPending)) (fun s hs => ?_) fun _ _ _ hi _ hs => inv_step hi hs
  cases hs
  exact ⟨rfl, rfl, fun n _ => Nat.zero_le n⟩

/-- The pump refines the bounded queue. -/
theorem fifo_reach (h : (sys grow outCap maxPending).Reach Sys.any s) :
    (Fifo.sys (bound maxPending)).Reach Sys.any s.fifo := by
  refine h.sim (fun s hs => ?_) fun s e t hr _ hs => ?_
  · cases hs
    rfl
  · have hsim := simulates hs
    rw [(inv_reach hr).maxPending] at hsim
    cases hl : label s e with
    | none =>
      rw [hl] at hsim
      rw [show t.fifo = s.fifo from hsim]
      exact .refl
    | some e' =>
      rw [hl] at hsim
      exact .tail .refl trivial hsim

theorem shut_steps (h : (sys grow outCap maxPending).Steps Sys.any s t)
    (hs : s.fifo.ended = true ∨ s.fifo.stopped = true) : t.fifo.ended = true ∨ t.fifo.stopped = true := by
  refine h.keep (P := fun s => s.fifo.ended = true ∨ s.fifo.stopped = true) (fun s e t hs _ hst => ?_) hs
  have hsim := simulates hst
  cases hl : label s e with
  | none => rw [hl] at hsim; rw [show t.fifo = s.fifo from hsim]; exact hs
  | some e' => rw [hl] at hsim; exact Fifo.step_shut hsim hs

/-- A pump whose `out` is closed has returned. -/
theorem finished_of_closes {b : Nat} (hi : Fifo.Inv b s.fifo) (hc : 0 < s.closes) : s.pc = .finished := by
  have hcl : s.closes = (worker s.pc).isReturned.toNat := hi.closes
  cases hp : s.pc with
  | finished => rfl
  | _ => rw [hp] at hcl; exact absurd hcl (Nat.ne_of_gt hc)

theorem silent (hp : s.pc = .finished) (h : step grow outCap s e = some t) :
    t.sent = s.sent ∧ t.closes = s.closes := by
  cases e with
  | push v => cases h; exact ⟨rfl, rfl⟩
  | close => cases h; exact ⟨rfl, rfl⟩
  | stop => cases h; exact ⟨rfl, rfl⟩
  | read =>
    simp only [step] at h
    split at h
    · cases h; exact ⟨rfl, rfl⟩
    · cases h
  | _ => simp only [step, hp] at h; cases h

/-- The goroutine that returned without a stop sent all that was accepted, also after an
    overflow. -/
theorem complete {b : Nat} (hi : Fifo.Inv b s.fifo)
    (h : s.drained = true ∨ s.pc = .finished ∧ s.pump.stopped = false) : s.sent = s.accepted := by
  rcases h with hd | ⟨hp, hs⟩
  · exact (hi.drained hd).2.2
  · have hret : s.fifo.worker.isReturned = true := by
      show (worker s.pc).isReturned = true
      rw [hp]
      rfl
    rcases hi.returned hret with hst | ⟨-, hd⟩
    · exact absurd (hs.symm.trans hst) (by simp)
    · exact (hi.drained hd).2.2

structure Bounded (grow : Nat → Nat) (outCap : Nat) (maxPending : Int) (s : St α) : Prop where
  reached : (Fifo.sys (bound maxPending)).Reach Sys.any s.fifo
  refines : ∀ e t, step grow outCap s e = some t → Follows (bound maxPending) s.fifo t.fifo (label s e)
  view : s.fifo.pending = s.pump.queue.drop s.pump.head ∧ s.pump.head ≤ s.pump.queue.length
  bounded : s.pump.pending.length ≤ bound maxPending
  push : ∀ v, (s.pump.push grow v).2 = true ↔
    s.pump.inputEnd = false ∧ s.pump.stopped = false ∧ s.pump.pending.length < bound maxPending
  /-- `Push` after a `Close` or a `Stop`. -/
  refused : ∀ e t u v, e = .close ∨ e = .stop → step grow outCap s e = some t →
    (sys grow outCap maxPending).Steps Sys.any t u → (u.pump.push grow v).2 = false
  order : s.sent.IsPrefix s.accepted
  consumer : s.got ++ s.out = s.sent
  complete : s.drained = true ∨ s.pc = .finished ∧ s.pump.stopped = false → s.sent = s.accepted
  /-- `onDeliver` ran for each value sent but the one whose send just went through. -/
  hooks : s.hooks + (worker s.pc).isHanded.toNat = s.sent.length
  closed : s.closes = (worker s.pc).isReturned.toNat
  silent : ∀ e t, 0 < s.closes → step grow outCap s e = some t → t.sent = s.sent ∧ t.closes = s.closes
  /-- A new backing array, and how large one can be. -/
  grown : ∀ e t, step grow outCap s e = some t → t.pump.capacity ≠ s.pump.capacity →
    s.pump.head = 0 ∧ s.pump.queue.length = s.pump.capacity ∧ s.pump.queue.length < bound maxPending
  size : ∀ n, (∀ c < bound maxPending, max (c + 1) (grow c) ≤ n) → s.pump.capacity ≤ n

theorem pump_refines_fifo (grow : Nat → Nat) (outCap : Nat) (maxPending : Int) (s : St α)
    (hr : (sys grow outCap maxPending).Reach Sys.any s) : Bounded grow outCap maxPending s := by
  have hi := inv_reach hr
  have hq := fifo_reach hr
  have hf := Fifo.inv_reach hq
  refine
    { reached := hq, refines := fun e t h => hi.maxPending ▸ simulates h, view := ⟨rfl, s.pump.head_le⟩,
      bounded := hf.bounded, push := fun v => ?_, refused := fun e t u v he h hu => ?_,
        order := hf.sentPrefix, consumer := hi.sent, complete := complete hf, hooks := hf.hooks, closed := hf.closes,
      silent := fun e t hc h => silent (finished_of_closes hf hc) h, grown := fun e t h hne => ?_,
        size := hi.capacity }
  · rw [push_accepts, hi.maxPending]
    simp only [Fifo.accepts, Bool.and_eq_true, Bool.not_eq_true', decide_eq_true_eq, and_assoc]
    exact Iff.rfl
  · have hshut : t.fifo.ended = true ∨ t.fifo.stopped = true := by
      rcases he with rfl | rfl
      · cases h; exact .inl rfl
      · cases h; exact .inr rfl
    rw [StreamPump.push_refused grow v (shut_steps hu hshut)]
  · rcases step_capacity h with hc | ⟨h0, hl, hlt, -⟩
    · exact absurd hc hne
    · exact ⟨h0, hl, hi.maxPending ▸ hlt⟩

/-- A bound of 2, an array that doubles, an unbuffered `out`: the third push finds the array
    full behind a taken value and compacts it, the fourth overflows, and the rest drains. -/
def overflows : List (Ev Nat) :=
  [.push (.data 1), .push (.data 2), .turn, .push (.data 3), .push (.data 4), .handoff, .hook, .turn,
    .handoff, .hook, .turn,
    .handoff, .hook, .turn]

/-- A `Close` with a value pending, then a `Stop` with that value in hand; the pushes after
    them are refused. -/
def closesAndStops : List (Ev Nat) :=
  [.push (.data 1), .push (.data 2), .turn, .handoff, .hook, .close, .push (.data 3), .turn, .stop,
    .push (.data 4), .abandon]

theorem pump_refines_fifo_overflows :
    (∃ s : St Nat, (sys (fun c => 2 * c) 0 2).Reach Sys.any s ∧ s.pump.overflow = true ∧ s.pc = .finished ∧
      s.got = [.data 1, .data 2, .data 3] ∧ s.accepted = s.got ∧ s.hooks = 3 ∧ s.pump.capacity = 2 ∧
      Bounded (fun c => 2 * c) 0 2 s) ∧
    (∃ s : St Nat, (sys (fun c => 2 * c) 0 2).Reach Sys.any s ∧ s.fifo.ended = true ∧ s.fifo.stopped = true ∧
      s.accepted = [.data 1, .data 2] ∧ s.got = [.data 1] ∧ s.closes = 1 ∧ Bounded (fun c => 2 * c) 0 2 s) ∧
    ∃ s : St Nat, (sys (fun c => 2 * c) 0 2).Reach Sys.any s ∧ s.accepted = [.data 1] ∧
      (s.pump.push (fun c => 2 * c) (.data 2)).2 = true ∧ (s.pump.close.push (fun c => 2 * c) (.data 2)).2 = false ∧
      (s.pump.stop.push (fun c => 2 * c) (.data 2)).2 = false := by
  obtain ⟨s, hr, ho, hp, hg, ha, hh, hc⟩ :=
    (sys (fun c => 2 * c) 0 2).reach_of_exec Sys.any (start 2 : St Nat) rfl overflows
    (P := fun s => s.pump.overflow = true ∧ s.pc = .finished ∧ s.got = [.data 1, .data 2, .data 3] ∧
      s.accepted = s.got ∧
      s.hooks = 3 ∧ s.pump.capacity = 2) (by decide +kernel)
  obtain ⟨s', hr', he', hs', ha', hg', hc'⟩ := (sys (fun c => 2 * c) 0 2).reach_of_exec Sys.any (start 2 : St Nat) rfl
    closesAndStops (P := fun s => s.fifo.ended = true ∧ s.fifo.stopped = true ∧ s.accepted = [.data 1, .data 2] ∧
      s.got = [.data 1] ∧ s.closes = 1) (by decide +kernel)
  obtain ⟨u, hru, hau, hpu⟩ :=
    (sys (fun c => 2 * c) 0 2).reach_of_exec Sys.any (start 2 : St Nat) rfl [.push (.data 1)]
    (P := fun s => s.accepted = [.data 1] ∧ (s.pump.push (fun c => 2 * c) (.data 2)).2 = true) (by decide +kernel)
  have hb := pump_refines_fifo _ 0 2 u hru
  exact ⟨⟨s, hr, ho, hp, hg, ha, hh, hc, pump_refines_fifo _ 0 2 s hr⟩,
    ⟨s', hr', he', hs', ha', hg', hc', pump_refines_fifo _ 0 2 s' hr'⟩,
    u, hru, hau, hpu, hb.refused .close _ _ (.data 2) (.inl rfl) rfl .refl,
    hb.refused .stop _ _ (.data 2) (.inr rfl) rfl .refl⟩

end ValueRpc.Core.PumpRun
