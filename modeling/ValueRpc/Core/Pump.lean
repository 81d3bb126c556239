/-
  ValueRpc.Core.Pump — `StreamPump` (valuerpc/pump.go): the queue between the shared
  connection loop, which must not block, and one slow consumer.

  The queue is a slice with a moving head: taking a value clears its slot and advances
  `head`; a push into a full backing array first moves the live region `queue[head:]`
  to the front (`compact`), and only a full array with `head = 0` is reallocated, by a
  growth policy `grow` the runtime chooses. `pending` is the live region, and each
  operation has one lemma saying what it does to it: `push_ok`, `push_refused`,
  `push_overflow`, `take_some`, `take_none`.

  `run`'s goroutine is `RunPc`: at its wait, holding a value it took, or past the send
  into `out` with the deliver hook still to run.
-/

import ValueRpc.Core.Value
import Mathlib.Tactic.Common

namespace ValueRpc.Core

def defaultMaxPending : Nat := 4096

structure StreamPump (α : Type) where
  queue : List (Value α)
  head : Nat
  /-- The size of the backing array, `cap(p.queue)`. -/
  capacity : Nat
  inputEnd : Bool
  overflow : Bool
  stopped : Bool
  maxPending : Nat
  head_le : head ≤ queue.length
  length_le : queue.length ≤ capacity
  deriving DecidableEq, Repr

namespace StreamPump

variable {α : Type} {p : StreamPump α}

/-- `NewStreamPump`: a bound of 0 or less is the default. -/
def new (maxPending : Int) : StreamPump α where
  queue := []
  head := 0
  capacity := 0
  inputEnd := false
  overflow := false
  stopped := false
  maxPending := if maxPending ≤ 0 then defaultMaxPending else maxPending.toNat
  head_le := Nat.le_refl 0
  length_le := Nat.le_refl 0

/-- The values accepted and not yet taken by `run`: `queue[head:]`. -/
def pending (p : StreamPump α) : List (Value α) := p.queue.drop p.head

def compact (p : StreamPump α) : StreamPump α :=
  if 0 < p.head ∧ p.queue.length = p.capacity then
    { p with
      queue := p.queue.drop p.head
      head := 0
      head_le := Nat.zero_le _
      length_le := by have := p.length_le; rw [List.length_drop]; omega }
  else p

/-- Go's `append`: in place while there is room, else a larger array. -/
def append (grow : Nat → Nat) (p : StreamPump α) (v : Value α) : StreamPump α :=
  { p with
    queue := p.queue ++ [v]
    capacity := if p.queue.length < p.capacity then p.capacity else max (p.capacity + 1) (grow p.capacity)
    head_le := by have := p.head_le; rw [List.length_append]; omega
    length_le := by
      have := p.length_le
      rw [List.length_append, List.length_singleton]
      split <;> omega }

def push (grow : Nat → Nat) (p : StreamPump α) (v : Value α) : StreamPump α × Bool :=
  if p.inputEnd || p.stopped then (p, false)
  else if p.maxPending ≤ p.queue.length - p.head then ({ p with overflow := true, inputEnd := true }, false)
  else (p.compact.append grow v, true)

/-- `Close`: no more input; the pump drains and finishes. -/
def close (p : StreamPump α) : StreamPump α := { p with inputEnd := true }

/-- `Stop`: abandon the queue and finish. -/
def stop (p : StreamPump α) : StreamPump α := { p with stopped := true }

def take (p : StreamPump α) : Option (Value α × StreamPump α) :=
  if h : p.head < p.queue.length then
    if p.head + 1 = p.queue.length then
      some (p.queue[p.head], { p with
        queue := []
        head := 0
        head_le := Nat.zero_le _
        length_le := Nat.zero_le _ })
    else
      some (p.queue[p.head], { p with
        queue := p.queue.set p.head .nil
        head := p.head + 1
        head_le := by rw [List.length_set]; omega
        length_le := by rw [List.length_set]; exact p.length_le })
  else none

/-! ## What the operations do to the pending values -/

@[simp] theorem close_pending (p : StreamPump α) : p.close.pending = p.pending := rfl
@[simp] theorem stop_pending (p : StreamPump α) : p.stop.pending = p.pending := rfl
@[simp] theorem close_inputEnd (p : StreamPump α) : p.close.inputEnd = true := rfl
@[simp] theorem close_overflow (p : StreamPump α) : p.close.overflow = p.overflow := rfl
@[simp] theorem close_stopped (p : StreamPump α) : p.close.stopped = p.stopped := rfl
@[simp] theorem close_maxPending (p : StreamPump α) : p.close.maxPending = p.maxPending := rfl
@[simp] theorem new_pending (n : Int) : (new n : StreamPump α).pending = [] := rfl
@[simp] theorem new_inputEnd (n : Int) : (new n : StreamPump α).inputEnd = false := rfl
@[simp] theorem new_overflow (n : Int) : (new n : StreamPump α).overflow = false := rfl
@[simp] theorem new_stopped (n : Int) : (new n : StreamPump α).stopped = false := rfl

theorem new_maxPending_pos (n : Int) : 0 < (new n : StreamPump α).maxPending := by
  unfold new; dsimp only; split
  · decide
  · omega

theorem new_maxPending {n : Int} (h : 1 ≤ n) : ((new n : StreamPump α).maxPending : Int) = n := by
  unfold new; dsimp only; rw [if_neg (by omega)]; omega

theorem length_pending (p : StreamPump α) : p.pending.length = p.queue.length - p.head := List.length_drop

theorem compact_pending (p : StreamPump α) : p.compact.pending = p.pending := by
  unfold compact; split <;> rfl

theorem compact_flags (p : StreamPump α) : p.compact.inputEnd = p.inputEnd ∧ p.compact.overflow = p.overflow ∧
    p.compact.stopped = p.stopped ∧ p.compact.maxPending = p.maxPending := by
  unfold compact; split <;> exact ⟨rfl, rfl, rfl, rfl⟩

theorem append_pending (grow : Nat → Nat) (p : StreamPump α) (v : Value α) :
    (p.append grow v).pending = p.pending ++ [v] := by
  unfold append pending
  exact List.drop_append_of_le_length p.head_le

theorem push_ok (grow : Nat → Nat) (v : Value α) (he : p.inputEnd = false) (hs : p.stopped = false)
    (hl : p.pending.length < p.maxPending) :
    ∃ p', p.push grow v = (p', true) ∧ p'.pending = p.pending ++ [v] ∧ p'.inputEnd = false ∧
      p'.overflow = p.overflow ∧ p'.stopped = false ∧ p'.maxPending = p.maxPending := by
  rw [length_pending] at hl
  obtain ⟨h1, h2, h3, h4⟩ := p.compact_flags
  refine ⟨p.compact.append grow v, ?_, ?_, h1.trans he, h2, h3.trans hs, h4⟩
  · unfold push
    rw [if_neg (by simp [he, hs]), if_neg (by omega)]
  · rw [append_pending, compact_pending]

theorem push_refused (grow : Nat → Nat) (v : Value α) (h : p.inputEnd = true ∨ p.stopped = true) :
    p.push grow v = (p, false) := by
  unfold push
  rw [if_pos (by simpa using h)]

theorem push_overflow (grow : Nat → Nat) (v : Value α) (he : p.inputEnd = false)
    (hs : p.stopped = false) (hl : p.maxPending ≤ p.pending.length) :
    p.push grow v = ({ p with overflow := true, inputEnd := true }, false) := by
  rw [length_pending] at hl
  unfold push
  rw [if_neg (by simp [he, hs]), if_pos hl]

theorem take_some {p' : StreamPump α} {v : Value α} (h : p.take = some (v, p')) :
    p.pending = v :: p'.pending ∧ p'.inputEnd = p.inputEnd ∧ p'.overflow = p.overflow ∧
      p'.stopped = p.stopped ∧ p'.maxPending = p.maxPending := by
  unfold take at h
  split at h
  · rename_i hlt
    have hd : p.queue.drop p.head = p.queue[p.head] :: p.queue.drop (p.head + 1) := List.drop_eq_getElem_cons hlt
    split at h
    · rename_i hlast
      cases h
      refine ⟨?_, rfl, rfl, rfl, rfl⟩
      unfold pending
      rw [hd, List.drop_of_length_le (by omega)]
      rfl
    · cases h
      refine ⟨?_, rfl, rfl, rfl, rfl⟩
      unfold pending
      -- the cleared slot is behind the new head
      rw [hd, List.drop_set_of_lt (Nat.lt_succ_self _)]
  · cases h

theorem take_none (h : p.take = none) : p.pending = [] := by
  unfold take at h
  split at h
  · split at h <;> cases h
  · exact List.drop_of_length_le (by omega)

end StreamPump

inductive RunPc (α : Type) where
  | waiting
  /-- It took a value and is at the send into `out`. -/
  | holding (v : Value α)
  /-- The send went through; the deliver hook has not run. -/
  | delivered (v : Value α)
  /-- The hook decided on a grant and is at the send of its StreamCredit. -/
  | granting (n : Int)
  | finished
  deriving DecidableEq, Repr

end ValueRpc.Core
