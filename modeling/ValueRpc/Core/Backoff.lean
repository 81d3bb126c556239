/-
  ValueRpc.Core.Backoff — the delays between attempts, as `Retry` (resilience/retry.go) and
  `retryReconnect` (valueclient/client.go) both compute them: the delay doubles after each
  wait and is then capped, and jitter leaves half of it and draws the rest.

  A `time.Duration` is an int64 of nanoseconds and doubling wraps. The cap is applied to the
  doubled delay only, not to the first.

  - `delays_doubled`: the first delays are `min (base * 2 ^ i) max` exactly when the base is at
    most the cap and no delay that is doubled on the way is 2^62 or more (`Bounded`).
  - `equalJitter_bounds`: a jittered delay is at least half of the delay and at most all of it.
-/

import Mathlib.Algebra.Order.Ring.Int
import ValueRpc.Core.Credit

namespace ValueRpc.Core

/-- `if delay *= 2; delay > max` then `delay = max`. -/
def nextDelay (max delay : Int) : Int :=
  let delay := wrap64 (delay * 2)
  if max < delay then max else delay

/-- `d/2 + rand(d/2 + 1)`: the draw is any number from 0 up to `d/2`. -/
def equalJitter (draw : Nat) (d : Int) : Int := d.tdiv 2 + (draw : Int) % (d.tdiv 2 + 1)

/-- A wait between two attempts: the delay, and the timer's duration. -/
structure Wait where
  delay : Int
  timer : Int
  deriving DecidableEq, Repr

/-- The delay before attempt `i + 2`. -/
def doubled (base max : Int) (i : Nat) : Int := min (base * 2 ^ i) max

def Wait.Doubled (base max : Int) (jitter : Bool) (i : Nat) (w : Wait) : Prop :=
  w.delay = min (base * 2 ^ i) max ∧
    if jitter then w.delay / 2 ≤ w.timer ∧ w.timer ≤ w.delay else w.timer = w.delay

/-- For a number of waits: the base is at most the cap, and no delay but the last is 2^62 or more. -/
def Bounded (base max : Int) (waits : Nat) : Prop :=
  0 < waits → base ≤ max ∧ ∀ j, j + 1 < waits → min (base * 2 ^ j) max < 2 ^ 62

structure Durations (base max : Int) : Prop where
  base_pos : 0 < base
  max_pos : 0 < max
  max_lt : max < 2 ^ 63

variable {base max : Int}

/-- A cap below 2^62 is enough for any number of waits. -/
theorem Bounded.of_cap (h : base ≤ max) (hm : max < 2 ^ 62) (waits : Nat) : Bounded base max waits :=
  fun _ => ⟨h, fun j _ => by omega⟩

theorem doubled_pos (h : Durations base max) (i : Nat) : 0 < doubled base max i := by
  have hp : 0 < base * 2 ^ i := Int.mul_pos h.base_pos (Int.pow_pos (by decide))
  have := h.max_pos
  simp only [doubled]
  omega

theorem doubled_zero : doubled base max 0 = min base max := by simp [doubled]

/-- Doubled without overflow, and capped after it. -/
theorem nextDelay_eq {delay : Int} (h0 : 0 < delay) (h : delay < 2 ^ 62) :
    nextDelay max delay = min (delay * 2) max := by
  simp only [nextDelay, wrap64_eq (x := delay * 2) (by omega) (by omega)]
  split <;> omega

theorem nextDelay_doubled (h : Durations base max) {i : Nat} (hi : doubled base max i < 2 ^ 62) :
    nextDelay max (doubled base max i) = doubled base max (i + 1) := by
  have hpos := doubled_pos h i
  rw [nextDelay_eq hpos hi]
  have hpow : base * 2 ^ (i + 1) = base * 2 ^ i * 2 := by rw [pow_succ, ← mul_assoc]
  have := h.max_pos
  simp only [doubled, hpow] at hpos ⊢
  omega

/-- From 2^62 on the doubled delay is negative, and below every cap. -/
theorem nextDelay_wraps {delay : Int} (hlo : 2 ^ 62 ≤ delay) (hhi : delay < 2 ^ 63) (hm : 0 < max) :
    nextDelay max delay < 0 := by
  have hwrap : wrap64 (delay * 2) = delay * 2 - 2 ^ 64 := by
    unfold wrap64
    rw [← Int.sub_bmod_right]
    exact wrap64_eq (by omega) (by omega)
  simp only [nextDelay, hwrap]
  split <;> omega

/-- The delays before the first waits are as the doubling says. -/
theorem delays_doubled (h : Durations base max) (waits : Nat) :
    (∀ i < waits, (nextDelay max)^[i] base = doubled base max i) ↔ Bounded base max waits := by
  constructor
  · intro hall hpos
    have hzero : base = doubled base max 0 := hall 0 hpos
    rw [doubled_zero] at hzero
    refine ⟨by omega, fun j hj => ?_⟩
    -- a delay of 2^62 or more would be followed by a negative one
    by_contra hlarge
    have hnext : nextDelay max (doubled base max j) = doubled base max (j + 1) := by
      rw [← hall j (by omega), ← hall (j + 1) hj, Function.iterate_succ_apply']
    have hle : doubled base max j ≤ max := Int.min_le_right ..
    have hlt := h.max_lt
    have := nextDelay_wraps (Int.not_lt.mp hlarge) (Int.lt_of_le_of_lt hle hlt) h.max_pos
    have hpos' := doubled_pos h (j + 1)
    simp only [doubled] at hnext hpos'
    omega
  · intro hb i hi
    obtain ⟨hcap, hsmall⟩ := hb (by omega)
    induction i with
    | zero =>
      rw [doubled_zero]
      exact (Int.min_eq_left hcap).symm
    | succ i ih => rw [Function.iterate_succ_apply', ih (by omega), nextDelay_doubled h (hsmall i hi)]

theorem equalJitter_bounds (draw : Nat) {d : Int} (h : 0 < d) :
    d / 2 ≤ equalJitter draw d ∧ equalJitter draw d ≤ d := by
  have ht : d.tdiv 2 = d / 2 := Int.tdiv_eq_ediv_of_nonneg (by omega)
  have hlo : 0 ≤ (draw : Int) % (d / 2 + 1) := Int.emod_nonneg _ (by omega)
  have hhi : (draw : Int) % (d / 2 + 1) < d / 2 + 1 := Int.emod_lt_of_pos _ (by omega)
  simp only [equalJitter, ht]
  omega

end ValueRpc.Core
