/-
  ValueRpc.Core.Credit — `CreditGate` (valuerpc/credit.go), the sender's side of
  credit-based flow control, and the batching of grants on the receiver's side.

  `credit` is an int64, so `grant` wraps; while the total stays an int64 it does not
  (`grant_credit`). `acquire` is `none` while the caller waits.
-/

import Mathlib.Algebra.Order.Ring.Int

namespace ValueRpc.Core

/-- int64 arithmetic: the representative of `x` modulo 2^64 in [-2^63, 2^63). -/
def wrap64 (x : Int) : Int := Int.bmod x (2 ^ 64)

theorem wrap64_eq {x : Int} (h : -2 ^ 63 ≤ x) (h' : x < 2 ^ 63) : wrap64 x = x := by
  unfold wrap64
  exact Int.bmod_eq_of_le (by omega) (by omega)

structure CreditGate where
  credit : Int
  closed : Bool
  deriving DecidableEq, Repr

namespace CreditGate

def new : CreditGate := ⟨0, false⟩

/-- `Acquire`: `none` while it waits, else its result and the gate after it. -/
def acquire (g : CreditGate) : Option (Bool × CreditGate) :=
  if g.credit ≤ 0 ∧ g.closed = false then none
  else if g.closed then some (false, g)
  else some (true, { g with credit := g.credit - 1 })

def grant (g : CreditGate) (n : Int) : CreditGate :=
  if n ≤ 0 then g else { g with credit := wrap64 (g.credit + n) }

def close (g : CreditGate) : CreditGate := { g with closed := true }

@[simp] theorem grant_closed (g : CreditGate) (n : Int) : (g.grant n).closed = g.closed := by
  unfold grant; split <;> rfl

@[simp] theorem close_credit (g : CreditGate) : g.close.credit = g.credit := rfl

/-- While the sum is an int64, a grant adds its positive part. -/
theorem grant_credit {g : CreditGate} {n : Int} (h0 : 0 ≤ g.credit) (h : g.credit + max n 0 < 2 ^ 63) :
    (g.grant n).credit = g.credit + max n 0 := by
  unfold grant
  split
  · omega
  · simp only [wrap64_eq (x := g.credit + n) (by omega) (by omega)]; omega

/-- A grant of one credit, or the refusal of a closed gate. -/
theorem acquire_some {g g' : CreditGate} {b : Bool} (h : g.acquire = some (b, g')) :
    (b = true ∧ 0 < g.credit ∧ g' = { g with credit := g.credit - 1 }) ∨ (b = false ∧ g.closed = true ∧ g' = g) := by
  unfold acquire at h
  split at h
  · cases h
  · rename_i hc
    split at h
    · cases h; exact .inr ⟨rfl, ‹_›, rfl⟩
    · rename_i ho
      cases h
      exact .inl ⟨rfl, by by_contra hle; exact hc ⟨by omega, Bool.eq_false_iff.mpr ho⟩, rfl⟩

theorem acquire_isSome {g : CreditGate} (h : 0 < g.credit) : g.acquire ≠ none := by
  unfold acquire
  rw [if_neg (by omega)]
  split <;> simp

end CreditGate

/-- How many values a receiver delivers before it grants: half the window, at least 1. -/
def grantBatch (creditWindow : Int) : Int :=
  let batch := creditWindow.tdiv 2
  if batch < 1 then 1 else batch

theorem grantBatch_pos (w : Int) : 1 ≤ grantBatch w := by
  unfold grantBatch; dsimp only; split <;> omega

theorem grantBatch_le {w : Int} (h : 1 ≤ w) : grantBatch w ≤ w := by
  have : w.tdiv 2 = w / 2 := Int.tdiv_eq_ediv_of_nonneg (by omega)
  unfold grantBatch; dsimp only; split <;> omega

end ValueRpc.Core
