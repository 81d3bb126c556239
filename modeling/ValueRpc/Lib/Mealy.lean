/-
  ValueRpc.Lib.Mealy — machines that write: a partial step function that takes an event to a
  new state and what is written on the way.

  - `run_map`: a map that commutes with the steps commutes with the runs, so two machines
    with one image write the same up to the map.
-/

import Mathlib.Data.Option.Basic

namespace ValueRpc.Lib

structure Mealy (κ ε o : Type) where
  /-- `none` when the event cannot happen. -/
  step : κ → ε → Option (κ × List o)

namespace Mealy

variable {κ κ' ε o o' : Type} {M : Mealy κ ε o} {N : Mealy κ' ε o'}

/-- The last state and all that was written. -/
def run (M : Mealy κ ε o) (k : κ) : List ε → Option (κ × List o)
  | [] => some (k, [])
  | e :: es => (M.step k e).bind fun r => (M.run r.1 es).map fun q => (q.1, r.2 ++ q.2)

theorem run_cons {k : κ} {e : ε} {es : List ε} {r : κ × List o} (h : M.run k (e :: es) = some r) :
    ∃ k₁ w w', M.step k e = some (k₁, w) ∧ M.run k₁ es = some (r.1, w') ∧ r.2 = w ++ w' := by
  simp only [run, Option.bind_eq_some_iff, Option.map_eq_some_iff] at h
  obtain ⟨⟨k₁, w⟩, hs, ⟨k₂, w'⟩, hr, rfl⟩ := h
  exact ⟨k₁, w, w', hs, hr, rfl⟩

theorem run_of_step {k k₁ : κ} {e : ε} {es : List ε} {w w' : List o} {r : κ} (hs : M.step k e = some (k₁, w))
    (hr : M.run k₁ es = some (r, w')) : M.run k (e :: es) = some (r, w ++ w') := by
  simp [run, hs, hr]

def image (f : κ → κ') (g : o → o') (r : κ × List o) : κ' × List o' := (f r.1, r.2.map g)

/-- Runs are taken to runs where steps are taken to steps. -/
theorem run_map {f : κ → κ'} {g : o → o'} (h : ∀ k e, (M.step k e).map (image f g) = N.step (f k) e) :
    ∀ (es : List ε) (k : κ), (M.run k es).map (image f g) = N.run (f k) es
  | [], k => rfl
  | e :: es, k => by
    have hstep := h k e
    cases hs : M.step k e with
    | none =>
      rw [hs] at hstep
      simp [run, hs, ← hstep]
    | some r =>
      rw [hs] at hstep
      have ih := run_map h es r.1
      simp only [run, hs, ← hstep, Option.map_some, Option.bind_some, image, ← ih, Option.map_map]
      congr 1
      funext q
      simp [image]

end Mealy

end ValueRpc.Lib
