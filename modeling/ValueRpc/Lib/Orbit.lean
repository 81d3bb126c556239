/-
  ValueRpc.Lib.Orbit — forward orbits of a function, and the bounded search along one.

  `Leads f a b`: some number of steps of `f` takes `a` to `b`. `search` steps forward from
  a point, at most `n` times, until it meets a target.

  - `Leads.notPeriodic`: what leads to a point on no cycle is on no cycle.
  - `iterate_inj`: the points of an orbit up to a point on no cycle are all different.
  - `search_eq_some`: the search reports the first hit, and only hits.
  - `search_iterate`: along such an orbit the search reports the distance.
-/

import Mathlib.Dynamics.PeriodicPts.Defs

namespace ValueRpc.Lib.Orbit

open Function

variable {α : Type} {f : α → α} {a b c : α}

/-- Some number of steps of `f` takes `a` to `b`. -/
def Leads (f : α → α) (a b : α) : Prop := ∃ k, f^[k] a = b

theorem Leads.refl (a : α) : Leads f a a := ⟨0, rfl⟩

theorem Leads.trans (h : Leads f a b) (h' : Leads f b c) : Leads f a c := by
  obtain ⟨j, rfl⟩ := h
  obtain ⟨k, rfl⟩ := h'
  exact ⟨k + j, iterate_add_apply f k j a⟩

theorem iterate_ne (ha : a ∉ periodicPts f) {k : Nat} (hk : 0 < k) : f^[k] a ≠ a :=
  fun h => ha (mk_mem_periodicPts hk h)

theorem Leads.notPeriodic (h : Leads f a b) (hb : b ∉ periodicPts f) : a ∉ periodicPts f := by
  obtain ⟨k, rfl⟩ := h
  rintro ⟨n, hn, hp⟩
  exact hb (mk_mem_periodicPts hn (hp.apply_iterate k))

private theorem iterate_ne_of_lt {n i j : Nat} (hn : f^[n] a ∉ periodicPts f) (hij : i < j) (hi : i ≤ n) :
    f^[i] a ≠ f^[j] a := by
  intro h
  have hlead : Leads f (f^[i] a) (f^[n] a) := ⟨n - i, by rw [← iterate_add_apply, Nat.sub_add_cancel hi]⟩
  refine iterate_ne (hlead.notPeriodic hn) (Nat.sub_pos_of_lt hij) ?_
  rw [← iterate_add_apply, Nat.sub_add_cancel hij.le, h]

theorem iterate_inj {n i j : Nat} (hn : f^[n] a ∉ periodicPts f) (hi : i ≤ n) (hj : j ≤ n)
    (h : f^[i] a = f^[j] a) : i = j := by
  rcases Nat.lt_trichotomy i j with hlt | heq | hgt
  · exact absurd h (iterate_ne_of_lt hn hlt hi)
  · exact heq
  · exact absurd h.symm (iterate_ne_of_lt hn hgt hj)

/-! ## The bounded search -/

section Search

variable [DecidableEq α] {target x : α}

/-- Step forward at most `n` times until `target` is met; `step` counts the steps. -/
def search (f : α → α) (target : α) : (n step : Nat) → α → Option Nat
  | 0, _, _ => none
  | n + 1, step, x => if f x = target then some step else search f target n (step + 1) (f x)

private theorem search_at {n k m : Nat} : search f target n k x = some m ↔
    ∃ j < n, m = k + j ∧ f^[j + 1] x = target ∧ ∀ i < j, f^[i + 1] x ≠ target := by
  induction n generalizing k x with
  | zero => simp [search]
  | succ n ih =>
    simp only [search]
    split
    · rename_i hit
      constructor
      · rintro ⟨⟩
        exact ⟨0, Nat.succ_pos n, rfl, hit, fun i hi => absurd hi (Nat.not_lt_zero i)⟩
      · rintro ⟨j, -, rfl, -, hmiss⟩
        cases j with
        | zero => rfl
        | succ j => exact absurd hit (hmiss 0 (Nat.succ_pos j))
    · rename_i miss
      rw [ih]
      constructor
      · rintro ⟨j, hj, rfl, hit, hmiss⟩
        refine ⟨j + 1, Nat.succ_lt_succ hj, by omega, hit, fun i hi => ?_⟩
        cases i with
        | zero => exact miss
        | succ i => exact hmiss i (Nat.lt_of_succ_lt_succ hi)
      · rintro ⟨j, hj, rfl, hit, hmiss⟩
        cases j with
        | zero => exact absurd hit miss
        | succ j =>
          exact ⟨j, Nat.lt_of_succ_lt_succ hj, by omega, hit, fun i hi => hmiss (i + 1) (Nat.succ_lt_succ hi)⟩

/-- The search from 1 reports the first number of steps, 1 to `n`, that meets the target. -/
theorem search_eq_some {n m : Nat} : search f target n 1 x = some m ↔
    1 ≤ m ∧ m ≤ n ∧ f^[m] x = target ∧ ∀ i, 1 ≤ i → i < m → f^[i] x ≠ target := by
  rw [search_at]
  constructor
  · rintro ⟨j, hj, rfl, hit, hmiss⟩
    refine ⟨Nat.le_add_right 1 j, by omega, by rwa [Nat.add_comm 1 j], fun i h1 hi => ?_⟩
    obtain ⟨i, rfl⟩ := Nat.exists_eq_add_of_le' h1
    exact hmiss i (by omega)
  · rintro ⟨h1, hn, hit, hmiss⟩
    obtain ⟨j, rfl⟩ := Nat.exists_eq_add_of_le' h1
    exact ⟨j, by omega, Nat.add_comm j 1, hit, fun i hi => hmiss (i + 1) (Nat.le_add_left 1 i) (by omega)⟩

theorem search_isSome {n : Nat} :
    (search f target n 1 x).isSome = true ↔ ∃ m, 1 ≤ m ∧ m ≤ n ∧ f^[m] x = target := by
  constructor
  · intro h
    obtain ⟨m, hm⟩ := Option.isSome_iff_exists.mp h
    obtain ⟨h1, hn, hit, -⟩ := search_eq_some.mp hm
    exact ⟨m, h1, hn, hit⟩
  · intro h
    -- the least hit is the one reported
    have hex : ∃ m, 1 ≤ m ∧ f^[m] x = target := h.imp fun m hm => ⟨hm.1, hm.2.2⟩
    obtain ⟨h1, hit⟩ := Nat.find_spec hex
    have hle : Nat.find hex ≤ n := by
      obtain ⟨m, hm, hn, hit⟩ := h
      exact (Nat.find_le ⟨hm, hit⟩).trans hn
    refine Option.isSome_iff_exists.mpr ⟨Nat.find hex, search_eq_some.mpr ⟨h1, hle, hit, fun i hi hlt => ?_⟩⟩
    exact fun heq => Nat.find_min hex hlt ⟨hi, heq⟩

/-- On an orbit to a point on no cycle, from its `i`-th point to its `j`-th: the search
    reports the distance, and reports nothing when that exceeds its bound or is not
    positive. -/
theorem search_iterate {n i j w m : Nat} (hn : f^[n] a ∉ periodicPts f) (hj : j ≤ n) :
    search f (f^[j] a) w 1 (f^[i] a) = some m ↔ j = i + m ∧ 1 ≤ m ∧ m ≤ w := by
  have hstep : ∀ k, f^[k] (f^[i] a) = f^[k + i] a := fun k => (iterate_add_apply f k i a).symm
  rw [search_eq_some]
  constructor
  · rintro ⟨h1, hw, hit, -⟩
    rw [hstep] at hit
    refine ⟨?_, h1, hw⟩
    -- the hit is at or before the anchor: `j` is, and no point after it comes back to `j`
    by_contra hne
    rcases Nat.lt_or_gt_of_ne hne with hlt | hgt
    · exact iterate_ne_of_lt hn (by omega) hj hit.symm
    · exact iterate_ne_of_lt hn (by omega) (by omega) hit
  · rintro ⟨rfl, h1, hw⟩
    refine ⟨h1, hw, by rw [hstep, Nat.add_comm], fun k hk hlt heq => ?_⟩
    rw [hstep] at heq
    exact iterate_ne_of_lt hn (by omega) (by omega) heq

end Search

end ValueRpc.Lib.Orbit
