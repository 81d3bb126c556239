/-
  ValueRpc.Lib.Runs — runs of a labelled transition system.

  A system has initial states and a partial step function: `step s e = none` when the
  event `e` cannot happen in `s`. `Steps ok s t` is a run from `s` to `t` all of whose
  steps meet `ok`, a condition on an event and the state before it; `Reach ok s` starts
  it in an initial state. `exec` runs a list of events, for concrete runs.

  - `Reach.inv`: what holds initially and is kept by every step holds in every state.
  - `Steps.keep`: what every step keeps holds from then on.
  - `Reach.sim`: a simulation by a function, step by step.
  - `inevitable_of_measure`: when the steps shrink a measure and only good states are
    stuck, every maximal run gets to a good state.
  - `Reach.each`: in a family of systems that take their steps in any order, each is in a
    state it reaches alone.
  - `reach_exec`, `reach_of_exec`: a computed run is a run.
-/

import Mathlib.Logic.Basic
import Mathlib.Logic.Function.Basic

namespace ValueRpc.Lib

structure Sys (σ ε : Type) where
  init : σ → Prop
  /-- `none` when the event cannot happen. -/
  step : σ → ε → Option σ

namespace Sys

variable {σ ε : Type} {S : Sys σ ε} {ok : σ → ε → Prop}

/-- The condition every step meets. -/
def any : σ → ε → Prop := fun _ _ => True

instance (s : σ) (e : ε) : Decidable (any s e) := .isTrue trivial

inductive Steps (S : Sys σ ε) (ok : σ → ε → Prop) (s : σ) : σ → Prop
  | refl : Steps S ok s s
  | tail {t u : σ} {e : ε} : Steps S ok s t → ok t e → S.step t e = some u → Steps S ok s u

def Reach (S : Sys σ ε) (ok : σ → ε → Prop) (s : σ) : Prop := ∃ s₀, S.init s₀ ∧ S.Steps ok s₀ s

theorem Steps.trans {s t u : σ} (h : S.Steps ok s t) (h' : S.Steps ok t u) : S.Steps ok s u := by
  induction h' with
  | refl => exact h
  | tail _ ho hs ih => exact .tail ih ho hs

/-- What every step keeps holds to the end of a run. -/
theorem Steps.keep {P : σ → Prop} (hstep : ∀ s e t, P s → ok s e → S.step s e = some t → P t) {s t : σ}
    (h : S.Steps ok s t) (hs : P s) : P t := by
  induction h with
  | refl => exact hs
  | tail _ ho he ih => exact hstep _ _ _ ih ho he

theorem Reach.init {s : σ} (h : S.init s) : S.Reach ok s := ⟨s, h, .refl⟩

theorem Reach.step {s t : σ} {e : ε} (h : S.Reach ok s) (ho : ok s e) (hs : S.step s e = some t) :
    S.Reach ok t := by
  obtain ⟨s₀, h0, hr⟩ := h
  exact ⟨s₀, h0, .tail hr ho hs⟩

theorem Reach.steps {s t : σ} (h : S.Reach ok s) (h' : S.Steps ok s t) : S.Reach ok t := by
  obtain ⟨s₀, h0, hr⟩ := h
  exact ⟨s₀, h0, hr.trans h'⟩

/-- An invariant: it holds initially and every step meeting `ok` keeps it. -/
theorem Reach.inv {P : σ → Prop} (hinit : ∀ s, S.init s → P s)
    (hstep : ∀ s e t, P s → ok s e → S.step s e = some t → P t) {s : σ} (h : S.Reach ok s) : P s := by
  obtain ⟨s₀, h0, hr⟩ := h
  exact hr.keep hstep (hinit s₀ h0)

/-- A map that takes every step to a run of another system takes every state reached to one
    reached there. -/
theorem Reach.sim {σ' ε' : Type} {T : Sys σ' ε'} {ok' : σ' → ε' → Prop} {f : σ → σ'}
    (hinit : ∀ s, S.init s → T.init (f s))
    (hstep : ∀ s e t, S.Reach ok s → ok s e → S.step s e = some t → T.Steps ok' (f s) (f t)) {s : σ}
    (h : S.Reach ok s) : T.Reach ok' (f s) := by
  obtain ⟨s₀, h0, hr⟩ := h
  refine ⟨f s₀, hinit s₀ h0, ?_⟩
  induction hr with
  | refl => exact .refl
  | tail hr ho hs ih => exact ih.trans (hstep _ _ _ ⟨s₀, h0, hr⟩ ho hs)

/-- Every maximal run of steps meeting `ok` gets to a state with `P`, whatever steps are
    chosen on the way. -/
inductive Inevitable (S : Sys σ ε) (ok : σ → ε → Prop) (P : σ → Prop) : σ → Prop
  | now {s : σ} : P s → Inevitable S ok P s
  | later {s : σ} : (∃ e t, ok s e ∧ S.step s e = some t) →
      (∀ e t, ok s e → S.step s e = some t → Inevitable S ok P t) → Inevitable S ok P s

theorem inevitable_of_measure {I P : σ → Prop} (μ : σ → Nat)
    (hstep : ∀ s e t, I s → ok s e → S.step s e = some t → I t ∧ μ t < μ s)
    (hstuck : ∀ s, I s → (∀ e, ok s e → S.step s e = none) → P s) {s : σ} (hs : I s) :
    S.Inevitable ok P s := by
  induction hn : μ s using Nat.strongRecOn generalizing s with
  | ind n ih =>
    by_cases hen : ∃ e t, ok s e ∧ S.step s e = some t
    · refine .later hen fun e t ho ht => ?_
      obtain ⟨hi, hlt⟩ := hstep s e t hs ho ht
      exact ih (μ t) (hn ▸ hlt) hi rfl
    · refine .now (hstuck s hs fun e ho => ?_)
      cases ht : S.step s e with
      | none => rfl
      | some t => exact absurd ⟨e, t, ho, ht⟩ hen

/-! ## Families of systems -/

section Each

variable {ι : Type} [DecidableEq ι]

/-- The systems of a family side by side: an event is one of one of them. -/
def each (S : ι → Sys σ ε) : Sys (ι → σ) (ι × ε) where
  init := fun s => ∀ i, (S i).init (s i)
  step := fun s e => ((S e.1).step (s e.1) e.2).map (Function.update s e.1)

theorem Reach.each {S : ι → Sys σ ε} (ok : ι → σ → ε → Prop) {s : ι → σ}
    (h : (Sys.each S).Reach (fun s e => ok e.1 (s e.1) e.2) s) (i : ι) : (S i).Reach (ok i) (s i) := by
  refine Reach.inv (S := Sys.each S) (P := fun s => (S i).Reach (ok i) (s i)) (fun s hs => .init (hs i))
    (fun s e t hi ho hs => ?_) h
  obtain ⟨u, hu, rfl⟩ := Option.map_eq_some_iff.mp hs
  by_cases he : i = e.1
  · subst he
    rw [Function.update_self]
    exact hi.step ho hu
  · rw [Function.update_of_ne he]
    exact hi

end Each

/-! ## Concrete runs -/

/-- Run a list of events, each checked against `ok`. -/
def exec (S : Sys σ ε) (ok : σ → ε → Prop) [∀ s e, Decidable (ok s e)] (s : σ) : List ε → Option σ
  | [] => some s
  | e :: es => if ok s e then (S.step s e).bind fun t => S.exec ok t es else none

theorem steps_exec [∀ s e, Decidable (ok s e)] :
    ∀ (es : List ε) {s t : σ}, S.exec ok s es = some t → S.Steps ok s t
  | [], s, t, h => by cases h; exact .refl
  | e :: es, s, t, h => by
    simp only [exec] at h
    split at h
    · rename_i ho
      obtain ⟨u, hu, ht⟩ := Option.bind_eq_some_iff.mp h
      exact (Steps.tail .refl ho hu).trans (steps_exec es ht)
    · cases h

section Exec

variable (S : Sys σ ε) (ok : σ → ε → Prop) [∀ s e, Decidable (ok s e)] {P : σ → Prop} [DecidablePred P]
  (s₀ : σ) (h0 : S.init s₀)
  (es : List ε) (h : (S.exec ok s₀ es).any (fun s => decide (P s)) = true)

include h0 h

/-- The run is computed once, for all that is to be known of its last state. -/
theorem reach_exec : ∃ s, S.Reach ok s ∧ S.exec ok s₀ es = some s ∧ P s := by
  cases hs : S.exec ok s₀ es with
  | none =>
    rw [hs] at h
    cases h
  | some s =>
    rw [hs] at h
    exact ⟨s, ⟨s₀, h0, steps_exec es hs⟩, rfl, of_decide_eq_true h⟩

theorem reach_of_exec : ∃ s, S.Reach ok s ∧ P s := by
  obtain ⟨s, hr, -, hp⟩ := S.reach_exec ok s₀ h0 es h
  exact ⟨s, hr, hp⟩

end Exec

end Sys

end ValueRpc.Lib
