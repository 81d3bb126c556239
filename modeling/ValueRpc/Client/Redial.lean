/-
  ValueRpc.Client.Redial — the delays of `retryReconnect` (valueclient/client.go), after the
  policy's defaults.

  The loop may go on for good, so it is run for a number of turns. What happens around it is
  given: whether the client is closed during a wait or found shutting down after it, whether
  `Connect` succeeds, and what the generator draws. `Int63n` panics on a number that is not
  positive, which a delay that has wrapped gives it.

  `waits_doubled`: no run panics and every wait is as long as the doubling says, exactly when
  the policy is bounded for the waits it allows.
-/

import ValueRpc.Core.Backoff

namespace ValueRpc.Client.Redial

open ValueRpc.Core

def defaultInitialBackoff : Int := 100000000

def defaultMaxBackoff : Int := 30000000000

structure Policy where
  initialBackoff : Int64
  maxBackoff : Int64
  maxAttempts : Int
  jitter : Bool
  deriving DecidableEq, Repr

def Policy.base (p : Policy) : Int :=
    if p.initialBackoff.toInt ≤ 0 then defaultInitialBackoff else p.initialBackoff.toInt

def Policy.maxDelay (p : Policy) : Int := if p.maxBackoff.toInt ≤ 0 then defaultMaxBackoff else p.maxBackoff.toInt

/-- What happens at each attempt, numbered from 1. -/
structure World where
  draw : Nat → Nat
  /-- The wait ends by `t.closed`. -/
  closed : Nat → Bool
  shuttingDown : Nat → Bool
  connect : Nat → Bool

inductive Ended where
  | disabled
  | closed
  | shuttingDown
  | connected (attempt : Nat)
  | gaveUp
  | panicked
  /-- Not after the turns it was run for. -/
  | running
  deriving DecidableEq, Repr

structure Run where
  waits : List Wait
  ended : Ended
  deriving DecidableEq, Repr

def Run.after (w : Wait) (r : Run) : Run := { r with waits := w :: r.waits }

/-- `time.After`'s duration; `none` when `Int63n` panics. -/
def Policy.sleep (p : Policy) (draw : Nat) (delay : Int) : Option Int :=
  if p.jitter then if delay.tdiv 2 + 1 ≤ 0 then none else some (equalJitter draw delay) else some delay

/-- The loop's condition, `p.MaxAttempts < 0 || attempt <= p.MaxAttempts`. -/
def Policy.Allows (p : Policy) (attempt : Nat) : Prop := p.maxAttempts < 0 ∨ (attempt : Int) ≤ p.maxAttempts

instance (p : Policy) (attempt : Nat) : Decidable (p.Allows attempt) := inferInstanceAs (Decidable (_ ∨ _))

def loop (p : Policy) (w : World) : (turns attempt : Nat) → (delay : Int) → Run
  | 0, _, _ => ⟨[], .running⟩
  | turns + 1, attempt, delay =>
    if p.Allows attempt then
      match p.sleep (w.draw attempt) delay with
      | none => ⟨[], .panicked⟩
      | some d =>
        Run.after ⟨delay, d⟩ <|
          if w.closed attempt then ⟨[], .closed⟩
          else if w.shuttingDown attempt then ⟨[], .shuttingDown⟩
          else if w.connect attempt then ⟨[], .connected attempt⟩
          else loop p w turns (attempt + 1) (nextDelay p.maxDelay delay)
    else ⟨[], .gaveUp⟩

def retryReconnect (p : Policy) (w : World) (turns : Nat) : Run :=
  if p.maxAttempts = 0 then ⟨[], .disabled⟩ else loop p w turns 1 p.base

variable {p : Policy} {w : World} {delay : Int}

/-- A positive delay does not panic, and the timer is as the jitter says. -/
theorem sleep_pos (draw : Nat) (h : 0 < delay) : ∃ d, p.sleep draw delay = some d ∧
    if p.jitter then delay / 2 ≤ d ∧ d ≤ delay else d = delay := by
  have ht : delay.tdiv 2 = delay / 2 := Int.tdiv_eq_ediv_of_nonneg (by omega)
  unfold Policy.sleep
  cases hj : p.jitter with
  | false => exact ⟨delay, rfl, rfl⟩
  | true =>
    have hn : ¬ delay.tdiv 2 + 1 ≤ 0 := by omega
    simp only [if_true, if_neg hn]
    exact ⟨_, rfl, equalJitter_bounds draw h⟩

theorem durations (p : Policy) : Durations p.base p.maxDelay := by
  have hm := p.maxBackoff.toInt_lt
  unfold Policy.base Policy.maxDelay defaultInitialBackoff defaultMaxBackoff
  refine ⟨?_, ?_, ?_⟩ <;> split <;> omega

/-- The delay and the timer of a wait of the loop, which its condition has allowed. -/
theorem loop_wait {turns attempt : Nat} {j : Nat} {v : Wait}
    (hv : (loop p w turns attempt delay).waits[j]? = some v) :
    v.delay = (nextDelay p.maxDelay)^[j] delay ∧ (∃ draw, p.sleep draw v.delay = some v.timer) ∧
      p.Allows (attempt + j) := by
  induction turns generalizing attempt delay j with
  | zero => cases hv
  | succ turns ih =>
    rw [loop] at hv
    split at hv
    · rename_i hallow
      split at hv
      · cases hv
      · rename_i d hd
        cases j with
        | zero =>
          -- this turn's wait
          cases hv
          exact ⟨rfl, ⟨_, hd⟩, hallow⟩
        | succ j =>
          simp only [Run.after, List.getElem?_cons_succ] at hv
          split at hv
          · cases hv
          · split at hv
            · cases hv
            · split at hv
              · cases hv
              · obtain ⟨hdelay, hsleep, hnext⟩ := ih hv
                rw [Nat.add_assoc, Nat.add_comm 1 j] at hnext
                exact ⟨hdelay, hsleep, hnext⟩
    · cases hv

/-- It only panics at a delay that `Int63n` cannot draw from. -/
theorem loop_panicked {turns attempt : Nat} (h : (loop p w turns attempt delay).ended = .panicked) :
    ∃ j, p.Allows (attempt + j) ∧ ∃ draw, p.sleep draw ((nextDelay p.maxDelay)^[j] delay) = none := by
  induction turns generalizing attempt delay with
  | zero => cases h
  | succ turns ih =>
    rw [loop] at h
    split at h
    · rename_i hallow
      split at h
      · rename_i hd
        exact ⟨0, hallow, _, hd⟩
      · simp only [Run.after] at h
        split at h
        · cases h
        · split at h
          · cases h
          · split at h
            · cases h
            · obtain ⟨j, hnext, draw, hd⟩ := ih h
              rw [Nat.add_assoc, Nat.add_comm 1 j] at hnext
              exact ⟨j + 1, hnext, draw, hd⟩
    · cases h

def unreachable : World := ⟨fun _ => 7, fun _ => false, fun _ => false, fun _ => false⟩

theorem allows_mono {a b : Nat} (h : p.Allows b) (hle : a ≤ b) : p.Allows a := by
  unfold Policy.Allows at h ⊢
  omega

/-- Every wait the condition allows comes, unless a draw panics before. -/
theorem unreachable_waits (j : Nat) {attempt : Nat} (h : p.Allows (attempt + j)) :
    (loop p unreachable (j + 1) attempt delay).ended = .panicked ∨ ∃ v,
      (loop p unreachable (j + 1) attempt delay).waits[j]? = some v := by
  induction j generalizing attempt delay with
  | zero =>
    have hnow : p.Allows attempt := h
    rw [loop, if_pos hnow]
    split
    · exact .inl rfl
    · exact .inr ⟨_, rfl⟩
  | succ j ih =>
    rw [loop, if_pos (allows_mono h (Nat.le_add_right _ _))]
    split
    · exact .inl rfl
    · exact ih (by rwa [Nat.add_assoc, Nat.add_comm 1 j])

/-- The waits of every run, and that none panics. -/
theorem waits_doubled (p : Policy) :
    (∀ (w : World) (turns : Nat), (retryReconnect p w turns).ended ≠ .panicked ∧
      ∀ (i : Nat) (v : Wait), (retryReconnect p w turns).waits[i]? = some v → v.Doubled p.base p.maxDelay p.jitter i) ↔
    ∀ waits : Nat, p.Allows waits → Bounded p.base p.maxDelay waits := by
  have hd := durations p
  constructor
  · intro hruns waits hallow
    refine (delays_doubled hd waits).mp fun i hi => ?_
    have hnz : p.maxAttempts ≠ 0 := by
      unfold Policy.Allows at hallow
      omega
    have hrun := hruns unreachable (i + 1)
    rw [retryReconnect, if_neg hnz] at hrun
    have hnow : p.Allows (1 + i) := allows_mono hallow (by omega)
    rcases unreachable_waits i hnow with hpanic | ⟨v, hv⟩
    · exact absurd hpanic hrun.1
    · rw [← (loop_wait hv).1]
      exact (hrun.2 i v hv).1
  · intro hb w turns
    unfold retryReconnect
    split
    · exact ⟨nofun, nofun⟩
    · -- the delay before each wait that is allowed
      have hdelay : ∀ i, p.Allows (1 + i) → (nextDelay p.maxDelay)^[i] p.base = doubled p.base p.maxDelay i := by
        intro i hallow
        exact (delays_doubled hd (1 + i)).mpr (hb (1 + i) hallow) i (by omega)
      refine ⟨fun hpanic => ?_, fun i v hv => ?_⟩
      · obtain ⟨j, hallow, draw, hnone⟩ := loop_panicked hpanic
        obtain ⟨d, hsome, -⟩ := sleep_pos (p := p) draw (doubled_pos hd j)
        rw [hdelay j hallow, hsome] at hnone
        cases hnone
      · obtain ⟨hv', ⟨draw, hsleep⟩, hallow⟩ := loop_wait hv
        rw [hdelay i hallow] at hv'
        obtain ⟨d, hsome, hbounds⟩ := sleep_pos (p := p) draw (doubled_pos hd i)
        rw [hv', hsome] at hsleep
        cases hsleep
        refine ⟨hv', ?_⟩
        rwa [hv']

end ValueRpc.Client.Redial
