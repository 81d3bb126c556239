/-
  ValueRpc.Resilience.Retry — the `Retry` interceptor (resilience/retry.go) and its waits,
  with those of the client's `retryReconnect`.

  The call below it is given as the outcomes of its invocations, one after the other, and so
  is what each wait's `select` takes: the timer, or the context when that is done (when both
  are ready it may take either). `waits` and `invoked` are records of the run.

  - `loop_stops`: the loop returns the outcome of the first attempt that succeeds, is not
    retryable, is the last one, or is followed by a wait that ends with the context.
  - `backoff`: it does so whatever the durations are; and the waits double up to the cap
    exactly when the base is at most the cap and no delay before the last wait is 2^62 or more.
  - `first_wait_uncapped`: as it is, a base above the cap is waited in full once, and a large
    cap lets the delay wrap, which makes `retryReconnect` panic when it draws the jitter.
-/

import ValueRpc.Client.Redial

namespace ValueRpc.Resilience.Retry

open ValueRpc.Core ValueRpc.Client

/-- `retryConfig`; the options keep the number of attempts positive. -/
structure RetryConfig (ε : Type) where
  maxAttempts : Int
  base : Int64
  max : Int64
  jitter : Bool
  retryable : String → ε → Bool
  maxAttempts_pos : 1 ≤ maxAttempts

namespace RetryConfig

variable {ε : Type}

/-- What `Retry` starts from: 3 attempts, 50 ms to 1 s, with jitter. -/
def default (defaultRetryable : String → ε → Bool) : RetryConfig ε :=
  ⟨3, 50000000, 1000000000, true, defaultRetryable, by decide⟩

theorem one_le_attempts (n : Int) : 1 ≤ if n < 1 then 1 else n := by
  split <;> omega

def withMaxAttempts (n : Int) (c : RetryConfig ε) : RetryConfig ε :=
  { c with maxAttempts := if n < 1 then 1 else n, maxAttempts_pos := one_le_attempts n }

def withBackoff (base max : Int64) (c : RetryConfig ε) : RetryConfig ε := { c with base, max }

def withJitter (on : Bool) (c : RetryConfig ε) : RetryConfig ε := { c with jitter := on }

def withRetryable (f : String → ε → Bool) (c : RetryConfig ε) : RetryConfig ε := { c with retryable := f }

theorem withMaxAttempts_eq (n : Int) (c : RetryConfig ε) :
    (c.withMaxAttempts n).maxAttempts = Max.max 1 n := by
  simp only [withMaxAttempts]
  split <;> omega

end RetryConfig

structure World (ρ ε : Type) where
  next : Nat → ρ × Option ε
  draw : Nat → Nat
  /-- The wait after it ends by `ctx.Done()`. -/
  cancelled : Nat → Bool

structure Run (ρ ε : Type) where
  outcome : ρ × Option ε
  invoked : Nat
  waits : List Wait
  deriving DecidableEq

variable {ρ ε : Type} {cfg : RetryConfig ε} {method : String} {w : World ρ ε}

def Run.after (v : Wait) (r : Run ρ ε) : Run ρ ε := { r with waits := v :: r.waits }

def RetryConfig.sleep (cfg : RetryConfig ε) (draw : Nat) (delay : Int) : Int :=
  if cfg.jitter && decide (0 < delay) then equalJitter draw delay else delay

def loop (cfg : RetryConfig ε) (method : String) (w : World ρ ε) (attempt : Nat) (delay : Int) : Run ρ ε :=
  match (w.next attempt).2 with
  | none => ⟨w.next attempt, attempt, []⟩
  | some err =>
    if cfg.maxAttempts ≤ attempt then ⟨w.next attempt, attempt, []⟩
    else if !cfg.retryable method err then ⟨w.next attempt, attempt, []⟩
    else
      let wait := ⟨delay, cfg.sleep (w.draw attempt) delay⟩
      if w.cancelled attempt then ⟨w.next attempt, attempt, [wait]⟩
      else Run.after wait (loop cfg method w (attempt + 1) (nextDelay cfg.max.toInt delay))
  termination_by (cfg.maxAttempts - attempt).toNat

def retry (cfg : RetryConfig ε) (method : String) (w : World ρ ε) : Run ρ ε := loop cfg method w 1 cfg.base.toInt

/-! ## Where the loop stops -/

def Settled (cfg : RetryConfig ε) (method : String) (o : ρ × Option ε) : Prop := ∀ err,
    o.2 = some err → cfg.retryable method err = false

def Stops (cfg : RetryConfig ε) (method : String) (w : World ρ ε) (n : Int) (k : Nat) : Prop :=
  Settled cfg method (w.next k) ∨ (k : Int) = n ∨ w.cancelled k = true

/-- The first attempt from `a` on after which `Retry` returns. -/
structure FirstStop (cfg : RetryConfig ε) (method : String) (w : World ρ ε) (n : Int) (a k : Nat) : Prop where
  from_le : a ≤ k
  stops : Stops cfg method w n k
  first : ∀ j, a ≤ j → j < k → ¬ Stops cfg method w n j

variable {n : Int} {a k : Nat}

theorem FirstStop.here (h : Stops cfg method w n a) : FirstStop cfg method w n a a :=
  ⟨Nat.le_refl a, h, fun _ hle hlt => absurd hlt (Nat.not_lt.mpr hle)⟩

theorem FirstStop.later (hn : ¬ Stops cfg method w n a) (h : FirstStop cfg method w n (a + 1) k) :
    FirstStop cfg method w n a k := by
  refine ⟨Nat.le_of_succ_le h.from_le, h.stops, fun j hle hlt => ?_⟩
  rcases Nat.eq_or_lt_of_le hle with rfl | hlt'
  · exact hn
  · exact h.first j hlt' hlt

theorem loop_stops (attempt : Nat) (delay : Int) (ha : (attempt : Int) ≤ cfg.maxAttempts) :
    ∃ k, FirstStop cfg method w cfg.maxAttempts attempt k ∧ (loop cfg method w attempt delay).invoked = k ∧
      (loop cfg method w attempt delay).outcome = w.next k ∧
      ((loop cfg method w attempt delay).waits.length + attempt = k ∨
        ((loop cfg method w attempt delay).waits.length + attempt = k + 1 ∧ w.cancelled k = true)) := by
  fun_induction loop cfg method w attempt delay with
  | case1 attempt delay ho =>
    refine ⟨attempt, .here (.inl fun err he => ?_), rfl, rfl, .inl (Nat.zero_add _)⟩
    rw [ho] at he
    cases he
  | case2 attempt delay err ho hm =>
    exact ⟨attempt, .here (.inr (.inl (by omega))), rfl, rfl, .inl (Nat.zero_add _)⟩
  | case3 attempt delay err ho hm hr =>
    refine ⟨attempt, .here (.inl fun err' he => ?_), rfl, rfl, .inl (Nat.zero_add _)⟩
    rw [ho] at he
    cases he
    simpa using hr
  | case4 attempt delay err ho hm hr wait hc =>
    exact ⟨attempt, .here (.inr (.inr hc)), rfl, rfl, .inr ⟨Nat.add_comm 1 attempt, hc⟩⟩
  | case5 attempt delay err ho hm hr wait hc ih =>
    have hnot : ¬ Stops cfg method w cfg.maxAttempts attempt := by
      rintro (hs | hs | hs)
      · exact hr (by simp [hs err ho])
      · omega
      · exact hc hs
    obtain ⟨k, hk, hinv, hout, hlen⟩ := ih (by omega)
    refine ⟨k, hk.later hnot, hinv, hout, ?_⟩
    simp only [Run.after, List.length_cons]
    rcases hlen with hlen | ⟨hlen, hck⟩
    · exact .inl (by omega)
    · exact .inr ⟨by omega, hck⟩

/-! ## The waits -/

theorem sleep_bounds (draw : Nat) {delay : Int} (h : 0 < delay) :
    if cfg.jitter then delay / 2 ≤ cfg.sleep draw delay ∧
      cfg.sleep draw delay ≤ delay else cfg.sleep draw delay = delay := by
  unfold RetryConfig.sleep
  cases cfg.jitter with
  | false => rfl
  | true =>
    simp only [h, decide_true, Bool.and_self, if_true]
    exact equalJitter_bounds draw h

/-- The delay and the timer of a wait, after an attempt that is not the last. -/
theorem loop_wait {attempt : Nat} {delay : Int} {j : Nat} {v : Wait}
    (hv : (loop cfg method w attempt delay).waits[j]? = some v) :
    v.delay = (nextDelay cfg.max.toInt)^[j] delay ∧ (∃ draw, v.timer = cfg.sleep draw v.delay) ∧
      ((attempt + j : Nat) : Int) < cfg.maxAttempts := by
  fun_induction loop cfg method w attempt delay generalizing j with
  | case1 => cases hv
  | case2 => cases hv
  | case3 => cases hv
  | case4 attempt delay err ho hm hr wait =>
    cases j with
    | zero =>
      rw [← Option.some.inj hv]
      exact ⟨rfl, ⟨_, rfl⟩, Int.not_le.mp hm⟩
    | succ j => cases hv
  | case5 attempt delay err ho hm hr wait hc =>
    rename_i ih
    cases j with
    | zero =>
      rw [← Option.some.inj hv]
      exact ⟨rfl, ⟨_, rfl⟩, Int.not_le.mp hm⟩
    | succ j =>
      obtain ⟨hdelay, htimer, hlt⟩ := ih hv
      rw [Nat.add_assoc, Nat.add_comm 1 j] at hlt
      exact ⟨hdelay, htimer, hlt⟩

section Down

variable [Inhabited ρ] [Inhabited ε]

def down : World ρ ε := ⟨fun _ => (default, some default), fun _ => 7, fun _ => false⟩

theorem down_turn (hr : ∀ err, cfg.retryable method err = true) {attempt : Nat} (delay : Int)
    (h : (attempt : Int) < cfg.maxAttempts) :
    loop cfg method (down : World ρ ε) attempt delay =
      Run.after ⟨delay, cfg.sleep 7 delay⟩ (loop cfg method down (attempt + 1) (nextDelay cfg.max.toInt delay)) := by
  rw [loop]
  simp only [down, if_neg (Int.not_le.mpr h), hr, Bool.not_true, Bool.false_eq_true, if_false]

theorem down_waits (hr : ∀ err, cfg.retryable method err = true) (j : Nat) {attempt : Nat} (delay : Int)
    (h : ((attempt + j : Nat) : Int) < cfg.maxAttempts) :
    ∃ v, (loop cfg method (down : World ρ ε) attempt delay).waits[j]? = some v := by
  induction j generalizing attempt delay with
  | zero =>
    have hnow : (attempt : Int) < cfg.maxAttempts := h
    rw [down_turn hr delay hnow]
    exact ⟨_, rfl⟩
  | succ j ih =>
    rw [down_turn hr delay (by omega)]
    exact ih _ (by omega)

end Down

def RetryConfig.tried (cfg : RetryConfig ε) (n : Int) (f : String → ε → Bool) : RetryConfig ε :=
    (cfg.withRetryable f).withMaxAttempts n

theorem retry_stops (cfg : RetryConfig ε) (n : Int) (method : String) (w : World ρ ε) :
    ∃ k, FirstStop (cfg.withMaxAttempts n) method w (max 1 n) 1 k ∧
      (retry (cfg.withMaxAttempts n) method w).invoked = k ∧
      (retry (cfg.withMaxAttempts n) method w).outcome = w.next k ∧
      ((retry (cfg.withMaxAttempts n) method w).waits.length + 1 = k ∨
        ((retry (cfg.withMaxAttempts n) method w).waits.length = k ∧ w.cancelled k = true)) := by
  obtain ⟨k, hk, hinv, hout, hlen⟩ := loop_stops 1 cfg.base.toInt (cfg.withMaxAttempts n).maxAttempts_pos
  rw [RetryConfig.withMaxAttempts_eq] at hk
  exact ⟨k, hk, hinv, hout, hlen.imp_right fun hl => ⟨Nat.succ.inj hl.1, hl.2⟩⟩

theorem retry_doubled [Inhabited ρ] [Inhabited ε] (cfg : RetryConfig ε) (n : Int)
    (hd : Durations cfg.base.toInt cfg.max.toInt) :
    (∀ (f : String → ε → Bool) (method : String) (w : World ρ ε) (i : Nat) (v : Wait),
      (retry (cfg.tried n f) method w).waits[i]? = some v → v.Doubled cfg.base.toInt cfg.max.toInt cfg.jitter i) ↔
    Bounded cfg.base.toInt cfg.max.toInt (max 1 n - 1).toNat := by
  have hmax : ∀ f, (cfg.tried n f).maxAttempts = max 1 n := fun f => RetryConfig.withMaxAttempts_eq n _
  rw [← delays_doubled hd]
  constructor
  · intro hruns i hi
    have hlast : ((1 + i : Nat) : Int) < (cfg.tried n fun _ _ => true).maxAttempts := by
      rw [hmax]
      omega
    obtain ⟨v, hv⟩ : ∃ v, (retry (cfg.tried n fun _ _ => true) "" (down : World ρ ε)).waits[i]? = some v :=
      down_waits (fun _ => rfl) i cfg.base.toInt hlast
    exact (loop_wait hv).1.symm.trans (hruns _ _ _ i v hv).1
  · intro hdelay f method w i v hv
    obtain ⟨hv', ⟨draw, htimer⟩, hlt⟩ := loop_wait hv
    rw [hmax] at hlt
    have hi : v.delay = doubled cfg.base.toInt cfg.max.toInt i := hv'.trans (hdelay i (by omega))
    refine ⟨hi, ?_⟩
    rw [htimer, hi]
    exact sleep_bounds draw (doubled_pos hd i)

theorem backoff [Inhabited ρ] [Inhabited ε] (cfg : RetryConfig ε) (n : Int) (p : Redial.Policy) :
    (∀ (method : String) (w : World ρ ε), ∃ k, FirstStop (cfg.withMaxAttempts n) method w (max 1 n) 1 k ∧
      (retry (cfg.withMaxAttempts n) method w).invoked = k ∧
        (retry (cfg.withMaxAttempts n) method w).outcome = w.next k ∧
      ((retry (cfg.withMaxAttempts n) method w).waits.length + 1 = k ∨
        ((retry (cfg.withMaxAttempts n) method w).waits.length = k ∧ w.cancelled k = true))) ∧
    (0 < cfg.base.toInt → 0 < cfg.max.toInt →
      ((∀ (f : String → ε → Bool) (method : String) (w : World ρ ε) (i : Nat) (v : Wait),
        (retry (cfg.tried n f) method w).waits[i]? = some v → v.Doubled cfg.base.toInt cfg.max.toInt cfg.jitter i) ↔
        Bounded cfg.base.toInt cfg.max.toInt (max 1 n - 1).toNat)) ∧
    ((∀ (w : Redial.World) (turns : Nat), (Redial.retryReconnect p w turns).ended ≠ .panicked ∧
      ∀ (i : Nat) (v : Wait), (Redial.retryReconnect p w turns).waits[i]? = some v →
        v.Doubled p.base p.maxDelay p.jitter i) ↔
      ∀ waits : Nat, p.Allows waits → Bounded p.base p.maxDelay waits) :=
  ⟨retry_stops cfg n, fun hbase hmax => retry_doubled cfg n ⟨hbase, hmax, cfg.max.toInt_lt⟩, Redial.waits_doubled p⟩

def always : RetryConfig Unit := .default fun _ _ => true

def forever : Redial.Policy := ⟨0, 0, -1, true⟩

theorem backoff_down : 0 < always.base.toInt ∧ 0 < always.max.toInt ∧
    (retry (always.withMaxAttempts 3) "m" (down : World Unit Unit)).invoked = 3 ∧
    (retry (always.withMaxAttempts 3) "m" (down : World Unit Unit)).waits.length = 2 ∧
    (Redial.retryReconnect forever Redial.unreachable 2).waits[1]? = some ⟨200000000, 100000007⟩ ∧
    (⟨200000000, 100000007⟩ : Wait).Doubled 100000000 30000000000 true 1 ∧
    ∀ (f : String → Unit → Bool) (w : World Unit Unit) (i : Nat) (v : Wait),
      (retry (always.tried 3 f) "m" w).waits[i]? = some v →
        v.Doubled always.base.toInt always.max.toInt always.jitter i := by
  have hb : 0 < always.base.toInt := by decide
  have hm : 0 < always.max.toInt := by decide
  obtain ⟨hstop, hdouble, hre⟩ := backoff (ρ := Unit) always 3 forever
  obtain ⟨k, hk, hinv, -, hlen⟩ := hstop "m" down
  have hwait : (Redial.retryReconnect forever Redial.unreachable 2).waits[1]? =
      some ⟨200000000, 100000007⟩ := by decide
  have h3 : k = 3 := by
    rcases hk.stops with hs | hs | hs
    · cases hs () rfl
    · have : (max 1 3 : Int) = 3 := by decide
      omega
    · cases hs
  subst h3
  have hbounded : ∀ waits : Nat, forever.Allows waits → Bounded forever.base forever.maxDelay waits :=
    fun waits _ => .of_cap (by decide) (by decide) waits
  refine ⟨hb, hm, hinv, ?_, hwait, (hre.mpr hbounded Redial.unreachable 2).2 1 _ hwait,
    fun f w => (hdouble hb hm).mpr (.of_cap (by decide) (by decide) _) f "m" w⟩
  rcases hlen with hlen | ⟨-, hc⟩
  · exact Nat.succ.inj hlen
  · cases hc

/-- A base of 2 s under a cap of 1 s, and of 60 s under the default cap of 30 s. The last one's
    cap is the largest duration. -/
def steep : RetryConfig Unit := (always.withBackoff 2000000000 1000000000).withJitter false

def slow : Redial.Policy := ⟨60000000000, 0, 1, false⟩

def huge : Redial.Policy := ⟨4611686018427387904, 9223372036854775807, -1, true⟩

theorem first_wait_uncapped :
    ((retry (steep.withMaxAttempts 2) "m" (down : World Unit Unit)).waits = [⟨2000000000, 2000000000⟩] ∧
      steep.max = 1000000000) ∧
    ((Redial.retryReconnect slow Redial.unreachable 1).waits = [⟨60000000000, 60000000000⟩] ∧
      slow.maxDelay = 30000000000) ∧
    (Redial.retryReconnect huge Redial.unreachable 2).ended = .panicked := by
  refine ⟨⟨?_, rfl⟩, by decide, by decide⟩
  simp [retry, loop, down, steep, always, RetryConfig.withMaxAttempts, RetryConfig.withJitter, RetryConfig.withBackoff,
    RetryConfig.default, RetryConfig.sleep, Run.after]

end ValueRpc.Resilience.Retry
