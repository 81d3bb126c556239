/-
  ValueRpc.Resilience.Breaker — the circuit breaker (`resilience/breaker.go`: `allow`,
  `record`, `trip`, `CircuitBreaker`).

  The interceptor keeps one breaker for each method; this is one of them. A call is two
  steps under the breaker's lock, `allow` and, if it was admitted, later `record` with its
  outcome; between the two the state may change any number of times, and `record` is not
  told in which state its call was admitted. The clock only moves forward, by `tick`.

  Ghosts: each admitted call has the half-open period it was admitted in as a probe, if any,
  and its outcome once recorded; `period` counts the half-open periods; `outcomes` are those
  recorded since the closed state was last entered.

  - `probing`: where, in the half-open state, only probes of the current period record, and
    a half-open period begins with no probe outstanding (`onTime`), the breaker closes only
    by the success of a probe of the period, none of whose probes failed, and at most
    `maxProbes` probes are outstanding.
  - `slow_calls_pass_for_probes`: as it is, a call admitted before the breaker tripped closes
    it while the only probe is outstanding, or trips it again, and a second period has a
    probe beside the first one's.
-/

import ValueRpc.Lib.Runs
import ValueRpc.Lib.Tally

namespace ValueRpc.Resilience

open ValueRpc.Lib

inductive BreakerState where
  | stateClosed
  | stateOpen
  | stateHalfOpen
  deriving DecidableEq, Repr

/-- `breakerConfig`; the options keep both counts positive. The cooldown is in nanoseconds. -/
structure BreakerConfig where
  threshold : Int
  cooldown : Int
  maxProbes : Int
  threshold_pos : 1 ≤ threshold
  maxProbes_pos : 1 ≤ maxProbes
  deriving DecidableEq, Repr

namespace BreakerConfig

/-- What `CircuitBreaker` starts from: 5 failures, 10 s, one probe. -/
def default : BreakerConfig := ⟨5, 10000000000, 1, by decide, by decide⟩

def withFailureThreshold (n : Int) (c : BreakerConfig) : BreakerConfig :=
  { c with threshold := if n < 1 then 1 else n, threshold_pos := by split <;> omega }

def withCooldown (d : Int) (c : BreakerConfig) : BreakerConfig := { c with cooldown := d }

def withHalfOpenProbes (n : Int) (c : BreakerConfig) : BreakerConfig :=
  { c with maxProbes := if n < 1 then 1 else n, maxProbes_pos := by split <;> omega }

end BreakerConfig

structure Breaker where
  state : BreakerState
  consec : Int
  openedAt : Int
  probes : Int
  deriving DecidableEq, Repr

namespace Breaker

def new : Breaker := ⟨.stateClosed, 0, 0, 0⟩

variable (cfg : BreakerConfig) (now : Int)

def allow (b : Breaker) : Breaker × Bool :=
  match b.state with
  | .stateOpen =>
    if cfg.cooldown ≤ now - b.openedAt then ({ b with state := .stateHalfOpen, probes := 1 }, true) else (b, false)
  | .stateHalfOpen => if b.probes < cfg.maxProbes then ({ b with probes := b.probes + 1 }, true) else (b, false)
  | .stateClosed => (b, true)

def trip (b : Breaker) : Breaker := { b with state := .stateOpen, openedAt := now, probes := 0 }

def record (failed : Bool) (b : Breaker) : Breaker :=
  match b.state with
  | .stateClosed =>
    if failed then
      let b := { b with consec := b.consec + 1 }
      if cfg.threshold ≤ b.consec then b.trip now else b
    else { b with consec := 0 }
  | .stateHalfOpen =>
    if failed then b.trip now
    else
      let b := { b with probes := b.probes - 1 }
      if b.probes ≤ 0 then { b with state := .stateClosed, consec := 0 } else b
  | .stateOpen => b

end Breaker

/-! ## Concurrent calls -/

structure Call where
  /-- The half-open period it was admitted in as a probe. -/
  probe : Option Nat
  /-- `failed`, once recorded. -/
  outcome : Option Bool
  deriving DecidableEq, Repr

def Call.probing (c : Call) : Bool := c.probe.isSome && c.outcome.isNone

structure St where
  b : Breaker
  now : Int
  calls : List Call
  period : Nat
  outcomes : List Bool
  deriving DecidableEq, Repr

def start (now : Int) : St := ⟨.new, now, [], 0, []⟩

inductive Ev where
  | tick (d : Nat)
  | call
  | record (i : Nat) (failed : Bool)
  deriving DecidableEq, Repr

def St.admission (s : St) : Option Nat :=
  match s.b.state with
  | .stateClosed => none
  | .stateOpen => some (s.period + 1)
  | .stateHalfOpen => some s.period

/-- The outcomes recorded in the closed state; entering it starts over. -/
def St.outcomesAfter (s : St) (failed : Bool) : List Bool :=
  match s.b.state with
  | .stateClosed => s.outcomes ++ [failed]
  | _ => []

variable (cfg : BreakerConfig)

def step (s : St) : Ev → Option St
  | .tick d => some { s with now := s.now + d }
  | .call =>
    match s.b.allow cfg s.now with
    | (_, false) => some s
    | (b, true) =>
      some { s with
        b, calls := s.calls ++ [⟨s.admission, none⟩],
          period := if s.b.state = .stateOpen then s.period + 1 else s.period }
  | .record i failed =>
    match s.calls[i]? with
    | some ⟨_, none⟩ =>
      some { s with
        b := s.b.record cfg s.now failed, calls := s.calls.modify i fun c => { c with outcome := some failed },
        outcomes := s.outcomesAfter failed }
    | _ => none

def sys (now : Int) : Sys St Ev := ⟨fun s => s = start now, step cfg⟩

def St.outstanding (s : St) : Nat := s.calls.countP Call.probing

/-- In the half-open state a record is a probe's of this period, and the first probe of a
    period finds no other outstanding. -/
def onTime (s : St) : Ev → Prop
  | .record i _ => s.b.state = .stateHalfOpen → (s.calls[i]?).bind Call.probe = some s.period
  | .call => s.b.state = .stateOpen → cfg.cooldown ≤ s.now - s.b.openedAt → s.outstanding = 0
  | .tick _ => True

instance (s : St) : (e : Ev) → Decidable (onTime cfg s e)
  | .record _ _ => inferInstanceAs (Decidable (_ → _))
  | .call => inferInstanceAs (Decidable (_ → _ → _))
  | .tick _ => .isTrue trivial

inductive Goes (s : St) : Ev → St → Prop
  | tick (d : Nat) : Goes s (.tick d) { s with now := s.now + d }
  | refused : (s.b.allow cfg s.now).2 = false → Goes s .call s
  | admitted : s.b.state = .stateClosed → Goes s .call { s with calls := s.calls ++ [⟨none, none⟩] }
  /-- The first probe of a period. -/
  | first : s.b.state = .stateOpen → cfg.cooldown ≤ s.now - s.b.openedAt →
      Goes s .call { s with
        b := { s.b with state := .stateHalfOpen, probes := 1 }
        calls := s.calls ++ [⟨some (s.period + 1), none⟩]
        period := s.period + 1 }
  | probe : s.b.state = .stateHalfOpen → s.b.probes < cfg.maxProbes →
      Goes s .call { s with
        b := { s.b with state := .stateHalfOpen, probes := s.b.probes + 1 }
        calls := s.calls ++ [⟨some s.period, none⟩] }
  | record {i : Nat} {p : Option Nat} (failed : Bool) : s.calls[i]? = some ⟨p, none⟩ →
      Goes s (.record i failed) { s with
        b := s.b.record cfg s.now failed
        calls := s.calls.modify i fun c => { c with outcome := some failed }
        outcomes := s.outcomesAfter failed }

variable {cfg} {s t : St} {e : Ev}

theorem goes (h : step cfg s e = some t) : Goes cfg s e t := by
  cases e with
  | tick d => cases h; exact .tick d
  | call =>
    simp only [step, Breaker.allow, St.admission] at h
    cases hs : s.b.state with
    | stateClosed =>
      rw [hs] at h
      cases h
      exact .admitted hs
    | stateOpen =>
      rw [hs] at h
      by_cases hc : cfg.cooldown ≤ s.now - s.b.openedAt
      · rw [if_pos hc] at h
        cases h
        exact .first hs hc
      · rw [if_neg hc] at h
        cases h
        exact .refused (by simp [Breaker.allow, hs, hc])
    | stateHalfOpen =>
      rw [hs] at h
      by_cases hp : s.b.probes < cfg.maxProbes
      · rw [if_pos hp] at h
        cases h
        exact .probe hs hp
      · rw [if_neg hp] at h
        cases h
        exact .refused (by simp [Breaker.allow, hs, hp])
  | record i failed =>
    simp only [step] at h
    cases hc : s.calls[i]? with
    | none => rw [hc] at h; cases h
    | some c =>
      obtain ⟨p, o⟩ := c
      rw [hc] at h
      cases o with
      | some _ => cases h
      | none =>
        cases h
        exact .record failed hc

/-! ## What `record` does -/

theorem Breaker.record_open {b : Breaker} (now : Int) (failed : Bool) (h : b.state = .stateOpen) :
    b.record cfg now failed = b := by
  simp [Breaker.record, h]

/-- In the closed state the breaker stays closed or trips. -/
theorem Breaker.record_closed (cfg : BreakerConfig) {b : Breaker} (now : Int) (failed : Bool)
    (h : b.state = .stateClosed) : (b.record cfg now failed).state ≠ .stateHalfOpen := by
  unfold Breaker.record
  rw [h]
  cases failed with
  | false => simp
  | true =>
    simp only [if_true]
    split
    · simp [Breaker.trip]
    · simp

/-- In the half-open state a failure trips it. -/
theorem Breaker.record_failure {b : Breaker} (now : Int) (h : b.state = .stateHalfOpen) :
    b.record cfg now true = b.trip now := by
  simp [Breaker.record, h]

/-- And a success takes a probe off the count, the last one closing it. -/
theorem Breaker.record_success (cfg : BreakerConfig) {b : Breaker} (now : Int) (h : b.state = .stateHalfOpen) :
    ((b.record cfg now false).state = .stateHalfOpen ∧ 1 < b.probes ∧ (b.record cfg now false).probes = b.probes - 1) ∨
      ((b.record cfg now false).state = .stateClosed ∧ b.probes ≤ 1) := by
  unfold Breaker.record
  rw [h]
  simp only [Bool.false_eq_true, if_false]
  split
  · exact .inr ⟨rfl, by omega⟩
  · exact .inl ⟨rfl, by omega, rfl⟩

/-! ## The invariant -/

structure Inv (cfg : BreakerConfig) (s : St) : Prop where
  closed : s.b.state = .stateClosed → s.outstanding = 0
  tripped : s.b.state = .stateOpen → (s.outstanding : Int) ≤ cfg.maxProbes
  /-- The half-open count is the number of probes outstanding, all of this period. -/
  halfOpen : s.b.state = .stateHalfOpen → (s.outstanding : Int) = s.b.probes ∧ s.b.probes ≤ cfg.maxProbes
  /-- No probe of the current period has failed. -/
  unfailed : s.b.state = .stateHalfOpen → ∀ (i : Nat) (c : Call),
    s.calls[i]? = some c → c.probe = some s.period → c.outcome ≠ some true
  past : ∀ (i : Nat) (c : Call) (p : Nat), s.calls[i]? = some c → c.probe = some p → p ≤ s.period

/-- A record takes its call off the outstanding ones, if it was a probe. -/
theorem outstanding_record {i : Nat} {p : Option Nat} (failed : Bool) (h : s.calls[i]? = some ⟨p, none⟩) :
    (s.calls.modify i fun c => { c with
      outcome := some failed }).countP Call.probing + p.isSome.toNat = s.outstanding := by
  have := countP_modify Call.probing (fun c => { c with outcome := some failed }) h
  simp only [Call.probing, Option.isNone_some, Option.isNone_none, Bool.and_false, Bool.and_true,
    Bool.toNat_false] at this
  exact this

/-- The new call is a probe or not; the others are as they were. -/
theorem outstanding_call (p : Option Nat) :
    (s.calls ++ [(⟨p, none⟩ : Call)]).countP Call.probing = s.outstanding + p.isSome.toNat := by
  rw [List.countP_append]
  cases p <;> rfl

theorem past_call {n : Nat} (p : Option Nat)
    (h : ∀ (i : Nat) (c : Call) (q : Nat), s.calls[i]? = some c → c.probe = some q → q ≤ s.period)
    (hn : s.period ≤ n) (hp : ∀ q, p = some q → q ≤ n) (i : Nat) (c : Call) (q : Nat)
    (hc : (s.calls ++ [(⟨p, none⟩ : Call)])[i]? = some c) (hq : c.probe = some q) : q ≤ n := by
  rcases append_get hc with hc | ⟨-, rfl⟩
  · exact Nat.le_trans (h i c q hc hq) hn
  · exact hp q hq

theorem past_record {j : Nat} (failed : Bool)
    (h : ∀ (i : Nat) (c : Call) (q : Nat), s.calls[i]? = some c → c.probe = some q → q ≤ s.period) (i : Nat)
    (c : Call) (q : Nat) (hc : (s.calls.modify j fun c => { c with outcome := some failed })[i]? = some c)
    (hq : c.probe = some q) : q ≤ s.period := by
  rcases modify_get hc with ⟨-, a, ha, rfl⟩ | ⟨-, hc⟩
  · exact h j a q ha hq
  · exact h i c q hc hq

theorem Inv.record (hi : Inv cfg s) {i : Nat} {p : Option Nat} (failed : Bool)
    (hc : s.calls[i]? = some ⟨p, none⟩) (ho : s.b.state = .stateHalfOpen → p = some s.period) :
    Inv cfg { s with
      b := s.b.record cfg s.now failed
      calls := s.calls.modify i fun c => { c with outcome := some failed }
      outcomes := s.outcomesAfter failed } := by
  have hn := outstanding_record failed hc
  have hpast := past_record (j := i) failed hi.past
  cases hs : s.b.state with
  | stateOpen =>
    have ht := hi.tripped hs
    rw [Breaker.record_open s.now failed hs]
    refine ⟨fun h => ?_, fun _ => ?_, fun h => ?_, fun h => ?_, hpast⟩
    · rw [hs] at h; cases h
    · simp only [St.outstanding] at hn ht ⊢
      omega
    · rw [hs] at h; cases h
    · rw [hs] at h; cases h
  | stateClosed =>
    have h0 := hi.closed hs
    have hne := Breaker.record_closed cfg s.now failed hs
    have hpos := cfg.maxProbes_pos
    refine ⟨fun _ => ?_, fun _ => ?_, fun h => absurd h hne, fun h => absurd h hne, hpast⟩
    · simp only [St.outstanding] at hn h0 ⊢
      omega
    · simp only [St.outstanding] at hn h0 ⊢
      omega
  | stateHalfOpen =>
    obtain ⟨hcount, hmax⟩ := hi.halfOpen hs
    -- the call that records is one of those counted
    rw [ho hs, Option.isSome_some, Bool.toNat_true] at hn
    cases failed with
    | true =>
      rw [Breaker.record_failure s.now hs]
      refine ⟨nofun, fun _ => ?_, nofun, nofun, hpast⟩
      simp only [St.outstanding] at hn hcount ⊢
      omega
    | false =>
      rcases Breaker.record_success cfg s.now hs with ⟨hst, -, hpr⟩ | ⟨hst, hle⟩
      · refine ⟨fun h => ?_, fun h => ?_, fun _ => ⟨?_, ?_⟩, fun _ j c hj hp => ?_, hpast⟩
        · rw [hst] at h; cases h
        · rw [hst] at h; cases h
        · simp only [St.outstanding] at hn hcount ⊢
          omega
        · dsimp only
          omega
        · rcases modify_get hj with ⟨-, a, ha, rfl⟩ | ⟨-, hj⟩
          · simp
          · exact hi.unfailed hs j c hj hp
      · refine ⟨fun _ => ?_, fun h => ?_, fun h => ?_, fun h => ?_, hpast⟩
        · simp only [St.outstanding] at hn hcount ⊢
          omega
        · rw [hst] at h; cases h
        · rw [hst] at h; cases h
        · rw [hst] at h; cases h

theorem inv_step (hi : Inv cfg s) (ho : onTime cfg s e) (h : step cfg s e = some t) : Inv cfg t := by
  have hpos := cfg.maxProbes_pos
  cases goes h with
  | tick d => exact ⟨hi.closed, hi.tripped, hi.halfOpen, hi.unfailed, hi.past⟩
  | refused _ => exact hi
  | admitted hs =>
    have hn := outstanding_call (s := s) none
    refine ⟨fun h => ?_, fun h => ?_, fun h => ?_, fun h => ?_, past_call none hi.past (Nat.le_refl _) (by simp)⟩
    · exact hn.trans (hi.closed h)
    · rw [hs] at h; cases h
    · rw [hs] at h; cases h
    · rw [hs] at h; cases h
  | first hs hc =>
    have hn := outstanding_call (s := s) (some (s.period + 1))
    rw [ho hs hc] at hn
    refine ⟨nofun, nofun, fun _ => ⟨?_, hpos⟩, fun _ i c hi' hp => ?_, ?_⟩
    · simp only [St.outstanding, hn]
      rfl
    · rcases append_get hi' with hi' | ⟨-, rfl⟩
      · have : s.period + 1 ≤ s.period := hi.past i c _ hi' hp
        omega
      · simp
    · exact past_call _ hi.past (Nat.le_succ _) (by simp)
  | probe hs hp =>
    obtain ⟨hcount, hmax⟩ := hi.halfOpen hs
    have hn := outstanding_call (s := s) (some s.period)
    refine ⟨nofun, nofun, fun _ => ⟨?_, ?_⟩, fun _ i c hi' hpr => ?_, ?_⟩
    · simp only [St.outstanding, Option.isSome_some, Bool.toNat_true] at hn hcount ⊢
      omega
    · dsimp only
      omega
    · rcases append_get hi' with hi' | ⟨-, rfl⟩
      · exact hi.unfailed hs i c hi' hpr
      · simp
    · exact past_call _ hi.past (Nat.le_refl _) (by simp)
  | record failed hc =>
    refine hi.record failed hc fun hs => ?_
    have := ho hs
    rwa [hc] at this

theorem inv_start (now : Int) : Inv cfg (start now) := by
  refine ⟨fun _ => rfl, nofun, nofun, nofun, fun i c p hc => ?_⟩
  cases hc

theorem inv_reach {now : Int} (h : (sys cfg now).Reach (onTime cfg) s) : Inv cfg s := by
  refine h.inv (P := Inv cfg) (fun s hs => ?_) fun _ _ _ hi ho hs => inv_step hi ho hs
  cases hs
  exact inv_start now

theorem Inv.outstanding_le (hi : Inv cfg s) : (s.outstanding : Int) ≤ cfg.maxProbes := by
  have hpos := cfg.maxProbes_pos
  cases hs : s.b.state with
  | stateClosed =>
    have := hi.closed hs
    omega
  | stateOpen => exact hi.tripped hs
  | stateHalfOpen =>
    obtain ⟨h1, h2⟩ := hi.halfOpen hs
    omega

/-! ## Probing -/

/-- The event is the recorded success of a probe of the period, and no probe of it failed. -/
def ByProbe (s : St) (e : Ev) : Prop :=
  ∃ i, e = .record i false ∧ s.calls[i]? = some ⟨some s.period, none⟩ ∧
    ∀ (j : Nat) (c : Call), s.calls[j]? = some c → c.probe = some s.period → c.outcome ≠ some true

/-- Only a record of a success closes the breaker. -/
theorem closing (h : Goes cfg s e t) (hs : s.b.state = .stateHalfOpen) (ht : t.b.state = .stateClosed) :
    ∃ i p, e = .record i false ∧ s.calls[i]? = some ⟨p, none⟩ := by
  cases h with
  | tick d => rw [hs] at ht; cases ht
  | refused _ => rw [hs] at ht; cases ht
  | admitted h => rw [hs] at h; cases h
  | first h _ => rw [hs] at h; cases h
  | probe _ _ => cases ht
  | @record i p failed hc =>
    cases failed with
    | false => exact ⟨i, p, rfl, hc⟩
    | true =>
      dsimp only at ht
      rw [Breaker.record_failure s.now hs] at ht
      cases ht

theorem probing (cfg : BreakerConfig) (now : Int) (s : St) (hr : (sys cfg now).Reach (onTime cfg) s) :
    (s.outstanding : Int) ≤ cfg.maxProbes ∧
      ∀ e t, onTime cfg s e → step cfg s e = some t → s.b.state = .stateHalfOpen →
        t.b.state = .stateClosed → ByProbe s e := by
  have hi := inv_reach hr
  refine ⟨hi.outstanding_le, fun e t ho h hs ht => ?_⟩
  obtain ⟨i, p, rfl, hc⟩ := closing (goes h) hs ht
  have hp := ho hs
  rw [hc] at hp
  cases hp
  exact ⟨i, rfl, hc, hi.unfailed hs⟩

/-- Two failures trip it; after a second two probes go out, the one admitted first succeeds,
    then the other. -/
def recovery : BreakerConfig := ((BreakerConfig.default.withFailureThreshold 2).withCooldown 1000).withHalfOpenProbes 2

def recovers : List Ev := [.call, .call, .record 1 true, .record 0 true, .tick 1000, .call, .call, .record 2 false]

theorem probing_recovers : ∃ s t, (sys recovery 0).Reach (onTime recovery) s ∧ s.b.state = .stateHalfOpen ∧
    step recovery s (.record 3 false) = some t ∧ t.b.state = .stateClosed ∧
      (s.outstanding : Int) ≤ recovery.maxProbes ∧
      ByProbe s (.record 3 false) := by
  obtain ⟨s, hr, hs, ho, ht⟩ := (sys recovery 0).reach_of_exec (onTime recovery) (start 0) rfl recovers
    (P := fun s => s.b.state = .stateHalfOpen ∧ onTime recovery s (.record 3 false) ∧
      (step recovery s (.record 3 false)).any (fun t => decide (t.b.state = .stateClosed)) = true) (by decide +kernel)
  obtain ⟨t, hst, ht⟩ := (Option.any_eq_true _ _).mp ht
  have ht : t.b.state = .stateClosed := of_decide_eq_true ht
  obtain ⟨hn, hclose⟩ := probing recovery 0 s hr
  exact ⟨s, t, hr, hs, hst, ht, hn, hclose _ t ho hst hs ht⟩

/-- One failure trips it, and one probe tests it. Three calls are out when the first fails. -/
def hasty : BreakerConfig := (BreakerConfig.default.withFailureThreshold 1).withCooldown 1000

def tripped : List Ev := [.call, .call, .call, .record 0 true, .tick 1000, .call]

theorem slow_calls_pass_for_probes :
    (∃ s t, (sys hasty 0).Reach Sys.any s ∧ s.b.state = .stateHalfOpen ∧ step hasty s (.record 1 false) = some t ∧
      t.b.state = .stateClosed ∧ s.calls[1]? = some ⟨none, none⟩) ∧
    ∃ s, (sys hasty 0).Reach Sys.any s ∧ hasty.maxProbes < s.outstanding := by
  constructor
  · obtain ⟨s, hr, hs, hc, ht⟩ := (sys hasty 0).reach_of_exec Sys.any (start 0) rfl tripped
      (P := fun s => s.b.state = .stateHalfOpen ∧ s.calls[1]? = some ⟨none, none⟩ ∧
        (step hasty s (.record 1 false)).any (fun t => decide (t.b.state = .stateClosed)) = true) (by decide +kernel)
    obtain ⟨t, hst, ht⟩ := (Option.any_eq_true _ _).mp ht
    exact ⟨s, t, hr, hs, hst, of_decide_eq_true ht, hc⟩
  · exact (sys hasty 0).reach_of_exec Sys.any (start 0) rfl (tripped ++
      ([.record 2 true, .tick 1000, .call] : List Ev))
      (by decide +kernel)

end ValueRpc.Resilience
