/-
  ValueRpc.Resilience.Tripping — when the breaker trips, and how long it then stays open
  (`resilience/breaker.go`: `allow`, `record`, `trip`).

  `consec` is shared by all calls that overlap, is left alone by a trip and by the half-open
  state, and starts over when the closed state is entered. So in the closed state it is the
  length of the run of failures that the outcomes recorded since then end in
  (`Counted`), whichever calls recorded them, and a record leaves the state when that run
  gets to the threshold.

  A trip takes the time. Until the cooldown is over nothing moves the breaker
  (`Cooling.step`): `allow` refuses, and `record` does nothing in the open state.
-/

import ValueRpc.Resilience.Breaker

namespace ValueRpc.Resilience

open ValueRpc.Lib

/-- The last `threshold` outcomes are all failures. -/
def BreakerConfig.Trips (cfg : BreakerConfig) (outcomes : List Bool) : Prop :=
  cfg.threshold ≤ outcomes.length ∧ ∀ failed ∈ outcomes.drop (outcomes.length - cfg.threshold.toNat), failed = true

instance (cfg : BreakerConfig) (outcomes : List Bool) : Decidable (cfg.Trips outcomes) :=
    inferInstanceAs (Decidable (_ ∧ _))

variable {cfg : BreakerConfig} {s t u : St} {e : Ev} {b : Breaker} {now : Int}

theorem BreakerConfig.trips_iff (outcomes : List Bool) :
    cfg.Trips outcomes ↔ cfg.threshold ≤ (streak id outcomes : Nat) := by
  have hpos := cfg.threshold_pos
  have hle : ∀ n : Nat, cfg.threshold ≤ n ↔ cfg.threshold.toNat ≤ n := fun n => by omega
  rw [BreakerConfig.Trips, hle, hle, le_streak]
  rfl

/-! ## The run of failures -/

/-- In the closed state `consec` is the run of failures so far, short of the threshold. -/
def Counted (cfg : BreakerConfig) (s : St) : Prop :=
  s.b.state = .stateClosed → s.b.consec = streak id s.outcomes ∧ s.b.consec < cfg.threshold

/-- A failure in the closed state: it trips the breaker or adds one to the run. -/
theorem Breaker.record_closed_failure (cfg : BreakerConfig) (now : Int) (h : b.state = .stateClosed) :
    (cfg.threshold ≤ b.consec + 1 ∧ (b.record cfg now true).state = .stateOpen) ∨
      (b.consec + 1 < cfg.threshold ∧ b.record cfg now true = { b with consec := b.consec + 1 }) := by
  simp only [Breaker.record, h, if_true]
  split
  · exact .inl ⟨‹_›, rfl⟩
  · exact .inr ⟨by omega, rfl⟩

theorem Breaker.record_closed_success (now : Int) (h : b.state = .stateClosed) :
    b.record cfg now false = { b with consec := 0 } := by
  simp [Breaker.record, h]

/-- The closed state is entered with the run at zero. -/
theorem Breaker.record_recovers {failed : Bool} (h : b.state = .stateHalfOpen)
    (ht : (b.record cfg now failed).state = .stateClosed) : (b.record cfg now failed).consec = 0 := by
  cases failed with
  | true =>
    rw [Breaker.record_failure now h] at ht
    cases ht
  | false =>
    simp only [Breaker.record, h, Bool.false_eq_true, if_false] at ht ⊢
    split at ht
    · rw [if_pos ‹_›]
    · cases ht

/-- What a record does to the run and to the closed state, one case a state. -/
theorem counted_record (hc : Counted cfg s) {i : Nat} (failed : Bool) :
    Counted cfg { s with
      b := s.b.record cfg s.now failed
      calls := s.calls.modify i fun c => { c with outcome := some failed }
      outcomes := s.outcomesAfter failed } := by
  have hpos := cfg.threshold_pos
  intro ht
  dsimp only at ht ⊢
  cases hs : s.b.state with
  | stateOpen =>
    rw [Breaker.record_open s.now failed hs, hs] at ht
    cases ht
  | stateHalfOpen =>
    have h0 : (s.b.record cfg s.now failed).consec = 0 := Breaker.record_recovers hs ht
    have hout : s.outcomesAfter failed = [] := by simp [St.outcomesAfter, hs]
    rw [h0, hout]
    exact ⟨rfl, by omega⟩
  | stateClosed =>
    obtain ⟨hrun, -⟩ := hc hs
    have hout : s.outcomesAfter failed = s.outcomes ++ [failed] := by simp [St.outcomesAfter, hs]
    rw [hout, streak_append]
    cases failed with
    | false =>
      rw [Breaker.record_closed_success s.now hs]
      exact ⟨rfl, by dsimp only; omega⟩
    | true =>
      rcases Breaker.record_closed_failure cfg s.now hs with ⟨-, hopen⟩ | ⟨hlt, heq⟩
      · rw [hopen] at ht
        cases ht
      · rw [heq]
        refine ⟨?_, hlt⟩
        simp only [id_eq, if_true]
        omega

theorem counted_step (hc : Counted cfg s) (h : step cfg s e = some t) : Counted cfg t := by
  cases goes h with
  | tick d => exact hc
  | refused _ => exact hc
  | admitted hs => exact hc
  | first _ _ => exact nofun
  | probe _ _ => exact nofun
  | record failed _ => exact counted_record hc failed

theorem counted_reach (h : (sys cfg now).Reach Sys.any s) : Counted cfg s := by
  refine h.inv (P := Counted cfg) (fun s hs => ?_) fun _ _ _ hc _ hs => counted_step hc hs
  cases hs
  have hpos := cfg.threshold_pos
  exact fun _ => ⟨rfl, by simp only [start, Breaker.new]; omega⟩

/-- A step from the closed state leaves it when the run has got to the threshold. -/
theorem leaves_iff (hc : Counted cfg s) (hs : s.b.state = .stateClosed) (h : step cfg s e = some t) :
    t.b.state ≠ .stateClosed ↔ cfg.Trips t.outcomes := by
  rw [BreakerConfig.trips_iff]
  obtain ⟨hrun, hlt⟩ := hc hs
  -- without a record, neither the state nor the run changes
  have stays : t.b = s.b → t.outcomes = s.outcomes →
      (t.b.state ≠ .stateClosed ↔ cfg.threshold ≤ (streak id t.outcomes : Nat)) := by
    intro hb ho
    rw [hb, ho]
    exact ⟨fun hne => absurd hs hne, fun hle => by omega⟩
  cases goes h with
  | tick d => exact stays rfl rfl
  | refused _ => exact stays rfl rfl
  | admitted _ => exact stays rfl rfl
  | first ho _ => rw [hs] at ho; cases ho
  | probe ho _ => rw [hs] at ho; cases ho
  | record failed _ =>
    have hout : s.outcomesAfter failed = s.outcomes ++ [failed] := by simp [St.outcomesAfter, hs]
    dsimp only
    rw [hout, streak_append]
    cases failed with
    | false =>
      have hpos := cfg.threshold_pos
      rw [Breaker.record_closed_success s.now hs]
      refine ⟨fun hne => absurd hs hne, fun hle => ?_⟩
      simp only [id_eq, Bool.false_eq_true, if_false] at hle
      omega
    | true =>
      simp only [id_eq, if_true]
      rcases Breaker.record_closed_failure cfg s.now hs with ⟨hle, hopen⟩ | ⟨hlt, heq⟩
      · rw [hopen]
        exact ⟨fun _ => by omega, nofun⟩
      · rw [heq]
        exact ⟨fun hne => absurd hs hne, fun hle => by omega⟩

/-! ## The cooldown -/

/-- A trip takes the time. -/
theorem Breaker.record_trips {failed : Bool} (hs : b.state ≠ .stateOpen)
    (ht : (b.record cfg now failed).state = .stateOpen) : (b.record cfg now failed).openedAt = now := by
  cases hb : b.state with
  | stateOpen => exact absurd hb hs
  | stateClosed =>
    cases failed with
    | false =>
      rw [Breaker.record_closed_success now hb] at ht
      rw [hb] at ht
      cases ht
    | true =>
      rcases Breaker.record_closed_failure cfg now hb with ⟨hle, -⟩ | ⟨-, heq⟩
      · simp [Breaker.record, hb, hle, Breaker.trip]
      · rw [heq, hb] at ht
        cases ht
  | stateHalfOpen =>
    cases failed with
    | true => simp [Breaker.record_failure now hb, Breaker.trip]
    | false =>
      rcases Breaker.record_success cfg now hb with ⟨hst, -⟩ | ⟨hst, -⟩
      all_goals
        rw [hst] at ht
        cases ht

/-- Only a record trips the breaker, at the time it does. -/
theorem tripped_at (hs : s.b.state ≠ .stateOpen) (h : step cfg s e = some t) (ht : t.b.state = .stateOpen) :
    t.b.openedAt = t.now := by
  cases goes h with
  | tick d => exact absurd ht hs
  | refused _ => exact absurd ht hs
  | admitted _ => exact absurd ht hs
  | first _ _ => cases ht
  | probe _ _ => cases ht
  | record failed _ => exact Breaker.record_trips hs ht

/-- As the trip left it, as long as the cooldown is not over. -/
def Cooling (cfg : BreakerConfig) (b : Breaker) (s : St) : Prop := s.now - b.openedAt < cfg.cooldown → s.b = b

theorem Cooling.step (hb : b.state = .stateOpen) (hc : Cooling cfg b s) (h : step cfg s e = some t) :
    Cooling cfg b t := by
  intro hlt
  cases goes h with
  | tick d =>
    -- it was not over before the tick either
    refine hc ?_
    dsimp only at hlt
    omega
  | refused _ => exact hc hlt
  | admitted hs =>
    rw [hc hlt, hb] at hs
    cases hs
  | first _ hle =>
    rw [hc hlt] at hle
    dsimp only at hlt
    omega
  | probe hs _ =>
    rw [hc hlt, hb] at hs
    cases hs
  | record failed _ =>
    have heq := hc hlt
    dsimp only
    rw [heq]
    exact Breaker.record_open s.now failed hb

theorem Breaker.allow_cooling (hb : b.state = .stateOpen) (h : now - b.openedAt < cfg.cooldown) :
    b.allow cfg now = (b, false) := by
  have hn : ¬ cfg.cooldown ≤ now - b.openedAt := by omega
  simp [Breaker.allow, hb, hn]

/-! ## Tripping -/

theorem tripping (cfg : BreakerConfig) (now : Int) (s : St) (hr : (sys cfg now).Reach Sys.any s) (e : Ev)
    (t : St) (h : step cfg s e = some t) :
    (s.b.state = .stateClosed → (t.b.state ≠ .stateClosed ↔ cfg.Trips t.outcomes)) ∧
    (s.b.state ≠ .stateOpen → t.b.state = .stateOpen →
      ∀ u, (sys cfg now).Steps Sys.any t u → u.now - t.now < cfg.cooldown →
        u.b = t.b ∧ u.b.allow cfg u.now = (u.b, false) ∧ ∀ failed, u.b.record cfg u.now failed = u.b) := by
  refine ⟨fun hs => leaves_iff (counted_reach hr) hs h, fun hs ht u hu hlt => ?_⟩
  have hat := tripped_at hs h ht
  have hcool : Cooling cfg t.b u :=
    hu.keep (P := Cooling cfg t.b) (fun _ _ _ hc _ hstep => Cooling.step ht hc hstep) fun _ => rfl
  have heq : u.b = t.b := hcool (by rw [hat]; exact hlt)
  have hopen : u.b.state = .stateOpen := by rw [heq, ht]
  refine ⟨heq, Breaker.allow_cooling hopen ?_, fun failed => Breaker.record_open u.now failed hopen⟩
  rw [heq, hat]
  exact hlt

/-- A failure, a success, then a failure of one of three calls that overlap. The second one's
    failure trips it; the third one's success comes while it is open. -/
def overlapping : List Ev := [.call, .record 0 true, .call, .record 1 false, .call, .call, .call,
    .record 2 true, .tick 7]

theorem tripping_overlapping :
    ∃ s t u, (sys recovery 0).Reach Sys.any s ∧ step recovery s (.record 4 true) = some t ∧
    s.b.state = .stateClosed ∧ t.b.state ≠ .stateClosed ∧ recovery.Trips t.outcomes ∧
    (sys recovery 0).exec Sys.any t [.tick 999, .call, .record 3 false] = some u ∧
    u.b = t.b ∧ u.b.allow recovery u.now = (u.b, false) := by
  obtain ⟨s, hr, hs, hst⟩ := (sys recovery 0).reach_of_exec Sys.any (start 0) rfl overlapping
    (P := fun s => s.b.state = .stateClosed ∧ ((sys recovery 0).exec Sys.any s [.record 4 true]).any (fun t =>
      decide (t.b.state = .stateOpen ∧
        ((sys recovery 0).exec Sys.any t [.tick 999, .call, .record 3 false]).any (fun u =>
        decide (u.now - t.now < recovery.cooldown)) = true)) = true) (by decide +kernel)
  obtain ⟨t, ht, hp⟩ := (Option.any_eq_true _ _).mp hst
  obtain ⟨hopen, hu⟩ := of_decide_eq_true hp
  obtain ⟨u, hu, hlt⟩ := (Option.any_eq_true _ _).mp hu
  have hlt := of_decide_eq_true hlt
  have hstep : step recovery s (.record 4 true) = some t := by
    simp only [Sys.exec, Sys.any, if_true, Option.bind_fun_some] at ht
    exact ht
  obtain ⟨htrips, hcool⟩ := tripping recovery 0 s hr _ t hstep
  have hne : s.b.state ≠ .stateOpen := by rw [hs]; intro h; cases h
  have hne' : t.b.state ≠ .stateClosed := by rw [hopen]; intro h; cases h
  obtain ⟨hb, hallow, -⟩ := hcool hne hopen u (Sys.steps_exec _ hu) hlt
  exact ⟨s, t, u, hr, hstep, hs, hne', (htrips hs).mp hne', hu, hb, hallow⟩

end ValueRpc.Resilience
