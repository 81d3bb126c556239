/-
  ValueRpc.Resilience.Cancelled — what the circuit breaker makes of calls whose caller
  cancelled them (`resilience/breaker.go`: `defaultIsFailure`, `CircuitBreaker`;
  `valueclient/client.go`: `invokeUnary`; `valueclient/request.go`: `SingleResp`,
  `metricsCode`; `valuerpc/error.go`: `CodeOf`; `valueserver/serving_client.go`:
  `handlerErrCode`, `handlerError`).

  A call that `allow` admitted connects, sends its request and waits in `SingleResp`, where it
  takes the result or the record's error once the record is closed, the context's error, or
  the timer; `record` then gets what `defaultIsFailure` says of that error. While it waits the
  caller may cancel or the deadline pass, the server may answer, and `Reconnect` may replay
  the request or fail it.

  The error of a cancelled call is the server's, with CodeCanceled, when the record was closed
  first; otherwise it is `context.Canceled` itself. Three functions give it a code:
  `metricsCode` and `handlerErrCode` know `context.Canceled`, and `CodeOf`, which the breaker
  goes by, does not (`codeOf_cancelled`).

  A call's last state holds its error and whether it ended because its caller had cancelled,
  which is a record of the run.

  - `cancelled_not_failed`: where cancelled calls end by an answer (`answered`), none is
    counted as failed, none put in another's place adds a failure, and none trips the breaker.
  - `cancellations_trip`: as it is, five callers who give up open the breaker.
-/

import ValueRpc.Core.Error
import ValueRpc.Resilience.Tripping

namespace ValueRpc.Resilience.Cancelled

open ValueRpc.Core ValueRpc.Lib

/-! ## Errors and their codes -/

def metricsCode : Option Failure → Code
  | none => .ok
  | some .timeout => .deadlineExceeded
  | some .deadlineExceeded => .deadlineExceeded
  | some .canceled => .canceled
  | err => codeOf err

def errConnectionLost : Failure := .coded ⟨.unavailable, "connection lost during reconnect"⟩

def defaultIsFailure (err : Option Failure) : Bool :=
  match err with
  | none => false
  | some _ =>
    match codeOf err with
    | .invalidArgument => false
    | .notFound => false
    | .unauthenticated => false
    | .canceled => false
    | _ => true

/-! ## One call -/

inductive Ctx where
  | live
  | canceled
  | expired
  deriving DecidableEq, Repr

def Ctx.err : Ctx → Option Failure
  | .live => none
  | .canceled => some .canceled
  | .expired => some .deadlineExceeded

inductive Pc where
  | dialing
  | waiting
  /-- Before `record`. -/
  | ended (err : Option Failure) (cancelled : Bool)
  | recorded (err : Option Failure) (cancelled failed : Bool)
  deriving DecidableEq, Repr

structure Call where
  ctx : Ctx
  pc : Pc
  /-- The record's: a result in `resultCh`, `closed`, and `resultErr`. -/
  result : Bool
  closed : Bool
  resultErr : Option Failure
  deriving DecidableEq, Repr

def Call.new : Call := ⟨.live, .dialing, false, false, none⟩

inductive Answer where
  | result
  | failed (name : String) (err : Failure)
  | refused (e : Error)
  deriving DecidableEq, Repr

def Answer.err : Answer → Option Failure
  | .result => none
  | .failed name err => some (.coded (handlerError id ("function " ++ name) err))
  | .refused e => some (.coded e)

inductive CallEv where
  | connected
  | dialFails (text : String)
  | cancel
  | expire
  | answer (a : Answer)
  | lost
  | replay
  | dropped
  | takeResult
  | ctxDone
  | timer
  deriving DecidableEq, Repr

/-- The call returns `err`; it ended because of its caller if the context was cancelled by then
    and the error is the context's, or CodeCanceled. -/
def Call.ends (c : Call) (err : Option Failure) (byCtx : Bool) : Call :=
  { c with pc := .ended err (decide (c.ctx = .canceled) && byCtx) }

def Call.step (c : Call) : CallEv → Option Call
  | .connected => if c.pc = .dialing then some { c with pc := .waiting } else none
  | .dialFails text => if c.pc = .dialing then some (c.ends (some (.other text)) true) else none
  | .cancel => if c.ctx = .live then some { c with ctx := .canceled } else none
  | .expire => if c.ctx = .live then some { c with ctx := .expired } else none
  | .answer a =>
    if c.pc = .dialing ∨ c.closed = true then none
    else some { c with result := a.err.isNone, closed := true, resultErr := a.err }
  | .lost => if c.pc = .dialing ∨
      c.closed = true then none else some { c with closed := true, resultErr := some errConnectionLost }
  | .replay => if c.pc = .waiting then some c else none
  | .dropped => if c.pc = .dialing ∨ c.closed = true then none else some { c with closed := true }
  | .takeResult =>
    if c.pc = .waiting ∧ c.closed = true then
      if c.result then some (c.ends none false)
      else
        let err := c.resultErr.getD .noResponse
        some (c.ends (some err) (decide (codeOf (some err) = .canceled)))
    else none
  | .ctxDone => if c.pc = .waiting ∧ c.ctx ≠ .live then some (c.ends c.ctx.err true) else none
  | .timer =>
    if c.pc = .waiting then
      match c.ctx.err with
      | some err => some (c.ends (some err) true)
      | none => some (c.ends (some (c.resultErr.getD .timeout)) false)
    else none

/-- `record` with what the default predicate says. -/
def Call.record (c : Call) : Option (Bool × Call) :=
  match c.pc with
  | .ended err cancelled => some (defaultIsFailure err,
      { c with pc := .recorded err cancelled (defaultIsFailure err) })
  | _ => none

def Call.cancelled (c : Call) : Bool :=
  match c.pc with
  | .ended _ cancelled => cancelled
  | .recorded _ cancelled _ => cancelled
  | _ => false

def Call.failed (c : Call) : Bool :=
  match c.pc with
  | .recorded _ _ failed => failed
  | _ => false

/-- A cancelled call ends by an answer: not in the dial, by the context or by the timer. -/
def Call.answered (c : Call) : CallEv → Prop
  | .dialFails _ => c.ctx ≠ .canceled
  | .ctxDone => c.ctx ≠ .canceled
  | .timer => c.ctx ≠ .canceled
  | _ => True

instance (c : Call) : (e : CallEv) → Decidable (c.answered e)
  | .dialFails _ => inferInstanceAs (Decidable (_ ≠ _))
  | .ctxDone => inferInstanceAs (Decidable (_ ≠ _))
  | .timer => inferInstanceAs (Decidable (_ ≠ _))
  | .connected => .isTrue trivial
  | .cancel => .isTrue trivial
  | .expire => .isTrue trivial
  | .answer _ => .isTrue trivial
  | .lost => .isTrue trivial
  | .replay => .isTrue trivial
  | .dropped => .isTrue trivial
  | .takeResult => .isTrue trivial

/-! ## The breaker and its calls -/

structure St where
  b : Breaker
  now : Int
  calls : List Call
  deriving DecidableEq, Repr

def start (now : Int) : St := ⟨.new, now, []⟩

inductive Ev where
  | tick (d : Nat)
  | call
  | on (i : Nat) (e : CallEv)
  | record (i : Nat)
  deriving DecidableEq, Repr

variable (cfg : BreakerConfig) {c c' : Call}

def step (s : St) : Ev → Option St
  | .tick d => some { s with now := s.now + d }
  | .call =>
    match s.b.allow cfg s.now with
    | (_, false) => some s
    | (b, true) => some { s with b, calls := s.calls ++ [.new] }
  | .on i e => (s.calls[i]?.bind fun c => c.step e).map fun c => { s with calls := s.calls.set i c }
  | .record i =>
    (s.calls[i]?.bind Call.record).map fun r => { s with b := s.b.record cfg s.now r.1, calls := s.calls.set i r.2 }

def sys (now : Int) : Sys St Ev := ⟨fun s => s = start now, step cfg⟩

def answered (s : St) : Ev → Prop
  | .on i e => ∀ c ∈ s.calls[i]?, c.answered e
  | _ => True

instance (s : St) : (e : Ev) → Decidable (answered s e)
  | .on i e => inferInstanceAs (Decidable (∀ c ∈ s.calls[i]?, c.answered e))
  | .tick _ => .isTrue trivial
  | .call => .isTrue trivial
  | .record _ => .isTrue trivial

/-! ## The codes of a cancelled call -/

/-- The two forms its error has: metrics know both, `CodeOf` only the second. -/
theorem codeOf_cancelled :
    codeOf (some (.canceled : Failure)) = .unknown ∧ metricsCode (some .canceled) = .canceled ∧
    handlerErrCode (.canceled : Failure) = .canceled ∧ ∀ e : Error, e.code = .canceled →
      codeOf (some (.coded e)) = .canceled ∧ metricsCode (some (.coded e)) = .canceled := by
  refine ⟨rfl, rfl, rfl, fun e he => ⟨he, he⟩⟩

theorem not_failure {err : Option Failure} (h : codeOf err = .canceled) : defaultIsFailure err = false := by
  cases err with
  | none => rfl
  | some e => simp only [defaultIsFailure, h]

variable {cfg} {s t : St} {e : Ev}

/-! ## No cancelled call has failed -/

/-- A cancelled call's error has the code, and it was not counted as failed. -/
structure Call.Ok (c : Call) : Prop where
  ended : ∀ err, c.pc = .ended err true → codeOf err = .canceled
  recorded : ∀ err failed, c.pc = .recorded err true failed → failed = false

theorem Call.Ok.of_pc (h : c.Ok) (hpc : c'.pc = c.pc) : c'.Ok :=
  ⟨fun err he => h.ended err (hpc.symm.trans he), fun err failed hr => h.recorded err failed (hpc.symm.trans hr)⟩

theorem Call.Ok.of_waiting (h : c.pc = .waiting) : c.Ok := by
  refine ⟨fun err he => ?_, fun err failed hr => ?_⟩
  · rw [h] at he; cases he
  · rw [h] at hr; cases hr

theorem Call.ok_ends (c : Call) {err : Option Failure} {byCtx : Bool}
    (h : c.ctx = .canceled → byCtx = true → codeOf err = .canceled) : (c.ends err byCtx).Ok := by
  refine ⟨fun err' he => ?_, fun err' failed hr => ?_⟩
  · injection he with herr hc
    rw [← herr]
    obtain ⟨hctx, hby⟩ := Bool.and_eq_true_iff.mp hc
    exact h (of_decide_eq_true hctx) hby
  · cases hr

theorem Call.ok_step {e : CallEv} (hok : c.Ok) (ha : c.answered e) (h : c.step e = some c') :
    c'.Ok := by
  cases e with
  | connected =>
    simp only [Call.step] at h
    split at h
    · cases h; exact .of_waiting rfl
    · cases h
  | dialFails text =>
    simp only [Call.step] at h
    split at h
    · cases h; exact c.ok_ends fun hc => absurd hc ha
    · cases h
  | cancel =>
    simp only [Call.step] at h
    split at h
    · cases h; exact hok.of_pc rfl
    · cases h
  | expire =>
    simp only [Call.step] at h
    split at h
    · cases h; exact hok.of_pc rfl
    · cases h
  | answer a =>
    simp only [Call.step] at h
    split at h
    · cases h
    · cases h; exact hok.of_pc rfl
  | lost =>
    simp only [Call.step] at h
    split at h
    · cases h
    · cases h; exact hok.of_pc rfl
  | replay =>
    simp only [Call.step] at h
    split at h
    · cases h; exact hok
    · cases h
  | dropped =>
    simp only [Call.step] at h
    split at h
    · cases h
    · cases h; exact hok.of_pc rfl
  | takeResult =>
    simp only [Call.step] at h
    split at h
    · split at h
      · cases h; exact c.ok_ends nofun
      · cases h; exact c.ok_ends fun _ hb => of_decide_eq_true hb
    · cases h
  | ctxDone =>
    simp only [Call.step] at h
    split at h
    · cases h; exact c.ok_ends fun hc => absurd hc ha
    · cases h
  | timer =>
    simp only [Call.step] at h
    split at h
    · split at h
      · cases h; exact c.ok_ends fun hc => absurd hc ha
      · cases h; exact c.ok_ends nofun
    · cases h

theorem Call.ok_record {failed : Bool} (hok : c.Ok) (h : c.record = some (failed, c')) :
    c'.Ok ∧ (c.cancelled = true → failed = false) := by
  simp only [Call.record] at h
  split at h
  · rename_i err cancelled hpc
    cases h
    have hcanc : cancelled = true → defaultIsFailure err = false := by
      intro hc
      subst hc
      exact not_failure (hok.ended err hpc)
    refine ⟨⟨nofun, fun err' failed hr => ?_⟩, fun hc => hcanc ?_⟩
    · injection hr with herr hc hf
      rw [← hf]
      exact hcanc hc
    · rw [← hc, Call.cancelled, hpc]
  · cases h

def Inv (s : St) : Prop := ∀ c ∈ s.calls, c.Ok

theorem Inv.set (hi : Inv s) (i : Nat) (hok : c.Ok) : ∀ x ∈ s.calls.set i c, x.Ok := by
  intro x hx
  rcases List.mem_or_eq_of_mem_set hx with hx | rfl
  · exact hi x hx
  · exact hok

theorem inv_step (hi : Inv s) (ha : answered s e) (h : step cfg s e = some t) : Inv t := by
  cases e with
  | tick d => cases h; exact hi
  | call =>
    simp only [step] at h
    split at h
    · cases h; exact hi
    · cases h
      intro c hc
      rcases List.mem_append.mp hc with hc | hc
      · exact hi c hc
      · rw [List.mem_singleton.mp hc]
        exact ⟨nofun, nofun⟩
  | on i e =>
    obtain ⟨c', hc', rfl⟩ := Option.map_eq_some_iff.mp h
    obtain ⟨c, hc, hstep⟩ := Option.bind_eq_some_iff.mp hc'
    exact hi.set i (Call.ok_step (hi c (List.mem_of_getElem? hc)) (ha c hc) hstep)
  | record i =>
    obtain ⟨⟨failed, c'⟩, hc', rfl⟩ := Option.map_eq_some_iff.mp h
    obtain ⟨c, hc, hrec⟩ := Option.bind_eq_some_iff.mp hc'
    exact hi.set i (Call.ok_record (hi c (List.mem_of_getElem? hc)) hrec).1

theorem inv_reach {now : Int} (h : (sys cfg now).Reach answered s) : Inv s := by
  refine h.inv (P := Inv) (fun s hs => ?_) fun _ _ _ hi ha hs => inv_step hi ha hs
  cases hs
  intro c hc
  cases hc

theorem Call.Ok.not_failed (h : c.Ok) (hc : c.cancelled = true) : c.failed = false := by
  unfold Call.cancelled at hc
  unfold Call.failed
  split at hc
  · rename_i hpc
    rw [hpc]
  · rename_i err cancelled failed hpc
    subst hc
    rw [hpc]
    exact h.recorded err failed hpc
  · cases hc

def failures (calls : List Call) : Nat := calls.countP Call.failed

theorem failures_set (calls : List Call) (i : Nat) (h : c.failed = false) :
    failures (calls.set i c) ≤ failures calls := by
  unfold failures
  by_cases hi : i < calls.length
  · rw [List.countP_set hi, h]
    simp only [Bool.false_eq_true, if_false, Nat.add_zero]
    exact Nat.sub_le _ _
  · rw [List.set_eq_of_length_le (Nat.not_lt.mp hi)]

/-- A success does not trip the breaker. -/
theorem record_success_ne_open (cfg : BreakerConfig) {b : Breaker} (now : Int) (h : b.state ≠ .stateOpen) :
    (b.record cfg now false).state ≠ .stateOpen := by
  cases hb : b.state with
  | stateOpen => exact absurd hb h
  | stateClosed =>
    rw [Breaker.record_closed_success now hb]
    exact h
  | stateHalfOpen =>
    rcases Breaker.record_success cfg now hb with ⟨hst, -⟩ | ⟨hst, -⟩
    all_goals
      rw [hst]
      intro h
      cases h

theorem cancelled_not_failed (cfg : BreakerConfig) (now : Int) (s : St) (hr : (sys cfg now).Reach answered s) :
    (∀ c ∈ s.calls, c.cancelled = true → c.failed = false) ∧
    (∀ s', (sys cfg now).Reach answered s' → ∀ c ∈ s'.calls, c.cancelled = true → ∀ i,
      failures (s.calls.set i c) ≤ failures s.calls) ∧
    ∀ i c t, s.calls[i]? = some c → c.cancelled = true → step cfg s (.record i) = some t →
      s.b.state ≠ .stateOpen → t.b.state ≠ .stateOpen := by
  have hi := inv_reach hr
  refine ⟨fun c hc hcanc => (hi c hc).not_failed hcanc, fun s' hr' c hc hcanc i => ?_, fun i c t hc hcanc h hs => ?_⟩
  · exact failures_set s.calls i ((inv_reach hr' c hc).not_failed hcanc)
  · obtain ⟨⟨failed, c'⟩, hc', rfl⟩ := Option.map_eq_some_iff.mp h
    obtain ⟨x, hx, hrec⟩ := Option.bind_eq_some_iff.mp hc'
    cases hc.symm.trans hx
    have hf := (Call.ok_record (hi c (List.mem_of_getElem? hc)) hrec).2 hcanc
    subst hf
    exact record_success_ne_open cfg s.now hs

/-- The caller of a replayed call cancels, and the handler's answer, ended by its context, is
    there first. A second call succeeds. -/
def answeredFirst : List Ev :=
  [.call, .on 0 .connected, .on 0 .replay, .on 0 .cancel, .on 0 (.answer (.failed "f" .canceled)),
    .on 0 .takeResult, .call,
    .on 1 .connected, .on 1 (.answer .result), .on 1 .takeResult, .record 1]

theorem cancelled_not_failed_answeredFirst :
    ∃ s c t, (sys hasty 0).Reach answered s ∧ s.calls[0]? = some c ∧ c.cancelled = true ∧
    step hasty s (.record 0) = some t ∧ t.b.state ≠ .stateOpen ∧ failures s.calls = 0 ∧
      failures (s.calls.set 1 c) ≤ 0 := by
  obtain ⟨s, hr, hs, hf, hc, hstep⟩ := (sys hasty 0).reach_of_exec answered (start 0) rfl answeredFirst
    (P := fun s => s.b.state = .stateClosed ∧ failures s.calls = 0 ∧ (s.calls[0]?).any Call.cancelled = true ∧
      (step hasty s (.record 0)).isSome = true) (by decide +kernel)
  obtain ⟨c, hc, hcanc⟩ := (Option.any_eq_true _ _).mp hc
  obtain ⟨t, ht⟩ := Option.isSome_iff_exists.mp hstep
  obtain ⟨-, hset, htrip⟩ := cancelled_not_failed hasty 0 s hr
  have hne : s.b.state ≠ .stateOpen := by rw [hs]; intro h; cases h
  exact ⟨s, c, t, hr, hc, hcanc, ht, htrip 0 c t hc hcanc ht hne, hf,
    hf ▸ hset s hr c (List.mem_of_getElem? hc) hcanc 1⟩

def givenUp : List Ev :=
  (List.range 5).flatMap fun i => [.call, .on i .connected, .on i .cancel, .on i .ctxDone, .record i]

theorem cancellations_trip :
    ∃ s, (sys .default 0).Reach Sys.any s ∧ (∀ c ∈ s.calls, c.cancelled = true) ∧ failures s.calls = 5 ∧
    s.b.state = .stateOpen :=
  (sys .default 0).reach_of_exec Sys.any (start 0) rfl givenUp (by decide +kernel)

end ValueRpc.Resilience.Cancelled
