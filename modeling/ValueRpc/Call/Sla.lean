/-
  ValueRpc.Call.Sla — how long a unary call may take, at the client and at the server
  (`valueclient/client.go`: `effectiveTimeout`, `invokeUnary`, `constructRequest`;
  `valueclient/request.go`: `SingleResp`; `valueserver/serving_client.go`:
  `newRequestContext`).

  The bound is computed three times. `effectiveTimeout` takes the shorter of the configured
  timeout and the context's remaining time, in whole milliseconds, and a positive one goes
  into the request. The server makes a deadline of it. `SingleResp` waits for the result, the
  context, or a timer set to the configured timeout. A `time.Duration` is an int64 of
  nanoseconds, so turning milliseconds into one may wrap.

  Times are nanoseconds. The call is one client goroutine, the clock, the caller's cancel and
  the server, which may read the request late, or more than once when it is replayed.

  - `bounds_agree`: in every run of a call request, server and client all go by the smaller
    bound (`Agrees`) exactly when a context with a deadline has at least a millisecond left
    and the timeout, as an int64 of nanoseconds, is at least the bound (`Measurable`).
  - `bounds_differ`: as it is, a timeout that is off makes the client give up at once though
    the context has time; a context with less than a millisecond left sends no bound; and the
    largest timeout has passed before it begins, on both sides.
-/

import ValueRpc.Core.Credit
import ValueRpc.Lib.Runs

namespace ValueRpc.Call.Sla

open ValueRpc.Core ValueRpc.Lib

/-! ## The three computations -/

def millisecond : Int := 1000000

/-- `time.Until`: the largest and the smallest duration stand for all beyond. -/
def timeUntil (deadline now : Int) : Int := max (-2 ^ 63) (min (2 ^ 63 - 1) (deadline - now))

def milliseconds (d : Int) : Int := d.tdiv millisecond

def duration (ms : Int) : Int := wrap64 (ms * millisecond)

structure Cfg where
  timeoutMls : Int64
  deadline : Option Int
  deriving DecidableEq, Repr

def effectiveTimeout (cfg : Cfg) (now : Int) : Int :=
  let base := cfg.timeoutMls.toInt
  match cfg.deadline with
  | none => base
  | some deadline =>
    let remaining := milliseconds (timeUntil deadline now)
    let remaining := if remaining < 0 then 0 else remaining
    if base ≤ 0 ∨ remaining < base then remaining else base

def timeoutField (timeout : Int) : Option Int := if 0 < timeout then some timeout else none

/-- The deadline `newRequestContext` gives a unary handler's context. -/
def newRequestContext (sla : Option Int) (now : Int) : Option Int :=
  match sla with
  | some sla => if 0 < sla then some (now + duration sla) else none
  | none => none

/-! ## The call -/

structure Request where
  asked : Int
  sla : Option Int
  deriving DecidableEq, Repr

inductive Pc where
  | calling
  | sending
  /-- In `SingleResp`, with the time its timer fires. -/
  | waiting (fires : Int)
  | returned
  /-- When it gave up, and whether the context had ended then. -/
  | gaveUp (time : Int) (ended : Bool)
  deriving DecidableEq, Repr

structure St where
  now : Int
  canceled : Bool
  pc : Pc
  request : Option Request
  /-- Each time the server read it, with the deadline of the handler's context. -/
  served : List (Int × Option Int)
  answered : Bool
  deriving DecidableEq, Repr

def start (now : Int) : St := ⟨now, false, .calling, none, [], false⟩

inductive Ev where
  | tick (d : Nat)
  | cancel
  | call
  | wait
  | serve
  | answer
  | takeResult
  | ctxDone
  | timer
  deriving DecidableEq, Repr

variable (cfg : Cfg) {asked now deadline : Int}

def St.ended (s : St) : Bool := s.canceled || cfg.deadline.any fun deadline => decide (deadline ≤ s.now)

def step (s : St) : Ev → Option St
  | .tick d => some { s with now := s.now + d }
  | .cancel => some { s with canceled := true }
  | .call =>
    match s.pc with
    | .calling => some { s with pc := .sending, request := some ⟨s.now, timeoutField (effectiveTimeout cfg s.now)⟩ }
    | _ => none
  | .wait =>
    match s.pc with
    | .sending => some { s with pc := .waiting (s.now + max 0 (duration cfg.timeoutMls.toInt)) }
    | _ => none
  | .serve =>
    match s.request with
    | some r => some { s with served := s.served ++ [(s.now, newRequestContext r.sla s.now)] }
    | none => none
  | .answer => some { s with answered := true }
  | .takeResult =>
    match s.pc with
    | .waiting _ => if s.answered then some { s with pc := .returned } else none
    | _ => none
  | .ctxDone =>
    match s.pc with
    | .waiting _ => if s.ended cfg then some { s with pc := .gaveUp s.now true } else none
    | _ => none
  | .timer =>
    match s.pc with
    | .waiting fires => if fires ≤ s.now then some { s with pc := .gaveUp s.now (s.ended cfg) } else none
    | _ => none

def sys (now : Int) : Sys St Ev := ⟨fun s => s = start now, step cfg⟩

/-- The smaller bound that applies, in milliseconds and at least one. -/
def bound (asked : Int) : Int :=
  match cfg.deadline with
  | none => cfg.timeoutMls.toInt
  | some deadline =>
    let left := max 1 ((deadline - asked) / millisecond)
    if cfg.timeoutMls.toInt ≤ 0 then left else min cfg.timeoutMls.toInt left

/-- A context with a deadline has at least a millisecond left, and the timeout's nanoseconds,
    as an int64 holds them, reach the bound. -/
structure Measurable (asked : Int) : Prop where
  left : ∀ deadline ∈ cfg.deadline, millisecond ≤ deadline - asked
  fits : bound cfg asked * millisecond ≤ wrap64 (cfg.timeoutMls.toInt * millisecond)

instance (asked : Int) : Decidable (Measurable cfg asked) :=
  decidable_of_iff ((∀ deadline ∈ cfg.deadline, millisecond ≤ deadline - asked) ∧
    bound cfg asked * millisecond ≤ wrap64 (cfg.timeoutMls.toInt * millisecond)) ⟨fun h => ⟨h.1, h.2⟩,
      fun h => ⟨h.left, h.fits⟩⟩

def Applies : Prop := cfg.deadline.isSome = true ∨ 0 < cfg.timeoutMls.toInt

instance : Decidable (Applies cfg) := inferInstanceAs (Decidable (_ ∨ _))

variable {cfg} {s t : St} {e : Ev}

/-! ## The three agree -/

theorem bound_pos (ha : Applies cfg) (asked : Int) : 0 < bound cfg asked := by
  unfold bound
  unfold Applies at ha
  cases hd : cfg.deadline with
  | none => simpa [hd] using ha
  | some deadline =>
    dsimp only
    split <;> omega

theorem Measurable.lt (h : Measurable cfg asked) : bound cfg asked * millisecond < 2 ^ 63 := by
  have hw := Int.bmod_lt (x := cfg.timeoutMls.toInt * millisecond) (m := 2 ^ 64) (by omega)
  have := h.fits
  unfold wrap64 at this
  omega

theorem milliseconds_left (h : millisecond ≤ deadline - now) :
    milliseconds (timeUntil deadline now) = min (2 ^ 63 - 1) (deadline - now) / millisecond := by
  simp only [millisecond] at h
  have hu : timeUntil deadline now = min (2 ^ 63 - 1) (deadline - now) := by
    simp only [timeUntil]
    omega
  rw [hu]
  refine Int.tdiv_eq_ediv_of_nonneg ?_
  omega

/-- The remaining time, or the timeout when that is on and shorter. -/
theorem effectiveTimeout_some (hd : cfg.deadline = some deadline) : effectiveTimeout cfg now =
    if cfg.timeoutMls.toInt ≤ 0 then max 0 (milliseconds (timeUntil deadline now))
    else min cfg.timeoutMls.toInt (max 0 (milliseconds (timeUntil deadline now))) := by
  simp only [effectiveTimeout, hd]
  generalize milliseconds (timeUntil deadline now) = remaining
  split <;> split <;> omega

theorem effectiveTimeout_eq (h : Measurable cfg now) : effectiveTimeout cfg now = bound cfg now := by
  have hlt := h.lt
  cases hd : cfg.deadline with
  | none => simp only [effectiveTimeout, bound, hd]
  | some deadline =>
    have hleft : millisecond ≤ deadline - now := h.left deadline hd
    rw [effectiveTimeout_some hd, milliseconds_left hleft]
    simp only [bound, hd] at hlt ⊢
    simp only [millisecond] at hleft hlt ⊢
    -- past the largest duration the timeout is the smaller one
    by_cases hoff : cfg.timeoutMls.toInt ≤ 0
    · simp only [if_pos hoff] at hlt ⊢
      omega
    · simp only [if_neg hoff] at hlt ⊢
      omega

/-- With less than a millisecond left no bound is sent. -/
theorem timeoutField_brief (hd : cfg.deadline = some deadline) (h : deadline - now < millisecond) :
    timeoutField (effectiveTimeout cfg now) = none := by
  have hms : milliseconds (timeUntil deadline now) ≤ (999999 : Int).tdiv millisecond := by
    refine Int.tdiv_le_tdiv (by decide) ?_
    simp only [millisecond] at h
    simp only [timeUntil]
    omega
  have hzero : (999999 : Int).tdiv millisecond = 0 := by decide
  have heff : effectiveTimeout cfg now ≤ 0 := by
    rw [effectiveTimeout_some hd]
    split <;> omega
  exact if_neg (Int.not_lt.mpr heff)

theorem newRequestContext_eq (ha : Applies cfg) (h : Measurable cfg asked) (now : Int) :
    newRequestContext (some (bound cfg asked)) now = some (now + bound cfg asked * millisecond) := by
  have hpos := bound_pos ha asked
  have hdur : duration (bound cfg asked) = bound cfg asked * millisecond := by
    refine wrap64_eq ?_ h.lt
    simp only [millisecond]
    omega
  rw [newRequestContext, if_pos hpos, hdur]

/-! ## The call's invariant -/

inductive Moves (cfg : Cfg) (s : St) : Ev → St → Prop
  | tick (d : Nat) : Moves cfg s (.tick d) { s with now := s.now + d }
  | cancel : Moves cfg s .cancel { s with canceled := true }
  | answer : Moves cfg s .answer { s with answered := true }
  | call : s.pc = .calling →
      Moves cfg s .call { s with pc := .sending, request := some ⟨s.now, timeoutField (effectiveTimeout cfg s.now)⟩ }
  | wait : s.pc = .sending →
      Moves cfg s .wait { s with pc := .waiting (s.now + max 0 (duration cfg.timeoutMls.toInt)) }
  | serve {r : Request} : s.request = some r →
      Moves cfg s .serve { s with served := s.served ++ [(s.now, newRequestContext r.sla s.now)] }
  | takeResult {fires : Int} : s.pc = .waiting fires → Moves cfg s .takeResult { s with pc := .returned }
  | ctxDone {fires : Int} : s.pc = .waiting fires → Moves cfg s .ctxDone { s with pc := .gaveUp s.now true }
  | timer {fires : Int} : s.pc = .waiting fires → fires ≤ s.now →
      Moves cfg s .timer { s with pc := .gaveUp s.now (s.ended cfg) }

theorem moves (h : step cfg s e = some t) : Moves cfg s e t := by
  cases e with
  | tick d => cases h; exact .tick d
  | cancel => cases h; exact .cancel
  | answer => cases h; exact .answer
  | call =>
    simp only [step] at h
    split at h
    · cases h; exact .call ‹_›
    · cases h
  | wait =>
    simp only [step] at h
    split at h
    · cases h; exact .wait ‹_›
    · cases h
  | serve =>
    simp only [step] at h
    split at h
    · cases h; exact .serve ‹_›
    · cases h
  | takeResult =>
    simp only [step] at h
    split at h
    · split at h
      · cases h; exact .takeResult ‹_›
      · cases h
    · cases h
  | ctxDone =>
    simp only [step] at h
    split at h
    · split at h
      · cases h; exact .ctxDone ‹_›
      · cases h
    · cases h
  | timer =>
    simp only [step] at h
    split at h
    · split at h
      · cases h; exact .timer ‹_› ‹_›
      · cases h
    · cases h

structure Inv (cfg : Cfg) (s : St) : Prop where
  fresh : s.pc = .calling → s.request = none ∧ s.served = []
  asked : ∀ r, s.request = some r → r.asked ≤ s.now ∧ r.sla = timeoutField (effectiveTimeout cfg r.asked)
  served : ∀ r, s.request = some r → ∀ x ∈ s.served, x.2 = newRequestContext r.sla x.1
  /-- The timer was set to the timeout, after the request was made. -/
  timer : ∀ r fires, s.request = some r → s.pc = .waiting fires →
    r.asked + max 0 (duration cfg.timeoutMls.toInt) ≤ fires
  gaveUp : ∀ r time ended, s.request = some r → s.pc = .gaveUp time ended →
    ended = true ∨ r.asked + max 0 (duration cfg.timeoutMls.toInt) ≤ time

theorem Inv.call (hi : Inv cfg s) (hs : s.pc = .calling) :
    Inv cfg { s with pc := .sending, request := some ⟨s.now, timeoutField (effectiveTimeout cfg s.now)⟩ } := by
  refine ⟨nofun, fun r hr => ?_, fun r hr x hx => ?_, nofun,
    nofun⟩
  · cases hr
    exact ⟨Int.le_refl _, rfl⟩
  · rw [(hi.fresh hs).2] at hx
    cases hx

theorem Inv.wait (hi : Inv cfg s) :
    Inv cfg { s with pc := .waiting (s.now + max 0 (duration cfg.timeoutMls.toInt)) } := by
  refine ⟨nofun, hi.asked, hi.served, fun r fires hr hf => ?_, nofun⟩
  cases hf
  have := (hi.asked r hr).1
  omega

theorem Inv.serve (hi : Inv cfg s) {r : Request} (hr : s.request = some r) :
    Inv cfg { s with served := s.served ++ [(s.now, newRequestContext r.sla s.now)] } := by
  refine ⟨fun h => ?_, hi.asked, fun r' hr' x hx => ?_, hi.timer, hi.gaveUp⟩
  · have := (hi.fresh h).1
    rw [hr] at this
    cases this
  · cases hr.symm.trans hr'
    rcases List.mem_append.mp hx with hx | hx
    · exact hi.served r hr x hx
    · rw [List.mem_singleton.mp hx]

/-- It gives up with the context, or when the timer set to the whole timeout has fired. -/
theorem Inv.giveUp (hi : Inv cfg s) {fires : Int} (hs : s.pc = .waiting fires) {ended : Bool}
    (h : ended = true ∨ fires ≤ s.now) : Inv cfg { s with pc := .gaveUp s.now ended } := by
  refine ⟨nofun, hi.asked, hi.served, nofun, fun r time ended' hr hg => ?_⟩
  cases hg
  exact h.imp_right fun hle => Int.le_trans (hi.timer r fires hr hs) hle

theorem inv_step (hi : Inv cfg s) (h : step cfg s e = some t) : Inv cfg t := by
  cases moves h with
  | tick d =>
    refine ⟨hi.fresh, fun r hr => ?_, hi.served, hi.timer, hi.gaveUp⟩
    obtain ⟨hle, hr⟩ := hi.asked r hr
    exact ⟨by dsimp only; omega, hr⟩
  | cancel => exact ⟨hi.fresh, hi.asked, hi.served, hi.timer, hi.gaveUp⟩
  | answer => exact ⟨hi.fresh, hi.asked, hi.served, hi.timer, hi.gaveUp⟩
  | call hs => exact hi.call hs
  | wait _ => exact hi.wait
  | serve hr => exact hi.serve hr
  | takeResult _ =>
    exact ⟨nofun, hi.asked, hi.served, nofun, nofun⟩
  | ctxDone hs => exact hi.giveUp hs (.inl rfl)
  | timer hs hle => exact hi.giveUp hs (.inr hle)

theorem inv_reach (h : (sys cfg now).Reach Sys.any s) : Inv cfg s := by
  refine h.inv (P := Inv cfg) (fun s hs => ?_) fun _ _ _ hi _ hs => inv_step hi hs
  cases hs
  exact ⟨fun _ => ⟨rfl, rfl⟩, nofun, nofun, nofun,
    nofun⟩

/-! ## When they agree -/

/-- What a call whose request is made at `asked` does in every run: it sends the bound, the
    server's deadline is that far ahead, and the client gives up neither before it nor before the
    context ends. -/
def Agrees (cfg : Cfg) (asked : Int) : Prop :=
  ∀ (now : Int) (s : St), (sys cfg now).Reach Sys.any s → ∀ r, s.request = some r → r.asked = asked →
    0 < bound cfg asked ∧ r.sla = some (bound cfg asked) ∧
    (∀ x ∈ s.served, x.2 = some (x.1 + bound cfg asked * millisecond)) ∧
    (∀ time ended, s.pc = .gaveUp time ended → ended = true ∨ asked + bound cfg asked * millisecond ≤ time)

theorem Measurable.agrees (ha : Applies cfg) (h : Measurable cfg asked) : Agrees cfg asked := by
  rintro now s hr r hreq rfl
  have hi := inv_reach hr
  have hpos := bound_pos ha r.asked
  have hsla : r.sla = some (bound cfg r.asked) := by
    rw [(hi.asked r hreq).2, effectiveTimeout_eq h, timeoutField, if_pos hpos]
  refine ⟨hpos, hsla, fun x hx => ?_, fun time ended hg => (hi.gaveUp r time ended hreq hg).imp_right fun hle => ?_⟩
  · rw [hi.served r hreq x hx, hsla, newRequestContext_eq ha h]
  · have : bound cfg r.asked * millisecond ≤ duration cfg.timeoutMls.toInt := h.fits
    omega

/-- A bound that is left is within the context's time. -/
theorem bound_left (hd : cfg.deadline = some deadline) (h : millisecond ≤ deadline - asked) :
    bound cfg asked * millisecond ≤ deadline - asked := by
  simp only [bound, hd]
  simp only [millisecond] at h ⊢
  split <;> omega

def called (cfg : Cfg) (asked : Int) : St :=
  ⟨asked, false, .sending, some ⟨asked, timeoutField (effectiveTimeout cfg asked)⟩, [], false⟩

theorem reach_called (cfg : Cfg) (asked : Int) : (sys cfg asked).Reach Sys.any (called cfg asked) :=
  (Sys.Reach.init (s := start asked) rfl).step (e := .call) trivial rfl

def due (cfg : Cfg) (asked : Int) : St :=
  { called cfg asked with
    pc := .waiting (asked + max 0 (duration cfg.timeoutMls.toInt)),
      now := asked + (max 0 (duration cfg.timeoutMls.toInt)).toNat }

theorem reach_fired (cfg : Cfg) (asked : Int) :
    (sys cfg asked).Reach Sys.any { due cfg asked with
      pc := .gaveUp (due cfg asked).now ((due cfg asked).ended cfg) } := by
  have hdue : (sys cfg asked).Reach Sys.any (due cfg asked) :=
    ((reach_called cfg asked).step (e := .wait) trivial rfl).step
      (e := .tick (max 0 (duration cfg.timeoutMls.toInt)).toNat) trivial rfl
  refine hdue.step (e := .timer) trivial (if_pos ?_)
  simp only [due]
  omega

/-- Two runs show the condition: the request alone, and a wait that its timer ends as soon as it can. -/
theorem Agrees.measurable (h : Agrees cfg asked) : Measurable cfg asked := by
  obtain ⟨hpos, hsla, -, -⟩ := h asked _ (reach_called cfg asked) _ rfl rfl
  obtain ⟨-, -, -, hgave⟩ := h asked _ (reach_fired cfg asked) _ rfl rfl
  have hleft : ∀ deadline ∈ cfg.deadline, millisecond ≤ deadline - asked := by
    intro deadline hd
    by_contra hbrief
    rw [timeoutField_brief hd (Int.not_le.mp hbrief)] at hsla
    cases hsla
  have hnow : (due cfg asked).now = asked + max 0 (duration cfg.timeoutMls.toInt) := by
    simp only [due]
    omega
  have hreach : asked + bound cfg asked * millisecond ≤ (due cfg asked).now := by
    rcases hgave _ _ rfl with hended | hle
    · -- the context only ends with its deadline, which the bound does not pass
      obtain ⟨deadline, hd, hdl⟩ : ∃ deadline, cfg.deadline = some deadline ∧ deadline ≤ (due cfg asked).now := by
        simpa [St.ended, due, called, Option.any_eq_true] using hended
      have := bound_left hd (hleft deadline hd)
      omega
    · exact hle
  have hbound : 0 < bound cfg asked * millisecond := Int.mul_pos hpos (by decide)
  refine ⟨hleft, ?_⟩
  show bound cfg asked * millisecond ≤ duration cfg.timeoutMls.toInt
  omega

theorem bounds_agree (cfg : Cfg) (asked : Int) (ha : Applies cfg) : Agrees cfg asked ↔ Measurable cfg asked :=
  ⟨Agrees.measurable, Measurable.agrees ha⟩

def tight : Cfg := ⟨2000, some 1500000⟩

def unanswered : List Ev := [.call, .tick 10, .wait, .tick 700, .serve, .tick 1500000, .ctxDone]

theorem bounds_agree_unanswered : Applies tight ∧ Measurable tight 0 ∧ ∃ s, (sys tight 0).Reach Sys.any s ∧
    s.request = some ⟨0, some 1⟩ ∧ s.pc = .gaveUp 1500710 true ∧ s.served = [(710, some 1000710)] ∧ bound tight 0 = 1 ∧
    (∀ x ∈ s.served, x.2 = some (x.1 + bound tight 0 * millisecond)) := by
  have ha : Applies tight := by decide
  have hm : Measurable tight 0 := by decide
  obtain ⟨s, hr, hreq, hpc, hserved⟩ := (sys tight 0).reach_of_exec Sys.any (start 0) rfl unanswered
    (P := fun s => s.request = some ⟨0, some 1⟩ ∧ s.pc = .gaveUp 1500710 true ∧
      s.served = [(710, some 1000710)]) (by decide +kernel)
  obtain ⟨-, -, hs, -⟩ := (bounds_agree tight 0 ha).mpr hm 0 s hr _ hreq rfl
  exact ⟨ha, hm, s, hr, hreq, hpc, hserved, by decide, hs⟩

def off : Cfg := ⟨0, some 5000000000⟩

def brief : Cfg := ⟨1000, some 500000⟩

def unlimited : Cfg := ⟨9223372036854775807, none⟩

theorem bounds_differ :
    (∃ s, (sys off 0).Reach Sys.any s ∧ s.request = some ⟨0, some 5000⟩ ∧ s.pc = .gaveUp 0 false) ∧
    (∃ s, (sys brief 0).Reach Sys.any s ∧ s.request = some ⟨0, none⟩ ∧ s.served = [(0, none)] ∧
      s.ended brief = false) ∧
    ∃ s, (sys unlimited 0).Reach Sys.any s ∧ s.request = some ⟨0, some 9223372036854775807⟩ ∧
      s.served = [(0, some (-1000000))] ∧
      s.pc = .gaveUp 0 false :=
  ⟨(sys off 0).reach_of_exec Sys.any (start 0) rfl [.call, .wait, .timer] (by decide +kernel),
    (sys brief 0).reach_of_exec Sys.any (start 0) rfl [.call, .serve] (by decide +kernel),
    (sys unlimited 0).reach_of_exec Sys.any (start 0) rfl [.call, .serve, .wait, .timer] (by decide +kernel)⟩

end ValueRpc.Call.Sla
