/-
  ValueRpc.Ledger.Requests — the request limit of a session.

  A read loop reserves a slot with `inFlight.Add(1)` and gives it back when the sum is
  over the limit, so the counter runs ahead of the handlers by the reservations that are
  on their way back, and never behind them.

  - `request_limit`: in every state, whatever the handlers do and whoever runs next, at
    most `maxConcurrentRequests` handler goroutines are running; `inFlight` is the running
    ones and the reservations being rolled back; a request over the limit never runs and is
    answered once; an admitted one gets by its own steps to its handler, and from its return
    or panic to its end, where it gives its slot back, once; and `requestCancels` holds
    running unary calls.
-/

import ValueRpc.Ledger.Session

namespace ValueRpc.Ledger

open Function ValueRpc.Lib
open ValueRpc.Serve (FunctionType)

/-- The handler's goroutine was started and holds its slot. -/
def Pc.running : Pc → Bool
  | .arrived | .rollback | .rejecting | .rejected | .done => false
  | _ => true

def Pc.rollingBack : Pc → Bool
  | .rollback => true
  | _ => false

/-- A unary call between its Store into `requestCancels` and its Delete. -/
def Pc.inCall : Pc → Bool
  | .handling | .unregistering _ => true
  | _ => false

def St.running (s : St) : Nat := s.reqs.countP (·.pc.running)

def St.rollingBack (s : St) : Nat := s.reqs.countP (·.pc.rollingBack)

def ReqOk (cfg : Config) (stopped : Bool) (r : Req) : Prop :=
  match r.pc with
  | .arrived => r.n = 0 ∧ r.ran = false ∧ r.released = 0 ∧ r.replies = []
  | .rollback | .rejecting => r.ran = false ∧ cfg.overRequests r.n = true ∧ r.replies = []
  | .rejected => r.ran = false ∧ cfg.overRequests r.n = true ∧
      (r.replies = [.requestsExhausted] ∨ stopped = true ∧ r.replies = [])
  | .done => r.ran = true ∧ cfg.overRequests r.n = false ∧ r.released = 1
  | _ => r.ran = true ∧ cfg.overRequests r.n = false ∧ r.released = 0

structure Limited (cfg : Config) (s : St) : Prop where
  inFlight : s.inFlight = s.running + s.rollingBack
  bound : 0 < cfg.maxConcurrentRequests → (s.running : Int) ≤ cfg.maxConcurrentRequests
  reqs : ∀ (x : Nat) (r : Req), s.reqs[x]? = some r → ReqOk cfg s.stopped r
  cancels : ∀ (i : Int) (x : Nat), s.requestCancels i = some x →
    ∃ r, s.reqs[x]? = some r ∧ r.reqId = i ∧ r.ft = .singleFunction ∧ r.pc.inCall = true

variable {cfg : Config} {s t : St} {e : Ev} {x : Nat} {r : Req} {f : Req → Req} {b : Bool}

theorem ReqOk.running (h : ReqOk cfg b r) (hp : r.pc.running = true) :
    r.ran = true ∧ cfg.overRequests r.n = false ∧ r.released = 0 := by
  unfold ReqOk at h
  unfold Pc.running at hp
  split at h <;> simp_all

theorem reqOk_running (hp : r.pc.running = true) (hran : r.ran = true) (hn : cfg.overRequests r.n = false)
    (hrel : r.released = 0) (b : Bool) : ReqOk cfg b r := by
  unfold ReqOk
  unfold Pc.running at hp
  split <;> simp_all

theorem ReqOk.stop (h : ReqOk cfg b r) : ReqOk cfg true r := by
  unfold ReqOk at h ⊢
  split at h <;> simp_all
  exact h.2.2.elim .inl fun h' => .inr h'.2

theorem ReqOk.unran (h : ReqOk cfg b r) (hover : cfg.overRequests r.n = true) : r.ran = false := by
  unfold ReqOk at h
  split at h <;> simp_all

theorem ReqOk.released (h : ReqOk cfg b r) (hran : r.ran = true) :
    r.released = if r.pc = .done then 1 else 0 := by
  unfold ReqOk at h
  split at h <;> simp_all

theorem inCall_running {pc : Pc} (h : pc.inCall = true) : pc.running = true := by
  cases pc <;> first | rfl | cases h

/-! ## One step -/

theorem Limited.turn (hi : Limited cfg s) (hr : s.reqs[x]? = some r) (f : Req → Req) (ht : t.reqs = s.reqs.modify x f)
    (hstop : t.stopped = s.stopped)
    (hfl : t.inFlight + (r.pc.running.toNat + r.pc.rollingBack.toNat : Nat) =
      s.inFlight + ((f r).pc.running.toNat + (f r).pc.rollingBack.toNat : Nat))
    (hb : (f r).pc.running = true → r.pc.running = true ∨ cfg.overRequests (s.inFlight + 1) = false)
    (hok : ReqOk cfg s.stopped (f r))
    (hc : ∀ (i : Int) (y : Nat), t.requestCancels i = some y →
      ∃ r, t.reqs[y]? = some r ∧ r.reqId = i ∧ r.ft = .singleFunction ∧ r.pc.inCall = true) : Limited cfg t := by
  have hrun := countP_modify (fun r : Req => r.pc.running) f hr
  have hrb := countP_modify (fun r : Req => r.pc.rollingBack) f hr
  have hfs := hi.inFlight
  simp only [St.running, St.rollingBack] at hfs
  refine ⟨?_, fun hM => ?_, fun y r' hy => ?_, hc⟩
  · simp only [St.running, St.rollingBack, ht]
    omega
  · have hbs := hi.bound hM
    simp only [St.running, ht] at hbs ⊢
    cases hp : (f r).pc.running with
    | false => rw [hp] at hrun; simp only [Bool.toNat_false] at hrun; omega
    | true =>
      rcases hb hp with hp' | ho
      · simp only [hp, hp'] at hrun; omega
      · -- the reservation that was let through counts every running handler
        simp only [Config.overRequests, decide_eq_false_iff_not, not_and] at ho
        have := ho hM
        simp only [hp, Bool.toNat_true] at hrun
        omega
  · rw [hstop]
    rw [ht] at hy
    rcases modify_get hy with ⟨-, r₀, hr₀, rfl⟩ | ⟨-, hy⟩
    · cases hr.symm.trans hr₀
      exact hok
    · exact hi.reqs y r' hy

theorem Limited.cancels_upd (hi : Limited cfg s) (hr : s.reqs[x]? = some r) (f : Req → Req)
    (ht : t.reqs = s.reqs.modify x f) (hid : (f r).reqId = r.reqId) (hft : (f r).ft = r.ft)
    (hcall : r.ft = .singleFunction → r.pc.inCall = true → (f r).pc.inCall = true) (i : Int) (y : Nat)
    (h : s.requestCancels i = some y) :
    ∃ r, t.reqs[y]? = some r ∧ r.reqId = i ∧ r.ft = .singleFunction ∧ r.pc.inCall = true := by
  obtain ⟨r', hy, hi', hft', hp'⟩ := hi.cancels i y h
  rw [ht, List.getElem?_modify, hy]
  by_cases hxy : x = y
  · subst hxy
    cases hr.symm.trans hy
    exact ⟨f r, by simp, hid.trans hi', hft.trans hft', hcall hft' hp'⟩
  · exact ⟨r', by simp [hxy], hi', hft', hp'⟩

theorem Limited.outside (hi : Limited cfg s) (hr : s.reqs[x]? = some r) (f : Req → Req)
    (ht : t.reqs = s.reqs.modify x f)
    (hstop : t.stopped = s.stopped) (hcan : t.requestCancels = s.requestCancels)
    (hfl : t.inFlight + (r.pc.running.toNat + r.pc.rollingBack.toNat : Nat) =
      s.inFlight + ((f r).pc.running.toNat + (f r).pc.rollingBack.toNat : Nat))
    (hb : (f r).pc.running = true → r.pc.running = true ∨ cfg.overRequests (s.inFlight + 1) = false)
    (hok : ReqOk cfg s.stopped (f r)) (hid : (f r).reqId = r.reqId) (hft : (f r).ft = r.ft)
    (hcall : r.pc.inCall = false) : Limited cfg t := by
  refine hi.turn hr f ht hstop hfl hb hok fun i y h => ?_
  rw [hcan] at h
  exact hi.cancels_upd hr f ht hid hft (fun _ hc => by rw [hcall] at hc; cases hc) i y h

theorem Limited.inside (hi : Limited cfg s) (hr : s.reqs[x]? = some r) (f : Req → Req)
    (ht : t.reqs = s.reqs.modify x f) (hstop : t.stopped = s.stopped) (hfl : t.inFlight = s.inFlight)
    (hcan : t.requestCancels = s.requestCancels) (hp : r.pc.running = true) (hp' : (f r).pc.running = true)
    (hrb : r.pc.rollingBack = (f r).pc.rollingBack)
    (hsame : (f r).reqId = r.reqId ∧ (f r).ft = r.ft ∧ (f r).ran = r.ran ∧ (f r).n = r.n ∧ (f r).released = r.released)
    (hcall : r.ft = .singleFunction → r.pc.inCall = true → (f r).pc.inCall = true) : Limited cfg t := by
  obtain ⟨hid, hft, hran, hn, hrel⟩ := hsame
  obtain ⟨hran', hn', hrel'⟩ := (hi.reqs x r hr).running hp
  refine hi.turn hr f ht hstop (by rw [hfl, hp, hp', hrb]) (fun _ => .inl hp)
    (reqOk_running hp' (hran.trans hran') (hn ▸ hn') (hrel.trans hrel') _) fun i y h => ?_
  rw [hcan] at h
  exact hi.cancels_upd hr f ht hid hft hcall i y h

/-- The deferred Delete takes out the entry of its id, whoever's it is. -/
theorem Limited.unregister (hi : Limited cfg s) (hr : s.reqs[x]? = some r) {o : Option Reply}
    (hp : r.pc = .unregistering o) {pc : Pc} (hrun : pc.running = true) (hrb : pc.rollingBack = false) :
    Limited cfg { s.goto x pc with requestCancels := update s.requestCancels r.reqId none } := by
  have hrun' : r.pc.running = true := by rw [hp]; rfl
  have hrb' : r.pc.rollingBack = false := by rw [hp]; rfl
  obtain ⟨hran, hn, hrel⟩ := (hi.reqs x r hr).running hrun'
  refine hi.turn hr (fun r => { r with pc := pc }) rfl rfl (by simp only [hrun', hrun, hrb, hrb']; rfl)
    (fun _ => .inl hrun')
    (reqOk_running (r := { r with pc := pc }) hrun hran hn hrel _) fun i y h => ?_
  by_cases hid : i = r.reqId
  · subst hid
    simp only [update_self] at h
    cases h
  · simp only [update_of_ne hid] at h
    obtain ⟨r', hy, hi', hft', hp'⟩ := hi.cancels i y h
    have hxy : x ≠ y := by
      rintro rfl
      cases hr.symm.trans hy
      exact hid hi'.symm
    exact ⟨r', by simp [St.goto, St.upd, hxy, hy], hi', hft', hp'⟩

theorem Limited.same (hi : Limited cfg s) (ht : t.reqs = s.reqs) (hstop : t.stopped = s.stopped)
    (hfl : t.inFlight = s.inFlight) (hcan : t.requestCancels = s.requestCancels) : Limited cfg t := by
  obtain ⟨h1, h2, h3, h4⟩ := hi
  simp only [St.running, St.rollingBack] at h1 h2
  refine ⟨?_, ?_, ?_, ?_⟩
  · simp only [St.running, St.rollingBack, ht, hfl, h1]
  · simpa only [St.running, ht] using h2
  · simpa only [ht, hstop] using h3
  · simpa only [ht, hcan] using h4

theorem Limited.aside (hi : Limited cfg s) (f : Req → Req) (ht : t.reqs = s.reqs.modify x f)
    (hstop : t.stopped = s.stopped) (hfl : t.inFlight = s.inFlight) (hcan : t.requestCancels = s.requestCancels)
    (hpc : ∀ r, (f r).pc = r.pc)
    (hsame : ∀ r, (f r).reqId = r.reqId ∧ (f r).ft = r.ft ∧ (f r).ran = r.ran ∧ (f r).n = r.n ∧
      (f r).released = r.released ∧ (f r).replies = r.replies) : Limited cfg t := by
  cases hr : s.reqs[x]? with
  | none =>
    rw [List.modify_eq_self (List.getElem?_eq_none_iff.mp hr)] at ht
    exact hi.same ht hstop hfl hcan
  | some r =>
    obtain ⟨hid, hft, hran, hn, hrel, hrep⟩ := hsame r
    refine hi.turn hr f ht hstop (by rw [hfl, hpc]) (fun h => .inl (hpc r ▸ h)) ?_ fun i y h => ?_
    · have := hi.reqs x r hr
      unfold ReqOk at this ⊢
      rw [hpc, hran, hn, hrel, hrep]
      exact this
    · rw [hcan] at h
      exact hi.cancels_upd hr f ht hid hft (fun _ h => by rw [hpc]; exact h) i y h

theorem Limited.arrive (hi : Limited cfg s) (i : Int) (ft : FunctionType) :
    Limited cfg { s with reqs := s.reqs ++ [.arrive i ft] } := by
  obtain ⟨h1, h2, h3, h4⟩ := hi
  simp only [St.running, St.rollingBack] at h1 h2
  refine ⟨?_, fun hM => ?_, fun x r hx => ?_, fun j x hj => ?_⟩
  · simpa [St.running, St.rollingBack, Req.arrive, Pc.running, Pc.rollingBack] using h1
  · simpa [St.running, Req.arrive, Pc.running] using h2 hM
  · rcases append_get hx with hx | ⟨-, rfl⟩
    · exact h3 x r hx
    · exact ⟨rfl, rfl, rfl, rfl⟩
  · obtain ⟨r, hx, hr⟩ := h4 j x hj
    exact ⟨r, get_append _ hx, hr⟩

theorem Limited.stop (hi : Limited cfg s) : Limited cfg { s with stopped := true } :=
  ⟨hi.inFlight, hi.bound, fun x r hx => (hi.reqs x r hx).stop, hi.cancels⟩

theorem limited_step (hi : Limited cfg s) (h : step cfg s e = some t) : Limited cfg t := by
  cases step_cases h with
  | arrive _ => exact hi.arrive _ _
  | @reject x r hr hp ho =>
    have hok := hi.reqs x r hr
    simp only [ReqOk, hp] at hok
    exact hi.outside hr _ rfl rfl rfl (by simp [hp, Pc.running, Pc.rollingBack]) (fun h => by cases h)
      ⟨rfl, ho, hok.2.2.2⟩ rfl rfl (by rw [hp]; rfl)
  | @admits x r hr hp ho =>
    have hok := hi.reqs x r hr
    simp only [ReqOk, hp] at hok
    exact hi.outside hr _ rfl rfl rfl (by simp [hp, Pc.running, Pc.rollingBack]) (fun _ => .inr ho)
      ⟨rfl, ho, hok.2.2.1⟩ rfl rfl (by rw [hp]; rfl)
  | @rollback x r hr hp =>
    have hok := hi.reqs x r hr
    simp only [ReqOk, hp] at hok
    exact hi.outside hr _ rfl rfl rfl (by simp [hp, Pc.running, Pc.rollingBack]) (fun h => by cases h)
      hok rfl rfl (by rw [hp]; rfl)
  | @rejected x r hr hp =>
    have hok := hi.reqs x r hr
    simp only [ReqOk, hp] at hok
    exact hi.outside hr _ rfl rfl rfl (by rw [hp]; rfl) (fun h => by cases h)
      ⟨hok.1, hok.2.1, .inl (by simp [hok.2.2])⟩ rfl rfl (by rw [hp]; rfl)
  | @dropReject x r hstop hr hp =>
    have hok := hi.reqs x r hr
    simp only [ReqOk, hp] at hok
    exact hi.outside hr _ rfl rfl rfl (by rw [hp]; rfl) (fun h => by cases h)
      ⟨hok.1, hok.2.1, .inr ⟨hstop, hok.2.2⟩⟩ rfl rfl (by rw [hp]; rfl)
  | @release x r hr hp =>
    have hok := hi.reqs x r hr
    simp only [ReqOk, hp] at hok
    exact hi.outside hr _ rfl rfl rfl (by simp [hp, Pc.running, Pc.rollingBack]) (fun h => by cases h)
      ⟨hok.1, hok.2.1, by rw [hok.2.2]⟩ rfl rfl (by rw [hp]; rfl)
  | begins hr hp _ | checks hr hp _ | checked hr hp _ | exhausted hr hp _ _ | passes hr hp _ _ | opens hr hp | store hr hp _
  | count hr hp | closed hr hp _ _ | ends hr hp | replies hr hp | refuseCall hr hp _ | refuseStream hr hp _
  | dropReply _ hr hp =>
    exact hi.inside hr _ rfl rfl rfl rfl (by rw [hp]; rfl) rfl (by rw [hp]; rfl) ⟨rfl, rfl, rfl, rfl, rfl⟩
      fun _ hc => by rw [hp] at hc; cases hc
  | returns _ hr hp _ | panicCall hr hp _ =>
    exact hi.inside hr _ rfl rfl rfl rfl (by rw [hp]; rfl) rfl (by rw [hp]; rfl) ⟨rfl, rfl, rfl, rfl,
      rfl⟩ fun _ _ => rfl
  | ready hr hp hft =>
    exact hi.inside hr _ rfl rfl rfl rfl (by rw [hp]; rfl) rfl (by rw [hp]; rfl) ⟨rfl, rfl, rfl, rfl, rfl⟩
      fun h _ => by rw [hft] at h; cases h
  | streams hr hp hft =>
    exact hi.inside hr _ rfl rfl rfl rfl (by rw [hp]; rfl) rfl (by rw [hp]; rfl) ⟨rfl, rfl, rfl, rfl, rfl⟩
      fun h _ => by rw [h] at hft; simp at hft
  | fails hr hp hft | panicStream hr hp hft =>
    exact hi.inside hr _ rfl rfl rfl rfl (by rw [hp]; rfl) rfl (by rw [hp]; rfl) ⟨rfl, rfl, rfl, rfl, rfl⟩
      fun h _ => absurd h hft
  | panicEarly hr hp =>
    rcases hp with hp | ⟨hp, -⟩
    · exact hi.inside hr _ rfl rfl rfl rfl (by rw [hp]; rfl) rfl (by rw [hp]; rfl) ⟨rfl, rfl, rfl, rfl, rfl⟩
        fun _ hc => by rw [hp] at hc; cases hc
    · exact hi.inside hr _ rfl rfl rfl rfl (by rw [hp]; rfl) rfl (by rw [hp]; rfl) ⟨rfl, rfl, rfl, rfl, rfl⟩
        fun _ hc => by rw [hp] at hc; cases hc
  | finish _ _ | endInput _ _ _ | report _ _ | closes _ _ | sweep _ _ _ =>
    exact hi.aside _ rfl rfl rfl rfl (fun _ => rfl) fun _ => ⟨rfl, rfl, rfl, rfl, rfl, rfl⟩
  | cut _ _ | delete _ _ _ _ | deleted _ _ _ _ | uncount _ _ => exact hi.same rfl rfl rfl rfl
  | stop _ => exact hi.stop
  | @storeCancel x r hr hp hft =>
    have hrun : r.pc.running = true := by rw [hp]; rfl
    obtain ⟨hran, hn, hrel⟩ := (hi.reqs x r hr).running hrun
    refine hi.turn hr _ rfl rfl (by rw [hp]; rfl) (fun _ => .inl hrun)
      (reqOk_running (r := { r with pc := .handling }) rfl hran hn hrel _) fun i y h => ?_
    by_cases hid : i = r.reqId
    · subst hid
      simp only [update_self] at h
      cases h
      exact ⟨{ r with pc := .handling }, by simp [St.goto, St.upd, hr], rfl, hft, rfl⟩
    · simp only [update_of_ne hid] at h
      exact hi.cancels_upd hr _ rfl rfl rfl (fun _ hc => by rw [hp] at hc; cases hc) i y h
  | unregister hr hp => exact hi.unregister hr hp rfl rfl
  | unwind hr hp => exact hi.unregister hr hp rfl rfl

/-! ## Every run -/

theorem limited_start : Limited cfg start where
  inFlight := rfl
  bound := fun h => by simp only [St.running, start, List.countP_nil]; omega
  reqs := fun x r h => by cases h
  cancels := fun i x h => by cases h

theorem limited (h : (sys cfg).Reach Sys.any s) : Limited cfg s := by
  refine h.inv (P := Limited cfg) ?_ fun _ _ _ hi _ hs => limited_step hi hs
  rintro _ rfl
  exact limited_start

/-- Only the goroutine that has request `x` moves. -/
def alone (x : Nat) : St → Ev → Prop := fun _ e => e = .run x

theorem rejecting_answers (hr : s.reqs[x]? = some r) (hp : r.pc = .rejecting) (hrep : r.replies = []) :
    ∃ t r', (sys cfg).Steps (alone x) s t ∧ t.reqs[x]? = some r' ∧ r'.pc = .rejected ∧
      r'.replies = [.requestsExhausted] := by
  refine ⟨s.upd x fun r => { r with pc := .rejected, replies := r.replies ++ [.requestsExhausted] },
    { r with pc := .rejected, replies := r.replies ++ [.requestsExhausted] }, .tail .refl rfl ?_, ?_, rfl,
      by simp [hrep]⟩
  · simp [sys, step, run, hr, hp]
  · simp [St.upd, hr]

/-- A read loop that turned a request away can always go on, and then its answer is out. -/
theorem rejection_answered (hi : Limited cfg s) (hr : s.reqs[x]? = some r)
    (hover : cfg.overRequests r.n = true) (hstop : s.stopped = false) :
    ∃ t r', (sys cfg).Steps (alone x) s t ∧ t.reqs[x]? = some r' ∧ r'.pc = .rejected ∧
      r'.replies = [.requestsExhausted] := by
  have hok := hi.reqs x r hr
  cases hp : r.pc with
  | rejected =>
    simp only [ReqOk, hp, hstop] at hok
    exact ⟨s, r, .refl, hr, hp, by simpa using hok.2.2⟩
  | rejecting =>
    simp only [ReqOk, hp] at hok
    exact rejecting_answers hr hp hok.2.2
  | rollback =>
    simp only [ReqOk, hp] at hok
    have hs : (sys cfg).step s (.run x) = some { s.goto x .rejecting with inFlight := s.inFlight - 1 } := by
      simp [sys, step, run, hr, hp]
    obtain ⟨t, r', ht, h⟩ := rejecting_answers (s := { s.goto x .rejecting with inFlight := s.inFlight - 1 })
      (x := x) (r := { r with pc := .rejecting }) (by simp [St.goto, St.upd, hr]) rfl hok.2.2
    have hone : (sys cfg).Steps (alone x) s { s.goto x .rejecting with inFlight := s.inFlight - 1 } :=
      .tail .refl rfl hs
    exact ⟨t, r', hone.trans ht, h⟩
  | arrived =>
    simp only [ReqOk, hp] at hok
    rw [hok.1] at hover
    simp only [Config.overRequests, decide_eq_true_eq] at hover
    omega
  | done =>
    simp only [ReqOk, hp, hover] at hok
    exact absurd hok.2.1 (by decide)
  | _ =>
    simp only [ReqOk, hp, hover] at hok
    exact absurd hok.2.1 (by decide)

/-! ## The slot comes back -/

/-- The handler returned or panicked, or the request was refused before it. -/
def Pc.ended : Pc → Bool
  | .closing _ | .unregistering _ | .ending _ | .replying _ | .releasing | .done => true
  | _ => false

structure Attended (s : St) : Prop where
  jobs : ∀ b ∈ s.jobs, b.x < s.reqs.length
  waits : ∀ (x : Nat) (r : Req) (j : Nat), s.reqs[x]? = some r → r.pc = .closing j → j < s.jobs.length

theorem Attended.turn (ha : Attended s) (f : Req → Req) (ht : t.reqs = s.reqs.modify x f)
    (hl : s.jobs.length ≤ t.jobs.length) (hjobs : ∀ b ∈ t.jobs, b.x < s.reqs.length)
    (hpc : ∀ r j, s.reqs[x]? = some r → (f r).pc = .closing j → r.pc = .closing j ∨ j < t.jobs.length) :
    Attended t := by
  refine ⟨fun b hb => by rw [ht, List.length_modify]; exact hjobs b hb, fun y r j hy hp => ?_⟩
  rw [ht] at hy
  rcases modify_get hy with ⟨rfl, r₀, hr₀, rfl⟩ | ⟨-, hy⟩
  · rcases hpc r₀ j hr₀ hp with hp | hj
    · exact Nat.lt_of_lt_of_le (ha.waits x r₀ j hr₀ hp) hl
    · exact hj
  · exact Nat.lt_of_lt_of_le (ha.waits y r j hy hp) hl

theorem Attended.same (ha : Attended s) (ht : t.reqs = s.reqs) (hl : s.jobs.length ≤ t.jobs.length)
    (hjobs : ∀ b ∈ t.jobs, b.x < s.reqs.length) : Attended t := by
  refine ⟨by rw [ht]; exact hjobs, fun x r j hr hp => ?_⟩
  rw [ht] at hr
  exact Nat.lt_of_lt_of_le (ha.waits x r j hr hp) hl

theorem Attended.spawn (ha : Attended s) (hr : s.reqs[x]? = some r) (hard : Bool) :
    s.jobs.length ≤ (s.spawn ⟨x, hard, .delete⟩).jobs.length ∧
      ∀ b ∈ (s.spawn ⟨x, hard, .delete⟩).jobs, b.x < s.reqs.length := by
  refine ⟨by simp [St.spawn], fun b hb => ?_⟩
  rcases List.mem_append.mp hb with hb | hb
  · exact ha.jobs b hb
  · rw [List.mem_singleton.mp hb]
    exact (List.getElem?_eq_some_iff.mp hr).1

theorem Attended.jobTo (ha : Attended s) (j : Nat) (k : Retiring) :
    s.jobs.length ≤ (s.jobTo j k).jobs.length ∧ ∀ b ∈ (s.jobTo j k).jobs, b.x < s.reqs.length := by
  refine ⟨by simp [St.jobTo], fun b hb => ?_⟩
  obtain ⟨i, hi⟩ := List.mem_iff_getElem?.mp hb
  rcases modify_get hi with ⟨-, b₀, hb₀, rfl⟩ | ⟨-, hi⟩
  · exact ha.jobs b₀ (List.mem_of_getElem? hb₀)
  · exact ha.jobs b (List.mem_of_getElem? hi)

theorem attended_step (ha : Attended s) (h : step cfg s e = some t) : Attended t := by
  cases step_cases h with
  | arrive _ =>
    refine ⟨fun b hb => ?_, fun y r j hy hp => ?_⟩
    · have := ha.jobs b hb
      simp only [List.length_append]
      omega
    · rcases append_get hy with hy | ⟨-, rfl⟩
      · exact ha.waits y r j hy hp
      · cases hp
  | fails hr _ _ =>
    obtain ⟨hl, hjobs⟩ := ha.spawn hr true
    exact ha.turn _ rfl hl hjobs fun _ j _ hp => .inr (by cases hp; simp [St.spawn, St.goto, St.upd])
  | finish hr _ =>
    obtain ⟨hl, hjobs⟩ := ha.spawn hr true
    exact ha.turn _ rfl hl hjobs fun _ _ _ hp => .inl hp
  | endInput _ hr _ =>
    obtain ⟨hl, hjobs⟩ := ha.spawn hr false
    exact ha.turn _ rfl hl hjobs fun _ _ _ hp => .inl hp
  | cut _ hr =>
    obtain ⟨hl, hjobs⟩ := ha.spawn hr true
    exact ha.same rfl hl hjobs
  | @delete j y _ _ _ _ _ _ | @uncount j y _ _ _ =>
    obtain ⟨hl, hjobs⟩ := ha.jobTo j _
    exact ha.same rfl hl hjobs
  | @deleted j _ _ _ _ _ _ =>
    obtain ⟨hl, hjobs⟩ := ha.jobTo j _
    exact ha.same rfl hl hjobs
  | @report j _ _ _ _ | @closes j _ _ _ =>
    obtain ⟨hl, hjobs⟩ := ha.jobTo j _
    exact ha.turn _ rfl hl hjobs fun _ _ _ hp => .inl hp
  | stop _ => exact ha.same rfl (Nat.le_refl _) ha.jobs
  | sweep _ _ _ => exact ha.turn _ rfl (Nat.le_refl _) ha.jobs fun _ _ _ hp => .inl hp
  | _ => exact ha.turn _ rfl (Nat.le_refl _) ha.jobs fun _ _ _ hp => by cases hp

theorem attended (h : (sys cfg).Reach Sys.any s) : Attended s := by
  refine h.inv (P := Attended) ?_ fun _ _ _ hi _ hs => attended_step hi hs
  rintro _ rfl
  exact ⟨fun b hb => (by cases hb), fun x r j hr => (by cases hr)⟩

/-- What a step does to the request at `x`, if it does anything. -/
theorem ended_turn {y : Nat} (f : Req → Req) (ht : t.reqs = s.reqs.modify y f) (hr : s.reqs[x]? = some r)
    (he : r.pc.ended = true) (hf : ∀ r, s.reqs[y]? = some r → r.pc.ended = true → (f r).pc.ended = true) :
    ∃ r', t.reqs[x]? = some r' ∧ r'.pc.ended = true := by
  rw [ht, List.getElem?_modify, hr]
  by_cases hxy : y = x
  · subst hxy
    exact ⟨f r, by simp, hf r hr he⟩
  · exact ⟨r, by simp [hxy], he⟩

theorem ended_step (h : step cfg s e = some t) (hr : s.reqs[x]? = some r) (he : r.pc.ended = true) :
    ∃ r', t.reqs[x]? = some r' ∧ r'.pc.ended = true := by
  cases step_cases h with
  | arrive _ => exact ⟨r, get_append _ hr, he⟩
  | stop _ | cut _ _ | delete _ _ _ _ | deleted _ _ _ _ | uncount _ _ => exact ⟨r, hr, he⟩
  | finish _ _ | endInput _ _ _ | report _ _ | closes _ _ | sweep _ _ _ => exact ended_turn _ rfl hr he fun _ _ h => h
  | admits hr' hp _ | reject hr' hp _ | rollback hr' hp | rejected hr' hp | dropReject _ hr' hp | begins hr' hp _
  | checks hr' hp _ | checked hr' hp _ | passes hr' hp _ _ | opens hr' hp | storeCancel hr' hp _ | store hr' hp _
  | count hr' hp =>
    refine ended_turn _ rfl hr he fun r₀ h₀ he₀ => ?_
    cases hr'.symm.trans h₀
    rw [hp] at he₀
    cases he₀
  | _ => exact ended_turn _ rfl hr he fun _ _ _ => rfl

theorem ended_steps {u : St} (h : (sys cfg).Steps Sys.any t u)
    (ht : ∃ r, t.reqs[x]? = some r ∧ r.pc.ended = true) : ∃ r, u.reqs[x]? = some r ∧ r.pc.ended = true :=
  h.keep (P := fun s => ∃ r, s.reqs[x]? = some r ∧ r.pc.ended = true)
    (fun _ _ _ ⟨_, hr, he⟩ _ hs => ended_step hs hr he) ht

/-- The steps of the goroutine of `x`: `closeRequest` is its own when it is in it. -/
def own (x : Nat) (s : St) (e : Ev) : Prop :=
  e = .run x ∨ ∃ r j, s.reqs[x]? = some r ∧ r.pc = .closing j ∧ e = .teardown j

def St.inHandler (s : St) (x : Nat) : Prop := ∃ r, s.reqs[x]? = some r ∧ r.pc = .handling

/-- Request `x` is over, its slot given back once, and `requestCancels` does not hold it. -/
def St.freed (s : St) (x : Nat) : Prop :=
  ∃ r, s.reqs[x]? = some r ∧ r.pc = .done ∧ r.released = 1 ∧ ∀ i, s.requestCancels i ≠ some x

def Retiring.left : Retiring → Nat
  | .delete => 4
  | .uncount _ => 3
  | .report _ => 2
  | .close => 1
  | .gone => 0

/-- How far a goroutine is from its end. -/
def St.left (s : St) : Pc → Nat
  | .spawned => 14
  | .checking => 13
  | .opening => 12
  | .storing => 11
  | .counting => 10
  | .handling => 9
  | .closing j => 4 + ((s.jobs[j]?.map fun b => b.at_.left).getD 0)
  | .unregistering _ => 4
  | .ending _ => 3
  | .replying _ => 2
  | .releasing => 1
  | _ => 0

def St.leftOf (s : St) (x : Nat) : Nat := (s.reqs[x]?.map fun r => s.left r.pc).getD 0

structure Going (cfg : Config) (ended : Bool) (x : Nat) (s : St) : Prop where
  limited : Limited cfg s
  attended : Attended s
  req : ∃ r, s.reqs[x]? = some r ∧ r.ran = true ∧ (ended = true → r.pc.ended = true)

theorem admitted_cases (h : ReqOk cfg b r) (hran : r.ran = true) : r.pc.running = true ∨ r.pc = .done := by
  unfold ReqOk at h
  cases hp : r.pc <;> simp_all [Pc.running]

theorem teardown_left {j : Nat} {b : Job} (hb : s.jobs[j]? = some b) (h : Does cfg s (.teardown j) t) :
    ∃ b', t.jobs[j]? = some b' ∧ b'.at_.left < b.at_.left := by
  have hjob : ∀ k, (s.jobTo j k).jobs[j]? = some { b with at_ := k } := fun k => by simp [St.jobTo, hb]
  have hnext : ∀ k : Bool, (if k then Retiring.close else .gone).left < 2 := by decide
  cases h with
  | delete hb' hk =>
    cases hb.symm.trans hb'
    exact ⟨_, hjob _, by rw [hk]; exact Nat.lt_succ_self 3⟩
  | deleted hb' hk =>
    cases hb.symm.trans hb'
    exact ⟨_, hjob _, by rw [hk]; exact Nat.lt_trans (hnext b.hard) (by decide)⟩
  | uncount hb' hk =>
    cases hb.symm.trans hb'
    exact ⟨_, hjob _, by rw [hk]; exact Nat.lt_succ_self 2⟩
  | report hb' hk =>
    cases hb.symm.trans hb'
    exact ⟨_, hjob _, by rw [hk]; exact hnext b.hard⟩
  | closes hb' hk =>
    cases hb.symm.trans hb'
    exact ⟨_, hjob _, by rw [hk]; exact Nat.zero_lt_one⟩

theorem teardown_aside {j : Nat} (hr : s.reqs[x]? = some r) (h : Does cfg s (.teardown j) t) :
    ∃ r', t.reqs[x]? = some r' ∧ r'.pc = r.pc ∧ r'.ran = r.ran := by
  have hmod : ∀ (y : Nat) (f : Req → Req), (∀ r, (f r).pc = r.pc ∧ (f r).ran = r.ran) →
      ∃ r', (s.reqs.modify y f)[x]? = some r' ∧ r'.pc = r.pc ∧ r'.ran = r.ran := by
    intro y f hf
    rw [List.getElem?_modify, hr]
    by_cases hxy : y = x
    · exact ⟨f r, by simp [hxy], hf r⟩
    · exact ⟨r, by simp [hxy], rfl, rfl⟩
  cases h with
  | report _ _ => exact hmod _ _ fun _ => ⟨rfl, rfl⟩
  | closes _ _ => exact hmod _ _ fun _ => ⟨rfl, rfl⟩
  | _ => exact ⟨r, hr, rfl, rfl⟩

theorem run_left (hr : s.reqs[x]? = some r) (hp : r.pc.running = true) (h : Does cfg s (.run x) t) :
    ∃ r', t.reqs[x]? = some r' ∧ r'.ran = r.ran ∧ (r.pc.ended = true → r'.pc.ended = true) ∧
      t.left r'.pc < s.left r.pc := by
  have hself : ∀ f : Req → Req, (s.reqs.modify x f)[x]? = some (f r) := fun f => by simp [hr]
  cases h with
  | reject hr' hp' | admits hr' hp' | rollback hr' hp' | rejected hr' hp' =>
    cases hr.symm.trans hr'
    rw [hp'] at hp
    cases hp
  | closed hr' hp' _ _ =>
    cases hr.symm.trans hr'
    refine ⟨_, hself _, rfl, fun _ => rfl, ?_⟩
    rw [hp']
    simp only [St.left]
    omega
  | begins hr' hp' | checks hr' hp' | checked hr' hp' | exhausted hr' hp' | passes hr' hp' | opens hr' hp' | storeCancel hr' hp'
  | store hr' hp' | count hr' hp' =>
    cases hr.symm.trans hr'
    exact ⟨_, hself _, rfl, fun he => (by rw [hp'] at he; cases he), by rw [hp']; simp [St.left]⟩
  | unregister hr' hp' | unwind hr' hp' | ends hr' hp' | replies hr' hp' | release hr' hp' =>
    cases hr.symm.trans hr'
    exact ⟨_, hself _, rfl, fun _ => rfl, by rw [hp']; simp [St.left]⟩

theorem Going.turn (hg : Going cfg b x s) (ho : own x s e) (h : step cfg s e = some t) :
    Going cfg b x t ∧ t.leftOf x < s.leftOf x := by
  obtain ⟨r, hr, hran, he⟩ := hg.req
  have hlim := limited_step hg.limited h
  have hatt := attended_step hg.attended h
  rcases ho with rfl | ⟨r₀, j, hr₀, hp, rfl⟩
  · have hp : r.pc.running = true := by
      rcases admitted_cases (hg.limited.reqs x r hr) hran with hp | hp
      · exact hp
      · simp [step, hr, run, hp] at h
    obtain ⟨r', hr', hran', he', hlt⟩ := run_left hr hp (step_cases h)
    exact ⟨⟨hlim, hatt, r', hr', hran'.trans hran, fun hb => he' (he hb)⟩, by simpa [St.leftOf, hr, hr'] using hlt⟩
  · cases hr.symm.trans hr₀
    obtain ⟨c, hc⟩ : ∃ c, s.jobs[j]? = some c :=
      ⟨_, List.getElem?_eq_getElem (hg.attended.waits x r j hr hp)⟩
    obtain ⟨r', hr', hp', hran'⟩ := teardown_aside hr (step_cases h)
    obtain ⟨c', hc', hlt⟩ := teardown_left hc (step_cases h)
    refine ⟨⟨hlim, hatt, r', hr', hran'.trans hran, fun hb => by rw [hp']; exact he hb⟩, ?_⟩
    simp only [St.leftOf, hr, hr', Option.map_some, Option.getD_some, hp', hp, St.left, hc, hc']
    omega

/-- A goroutine that cannot move is in the handler or through. -/
theorem Going.stuck (hg : Going cfg b x s) (h : ∀ e, own x s e → step cfg s e = none) :
    ∃ r, s.reqs[x]? = some r ∧ (b = true → r.pc.ended = true) ∧ (r.pc = .handling ∨ r.pc = .done) := by
  obtain ⟨r, hr, hran, he⟩ := hg.req
  refine ⟨r, hr, he, ?_⟩
  have hrun := h (.run x) (.inl rfl)
  simp only [step, hr, Option.bind_some] at hrun
  rcases admitted_cases (hg.limited.reqs x r hr) hran with hp | hp
  · cases hpc : r.pc with
    | handling => exact .inl rfl
    | done => exact .inr rfl
    | closing j =>
      -- its teardown is under way, or over
      have hj := hg.attended.waits x r j hr hpc
      have hb : s.jobs[j]? = some s.jobs[j] := List.getElem?_eq_getElem hj
      have hx := hg.attended.jobs _ (List.getElem_mem hj)
      have htear := h (.teardown j) (.inr ⟨r, j, hr, hpc, rfl⟩)
      simp only [step, hb, Option.bind_some, teardown] at htear
      cases hk : s.jobs[j].at_ with
      | gone => simp [run, hpc, hb, hk] at hrun
      | delete =>
        simp only [hk, List.getElem?_eq_getElem hx] at htear
        split at htear <;> cases htear
      | _ => simp only [hk] at htear; cases htear
    | arrived => rw [hpc] at hp; cases hp
    | rollback => rw [hpc] at hp; cases hp
    | rejecting => rw [hpc] at hp; cases hp
    | rejected => rw [hpc] at hp; cases hp
    | spawned => simp only [run, hpc] at hrun; split at hrun <;> cases hrun
    | checking =>
      simp only [run, hpc] at hrun
      repeat' split at hrun
      all_goals cases hrun
    | storing => simp only [run, hpc] at hrun; split at hrun <;> cases hrun
    | _ => simp only [run, hpc] at hrun; cases hrun
  · exact .inr hp

theorem Limited.freed (hi : Limited cfg s) (hr : s.reqs[x]? = some r) (hp : r.pc = .done) : s.freed x := by
  have hok := hi.reqs x r hr
  simp only [ReqOk, hp] at hok
  refine ⟨r, hr, hp, hok.2.2, fun i hc => ?_⟩
  obtain ⟨r', hr', -, -, hcall⟩ := hi.cancels i x hc
  cases hr.symm.trans hr'
  rw [hp] at hcall
  cases hcall

/-- An admitted request gets to its handler, or to its end. -/
theorem Going.arrives (hg : Going cfg false x s) :
    (sys cfg).Inevitable (own x) (fun t => t.inHandler x ∨ t.freed x) s := by
  refine Sys.inevitable_of_measure (I := Going cfg false x) (fun s => s.leftOf x) (fun _ _ _ hg ho h => hg.turn ho h)
    (fun s hg h => ?_) hg
  obtain ⟨r, hr, -, hp | hp⟩ := hg.stuck h
  · exact .inl ⟨r, hr, hp⟩
  · exact .inr (hg.limited.freed hr hp)

/-- One whose handler is over gets to its end. -/
theorem Going.frees (hg : Going cfg true x s) : (sys cfg).Inevitable (own x) (fun t => t.freed x) s := by
  refine Sys.inevitable_of_measure (I := Going cfg true x) (fun s => s.leftOf x) (fun _ _ _ hg ho h => hg.turn ho h)
    (fun s hg h => ?_) hg
  obtain ⟨r, hr, he, hp | hp⟩ := hg.stuck h
  · have := he rfl
    rw [hp] at this
    cases this
  · exact hg.limited.freed hr hp

theorem ReqOk.ran_of_ended (h : ReqOk cfg b r) (he : r.pc.ended = true) : r.ran = true := by
  unfold ReqOk at h
  cases hp : r.pc <;> simp_all [Pc.ended]

def Ev.endsHandler (x : Nat) : Ev → Bool
  | .handled y _ | .panics y => y == x
  | _ => false

theorem ended_of_endsHandler (he : e.endsHandler x = true) (h : step cfg s e = some t) :
    ∃ r, t.reqs[x]? = some r ∧ r.pc.ended = true := by
  have hself : ∀ (r : Req) (f : Req → Req), s.reqs[x]? = some r → (s.reqs.modify x f)[x]? = some (f r) :=
    fun r f hr => by simp [hr]
  cases step_cases h with
  | returns _ hr | ready hr | streams hr | fails hr | panicCall hr | panicStream hr | panicEarly hr =>
    simp only [Ev.endsHandler, beq_iff_eq] at he
    subst he
    exact ⟨_, hself _ _ hr, rfl⟩
  | _ => cases he

theorem request_limit (hM : 0 < cfg.maxConcurrentRequests) (h : (sys cfg).Reach Sys.any s) :
    (s.running : Int) ≤ cfg.maxConcurrentRequests ∧ s.inFlight = s.running + s.rollingBack ∧ 0 ≤ s.inFlight ∧
    (∀ (x : Nat) (r : Req), s.reqs[x]? = some r → cfg.maxConcurrentRequests < r.n →
      r.ran = false ∧ (s.stopped = false → r.pc = .rejected → r.replies = [.requestsExhausted]) ∧
      (s.stopped = false → ∃ t r', (sys cfg).Steps (alone x) s t ∧ t.reqs[x]? = some r' ∧ r'.pc = .rejected ∧
        r'.replies = [.requestsExhausted])) ∧
    (∀ (x : Nat) (r : Req), s.reqs[x]? = some r → r.ran = true →
      (r.released = if r.pc = .done then 1 else 0) ∧
      (sys cfg).Inevitable (own x) (fun t => t.inHandler x ∨ t.freed x) s) ∧
    (∀ (x : Nat) (e : Ev) (t u : St), e.endsHandler x = true → step cfg s e = some t → (sys cfg).Steps Sys.any t u →
      (sys cfg).Inevitable (own x) (fun v => v.freed x) u) ∧
    ∀ (i : Int) (x : Nat), s.requestCancels i = some x →
      ∃ r, s.reqs[x]? = some r ∧ r.reqId = i ∧ r.ft = .singleFunction ∧ r.pc.running = true := by
  have hi := limited h
  refine ⟨hi.bound hM, hi.inFlight, by rw [hi.inFlight]; omega, fun x r hr hn => ?_, fun x r hr hran => ?_,
    fun x e t u he hst hu => ?_, fun i x hx => ?_⟩
  · have hover : cfg.overRequests r.n = true := by
      simp only [Config.overRequests, decide_eq_true_eq]
      exact ⟨hM, hn⟩
    refine ⟨(hi.reqs x r hr).unran hover, fun hstop hp => ?_, fun hstop => rejection_answered hi hr hover hstop⟩
    have hok := hi.reqs x r hr
    simp only [ReqOk, hp, hstop] at hok
    simpa using hok.2.2
  · exact ⟨(hi.reqs x r hr).released hran, Going.arrives ⟨hi, attended h, r, hr, hran, fun hf => (by cases hf)⟩⟩
  · have hru : (sys cfg).Reach Sys.any u := (h.step (e := e) trivial hst).steps hu
    obtain ⟨r, hr, hend⟩ := ended_steps hu (ended_of_endsHandler he hst)
    have hlim := limited hru
    exact Going.frees ⟨hlim, attended hru, r, hr, (hlim.reqs x r hr).ran_of_ended hend, fun _ => hend⟩
  · obtain ⟨r, hr, hid, hft, hp⟩ := hi.cancels i x hx
    exact ⟨r, hr, hid, hft, inCall_running hp⟩

def twoRequests : Config := ⟨2, 0⟩

/-- Three calls at once under a limit of two: two run, the third is turned away. -/
def flood : List Ev :=
  [.arrive 7 .singleFunction, .arrive 8 .singleFunction, .arrive 9 .singleFunction, .run 0, .run 1, .run 2,
    .run 0, .run 0,
    .run 0, .run 1, .run 1, .run 1, .run 2, .run 2]

def drains : List Ev := [.handled 0 true, .panics 1, .run 0, .run 0, .run 0, .run 0, .run 1, .run 1]

theorem request_limit_flood :
    (∃ s, (sys twoRequests).Reach Sys.any s ∧ 0 < twoRequests.maxConcurrentRequests ∧ s.reqs.map Req.n = [1, 2, 3] ∧
      s.reqs.map Req.replies = [[], [], [.requestsExhausted]] ∧ s.requestCancels 7 = some 0 ∧
      s.inFlight = s.running + s.rollingBack ∧ (s.running : Int) ≤ 2 ∧
      (∃ t, step twoRequests s (.handled 0 true) = some t ∧
        (sys twoRequests).Inevitable (own 0) (fun v => v.freed 0) t) ∧
      ∃ t, step twoRequests s (.panics 1) = some t ∧ (sys twoRequests).Inevitable (own 1) (fun v => v.freed 1) t) ∧
    ∃ s, (sys twoRequests).Reach Sys.any s ∧ s.reqs.map Req.released = [1, 1, 0] ∧ s.inFlight = 0 ∧
      s.requestCancels 7 = none ∧ s.requestCancels 8 = none := by
  refine ⟨?_, Sys.reach_of_exec (sys twoRequests) Sys.any start rfl (flood ++ drains) (by decide +kernel)⟩
  obtain ⟨s, hr, hn, hreplies, hcancel, hret, hpan⟩ := Sys.reach_of_exec (sys twoRequests) Sys.any start rfl flood
    (P := fun s => s.reqs.map Req.n = [1, 2, 3] ∧ s.reqs.map Req.replies = [[], [], [.requestsExhausted]] ∧
      s.requestCancels 7 = some 0 ∧ (step twoRequests s (.handled 0 true)).isSome = true ∧
      (step twoRequests s (.panics 1)).isSome = true) (by decide +kernel)
  obtain ⟨hbound, hfl, -, -, -, hfrees, -⟩ := request_limit (by decide) hr
  obtain ⟨t, ht⟩ := Option.isSome_iff_exists.mp hret
  obtain ⟨u, hu⟩ := Option.isSome_iff_exists.mp hpan
  exact ⟨s, hr, by decide, hn, hreplies, hcancel, hfl, hbound, ⟨t, ht, hfrees 0 _ t t rfl ht .refl⟩,
    u, hu, hfrees 1 _ u u rfl hu .refl⟩

end ValueRpc.Ledger
