/-
  ValueRpc.Serve.Disconnect — the work of a session that no connection is attached to
  (`valueserver/server.go`: `handleConnection`; `valueserver/serving_client.go`:
  `CallFunction`, `completePendingCall`, `Close`).

  A `Run` adds the reverse calls to the session: `CallFunction` enters `pendingCalls` and
  waits for its context, for `done` or for the reply the read loop brings. The end of a
  read loop closes its connection and touches nothing of the session.

  - `disconnect_cancels`: where the last read loop returns only with nothing in flight or in
    `pendingCalls`, or after `Close` (`idle`), and no reverse call is made while no connection
    is attached, then with no connection attached every handler's context is cancelled and no
    reverse call waits.
  - `disconnect_leaves_running`: a handler that runs and a reverse call that waits when the
    last read loop returns go on.
-/

import ValueRpc.Lib.Tally
import ValueRpc.Serve.Session

namespace ValueRpc.Serve.Disconnect

open Function ValueRpc.Lib

inductive Outcome where
  | result
  | ctxErr
  | clientClosed
  deriving DecidableEq, Repr

structure Call where
  reqId : Int
  answered : Bool
  ctxDone : Bool
  outcome : Option Outcome
  deriving DecidableEq, Repr

structure Run where
  st : St
  calls : List Call
  pendingCalls : Int → Option Nat
  lastServerRequest : Nat

def begin : Run := ⟨Serve.start, [], fun _ => none, 0⟩

inductive Ev where
  | session (e : Serve.Ev)
  | callFunction
  | ctxDone (i : Nat)
  | returns (i : Nat) (o : Outcome)
  deriving DecidableEq, Repr

def closed (s : St) : Bool :=
  match s.stop with
  | .up | .cancelled => false
  | .done | .swept => true

def Call.ready (k : Call) (s : St) : Outcome → Bool
  | .result => k.answered
  | .ctxErr => k.ctxDone
  | .clientClosed => closed s

def complete (s : Run) (reqId : Int) : Run :=
  match s.pendingCalls reqId with
  | some i =>
    { s with
      pendingCalls := update s.pendingCalls reqId none
      calls := s.calls.modify i fun k => { k with answered := true } }
  | none => s

def reply (s : St) (c : Nat) : Option Int :=
  match s.loops[c]? with
  | some (.find reqId .response) => some reqId
  | _ => none

def replied (s : Run) : Serve.Ev → Run
  | .serve c =>
    match reply s.st c with
    | some reqId => complete s reqId
    | none => s
  | _ => s

def step (s : Run) : Ev → Option Run
  | .session e => (Serve.step s.st e).map fun t => { replied s e with st := t }
  | .callFunction =>
    let reqId := -((s.lastServerRequest : Int) + 1)
    some { s with
      lastServerRequest := s.lastServerRequest + 1
      pendingCalls := update s.pendingCalls reqId (some s.calls.length)
      calls := s.calls ++ [⟨reqId, false, false, none⟩] }
  | .ctxDone i => some { s with calls := s.calls.modify i fun k => { k with ctxDone := true } }
  | .returns i o =>
    match s.calls[i]? with
    | some k =>
      if k.outcome = none ∧ k.ready s.st o then
        some { s with
          pendingCalls := update s.pendingCalls k.reqId none
          calls := s.calls.modify i fun k => { k with outcome := some o } }
      else none
    | none => none

def runs : Sys Run Ev := ⟨fun s => s = begin, step⟩

/-! ## No connection -/

def down (s : St) : Bool := s.loops.all (· == .returned)

def hasCtx (e : Exec) : Bool := e.pc != .spawned && e.pc != .refused

/-- The call returned, or its select has a case to take. -/
def Call.released (s : St) (k : Call) : Bool := k.outcome.isSome || k.answered || k.ctxDone || closed s

/-- Not in flight: refused, over, or a stream that was torn down. -/
def quiet (e : Exec) : Bool :=
  match e.pc with
  | .refused | .done => true
  | .streaming => e.closed || e.ended
  | _ => false

/-- The session is stopping or nothing is in flight; and `done` is closed, or `pendingCalls`
    has no entry but of calls whose own context is done. -/
def idle (s : Run) : Bool :=
  (s.st.stop != .up || s.st.execs.all quiet) &&
    (closed s.st || s.calls.all fun k => (s.pendingCalls k.reqId).isNone || k.ctxDone)

/-- The last read loop returns only when the session is idle, and with no connection attached
    no reverse call is made before `Close`. -/
def idleAtDisconnect (s : Run) : Ev → Bool
  | .session (.hangUp c) => !down (s.st.goto c .returned) || idle s
  | .callFunction => !down s.st || closed s.st
  | _ => true

/-! ## The invariant -/

structure Pending (s : Run) : Prop where
  last : s.lastServerRequest = s.calls.length
  reqId : ∀ (i : Nat) (k : Call), s.calls[i]? = some k → k.reqId = -((i : Int) + 1)
  entry : ∀ (i : Nat) (k : Call), s.calls[i]? = some k →
    s.pendingCalls k.reqId = some i ∨ k.answered = true ∨ k.outcome.isSome = true
  call : ∀ (reqId : Int) (i : Nat), s.pendingCalls reqId = some i → ∃ k, s.calls[i]? = some k ∧ k.reqId = reqId

structure Inv (s : Run) : Prop where
  sound : Sound s.st
  pending : Pending s
  execs : down s.st = true → ∀ e ∈ s.st.execs, e.pc = .refused ∨ e.cancelled = true
  calls : down s.st = true → ∀ k ∈ s.calls, k.released s.st = true

theorem inv_begin : Inv begin where
  sound := sound_start
  pending := ⟨rfl, nofun, nofun, nofun⟩
  execs := nofun
  calls := nofun

variable {s : Run} {t : St} {u v : St} {x : Nat} {e : Exec} {c : Nat}

/-- A call moves on, and its entry goes when it is answered or returns. -/
theorem Pending.turn (hp : Pending s) {i : Nat} {k : Call} (hk : s.calls[i]? = some k) (f : Call → Call)
    (hid : ∀ k, (f k).reqId = k.reqId) (hf : (f k).answered = true ∨ (f k).outcome.isSome = true) :
    Pending { s with pendingCalls := update s.pendingCalls k.reqId none, calls := s.calls.modify i f } := by
  have hne : ∀ (j : Nat) (k' : Call), s.calls[j]? = some k' → i ≠ j → k'.reqId ≠ k.reqId := by
    intro j k' hj hij
    rw [hp.reqId i k hk, hp.reqId j k' hj]
    omega
  refine ⟨by simpa using hp.last, fun j k' hj => ?_, fun j k' hj => ?_, fun reqId j hj => ?_⟩
  · rcases modify_get hj with ⟨rfl, k₀, hk₀, rfl⟩ | ⟨-, hj⟩
    · exact (hid k₀).trans (hp.reqId i k₀ hk₀)
    · exact hp.reqId j k' hj
  · rcases modify_get hj with ⟨rfl, k₀, hk₀, rfl⟩ | ⟨hij, hj⟩
    · cases hk.symm.trans hk₀
      exact .inr hf
    · simpa only [update_of_ne (hne j k' hj hij)] using hp.entry j k' hj
  · by_cases hr : reqId = k.reqId
    · subst hr
      simp only [update_self] at hj
      cases hj
    · simp only [update_of_ne hr] at hj
      obtain ⟨k', hk', hid'⟩ := hp.call reqId j hj
      have hij : i ≠ j := by
        rintro rfl
        cases hk.symm.trans hk'
        exact hr hid'.symm
      exact ⟨k', by simp [hij, hk'], hid'⟩

theorem Pending.replied (hp : Pending s) (e : Serve.Ev) : Pending (replied s e) := by
  unfold Disconnect.replied
  split
  · split
    · rename_i reqId _
      unfold complete
      split
      · rename_i i hi
        obtain ⟨k, hk, rfl⟩ := hp.call reqId i hi
        exact hp.turn hk _ (fun _ => rfl) (.inl rfl)
      · exact hp
    · exact hp
  · exact hp

theorem Pending.callFunction (hp : Pending s) : Pending { s with
    lastServerRequest := s.lastServerRequest + 1
    pendingCalls := update s.pendingCalls (-((s.lastServerRequest : Int) + 1)) (some s.calls.length)
    calls := s.calls ++ [⟨-((s.lastServerRequest : Int) + 1), false, false, none⟩] } := by
  have hl := hp.last
  refine ⟨by simp [hl], fun i k hi => ?_, fun i k hi => ?_, fun reqId i hi => ?_⟩
  · rcases append_get hi with hi | ⟨rfl, rfl⟩
    · exact hp.reqId i k hi
    · rw [hl]
  · rcases append_get hi with hi | ⟨rfl, rfl⟩
    · have hlt := (List.getElem?_eq_some_iff.mp hi).1
      have hne : k.reqId ≠ -((s.lastServerRequest : Int) + 1) := by
        rw [hp.reqId i k hi]
        omega
      simpa only [update_of_ne hne] using hp.entry i k hi
    · exact .inl (update_self ..)
  · by_cases hr : reqId = -((s.lastServerRequest : Int) + 1)
    · subst hr
      simp only [update_self] at hi
      cases hi
      exact ⟨_, List.getElem?_concat_length, rfl⟩
    · simp only [update_of_ne hr] at hi
      obtain ⟨k, hk, hid⟩ := hp.call reqId i hi
      exact ⟨k, get_append _ hk, hid⟩

theorem Pending.ctxDone (hp : Pending s) (i : Nat) :
    Pending { s with calls := s.calls.modify i fun k => { k with ctxDone := true } } := by
  refine ⟨by simpa using hp.last, fun j k hj => ?_, fun j k hj => ?_, fun reqId j hj => ?_⟩
  · rcases modify_get hj with ⟨rfl, k₀, hk₀, rfl⟩ | ⟨-, hj⟩
    · exact hp.reqId i k₀ hk₀
    · exact hp.reqId j k hj
  · rcases modify_get hj with ⟨rfl, k₀, hk₀, rfl⟩ | ⟨-, hj⟩
    · exact hp.entry i k₀ hk₀
    · exact hp.entry j k hj
  · obtain ⟨k, hk, hid⟩ := hp.call reqId j hj
    by_cases hij : i = j
    · exact ⟨{ k with ctxDone := true }, by simp [hij, hk], hid⟩
    · exact ⟨k, by simp [hij, hk], hid⟩

/-- What no entry of `pendingCalls` means for a call. -/
theorem Pending.released (hp : Pending s) (hc : closed s.st = true → closed u = true)
    (h : (closed s.st || s.calls.all fun k => (s.pendingCalls k.reqId).isNone || k.ctxDone) = true) :
    ∀ k ∈ s.calls, k.released u = true := by
  intro k hk
  simp only [Call.released, Bool.or_eq_true]
  rcases Bool.or_eq_true_iff.mp h with h | h
  · exact .inr (hc h)
  · rcases Bool.or_eq_true_iff.mp (List.all_eq_true.mp h k hk) with hn | hx
    · obtain ⟨i, hi⟩ := List.mem_iff_getElem?.mp hk
      rw [Option.isNone_iff_eq_none] at hn
      rcases hp.entry i k hi with he | ha | ho
      · rw [hn] at he
        cases he
      · exact .inl (.inl (.inr ha))
      · exact .inl (.inl (.inl ho))
    · exact .inl (.inr hx)

structure Later (s t : St) : Prop where
  execs : ∀ (y : Nat) (e' : Exec), t.execs[y]? = some e' →
    ∃ e, s.execs[y]? = some e ∧ (e.pc = .refused → e'.pc = .refused) ∧ (e.cancelled = true → e'.cancelled = true)
  closed : closed s = true → closed t = true

/-- A refused request takes no steps. -/
theorem later_upd {f : Exec → Exec} {m m' : Int → Option Nat} (he : u.execs[x]? = some e)
    (hp : e.pc ≠ .refused) (hf : e.cancelled = true → (f e).cancelled = true) :
    Later u { u.upd x f with requestMap := m, requestCancels := m' } := by
  refine ⟨fun y e' hy => ?_, id⟩
  rw [show St.execs _ = (u.upd x f).execs from rfl, upd_get] at hy
  obtain ⟨e₀, hy₀, rfl⟩ := Option.map_eq_some_iff.mp hy
  refine ⟨e₀, hy₀, ?_⟩
  split
  · rename_i hxy
    subst hxy
    cases he.symm.trans hy₀
    exact ⟨fun h => absurd h hp, hf⟩
  · exact ⟨id, id⟩

theorem later_closes {k : Closing} {pc : Pc} (he : u.execs[x]? = some e) (hp : e.pc ≠ .refused) :
    Later u ((u.closes e.reqId x k).upd x fun e' => { e' with pc := pc }) := by
  cases k with
  | delete => exact later_upd he hp id
  | swap =>
    rw [show u.closes e.reqId x .swap = u.upd x _ from rfl, upd_upd]
    exact later_upd he hp id
  | cancel =>
    rw [show u.closes e.reqId x .cancel = u.upd x _ from rfl, upd_upd]
    exact later_upd he hp fun _ => rfl

theorem run_later (h : run u x = some v) : Later u v := by
  unfold run at h
  split at h
  · cases h
  · rename_i e he
    split at h
    · rename_i hp
      cases h
      exact later_upd he (by rw [hp]; decide) id
    · rename_i hp
      split at h <;> cases h <;> exact later_upd he (by rw [hp]; decide) id
    · rename_i hp
      cases h
      exact later_upd he (by rw [hp]; decide) fun _ => rfl
    · rename_i hp
      cases h
      exact later_upd he (by rw [hp]; decide) id
    · rename_i hp
      cases h
      exact later_closes he (by rw [hp]; simp)
    · cases h

theorem close_later (h : close u = some v) : Later u v := by
  unfold close at h
  split at h <;> cases h
  · refine ⟨fun y e' hy => ?_, fun hc => by simp [closed, *] at hc⟩
    replace hy : (u.execs.map _)[y]? = some e' := hy
    rw [List.getElem?_map] at hy
    obtain ⟨e, he, rfl⟩ := Option.map_eq_some_iff.mp hy
    exact ⟨e, he, id, fun _ => rfl⟩
  · exact ⟨fun y e' hy => ⟨e', hy, id, id⟩, fun _ => rfl⟩
  · refine ⟨fun y e' hy => ?_, fun _ => rfl⟩
    replace hy : (u.execs.mapIdx _)[y]? = some e' := hy
    rw [List.getElem?_mapIdx] at hy
    obtain ⟨e, he, rfl⟩ := Option.map_eq_some_iff.mp hy
    refine ⟨e, he, ?_⟩
    split <;> exact ⟨id, id⟩

theorem exec_later {e : Serve.Ev} (he : e.ofExec = true) (h : Serve.step u e = some v) : Later u v := by
  cases e with
  | run x => exact run_later h
  | close => exact close_later h
  | refuse x =>
    simp only [Serve.step] at h
    split at h
    · split at h <;> cases h
      rename_i hx hp
      exact later_upd hx (by rw [hp]; decide) id
    · cases h
  | handled x ok =>
    simp only [Serve.step] at h
    split at h
    · split at h <;> cases h
      rename_i hx hp
      exact later_upd hx (by rw [hp]; decide) id
    · cases h
  | finish x =>
    simp only [Serve.step] at h
    split at h
    · split at h <;> cases h
      rename_i hx hp
      exact later_upd hx (by rw [hp.1]; decide) id
    · cases h
  | expire x =>
    simp only [Serve.step] at h
    split at h
    · split at h <;> cases h
      rename_i hx hp
      exact later_upd hx (by rw [hp.1]; decide) fun _ => rfl
    · cases h
  | _ => cases he

/-- A read loop that goes on has not returned. -/
theorem not_down_goto {l : Loop} (hc : c < u.loops.length) (hl : l ≠ .returned) :
    down (u.goto c l) = false := by
  refine Bool.eq_false_iff.mpr fun hd => hl ?_
  have hmem : l ∈ (u.goto c l).loops := List.mem_set hc l
  exact eq_of_beq (List.all_eq_true.mp hd l hmem)

theorem serve_not_down (h : serve u c = some v) : down v = false := by
  cases hl : u.loops[c]? with
  | none => simp [serve, hl] at h
  | some l =>
    have hc : c < u.loops.length := (List.getElem?_eq_some_iff.mp hl).1
    have hidle := not_down_goto (l := .idle) hc (by simp)
    cases l with
    | idle | returned => simp [serve, hl] at h
    | find i f =>
      simp only [serve, hl] at h
      split at h
      · cases h
        exact hidle
      · split at h
        · cases h
          simp only [serveRunning]
          split
          · exact not_down_goto hc (by simp)
          · exact not_down_goto hc (by split <;> simp)
          · split
            · exact not_down_goto (by exact hc) (by simp)
            · exact hidle
          · exact hidle
        · split at h <;> cases h
          · exact not_down_goto hc (by simp)
          · exact not_down_goto hc (by simp)
          · exact hidle
    | findCancel i =>
      simp only [serve, hl] at h
      split at h <;> cases h
      · exact not_down_goto hc (by simp)
      · exact hidle
    | cancelFunc x =>
      simp only [serve, hl] at h
      cases h
      exact not_down_goto (by exact hc) (by simp)
    | closing hard i x k =>
      simp only [serve, hl] at h
      cases h
      refine not_down_goto (by rw [closes_loops]; exact hc) ?_
      cases k.next hard (u.isClosed x) <;> simp
    | accept i ft =>
      simp only [serve, hl] at h
      cases h
      exact hidle

/-- Only the end of a read loop takes the session down; while it is down, only the
    executions and `Close` take steps. -/
theorem down_step {e : Serve.Ev} (h : Serve.step u e = some v) (hd : down v = true) :
    (∃ c, e = .hangUp c ∧ v = u.goto c .returned) ∨ e.ofExec = true ∧ down u = true := by
  cases e with
  | hangUp c =>
    simp only [Serve.step] at h
    split at h <;> cases h
    exact .inl ⟨c, rfl, rfl⟩
  | attach =>
    cases h
    simp [down] at hd
  | read c i f =>
    simp only [Serve.step] at h
    split at h <;> cases h
    rename_i hl
    rw [not_down_goto (List.getElem?_eq_some_iff.mp hl).1 (by simp)] at hd
    cases hd
  | reject c =>
    simp only [Serve.step] at h
    split at h <;> cases h
    rename_i hl
    rw [not_down_goto (List.getElem?_eq_some_iff.mp hl).1 (by simp)] at hd
    cases hd
  | serve c =>
    rw [serve_not_down h] at hd
    cases hd
  | refuse _ | run _ | handled _ _ | finish _ | expire _ | close =>
    refine .inr ⟨rfl, ?_⟩
    unfold down at hd ⊢
    rwa [← exec_loops rfl h]

/-- With no read loop left, nothing in flight is left uncancelled. -/
theorem quiet_cancelled (hs : Sound u) (hd : down u = true) (he : u.execs[x]? = some e)
    (hq : quiet e = true) : e.pc = .refused ∨ e.cancelled = true := by
  have hok := hs.execs x e he
  have hno : e.pc ≠ .closing .cancel → ¬Closer u x := by
    rintro hp (⟨e', he', hp'⟩ | ⟨c, l, hl, ho⟩)
    · cases he.symm.trans he'
      exact hp hp'
    · rw [eq_of_beq (List.all_eq_true.mp hd l (List.mem_of_getElem? hl))] at ho
      cases ho
  cases hp : e.pc with
  | refused => exact .inl rfl
  | done =>
    have hn := hno (by rw [hp]; decide)
    rcases hok.done hp with h | h
    · exact .inr h
    · exact .inr ((hok.torn (.inl h)).resolve_right hn)
  | streaming =>
    have hn := hno (by rw [hp]; decide)
    have hover : e.closed = true ∨ e.ended = true := by simpa [quiet, hp] using hq
    exact .inr ((hok.torn hover).resolve_right hn)
  | _ => simp [quiet, hp] at hq

theorem released_keep {k k' : Call} (hc : closed u = true → closed v = true)
    (ho : k.outcome.isSome = true → k'.outcome.isSome = true) (ha : k.answered = true → k'.answered = true)
    (hx : k.ctxDone = true → k'.ctxDone = true) (h : k.released u = true) : k'.released v = true := by
  simp only [Call.released, Bool.or_eq_true] at h ⊢
  tauto

theorem hangUp_inv (hp : Pending s) (hok : idleAtDisconnect s (.session (.hangUp c)) = true)
    (hk : Keeps s.st (s.st.goto c .returned)) : Inv { s with st := s.st.goto c .returned } := by
  simp only [idleAtDisconnect, Bool.or_eq_true, Bool.not_eq_true'] at hok
  refine ⟨hk.sound, ⟨hp.last, hp.reqId, hp.entry, hp.call⟩, fun hd e he => ?_, fun hd => ?_⟩
  · obtain ⟨x, hx⟩ := List.mem_iff_getElem?.mp he
    have hset := hok.resolve_left (by rw [show down (s.st.goto c .returned) = true from hd]; decide)
    simp only [idle, Bool.and_eq_true, Bool.or_eq_true, bne_iff_ne] at hset
    rcases hset.1 with hstop | hq
    · exact .inr ((hk.sound.execs x e hx).stopped hstop)
    · exact quiet_cancelled hk.sound hd hx (List.all_eq_true.mp hq e he)
  · have hset := hok.resolve_left (by rw [show down (s.st.goto c .returned) = true from hd]; decide)
    exact hp.released id (Bool.and_eq_true_iff.mp hset).2

theorem session_inv (hi : Inv s) {e : Serve.Ev} (hok : idleAtDisconnect s (.session e) = true)
    (h : Serve.step s.st e = some t) : Inv { replied s e with st := t } := by
  have hk := step_keeps hi.sound h
  have hp : Pending { replied s e with st := t } :=
    have := hi.pending.replied e
    ⟨this.last, this.reqId, this.entry, this.call⟩
  by_cases hd : down t = true
  · rcases down_step h hd with ⟨c, rfl, rfl⟩ | ⟨he, hds⟩
    · exact hangUp_inv hi.pending hok hk
    · have hl := exec_later he h
      have hs : replied s e = s := by cases e <;> first | rfl | cases he
      rw [hs] at hp ⊢
      refine ⟨hk.sound, hp, fun _ e' he' => ?_, fun _ k hkc => released_keep hl.closed id id id (hi.calls hds k hkc)⟩
      obtain ⟨y, hy⟩ := List.mem_iff_getElem?.mp he'
      obtain ⟨e₀, he₀, hpc, hcan⟩ := hl.execs y e' hy
      exact (hi.execs hds e₀ (List.mem_of_getElem? he₀)).imp hpc hcan
  · exact ⟨hk.sound, hp, fun h' => absurd h' hd, fun h' => absurd h' hd⟩

theorem modify_released {ks : List Call} {i : Nat} {f : Call → Call} (h : ∀ k ∈ ks, k.released u = true)
    (hf : ∀ k : Call, k.released u = true → (f k).released u = true) :
    ∀ k ∈ ks.modify i f, k.released u = true := by
  intro k hk
  obtain ⟨j, hj⟩ := List.mem_iff_getElem?.mp hk
  rw [List.getElem?_modify] at hj
  obtain ⟨k₀, hk₀, rfl⟩ := Option.map_eq_some_iff.mp hj
  have hr := h k₀ (List.mem_of_getElem? hk₀)
  split
  · exact hf k₀ hr
  · exact hr

theorem step_inv {e : Ev} {r : Run} (hi : Inv s) (hok : idleAtDisconnect s e = true) (h : step s e = some r) :
    Inv r := by
  cases e with
  | session e =>
    obtain ⟨t, ht, rfl⟩ := Option.map_eq_some_iff.mp h
    exact session_inv hi hok ht
  | callFunction =>
    cases h
    refine ⟨hi.sound, hi.pending.callFunction, hi.execs, fun hd k hk => ?_⟩
    rcases List.mem_append.mp hk with hk | hk
    · exact hi.calls hd k hk
    · -- made after `Close`
      have hc : closed s.st = true := by
        simp only [idleAtDisconnect, Bool.or_eq_true, Bool.not_eq_true'] at hok
        exact hok.resolve_left (by rw [show down s.st = true from hd]; decide)
      simp [Call.released, hc]
  | ctxDone i =>
    cases h
    exact ⟨hi.sound, hi.pending.ctxDone i, hi.execs,
      fun hd => modify_released (hi.calls hd) fun k => released_keep id id id fun _ => rfl⟩
  | returns i o =>
    simp only [step] at h
    split at h
    · split at h <;> cases h
      rename_i k hk _
      exact ⟨hi.sound, hi.pending.turn hk _ (fun _ => rfl) (.inr rfl), hi.execs,
        fun hd => modify_released (hi.calls hd) fun k => released_keep id (fun _ => rfl) id id⟩
    · cases h

/-! ## The end of the last connection -/

theorem disconnect_cancels {s : Run} (hr : runs.Reach (fun s e => idleAtDisconnect s e = true) s)
    (hd : down s.st = true) :
    (∀ e ∈ s.st.execs, hasCtx e = true → e.cancelled = true) ∧ ∀ k ∈ s.calls, k.released s.st = true := by
  have hi : Inv s := hr.inv (P := Inv) (fun s hs => by cases hs; exact inv_begin) fun s e t hi hok h =>
    step_inv hi hok h
  refine ⟨fun e he hc => ?_, hi.calls hd⟩
  rcases hi.execs hd e he with hp | hcan
  · simp [hasCtx, hp] at hc
  · exact hcan

def workDone : List Ev :=
  [.session (.read 0 1 (.request .singleFunction)), .session (.serve 0), .session (.serve 0), .session (.run 0),
    .session (.run 0), .callFunction, .session (.read 0 (-1) .response), .session (.serve 0), .returns 0 .result,
    .session (.handled 0 true), .session (.run 0), .session (.run 0),
    .session (.read 0 2 (.request .incomingStream)), .session (.serve 0), .session (.serve 0), .session (.run 1),
    .session (.run 1), .session (.handled 1 true), .session (.read 0 2 .streamEnd), .session (.serve 0),
    .session (.serve 0), .session (.serve 0), .session (.hangUp 0)]

theorem disconnect_cancels_done : ∃ s : Run, down s.st = true ∧ s.st.execs.length = 2 ∧ s.calls.length = 1 ∧
    (∀ e ∈ s.st.execs, hasCtx e = true → e.cancelled = true) ∧ ∀ k ∈ s.calls, k.released s.st = true := by
  obtain ⟨s, hr, hdown, hexecs, hcalls⟩ :=
    Sys.reach_of_exec runs (fun s e => idleAtDisconnect s e = true) begin rfl workDone
    (P := fun s => down s.st = true ∧ s.st.execs.length = 2 ∧ s.calls.length = 1) (by decide +kernel)
  exact ⟨s, hdown, hexecs, hcalls, disconnect_cancels hr hdown⟩

/-- The connection ends while a handler waits for its reverse call. -/
def workInFlight : List Ev :=
  [.session (.read 0 1 (.request .singleFunction)), .session (.serve 0), .session (.serve 0), .session (.run 0),
    .session (.run 0), .callFunction, .session (.hangUp 0)]

theorem disconnect_leaves_running : ∃ s : Run, runs.Reach Sys.any s ∧ down s.st = true ∧
    (∃ e ∈ s.st.execs, hasCtx e = true ∧ e.cancelled = false) ∧ ∃ k ∈ s.calls, k.released s.st = false :=
  Sys.reach_of_exec runs Sys.any begin rfl workInFlight (by decide +kernel)

end ValueRpc.Serve.Disconnect
