/-
  ValueRpc.Client.ResultLoop — the client's response loop delivering what the server sends
  (`valueclient/client.go`: `processResponse`; `valueclient/request.go`: `notifyResult`).

  One loop serves all requests, so a frame it cannot deliver holds up every other. A
  get-stream or a chat has a pump in between (`Core.PumpRun`), and `Push` does not wait. A
  unary request and a put-stream have a channel with one slot, and `notifyResult` sends into
  it: it goes on when the slot is free or the request is closed, and waits otherwise. What
  `processResponse` does after it is the rest of the frame (`After`).

  Requests come and go: callers open them, read their results or not, close them on a timeout
  or a cancelled context, and `streamOut` ends its half. The server sends any frames in any
  order for any of them. `closeResult`'s body is one step here; `Stream.CloseOnce` has it in
  parts. What is reported for a value the pump refuses is in `Stream.Overrun`.

  - `loop_never_waits`: while a request without a pump gets at most one frame that brings it
    a result (`oneResult`), the loop can always go on.
  - `second_result_blocks`: as it is, a server that sends two has the loop wait for a caller
    that is not reading.
-/

import ValueRpc.Core.Credit
import ValueRpc.Core.PumpRun
import ValueRpc.Stream.CloseOnce

namespace ValueRpc.Client.ResultLoop

open ValueRpc.Core ValueRpc.Lib
open ValueRpc.Stream.CloseOnce (StreamKind)

variable {α : Type}

inductive Result (α : Type) where
  | pump (p : PumpRun.St α)
  | direct (buf : List (Value α))
  deriving DecidableEq, Repr

structure Rec (α : Type) where
  kind : StreamKind
  receiveCap : Nat
  result : Result α
  sendCredit : CreditGate
  getClosed : Bool
  putClosed : Bool
  done : Bool
  live : Bool
  results : Nat
  deriving DecidableEq, Repr

def newRequestCtx (kind : StreamKind) (receiveCap : Nat) (maxPending : Int) : Rec α :=
  ⟨kind, receiveCap, if kind.pumped then .pump (PumpRun.start maxPending) else .direct [], .new, false,
    false, false, true, 0⟩

/-- What `invokeUnary`, `GetStream`, `PutStream` and `Chat` make of the caller's `receiveCap`. -/
def channelCap (receiveCap : Nat) : StreamKind → Nat
  | .unary | .putStream => 1
  | .getStream => receiveCap
  | .chat => receiveCap + 1

namespace Rec

def closeResult (r : Rec α) : Rec α :=
  { r with
    done := true
    sendCredit := r.sendCredit.close
    result := match r.result with
      | .pump p => .pump { p with pump := p.pump.close }
      | .direct buf => .direct buf }

def close (r : Rec α) : Rec α :=
  closeResult { r with
    getClosed := true
    putClosed := true
    result := match r.result with
      | .pump p => .pump { p with pump := p.pump.stop }
      | .direct buf => .direct buf }

def tryGetClose (r : Rec α) : Rec α :=
  { closeResult { r with getClosed := true } with live := r.live && decide (r.kind = .chat) && !r.putClosed }

def tryPutClose (r : Rec α) : Rec α :=
  if r.kind = .putStream then { closeResult { r with putClosed := true } with live := false }
  else { r with putClosed := true, live := r.live && !r.getClosed }

/-- `notifyResult`: `none` while it waits. -/
def notifyResult (grow : Nat → Nat) (r : Rec α) (v : Value α) : Option (Rec α) :=
  match r.result with
  | .pump p => (PumpRun.step grow r.receiveCap p (.push v)).map fun p => { r with result := .pump p }
  | .direct buf =>
    if r.done then some r
    else if buf.length < r.receiveCap then some { r with result := .direct (buf ++ [v]) }
    else none

end Rec

inductive Frame (α : Type) where
  | functionResponse (v : Value α)
  | errorResponse
  | streamReady
  | streamValue (v : Value α)
  | streamEnd (v : Value α)
  | cancelRequest
  | streamCredit (n : Int)
  /-- Any other message type, or a StreamCredit without a number. -/
  | other
  deriving DecidableEq, Repr

/-- What `processResponse` does behind `notifyResult`. -/
inductive After where
  | nothing
  /-- `Close`, and delete the request. -/
  | finish
  | getClose
  deriving DecidableEq, Repr

def After.run (r : Rec α) : After → Rec α
  | .nothing => r
  | .finish => { r.close with live := false }
  | .getClose => r.tryGetClose

/-- `processResponse`: what goes to `notifyResult`, if anything, and what is done then. -/
def Frame.notifies : Frame α → Option (Value α × After)
  | .functionResponse v => some (if v.isData then v else .nil, .finish)
  | .streamReady => some (.nil, .nothing)
  | .streamValue v => if v.isData then some (v, .nothing) else none
  | .streamEnd v => if v.isData then some (v, .getClose) else none
  | _ => none

def Frame.plain (r : Rec α) : Frame α → Rec α
  | .errorResponse | .cancelRequest => { r.close with live := false }
  | .streamEnd _ => r.tryGetClose
  | .streamCredit n => if r.kind.gated then { r with sendCredit := r.sendCredit.grant n } else r
  | _ => r

inductive Loop (α : Type) where
  | idle
  | notifying (i : Nat) (v : Value α) (after : After)
  deriving DecidableEq, Repr

structure St (α : Type) where
  requests : List (Rec α)
  loop : Loop α
  deriving DecidableEq, Repr

inductive Ev (α : Type) where
  | begin (kind : StreamKind) (receiveCap : Nat) (maxPending : Int)
  /-- The loop reads a frame for a request. -/
  | frame (i : Nat) (f : Frame α)
  /-- And goes on in `notifyResult`. -/
  | notify
  | read (i : Nat)
  | pump (i : Nat) (e : PumpRun.Ev α)
  /-- A timeout, a cancelled context or a lost connection; the last deletes the request. -/
  | close (i : Nat) (delete : Bool)
  | putClose (i : Nat)
  deriving DecidableEq, Repr

def St.update (s : St α) (i : Nat) (r : Rec α) : St α := { s with requests := s.requests.modify i fun _ => r }

def start : St α := ⟨[], .idle⟩

def step (grow : Nat → Nat) (s : St α) : Ev α → Option (St α)
  | .begin kind receiveCap maxPending =>
    some { s with requests := s.requests ++ [newRequestCtx kind (channelCap receiveCap kind) maxPending] }
  | .frame i f =>
    match s.loop, s.requests[i]? with
    | .idle, some r =>
      if r.live then
        match f.notifies with
        | some (v, after) => some { s.update i { r with results := r.results + 1 } with loop := .notifying i v after }
        | none => some (s.update i (f.plain r))
      else some s
    | _, _ => none
  | .notify =>
    match s.loop with
    | .idle => none
    | .notifying i v after =>
      match s.requests[i]? with
      | none => none
      | some r => (r.notifyResult grow v).map fun r => { s.update i (after.run r) with loop := .idle }
  | .read i =>
    match s.requests[i]? with
    | some r =>
      match r.result with
      | .direct (_ :: rest) => some (s.update i { r with result := .direct rest })
      | _ => none
    | none => none
  | .pump i e =>
    match s.requests[i]? with
    | some r =>
      match r.result with
      | .pump p => (PumpRun.step grow r.receiveCap p e).map fun p => s.update i { r with result := .pump p }
      | .direct _ => none
    | none => none
  | .close i delete =>
    match s.requests[i]? with
    | some r => some (s.update i { r.close with live := r.live && !delete })
    | none => none
  | .putClose i =>
    match s.requests[i]? with
    | some r => some (s.update i r.tryPutClose)
    | none => none

def sys (grow : Nat → Nat) : Sys (St α) (Ev α) := ⟨fun s => s = start, step grow⟩

/-- `notifyResult` waits on a full channel of a request that is not closed. -/
def St.waits (s : St α) : Prop :=
  ∃ i v after r buf, s.loop = .notifying i v after ∧ s.requests[i]? = some r ∧ r.result = .direct buf ∧
    r.receiveCap ≤ buf.length ∧ r.done = false

/-- A request without a pump gets a first frame with a result and, open, no second one. -/
def oneResult (s : St α) : Ev α → Prop
  | .frame i f => ∀ r ∈ s.requests[i]?, r.kind.pumped = false → f.notifies.isSome = true → r.results = 0 ∨
      r.done = true
  | _ => True

instance [DecidableEq α] (s : St α) : (e : Ev α) → Decidable (oneResult s e)
  | .frame _ _ => inferInstanceAs (Decidable (∀ r ∈ _, _ → _ → _))
  | .begin _ _ _ | .notify | .read _ | .pump _ _ | .close _ _ | .putClose _ => .isTrue trivial

/-! ## A request's slot -/

def Rec.Shaped (r : Rec α) : Prop :=
  match r.result with
  | .pump _ => r.kind.pumped = true
  | .direct _ => r.kind.pumped = false ∧ r.receiveCap = 1

/-- What is in the slot of an open request, and the `n` that the loop still has for it, came
    with the one frame that brought a result. -/
def Rec.Room (r : Rec α) (n : Nat) : Prop :=
  r.done = true ∨
    match r.result with
    | .pump _ => True
    | .direct buf => r.results ≤ 1 ∧ buf.length + n ≤ r.results

variable {grow : Nat → Nat} {r r' : Rec α} {n : Nat}

theorem Rec.Shaped.closeResult (h : r.Shaped) : r.closeResult.Shaped := by
  unfold Rec.Shaped Rec.closeResult at *
  cases hr : r.result <;> simpa [hr] using h

theorem Rec.Shaped.close (h : r.Shaped) : r.close.Shaped := by
  refine Rec.Shaped.closeResult ?_
  unfold Rec.Shaped at *
  cases hr : r.result <;> simpa [hr] using h

theorem Rec.Shaped.tryGetClose (h : r.Shaped) : r.tryGetClose.Shaped :=
  Rec.Shaped.closeResult (r := { r with getClosed := true }) h

theorem Rec.Shaped.tryPutClose (h : r.Shaped) : r.tryPutClose.Shaped := by
  unfold Rec.tryPutClose
  split
  · exact Rec.Shaped.closeResult (r := { r with putClosed := true }) h
  · exact h

/-- A plain frame closes the request or leaves its slot. -/
theorem plain_ok (f : Frame α) (hs : r.Shaped) (hr : r.Room 0) : (f.plain r).Shaped ∧ (f.plain r).Room 0 := by
  cases f with
  | errorResponse => exact ⟨hs.close, .inl rfl⟩
  | cancelRequest => exact ⟨hs.close, .inl rfl⟩
  | streamEnd v => exact ⟨hs.tryGetClose, .inl rfl⟩
  | streamCredit n =>
    simp only [Frame.plain]
    split
    · exact ⟨hs, hr⟩
    · exact ⟨hs, hr⟩
  | _ => exact ⟨hs, hr⟩

theorem putClose_ok (hs : r.Shaped) (hr : r.Room n) : r.tryPutClose.Shaped ∧ r.tryPutClose.Room n := by
  refine ⟨hs.tryPutClose, ?_⟩
  unfold Rec.tryPutClose
  split
  · exact .inl rfl
  · exact hr

theorem after_ok (a : After) (hs : r.Shaped) (hr : r.Room 0) : (a.run r).Shaped ∧ (a.run r).Room 0 := by
  cases a with
  | nothing => exact ⟨hs, hr⟩
  | finish => exact ⟨hs.close, .inl rfl⟩
  | getClose => exact ⟨hs.tryGetClose, .inl rfl⟩

/-- The loop's value finds the slot free, or the request closed. -/
theorem notify_ok (grow : Nat → Nat) (v : Value α) (hs : r.Shaped) (hr : r.Room 1) :
    ∃ r', r.notifyResult grow v = some r' ∧ r'.Shaped ∧ r'.Room 0 := by
  unfold Rec.notifyResult
  cases hres : r.result with
  | pump p =>
    refine ⟨_, rfl, ?_, .inr trivial⟩
    unfold Rec.Shaped at hs ⊢
    rw [hres] at hs
    exact hs
  | direct buf =>
    cases hd : r.done with
    | true => exact ⟨r, rfl, hs, .inl hd⟩
    | false =>
      unfold Rec.Shaped at hs
      unfold Rec.Room at hr
      rw [hres] at hs hr
      simp only [hd, Bool.false_eq_true, false_or] at hr
      obtain ⟨h1, h2⟩ := hr
      obtain ⟨hk, hcap⟩ := hs
      refine ⟨{ r with result := .direct (buf ++ [v]) }, ?_, ⟨hk, hcap⟩, .inr ⟨h1, ?_⟩⟩
      · simp only [Bool.false_eq_true, if_false]
        rw [if_pos (by omega), hd]
      · simp only [List.length_append, List.length_singleton]
        omega

/-! ## Every run -/

def Loop.holds (i : Nat) : Loop α → Nat
  | .idle => 0
  | .notifying j _ _ => if j = i then 1 else 0

structure Inv (s : St α) : Prop where
  shaped : ∀ (i : Nat) (r : Rec α), s.requests[i]? = some r → r.Shaped
  room : ∀ (i : Nat) (r : Rec α), s.requests[i]? = some r → r.Room (s.loop.holds i)
  present : ∀ (i : Nat) (v : Value α) (a : After), s.loop = .notifying i v a → i < s.requests.length

variable {s t : St α} {e : Ev α}

/-- A step on one request, the loop being where it is or done with it. -/
theorem Inv.update (hi : Inv s) {i : Nat} {l : Loop α} (hs : r.Shaped) (hr : r.Room (l.holds i))
    (hl : l = s.loop ∨ l = .idle) : Inv { s.update i r with loop := l } := by
  have hother : ∀ (j : Nat) (r' : Rec α), s.requests[j]? = some r' → r'.Room (l.holds j) := by
    intro j r' hj
    rcases hl with rfl | rfl
    · exact hi.room j r' hj
    · refine (hi.room j r' hj).imp id fun h => ?_
      cases hres : r'.result with
      | pump p => trivial
      | direct buf =>
        rw [hres] at h
        exact ⟨h.1, by have := h.2; simp only [Loop.holds]; omega⟩
  refine ⟨fun j r' hj => ?_, fun j r' hj => ?_, fun j v a hj => ?_⟩
  · rcases modify_get hj with ⟨-, _, _, rfl⟩ | ⟨-, hj⟩
    · exact hs
    · exact hi.shaped j r' hj
  · rcases modify_get hj with ⟨rfl, _, _, rfl⟩ | ⟨-, hj⟩
    · exact hr
    · exact hother j r' hj
  · rcases hl with rfl | rfl
    · simpa [St.update] using hi.present j v a hj
    · cases hj

theorem shaped_new (kind : StreamKind) (receiveCap : Nat) (maxPending : Int) :
    (newRequestCtx kind (channelCap receiveCap kind) maxPending : Rec α).Shaped := by
  cases kind with
  | unary => exact ⟨rfl, rfl⟩
  | putStream => exact ⟨rfl, rfl⟩
  | getStream => exact (rfl : StreamKind.pumped .getStream = true)
  | chat => exact (rfl : StreamKind.pumped .chat = true)

theorem Inv.begin (hi : Inv s) (kind : StreamKind) (receiveCap : Nat) (maxPending : Int) :
    Inv { s with requests := s.requests ++ [newRequestCtx kind (channelCap receiveCap kind) maxPending] } := by
  refine ⟨fun j r hj => ?_, fun j r hj => ?_, fun j v a hj => ?_⟩
  · rcases append_get hj with hj | ⟨-, rfl⟩
    · exact hi.shaped j r hj
    · exact shaped_new kind receiveCap maxPending
  · rcases append_get hj with hj | ⟨rfl, rfl⟩
    · exact hi.room j r hj
    · -- the loop is not at a request that was not there
      have hzero : s.loop.holds s.requests.length = 0 := by
        cases hl : s.loop with
        | idle => rfl
        | notifying i v a =>
          have := hi.present i v a hl
          exact if_neg (by omega)
      dsimp only
      rw [hzero]
      exact .inr (by cases kind <;> first | trivial | exact ⟨Nat.zero_le _, Nat.le_refl _⟩)
  · have := hi.present j v a hj
    simp only [List.length_append]
    omega

/-- A frame with a result: the request counts it and the loop comes to `notifyResult`. -/
theorem Inv.notifying (hi : Inv s) {i : Nat} (v : Value α) (a : After) (hl : s.loop = .idle)
    (hg : s.requests[i]? = some r) (ho : r.kind.pumped = false → r.results = 0 ∨ r.done = true) :
    Inv { s.update i { r with results := r.results + 1 } with loop := .notifying i v a } := by
  have hs := hi.shaped i r hg
  have hr := hi.room i r hg
  rw [hl] at hr
  refine ⟨fun j r' hj => ?_, fun j r' hj => ?_, fun j w b hj => ?_⟩
  · rcases modify_get hj with ⟨-, _, _, rfl⟩ | ⟨-, hj⟩
    · exact hs
    · exact hi.shaped j r' hj
  · rcases modify_get hj with ⟨rfl, _, _, rfl⟩ | ⟨hij, hj⟩
    · cases hd : r.done with
      | true => exact .inl rfl
      | false =>
        refine .inr ?_
        unfold Rec.Shaped at hs
        unfold Rec.Room at hr
        simp only [hd, Bool.false_eq_true, false_or, or_false, Loop.holds, if_true] at hr ho ⊢
        cases hres : r.result with
        | pump p => trivial
        | direct buf =>
          rw [hres] at hr hs
          have h0 := ho hs.1
          obtain ⟨h1, h2⟩ := hr
          exact ⟨by omega, by omega⟩
    · have := hi.room j r' hj
      rw [hl] at this
      simpa [Loop.holds, hij] using this
  · cases hj
    simpa [St.update] using (List.getElem?_eq_some_iff.mp hg).1

theorem inv_step (hi : Inv s) (ho : oneResult s e) (h : step grow s e = some t) : Inv t := by
  cases e with
  | begin kind receiveCap maxPending => cases h; exact hi.begin kind receiveCap maxPending
  | frame i f =>
    simp only [step] at h
    split at h
    · rename_i r hl hg
      have hr : r.Room 0 := by
        have := hi.room i r hg
        rwa [hl] at this
      split at h
      · split at h
        · rename_i v a hn
          cases h
          exact hi.notifying v a hl hg fun hk => ho r hg hk (by rw [hn]; rfl)
        · cases h
          obtain ⟨hs', hr'⟩ := plain_ok f (hi.shaped i r hg) hr
          exact hi.update hs' (hl ▸ hr') (.inl rfl)
      · cases h
        exact hi
    · cases h
  | notify =>
    simp only [step] at h
    split at h
    · cases h
    · rename_i i v a hl
      split at h
      · cases h
      · rename_i r hg
        have hr : r.Room 1 := by
          have := hi.room i r hg
          rw [hl] at this
          simpa [Loop.holds] using this
        obtain ⟨r', hn, hs', hr'⟩ := notify_ok grow v (hi.shaped i r hg) hr
        rw [hn] at h
        cases h
        obtain ⟨hs', hr'⟩ := after_ok a hs' hr'
        exact hi.update hs' hr' (.inr rfl)
  | read i =>
    simp only [step] at h
    split at h
    · rename_i r hg
      split at h
      · rename_i v rest hres
        cases h
        have hs := hi.shaped i r hg
        have hr := hi.room i r hg
        unfold Rec.Shaped at hs
        unfold Rec.Room at hr
        rw [hres] at hs hr
        refine hi.update (l := s.loop) hs (hr.imp id fun h => ⟨h.1, ?_⟩) (.inl rfl)
        have := h.2
        simp only [List.length_cons] at this
        omega
      · cases h
    · cases h
  | pump i e =>
    simp only [step] at h
    split at h
    · rename_i r hg
      split at h
      · rename_i p hres
        obtain ⟨p', hp', rfl⟩ := Option.map_eq_some_iff.mp h
        have hs := hi.shaped i r hg
        unfold Rec.Shaped at hs
        rw [hres] at hs
        exact hi.update (l := s.loop) hs (.inr trivial) (.inl rfl)
      · cases h
    · cases h
  | close i delete =>
    simp only [step] at h
    split at h
    · rename_i r hg
      cases h
      exact hi.update (l := s.loop) (hi.shaped i r hg).close (.inl rfl) (.inl rfl)
    · cases h
  | putClose i =>
    simp only [step] at h
    split at h
    · rename_i r hg
      cases h
      obtain ⟨hs', hr'⟩ := putClose_ok (hi.shaped i r hg) (hi.room i r hg)
      exact hi.update hs' hr' (.inl rfl)
    · cases h

theorem inv_reach (h : (sys grow).Reach oneResult s) : Inv s := by
  refine h.inv (P := Inv) (fun s hs => ?_) fun _ _ _ hi ho hs => inv_step hi ho hs
  cases hs
  exact ⟨fun i r hr => (by cases hr), fun i r hr => (by cases hr), fun i v a hl => (by cases hl)⟩

/-- The loop never waits on a full channel, and can go on in every state. -/
theorem loop_never_waits (grow : Nat → Nat) (s : St α) (hr : (sys grow).Reach oneResult s) :
    ¬ s.waits ∧ (s.loop = .idle ∨ (step grow s .notify).isSome = true) := by
  have hi := inv_reach hr
  cases hl : s.loop with
  | idle =>
    refine ⟨fun ⟨i, v, a, r, buf, hn, _⟩ => ?_, .inl rfl⟩
    rw [hl] at hn
    cases hn
  | notifying i v a =>
    obtain ⟨r, hg⟩ : ∃ r, s.requests[i]? = some r := ⟨_, List.getElem?_eq_getElem (hi.present i v a hl)⟩
    have hroom : r.Room 1 := by
      have := hi.room i r hg
      rw [hl] at this
      simpa [Loop.holds] using this
    obtain ⟨r', hn, -⟩ := notify_ok grow v (hi.shaped i r hg) hroom
    refine ⟨fun ⟨j, w, b, q, buf, hlj, hq, hres, hfull, hopen⟩ => ?_, .inr (by simp [step, hl, hg, hn])⟩
    rw [hl] at hlj
    cases hlj
    cases hg.symm.trans hq
    simp [Rec.notifyResult, hres, hopen, Nat.not_lt.mpr hfull] at hn

/-- A unary call, a put-stream and a get-stream: each gets its frames, the get-stream two
    values that nobody reads, and the loop is in the middle of the last. -/
def legalFrames : List (Ev Nat) :=
  [.begin .unary 0 0, .begin .putStream 0 0, .begin .getStream 1 8, .frame 1 .streamReady, .notify,
    .frame 2 .streamReady, .notify,
    .frame 2 (.streamValue (.data 1)), .notify, .frame 2 (.streamValue (.data 2)), .notify, .frame 1 (.streamCredit 8),
    .frame 0 (.functionResponse (.data 7))]

theorem loop_never_waits_legalFrames : ∃ s : St Nat, (sys id).Reach oneResult s ∧
    s.loop = .notifying 0 (.data 7) .finish ∧ ¬ s.waits ∧ (step id s .notify).isSome = true := by
  obtain ⟨s, hr, hl⟩ := (sys id).reach_of_exec oneResult (start : St Nat) rfl legalFrames
    (P := fun s => s.loop = .notifying 0 (.data 7) .finish) (by decide +kernel)
  obtain ⟨hw, hstep⟩ := loop_never_waits id s hr
  exact ⟨s, hr, hl, hw, hstep.resolve_left (by rw [hl]; simp)⟩

/-- A unary call whose caller is not at its receive gets two StreamReady. -/
theorem second_result_blocks :
    ∃ s : St Nat, (sys id).Reach Sys.any s ∧ s.waits ∧ step id s .notify = none := by
  obtain ⟨s, hr, hl, hg, hn⟩ := (sys id).reach_of_exec Sys.any (start : St Nat) rfl
    [.begin .unary 0 0, .frame 0 .streamReady, .notify, .frame 0 .streamReady]
    (P := fun s => s.loop = .notifying 0 .nil .nothing ∧
      s.requests[0]? = some ⟨.unary, 1, .direct [.nil], .new, false, false, false, true, 2⟩ ∧ step id s .notify = none)
    (by decide +kernel)
  exact ⟨s, hr, ⟨0, _, _, _, [.nil], hl, hg, rfl, Nat.le_refl 1, rfl⟩, hn⟩

end ValueRpc.Client.ResultLoop
