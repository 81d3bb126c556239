/-
  ValueRpc.Quic.Delivery — what the core writes on QUIC, and what the peer's core reads.

  The transport closes a write half when it takes a frame for a side's last (`finOnWrite`), and
  the table does not fit the cores: a put-stream's server grants credit behind StreamReady, a
  chat's client grants credit behind its own StreamEnd, and no stream is ever opened for an
  exchange the server starts. Such a frame is swallowed or refused though the exchange is open
  on the peer (`swallowed_while_open`).

  Where a core passes nothing behind a frame the table takes for the last, and the server starts
  no exchange (`inTurn`; a frame for an exchange that is over on the peer is free):
  - `Delivered`: only frames of an exchange that is over on the peer are lost; the others are
    returned by the peer's `ReadMessage` once and in order, or are still on their way.
  - `delivers`: in every run, and the transport by itself then brings all of them there.

  `Carried` is the invariant. `Quiet` is what most steps do to it: nothing moves between the
  places a frame can be in. The four others are the call, the loss, the write and the read.
-/

import ValueRpc.Quic.Steps

namespace ValueRpc.Quic

open Function ValueRpc.Lib
open ValueRpc.Core (MessageType)

variable {α : Type} {s t : St α} {d : Side} {sid : Nat} {rid : Int} {m : Frame α} {rt mt : MessageType} {e : Ev α}
  {body : α}

/-! ## Where a frame can be -/

def Reader.pending : Reader α → List (Frame α)
  | .funneling m => [m]
  | _ => []

def St.onWay (s : St α) (d : Side) (sid : Nat) : List (Frame α) :=
  (s.states (d.peer, sid)).reader.pending ++ (s.halves (d, sid)).frames

def St.inFlight (s : St α) (d : Side) (rid : Int) : List (Frame α) :=
  match s.home rid with
  | some sid => s.onWay d sid
  | none => []

/-- What `WriteMessage` was called with and has not written. -/
def St.toWrite (s : St α) (d : Side) (rid : Int) : List (Frame α) :=
  match (s.writer d).todo with
  | some (_, m) => if m.rid = rid then [m] else []
  | none => []

def Frame.call (m : Frame α) : MessageType × α := (m.mt, m.body)

/-- The side passes nothing behind a frame the transport takes for its last, and the exchange is
    the client's; but where it is over on the peer, anything. -/
def inTurn (s : St α) : Ev α → Bool
  | .pass d rid _ _ => s.finished (d.peer, rid) || decide (0 ≤ rid) && !s.closing d rid
  | _ => true

/-! ## The invariant -/

structure Carried (s : St α) : Prop where
  base : Base s
  /-- A call that has not written yet is on the exchange's stream, and the half is open. -/
  busy : ∀ d sid m, (s.writer d).todo = some (sid, m) → s.finished (d.peer, m.rid) = true ∨
    s.home m.rid = some sid ∧ (s.states (d, sid)).writeClosed = false
  lost : ∀ d m b, (d, m, b) ∈ s.lost → b = true
  astray : ∀ d sid m, m ∈ s.onWay d sid → s.home m.rid ≠ some sid → s.finished (d.peer, m.rid) = true ∧ m.due = false
  order : ∀ d rid, (s.written (d, rid)).filter (·.due) = (s.returned (d, rid) ++ s.inFlight d rid).filter (·.due)
  whole : ∀ d rid, s.finished (d.peer, rid) = false →
    s.called (d, rid) = (s.returned (d, rid) ++ s.inFlight d rid ++ s.toWrite d rid).map Frame.call

theorem carried_start : Carried (start : St α) where
  base := base_start
  busy := by simp [start, Writer.todo]
  lost := by simp [start]
  astray := by simp [start, St.onWay, noStream, Reader.pending]
  order := by simp [start, St.inFlight]
  whole := by simp [start, St.inFlight, St.toWrite, Writer.todo]

structure Quiet (s t : St α) : Prop where
  onWay : ∀ d sid, t.onWay d sid = s.onWay d sid
  todo : ∀ d, (t.writer d).todo = (s.writer d).todo
  finished : ∀ p, s.finished p = true → t.finished p = true
  home : t.home = s.home
  called : t.called = s.called
  written : t.written = s.written
  returned : t.returned = s.returned
  lost : t.lost = s.lost
  closed : ∀ d sid m, (s.writer d).todo = some (sid, m) → (t.states (d, sid)).writeClosed = true →
    (s.states (d, sid)).writeClosed = true ∨ s.finished (d.peer, m.rid) = true

theorem Carried.quiet (h : Carried s) (hb : Base t) (hq : Quiet s t) : Carried t := by
  have hflight (d : Side) (rid : Int) : t.inFlight d rid = s.inFlight d rid := by
    simp only [St.inFlight, hq.home, hq.onWay]
  have htodo (d : Side) (rid : Int) : t.toWrite d rid = s.toWrite d rid := by
    simp only [St.toWrite, hq.todo]
  refine ⟨hb, fun d sid m hm => ?_, ?_, fun d sid m hm hne => ?_, fun d rid => ?_, fun d rid ho => ?_⟩
  · rw [hq.todo] at hm
    rw [hq.home]
    rcases h.busy d sid m hm with ho | ⟨hh, hc⟩
    · exact .inl (hq.finished _ ho)
    · by_cases hc' : (t.states (d, sid)).writeClosed = true
      · rcases hq.closed d sid m hm hc' with hc' | ho
        · rw [hc] at hc'; cases hc'
        · exact .inl (hq.finished _ ho)
      · exact .inr ⟨hh, Bool.eq_false_iff.mpr hc'⟩
  · rw [hq.lost]; exact h.lost
  · rw [hq.onWay] at hm
    rw [hq.home] at hne
    obtain ⟨ho, hd⟩ := h.astray d sid m hm hne
    exact ⟨hq.finished _ ho, hd⟩
  · rw [hq.written, hq.returned, hflight]
    exact h.order d rid
  · have ho : s.finished (d.peer, rid) = false := Bool.eq_false_iff.mpr fun hs => by
      rw [hq.finished _ hs] at ho
      cases ho
    rw [hq.called, hq.returned, hflight, htodo]
    exact h.whole d rid ho

/-! ## The quiet steps -/

/-- Only one end of one stream changed, and what is in front of its reader. -/
theorem quiet_end (d : Side) (sid : Nat)
    (hrest : t = { s with accepted := t.accepted, states := t.states, halves := t.halves, streams := t.streams })
    (hs : ∀ p, p ≠ (d, sid) → t.states p = s.states p) (hh : ∀ p, p ≠ (d.peer, sid) → t.halves p = s.halves p)
    (hc : (t.states (d, sid)).writeClosed = (s.states (d, sid)).writeClosed)
    (hd : t.onWay d.peer sid = s.onWay d.peer sid) : Quiet s t where
  onWay e k := by
    by_cases he : (e, k) = (d.peer, sid)
    · cases he; exact hd
    · have hp : (e.peer, k) ≠ (d, sid) := by
        rintro ⟨⟩
        exact he (by rw [Side.peer_peer])
      simp only [St.onWay, hs _ hp, hh _ he]
  todo e := congrArg (fun w => (w e).todo) (congrArg St.writer hrest :)
  finished p ho := by rw [show t.finished = s.finished from (congrArg St.finished hrest :)]; exact ho
  home := (congrArg St.home hrest :)
  called := (congrArg St.called hrest :)
  written := (congrArg St.written hrest :)
  returned := (congrArg St.returned hrest :)
  lost := (congrArg St.lost hrest :)
  closed e k m _ hc' := by
    by_cases he : (e, k) = (d, sid)
    · rw [he] at hc' ⊢
      exact .inl (hc ▸ hc')
    · rw [hs _ he] at hc'
      exact .inl hc'

theorem quiet_core (ho : ∀ p, s.finished p = true → t.finished p = true)
    (hrest : t = { s with
      lastRequest := t.lastRequest, lastServerRequest := t.lastServerRequest, kinds := t.kinds, finished := t.finished,
      retired := t.retired }) : Quiet s t := by
  rw [hrest]
  exact ⟨fun _ _ => rfl, fun _ => rfl, ho, rfl, rfl, rfl, rfl, rfl, fun _ _ _ _ hc => .inl hc⟩

theorem finWrite_onWay (s : St α) (d : Side) (sid : Nat) (e : Side) (k : Nat) :
    (s.finWrite d sid).onWay e k = s.onWay e k := by
  unfold St.finWrite St.onWay
  dsimp only
  split
  · rfl
  · grind

/-- The close of a half, where no call is about to write there. -/
theorem quiet_finWrite (s : St α) (d : Side) (sid : Nat)
    (hc : ∀ m, (s.writer d).todo = some (sid, m) → s.finished (d.peer, m.rid) = true) :
    Quiet s (s.finWrite d sid) := by
  have honway := finWrite_onWay s d sid
  unfold St.finWrite at honway ⊢
  dsimp only at honway ⊢
  split
  · exact ⟨fun _ _ => rfl, fun _ => rfl, fun _ ho => ho, rfl, rfl, rfl, rfl, rfl, fun _ _ _ _ hc' => .inl hc'⟩
  · rename_i hopen
    rw [if_neg hopen] at honway
    refine ⟨honway, fun _ => rfl, fun _ ho => ho, rfl, rfl, rfl, rfl, rfl, fun e k m hm hc' => ?_⟩
    by_cases he : (e, k) = (d, sid)
    · cases he
      exact .inr (hc m hm)
    · dsimp only at hc'
      rw [update_of_ne he] at hc'
      exact .inl hc'

theorem Quiet.trans {u : St α} (h : Quiet s t) (h' : Quiet t u) (ho : t.finished = s.finished) :
    Quiet s u where
  onWay d sid := (h'.onWay d sid).trans (h.onWay d sid)
  todo d := (h'.todo d).trans (h.todo d)
  finished p hp := h'.finished p (h.finished p hp)
  home := h'.home.trans h.home
  called := h'.called.trans h.called
  written := h'.written.trans h.written
  returned := h'.returned.trans h.returned
  lost := h'.lost.trans h.lost
  closed d sid m hm hc := by
    rcases h'.closed d sid m ((h.todo d).trans hm) hc with hc' | ho'
    · exact h.closed d sid m hm hc'
    · exact .inr (ho ▸ ho')

theorem quiet_setWriter (s : St α) {w : Writer α} (hw : w.todo = (s.writer d).todo) :
    Quiet s (s.setWriter d w) := by
  refine ⟨fun _ _ => rfl, fun e => ?_, fun _ ho => ho, rfl, rfl, rfl, rfl, rfl, fun _ _ _ _ hc => .inl hc⟩
  simp only [St.setWriter, update_apply]
  split
  · rename_i he
    rw [he, hw]
  · rfl

/-- A reader that moves on, with the frame it holds still to be returned or already returned. -/
theorem quiet_reader (s : St α) (d : Side) (sid : Nat) {r : Reader α}
    (hr : r.pending = (s.states (d, sid)).reader.pending) :
    Quiet s (s.setState d sid { s.states (d, sid) with reader := r }) := by
  refine quiet_end d sid rfl (fun p hp => update_of_ne hp ..) (fun _ _ => rfl) ?_ ?_
  · simp only [St.setState, update_self]
  · simp only [St.onWay, St.setState, Side.peer_peer, update_self, hr]

theorem quiet_finish (hw : s.writer d = .wrote sid m rt) :
    Quiet s ((if finOnWrite d m.mt rt then s.finWrite d sid else s).setWriter d .idle) := by
  have htodo : (s.writer d).todo = none := by rw [hw]; rfl
  split
  · refine (quiet_finWrite s d sid fun x hx => by rw [htodo] at hx; cases hx).trans (quiet_setWriter _ ?_) ?_
    · rw [finWrite_writer, htodo]; rfl
    · unfold St.finWrite
      dsimp only
      split <;> rfl
  · exact quiet_setWriter s htodo.symm

theorem quiet_resume (h : Base s) (hr : (s.states (d, sid)).reader = .funneled m) :
    Quiet s (if d = .client ∧ finOnRead m.mt (s.states (d, sid)).reqType = true then
      (s.setState d sid { s.states (d, sid) with reader := .idle }).finWrite d sid
    else s.setState d sid { s.states (d, sid) with reader := .idle }) := by
  have hq := quiet_reader s d sid (r := .idle) (by rw [hr]; rfl)
  split
  · rename_i hf
    obtain ⟨rfl, hf⟩ := hf
    refine hq.trans (quiet_finWrite _ _ _ fun x hx => ?_) rfl
    obtain ⟨y, hy⟩ := job_of_todo hx
    rw [(h.writer .client sid x y hy).2.1]
    exact h.over_of_finOnRead hr hf
  · exact hq

theorem register_over (s : St α) (d : Side) (sid : Nat) (m : Frame α) :
    (s.register d sid m).finished = s.finished := by
  unfold St.register
  dsimp only
  split <;> rfl

theorem quiet_register (s : St α) (d : Side) (sid : Nat) (m : Frame α) : Quiet s (s.register d sid m) := by
  unfold St.register
  dsimp only
  split
  · exact quiet_end d sid rfl (fun _ _ => rfl) (fun _ _ => rfl) rfl rfl
  · refine quiet_end d sid rfl (fun p hp => update_of_ne hp ..) (fun _ _ => rfl) ?_ ?_
    · simp only [update_self]
    · simp only [St.onWay, Side.peer_peer, update_self]

theorem quiet_take (s : St α) {rest : List (Frame α)} (hr : (s.states (d, sid)).reader = .idle)
    (hf : (s.halves (d.peer, sid)).frames = m :: rest) :
    Quiet s { s.setState d sid { s.states (d, sid) with reader := .funneling m } with
      halves := update s.halves (d.peer, sid) { s.halves (d.peer, sid) with frames := rest } } := by
  refine quiet_end d sid rfl (fun p hp => update_of_ne hp ..) (fun p hp => update_of_ne hp ..) ?_ ?_
  · simp only [St.setState, update_self]
  · simp only [St.onWay, St.setState, Side.peer_peer, update_self, hr, hf, Reader.pending]
    rfl

theorem quiet_markRemoteDone (s : St α) (hr : (s.states (d, sid)).reader = .idle) :
    Quiet s (s.markRemoteDone d sid) := by
  refine quiet_end d sid rfl (fun p hp => update_of_ne hp ..) (fun _ _ => rfl) ?_ ?_
  · simp only [St.markRemoteDone, update_self]
  · simp only [St.onWay, St.markRemoteDone, Side.peer_peer, update_self, hr, Reader.pending]

theorem quiet_accept (h : Base s) :
    Quiet s { s.setState .server s.accepted ⟨0, .handshakeRequest, false, false, false, .idle⟩ with
      accepted := s.accepted + 1 } := by
  have hnone := h.unaccepted s.accepted (Nat.le_refl _)
  refine quiet_end .server s.accepted rfl (fun p hp => update_of_ne hp ..) (fun _ _ => rfl) ?_ ?_
  · simp only [St.setState, update_self, hnone, noStream]
  · simp only [St.onWay, St.setState, Side.peer_peer, update_self, hnone, noStream, Reader.pending]

/-! ## The call, the loss, the write and the read -/

theorem toWrite_of_idle (hw : s.writer d = .idle) (rid : Int) : s.toWrite d rid = [] := by
  simp only [St.toWrite, hw, Writer.todo]

theorem toWrite_of_todo (ht : (s.writer d).todo = some (sid, m)) (rid : Int) :
    s.toWrite d rid = if m.rid = rid then [m] else [] := by
  simp only [St.toWrite, ht]

/-- A write is on the exchange's stream unless the exchange is over on the peer. -/
theorem Carried.due_home (h : Carried s) (ht : (s.writer d).todo = some (sid, m))
    (ho : s.finished (d.peer, m.rid) = false) : s.home m.rid = some sid := by
  rcases h.busy d sid m ht with ho' | ⟨hh, -⟩
  · rw [ho] at ho'; cases ho'
  · exact hh

theorem Carried.swallow (h : Carried s) (hb : Base (s.lose d m)) (ht : (s.writer d).todo = some (sid, m))
    (hc : (s.states (d, sid)).writeClosed = true) : Carried (s.lose d m) := by
  have hover : s.finished (d.peer, m.rid) = true := (h.busy d sid m ht).resolve_right fun hx => by
    rw [hc] at hx
    cases hx.2
  have hwriter (e : Side) (he : e ≠ d) : (s.lose d m).writer e = s.writer e := update_of_ne he ..
  have hidle : (s.lose d m).writer d = .idle := update_self ..
  refine ⟨hb, fun e k x hx => ?_, fun e x b hx => ?_, h.astray, h.order, fun e r ho => ?_⟩
  · by_cases he : e = d
    · rw [he, hidle] at hx
      cases hx
    · rw [hwriter e he] at hx
      exact h.busy e k x hx
  · rcases List.mem_append.mp hx with hx | hx
    · exact h.lost e x b hx
    · cases List.mem_singleton.mp hx
      exact hover
  · refine (h.whole e r ho).trans (congrArg (List.map Frame.call) (congrArg _ ?_))
    by_cases he : e = d
    · subst he
      rw [toWrite_of_idle hidle, toWrite_of_todo ht, if_neg]
      rintro rfl
      rw [show s.finished (e.peer, m.rid) = false from ho] at hover
      cases hover
    · simp only [St.toWrite, hwriter e he]

theorem writeFrame_onWay (s : St α) (d : Side) (sid : Nat) (m : Frame α) (rt : MessageType) (e : Side)
    (k : Nat) :
    (s.writeFrame d sid m rt).onWay e k =
      if (e, k) = (d, sid) then s.onWay d sid ++ [{ m with due := !s.finished (d.peer, m.rid) }] else s.onWay e k := by
  simp only [St.onWay, St.writeFrame, St.setWriter, update_apply]
  split
  · rename_i he
    cases he
    simp
  · rfl

/-- What the write puts on its way. -/
theorem writeFrame_inFlight (h : Base s) (hw : s.writer d = .clear sid m rt) (e : Side) (r : Int) :
    (s.writeFrame d sid m rt).inFlight e r =
      if (e, r) = (d, m.rid) ∧ s.home r = some sid then s.inFlight e r ++
        [{ m with due := !s.finished (d.peer, m.rid) }]
      else s.inFlight e r := by
  have hrid := (h.writer d sid m rt (by rw [hw]; rfl)).2.1
  have hhome : (s.writeFrame d sid m rt).home = s.home := rfl
  simp only [St.inFlight, hhome]
  cases hk : s.home r with
  | none => simp
  | some k =>
    simp only [writeFrame_onWay, Option.some.injEq]
    by_cases he : (e, k) = (d, sid)
    · cases he
      have hr : r = m.rid := by rw [hrid]; exact (h.home r sid hk).2.1.symm
      rw [if_pos rfl, if_pos ⟨by rw [hr], rfl⟩]
    · rw [if_neg he, if_neg]
      rintro ⟨hx, rfl⟩
      cases hx
      exact he rfl

theorem Carried.write (h : Carried s) (hb : Base (s.writeFrame d sid m rt))
    (hw : s.writer d = .clear sid m rt) : Carried (s.writeFrame d sid m rt) := by
  have ht : (s.writer d).todo = some (sid, m) := by rw [hw]; rfl
  have hwriter (e : Side) (he : e ≠ d) : (s.writeFrame d sid m rt).writer e = s.writer e := update_of_ne he ..
  have hnone : ((s.writeFrame d sid m rt).writer d).todo = none := by
    rw [show (s.writeFrame d sid m rt).writer d = .wrote sid { m with due := !s.finished (d.peer, m.rid) } rt from
      update_self ..]
    rfl
  refine ⟨hb, fun e k x hx => ?_, h.lost, fun e k x hx hne => ?_, fun e r => ?_, fun e r ho => ?_⟩
  · by_cases he : e = d
    · rw [he, hnone] at hx
      cases hx
    · rw [hwriter e he] at hx
      exact h.busy e k x hx
  · rw [writeFrame_onWay] at hx
    split at hx
    · rename_i he
      cases he
      rcases List.mem_append.mp hx with hx | hx
      · exact h.astray _ _ x hx hne
      · cases List.mem_singleton.mp hx
        have ho : s.finished (d.peer, m.rid) = true := by
          by_contra ho
          exact hne (h.due_home (m := m) ht (Bool.eq_false_iff.mpr ho))
        exact ⟨ho, by simp [ho]⟩
    · exact h.astray e k x hx hne
  · rw [writeFrame_inFlight h.base hw]
    have hwritten : (s.writeFrame d sid m rt).written = update s.written (d, m.rid)
      (s.written (d, m.rid) ++ [{ m with due := !s.finished (d.peer, m.rid) }]) := rfl
    rw [hwritten, update_apply]
    by_cases he : (e, r) = (d, m.rid)
    · obtain ⟨rfl, rfl⟩ := Prod.mk.inj he
      rw [if_pos rfl, List.filter_append, h.order]
      split
      · rw [show (s.writeFrame e sid m rt).returned = s.returned from rfl]
        simp only [List.filter_append, List.append_assoc]
      · -- the exchange is over on the peer, or the write were on its stream
        rename_i hn
        have ho : s.finished (e.peer, m.rid) = true := by
          by_contra ho
          exact hn ⟨rfl, h.due_home ht (Bool.eq_false_iff.mpr ho)⟩
        rw [List.filter_singleton, ho]
        exact List.append_nil _
    · rw [if_neg he, if_neg fun hx => he hx.1]
      exact h.order e r
  · have hcalled : (s.writeFrame d sid m rt).called = s.called := rfl
    have hreturned : (s.writeFrame d sid m rt).returned = s.returned := rfl
    rw [writeFrame_inFlight h.base hw, hcalled, hreturned, h.whole e r ho]
    by_cases he : e = d
    · subst he
      rw [toWrite_of_todo ht, St.toWrite, hnone]
      by_cases hr : m.rid = r
      · subst hr
        rw [if_pos rfl, if_pos ⟨rfl, h.due_home ht ho⟩]
        simp [Frame.call]
      · rw [if_neg hr, if_neg]
        rintro ⟨hx, -⟩
        exact hr (Prod.mk.inj hx).2.symm
    · rw [if_neg fun hx => he (Prod.mk.inj hx.1).1]
      simp only [St.toWrite, hwriter e he]

def St.returns (s : St α) (d : Side) (sid : Nat) (m : Frame α) (b : Bool) : St α :=
  { s.setState d sid { s.states (d, sid) with reader := .funneled m } with
    returned := update s.returned (d.peer, m.rid) (s.returned (d.peer, m.rid) ++ [m])
    finished := update s.finished (d, m.rid) (s.finished (d, m.rid) || b) }

theorem returns_onWay (hr : (s.states (d, sid)).reader = .funneling m) (b : Bool) :
    s.onWay d.peer sid = m :: (s.returns d sid m b).onWay d.peer sid ∧
      ∀ e k, (e, k) ≠ (d.peer, sid) → (s.returns d sid m b).onWay e k = s.onWay e k := by
  constructor
  · simp only [St.onWay, St.returns, St.setState, Side.peer_peer, update_self, hr, Reader.pending]
    rfl
  · intro e k he
    have hp : (e.peer, k) ≠ (d, sid) := by
      rintro ⟨⟩
      exact he (by rw [Side.peer_peer])
    simp only [St.onWay, St.returns, St.setState, update_of_ne hp]

theorem returns_over (s : St α) (b : Bool) (p : Side × Int) (hp : s.finished p = true) :
    (s.returns d sid m b).finished p = true := update_or_true hp

theorem returns_inFlight (h : Base s) (hr : (s.states (d, sid)).reader = .funneling m) (b : Bool) {e : Side}
    {r : Int} (hne : ¬ ((e, r) = (d.peer, m.rid) ∧ s.home m.rid = some sid)) :
    (s.returns d sid m b).inFlight e r = s.inFlight e r := by
  have hrid : m.rid = (s.states (.client, sid)).rid :=
    (h.frames d.peer sid m (.inr (by rw [Side.peer_peer, hr]; exact List.mem_singleton_self _))).1
  have hhome : (s.returns d sid m b).home = s.home := rfl
  simp only [St.inFlight, hhome]
  cases hk : s.home r with
  | none => rfl
  | some k =>
    refine (returns_onWay hr b).2 e k fun he => hne ?_
    obtain ⟨rfl, rfl⟩ := Prod.mk.inj he
    have : r = m.rid := by rw [hrid]; exact (h.home r k hk).2.1.symm
    exact ⟨by rw [this], this ▸ hk⟩

/-- On the exchange's stream the frame goes from its way to what was returned. -/
theorem returns_account (h : Base s) (hr : (s.states (d, sid)).reader = .funneling m) (b : Bool) {e : Side}
    {r : Int} (hh : (e, r) = (d.peer, m.rid) → s.home m.rid = some sid) :
    (s.returns d sid m b).returned (e, r) ++ (s.returns d sid m b).inFlight e r =
      s.returned (e, r) ++ s.inFlight e r := by
  have hreturned : (s.returns d sid m b).returned =
      update s.returned (d.peer, m.rid) (s.returned (d.peer, m.rid) ++ [m]) := rfl
  rw [hreturned]
  by_cases he : (e, r) = (d.peer, m.rid)
  · obtain ⟨rfl, rfl⟩ := Prod.mk.inj he
    have hhome := hh rfl
    rw [update_self, St.inFlight, St.inFlight, show (s.returns d sid m b).home = s.home from rfl, hhome]
    dsimp only
    rw [(returns_onWay hr b).1, List.append_assoc, List.singleton_append]
  · rw [update_of_ne he, returns_inFlight h hr b fun hx => he hx.1]

theorem Carried.read (h : Carried s) (b : Bool) (hr : (s.states (d, sid)).reader = .funneling m)
    (hb : Base (s.returns d sid m b)) : Carried (s.returns d sid m b) := by
  have hway := returns_onWay hr b
  -- a frame on another stream is one the exchange was over for
  have hastray (hn : s.home m.rid ≠ some sid) : s.finished (d, m.rid) = true ∧ m.due = false := by
    have := h.astray d.peer sid m (by rw [hway.1]; exact List.mem_cons_self) hn
    rwa [Side.peer_peer] at this
  refine ⟨hb, fun e k x hx => ?_, h.lost, fun e k x hx hne => ?_, fun e r => ?_, fun e r ho => ?_⟩
  · refine (h.busy e k x hx).imp (returns_over s b _) fun ⟨hh, hc⟩ => ⟨hh, ?_⟩
    simp only [St.returns, St.setState, update_apply]
    split
    · rename_i he
      rw [he] at hc
      exact hc
    · exact hc
  · have hx' : x ∈ s.onWay e k := by
      by_cases he : (e, k) = (d.peer, sid)
      · obtain ⟨rfl, rfl⟩ := Prod.mk.inj he
        rw [hway.1]
        exact List.mem_cons_of_mem _ hx
      · rwa [hway.2 e k he] at hx
    obtain ⟨ho, hd⟩ := h.astray e k x hx' hne
    exact ⟨returns_over s b _ ho, hd⟩
  · rw [show (s.returns d sid m b).written = s.written from rfl, h.order e r]
    by_cases hh : (e, r) = (d.peer, m.rid) → s.home m.rid = some sid
    · rw [returns_account h.base hr b hh]
    · obtain ⟨he, hn⟩ := Classical.not_imp.mp hh
      rw [returns_inFlight h.base hr b fun hx => hn hx.2, he]
      simp [St.returns, (hastray hn).2]
  · have ho' : s.finished (e.peer, r) = false := Bool.eq_false_iff.mpr fun hx => by
      rw [returns_over s b _ hx] at ho
      cases ho
    have hh : (e, r) = (d.peer, m.rid) → s.home m.rid = some sid := fun he => by
      by_contra hn
      obtain ⟨rfl, rfl⟩ := Prod.mk.inj he
      rw [Side.peer_peer, (hastray hn).1] at ho'
      cases ho'
    rw [returns_account h.base hr b hh]
    exact h.whole e r ho'

/-- Where the side passed nothing the transport takes for its last, its half is open. -/
theorem Base.half_open (h : Base s) (hk : s.home rid = some sid) (ho : s.finished (d.peer, rid) = false)
    (hp : s.closing d rid = false) : (s.states (d, sid)).writeClosed = false := by
  obtain ⟨-, hrid, kind, hkind, hreq⟩ := h.home rid sid hk
  refine Bool.eq_false_iff.mpr fun hc => ?_
  suffices hx : ∃ mt ∈ s.passed (d, rid), finOnWrite d mt kind.request = true by
    rw [(closing_iff hkind).mpr hx] at hp
    cases hp
  cases d with
  | client =>
    rcases h.closedClient sid hc with ⟨mt, hmem, hmt⟩ | hover
    · exact ⟨mt, hrid ▸ hmem, by simpa [finOnWrite] using hmt⟩
    · rw [hrid, show s.finished (.server, rid) = false from ho] at hover
      cases hover
  | server =>
    obtain ⟨mt, hmem, hf⟩ := h.closedServer sid hc
    exact ⟨mt, hrid ▸ hmem, hreq ▸ hf⟩

/-- While the half is open the entry leads to the exchange's stream. -/
theorem Base.entry_of_open (h : Base s) (hl : legal s d rid mt = true) (hr : 0 ≤ rid)
    (hk : s.home rid = some sid) (hc : (s.states (d, sid)).writeClosed = false) :
    s.streams (d, rid) = some sid := by
  cases d with
  | client =>
    refine (h.clientEntry rid sid hk).resolve_right fun hx => ?_
    rw [hc] at hx
    cases hx.1
  | server =>
    obtain ⟨k, hk', hreg⟩ := h.home_of_legal hl hr
    rw [hk] at hk'
    cases hk'
    refine (h.serverEntry rid sid hk hreg).resolve_right fun hx => ?_
    rw [hc] at hx
    cases hx

/-- What a call leaves: the frame at the writer, or lost. -/
structure Called (d : Side) (rid : Int) (mt : MessageType) (body : α) (s t : St α) : Prop where
  onWay : ∀ e k, t.onWay e k = s.onWay e k
  inFlight : ∀ e r, t.inFlight e r = s.inFlight e r
  home : ∀ r k, s.home r = some k → t.home r = some k
  finished : ∀ p, s.finished p = true → t.finished p = true
  written : t.written = s.written
  returned : t.returned = s.returned
  called : t.called = update s.called (d, rid) (s.called (d, rid) ++ [(mt, body)])
  others : ∀ e, e ≠ d → t.writer e = s.writer e ∧ ∀ k, (t.states (e, k)).writeClosed = (s.states (e, k)).writeClosed
  result : (∃ sid, (t.writer d).todo = some (sid, ⟨mt, rid, body, false⟩) ∧ t.lost = s.lost ∧
      (s.finished (d.peer, rid) = true ∨ t.home rid = some sid ∧ (t.states (d, sid)).writeClosed = false)) ∨
    (t.writer d = .idle ∧ t.lost = s.lost ++ [(d, ⟨mt, rid, body, false⟩, true)] ∧ s.finished (d.peer, rid) = true)

theorem passing_over (s : St α) (d : Side) (rid : Int) (mt : MessageType) (p : Side × Int)
    (hp : s.finished p = true) :
    (s.passing d rid mt).finished p = true := update_or_true hp

theorem passing_over_peer (s : St α) (d : Side) (rid : Int) (mt : MessageType) :
    (s.passing d rid mt).finished (d.peer, rid) = s.finished (d.peer, rid) := update_of_ne (by simp) ..

theorem opens_onWay (h : Base s) (hs : s.streams (.client, rid) = none) (e : Side) (k : Nat) :
    (s.call .client rid mt body).onWay e k = s.onWay e k := by
  rw [call_opens hs]
  simp only [St.onWay, St.setWriter, St.openStream, update_apply]
  split
  · rename_i he
    obtain ⟨he, rfl⟩ := Prod.mk.inj he
    rw [he, show (s.passing .client rid mt).opened = s.opened from rfl, (h.fresh _ s.opened (Nat.le_refl _)).1]
    rfl
  · rfl

theorem opens_inFlight (h : Base s) (hs : s.streams (.client, rid) = none) (e : Side) (r : Int) :
    (s.call .client rid mt body).inFlight e r = s.inFlight e r := by
  have hfresh : s.onWay e s.opened = [] := by
    simp only [St.onWay, (h.fresh _ s.opened (Nat.le_refl _)).1, (h.fresh e s.opened (Nat.le_refl _)).2, noStream,
      Reader.pending, List.append_nil]
  simp only [St.inFlight, opens_onWay h hs, opens_home hs]
  by_cases hn : s.home rid = none
  · rw [if_pos hn]
    by_cases hr : r = rid
    · subst hr
      rw [update_self, hn]
      exact hfresh
    · rw [update_of_ne hr]
  · rw [if_neg hn]

theorem call_called (h : Base s) (hw : s.writer d = .idle) (hl : legal s d rid mt = true)
    (ho : inTurn s (.pass d rid mt body) = true) : Called d rid mt body s (s.call d rid mt body) := by
  -- what the condition gives while the exchange is open on the peer
  have hopen (hov : s.finished (d.peer, rid) = false) : 0 ≤ rid ∧ ∀ k, s.home rid = some k →
      (s.states (d, k)).writeClosed = false ∧ s.streams (d, rid) = some k := by
    simp only [inTurn, hov, Bool.false_or, Bool.and_eq_true, decide_eq_true_eq, Bool.not_eq_true'] at ho
    refine ⟨ho.1, fun k hk => ?_⟩
    have hc := h.half_open hk hov ho.2
    exact ⟨hc, h.entry_of_open hl ho.1 hk hc⟩
  cases hs : s.streams (d, rid) with
  | some sid =>
    rw [call_found hs]
    refine ⟨fun _ _ => rfl, fun _ _ => rfl, fun _ _ hk => hk, passing_over s d rid mt, rfl, rfl, rfl,
      fun e he => ⟨update_of_ne he .., fun _ => rfl⟩, .inl ⟨sid, ?_, rfl, ?_⟩⟩
    · simp [St.setWriter, Writer.todo]
    · cases hov : s.finished (d.peer, rid) with
      | true => exact .inl rfl
      | false =>
        obtain ⟨hreg, hrid⟩ := h.entry d rid sid hs
        obtain ⟨k, hk, -⟩ := h.homed sid (h.lt_of_registered hreg)
        rw [hrid] at hk
        obtain ⟨hc, hs'⟩ := (hopen hov).2 k hk
        rw [hs] at hs'
        cases hs'
        exact .inr ⟨hk, hc⟩
  | none =>
    cases d with
    | server =>
      have hov : s.finished (Side.server.peer, rid) = true := by
        by_contra hov
        obtain ⟨hr, hopen⟩ := hopen (Bool.eq_false_iff.mpr hov)
        obtain ⟨k, hk, -⟩ := h.home_of_legal hl hr
        rw [(hopen k hk).2] at hs
        cases hs
      rw [call_refused hs]
      refine ⟨fun _ _ => rfl, fun _ _ => rfl, fun _ _ hk => hk, passing_over s _ rid mt, rfl, rfl, rfl,
        fun e he => ⟨update_of_ne he .., fun _ => rfl⟩, .inr ⟨?_, ?_, hov⟩⟩
      · simp [St.lose, St.setWriter]
      · rw [← hov, ← passing_over_peer s .server rid mt]
        rfl
    | client =>
      refine ⟨opens_onWay h hs, opens_inFlight h hs, fun r k hk => ?_, ?_, ?_, ?_, ?_, fun e he => ?_,
        .inl ⟨s.opened, ?_⟩⟩
      · rw [opens_home hs]
        split
        · rw [update_of_ne, hk]
          rintro rfl
          simp_all
        · exact hk
      all_goals rw [call_opens hs]
      · exact passing_over s .client rid mt
      · rfl
      · rfl
      · refine ⟨update_of_ne he .., fun k => congrArg StreamState.writeClosed (update_of_ne ?_ ..)⟩
        rintro ⟨⟩
        exact he rfl
      · refine ⟨by simp [St.setWriter, Writer.todo], rfl, ?_⟩
        cases hov : s.finished (Side.client.peer, rid) with
        | true => exact .inl rfl
        | false =>
          have hn : s.home rid = none := by
            cases hk : s.home rid with
            | none => rfl
            | some k => rw [((hopen hov).2 k hk).2] at hs; cases hs
          refine .inr ⟨?_, ?_⟩
          · simp [St.setWriter, St.openStream, St.passing, hn]
          · simp [St.setWriter, St.openStream, St.passing]

theorem Carried.call (h : Carried s) (hb : Base t) (hw : s.writer d = .idle)
    (hc : Called d rid mt body s t) : Carried t := by
  have hold (e : Side) (r : Int) (ho : t.finished (e.peer, r) = false) : s.finished (e.peer, r) = false :=
    Bool.eq_false_iff.mpr fun hx => by
      rw [hc.finished _ hx] at ho
      cases ho
  refine ⟨hb, fun e k x hx => ?_, fun e x b hx => ?_, fun e k x hx hne => ?_, fun e r => ?_, fun e r ho => ?_⟩
  · by_cases he : e = d
    · subst he
      rcases hc.result with ⟨sid, hw', -, hor⟩ | ⟨hw', -⟩
      · rw [hw'] at hx
        cases hx
        exact hor.imp (hc.finished _) id
      · rw [hw'] at hx
        cases hx
    · obtain ⟨hw', hclosed⟩ := hc.others e he
      rw [hw'] at hx
      rw [hclosed]
      exact (h.busy e k x hx).imp (hc.finished _) (And.imp_left (hc.home _ _))
  · rcases hc.result with ⟨sid, -, hl, -⟩ | ⟨-, hl, -⟩
    · rw [hl] at hx
      exact h.lost e x b hx
    · rw [hl] at hx
      rcases List.mem_append.mp hx with hx | hx
      · exact h.lost e x b hx
      · cases List.mem_singleton.mp hx
        rfl
  · rw [hc.onWay] at hx
    obtain ⟨ho, hd⟩ := h.astray e k x hx fun hh => hne (hc.home _ _ hh)
    exact ⟨hc.finished _ ho, hd⟩
  · rw [hc.written, hc.returned, hc.inFlight]
    exact h.order e r
  · rw [hc.called, hc.returned, hc.inFlight, update_apply]
    by_cases he : e = d
    · subst he
      have hwhole := h.whole e r (hold e r ho)
      rw [toWrite_of_idle hw, List.append_nil] at hwhole
      by_cases hr : r = rid
      · subst hr
        rcases hc.result with ⟨sid, hw', -⟩ | ⟨-, -, hov⟩
        · rw [if_pos rfl, toWrite_of_todo hw', if_pos rfl, hwhole]
          simp [Frame.call]
        · rw [hold e r ho] at hov
          cases hov
      · have hnone : t.toWrite e r = [] := by
          rcases hc.result with ⟨sid, hw', -⟩ | ⟨hw', -⟩
          · rw [toWrite_of_todo hw', if_neg (Ne.symm hr)]
          · exact toWrite_of_idle hw' r
        rw [if_neg fun hx => hr (Prod.mk.inj hx).2, hnone, List.append_nil]
        exact hwhole
    · rw [if_neg fun hx => he (Prod.mk.inj hx).1]
      simp only [St.toWrite, (hc.others e he).1]
      exact h.whole e r (hold e r ho)

theorem step_carried (h : Carried s) (ho : inTurn s e = true) (hs : step s e = some t) : Carried t := by
  have hb := step_base h.base hs
  cases step_cases h.base hs with
  | issue => exact h.quiet hb (quiet_core (fun _ hp => hp) rfl)
  | pass d rid mt body hw hl => exact h.call hb hw (call_called h.base hw hl ho)
  | swallow d sid m _ htodo hc => exact h.swallow hb htodo hc
  | clear d sid m rt hw => exact h.quiet hb (quiet_setWriter s (by rw [hw]; rfl))
  | write d sid m rt hw _ => exact h.write hb hw
  | finish d sid m rt hw => exact h.quiet hb (quiet_finish hw)
  | accept => exact h.quiet hb (quiet_accept h.base)
  | take d sid m rest hr hf =>
    refine h.quiet hb ((quiet_register s d sid m).trans (quiet_take _ ?_ ?_) ?_)
    · rw [register_reader]; exact hr
    · rw [register_halves]; exact hf
    · exact register_over s d sid m
  | eof d sid hr _ => exact h.quiet hb (quiet_markRemoteDone s hr)
  | read d sid m hr => exact h.read _ hr hb
  | resume d sid m hr => exact h.quiet hb (quiet_resume h.base hr)
  | drop d rid =>
    refine h.quiet hb (quiet_core (fun p hp => ?_) rfl)
    dsimp only
    rw [update_apply]
    split
    · rfl
    · exact hp
  | retire => exact h.quiet hb (quiet_core (fun _ hp => hp) rfl)

/-! ## Delivery -/

/-- What the cores pass reaches the peer's core. -/
structure Delivered (s : St α) : Prop where
  /-- Only a frame of an exchange that is over on the peer is swallowed or refused. -/
  lost : ∀ d m b, (d, m, b) ∈ s.lost → b = true
  /-- A frame written while the exchange was open on the peer is returned once and in order, or is on its way. -/
  order : ∀ d rid, (s.written (d, rid)).filter (·.due) = (s.returned (d, rid) ++ s.inFlight d rid).filter (·.due)
  /-- While it is open there, so is every frame the core passed. -/
  whole : ∀ d rid, s.finished (d.peer, rid) = false →
    s.called (d, rid) = (s.returned (d, rid) ++ s.inFlight d rid ++ s.toWrite d rid).map Frame.call
  /-- A half is closed only where what the core can still pass is for an exchange that is over on the peer. -/
  halves : ∀ d rid sid mt body, s.home rid = some sid → (s.halves (d, sid)).fin = true → legal s d rid mt = true →
    inTurn s (.pass d rid mt body) = true → s.finished (d.peer, rid) = true

theorem Carried.delivered (h : Carried s) : Delivered s where
  lost := h.lost
  order := h.order
  whole := h.whole
  halves d rid sid mt body hk hf _ ho := by
    by_contra hov
    have hov := Bool.eq_false_iff.mpr hov
    simp only [inTurn, hov, Bool.false_or, Bool.and_eq_true, Bool.not_eq_true'] at ho
    have hopen := h.base.half_open hk hov ho.2
    rw [h.base.fin, hf] at hopen
    cases hopen

theorem reach_carried (h : sys.Reach (fun s e => inTurn s e = true) s) : Carried s :=
  Sys.Reach.inv (P := Carried) (fun _ h0 => h0 ▸ carried_start) (fun _ _ _ hi ho hs => step_carried hi ho hs) h

theorem inTurn_of_own (he : e.own = true) : inTurn s e = true := by
  cases e <;> first | rfl | cases he

/-- Nothing is under way, so everything was returned. -/
theorem Carried.all_returned (h : Carried s) (hd : Drained s) (d : Side) (rid : Int) :
    (s.returned (d, rid)).filter (·.due) = (s.written (d, rid)).filter (·.due) ∧
      (s.finished (d.peer, rid) = false → s.called (d, rid) = (s.returned (d, rid)).map Frame.call) := by
  have hflight : s.inFlight d rid = [] := by
    simp only [St.inFlight]
    split
    · rename_i sid _
      have hheld := hd.held d.peer sid
      rw [St.onWay, hd.frames, List.append_nil]
      cases hr : (s.states (d.peer, sid)).reader <;> rw [hr] at hheld <;> first | rfl | cases hheld
    · rfl
  refine ⟨?_, fun ho => ?_⟩
  · rw [h.order, hflight, List.append_nil]
  · rw [h.whole d rid ho, hflight, toWrite_of_idle (hd.writer d), List.append_nil, List.append_nil]

/-- In every run in turn what the cores pass is delivered, and what is on its way at any moment is
    brought to the peer's core by the transport alone. -/
theorem delivers (h : sys.Reach (fun s e => inTurn s e = true) s) : Delivered s ∧
    sys.Inevitable (fun _ e => e.own = true) (fun t => Delivered t ∧ ∀ d rid,
      (t.returned (d, rid)).filter (·.due) = (t.written (d, rid)).filter (·.due) ∧
        (t.finished (d.peer, rid) = false → t.called (d, rid) = (t.returned (d, rid)).map Frame.call)) s := by
  have hi := reach_carried h
  refine ⟨hi.delivered, drains (I := Carried) (fun s e t hc he hs => ?_) (fun _ hc => hc.base) (fun t hc hd => ?_) hi⟩
  · exact step_carried hc (inTurn_of_own he) hs
  · exact ⟨hc.delivered, hc.all_returned hd⟩

/-! ## Runs -/

/-- A get-stream with a grant behind the request, a value on its way and one that is read. -/
def inTurnRun : List (Ev Nat) :=
  ([.issue .getStream] : List (Ev Nat)) ++ writes .client 1 .getStreamRequest 0 ++ writes .client 1 .streamCredit 8 ++
    ([.accept] : List (Ev Nat)) ++ reads .server 0 ++ reads .server 0 ++ writes .server 1 .streamReady 0 ++
    writes .server 1 .streamValue 5 ++ writes .server 1 .streamValue 6 ++ reads .client 0 ++ reads .client 0

theorem delivers_inTurnRun : ∃ s : St Nat, sys.Reach (fun s e => inTurn s e = true) s ∧
    (s.returned (.server, 1)).map Frame.call = [(.streamReady, 0), (.streamValue, 5)] ∧
    (s.inFlight .server 1).map Frame.call = [(.streamValue, 6)] ∧ Delivered s := by
  obtain ⟨s, hr, hret, hfly⟩ := Sys.reach_of_exec sys (fun s e => inTurn s e = true) (start : St Nat) rfl inTurnRun
    (P := fun s => (s.returned (.server, 1)).map Frame.call = [(.streamReady, 0), (.streamValue, 5)] ∧
      (s.inFlight .server 1).map Frame.call = [(.streamValue, 6)]) (by decide +kernel)
  exact ⟨s, hr, hret, hfly, (delivers hr).1⟩

/-- The server of a put-stream grants credit for the first value it took, behind StreamReady. -/
def putCreditRun : List (Ev Nat) :=
  ([.issue .putStream] : List (Ev Nat)) ++ writes .client 1 .putStreamRequest 0 ++
    ([.accept] : List (Ev Nat)) ++ reads .server 0 ++
    writes .server 1 .streamCredit 8 ++ writes .server 1 .streamReady 0 ++ reads .client 0 ++ reads .client 0 ++
    writes .client 1 .streamValue 5 ++ reads .server 0 ++
      ([.pass .server 1 .streamCredit 1, .check .server] : List (Ev Nat))

/-- The client of a chat closes its direction and grants credit for a value it took behind that. -/
def chatCreditRun : List (Ev Nat) :=
  ([.issue .chat] : List (Ev Nat)) ++ writes .client 1 .chatRequest 0 ++ ([.accept] : List (Ev Nat)) ++
    reads .server 0 ++
    writes .server 1 .streamReady 0 ++ reads .client 0 ++ writes .client 1 .streamEnd 0 ++
      writes .server 1 .streamValue 5 ++
    reads .client 0 ++ ([.pass .client 1 .streamCredit 1, .check .client] : List (Ev Nat))

def reverseRun : List (Ev Nat) := [.reverse .unary, .pass .server (-1) .functionRequest 0]

/-- The transport loses a put-stream's and a chat's credit, and every request of the server, each
    with the exchange open on the peer. -/
theorem swallowed_while_open :
    (∃ s : St Nat, sys.Reach Sys.any s ∧ s.kinds 1 = some .putStream ∧ s.finished (.client, 1) = false ∧
      s.lost = [(.server, ⟨.streamCredit, 1, 1, false⟩, false)]) ∧
    (∃ s : St Nat, sys.Reach Sys.any s ∧ s.kinds 1 = some .chat ∧ s.finished (.server, 1) = false ∧
      s.lost = [(.client, ⟨.streamCredit, 1, 1, false⟩, false)]) ∧
    ∃ s : St Nat, sys.Reach Sys.any s ∧ s.kinds (-1) = some .unary ∧ s.finished (.client, -1) = false ∧
      s.lost = [(.server, ⟨.functionRequest, -1, 0, false⟩, false)] := by
  refine ⟨?_, ?_, ?_⟩
  · exact Sys.reach_of_exec sys Sys.any (start : St Nat) rfl putCreditRun (by decide +kernel)
  · exact Sys.reach_of_exec sys Sys.any (start : St Nat) rfl chatCreditRun (by decide +kernel)
  · exact Sys.reach_of_exec sys Sys.any (start : St Nat) rfl reverseRun (by decide +kernel)

end ValueRpc.Quic
