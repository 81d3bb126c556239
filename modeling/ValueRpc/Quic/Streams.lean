/-
  ValueRpc.Quic.Streams — what holds of the QUIC transport in every run.

  The first stream that is opened under an id is the exchange's (`home`). `Base` says of it:
  the client's entry for the id leads there until the client closed its half and saw the end
  of the server's (`clientEntry`), the server's entry, once the stream is registered, until the
  server closed its half (`serverEntry`); a half is closed only behind a frame that says so, or
  on the client when the exchange is over on the server (`closedClient`, `closedServer`).

  One lemma for each thing that happens to the state.
-/

import ValueRpc.Quic.Transport

namespace ValueRpc.Quic

open Function ValueRpc.Lib
open ValueRpc.Core (MessageType)

variable {α : Type} {s t : St α} {d : Side} {sid : Nat} {rid : Int} {m : Frame α} {rt mt : MessageType}
  {k : Nat} {e : Side}

@[simp] theorem Side.peer_peer (d : Side) : d.peer.peer = d := by cases d <;> rfl
@[simp] theorem Side.peer_ne (d : Side) : d.peer ≠ d := by cases d <;> simp [Side.peer]
@[simp] theorem Side.ne_peer (d : Side) : d ≠ d.peer := by cases d <;> simp [Side.peer]

def Writer.job : Writer α → Option (Nat × Frame α × MessageType)
  | .idle => none
  | .found sid m rt => some (sid, m, rt)
  | .clear sid m rt => some (sid, m, rt)
  | .wrote sid m rt => some (sid, m, rt)

def Writer.todo : Writer α → Option (Nat × Frame α)
  | .found sid m _ => some (sid, m)
  | .clear sid m _ => some (sid, m)
  | _ => none

theorem job_of_todo {w : Writer α} (hw : w.todo = some (sid, m)) : ∃ rt, w.job = some (sid, m, rt) := by
  cases w with
  | idle => cases hw
  | wrote => cases hw
  | found => cases hw; exact ⟨_, rfl⟩
  | clear => cases hw; exact ⟨_, rfl⟩

def Reader.held : Reader α → List (Frame α)
  | .funneling m => [m]
  | .funneled m => [m]
  | _ => []

/-- A frame of side `d` that is on its way, or in the hands of the peer's reader. -/
def On (s : St α) (d : Side) (sid : Nat) (m : Frame α) : Prop :=
  m ∈ (s.halves (d, sid)).frames ∨ m ∈ (s.states (d.peer, sid)).reader.held

def isLast (mt : MessageType) : Bool :=
  mt = .handshakeResponse || mt = .functionResponse || mt = .errorResponse || mt = .streamEnd

/-- The frame a stream was opened for is the first on it. -/
def First (s : St α) (sid : Nat) : Prop :=
  (∃ m rest, (s.halves (.client, sid)).frames = m :: rest ∧ m.mt = (s.states (.client, sid)).reqType ∧
    m.rid = (s.states (.client, sid)).rid) ∨
  (s.halves (.client, sid) = ⟨[], false⟩ ∧ ∃ m, (s.writer .client).todo = some (sid, m) ∧
    m.mt = (s.states (.client, sid)).reqType)

structure Base (s : St α) : Prop where
  accepted_le : s.accepted ≤ s.opened
  fresh : ∀ d sid, s.opened ≤ sid → s.states (d, sid) = noStream ∧ s.halves (d, sid) = ⟨[], false⟩
  unaccepted : ∀ sid, s.accepted ≤ sid → s.states (.server, sid) = noStream
  client : ∀ sid, sid < s.opened → (s.states (.client, sid)).registered = true ∧
    (s.states (.client, sid)).reader ≠ .off ∧ 0 ≤ (s.states (.client, sid)).rid
  serving : ∀ sid, sid < s.accepted → (s.states (.server, sid)).reader ≠ .off
  same : ∀ sid, (s.states (.server, sid)).registered = true →
    (s.states (.server, sid)).rid = (s.states (.client, sid)).rid ∧
      (s.states (.server, sid)).reqType = (s.states (.client, sid)).reqType
  fin : ∀ d sid, (s.states (d, sid)).writeClosed = (s.halves (d, sid)).fin
  gone : ∀ d sid, (s.states (d, sid)).remoteDone = true ↔ (s.states (d, sid)).reader = .gone
  done : ∀ d sid, (s.states (d, sid)).remoteDone = true → s.halves (d.peer, sid) = ⟨[], true⟩
  unregistered : ∀ d sid, (s.states (d, sid)).registered = false →
    s.halves (d, sid) = ⟨[], false⟩ ∧ (s.states (d, sid)).reader.held = [] ∧ (s.states (d.peer, sid)).reader.held = []
  first : ∀ sid, sid < s.opened → (s.states (.server, sid)).registered = false → First s sid
  frames : ∀ d sid m, On s d sid m → m.rid = (s.states (.client, sid)).rid ∧ m.mt ∈ s.passed (d, m.rid)
  writer : ∀ d sid m rt, (s.writer d).job = some (sid, m, rt) → (s.states (d, sid)).registered = true ∧
    m.rid = (s.states (.client, sid)).rid ∧ rt = (s.states (.client, sid)).reqType ∧ m.mt ∈ s.passed (d, m.rid)
  entry : ∀ d rid sid, s.streams (d, rid) = some sid →
    (s.states (d, sid)).registered = true ∧ (s.states (.client, sid)).rid = rid
  home : ∀ rid sid, s.home rid = some sid → sid < s.opened ∧ (s.states (.client, sid)).rid = rid ∧
    ∃ kind, s.kinds rid = some kind ∧ (s.states (.client, sid)).reqType = kind.request
  homed : ∀ sid, sid < s.opened → ∃ h, s.home (s.states (.client, sid)).rid = some h ∧
    (h = sid ∨ (s.states (.client, h)).writeClosed = true ∧ (s.states (.client, h)).remoteDone = true)
  clientEntry : ∀ rid sid, s.home rid = some sid → s.streams (.client, rid) = some sid ∨
    (s.states (.client, sid)).writeClosed = true ∧ (s.states (.client, sid)).remoteDone = true
  serverEntry : ∀ rid sid, s.home rid = some sid → (s.states (.server, sid)).registered = true →
    s.streams (.server, rid) = some sid ∨ (s.states (.server, sid)).writeClosed = true
  passedHome : ∀ rid, s.passed (.client, rid) ≠ [] ↔ ∃ sid, s.home rid = some sid
  returnedClient : ∀ rid, s.returned (.client, rid) ≠ [] →
    ∃ sid, s.home rid = some sid ∧ (s.states (.server, sid)).registered = true
  returnedServer : ∀ rid, s.returned (.server, rid) ≠ [] → 0 ≤ rid
  issued : ∀ rid kind, s.kinds rid = some kind → rid ≤ s.lastRequest ∧ -(s.lastServerRequest : Int) ≤ rid
  overs : ∀ rid mt, 0 ≤ rid → mt ∈ s.passed (.server, rid) → isLast mt = true → s.finished (.server, rid) = true
  closedClient : ∀ sid, (s.states (.client, sid)).writeClosed = true →
    (∃ mt ∈ s.passed (.client, (s.states (.client, sid)).rid), mt = .streamEnd ∨ mt = .cancelRequest) ∨
      s.finished (.server, (s.states (.client, sid)).rid) = true
  closedServer : ∀ sid, (s.states (.server, sid)).writeClosed = true →
    ∃ mt ∈ s.passed (.server, (s.states (.client, sid)).rid),
      finOnWrite .server mt (s.states (.client, sid)).reqType = true

theorem base_start : Base (start : St α) := by
  constructor <;> simp [start, noStream, On, Reader.held, Writer.job]

/-! ## The cores -/

theorem mem_update_append {f : Side × Int → List MessageType} {p q : Side × Int} {x y : MessageType}
    (hx : x ∈ f q) : x ∈ update f p (f p ++ [y]) q := by
  rw [update_apply]
  split
  · rename_i hq
    exact List.mem_append_left _ (hq ▸ hx)
  · exact hx

theorem update_or_true {f : Side × Int → Bool} {p q : Side × Int} {b : Bool} (hx : f q = true) :
    update f p (f p || b) q = true := by
  rw [update_apply]
  split
  · rename_i hq
    rw [← hq, hx, Bool.true_or]
  · exact hx

theorem Base.drop (h : Base s) (d : Side) (rid : Int) :
    Base { s with finished := update s.finished (d, rid) true } := by
  have hm (p : Side × Int) (hp : s.finished p = true) : update s.finished (d, rid) true p = true := by
    rw [update_apply]; split <;> simp [hp]
  exact { h with
    overs := fun r mt hr hmem hl => hm _ (h.overs r mt hr hmem hl)
    closedClient := fun sid hc => (h.closedClient sid hc).imp id (hm _) }

theorem Base.retire (h : Base s) (d : Side) (rid : Int) :
    Base { s with retired := update s.retired (d, rid) true } :=
  { h with }

theorem Base.lt_of_registered (h : Base s) (hr : (s.states (d, sid)).registered = true) : sid < s.opened := by
  by_contra hlt
  rw [(h.fresh d sid (Nat.le_of_not_lt hlt)).1] at hr
  cases hr

/-- The client's streams are registered from the start. -/
theorem Base.server_of_unregistered (h : Base s) (hlt : sid < s.opened)
    (hn : (s.states (d, sid)).registered = false) : d = .server := by
  cases d with
  | client => rw [(h.client sid hlt).1] at hn; cases hn
  | server => rfl

/-- Where a second stream was opened under an id, both halves of the first are closed. -/
theorem Base.home_closed (h : Base s) (hlt : sid < s.opened)
    (hk : s.home (s.states (.client, sid)).rid = some k) (hne : k ≠ sid) :
    (s.states (.client, k)).writeClosed = true ∧ (s.states (.client, k)).remoteDone = true ∧
      (s.states (.server, k)).writeClosed = true := by
  obtain ⟨k', hk', hor⟩ := h.homed sid hlt
  rw [hk] at hk'
  cases hk'
  obtain ⟨hc, hr⟩ := hor.resolve_left hne
  refine ⟨hc, hr, ?_⟩
  rw [h.fin]
  exact congrArg Half.fin (h.done .client k hr)

theorem Base.running (h : Base s) (hr : (s.states (d, sid)).registered = true) :
    (s.states (d, sid)).reader ≠ .off := by
  cases d with
  | client => exact (h.client sid (h.lt_of_registered hr)).2.1
  | server =>
    refine h.serving sid ?_
    by_contra hacc
    rw [h.unaccepted sid (Nat.le_of_not_lt hacc)] at hr
    cases hr

@[simp] theorem finWrite_writer (s : St α) (d : Side) (sid : Nat) : (s.finWrite d sid).writer = s.writer := by
  unfold St.finWrite
  dsimp only
  split <;> rfl

@[simp] theorem register_halves (s : St α) (d : Side) (sid : Nat) (m : Frame α) :
    (s.register d sid m).halves = s.halves := by
  unfold St.register
  dsimp only
  split <;> rfl

theorem register_reader (s : St α) (d : Side) (sid : Nat) (m : Frame α) :
    ((s.register d sid m).states (d, sid)).reader = (s.states (d, sid)).reader := by
  unfold St.register
  dsimp only
  split
  · rfl
  · simp

theorem register_registered (s : St α) (d : Side) (sid : Nat) (m : Frame α) :
    ((s.register d sid m).states (d, sid)).registered = true := by
  unfold St.register
  dsimp only
  split
  · assumption
  · simp

/-! ## The two write steps and the end of a half -/

theorem Base.setWriter (h : Base s) {w : Writer α} (hw : ∀ sid m rt, w.job = some (sid, m, rt) →
      (s.writer d).job = some (sid, m, rt)) (ht : d = .client → w.todo = (s.writer .client).todo ∨
      ∀ sid m, (s.writer .client).todo = some (sid, m) → (s.halves (.client, sid)).frames ≠ [] ∨
        (s.halves (.client, sid)).fin = true) : Base (s.setWriter d w) := by
  refine { h with first := fun sid hlt hr => ?_, writer := fun e sid m rt hj => ?_ }
  · rcases h.first sid hlt hr with hf | ⟨hn, m, hm, hmt⟩
    · exact .inl hf
    · refine .inr ⟨hn, m, ?_, hmt⟩
      have hn' : ¬ ((s.halves (.client, sid)).frames ≠ [] ∨ (s.halves (.client, sid)).fin = true) := by simp [hn]
      simp only [St.setWriter, update_apply]
      split
      · rename_i hd
        rcases ht hd.symm with ht | ht
        · rw [ht]; exact hm
        · exact absurd (ht sid m hm) hn'
      · exact hm
  · simp only [St.setWriter, update_apply] at hj
    split at hj
    · rename_i hd
      subst hd
      exact h.writer e sid m rt (hw sid m rt hj)
    · exact h.writer e sid m rt hj

theorem Base.lose (h : Base s) (d : Side) (m : Frame α)
    (ht : ∀ sid m, (s.writer d).todo = some (sid, m) → (s.halves (d, sid)).fin = true) :
    Base (s.lose d m) := by
  have hw : Base (s.setWriter d .idle) := h.setWriter nofun fun hd => .inr fun sid m hm => .inr (by
    subst hd
    exact ht sid m hm)
  exact { hw with }

theorem Base.writeFrame (h : Base s) (hw : s.writer d = .clear sid m rt)
    (hf : (s.halves (d, sid)).fin = false) : Base (s.writeFrame d sid m rt) := by
  have hj := h.writer d sid m rt (by rw [hw]; rfl)
  have hlt := h.lt_of_registered hj.1
  have hopen : (s.states (d.peer, sid)).remoteDone = false := Bool.eq_false_iff.mpr fun hr => by
    have := h.done d.peer sid hr
    rw [Side.peer_peer] at this
    rw [this] at hf
    cases hf
  unfold St.writeFrame St.setWriter
  dsimp only
  refine { h with
    fresh := by have := h.fresh; grind
    fin := by have := h.fin; grind
    done := by have := h.done; grind [Side.peer_peer]
    unregistered := by have := h.unregistered; grind
    frames := by have := h.frames; simp only [On] at *; grind
    writer := by have := h.writer; grind [Writer.job]
    first := ?first }
  case first =>
    intro k hk hr
    rcases h.first k hk hr with ⟨x, rest, hx⟩ | ⟨hn, x, hx, hmt⟩
    · refine .inl ?_
      by_cases he : (Side.client, k) = (d, sid)
      · refine ⟨x, rest ++ [{ m with due := !s.finished (d.peer, m.rid) }], ?_, hx.2⟩
        dsimp only
        rw [← he, update_self, hx.1, List.cons_append]
      · refine ⟨x, rest, ?_, hx.2⟩
        dsimp only
        rw [update_of_ne he]
        exact hx.1
    · -- the frame that is written is the one the stream was opened for
      by_cases he : d = .client ∧ sid = k
      · obtain ⟨rfl, rfl⟩ := he
        rw [hw] at hx
        cases hx
        refine .inl ⟨{ m with due := !s.finished (Side.client.peer, m.rid) }, [], ?_, hmt, hj.2.1⟩
        dsimp only
        rw [update_self, hn, List.nil_append]
      · refine .inr ⟨?_, x, ?_, hmt⟩
        · dsimp only
          rw [update_of_ne (by rintro ⟨⟩; exact he ⟨rfl, rfl⟩)]
          exact hn
        · by_cases hd : d = .client
          · subst hd
            rw [hw] at hx
            cases hx
            exact absurd ⟨rfl, rfl⟩ he
          · dsimp only
            rw [update_of_ne (Ne.symm hd)]
            exact hx

/-! ## One end of one stream -/

/-- What the reader of a registered stream and the close of its write half may change. -/
structure Moves (d : Side) (sid : Nat) (s t : St α) : Prop where
  rest : t = { s with states := t.states, halves := t.halves, streams := t.streams }
  others : ∀ p, p ≠ (d, sid) → t.states p = s.states p
  key : (t.states (d, sid)).rid = (s.states (d, sid)).rid ∧
    (t.states (d, sid)).reqType = (s.states (d, sid)).reqType ∧
    (t.states (d, sid)).registered = (s.states (d, sid)).registered
  registered : (s.states (d, sid)).registered = true
  running : (s.states (d, sid)).reader ≠ .off ∧ (t.states (d, sid)).reader ≠ .off
  halves : ∀ p, p ≠ (d, sid) → p ≠ (d.peer, sid) → t.halves p = s.halves p
  own : (t.halves (d, sid)).frames = (s.halves (d, sid)).frames ∧
    (t.halves (d, sid)).fin = (t.states (d, sid)).writeClosed
  incoming : (t.halves (d.peer, sid)).fin = (s.halves (d.peer, sid)).fin ∧
    ∀ m ∈ (t.halves (d.peer, sid)).frames, m ∈ (s.halves (d.peer, sid)).frames
  held : ∀ m ∈ (t.states (d, sid)).reader.held,
    m ∈ (s.states (d, sid)).reader.held ∨ m ∈ (s.halves (d.peer, sid)).frames
  gone : (t.states (d, sid)).remoteDone = true ↔ (t.states (d, sid)).reader = .gone
  done : (t.states (d, sid)).remoteDone = true → t.halves (d.peer, sid) = ⟨[], true⟩
  closes : (s.states (d, sid)).writeClosed = true → (t.states (d, sid)).writeClosed = true
  ends : (s.states (d, sid)).remoteDone = true → (t.states (d, sid)).remoteDone = true
  streams : ∀ p, t.streams p = s.streams p ∨ p = (d, (s.states (d, sid)).rid) ∧ t.streams p = none ∧
    (t.states (d, sid)).writeClosed = true ∧ (t.states (d, sid)).remoteDone = true
  /-- Nothing is closed before the frame the stream was opened for is on it. -/
  first : d = .client → (t.states (d, sid)).writeClosed = true → (s.states (d, sid)).writeClosed = true ∨
    (s.states (.server, sid)).registered = true ∨ ∀ m, (s.writer .client).todo ≠ some (sid, m)
  client : d = .client → (t.states (d, sid)).writeClosed = true →
    (∃ mt ∈ s.passed (.client, (s.states (.client, sid)).rid), mt = .streamEnd ∨ mt = .cancelRequest) ∨
      s.finished (.server, (s.states (.client, sid)).rid) = true
  server : d = .server → (t.states (d, sid)).writeClosed = true →
    ∃ mt ∈ s.passed (.server, (s.states (.client, sid)).rid),
      finOnWrite .server mt (s.states (.client, sid)).reqType = true

theorem Moves.sameKey (hm : Moves d sid s t) (p : Side × Nat) : (t.states p).rid = (s.states p).rid ∧
    (t.states p).reqType = (s.states p).reqType ∧ (t.states p).registered = (s.states p).registered := by
  by_cases hp : p = (d, sid)
  · rw [hp]; exact hm.key
  · rw [hm.others p hp]
    exact ⟨rfl, rfl, rfl⟩

theorem Moves.stays (hm : Moves d sid s t) (p : Side × Nat) :
    ((s.states p).writeClosed = true → (t.states p).writeClosed = true) ∧
      ((s.states p).remoteDone = true → (t.states p).remoteDone = true) := by
  by_cases hp : p = (d, sid)
  · rw [hp]; exact ⟨hm.closes, hm.ends⟩
  · rw [hm.others p hp]
    exact ⟨id, id⟩

theorem Moves.on (hm : Moves d sid s t) (ho : On t e k m) : On s e k m := by
  rcases ho with ho | ho
  · by_cases h1 : (e, k) = (d, sid)
    · cases h1
      exact .inl (hm.own.1 ▸ ho)
    · by_cases h2 : (e, k) = (d.peer, sid)
      · cases h2
        exact .inl (hm.incoming.2 m ho)
      · rw [hm.halves _ h1 h2] at ho
        exact .inl ho
  · by_cases h1 : (e.peer, k) = (d, sid)
    · cases h1
      rcases hm.held m ho with ho | ho
      · exact .inr ho
      · rw [Side.peer_peer] at ho
        exact .inl ho
    · rw [hm.others _ h1] at ho
      exact .inr ho

theorem Moves.half (hm : Moves d sid s t) (p : Side × Nat) :
    t.halves p = s.halves p ∨ p = (d, sid) ∨ p = (d.peer, sid) := by
  by_cases h1 : p = (d, sid)
  · exact .inr (.inl h1)
  · by_cases h2 : p = (d.peer, sid)
    · exact .inr (.inr h2)
    · exact .inl (hm.halves p h1 h2)

theorem Moves.first_stays (h : Base s) (hm : Moves d sid s t) (hf : First s k)
    (hr : (s.states (.server, k)).registered = false) : First t k := by
  obtain ⟨hrid, hreq, -⟩ := hm.sameKey (.client, k)
  have hw : t.writer = s.writer := (congrArg St.writer hm.rest :)
  -- the server has not read there, so if the stream is this one, it is the client's end
  have hframes : (t.halves (.client, k)).frames = (s.halves (.client, k)).frames := by
    rcases hm.half (.client, k) with hh | hh | hh
    · rw [hh]
    · cases hh; exact hm.own.1
    · cases d with
      | client => cases hh
      | server => cases hh; rw [hm.registered] at hr; cases hr
  unfold First
  rw [hframes, hrid, hreq, hw]
  rcases hf with hf | ⟨hn, m, hm', hmt⟩
  · exact .inl hf
  · refine .inr ⟨?_, m, hm', hmt⟩
    rcases hm.half (.client, k) with hh | hh | hh
    · rw [hh]; exact hn
    · cases hh
      have hopen : (t.states (.client, sid)).writeClosed = false := Bool.eq_false_iff.mpr fun hc => by
        rcases hm.first rfl hc with hc | hc | hc
        · rw [h.fin, hn] at hc; cases hc
        · rw [hr] at hc; cases hc
        · exact hc m hm'
      cases hh : t.halves (.client, sid) with
      | mk frames fin =>
        have h1 := hm.own.2
        rw [hh] at h1 hframes
        rw [hn] at hframes
        rw [hopen] at h1
        exact congr (congrArg Half.mk hframes) h1
    · cases d with
      | client => cases hh
      | server => cases hh; rw [hm.registered] at hr; cases hr

section moves

variable (h : Base s) (hm : Moves d sid s t)
include h hm

theorem Moves.fresh_stays (e : Side) (hk : s.opened ≤ k) :
    t.states (e, k) = noStream ∧ t.halves (e, k) = ⟨[], false⟩ := by
  have hlt := h.lt_of_registered hm.registered
  have hne : k ≠ sid := by omega
  rw [hm.others _ (by simp [hne]), hm.halves _ (by simp [hne]) (by simp [hne])]
  exact h.fresh e k hk

theorem Moves.unaccepted_stays (hk : s.accepted ≤ k) : t.states (.server, k) = noStream := by
  rw [hm.others _ ?_]
  · exact h.unaccepted k hk
  · rintro ⟨⟩
    exact hm.running.1 (by rw [h.unaccepted sid hk]; rfl)

omit h in
theorem Moves.reader_runs (hr : (s.states (e, k)).reader ≠ .off) : (t.states (e, k)).reader ≠ .off := by
  by_cases he : (e, k) = (d, sid)
  · rw [he]
    exact hm.running.2
  · rw [hm.others _ he]
    exact hr

theorem Moves.fin_stays (e : Side) (k : Nat) : (t.states (e, k)).writeClosed = (t.halves (e, k)).fin := by
  rcases hm.half (e, k) with hh | hh | hh
  · rw [hh]
    by_cases he : (e, k) = (d, sid)
    · rw [he, ← hm.own.2, ← he, hh]
    · rw [hm.others _ he]
      exact h.fin e k
  · rw [hh]
    exact hm.own.2.symm
  · cases hh
    rw [hm.others _ (by simp), hm.incoming.1]
    exact h.fin _ sid

theorem Moves.done_stays (hd : (t.states (e, k)).remoteDone = true) : t.halves (e.peer, k) = ⟨[], true⟩ := by
  by_cases he : (e, k) = (d, sid)
  · cases he
    exact hm.done hd
  · rw [hm.others _ he] at hd
    have hold := h.done e k hd
    rcases hm.half (e.peer, k) with hh | hh | hh
    · rw [hh]
      exact hold
    · -- the half was closed and empty, and stays so
      cases hh
      have h1 := hm.own
      have h2 := hm.closes (by rw [h.fin, hold])
      rw [hold, h2] at h1
      exact congr (congrArg Half.mk h1.1) h1.2
    · cases d <;> cases e <;> cases hh <;> exact absurd rfl he

/-- Nothing comes from an end that is not registered. -/
theorem Moves.unregistered_stays (hr : (s.states (e, k)).registered = false) :
    t.halves (e, k) = ⟨[], false⟩ ∧ (t.states (e, k)).reader.held = [] ∧ (t.states (e.peer, k)).reader.held = [] := by
  obtain ⟨h1, h2, h3⟩ := h.unregistered e k hr
  have hne : (e, k) ≠ (d, sid) := by
    rintro ⟨⟩
    rw [hm.registered] at hr
    cases hr
  rw [hm.others _ hne]
  by_cases hp : (e.peer, k) = (d, sid)
  · cases hp
    have hin := hm.incoming
    have hheld := hm.held
    rw [Side.peer_peer, h1] at hin hheld
    refine ⟨?_, h2, ?_⟩
    · exact congr (congrArg Half.mk (List.eq_nil_iff_forall_not_mem.mpr fun m hm' => by simpa using hin.2 m hm')) hin.1
    · refine List.eq_nil_iff_forall_not_mem.mpr fun m hm' => ?_
      rcases hheld m hm' with hx | hx
      · rw [h3] at hx
        cases hx
      · cases hx
  · rw [hm.others _ hp]
    refine ⟨?_, h2, h3⟩
    rcases hm.half (e, k) with hh | hh | hh
    · rw [hh]
      exact h1
    · exact absurd hh hne
    · cases hh
      exact absurd (by simp) hp

/-- The client's entry of a stream goes when both halves are done. -/
theorem Moves.clientEntry_stays {r : Int} (hk : s.home r = some k) : t.streams (.client, r) = some k ∨
    (t.states (.client, k)).writeClosed = true ∧ (t.states (.client, k)).remoteDone = true := by
  rcases h.clientEntry r k hk with he | hc
  · rcases hm.streams (.client, r) with hs | ⟨hp, -, hw, hr⟩
    · exact .inl (hs.trans he)
    · cases hp
      by_cases hne : k = sid
      · rw [hne]
        exact .inr ⟨hw, hr⟩
      · obtain ⟨h1, h2, -⟩ := h.home_closed (h.lt_of_registered hm.registered) hk hne
        exact .inr ⟨(hm.stays _).1 h1, (hm.stays _).2 h2⟩
  · exact .inr ⟨(hm.stays _).1 hc.1, (hm.stays _).2 hc.2⟩

theorem Moves.serverEntry_stays {r : Int} (hk : s.home r = some k)
    (hr : (s.states (.server, k)).registered = true) :
    t.streams (.server, r) = some k ∨ (t.states (.server, k)).writeClosed = true := by
  rcases h.serverEntry r k hk hr with he | hc
  · rcases hm.streams (.server, r) with hs | ⟨hp, -, hw, -⟩
    · exact .inl (hs.trans he)
    · cases hp
      by_cases hne : k = sid
      · rw [hne]
        exact .inr hw
      · rw [(h.same sid hm.registered).1] at hk
        exact .inr ((hm.stays _).1 (h.home_closed (h.lt_of_registered hm.registered) hk hne).2.2)
  · exact .inr ((hm.stays _).1 hc)

omit h in
/-- A half that is closed was closed, or is this one. -/
theorem Moves.closed_cases (hc : (t.states (e, k)).writeClosed = true) :
    (s.states (e, k)).writeClosed = true ∨ (e, k) = (d, sid) := by
  by_cases hk : (e, k) = (d, sid)
  · exact .inr hk
  · exact .inl (by rwa [hm.others _ hk] at hc)

end moves

theorem Base.moves (h : Base s) (d : Side) (sid : Nat) (hm : Moves d sid s t) : Base t := by
  have hopened : t.opened = s.opened := (congrArg St.opened hm.rest :)
  have haccepted : t.accepted = s.accepted := (congrArg St.accepted hm.rest :)
  have hwriter : t.writer = s.writer := (congrArg St.writer hm.rest :)
  have hpassed : t.passed = s.passed := (congrArg St.passed hm.rest :)
  have hover : t.finished = s.finished := (congrArg St.finished hm.rest :)
  have hhome : t.home = s.home := (congrArg St.home hm.rest :)
  have hkinds : t.kinds = s.kinds := (congrArg St.kinds hm.rest :)
  have hreturned : t.returned = s.returned := (congrArg St.returned hm.rest :)
  -- the keys of a stream are set once
  have hkey := hm.sameKey
  constructor
  case accepted_le => rw [hopened, haccepted]; exact h.accepted_le
  case fresh => exact fun e k hk => hm.fresh_stays h e (hopened ▸ hk)
  case unaccepted => exact fun k hk => hm.unaccepted_stays h (haccepted ▸ hk)
  case client =>
    intro k hk
    obtain ⟨h1, h2, h3⟩ := h.client k (hopened ▸ hk)
    exact ⟨(hkey _).2.2.trans h1, hm.reader_runs h2, (hkey (.client, k)).1 ▸ h3⟩
  case serving => exact fun k hk => hm.reader_runs (h.serving k (haccepted ▸ hk))
  case same =>
    intro k hk
    rw [(hkey _).1, (hkey _).2.1, (hkey (.client, k)).1, (hkey (.client, k)).2.1]
    exact h.same k ((hkey _).2.2 ▸ hk)
  case fin => exact hm.fin_stays h
  case gone =>
    intro e k
    by_cases he : (e, k) = (d, sid)
    · cases he
      exact hm.gone
    · rw [hm.others _ he]
      exact h.gone e k
  case done => exact fun e k hd => hm.done_stays h hd
  case unregistered => exact fun e k hr => hm.unregistered_stays h ((hkey (e, k)).2.2 ▸ hr)
  case first =>
    intro k hk hr
    rw [(hkey (.server, k)).2.2] at hr
    exact hm.first_stays h (h.first k (hopened ▸ hk) hr) hr
  case frames =>
    intro e k m ho
    rw [(hkey (.client, k)).1, hpassed]
    exact h.frames e k m (hm.on ho)
  case writer =>
    intro e k m rt hj
    rw [(hkey (e, k)).2.2, (hkey (.client, k)).1, (hkey (.client, k)).2.1, hpassed]
    exact h.writer e k m rt (hwriter ▸ hj)
  case entry =>
    intro e r k hk
    rw [(hkey (e, k)).2.2, (hkey (.client, k)).1]
    rcases hm.streams (e, r) with hs | ⟨-, hs, -⟩
    · exact h.entry e r k (hs ▸ hk)
    · rw [hs] at hk
      cases hk
  case home =>
    intro r k hk
    rw [(hkey (.client, k)).1, (hkey (.client, k)).2.1, hkinds, hopened]
    exact h.home r k (hhome ▸ hk)
  case homed =>
    intro k hk
    obtain ⟨j, hj, hor⟩ := h.homed k (hopened ▸ hk)
    refine ⟨j, ?_, hor.imp id fun hc => ⟨(hm.stays _).1 hc.1, (hm.stays _).2 hc.2⟩⟩
    rw [(hkey (.client, k)).1, hhome]
    exact hj
  case clientEntry => exact fun r k hk => hm.clientEntry_stays h (hhome ▸ hk)
  case serverEntry => exact fun r k hk hr => hm.serverEntry_stays h (hhome ▸ hk) ((hkey (.server, k)).2.2 ▸ hr)
  case passedHome => rw [hpassed, hhome]; exact h.passedHome
  case returnedClient =>
    intro r hr
    obtain ⟨k, hk, hreg⟩ := h.returnedClient r (hreturned ▸ hr)
    exact ⟨k, hhome ▸ hk, (hkey (.server, k)).2.2.trans hreg⟩
  case returnedServer => rw [hreturned]; exact h.returnedServer
  case issued =>
    rw [hkinds, show t.lastRequest = s.lastRequest from (congrArg St.lastRequest hm.rest :),
      show t.lastServerRequest = s.lastServerRequest from (congrArg St.lastServerRequest hm.rest :)]
    exact h.issued
  case overs => rw [hpassed, hover]; exact h.overs
  case closedClient =>
    intro k hc
    rw [(hkey (.client, k)).1, hpassed, hover]
    rcases hm.closed_cases hc with hc' | he
    · exact h.closedClient k hc'
    · cases he
      exact hm.client rfl hc
  case closedServer =>
    intro k hc
    rw [(hkey (.client, k)).1, (hkey (.client, k)).2.1, hpassed]
    rcases hm.closed_cases hc with hc' | he
    · exact h.closedServer k hc'
    · cases he
      exact hm.server rfl hc

theorem Base.finWrite (h : Base s) (hreg : (s.states (d, sid)).registered = true)
    (hoff : (s.states (d, sid)).reader ≠ .off)
    (hfirst : d = .client → (s.states (.server, sid)).registered = true ∨ ∀ m, (s.writer .client).todo ≠ some (sid, m))
    (hc : d = .client →
      (∃ mt ∈ s.passed (.client, (s.states (.client, sid)).rid), mt = .streamEnd ∨ mt = .cancelRequest) ∨
        s.finished (.server, (s.states (.client, sid)).rid) = true)
    (hv : d = .server → ∃ mt ∈ s.passed (.server, (s.states (.client, sid)).rid),
      finOnWrite .server mt (s.states (.client, sid)).reqType = true) : Base (s.finWrite d sid) := by
  unfold St.finWrite
  dsimp only
  split
  · exact h
  · refine h.moves d sid ⟨rfl, fun p hp => update_of_ne hp .., ?_, hreg, ?_, fun p hp _ => update_of_ne hp .., ?_, ?_,
      ?_, ?_, ?_, ?_, ?_, ?_, ?_, fun hd _ => hc hd, fun hd _ => hv hd⟩
    all_goals simp only [update_self]
    · exact ⟨trivial, trivial, trivial⟩
    · exact ⟨hoff, hoff⟩
    · exact ⟨trivial, trivial⟩
    · rw [update_of_ne (by simp)]
      exact ⟨rfl, fun _ hm => hm⟩
    · exact fun m hm => .inl hm
    · exact h.gone d sid
    · rw [update_of_ne (by simp)]
      exact h.done d sid
    · exact fun _ => trivial
    · exact id
    · intro p
      split
      · rename_i hr
        by_cases hp : p = (d, (s.states (d, sid)).rid)
        · exact .inr ⟨hp, by rw [hp, update_self], trivial, hr⟩
        · exact .inl (update_of_ne hp ..)
      · exact .inl rfl
    · exact fun hd _ => .inr (hfirst hd)

theorem Base.reader (h : Base s) {r : Reader α} (hreg : (s.states (d, sid)).registered = true)
    (hoff : (s.states (d, sid)).reader ≠ .off) (hg : (s.states (d, sid)).reader ≠ .gone) (hr : r ≠ .off)
    (hrg : r ≠ .gone) (hh : ∀ m ∈ r.held, m ∈ (s.states (d, sid)).reader.held) :
    Base (s.setState d sid { s.states (d, sid) with reader := r }) := by
  have hdone : (s.states (d, sid)).remoteDone = false := Bool.eq_false_iff.mpr fun hd => hg ((h.gone d sid).mp hd)
  refine h.moves d sid ⟨rfl, fun p hp => update_of_ne hp .., ?_, hreg, ?_, fun _ _ _ => rfl, ?_,
    ⟨rfl, fun _ hm => hm⟩, ?_, ?_, ?_, ?_, ?_, fun _ => .inl rfl, ?_, ?_, ?_⟩
  all_goals simp only [St.setState, update_self]
  · exact ⟨trivial, trivial, trivial⟩
  · exact ⟨hoff, hr⟩
  · exact ⟨trivial, (h.fin d sid).symm⟩
  · exact fun m hm => .inl (hh m hm)
  · simp [hdone, hrg]
  · exact h.done d sid
  · exact id
  · exact id
  · exact fun _ hc => .inl hc
  · rintro rfl hc; exact h.closedClient sid hc
  · rintro rfl hc; exact h.closedServer sid hc

theorem Base.take (h : Base s) {rest : List (Frame α)} (hr : (s.states (d, sid)).reader = .idle)
    (hreg : (s.states (d, sid)).registered = true) (hf : (s.halves (d.peer, sid)).frames = m :: rest) :
    Base { s.setState d sid { s.states (d, sid) with reader := .funneling m } with
      halves := update s.halves (d.peer, sid) { s.halves (d.peer, sid) with frames := rest } } := by
  have hdone : (s.states (d, sid)).remoteDone = false := Bool.eq_false_iff.mpr fun hd => by
    rw [(h.gone d sid).mp hd] at hr
    cases hr
  refine h.moves d sid ⟨rfl, fun p hp => update_of_ne hp .., ?_, hreg, ?_,
    fun p _ hp => update_of_ne hp .., ?_, ?_, ?_, ?_, ?_, ?_, ?_, fun _ => .inl rfl, ?_, ?_, ?_⟩
  all_goals simp only [St.setState, update_self]
  · exact ⟨trivial, trivial, trivial⟩
  · exact ⟨by simp [hr], by simp⟩
  · rw [update_of_ne (by simp)]
    exact ⟨rfl, (h.fin d sid).symm⟩
  · exact ⟨trivial, fun x hx => by rw [hf]; exact List.mem_cons_of_mem _ hx⟩
  · intro x hx
    rw [List.mem_singleton.mp hx, hf]
    exact .inr List.mem_cons_self
  · simp [hdone]
  · simp [hdone]
  · exact id
  · exact id
  · exact fun _ hc => .inl hc
  · rintro rfl hc; exact h.closedClient sid hc
  · rintro rfl hc; exact h.closedServer sid hc

/-- A stream whose end the reader sees is registered: the frame it was opened for was read. -/
theorem Base.registered_of_end (h : Base s) (hr : (s.states (d, sid)).reader = .idle)
    (hf : s.halves (d.peer, sid) = ⟨[], true⟩) : (s.states (d, sid)).registered = true := by
  have hlt : sid < s.opened := by
    by_contra hlt
    rw [(h.fresh d sid (Nat.le_of_not_lt hlt)).1] at hr
    cases hr
  by_contra hn
  have hn := Bool.eq_false_iff.mpr hn
  obtain rfl := h.server_of_unregistered hlt hn
  have hf : s.halves (.client, sid) = ⟨[], true⟩ := hf
  rcases h.first sid hlt hn with ⟨x, l, hx, -⟩ | ⟨hx, -⟩
  · rw [hf] at hx
    cases hx
  · rw [hf] at hx
    cases hx

theorem Base.markRemoteDone (h : Base s) (hr : (s.states (d, sid)).reader = .idle)
    (hf : s.halves (d.peer, sid) = ⟨[], true⟩) : Base (s.markRemoteDone d sid) := by
  refine h.moves d sid ⟨rfl, fun p hp => update_of_ne hp .., ?_, h.registered_of_end hr hf, ?_,
    fun _ _ _ => rfl, ?_, ⟨rfl, fun _ hm => hm⟩, ?_, ?_, fun _ => hf, ?_, ?_, ?_, ?_, ?_, ?_⟩
  all_goals simp only [St.markRemoteDone, update_self]
  · exact ⟨trivial, trivial, trivial⟩
  · exact ⟨by simp [hr], by simp⟩
  · exact ⟨trivial, (h.fin d sid).symm⟩
  · exact nofun
  · exact id
  · exact fun _ => trivial
  · intro p
    split
    · rename_i hc
      by_cases hp : p = (d, (s.states (d, sid)).rid)
      · exact .inr ⟨hp, by rw [hp, update_self], hc, trivial⟩
      · exact .inl (update_of_ne hp ..)
    · exact .inl rfl
  · exact fun _ hc => .inl hc
  · rintro rfl hc; exact h.closedClient sid hc
  · rintro rfl hc; exact h.closedServer sid hc

/-! ## New streams -/

/-- The server registers a stream under the first frame it reads there. -/
theorem Base.register (h : Base s) {rest : List (Frame α)} (hr : (s.states (d, sid)).reader = .idle)
    (hf : (s.halves (d.peer, sid)).frames = m :: rest) : Base (s.register d sid m) := by
  unfold St.register
  dsimp only
  split
  · exact h
  · rename_i hn
    have hn : (s.states (d, sid)).registered = false := Bool.eq_false_iff.mpr hn
    have hlt : sid < s.opened := by
      by_contra hlt
      rw [(h.fresh d sid (Nat.le_of_not_lt hlt)).1] at hr
      cases hr
    obtain rfl := h.server_of_unregistered hlt hn
    have hacc : sid < s.accepted := by
      by_contra hacc
      rw [h.unaccepted sid (Nat.le_of_not_lt hacc)] at hr
      cases hr
    obtain ⟨hhalf, -, hheld⟩ := h.unregistered .server sid hn
    have hopen : (s.states (.server, sid)).writeClosed = false := by rw [h.fin, hhalf]
    have hf : (s.halves (.client, sid)).frames = m :: rest := hf
    obtain ⟨hmt, hrid⟩ : m.mt = (s.states (.client, sid)).reqType ∧ m.rid = (s.states (.client, sid)).rid := by
      rcases h.first sid hlt hn with ⟨x, l, hx, hmt, hrid⟩ | ⟨hx, -⟩
      · rw [hf] at hx
        cases hx
        exact ⟨hmt, hrid⟩
      · rw [hx] at hf
        cases hf
    have hclosed := fun k => h.home_closed (k := k) hlt
    exact { h with
      fresh := by have := h.fresh; grind
      unaccepted := by have := h.unaccepted; grind
      client := by have := h.client; grind
      serving := by have := h.serving; grind
      same := by have := h.same; grind
      fin := by have := h.fin; grind
      gone := by have := h.gone; grind
      done := by have := h.done; grind
      unregistered := by have := h.unregistered; grind [Side.peer]
      first := by have := h.first; simp only [First] at *; grind
      frames := by have := h.frames; simp only [On] at *; grind
      writer := by have := h.writer; grind
      entry := by have := h.entry; grind
      home := by have := h.home; grind
      homed := by have := h.homed; grind
      clientEntry := by have := h.clientEntry; grind
      serverEntry := by have := h.serverEntry; have := h.home; grind
      returnedClient := by have := h.returnedClient; grind
      closedClient := by have := h.closedClient; grind
      closedServer := by have := h.closedServer; grind }

theorem Base.accept (h : Base s) (hlt : s.accepted < s.opened) :
    Base { s.setState .server s.accepted ⟨0, .handshakeRequest, false, false, false, .idle⟩ with
      accepted := s.accepted + 1 } := by
  have hnew := h.unaccepted s.accepted (Nat.le_refl _)
  have hhalf := (h.unregistered .server s.accepted (by rw [hnew]; rfl)).1
  unfold St.setState
  dsimp only
  exact { h with
    fresh := by have := h.fresh; grind
    unaccepted := by have := h.unaccepted; grind
    client := by have := h.client; grind
    serving := by have := h.serving; grind [noStream]
    same := by have := h.same; grind
    fin := by have := h.fin; grind
    gone := by have := h.gone; grind
    done := by have := h.done; grind
    unregistered := by have := h.unregistered; grind [Side.peer, Reader.held, noStream]
    first := by have := h.first; simp only [First] at *; grind [noStream]
    frames := by have := h.frames; simp only [On] at *; grind [Reader.held, noStream]
    writer := by have := h.writer; grind [noStream]
    entry := by have := h.entry; grind [noStream]
    home := by have := h.home; grind
    homed := by have := h.homed; grind
    clientEntry := by have := h.clientEntry; grind
    serverEntry := by have := h.serverEntry; grind
    returnedClient := by have := h.returnedClient; grind [noStream]
    closedClient := by have := h.closedClient; grind
    closedServer := by have := h.closedServer; grind
    accepted_le := hlt }

/-- The client opens a stream: for the request of an exchange, or for a frame that comes when
    the exchange's own stream is done with. -/
theorem Base.openStream (h : Base s) {kind : Kind} (hw : s.writer .client = .idle)
    (hn : s.streams (.client, m.rid) = none) (hr : 0 ≤ m.rid) (hk : s.kinds m.rid = some kind)
    (hreq : s.passed (.client, m.rid) = [] → m.mt = kind.request) :
    Base (((s.passing .client m.rid m.mt).openStream m).setWriter .client (.found s.opened m m.mt)) := by
  have hnewC := h.fresh .client s.opened (Nat.le_refl _)
  have hnewS := h.fresh .server s.opened (Nat.le_refl _)
  have hacc := h.accepted_le
  have hhome : s.home m.rid = none → s.passed (.client, m.rid) = [] := fun hh => by
    by_contra hp
    obtain ⟨sid, hs⟩ := (h.passedHome m.rid).mp hp
    rw [hh] at hs
    cases hs
  have htodo : (s.writer .client).todo = none := by rw [hw]; rfl
  have hold : ∀ sid, s.home m.rid = some sid →
      (s.states (.client, sid)).writeClosed = true ∧ (s.states (.client, sid)).remoteDone = true := fun sid hs =>
    (h.clientEntry m.rid sid hs).resolve_left (by simp [hn])
  have hne {e : Side} {k : Nat} (hreg : (s.states (e, k)).registered = true) : k ≠ s.opened :=
    Nat.ne_of_lt (h.lt_of_registered hreg)
  unfold St.passing St.openStream St.setWriter
  dsimp only
  refine { h with
    fresh := by have := h.fresh; grind
    unaccepted := by have := h.unaccepted; grind
    client := by have := h.client; grind
    serving := by have := h.serving; grind [noStream]
    same := by have := h.same; grind [noStream]
    fin := by have := h.fin; grind
    gone := by have := h.gone; grind
    done := by have := h.done; grind
    unregistered := by have := h.unregistered; grind [Side.peer, Reader.held, noStream]
    first := by have := h.first; simp only [First] at *; grind [Writer.todo]
    home := by have := h.home; grind
    clientEntry := by have := h.clientEntry; have := h.home; grind
    serverEntry := by have := h.serverEntry; grind [noStream]
    returnedClient := by have := h.returnedClient; grind
    overs := by have := h.overs; grind
    closedClient := by have := h.closedClient; grind
    closedServer := by have := h.closedServer; grind [noStream]
    accepted_le := Nat.le_succ_of_le hacc, frames := ?frames, writer := ?writer, entry := ?entry,
    homed := ?homed, passedHome := ?passedHome }
  case frames =>
    intro e k x ho
    -- nothing is on the new stream
    have ho' : On s e k x := by
      rcases ho with ho | ho
      · exact .inl ho
      · dsimp only at ho
        rw [update_apply] at ho
        split at ho
        · cases ho
        · exact .inr ho
    have hk : k ≠ s.opened := by
      rintro rfl
      rcases ho' with ho' | ho'
      · rw [(h.fresh e _ (Nat.le_refl _)).2] at ho'; cases ho'
      · rw [(h.fresh e.peer _ (Nat.le_refl _)).1] at ho'; cases ho'
    obtain ⟨h1, h2⟩ := h.frames e k x ho'
    dsimp only
    rw [update_of_ne (by simp [hk])]
    exact ⟨h1, mem_update_append h2⟩
  case writer =>
    intro e k x rt hj
    dsimp only at hj ⊢
    cases e with
    | client =>
      rw [update_self] at hj
      cases hj
      rw [update_self, update_self]
      exact ⟨rfl, rfl, rfl, List.mem_append_right _ (List.mem_singleton_self _)⟩
    | server =>
      rw [update_of_ne (by simp)] at hj
      obtain ⟨h1, h2, h3, h4⟩ := h.writer .server k x rt hj
      rw [update_of_ne (by simp), update_of_ne (by simp [hne h1])]
      exact ⟨h1, h2, h3, mem_update_append h4⟩
  case entry =>
    intro e r k hk
    dsimp only at hk ⊢
    rw [update_apply] at hk
    split at hk
    · rename_i he
      cases he
      cases hk
      rw [update_self]
      exact ⟨rfl, rfl⟩
    · obtain ⟨h1, h2⟩ := h.entry e r k hk
      rw [update_of_ne (by simp [hne h1]), update_of_ne (by simp [hne h1])]
      exact ⟨h1, h2⟩
  case homed =>
    intro k hk
    dsimp only
    rcases Nat.lt_succ_iff_lt_or_eq.mp hk with hk | rfl
    · obtain ⟨j, hj, hor⟩ := h.homed k hk
      have hjlt := (h.home _ j hj).1
      rw [update_of_ne (by simp [Nat.ne_of_lt hk])]
      refine ⟨j, ?_, by rw [update_of_ne (by simp [Nat.ne_of_lt hjlt])]; exact hor⟩
      split
      · rename_i hnone
        rw [update_of_ne]
        · exact hj
        · intro heq
          rw [heq, hnone] at hj
          cases hj
      · exact hj
    · rw [update_self]
      cases hh : s.home m.rid with
      | none => exact ⟨s.opened, by simp, .inl rfl⟩
      | some j =>
        have hjlt := (h.home _ j hh).1
        refine ⟨j, by simpa using hh, .inr ?_⟩
        rw [update_of_ne (by simp [Nat.ne_of_lt hjlt])]
        exact hold j hh
  case passedHome =>
    intro r
    dsimp only
    by_cases hr' : r = m.rid
    · subst hr'
      rw [update_self]
      cases hh : s.home m.rid with
      | none => simp
      | some j => simp [hh]
    · rw [update_of_ne (by simp [hr'])]
      cases hh : s.home m.rid with
      | none => simpa [hr'] using h.passedHome r
      | some j => simpa using h.passedHome r

/-! ## Calls of WriteMessage and ReadMessage -/

theorem Base.passing (h : Base s) (hd : d = .client → ∃ sid, s.home rid = some sid) :
    Base (s.passing d rid mt) := by
  refine { h with
    frames := fun e k x ho => (h.frames e k x ho).imp id mem_update_append
    writer := fun e k x rt hj => ?_
    passedHome := fun r => ?_
    overs := fun r x hr hx hl => ?_
    closedClient := fun k hc => (h.closedClient k hc).imp (fun ⟨x, hx, hl⟩ => ⟨x, mem_update_append hx,
      hl⟩) update_or_true
    closedServer := fun k hc => ?_ }
  · obtain ⟨h1, h2, h3, h4⟩ := h.writer e k x rt hj
    exact ⟨h1, h2, h3, mem_update_append h4⟩
  · by_cases he : (Side.client, r) = (d, rid)
    · cases he
      simp only [St.passing, update_self]
      simpa using hd rfl
    · simp only [St.passing, update_of_ne he]
      exact h.passedHome r
  · simp only [St.passing, update_apply] at hx ⊢
    split at hx
    · rename_i he
      cases he
      rw [if_pos rfl]
      rcases List.mem_append.mp hx with hx | hx
      · rw [h.overs _ x hr hx hl, Bool.true_or]
      · -- a responder's last frame ends the exchange for it
        cases List.mem_singleton.mp hx
        have hini : initiator rid ≠ .server := by simp [initiator, Int.not_lt.mpr hr]
        simpa [endsOnPass, hini, isLast, or_assoc] using Or.inr hl
    · rename_i he
      rw [if_neg he]
      exact h.overs r x hr hx hl
  · obtain ⟨x, hx, hl⟩ := h.closedServer k hc
    exact ⟨x, mem_update_append hx, hl⟩

theorem Base.found (h : Base s) (hw : s.writer d = .idle) (hs : s.streams (d, m.rid) = some sid)
    (hp : m.mt ∈ s.passed (d, m.rid)) : Base (s.setWriter d (.found sid m (s.states (d, sid)).reqType)) := by
  obtain ⟨hreg, hrid⟩ := h.entry d m.rid sid hs
  refine { h with first := fun k hk hr => ?_, writer := fun e k x rt hj => ?_ }
  · rcases h.first k hk hr with hf | ⟨hn, x, hx, hmt⟩
    · exact .inl hf
    · refine .inr ⟨hn, x, ?_, hmt⟩
      simp only [St.setWriter, update_apply]
      split
      · rename_i hd
        rw [hd, hw] at hx
        cases hx
      · exact hx
  · simp only [St.setWriter, update_apply] at hj
    split at hj
    · rename_i he
      subst he
      cases hj
      refine ⟨hreg, hrid.symm, ?_, hp⟩
      cases e with
      | client => rfl
      | server => exact (h.same sid hreg).2
    · exact h.writer e k x rt hj

theorem Base.registered_of_closed (h : Base s) (hc : (s.states (d, sid)).writeClosed = true) :
    (s.states (d, sid)).registered = true := by
  by_contra hn
  rw [h.fin, (h.unregistered d sid (Bool.eq_false_iff.mpr hn)).1] at hc
  cases hc

theorem Base.registered_of_held (h : Base s) (hm : m ∈ (s.states (d, sid)).reader.held) :
    (s.states (d, sid)).registered = true := by
  by_contra hn
  rw [(h.unregistered d sid (Bool.eq_false_iff.mpr hn)).2.1] at hm
  cases hm

theorem Base.returns (h : Base s) (d : Side) (sid : Nat) (hm : m ∈ (s.states (d, sid)).reader.held) (b : Bool) :
    Base { s with
    returned := update s.returned (d.peer, m.rid) (s.returned (d.peer, m.rid) ++ [m])
    finished := update s.finished (d, m.rid) (s.finished (d, m.rid) || b) } := by
  have hreg := h.registered_of_held hm
  have hlt := h.lt_of_registered hreg
  have hrid := (h.frames d.peer sid m (.inr (by rwa [Side.peer_peer]))).1
  refine { h with
    returnedClient := fun r hr => ?_
    returnedServer := fun r hr => ?_
    overs := fun r x hr hx hl => update_or_true (h.overs r x hr hx hl)
    closedClient := fun k hc => (h.closedClient k hc).imp id update_or_true }
  · dsimp only at hr
    rw [update_apply] at hr
    split at hr
    · rename_i he
      obtain ⟨hd, rfl⟩ := Prod.mk.inj he
      have hserver : d = .server := by
        cases d with
        | client => cases hd
        | server => rfl
      subst hserver
      obtain ⟨k, hk, hor⟩ := h.homed sid hlt
      rw [hrid]
      refine ⟨k, hk, ?_⟩
      by_cases hne : k = sid
      · rw [hne]; exact hreg
      · exact h.registered_of_closed (h.home_closed hlt hk hne).2.2
    · exact h.returnedClient r hr
  · dsimp only at hr
    rw [update_apply] at hr
    split at hr
    · rename_i he
      obtain ⟨-, rfl⟩ := Prod.mk.inj he
      rw [hrid]
      exact (h.client sid hlt).2.2
    · exact h.returnedServer r hr

theorem Base.issue (h : Base s) {r : Int} {kind : Kind} {a b : Nat} (hn : s.kinds r = none)
    (ha : s.lastRequest ≤ a) (hb : s.lastServerRequest ≤ b) (hr : r ≤ a ∧ -(b : Int) ≤ r) : Base { s with
    lastRequest := a
    lastServerRequest := b
    kinds := update s.kinds r (some kind) } := by
  refine { h with home := fun k sid hk => ?_, issued := fun k x hk => ?_ }
  · obtain ⟨h1, h2, x, hx, hreq⟩ := h.home k sid hk
    refine ⟨h1, h2, x, ?_, hreq⟩
    dsimp only
    rw [update_of_ne]
    · exact hx
    · rintro rfl
      rw [hn] at hx
      cases hx
  · dsimp only at hk
    rw [update_apply] at hk
    split at hk
    · rename_i he
      rw [he]; exact hr
    · have := h.issued k x hk
      constructor <;> dsimp only <;> omega

theorem initiator_client : initiator rid = .client ↔ 0 ≤ rid := by
  unfold initiator
  split <;> simp <;> omega

theorem legal_cases (h : legal s d rid mt = true) : ∃ kind, s.kinds rid = some kind ∧
    (s.retired (d, rid) = true → late mt = true) ∧
    (initiator rid = d ∧ legalInitiator s d rid kind mt = true ∨
      initiator rid ≠ d ∧ s.returned (d.peer, rid) ≠ [] ∧ legalResponder kind mt = true) := by
  unfold legal at h
  split at h
  · rename_i kind hk
    obtain ⟨hr, hl⟩ := Bool.and_eq_true_iff.mp h
    refine ⟨kind, hk, fun hret => by simpa [hret] using hr, ?_⟩
    split at hl
    · exact .inl ⟨‹_›, hl⟩
    · obtain ⟨h1, h2⟩ := Bool.and_eq_true_iff.mp hl
      exact .inr ⟨‹_›, by simpa using h1, h2⟩
  · cases h

/-- The client answers nothing: no frame under a negative id is ever read. -/
theorem Base.legal_client (h : Base s) (hl : legal s .client rid mt = true) :
    0 ≤ rid ∧ ∃ kind, s.kinds rid = some kind ∧ legalInitiator s .client rid kind mt = true := by
  obtain ⟨kind, hk, -, ⟨hini, hl⟩ | ⟨hini, hret, -⟩⟩ := legal_cases hl
  · exact ⟨initiator_client.mp hini, kind, hk, hl⟩
  · exact absurd (initiator_client.mpr (h.returnedServer rid hret)) hini

theorem Base.call (h : Base s) {body : α} (hw : s.writer d = .idle) (hl : legal s d rid mt = true) :
    Base (s.call d rid mt body) := by
  suffices hb : Base ((s.passing d rid mt).streamForWrite d ⟨mt, rid, body, false⟩) from { hb with }
  have hmem : mt ∈ (s.passing d rid mt).passed (d, rid) := by simp [St.passing]
  unfold St.streamForWrite
  split
  · rename_i sid hs
    refine (h.passing fun hd => ?_).found hw hs hmem
    -- the entry is of a stream that was opened for the exchange
    obtain ⟨hreg, hrid⟩ := h.entry d rid sid hs
    obtain ⟨k, hk, -⟩ := h.homed sid (h.lt_of_registered hreg)
    exact ⟨k, hrid ▸ hk⟩
  · rename_i hs
    cases d with
    | server =>
      have hp : Base (s.passing .server rid mt) := h.passing nofun
      refine hp.lose _ _ fun sid m hm => ?_
      rw [show (s.passing .server rid mt).writer .server = .idle from hw] at hm
      cases hm
    | client =>
      obtain ⟨hr, kind, hk, hl⟩ := h.legal_client hl
      refine h.openStream (m := ⟨mt, rid, body, false⟩) hw hs hr hk fun hp => ?_
      simpa [legalInitiator, show s.passed (.client, rid) = [] from hp] using hl

theorem Base.resume (h : Base s) (hr : (s.states (d, sid)).reader = .funneled m) :
    Base (s.setState d sid { s.states (d, sid) with reader := .idle }) :=
  h.reader (h.registered_of_held (m := m) (by rw [hr]; exact List.mem_singleton_self _)) (by simp [hr]) (by simp [hr])
    (by simp) (by simp) nofun

/-- What the client takes for the last frame to it is the server's last frame. -/
theorem isLast_of_finOnRead (h : finOnRead mt rt = true) : isLast mt = true := by
  unfold finOnRead at h
  split at h <;> simp_all [isLast] <;> grind

end ValueRpc.Quic
