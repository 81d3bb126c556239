/-
  ValueRpc.Quic.Freed — when the QUIC stream of an exchange is freed.

  A stream is freed when each side closed its write half and saw the end of the other's. What
  closes a half is a message type (`finOnWrite`, `finOnRead`), and some exchanges end without
  it: a put-stream that is rejected with ErrorResponse leaves the client's half open for ever,
  and a CancelRequest for a unary call that is done opens a second stream, which the server
  never closes (`streams_leak`).

  Where a record is retired only behind a frame that closes the side's half (a request-only
  exchange of the client apart, whose half the server's last frame closes), and the client
  passes a frame only while it has the exchange's entry or as the first of the exchange
  (`noReopenNoEarlyRetire`):
  - `streams_freed`: in every run, an exchange that is retired on both sides and has nothing
    under way has both halves closed and no entry on either side; every stream is the one its
    exchange was opened with; and the transport by itself brings every run to where nothing
    is under way.

  `Follows` is what the client's half waits for: the frame that closes it is on its way.
-/

import ValueRpc.Quic.Steps

namespace ValueRpc.Quic

open Function ValueRpc.Lib
open ValueRpc.Core (MessageType)

variable {α : Type} {s t : St α} {d : Side} {sid : Nat} {rid : Int} {m : Frame α} {rt mt : MessageType} {e : Ev α}
  {body : α}

/-! ## What one step does to a stream -/

theorem finWrite_states (s : St α) (d : Side) (sid : Nat) (p : Side × Nat) : (s.finWrite d sid).states p =
    if p = (d, sid) then { s.states p with writeClosed := true } else s.states p := by
  unfold St.finWrite
  dsimp only
  split
  · split
    · rename_i hc hp
      subst hp
      cases hx : s.states (d, sid)
      simp_all
    · rfl
  · grind

theorem finWrite_core (s : St α) (d : Side) (sid : Nat) : (s.finWrite d sid).opened = s.opened ∧
    (s.finWrite d sid).home = s.home ∧ (s.finWrite d sid).passed = s.passed ∧
      (s.finWrite d sid).kinds = s.kinds ∧ (s.finWrite d sid).retired = s.retired := by
  unfold St.finWrite
  dsimp only
  split <;> exact ⟨rfl, rfl, rfl, rfl, rfl⟩

theorem finWrite_frames (s : St α) (d : Side) (sid : Nat) (p : Side × Nat) :
    ((s.finWrite d sid).halves p).frames = (s.halves p).frames := by
  unfold St.finWrite
  dsimp only
  split
  · rfl
  · grind

theorem register_core (s : St α) (d : Side) (sid : Nat) (m : Frame α) :
    (s.register d sid m).opened = s.opened ∧
    (s.register d sid m).home = s.home ∧ (s.register d sid m).passed = s.passed ∧
      (s.register d sid m).kinds = s.kinds ∧ (s.register d sid m).retired = s.retired := by
  unfold St.register
  dsimp only
  split <;> exact ⟨rfl, rfl, rfl, rfl, rfl⟩

theorem register_states (s : St α) (d : Side) (sid : Nat) (m : Frame α) (p : Side × Nat) :
    (s.register d sid m).states p =
      if p = (d, sid) ∧ (s.states p).registered = false then
        { s.states p with registered := true, reqType := m.mt, rid := m.rid } else s.states p := by
  unfold St.register
  dsimp only
  split <;> grind

theorem call_states (s : St α) (d : Side) (rid : Int) (mt : MessageType) (body : α) (p : Side × Nat) :
    (s.call d rid mt body).states p =
      if d = .client ∧ s.streams (d, rid) = none ∧ p = (.client, s.opened) then ⟨rid, mt, true, false, false, .idle⟩
      else s.states p := by
  cases hs : s.streams (d, rid) with
  | some sid => rw [call_found hs]; simp; rfl
  | none =>
    cases d with
    | server => rw [call_refused hs]; simp; rfl
    | client =>
      rw [call_opens hs]
      simp only [St.setWriter, St.openStream, St.passing, update_apply]
      simp

theorem call_halves (s : St α) (d : Side) (rid : Int) (mt : MessageType) (body : α) :
    (s.call d rid mt body).halves = s.halves := by
  cases hs : s.streams (d, rid) with
  | some sid => rw [call_found hs]; rfl
  | none =>
    cases d with
    | server => rw [call_refused hs]; rfl
    | client => rw [call_opens hs]; rfl

theorem call_core (s : St α) (d : Side) (rid : Int) (mt : MessageType) (body : α) :
    (s.call d rid mt body).passed = update s.passed (d, rid) (s.passed (d, rid) ++ [mt]) ∧
      (s.call d rid mt body).kinds = s.kinds ∧ (s.call d rid mt body).retired = s.retired := by
  cases hs : s.streams (d, rid) with
  | some sid => rw [call_found hs]; exact ⟨rfl, rfl, rfl⟩
  | none =>
    cases d with
    | server => rw [call_refused hs]; exact ⟨rfl, rfl, rfl⟩
    | client => rw [call_opens hs]; exact ⟨rfl, rfl, rfl⟩

theorem call_opened (s : St α) (d : Side) (rid : Int) (mt : MessageType) (body : α)
    (hlt : sid < (s.call d rid mt body).opened) :
    sid < s.opened ∨ d = .client ∧ s.streams (d, rid) = none ∧ sid = s.opened := by
  cases hs : s.streams (d, rid) with
  | some k => rw [call_found hs] at hlt; exact .inl hlt
  | none =>
    cases d with
    | server => rw [call_refused hs] at hlt; exact .inl hlt
    | client =>
      rw [call_opens hs] at hlt
      exact (Nat.lt_succ_iff_lt_or_eq.mp hlt).imp id fun he => ⟨rfl, rfl, he⟩

theorem call_writer (s : St α) (d : Side) (rid : Int) (mt : MessageType) (body : α) :
    (s.call d rid mt body).writer = update s.writer d
      (match s.streams (d, rid), d with
      | some sid, _ => .found sid ⟨mt, rid, body, false⟩ (s.states (d, sid)).reqType
      | none, .server => .idle
      | none, .client => .found s.opened ⟨mt, rid, body, false⟩ mt) := by
  cases hs : s.streams (d, rid) with
  | some sid => rw [call_found hs]; rfl
  | none =>
    cases d with
    | server => rw [call_refused hs]; rfl
    | client => rw [call_opens hs]; rfl

structure Changed (s t : St α) (d : Side) (sid : Nat) : Prop where
  keeps : (s.states (d, sid)).writeClosed = true → (t.states (d, sid)).writeClosed = true
  /-- The server's half is closed behind a write that ends it. -/
  closes : d = .server → (t.states (d, sid)).writeClosed = true → (s.states (d, sid)).writeClosed = true ∨
    ∃ m rt, s.writer d = .wrote sid m rt ∧ finOnWrite d m.mt rt = true
  /-- A stream keeps the id and the request it was opened with. -/
  key : d = .client → sid < s.opened → (t.states (d, sid)).rid = (s.states (d, sid)).rid ∧
    (t.states (d, sid)).reqType = (s.states (d, sid)).reqType

theorem changed_of_eq (hs : t.states = s.states) (d : Side) (sid : Nat) : Changed s t d sid := by
  constructor <;> rw [hs]
  · exact id
  · exact fun _ hc => .inl hc
  · exact fun _ _ => ⟨rfl, rfl⟩

theorem Does.changed (h : Base s) (hd : Does s e t) (d : Side) (sid : Nat) : Changed s t d sid := by
  cases hd with
  | pass e rid mt body _ _ =>
    have hfresh := (h.fresh .client s.opened (Nat.le_refl _)).1
    constructor <;> rw [call_states] <;> grind [noStream]
  | finish e k m rt _ =>
    simp only [St.setWriter]
    split
    · constructor <;> dsimp only <;> rw [finWrite_states] <;> grind
    · apply changed_of_eq
      rfl
  | accept =>
    have hnone := h.unaccepted s.accepted (Nat.le_refl _)
    constructor <;> simp only [St.setState, update_apply] <;> grind [noStream]
  | take e k m rest _ _ =>
    have hreg := h.client sid
    constructor <;> simp only [St.setState, update_apply, register_states] <;> grind
  | eof e k => constructor <;> simp only [St.markRemoteDone, update_apply] <;> grind
  | read e k m => constructor <;> simp only [St.setState, update_apply] <;> grind
  | resume e k m =>
    split
    · constructor <;> rw [finWrite_states] <;> simp only [St.setState, update_apply] <;> grind
    · constructor <;> simp only [St.setState, update_apply] <;> grind
  | issue | swallow | clear | write | drop | retire =>
    apply changed_of_eq
    rfl

/-- A frame of the server leaves the stream when its reader goes on, and where it ends the exchange the client
    closes its half there. -/
theorem Does.on_server (h : Base s) (hd : Does s e t) (ho : On s .server sid m) : On t .server sid m ∨
    finOnRead m.mt (s.states (.client, sid)).reqType = false ∨ (t.states (.client, sid)).writeClosed = true := by
  cases hd with
  | pass e rid mt body _ _ =>
    have hfresh := h.fresh
    simp only [On, call_states, call_halves] at *
    grind [noStream, Reader.held, Side.peer]
  | write e k x rt _ _ =>
    simp only [On, St.writeFrame, St.setWriter, update_apply] at *
    grind
  | finish e k x rt _ =>
    split
    · simp only [On, St.setWriter, finWrite_states, finWrite_frames] at *
      grind
    · exact .inl ho
  | accept =>
    simp only [On, St.setState, update_apply] at *
    grind [Side.peer]
  | take e k x rest hr hf =>
    cases e with
    | client =>
      simp only [On, Side.peer, St.setState, update_apply, register_halves] at *
      by_cases hk : k = sid
      · subst hk
        simp_all [Reader.held]
        grind
      · simp [Ne.symm hk, register_states]
        exact .inl ho
    | server =>
      simp only [On, Side.peer, St.setState, update_apply, register_halves, register_states] at *
      grind
  | eof e k hr _ =>
    simp only [On, St.markRemoteDone, update_apply] at *
    grind [Reader.held]
  | read e k x hr =>
    simp only [On, St.setState, update_apply] at *
    grind [Reader.held]
  | resume e k x hr =>
    split
    · simp only [On, St.setState, update_apply, finWrite_states, finWrite_frames] at *
      grind [Side.peer]
    · simp only [On, St.setState, update_apply] at *
      grind [Side.peer, Reader.held]
  | issue | swallow | clear | drop | retire => exact .inl ho

theorem Does.on_wrote (hd : Does s e t) (hw : t.writer .server = .wrote sid m rt) :
    s.writer .server = .wrote sid m rt ∨ On t .server sid m := by
  cases hd with
  | pass e rid mt body _ _ =>
    rw [call_writer, update_apply] at hw
    grind
  | swallow e k x _ _ _ => simp only [St.lose, St.setWriter, update_apply] at hw; grind
  | clear e k x rt _ => simp only [St.setWriter, update_apply] at hw; grind
  | write e k x rt _ _ =>
    simp only [On, St.writeFrame, St.setWriter, update_apply] at *
    grind
  | finish e k x rt _ =>
    split at hw
    · simp only [St.setWriter, finWrite_writer, update_apply] at hw; grind
    · simp only [St.setWriter, update_apply] at hw; grind
  | take e k x rest _ _ =>
    rw [← (register_opened s e k x).2.2]
    exact .inl hw
  | resume e k x _ =>
    split at hw
    · rw [finWrite_writer] at hw
      exact .inl hw
    · exact .inl hw
  | issue | accept | eof | read | drop | retire => exact .inl hw

/-- A call comes to its end: the half is closed, or the frame was not one that closes it. -/
theorem Does.job (hd : Does s e t) (hj : (s.writer d).job = some (sid, m, rt)) :
    (∃ x, (t.writer d).job = some (sid, x, rt) ∧ x.mt = m.mt) ∨ (t.states (d, sid)).writeClosed = true ∨
      finOnWrite d m.mt rt = false := by
  cases hd with
  | pass e rid mt body hw _ =>
    rw [call_writer, update_apply]
    split
    · rename_i he
      subst he
      rw [hw] at hj
      cases hj
    · exact .inl ⟨m, hj, rfl⟩
  | swallow e k x _ ht hc =>
    simp only [St.lose, St.setWriter, update_apply]
    split
    · rename_i he
      subst he
      obtain ⟨y, hy⟩ := job_of_todo ht
      rw [hj] at hy
      cases hy
      exact .inr (.inl hc)
    · exact .inl ⟨m, hj, rfl⟩
  | clear e k x y hw =>
    simp only [St.setWriter, update_apply]
    grind [Writer.job]
  | write e k x y hw _ =>
    simp only [St.writeFrame, St.setWriter, update_apply]
    grind [Writer.job]
  | finish e k x y hw =>
    by_cases he : d = e
    · subst he
      rw [hw] at hj
      cases hj
      cases hf : finOnWrite d m.mt rt with
      | false => exact .inr (.inr rfl)
      | true =>
        refine .inr (.inl ?_)
        simp [St.setWriter, finWrite_states]
    · refine .inl ⟨m, ?_, rfl⟩
      split
      · simpa [St.setWriter, he] using hj
      · simpa [St.setWriter, he] using hj
  | take e k x rest _ _ =>
    refine .inl ⟨m, ?_, rfl⟩
    rw [← (register_opened s e k x).2.2] at hj
    exact hj
  | resume e k x _ =>
    refine .inl ⟨m, ?_, rfl⟩
    split
    · rw [finWrite_writer]
      exact hj
    · exact hj
  | issue | accept | eof | read | drop | retire => exact .inl ⟨m, hj, rfl⟩

theorem Base.key_of_entry (h : Base s) (hs : s.streams (d, rid) = some sid) :
    (s.states (d, sid)).rid = rid := by
  obtain ⟨hreg, hrid⟩ := h.entry d rid sid hs
  cases d with
  | client => exact hrid
  | server => exact (h.same sid hreg).1.trans hrid

theorem call_streams (s : St α) (d : Side) (rid : Int) (mt : MessageType) (body : α) :
    (s.call d rid mt body).streams =
      if d = .client ∧ s.streams (d, rid) = none then update s.streams (.client,
        rid) (some s.opened) else s.streams := by
  cases hs : s.streams (d, rid) with
  | some sid => rw [call_found hs]; simp; rfl
  | none =>
    cases d with
    | server => rw [call_refused hs]; simp; rfl
    | client => rw [call_opens hs]; simp; rfl

theorem register_streams (s : St α) (d : Side) (sid : Nat) (m : Frame α) : (s.register d sid m).streams =
    if (s.states (d, sid)).registered = true then s.streams else update s.streams (d, m.rid) (some sid) := by
  unfold St.register
  dsimp only
  split <;> rfl

/-- The close of a half takes the entry of a stream that is done. -/
theorem Base.entry_finWrite (h : Base s) {f : Side} {k : Nat}
    (hs : (s.finWrite f k).streams (d, rid) = some sid)
    (hc : ((s.finWrite f k).states (d, sid)).writeClosed = true)
    (hr : ((s.finWrite f k).states (d, sid)).remoteDone = true) :
    s.streams (d, rid) = some sid ∧ (s.states (d, sid)).writeClosed = true ∧
      (s.states (d, sid)).remoteDone = true := by
  have hkey : s.streams (d, rid) = some sid → (s.states (d, sid)).rid = rid := h.key_of_entry
  have hstreams : (s.finWrite f k).streams = if (s.states (f, k)).writeClosed = false ∧
    (s.states (f, k)).remoteDone = true
      then update s.streams (f, (s.states (f, k)).rid) none else s.streams := by
    unfold St.finWrite
    dsimp only
    split <;> simp_all
  rw [finWrite_states] at hc hr
  rw [hstreams] at hs
  grind

/-- An entry of a stream that is done on its side was one before. -/
theorem Does.entry (h : Base s) (hd : Does s e t) (hs : t.streams (d, rid) = some sid)
    (hc : (t.states (d, sid)).writeClosed = true) (hr : (t.states (d, sid)).remoteDone = true) :
    s.streams (d, rid) = some sid ∧ (s.states (d, sid)).writeClosed = true ∧
      (s.states (d, sid)).remoteDone = true := by
  cases hd with
  | pass e r mt body _ _ =>
    rw [call_states] at hc hr
    rw [call_streams] at hs
    grind
  | finish e k x y hw =>
    split at hs
    · rename_i hf
      rw [if_pos hf] at hc hr
      exact h.entry_finWrite hs hc hr
    · rename_i hf
      rw [if_neg hf] at hc hr
      exact ⟨hs, hc, hr⟩
  | accept =>
    simp only [St.setState, update_apply] at *
    grind
  | take e k x rest _ _ =>
    have hopen : (s.states (e, k)).registered = false → (s.states (e, k)).writeClosed = false := fun hn => by
      rw [h.fin, (h.unregistered e k hn).1]
    simp only [St.setState, update_apply, register_states, register_streams] at *
    grind
  | eof e k _ _ =>
    have hkey : s.streams (d, rid) = some sid → (s.states (d, sid)).rid = rid := h.key_of_entry
    simp only [St.markRemoteDone, update_apply] at *
    grind
  | read e k x _ =>
    simp only [St.setState, update_apply] at *
    grind
  | resume e k x hr' =>
    have hbase := h.resume hr'
    split at hs
    · rename_i hf
      rw [if_pos hf] at hc hr
      have := hbase.entry_finWrite hs hc hr
      simp only [St.setState, update_apply] at this
      grind
    · rename_i hf
      rw [if_neg hf] at hc hr
      simp only [St.setState, update_apply] at *
      grind
  | issue | swallow | clear | write | drop | retire => exact ⟨hs, hc, hr⟩

/-- What the exchanges are, and how far, is the cores' alone. -/
theorem Does.core (hd : Does s e t) (he : e.own = true) :
    t.opened = s.opened ∧ t.home = s.home ∧ t.passed = s.passed ∧
    t.kinds = s.kinds ∧ t.retired = s.retired := by
  cases hd with
  | issue kind r a b hor => rcases hor with rfl | rfl <;> cases he
  | finish e k x y _ =>
    split
    · exact finWrite_core s e k
    · exact ⟨rfl, rfl, rfl, rfl, rfl⟩
  | take e k x rest _ _ => exact register_core s e k x
  | resume e k x _ =>
    split
    · exact finWrite_core _ e k
    · exact ⟨rfl, rfl, rfl, rfl, rfl⟩
  | swallow | clear | write | accept | eof | read => exact ⟨rfl, rfl, rfl, rfl, rfl⟩
  | pass | drop | retire => cases he

/-! ## The invariant -/

/-- The client sends nothing behind the request but grants and a cancel: its half is closed by
    the server's last frame. -/
def requestOnly (rt : MessageType) : Bool := rt = .functionRequest || rt = .getStreamRequest || rt = .handshakeRequest

/-- The client's half is closed, or the frame that closes it is on its way. -/
def Follows (s : St α) (sid : Nat) : Prop :=
  (s.states (.client, sid)).writeClosed = true ∨
    ∃ m, On s .server sid m ∧ finOnRead m.mt (s.states (.client, sid)).reqType = true

/-- A client's frame finds the exchange's entry or is its first; a record is retired behind a
    frame that closes the side's half, or where the client's is closed for it. -/
def noReopenNoEarlyRetire (s : St α) : Ev α → Bool
  | .pass .client rid _ _ => (s.streams (.client, rid)).isSome || (s.passed (.client, rid)).isEmpty
  | .retire .server rid => decide (rid < 0) || s.closing .server rid
  | .retire .client rid => (s.kinds rid).any (fun kind => requestOnly kind.request) || s.closing .client rid
  | _ => true

structure Tidy (s : St α) : Prop where
  base : Base s
  home : ∀ sid, sid < s.opened → s.home (s.states (.client, sid)).rid = some sid
  answers : ∀ rid mt, 0 ≤ rid → mt ∈ s.passed (.server, rid) → ∃ kind, s.kinds rid = some kind ∧
    legalResponder kind mt = true
  answered : ∀ rid, 0 ≤ rid → s.passed (.server, rid) ≠ [] → ∃ sid, s.home rid = some sid
  ending : ∀ d rid sid, s.home rid = some sid → s.closing d rid = true → (s.states (d, sid)).writeClosed = true ∨
    ∃ m rt, (s.writer d).job = some (sid, m, rt) ∧ finOnWrite d m.mt rt = true
  followed : ∀ sid, (s.states (.server, sid)).writeClosed = true →
    requestOnly (s.states (.client, sid)).reqType = true → Follows s sid
  wrote : ∀ sid m rt, s.writer .server = .wrote sid m rt → finOnRead m.mt rt = true → Follows s sid
  entry : ∀ d rid sid, s.streams (d, rid) = some sid → (s.states (d, sid)).writeClosed = true →
    (s.states (d, sid)).remoteDone = true → False
  retiredServer : ∀ rid, 0 ≤ rid → s.retired (.server, rid) = true → s.closing .server rid = true
  retiredClient : ∀ rid, s.retired (.client, rid) = true →
    (s.kinds rid).any (fun kind => requestOnly kind.request) = true ∨ s.closing .client rid = true

theorem tidy_start : Tidy (start : St α) where
  base := base_start
  home := by simp [start]
  answers := by simp [start]
  answered := by simp [start]
  ending := by simp [start]
  followed := by simp [start, noStream]
  wrote := by simp [start]
  entry := by simp [start]
  retiredServer := by simp [start]
  retiredClient := by simp [start]

theorem Follows.step (h : Base s) (hd : Does s e t) (hlt : sid < s.opened) (hf : Follows s sid) :
    Follows t sid := by
  have hch := hd.changed h .client sid
  rcases hf with hc | ⟨m, ho, hr⟩
  · exact .inl (hch.keeps hc)
  · rcases hd.on_server h ho with ho | hn | hc
    · exact .inr ⟨m, ho, by rw [(hch.key rfl hlt).2]; exact hr⟩
    · rw [hr] at hn
      cases hn
    · exact .inl hc

/-- What closes the server's half of a request-only exchange closes the client's when it is read. -/
theorem finOnRead_of_finOnWrite {kind : Kind} (hl : legalResponder kind mt = true)
    (hf : finOnWrite .server mt kind.request = true) (hr : requestOnly kind.request = true) :
    finOnRead mt kind.request = true := by
  revert hl hf hr
  cases kind <;> cases mt <;> decide

theorem Tidy.step_followed (h : Tidy s) (hd : Does s e t) (hc : (t.states (.server, sid)).writeClosed = true)
    (hr : requestOnly (t.states (.client, sid)).reqType = true) : Follows t sid := by
  rcases (hd.changed h.base .server sid).closes rfl hc with hc | ⟨m, rt, hw, hf⟩
  · have hlt := h.base.lt_of_registered (h.base.registered_of_closed hc)
    rw [((hd.changed h.base .client sid).key rfl hlt).2] at hr
    exact (h.followed sid hc hr).step h.base hd hlt
  · -- the write that closes it is one the client closes its half for
    obtain ⟨hreg, hrid, rfl, hp⟩ := h.base.writer .server sid m rt (by rw [hw]; rfl)
    have hlt := h.base.lt_of_registered hreg
    obtain ⟨-, -, kind, hk, hreq⟩ := h.base.home _ sid (h.home sid hlt)
    rw [((hd.changed h.base .client sid).key rfl hlt).2] at hr
    obtain ⟨kind', hk', hl⟩ := h.answers m.rid m.mt (hrid ▸ (h.base.client sid hlt).2.2) hp
    rw [hrid, hk] at hk'
    cases hk'
    rw [hreq] at hf hr hw
    exact (h.wrote sid m _ hw (finOnRead_of_finOnWrite hl hf hr)).step h.base hd hlt

theorem Tidy.step_wrote (h : Tidy s) (hb : Base t) (hd : Does s e t) (hw : t.writer .server = .wrote sid m rt)
    (hf : finOnRead m.mt rt = true) : Follows t sid := by
  rcases hd.on_wrote hw with hw' | ho
  · have hreg := (h.base.writer .server sid m rt (by rw [hw']; rfl)).1
    exact (h.wrote sid m rt hw' hf).step h.base hd (h.base.lt_of_registered hreg)
  · obtain ⟨-, -, rfl, -⟩ := hb.writer .server sid m rt (by rw [hw]; rfl)
    exact .inr ⟨m, ho, hf⟩

theorem Tidy.step_entry (h : Tidy s) (hd : Does s e t) (hs : t.streams (d, rid) = some sid)
    (hc : (t.states (d, sid)).writeClosed = true) (hr : (t.states (d, sid)).remoteDone = true) : False := by
  obtain ⟨h1, h2, h3⟩ := hd.entry h.base hs hc hr
  exact h.entry d rid sid h1 h2 h3

theorem Tidy.own (h : Tidy s) (hb : Base t) (he : e.own = true) (hd : Does s e t) : Tidy t := by
  obtain ⟨hopened, hhome, hpassed, hkinds, hretired⟩ := hd.core he
  have hclosing : t.closing = s.closing := by
    funext d rid
    simp only [St.closing, hpassed, hkinds]
  refine ⟨hb, fun sid hlt => ?_, ?_, ?_, fun d rid sid hk hc => ?_, fun sid => h.step_followed hd,
    fun sid m rt => h.step_wrote hb hd, fun d rid sid => h.step_entry hd, ?_, ?_⟩
  · rw [hopened] at hlt
    rw [hhome, ((hd.changed h.base .client sid).key rfl hlt).1]
    exact h.home sid hlt
  · rw [hpassed, hkinds]; exact h.answers
  · rw [hpassed, hhome]; exact h.answered
  · rw [hhome] at hk
    rw [hclosing] at hc
    rcases h.ending d rid sid hk hc with hc | ⟨m, rt, hj, hf⟩
    · exact .inl ((hd.changed h.base d sid).keeps hc)
    · rcases hd.job hj with ⟨x, hx, hmt⟩ | hc | hn
      · exact .inr ⟨x, rt, hx, hmt ▸ hf⟩
      · exact .inl hc
      · rw [hf] at hn
        cases hn
  · rw [hretired, hclosing]; exact h.retiredServer
  · rw [hretired, hclosing, hkinds]; exact h.retiredClient

theorem closing_mono (hp : ∀ x ∈ s.passed (d, rid), x ∈ t.passed (d, rid))
    (hk : ∀ kind, s.kinds rid = some kind → t.kinds rid = some kind) (hc : s.closing d rid = true) :
    t.closing d rid = true := by
  cases hkind : s.kinds rid with
  | none => simp [St.closing, hkind] at hc
  | some kind =>
    obtain ⟨x, hx, hf⟩ := (closing_iff hkind).mp hc
    exact (closing_iff (hk kind hkind)).mpr ⟨x, hp x hx, hf⟩

theorem Tidy.core (h : Tidy s) (hb : Base t) (hd : Does s e t) (hrest : t = { s with
      lastRequest := t.lastRequest, lastServerRequest := t.lastServerRequest, kinds := t.kinds, finished := t.finished,
      retired := t.retired })
    (hk : ∀ rid kind, s.kinds rid = some kind → t.kinds rid = some kind)
    (hs : ∀ rid, 0 ≤ rid → t.retired (.server, rid) = true → s.retired (.server, rid) = true ∨
      s.closing .server rid = true)
    (hc : ∀ rid, t.retired (.client, rid) = true → s.retired (.client, rid) = true ∨
      (s.kinds rid).any (fun kind => requestOnly kind.request) = true ∨ s.closing .client rid = true) : Tidy t := by
  have hpassed : t.passed = s.passed := (congrArg St.passed hrest :)
  have hhome : t.home = s.home := (congrArg St.home hrest :)
  have hstates : t.states = s.states := (congrArg St.states hrest :)
  have hmono {d : Side} {rid : Int} (hcl : s.closing d rid = true) : t.closing d rid = true :=
    closing_mono (fun x hx => hpassed ▸ hx) (hk rid) hcl
  refine ⟨hb, fun sid hlt => ?_, fun rid mt hr hm => ?_, ?_, fun d rid sid hh hcl => ?_, fun sid => h.step_followed hd,
    fun sid m rt => h.step_wrote hb hd, fun d rid sid => h.step_entry hd, fun rid hr hret => ?_, fun rid hret => ?_⟩
  · rw [hhome, hstates]
    exact h.home sid ((congrArg St.opened hrest :) ▸ hlt)
  · obtain ⟨kind, hkind, hl⟩ := h.answers rid mt hr (hpassed ▸ hm)
    exact ⟨kind, hk rid kind hkind, hl⟩
  · rw [hpassed, hhome]; exact h.answered
  · -- the kind of an exchange that has a stream is known
    rw [hhome] at hh
    obtain ⟨-, -, kind, hkind, -⟩ := h.base.home rid sid hh
    obtain ⟨x, hx, hf⟩ := (closing_iff (hk rid kind hkind)).mp hcl
    rw [hstates, show t.writer = s.writer from (congrArg St.writer hrest :)]
    exact h.ending d rid sid hh ((closing_iff hkind).mpr ⟨x, hpassed ▸ hx, hf⟩)
  · exact hmono ((hs rid hr hret).elim (h.retiredServer rid hr) id)
  · have hor := (hc rid hret).elim (h.retiredClient rid) id
    refine hor.imp (fun hany => ?_) hmono
    cases hkind : s.kinds rid with
    | none => rw [hkind] at hany; cases hany
    | some kind => rw [hk rid kind hkind, ← hkind]; exact hany

/-- A stream the client opens is the first of its exchange. -/
theorem Tidy.home_none (h : Tidy s) (hs : s.streams (.client, rid) = none)
    (ho : noReopenNoEarlyRetire s (.pass .client rid mt body) = true) : s.home rid = none := by
  have hp : s.passed (.client, rid) = [] := by simpa [noReopenNoEarlyRetire, hs] using ho
  by_contra hn
  obtain ⟨k, hk⟩ := Option.ne_none_iff_exists'.mp hn
  exact (h.base.passedHome rid).mpr ⟨k, hk⟩ hp

/-- An entry leads to the exchange's stream. -/
theorem Tidy.home_of_entry (h : Tidy s) (hs : s.streams (d, rid) = some sid) : s.home rid = some sid := by
  obtain ⟨hreg, hrid⟩ := h.base.entry d rid sid hs
  rw [← hrid]
  exact h.home sid (h.base.lt_of_registered hreg)

theorem Tidy.call_home (h : Tidy s) (ho : noReopenNoEarlyRetire s (.pass d rid mt body) = true) {r : Int}
    {k : Nat} :
    (s.call d rid mt body).home r = some k ↔
      s.home r = some k ∨ d = .client ∧ s.streams (d, rid) = none ∧ r = rid ∧ k = s.opened := by
  cases hs : s.streams (d, rid) with
  | some sid =>
    rw [call_found hs]
    simp only [reduceCtorEq, false_and, and_false, or_false]
    rfl
  | none =>
    cases d with
    | server =>
      rw [call_refused hs]
      simp only [reduceCtorEq, false_and, or_false]
      rfl
    | client =>
      have hn := h.home_none hs ho
      rw [opens_home hs, if_pos hn, update_apply]
      grind

theorem Tidy.call_passed (h : Tidy s) (hw : s.writer d = .idle) (hl : legal s d rid mt = true)
    (ho : noReopenNoEarlyRetire s (.pass d rid mt body) = true) {f : Side} {r : Int}
    (hh : (s.call d rid mt body).home r = some sid) (hcl : s.closing f r = true) :
    (s.states (f, sid)).writeClosed = true ∨
      ∃ m rt, ((s.call d rid mt body).writer f).job = some (sid, m, rt) ∧ finOnWrite f m.mt rt = true := by
  rcases (h.call_home ho).mp hh with hk | ⟨rfl, hs, rfl, -⟩
  · refine (h.ending f r sid hk hcl).imp id fun ⟨m, rt, hj, hf⟩ => ⟨m, rt, ?_, hf⟩
    rw [call_writer, update_apply, if_neg]
    · exact hj
    · rintro rfl
      rw [hw] at hj
      cases hj
  · -- nothing was passed for an exchange that had no stream
    have hn := h.home_none hs ho
    have hp : s.passed (f, r) ≠ [] := fun hp => by simp [St.closing, hp] at hcl
    obtain ⟨k, hk⟩ : ∃ k, s.home r = some k := by
      cases f with
      | client => exact (h.base.passedHome r).mp hp
      | server => exact h.answered r (h.base.legal_client hl).1 hp
    rw [hn] at hk
    cases hk

/-- A call with a frame that closes the half is at work on it, unless the half is closed. -/
theorem Tidy.call_closes (h : Tidy s) {kind : Kind} (hl : legal s d rid mt = true)
    (ho : noReopenNoEarlyRetire s (.pass d rid mt body) = true) (hkind : s.kinds rid = some kind)
    (hh : (s.call d rid mt body).home rid = some sid) (hf : finOnWrite d mt kind.request = true) :
    (s.states (d, sid)).writeClosed = true ∨
      ∃ m rt, ((s.call d rid mt body).writer d).job = some (sid, m, rt) ∧ finOnWrite d m.mt rt = true := by
  rw [h.call_home ho] at hh
  rw [call_writer, update_self]
  cases hs : s.streams (d, rid) with
  | some k =>
    -- the request the stream was opened with is the exchange's
    have hk := h.home_of_entry hs
    obtain rfl : k = sid := by
      rcases hh with hh | ⟨-, hn, -⟩
      · rw [hk] at hh; cases hh; rfl
      · rw [hs] at hn; cases hn
    obtain ⟨-, -, kind', hk', hreq⟩ := h.base.home rid k hk
    rw [hkind] at hk'
    cases hk'
    refine .inr ⟨_, _, rfl, ?_⟩
    cases d with
    | client => rw [hreq]; exact hf
    | server => rw [(h.base.same k (h.base.entry _ _ _ hs).1).2, hreq]; exact hf
  | none =>
    cases d with
    | server =>
      -- no entry on the server, so it closed the half
      have hk : s.home rid = some sid := hh.resolve_right fun hx => by cases hx.1
      obtain ⟨hlt, hrid, -⟩ := h.base.home rid sid hk
      obtain ⟨k, hk', hreg⟩ := h.base.home_of_legal hl (hrid ▸ (h.base.client sid hlt).2.2)
      rw [hk] at hk'
      cases hk'
      exact .inl ((h.base.serverEntry rid sid hk hreg).resolve_left (by simp [hs]))
    | client =>
      obtain rfl : sid = s.opened := by
        rcases hh with hh | ⟨-, -, -, he⟩
        · rw [h.home_none hs ho] at hh; cases hh
        · exact he
      exact .inr ⟨_, _, rfl, hf⟩

theorem Tidy.call (h : Tidy s) (hb : Base (s.call d rid mt body)) (hw : s.writer d = .idle)
    (hl : legal s d rid mt = true) (ho : noReopenNoEarlyRetire s (.pass d rid mt body) = true) :
    Tidy (s.call d rid mt body) := by
  have hd : Does s (.pass d rid mt body) (s.call d rid mt body) := .pass d rid mt body hw hl
  obtain ⟨hpassed, hkinds, hretired⟩ := call_core s d rid mt body
  have hmono {f : Side} {r : Int} (hcl : s.closing f r = true) : (s.call d rid mt body).closing f r = true := by
    refine closing_mono (fun x hx => ?_) (fun kind hk => hkinds ▸ hk) hcl
    rw [hpassed]
    exact mem_update_append hx
  refine ⟨hb, fun sid hlt => ?_, fun r x hr hx => ?_, fun r hr hx => ?_, fun f r sid hh hcl => ?_,
    fun sid => h.step_followed hd, fun sid m rt => h.step_wrote hb hd, fun d rid sid => h.step_entry hd,
    fun r hr hret => ?_, fun r hret => ?_⟩
  · rw [h.call_home ho]
    rcases call_opened s d rid mt body hlt with hlt | ⟨hd', hs, rfl⟩
    · rw [((hd.changed h.base .client sid).key rfl hlt).1]
      exact .inl (h.home sid hlt)
    · refine .inr ⟨hd', hs, ?_, rfl⟩
      rw [call_states, if_pos ⟨hd', hs, rfl⟩]
  · rw [hkinds]
    rw [hpassed, update_apply] at hx
    split at hx
    · rename_i he
      obtain ⟨rfl, rfl⟩ := Prod.mk.inj he
      rcases List.mem_append.mp hx with hx | hx
      · exact h.answers r x hr hx
      · rw [List.mem_singleton.mp hx]
        obtain ⟨kind, hk, -, ⟨hini, -⟩ | ⟨-, -, hresp⟩⟩ := legal_cases hl
        · rw [initiator_client.mpr hr] at hini
          cases hini
        · exact ⟨kind, hk, hresp⟩
    · exact h.answers r x hr hx
  · have hgrows {k : Nat} (hk : s.home r = some k) : ∃ k, (s.call d rid mt body).home r = some k :=
      ⟨k, (h.call_home ho).mpr (.inl hk)⟩
    rw [hpassed, update_apply] at hx
    split at hx
    · rename_i he
      obtain ⟨rfl, rfl⟩ := Prod.mk.inj he
      exact hgrows (h.base.home_of_legal hl hr).choose_spec.1
    · exact hgrows (h.answered r hr hx).choose_spec
  · obtain ⟨-, -, kind, hk, -⟩ := hb.home r sid hh
    rw [hkinds] at hk
    obtain ⟨x, hx, hf⟩ := (closing_iff (hkinds ▸ hk)).mp hcl
    refine Or.imp_left (hd.changed h.base f sid).keeps ?_
    rw [hpassed, update_apply] at hx
    split at hx
    · rename_i he
      obtain ⟨rfl, rfl⟩ := Prod.mk.inj he
      rcases List.mem_append.mp hx with hx | hx
      · exact h.call_passed hw hl ho hh ((closing_iff hk).mpr ⟨x, hx, hf⟩)
      · rw [List.mem_singleton.mp hx] at hf
        exact h.call_closes hl ho hk hh hf
    · exact h.call_passed hw hl ho hh ((closing_iff hk).mpr ⟨x, hx, hf⟩)
  · exact hmono (h.retiredServer r hr (hretired ▸ hret))
  · rw [hkinds]
    exact (h.retiredClient r (hretired ▸ hret)).imp id hmono

theorem step_tidy (h : Tidy s) (ho : noReopenNoEarlyRetire s e = true) (hs : step s e = some t) : Tidy t := by
  have hb := step_base h.base hs
  have hd := step_cases h.base hs
  by_cases he : e.own = true
  · exact h.own hb he hd
  have hd' := hd
  cases hd with
  | issue kind r a b _ hn _ _ _ =>
    refine h.core hb hd' rfl (fun rid x hx => ?_) (fun _ _ => .inl) (fun _ => .inl)
    dsimp only
    rw [update_of_ne, hx]
    rintro rfl
    rw [hn] at hx
    cases hx
  | pass d rid mt body hw hl => exact h.call hb hw hl ho
  | drop d rid => exact h.core hb hd' rfl (fun _ _ => id) (fun _ _ => .inl) (fun _ => .inl)
  | retire d rid _ =>
    refine h.core hb hd' rfl (fun _ _ => id) (fun r hr hret => ?_) (fun r hret => ?_)
    · simp only [update_apply] at hret
      split at hret
      · rename_i hx
        cases hx
        have : ¬ rid < 0 := by omega
        exact .inr (by simpa [noReopenNoEarlyRetire, this] using ho)
      · exact .inl hret
    · simp only [update_apply] at hret
      split at hret
      · rename_i hx
        cases hx
        exact .inr (by simpa [noReopenNoEarlyRetire] using ho)
      · exact .inl hret
  | swallow d sid m hor => rcases hor with rfl | rfl <;> exact absurd rfl he
  | clear | write | finish | accept | take | eof | read | resume => exact absurd rfl he

/-! ## Freed -/

/-- The exchange is gone from both cores, and nothing is under way on its stream. -/
structure Settled (s : St α) (rid : Int) (sid : Nat) : Prop where
  retired : ∀ d, s.retired (d, rid) = true
  writer : ∀ d m rt, (s.writer d).job ≠ some (sid, m, rt)
  frames : ∀ d, (s.halves (d, sid)).frames = []
  held : ∀ d, (s.states (d, sid)).reader.held = []
  gone : ∀ d, (s.halves (d, sid)).fin = true → (s.states (d.peer, sid)).reader = .gone

theorem settled_of_drained (hd : Drained s) (hr : ∀ d, s.retired (d, rid) = true) : Settled s rid sid where
  retired := hr
  writer d m rt hj := by
    rw [hd.writer d] at hj
    cases hj
  frames d := hd.frames d sid
  held d := hd.held d sid
  gone d := hd.gone d sid

def Freed (s : St α) (rid : Int) (sid : Nat) : Prop := ∀ d, (s.halves (d, sid)).fin = true ∧ s.streams (d, rid) = none

/-- What was to close a half has closed it. -/
theorem Tidy.closed_of_settled (h : Tidy s) (hk : s.home rid = some sid) (hs : Settled s rid sid)
    (hc : s.closing d rid = true) : (s.states (d, sid)).writeClosed = true := by
  refine (h.ending d rid sid hk hc).resolve_right ?_
  rintro ⟨m, rt, hj, -⟩
  exact hs.writer d m rt hj

theorem Tidy.freed (h : Tidy s) (hk : s.home rid = some sid) (hs : Settled s rid sid) : Freed s rid sid := by
  obtain ⟨hlt, hrid, kind, hkind, hreq⟩ := h.base.home rid sid hk
  have hserver : (s.states (.server, sid)).writeClosed = true :=
    h.closed_of_settled hk hs (h.retiredServer rid (hrid ▸ (h.base.client sid hlt).2.2) (hs.retired .server))
  have hclient : (s.states (.client, sid)).writeClosed = true := by
    rcases h.retiredClient rid (hs.retired .client) with hro | hc
    · have hro : requestOnly kind.request = true := by simpa [hkind] using hro
      refine (h.followed sid hserver (hreq ▸ hro)).resolve_right ?_
      rintro ⟨m, ho | ho, -⟩
      · rw [hs.frames] at ho; cases ho
      · rw [hs.held] at ho; cases ho
    · exact h.closed_of_settled hk hs hc
  have hclosed (d : Side) : (s.states (d, sid)).writeClosed = true := by
    cases d with
    | client => exact hclient
    | server => exact hserver
  have hfin (d : Side) : (s.halves (d, sid)).fin = true := h.base.fin d sid ▸ hclosed d
  refine fun d => ⟨hfin d, ?_⟩
  by_contra hn
  obtain ⟨k, he⟩ := Option.ne_none_iff_exists'.mp hn
  have hkk := h.home_of_entry he
  rw [hk] at hkk
  cases hkk
  have hgone := hs.gone d.peer (hfin d.peer)
  rw [Side.peer_peer] at hgone
  exact h.entry d rid sid he (hclosed d) ((h.base.gone d sid).mpr hgone)

theorem reach_tidy (h : sys.Reach (fun s e => noReopenNoEarlyRetire s e = true) s) : Tidy s :=
  Sys.Reach.inv (P := Tidy) (fun _ h0 => h0 ▸ tidy_start) (fun _ _ _ hi ho hs => step_tidy hi ho hs) h

theorem streams_freed (h : sys.Reach (fun s e => noReopenNoEarlyRetire s e = true) s) :
    (∀ rid sid, s.home rid = some sid → Settled s rid sid → Freed s rid sid) ∧
    (∀ sid, sid < s.opened → s.home (s.states (.client, sid)).rid = some sid) ∧
    sys.Inevitable (fun _ e => e.own = true) (fun t => ∀ rid sid, t.home rid = some sid →
      (∀ d, t.retired (d, rid) = true) → Freed t rid sid) s := by
  have hi := reach_tidy h
  refine ⟨fun _ _ => hi.freed, hi.home, drains (I := Tidy) (fun s e t hc he hs => ?_) (fun _ hc => hc.base)
    (fun t hc hd rid sid hk hr => ?_) hi⟩
  · exact hc.own (step_base hc.base hs) he (step_cases hc.base hs)
  · exact hc.freed hk (settled_of_drained hd hr)

/-! ## Runs -/

def St.settled (s : St Nat) (rid : Int) (sid : Nat) (d : Side) : Bool :=
  s.retired (d, rid) && decide (s.writer d = .idle) && decide ((s.halves (d, sid)).frames = []) &&
    decide ((s.states (d, sid)).reader.held = []) &&
    (!(s.halves (d, sid)).fin || decide ((s.states (d.peer, sid)).reader = .gone))

theorem settled_of_check {s : St Nat} (hc : s.settled rid sid .client = true)
    (hs : s.settled rid sid .server = true) : Settled s rid sid := by
  have hall (d : Side) : s.settled rid sid d = true := by
    cases d with
    | client => exact hc
    | server => exact hs
  simp only [St.settled, Bool.and_eq_true, decide_eq_true_eq, Bool.or_eq_true, Bool.not_eq_true'] at hall
  refine ⟨fun d => (hall d).1.1.1.1, fun d m rt hj => ?_, fun d => (hall d).1.1.2, fun d => (hall d).1.2,
    fun d hf => ?_⟩
  · rw [(hall d).1.1.1.2] at hj
    cases hj
  · refine (hall d).2.resolve_left ?_
    simp [hf]

def putRun : List (Ev Nat) :=
  ([.issue .putStream] : List (Ev Nat)) ++ writes .client 1 .putStreamRequest 0 ++
    ([.accept] : List (Ev Nat)) ++ reads .server 0 ++
    writes .server 1 .streamReady 0 ++ reads .client 0 ++ ([.eof .client 0] : List (Ev Nat)) ++
      writes .client 1 .streamEnd 0 ++
    reads .server 0 ++ ([.eof .server 0, .retire .server 1, .retire .client 1] : List (Ev Nat))

theorem streams_freed_putRun :
    ∃ s : St Nat, sys.Reach (fun s e => noReopenNoEarlyRetire s e = true) s ∧ s.home 1 = some 0 ∧
    Settled s 1 0 ∧ Freed s 1 0 := by
  obtain ⟨s, hr, hk, hc, hs⟩ := Sys.reach_of_exec sys (fun s e => noReopenNoEarlyRetire s e = true)
    (start : St Nat) rfl putRun
    (P := fun s => s.home 1 = some 0 ∧ s.settled 1 0 .client = true ∧ s.settled 1 0 .server = true) (by decide +kernel)
  have hset := settled_of_check hc hs
  exact ⟨s, hr, hk, hset, (streams_freed hr).1 1 0 hk hset⟩

/-- A put-stream that is rejected: nothing makes the client close its half. -/
def rejectedRun : List (Ev Nat) :=
  ([.issue .putStream] : List (Ev Nat)) ++ writes .client 1 .putStreamRequest 0 ++
    ([.accept] : List (Ev Nat)) ++ reads .server 0 ++
    writes .server 1 .errorResponse 0 ++ reads .client 0 ++
      ([.eof .client 0, .retire .server 1, .retire .client 1] : List (Ev Nat))

/-- A unary call that is done and freed, and a CancelRequest for it. -/
def lateCancelRun : List (Ev Nat) :=
  ([.issue .unary] : List (Ev Nat)) ++ writes .client 1 .functionRequest 0 ++
    ([.accept] : List (Ev Nat)) ++ reads .server 0 ++
    writes .server 1 .functionResponse 7 ++ reads .client 0 ++
    ([.eof .client 0, .eof .server 0, .retire .server 1, .retire .client 1] : List (Ev Nat)) ++
      writes .client 1 .cancelRequest 0 ++
    ([.accept] : List (Ev Nat)) ++ reads .server 1 ++ ([.eof .server 1] : List (Ev Nat))

/-- A rejected put-stream keeps its stream and both entries when nothing is left of it; a cancel of
    a call that is done opens a stream, and the server keeps it. -/
theorem streams_leak :
    (∃ s : St Nat, sys.Reach Sys.any s ∧ s.home 1 = some 0 ∧ Settled s 1 0 ∧ (s.halves (.client, 0)).fin = false ∧
      s.streams (.client, 1) = some 0 ∧ s.streams (.server, 1) = some 0) ∧
    ∃ s : St Nat, sys.Reach Sys.any s ∧ s.home 1 = some 0 ∧ Settled s 1 0 ∧ s.opened = 2 ∧
      (s.states (.client, 1)).rid = 1 ∧ (s.halves (.server, 1)).fin = false ∧ s.streams (.server, 1) = some 1 := by
  refine ⟨?_, ?_⟩
  · obtain ⟨s, hr, hk, hc, hs, hleft⟩ := Sys.reach_of_exec sys Sys.any (start : St Nat) rfl rejectedRun
      (P := fun s => s.home 1 = some 0 ∧ s.settled 1 0 .client = true ∧ s.settled 1 0 .server = true ∧
        (s.halves (.client, 0)).fin = false ∧ s.streams (.client, 1) = some 0 ∧
          s.streams (.server, 1) = some 0) (by decide +kernel)
    exact ⟨s, hr, hk, settled_of_check hc hs, hleft⟩
  · obtain ⟨s, hr, hk, hc, hs, hleft⟩ := Sys.reach_of_exec sys Sys.any (start : St Nat) rfl lateCancelRun
      (P := fun s => s.home 1 = some 0 ∧ s.settled 1 0 .client = true ∧ s.settled 1 0 .server = true ∧ s.opened = 2 ∧
        (s.states (.client, 1)).rid = 1 ∧ (s.halves (.server, 1)).fin = false ∧
          s.streams (.server, 1) = some 1) (by decide +kernel)
    exact ⟨s, hr, hk, settled_of_check hc hs, hleft⟩

end ValueRpc.Quic
