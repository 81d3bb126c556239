/-
  ValueRpc.Quic.Steps — what a step of the QUIC transport does, and where its own steps end.

  - `step_cases`: every step is one of `Does`, with its guards.
  - `step_base`: `Base` holds in every run.
  - `drains`: whatever the transport does by itself, it comes to a state where every call of
    `WriteMessage` returned, every frame was read and every closed half was seen to its end.
-/

import ValueRpc.Quic.Streams
import Mathlib.Algebra.BigOperators.Group.Finset.Basic

namespace ValueRpc.Quic

open Function ValueRpc.Lib
open ValueRpc.Core (MessageType)

variable {α : Type} {s t : St α} {d : Side} {sid : Nat} {rid : Int} {m : Frame α} {rt mt : MessageType} {e : Ev α}
  {body : α}

/-! ## The steps -/

inductive Does (s : St α) : Ev α → St α → Prop
  | issue {e : Ev α} (kind : Kind) (r : Int) (a b : Nat) : e = .issue kind ∨ e = .reverse kind → s.kinds r = none →
      s.lastRequest ≤ a → s.lastServerRequest ≤ b → r ≤ a ∧ -(b : Int) ≤ r →
      Does s e { s with lastRequest := a, lastServerRequest := b, kinds := update s.kinds r (some kind) }
  | pass (d : Side) (rid : Int) (mt : MessageType) (body : α) : s.writer d = .idle → legal s d rid mt = true →
      Does s (.pass d rid mt body) (s.call d rid mt body)
  | swallow {e : Ev α} (d : Side) (sid : Nat) (m : Frame α) : e = .check d ∨ e = .put d →
      (s.writer d).todo = some (sid, m) → (s.states (d, sid)).writeClosed = true → Does s e (s.lose d m)
  | clear (d : Side) (sid : Nat) (m : Frame α) (rt : MessageType) : s.writer d = .found sid m rt →
      Does s (.check d) (s.setWriter d (.clear sid m rt))
  | write (d : Side) (sid : Nat) (m : Frame α) (rt : MessageType) : s.writer d = .clear sid m rt →
      (s.halves (d, sid)).fin = false → Does s (.put d) (s.writeFrame d sid m rt)
  | finish (d : Side) (sid : Nat) (m : Frame α) (rt : MessageType) : s.writer d = .wrote sid m rt →
      Does s (.finish d) ((if finOnWrite d m.mt rt then s.finWrite d sid else s).setWriter d .idle)
  | accept : s.accepted < s.opened →
      Does s .accept { s.setState .server s.accepted ⟨0, .handshakeRequest, false, false, false, .idle⟩ with
        accepted := s.accepted + 1 }
  | take (d : Side) (sid : Nat) (m : Frame α) (rest : List (Frame α)) : (s.states (d, sid)).reader = .idle →
      (s.halves (d.peer, sid)).frames = m :: rest →
      Does s (.take d sid) { (s.register d sid m).setState d sid
          { (s.register d sid m).states (d, sid) with reader := .funneling m } with
        halves := update (s.register d sid m).halves (d.peer, sid)
          { (s.register d sid m).halves (d.peer, sid) with frames := rest } }
  | eof (d : Side) (sid : Nat) : (s.states (d, sid)).reader = .idle → s.halves (d.peer, sid) = ⟨[], true⟩ →
      Does s (.eof d sid) (s.markRemoteDone d sid)
  | read (d : Side) (sid : Nat) (m : Frame α) : (s.states (d, sid)).reader = .funneling m →
      Does s (.read d sid) { s.setState d sid { s.states (d, sid) with reader := .funneled m } with
        returned := update s.returned (d.peer, m.rid) (s.returned (d.peer, m.rid) ++ [m])
        finished := update s.finished (d, m.rid) (s.finished (d, m.rid) || endsOnRead s d m.rid m.mt) }
  | resume (d : Side) (sid : Nat) (m : Frame α) : (s.states (d, sid)).reader = .funneled m →
      Does s (.resume d sid)
        (if d = .client ∧ finOnRead m.mt (s.states (d, sid)).reqType = true then
          (s.setState d sid { s.states (d, sid) with reader := .idle }).finWrite d sid
        else s.setState d sid { s.states (d, sid) with reader := .idle })
  | drop (d : Side) (rid : Int) : Does s (.drop d rid) { s with finished := update s.finished (d, rid) true }
  | retire (d : Side) (rid : Int) : s.finished (d, rid) = true →
      Does s (.retire d rid) { s with retired := update s.retired (d, rid) true }

theorem Base.fresh_client (h : Base s) : s.kinds ((s.lastRequest : Int) + 1) = none := by
  by_contra hk
  obtain ⟨x, hx⟩ := Option.ne_none_iff_exists'.mp hk
  have := (h.issued _ x hx).1
  omega

theorem Base.fresh_server (h : Base s) : s.kinds (-((s.lastServerRequest : Int) + 1)) = none := by
  by_contra hk
  obtain ⟨x, hx⟩ := Option.ne_none_iff_exists'.mp hk
  have := (h.issued _ x hx).2
  omega

theorem step_cases (h : Base s) (hs : step s e = some t) : Does s e t := by
  cases e with
  | issue kind =>
    simp only [step] at hs
    split at hs
    · split at hs
      · cases hs
        exact .issue .handshake 0 _ _ (.inl rfl) ‹_› (Nat.le_refl _) (Nat.le_refl _) (by constructor <;> omega)
      · cases hs
    · cases hs
      exact .issue kind _ _ _ (.inl rfl) h.fresh_client (Nat.le_succ _) (Nat.le_refl _)
        (by constructor <;> push_cast <;> omega)
  | reverse kind =>
    simp only [step] at hs
    split at hs
    · cases hs
    · cases hs
      exact .issue kind _ _ _ (.inr rfl) h.fresh_server (Nat.le_refl _) (Nat.le_succ _)
        (by constructor <;> push_cast <;> omega)
  | pass d rid mt body =>
    simp only [step] at hs
    split at hs
    · split at hs
      · cases hs
        exact .pass d rid mt body ‹_› ‹_›
      · cases hs
    · cases hs
  | check d =>
    simp only [step] at hs
    split at hs
    · rename_i sid m rt hw
      cases hs
      split
      · exact .swallow d sid m (.inl rfl) (by rw [hw]; rfl) ‹_›
      · exact .clear d sid m rt hw
    · cases hs
  | put d =>
    simp only [step] at hs
    split at hs
    · rename_i sid m rt hw
      cases hs
      split
      · exact .swallow d sid m (.inr rfl) (by rw [hw]; rfl) (by rw [h.fin]; assumption)
      · exact .write d sid m rt hw (Bool.eq_false_iff.mpr ‹_›)
    · cases hs
  | finish d =>
    simp only [step] at hs
    split at hs
    · cases hs
      exact .finish d _ _ _ ‹_›
    · cases hs
  | accept =>
    simp only [step] at hs
    split at hs
    · cases hs
      exact .accept ‹_›
    · cases hs
  | take d sid =>
    simp only [step] at hs
    split at hs
    · cases hs
      exact .take d sid _ _ ‹_› ‹_›
    · cases hs
  | eof d sid =>
    simp only [step] at hs
    split at hs
    · rename_i hr hf
      split at hs
      · rename_i hfin
        cases hs
        exact .eof d sid hr (congr (congrArg Half.mk hf) hfin)
      · cases hs
    · cases hs
  | read d sid =>
    simp only [step] at hs
    split at hs
    · cases hs
      exact .read d sid _ ‹_›
    · cases hs
  | resume d sid =>
    simp only [step] at hs
    split at hs
    · rename_i m hr
      cases hs
      have hreq : ((s.setState d sid { s.states (d, sid) with reader := .idle }).states (d, sid)).reqType =
          (s.states (d, sid)).reqType := by simp [St.setState]
      rw [hreq]
      exact .resume d sid m hr
    · cases hs
  | drop d rid =>
    simp only [step] at hs
    split at hs
    · cases hs
    · cases hs
      exact .drop d rid
  | retire d rid =>
    simp only [step] at hs
    split at hs
    · cases hs
      exact .retire d rid ‹_›
    · cases hs

/-- The step behind a write closes the half where the frame is one that ends it. -/
theorem Base.finish (h : Base s) (hw : s.writer d = .wrote sid m rt) :
    Base ((if finOnWrite d m.mt rt then s.finWrite d sid else s).setWriter d .idle) := by
  have htodo : (s.writer d).todo = none := by rw [hw]; rfl
  obtain ⟨hreg, hrid, hrt, hp⟩ := h.writer d sid m rt (by rw [hw]; rfl)
  have hbase : Base (if finOnWrite d m.mt rt then s.finWrite d sid else s) := by
    split
    · rename_i hf
      refine h.finWrite hreg (h.running hreg) ?_ ?_ ?_
      · rintro rfl
        exact .inr fun x => by simp [htodo]
      · rintro rfl
        exact .inl ⟨m.mt, hrid ▸ hp, by simpa [finOnWrite] using hf⟩
      · rintro rfl
        exact ⟨m.mt, hrid ▸ hp, hrt ▸ hf⟩
    · exact h
  have hwriter : (if finOnWrite d m.mt rt then s.finWrite d sid else s).writer = s.writer := by
    split
    · exact finWrite_writer s d sid
    · rfl
  refine hbase.setWriter nofun ?_
  rintro rfl
  refine .inr fun k x hx => ?_
  rw [hwriter, htodo] at hx
  cases hx

/-- The exchange is over on the server when the client has its last frame. -/
theorem Base.over_of_finOnRead (h : Base s) (hr : (s.states (.client, sid)).reader = .funneled m)
    (hf : finOnRead m.mt rt = true) : s.finished (.server, (s.states (.client, sid)).rid) = true := by
  have hm : m ∈ (s.states (.client, sid)).reader.held := by rw [hr]; exact List.mem_singleton_self _
  obtain ⟨hrid, hp⟩ := h.frames .server sid m (.inr hm)
  have hlt := h.lt_of_registered (h.registered_of_held hm)
  rw [← hrid]
  exact h.overs m.rid m.mt (hrid ▸ (h.client sid hlt).2.2) hp (isLast_of_finOnRead hf)

/-- The client's reader goes on, and closes the write half behind the server's last frame. -/
theorem Base.resumes (h : Base s) (hr : (s.states (d, sid)).reader = .funneled m) :
    Base (if d = .client ∧ finOnRead m.mt (s.states (d, sid)).reqType = true then
      (s.setState d sid { s.states (d, sid) with reader := .idle }).finWrite d sid
    else s.setState d sid { s.states (d, sid) with reader := .idle }) := by
  have hm : m ∈ (s.states (d, sid)).reader.held := by rw [hr]; exact List.mem_singleton_self _
  have hreg := h.registered_of_held hm
  have hb := h.resume hr
  split
  · rename_i hf
    obtain ⟨rfl, hf⟩ := hf
    refine hb.finWrite (by simpa [St.setState] using hreg) (by simp [St.setState]) (fun _ => .inl ?_)
      (fun _ => .inr ?_) nofun
    · -- the server wrote there, so it is registered
      by_contra hn
      have hnone := (h.unregistered .server sid (Bool.eq_false_iff.mpr (by simpa [St.setState] using hn))).2.2
      have hheld : (s.states (Side.server.peer, sid)).reader.held = [m] := by
        rw [show Side.server.peer = Side.client from rfl, hr]
        rfl
      rw [hheld] at hnone
      cases hnone
    · simpa [St.setState] using h.over_of_finOnRead hr hf
  · exact hb

theorem step_base (h : Base s) (hs : step s e = some t) : Base t := by
  cases step_cases h hs with
  | issue kind r a b _ hn ha hb hr => exact h.issue hn ha hb hr
  | pass d rid mt body hw hl => exact h.call hw hl
  | swallow d sid m _ htodo hc =>
    refine h.lose d m fun k x hx => ?_
    rw [htodo] at hx
    cases hx
    rw [← h.fin]
    exact hc
  | clear d sid m rt hw =>
    refine h.setWriter (fun _ _ _ hj => by rw [hw]; exact hj) ?_
    rintro rfl
    exact .inl (by rw [hw]; rfl)
  | write d sid m rt hw hf => exact h.writeFrame hw hf
  | finish d sid m rt hw => exact h.finish hw
  | accept hlt => exact h.accept hlt
  | take d sid m rest hr hf =>
    refine (h.register hr hf).take ?_ (register_registered s d sid m) ?_
    · rw [register_reader]; exact hr
    · rw [register_halves]; exact hf
  | eof d sid hr hf => exact h.markRemoteDone hr hf
  | read d sid m hr =>
    have hm : m ∈ (s.states (d, sid)).reader.held := by rw [hr]; exact List.mem_singleton_self _
    have hb : Base (s.setState d sid { s.states (d, sid) with reader := .funneled m }) :=
      h.reader (h.registered_of_held hm) (by simp [hr]) (by simp [hr]) (by simp) (by simp)
        (by rw [hr]; exact fun _ => id)
    exact hb.returns d sid (by simp [St.setState, Reader.held]) _
  | resume d sid m hr => exact h.resumes hr
  | drop d rid => exact h.drop d rid
  | retire d rid _ => exact h.retire d rid

/-- The side passed a frame the transport takes for its last. -/
def St.closing (s : St α) (d : Side) (rid : Int) : Bool :=
  (s.passed (d, rid)).any fun mt => (s.kinds rid).any fun kind => finOnWrite d mt kind.request

theorem closing_iff {kind : Kind} (hk : s.kinds rid = some kind) :
    s.closing d rid = true ↔ ∃ mt ∈ s.passed (d, rid), finOnWrite d mt kind.request = true := by
  simp [St.closing, hk]

/-- The stream of an exchange is there when the server has something to answer. -/
theorem Base.home_of_legal (h : Base s) (hl : legal s .server rid mt = true) (hr : 0 ≤ rid) :
    ∃ sid, s.home rid = some sid ∧ (s.states (.server, sid)).registered = true := by
  obtain ⟨kind, -, -, ⟨hini, -⟩ | ⟨-, hret, -⟩⟩ := legal_cases hl
  · rw [initiator_client.mpr hr] at hini
    cases hini
  · exact h.returnedClient rid hret

/-! ## The three outcomes of a call -/

theorem call_found (hs : s.streams (d, rid) = some sid) : s.call d rid mt body =
    { (s.passing d rid mt).setWriter d (.found sid ⟨mt, rid, body, false⟩ (s.states (d, sid)).reqType) with
      called := update s.called (d, rid) (s.called (d, rid) ++ [(mt, body)]) } := by
  simp only [St.call, St.streamForWrite, show (s.passing d rid mt).streams = s.streams from rfl, hs]
  rfl

theorem call_refused (hs : s.streams (.server, rid) = none) : s.call .server rid mt body =
    { (s.passing .server rid mt).lose .server ⟨mt, rid, body, false⟩ with
      called := update s.called (.server, rid) (s.called (.server, rid) ++ [(mt, body)]) } := by
  simp only [St.call, St.streamForWrite, show (s.passing .server rid mt).streams = s.streams from rfl, hs]

theorem call_opens (hs : s.streams (.client, rid) = none) : s.call .client rid mt body =
    { ((s.passing .client rid mt).openStream ⟨mt, rid, body, false⟩).setWriter .client
        (.found s.opened ⟨mt, rid, body, false⟩ mt) with
      called := update s.called (.client, rid) (s.called (.client, rid) ++ [(mt, body)]) } := by
  simp only [St.call, St.streamForWrite, show (s.passing .client rid mt).streams = s.streams from rfl, hs]
  rfl

theorem opens_home (hs : s.streams (.client, rid) = none) : (s.call .client rid mt body).home =
    if s.home rid = none then update s.home rid (some s.opened) else s.home := by
  rw [call_opens hs]
  rfl

/-! ## What the transport does by itself -/

/-- Neither core has a part in the step. -/
def Ev.own : Ev α → Bool
  | .check _ | .put _ | .finish _ | .accept | .take _ _ | .eof _ _ | .read _ _ | .resume _ _ => true
  | _ => false

/-- Every call returned, every frame was read, every closed half was seen to its end. -/
structure Drained (s : St α) : Prop where
  writer : ∀ d, s.writer d = .idle
  frames : ∀ d sid, (s.halves (d, sid)).frames = []
  held : ∀ d sid, (s.states (d, sid)).reader.held = []
  gone : ∀ d sid, (s.halves (d, sid)).fin = true → (s.states (d.peer, sid)).reader = .gone

def Writer.rank : Writer α → Nat
  | .idle => 0
  | .wrote .. => 1
  | .clear .. => 6
  | .found .. => 7

def Reader.rank : Reader α → Nat
  | .gone => 0
  | .off => 1
  | .idle => 1
  | .funneled _ => 2
  | .funneling _ => 3

def St.endRank (s : St α) (d : Side) (sid : Nat) : Nat :=
  4 * (s.halves (d.peer, sid)).frames.length + (s.states (d, sid)).reader.rank

def St.rank (s : St α) : Nat :=
  (s.opened - s.accepted) + (s.writer .client).rank + (s.writer .server).rank +
    ∑ sid ∈ Finset.range s.opened, (s.endRank .client sid + s.endRank .server sid)

/-- The sum changes by what one term changes by. -/
theorem sum_range_change {f g : Nat → Nat} {n a : Nat} (ha : a < n) (hne : ∀ k, k ≠ a → f k = g k) :
    ∑ k ∈ Finset.range n, f k + g a = ∑ k ∈ Finset.range n, g k + f a := by
  have hmem := Finset.mem_range.mpr ha
  have hrest : ∑ k ∈ (Finset.range n).erase a, f k = ∑ k ∈ (Finset.range n).erase a, g k :=
    Finset.sum_congr rfl fun k hk => hne k (Finset.ne_of_mem_erase hk)
  have hf := Finset.add_sum_erase _ f hmem
  have hg := Finset.add_sum_erase _ g hmem
  omega

theorem writer_rank_update (s : St α) (d : Side) (w : Writer α) :
    (update s.writer d w .client).rank + (update s.writer d w .server).rank + (s.writer d).rank =
      (s.writer .client).rank + (s.writer .server).rank + w.rank := by
  cases d <;> simp <;> omega

theorem sum_endRank (hlt : sid < s.opened) (hne : ∀ e k, (e, k) ≠ (d, sid) → t.endRank e k = s.endRank e k) :
    ∑ k ∈ Finset.range s.opened, (t.endRank .client k + t.endRank .server k) + s.endRank d sid =
      ∑ k ∈ Finset.range s.opened, (s.endRank .client k + s.endRank .server k) + t.endRank d sid := by
  have hsum := sum_range_change (f := fun k => t.endRank .client k + t.endRank .server k)
    (g := fun k => s.endRank .client k + s.endRank .server k) hlt fun k hk => by
      rw [hne _ k (by simp [hk]), hne _ k (by simp [hk])]
  have hpeer := hne d.peer sid (by simp)
  cases d <;> simp only [Side.peer] at hpeer <;> omega

theorem rank_lt_of_end (d : Side) (sid : Nat) (ho : t.opened = s.opened) (ha : t.accepted = s.accepted)
    (hw : t.writer = s.writer) (hlt : sid < s.opened)
    (hne : ∀ e k, (e, k) ≠ (d, sid) → t.endRank e k = s.endRank e k)
    (hd : t.endRank d sid < s.endRank d sid) : t.rank < s.rank := by
  have hsum := sum_endRank hlt hne
  simp only [St.rank, ho, ha, hw]
  omega

theorem rank_lt_of_writer {w : Writer α} (ho : t.opened = s.opened) (ha : t.accepted = s.accepted)
    (hw : t.writer = update s.writer d w) (hne : ∀ e k, t.endRank e k = s.endRank e k)
    (hd : w.rank < (s.writer d).rank) : t.rank < s.rank := by
  have hrank := writer_rank_update s d w
  simp only [St.rank, ho, ha, hw, hne]
  omega

theorem finWrite_endRank (s : St α) (d e : Side) (sid k : Nat) :
    (s.finWrite d sid).endRank e k = s.endRank e k := by
  unfold St.finWrite St.endRank
  dsimp only
  split
  · rfl
  · grind

theorem finWrite_opened (s : St α) (d : Side) (sid : Nat) :
    (s.finWrite d sid).opened = s.opened ∧ (s.finWrite d sid).accepted = s.accepted := by
  unfold St.finWrite
  dsimp only
  split <;> exact ⟨rfl, rfl⟩

theorem register_opened (s : St α) (d : Side) (sid : Nat) (m : Frame α) :
    (s.register d sid m).opened = s.opened ∧ (s.register d sid m).accepted = s.accepted ∧
      (s.register d sid m).writer = s.writer := by
  unfold St.register
  dsimp only
  split <;> exact ⟨rfl, rfl, rfl⟩

theorem register_endRank (s : St α) (d e : Side) (sid k : Nat) (m : Frame α) :
    (s.register d sid m).endRank e k = s.endRank e k := by
  unfold St.register St.endRank
  dsimp only
  split
  · rfl
  · grind

theorem Base.lt_of_running (h : Base s) (d : Side) (sid : Nat) (hr : (s.states (d, sid)).reader ≠ .off) :
    sid < s.opened := by
  by_contra hlt
  rw [(h.fresh d sid (Nat.le_of_not_lt hlt)).1] at hr
  exact hr rfl

theorem writeFrame_rank (hw : s.writer d = .clear sid m rt) (hlt : sid < s.opened) :
    (s.writeFrame d sid m rt).rank < s.rank := by
  -- the frame is the peer's to read
  have hpeer : (s.writeFrame d sid m rt).endRank d.peer sid = s.endRank d.peer sid + 4 := by
    simp only [St.endRank, St.writeFrame, St.setWriter, Side.peer_peer, update_self, List.length_append,
      List.length_singleton]
    omega
  have hne (e : Side) (k : Nat) (he : (e, k) ≠ (d.peer, sid)) :
    (s.writeFrame d sid m rt).endRank e k = s.endRank e k := by
    have hp : (e.peer, k) ≠ (d, sid) := by
      rintro ⟨⟩
      exact he (by rw [Side.peer_peer])
    simp only [St.endRank, St.writeFrame, St.setWriter, update_of_ne hp]
  have hsum := sum_endRank hlt hne
  have hrank : ((s.writeFrame d sid m rt).writer .client).rank + ((s.writeFrame d sid m rt).writer .server).rank + 6 =
      (s.writer .client).rank + (s.writer .server).rank + 1 := by
    have := writer_rank_update s d (.wrote sid { m with due := !s.finished (d.peer, m.rid) } rt)
    rw [hw] at this
    exact this
  have hopened : (s.writeFrame d sid m rt).opened = s.opened := rfl
  have haccepted : (s.writeFrame d sid m rt).accepted = s.accepted := rfl
  rw [hpeer] at hsum
  simp only [St.rank, hopened, haccepted]
  omega

theorem rank_reader (d : Side) (sid : Nat) (ho : t.opened = s.opened) (ha : t.accepted = s.accepted)
    (hw : t.writer = s.writer) (hh : t.halves = s.halves) (hlt : sid < s.opened)
    (hne : ∀ p, p ≠ (d, sid) → t.states p = s.states p)
    (hr : (t.states (d, sid)).reader.rank < (s.states (d, sid)).reader.rank) : t.rank < s.rank := by
  refine rank_lt_of_end d sid ho ha hw hlt (fun e k he => ?_) ?_
  · simp only [St.endRank, hh, hne _ he]
  · simp only [St.endRank, hh]
    omega

theorem setReader_rank (h : Base s) (d : Side) (sid : Nat) {r : Reader α}
    (hr : (s.states (d, sid)).reader ≠ .off) (hlt : r.rank < (s.states (d, sid)).reader.rank) :
    (s.setState d sid { s.states (d, sid) with reader := r }).rank < s.rank := by
  refine rank_reader d sid rfl rfl rfl rfl (h.lt_of_running d sid hr) (fun p hp => update_of_ne hp ..) ?_
  simpa only [St.setState, update_self] using hlt

theorem take_rank (h : Base s) {rest : List (Frame α)} (hr : (s.states (d, sid)).reader = .idle)
    (hf : (s.halves (d.peer, sid)).frames = m :: rest) :
    St.rank { (s.register d sid m).setState d sid
          { (s.register d sid m).states (d, sid) with reader := .funneling m } with
        halves := update (s.register d sid m).halves (d.peer, sid)
          { (s.register d sid m).halves (d.peer, sid) with frames := rest } } < s.rank := by
  obtain ⟨ho, ha, hw⟩ := register_opened s d sid m
  refine rank_lt_of_end d sid ho ha hw (h.lt_of_running d sid (by simp [hr])) (fun e k hne => ?_) ?_
  · have hp : (e.peer, k) ≠ (d.peer, sid) := by
      intro hp
      obtain ⟨he, rfl⟩ := Prod.mk.inj hp
      exact hne (by rw [← Side.peer_peer e, he, Side.peer_peer])
    rw [← register_endRank s d e sid k m]
    simp only [St.endRank, St.setState, update_of_ne hne, update_of_ne hp]
  · simp only [St.endRank, St.setState, update_self, hf, hr, Reader.rank, List.length_cons]
    omega

theorem rank_finWrite (s : St α) (d : Side) (sid : Nat) : (s.finWrite d sid).rank = s.rank := by
  simp only [St.rank, finWrite_opened, finWrite_writer, finWrite_endRank]

theorem own_rank (h : Base s) (he : e.own = true) (hs : step s e = some t) : t.rank < s.rank := by
  cases step_cases h hs with
  | issue kind r a b hor => rcases hor with rfl | rfl <;> cases he
  | pass => cases he
  | swallow d sid m _ htodo _ =>
    refine rank_lt_of_writer (d := d) (w := .idle) rfl rfl rfl (fun _ _ => rfl) ?_
    cases hw : s.writer d with
    | idle => rw [hw] at htodo; cases htodo
    | wrote => rw [hw] at htodo; cases htodo
    | found => exact Nat.zero_lt_succ _
    | clear => exact Nat.zero_lt_succ _
  | clear d sid m rt hw =>
    exact rank_lt_of_writer rfl rfl rfl (fun _ _ => rfl) (by rw [hw]; exact Nat.lt_succ_self _)
  | write d sid m rt hw _ => exact writeFrame_rank hw (h.lt_of_registered (h.writer d sid m rt (by rw [hw]; rfl)).1)
  | finish d sid m rt hw =>
    have hlt : (s.setWriter d .idle).rank < s.rank :=
      rank_lt_of_writer rfl rfl rfl (fun _ _ => rfl) (by rw [hw]; exact Nat.zero_lt_succ _)
    split
    · refine rank_lt_of_writer (d := d) (w := .idle) ?_ ?_ ?_ (finWrite_endRank s d · sid ·)
        (by rw [hw]; exact Nat.zero_lt_succ _)
      · exact (finWrite_opened s d sid).1
      · exact (finWrite_opened s d sid).2
      · simp only [St.setWriter, finWrite_writer]
    · exact hlt
  | accept hlt =>
    have hends (e : Side) (k : Nat) : St.endRank { s.setState .server s.accepted
        ⟨0, .handshakeRequest, false, false, false, .idle⟩ with accepted := s.accepted + 1 } e k = s.endRank e k := by
      simp only [St.endRank, St.setState, update_apply]
      split
      · rename_i hk
        obtain ⟨rfl, rfl⟩ := Prod.mk.inj hk
        rw [h.unaccepted s.accepted (Nat.le_refl _)]
        rfl
      · rfl
    simp only [St.rank, hends]
    simp only [St.setState]
    omega
  | take d sid m rest hr hf => exact take_rank h hr hf
  | eof d sid hr hf =>
    refine rank_reader d sid rfl rfl rfl rfl (h.lt_of_running d sid (by simp [hr])) (fun p hp => update_of_ne hp ..) ?_
    simp only [St.markRemoteDone, update_self, hr]
    exact Nat.zero_lt_succ _
  | read d sid m hr =>
    exact setReader_rank h d sid (r := .funneled m) (by simp [hr]) (by rw [hr]; exact Nat.lt_succ_self _)
  | resume d sid m hr =>
    have hlt := setReader_rank h d sid (r := .idle) (by simp [hr]) (by rw [hr]; exact Nat.lt_succ_self _)
    split
    · rw [rank_finWrite]; exact hlt
    · exact hlt
  | drop => cases he
  | retire => cases he

theorem drained_of_stuck (h : Base s) (hs : ∀ e : Ev α, e.own = true → step s e = none) : Drained s := by
  have hread (d : Side) (sid : Nat) : (s.states (d, sid)).reader.held = [] := by
    cases hr : (s.states (d, sid)).reader with
    | funneling m => have := hs (.read d sid) rfl; simp [step, hr] at this
    | funneled m => have := hs (.resume d sid) rfl; simp [step, hr] at this
    | off => rfl
    | idle => rfl
    | gone => rfl
  -- every stream was accepted
  have haccept : s.accepted = s.opened := by
    have hacc := hs .accept rfl
    have hle := h.accepted_le
    simp only [step, ite_eq_right_iff, reduceCtorEq, imp_false] at hacc
    omega
  have hend (d : Side) (sid : Nat) : (s.states (d.peer, sid)).reader = .idle ∨
    (s.states (d.peer, sid)).reader = .gone ∨
      s.halves (d, sid) = ⟨[], false⟩ := by
    cases hr : (s.states (d.peer, sid)).reader with
    | funneling m => have := hread d.peer sid; rw [hr] at this; cases this
    | funneled m => have := hread d.peer sid; rw [hr] at this; cases this
    | idle => exact .inl rfl
    | gone => exact .inr (.inl rfl)
    | off =>
      refine .inr (.inr (h.fresh d sid ?_).2)
      by_contra hlt
      cases d with
      | client => exact h.serving sid (by omega) hr
      | server => exact (h.client sid (by omega)).2.1 hr
  have hframes (d : Side) (sid : Nat) : (s.halves (d, sid)).frames = [] := by
    rcases hend d sid with hr | hr | hn
    · cases hf : (s.halves (d, sid)).frames with
      | nil => rfl
      | cons m rest => have := hs (.take d.peer sid) rfl; simp [step, hr, hf] at this
    · have := h.done d.peer sid ((h.gone d.peer sid).mpr hr)
      rw [Side.peer_peer] at this
      rw [this]
    · rw [hn]
  refine ⟨fun d => ?_, hframes, hread, fun d sid hf => ?_⟩
  · cases hw : s.writer d with
    | idle => rfl
    | found sid m rt => have := hs (.check d) rfl; simp [step, hw] at this
    | clear sid m rt => have := hs (.put d) rfl; simp [step, hw] at this
    | wrote sid m rt => have := hs (.finish d) rfl; simp [step, hw] at this
  · rcases hend d sid with hr | hr | hn
    · have := hs (.eof d.peer sid) rfl
      simp [step, hr, hframes, hf] at this
    · exact hr
    · rw [hn] at hf
      cases hf

/-- The transport's own steps come to an end, and there nothing is under way. -/
theorem drains {I P : St α → Prop} (hI : ∀ s e t, I s → e.own = true → step s e = some t → I t)
    (hb : ∀ s, I s → Base s) (hP : ∀ s, I s → Drained s → P s) (hs : I s) :
    sys.Inevitable (fun _ e => e.own = true) P s :=
  Sys.inevitable_of_measure (I := I) St.rank
    (fun s e t hi he hst => ⟨hI s e t hi he hst, own_rank (hb s hi) he hst⟩)
    (fun s hi hstuck => hP s hi (drained_of_stuck (hb s hi) hstuck)) hs

/-! ## Concrete runs -/

def writes (d : Side) (rid : Int) (mt : MessageType) (n : Nat) : List (Ev Nat) :=
  [.pass d rid mt n, .check d, .put d, .finish d]

def reads (d : Side) (sid : Nat) : List (Ev Nat) := [.take d sid, .read d sid, .resume d sid]

end ValueRpc.Quic
