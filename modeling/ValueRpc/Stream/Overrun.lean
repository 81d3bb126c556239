/-
  ValueRpc.Stream.Overrun — a peer that sends stream values regardless of its credit, at each
  of the four receivers (`serveRunningRequest`, `processResponse`, `handleInbound`,
  `serveRunning`).

  The stream is established. The peer sends payloads, one after the other, and the read loop
  takes each as it comes; the pump's goroutine and the consumer go at their own pace
  (`Inbound.act`). A value for a record that is no longer in its map is dropped there. What
  the receiver answers is `frames`; `surfaced` are the errors the client's `StreamError`
  handler got.

  The first value beyond the pump's bound ends the input, and the receiver tells: a responder
  and the server's `clientStream` send an ErrorResponse and tear the record down, with what is
  pending; the client sets the error, calls `StreamError` and sends a CancelRequest, once, and
  what is pending still comes.

  - `overrun_reported`: what is pending is bounded by the window, the consumer gets a prefix of
    what was sent, and where no further steps of the goroutine and the consumer complete it,
    the overrun was reported once.
-/

import ValueRpc.Lib.Runs
import ValueRpc.Stream.Inbound

namespace ValueRpc.Stream.Overrun

open ValueRpc.Core ValueRpc.Lib

variable {α : Type} {bs : List Back} {a : Act} {i : Inbound α}

structure Cfg where
  /-- Which receiver: `get` is the client's `rpcRequestCtx`, `put` the server's `servingRequest`,
      and the reverse ones their mirrors. -/
  dir : Dir
  requestId : Int
  chat : Bool
  channelCap : Nat
  maxPending : Int
  window_pos : 1 ≤ maxPending
  grow : Nat → Nat

/-- The receiver's record, established: an initiator's pump has just handed over the ack. -/
def Cfg.established (c : Cfg) : Receiver α :=
  { (c.dir.receiver c.requestId c.chat c.channelCap c.maxPending : Receiver α) with
    pc := if c.dir.toInitiator then .delivered .nil else .waiting }

structure St (α : Type) where
  inb : Inbound α
  sent : List (Value α)
  frames : List Back
  surfaced : List Error
  deriving DecidableEq, Repr

def start (c : Cfg) : St α := ⟨⟨c.established, [], false⟩, [], [], []⟩

inductive Ev (α : Type) where
  /-- The read loop takes a StreamValue with a payload. -/
  | value (a : α)
  | act (a : Act)
  deriving DecidableEq, Repr

def streamError (r r' : Receiver α) : List Error := if r.cancelOnce = r'.cancelOnce then [] else r'.resultErr.toList

def step (c : Cfg) (s : St α) : Ev α → Option (St α)
  | .value a =>
    if s.inb.rx.live then
      let r := c.dir.receive c.grow s.inb.rx (.value (.data a))
      some { s with
        inb := { s.inb with rx := r.1 }, sent := s.sent ++ [.data a], frames := s.frames ++ r.2,
        surfaced := s.surfaced ++ streamError s.inb.rx r.1 }
    else some { s with sent := s.sent ++ [.data a] }
  | .act a => (s.inb.act a).map fun r => { s with inb := r.1, frames := s.frames ++ r.2 }

def sys (c : Cfg) : Sys (St α) (Ev α) := ⟨fun s => s = start c, step c⟩

/-- The steps of the goroutine and the consumer. -/
def locally (_ : St α) : Ev α → Prop
  | .act _ => True
  | .value _ => False

/-- The consumer can still get all that was sent. -/
def Completable (c : Cfg) (s : St α) : Prop := ∃ t, (sys c).Steps locally s t ∧ t.inb.got = s.sent

def St.told (s : St α) : List Back :=
  s.frames.filter fun b => match b with
    | .credit _ => false
    | _ => true

/-- The overrun was reported once, with `CodeResourceExhausted`. -/
def Reported (c : Cfg) (s : St α) : Prop :=
  match c.dir with
  | .get => ∃ m, s.surfaced = [⟨.resourceExhausted, m⟩] ∧ s.told = [.cancel]
  | _ => ∃ m, s.told = [.error ⟨.resourceExhausted, m⟩] ∧ s.surfaced = []

/-! ## One frame -/

variable {c : Cfg} {s t : St α} {e : Ev α} {r : Receiver α}

/-- What is told, and what becomes of the record, at a value beyond the bound. -/
structure Overran (c : Cfg) (r r' : Receiver α) (bs : List Back) : Prop where
  queue : r'.pump.pending = r.pump.pending ∧ r'.pc = r.pc ∧ r'.out = r.out ∧ r'.pump.maxPending = r.pump.maxPending
  /-- The client keeps its record and its pump drains; the others drop both. -/
  record : if c.dir = .get then r'.pump.inputEnd = true ∧ r'.pump.stopped = false ∧ r'.cancelOnce = true
    else r'.live = false ∧ r'.pump.stopped = true ∧ r'.cancelOnce = r.cancelOnce
  told : if c.dir = .get then bs = [.cancel] ∧ ∃ m, r'.resultErr = some ⟨.resourceExhausted, m⟩
    else ∃ m, bs = [.error ⟨.resourceExhausted, m⟩]

theorem receive_full (c : Cfg) (a : α) (he : r.pump.inputEnd = false) (hs : r.pump.stopped = false)
    (hc : r.cancelOnce = false) (hl : r.pump.maxPending ≤ r.pump.pending.length) :
    Overran c r (c.dir.receive c.grow r (.value (.data a))).1 (c.dir.receive c.grow r (.value (.data a))).2 := by
  have hp := StreamPump.push_overflow c.grow (.data a) he hs hl
  cases hr : c.dir with
  | put =>
    simp only [Dir.receive, serveRunningRequest, incomingStreamValue, Value.neNull, Receiver.offer, hp, if_true]
    exact ⟨⟨rfl, rfl, rfl, rfl⟩, by rw [hr, if_neg (by simp)]; exact ⟨rfl, rfl, rfl⟩,
      by rw [hr, if_neg (by simp)]; exact ⟨_, rfl⟩⟩
  | reversePut =>
    simp only [Dir.receive, serveRunning, Value.isData, Receiver.offer, hp, if_true]
    exact ⟨⟨rfl, rfl, rfl, rfl⟩, by rw [hr, if_neg (by simp)]; exact ⟨rfl, rfl, rfl⟩,
      by rw [hr, if_neg (by simp)]; exact ⟨_, rfl⟩⟩
  | get =>
    simp only [Dir.receive, processResponse_value, Value.isData, Receiver.offer, hp, if_true, hc,
      Bool.false_eq_true, if_false]
    exact ⟨⟨rfl, rfl, rfl, rfl⟩, by rw [hr, if_pos rfl]; exact ⟨rfl, hs, rfl⟩,
      by rw [hr, if_pos rfl]; exact ⟨rfl, _, rfl⟩⟩
  | reverseGet =>
    simp only [Dir.receive, handleInbound, Value.isData, Receiver.offer, hp, if_true]
    exact ⟨⟨rfl, rfl, rfl, rfl⟩, by rw [hr, if_neg (by simp)]; exact ⟨rfl, rfl, rfl⟩,
      by rw [hr, if_neg (by simp)]; exact ⟨_, rfl⟩⟩

/-- The client has reported and its pump takes nothing more. -/
theorem receive_ended (c : Cfg) (a : α) (hr : c.dir = .get) (he : r.pump.inputEnd = true)
    (hc : r.cancelOnce = true) : c.dir.receive c.grow r (.value (.data a)) = (r, []) := by
  have hp := StreamPump.push_refused c.grow (.data a) (.inl he)
  simp only [hr, Dir.receive, processResponse_value, Value.isData, Receiver.offer, hp, if_true]
  rw [if_pos hc]

/-! ## Before and after the report -/

theorem told_append (s : St α) (i : Inbound α) (h : ∀ b ∈ bs, ∃ n, b = .credit n) :
    St.told { s with inb := i, frames := s.frames ++ bs } = s.told := by
  have hnil : bs.filter (fun b => match b with | .credit _ => false | _ => true) = [] := by
    refine List.filter_eq_nil_iff.mpr fun b hb => ?_
    obtain ⟨n, rfl⟩ := h b hb
    simp
  simp [St.told, List.filter_append, hnil]

structure Clean (s : St α) : Prop where
  stream : s.inb.stream = s.sent
  pump : s.inb.rx.pump.inputEnd = false ∧ s.inb.rx.pump.stopped = false ∧ s.inb.rx.pump.overflow = false
  record : s.inb.rx.live = true ∧ s.inb.rx.cancelOnce = false
  running : s.inb.rx.pc ≠ .finished
  quiet : s.told = [] ∧ s.surfaced = []

structure Told (c : Cfg) (s : St α) : Prop where
  reported : Reported c s
  front : (s.inb.handed ++ runItems s.inb.rx.pc).IsPrefix s.sent
  record : if c.dir = .get then
      s.inb.rx.pump.inputEnd = true ∧ s.inb.rx.pump.stopped = false ∧ s.inb.rx.cancelOnce = true ∧
        s.inb.stream.IsPrefix s.sent
    else s.inb.rx.live = false ∧ s.inb.rx.pump.stopped = true

structure Inv (c : Cfg) (s : St α) : Prop where
  bound : (s.inb.rx.pump.maxPending : Int) = c.maxPending
  pending : s.inb.rx.pump.pending.length ≤ s.inb.rx.pump.maxPending
  phase : Clean s ∨ Told c s

theorem Clean.act (h : Clean s) (ha : s.inb.act a = some (i, bs)) :
    Clean { s with inb := i, frames := s.frames ++ bs } := by
  have hk := Inbound.act_kept ha
  obtain ⟨hend, hst, hov⟩ := h.pump
  refine ⟨(hk.stream hst).trans h.stream, ⟨hk.pump.1.trans hend, hk.pump.2.1.trans hst, hk.pump.2.2.1.trans hov⟩,
    ⟨hk.record.1.trans h.record.1, (Inbound.act_rx ha).1.trans h.record.2⟩, fun hf => ?_,
    ⟨(told_append s i (Inbound.act_credits ha)).trans h.quiet.1, h.quiet.2⟩⟩
  rcases Inbound.act_finished hst ha hf with hwas | ⟨he, -⟩
  · exact h.running hwas
  · rw [hend] at he
    cases he

theorem Told.act (h : Told c s) (ha : s.inb.act a = some (i, bs)) :
    Told c { s with inb := i, frames := s.frames ++ bs } := by
  have hk := Inbound.act_kept ha
  have htold := told_append s i (Inbound.act_credits ha)
  have hr := h.reported
  have hrec := h.record
  refine ⟨?_, ?_, ?_⟩
  · unfold Reported at hr ⊢
    rw [htold]
    exact hr
  · by_cases hst : s.inb.rx.pump.stopped = true
    · exact (hk.front hst).trans h.front
    · have hst : s.inb.rx.pump.stopped = false := Bool.eq_false_iff.mpr hst
      have hpre : s.inb.stream.IsPrefix s.sent := by
        split at hrec
        · exact hrec.2.2.2
        · rw [hrec.2] at hst
          cases hst
      refine List.IsPrefix.trans ?_ hpre
      rw [← hk.stream hst]
      exact List.prefix_append _ _
  · split at hrec
    · rename_i hrole
      rw [if_pos hrole]
      exact ⟨hk.pump.1.trans hrec.1, hk.pump.2.1.trans hrec.2.1, (Inbound.act_rx ha).1.trans hrec.2.2.1,
        by rw [hk.stream hrec.2.1]; exact hrec.2.2.2⟩
    · rename_i hrole
      rw [if_neg hrole]
      exact ⟨hk.record.1.trans hrec.1, hk.pump.2.1.trans hrec.2⟩

theorem Clean.value (h : Clean s) (a : α) {p : StreamPump α}
    (hp : p.pending = s.inb.rx.pump.pending ++ [.data a])
    (hflags : p.inputEnd = false ∧ p.stopped = false ∧ p.overflow = false) :
    Clean { s with
      inb := { s.inb with rx := { s.inb.rx with pump := p } }
      sent := s.sent ++ [.data a]
      frames := s.frames ++ []
      surfaced := s.surfaced ++ streamError s.inb.rx { s.inb.rx with pump := p } } := by
  have hs := h.stream
  refine ⟨?_, hflags, h.record, h.running, ⟨?_, ?_⟩⟩
  · simp only [Inbound.stream, Inbound.handed] at hs ⊢
    rw [hp, ← List.append_assoc, hs]
  · simpa [St.told] using h.quiet.1
  · simp [streamError, h.quiet.2]

/-- The value the pump has no room for. -/
theorem Clean.overran (h : Clean s) (a : α) {r : Receiver α} (ho : Overran c s.inb.rx r bs) :
    Told c { s with
      inb := { s.inb with rx := r }
      sent := s.sent ++ [.data a]
      frames := s.frames ++ bs
      surfaced := s.surfaced ++ streamError s.inb.rx r } := by
  obtain ⟨⟨hq, hpc, hout, -⟩, hrec, htold⟩ := ho
  obtain ⟨ht, hsurf⟩ := h.quiet
  have hs := h.stream
  have hlast : s.sent.IsPrefix (s.sent ++ [.data a]) := List.prefix_append _ _
  have htold' : ∀ l : List Back, St.told { s with
      inb := { s.inb with rx := r }, sent := s.sent ++ [.data a], frames := s.frames ++ l,
      surfaced := s.surfaced ++ streamError s.inb.rx r } =
      l.filter fun b => match b with | .credit _ => false | _ => true := by
    intro l
    simp only [St.told, List.filter_append] at ht ⊢
    rw [ht, List.nil_append]
  have hstream : (s.inb.got ++ r.out ++ runItems r.pc ++ r.pump.pending).IsPrefix (s.sent ++ [.data a]) := by
    simp only [Inbound.stream, Inbound.handed] at hs
    rw [hq, hpc, hout, hs]
    exact hlast
  refine ⟨?_, (List.prefix_append _ _).trans hstream, ?_⟩
  · unfold Reported
    cases hr : c.dir with
    | get =>
      rw [hr, if_pos rfl] at hrec htold
      obtain ⟨hbs, m, hm⟩ := htold
      exact ⟨m, by simp [streamError, hsurf, h.record.2, hrec.2.2, hm], by rw [htold', hbs]; rfl⟩
    | put =>
      rw [hr, if_neg (by simp)] at hrec htold
      obtain ⟨m, hbs⟩ := htold
      exact ⟨m, by rw [htold', hbs]; rfl, by simp [streamError, hsurf, hrec.2.2]⟩
    | reverseGet =>
      rw [hr, if_neg (by simp)] at hrec htold
      obtain ⟨m, hbs⟩ := htold
      exact ⟨m, by rw [htold', hbs]; rfl, by simp [streamError, hsurf, hrec.2.2]⟩
    | reversePut =>
      rw [hr, if_neg (by simp)] at hrec htold
      obtain ⟨m, hbs⟩ := htold
      exact ⟨m, by rw [htold', hbs]; rfl, by simp [streamError, hsurf, hrec.2.2]⟩
  · split at hrec
    · rename_i hr
      rw [if_pos hr]
      exact ⟨hrec.1, hrec.2.1, hrec.2.2, hstream⟩
    · rename_i hr
      rw [if_neg hr]
      exact ⟨hrec.1, hrec.2.1⟩

theorem Told.more (h : Told c s) (a : α) : Told c { s with sent := s.sent ++ [.data a] } := by
  have hlast : s.sent.IsPrefix (s.sent ++ [.data a]) := List.prefix_append _ _
  have hrec := h.record
  refine ⟨h.reported, h.front.trans hlast, ?_⟩
  split at hrec
  · rename_i hr
    rw [if_pos hr]
    exact ⟨hrec.1, hrec.2.1, hrec.2.2.1, hrec.2.2.2.trans hlast⟩
  · rename_i hr
    rw [if_neg hr]
    exact hrec

theorem inv_act (hi : Inv c s) (ha : s.inb.act a = some (i, bs)) :
    Inv c { s with inb := i, frames := s.frames ++ bs } := by
  have hm := (Inbound.act_kept ha).pump.2.2.2
  have hle := (Inbound.act_rx ha).2
  have hp := hi.pending
  refine ⟨by rw [hm]; exact hi.bound, by rw [hm]; exact Nat.le_trans hle hp, ?_⟩
  exact hi.phase.imp (fun h => h.act ha) fun h => h.act ha

theorem inv_value (hi : Inv c s) (a : α) (h : step c s (.value a) = some t) : Inv c t := by
  simp only [step] at h
  rcases hi.phase with hcl | htold
  · rw [if_pos hcl.record.1] at h
    obtain ⟨hend, hst, hov⟩ := hcl.pump
    by_cases hl : s.inb.rx.pump.pending.length < s.inb.rx.pump.maxPending
    · obtain ⟨p, hp, hpend, he, ho, hs, hm⟩ := StreamPump.push_ok c.grow (.data a) hend hst hl
      have ho : p.overflow = false := ho.trans hov
      rw [c.dir.receive_data rfl hp ho] at h
      cases h
      refine ⟨by rw [hm]; exact hi.bound, ?_, .inl (hcl.value a hpend ⟨he, hs, ho⟩)⟩
      dsimp only
      rw [hpend, hm, List.length_append, List.length_singleton]
      omega
    · have hover := receive_full c a hend hst hcl.record.2 (Nat.not_lt.mp hl)
      obtain ⟨hq, -, -, hm⟩ := hover.queue
      cases h
      refine ⟨by dsimp only; rw [hm]; exact hi.bound, ?_, .inr (hcl.overran a hover)⟩
      dsimp only
      rw [hq, hm]
      exact hi.pending
  · have hrec := htold.record
    by_cases hr : c.dir = .get
    · rw [if_pos hr] at hrec
      rw [receive_ended c a hr hrec.1 hrec.2.2.1] at h
      have hsame : t = { s with sent := s.sent ++ [.data a] } := by
        split at h
        · cases h; simp [streamError]
        · cases h; rfl
      rw [hsame]
      exact ⟨hi.bound, hi.pending, .inr (htold.more a)⟩
    · rw [if_neg hr] at hrec
      rw [if_neg (by rw [hrec.1]; simp)] at h
      cases h
      exact ⟨hi.bound, hi.pending, .inr (htold.more a)⟩

theorem inv_step (hi : Inv c s) (h : step c s e = some t) : Inv c t := by
  cases e with
  | value a => exact inv_value hi a h
  | act a =>
    simp only [step] at h
    obtain ⟨⟨i, bs⟩, ha, rfl⟩ := Option.map_eq_some_iff.mp h
    exact inv_act hi ha

theorem inv_start (c : Cfg) : Inv c (start c : St α) := by
  have hw := c.window_pos
  have hwin : c.dir.window c.maxPending = c.maxPending := by
    cases c.dir <;> first | rfl | exact if_neg (by omega)
  obtain ⟨cap, hrec⟩ := c.dir.receiver_eq (α := α) c.requestId c.chat c.channelCap c.maxPending
  rw [hwin] at hrec
  simp only [start, Cfg.established, hrec]
  refine ⟨StreamPump.new_maxPending hw, Nat.zero_le _, .inl ⟨?_, ⟨rfl, rfl, rfl⟩, ⟨rfl, rfl⟩, ?_, ⟨rfl, rfl⟩⟩⟩
  · cases c.dir.toInitiator <;> rfl
  · cases c.dir.toInitiator <;> simp

theorem inv_reach (h : (sys c).Reach Sys.any s) : Inv c s := by
  refine h.inv (P := Inv c) (fun s hs => ?_) fun _ _ _ hi _ hs => inv_step hi hs
  cases hs
  exact inv_start c

/-! ## Completing -/

/-- As long as nothing was refused, the goroutine and the consumer can get to the end of
    what was sent; the induction is on the steps left. -/
theorem Clean.completable (c : Cfg) {s : St α} (h : Clean s) : Completable c s := by
  induction hn : s.inb.work using Nat.strongRecOn generalizing s with
  | ind n ih =>
    by_cases hall : s.inb.stream = s.inb.got
    · exact ⟨s, .refl, hall.symm.trans h.stream⟩
    · obtain ⟨a, i, bs, ha, hlt⟩ := Inbound.act_progress h.pump.2.1 (fun hf => absurd hf h.running) hall
      obtain ⟨t, ht, hgot⟩ := ih i.work (hn ▸ hlt) (h.act ha) rfl
      refine ⟨t, Sys.Steps.trans (.tail .refl trivial (e := .act a) ?_) ht, hgot⟩
      show (s.inb.act a).map _ = _
      rw [ha]
      rfl

theorem Told.got_prefix (h : Told c s) : (s.inb.got ++ s.inb.rx.out).IsPrefix s.sent :=
  (List.prefix_append _ _).trans h.front

theorem Clean.got_prefix (h : Clean s) : (s.inb.got ++ s.inb.rx.out).IsPrefix s.sent := by
  rw [← h.stream]
  exact (List.prefix_append _ _).trans (List.prefix_append _ _)

theorem overrun_reported (c : Cfg) (s : St α) (hr : (sys c).Reach Sys.any s) :
    (s.inb.rx.pump.pending.length : Int) ≤ c.maxPending ∧ (s.inb.got ++ s.inb.rx.out).IsPrefix s.sent ∧
      (¬ Completable c s → Reported c s) ∧ (s.told ≠ [] → Reported c s) := by
  have hi := inv_reach hr
  have hb := hi.bound
  have hp := hi.pending
  refine ⟨by omega, ?_, ?_, ?_⟩
  · rcases hi.phase with h | h
    · exact h.got_prefix
    · exact h.got_prefix
  · intro hnot
    rcases hi.phase with h | h
    · exact absurd (h.completable c) hnot
    · exact h.reported
  · intro htold
    rcases hi.phase with h | h
    · exact absurd h.quiet.1 htold
    · exact h.reported

/-- A get-stream of the client, with a window of 2 and a consumer that reads one value of
    five. -/
def flooded : Cfg := ⟨.get, 9, false, 1, 2, by decide, id⟩

def flood : List (Ev Nat) :=
  [.act .hook, .value 1, .act .turn, .value 2, .value 3, .act .handoff, .value 4, .value 5]

theorem overrun_reported_flooded : ∃ s : St Nat, (sys flooded).Reach Sys.any s ∧ s.inb.got = [.data 1] ∧
    s.sent = [.data 1, .data 2, .data 3, .data 4, .data 5] ∧ (s.inb.rx.pump.pending.length : Int) ≤ 2 ∧
      Reported flooded s := by
  obtain ⟨s, hr, hg, hs, ht⟩ := (sys flooded).reach_of_exec Sys.any (start flooded : St Nat) rfl flood
    (P := fun s => s.inb.got = [.data 1] ∧ s.sent = [.data 1, .data 2, .data 3, .data 4, .data 5] ∧
      s.told ≠ []) (by decide +kernel)
  obtain ⟨hp, -, -, hrep⟩ := overrun_reported flooded s hr
  exact ⟨s, hr, hg, hs, hp, hrep ht⟩

end ValueRpc.Stream.Overrun
