/-
  ValueRpc.Client.Disposal — what `Reconnect` does with the requests in flight.

  A request that got the old connection drew its id and stored its record before it did, and
  it got it before nil was stored. So its id is at or below the cutoff, which is read after,
  and its record is in the map when the pass over the records begins: the pass comes to it,
  unless its last response takes it out first.

  - `reconnect_disposes`: in every interleaving, a request that got the old connection and
    is not answered is failed and out of the map, or collected, and never both, once the
    pass is over; what was collected is re-sent, or failed when there is no new connection;
    and a caller has at most one outcome.
  - `reconnect_spares`: where every request that has an id when the cutoff is read got the
    old connection (`divides`), `Reconnect` fails no request that got another one.
  - `reconnect_fails_new`: otherwise it does: a request that drew its id between the reset
    and the cutoff and is served on the new connection, and one that had its id before the
    reset and is about to get the new connection.
-/

import ValueRpc.Client.Reconnect

namespace ValueRpc.Client.Reconnect

open ValueRpc.Lib
open ValueRpc.Core (Kind)

/-! ## Records only move on -/

/-- It was answered, or its error is ErrConnectionLost or was replaced: by what its caller
    got, or by an overrun. -/
def Rec.Spent (r : Rec) : Prop :=
  r.settled = true ∨ r.resultErr = some .connectionLost ∨ (∃ e, .error e ∈ r.outcomes) ∨
    r.kind ≠ .unary ∧ r.cancelOnce = true

def Rec.Told (r : Rec) : Prop := r.kind ≠ .unary → .connectionLost ∈ r.streamErrors

structure Keeps (r r' : Rec) : Prop where
  kind : r'.kind = r.kind
  name : r'.name = r.name
  stored : r.pc ≠ .registering → r'.pc ≠ .registering
  via : ∀ c, r.via = some c → r'.via = some c
  settled : r.settled = true → r'.settled = true
  closed : r.closed = true → r'.closed = true
  removed : r.pc ≠ .registering → r.inMap = false → r'.inMap = false
  spent : r.Spent → r'.Spent
  told : r.Told → r'.Told

theorem Keeps.refl (r : Rec) : Keeps r r := ⟨rfl, rfl, id, fun _ => id, id, id, fun _ => id, id, id⟩

theorem Keeps.replays {r r' : Rec} (h : Keeps r r') (p : Policy) : p.replays r' = p.replays r := by
  simp only [Policy.replays, h.kind, h.name]

structure Rec.Failed (r : Rec) : Prop where
  stored : r.pc ≠ .registering
  removed : r.inMap = false
  closed : r.closed = true
  spent : r.Spent
  told : r.Told

structure Rec.Midway (r : Rec) (f : Failing) : Prop where
  stored : r.pc ≠ .registering
  spent : f ≠ .setError → r.Spent
  told : f = .close ∨ f = .delete → r.Told
  closed : f = .delete → r.closed = true

theorem Rec.Failed.keeps {r r' : Rec} (h : r.Failed) (hk : Keeps r r') : r'.Failed :=
  ⟨hk.stored h.stored, hk.removed h.stored h.removed, hk.closed h.closed, hk.spent h.spent, hk.told h.told⟩

theorem Rec.Midway.keeps {r r' : Rec} {f : Failing} (h : r.Midway f) (hk : Keeps r r') : r'.Midway f :=
  ⟨hk.stored h.stored, fun hf => hk.spent (h.spent hf), fun hf => hk.told (h.told hf),
    fun hf => hk.closed (h.closed hf)⟩

def Grows (s t : St) : Prop := ∀ (k : Nat) (r : Rec), s.recs[k]? = some r → ∃ r', t.recs[k]? = some r' ∧ Keeps r r'

variable {p : Policy} {s t : St} {e : Ev} {k : Nat} {r r' : Rec} {f : Failing} {n : Nat} {l v : List Nat}

structure RecOk (s : St) (k : Nat) (r : Rec) : Prop where
  outcomes : r.outcomes.length = if r.pc = .returned then 1 else 0
  registering : r.pc = .registering → r.inMap = false ∧ r.settled = false
  unsent : r.pc = .registering ∨ r.pc = .gettingConn → r.via = none
  gone : r.pc ≠ .registering → r.inMap = false → r.settled = true ∨ k ∈ s.failed ∨ k ∈ s.unreplayed

theorem Turn.keeps (hok : RecOk s k r) (h : Turn s r r') : Keeps r r' := by
  cases h with
  | store hp => exact ⟨rfl, rfl, fun _ => by simp, fun _ => id, id, id, fun h => absurd hp h, id, id⟩
  | getConn hp hc =>
    have hv := hok.unsent (.inr hp)
    refine ⟨rfl, rfl, fun _ => by simp, fun c h => ?_, id, id, fun _ => id, id, id⟩
    rw [hv] at h
    cases h
  | send hp => exact ⟨rfl, rfl, fun _ => by simp, fun _ => id, id, id, fun _ => id, id, id⟩
  | ready => exact ⟨rfl, rfl, id, fun _ => id, id, id, fun _ => id, id, id⟩
  | overrun hk =>
    exact ⟨rfl, rfl, id, fun _ => id, id, id, fun _ => id, fun _ => .inr (.inr (.inr ⟨hk, rfl⟩)),
      fun ht hk => List.mem_append_left _ (ht hk)⟩
  | putDone ho => exact ⟨rfl, rfl, id, fun _ => id, fun _ => rfl, fun _ => rfl, fun _ => id, fun _ => .inl rfl, id⟩
  | putDelete ho => exact ⟨rfl, rfl, id, fun _ => id, id, id, fun _ _ => rfl, id, id⟩
  | watch => exact ⟨rfl, rfl, id, fun _ => id, id, fun _ => rfl, fun _ => id, id, id⟩
  | receive hp =>
    refine ⟨rfl, rfl, fun _ => by simp, fun _ => id, id, id, fun _ => id, fun h => ?_, id⟩
    exact h.imp_right (.imp_right (.imp_left fun ⟨e, he⟩ => ⟨e, List.mem_append_left _ he⟩))
  | fails e hp =>
    exact ⟨rfl, rfl, fun _ => by simp [Rec.fails], fun _ => id, id, fun _ => rfl, fun _ => id,
      fun _ => .inr (.inr (.inl ⟨e, by simp [Rec.fails]⟩)), id⟩

theorem Keeps.answer (ho : r.settled = true) (err : Option Err) : Keeps r (r.answer err) := by
  cases err with
  | none => exact ⟨rfl, rfl, id, fun _ => id, id, fun _ => rfl, fun _ => id, id, id⟩
  | some e =>
    exact ⟨rfl, rfl, id, fun _ => id, id, fun _ => rfl, fun _ => id, fun _ => .inl ho,
      fun ht hk => List.mem_append_left _ (ht hk)⟩

theorem Keeps.deleted (r : Rec) (b : Bool) : Keeps r { r with inMap := r.inMap && b } :=
  ⟨rfl, rfl, id, fun _ => id, id, id, fun _ h => by simp [h], id, id⟩

theorem Grows.of_eq (h : t.recs = s.recs) : Grows s t := fun k r hr => ⟨r, by rw [h, hr], .refl r⟩

theorem grows_upd {f : Rec → Rec} (ht : t.recs = s.recs.modify k f)
    (h : ∀ r, s.recs[k]? = some r → Keeps r (f r)) : Grows s t := by
  intro j r hr
  by_cases hkj : k = j
  · subst hkj
    exact ⟨f r, by simp [ht, hr], h r hr⟩
  · exact ⟨r, by simp [ht, hkj, hr], .refl r⟩

/-! ## The invariant -/

def St.Newer (s : St) : Prop := s.installed ≠ some 0 ∧ 1 ≤ s.conns

/-- What got the old connection has a number below `n`. -/
def St.Below (s : St) (n : Nat) : Prop := ∀ (k : Nat) (r : Rec), s.recs[k]? = some r → r.via = some 0 → k < n

/-- What got the old connection and is not over is failed or collected. -/
def St.Disposed (s : St) : Prop :=
  ∀ (k : Nat) (r : Rec), s.recs[k]? = some r → r.via = some 0 → r.settled = false → k ∈ s.failed ∨ k ∈ s.replay

def St.Resent (s : St) (k : Nat) : Prop := ∃ c, (k, c) ∈ s.resent ∧ c ≠ 0

def PhaseOk (p : Policy) (s : St) : Prop :=
  match s.phase with
  | .idle => s.installed = some 0 ∧ s.conns = 1 ∧ s.failed = [] ∧ s.unreplayed = []
  | .loaded c => c = 0 ∧ s.installed = some 0 ∧ s.conns = 1 ∧ s.failed = [] ∧ s.unreplayed = []
  | .cleared _ | .reset => s.Newer ∧ s.failed = [] ∧ s.unreplayed = []
  | .counted n => s.Newer ∧ s.unreplayed = [] ∧ s.failed = [] ∧ s.Below n
  | .ranging n l v cur => s.Newer ∧ s.unreplayed = [] ∧ s.Below n ∧
      (∀ (k : Nat) (r : Rec), s.recs[k]? = some r → r.via = some 0 → r.settled = false → k ∈ l) ∧
      (∀ k ∈ v, k < n → k ∈ s.replay ∨ k ∈ s.failed ∨ ∃ f, cur = some (k, f)) ∧
      ∀ k f, cur = some (k, f) → ∃ r, s.recs[k]? = some r ∧ p.replays r = false ∧ r.Midway f
  | .connecting => s.Newer ∧ s.unreplayed = [] ∧ s.Disposed
  | .resending left => s.Newer ∧ s.unreplayed = [] ∧ s.Disposed ∧ (∀ k ∈ left, k ∈ s.replay) ∧
      ∀ k ∈ s.replay, k ∈ left ∨ s.Resent k
  | .failing left f => s.Newer ∧ s.Disposed ∧ (∀ k ∈ s.replay, k ∈ left ∨ k ∈ s.unreplayed) ∧
      (∀ k ∈ left, k ∈ s.replay) ∧
      ∀ k, left.head? = some k → ∃ r, s.recs[k]? = some r ∧ r.Midway f
  | .returned true => s.Newer ∧ s.Disposed ∧ ∀ k ∈ s.replay, s.Resent k
  | .returned false => s.Newer ∧ s.Disposed ∧ ∀ k ∈ s.replay, k ∈ s.unreplayed

structure Inv (p : Policy) (s : St) : Prop where
  recs : ∀ (k : Nat) (r : Rec), s.recs[k]? = some r → RecOk s k r
  procs : ∀ q ∈ s.procs, ∃ r, s.recs[q.k]? = some r ∧ r.settled = true
  phase : PhaseOk p s
  failed : ∀ k ∈ s.failed, ∃ r, s.recs[k]? = some r ∧ p.replays r = false ∧ r.Failed
  replay : ∀ k ∈ s.replay, ∃ r, s.recs[k]? = some r ∧ p.replays r = true ∧ r.pc ≠ .registering
  unreplayed : ∀ k ∈ s.unreplayed, ∃ r, s.recs[k]? = some r ∧ r.Failed

/-! ## Steps beside `Reconnect` -/

structure Quiet (s t : St) : Prop where
  grows : Grows s t
  back : ∀ (k : Nat) (r' : Rec), t.recs[k]? = some r' → r'.via = some 0 →
    s.installed = some 0 ∨ ∃ r, s.recs[k]? = some r ∧ r.via = some 0 ∧ (r'.settled = false → r.settled = false)
  phase : t.phase = s.phase
  replay : t.replay = s.replay
  failed : t.failed = s.failed
  unreplayed : t.unreplayed = s.unreplayed
  resent : t.resent = s.resent
  installed : t.installed = s.installed ∧ t.conns = s.conns ∨
    s.installed = none ∧ t.installed = some s.conns ∧ t.conns = s.conns + 1

theorem Quiet.newer (hq : Quiet s t) (h : s.Newer) : t.Newer := by
  obtain ⟨h1, h2⟩ := h
  rcases hq.installed with ⟨hi, hc⟩ | ⟨-, hi, hc⟩
  · exact ⟨by rw [hi]; exact h1, by omega⟩
  · refine ⟨?_, by omega⟩
    rw [hi]
    intro h
    have := Option.some.inj h
    omega

theorem Quiet.old (hq : Quiet s t) (h : s.Newer) {k : Nat} {r' : Rec} (hr : t.recs[k]? = some r')
    (hv : r'.via = some 0) :
    ∃ r, s.recs[k]? = some r ∧ r.via = some 0 ∧ (r'.settled = false → r.settled = false) :=
  (hq.back k r' hr hv).resolve_left h.1

theorem Quiet.disposed (hq : Quiet s t) (hn : s.Newer) (h : s.Disposed) : t.Disposed := by
  intro k r' hr hv ho
  obtain ⟨r, hr, hv, ho'⟩ := hq.old hn hr hv
  rw [hq.failed, hq.replay]
  exact h k r hr hv (ho' ho)

theorem Quiet.phaseOk (hq : Quiet s t) (h : PhaseOk p s) : PhaseOk p t := by
  unfold PhaseOk at h ⊢
  rw [hq.phase]
  cases hp : s.phase with
  | idle =>
    simp only [hp] at h
    obtain ⟨h1, h2, h3, h4⟩ := h
    rcases hq.installed with ⟨hi, hc⟩ | ⟨hi, -, -⟩
    · exact ⟨hi.trans h1, hc.trans h2, hq.failed.trans h3, hq.unreplayed.trans h4⟩
    · rw [h1] at hi
      cases hi
  | loaded c =>
    simp only [hp] at h
    obtain ⟨h0, h1, h2, h3, h4⟩ := h
    rcases hq.installed with ⟨hi, hc⟩ | ⟨hi, -, -⟩
    · exact ⟨h0, hi.trans h1, hc.trans h2, hq.failed.trans h3, hq.unreplayed.trans h4⟩
    · rw [h1] at hi
      cases hi
  | cleared c =>
    simp only [hp] at h
    exact ⟨hq.newer h.1, hq.failed.trans h.2.1, hq.unreplayed.trans h.2.2⟩
  | reset =>
    simp only [hp] at h
    exact ⟨hq.newer h.1, hq.failed.trans h.2.1, hq.unreplayed.trans h.2.2⟩
  | counted n =>
    simp only [hp] at h
    obtain ⟨hn, hu, hf, hb⟩ := h
    refine ⟨hq.newer hn, hq.unreplayed.trans hu, hq.failed.trans hf, fun k r' hr hv => ?_⟩
    obtain ⟨r, hr, hv, -⟩ := hq.old hn hr hv
    exact hb k r hr hv
  | ranging n l v cur =>
    simp only [hp] at h
    obtain ⟨hn, hu, hb, hl, hv, hc⟩ := h
    refine ⟨hq.newer hn, hq.unreplayed.trans hu, fun k r' hr hv => ?_, fun k r' hr hv ho => ?_, ?_, fun k f hk => ?_⟩
    · obtain ⟨r, hr, hv, -⟩ := hq.old hn hr hv
      exact hb k r hr hv
    · obtain ⟨r, hr, hv, ho'⟩ := hq.old hn hr hv
      exact hl k r hr hv (ho' ho)
    · rw [hq.replay, hq.failed]
      exact hv
    · obtain ⟨r, hr, hrep, hm⟩ := hc k f hk
      obtain ⟨r', hr', hkeep⟩ := hq.grows k r hr
      exact ⟨r', hr', (hkeep.replays p).trans hrep, hm.keeps hkeep⟩
  | connecting =>
    simp only [hp] at h
    exact ⟨hq.newer h.1, hq.unreplayed.trans h.2.1, hq.disposed h.1 h.2.2⟩
  | resending left =>
    simp only [hp] at h
    obtain ⟨hn, hu, hd, hl, hr⟩ := h
    refine ⟨hq.newer hn, hq.unreplayed.trans hu, hq.disposed hn hd, ?_, ?_⟩
    · rw [hq.replay]
      exact hl
    · simpa only [St.Resent, hq.replay, hq.resent] using hr
  | failing left f =>
    simp only [hp] at h
    obtain ⟨hn, hd, hr, hl, hm⟩ := h
    refine ⟨hq.newer hn, hq.disposed hn hd, ?_, ?_, fun k hk => ?_⟩
    · rw [hq.replay, hq.unreplayed]
      exact hr
    · rw [hq.replay]
      exact hl
    · obtain ⟨r, hr, hm⟩ := hm k hk
      obtain ⟨r', hr', hkeep⟩ := hq.grows k r hr
      exact ⟨r', hr', hm.keeps hkeep⟩
  | returned ok =>
    cases ok with
    | true =>
      simp only [hp] at h
      obtain ⟨hn, hd, hr⟩ := h
      refine ⟨hq.newer hn, hq.disposed hn hd, ?_⟩
      simpa only [St.Resent, hq.replay, hq.resent] using hr
    | false =>
      simp only [hp] at h
      obtain ⟨hn, hd, hr⟩ := h
      refine ⟨hq.newer hn, hq.disposed hn hd, ?_⟩
      rw [hq.replay, hq.unreplayed]
      exact hr

theorem Inv.quiet (hi : Inv p s) (hq : Quiet s t)
    (hrecs : ∀ (k : Nat) (r : Rec), t.recs[k]? = some r → RecOk t k r)
    (hprocs : ∀ q ∈ t.procs, ∃ r, t.recs[q.k]? = some r ∧ r.settled = true) : Inv p t := by
  refine ⟨hrecs, hprocs, hq.phaseOk hi.phase, fun k hk => ?_, fun k hk => ?_, fun k hk => ?_⟩
  · rw [hq.failed] at hk
    obtain ⟨r, hr, hrep, hf⟩ := hi.failed k hk
    obtain ⟨r', hr', hkeep⟩ := hq.grows k r hr
    exact ⟨r', hr', (hkeep.replays p).trans hrep, hf.keeps hkeep⟩
  · rw [hq.replay] at hk
    obtain ⟨r, hr, hrep, hst⟩ := hi.replay k hk
    obtain ⟨r', hr', hkeep⟩ := hq.grows k r hr
    exact ⟨r', hr', (hkeep.replays p).trans hrep, hkeep.stored hst⟩
  · rw [hq.unreplayed] at hk
    obtain ⟨r, hr, hf⟩ := hi.unreplayed k hk
    obtain ⟨r', hr', hkeep⟩ := hq.grows k r hr
    exact ⟨r', hr', hf.keeps hkeep⟩

theorem RecOk.of_eq (h : RecOk s k r) (hf : t.failed = s.failed) (hu : t.unreplayed = s.unreplayed) :
    RecOk t k r :=
  ⟨h.outcomes, h.registering, h.unsent, by rw [hf, hu]; exact h.gone⟩

theorem Inv.turn (hi : Inv p s) {f : Rec → Rec} {procs : List Proc} (hr : s.recs[k]? = some r)
    (hkeep : Keeps r (f r)) (hvia : (f r).via = some 0 → r.via = some 0 ∨ s.installed = some 0)
    (hok : RecOk s k (f r))
    (hprocs : ∀ q ∈ procs, q.k = k ∧ (f r).settled = true ∨ ∃ q' ∈ s.procs, q'.k = q.k) :
    Inv p { s.upd k f with procs := procs } := by
  have hover : (f r).settled = false → r.settled = false := by
    intro h
    cases ho : r.settled with
    | false => rfl
    | true => rw [hkeep.settled ho] at h; cases h
  refine hi.quiet ⟨?_, ?_, rfl, rfl, rfl, rfl, rfl, .inl ⟨rfl, rfl⟩⟩ ?_ ?_
  · refine grows_upd rfl fun r₀ hr₀ => ?_
    cases hr.symm.trans hr₀
    exact hkeep
  · intro j r' hj hv
    rcases modify_get hj with ⟨rfl, r₀, hr₀, rfl⟩ | ⟨-, hj⟩
    · cases hr.symm.trans hr₀
      rcases hvia hv with hv | hv
      · exact .inr ⟨r, hr, hv, hover⟩
      · exact .inl hv
    · exact .inr ⟨r', hj, hv, id⟩
  · intro j r' hj
    rcases modify_get hj with ⟨rfl, r₀, hr₀, rfl⟩ | ⟨-, hj⟩
    · cases hr.symm.trans hr₀
      exact hok.of_eq rfl rfl
    · exact (hi.recs j r' hj).of_eq rfl rfl
  · intro q hq
    rcases hprocs q hq with ⟨hqk, ho⟩ | ⟨q', hq', hqk⟩
    · exact ⟨f r, by simp [St.upd, hqk, hr], ho⟩
    · obtain ⟨r', hr', ho⟩ := hi.procs q' hq'
      rw [hqk] at hr'
      by_cases hkq : k = q.k
      · subst hkq
        cases hr.symm.trans hr'
        exact ⟨f r, by simp [St.upd, hr], hkeep.settled ho⟩
      · exact ⟨r', by simp [St.upd, hkq, hr'], ho⟩

theorem RecOk.past (hok : RecOk s k r) (hp : r.pc ≠ .registering)
    (hp' : r'.pc ≠ .registering ∧ r'.pc ≠ .gettingConn)
    (ho : r'.outcomes.length = if r'.pc = .returned then 1 else 0) (hm : r'.inMap = r.inMap)
    (hv : r'.settled = r.settled) : RecOk s k r' := by
  refine ⟨ho, fun h => absurd h hp'.1, fun h => ?_, fun _ h => ?_⟩
  · exact h.elim (fun h => absurd h hp'.1) fun h => absurd h hp'.2
  · rw [hv]
    exact hok.gone hp (hm ▸ h)

theorem Turn.ok (hok : RecOk s k r) (h : Turn s r r') : RecOk s k r' := by
  have ho := hok.outcomes
  cases h with
  | store hp =>
    refine ⟨by simpa [hp] using ho, fun h => ?_, fun _ => hok.unsent (.inl hp), fun _ h => ?_⟩ <;> cases h
  | getConn hp hc => exact hok.past (by rw [hp]; simp) (by simp) (by simpa [hp] using ho) rfl rfl
  | send hp => exact hok.past (by rw [hp]; simp) (by simp) (by simpa [hp] using ho) rfl rfl
  | ready => exact ⟨ho, hok.registering, hok.unsent, hok.gone⟩
  | overrun _ => exact ⟨ho, hok.registering, hok.unsent, hok.gone⟩
  | putDone h1 =>
    refine ⟨ho, fun h => ?_, hok.unsent, fun _ _ => .inl rfl⟩
    have hp : r.pc = .registering := h
    simp [hp, h1] at ho
  | putDelete h1 =>
    refine ⟨ho, fun h => ?_, hok.unsent, fun _ _ => .inl h1⟩
    rw [(hok.registering h).2] at h1
    cases h1
  | watch => exact ⟨ho, hok.registering, hok.unsent, hok.gone⟩
  | receive hp =>
    simp only [hp, reduceCtorEq, if_false] at ho
    exact hok.past (by rw [hp]; simp) (by simp) (by simp [ho]) rfl rfl
  | fails e hp =>
    simp only [hp, reduceCtorEq, if_false] at ho
    exact hok.past (by rw [hp]; simp) (by simp [Rec.fails]) (by simp [Rec.fails, ho]) rfl rfl

theorem Turn.old (h : Turn s r r') (hv : r'.via = some 0) : r.via = some 0 ∨ s.installed = some 0 := by
  cases h with
  | getConn hp hc => exact .inr (by rw [hc]; exact hv)
  | _ => exact .inl hv

theorem RecOk.answer (hok : RecOk s k r) (err : Option Err) : RecOk s k (r.answer err) := by
  cases err with
  | none => exact ⟨hok.outcomes, hok.registering, hok.unsent, hok.gone⟩
  | some e => exact ⟨hok.outcomes, hok.registering, hok.unsent, hok.gone⟩

theorem inv_draw (hi : Inv p s) (kind : Kind) (name : String) :
    Inv p { s with recs := s.recs ++ [.drawn kind name] } := by
  refine hi.quiet ⟨fun k r hr => ⟨r, get_append _ hr, .refl r⟩, ?_, rfl, rfl, rfl, rfl, rfl, .inl ⟨rfl, rfl⟩⟩ ?_ ?_
  · intro k r hr hv
    rcases append_get hr with hr | ⟨-, rfl⟩
    · exact .inr ⟨r, hr, hv, id⟩
    · cases hv
  · intro k r hr
    rcases append_get hr with hr | ⟨-, rfl⟩
    · exact (hi.recs k r hr).of_eq rfl rfl
    · exact ⟨rfl, fun _ => ⟨rfl, rfl⟩, fun _ => rfl, fun h => absurd rfl h⟩
  · intro q hq
    obtain ⟨r, hr, ho⟩ := hi.procs q hq
    exact ⟨r, get_append _ hr, ho⟩

theorem inv_connect (hi : Inv p s) (h : s.installed = none) :
    Inv p { s with installed := some s.conns, conns := s.conns + 1 } :=
  hi.quiet ⟨.of_eq rfl, fun _ r hr hv => .inr ⟨r, hr, hv, id⟩, rfl, rfl, rfl, rfl, rfl, .inr ⟨h, rfl, rfl⟩⟩
    (fun k r hr => (hi.recs k r hr).of_eq rfl rfl) hi.procs

theorem inv_respond (hi : Inv p s) {err : Option Err} {b : Bool} (hr : s.recs[k]? = some r)
    (hm : r.inMap = true) :
    Inv p { s.upd k fun r => { r with settled := true } with procs := s.procs ++ [⟨k, err, b, false⟩] } := by
  have hok := hi.recs k r hr
  refine hi.turn hr ⟨rfl, rfl, id, fun _ => id, fun _ => rfl, id, fun _ => id, fun _ => .inl rfl, id⟩ .inl
    ⟨hok.outcomes, fun h => ?_, hok.unsent, fun _ _ => .inl rfl⟩ fun q hq => ?_
  · rw [(hok.registering h).1] at hm
    cases hm
  · rcases List.mem_append.mp hq with hq | hq
    · exact .inr ⟨q, hq, rfl⟩
    · rw [List.mem_singleton.mp hq]
      exact .inl ⟨rfl, rfl⟩

theorem inv_answer (hi : Inv p s) {i : Nat} {q : Proc} (hq : s.procs[i]? = some q) :
    Inv p { s.upd q.k fun r => r.answer q.err with
      procs := s.procs.modify i fun q => { q with deleting := true } } := by
  obtain ⟨r, hr, ho⟩ := hi.procs q (List.mem_of_getElem? hq)
  refine hi.turn hr (.answer ho q.err) (fun h => ?_) ((hi.recs q.k r hr).answer q.err) fun q' hq' => ?_
  · cases he : q.err with
    | none => rw [he] at h; exact .inl h
    | some e => rw [he] at h; exact .inl h
  · obtain ⟨j, hj⟩ := List.mem_iff_getElem?.mp hq'
    rcases modify_get hj with ⟨-, q₀, hq₀, rfl⟩ | ⟨-, hj⟩
    · exact .inr ⟨q₀, List.mem_of_getElem? hq₀, rfl⟩
    · exact .inr ⟨q', List.mem_of_getElem? hj, rfl⟩

theorem inv_delete (hi : Inv p s) {i : Nat} {q : Proc} (hq : s.procs[i]? = some q) :
    Inv p { s.upd q.k fun r => { r with inMap := r.inMap && !q.deletes } with procs := s.procs.eraseIdx i } := by
  obtain ⟨r, hr, ho⟩ := hi.procs q (List.mem_of_getElem? hq)
  have hok := hi.recs q.k r hr
  refine hi.turn hr (.deleted r _) .inl ⟨hok.outcomes, fun h => ?_, hok.unsent, fun _ _ => .inl ho⟩ fun q' hq' => ?_
  · rw [(hok.registering h).2] at ho
    cases ho
  · exact .inr ⟨q', List.mem_of_mem_eraseIdx hq', rfl⟩

/-! ## Steps of `Reconnect` -/

theorem Inv.moves (hi : Inv p s) {ph : Phase} {inst : Option Nat} {sent : List (Nat × Nat)}
    (hph : PhaseOk p { s with phase := ph, installed := inst, resent := sent }) :
    Inv p { s with phase := ph, installed := inst, resent := sent } :=
  ⟨fun k r hr => (hi.recs k r hr).of_eq rfl rfl, hi.procs, hph, hi.failed, hi.replay, hi.unreplayed⟩

theorem inv_range (hi : Inv p s) (hp : s.phase = .counted n) :
    Inv p { s with phase := .ranging n s.keys [] none } := by
  have h := hi.phase
  simp only [PhaseOk, hp] at h
  obtain ⟨hn, hu, hf, hb⟩ := h
  refine hi.moves ⟨hn, hu, hb, fun k r hr hv ho => ?_, nofun, nofun⟩
  -- it got a connection, so it is stored, and only an answer could have removed it
  have hok := hi.recs k r hr
  have hst : r.pc ≠ .registering := fun h => by rw [hok.unsent (.inl h)] at hv; cases hv
  have hm : r.inMap = true := by
    cases hm : r.inMap with
    | true => rfl
    | false =>
      have := hok.gone hst hm
      simp [ho, hf, hu] at this
  exact List.mem_filter.mpr ⟨List.mem_range.mpr (List.getElem?_eq_some_iff.mp hr).1, by simp [hr, hm]⟩

theorem inv_ranged (hi : Inv p s) (hp : s.phase = .ranging n l v none)
    (hall : ∀ k ∈ l, s.inMap k = true → k ∈ v) : Inv p { s with phase := .connecting } := by
  have h := hi.phase
  simp only [PhaseOk, hp] at h
  obtain ⟨hn, hu, hb, hl, hv, -⟩ := h
  refine hi.moves ⟨hn, hu, fun k r hr hvia ho => ?_⟩
  have hst : r.pc ≠ .registering := fun h => by rw [(hi.recs k r hr).unsent (.inl h)] at hvia; cases hvia
  cases hm : r.inMap with
  | true =>
    have hk := hall k (hl k r hr hvia ho) (by simp [St.inMap, hr, hm])
    rcases hv k hk (hb k r hr hvia) with h | h | ⟨f, h⟩
    · exact .inr h
    · exact .inl h
    · cases h
  | false =>
    rcases (hi.recs k r hr).gone hst hm with h | h | h
    · rw [ho] at h
      cases h
    · exact .inl h
    · rw [hu] at h
      cases h

def Rec.failStep (r : Rec) : Failing → Rec
  | .setError => { r with resultErr := some .connectionLost }
  | .report => r.reportLost
  | .close => { r with closed := true }
  | .delete => { r with inMap := false }

def Failing.next : Failing → Option Failing
  | .setError => some .report
  | .report => some .close
  | .close => some .delete
  | .delete => none

theorem fail_eq (s : St) (k : Nat) (f : Failing) : s.fail k f = (s.upd k (Rec.failStep · f), f.next) := by
  cases f <;> rfl

theorem fail_cases {o : Option Failing} (h : s.fail k f = (t, o)) :
    t = s.upd k (Rec.failStep · f) ∧ f.next = o := by
  rw [fail_eq] at h
  exact ⟨(Prod.mk.inj h).1.symm, (Prod.mk.inj h).2⟩

theorem told_reportLost (r : Rec) : r.reportLost.Told := by
  intro hk
  have hk : r.kind ≠ .unary := hk
  simp [Rec.reportLost, hk]

theorem Keeps.failStep (r : Rec) (f : Failing) : Keeps r (r.failStep f) := by
  cases f with
  | setError => exact ⟨rfl, rfl, id, fun _ => id, id, id, fun _ => id, fun _ => .inr (.inl rfl), id⟩
  | report => exact ⟨rfl, rfl, id, fun _ => id, id, id, fun _ => id, id, fun _ => told_reportLost r⟩
  | close => exact ⟨rfl, rfl, id, fun _ => id, id, fun _ => rfl, fun _ => id, id, id⟩
  | delete => exact ⟨rfl, rfl, id, fun _ => id, id, id, fun _ _ => rfl, id, id⟩

theorem Rec.Midway.start (h : r.pc ≠ .registering) : r.Midway .setError :=
  ⟨h, fun h => absurd rfl h, fun h => by simp at h, nofun⟩

theorem Rec.Midway.next {f' : Failing} (h : r.Midway f) (hf : f.next = some f') :
    (r.failStep f).Midway f' := by
  cases f with
  | setError => cases hf; exact ⟨h.stored, fun _ => .inr (.inl rfl), fun h => by simp at h, nofun⟩
  | report => cases hf; exact ⟨h.stored, fun _ => h.spent (by simp), fun _ => told_reportLost r, nofun⟩
  | close => cases hf; exact ⟨h.stored, fun _ => h.spent (by simp), fun _ => h.told (.inl rfl), fun _ => rfl⟩
  | delete => cases hf

theorem Rec.Midway.failed (h : r.Midway f) (hf : f.next = none) : (r.failStep f).Failed := by
  cases f with
  | delete => exact ⟨h.stored, rfl, h.closed rfl, h.spent (by simp), h.told (.inr rfl)⟩
  | _ => cases hf

theorem failStep_via (r : Rec) (f : Failing) :
    (r.failStep f).via = r.via ∧ (r.failStep f).settled = r.settled := by
  cases f <;> exact ⟨rfl, rfl⟩

theorem Inv.failing (hi : Inv p s) {f' : Failing} (hr : s.recs[k]? = some r) (hf : f.next = some f') :
    Inv p (s.upd k (Rec.failStep · f)) := by
  have hok := hi.recs k r hr
  refine hi.turn hr (.failStep r f) (fun h => .inl ((failStep_via r f).1 ▸ h)) ?_ fun q hq => .inr ⟨q, hq, rfl⟩
  cases f with
  | delete => cases hf
  | _ => exact ⟨hok.outcomes, hok.registering, hok.unsent, hok.gone⟩

/-- `failRequest` takes its last step, and `k` is entered in one of the two lists. -/
theorem Inv.failed_one (hi : Inv p s) {ph : Phase} {fa un : List Nat} (hr : s.recs[k]? = some r)
    (hmid : r.Midway .delete)
    (hlists : fa = s.failed ++ [k] ∧ un = s.unreplayed ∧ p.replays r = false ∨ fa = s.failed ∧
      un = s.unreplayed ++ [k])
    (hph : PhaseOk p { s.upd k (Rec.failStep · .delete) with phase := ph, failed := fa, unreplayed := un }) :
    Inv p { s.upd k (Rec.failStep · .delete) with phase := ph, failed := fa, unreplayed := un } := by
  have hgrow : Grows s (s.upd k (Rec.failStep · .delete)) := grows_upd rfl fun r _ => .failStep r .delete
  have hself : (s.upd k (Rec.failStep · .delete)).recs[k]? = some (r.failStep .delete) := by simp [St.upd, hr]
  have hfailed : (r.failStep .delete).Failed := hmid.failed rfl
  have hfa : ∀ j ∈ s.failed, j ∈ fa := by
    intro j hj
    rcases hlists with ⟨rfl, -, -⟩ | ⟨rfl, -⟩
    · exact List.mem_append_left _ hj
    · exact hj
  have hun : ∀ j ∈ s.unreplayed, j ∈ un := by
    intro j hj
    rcases hlists with ⟨-, rfl, -⟩ | ⟨-, rfl⟩
    · exact hj
    · exact List.mem_append_left _ hj
  have hk : k ∈ fa ∨ k ∈ un := by
    rcases hlists with ⟨rfl, -, -⟩ | ⟨-, rfl⟩
    · exact .inl (by simp)
    · exact .inr (by simp)
  refine ⟨fun j r' hj => ?_, fun q hq => ?_, hph, fun j hj => ?_, fun j hj => ?_, fun j hj => ?_⟩
  · rcases modify_get hj with ⟨rfl, r₀, hr₀, rfl⟩ | ⟨-, hj⟩
    · have hok := hi.recs k r₀ hr₀
      exact ⟨hok.outcomes, fun h => ⟨rfl, (hok.registering h).2⟩, hok.unsent, fun _ _ => .inr hk⟩
    · have hok := hi.recs j r' hj
      exact ⟨hok.outcomes, hok.registering, hok.unsent,
        fun h1 h2 => (hok.gone h1 h2).imp_right (Or.imp (hfa j) (hun j))⟩
  · obtain ⟨r', hr', ho⟩ := hi.procs q hq
    obtain ⟨r'', hr'', hkeep⟩ := hgrow q.k r' hr'
    exact ⟨r'', hr'', hkeep.settled ho⟩
  · have hold : j ∈ s.failed ∨ j = k ∧ p.replays r = false := by
      rcases hlists with ⟨rfl, -, hrep⟩ | ⟨rfl, -⟩
      · exact (List.mem_append.mp hj).imp_right fun h => ⟨List.mem_singleton.mp h, hrep⟩
      · exact .inl hj
    rcases hold with hj | ⟨rfl, hrep⟩
    · obtain ⟨r', hr', hrep, hf⟩ := hi.failed j hj
      obtain ⟨r'', hr'', hkeep⟩ := hgrow j r' hr'
      exact ⟨r'', hr'', (hkeep.replays p).trans hrep, hf.keeps hkeep⟩
    · exact ⟨_, hself, hrep, hfailed⟩
  · obtain ⟨r', hr', hrep, hst⟩ := hi.replay j hj
    obtain ⟨r'', hr'', hkeep⟩ := hgrow j r' hr'
    exact ⟨r'', hr'', (hkeep.replays p).trans hrep, hkeep.stored hst⟩
  · have hold : j ∈ s.unreplayed ∨ j = k := by
      rcases hlists with ⟨-, rfl, -⟩ | ⟨-, rfl⟩
      · exact .inl hj
      · exact (List.mem_append.mp hj).imp_right List.mem_singleton.mp
    rcases hold with hj | rfl
    · obtain ⟨r', hr', hf⟩ := hi.unreplayed j hj
      obtain ⟨r'', hr'', hkeep⟩ := hgrow j r' hr'
      exact ⟨r'', hr'', hf.keeps hkeep⟩
    · exact ⟨_, hself, hfailed⟩

theorem old_failStep {j : Nat} (hj : (s.upd k (Rec.failStep · f)).recs[j]? = some r') :
    ∃ r, s.recs[j]? = some r ∧ r'.via = r.via ∧ r'.settled = r.settled := by
  rcases modify_get hj with ⟨rfl, r₀, hr₀, rfl⟩ | ⟨-, hj⟩
  · exact ⟨r₀, hr₀, failStep_via r₀ f⟩
  · exact ⟨r', hj, rfl, rfl⟩

theorem inv_dispose_step (hi : Inv p s) (hp : s.phase = .ranging n l v (some (k, f))) :
    (∀ f', f.next = some f' → Inv p { s.upd k (Rec.failStep · f) with phase := .ranging n l v (some (k, f')) }) ∧
    (f.next = none → Inv p { s.upd k (Rec.failStep · f) with
      phase := .ranging n l v none, failed := s.failed ++ [k] }) := by
  have h := hi.phase
  simp only [PhaseOk, hp] at h
  obtain ⟨hn, hu, hb, hl, hv, hc⟩ := h
  obtain ⟨r, hr, hrep, hmid⟩ := hc k f rfl
  have hb' : (s.upd k (Rec.failStep · f)).Below n := by
    intro j r' hj hvia
    obtain ⟨r₀, hr₀, h1, -⟩ := old_failStep hj
    exact hb j r₀ hr₀ (h1 ▸ hvia)
  have hl' : ∀ (j : Nat) (r' : Rec), (s.upd k (Rec.failStep · f)).recs[j]? = some r' → r'.via = some 0 →
    r'.settled = false → j ∈ l := by
    intro j r' hj hvia ho
    obtain ⟨r₀, hr₀, h1, h2⟩ := old_failStep hj
    exact hl j r₀ hr₀ (h1 ▸ hvia) (h2 ▸ ho)
  have hself : (s.upd k (Rec.failStep · f)).recs[k]? = some (r.failStep f) := by simp [St.upd, hr]
  refine ⟨fun f' hf => ?_, fun hf => ?_⟩
  · refine (hi.failing hr hf).moves ⟨hn, hu, hb', hl', fun j hj hlt => ?_, fun j g hg => ?_⟩
    · rcases hv j hj hlt with h | h | ⟨g, h⟩
      · exact .inl h
      · exact .inr (.inl h)
      · cases h
        exact .inr (.inr ⟨f', rfl⟩)
    · cases hg
      exact ⟨_, hself, ((Keeps.failStep r f).replays p).trans hrep, hmid.next hf⟩
  · cases f with
    | setError | report | close => cases hf
    | delete =>
      refine hi.failed_one hr hmid (.inl ⟨rfl, rfl, hrep⟩) ⟨hn, hu, hb', hl', fun j hj hlt => ?_, nofun⟩
      rcases hv j hj hlt with h | h | ⟨g, h⟩
      · exact .inl h
      · exact .inr (.inl (List.mem_append_left _ h))
      · cases h
        exact .inr (.inl (by simp))

theorem inv_unreplay_step (hi : Inv p s) {left : List Nat} (hp : s.phase = .failing (k :: left) f) :
    (∀ f', f.next = some f' → Inv p { s.upd k (Rec.failStep · f) with phase := .failing (k :: left) f' }) ∧
    (f.next = none →
      Inv p { s.upd k (Rec.failStep · f) with
        phase := .failing left .setError, unreplayed := s.unreplayed ++ [k] }) := by
  have h := hi.phase
  simp only [PhaseOk, hp] at h
  obtain ⟨hn, hd, hr', hl, hm⟩ := h
  obtain ⟨r, hr, hmid⟩ := hm k rfl
  have hd' : (s.upd k (Rec.failStep · f)).Disposed := by
    intro j r' hj hvia ho
    obtain ⟨r₀, hr₀, h1, h2⟩ := old_failStep hj
    exact hd j r₀ hr₀ (h1 ▸ hvia) (h2 ▸ ho)
  have hself : (s.upd k (Rec.failStep · f)).recs[k]? = some (r.failStep f) := by simp [St.upd, hr]
  refine ⟨fun f' hf => ?_, fun hf => ?_⟩
  · refine (hi.failing hr hf).moves ⟨hn, hd', hr', hl, fun j hj => ?_⟩
    cases hj
    exact ⟨_, hself, hmid.next hf⟩
  · cases f with
    | setError | report | close => cases hf
    | delete =>
      refine hi.failed_one hr hmid (.inr ⟨rfl, rfl⟩) ⟨hn, hd', fun j hj => ?_,
        fun j hj => hl j (List.mem_cons_of_mem _ hj),
        fun j hj => ?_⟩
      · rcases hr' j hj with h | h
        · rcases List.mem_cons.mp h with rfl | h
          · exact .inr (by simp)
          · exact .inl h
        · exact .inr (List.mem_append_left _ h)
      · have hjl : j ∈ left := List.mem_of_mem_head? hj
        obtain ⟨r₁, hr₁, -, hst⟩ := hi.replay j (hl j (List.mem_cons_of_mem _ hjl))
        obtain ⟨r₂, hr₂, hkeep⟩ := grows_upd (s := s) (t := s.upd k (Rec.failStep · .delete)) rfl
          (fun r _ => Keeps.failStep r .delete) j r₁ hr₁
        exact ⟨r₂, hr₂, .start (hkeep.stored hst)⟩

theorem inv_resend (hi : Inv p s) {c : Nat} {left : List Nat} (hp : s.phase = .resending (k :: left))
    (hc : s.installed = some c) :
    Inv p { s.upd k fun r => { r with handed := r.handed ++ [c] } with
      phase := .resending left, resent := s.resent ++ [(k, c)] } := by
  have h := hi.phase
  simp only [PhaseOk, hp] at h
  obtain ⟨hn, hu, hd, hl, hr'⟩ := h
  obtain ⟨r, hr, -, -⟩ := hi.replay k (hl k (by simp))
  have hok := hi.recs k r hr
  have hc0 : c ≠ 0 := fun h => hn.1 (by rw [hc, h])
  have hi' : Inv p (s.upd k fun r => { r with handed := r.handed ++ [c] }) :=
    hi.turn hr ⟨rfl, rfl, id, fun _ => id, id, id, fun _ => id, id, id⟩ .inl
      ⟨hok.outcomes, hok.registering, hok.unsent, hok.gone⟩ fun q hq => .inr ⟨q, hq, rfl⟩
  have hph := hi'.phase
  simp only [PhaseOk, St.upd, hp] at hph
  refine hi'.moves ⟨hn, hu, hph.2.2.1, fun j hj => hl j (List.mem_cons_of_mem _ hj), fun j hj => ?_⟩
  rcases hr' j hj with h | ⟨c', hc', hne⟩
  · rcases List.mem_cons.mp h with rfl | h
    · exact .inr ⟨c, by simp, hc0⟩
    · exact .inl h
  · exact .inr ⟨c', List.mem_append_left _ hc', hne⟩

theorem inv_visit (hi : Inv p s) (hp : s.phase = .ranging n l v none)
    (hr : s.recs[k]? = some r) (hm : r.inMap = true) :
    (n ≤ k → Inv p { s with phase := .ranging n l (k :: v) none }) ∧
    (p.replays r = true → Inv p { s with phase := .ranging n l (k :: v) none, replay := s.replay ++ [k] }) ∧
    (p.replays r = false → Inv p { s with phase := .ranging n l (k :: v) (some (k, .setError)) }) := by
  have h := hi.phase
  simp only [PhaseOk, hp] at h
  obtain ⟨hn, hu, hb, hl, hv, -⟩ := h
  have hst : r.pc ≠ .registering := fun h => by rw [((hi.recs k r hr).registering h).1] at hm; cases hm
  have hold : ∀ j ∈ v, j < n → j ∈ s.replay ∨ j ∈ s.failed := by
    intro j hj hlt
    rcases hv j hj hlt with h | h | ⟨f, h⟩
    · exact .inl h
    · exact .inr h
    · cases h
  refine ⟨fun hle => ?_, fun hrep => ?_, fun hrep => ?_⟩
  · refine hi.moves ⟨hn, hu, hb, hl, fun j hj hlt => ?_, nofun⟩
    rcases List.mem_cons.mp hj with rfl | hj
    · omega
    · exact (hold j hj hlt).imp_right .inl
  · refine ⟨fun j r' hj => (hi.recs j r' hj).of_eq rfl rfl, hi.procs, ⟨hn, hu, hb, hl, fun j hj hlt => ?_, nofun⟩,
      hi.failed, fun j hj => ?_, hi.unreplayed⟩
    · rcases List.mem_cons.mp hj with rfl | hj
      · exact .inl (by simp)
      · exact (hold j hj hlt).imp (List.mem_append_left _) .inl
    · rcases List.mem_append.mp hj with hj | hj
      · exact hi.replay j hj
      · rw [List.mem_singleton.mp hj]
        exact ⟨r, hr, hrep, hst⟩
  · refine hi.moves ⟨hn, hu, hb, hl, fun j hj hlt => ?_, fun j f h => ?_⟩
    · rcases List.mem_cons.mp hj with rfl | hj
      · exact .inr (.inr ⟨_, rfl⟩)
      · exact (hold j hj hlt).imp_right .inl
    · cases h
      exact ⟨r, hr, hrep, .start hst⟩

theorem inv_step (hi : Inv p s) (h : step p s e = some t) : Inv p t := by
  have hph := hi.phase
  cases step_cases h with
  | draw => exact inv_draw hi _ _
  | turn hr hf =>
    exact hi.turn hr (hf.keeps (hi.recs _ _ hr)) hf.old (hf.ok (hi.recs _ _ hr)) fun q hq => .inr ⟨q, hq, rfl⟩
  | respond hr hm => exact inv_respond hi hr hm
  | answer hq => exact inv_answer hi hq
  | delete hq => exact inv_delete hi hq
  | connect hn => exact inv_connect hi hn
  | load hp hc =>
    simp only [PhaseOk, hp] at hph
    obtain ⟨h1, h2, h3, h4⟩ := hph
    rw [h1] at hc
    exact hi.moves ⟨(Option.some.inj hc).symm, h1, h2, h3, h4⟩
  | clear hp =>
    simp only [PhaseOk, hp] at hph
    obtain ⟨-, -, h2, h3, h4⟩ := hph
    exact hi.moves ⟨⟨by simp, Nat.le_of_eq h2.symm⟩, h3, h4⟩
  | close hp =>
    simp only [PhaseOk, hp] at hph
    exact hi.moves hph
  | cutoff hp =>
    simp only [PhaseOk, hp] at hph
    exact hi.moves ⟨hph.1, hph.2.2, hph.2.1, fun k r hr _ => (List.getElem?_eq_some_iff.mp hr).1⟩
  | range hp => exact inv_range hi hp
  | failing hp hf =>
    obtain ⟨rfl, hnext⟩ := fail_cases hf
    exact (inv_dispose_step hi hp).1 _ hnext
  | failed hp hf =>
    obtain ⟨rfl, hnext⟩ := fail_cases hf
    exact (inv_dispose_step hi hp).2 hnext
  | ranged hp hall => exact inv_ranged hi hp hall
  | connected hp hc =>
    simp only [PhaseOk, hp] at hph
    exact hi.moves ⟨hph.1, hph.2.1, hph.2.2, fun k hk => hk, fun k hk => .inl hk⟩
  | resend hp hc => exact inv_resend hi hp hc
  | resentAll hp =>
    simp only [PhaseOk, hp] at hph
    exact hi.moves ⟨hph.1, hph.2.2.1, fun k hk => (hph.2.2.2.2 k hk).resolve_left (by simp)⟩
  | unreplaying hp hf =>
    obtain ⟨rfl, hnext⟩ := fail_cases hf
    exact (inv_unreplay_step hi hp).1 _ hnext
  | unreplayed hp hf =>
    obtain ⟨rfl, hnext⟩ := fail_cases hf
    exact (inv_unreplay_step hi hp).2 hnext
  | unreplayedAll hp =>
    simp only [PhaseOk, hp] at hph
    exact hi.moves ⟨hph.1, hph.2.1, fun k hk => (hph.2.2.1 k hk).resolve_left (by simp)⟩
  | dialFailed hp =>
    simp only [PhaseOk, hp] at hph
    refine hi.moves ⟨hph.1, hph.2.2, fun k hk => .inl hk, fun k hk => hk, fun k hk => ?_⟩
    obtain ⟨r, hr, -, hst⟩ := hi.replay k (List.mem_of_mem_head? hk)
    exact ⟨r, hr, .start hst⟩
  | skip hp hr hm hn => exact (inv_visit hi hp hr hm).1 hn
  | collect hp hr hm _ hrep => exact (inv_visit hi hp hr hm).2.1 hrep
  | dispose hp hr hm _ hrep => exact (inv_visit hi hp hr hm).2.2 hrep

theorem inv_start : Inv p start := by
  refine ⟨fun k r hr => ?_, fun q hq => ?_, ⟨rfl, rfl, rfl, rfl⟩, fun k hk => ?_, fun k hk => ?_, fun k hk => ?_⟩
  · simp [start] at hr
  · cases hq
  · cases hk
  · cases hk
  · cases hk

theorem inv_reach {ok : St → Ev → Prop} (h : (sys p).Reach ok s) : Inv p s := by
  refine Sys.Reach.inv (P := Inv p) ?_ ?_ h
  · rintro _ rfl
    exact inv_start
  · intro s e t hi _ hst
    exact inv_step hi hst

/-! ## No request is orphaned -/

def Phase.passed : Phase → Bool
  | .connecting | .resending _ | .failing _ _ | .returned _ => true
  | _ => false

theorem disposed_of_passed (h : PhaseOk p s) (hp : s.phase.passed = true) : s.Disposed := by
  unfold PhaseOk at h
  cases hph : s.phase with
  | connecting => simp only [hph] at h; exact h.2.2
  | resending left => simp only [hph] at h; exact h.2.2.1
  | failing left f => simp only [hph] at h; exact h.2.1
  | returned ok =>
    cases ok with
    | true => simp only [hph] at h; exact h.2.1
    | false => simp only [hph] at h; exact h.2.1
  | _ => rw [hph] at hp; cases hp

/-- The policy tells the two lists apart. -/
theorem Inv.disjoint (hi : Inv p s) (hf : k ∈ s.failed) (hr : k ∈ s.replay) : False := by
  obtain ⟨r, hr₁, hno, -⟩ := hi.failed k hf
  obtain ⟨r', hr₂, hyes, -⟩ := hi.replay k hr
  rw [Option.some.inj (hr₁.symm.trans hr₂)] at hno
  rw [hno] at hyes
  cases hyes

/-- `failRequest` is over with the record. Unless the request was answered, the error handler
    was told of a stream, and the error is ErrConnectionLost or one that came after it: the
    outcome its caller got, or an overrun of its pump. -/
structure Rec.Lost (r : Rec) : Prop where
  removed : r.inMap = false
  closed : r.closed = true
  told : r.kind ≠ .unary → .connectionLost ∈ r.streamErrors
  error : r.settled = false →
    r.resultErr = some .connectionLost ∨ (∃ e, r.outcomes = [.error e]) ∨ r.kind ≠ .unary ∧ r.cancelOnce = true

theorem Rec.Failed.lost (h : r.Failed) (ho : r.outcomes.length ≤ 1) : r.Lost := by
  refine ⟨h.removed, h.closed, h.told, fun hs => ?_⟩
  rcases h.spent with h | h | ⟨e, he⟩ | h
  · rw [hs] at h
    cases h
  · exact .inl h
  · refine .inr (.inl ⟨e, ?_⟩)
    match hout : r.outcomes, ho, he with
    | [o], _, he => rw [List.mem_singleton.mp he]
  · exact .inr (.inr h)

theorem RecOk.outcomes_le (h : RecOk s k r) : r.outcomes.length ≤ 1 := by
  rw [h.outcomes]
  split <;> omega

theorem reconnect_disposes (h : (sys p).Reach Sys.any s) :
    (s.phase.passed = true → ∀ (k : Nat) (r : Rec), s.recs[k]? = some r → r.via = some 0 → r.settled = false →
      k ∈ s.failed ∧ k ∉ s.replay ∧ r.Lost ∨ k ∈ s.replay ∧ k ∉ s.failed) ∧
    (s.phase = .returned true → ∀ k ∈ s.replay, ∃ c, (k, c) ∈ s.resent ∧ c ≠ 0) ∧
    (s.phase = .returned false → ∀ k ∈ s.replay, ∃ r, s.recs[k]? = some r ∧ r.Lost) ∧
    ∀ (k : Nat) (r : Rec), s.recs[k]? = some r → r.outcomes.length ≤ 1 := by
  have hi := inv_reach h
  have hph := hi.phase
  refine ⟨fun hp k r hr hv ho => ?_, fun hp k hk => ?_, fun hp k hk => ?_, fun k r hr => ?_⟩
  · rcases disposed_of_passed hph hp k r hr hv ho with hf | hrep
    · obtain ⟨r', hr', -, hfail⟩ := hi.failed k hf
      cases hr.symm.trans hr'
      exact .inl ⟨hf, fun hrep => hi.disjoint hf hrep, hfail.lost (hi.recs k r hr).outcomes_le⟩
    · exact .inr ⟨hrep, fun hf => hi.disjoint hf hrep⟩
  · simp only [PhaseOk, hp] at hph
    exact hph.2.2 k hk
  · simp only [PhaseOk, hp] at hph
    obtain ⟨r, hr, hfail⟩ := hi.unreplayed k (hph.2.2 k hk)
    exact ⟨r, hr, hfail.lost (hi.recs k r hr).outcomes_le⟩
  · exact (hi.recs k r hr).outcomes_le

def replayGet : Policy := ⟨some fun name => name == "get"⟩

def sends (k : Nat) : List Ev := [.store k, .getConn k, .send k]

def oneOfEach : List Ev :=
  ([.draw .unary "get", .draw .unary "put", .draw .getStream "watch"] : List Ev) ++ sends 0 ++ sends 1 ++ sends 2 ++
    ([.ready 2, .receive 2] : List Ev) ++ (List.replicate 5 .go : List Ev) ++ ([.visit 0, .visit 1] : List Ev) ++
    (List.replicate 4 .go : List Ev) ++ ([.visit 2] : List Ev) ++ (List.replicate 5 .go : List Ev) ++
      ([.connect] : List Ev) ++
    (List.replicate 3 .go : List Ev) ++ ([.receive 1] : List Ev)

theorem reconnect_disposes_oneOfEach : ∃ s, (sys replayGet).Reach Sys.any s ∧ s.phase = .returned true ∧
    s.failed = [1, 2] ∧ s.replay = [0] ∧ (∃ c, (0, c) ∈ s.resent ∧ c ≠ 0) ∧
    (∃ r, s.recs[1]? = some r ∧ r.outcomes = [.error .connectionLost] ∧ r.Lost) ∧
    ∃ r, s.recs[2]? = some r ∧ r.outcomes = [.result] ∧ r.cancelOnce = false ∧ r.Lost := by
  obtain ⟨s, hr, hph, hfailed, hreplay, h1, h2⟩ := Sys.reach_of_exec (sys replayGet) Sys.any start rfl oneOfEach
    (P := fun s => s.phase = .returned true ∧ s.failed = [1, 2] ∧ s.replay = [0] ∧
      s.recs[1]? = some ⟨.unary, "put", .returned, false, false, true, some .connectionLost, [], false,
        some 0, [0], false,
        [.error .connectionLost]⟩ ∧
      s.recs[2]? = some ⟨.getStream, "watch", .returned, false, false, true, some .connectionLost,
        [.connectionLost], false,
        some 0, [0], false, [.result]⟩) (by decide +kernel)
  obtain ⟨hdisp, hres, -, -⟩ := reconnect_disposes hr
  have hlost : ∀ (k : Nat) (r : Rec), s.recs[k]? = some r → r.via = some 0 → r.settled = false → k ≠ 0 → r.Lost := by
    intro k r hk hv hs h0
    rcases hdisp (by rw [hph]; rfl) k r hk hv hs with ⟨-, -, hlost⟩ | ⟨hrep, -⟩
    · exact hlost
    · rw [hreplay] at hrep
      exact absurd (List.mem_singleton.mp hrep) h0
  exact ⟨s, hr, hph, hfailed, hreplay, hres hph 0 (by simp [hreplay]), ⟨_, h1, rfl, hlost 1 _ h1 rfl rfl (by decide)⟩,
    _, h2, rfl, rfl, hlost 2 _ h2 rfl rfl (by decide)⟩

/-! ## Requests of the new connection -/

theorem grows_step (hi : Inv p s) (h : step p s e = some t) : Grows s t := by
  cases step_cases h with
  | draw => exact fun k r hr => ⟨r, get_append _ hr, .refl r⟩
  | turn hr hf =>
    refine grows_upd rfl fun r₀ hr₀ => ?_
    cases hr.symm.trans hr₀
    exact hf.keeps (hi.recs _ _ hr)
  | respond =>
    exact grows_upd rfl fun r _ => ⟨rfl, rfl, id, fun _ => id, fun _ => rfl, id, fun _ => id, fun _ => .inl rfl, id⟩
  | answer hq =>
    refine grows_upd rfl fun r₀ hr₀ => ?_
    obtain ⟨r, hr, ho⟩ := hi.procs _ (List.mem_of_getElem? hq)
    cases hr.symm.trans hr₀
    exact .answer ho _
  | delete => exact grows_upd rfl fun r _ => .deleted r _
  | resend => exact grows_upd rfl fun r _ => ⟨rfl, rfl, id, fun _ => id, id, id, fun _ => id, id, id⟩
  | failing hp hf | failed hp hf | unreplaying hp hf | unreplayed hp hf =>
    obtain ⟨rfl, -⟩ := fail_cases hf
    exact grows_upd rfl fun r _ => .failStep r _
  | _ => exact .of_eq rfl

/-- `Reconnect` has no business with the record, or it got the old connection. -/
def Rec.old (r : Rec) : Bool := r.via == some 0 || (r.pc != .registering && !r.inMap)

/-- When the cutoff is read, the requests that have an id and are not answered got the old
    connection. -/
def divides (s : St) : Ev → Bool
  | .go => s.phase != .reset || s.recs.all Rec.old
  | _ => true

def Phase.cutoff : Phase → Option Nat
  | .counted n | .ranging n _ _ _ => some n
  | _ => none

def Phase.pending : Phase → List Nat
  | .ranging _ _ _ (some (k, _)) => [k]
  | .failing left _ => left
  | _ => []

def St.marked (s : St) (k : Nat) : Prop := k ∈ s.failed ∨ k ∈ s.unreplayed ∨ k ∈ s.replay ∨ k ∈ s.phase.pending

def St.onOld (s : St) (k : Nat) : Prop := ∃ r, s.recs[k]? = some r ∧ r.via = some 0

structure Spares (s : St) : Prop where
  below : ∀ n, s.phase.cutoff = some n → ∀ k < n, ∃ r, s.recs[k]? = some r ∧ r.old = true
  marked : ∀ k, s.marked k → s.onOld k

theorem Keeps.old (h : Keeps r r') (ho : r.old = true) : r'.old = true := by
  simp only [Rec.old, Bool.or_eq_true, Bool.and_eq_true, beq_iff_eq, bne_iff_ne, Bool.not_eq_true'] at ho ⊢
  rcases ho with hv | ⟨hp, hm⟩
  · exact .inl (h.via 0 hv)
  · exact .inr ⟨h.stored hp, h.removed hp hm⟩

/-- Records only move on, so a step has to answer only for what it marks. -/
theorem Spares.step (hs : Spares s) (hg : Grows s t)
    (hcut : ∀ n, t.phase.cutoff = some n → s.phase.cutoff = some n)
    (hm : ∀ k, t.marked k → s.marked k ∨ s.onOld k) : Spares t := by
  refine ⟨fun n hn k hk => ?_, fun k hk => ?_⟩
  · obtain ⟨r, hr, ho⟩ := hs.below n (hcut n hn) k hk
    obtain ⟨r', hr', hkeep⟩ := hg k r hr
    exact ⟨r', hr', hkeep.old ho⟩
  · have hold : s.onOld k := (hm k hk).elim (hs.marked k) id
    obtain ⟨r, hr, hv⟩ := hold
    obtain ⟨r', hr', hkeep⟩ := hg k r hr
    exact ⟨r', hr', hkeep.via 0 hv⟩

/-- A record at or below the cutoff that the pass finds in the map. -/
theorem Spares.visited (hs : Spares s) (hn : s.phase.cutoff = some n) (hk : k < n) (hr : s.recs[k]? = some r)
    (hm : r.inMap = true) : s.onOld k := by
  obtain ⟨r', hr', ho⟩ := hs.below n hn k hk
  cases hr.symm.trans hr'
  simp only [Rec.old, hm, Bool.not_true, Bool.and_false, Bool.or_false, beq_iff_eq] at ho
  exact ⟨r, hr, ho⟩

theorem spares_step (hi : Inv p s) (hs : Spares s) (hd : divides s e = true) (h : step p s e = some t) :
    Spares t := by
  have hg := grows_step hi h
  cases step_cases h with
  | cutoff hp =>
    refine ⟨fun n hn k hk => ?_, fun k hk => hs.marked k ?_⟩
    · cases hn
      have hall : s.recs.all Rec.old = true := by simpa [divides, hp] using hd
      exact ⟨s.recs[k], List.getElem?_eq_getElem hk, List.all_eq_true.mp hall _ (List.getElem_mem hk)⟩
    · simpa [St.marked, Phase.pending, hp] using hk
  | range hp =>
    exact hs.step hg (by simp [Phase.cutoff, hp]) fun k hk => .inl (by simpa [St.marked, Phase.pending, hp] using hk)
  | failing hp hf =>
    obtain ⟨rfl, -⟩ := fail_cases hf
    exact hs.step hg (by simp [Phase.cutoff, hp]) fun k hk => .inl
      (by simpa [St.marked, Phase.pending, hp, St.upd] using hk)
  | failed hp hf =>
    obtain ⟨rfl, -⟩ := fail_cases hf
    refine hs.step hg (by simp [Phase.cutoff, hp]) fun k hk => .inl ?_
    simp only [St.marked, Phase.pending, hp, St.upd, List.mem_append, List.mem_singleton, List.not_mem_nil,
      or_false] at hk ⊢
    tauto
  | unreplaying hp hf =>
    obtain ⟨rfl, -⟩ := fail_cases hf
    exact hs.step hg (by simp [Phase.cutoff]) fun k hk => .inl
      (by simpa [St.marked, Phase.pending, hp, St.upd] using hk)
  | unreplayed hp hf =>
    obtain ⟨rfl, -⟩ := fail_cases hf
    refine hs.step hg (by simp [Phase.cutoff]) fun k hk => .inl ?_
    simp only [St.marked, Phase.pending, hp, St.upd, List.mem_append, List.mem_cons] at hk ⊢
    tauto
  | dialFailed hp =>
    refine hs.step hg (by simp [Phase.cutoff]) fun k hk => .inl ?_
    simp only [St.marked, Phase.pending, hp, List.not_mem_nil, or_false] at hk ⊢
    tauto
  | skip hp hr hm hn =>
    exact hs.step hg (by simp [Phase.cutoff, hp]) fun k hk => .inl (by simpa [St.marked, Phase.pending, hp] using hk)
  | collect hp hr hm hn =>
    refine hs.step hg (by simp [Phase.cutoff, hp]) fun k hk => ?_
    have hold := hs.visited (by rw [hp]; rfl) hn hr hm
    simp only [St.marked, Phase.pending, List.mem_append, List.mem_singleton, List.not_mem_nil, or_false] at hk
    rcases hk with hk | hk | hk | rfl
    · exact .inl (.inl hk)
    · exact .inl (.inr (.inl hk))
    · exact .inl (.inr (.inr (.inl hk)))
    · exact .inr hold
  | dispose hp hr hm hn =>
    refine hs.step hg (by simp [Phase.cutoff, hp]) fun k hk => ?_
    have hold := hs.visited (by rw [hp]; rfl) hn hr hm
    simp only [St.marked, Phase.pending, List.mem_singleton] at hk
    rcases hk with hk | hk | hk | rfl
    · exact .inl (.inl hk)
    · exact .inl (.inr (.inl hk))
    · exact .inl (.inr (.inr (.inl hk)))
    · exact .inr hold
  | load hp | clear hp | close hp | ranged hp | connected hp | resend hp | resentAll hp | unreplayedAll hp =>
    exact hs.step hg (by simp [Phase.cutoff]) fun k hk => .inl
      (by simpa [St.marked, Phase.pending, hp, St.upd] using hk)
  | _ => exact hs.step hg (fun n hn => hn) fun k hk => .inl hk

theorem reconnect_spares (h : (sys p).Reach (fun s e => divides s e = true) s) {k : Nat} {r : Rec}
    (hr : s.recs[k]? = some r) (hk : k ∈ s.failed ∨ k ∈ s.unreplayed ∨ k ∈ s.phase.pending) :
    r.via = some 0 := by
  have hinv : Inv p s ∧ Spares s := by
    refine Sys.Reach.inv (P := fun s => Inv p s ∧ Spares s) ?_ ?_ h
    · rintro _ rfl
      refine ⟨inv_start, nofun, fun k hk => ?_⟩
      simp [St.marked, start, Phase.pending] at hk
    · intro s e t hi hd hst
      exact ⟨inv_step hi.1 hst, spares_step hi.1 hi.2 hd hst⟩
  have hm : s.marked k := by
    rcases hk with hk | hk | hk
    · exact .inl hk
    · exact .inr (.inl hk)
    · exact .inr (.inr (.inr hk))
  obtain ⟨r', hr', hv⟩ := hinv.2.marked k hm
  cases hr.symm.trans hr'
  exact hv

/-- A call on the old connection, and one that draws its id after the cutoff. -/
def lateCall : List Ev :=
  ([.draw .unary "get"] : List Ev) ++ sends 0 ++ (List.replicate 4 .go : List Ev) ++
    ([.connect, .draw .unary "get"] : List Ev) ++ sends 1 ++
      ([.go, .visit 0, .go, .go, .go, .go, .visit 1] : List Ev) ++
    (List.replicate 3 .go : List Ev)

theorem reconnect_spares_lateCall : ∃ s r₀ r₁, (sys ⟨none⟩).Reach (fun s e => divides s e = true) s ∧
    s.phase = .returned true ∧ s.failed = [0] ∧ s.recs[0]? = some r₀ ∧ r₀.via = some 0 ∧
    s.recs[1]? = some r₁ ∧ r₁.handed = [1] ∧ r₁.inMap = true := by
  obtain ⟨s, hr, hph, hfailed, h0, h1⟩ :=
    Sys.reach_of_exec (sys ⟨none⟩) (fun s e => divides s e = true) start rfl lateCall
    (P := fun s => s.phase = .returned true ∧ s.failed = [0] ∧
      s.recs[0]? = some ⟨.unary, "get", .waiting, false, false, true, some .connectionLost, [], false,
        some 0, [0], false, []⟩ ∧
      s.recs[1]? = some ⟨.unary, "get", .waiting, true, false, false, none, [], false, some 1, [1], false,
        []⟩) (by decide +kernel)
  exact ⟨s, _, _, hr, hph, hfailed, h0, reconnect_spares hr h0 (.inl (by simp [hfailed])), h1, rfl, rfl⟩

/-- The call connects and draws its id between the reset and the cutoff. -/
def drawnBeforeCutoff : List Ev :=
  (List.replicate 3 .go : List Ev) ++ ([.connect, .draw .unary "get"] : List Ev) ++ sends 0 ++
    ([.go, .go, .visit 0, .go, .go, .go, .go, .receive 0] : List Ev)

/-- The call has its id before the reset and gets its connection after it is failed. -/
def storedBeforeReset : List Ev :=
  ([.draw .unary "get", .store 0] : List Ev) ++ (List.replicate 5 .go : List Ev) ++
    ([.visit 0, .go, .go, .go, .go, .connect, .getConn 0, .send 0, .receive 0] : List Ev)

/-- Two calls that are handed to the new connection only, and that `Reconnect` fails. -/
theorem reconnect_fails_new :
    (∃ s r, (sys ⟨none⟩).Reach Sys.any s ∧ (sys ⟨none⟩).exec Sys.any start drawnBeforeCutoff = some s ∧
      s.failed = [0] ∧
      s.recs[0]? = some r ∧ r.handed = [1] ∧ r.outcomes = [.error .connectionLost]) ∧
    ∃ s r, (sys ⟨none⟩).Reach Sys.any s ∧ (sys ⟨none⟩).exec Sys.any start storedBeforeReset = some s ∧ s.failed = [0] ∧
      s.recs[0]? = some r ∧ r.handed = [1] ∧ r.outcomes = [.error .connectionLost] := by
  have hfails : ∀ run : List Ev, ((sys ⟨none⟩).exec Sys.any start run).any (fun s => decide (s.failed = [0] ∧
      s.recs[0]? = some ⟨.unary, "get", .returned, false, false, true, some .connectionLost, [], false,
        some 1, [1], false,
        [.error .connectionLost]⟩)) = true → ∃ s r, (sys ⟨none⟩).Reach Sys.any s ∧
          (sys ⟨none⟩).exec Sys.any start run = some s ∧
      s.failed = [0] ∧ s.recs[0]? = some r ∧ r.handed = [1] ∧ r.outcomes = [.error .connectionLost] := by
    intro run h
    obtain ⟨s, hr, hs, hfailed, h0⟩ := Sys.reach_exec (sys ⟨none⟩) Sys.any start rfl run h
    exact ⟨s, _, hr, hs, hfailed, h0, rfl, rfl⟩
  exact ⟨hfails drawnBeforeCutoff (by decide +kernel), hfails storedBeforeReset (by decide +kernel)⟩

end ValueRpc.Client.Reconnect
