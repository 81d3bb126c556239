/-
  ValueRpc.Reverse.Holes — server-initiated streams lose values across a reconnect, and do
  not where no frame is lost.

  `lost_while_down` is the hole: the client's producer takes a value while there is no
  connection, `reply` drops it, and the next one is delivered after the reconnect. Neither
  side is told, and the stream ends gracefully. A restarted server counts its request ids from
  -1 again, so a producer the client still runs for the old server feeds a stream of the new
  one.

  `no_holes` is about the runs that make none (`noReorderReuseNilOrOverrun`): a frame goes to a connection only
  behind all earlier frames of its flow, values are payloads, a number is not given out while
  something is left of an older stream with it, and a StreamEnd's value finds room. There is
  at most one flow under a direction and number of which anything is left (`Inv.unique`), so
  a frame is always read by the record of its own flow.
-/

import ValueRpc.Reverse.Flow
import Mathlib.Data.List.Infix

namespace ValueRpc.Reverse

open Function ValueRpc.Core ValueRpc.Lib ValueRpc.Stream

variable {α : Type} {s t : St α} {j k : Nat} {f g : Flow α} {w : Way}
  {p : Packet α} {x : Sender α} {c : Nat}

/-! ## The property -/

/-- What the consumer took, without the ack that `awaitReady` takes first. -/
def delivered (f : Flow α) (i : Inbound α) : List (Value α) := i.got.drop (lead f.way : List (Value α)).length

/-- A consumer has a beginning of what the producer loop took, and all of it once it has seen
    the graceful end: its channel is empty and closed. -/
def NoHoles (s : St α) : Prop :=
  ∀ k, k < s.count → ∀ i, (s.flows k).rx = some i →
    (delivered (s.flows k) i).IsPrefix (s.flows k).taken ∧
      (i.graceful = true → i.rx.out = [] → delivered (s.flows k) i = (s.flows k).taken)

/-! ## The state around a flow -/

def queuedFor (k : Nat) (q : List (Packet α)) : List (Body α) := (q.filter fun p => p.flow = k).map (·.body)

def flightOf (k : Nat) (l : List (Nat × Packet α)) : List (Nat × Body α) :=
  (l.filter fun x => x.2.flow = k).map fun x => (x.1, x.2.body)

def Ok (s : St α) (k : Nat) (f : Flow α) : Prop :=
  FlowOk f (queuedFor k s.outgoingQueue) (flightOf k (s.wires f.way)) (s.records (f.way, f.n) = some k)
    (f.way = .toServer ∨ f.era = s.era)

def Active (f : Flow α) : Prop := f.way = .toServer ∧ ∃ t, f.tx = some t ∧ t.pc ≠ .ended

def Left (s : St α) (k : Nat) (f : Flow α) : Prop :=
  f.era = s.era ∨ f.req = true ∨ Active f ∨ s.records (f.way, f.n) = some k ∨
    (∃ x ∈ s.wires f.way, x.2.flow = k) ∨ ∃ p ∈ s.outgoingQueue, p.flow = k

structure Of (s : St α) (w : Way) (p : Packet α) : Prop where
  lt : p.flow < s.count
  way : p.way = w
  flowWay : (s.flows p.flow).way = w
  n : (s.flows p.flow).n = p.n

structure Inv (s : St α) : Prop where
  flow : ∀ k, k < s.count → Ok s k (s.flows k)
  fresh : ∀ k, s.count ≤ k → s.flows k = noFlow
  wires : ∀ w, ∀ x ∈ s.wires w, Of s w x.2
  queue : ∀ p ∈ s.outgoingQueue, Of s .toClient p
  records : ∀ w n k, s.records (w, n) = some k →
    k < s.count ∧ (s.flows k).way = w ∧ (s.flows k).n = n ∧ (s.flows k).rx.isSome = true
  numbers : ∀ k, k < s.count →
    (s.flows k).era ≤ s.era ∧ ((s.flows k).era = s.era → (s.flows k).n ≤ s.lastServerRequest)
  unique : ∀ j k, j < s.count → k < s.count → (s.flows j).way = (s.flows k).way → (s.flows j).n = (s.flows k).n →
    Left s j (s.flows j) → Left s k (s.flows k) → j = k

theorem Inv.lt_of_tx (hi : Inv s) {t : Sender α} (h : (s.flows k).tx = some t) : k < s.count := by
  by_contra hk
  rw [hi.fresh k (Nat.le_of_not_lt hk)] at h
  cases h

theorem Inv.lt_of_rx (hi : Inv s) {i : Inbound α} (h : (s.flows k).rx = some i) : k < s.count := by
  by_contra hk
  rw [hi.fresh k (Nat.le_of_not_lt hk)] at h
  cases h

theorem Inv.noHoles (hi : Inv s) : NoHoles s := by
  intro k hk i hrx
  obtain ⟨hp, hg⟩ := (hi.flow k hk).noHole hrx
  have hgot : i.got.IsPrefix i.handed := List.prefix_append _ _
  have hdrop {l : List (Value α)} (h : l.IsPrefix (lead (s.flows k).way ++ (s.flows k).taken)) :
      (l.drop (lead (s.flows k).way : List (Value α)).length).IsPrefix (s.flows k).taken := by
    simpa using h.drop (lead (s.flows k).way : List (Value α)).length
  refine ⟨hdrop (hgot.trans hp), fun hgr ho => ?_⟩
  have : i.got = lead (s.flows k).way ++ (s.flows k).taken := by simpa [Inbound.handed, ho] using hg hgr
  simp [delivered, this]

/-! ## A step touches one flow -/

/-- All that differs is of flow `k`. -/
structure Touch (k : Nat) (s t : St α) : Prop where
  count : t.count = s.count
  era : t.era = s.era
  last : t.lastServerRequest = s.lastServerRequest
  others : ∀ j, j ≠ k → t.flows j = s.flows j
  key : (t.flows k).way = (s.flows k).way ∧ (t.flows k).n = (s.flows k).n ∧ (t.flows k).era = (s.flows k).era
  queued : ∀ j, j ≠ k → queuedFor j t.outgoingQueue = queuedFor j s.outgoingQueue
  flight : ∀ j, j ≠ k → ∀ w, flightOf j (t.wires w) = flightOf j (s.wires w)
  wires : ∀ w, ∀ x ∈ t.wires w, x ∈ s.wires w ∨ x.2.flow = k ∧ x.2.way = w ∧ (s.flows k).way = w ∧
    (s.flows k).n = x.2.n
  queue : ∀ p ∈ t.outgoingQueue,
    p ∈ s.outgoingQueue ∨ p.flow = k ∧ p.way = .toClient ∧ (s.flows k).way = .toClient ∧ (s.flows k).n = p.n
  records : ∀ r j, t.records r = some j →
    s.records r = some j ∨ j = k ∧ r = ((s.flows k).way, (s.flows k).n) ∧ (t.flows k).rx.isSome = true
  rx : (s.flows k).rx.isSome = true → (t.flows k).rx.isSome = true

theorem Touch.sameKey (h : Touch k s t) (j : Nat) :
    (t.flows j).way = (s.flows j).way ∧ (t.flows j).n = (s.flows j).n ∧ (t.flows j).era = (s.flows j).era := by
  by_cases hj : j = k
  · exact hj ▸ h.key
  · rw [h.others j hj]
    exact ⟨rfl, rfl, rfl⟩

theorem Touch.of (h : Touch k s t) (ho : Of s w p) : Of t w p := by
  obtain ⟨h1, h2, -⟩ := h.sameKey p.flow
  exact ⟨h.count ▸ ho.lt, ho.way, h1.trans ho.flowWay, h2.trans ho.n⟩

theorem Touch.left_all (h : Touch k s t) (hk : Left t k (t.flows k) → Left s k (s.flows k))
    (hl : Left t j (t.flows j)) : Left s j (s.flows j) := by
  by_cases hj : j = k
  · subst hj
    exact hk hl
  · rw [h.others j hj] at hl
    rcases hl with hl | hl | hl | hl | ⟨x, hx, hl⟩ | ⟨p, hp, hl⟩
    · exact .inl (h.era ▸ hl)
    · exact .inr (.inl hl)
    · exact .inr (.inr (.inl hl))
    · rcases h.records _ _ hl with hl | ⟨hjk, -⟩
      · exact .inr (.inr (.inr (.inl hl)))
      · exact absurd hjk hj
    · rcases h.wires _ x hx with hx | ⟨hxk, -⟩
      · exact .inr (.inr (.inr (.inr (.inl ⟨x, hx, hl⟩))))
      · exact absurd (hl.symm.trans hxk) hj
    · rcases h.queue p hp with hp | ⟨hpk, -⟩
      · exact .inr (.inr (.inr (.inr (.inr ⟨p, hp, hl⟩))))
      · exact absurd (hl.symm.trans hpk) hj

theorem Inv.touch (hi : Inv s) (h : Touch k s t) (hk : k < s.count)
    (hleft : Left t k (t.flows k) → Left s k (s.flows k)) (hok : Ok t k (t.flows k)) : Inv t where
  flow := by
    intro j hj
    by_cases hjk : j = k
    · exact hjk ▸ hok
    · have := hi.flow j (h.count ▸ hj)
      unfold Ok at this ⊢
      rw [h.others j hjk, h.queued j hjk, h.flight j hjk, h.era]
      refine this.mono (fun hh => ?_) id
      rcases h.records _ _ hh with hh | ⟨hk', -⟩
      · exact hh
      · exact absurd hk' hjk
  fresh := by
    intro j hj
    rw [h.count] at hj
    rw [h.others j (by omega)]
    exact hi.fresh j hj
  wires := by
    intro w x hx
    rcases h.wires w x hx with hx | ⟨rfl, hw, hf, hn⟩
    · exact h.of (hi.wires w x hx)
    · exact h.of ⟨hk, hw, hf, hn⟩
  queue := by
    intro p hp
    rcases h.queue p hp with hp | ⟨rfl, hw, hf, hn⟩
    · exact h.of (hi.queue p hp)
    · exact h.of ⟨hk, hw, hf, hn⟩
  records := by
    intro w n j hr
    obtain ⟨h1, h2, -⟩ := h.sameKey j
    rw [h.count, h1, h2]
    rcases h.records _ _ hr with hr | ⟨rfl, heq, hx⟩
    · obtain ⟨hj, hw, hn, hx⟩ := hi.records w n j hr
      refine ⟨hj, hw, hn, ?_⟩
      by_cases hjk : j = k
      · subst hjk; exact h.rx hx
      · rw [h.others j hjk]; exact hx
    · cases heq
      exact ⟨hk, rfl, rfl, hx⟩
  numbers := by
    intro j hj
    obtain ⟨-, h2, h3⟩ := h.sameKey j
    rw [h2, h3, h.era, h.last]
    exact hi.numbers j (h.count ▸ hj)
  unique := by
    intro j l hj hl hw hn h1 h2
    rw [h.count] at hj hl
    rw [(h.sameKey j).1, (h.sameKey l).1] at hw
    rw [(h.sameKey j).2.1, (h.sameKey l).2.1] at hn
    exact hi.unique j l hj hl hw hn (h.left_all hleft h1) (h.left_all hleft h2)

theorem Touch.trans {u : St α} (h : Touch k s t) (h' : Touch k t u) : Touch k s u := by
  obtain ⟨hw, hn, he⟩ := h.key
  obtain ⟨hw', hn', he'⟩ := h'.key
  refine ⟨h'.count.trans h.count, h'.era.trans h.era, h'.last.trans h.last,
    fun j hj => (h'.others j hj).trans (h.others j hj), ⟨hw'.trans hw, hn'.trans hn, he'.trans he⟩,
    fun j hj => (h'.queued j hj).trans (h.queued j hj), fun j hj w => (h'.flight j hj w).trans (h.flight j hj w),
    ?_, ?_, ?_, fun hx => h'.rx (h.rx hx)⟩
  · intro w x hx
    rcases h'.wires w x hx with hx | hx
    · exact h.wires w x hx
    · exact .inr (by rwa [hw, hn] at hx)
  · intro p hp
    rcases h'.queue p hp with hp | hp
    · exact h.queue p hp
    · exact .inr (by rwa [hw, hn] at hp)
  · intro r j hr
    rcases h'.records r j hr with hr | ⟨hj, hr, hx⟩
    · rcases h.records r j hr with hr | ⟨hj, hr, hx⟩
      · exact .inl hr
      · exact .inr ⟨hj, hr, h'.rx hx⟩
    · exact .inr ⟨hj, by rwa [hw, hn] at hr, hx⟩

theorem Touch.modify (s : St α) (k : Nat) (g : Flow α)
    (hkey : g.way = (s.flows k).way ∧ g.n = (s.flows k).n ∧ g.era = (s.flows k).era)
    (hrx : (s.flows k).rx.isSome = true → g.rx.isSome = true) : Touch k s (s.modify k g) := by
  have hself : (s.modify k g).flows k = g := update_self ..
  refine ⟨rfl, rfl, rfl, fun j hj => update_of_ne hj .., ?_, fun _ _ => rfl, fun _ _ _ => rfl,
    fun _ _ h => .inl h, fun _ h => .inl h, fun _ _ h => .inl h, ?_⟩
  · rw [hself]; exact hkey
  · rw [hself]; exact hrx

theorem queuedFor_append (k : Nat) (q : List (Packet α)) (p : Packet α) :
    queuedFor k (q ++ [p]) = queuedFor k q ++ if p.flow = k then [p.body] else [] := by
  unfold queuedFor
  by_cases h : p.flow = k <;> simp [h]

theorem queuedFor_cons (k : Nat) (q : List (Packet α)) (p : Packet α) :
    queuedFor k (p :: q) = (if p.flow = k then [p.body] else []) ++ queuedFor k q := by
  unfold queuedFor
  by_cases h : p.flow = k <;> simp [h]

theorem flightOf_append (k : Nat) (l : List (Nat × Packet α)) (c : Nat) (p : Packet α) :
    flightOf k (l ++ [(c, p)]) = flightOf k l ++ if p.flow = k then [(c, p.body)] else [] := by
  unfold flightOf
  by_cases h : p.flow = k <;> simp [h]

/-- The state after a packet was handed to a connection or to none. -/
theorem hand_eq (s : St α) (p : Packet α) (conn : Option Nat) :
    s.hand p conn = s.modify p.flow { s.flows p.flow with emitted := (s.flows p.flow).emitted ++ [p.body] } ∨
      ∃ c, conn = some c ∧ s.hand p conn =
        { s.modify p.flow { s.flows p.flow with emitted := (s.flows p.flow).emitted ++ [p.body] } with
          wires := update s.wires p.way (s.wires p.way ++ [(c, p)]) } := by
  unfold St.hand
  cases conn with
  | none => exact .inl rfl
  | some c =>
    dsimp only
    split
    · exact .inr ⟨c, rfl, rfl⟩
    · exact .inl rfl

theorem Touch.wire (s : St α) (c : Nat) (p : Packet α) (hw : (s.flows p.flow).way = p.way)
    (hn : (s.flows p.flow).n = p.n) :
    Touch p.flow s { s with wires := update s.wires p.way (s.wires p.way ++ [(c, p)]) } := by
  refine ⟨rfl, rfl, rfl, fun _ _ => rfl, ⟨rfl, rfl, rfl⟩, fun _ _ => rfl, fun j hj w => ?_, fun w x hx => ?_,
    fun _ h => .inl h, fun _ _ h => .inl h, id⟩
  · dsimp only
    rw [update_apply]
    split
    · rename_i hw'
      rw [hw', flightOf_append, if_neg (Ne.symm hj), List.append_nil]
    · rfl
  · dsimp only at hx
    rw [update_apply] at hx
    split at hx
    · rename_i hw'
      subst hw'
      rcases List.mem_append.mp hx with hx | hx
      · exact .inl hx
      · rw [List.mem_singleton.mp hx]
        exact .inr ⟨rfl, rfl, hw, hn⟩
    · exact .inl hx

theorem Touch.hand (s : St α) (p : Packet α) (conn : Option Nat) (hw : (s.flows p.flow).way = p.way)
    (hn : (s.flows p.flow).n = p.n) : Touch p.flow s (s.hand p conn) := by
  have hm := Touch.modify s p.flow { s.flows p.flow with emitted := (s.flows p.flow).emitted ++ [p.body] }
    ⟨rfl, rfl, rfl⟩ id
  rcases hand_eq s p conn with h | ⟨c, -, h⟩
  · exact h ▸ hm
  · rw [h]
    exact hm.trans (Touch.wire _ c p (by simpa [St.modify] using hw) (by simpa [St.modify] using hn))

/-- A step inside one flow. -/
theorem Inv.modify (hi : Inv s) (hk : k < s.count)
    (hkey : g.way = (s.flows k).way ∧ g.n = (s.flows k).n ∧ g.era = (s.flows k).era)
    (hrx : (s.flows k).rx.isSome = true → g.rx.isSome = true) (hreq : g.req = true → (s.flows k).req = true)
    (hact : Active g → Active (s.flows k) ∨ (s.flows k).req = true) (hok : Ok s k g) :
    Inv (s.modify k g) := by
  have hself : (s.modify k g).flows k = g := update_self ..
  refine hi.touch (.modify s k g hkey hrx) hk ?_ (hself.symm ▸ hok)
  rw [hself]
  obtain ⟨hw, hn, he⟩ := hkey
  unfold Left
  rw [hw, hn, he]
  rintro (h | h | h | h)
  · exact .inl h
  · exact .inr (.inl (hreq h))
  · rcases hact h with h | h
    · exact .inr (.inr (.inl h))
    · exact .inr (.inl h)
  · exact .inr (.inr (.inr h))

/-! ## The producer's side -/

theorem tx_cases {step : Flow α → Sender α → Option (Flow α)} (h : s.tx k step = some t) :
    ∃ x g, (s.flows k).tx = some x ∧ ((s.flows k).way = .toServer ∨ (s.flows k).era = s.era) ∧
      step (s.flows k) x = some g ∧ t = s.modify k g := by
  unfold St.tx at h
  split at h
  · rename_i x hx
    split at h
    · rename_i hr
      obtain ⟨g, hg, rfl⟩ := Option.map_eq_some_iff.mp h
      exact ⟨x, g, hx, hr, hg, rfl⟩
    · cases h
  · cases h

/-- A step of the producer's goroutine or record. -/
theorem Inv.producer (hi : Inv s) {x y : Sender α} (hx : (s.flows k).tx = some x)
    (hr : (s.flows k).way = .toServer ∨ (s.flows k).era = s.era)
    (hg : g = { s.flows k with tx := some y, src := g.src, taken := g.taken }) (hpc : y.pc ≠ .ended → x.pc ≠ .ended)
    (hd : ∀ v ∈ g.taken, v ∈ (s.flows k).taken ∨ v.isData = true)
    (hl : ∀ sent, Loop (s.flows k).way (s.flows k).taken sent (some x.pc) →
      Loop (s.flows k).way g.taken sent (some y.pc)) : Inv (s.modify k g) := by
  have hk := hi.lt_of_tx hx
  have hok := hi.flow k hk
  have hloop := hok.loop hr
  rw [hx] at hloop
  have hw : g.way = (s.flows k).way := by rw [hg]
  have hn : g.n = (s.flows k).n := by rw [hg]
  have he : g.era = (s.flows k).era := by rw [hg]
  have hty : g.tx = some y := by rw [hg]
  refine hi.modify hk ⟨hw, hn, he⟩ (by rw [hg]; exact id) (by rw [hg]; exact id) ?_ ?_
  · rintro ⟨hs, z, hz, hne⟩
    rw [hty] at hz
    cases hz
    exact .inl ⟨hw ▸ hs, x, hx, hpc hne⟩
  · unfold Ok at hok ⊢
    rw [hw, hn, he]
    refine hok.tx hw (by rw [hg]) (by rw [hg]) (by rw [hg]) (fun v hv => ?_) (fun hq => ?_)
      (hl _ hloop).sound fun _ => ?_
    · rcases hd v hv with hv | hv
      · exact hok.data v hv
      · exact hv
    · rw [hg] at hq
      have := (hok.req hq).2
      rw [hx] at this
      cases this
    · rw [hty]
      exact hl _ hloop

/-- The queue has nothing for a flow of the client's producers. -/
theorem Inv.queuedFor_nil (hi : Inv s) (hw : (s.flows k).way = .toServer) :
    queuedFor k s.outgoingQueue = [] := by
  have : (s.outgoingQueue.filter fun p => p.flow = k) = [] := List.filter_eq_nil_iff.mpr fun p hp hk => by
    have := (hi.queue p hp).flowWay
    rw [of_decide_eq_true hk, hw] at this
    cases this
  rw [queuedFor, this, List.map_nil]

theorem ahead_length (h : ahead s k c = true) :
    (s.flows k).emitted.length = (s.flows k).arrived.length +
      ((flightOf k (s.wires (s.flows k).way)).filter fun y => y.1 = c).length := by
  simpa [ahead, inFlight, flightOf, List.filter_map, Function.comp_def] using h

theorem next_not_ended {r : Body α × SendPc α} (h : Sender.next w x = some r) : x.pc ≠ .ended := by
  intro hp
  simp [Sender.next, hp] at h

/-- The client's producer hands a frame to `reply`. -/
theorem Inv.reply (hi : Inv s) {b : Body α} {pc : SendPc α} (conn : Option Nat)
    (hx : (s.flows k).tx = some x) (hw : (s.flows k).way = .toServer)
    (hn : Sender.next (s.flows k).way x = some (b, pc)) (ha : ∀ c, conn = some c → ahead s k c = true) :
    Inv ((s.modify k ((s.flows k).goto x pc)).hand ⟨(s.flows k).way, (s.flows k).n, b, k⟩ conn) := by
  have hk := hi.lt_of_tx hx
  have hok := hi.flow k hk
  have hself : (s.modify k ((s.flows k).goto x pc)).flows k = (s.flows k).goto x pc := update_self ..
  have hloop := hok.loop (.inl hw)
  rw [hx, hi.queuedFor_nil hw, List.append_nil] at hloop
  have hnext := hloop.next hn
  have hreq : (s.flows k).req = true → False := fun hq => by
    have := (hok.req hq).2
    rw [hx] at this
    cases this
  have ht := (Touch.modify s k ((s.flows k).goto x pc) ⟨rfl, rfl, rfl⟩ id).trans
    (Touch.hand _ ⟨(s.flows k).way, (s.flows k).n, b, k⟩ conn (by rw [hself]; rfl) (by rw [hself]; rfl))
  refine hi.touch ht hk (fun _ => .inr (.inr (.inl ⟨hw, x, hx, next_not_ended hn⟩))) ?_
  rcases hand_eq (s.modify k ((s.flows k).goto x pc)) ⟨(s.flows k).way, (s.flows k).n, b, k⟩ conn with h | ⟨c, hc, h⟩
  all_goals
    rw [h]
    unfold Ok at hok ⊢
    simp only [St.modify, update_self] at hok ⊢
    refine hok.hand (b := b) rfl (fun hq => (hreq hq).elim) ?_ (fun _ => ?_) ?_
    · rw [hi.queuedFor_nil hw, List.append_nil]; exact hnext.sound
    · rw [hi.queuedFor_nil hw, List.append_nil]; exact hnext
  · exact .inl rfl
  · refine .inr ⟨c, ?_, ahead_length (ha c hc)⟩
    simp only [Flow.goto, update_self]
    rw [flightOf_append, if_pos rfl]

theorem Touch.enqueue (s : St α) (p : Packet α) (hp : p.way = .toClient)
    (hw : (s.flows p.flow).way = .toClient) (hn : (s.flows p.flow).n = p.n) :
    Touch p.flow s { s with outgoingQueue := s.outgoingQueue ++ [p] } := by
  refine ⟨rfl, rfl, rfl, fun _ _ => rfl, ⟨rfl, rfl, rfl⟩, fun j hj => ?_, fun _ _ _ => rfl, fun _ _ h => .inl h,
    fun q hq => ?_, fun _ _ h => .inl h, id⟩
  · dsimp only
    rw [queuedFor_append, if_neg (Ne.symm hj), List.append_nil]
  · rcases List.mem_append.mp hq with hq | hq
    · exact .inl hq
    · rw [List.mem_singleton.mp hq]
      exact .inr ⟨rfl, hp, hw, hn⟩

/-- The server's producer puts a frame into the queue. -/
theorem Inv.enqueue (hi : Inv s) {b : Body α} {pc : SendPc α} (hx : (s.flows k).tx = some x)
    (hw : (s.flows k).way = .toClient) (he : (s.flows k).era = s.era)
    (hn : Sender.next (s.flows k).way x = some (b, pc)) :
    Inv { s.modify k ((s.flows k).goto x pc) with
      outgoingQueue := s.outgoingQueue ++ [⟨(s.flows k).way, (s.flows k).n, b, k⟩] } := by
  have hk := hi.lt_of_tx hx
  have hok := hi.flow k hk
  have hself : (s.modify k ((s.flows k).goto x pc)).flows k = (s.flows k).goto x pc := update_self ..
  have hloop := hok.loop (.inr he)
  rw [hx] at hloop
  have hnext := hloop.next hn
  have ht := (Touch.modify s k ((s.flows k).goto x pc) ⟨rfl, rfl, rfl⟩ id).trans
    (Touch.enqueue _ ⟨(s.flows k).way, (s.flows k).n, b, k⟩ hw (by rw [hself]; exact hw) (by rw [hself]; rfl))
  refine hi.touch ht hk (fun _ => .inl he) ?_
  unfold Ok at hok ⊢
  simp only [St.modify, update_self]
  rw [queuedFor_append, if_pos rfl]
  refine ⟨hok.data, ?_, fun _ => ?_, hok.oneConn, hok.behind, hok.rx, fun hq => ?_⟩
  · rw [← List.append_assoc]; exact hnext.sound
  · rw [← List.append_assoc]; exact hnext
  · have := (hok.req hq).2
    rw [hx] at this
    cases this

theorem Touch.dequeue (s : St α) {rest : List (Packet α)} (hq : s.outgoingQueue = p :: rest) :
    Touch p.flow s { s with outgoingQueue := rest } := by
  refine ⟨rfl, rfl, rfl, fun _ _ => rfl, ⟨rfl, rfl, rfl⟩, fun j hj => ?_, fun _ _ _ => rfl, fun _ _ h => .inl h,
    fun r hr => .inl ?_, fun _ _ h => .inl h, id⟩
  · rw [hq, queuedFor_cons, if_neg (Ne.symm hj), List.nil_append]
  · rw [hq]; exact List.mem_cons_of_mem _ hr

/-- The server's sender takes the head of the queue. -/
theorem Inv.write (hi : Inv s) {rest : List (Packet α)} (hq : s.outgoingQueue = p :: rest)
    (conn : Option Nat) (ha : ∀ c, conn = some c → ahead s p.flow c = true) :
    Inv ({ s with outgoingQueue := rest }.hand p conn) := by
  have hp : p ∈ s.outgoingQueue := hq ▸ List.mem_cons_self
  have ho := hi.queue p hp
  have hok := hi.flow p.flow ho.lt
  have hsent : (s.flows p.flow).emitted ++ queuedFor p.flow s.outgoingQueue =
      (s.flows p.flow).emitted ++ [p.body] ++ queuedFor p.flow rest := by
    rw [hq, queuedFor_cons, if_pos rfl, List.append_assoc]
  have ht := (Touch.dequeue s hq).trans
    (Touch.hand { s with outgoingQueue := rest } p conn (ho.flowWay.trans ho.way.symm) ho.n)
  refine hi.touch ht ho.lt (fun _ => .inr (.inr (.inr (.inr (.inr ⟨p, hp, rfl⟩))))) ?_
  unfold Ok at hok
  rcases hand_eq { s with outgoingQueue := rest } p conn with h | ⟨c, hc, h⟩
  all_goals
    rw [h]
    unfold Ok
    simp only [St.modify, update_self]
    refine hok.hand (b := p.body) rfl hok.req (hsent ▸ hok.sound) (fun hr => hsent ▸ hok.loop hr) ?_
  · exact .inl rfl
  · refine .inr ⟨c, ?_, ahead_length (ha c hc)⟩
    rw [ho.way, ho.flowWay, update_self, flightOf_append, if_pos rfl]

/-! ## The consumer's side -/

theorem flightOf_split (k : Nat) (l m : List (Nat × Packet α)) (c : Nat) (p : Packet α) :
    flightOf k (l ++ (c, p) :: m) = flightOf k l ++ (if p.flow = k then [(c, p.body)] else []) ++ flightOf k m := by
  unfold flightOf
  by_cases h : p.flow = k <;> simp [h]

theorem Touch.unwire (s : St α) {l m : List (Nat × Packet α)}
    (hw : s.wires w = l ++ (c, p) :: m) : Touch p.flow s { s with wires := update s.wires w (l ++ m) } := by
  refine ⟨rfl, rfl, rfl, fun _ _ => rfl, ⟨rfl, rfl, rfl⟩, fun _ _ => rfl, fun j hj v => ?_, fun v x hx => .inl ?_,
    fun _ h => .inl h, fun _ _ h => .inl h, id⟩
  · dsimp only
    rw [update_apply]
    split
    · rename_i hv
      rw [hv, hw, flightOf_split, if_neg (Ne.symm hj), List.append_nil]
      simp [flightOf]
    · rfl
  · dsimp only at hx
    rw [update_apply] at hx
    split at hx
    · rename_i hv
      rw [hv, hw]
      simp only [List.mem_append, List.mem_cons] at hx ⊢
      tauto
    · exact hx

/-- A record is put into or taken out of its table. -/
theorem Touch.record (s : St α) (k : Nat) {w : Way} {n : Nat} (r : Option Nat)
    (h : r = some k → w = (s.flows k).way ∧ n = (s.flows k).n ∧ (s.flows k).rx.isSome = true)
    (h' : ∀ j, r = some j → j = k) : Touch k s { s with records := update s.records (w, n) r } := by
  refine ⟨rfl, rfl, rfl, fun _ _ => rfl, ⟨rfl, rfl, rfl⟩, fun _ _ => rfl, fun _ _ _ => rfl, fun _ _ h => .inl h,
    fun _ h => .inl h, fun q j hq => ?_, id⟩
  dsimp only at hq
  rw [update_apply] at hq
  split at hq
  · rename_i heq
    obtain rfl := h' j hq
    obtain ⟨hw, hn, hx⟩ := h hq
    exact .inr ⟨rfl, by rw [heq, hw, hn], hx⟩
  · exact .inl hq

/-- A record is found only for the flow a packet is of. -/
theorem Inv.record_of_packet (hi : Inv s) (hx : (c, p) ∈ s.wires w)
    (hr : s.records (w, p.n) = some k) : k = p.flow := by
  have ho := hi.wires w _ hx
  obtain ⟨hk, hkw, hkn, -⟩ := hi.records w p.n k hr
  refine hi.unique k p.flow hk ho.lt (hkw.trans ho.flowWay.symm) (hkn.trans ho.n.symm) ?_ ?_
  · refine .inr (.inr (.inr (.inl ?_)))
    rw [hkw, hkn]; exact hr
  · refine .inr (.inr (.inr (.inr (.inl ⟨(c, p), ?_, rfl⟩))))
    rw [ho.flowWay]; exact hx

/-- What reading a packet leaves to prove: the record of its flow. -/
theorem Inv.read (hi : Inv s) {p : Packet α} {c : Nat} {l m : List (Nat × Packet α)}
    (hw : s.wires w = l ++ (c, p) :: m) (hl : ∀ x ∈ l, x.1 ≠ c)
    (ht : Touch p.flow s t) (hwires : t.wires = update s.wires w (l ++ m)) (hqueue : t.outgoingQueue = s.outgoingQueue)
    (hflow : t.flows p.flow = { s.flows p.flow with
      arrived := (s.flows p.flow).arrived ++ [p.body], rx := (t.flows p.flow).rx })
    (hrx : Sound w (s.flows p.flow).taken ((s.flows p.flow).arrived ++ [p.body]) →
      (∀ i, (s.flows p.flow).rx = some i → RxOk w (s.flows p.flow).arrived (s.records (w, p.n) = some p.flow) i) →
      ∀ i, (t.flows p.flow).rx = some i →
        RxOk w ((s.flows p.flow).arrived ++ [p.body]) (t.records (w, p.n) = some p.flow) i) : Inv t := by
  have hx : (c, p) ∈ s.wires w := by rw [hw]; simp
  have ho := hi.wires w _ hx
  have hok := hi.flow p.flow ho.lt
  refine hi.touch ht ho.lt (fun _ => .inr (.inr (.inr (.inr (.inl ⟨(c, p), ho.flowWay.symm ▸ hx, rfl⟩))))) ?_
  unfold Ok at hok ⊢
  rw [ht.key.1, ht.key.2.1, ht.key.2.2, ht.era, hqueue, hwires]
  rw [ho.flowWay, update_self, ho.n] at *
  have hf : flightOf p.flow (s.wires w) = flightOf p.flow l ++ (c, p.body) :: flightOf p.flow m := by
    rw [hw, flightOf_split, if_pos rfl]; simp
  have hl' : ∀ y ∈ flightOf p.flow l, y.1 ≠ c := by
    intro y hy
    obtain ⟨x, hx, rfl⟩ := List.mem_map.mp hy
    exact hl x (List.mem_filter.mp hx).1
  have hlm : flightOf p.flow (l ++ m) = flightOf p.flow l ++ flightOf p.flow m := by simp [flightOf]
  rw [hlm]
  obtain ⟨-, hs, -⟩ := hok.arrive hf hl'
  rw [ho.flowWay] at hs
  refine hok.read hf hl' hflow fun i hi' => ?_
  rw [ho.flowWay]
  exact hrx hs (fun i hi' => ho.flowWay ▸ hok.rx i hi') i hi'

theorem setup_rx (c : Cfg) (n : Int) (chat : Bool) (here : Prop) :
    RxOk .toClient [(.request : Body α)] here ⟨setupInboundClient n chat c.maxPending.toInt, [], false⟩ :=
  .new rfl rfl rfl rfl rfl rfl (StreamPump.new_maxPending_pos _)

/-- A packet is read. -/
theorem Inv.arrive (hi : Inv s) (c : Cfg) {conn : Nat} {rest : List (Nat × Packet α)} (ok : Bool)
    (h : takeFrom conn (s.wires w) = some (p, rest)) (hroom : room s p = true) :
    Inv ({ s with wires := update s.wires w rest }.arrive c p ok) := by
  obtain ⟨l, m, hw, rfl, hl⟩ := takeFrom_spec h
  have hx : (conn, p) ∈ s.wires w := by rw [hw]; simp
  have ho : Of s w p := hi.wires w _ hx
  have hun := Touch.unwire s hw
  -- the flow with the packet in its record of the run
  have hmod := hun.trans (Touch.modify { s with wires := update s.wires w (l ++ m) } p.flow
    { s.flows p.flow with arrived := (s.flows p.flow).arrived ++ [p.body] } ⟨rfl, rfl, rfl⟩ id)
  cases hb : p.body with
  | request =>
    have ready (hs : Sound w (s.flows p.flow).taken ((s.flows p.flow).arrived ++ [p.body])) :
        w = .toClient ∧ (s.flows p.flow).arrived = [] := by
      rw [hb] at hs
      rcases hs.frame_cases with ho | ⟨v, hv⟩ | ⟨v, hv⟩
      · refine ⟨?_, hs.opening_iff.mp ho⟩
        cases w with
        | toServer => cases ho
        | toClient => rfl
      · cases hv
      · cases hv
    simp only [St.arrive, hb, St.serveInbound]
    cases ok with
    | false =>
      simp only [Bool.false_eq_true, if_false]
      rw [hb] at hmod
      refine hi.read hw hl hmod rfl rfl (by simp [St.modify, hb]) fun _ hrx i hi' => ?_
      simp only [St.modify, update_self] at hi'
      rw [hb]
      exact (hrx i hi').skip rfl
    | true =>
      simp only [if_true]
      rw [hb] at hmod
      have hset := hmod.trans (Touch.modify _ p.flow
        { (({ s with wires := update s.wires w (l ++ m) } : St α).modify p.flow
            { s.flows p.flow with arrived := (s.flows p.flow).arrived ++ [.request] }).flows p.flow with
          rx := some ⟨setupInboundClient (-p.n) (s.flows p.flow).chat c.maxPending.toInt, [], false⟩ }
        ⟨rfl, rfl, rfl⟩ fun _ => rfl)
      have hrec := hset.trans (Touch.record _ p.flow (w := p.way) (n := p.n) (some p.flow)
        (fun _ => by simp [St.modify, ho.way, ho.flowWay, ho.n]) fun j hj => by cases hj; rfl)
      simp only [St.modify, update_self, update_idem] at hrec ⊢
      refine hi.read hw hl hrec rfl rfl (by simp [hb]) fun hs _ i hi' => ?_
      obtain ⟨rfl, hnil⟩ := ready hs
      simp only [update_self] at hi'
      cases hi'
      rw [hb, hnil]
      exact setup_rx c _ _ _
  | frame f =>
    simp only [St.arrive, hb, St.receive]
    rw [hb] at hmod
    cases hr : s.records (p.way, p.n) with
    | none =>
      simp only [St.modify, hr] at hmod ⊢
      refine hi.read hw hl hmod rfl rfl (by simp [hb]) fun hs hrx i hi' => ?_
      simp only [update_self] at hi' ⊢
      rw [ho.way] at hr
      have hrx := hrx i hi'
      rw [hr] at hrx ⊢
      exact ((hrx.mono False.elim).miss hs.not_fin).mono nofun
    | some k =>
      have hr' := hr
      rw [ho.way] at hr'
      obtain rfl := hi.record_of_packet hx hr'
      obtain ⟨-, -, -, hsome⟩ := hi.records w p.n _ hr'
      obtain ⟨i, hrx⟩ := Option.isSome_iff_exists.mp hsome
      have hfit : ∀ v, f = .fin v → v.isData = true → i.rx.pump.pending.length < i.rx.pump.maxPending := by
        intro v hv hd
        simpa [room, hb, hr, hrx, hv, hd] using hroom
      have hset := hmod.trans (Touch.modify _ p.flow
        { (({ s with wires := update s.wires w (l ++ m) } : St α).modify p.flow
            { s.flows p.flow with arrived := (s.flows p.flow).arrived ++ [.frame f] }).flows p.flow with
          rx := some { i with rx := (p.way.dir.receive c.grow i.rx f).1 } } ⟨rfl, rfl, rfl⟩ fun _ => rfl)
      simp only [St.modify, update_self, update_idem, hr, hrx] at hset ⊢
      have fed (hs : Sound w (s.flows p.flow).taken ((s.flows p.flow).arrived ++ [p.body]))
          (h : ∀ i, (s.flows p.flow).rx = some i →
            RxOk w (s.flows p.flow).arrived (s.records (w, p.n) = some p.flow) i) (here : Prop) :
          RxOk w ((s.flows p.flow).arrived ++ [p.body]) here { i with rx := (p.way.dir.receive c.grow i.rx f).1 } := by
        rw [hb] at hs ⊢
        rw [ho.way]
        exact (((h i hrx).mono fun _ => hr').receive c.grow hs hfit).mono fun _ => trivial
      split
      · refine hi.read hw hl hset rfl rfl (by simp [hb]) fun hs h j hj => ?_
        simp only [update_self] at hj
        cases hj
        exact fed hs h _
      · have hrec := hset.trans (Touch.record _ p.flow (w := p.way) (n := p.n) none nofun nofun)
        refine hi.read hw hl hrec rfl rfl (by simp [hb]) fun hs h j hj => ?_
        simp only [update_self] at hj
        cases hj
        exact fed hs h _

/-- A step of the consumer, of its pump or of its record. -/
theorem Inv.consumer (hi : Inv s) {i j : Inbound α} (hx : (s.flows k).rx = some i)
    (h : ∀ w arrived here, RxOk w arrived here i → RxOk w arrived here j) :
    Inv (s.modify k { s.flows k with rx := some j }) := by
  have hk := hi.lt_of_rx hx
  have hok := hi.flow k hk
  refine hi.modify hk ⟨rfl, rfl, rfl⟩ (fun _ => rfl) id .inl ?_
  exact hok.setRx (h _ _ _ (hok.rx i hx))

/-! ## Connections, tables and numbers -/

/-- Nothing is added to the wires, the queue or the tables. -/
theorem Inv.shrink (hi : Inv s) (hcount : t.count = s.count) (hflows : t.flows = s.flows)
    (hwires : ∀ w, ∀ x ∈ t.wires w, x ∈ s.wires w) (hqueue : ∀ p ∈ t.outgoingQueue, p ∈ s.outgoingQueue)
    (hrecords : ∀ r j, t.records r = some j → s.records r = some j)
    (hera : t.era = s.era ∧ s.lastServerRequest ≤ t.lastServerRequest ∨ s.era < t.era)
    (hok : ∀ k, k < s.count → Ok s k (s.flows k) → Ok t k (s.flows k)) : Inv t := by
  have hof {w : Way} {p : Packet α} (h : Of s w p) : Of t w p :=
    ⟨hcount ▸ h.lt, h.way, by rw [hflows]; exact h.flowWay, by rw [hflows]; exact h.n⟩
  have hleft (k : Nat) (hk : k < s.count) (h : Left t k (s.flows k)) : Left s k (s.flows k) := by
    rcases h with h | h | h | h | ⟨x, hx, h⟩ | ⟨p, hp, h⟩
    · rcases hera with ⟨he, -⟩ | he
      · exact .inl (he ▸ h)
      · have := (hi.numbers k hk).1
        omega
    · exact .inr (.inl h)
    · exact .inr (.inr (.inl h))
    · exact .inr (.inr (.inr (.inl (hrecords _ _ h))))
    · exact .inr (.inr (.inr (.inr (.inl ⟨x, hwires _ x hx, h⟩))))
    · exact .inr (.inr (.inr (.inr (.inr ⟨p, hqueue p hp, h⟩))))
  refine ⟨fun k hk => ?_, fun k hk => ?_, fun w x hx => hof (hi.wires w x (hwires w x hx)),
    fun p hp => hof (hi.queue p (hqueue p hp)), fun w n k hr => ?_, fun k hk => ?_, fun j k hj hk hw hn h1 h2 => ?_⟩
  · rw [hcount] at hk
    rw [hflows]; exact hok k hk (hi.flow k hk)
  · rw [hcount] at hk
    rw [hflows]; exact hi.fresh k hk
  · rw [hcount, hflows]; exact hi.records w n k (hrecords _ _ hr)
  · rw [hcount] at hk
    obtain ⟨h1, h2⟩ := hi.numbers k hk
    rw [hflows]
    rcases hera with ⟨he, hl⟩ | he
    · exact ⟨he ▸ h1, fun h => (h2 (h.trans he)).trans hl⟩
    · exact ⟨by omega, fun h => by omega⟩
  · rw [hcount] at hj hk
    rw [hflows] at hw hn h1 h2
    exact hi.unique j k hj hk hw hn (hleft j hj h1) (hleft k hk h2)

theorem Inv.restart (hi : Inv s) : Inv { s with
    era := s.era + 1
    lastServerRequest := 0
    outgoingQueue := []
    records := fun r => if r.1 = Way.toServer then none else s.records r } := by
  refine hi.shrink rfl rfl (fun _ _ h => h) nofun (fun r j h => ?_) (.inr (Nat.lt_succ_self _)) fun k hk h => ?_
  · dsimp only at h
    split at h
    · cases h
    · exact h
  · refine h.dropQueue (fun hh => ?_) fun hr => ?_
    · dsimp only at hh
      split at hh
      · cases hh
      · exact hh
    · -- no flow is of the new server yet, so the producer is one of the client's
      rcases hr with hw | he
      · exact ⟨.inl hw, hi.queuedFor_nil hw⟩
      · have := (hi.numbers k hk).1
        dsimp only at he
        omega

theorem Inv.cut (hi : Inv s) (conn : Nat) : Inv { s with
    dead := conn :: s.dead
    wires := fun w => (s.wires w).filter fun x => x.1 ≠ conn } := by
  refine hi.shrink rfl rfl (fun _ _ h => (List.mem_filter.mp h).1) (fun _ h => h) (fun _ _ h => h)
    (.inl ⟨rfl, Nat.le_refl _⟩) fun k _ h => ?_
  have hf (l : List (Nat × Packet α)) :
      flightOf k (l.filter fun x => x.1 ≠ conn) = (flightOf k l).filter fun y => y.1 ≠ conn := by
    simp only [flightOf, List.filter_map, List.filter_filter, Function.comp_def]
    congr 1
    exact List.filter_congr fun x _ => Bool.and_comm _ _
  unfold Ok at h ⊢
  rw [hf]
  exact h.cut conn

theorem Inv.forget (hi : Inv s) (w : Way) (n : Nat) :
    Inv { s with records := update s.records (w, n) none } := by
  have hsub (r : Way × Nat) (j : Nat) (h : update s.records (w, n) none r = some j) : s.records r = some j := by
    rw [update_apply] at h
    split at h
    · cases h
    · exact h
  exact hi.shrink rfl rfl (fun _ _ h => h) (fun _ h => h) hsub (.inl ⟨rfl, Nat.le_refl _⟩) fun k _ h =>
    h.mono (hsub _ _) id

/-- A new flow, under a number of which nothing is left. -/
theorem Inv.add (hi : Inv s) (w : Way) (chat : Bool) (n receiveCap : Nat) (hn : n ≤ s.lastServerRequest)
    (hfree : ∀ j, j < s.count → (s.flows j).way = w → (s.flows j).n = n → ¬ Left s j (s.flows j)) :
    Inv (s.add w chat n receiveCap) := by
  have hold {j : Nat} (hj : j < s.count) : (s.add w chat n receiveCap).flows j = s.flows j :=
    update_of_ne (Nat.ne_of_lt hj) ..
  have hself : (s.add w chat n receiveCap).flows s.count = newFlow s w chat n receiveCap := update_self ..
  have hrec {r : Way × Nat} {j : Nat} (h : (s.add w chat n receiveCap).records r = some j) :
      s.records r = some j ∨ j = s.count ∧ r = (w, n) ∧ w = .toServer := by
    unfold St.add at h
    cases w with
    | toClient => exact .inl h
    | toServer =>
      dsimp only at h
      rw [update_apply] at h
      split at h
      · cases h
        exact .inr ⟨rfl, ‹_›, rfl⟩
      · exact .inl h
  have hof {v : Way} {p : Packet α} (h : Of s v p) : Of (s.add w chat n receiveCap) v p :=
    ⟨Nat.lt_succ_of_lt h.lt, h.way, by rw [hold h.lt]; exact h.flowWay, by rw [hold h.lt]; exact h.n⟩
  have hleft {j : Nat} (hj : j < s.count) (h : Left (s.add w chat n receiveCap) j (s.flows j)) :
      Left s j (s.flows j) := by
    rcases h with h | h | h | h | h
    · exact .inl h
    · exact .inr (.inl h)
    · exact .inr (.inr (.inl h))
    · rcases hrec h with h | ⟨h, -⟩
      · exact .inr (.inr (.inr (.inl h)))
      · omega
    · exact .inr (.inr (.inr (.inr h)))
  have hcases {j : Nat} (hj : j < (s.add w chat n receiveCap).count) : j < s.count ∨ j = s.count :=
    Nat.lt_succ_iff_lt_or_eq.mp hj
  refine ⟨fun j hj => ?_, fun j hj => ?_, fun v x hx => hof (hi.wires v x hx), fun p hp => hof (hi.queue p hp),
    fun v m j hr => ?_, fun j hj => ?_, fun i j hij hj hw hnn h1 h2 => ?_⟩
  · rcases hcases hj with hj | rfl
    · rw [hold hj]
      refine (hi.flow j hj).mono (fun h => ?_) id
      rcases hrec h with h | ⟨h, -⟩
      · exact h
      · omega
    · have hq : queuedFor s.count s.outgoingQueue = [] := by
        rw [queuedFor, List.filter_eq_nil_iff.mpr, List.map_nil]
        intro p hp h
        have := (hi.queue p hp).lt
        rw [of_decide_eq_true h] at this
        omega
      have hf (v : Way) : flightOf s.count (s.wires v) = [] := by
        rw [flightOf, List.filter_eq_nil_iff.mpr, List.map_nil]
        intro x hx h
        have := (hi.wires v x hx).lt
        rw [of_decide_eq_true h] at this
        omega
      rw [hself]
      unfold Ok
      simp only [St.add, hq, hf]
      refine ⟨nofun, .none, fun _ => ?_, ⟨0, nofun⟩, List.prefix_refl _, fun i hi' => ?_, fun hq => ?_⟩
      · cases w <;> exact ⟨rfl, rfl⟩
      · cases w with
        | toClient => cases hi'
        | toServer =>
          cases hi'
          exact .new rfl rfl rfl rfl rfl rfl (StreamPump.new_maxPending_pos _)
      · cases w with
        | toServer => exact ⟨rfl, rfl⟩
        | toClient => cases hq
  · have hj : s.count + 1 ≤ j := hj
    show update s.flows s.count _ j = noFlow
    rw [update_of_ne (by omega)]
    exact hi.fresh j (by omega)
  · rcases hrec hr with hr | ⟨rfl, heq, hw⟩
    · obtain ⟨hj, h⟩ := hi.records v m j hr
      rw [hold hj]
      exact ⟨Nat.lt_succ_of_lt hj, h⟩
    · cases heq
      rw [hself]
      subst hw
      exact ⟨Nat.lt_succ_self _, rfl, rfl, rfl⟩
  · rcases hcases hj with hj | rfl
    · rw [hold hj]; exact hi.numbers j hj
    · rw [hself]; exact ⟨Nat.le_refl _, fun _ => hn⟩
  · rcases hcases hij with hi' | rfl <;> rcases hcases hj with hj | rfl
    · rw [hold hi'] at hw hnn h1
      rw [hold hj] at hw hnn h2
      exact hi.unique i j hi' hj hw hnn (hleft hi' h1) (hleft hj h2)
    · rw [hold hi', hself] at hw hnn
      rw [hold hi'] at h1
      exact absurd (hleft hi' h1) (hfree i hi' hw hnn)
    · rw [hold hj, hself] at hw hnn
      rw [hold hj] at h2
      exact absurd (hleft hj h2) (hfree j hj hw.symm hnn.symm)
    · rfl

theorem Inv.accept (hi : Inv s) (ok : Bool) (h : (s.flows k).req = true) :
    Inv (s.modify k { s.flows k with
      req := false, tx := if ok then some (newSender (s.flows k).chat) else none }) := by
  have hk : k < s.count := by
    by_contra hk
    rw [hi.fresh k (Nat.le_of_not_lt hk)] at h
    cases h
  have hok := hi.flow k hk
  obtain ⟨hw, htx⟩ := hok.req h
  have hloop := hok.loop (.inl hw)
  rw [htx] at hloop
  obtain ⟨hsent, htaken⟩ := hloop
  refine hi.modify hk ⟨rfl, rfl, rfl⟩ id nofun (fun _ => .inr h)
    (hok.tx rfl rfl rfl rfl hok.data nofun hok.sound fun _ => ?_)
  cases ok <;> exact ⟨hsent, htaken⟩

theorem check_inv (c : Cfg) (hi : Inv s) (h : step c s (.check k) = some t) : Inv t := by
  simp only [step] at h
  obtain ⟨x, g, hx, hr, hg, rfl⟩ := tx_cases h
  split at hg
  · rename_i hp
    cases hg
    refine hi.producer hx hr rfl (fun _ => by simp [hp]) (fun _ => .inl) fun sent hl => ?_
    rw [hp] at hl
    dsimp only
    split
    · exact hl.sound
    · exact hl
  · cases hg

/-- The loop is left with a StreamEnd that carries nothing. -/
theorem Inv.ending (hi : Inv s) (hx : (s.flows k).tx = some x)
    (hr : (s.flows k).way = .toServer ∨ (s.flows k).era = s.era) (hp : x.pc = .receiving) :
    Inv (s.modify k ((s.flows k).goto x (.ending .nil))) := by
  refine hi.producer hx hr rfl (fun _ => by simp [hp]) (fun _ => .inl) fun sent hl => ?_
  rw [hp] at hl
  exact ⟨_, (List.append_nil _).symm, hl⟩

theorem acquire_inv (c : Cfg) (hi : Inv s) (h : step c s (.acquire k) = some t) : Inv t := by
  simp only [step] at h
  obtain ⟨x, g, hx, hr, hg, rfl⟩ := tx_cases h
  split at hg
  · rename_i v hp
    split at hg
    · cases hg
      refine hi.producer hx hr rfl (fun _ => by simp [hp]) (fun _ => .inl) fun sent hl => ?_
      rw [hp] at hl
      exact hl
    · cases hg
      refine hi.producer hx hr rfl (fun _ => by simp [hp]) (fun _ => .inl) fun sent hl => ?_
      rw [hp] at hl
      exact hl.sound
    · cases hg
  · cases hg

theorem inv_start : Inv (start : St α) := by
  constructor <;> simp [start]

section
variable [DecidableEq α]

/-- Nothing is left of an older flow under a number that is given out. -/
theorem Inv.free (hi : Inv s) (h : unused s (s.lastServerRequest + 1) = true) {j : Nat} (hj : j < s.count)
    (hn : (s.flows j).n = s.lastServerRequest + 1) : ¬ Left s j (s.flows j) := by
  have hl : left s j = false := by
    have := List.all_eq_true.mp h j (List.mem_range.mpr hj)
    simpa [hn] using this
  simp only [left, inFlight, Bool.or_eq_false_iff, Bool.and_eq_false_iff] at hl
  obtain ⟨⟨⟨⟨hreq, htx⟩, hrec⟩, hwire⟩, hqueue⟩ := hl
  rintro (h | h | ⟨hw, x, hx, hne⟩ | h | ⟨x, hx, h⟩ | ⟨p, hp, h⟩)
  · have := (hi.numbers j hj).2 h
    omega
  · rw [hreq] at h; cases h
  · rcases htx with htx | htx
    · simp [hw] at htx
    · simp [hx, hne] at htx
  · simp [h] at hrec
  · simp only [Bool.not_eq_eq_eq_not, Bool.not_false, List.isEmpty_iff, List.filter_eq_nil_iff,
      decide_eq_true_eq] at hwire
    exact hwire x hx h
  · simp only [List.any_eq_false, decide_eq_true_eq] at hqueue
    exact hqueue p hp h

theorem Inv.issue (hi : Inv s) (c : Cfg) (kind : Kind) (receiveCap : Nat)
    (h : unused s (s.lastServerRequest + 1) = true) (ht : step c s (.issue kind receiveCap) = some t) :
    Inv t := by
  -- the number is taken
  have hi' : Inv { s with lastServerRequest := s.lastServerRequest + 1 } :=
    hi.shrink rfl rfl (fun _ _ h => h) (fun _ h => h) (fun _ _ h => h) (.inl ⟨rfl, Nat.le_succ _⟩) fun _ _ h => h
  have hfree (w : Way) (j : Nat) (hj : j < s.count) (_ : (s.flows j).way = w)
      (hn : (s.flows j).n = s.lastServerRequest + 1) :
      ¬ Left { s with lastServerRequest := s.lastServerRequest + 1 } j (s.flows j) := hi.free h hj hn
  simp only [step] at ht
  cases kind with
  | getStream =>
    cases ht
    exact hi'.add _ _ _ _ (Nat.le_refl _) (hfree _)
  | putStream =>
    cases ht
    exact hi'.add _ _ _ _ (Nat.le_refl _) (hfree _)
  | chat =>
    cases ht
    refine (hi'.add .toServer true _ _ (Nat.le_refl _) (hfree _)).add _ _ _ _ (Nat.le_refl _) fun j hj hw hn hl => ?_
    rcases Nat.lt_succ_iff_lt_or_eq.mp hj with hj | rfl
    · simp only [St.add, update_of_ne (Nat.ne_of_lt hj)] at hw hn hl
      refine hfree _ j hj hw hn ?_
      have hrec : update s.records (Way.toServer, s.lastServerRequest + 1) (some s.count) ((s.flows j).way,
        (s.flows j).n) =
          s.records ((s.flows j).way, (s.flows j).n) := update_of_ne (by simp [hw]) ..
      unfold Left at hl ⊢
      dsimp only at hl
      rwa [hrec] at hl
    · simp [St.add, newFlow] at hw

theorem recv_inv (c : Cfg) (hi : Inv s) (hw : noReorderReuseNilOrOverrun s (.recv k) = true)
    (h : step c s (.recv k) = some t) : Inv t := by
  simp only [step] at h
  obtain ⟨x, g, hx, hr, hg, rfl⟩ := tx_cases h
  split at hg
  · rename_i v rest hp hsrc
    cases hg
    have hv : v.isData = true := by simpa [noReorderReuseNilOrOverrun, hsrc] using hw
    refine hi.producer hx hr rfl (fun _ => by simp [hp]) (fun u hu => ?_) fun sent hl => ?_
    · rcases List.mem_append.mp hu with hu | hu
      · exact .inl hu
      · rw [List.mem_singleton.mp hu]; exact .inr hv
    · rw [hp] at hl
      dsimp only
      split
      · exact ⟨_, by simp [Flow.goto, Flow.took, dataOf, hv], hl⟩
      · exact ⟨_, rfl, hl⟩
  · cases hg

theorem send_inv (c : Cfg) {conn : Option Nat} (hi : Inv s)
    (hw : noReorderReuseNilOrOverrun s (.send k conn) = true) (h : step c s (.send k conn) = some t) :
    Inv t := by
  simp only [step] at h
  split at h
  · rename_i x hx
    split at h
    · rename_i b pc hn
      split at h
      · rename_i hway
        cases h
        refine hi.reply conn hx hway hn fun c hc => ?_
        subst hc
        simpa [noReorderReuseNilOrOverrun, hway] using hw
      · rename_i hway
        split at h
        · rename_i he
          cases h
          exact hi.enqueue hx hway he hn
        · cases h
    · cases h
  · cases h

/-- Every step that makes no hole keeps the invariant. -/
theorem step_inv (c : Cfg) {e : Ev α} (hi : Inv s) (hw : noReorderReuseNilOrOverrun s e = true)
    (h : step c s e = some t) : Inv t := by
  cases e with
  | connect =>
    cases h
    exact hi.shrink rfl rfl (fun _ _ h => h) (fun _ h => h) (fun _ _ h => h) (.inl ⟨rfl, Nat.le_refl _⟩) fun _ _ h => h
  | restart =>
    cases h
    exact hi.restart
  | cut conn =>
    cases h
    exact hi.cut conn
  | issue kind receiveCap => exact hi.issue c kind receiveCap hw h
  | accept k ok =>
    simp only [step] at h
    split at h
    · cases h
      exact hi.accept ok ‹_›
    · cases h
  | emit k v =>
    simp only [step] at h
    split at h
    · rename_i hk
      cases h
      have hok := hi.flow k hk.1
      exact hi.modify hk.1 ⟨rfl, rfl, rfl⟩ id id .inl (hok.tx rfl rfl rfl rfl hok.data hok.req hok.sound hok.loop)
    · cases h
  | closeSrc k =>
    simp only [step] at h
    split at h
    · rename_i hk
      cases h
      have hok := hi.flow k hk
      exact hi.modify hk ⟨rfl, rfl, rfl⟩ id id .inl (hok.tx rfl rfl rfl rfl hok.data hok.req hok.sound hok.loop)
    · cases h
  | check k => exact check_inv c hi h
  | recv k => exact recv_inv c hi hw h
  | recvClosed k =>
    simp only [step] at h
    obtain ⟨x, g, hx, hr, hg, rfl⟩ := tx_cases h
    split at hg
    · rename_i hp _
      split at hg
      · cases hg
        exact hi.ending hx hr hp
      · cases hg
    · cases hg
  | recvDone k =>
    simp only [step] at h
    obtain ⟨x, g, hx, hr, hg, rfl⟩ := tx_cases h
    split at hg
    · rename_i hp
      split at hg
      · cases hg
        exact hi.ending hx hr hp
      · cases hg
    · cases hg
  | acquire k => exact acquire_inv c hi h
  | send k conn => exact send_inv c hi hw h
  | retire k =>
    simp only [step] at h
    obtain ⟨x, g, hx, hr, hg, rfl⟩ := tx_cases h
    split at hg
    · rename_i hp
      cases hg
      refine hi.producer hx hr rfl (fun h => absurd rfl h) (fun _ => .inl) fun sent hl => ?_
      rw [hp] at hl
      exact hl
    · cases hg
  | write conn =>
    simp only [step] at h
    split at h
    · rename_i p rest hq
      cases h
      refine hi.write hq _ fun c hc => ?_
      obtain rfl := (Option.filter_eq_some_iff.mp hc).1
      simpa [noReorderReuseNilOrOverrun, hq] using hw
    · cases h
  | read w conn ok =>
    simp only [step] at h
    split at h
    · cases h
    · obtain ⟨⟨p, rest⟩, hp, rfl⟩ := Option.map_eq_some_iff.mp h
      refine hi.arrive c ok hp ?_
      simpa [noReorderReuseNilOrOverrun, hp] using hw
  | act k a =>
    simp only [step] at h
    split at h
    · rename_i i hx
      obtain ⟨⟨j, bs⟩, ha, rfl⟩ := Option.map_eq_some_iff.mp h
      exact hi.consumer hx fun _ _ _ h => h.act ha
    · cases h
  | granted k n =>
    simp only [step] at h
    obtain ⟨x, g, hx, hr, hg, rfl⟩ := tx_cases h
    cases hg
    exact hi.producer hx hr rfl id (fun _ => .inl) fun _ => id
  | closeTx k =>
    simp only [step] at h
    obtain ⟨x, g, hx, hr, hg, rfl⟩ := tx_cases h
    cases hg
    have hpc : (if (s.flows k).way = .toServer then x.closeRequest else x.close).pc = x.pc := by split <;> rfl
    exact hi.producer hx hr rfl (by rw [hpc]; exact id) (fun _ => .inl) fun _ => by rw [hpc]; exact id
  | closeRx k =>
    simp only [step] at h
    split at h
    · rename_i i hx
      cases h
      refine hi.consumer hx fun _ _ _ h => ?_
      split
      · exact h.stop rfl ⟨rfl, rfl, rfl⟩
      · exact h.stop rfl ⟨rfl, rfl, rfl⟩
    · cases h
  | halfTx k =>
    simp only [step] at h
    obtain ⟨x, g, hx, hr, hg, rfl⟩ := tx_cases h
    split at hg
    · cases hg
      exact hi.producer hx hr rfl id (fun _ => .inl) fun _ => id
    · cases hg
  | halfRx k =>
    simp only [step] at h
    split at h
    · rename_i i hx
      split at h
      · cases h
        exact hi.consumer hx fun _ _ _ h => ⟨h.front, h.kept, h.current, h.closed, h.graceful, h.ended, h.room⟩
      · cases h
    · cases h
  | forget w n =>
    cases h
    exact hi.forget w n

/-- In every run of steps that make no hole, with any drops, reconnects and restarts: every
    consumer has a beginning of what the producer loop of its own stream took, and has all of
    it when it sees the graceful end. -/
theorem no_holes {c : Cfg} (h : (sys c).Reach (fun s e => noReorderReuseNilOrOverrun s e = true) s) :
    NoHoles s :=
  (h.inv (P := Inv) (fun _ hs => by cases hs; exact inv_start) fun _ _ _ hi hw ht => step_inv c hi hw ht).noHoles

end

def replacedRun : List (Ev Nat) :=
  [.connect, .issue .getStream 4, .accept 0 true, .send 0 (some 0), .read .toServer 0 true, .granted 0 4,
    .emit 0 (.data 1), .recv 0, .acquire 0, .send 0 (some 0), .read .toServer 0 true, .cut 0, .connect,
    .emit 0 (.data 2), .closeSrc 0, .recv 0, .acquire 0, .send 0 (some 1), .recvClosed 0, .send 0 (some 1), .retire 0,
    .read .toServer 1 true, .read .toServer 1 true, .act 0 .turn, .act 0 .putOut, .act 0 .hook, .act 0 .turn,
    .act 0 .putOut, .act 0 .hook, .act 0 .turn, .act 0 .putOut, .act 0 .hook, .act 0 .turn, .act 0 .read, .act 0 .read,
    .act 0 .read]

def exampleCfg : Cfg := ⟨4, fun n => 2 * n⟩

theorem no_holes_replacedRun :
    ∃ s : St Nat, (sys exampleCfg).Reach (fun s e => noReorderReuseNilOrOverrun s e = true) s ∧
    ((s.flows 0).rx.map fun i => (delivered (s.flows 0) i, i.graceful)) = some ([.data 1, .data 2], true) ∧
    NoHoles s := by
  obtain ⟨s, hr, hdel⟩ :=
    Sys.reach_of_exec (sys exampleCfg) (fun s e => noReorderReuseNilOrOverrun s e = true) start rfl replacedRun
    (P := fun s => ((s.flows 0).rx.map fun i => (delivered (s.flows 0) i, i.graceful)) =
      some ([.data 1, .data 2], true)) (by decide +kernel)
  exact ⟨s, hr, hdel, no_holes hr⟩

/-- The client's producer takes a value while there is no connection. -/
def downRun : List (Ev Nat) :=
  [.connect, .issue .getStream 4, .accept 0 true, .send 0 (some 0), .read .toServer 0 true, .granted 0 4, .cut 0,
    .emit 0 (.data 1), .emit 0 (.data 2), .closeSrc 0, .recv 0, .acquire 0, .send 0 none, .connect,
      .recv 0, .acquire 0,
    .send 0 (some 1), .recvClosed 0, .send 0 (some 1), .retire 0, .read .toServer 1 true, .read .toServer 1 true,
    .act 0 .turn, .act 0 .putOut, .act 0 .hook, .act 0 .turn, .act 0 .putOut, .act 0 .hook, .act 0 .turn, .act 0 .read,
    .act 0 .read]

/-- A producer the client runs for the old server sends to the new one, whose first stream
    has the same number. -/
def restartRun : List (Ev Nat) :=
  [.connect, .issue .getStream 4, .accept 0 true, .send 0 (some 0), .read .toServer 0 true, .granted 0 4,
    .emit 0 (.data 7), .recv 0, .acquire 0, .restart, .connect, .issue .getStream 4, .accept 1 true, .send 1 (some 1),
    .send 0 (some 1), .read .toServer 1 true, .read .toServer 1 true, .act 1 .turn, .act 1 .putOut, .act 1 .hook,
    .act 1 .turn, .act 1 .putOut, .act 1 .read, .act 1 .read]

/-- The second of two values is delivered without the first, with a graceful end behind it;
    and a stream of a restarted server delivers what its producer never took. -/
theorem lost_while_down :
    (∃ s : St Nat, (sys exampleCfg).Reach Sys.any s ∧ (s.flows 0).taken = [.data 1, .data 2] ∧
      ((s.flows 0).rx.map fun i => (delivered (s.flows 0) i, i.rx.out, i.graceful)) = some ([.data 2], [], true)) ∧
    ∃ s : St Nat, (sys exampleCfg).Reach Sys.any s ∧ (s.flows 1).taken = [] ∧
      ((s.flows 1).rx.map (delivered (s.flows 1))) = some [.data 7] := by
  refine ⟨?_, ?_⟩
  · exact Sys.reach_of_exec (sys exampleCfg) Sys.any start rfl downRun (by decide +kernel)
  · exact Sys.reach_of_exec (sys exampleCfg) Sys.any start rfl restartRun (by decide +kernel)

end ValueRpc.Reverse
