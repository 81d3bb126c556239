/-
  ValueRpc.Stream.PutReconnectProofs — when a graceful end of a put-stream is complete.

  The invariant follows one connection at a time: as long as every value was handed to
  one connection that is not dead, what reached the pump and what is in flight there are
  the values handed over, in order (`before`). Handed to that connection, StreamEnd has all of
  them in front of it (`after`), and read by the server it finds all of them in the pump
  (`ended`). Credit can be lost with a connection, so the books are an inequality here;
  they still leave room in the pump for every value in flight.
-/

import ValueRpc.Stream.PutReconnect

namespace ValueRpc.Stream.Put

open ValueRpc.Core ValueRpc.Lib

variable {α : Type} {c : Cfg} {s : St α} {conn : Nat} {m : Msg α} {rest : List (Nat × Msg α)} {v : Value α}

def spent : SendPc α → Nat
  | .sending _ => 1
  | _ => 0

def quota (c : Cfg) (granted : Bool) : Int := if granted then max c.window 0 else 0

/-- A message the client sends for the stream, given what it handed over. -/
structure MsgOk (sent : List (Nat × Value α)) (finSent : Bool) (x : Nat × Msg α) : Prop where
  value : ∀ v, x.2 = .frame (.value v) → v.isData = true ∧ (x.1, v) ∈ sent
  fin : ∀ v, x.2 = .frame (.fin v) → v = .null ∧ finSent = true ∧ ∀ y ∈ sent, y.1 = x.1
  ready : x.2 ≠ .frame .ready

structure Inv (c : Cfg) (s : St α) : Prop where
  window : s.inb.rx.creditWindow = c.window
  bound : 1 ≤ c.window → (s.inb.rx.pump.maxPending : Int) = c.window
  calm : s.inb.rx.pump.overflow = false
  counts : s.inb.Counts
  record : s.inb.rx.pump.stopped = false →
    s.inb.rx.ended = s.inb.rx.pump.inputEnd ∧ (s.inb.rx.ended = false → s.inb.rx.live = true)
  credit : 0 ≤ s.tx.gate.credit
  credits : ∀ b ∈ s.back, ∃ n, b = .credit n
  books : s.tx.gate.credit + (s.back.map Back.amount).sum + s.wire.countP (fun x => x.2.isValue) + spent s.tx.pc +
    s.inb.owed ≤ quota c s.granted
  inHand : ∀ v ∈ s.tx.pc.inHand, v.isData = true
  ending : ∀ v, s.tx.pc = .ending v → v = .nil
  wire : ∀ x ∈ s.wire, MsgOk s.sent s.finSent x
  taken : (s.tx.pc.isDone = false ∨ s.finSent = true) → s.taken = s.sent.map (·.2) ++ s.tx.pc.inHand
  finDone : s.finSent = true → s.tx.pc.isDone = true
  notYet : s.finSent = false → s.inb.rx.pump.stopped = false → s.inb.rx.ended = false
  before : s.finSent = false → s.inb.rx.pump.stopped = false → ∀ conn, conn ∉ s.dead →
    (∀ x ∈ s.sent, x.1 = conn) → s.inb.stream ++ laneItems conn s.wire = s.sent.map (·.2)
  after : s.inb.rx.pump.stopped = false → s.inb.rx.ended = false → ∀ conn l r,
    row conn s.wire = l ++ .frame (.fin .null) :: r → s.inb.stream ++ l.flatMap Msg.items = s.taken
  ended : s.inb.rx.pump.stopped = false → s.inb.rx.ended = true → s.inb.stream = s.taken
  graceful : s.inb.graceful = true → s.inb.rx.pc = .finished ∧ s.inb.handed = s.taken ∧ s.finSent = true

theorem inv_start (c : Cfg) : Inv c (start c : St α) where
  window := rfl
  bound := StreamPump.new_maxPending
  calm := rfl
  counts := ⟨Int.le_refl _, by intro n hn; cases hn⟩
  record := fun _ => ⟨rfl, fun _ => rfl⟩
  credit := Int.le_refl _
  credits := by intro b hb; cases hb
  books := by simp [quota, start, newSender, CreditGate.new, spent, Inbound.owed, Inbound.claim, setupInboundServer, newReceiver]
  inHand := by intro v hv; cases hv
  ending := by intro v hv; cases hv
  wire := by intro x hx; cases hx
  taken := fun _ => rfl
  finDone := by intro h; cases h
  notYet := fun _ _ => rfl
  before := fun _ _ _ _ _ => rfl
  after := by
    intro _ _ conn l r h
    simp [start, row] at h
  ended := by intro _ h; cases h
  graceful := by intro h; cases h

/-! ## The sender -/

theorem not_finSent (h : Inv c s) (hp : s.tx.pc.isDone = false) : s.finSent = false := by
  cases hf : s.finSent with
  | false => rfl
  | true => rw [h.finDone hf] at hp; cases hp

/-- A change of the client's record that spends no credit and keeps what `streamOut` has
    in hand, or ends it without a StreamEnd. -/
theorem Inv.sender (h : Inv c s) {t : Sender α} (hc : 0 ≤ t.gate.credit)
    (hb : t.gate.credit + spent t.pc ≤ s.tx.gate.credit + spent s.tx.pc)
    (hpc : (t.pc.inHand = s.tx.pc.inHand ∧ t.pc.isDone = s.tx.pc.isDone) ∨
      (s.tx.pc.isDone = false ∧ t.pc.isDone = true ∧ t.pc.inHand = []))
    (he : ∀ v, t.pc = .ending v → v = .nil) : Inv c { s with tx := t } := by
  have hbk := h.books
  refine { h with credit := hc, books := ?_, inHand := ?_, ending := he, taken := ?_, finDone := ?_ }
  · dsimp only; omega
  · intro v hv
    rcases hpc with ⟨hi, -⟩ | ⟨-, -, hi⟩
    · exact h.inHand v (hi ▸ hv)
    · dsimp only at hv; rw [hi] at hv; cases hv
  · intro hd
    rcases hpc with ⟨hi, hdone⟩ | ⟨hs, ht, -⟩
    · dsimp only at hd ⊢
      rw [hi]
      exact h.taken (hdone ▸ hd)
    · dsimp only at hd
      rw [ht, not_finSent h hs] at hd
      rcases hd with hd | hd <;> cases hd
  · intro hf
    rcases hpc with ⟨-, hdone⟩ | ⟨hs, -, -⟩
    · dsimp only; rw [hdone]; exact h.finDone hf
    · have := not_finSent h hs
      rw [show s.finSent = true from hf] at this; cases this

/-- Before `streamOut` hands over StreamEnd none is in flight. -/
theorem Inv.wire_not_fin (h : Inv c s) (hf : s.finSent = false) {x : Nat × Msg α} (hx : x ∈ s.wire)
    (v : Value α) : x.2 ≠ .frame (.fin v) := by
  intro hm
  have := ((h.wire x hx).fin v hm).2.1
  rw [this] at hf; cases hf

theorem Inv.no_fin (h : Inv c s) (hf : s.finSent = false) (conn : Nat) (v : Value α) :
    .frame (.fin v) ∉ row conn s.wire :=
  fun hm => h.wire_not_fin hf (mem_row.mp hm) v rfl

theorem Inv.received (h : Inv c s) {a : α} {rest : List α} (hp : s.tx.pc = .receiving) :
    Inv c (setPc { s with src := rest, taken := s.taken ++ [.data a] } (.acquiring (.data a))) := by
  have hf := not_finSent h (by rw [hp]; rfl)
  have ht := h.taken (.inl (by rw [hp]; rfl))
  have hbk := h.books
  rw [hp] at ht
  simp only [hp, spent] at hbk
  refine { h with books := hbk, inHand := ?_, ending := ?_, taken := ?_, finDone := ?_, after := ?_, ended := ?_,
                  graceful := ?_ }
  · intro v hv
    cases List.mem_singleton.mp hv; rfl
  · intro v hv; cases hv
  · intro _
    show s.taken ++ [.data a] = s.sent.map (·.2) ++ [.data a]
    rw [ht]; simp [SendPc.inHand]
  · intro hd; rw [show s.finSent = true from hd] at hf; cases hf
  · intro _ _ conn l r hl
    have hm : Msg.frame (.fin .null) ∈ row conn s.wire := by
      rw [show row conn s.wire = _ from hl]; simp
    exact absurd hm (h.no_fin hf conn .null)
  · intro hs he
    have := h.notYet hf hs
    rw [show s.inb.rx.ended = true from he] at this; cases this
  · intro hg
    have := (h.graceful hg).2.2
    rw [this] at hf; cases hf

/-! What `SendRequest` on a connection, live or dead, does to the wire. -/

theorem mem_sendOn {x : Nat × Msg α} (hx : x ∈ sendOn conn m s) :
    x ∈ s.wire ∨ (x = (conn, m) ∧ conn ∉ s.dead) := by
  unfold sendOn at hx
  split at hx
  · exact .inl hx
  · rcases List.mem_append.mp hx with hx | hx
    · exact .inl hx
    · exact .inr ⟨List.mem_singleton.mp hx, ‹_›⟩

theorem row_sendOn (hd : conn ∉ s.dead) (m : Msg α) :
    row conn (sendOn conn m s) = row conn s.wire ++ [m] := by
  unfold sendOn
  rw [if_neg hd, row_concat, if_pos rfl]

theorem countP_sendOn (conn : Nat) (m : Msg α) (s : St α) :
    (sendOn conn m s).countP (fun x => x.2.isValue) ≤ s.wire.countP (fun x => x.2.isValue) + m.isValue.toNat := by
  unfold sendOn
  split
  · exact Nat.le_add_right _ _
  · rw [List.countP_append, List.countP_singleton]
    cases m.isValue <;> simp

theorem Inv.enqueued (h : Inv c s) (hp : s.tx.pc = .sending v) :
    Inv c (setPc { s with via := none, wire := sendOn conn (.frame (.value v.wire)) s, sent := s.sent ++ [(conn, v)] }
      .check) := by
  have hf := not_finSent h (by rw [hp]; rfl)
  have ht := h.taken (.inl (by rw [hp]; rfl))
  have hbk := h.books
  have hd : v.isData = true := h.inHand v (by rw [hp]; simp [SendPc.inHand])
  have hv : v.wire = v := Value.wire_of_isData hd
  have hcount : (sendOn conn (.frame (.value v.wire)) s).countP (fun x => x.2.isValue) ≤
      s.wire.countP (fun x => x.2.isValue) + 1 :=
    Nat.le_trans (countP_sendOn _ _ s) (Nat.add_le_add_left (Bool.toNat_le _) _)
  rw [hp] at ht
  simp only [hp, spent] at hbk
  refine { h with books := ?_, inHand := ?_, ending := ?_, wire := ?_, taken := ?_, finDone := ?_, before := ?_,
                  after := ?_ }
  · simp only [setPc, spent]; omega
  · intro w hw; cases hw
  · intro w hw; cases hw
  · intro x hx
    rcases mem_sendOn hx with hx | ⟨rfl, -⟩
    · refine ⟨fun w hw => ?_, fun w hw => absurd hw (h.wire_not_fin hf hx w), (h.wire x hx).ready⟩
      obtain ⟨h1, h2⟩ := (h.wire x hx).value w hw
      exact ⟨h1, List.mem_append_left _ h2⟩
    · refine ⟨fun w hw => ?_, nofun, by simp⟩
      rw [hv] at hw
      cases hw
      exact ⟨hd, List.mem_append_right _ (by simp)⟩
  · intro _
    simp [setPc, SendPc.inHand] at ht ⊢
    exact ht
  · intro hd; rw [show s.finSent = true from hd] at hf; cases hf
  · intro hf hs d hd hall
    -- all values, this one too, were handed to `d`, and `d` takes frames
    have hcd : conn = d := hall (conn, v) (List.mem_append_right _ (by simp))
    subst hcd
    have := h.before hf hs conn hd (fun x hx => hall x (List.mem_append_left _ hx))
    have hlane : laneItems conn (sendOn conn (.frame (.value v.wire)) s) = laneItems conn s.wire ++ [v] := by
      unfold laneItems
      rw [row_sendOn (s := s) hd, List.flatMap_append]
      simp [Msg.items, hv]
    show s.inb.stream ++ laneItems conn (sendOn conn (.frame (.value v.wire)) s) = (s.sent ++ [(conn, v)]).map (·.2)
    rw [hlane, ← List.append_assoc, this]
    simp
  · intro _ _ d l r hl
    have hm : Msg.frame (.fin .null) ∈ row d (sendOn conn (.frame (.value v.wire)) s) := by
      rw [show row d (sendOn conn (.frame (.value v.wire)) s) = _ from hl]; simp
    rcases mem_sendOn (mem_row.mp hm) with hx | ⟨heq, -⟩
    · exact absurd rfl (h.wire_not_fin hf hx _)
    · cases heq

/-- A list that ends in a StreamEnd and has none before splits at its end only. -/
theorem split_at_fin {l l' r : List (Msg α)} (hn : m ∉ l) (h : l ++ [m] = l' ++ m :: r) :
    l' = l ∧ r = [] := by
  induction l generalizing l' with
  | nil =>
    cases l' with
    | nil => simp at h; exact ⟨rfl, h⟩
    | cons x l' => simp at h
  | cons x l ih =>
    cases l' with
    | nil =>
      simp only [List.cons_append, List.nil_append, List.cons.injEq] at h
      exact absurd (by simp [h.1]) hn
    | cons y l' =>
      simp only [List.cons_append, List.cons.injEq] at h
      obtain ⟨h1, h2⟩ := ih (fun hm => hn (List.mem_cons_of_mem _ hm)) h.2
      exact ⟨by rw [h.1, h1], h2⟩

theorem Inv.enqueuedEnd (h : Inv c s) (hp : s.tx.pc = .ending v) (hsame : ∀ x ∈ s.sent, x.1 = conn) :
    Inv c (setPc { s with via := none, wire := sendOn conn (.frame (.fin v.wire)) s, finSent := true } .retiring) := by
  have hf := not_finSent h (by rw [hp]; rfl)
  have ht := h.taken (.inl (by rw [hp]; rfl))
  have hbk := h.books
  have hv := h.ending v hp
  subst hv
  have hcount : (sendOn conn (.frame (.fin (Value.nil : Value α).wire)) s).countP (fun x => x.2.isValue) ≤
      s.wire.countP (fun x => x.2.isValue) := countP_sendOn _ _ s
  rw [hp] at ht
  simp only [SendPc.inHand, List.append_nil] at ht
  simp only [hp, spent] at hbk
  refine { h with books := ?_, inHand := ?_, ending := ?_, wire := ?_, taken := ?_, finDone := fun _ => rfl, notYet := ?_,
                  before := ?_, after := ?_, graceful := ?_ }
  · simp only [setPc, spent]; omega
  · intro w hw; cases hw
  · intro w hw; cases hw
  · intro x hx
    rcases mem_sendOn hx with hx | ⟨rfl, -⟩
    · exact ⟨(h.wire x hx).value, fun w hw => absurd hw (h.wire_not_fin hf hx w), (h.wire x hx).ready⟩
    · refine ⟨nofun, fun w hw => ?_, by simp⟩
      cases hw
      exact ⟨rfl, rfl, hsame⟩
  · intro _
    simp [setPc, SendPc.inHand]
    exact ht
  · intro hd; cases hd
  · intro hd; cases hd
  · intro hs _ d l r hl
    have hm : Msg.frame (.fin .null) ∈ row d (sendOn conn (.frame (.fin (Value.nil : Value α).wire)) s) := by
      rw [show row d (sendOn conn (.frame (.fin (Value.nil : Value α).wire)) s) = _ from hl]; simp
    rcases mem_sendOn (mem_row.mp hm) with hx | ⟨heq, hlive⟩
    · exact absurd rfl (h.wire_not_fin hf hx _)
    · cases heq
      have hl' : row conn s.wire ++ [.frame (.fin .null)] = l ++ .frame (.fin .null) :: r := by
        rw [← show row conn (sendOn conn (.frame (.fin (Value.nil : Value α).wire)) s) = _ from hl]
        exact (row_sendOn hlive _).symm
      obtain ⟨rfl, -⟩ := split_at_fin (h.no_fin hf conn .null) hl'
      show s.inb.stream ++ laneItems conn s.wire = s.taken
      rw [h.before hf hs conn hlive hsame, ht]
  · intro hg
    have := (h.graceful hg).2.2
    rw [this] at hf; cases hf

/-! ## Connections -/

theorem Inv.killed (h : Inv c s) (dead : List Nat) (hd : ∀ x ∈ s.dead, x ∈ dead) (installed : Option Nat)
    (b : Bool) : Inv c { s with reconnecting := b, installed := installed, dead := dead } :=
  { h with before := fun hf hs conn hn hall => h.before hf hs conn (fun hm => hn (hd _ hm)) hall }

theorem Inv.cut (h : Inv c s) (conn : Nat) :
    Inv c { s with dead := conn :: s.dead, wire := s.wire.filter fun x => x.1 ≠ conn } := by
  have hbk := h.books
  have hle : (s.wire.filter fun x => x.1 ≠ conn).countP (fun x => x.2.isValue) ≤
      s.wire.countP (fun x => x.2.isValue) := List.Sublist.countP_le List.filter_sublist
  refine { h with books := ?_, wire := fun x hx => h.wire x (List.mem_filter.mp hx).1, before := ?_, after := ?_ }
  · dsimp only at hle ⊢; omega
  · intro hf hs d hd hall
    have hne : d ≠ conn := fun he => hd (by simp [he])
    have := h.before hf hs d (fun hm => hd (List.mem_cons_of_mem _ hm)) hall
    dsimp only
    rw [laneItems, row_cut, if_neg hne]
    exact this
  · intro hs he d l r hl
    rw [show row d _ = _ from row_cut d conn s.wire] at hl
    split at hl
    · simp at hl
    · exact h.after hs he d l r hl

/-- A CancelRequest handed to a connection carries no value. -/
theorem Inv.cancelSent (h : Inv c s) (conn : Nat) : Inv c { s with wire := sendOn conn .cancel s } := by
  have hbk := h.books
  unfold sendOn
  split
  · exact h
  · refine { h with books := ?_, wire := ?_, before := ?_, after := ?_ }
    · rw [List.countP_append, List.countP_singleton]
      exact hbk
    · intro x hx
      rcases List.mem_append.mp hx with hx | hx
      · exact h.wire x hx
      · cases List.mem_singleton.mp hx
        exact ⟨nofun, nofun, by simp⟩
    · intro hf hs d hd hall
      have := h.before hf hs d hd hall
      dsimp only
      rw [laneItems, row_concat]
      split <;> simpa [laneItems, Msg.items] using this
    · intro hs he d l r hl
      rw [show row d _ = _ from row_concat] at hl
      split at hl
      · -- the cancel is behind the StreamEnd
        rcases List.eq_nil_or_concat r with rfl | ⟨r', m, rfl⟩
        · have := List.append_inj_right' hl rfl
          cases this
        · rw [List.concat_eq_append, ← List.cons_append, ← List.append_assoc] at hl
          exact h.after hs he d l r' (List.append_inj_left' hl rfl)
      · exact h.after hs he d l r hl

/-! ## The server's record -/

/-- `closeRequest` stops the pump: nothing is claimed of the input from then on. -/
theorem Inv.stopped (h : Inv c s) : Inv c { s with inb := { s.inb with rx := s.inb.rx.closeRequest } } :=
  { h with
    counts := ⟨h.counts.delivered, h.counts.granting⟩
    record := by intro hs; cases hs
    notYet := by intro _ hs; cases hs
    before := by intro _ hs; cases hs
    after := by intro hs; cases hs
    ended := by intro hs; cases hs }

/-- A message off the wire that the record does not take. -/
theorem Inv.ignored (h : Inv c s) (ht : takeFrom conn s.wire = some (m, rest))
    (hm : m.items = [] ∨ s.inb.rx.pump.stopped = true ∨ s.inb.rx.ended = true) :
    Inv c { s with wire := rest } := by
  obtain ⟨h1, h2⟩ := row_take ht
  have h4 := (mem_of_take ht).2
  have h5 := countP_take ht Msg.isValue
  have hbk := h.books
  refine { h with books := ?_, wire := fun x hx => h.wire x (h4 x hx), before := ?_, after := ?_ }
  · dsimp only; omega
  · intro hf hs d hd hall
    have hb := h.before hf hs d hd hall
    dsimp only
    rcases hm with hm | hm | hm
    · by_cases hc : d = conn
      · subst hc
        simpa [laneItems, h1, hm] using hb
      · simpa [laneItems, h2 d hc] using hb
    · rw [hm] at hs; cases hs
    · rw [h.notYet hf hs] at hm; cases hm
  · intro hs he d l r hl
    rcases hm with hm | hm | hm
    · by_cases hc : d = conn
      · subst hc
        have := h.after hs he d (m :: l) r (by rw [h1, show row d rest = _ from hl]; rfl)
        simpa [hm] using this
      · exact h.after hs he d l r (by rw [h2 d hc]; exact hl)
    · rw [show s.inb.rx.pump.stopped = false from hs] at hm; cases hm
    · rw [show s.inb.rx.ended = false from he] at hm; cases hm

theorem Inv.room (h : Inv c s) (hv : 0 < s.wire.countP (fun x => x.2.isValue)) :
    s.inb.rx.pump.pending.length < s.inb.rx.pump.maxPending := by
  have hb := h.books
  have h1 := h.credit
  have h2 := amounts_nonneg s.back
  have h3 := h.counts.claim_nonneg
  have h4 := h.counts.delivered
  simp only [Inbound.owed, quota] at hb
  split at hb
  · have := h.bound (by omega)
    omega
  · omega

theorem Inv.pushed (h : Inv c s) {p : StreamPump α}
    (ht : takeFrom conn s.wire = some (.frame (.value v), rest))
    (hp : p.pending = s.inb.rx.pump.pending ++ [v]) (hi : p.inputEnd = s.inb.rx.pump.inputEnd)
    (ho : p.overflow = s.inb.rx.pump.overflow) (hst : p.stopped = s.inb.rx.pump.stopped)
    (hm : p.maxPending = s.inb.rx.pump.maxPending) (he : s.inb.rx.ended = false) :
    Inv c { s with inb := { s.inb with rx := { s.inb.rx with pump := p } }, wire := rest } := by
  obtain ⟨h1, h2⟩ := row_take ht
  obtain ⟨h3, h4⟩ := mem_of_take ht
  have h5 := countP_take ht Msg.isValue
  have hsent := ((h.wire _ h3).value v rfl).2
  have hbk := h.books
  have hstream : Inbound.stream { s.inb with rx := { s.inb.rx with pump := p } } = s.inb.stream ++ [v] := by
    simp [Inbound.stream, Inbound.handed, hp]
  refine { h with bound := ?_, calm := ho.trans h.calm, counts := ⟨h.counts.delivered,
    h.counts.granting⟩, record := ?_,
                  books := ?_, wire := fun x hx => h.wire x (h4 x hx), notYet := ?_, before := ?_,
                    after := ?_, ended := ?_ }
  · dsimp only; rw [hm]; exact h.bound
  · dsimp only; rw [hi, hst]; exact h.record
  · rw [show (Msg.frame (.value v)).isValue.toNat = 1 from rfl] at h5
    simp only [Inbound.owed, hp, List.length_append, List.length_singleton] at hbk ⊢
    omega
  · dsimp only; rw [hst]; exact h.notYet
  · intro hf hs d hd hall
    have hcd : conn = d := hall _ hsent
    subst hcd
    have hb := h.before hf (hst ▸ hs) conn hd hall
    dsimp only
    rw [hstream]
    simpa [laneItems, h1, Msg.items] using hb
  · intro hs _ d l r hl
    -- only the connection that carries StreamEnd carries values
    have hmem : (d, Msg.frame (.fin .null)) ∈ rest := mem_row.mp (by rw [show row d rest = _ from hl]; simp)
    have hfin := ((h.wire _ (h4 _ hmem)).fin _ rfl).2.2
    have hcd : conn = d := hfin _ hsent
    subst hcd
    have ha := h.after (hst ▸ hs) he conn (.frame (.value v) :: l) r (by rw [h1, show row conn rest = _ from hl]; rfl)
    dsimp only
    rw [hstream]
    simpa [Msg.items] using ha
  · intro _ hend
    rw [show s.inb.rx.ended = true from hend] at he; cases he

/-- The StreamEnd that ends the input has every value in front of it. -/
theorem Inv.inputEnded (h : Inv c s) (ht : takeFrom conn s.wire = some (.frame (.fin .null), rest))
    (he : s.inb.rx.ended = false) (live : Bool) :
    Inv c { s with inb := { s.inb with
      rx := { s.inb.rx with ended := true, pump := s.inb.rx.pump.close, live := live } },
                   wire := rest } := by
  obtain ⟨h1, h2⟩ := row_take ht
  obtain ⟨h3, h4⟩ := mem_of_take ht
  have h5 := countP_take ht Msg.isValue
  have hfin := ((h.wire _ h3).fin _ rfl).2.1
  have hbk := h.books
  refine { h with counts := ⟨h.counts.delivered, h.counts.granting⟩, record := ?_, books := ?_,
                  wire := fun x hx => h.wire x (h4 x hx), notYet := ?_, before := ?_, after := ?_, ended := ?_ }
  · intro _; exact ⟨rfl, by intro hf; cases hf⟩
  · simp only [Inbound.owed, StreamPump.close_pending] at hbk ⊢
    omega
  · intro hf; rw [show s.finSent = false from hf] at hfin; cases hfin
  · intro hf; rw [show s.finSent = false from hf] at hfin; cases hfin
  · intro _ hf; cases hf
  · intro hs _
    have ha := h.after hs he conn [] (row conn rest) (by rw [h1]; rfl)
    simpa [Inbound.stream, Inbound.handed] using ha

/-- StreamEnd at a record whose input is over: only `live` can change. -/
theorem Inv.liveAfterEnd (h : Inv c s) (he : s.inb.rx.pump.stopped = true ∨ s.inb.rx.ended = true)
    (live : Bool) : Inv c { s with inb := { s.inb with rx := { s.inb.rx with live := live } } } :=
  { h with
    counts := ⟨h.counts.delivered, h.counts.granting⟩
    record := by
      intro hs
      refine ⟨(h.record hs).1, fun hf => ?_⟩
      rcases he with he | he
      · rw [show s.inb.rx.pump.stopped = false from hs] at he; cases he
      · rw [show s.inb.rx.ended = false from hf] at he; cases he }

theorem Inv.served (h : Inv c s) (ht : takeFrom conn s.wire = some (m, rest)) : Inv c (serve c s m rest) := by
  obtain ⟨hmem, -⟩ := mem_of_take ht
  have hcount := countP_take ht Msg.isValue
  have hok := h.wire _ hmem
  unfold serve
  split
  · rename_i hlive
    cases m with
    | cancel => exact (h.ignored ht (.inl rfl)).stopped
    | frame f =>
      cases f with
      | ready => exact absurd rfl hok.ready
      | value v =>
        have hd := (hok.value v rfl).1
        by_cases hopen : s.inb.rx.pump.inputEnd = false ∧ s.inb.rx.pump.stopped = false
        · obtain ⟨p, hp, hpend, hi, ho, hst, hm⟩ := StreamPump.push_ok c.grow v hopen.1 hopen.2
            (h.room (by rw [hcount, show (Msg.frame (.value v)).isValue.toNat = 1 from rfl]; omega))
          have hr : serveRunningRequest c.grow s.inb.rx (.value v) = ({ s.inb.rx with pump := p }, []) :=
            Dir.receive_data .put hd hp (ho.trans h.calm)
          simp only [hr, List.append_nil]
          exact h.pushed ht hpend (hi.trans hopen.1.symm) ho (hst.trans hopen.2.symm) hm
            ((h.record hopen.2).1.trans hopen.1)
        · have hr : serveRunningRequest c.grow s.inb.rx (.value v) = (s.inb.rx, []) :=
            Receiver.serveRunningRequest_refused (by simpa [or_iff_not_imp_left] using hopen) h.calm
          simp only [hr, List.append_nil]
          refine h.ignored ht (.inr ?_)
          cases hs : s.inb.rx.pump.stopped with
          | true => exact .inl rfl
          | false =>
            refine .inr ((h.record hs).1.trans ?_)
            cases hi : s.inb.rx.pump.inputEnd with
            | true => rfl
            | false => exact absurd ⟨hi, hs⟩ hopen
      | fin v =>
        have hnull := (hok.fin v rfl).1
        subst hnull
        cases he : s.inb.rx.ended with
        | false =>
          obtain ⟨live, hr⟩ := Dir.receive_fin .put c.grow (r := s.inb.rx) he
          have hr : serveRunningRequest c.grow s.inb.rx (.fin .null) = _ := hr
          simp only [hr, List.append_nil]
          exact h.inputEnded ht he live
        | true =>
          obtain ⟨live, hr⟩ := Receiver.serveRunningRequest_ended c.grow (r := s.inb.rx) he
          simp only [hr, List.append_nil]
          exact (h.ignored ht (.inl rfl)).liveAfterEnd (.inr he) live
  · -- no record: it was dropped by `closeRequest`, or the input ended
    rename_i hlive
    refine h.ignored ht ?_
    cases hs : s.inb.rx.pump.stopped with
    | true => exact .inr (.inl rfl)
    | false =>
      refine .inr (.inr ?_)
      cases he : s.inb.rx.ended with
      | true => rfl
      | false => exact absurd ((h.record hs).2 he) hlive

/-! ## Credit back, the pump and the handler -/

theorem Inv.creditGone (h : Inv c s) {b : Back} {rest : List Back} (hb : s.back = b :: rest) :
    Inv c { s with back := rest } := by
  have hbk := h.books
  have := b.amount_nonneg
  rw [hb, List.map_cons, List.sum_cons] at hbk
  exact { h with
    credits := fun b' hb' => h.credits b' (by rw [hb]; exact List.mem_cons_of_mem _ hb')
    books := by dsimp only; omega }

theorem Inv.credited (h : Inv c s) {n : Int} {rest : List Back} (hb : s.back = .credit n :: rest) :
    Inv c { s with back := rest, tx := { s.tx with gate := s.tx.gate.grant n } } := by
  have hbk := h.books
  have hamt := Back.amount_nonneg (.credit n)
  have hrest := amounts_nonneg rest
  have hclaim := h.counts.claim_nonneg
  have hdel := h.counts.delivered
  have hc := h.credit
  rw [hb, List.map_cons, List.sum_cons] at hbk
  have hq : quota c s.granted < 2 ^ 63 := by
    have := Int64.toInt_lt c.maxPending
    unfold quota Cfg.window
    split <;> omega
  have hg : (s.tx.gate.grant n).credit = s.tx.gate.credit + Back.amount (.credit n) :=
    CreditGate.grant_credit hc (by
      simp only [Inbound.owed] at hbk
      show s.tx.gate.credit + Back.amount (.credit n) < _
      omega)
  exact { h with
    credit := by dsimp only; omega
    credits := fun b' hb' => h.credits b' (by rw [hb]; exact List.mem_cons_of_mem _ hb')
    books := by dsimp only; omega }

theorem Inv.acted (h : Inv c s) {a : Act} {j : Inbound α} {bs : List Back} (ha : s.inb.act a = some (j, bs)) :
    Inv c { s with inb := j, back := s.back ++ bs } := by
  have ho := Inbound.act_ok h.counts ha
  have hbk := h.books
  have howed := ho.owed
  obtain ⟨hlive, hended, -⟩ := ho.record
  obtain ⟨hie, hst, hov, hmax⟩ := ho.pump
  refine { h with window := ho.window.trans h.window, bound := ?_, calm := hov.trans h.calm, counts := ho.counts,
                  record := ?_, credits := ?_, books := ?_, notYet := ?_, before := ?_, after := ?_, ended := ?_,
                  graceful := ?_ }
  · dsimp only; rw [hmax]; exact h.bound
  · dsimp only; rw [hst, hended, hie, hlive]; exact h.record
  · intro b hb
    rcases List.mem_append.mp hb with hb | hb
    · exact h.credits b hb
    · exact ho.credits b hb
  · simp only [List.map_append, List.sum_append]
    omega
  · dsimp only; rw [hst, hended]; exact h.notYet
  · intro hf hs
    have hs : s.inb.rx.pump.stopped = false := hst.symm.trans hs
    dsimp only
    rw [ho.stream hs]
    exact h.before hf hs
  · intro hs he
    have hs : s.inb.rx.pump.stopped = false := hst.symm.trans hs
    dsimp only
    rw [ho.stream hs]
    exact h.after hs (hended.symm.trans he)
  · intro hs he
    have hs : s.inb.rx.pump.stopped = false := hst.symm.trans hs
    dsimp only
    rw [ho.stream hs]
    exact h.ended hs (hended.symm.trans he)
  · intro hg
    rcases ho.graceful hg with hg | ⟨hs, hi, hpc, hh⟩
    · -- it returned before: the handler's channel only drains
      obtain ⟨hpc, hh, hf⟩ := h.graceful hg
      obtain ⟨hpc', hh'⟩ := ho.finished hpc
      exact ⟨hpc', hh'.trans hh, hf⟩
    · have he := (h.record hs).1.trans hi
      refine ⟨hpc, hh.trans (h.ended hs he), ?_⟩
      cases hf : s.finSent with
      | true => rfl
      | false => rw [h.notYet hf hs] at he; cases he

theorem Inv.windowGranted (h : Inv c s) (hg : s.granted = false) :
    Inv c { s with granted := true, back := s.back ++ [.credit s.inb.rx.creditWindow] } := by
  have hbk := h.books
  refine { h with credits := ?_, books := ?_ }
  · intro b hb
    rcases List.mem_append.mp hb with hb | hb
    · exact h.credits b hb
    · exact ⟨_, List.mem_singleton.mp hb⟩
  · simp only [quota, hg, Bool.false_eq_true, if_false, if_true, List.map_append, List.sum_append, List.map_cons,
      List.map_nil, List.sum_cons, List.sum_nil, Back.amount, h.window] at hbk ⊢
    omega

/-! ## The steps -/

section

variable {t : St α} (h : Inv c s)
include h

theorem inv_check (hst : step c s .check = some t) : Inv c t := by
  unfold step at hst
  dsimp only at hst
  split at hst
  · rename_i hp
    cases hst
    split
    · exact h.sender h.credit (by simp [hp, spent]) (.inr (by simp [hp, SendPc.isDone, SendPc.inHand])) (by simp)
    · exact h.sender h.credit (by simp [hp, spent]) (.inl (by simp [hp, SendPc.isDone, SendPc.inHand])) (by simp)
  · cases hst

theorem inv_recvClosed (hst : step c s .recvClosed = some t) : Inv c t := by
  unfold step at hst
  dsimp only at hst
  split at hst
  · rename_i hp _
    split at hst
    · cases hst
      exact h.sender h.credit (by simp [hp, spent]) (.inl (by simp [hp, SendPc.isDone, SendPc.inHand])) (by simp)
    · cases hst
  · cases hst

theorem inv_acquire (hst : step c s .acquire = some t) : Inv c t := by
  have hcr := h.credit
  unfold step at hst
  dsimp only at hst
  split at hst
  · rename_i v hp
    split at hst
    · rename_i g hg
      rcases CreditGate.acquire_some hg with ⟨-, hpos, rfl⟩ | ⟨hb, -⟩
      · cases hst
        exact h.sender (by dsimp only; omega) (by simp [hp, spent]) (.inl (by simp [hp, SendPc.isDone, SendPc.inHand]))
          (by simp)
      · cases hb
    · rename_i g hg
      rcases CreditGate.acquire_some hg with ⟨hb, -⟩ | ⟨-, -, rfl⟩
      · cases hb
      · cases hst
        exact h.sender hcr (by simp [hp, spent]) (.inr (by simp [hp, SendPc.isDone, SendPc.inHand])) (by simp)
    · cases hst
  · cases hst

theorem inv_getConn (hst : step c s .getConn = some t) : Inv c t := by
  unfold step at hst
  dsimp only at hst
  split at hst
  · split at hst
    · cases hst
      exact { h with }
    · cases hst
  · split at hst
    · cases hst
      exact { h with }
    · cases hst
  · cases hst

theorem inv_enqueue (hok : endOnSameConn s .enqueue = true) (hst : step c s .enqueue = some t) : Inv c t := by
  unfold step at hst
  dsimp only at hst
  split at hst
  · cases hst
    exact h.enqueued ‹_›
  · rename_i v conn hp hv
    simp only [endOnSameConn, hp, hv, List.all_eq_true, beq_iff_eq] at hok
    cases hst
    exact h.enqueuedEnd hp hok
  · cases hst

theorem inv_retire (hst : step c s .retire = some t) : Inv c t := by
  have hcr := h.credit
  unfold step at hst
  dsimp only at hst
  split at hst
  · rename_i hp
    cases hst
    have hg : s.tx.tryPutClose.gate.credit = s.tx.gate.credit := by
      unfold Sender.tryPutClose
      split <;> rfl
    exact h.sender (by dsimp only; omega) (by simp [hg, hp, spent]) (.inl (by simp [hp, SendPc.isDone, SendPc.inHand]))
      (by simp)
  · cases hst

theorem inv_ctxDone (hst : step c s .ctxDone = some t) : Inv c t := by
  unfold step at hst
  dsimp only at hst
  split at hst
  · cases hst
  · cases hst
    split
    · exact (h.cancelSent _).sender h.credit (Int.le_refl _) (.inl ⟨rfl, rfl⟩) h.ending
    · exact h.sender h.credit (Int.le_refl _) (.inl ⟨rfl, rfl⟩) h.ending

theorem inv_deliverBack (hst : step c s .deliverBack = some t) : Inv c t := by
  unfold step at hst
  dsimp only at hst
  split at hst
  · rename_i b rest hb
    cases hst
    split
    · obtain ⟨n, rfl⟩ := h.credits b (by rw [hb]; exact List.mem_cons_self ..)
      exact h.credited hb
    · exact h.creditGone hb
  · cases hst

end

theorem inv_step {e : Ev α} {t : St α} (h : Inv c s) (hok : endOnSameConn s e = true)
    (hst : step c s e = some t) : Inv c t := by
  cases e with
  | check => exact inv_check h hst
  | recvClosed => exact inv_recvClosed h hst
  | acquire => exact inv_acquire h hst
  | getConn => exact inv_getConn h hst
  | enqueue => exact inv_enqueue h hok hst
  | retire => exact inv_retire h hst
  | ctxDone => exact inv_ctxDone h hst
  | deliverBack => exact inv_deliverBack h hst
  | emit a | closeSrc =>
    simp only [step] at hst
    split at hst
    · cases hst
    · cases hst
      exact { h with }
  | connect | reconnected =>
    simp only [step] at hst
    split at hst
    · cases hst
      exact { h with }
    · cases hst
  | recv =>
    simp only [step] at hst
    split at hst
    · cases hst
      exact h.received ‹_›
    · cases hst
  | reset =>
    simp only [step] at hst
    split at hst
    · cases hst
    · cases hst
      exact h.killed _ (fun x hx => List.mem_append_right _ hx) _ _
  | fail | toldEnded =>
    simp only [step] at hst
    split at hst
    · cases hst
      exact h.sender h.credit (Int.le_refl _) (.inl ⟨rfl, rfl⟩) h.ending
    · cases hst
  | deliver conn =>
    obtain ⟨⟨m, rest⟩, ht, rfl⟩ := Option.map_eq_some_iff.mp hst
    exact h.served ht
  | cut conn =>
    cases hst
    exact h.cut conn
  | loseBack =>
    simp only [step] at hst
    split at hst
    · cases hst
      exact h.creditGone ‹_›
    · cases hst
  | act a =>
    obtain ⟨⟨j, bs⟩, ha, rfl⟩ := Option.map_eq_some_iff.mp hst
    exact h.acted ha
  | grantInitial =>
    simp only [step] at hst
    split at hst
    · cases hst
    · cases hst
      exact h.windowGranted (Bool.eq_false_iff.mpr ‹_›)
  | servingEnds =>
    simp only [step] at hst
    split at hst
    · cases hst
      exact h.stopped
    · cases hst

/-! ## Every run -/

theorem graceful_end_complete (hr : (sys c).Reach (fun s e => endOnSameConn s e = true) s)
    (hg : s.inb.graceful = true) : s.inb.handed = s.taken := by
  have h : Inv c s := hr.inv (by rintro s rfl; exact inv_start c) (fun s e t hs ho hst => inv_step hs ho hst)
  exact (h.graceful hg).2.1

def small : Cfg := ⟨false, 1, 1, 4, id⟩

def oneValue : List (Ev Nat) :=
  [.grantInitial, .deliverBack, .check, .emit 7, .recv, .acquire, .getConn, .enqueue, .check]

/-- The connection drops with the value on it while `streamOut` waits on `putCh`; `Reconnect` fails the stream and
    dials; then the application closes `putCh`. -/
def closedAfterReconnect : List (Ev Nat) :=
  oneValue ++ ([.cut 0, .reset, .fail, .connect, .reconnected, .closeSrc, .recvClosed, .getConn, .enqueue, .deliver 1,
    .act .turn] : List (Ev Nat))

theorem truncated_gracefully :
    ∃ s : St Nat, (sys small).Reach Sys.any s ∧ s.inb.graceful = true ∧ s.inb.handed = [] ∧
    s.taken = [.data 7] ∧ s.tx.closed = true :=
  Sys.reach_of_exec (sys small) Sys.any (start small) rfl closedAfterReconnect (by decide +kernel)

theorem graceful_end_complete_one :
    ∃ s : St Nat, s.inb.graceful = true ∧ s.taken = [.data 7] ∧ s.inb.handed = s.taken := by
  obtain ⟨s, hr, hg, ht⟩ := Sys.reach_of_exec (sys small) (fun s e => endOnSameConn s e = true) (start small) rfl
    (oneValue ++ [.closeSrc, .recvClosed, .getConn, .enqueue, .deliver 0, .deliver 0, .act .turn, .act .putOut,
      .act .hook, .act .turn]) (P := fun s => s.inb.graceful = true ∧ s.taken = [.data 7]) (by decide +kernel)
  exact ⟨s, hg, ht, graceful_end_complete hr hg⟩

end ValueRpc.Stream.Put
