/-
  ValueRpc.Client.Released — what `Close` leaves behind.

  `Close` closes no record. What closes one is an answer, its own sending side, its caller
  or its context watcher; and a goroutine that is in `getConn` when nil is stored stays
  there. So after `Close` everything that waits for an answer waits on.

  - `close_releases`: where, when nil is stored, every record is closed or about to be and
    nobody is in `getConn`, and where no request begins after that and no `streamOut` comes
    to `getConn` without a connection (`settled`), nothing of the client waits in a state in
    which nothing of it can move: the records are closed and reported, the callers have an
    outcome, the channels are closed, and no `streamOut` waits for credit or a connection.
  - `settled_iff_clean`: a step after which the client rests was settled exactly when nothing
    is left behind.
  - `close_strands`: otherwise: a call that waits for its answer, one that waits for a
    connection, an established stream, and a `streamOut` whose record is closed.
-/

import ValueRpc.Client.Closing

namespace ValueRpc.Client.Closing

open ValueRpc.Lib
open ValueRpc.Core (Kind Statement)

/-! ## Where a goroutine waits, and who is about to close -/

def Wait.parked : Wait → Bool
  | .look => false
  | .conn => true

def Caller.parked : Caller → Bool
  | .gettingConn => true
  | .cancelling w | .crediting w => w.parked
  | .waiting | .failing | .returned _ => false

def Watcher.parked : Watcher → Bool
  | .cancelling w => w.parked
  | _ => false

def Out.parked : Out → Bool
  | .gettingConn _ => true
  | _ => false

def Pump.parked : Pump → Bool
  | .granting w => w.parked
  | _ => false

/-- A goroutine of the request is in `getConn`. -/
def Rec.parked (r : Rec) : Bool := r.caller.parked || r.watcher.parked || r.out.parked || r.pump.parked

def Caller.ending : Caller → Bool
  | .cancelling _ | .failing => true
  | _ => false

def Watcher.ending : Watcher → Bool
  | .cancelling _ | .closing => true
  | _ => false

def Out.ending (kind : Kind) : Out → Bool
  | .closing => decide (kind = .putStream)
  | _ => false

/-- A goroutine of the request is about to close its record. -/
def Rec.ending (r : Rec) : Bool := r.caller.ending || r.watcher.ending || r.out.ending r.kind

structure RecOk (r : Rec) : Prop where
  ends : r.ends = if r.closed then 1 else 0
  input : r.closed = true → r.inputEnd = true
  direct : pumps r.kind = false → r.closed = true → r.chanClosed = true
  pumped : pumps r.kind = true → r.pump ≠ .off ∧ (r.pump = .finished → r.chanClosed = true)
  early : (∀ ok, r.caller ≠ .returned ok) → r.watcher = .off ∧ r.out = .off

structure Moves (inst d : Bool) (r r' : Rec) : Prop where
  ok : RecOk r'
  ending : r.closed = true ∨ r.ending = true → r'.closed = true ∨ r'.ending = true
  parked : r'.parked = true → r.parked = true ∨ inst = true ∨ d = true

variable {inst d b : Bool} {r r' : Rec} {s t : St} {e : Ev} {k : Nat} {i : Nat} {q : Proc} {l : List Proc}

/-! ## Records -/

theorem fresh_ok (kind : Kind) (watched : Bool) : RecOk (.fresh kind watched) := by
  refine ⟨rfl, nofun, nofun, fun h => ?_, fun _ => ⟨rfl, rfl⟩⟩
  simp only [Rec.fresh] at h ⊢
  simp [h]

structure Still (r r' : Rec) : Prop where
  kind : r'.kind = r.kind
  caller : r'.caller = r.caller
  watcher : r'.watcher = r.watcher
  out : r'.out = r.out
  pump : r'.pump = r.pump

theorem Still.parked (h : Still r r') : r'.parked = r.parked := by
  simp only [Rec.parked, h.caller, h.watcher, h.out, h.pump]

theorem Still.ending (h : Still r r') : r'.ending = r.ending := by
  simp only [Rec.ending, h.kind, h.caller, h.watcher, h.out]

theorem closeResult_still (r : Rec) : Still r r.closeResult := by
  unfold Rec.closeResult
  split <;> exact ⟨rfl, rfl, rfl, rfl, rfl⟩

theorem closeResult_closed (r : Rec) : r.closeResult.closed = true := by
  unfold Rec.closeResult
  split
  · assumption
  · rfl

theorem closeResult_ok (h : RecOk r) : RecOk r.closeResult := by
  unfold Rec.closeResult
  split
  · exact h
  · rename_i hc
    have hends : r.ends = 0 := by simpa [hc] using h.ends
    refine ⟨by simp [hends], fun _ => rfl, fun hp _ => by simp [hp], fun hp => ?_, h.early⟩
    obtain ⟨h1, h2⟩ := h.pumped hp
    exact ⟨h1, fun hf => by simp [h2 hf]⟩

/-- The fields the invariant does not read. -/
theorem RecOk.of_eq (h : RecOk r) (h1 : r'.kind = r.kind) (h2 : r'.closed = r.closed) (h3 : r'.ends = r.ends)
    (h4 : r.inputEnd = true → r'.inputEnd = true) (h5 : r.chanClosed = true → r'.chanClosed = true)
    (h6 : r'.pump = r.pump) (h7 : (∀ ok, r'.caller ≠ .returned ok) → r'.watcher = .off ∧ r'.out = .off) :
    RecOk r' := by
  refine ⟨by rw [h3, h2]; exact h.ends, fun hc => h4 (h.input (h2 ▸ hc)),
    fun hp hc => h5 (h.direct (h1 ▸ hp) (h2 ▸ hc)), ?_, h7⟩
  rw [h1, h6]
  exact fun hp => ⟨(h.pumped hp).1, fun hf => h5 ((h.pumped hp).2 hf)⟩

theorem close_ok (h : RecOk r) :
    RecOk r.close := (closeResult_ok h).of_eq rfl rfl rfl id id rfl (closeResult_ok h).early

theorem close_still (r : Rec) : Still r r.close :=
  ⟨(closeResult_still r).kind, (closeResult_still r).caller, (closeResult_still r).watcher, (closeResult_still r).out,
    (closeResult_still r).pump⟩

theorem close_closed (r : Rec) : r.close.closed = true := closeResult_closed r

theorem notifyResult_still (r : Rec) (full : Bool) : Still r (r.notifyResult full).1 := by
  unfold Rec.notifyResult
  split
  · split
    · exact ⟨rfl, rfl, rfl, rfl, rfl⟩
    · split <;> exact ⟨rfl, rfl, rfl, rfl, rfl⟩
  · split <;> exact ⟨rfl, rfl, rfl, rfl, rfl⟩

theorem notifyResult_closed (r : Rec) (full : Bool) : (r.notifyResult full).1.closed = r.closed := by
  unfold Rec.notifyResult
  split
  · split
    · rfl
    · split <;> rfl
  · split <;> rfl

theorem notifyResult_ok (h : RecOk r) (full : Bool) : RecOk (r.notifyResult full).1 := by
  unfold Rec.notifyResult
  split
  · split
    · exact h
    · split
      · exact h.of_eq rfl rfl rfl (fun _ => rfl) id rfl h.early
      · exact h.of_eq rfl rfl rfl id id rfl h.early
  · split
    · exact h
    · exact h.of_eq rfl rfl rfl id id rfl h.early

/-! ## Goroutines -/

/-- A goroutine whose record is closed by its step, or was. -/
theorem Moves.closes (hok : RecOk r') (hc : r'.closed = true)
    (hp : r'.parked = true → r.parked = true ∨ inst = true ∨ d = true) : Moves inst d r r' :=
  ⟨hok, fun _ => .inl hc, hp⟩

/-- The record stays as it is, and the goroutines but for what the invariant does not ask. -/
theorem Moves.still (hs : Still r r') (hok : RecOk r') (hc : r.closed = true → r'.closed = true) :
    Moves inst d r r' :=
  ⟨hok, fun he => he.imp hc fun h => hs.ending.trans h, fun hp => .inl (hs.parked ▸ hp)⟩

theorem Moves.caller (h : RecOk r) (c : Caller) (hnot : ∀ ok, r.caller ≠ .returned ok)
    (hp : c.parked = true → inst = true ∨ d = true) (he : r.caller.ending = true → c.ending = true) :
    Moves inst d r { r with caller := c } := by
  have hoff := h.early hnot
  refine ⟨h.of_eq rfl rfl rfl id id rfl fun _ => hoff, fun h => ?_, fun h => ?_⟩
  · refine h.imp_right fun h => ?_
    simp only [Rec.ending, Bool.or_eq_true] at h ⊢
    exact h.imp_left (Or.imp_left he)
  · simp only [Rec.parked, Bool.or_eq_true] at h ⊢
    rcases h with ((h | h) | h) | h
    · exact .inr (hp h)
    · exact .inl (.inl (.inl (.inr h)))
    · exact .inl (.inl (.inr h))
    · exact .inl (.inr h)

theorem Moves.watcher (h : RecOk r) (w : Watcher) (hon : r.watcher ≠ .off)
    (hp : w.parked = true → inst = true ∨ d = true)
    (he : r.watcher.ending = true → w.ending = true ∨ r.closed = true) :
    Moves inst d r { r with watcher := w } := by
  refine ⟨h.of_eq rfl rfl rfl id id rfl fun hn => absurd (h.early hn).1 hon, fun h => ?_, fun h => ?_⟩
  · rcases h with h | h
    · exact .inl h
    · simp only [Rec.ending, Bool.or_eq_true] at h ⊢
      rcases h with (h | h) | h
      · exact .inr (.inl (.inl h))
      · exact (he h).elim (fun h => .inr (.inl (.inr h))) .inl
      · exact .inr (.inr h)
  · simp only [Rec.parked, Bool.or_eq_true] at h ⊢
    rcases h with ((h | h) | h) | h
    · exact .inl (.inl (.inl (.inl h)))
    · exact .inr (hp h)
    · exact .inl (.inl (.inr h))
    · exact .inl (.inr h)

theorem Moves.out (h : RecOk r) (o : Out) (n : Nat) (hon : r.out ≠ .off)
    (hp : o.parked = true → inst = true ∨ d = true) (he : r.out.ending r.kind = true → o.ending r.kind = true) :
    Moves inst d r { r with out := o, credit := n } := by
  refine ⟨h.of_eq rfl rfl rfl id id rfl fun hn => absurd (h.early hn).2 hon, fun h => ?_, fun h => ?_⟩
  · refine h.imp_right fun h => ?_
    simp only [Rec.ending, Bool.or_eq_true] at h ⊢
    exact h.imp_right he
  · simp only [Rec.parked, Bool.or_eq_true] at h ⊢
    rcases h with ((h | h) | h) | h
    · exact .inl (.inl (.inl (.inl h)))
    · exact .inl (.inl (.inl (.inr h)))
    · exact .inr (hp h)
    · exact .inl (.inr h)

theorem Moves.established (h : RecOk r) (hnot : ∀ ok, r.caller ≠ .returned ok) (he : r.caller.ending = false)
    (n : Nat) : Moves inst d r { r with buffered := n }.established := by
  obtain ⟨hw, ho⟩ := h.early hnot
  refine ⟨h.of_eq rfl rfl rfl id id rfl fun hn => absurd rfl (hn true), fun h => ?_, fun h => ?_⟩
  · refine h.imp_right fun h => ?_
    simp [Rec.ending, he, hw, ho, Watcher.ending, Out.ending] at h
  · simp only [Rec.parked, Rec.established, Bool.or_eq_true] at h ⊢
    rcases h with ((h | h) | h) | h
    · cases h
    · split at h <;> cases h
    · split at h <;> cases h
    · exact .inl (.inr h)

theorem Moves.buffered (hm : Moves inst d r r') (n : Nat) : Moves inst d r { r' with buffered := n } :=
  ⟨hm.ok.of_eq rfl rfl rfl id id rfl hm.ok.early, hm.ending, hm.parked⟩

theorem Moves.received (h : RecOk r) (hw : r.caller = .waiting) : Moves inst d r r.received := by
  have hnot : ∀ ok, r.caller ≠ .returned ok := fun ok h => by rw [hw] at h; cases h
  have he : r.caller.ending = false := by rw [hw]; rfl
  unfold Rec.received
  split
  · refine (Moves.caller h (.returned true) hnot nofun fun h => ?_).buffered _
    rw [he] at h
    cases h
  · exact .established h hnot he _
  · refine (Moves.caller h (.crediting .look) hnot nofun fun h => ?_).buffered _
    rw [he] at h
    cases h
  · refine (Moves.caller h (.crediting .look) hnot nofun fun h => ?_).buffered _
    rw [he] at h
    cases h

theorem callerStep_moves (h : RecOk r) (hs : callerStep inst r b = some (r', d)) : Moves inst d r r' := by
  unfold callerStep at hs
  cases hc : r.caller with
  | gettingConn =>
    simp only [hc] at hs
    split at hs
    · cases hs
      exact .caller h .waiting (by simp [hc]) nofun fun h => by simp [hc, Caller.ending] at h
    · cases hs
  | waiting =>
    simp only [hc] at hs
    have hcancel : Moves inst false r { r with caller := .cancelling .look } :=
      .caller h _ (by simp [hc]) nofun fun _ => rfl
    split at hs
    · cases hs
      exact hcancel
    · split at hs
      · cases hs
        exact .received h hc
      · split at hs
        · cases hs
          exact .caller h _ (by simp [hc]) nofun fun _ => rfl
        · split at hs
          · cases hs
            exact hcancel
          · cases hs
  | cancelling w =>
    cases w with
    | look =>
      simp only [hc] at hs
      split at hs
      · rename_i hi
        cases hs
        exact .caller h _ (by simp [hc]) (fun _ => .inl hi) fun _ => rfl
      · split at hs
        · cases hs
          exact .caller h _ (by simp [hc]) (fun _ => .inr rfl) fun _ => rfl
        · cases hs
          exact .caller h _ (by simp [hc]) nofun fun _ => rfl
    | conn =>
      simp only [hc] at hs
      split at hs
      · cases hs
        exact .caller h _ (by simp [hc]) nofun fun _ => rfl
      · cases hs
  | failing =>
    simp only [hc] at hs
    cases hs
    have hst := close_still r
    refine .closes ((close_ok h).of_eq rfl rfl rfl id id rfl fun hn => absurd rfl (hn false))
      (close_closed r) fun hp => .inl ?_
    simpa [Rec.parked, hst.watcher, hst.out, hst.pump, hc, Caller.parked] using hp
  | crediting w =>
    have hnot : ∀ ok, r.caller ≠ .returned ok := by simp [hc]
    have he : r.caller.ending = false := by rw [hc]; rfl
    cases w with
    | look =>
      simp only [hc] at hs
      cases hs
      split
      · rename_i hi
        refine .caller h _ hnot (fun _ => .inl hi) fun h => ?_
        rw [he] at h
        cases h
      · exact .established h hnot he r.buffered
    | conn =>
      simp only [hc] at hs
      split at hs
      · cases hs
        exact .established h hnot he r.buffered
      · cases hs
  | returned ok => simp only [hc] at hs; cases hs

theorem watcherStep_moves (h : RecOk r) (hs : watcherStep inst r b = some (r', d)) : Moves inst d r r' := by
  unfold watcherStep at hs
  cases hw : r.watcher with
  | waiting =>
    simp only [hw] at hs
    have hcancel : Moves inst false r { r with watcher := .cancelling .look } :=
      .watcher h _ (by simp [hw]) nofun fun _ => .inl rfl
    split at hs
    · cases hs
      exact hcancel
    · split at hs
      · rename_i hc
        cases hs
        exact .watcher h _ (by simp [hw]) nofun fun _ => .inr hc
      · split at hs
        · cases hs
          exact hcancel
        · cases hs
  | cancelling w =>
    cases w with
    | look =>
      simp only [hw] at hs
      split at hs
      · rename_i hi
        cases hs
        exact .watcher h _ (by simp [hw]) (fun _ => .inl hi) fun _ => .inl rfl
      · split at hs
        · cases hs
          exact .watcher h _ (by simp [hw]) (fun _ => .inr rfl) fun _ => .inl rfl
        · cases hs
          exact .watcher h _ (by simp [hw]) nofun fun _ => .inl rfl
    | conn =>
      simp only [hw] at hs
      split at hs
      · cases hs
        exact .watcher h _ (by simp [hw]) nofun fun _ => .inl rfl
      · cases hs
  | closing =>
    simp only [hw] at hs
    cases hs
    have hst := close_still r
    refine .closes ((close_ok h).of_eq rfl rfl rfl id id rfl fun hn => ?_) (close_closed r) fun hp => .inl ?_
    · have := ((close_ok h).early hn).1
      rw [hst.watcher, hw] at this
      cases this
    · simpa [Rec.parked, hst.caller, hst.out, hst.pump, hw, Watcher.parked] using hp
  | off => simp only [hw] at hs; cases hs
  | finished => simp only [hw] at hs; cases hs

theorem tryPutClose_still (r : Rec) : Still r (tryPutClose r) := by
  have hst := closeResult_still r
  unfold tryPutClose
  split
  · exact ⟨hst.kind, hst.caller, hst.watcher, hst.out, hst.pump⟩
  · exact ⟨rfl, rfl, rfl, rfl, rfl⟩

theorem tryPutClose_ok (h : RecOk r) : RecOk (tryPutClose r) := by
  unfold tryPutClose
  split
  · exact (closeResult_ok h).of_eq rfl rfl rfl id id rfl (closeResult_ok h).early
  · exact h.of_eq rfl rfl rfl id id rfl h.early

theorem tryPutClose_closed (r : Rec) (h : r.closed = true ∨ r.kind = .putStream) :
    (tryPutClose r).closed = true := by
  unfold tryPutClose
  split
  · exact closeResult_closed r
  · rename_i hk
    exact h.resolve_right hk

/-- `streamOut`, which comes to `getConn` with a credit. -/
theorem outStep_moves (h : RecOk r)
    (hinst : r.out = .acquiring → r.closed = false → r.credit ≠ 0 → inst = true)
    (hs : outStep inst r = some r') : Moves inst false r r' := by
  unfold outStep at hs
  cases ho : r.out with
  | checking =>
    simp only [ho] at hs
    cases hs
    split
    · exact .out h _ r.credit (by simp [ho]) nofun fun h => by simp [ho, Out.ending] at h
    · exact .out h _ r.credit (by simp [ho]) nofun fun h => by simp [ho, Out.ending] at h
  | acquiring =>
    simp only [ho] at hs
    split at hs
    · cases hs
      exact .out h _ r.credit (by simp [ho]) nofun fun h => by simp [ho, Out.ending] at h
    · rename_i hc
      split at hs
      · rename_i hcr
        cases hs
        refine .out h _ _ (by simp [ho]) (fun _ => .inl (hinst ho (Bool.eq_false_iff.mpr hc) hcr)) fun h => ?_
        simp [ho, Out.ending] at h
      · cases hs
  | gettingConn last =>
    simp only [ho] at hs
    split at hs
    · cases hs
      cases last with
      | true => exact .out h _ r.credit (by simp [ho]) nofun fun h => by simp [ho, Out.ending] at h
      | false => exact .out h _ r.credit (by simp [ho]) nofun fun h => by simp [ho, Out.ending] at h
    · cases hs
  | closing =>
    simp only [ho] at hs
    cases hs
    have hst := tryPutClose_still r
    refine ⟨(tryPutClose_ok h).of_eq rfl rfl rfl id id rfl fun hn => ?_, fun he => ?_, fun hp => .inl ?_⟩
    · have := ((tryPutClose_ok h).early hn).2
      rw [hst.out, ho] at this
      cases this
    · by_cases hk : r.closed = true ∨ r.kind = .putStream
      · exact .inl (tryPutClose_closed r hk)
      · have hr : r.ending = true := he.resolve_left fun hc => hk (.inl hc)
        have hkind : r.kind ≠ .putStream := fun h => hk (.inr h)
        refine .inr ?_
        simpa [Rec.ending, hst.caller, hst.watcher, hst.kind, ho, Out.ending, hkind] using hr
    · simpa [Rec.parked, hst.caller, hst.watcher, hst.pump, ho, Out.parked] using hp
  | off => simp only [ho] at hs; cases hs
  | receiving => simp only [ho] at hs; cases hs
  | finished => simp only [ho] at hs; cases hs

theorem Moves.pump (h : RecOk r) (p : Pump) (q n : Nat) (c : Bool) (hc : r.chanClosed = true → c = true)
    (hoff : p ≠ .off) (hf : p = .finished → c = true) (hp : p.parked = true → inst = true) :
    Moves inst false r { r with pump := p, queue := q, buffered := n, chanClosed := c } := by
  refine ⟨⟨h.ends, h.input, fun hk hcl => hc (h.direct hk hcl), fun _ => ⟨hoff, hf⟩, h.early⟩, id, fun h => ?_⟩
  simp only [Rec.parked, Bool.or_eq_true] at h ⊢
  rcases h with h | h
  · exact .inl (.inl h)
  · exact .inr (.inl (hp h))

theorem pumpStep_moves (h : RecOk r) (hs : pumpStep inst r b = some r') : Moves inst false r r' := by
  unfold pumpStep at hs
  cases hp : r.pump with
  | running =>
    simp only [hp] at hs
    have hfinish : Moves inst false r { r with pump := .finished, chanClosed := true } :=
      .pump h .finished r.queue r.buffered true (fun _ => rfl) (by simp) (fun _ => rfl) nofun
    split at hs
    · cases hs
      exact hfinish
    · split at hs
      · cases hs
        cases b with
        | true => exact .pump h (.granting .look) _ _ r.chanClosed id (by simp) nofun nofun
        | false => exact .pump h .running _ _ r.chanClosed id (by simp) nofun nofun
      · split at hs
        · cases hs
          exact hfinish
        · cases hs
  | granting w =>
    have hrun : Moves inst false r { r with pump := .running } :=
      .pump h .running r.queue r.buffered r.chanClosed id (by simp) nofun nofun
    cases w with
    | look =>
      simp only [hp] at hs
      cases hs
      split
      · rename_i hi
        exact .pump h (.granting .conn) r.queue r.buffered r.chanClosed id (by simp) nofun fun _ => hi
      · exact hrun
    | conn =>
      simp only [hp] at hs
      split at hs
      · cases hs
        exact hrun
      · cases hs
  | off => simp only [hp] at hs; cases hs
  | finished => simp only [hp] at hs; cases hs

theorem Still.trans {r'' : Rec} (h : Still r r') (h' : Still r' r'') : Still r r'' :=
  ⟨h'.kind.trans h.kind, h'.caller.trans h.caller, h'.watcher.trans h.watcher, h'.out.trans h.out,
    h'.pump.trans h.pump⟩

/-- A statement of `processResponse` leaves the goroutines where they are, and a closed record closed. -/
theorem Handling.runs_spec (m : Msg) (full : Bool) (x : Handling) (st : Statement) :
    Still x.record (x.runs m full st).record ∧ (RecOk x.record → RecOk (x.runs m full st).record) ∧
      (x.record.closed = true → (x.runs m full st).record.closed = true) := by
  have hself : Still x.record x.record := ⟨rfl, rfl, rfl, rfl, rfl⟩
  have hn : Still x.record (x.notify full).record ∧ (RecOk x.record → RecOk (x.notify full).record) ∧
      (x.record.closed = true → (x.notify full).record.closed = true) :=
    ⟨notifyResult_still _ full, fun h => notifyResult_ok h full, fun h => (notifyResult_closed _ full).trans h⟩
  cases st with
  | notifyResult => exact hn
  | notifyPayload =>
    simp only [runs]
    split
    · exact hn
    · exact ⟨hself, id, id⟩
  | cancelOnce =>
    simp only [runs]
    split
    · exact ⟨hself, id, id⟩
    · exact ⟨⟨rfl, rfl, rfl, rfl, rfl⟩, fun h => h.of_eq rfl rfl rfl id id rfl h.early, id⟩
  | setError => exact ⟨hself, id, id⟩
  | close => exact ⟨close_still _, close_ok, fun _ => close_closed _⟩
  | delete => exact ⟨⟨rfl, rfl, rfl, rfl, rfl⟩, fun h => h.of_eq rfl rfl rfl id id rfl h.early, id⟩
  | tryGetClose =>
    have hc := closeResult_still x.record
    exact ⟨⟨hc.kind, hc.caller, hc.watcher, hc.out, hc.pump⟩,
      fun h => (closeResult_ok h).of_eq rfl rfl rfl id id rfl (closeResult_ok h).early, fun _ => closeResult_closed _⟩
  | grant =>
    cases m with
    | credit n => exact ⟨⟨rfl, rfl, rfl, rfl, rfl⟩, fun h => h.of_eq rfl rfl rfl id id rfl h.early, id⟩
    | _ => exact ⟨hself, id, id⟩

theorem Handling.foldl_spec (m : Msg) (full : Bool) : ∀ (sts : List Statement) (x : Handling),
    Still x.record (sts.foldl (runs m full) x).record ∧ (RecOk x.record → RecOk (sts.foldl (runs m full) x).record) ∧
      (x.record.closed = true → (sts.foldl (runs m full) x).record.closed = true)
  | [], _ => ⟨⟨rfl, rfl, rfl, rfl, rfl⟩, id, id⟩
  | st :: sts, x => by
    obtain ⟨h1, h2, h3⟩ := runs_spec m full x st
    obtain ⟨h1', h2', h3'⟩ := foldl_spec m full sts (x.runs m full st)
    exact ⟨h1.trans h1', fun h => h2' (h2 h), fun h => h3' (h3 h)⟩

theorem processResponse_still (r : Rec) (m : Msg) (full : Bool) : Still r (processResponse r m full).1 :=
  (Handling.foldl_spec m full _ ⟨r, true, false⟩).1

theorem processResponse_ok (h : RecOk r) (m : Msg) (full : Bool) : RecOk (processResponse r m full).1 :=
  (Handling.foldl_spec m full _ ⟨r, true, false⟩).2.1 h

/-- A final message closes the record, and no message opens it. -/
theorem processResponse_closed (r : Rec) (m : Msg) (full : Bool) (h : m.final = true ∨ r.closed = true) :
    (processResponse r m full).1.closed = true := by
  rcases h with hf | hc
  · cases m with
    | result => exact close_closed _
    | error | cancel => exact close_closed r
    | streamEnd hasValue => exact closeResult_closed _
    | ready | value | credit _ => cases hf
  · exact (Handling.foldl_spec m full _ ⟨r, true, false⟩).2.2 hc

/-! ## The client -/

def At.final : At → Bool
  | .handling m => m.final
  | .cancelling _ => false

/-- Record `k` is closed, or one of its goroutines or a response loop is about to close it. -/
def St.ends (s : St) (k : Nat) (r : Rec) : Bool := r.closed || r.ending || s.procs.any fun q => q.k == k && q.pc.final

/-- When nil is stored nothing is waited for, and after that nothing begins to wait. -/
def settled (s : St) : Ev → Bool
  | .close =>
    s.phase != .flagged ||
      ((List.range s.recs.length).all (fun k => s.recs[k]?.all fun r => s.ends k r && !r.parked) &&
        s.procs.all fun q => q.pc != .cancelling .conn)
  | .begin _ _ => s.phase == .idle || s.phase == .flagged
  | .put _ last => !last || s.installed
  | .out k => s.installed || s.recs[k]?.all fun r => r.out != .acquiring || r.closed || r.credit == 0
  | _ => true

structure Inv (s : St) : Prop where
  recs : ∀ (k : Nat) (r : Rec), s.recs[k]? = some r → RecOk r
  procs : ∀ q ∈ s.procs, ∃ r, s.recs[q.k]? = some r
  before : s.phase = .idle ∨ s.phase = .flagged → s.installed = true
  parked : ∀ (k : Nat) (r : Rec), s.recs[k]? = some r → r.parked = true → s.installed = true
  looping : ∀ q ∈ s.procs, q.pc = .cancelling .conn → s.installed = true
  after : s.phase = .cleared ∨ s.phase = .returned → ∀ (k : Nat) (r : Rec), s.recs[k]? = some r → s.ends k r = true

theorem ends_iff :
    s.ends k r = true ↔ (r.closed = true ∨ r.ending = true) ∨ ∃ q ∈ s.procs, q.k = k ∧ q.pc.final = true := by
  simp [St.ends, or_assoc]

theorem setRec_get {j : Nat} {r₀ : Rec} (h : (s.setRec k r').recs[j]? = some r₀) :
    k = j ∧ r₀ = r' ∨ k ≠ j ∧ s.recs[j]? = some r₀ := by
  rcases modify_get h with ⟨rfl, _, -, rfl⟩ | ⟨hkj, hj⟩
  · exact .inl ⟨rfl, rfl⟩
  · exact .inr ⟨hkj, hj⟩

theorem setRec_here (hr : s.recs[k]? = some r) : (s.setRec k r').recs[k]? = some r' := by simp [St.setRec, hr]

theorem Inv.moves (hi : Inv s) (hr : s.recs[k]? = some r) (hm : Moves s.installed d r r') :
    Inv ((s.setRec k r').dialed d) := by
  have hinst : s.installed = true → (s.installed || d) = true := fun h => by rw [h]; rfl
  refine ⟨fun j r₀ hj => ?_, fun q hq => ?_, fun hp => hinst (hi.before hp), fun j r₀ hj hp => ?_,
    fun q hq hp => hinst (hi.looping q hq hp),
    fun hp j r₀ hj => ?_⟩
  · rcases setRec_get hj with ⟨-, rfl⟩ | ⟨-, hj⟩
    · exact hm.ok
    · exact hi.recs j r₀ hj
  · obtain ⟨r₀, hr₀⟩ := hi.procs q hq
    by_cases hkq : k = q.k
    · exact ⟨r', by simp [St.dialed, St.setRec, hkq, hr₀]⟩
    · exact ⟨r₀, by simp [St.dialed, St.setRec, hkq, hr₀]⟩
  · rcases setRec_get hj with ⟨-, rfl⟩ | ⟨-, hj⟩
    · rcases hm.parked hp with h | h | h
      · exact hinst (hi.parked k r hr h)
      · exact hinst h
      · simp [St.dialed, h]
    · exact hinst (hi.parked j r₀ hj hp)
  · rcases setRec_get hj with ⟨rfl, rfl⟩ | ⟨-, hj⟩
    · rcases ends_iff.mp (hi.after hp k r hr) with h | h
      · exact ends_iff.mpr (.inl (hm.ending h))
      · exact ends_iff.mpr (.inr h)
    · exact ends_iff.mpr (ends_iff.mp (hi.after hp j r₀ hj))

theorem dialed_false (s : St) : s.dialed false = s := by simp [St.dialed]

theorem Inv.moves_here (hi : Inv s) (hr : s.recs[k]? = some r) (hm : Moves s.installed false r r') :
    Inv (s.setRec k r') := by
  have := hi.moves hr hm
  rwa [dialed_false] at this

/-- The response loops move on; one that leaves with a final message has closed its record. -/
theorem Inv.loops (hi : Inv s) (hrec : ∀ q ∈ l, ∃ r, s.recs[q.k]? = some r)
    (hconn : ∀ q ∈ l, q.pc = .cancelling .conn → s.installed = true)
    (hfin : ∀ q ∈ s.procs, q.pc.final = true → q ∈ l ∨ ∀ r, s.recs[q.k]? = some r → r.closed = true) :
    Inv { s with procs := l } := by
  refine ⟨hi.recs, hrec, hi.before, hi.parked, hconn, fun hp k r hr => ?_⟩
  rcases ends_iff.mp (hi.after hp k r hr) with h | ⟨q, hq, hqk, hqf⟩
  · exact ends_iff.mpr (.inl h)
  · rcases hfin q hq hqf with h | h
    · exact ends_iff.mpr (.inr ⟨q, h, hqk, hqf⟩)
    · exact ends_iff.mpr (.inl (.inl (h r (by rw [hqk]; exact hr))))

theorem mem_eraseIdx_of_ne {q' : Proc} (hi : l[i]? = some q) (hq : q' ∈ l) (hne : q' ≠ q) :
    q' ∈ l.eraseIdx i := by
  obtain ⟨j, hj⟩ := List.mem_iff_getElem?.mp hq
  refine List.mem_eraseIdx_iff_getElem?.mpr ⟨j, ?_, hj⟩
  rintro rfl
  exact hne (Option.some.inj (hj.symm.trans hi))

theorem mem_modify_pc {l : List Proc} {i : Nat} {q : Proc} {pc : At}
    (h : q ∈ l.modify i fun q => { q with pc := pc }) :
    (∃ q₀, l[i]? = some q₀ ∧ q = { q₀ with pc := pc }) ∨ q ∈ l := by
  obtain ⟨j, hj⟩ := List.mem_iff_getElem?.mp h
  rcases modify_get hj with ⟨-, q₀, hq₀, rfl⟩ | ⟨-, hj⟩
  · exact .inl ⟨q₀, hq₀, rfl⟩
  · exact .inr (List.mem_of_getElem? hj)

theorem mem_modify_of_ne {q' : Proc} {f : Proc → Proc} (hi : l[i]? = some q) (hq : q' ∈ l)
    (hne : q' ≠ q) : q' ∈ l.modify i f := by
  obtain ⟨j, hj⟩ := List.mem_iff_getElem?.mp hq
  have hij : i ≠ j := by
    rintro rfl
    exact hne (Option.some.inj (hj.symm.trans hi))
  exact List.mem_of_getElem? (i := j) (by simp [hij, hj])

theorem Inv.leave (hi : Inv s) (hq : s.procs[i]? = some q)
    (hdone : q.pc.final = true → ∀ r, s.recs[q.k]? = some r → r.closed = true) :
    Inv { s with procs := s.procs.eraseIdx i } := by
  refine hi.loops (fun q' hq' => hi.procs q' (List.mem_of_mem_eraseIdx hq'))
    (fun q' hq' => hi.looping q' (List.mem_of_mem_eraseIdx hq')) fun q' hq' hf => ?_
  by_cases hne : q' = q
  · subst hne
    exact .inr (hdone hf)
  · exact .inl (mem_eraseIdx_of_ne hq hq' hne)

theorem Inv.cancels (hi : Inv s) {w : Wait} (hq : s.procs[i]? = some q)
    (hdone : q.pc.final = true → ∀ r, s.recs[q.k]? = some r → r.closed = true)
    (hw : w = .conn → s.installed = true) :
    Inv { s with procs := s.procs.modify i fun q => { q with pc := .cancelling w } } := by
  refine hi.loops (fun q' hq' => ?_) (fun q' hq' hc => ?_) fun q' hq' hf => ?_
  · rcases mem_modify_pc hq' with ⟨q₀, hq₀, rfl⟩ | h
    · exact hi.procs q₀ (List.mem_of_getElem? hq₀)
    · exact hi.procs q' h
  · rcases mem_modify_pc hq' with ⟨q₀, hq₀, rfl⟩ | h
    · exact hw (by simpa using hc)
    · exact hi.looping q' h hc
  · by_cases hne : q' = q
    · subst hne
      exact .inr (hdone hf)
    · exact .inl (mem_modify_of_ne hq hq' hne)

theorem inv_proc (hi : Inv s) (hq : s.procs[i]? = some q) (h : procStep s i q b = some t) : Inv t := by
  unfold procStep at h
  cases hp : q.pc with
  | handling m =>
    simp only [hp] at h
    obtain ⟨r, hr, rfl⟩ := Option.map_eq_some_iff.mp h
    have hok := hi.recs q.k r hr
    have hi' : Inv (s.setRec q.k (processResponse r m b).1) :=
      hi.moves_here hr (.still (processResponse_still r m b) (processResponse_ok hok m b)
        fun hc => processResponse_closed r m b (.inr hc))
    have hdone : q.pc.final = true → ∀ r', (s.setRec q.k (processResponse r m b).1).recs[q.k]? = some r' →
      r'.closed = true := by
      intro hf r' hr'
      rcases setRec_get hr' with ⟨-, rfl⟩ | ⟨hne, -⟩
      · rw [hp] at hf
        exact processResponse_closed r m b (.inl hf)
      · exact absurd rfl hne
    split
    · exact hi'.cancels hq hdone nofun
    · exact hi'.leave hq hdone
  | cancelling w =>
    have hdone : q.pc.final = true → ∀ r, s.recs[q.k]? = some r → r.closed = true := by
      intro hf
      rw [hp] at hf
      cases hf
    cases w with
    | look =>
      simp only [hp] at h
      split at h
      · rename_i hinst
        cases h
        exact hi.cancels hq hdone fun _ => hinst
      · split at h
        · cases h
          have hd : Inv (s.dialed true) :=
            ⟨hi.recs, hi.procs, fun _ => Bool.or_true _, fun _ _ _ _ => Bool.or_true _, fun _ _ _ => Bool.or_true _,
              fun h k r hr => ends_iff.mpr (ends_iff.mp (hi.after h k r hr))⟩
          exact hd.cancels hq hdone fun _ => Bool.or_true _
        · cases h
          exact hi.leave hq hdone
    | conn =>
      simp only [hp] at h
      split at h
      · cases h
        exact hi.leave hq hdone
      · cases h

theorem inv_clear (hi : Inv s) (hp : s.phase = .flagged) (hd : settled s .close = true) :
    Inv { s with phase := .cleared, installed := false } := by
  simp only [settled, hp, bne_self_eq_false, Bool.false_or, Bool.and_eq_true, List.all_eq_true, List.mem_range] at hd
  obtain ⟨hrecs, hprocs⟩ := hd
  have hall : ∀ (k : Nat) (r : Rec), s.recs[k]? = some r → s.ends k r = true ∧ r.parked = false := by
    intro k r hr
    have := hrecs k (List.getElem?_eq_some_iff.mp hr).1
    simpa [hr] using this
  refine ⟨hi.recs, hi.procs, fun h => (by rcases h with h | h <;> cases h), fun k r hr hpk => ?_,
    fun q hq hc => ?_, fun _ k r hr => ?_⟩
  · rw [(hall k r hr).2] at hpk
    cases hpk
  · have := hprocs q hq
    rw [hc] at this
    cases this
  · exact ends_iff.mpr (ends_iff.mp (hall k r hr).1)

theorem inv_begin (hi : Inv s) (hp : s.phase = .idle ∨ s.phase = .flagged) (kind : Kind) (watched : Bool) :
    Inv { s with recs := s.recs ++ [.fresh kind watched] } := by
  refine ⟨fun k r hr => ?_, fun q hq => ?_, hi.before, fun _ _ _ _ => hi.before hp, hi.looping, fun h => ?_⟩
  · rcases append_get hr with hr | ⟨-, rfl⟩
    · exact hi.recs k r hr
    · exact fresh_ok kind watched
  · obtain ⟨r, hr⟩ := hi.procs q hq
    exact ⟨r, get_append _ hr⟩
  · rcases hp with hp | hp <;> rcases h with h | h <;> cases hp.symm.trans h

theorem inv_step (hi : Inv s) (hd : settled s e = true) (h : step s e = some t) : Inv t := by
  cases e with
  | caller k b =>
    obtain ⟨r, hr, h⟩ := Option.bind_eq_some_iff.mp h
    obtain ⟨⟨r', d⟩, hs, rfl⟩ := Option.map_eq_some_iff.mp h
    exact hi.moves hr (callerStep_moves (hi.recs k r hr) hs)
  | watcher k b =>
    obtain ⟨r, hr, h⟩ := Option.bind_eq_some_iff.mp h
    obtain ⟨⟨r', d⟩, hs, rfl⟩ := Option.map_eq_some_iff.mp h
    exact hi.moves hr (watcherStep_moves (hi.recs k r hr) hs)
  | out k =>
    obtain ⟨r, hr, h⟩ := Option.bind_eq_some_iff.mp h
    obtain ⟨r', hs, rfl⟩ := Option.map_eq_some_iff.mp h
    refine hi.moves_here hr (outStep_moves (hi.recs k r hr) (fun h1 h2 h3 => ?_) hs)
    simpa [settled, hr, h1, h2, h3] using hd
  | pump k b =>
    obtain ⟨r, hr, h⟩ := Option.bind_eq_some_iff.mp h
    obtain ⟨r', hs, rfl⟩ := Option.map_eq_some_iff.mp h
    exact hi.moves_here hr (pumpStep_moves (hi.recs k r hr) hs)
  | proc i b =>
    obtain ⟨q, hq, h⟩ := Option.bind_eq_some_iff.mp h
    exact inv_proc hi hq h
  | close =>
    simp only [step] at h
    cases hp : s.phase with
    | idle =>
      simp only [hp] at h
      cases h
      exact ⟨hi.recs, hi.procs, fun _ => hi.before (.inl hp), hi.parked, hi.looping,
        fun h => (by rcases h with h | h <;> cases h)⟩
    | flagged =>
      simp only [hp] at h
      cases h
      exact inv_clear hi hp hd
    | cleared =>
      simp only [hp] at h
      cases h
      exact ⟨hi.recs, hi.procs, fun h => (by rcases h with h | h <;> cases h), hi.parked, hi.looping,
        fun _ k r hr => ends_iff.mpr (ends_iff.mp (hi.after (.inl hp) k r hr))⟩
    | returned => simp only [hp] at h; cases h
  | begin kind watched =>
    cases h
    refine inv_begin hi ?_ kind watched
    simpa [settled] using hd
  | cancel k =>
    obtain ⟨r, hr, h⟩ := Option.bind_eq_some_iff.mp h
    split at h
    · cases h
      have hok := hi.recs k r hr
      exact hi.moves_here hr (.still ⟨rfl, rfl, rfl, rfl, rfl⟩ (hok.of_eq rfl rfl rfl id id rfl hok.early) id)
    · cases h
  | put k last =>
    obtain ⟨r, hr, h⟩ := Option.bind_eq_some_iff.mp h
    split at h
    · rename_i ho
      cases h
      refine hi.moves_here hr (.out (hi.recs k r hr) _ r.credit (by simp [ho]) (fun hp => .inl ?_) fun h => ?_)
      · cases last with
        | true => simpa [settled] using hd
        | false => cases hp
      · simp [ho, Out.ending] at h
    · cases h
  | timer k =>
    obtain ⟨r, hr, h⟩ := Option.bind_eq_some_iff.mp h
    split at h
    · rename_i hc
      cases h
      exact hi.moves_here hr (.caller (hi.recs k r hr) _ (by simp [hc]) nofun fun _ => rfl)
    · cases h
  | respond k m =>
    obtain ⟨r, hr, h⟩ := Option.bind_eq_some_iff.mp h
    split at h
    · cases h
      refine hi.loops (fun q hq => ?_) (fun q hq hc => ?_) fun q hq _ => .inl (List.mem_append_left _ hq)
      · rcases List.mem_append.mp hq with hq | hq
        · exact hi.procs q hq
        · rw [List.mem_singleton.mp hq]
          exact ⟨r, hr⟩
      · rcases List.mem_append.mp hq with hq | hq
        · exact hi.looping q hq hc
        · rw [List.mem_singleton.mp hq] at hc
          cases hc
    · cases h

theorem inv_start : Inv start := by
  refine ⟨fun k r hr => ?_, fun q hq => ?_, fun _ => rfl, fun k r hr => ?_, fun q hq => ?_, fun _ k r hr => ?_⟩
  · simp [start] at hr
  · cases hq
  · simp [start] at hr
  · cases hq
  · simp [start] at hr

/-! ## When nothing moves -/

theorem caller_stuck (hs : ∀ b, callerStep inst r b = none) (hp : r.parked = true → inst = true) :
    (∃ ok, r.caller = .returned ok) ∨ r.caller = .waiting ∧ r.chanClosed = false := by
  have h := hs false
  unfold callerStep at h
  have hpark : r.caller.parked = true → inst = true := fun hc => hp (by simp [Rec.parked, hc])
  cases hc : r.caller with
  | gettingConn => simp [hc, hpark (by rw [hc]; rfl)] at h
  | waiting =>
    simp only [hc, Bool.and_false, Bool.false_eq_true, if_false] at h
    split at h
    · cases h
    · split at h
      · cases h
      · rename_i hclosed
        exact .inr ⟨rfl, Bool.eq_false_iff.mpr hclosed⟩
  | cancelling w =>
    cases w with
    | look =>
      simp only [hc, Bool.false_eq_true, if_false] at h
      split at h <;> cases h
    | conn => simp [hc, hpark (by rw [hc]; rfl)] at h
  | failing => simp [hc] at h
  | crediting w =>
    cases w with
    | look => simp [hc] at h
    | conn => simp [hc, hpark (by rw [hc]; rfl)] at h
  | returned ok => exact .inl ⟨ok, rfl⟩

theorem watcher_stuck (hs : ∀ b, watcherStep inst r b = none) (hp : r.parked = true → inst = true) :
    r.watcher.ending = false := by
  have h := hs false
  unfold watcherStep at h
  cases hw : r.watcher with
  | cancelling w =>
    cases w with
    | look =>
      simp only [hw, Bool.false_eq_true, if_false] at h
      split at h <;> cases h
    | conn =>
      have hinst : inst = true := hp (by simp [Rec.parked, hw, Watcher.parked, Wait.parked])
      simp [hw, hinst] at h
  | closing => simp [hw] at h
  | _ => rfl

theorem out_stuck (hs : outStep inst r = none) (hp : r.parked = true → inst = true) :
    r.out.ending r.kind = false ∧ r.out.parked = false ∧ (r.out = .acquiring → r.closed = false) := by
  unfold outStep at hs
  cases ho : r.out with
  | checking => simp [ho] at hs
  | acquiring =>
    refine ⟨rfl, rfl, fun _ => ?_⟩
    simp only [ho] at hs
    split at hs
    · cases hs
    · rename_i hc
      exact Bool.eq_false_iff.mpr hc
  | gettingConn last =>
    have hinst : inst = true := hp (by simp [Rec.parked, ho, Out.parked])
    simp [ho, hinst] at hs
  | closing => simp [ho] at hs
  | off | receiving | finished => exact ⟨rfl, rfl, nofun⟩

theorem pump_stuck (hok : RecOk r) (hs : ∀ b, pumpStep inst r b = none) (hp : r.parked = true → inst = true)
    (hc : r.closed = true) : r.chanClosed = true := by
  by_cases hk : pumps r.kind = true
  · obtain ⟨hoff, hfin⟩ := hok.pumped hk
    have h := hs false
    unfold pumpStep at h
    cases hpump : r.pump with
    | off => exact absurd hpump hoff
    | running =>
      simp only [hpump, hok.input hc, if_true] at h
      split at h
      · cases h
      · split at h <;> cases h
    | granting w =>
      cases w with
      | look => simp [hpump] at h
      | conn =>
        have hinst : inst = true := hp (by simp [Rec.parked, hpump, Pump.parked, Wait.parked])
        simp [hpump, hinst] at h
    | finished => exact hfin hpump
  · exact hok.direct (Bool.eq_false_iff.mpr hk) hc

/-- Nothing of the client but `Close` can move. -/
def St.Rests (s : St) : Prop := ∀ e : Ev, e.own = true → e ≠ .close → step s e = none

theorem St.Stuck.rests (h : s.Stuck) : s.Rests := fun e he _ => h e he

theorem St.Rests.caller (h : s.Rests) (hr : s.recs[k]? = some r) (b : Bool) :
    callerStep s.installed r b = none := by
  have := h (.caller k b) rfl (by simp)
  simpa [step, hr] using this

theorem St.Rests.watcher (h : s.Rests) (hr : s.recs[k]? = some r) (b : Bool) :
    watcherStep s.installed r b = none := by
  have := h (.watcher k b) rfl (by simp)
  simpa [step, hr] using this

theorem St.Rests.out (h : s.Rests) (hr : s.recs[k]? = some r) : outStep s.installed r = none := by
  have := h (.out k) rfl (by simp)
  simpa [step, hr] using this

theorem St.Rests.pump (h : s.Rests) (hr : s.recs[k]? = some r) (b : Bool) :
    pumpStep s.installed r b = none := by
  have := h (.pump k b) rfl (by simp)
  simpa [step, hr] using this

theorem St.Rests.procs (hi : Inv s) (h : s.Rests) : s.procs = [] := by
  cases hl : s.procs with
  | nil => rfl
  | cons q l =>
    have hq : q ∈ s.procs := by simp [hl]
    have hs := h (.proc 0 false) rfl (by simp)
    simp only [step, hl, List.getElem?_cons_zero, Option.bind_some, procStep] at hs
    obtain ⟨r, hr⟩ := hi.procs q hq
    cases hp : q.pc with
    | handling m => simp [hp, hr] at hs
    | cancelling w =>
      cases w with
      | look =>
        simp only [hp, Bool.false_eq_true, if_false] at hs
        split at hs <;> cases hs
      | conn => simp [hp, hi.looping q hq hp] at hs

/-- Nothing waits for the request any more. -/
structure Rec.Released (r : Rec) : Prop where
  closed : r.closed = true
  ended : r.ends = 1
  caller : ∃ ok, r.caller = .returned ok
  channel : r.chanClosed = true
  credit : r.out ≠ .acquiring
  conn : ∀ last, r.out ≠ .gettingConn last

theorem inv_reach (h : sys.Reach (fun s e => settled s e = true) s) : Inv s := by
  refine Sys.Reach.inv (P := Inv) ?_ ?_ h
  · rintro _ rfl
    exact inv_start
  · intro s e t hi hd hst
    exact inv_step hi hd hst

theorem Inv.released (hi : Inv s) (hp : s.phase = .cleared ∨ s.phase = .returned) (hs : s.Rests)
    (hr : s.recs[k]? = some r) : r.Released := by
  have hpark := hi.parked k r hr
  have hcaller := caller_stuck (hs.caller hr) hpark
  have hwatcher := watcher_stuck (hs.watcher hr) hpark
  obtain ⟨hout, hconn, hcredit⟩ := out_stuck (hs.out hr) hpark
  -- nobody is left who could close it, so it is closed
  have hclosed : r.closed = true := by
    rcases ends_iff.mp (hi.after hp k r hr) with (hc | he) | ⟨q, hq, -⟩
    · exact hc
    · have hcall : r.caller.ending = false := by
        rcases hcaller with ⟨ok, h⟩ | ⟨h, -⟩
        · rw [h]
          rfl
        · rw [h]
          rfl
      simp [Rec.ending, hcall, hwatcher, hout] at he
    · rw [hs.procs hi] at hq
      cases hq
  have hchan := pump_stuck (hi.recs k r hr) (hs.pump hr) hpark hclosed
  refine ⟨hclosed, ?_, ?_, hchan, fun ho => ?_, fun last ho => ?_⟩
  · simpa [hclosed] using (hi.recs k r hr).ends
  · refine hcaller.resolve_right fun h => ?_
    rw [hchan] at h
    cases h.2
  · rw [hcredit ho] at hclosed
    cases hclosed
  · rw [ho] at hconn
    cases hconn

theorem close_releases (h : sys.Reach (fun s e => settled s e = true) s) (hp : s.phase = .returned)
    (hs : s.Stuck) {k : Nat} {r : Rec} (hr : s.recs[k]? = some r) : r.Released :=
  (inv_reach h).released (.inr hp) hs.rests hr

/-- `Stuck`, looked up goroutine by goroutine. -/
def St.still (s : St) : Bool :=
  ((List.range s.recs.length).all fun k => (step s (.out k)).isNone && [true, false].all fun b =>
    (step s (.caller k b)).isNone && (step s (.watcher k b)).isNone && (step s (.pump k b)).isNone) &&
  ((List.range s.procs.length).all fun i => [true, false].all fun b => (step s (.proc i b)).isNone) &&
    (step s .close).isNone

theorem stuck_of_still (h : s.still = true) : s.Stuck := by
  simp only [St.still, Bool.and_eq_true, List.all_eq_true, List.mem_range, Option.isNone_iff_eq_none] at h
  obtain ⟨⟨hrec, hproc⟩, hclose⟩ := h
  have hnone : ∀ k, ¬ k < s.recs.length → s.recs[k]? = none := fun k hk => List.getElem?_eq_none (by omega)
  intro e he
  cases e with
  | caller k b =>
    by_cases hk : k < s.recs.length
    · exact ((hrec k hk).2 b (by cases b <;> simp)).1.1
    · simp [step, hnone k hk]
  | watcher k b =>
    by_cases hk : k < s.recs.length
    · exact ((hrec k hk).2 b (by cases b <;> simp)).1.2
    · simp [step, hnone k hk]
  | out k =>
    by_cases hk : k < s.recs.length
    · exact (hrec k hk).1
    · simp [step, hnone k hk]
  | pump k b =>
    by_cases hk : k < s.recs.length
    · exact ((hrec k hk).2 b (by cases b <;> simp)).2
    · simp [step, hnone k hk]
  | proc i b =>
    by_cases hi : i < s.procs.length
    · exact hproc i hi b (by cases b <;> simp)
    · have : s.procs[i]? = none := List.getElem?_eq_none (by omega)
      simp [step, this]
  | close => exact hclose
  | _ => cases he

def calls (k : Nat) (kind : Kind) : List Ev := [.begin kind false, .caller k false]

def answers (k : Nat) (m : Msg) : List Ev := [.respond k m, .proc 0 false]

def closes : List Ev := [.close, .close, .close]

/-- A call that is answered, and a stream whose end is read before `Close` and handled after. -/
def inTime : List Ev :=
  calls 0 .unary ++ calls 1 .getStream ++ answers 0 .result ++ ([.caller 0 false] : List Ev) ++ answers 1 .ready ++
  ([.pump 1 false, .caller 1 false, .caller 1 false, .caller 1 false,
    .respond 1 (.streamEnd false)] : List Ev) ++ closes ++
  ([.proc 0 false, .pump 1 false] : List Ev)

theorem close_releases_inTime :
    ∃ s r₀ r₁, sys.Reach (fun s e => settled s e = true) s ∧ s.phase = .returned ∧ s.Stuck ∧
    s.recs[0]? = some r₀ ∧ s.recs[1]? = some r₁ ∧ r₀.Released ∧ r₁.Released := by
  obtain ⟨s, hr, hp, hstill, hlen⟩ := Sys.reach_of_exec sys (fun s e => settled s e = true) start rfl inTime
    (P := fun s => s.phase = .returned ∧ s.still = true ∧ s.recs.length = 2) (by decide +kernel)
  have hstuck : s.Stuck := stuck_of_still hstill
  have h0 : s.recs[0]? = some s.recs[0] := List.getElem?_eq_getElem (by omega)
  have h1 : s.recs[1]? = some s.recs[1] := List.getElem?_eq_getElem (by omega)
  exact ⟨s, _, _, hr, hp, hstuck, h0, h1, close_releases hr hp hstuck h0, close_releases hr hp hstuck h1⟩

/-! ## How exact the condition is

  A goroutine that is still under way when nil is stored may yet close what is not settled.
  Where none is, the condition fails only where something is left behind. -/

/-- Every request is released, and nobody is in `getConn`. -/
structure St.Clean (s : St) : Prop where
  released : ∀ (k : Nat) (r : Rec), s.recs[k]? = some r → r.Released
  parked : ∀ (k : Nat) (r : Rec), s.recs[k]? = some r → r.parked = false
  procs : s.procs = []

/-- A client at rest has nobody in `getConn` while a connection is installed. -/
theorem Inv.unparked (hi : Inv s) (hs : s.Rests) (hr : s.recs[k]? = some r) : r.parked = false := by
  refine Bool.eq_false_iff.mpr fun hp => ?_
  have hinst := hi.parked k r hr hp
  have hc := hs.caller hr false
  have hw := hs.watcher hr false
  have ho := hs.out hr
  have hpu := hs.pump hr false
  rw [hinst] at hc hw ho hpu
  simp only [Rec.parked, Bool.or_eq_true] at hp
  rcases hp with ((hp | hp) | hp) | hp
  · cases hr : r.caller with
    | gettingConn => simp [callerStep, hr] at hc
    | cancelling w | crediting w => cases w <;> simp [callerStep, hr] at hc
    | _ => simp [hr, Caller.parked] at hp
  · cases hr : r.watcher with
    | cancelling w => cases w <;> simp [watcherStep, hr] at hw
    | _ => simp [hr, Watcher.parked] at hp
  · cases hr : r.out with
    | gettingConn last => simp [outStep, hr] at ho
    | _ => simp [hr, Out.parked] at hp
  · cases hr : r.pump with
    | granting w => cases w <;> simp [pumpStep, hr] at hpu
    | _ => simp [hr, Pump.parked] at hp

theorem Inv.clean (hi : Inv s) (hp : s.phase = .cleared ∨ s.phase = .returned) (hs : s.Rests) : s.Clean :=
  ⟨fun _ _ hr => hi.released hp hs hr, fun _ _ hr => hi.unparked hs hr, hs.procs hi⟩

/-- A step that is not settled leaves a request or a response loop waiting. -/
theorem settled_of_clean (h : step s e = some t) (hc : t.Clean) : settled s e = true := by
  cases e with
  | close =>
    simp only [step] at h
    cases hp : s.phase with
    | flagged =>
      simp only [hp] at h
      cases h
      simp only [settled, Bool.or_eq_true, Bool.and_eq_true, List.all_eq_true]
      refine .inr ⟨fun k _ => ?_, fun q hq => ?_⟩
      · cases hr : s.recs[k]? with
        | none => rfl
        | some r => simp [St.ends, (hc.released k r hr).closed, hc.parked k r hr]
      · have hnil : s.procs = [] := hc.procs
        rw [hnil] at hq
        cases hq
    | idle | cleared | returned => simp [settled, hp]
  | begin kind watched =>
    cases h
    -- the caller of the new request has yet to send it
    have hlast := hc.released s.recs.length (.fresh kind watched) (by simp)
    obtain ⟨ok, hok⟩ := hlast.caller
    cases hok
  | put k last =>
    obtain ⟨r, hr, h⟩ := Option.bind_eq_some_iff.mp h
    split at h
    · cases h
      cases last with
      | false => rfl
      | true => exact absurd rfl ((hc.released k _ (setRec_here hr)).conn true)
    · cases h
  | out k =>
    obtain ⟨r, hr, h⟩ := Option.bind_eq_some_iff.mp h
    obtain ⟨r', hs, rfl⟩ := Option.map_eq_some_iff.mp h
    have hout := hc.released k r' (setRec_here hr)
    simp only [settled, hr, Option.all_some, Bool.or_eq_true]
    refine .inr ?_
    by_cases ho : r.out = .acquiring
    · simp only [outStep, ho] at hs
      split at hs
      · rename_i hcl
        exact .inl (.inr hcl)
      · split at hs
        · cases hs
          exact absurd rfl (hout.conn false)
        · cases hs
    · exact .inl (.inl (by simpa using ho))
  | _ => rfl

/-- Of a step that the client rests after: it was settled exactly when nothing is left behind. -/
theorem settled_iff_clean (h : sys.Reach (fun s e => settled s e = true) s) (hst : step s e = some t)
    (hp : t.phase = .cleared ∨ t.phase = .returned) (hs : t.Rests) : settled s e = true ↔ t.Clean :=
  ⟨fun hd => (inv_step (inv_reach h) hd hst).clean hp hs, settled_of_clean hst⟩

/-! ## What is left behind -/

def unanswered : List Ev := calls 0 .unary ++ closes

def unsent : List Ev := ([.begin .unary false] : List Ev) ++ closes

def established : List Ev :=
  calls 0 .chat ++ answers 0 .ready ++
  ([.pump 0 false, .caller 0 false, .caller 0 false, .caller 0 false, .out 0, .put 0 false] : List Ev) ++ closes

/-- A put-stream that is over; its `streamOut` finds `putCh` closed after `Close`. -/
def endedLate : List Ev :=
  calls 0 .putStream ++ answers 0 .ready ++ ([.caller 0 false, .out 0] : List Ev) ++ answers 0 .error ++ closes ++
    ([.put 0 true] : List Ev)

/-- After `run`, `Close` has returned, nothing moves, and the request has `P`. -/
def Stranded (run : List Ev) (P : Rec → Bool) : Prop :=
  ∃ s r, sys.Reach Sys.any s ∧ sys.exec Sys.any start run = some s ∧ s.phase = .returned ∧ s.Stuck ∧
    s.recs[0]? = some r ∧ P r = true

theorem stranded_of {run : List Ev} {P : Rec → Bool}
    (h : (sys.exec Sys.any start run).any (fun s =>
      decide (s.phase = .returned ∧ s.still = true ∧ s.recs[0]?.any P = true)) = true) : Stranded run P := by
  obtain ⟨s, hr, hs, hp, hstill, hrec⟩ := Sys.reach_exec sys Sys.any start rfl run h
  cases h0 : s.recs[0]? with
  | none =>
    rw [h0] at hrec
    cases hrec
  | some r =>
    rw [h0] at hrec
    exact ⟨s, r, hr, hs, hp, stuck_of_still hstill, h0, hrec⟩

/-- The caller, the channel, the `streamOut`: each can be left waiting for good. -/
theorem close_strands :
    Stranded unanswered (fun r => !r.closed && decide (r.caller = .waiting) && decide (r.ends = 0)) ∧
    Stranded unsent (fun r => !r.closed && decide (r.caller = .gettingConn)) ∧
    Stranded established (fun r => !r.closed && !r.chanClosed && decide (r.out = .acquiring)) ∧
    Stranded endedLate (fun r => r.closed && decide (r.out = .gettingConn true)) := by
  refine ⟨?_, ?_, ?_, ?_⟩
  · exact stranded_of (by decide +kernel)
  · exact stranded_of (by decide +kernel)
  · exact stranded_of (by decide +kernel)
  · exact stranded_of (by decide +kernel)

end ValueRpc.Client.Closing
