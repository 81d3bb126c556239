/-
  ValueRpc.Call.RetryProofs — when an attempt that `Retry` may repeat was not executed.

  As built it may have been: `Reconnect` fails an attempt with a retryable code whether its
  request is still to be sent, in flight, being executed or answered
  (`retried_after_execution`). With `Reconnect` disposing only of attempts whose request was
  handed to a connection and lost (`disposesLost`), an attempt reported with a retryable code
  of the library is `Void`: nothing of it is left that could run the handler, and nothing
  ran it. So one call runs the handler at most once, unless the handler itself fails with
  such a code (`at_most_once`).
-/

import ValueRpc.Call.Retry

namespace ValueRpc.Call

open ValueRpc.Core ValueRpc.Lib

variable {c : Cfg} {s t : St} {e : Ev} {k : Nat} {x : CallErr} {conn : Nat} {m : Nat} {r : Rec}

/-! ## An attempt that never runs -/

/-- The attempt's request is gone: handed over, not in flight, not to be replayed, not with
    the server, and never executed. -/
structure Void (s : St) (k : Nat) : Prop where
  handed : k ∈ s.handed
  wire : ∀ x ∈ s.wire, x.2 ≠ k
  replay : k ∉ s.replay
  serving : k ∉ s.serving
  runs : k ∉ s.runs
  gone : (s.recs k).inMap = false ∨ k ∈ s.seen

def Pc.past : Pc → Bool
  | .waiting => true
  | .backoff => true
  | .returned => true
  | _ => false

def onWire (s : St) (k : Nat) : Nat := s.wire.countP fun x => x.2 == k

structure Books (s : St) : Prop where
  pos : 1 ≤ s.attempt
  handed : ∀ k ∈ s.handed, 1 ≤ k ∧ k ≤ s.attempt ∧ (k = s.attempt → s.pc.past = true)
  unsent : ∀ k, k ∉ s.handed → onWire s k + s.replay.count k + s.seen.count k = 0
  once : ∀ k, onWire s k + s.replay.count k + s.seen.count k ≤ 1
  used : ∀ k, s.serving.count k + s.runs.count k ≤ s.seen.count k

theorem books_start : Books start := by
  refine ⟨Nat.le_refl _, ?_, ?_, ?_, ?_⟩
  · intro k hk; cases hk
  all_goals intro k; simp [start, onWire]

/-- A request handed to a connection, at the end of the wire or dropped. -/
theorem onWire_send (conn k' : Nat) (w : List (Nat × Nat)) (hw : w = s.wire ∨ w = s.wire ++ [(conn, k')])
    (k : Nat) : w.countP (fun x => x.2 == k) ≤ onWire s k + if k = k' then 1 else 0 := by
  unfold onWire
  rcases hw with rfl | rfl
  · omega
  · rw [List.countP_append, List.countP_singleton]
    by_cases hk : k = k'
    · subst hk; simp
    · have : ((conn, k').2 == k) = false := by simp [Ne.symm hk]
      simp [this, hk]

theorem sendOn_cases (s : St) (conn k : Nat) :
    sendOn s conn k = s.wire ∨ sendOn s conn k = s.wire ++ [(conn, k)] := by
  unfold sendOn
  split
  · exact .inl rfl
  · exact .inr rfl

theorem mem_sendOn {x : Nat × Nat} (h : x ∈ sendOn s conn k) : x ∈ s.wire ∨ x.2 = k := by
  rcases sendOn_cases s conn k with he | he <;> rw [he] at h
  · exact .inl h
  · rcases List.mem_append.mp h with h | h
    · exact .inl h
    · exact .inr (by rw [List.mem_singleton.mp h])

theorem Books.read (h : Books s) {rest : List (Nat × Nat)} (ht : takeFrom conn s.wire = some (m, rest)) :
    m ∈ s.handed ∧ (∀ x ∈ rest, x.2 ≠ m) ∧ m ∉ s.replay ∧ m ∉ s.seen ∧ m ∉ s.serving ∧ m ∉ s.runs ∧
      ∀ k, rest.countP (fun x => x.2 == k) + (if k = m then 1 else 0) = onWire s k := by
  have hc : ∀ k, onWire s k = rest.countP (fun x => x.2 == k) + (m == k).toNat :=
    fun k => countP_take ht fun y => y == k
  have hm := hc m
  have ho := h.once m
  have hu := h.used m
  simp only [beq_self_eq_true, Bool.toNat_true] at hm
  have h0 : rest.countP (fun x => x.2 == m) = 0 := by omega
  have hr : s.replay.count m = 0 := by omega
  have hs : s.seen.count m = 0 := by omega
  have hv : s.serving.count m = 0 := by omega
  have hn : s.runs.count m = 0 := by omega
  refine ⟨?_, ?_, List.count_eq_zero.mp hr, List.count_eq_zero.mp hs, List.count_eq_zero.mp hv,
    List.count_eq_zero.mp hn, ?_⟩
  · by_contra hne
    have := h.unsent m hne
    omega
  · intro x hx he
    have := List.countP_eq_zero.mp h0 x hx
    simp [he] at this
  · intro k
    rw [hc k]
    by_cases hk : k = m
    · subst hk; simp
    · have : (m == k) = false := by simp [Ne.symm hk]
      simp [this, hk]

theorem Books.readNext (h : Books s) {rest : List (Nat × Nat)} {serving : List Nat}
    {back : List (Nat × Resp)} (ht : takeFrom conn s.wire = some (m, rest))
    (hs : ∀ k, serving.count k ≤ s.serving.count k + if k = m then 1 else 0) :
    Books { s with wire := rest, seen := s.seen ++ [m], serving := serving, back := back } := by
  obtain ⟨hm, -, -, -, -, -, hc⟩ := h.read ht
  refine ⟨h.pos, h.handed, ?_, ?_, ?_⟩
  · intro k hn
    have hne : m ≠ k := fun he => hn (he ▸ hm)
    have h1 := hc k
    have h2 := h.unsent k hn
    simp only [onWire, List.count_append, List.count_singleton, beq_iff_eq, if_neg hne] at h1 h2 ⊢
    omega
  · intro k
    have h1 := hc k
    have h2 := h.once k
    simp only [onWire, List.count_append, List.count_singleton, beq_iff_eq, eq_comm (a := m)] at h1 h2 ⊢
    omega
  · intro k
    have h1 := h.used k
    have h2 := hs k
    simp only [List.count_append, List.count_singleton, beq_iff_eq, eq_comm (a := m)] at h2 ⊢
    omega

/-! ## What a step does -/

structure Kept (s t : St) : Prop where
  wire : t.wire = s.wire
  replay : t.replay = s.replay
  seen : t.seen = s.seen
  serving : t.serving = s.serving
  runs : t.runs = s.runs
  handed : t.handed = s.handed
  attempt : t.attempt = s.attempt
  handlerCodes : t.handlerCodes = s.handlerCodes

inductive Calm (c : Cfg) (s : St) (e : Ev) : St → Prop
  | goto {pc : Pc} {n : Nat} : (s.pc.past = true → pc.past = true) → pc ≠ .backoff →
      Calm c s e { s with pc := pc, lastRequest := n }
  /-- `Reconnect` moves on, or a connection is installed. -/
  | conns {installed : Option Nat} {n : Nat} {dead : List Nat} {phase : Phase} :
      Calm c s e { s with installed := installed, nextConn := n, dead := dead, phase := phase }
  | dropped {y : Nat × Resp} {rest : List (Nat × Resp)} : s.back = y :: rest → Calm c s e { s with back := rest }
  | register : s.pc = .registering →
      Calm c s e { setRec s s.attempt { Rec.none with inMap := true } with pc := .gettingConn }
  | report {o : Option CallErr} : o = none ∨ o = some .uncoded → Calm c s e (report c s o)
  | fails {err : CallErr} : err = .uncoded ∨ (s.recs s.attempt).resultErr = some err → Calm c s e (fails c s err)
  | fail {k : Nat} : e = .fail k → Calm c s e (failRequest s k)
  | deliver {k : Nat} {r : Resp} {rest : List (Nat × Resp)} : s.back = (k, r) :: rest →
      Calm c s e { setRec s k (processResponse (s.recs k) r) with back := rest }
  | delete {k : Nat} : Calm c s e (setRec s k { s.recs k with inMap := false })

inductive Moves (c : Cfg) (s : St) (e : Ev) (t : St) : Prop
  | calm : Calm c s e t → Moves c s e t
  | next : s.pc = .backoff → t = { s with pc := .ensuring, attempt := s.attempt + 1 } → Moves c s e t
  | send {conn : Nat} : s.pc = .sending conn →
      t = { s with pc := .waiting, wire := sendOn s conn s.attempt, handed := s.handed ++ [s.attempt] } → Moves c s e t
  | collect {k : Nat} : e = .collect k → c.replayUnary = true → (s.recs k).inMap = true → k ∉ s.replay →
      t = { s with replay := s.replay ++ [k] } → Moves c s e t
  | resend {k conn : Nat} : k ∈ s.replay →
      t = { s with replay := s.replay.erase k, wire := sendOn s conn k } → Moves c s e t
  | failReplay {k : Nat} : e = .failReplay k → k ∈ s.replay →
      t = { failRequest s k with replay := s.replay.erase k } → Moves c s e t
  | cut {conn : Nat} : t = { s with dead := conn :: s.dead, wire := s.wire.filter fun x => x.1 ≠ conn } → Moves c s e t
  | readBusy {conn m : Nat} {rest : List (Nat × Nat)} : e = .readBusy conn → takeFrom conn s.wire = some (m, rest) →
      t = { s with wire := rest, seen := s.seen ++ [m], back := s.back ++ [(m, .error errBusy)] } → Moves c s e t
  | readServe {conn m : Nat} {rest : List (Nat × Nat)} : takeFrom conn s.wire = some (m, rest) →
      t = { s with wire := rest, seen := s.seen ++ [m], serving := s.serving ++ [m] } → Moves c s e t
  | refuse {k : Nat} {code : Code} : k ∈ s.serving → retryableCode code = false →
      t = { s with serving := s.serving.erase k, back := s.back ++ [(k, .error (.coded .library code))] } →
        Moves c s e t
  | run {k : Nat} {o : Outcome} {codes : List Code} : k ∈ s.serving → (∀ x ∈ s.handlerCodes, x ∈ codes) →
      (∀ code, o = .failed code → code ∈ codes) →
      t = { s with
        serving := s.serving.erase k
        runs := s.runs ++ [k]
        back := s.back ++ [(k, o.resp)]
        handlerCodes := codes } → Moves c s e t

theorem errorOr_cases (s : St) : errorOr s = .uncoded ∨ (s.recs s.attempt).resultErr = some (errorOr s) := by
  unfold errorOr
  cases (s.recs s.attempt).resultErr with
  | none => exact .inl rfl
  | some x => exact .inr rfl

theorem step_moves (hst : step c s e = some t) : Moves c s e t := by
  cases e with
  | ensured =>
    simp only [step] at hst
    split at hst
    · rename_i hp _
      cases hst
      exact .calm (.goto (by rw [hp]; intro h; cases h) (by intro h; cases h))
    · cases hst
  | dialFailed => simp only [step] at hst; split at hst <;> cases hst; exact .calm (.report (.inr rfl))
  | register => simp only [step] at hst; split at hst <;> cases hst; exact .calm (.register ‹_›)
  | getConn =>
    simp only [step] at hst
    split at hst
    · rename_i hp _
      cases hst
      exact .calm (.goto (by rw [hp]; intro h; cases h) (by intro h; cases h))
    · cases hst
  | send => simp only [step] at hst; split at hst <;> cases hst; exact .send ‹_› rfl
  | takeResult =>
    simp only [step] at hst
    split at hst
    · split at hst <;> cases hst; exact .calm (.report (.inl rfl))
    · cases hst
  | takeClosed =>
    simp only [step] at hst
    split at hst
    · split at hst <;> cases hst; exact .calm (.fails (errorOr_cases s))
    · cases hst
  | timeout => simp only [step] at hst; split at hst <;> cases hst; exact .calm (.fails (errorOr_cases s))
  | ctxDone => simp only [step] at hst; split at hst <;> cases hst; exact .calm (.fails (.inl rfl))
  | nextAttempt => simp only [step] at hst; split at hst <;> cases hst; exact .next ‹_› rfl
  | giveUp =>
    simp only [step] at hst
    split at hst <;> cases hst
    exact .calm (.goto (fun _ => rfl) (by intro h; cases h))
  | reset => simp only [step] at hst; split at hst <;> cases hst; exact .calm .conns
  | fail k =>
    simp only [step] at hst
    split at hst
    · split at hst <;> cases hst; exact .calm (.fail rfl)
    · cases hst
  | collect k =>
    simp only [step] at hst
    split at hst
    · split at hst
      · rename_i hc
        cases hst; exact .collect rfl hc.2.2.1 hc.2.1 hc.2.2.2 rfl
      · cases hst
    · cases hst
  | ranged =>
    simp only [step] at hst
    split at hst
    · split at hst <;> cases hst; exact .calm .conns
    · cases hst
  | connect => simp only [step] at hst; split at hst <;> cases hst; exact .calm .conns
  | resend k =>
    simp only [step] at hst
    split at hst
    · split at hst <;> cases hst; exact .resend ‹_› rfl
    · cases hst
  | failReplay k =>
    simp only [step] at hst
    split at hst
    · split at hst <;> cases hst; exact .failReplay rfl ‹_› rfl
    · cases hst
  | reconnected => simp only [step] at hst; split at hst <;> cases hst; exact .calm .conns
  | cut conn => cases hst; exact .cut rfl
  | readBusy conn =>
    simp only [step, Option.map_eq_some_iff] at hst
    obtain ⟨⟨m, rest⟩, ht, rfl⟩ := hst
    exact .readBusy rfl ht rfl
  | readServe conn =>
    simp only [step, Option.map_eq_some_iff] at hst
    obtain ⟨⟨m, rest⟩, ht, rfl⟩ := hst
    exact .readServe ht rfl
  | refuse k notFound =>
    simp only [step] at hst
    split at hst <;> cases hst
    exact .refuse ‹_› (by split <;> rfl) rfl
  | runHandler k o =>
    simp only [step] at hst
    split at hst <;> cases hst
    refine .run ‹_› (fun x hx => ?_) (fun code ho => ?_) rfl
    · split
      · exact List.mem_append_left _ hx
      · exact hx
    · subst ho; simp
  | deliverBack =>
    simp only [step] at hst
    split at hst
    · rename_i k r rest hb
      cases hst
      split
      · exact .calm (.deliver hb)
      · exact .calm (.dropped hb)
    · cases hst
  | loseBack =>
    simp only [step] at hst
    split at hst
    · rename_i y rest hb
      cases hst; exact .calm (.dropped hb)
    · cases hst
  | delete k => simp only [step] at hst; split at hst <;> cases hst; exact .calm .delete

theorem Calm.kept (h : Calm c s e t) : Kept s t := by
  cases h <;> exact ⟨rfl, rfl, rfl, rfl, rfl, rfl, rfl, rfl⟩

theorem report_past (c : Cfg) (s : St) (o : Option CallErr) : (report c s o).pc.past = true := by
  unfold report
  dsimp only
  split
  · rfl
  · split <;> rfl

theorem setRec_inMap (hr : r.inMap = true → (s.recs k).inMap = true) (j : Nat)
    (h : ((setRec s k r).recs j).inMap = true) : (s.recs j).inMap = true := by
  unfold setRec at h
  by_cases hj : j = k
  · subst hj
    exact hr (by simpa using h)
  · simpa [Function.update_of_ne hj] using h

theorem processResponse_inMap (r : Rec) (x : Resp) :
    (processResponse r x).inMap = r.inMap := by cases x <;> rfl

/-- A call past `SendRequest` stays there within the attempt. -/
theorem Calm.past (h : Calm c s e t) (hp : s.pc.past = true) : t.pc.past = true := by
  cases h with
  | goto hpc _ => exact hpc hp
  | register hr => rw [hr] at hp; cases hp
  | report _ => exact report_past _ _ _
  | fails _ => exact report_past _ _ _
  | _ => exact hp

/-- A record may leave the map, and the attempt's own enters it. -/
theorem Calm.inMap (h : Calm c s e t) {j : Nat} (hj : (t.recs j).inMap = true) :
    (s.recs j).inMap = true ∨ j = s.attempt ∧ s.pc.past = false := by
  cases h with
  | register hr =>
    by_cases hja : j = s.attempt
    · exact .inr ⟨hja, by rw [hr]; rfl⟩
    · exact .inl (by simpa [setRec, Function.update_of_ne hja] using hj)
  | fails _ =>
    exact .inl (setRec_inMap (k := s.attempt) (r := { s.recs s.attempt with resultErr := _, closed := true }) id j hj)
  | @fail k _ => exact .inl (setRec_inMap (k := k) (by simp) j hj)
  | @deliver k r _ _ => exact .inl (setRec_inMap (k := k) (by rw [processResponse_inMap]; exact id) j hj)
  | @delete k => exact .inl (setRec_inMap (k := k) (by simp) j hj)
  | _ => exact .inl hj

theorem disposesLost_collect (h : disposesLost s (.collect k) = true) :
    k ∈ s.handed ∧ k ∉ s.seen ∧ onWire s k = 0 := by
  simp only [disposesLost, Bool.and_eq_true, List.contains_iff_mem, Bool.not_eq_eq_eq_not, Bool.not_true,
    List.any_eq_false] at h
  refine ⟨h.1.1, ?_, List.countP_eq_zero.mpr h.2⟩
  intro hm
  have := h.1.2
  simp [hm] at this

/-- The requests of an attempt only get fewer: those of a lost connection, or the one to be
    replayed. -/
theorem Books.fewer (h : Books s) (ha : t.attempt = s.attempt) (hp : t.pc = s.pc) (hh : t.handed = s.handed)
    (hs : t.seen = s.seen) (hv : t.serving = s.serving) (hr : t.runs = s.runs)
    (hle : ∀ k, onWire t k + t.replay.count k ≤ onWire s k + s.replay.count k) : Books t := by
  refine ⟨by rw [ha]; exact h.pos, by rw [ha, hp, hh]; exact h.handed, ?_, ?_, by rw [hv, hr, hs]; exact h.used⟩
  · intro k hk
    have h1 := hle k
    have h2 := h.unsent k (hh ▸ hk)
    rw [hs]
    omega
  · intro k
    have h1 := hle k
    have h2 := h.once k
    rw [hs]
    omega

theorem Books.calm (h : Books s) (hc : Calm c s e t) : Books t := by
  have hk := hc.kept
  refine ⟨by rw [hk.attempt]; exact h.pos, ?_, ?_, ?_, ?_⟩
  · intro k hm
    obtain ⟨h1, h2, h3⟩ := h.handed k (hk.handed ▸ hm)
    exact ⟨h1, hk.attempt ▸ h2, fun he => hc.past (h3 (he.trans hk.attempt))⟩
  · intro k hn
    simpa [onWire, hk.wire, hk.replay, hk.seen] using h.unsent k (hk.handed ▸ hn)
  · intro k
    simpa [onWire, hk.wire, hk.replay, hk.seen] using h.once k
  · intro k
    simpa [hk.serving, hk.runs, hk.seen] using h.used k

theorem Books.send (h : Books s) (hp : s.pc = .sending conn) :
    Books { s with pc := .waiting, wire := sendOn s conn s.attempt, handed := s.handed ++ [s.attempt] } := by
  have hnew : s.attempt ∉ s.handed := by
    intro hm
    have := (h.handed _ hm).2.2 rfl
    rw [hp] at this; cases this
  have hzero := h.unsent _ hnew
  have hwire := onWire_send conn s.attempt (sendOn s conn s.attempt) (sendOn_cases s conn s.attempt)
  refine ⟨h.pos, ?_, ?_, ?_, h.used⟩
  · intro k hk
    rcases List.mem_append.mp hk with hk | hk
    · obtain ⟨h1, h2, -⟩ := h.handed k hk
      exact ⟨h1, h2, fun _ => rfl⟩
    · cases List.mem_singleton.mp hk
      exact ⟨h.pos, Nat.le_refl _, fun _ => rfl⟩
  · intro k hk
    simp only [List.mem_append, List.mem_singleton, not_or] at hk
    have h1 := hwire k
    have h2 := h.unsent k hk.1
    rw [if_neg hk.2] at h1
    simp only [onWire] at h1 h2 ⊢
    omega
  · intro k
    have h1 := hwire k
    have h2 := h.once k
    simp only [onWire] at h1 h2 hzero ⊢
    split at h1
    · rename_i he; subst he; omega
    · omega

theorem Books.collect (h : Books s) (hh : k ∈ s.handed) (hs : k ∉ s.seen) (hw : onWire s k = 0)
    (hr : k ∉ s.replay) : Books { s with replay := s.replay ++ [k] } := by
  have hr := List.count_eq_zero.mpr hr
  have hs := List.count_eq_zero.mpr hs
  refine ⟨h.pos, h.handed, ?_, ?_, h.used⟩
  · intro j hj
    have hne : j ≠ k := fun he => hj (he ▸ hh)
    simpa [onWire, List.count_append, List.count_singleton, Ne.symm hne] using h.unsent j hj
  · intro j
    have h1 := h.once j
    simp only [onWire, List.count_append, List.count_singleton] at h1 hw ⊢
    split
    · rename_i he
      have he := beq_iff_eq.mp he
      subst he; omega
    · omega

/-- A serving goroutine ends, with the handler run or not. -/
theorem Books.serves (h : Books s) (hk : k ∈ s.serving) {runs : List Nat} {back : List (Nat × Resp)}
    {codes : List Code} (hr : runs = s.runs ∨ runs = s.runs ++ [k]) :
    Books { s with serving := s.serving.erase k, runs := runs, back := back, handlerCodes := codes } := by
  have hpos := List.count_pos_iff.mpr hk
  refine ⟨h.pos, h.handed, h.unsent, h.once, ?_⟩
  intro j
  have h1 := h.used j
  dsimp only
  rw [List.count_erase]
  rcases hr with rfl | rfl
  · omega
  · rw [List.count_append, List.count_singleton]
    split
    · rename_i he
      have he := beq_iff_eq.mp he
      subst he; omega
    · omega

theorem books_step (h : Books s) (hok : disposesLost s e = true) (hst : step c s e = some t) : Books t := by
  cases step_moves hst with
  | calm hc => exact h.calm hc
  | next _ ht =>
    subst ht
    refine ⟨by dsimp only; omega, ?_, h.unsent, h.once, h.used⟩
    intro k hk
    obtain ⟨h1, h2, -⟩ := h.handed k hk
    exact ⟨h1, by dsimp only; omega, fun he => by dsimp only at he; omega⟩
  | send hp ht => subst ht; exact h.send hp
  | collect he _ _ hnew ht =>
    subst he ht
    obtain ⟨hh, hs, hw⟩ := disposesLost_collect hok
    exact h.collect hh hs hw hnew
  | @resend k' conn hk ht =>
    subst ht
    have hpos := List.count_pos_iff.mpr hk
    refine h.fewer rfl rfl rfl rfl rfl rfl (fun k => ?_)
    -- what goes on the wire was in the list
    have h1 := onWire_send conn k' (sendOn s conn k') (sendOn_cases s conn k') k
    simp only [onWire, List.count_erase] at h1 ⊢
    split at h1
    · rename_i he; subst he; simp; omega
    · omega
  | @failReplay k' _ hk ht =>
    subst ht
    refine h.fewer rfl rfl rfl rfl rfl rfl (fun k => Nat.add_le_add_left ?_ _)
    exact List.Sublist.count_le k List.erase_sublist
  | @cut conn ht =>
    subst ht
    exact h.fewer rfl rfl rfl rfl rfl rfl fun k =>
      Nat.add_le_add_right (List.Sublist.countP_le List.filter_sublist) _
  | readBusy _ htake ht =>
    subst ht
    exact h.readNext htake (fun _ => Nat.le_add_right _ _)
  | readServe htake ht =>
    subst ht
    refine h.readNext htake (fun k => ?_)
    rw [List.count_append, List.count_singleton]
    simp only [beq_iff_eq, eq_comm (b := k)]
    omega
  | refuse hk _ ht => subst ht; exact h.serves hk (.inl rfl)
  | run hk _ _ ht => subst ht; exact h.serves hk (.inr rfl)

theorem void_step (h : Books s) (hok : disposesLost s e = true) (hst : step c s e = some t) (hv : Void s k) :
    Void t k := by
  have hpast : k = s.attempt → s.pc.past = true := (h.handed k hv.handed).2.2
  cases step_moves hst with
  | calm hc =>
    have hk := hc.kept
    refine ⟨hk.handed ▸ hv.handed, hk.wire ▸ hv.wire, hk.replay ▸ hv.replay, hk.serving ▸ hv.serving,
      hk.runs ▸ hv.runs, ?_⟩
    rcases hv.gone with hg | hg
    · refine .inl (Bool.eq_false_iff.mpr fun ht => ?_)
      rcases hc.inMap ht with hm | ⟨he, hp⟩
      · rw [hg] at hm; cases hm
      · rw [hpast he] at hp; cases hp
    · exact .inr (hk.seen ▸ hg)
  | next _ ht => subst ht; exact ⟨hv.handed, hv.wire, hv.replay, hv.serving, hv.runs, hv.gone⟩
  | send hp ht =>
    subst ht
    refine ⟨List.mem_append_left _ hv.handed, ?_, hv.replay, hv.serving, hv.runs, hv.gone⟩
    intro x hx
    rcases mem_sendOn hx with hx | hx
    · exact hv.wire x hx
    · intro he
      have := hpast (he.symm.trans hx)
      rw [hp] at this; cases this
  | collect he _ hm _ ht =>
    subst he ht
    obtain ⟨-, hs, -⟩ := disposesLost_collect hok
    refine ⟨hv.handed, hv.wire, ?_, hv.serving, hv.runs, hv.gone⟩
    intro hr
    rcases List.mem_append.mp hr with hr | hr
    · exact hv.replay hr
    · -- a void attempt's record is gone, or the server has read its request
      cases List.mem_singleton.mp hr
      rcases hv.gone with hg | hg
      · rw [hg] at hm; cases hm
      · exact hs hg
  | resend hk ht =>
    subst ht
    refine ⟨hv.handed, ?_, fun hr => hv.replay (List.mem_of_mem_erase hr), hv.serving, hv.runs, hv.gone⟩
    intro x hx
    rcases mem_sendOn hx with hx | hx
    · exact hv.wire x hx
    · intro he
      exact hv.replay ((he.symm.trans hx) ▸ hk)
  | @failReplay k' _ hk ht =>
    subst ht
    refine ⟨hv.handed, hv.wire, fun hr => hv.replay (List.mem_of_mem_erase hr), hv.serving, hv.runs, ?_⟩
    rcases hv.gone with hg | hg
    · refine .inl (Bool.eq_false_iff.mpr fun ht => ?_)
      have := setRec_inMap (k := k') (by simp) k ht
      rw [hg] at this; cases this
    · exact .inr hg
  | cut ht =>
    subst ht
    exact ⟨hv.handed, fun x hx => hv.wire x (List.mem_filter.mp hx).1, hv.replay, hv.serving, hv.runs, hv.gone⟩
  | readBusy _ htake ht =>
    subst ht
    exact ⟨hv.handed, fun x hx => hv.wire x ((mem_of_take htake).2 x hx), hv.replay, hv.serving, hv.runs,
      hv.gone.imp_right (List.mem_append_left _)⟩
  | readServe htake ht =>
    subst ht
    refine ⟨hv.handed, fun x hx => hv.wire x ((mem_of_take htake).2 x hx), hv.replay, ?_, hv.runs,
      hv.gone.imp_right (List.mem_append_left _)⟩
    intro hm
    rcases List.mem_append.mp hm with hm | hm
    · exact hv.serving hm
    · exact hv.wire _ (mem_of_take htake).1 (List.mem_singleton.mp hm).symm
  | refuse _ _ ht =>
    subst ht
    exact ⟨hv.handed, hv.wire, hv.replay, fun hm => hv.serving (List.mem_of_mem_erase hm), hv.runs, hv.gone⟩
  | run hk _ _ ht =>
    subst ht
    refine ⟨hv.handed, hv.wire, hv.replay, fun hm => hv.serving (List.mem_of_mem_erase hm), ?_, hv.gone⟩
    intro hm
    rcases List.mem_append.mp hm with hm | hm
    · exact hv.runs hm
    · exact hv.serving (List.mem_singleton.mp hm ▸ hk)

/-! ## Errors and reports -/

/-- What an error of attempt `k` says: a retryable one of the library, that the attempt is
    void; one of the handler, that the handler failed so. -/
def ErrOk (s : St) (k : Nat) : CallErr → Prop
  | .coded .library code => retryableCode code = true → Void s k
  | .coded .handler code => code ∈ s.handlerCodes
  | .uncoded => True

theorem step_handlerCodes (hst : step c s e = some t) : ∀ x ∈ s.handlerCodes, x ∈ t.handlerCodes := by
  cases step_moves hst with
  | calm hc => rw [hc.kept.handlerCodes]; exact fun _ h => h
  | run _ hc _ ht => subst ht; exact hc
  | next _ ht => subst ht; exact fun _ h => h
  | send _ ht => subst ht; exact fun _ h => h
  | collect _ _ _ _ ht => subst ht; exact fun _ h => h
  | resend _ ht => subst ht; exact fun _ h => h
  | failReplay _ _ ht => subst ht; exact fun _ h => h
  | cut ht => subst ht; exact fun _ h => h
  | readBusy _ _ ht => subst ht; exact fun _ h => h
  | readServe _ ht => subst ht; exact fun _ h => h
  | refuse _ _ ht => subst ht; exact fun _ h => h

theorem ErrOk.step (h : Books s) (hok : disposesLost s e = true) (hst : step c s e = some t)
    (hx : ErrOk s k x) : ErrOk t k x := by
  match x with
  | .coded .library code => exact fun hr => void_step h hok hst (hx hr)
  | .coded .handler code => exact step_handlerCodes hst code hx
  | .uncoded => trivial

/-- An error of attempt `k` anywhere: in its record, in a response, or reported. -/
def Known (s : St) (k : Nat) (x : CallErr) : Prop :=
  (s.recs k).resultErr = some x ∨ (k, .error x) ∈ s.back ∨ (k, some x) ∈ s.reports

inductive Origin (s : St) (e : Ev) (t : St) (k : Nat) (x : CallErr) : Prop
  | known : Known s k x → Origin s e t k x
  | uncoded : x = .uncoded → Origin s e t k x
  | lost : x = errConnectionLost → (t.recs k).inMap = false → e = .fail k ∨ e = .failReplay k ∧
      k ∈ s.replay → Origin s e t k x
  | busy {conn : Nat} {rest : List (Nat × Nat)} : x = errBusy → takeFrom conn s.wire = some (k, rest) →
      e = .readBusy conn → Origin s e t k x
  | handler {code : Code} : x = .coded .handler code → code ∈ t.handlerCodes → Origin s e t k x
  | other {code : Code} : x = .coded .library code → retryableCode code = false → Origin s e t k x

theorem setRec_resultErr (j : Nat) (h : ((setRec s k r).recs j).resultErr = some x) :
    (j = k ∧ r.resultErr = some x) ∨ (s.recs j).resultErr = some x := by
  unfold setRec at h
  by_cases hj : j = k
  · subst hj
    exact .inl ⟨rfl, by simpa using h⟩
  · exact .inr (by simpa [Function.update_of_ne hj] using h)

theorem Known.setRec {k' : Nat} (h : Known t k x) (ht : t.recs = (setRec s k' r).recs)
    (hb : ∀ y ∈ t.back, y ∈ s.back) (hr : t.reports = s.reports) :
    Known s k x ∨ k = k' ∧ r.resultErr = some x := by
  rcases h with h | h | h
  · rcases setRec_resultErr k (ht ▸ h) with h | h
    · exact .inr h
    · exact .inl (.inl h)
  · exact .inl (.inr (.inl (hb _ h)))
  · exact .inl (.inr (.inr (hr ▸ h)))

theorem Known.reply {r : Resp} (h : Known t k x) (ht : t.recs = s.recs)
    (hb : t.back = s.back ++ [(m, r)]) (hr : t.reports = s.reports) : Known s k x ∨ k = m ∧ r = .error x := by
  rcases h with h | h | h
  · exact .inl (.inl (ht ▸ h))
  · rcases List.mem_append.mp (hb ▸ h) with h | h
    · exact .inl (.inr (.inl h))
    · obtain ⟨hk, hx⟩ := Prod.mk.inj (List.mem_singleton.mp h)
      exact .inr ⟨hk, hx.symm⟩
  · exact .inl (.inr (.inr (hr ▸ h)))

theorem Known.report {o : Option CallErr} (h : Known (report c s o) k x) :
    Known s k x ∨ k = s.attempt ∧ o = some x := by
  rcases h with h | h | h
  · exact .inl (.inl h)
  · exact .inl (.inr (.inl h))
  · rcases List.mem_append.mp h with h | h
    · exact .inl (.inr (.inr h))
    · obtain ⟨hk, hx⟩ := Prod.mk.inj (List.mem_singleton.mp h)
      exact .inr ⟨hk, hx.symm⟩

theorem Calm.origin (hc : Calm c s e t) (h : Known t k x) : Origin s e t k x := by
  cases hc with
  | goto _ _ => exact .known h
  | conns => exact .known h
  | dropped hb => exact .known (h.imp_right (·.imp_left fun hm => by rw [hb]; exact List.mem_cons_of_mem _ hm))
  | register _ =>
    rcases h.setRec rfl (fun _ h => h) rfl with h | ⟨-, hx⟩
    · exact .known h
    · cases hx
  | report ho =>
    rcases h.report with h | ⟨-, rfl⟩
    · exact .known h
    · exact .uncoded (by simpa using ho)
  | @fails err herr =>
    -- written into the record and reported, the same error twice
    have hnew : k = s.attempt → some err = some x → Origin s e (Call.fails c s err) k x := by
      rintro rfl hx
      cases hx
      exact herr.elim .uncoded fun h => .known (.inl h)
    rcases Known.report h with h | ⟨hk, hx⟩
    · rcases h.setRec rfl (fun _ h => h) rfl with h | ⟨hk, hx⟩
      · exact .known h
      · exact hnew hk hx
    · exact hnew hk hx
  | fail he =>
    rcases h.setRec rfl (fun _ h => h) rfl with h | ⟨rfl, hx⟩
    · exact .known h
    · exact .lost (Option.some.inj hx).symm (by simp [failRequest, setRec]) (.inl he)
  | @deliver k' r rest hb =>
    rcases h.setRec (s := s) rfl (fun y hy => by rw [hb]; exact List.mem_cons_of_mem _ hy) rfl with h | ⟨rfl, hx⟩
    · exact .known h
    · cases r with
      | result => exact .known (.inl hx)
      | error y =>
        cases Option.some.inj hx
        exact .known (.inr (.inl (by rw [hb]; exact List.mem_cons_self ..)))
  | delete =>
    rcases h.setRec rfl (fun _ h => h) rfl with h | ⟨rfl, hx⟩
    · exact .known h
    · exact .known (.inl hx)

theorem known_origin (hst : step c s e = some t) (h : Known t k x) : Origin s e t k x := by
  cases step_moves hst with
  | calm hc => exact hc.origin h
  | next _ ht => subst ht; exact .known h
  | send _ ht => subst ht; exact .known h
  | collect _ _ _ _ ht => subst ht; exact .known h
  | resend _ ht => subst ht; exact .known h
  | cut ht => subst ht; exact .known h
  | readServe _ ht => subst ht; exact .known h
  | failReplay he hk ht =>
    subst ht
    rcases h.setRec rfl (fun _ h => h) rfl with h | ⟨rfl, hx⟩
    · exact .known h
    · exact .lost (Option.some.inj hx).symm (by simp [failRequest, setRec]) (.inr ⟨he, hk⟩)
  | readBusy he htake ht =>
    subst ht
    rcases h.reply (s := s) rfl rfl rfl with h | ⟨rfl, hx⟩
    · exact .known h
    · exact .busy (Resp.error.inj hx).symm htake he
  | refuse _ hcode ht =>
    subst ht
    rcases h.reply (s := s) rfl rfl rfl with h | ⟨-, hx⟩
    · exact .known h
    · exact .other (Resp.error.inj hx).symm hcode
  | @run k' o codes _ _ hcode ht =>
    subst ht
    rcases h.reply (s := s) rfl rfl rfl with h | ⟨-, hx⟩
    · exact .known h
    · cases o with
      | ok => cases hx
      | failed code => exact .handler (Resp.error.inj hx).symm (hcode code rfl)
      | badResult => exact .other (Resp.error.inj hx).symm rfl

/-! ## The loop of `Retry` -/

/-- Every attempt before this one was reported with a retryable error. -/
structure Loop (s : St) : Prop where
  prior : ∀ k, 1 ≤ k → k < s.attempt → ∃ x, (k, some x) ∈ s.reports ∧ defaultRetryable x = true
  current : s.pc = .backoff → ∃ x, (s.attempt, some x) ∈ s.reports ∧ defaultRetryable x = true

theorem Loop.same (h : Loop s) (hr : t.reports = s.reports) (ha : t.attempt = s.attempt)
    (hp : t.pc = .backoff → s.pc = .backoff) : Loop t :=
  ⟨by rw [hr, ha]; exact h.prior, fun hb => by rw [hr, ha]; exact h.current (hp hb)⟩

theorem Loop.report (h : Loop s) (c : Cfg) (o : Option CallErr) : Loop (report c s o) := by
  refine ⟨fun k h1 h2 => ?_, fun hb => ?_⟩
  · obtain ⟨x, hx, hr⟩ := h.prior k h1 h2
    exact ⟨x, List.mem_append_left _ hx, hr⟩
  · unfold Call.report at hb
    dsimp only at hb
    split at hb
    · cases hb
    · rename_i x
      split at hb
      · cases hb
      · rename_i hc
        simp only [Bool.or_eq_true, Bool.not_eq_eq_eq_not, Bool.not_true, not_or, Bool.not_eq_false] at hc
        exact ⟨x, List.mem_append_right _ (List.mem_singleton.mpr rfl), hc.2⟩

theorem Loop.fails (h : Loop s) (c : Cfg) (x : CallErr) : Loop (fails c s x) :=
  Loop.report (s := setRec s s.attempt { s.recs s.attempt with resultErr := some x, closed := true })
    (h.same rfl rfl id) c (some x)

theorem loop_step (h : Loop s) (hst : step c s e = some t) : Loop t := by
  cases step_moves hst with
  | calm hc =>
    cases hc with
    | goto _ hpc => exact h.same rfl rfl (fun hb => absurd hb hpc)
    | register _ => exact h.same rfl rfl (by intro hb; cases hb)
    | report _ => exact h.report c _
    | fails _ => exact h.fails c _
    | _ => exact h.same rfl rfl id
  | next hp ht =>
    subst ht
    refine ⟨fun k h1 h2 => ?_, by intro hb; cases hb⟩
    rcases Nat.lt_succ_iff_lt_or_eq.mp h2 with h2 | rfl
    · exact h.prior k h1 h2
    · exact h.current hp
  | send _ ht => subst ht; exact h.same rfl rfl (by intro hb; cases hb)
  | collect _ _ _ _ ht => subst ht; exact h.same rfl rfl id
  | resend _ ht => subst ht; exact h.same rfl rfl id
  | failReplay _ _ ht => subst ht; exact h.same rfl rfl id
  | cut ht => subst ht; exact h.same rfl rfl id
  | readBusy _ _ ht => subst ht; exact h.same rfl rfl id
  | readServe _ ht => subst ht; exact h.same rfl rfl id
  | refuse _ _ ht => subst ht; exact h.same rfl rfl id
  | run _ _ _ ht => subst ht; exact h.same rfl rfl id

/-! ## Every run -/

structure Inv (c : Cfg) (s : St) : Prop where
  books : Books s
  noReplay : c.replayUnary = false → s.replay = []
  errs : ∀ k x, Known s k x → ErrOk s k x
  loop : Loop s

theorem inv_start (c : Cfg) : Inv c start where
  books := books_start
  noReplay := fun _ => rfl
  errs := by
    intro k x h
    rcases h with h | h | h <;> cases h
  loop := ⟨fun k h1 h2 => by simp only [start] at h2; omega, by intro h; cases h⟩

theorem noReplay_step (h : c.replayUnary = false → s.replay = []) (hst : step c s e = some t) :
    c.replayUnary = false → t.replay = [] := by
  intro hc
  have hs := h hc
  cases step_moves hst with
  | calm h => rw [h.kept.replay, hs]
  | next _ ht => subst ht; exact hs
  | send _ ht => subst ht; exact hs
  | collect _ hy _ _ _ => rw [hc] at hy; cases hy
  | resend hk _ => rw [hs] at hk; cases hk
  | failReplay _ hk _ => rw [hs] at hk; cases hk
  | cut ht => subst ht; exact hs
  | readBusy _ _ ht => subst ht; exact hs
  | readServe _ ht => subst ht; exact hs
  | refuse _ _ ht => subst ht; exact hs
  | run _ _ _ ht => subst ht; exact hs

theorem Books.void (h : Books s) (hh : k ∈ s.handed) (hs : k ∉ s.seen) (hw : onWire s k = 0)
    (hr : k ∉ s.replay) (hg : (s.recs k).inMap = false) : Void s k := by
  have hu := h.used k
  rw [List.count_eq_zero.mpr hs] at hu
  refine ⟨hh, fun x hx he => ?_, hr, List.count_eq_zero.mp (by omega), List.count_eq_zero.mp (by omega), .inl hg⟩
  have := List.countP_eq_zero.mp hw x hx
  simp [he] at this

theorem origin_ok (h : Inv c s) (hok : disposesLost s e = true) (hst : step c s e = some t)
    (ho : Origin s e t k x) : ErrOk t k x := by
  have hb := h.books
  cases ho with
  | known hk => exact (h.errs k x hk).step hb hok hst
  | uncoded hx => subst hx; trivial
  | handler hx hc => subst hx; exact hc
  | other hx hc =>
    subst hx
    intro hr
    rw [hc] at hr; cases hr
  | busy hx htake he =>
    subst hx he
    intro _
    obtain ⟨hm, hw, hr, hs, hv, hn, -⟩ := hb.read htake
    simp only [step, htake, Option.map_some, Option.some.injEq] at hst
    subst hst
    exact ⟨hm, hw, hr, hv, hn, .inr (List.mem_append_right _ (List.mem_singleton.mpr rfl))⟩
  | lost hx hg he =>
    subst hx
    intro _
    have hbt := books_step hb hok hst
    rcases he with rfl | ⟨rfl, hmem⟩
    · obtain ⟨hh, hs, hw⟩ := disposesLost_collect (k := k) hok
      simp only [step] at hst
      split at hst
      · split at hst
        · rename_i hc
          cases hst
          exact hbt.void hh hs hw (by rw [show (failRequest s k).replay = [] from h.noReplay hc.2.2]; simp) hg
        · cases hst
      · cases hst
    · -- collected, so handed over and lost
      have hpos := List.count_pos_iff.mpr hmem
      have ho := hb.once k
      have hh : k ∈ s.handed := by
        by_contra hne
        have := hb.unsent k hne
        omega
      simp only [step] at hst
      split at hst
      · rw [if_pos hmem] at hst
        cases hst
        refine hbt.void hh (List.count_eq_zero.mp ?_) ?_ (List.count_eq_zero.mp ?_) hg
        · show s.seen.count k = 0; omega
        · show onWire s k = 0; omega
        · show (s.replay.erase k).count k = 0
          rw [List.count_erase_self]; omega
      · cases hst

theorem inv_step (h : Inv c s) (hok : disposesLost s e = true) (hst : step c s e = some t) : Inv c t where
  books := books_step h.books hok hst
  noReplay := noReplay_step h.noReplay hst
  errs := fun _ _ hk => origin_ok h hok hst (known_origin hst hk)
  loop := loop_step h.loop hst

theorem reach_inv (hr : (sys c).Reach (fun s e => disposesLost s e = true) s) : Inv c s :=
  hr.inv (P := Inv c) (by rintro s rfl; exact inv_start c) (fun _ _ _ h hok hst => inv_step h hok hst)

/-- The handler ran for the current attempt only. -/
theorem Inv.runs_current (h : Inv c s) (hc : ∀ code ∈ s.handlerCodes, retryableCode code = false) :
    ∀ k ∈ s.runs, k = s.attempt := by
  intro k hk
  have hseen : 0 < s.seen.count k := by
    have := h.books.used k
    have := List.count_pos_iff.mpr hk
    omega
  have hh : k ∈ s.handed := by
    by_contra hne
    have := h.books.unsent k hne
    omega
  obtain ⟨h1, h2, -⟩ := h.books.handed k hh
  by_contra hne
  obtain ⟨x, hx, hr⟩ := h.loop.prior k h1 (by omega)
  have hok := h.errs k x (.inr (.inr hx))
  match x with
  | .coded .library code => exact (hok hr).runs hk
  | .coded .handler code =>
    rw [show defaultRetryable (.coded .handler code) = retryableCode code from rfl, hc code hok] at hr
    cases hr
  | .uncoded => cases hr

theorem at_most_once (hr : (sys c).Reach (fun s e => disposesLost s e = true) s) :
    (∀ k code, (k, some (.coded .library code)) ∈ s.reports → retryableCode code = true → k ∉ s.runs) ∧
    ((∀ code ∈ s.handlerCodes, retryableCode code = false) → s.runs.length ≤ 1) := by
  have h := reach_inv hr
  refine ⟨fun k code hk hc => (h.errs k _ (.inr (.inr hk)) hc).runs, fun hc => ?_⟩
  have hcur := h.runs_current hc
  have hlen : s.runs.count s.attempt = s.runs.length := List.count_eq_length.mpr fun k hk => (hcur k hk).symm
  have h1 := h.books.used s.attempt
  have h2 := h.books.once s.attempt
  omega

def plain : Cfg := ⟨3, false⟩

def attemptSent : List Ev := [.ensured, .register, .getConn, .send]

/-- The handler ran, the connection drops with the response on it, and `Reconnect` fails the
    attempt; `Retry` issues the next one and the handler runs again. -/
def dropAfterExecution : List Ev :=
  (.connect :: attemptSent : List Ev) ++
    ([.readServe 0, .runHandler 1 .ok, .loseBack, .cut 0, .reset, .fail 1, .ranged, .connect,
    .reconnected, .takeClosed, .nextAttempt] : List Ev) ++ attemptSent ++ ([.readServe 1, .runHandler 2 .ok] : List Ev)

theorem retried_after_execution :
    ∃ s : St, (sys plain).Reach Sys.any s ∧ (1, some errConnectionLost) ∈ s.reports ∧
    s.runs = [1, 2] :=
  Sys.reach_of_exec (sys plain) Sys.any start rfl dropAfterExecution (by decide +kernel)

/-- The drop takes the request with it: the retry is the only execution. -/
def dropBeforeRead : List Ev :=
  (.connect :: attemptSent : List Ev) ++
    ([.cut 0, .reset, .fail 1, .ranged, .connect, .reconnected, .takeClosed, .nextAttempt] : List Ev) ++ attemptSent ++
    ([.readServe 1, .runHandler 2 .ok] : List Ev)

theorem at_most_once_after_drop :
    ∃ s : St, (1, some errConnectionLost) ∈ s.reports ∧ s.runs = [2] ∧ 1 ∉ s.runs := by
  obtain ⟨s, hr, hrep, hruns⟩ :=
    Sys.reach_of_exec (sys plain) (fun s e => disposesLost s e = true) start rfl dropBeforeRead
    (P := fun s => (1, some errConnectionLost) ∈ s.reports ∧ s.runs = [2]) (by decide +kernel)
  exact ⟨s, hrep, hruns, (at_most_once hr).1 1 .unavailable hrep rfl⟩

end ValueRpc.Call
