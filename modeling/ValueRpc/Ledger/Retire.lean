/-
  ValueRpc.Ledger.Retire — every request a session accepted is retired once.

  A unary call is bracketed by RequestBegin and RequestEnd in its goroutine. A stream begins
  in `newServingRequest` and ends where its entry of `requestMap` is deleted, by whichever
  teardown gets to it first: its entry, the teardown that deleted it and has not reported
  it yet, and its RequestEnd are one token (`Kept.tally`).

  - `retired_once`: where no handler panics, no stream is stored over another one's entry
    and `Close` comes to no put-stream (`noPanicOverwriteOrPutSweep`), the counter is the number of streams
    registered, up to those caught between the two, and a request that is settled had one
    RequestEnd for its RequestBegin and is out of the map.
  - `retire_leaks`: a handler that panics, a put-stream at `Close`, two streams under one
    id: each leaves a request that never gets its RequestEnd.
-/

import ValueRpc.Ledger.Streams

namespace ValueRpc.Ledger

open Function ValueRpc.Lib
open ValueRpc.Serve (FunctionType)

/-- A teardown that has still to count or report that it deleted the entry of `x`. -/
def Job.owes (x : Nat) (b : Job) : Bool := decide (b.at_ = .uncount x ∨ b.at_ = .report x)

/-- A teardown of `x`, or of its entry, is under way. -/
def Job.busyWith (x : Nat) (b : Job) : Bool := decide (b.at_ ≠ .gone ∧ b.x = x) || b.owes x

/-- The handler has finished and a stream was torn down: its record is closed or its input
    ended, its streamer is gone, and no teardown is still at work on it. -/
structure Settled (s : St) (x : Nat) (r : Req) : Prop where
  pc : r.pc = .done
  streamer : r.streamer ≠ .running
  down : r.registered = true → r.closed = true ∨ r.ended = true
  jobs : ∀ b ∈ s.jobs, b.busyWith x = false

/-- No handler panics, no stream is stored over another's entry, and `Close` comes to no
    put-stream. -/
def noPanicOverwriteOrPutSweep (s : St) : Ev → Bool
  | .panics _ => false
  | .sweep x =>
    match s.reqs[x]? with
    | some r => decide (r.ft ≠ .incomingStream)
    | none => true
  | e => !overwrites s e

/-! ## What a request's place says of it -/

def Pc.begun : Pc → Bool
  | .arrived | .rollback | .rejecting | .rejected | .spawned => false
  | _ => true

def Pc.reported : Pc → Bool
  | .replying _ | .releasing | .done => true
  | _ => false

def Pc.returned : Pc → Bool
  | .closing _ | .replying _ | .releasing | .done => true
  | _ => false

/-- The places a request of its kind can be at. -/
def Req.Suits (r : Req) : Prop :=
  match r.pc with
  | .opening => r.ft ≠ .singleFunction ∧ r.registered = false
  | .counting | .closing _ => r.ft ≠ .singleFunction ∧ r.registered = true
  | .handling => r.ft = .singleFunction ∨ r.registered = true
  | .unregistering (some _) | .ending _ => r.ft = .singleFunction
  | .unregistering none => False
  | .replying _ | .releasing | .done => True
  | _ => r.registered = false

def Req.Booked (r : Req) : Prop :=
  if r.ft = .singleFunction then r.registered = false ∧ r.begins = r.pc.begun.toNat ∧ r.ends = r.pc.reported.toNat
  else r.begins = (r.registered || decide (r.pc = .storing)).toNat

def St.TornDown (s : St) (x : Nat) : Prop := ∃ b ∈ s.jobs, b.x = x

structure Downed (s : St) (x : Nat) (r : Req) : Prop where
  streamer : r.streamer = .running → r.registered = true ∧ r.ft ≠ .singleFunction
  out : r.ft = .outgoingStream ∨ r.ft = .chat → r.registered = true → r.pc.returned = true →
    r.streamer = .running ∨ s.TornDown x
  put : r.ft = .incomingStream → r.closed = true ∨ r.ended = true → s.TornDown x

/-- The entry of `x`, the teardowns that owe it a RequestEnd, and its RequestEnds. -/
def St.tokens (s : St) (x : Nat) (r : Req) : Nat :=
  (decide (s.requestMap.lookup r.reqId = some x)).toNat + s.jobs.countP (Job.owes x) + r.ends

structure Kept (s : St) : Prop where
  map : ∀ (i : Int) (x : Nat), s.requestMap.lookup i = some x →
    ∃ r, s.reqs[x]? = some r ∧ r.reqId = i ∧ r.registered = true ∧ r.ft ≠ .singleFunction
  jobs : ∀ b ∈ s.jobs, ∃ r, s.reqs[b.x]? = some r ∧ r.registered = true ∧ r.ft ≠ .singleFunction ∧
    (b.at_ ≠ .delete → s.requestMap.lookup r.reqId ≠ some b.x)
  owed : ∀ b ∈ s.jobs, ∀ y, b.owes y = true → ∃ r, s.reqs[y]? = some r ∧ r.ft ≠ .singleFunction
  suits : ∀ (x : Nat) (r : Req), s.reqs[x]? = some r → r.Suits
  booked : ∀ (x : Nat) (r : Req), s.reqs[x]? = some r → r.Booked
  tally : ∀ (x : Nat) (r : Req), s.reqs[x]? = some r → r.ft ≠ .singleFunction → s.tokens x r = r.registered.toNat
  down : ∀ (x : Nat) (r : Req), s.reqs[x]? = some r → Downed s x r

variable {cfg : Config} {s t : St} {e : Ev} {x : Nat} {r : Req} {j y : Nat} {k : Retiring} {b : Job}

theorem kept_start : Kept start where
  map := fun i x h => by cases h
  jobs := fun b h => by cases h
  owed := fun b h => by cases h
  suits := fun x r h => by cases h
  booked := fun x r h => by cases h
  tally := fun x r h => by cases h
  down := fun x r h => by cases h

theorem Kept.of_eq (hk : Kept s) (hr : t.reqs = s.reqs) (hm : t.requestMap = s.requestMap)
    (hj : t.jobs = s.jobs) : Kept t := by
  obtain ⟨h1, h2, h3, h4, h5, h6, h7⟩ := hk
  refine ⟨?_, ?_, ?_, ?_, ?_, ?_, fun x r hx => ?_⟩
  · simpa only [hr, hm] using h1
  · simpa only [hr, hm, hj] using h2
  · simpa only [hr, hj] using h3
  · simpa only [hr] using h4
  · simpa only [hr] using h5
  · simpa only [hr, St.tokens, hm, hj] using h6
  · rw [hr] at hx
    obtain ⟨hst, hout, hput⟩ := h7 x r hx
    refine ⟨hst, ?_, ?_⟩
    · simpa only [St.TornDown, hj] using hout
    · simpa only [St.TornDown, hj] using hput

/-! ## Steps of a request -/

structure Same (r r' : Req) : Prop where
  reqId : r'.reqId = r.reqId
  ft : r'.ft = r.ft
  registered : r'.registered = r.registered

theorem TornDown.mono {l : List Job} (hj : t.jobs = s.jobs ++ l) (h : s.TornDown y) : t.TornDown y := by
  obtain ⟨b, hb, hx⟩ := h
  exact ⟨b, by rw [hj]; exact List.mem_append_left _ hb, hx⟩

/-- A request takes a step, and may start a teardown of itself. -/
theorem Kept.turn (hk : Kept s) (hr : s.reqs[x]? = some r) (f : Req → Req) {l : List Job}
    (ht : t.reqs = s.reqs.modify x f) (hm : t.requestMap = s.requestMap) (hj : t.jobs = s.jobs ++ l)
    (hl : ∀ b ∈ l, b.x = x ∧ b.at_ = .delete ∧ r.registered = true ∧ r.ft ≠ .singleFunction)
    (hsame : Same r (f r)) (hends : r.ft ≠ .singleFunction → (f r).ends = r.ends) (hsuits : (f r).Suits)
    (hbooked : (f r).Booked) (hdown : Downed t x (f r)) : Kept t := by
  have hget : ∀ (y : Nat) (r' : Req), s.reqs[y]? = some r' → ∃ r'', t.reqs[y]? = some r'' ∧ Same r' r'' := by
    intro y r' hy
    by_cases hxy : x = y
    · subst hxy
      cases hr.symm.trans hy
      exact ⟨f r, by simp [ht, hr], hsame⟩
    · exact ⟨r', by simp [ht, hxy, hy], rfl, rfl, rfl⟩
  have howes : ∀ y, t.jobs.countP (Job.owes y) = s.jobs.countP (Job.owes y) := by
    intro y
    have hz : l.countP (Job.owes y) = 0 := by
      refine List.countP_eq_zero.mpr fun b hb => ?_
      simp [Job.owes, (hl b hb).2.1]
    rw [hj, List.countP_append, hz, Nat.add_zero]
  refine ⟨fun i y hy => ?_, fun b hb => ?_, fun b hb y hy => ?_, fun y r' hy => ?_, fun y r' hy => ?_,
    fun y r' hy hft => ?_,
    fun y r' hy => ?_⟩
  · rw [hm] at hy
    obtain ⟨r', hr', hid, hreg, hft⟩ := hk.map i y hy
    obtain ⟨r'', hr'', hs⟩ := hget y r' hr'
    exact ⟨r'', hr'', hs.reqId.trans hid, hs.registered.trans hreg, hs.ft ▸ hft⟩
  · rw [hj] at hb
    rcases List.mem_append.mp hb with hb | hb
    · obtain ⟨r', hr', hreg, hft, hd⟩ := hk.jobs b hb
      obtain ⟨r'', hr'', hs⟩ := hget _ r' hr'
      exact ⟨r'', hr'', hs.registered.trans hreg, hs.ft ▸ hft, fun h => by rw [hm, hs.reqId]; exact hd h⟩
    · obtain ⟨hbx, hk', hreg, hft⟩ := hl b hb
      refine ⟨f r, by simp [ht, hbx, hr], hsame.registered.trans hreg, hsame.ft ▸ hft, fun h => absurd hk' h⟩
  · rw [hj] at hb
    rcases List.mem_append.mp hb with hb | hb
    · obtain ⟨r', hr', hft⟩ := hk.owed b hb y hy
      obtain ⟨r'', hr'', hs⟩ := hget y r' hr'
      exact ⟨r'', hr'', hs.ft ▸ hft⟩
    · simp [Job.owes, (hl b hb).2.1] at hy
  · rw [ht] at hy
    rcases modify_get hy with ⟨-, r₀, hr₀, rfl⟩ | ⟨-, hy⟩
    · cases hr.symm.trans hr₀
      exact hsuits
    · exact hk.suits y r' hy
  · rw [ht] at hy
    rcases modify_get hy with ⟨-, r₀, hr₀, rfl⟩ | ⟨-, hy⟩
    · cases hr.symm.trans hr₀
      exact hbooked
    · exact hk.booked y r' hy
  · rw [ht] at hy
    unfold St.tokens
    rw [hm, howes]
    rcases modify_get hy with ⟨rfl, r₀, hr₀, rfl⟩ | ⟨-, hy⟩
    · cases hr.symm.trans hr₀
      rw [hsame.ft] at hft
      rw [hsame.reqId, hsame.registered, hends hft]
      exact hk.tally x r hr hft
    · exact hk.tally y r' hy hft
  · rw [ht] at hy
    rcases modify_get hy with ⟨rfl, r₀, hr₀, rfl⟩ | ⟨-, hy⟩
    · cases hr.symm.trans hr₀
      exact hdown
    · obtain ⟨hst, hout, hput⟩ := hk.down y r' hy
      exact ⟨hst, fun a b c => (hout a b c).imp_right (TornDown.mono hj), fun a b => TornDown.mono hj (hput a b)⟩

theorem Kept.goes (hk : Kept s) (hr : s.reqs[x]? = some r) (f : Req → Req) (ht : t.reqs = s.reqs.modify x f)
    (hm : t.requestMap = s.requestMap) (hj : t.jobs = s.jobs) (hsame : Same r (f r))
    (hends : r.ft ≠ .singleFunction → (f r).ends = r.ends) (hsuits : (f r).Suits) (hbooked : (f r).Booked)
    (hout : r.ft = .outgoingStream ∨ r.ft = .chat → r.registered = true → (f r).pc.returned = true →
      (f r).streamer = .running ∨ r.pc.returned = true ∧ (f r).streamer = r.streamer)
    (hput : r.ft = .incomingStream → (f r).closed = true ∨ (f r).ended = true → r.closed = true ∨ r.ended = true)
    (hst : (f r).streamer = .running → r.streamer = .running ∨ r.registered = true ∧
      r.ft ≠ .singleFunction) : Kept t := by
  have hj' : t.jobs = s.jobs ++ [] := by rw [hj, List.append_nil]
  refine hk.turn hr f ht hm hj' (fun b h => by cases h) hsame hends hsuits hbooked ⟨fun h => ?_,
    fun hft hreg hret => ?_, fun hft hc => ?_⟩
  · rw [hsame.registered, hsame.ft]
    exact (hst h).elim (hk.down x r hr).streamer id
  · rw [hsame.ft] at hft
    rw [hsame.registered] at hreg
    rcases hout hft hreg hret with h | ⟨hret, hst⟩
    · exact .inl h
    · rw [hst]
      exact ((hk.down x r hr).out hft hreg hret).imp_right (TornDown.mono hj')
  · rw [hsame.ft] at hft
    exact TornDown.mono hj' ((hk.down x r hr).put hft (hput hft hc))

theorem Kept.spawns (hk : Kept s) (hr : s.reqs[x]? = some r) (f : Req → Req) {hard : Bool}
    (ht : t.reqs = s.reqs.modify x f) (hm : t.requestMap = s.requestMap)
    (hj : t.jobs = s.jobs ++ [⟨x, hard, .delete⟩]) (hreg : r.registered = true) (hft : r.ft ≠ .singleFunction)
    (hsame : Same r (f r)) (hends : (f r).ends = r.ends) (hsuits : (f r).Suits) (hbooked : (f r).Booked) :
    Kept t := by
  have htorn : t.TornDown x := ⟨⟨x, hard, .delete⟩, by rw [hj]; simp, rfl⟩
  refine hk.turn hr f ht hm hj (fun b hb => ?_) hsame (fun _ => hends) hsuits hbooked
    ⟨fun _ => ⟨hsame.registered.trans hreg, hsame.ft ▸ hft⟩, fun _ _ _ => .inr htorn, fun _ _ => htorn⟩
  rw [List.mem_singleton.mp hb]
  exact ⟨rfl, rfl, hreg, hft⟩

/-- `newServingRequest` stores a stream under a free id. -/
theorem Kept.store (hk : Kept s) (hr : s.reqs[x]? = some r) (hp : r.pc = .storing)
    (hft : r.ft ≠ .singleFunction) (hfree : s.requestMap.lookup r.reqId = none) :
    Kept { s.upd x fun r => { r with pc := .counting, registered := true } with
      requestMap := s.requestMap.insert r.reqId x } := by
  have hreg : r.registered = false := by
    have h := hk.suits x r hr
    simpa only [Req.Suits, hp] using h
  -- nothing of `x` is in the map or on its way out of it
  have htok := hk.tally x r hr hft
  rw [hreg] at htok
  have hself : (s.reqs.modify x fun r => { r with pc := .counting, registered := true })[x]? =
      some { r with pc := .counting, registered := true } := by simp [hr]
  have hget : ∀ (y : Nat) (r' : Req), x ≠ y → s.reqs[y]? = some r' →
      (s.reqs.modify x fun r => { r with pc := .counting, registered := true })[y]? = some r' := by
    intro y r' hxy hy
    simp [hxy, hy]
  refine ⟨fun i y hy => ?_, fun b hb => ?_, fun b hb y hy => ?_, fun y r' hy => ?_, fun y r' hy => ?_,
    fun y r' hy hft' => ?_,
    fun y r' hy => ?_⟩
  · simp only [lookup_insert] at hy
    split at hy
    · rename_i hi
      cases hy
      exact ⟨_, hself, hi.symm, rfl, hft⟩
    · obtain ⟨r', hr', hid, hreg', hft'⟩ := hk.map i y hy
      refine ⟨r', hget y r' ?_ hr', hid, hreg', hft'⟩
      rintro rfl
      cases hr.symm.trans hr'
      rw [hreg] at hreg'
      cases hreg'
  · obtain ⟨r', hr', hreg', hft', hd⟩ := hk.jobs b hb
    have hne : x ≠ b.x := by
      rintro rfl
      cases hr.symm.trans hr'
      rw [hreg] at hreg'
      cases hreg'
    refine ⟨r', hget _ r' hne hr', hreg', hft', fun h => ?_⟩
    simp only [lookup_insert]
    split
    · exact fun h => hne (Option.some.inj h)
    · exact hd h
  · obtain ⟨r', hr', hft'⟩ := hk.owed b hb y hy
    by_cases hxy : x = y
    · subst hxy
      exact ⟨_, hself, hft⟩
    · exact ⟨r', hget y r' hxy hr', hft'⟩
  · rcases modify_get hy with ⟨-, r₀, hr₀, rfl⟩ | ⟨-, hy⟩
    · cases hr.symm.trans hr₀
      exact ⟨hft, rfl⟩
    · exact hk.suits y r' hy
  · rcases modify_get hy with ⟨-, r₀, hr₀, rfl⟩ | ⟨-, hy⟩
    · cases hr.symm.trans hr₀
      have h := hk.booked x r hr
      simp only [Req.Booked, hp, if_neg hft] at h ⊢
      simpa [hreg] using h
    · exact hk.booked y r' hy
  · simp only [St.tokens, lookup_insert] at htok ⊢
    rcases modify_get hy with ⟨rfl, r₀, hr₀, rfl⟩ | ⟨hxy, hy⟩
    · cases hr.symm.trans hr₀
      simp only [hfree, reduceCtorEq, decide_false, Bool.toNat_false, Nat.zero_add] at htok
      simp only [if_true, decide_true, Bool.toNat_true]
      show 1 + s.jobs.countP (Job.owes x) + r.ends = 1
      omega
    · have h := hk.tally y r' hy hft'
      simp only [St.tokens] at h
      by_cases hid : r'.reqId = r.reqId
      · have hnone : s.requestMap.lookup r'.reqId = none := by rw [hid, hfree]
        simp only [hnone, reduceCtorEq, decide_false] at h
        simp only [if_pos hid, Option.some.injEq, hxy, decide_false]
        exact h
      · simp only [if_neg hid]
        exact h
  · rcases modify_get hy with ⟨rfl, r₀, hr₀, rfl⟩ | ⟨-, hy⟩
    · cases hr.symm.trans hr₀
      exact ⟨fun _ => ⟨rfl, hft⟩, fun _ _ h => (by cases h), (hk.down x r hr).put⟩
    · exact ⟨(hk.down y r' hy).streamer, (hk.down y r' hy).out, (hk.down y r' hy).put⟩

theorem kept_run (hk : Kept s) (hok : noPanicOverwriteOrPutSweep s (.run x) = true)
    (h : Does cfg s (.run x) t) : Kept t := by
  cases h with
  | reject hr hp _ | admits hr hp _ | rollback hr hp | rejected hr hp | begins hr hp hft | checks hr hp hft | checked hr hp hft
  | exhausted hr hp hft _
  | passes hr hp hft _ | opens hr hp | storeCancel hr hp hft | count hr hp | closed hr hp _ _ | unregister hr hp | ends hr hp
  | replies hr hp | release hr hp =>
    have hs := hk.suits _ _ hr
    have hb := hk.booked _ _ hr
    simp only [Req.Suits, hp] at hs
    simp only [Req.Booked, hp, Pc.begun, Pc.reported] at hb
    refine hk.goes hr _ rfl rfl rfl ⟨rfl, rfl, rfl⟩ ?_ ?_ ?_ ?_ (fun _ => id) .inl
    · simp_all
    · simp_all [Req.Suits]
    · simp_all [Req.Booked, Pc.begun, Pc.reported]
    · simp_all [Pc.returned]
  | unwind hr hp =>
    have hs := hk.suits _ _ hr
    simp only [Req.Suits, hp] at hs
  | @store _ r hr hp hft =>
    refine hk.store hr hp hft ?_
    cases hm : s.requestMap.lookup r.reqId with
    | none => rfl
    | some y => simp [noPanicOverwriteOrPutSweep, overwrites, hr, hp, hft, hm] at hok

/-! ## Steps of a teardown -/

theorem jobTo_mem {b' : Job} (h : b' ∈ (s.jobTo j k).jobs) :
    (∃ b, s.jobs[j]? = some b ∧ b' = ⟨b.x, b.hard, k⟩) ∨ b' ∈ s.jobs := by
  obtain ⟨i, hi⟩ := List.mem_iff_getElem?.mp h
  rcases modify_get hi with ⟨-, b, hb, rfl⟩ | ⟨-, hi⟩
  · exact .inl ⟨b, hb, rfl⟩
  · exact .inr (List.mem_of_getElem? hi)

theorem TornDown.jobTo (k : Retiring) (h : s.TornDown y) : (s.jobTo j k).TornDown y := by
  obtain ⟨b, hb, hx⟩ := h
  obtain ⟨i, hi⟩ := List.mem_iff_getElem?.mp hb
  by_cases hij : j = i
  · subst hij
    exact ⟨{ b with at_ := k }, List.mem_of_getElem? (i := j) (by simp [St.jobTo, hi]), hx⟩
  · exact ⟨b, List.mem_of_getElem? (i := i) (by simp [St.jobTo, hij, hi]), hx⟩

theorem Downed.jobTo (h : Downed s x r) : Downed (s.jobTo j k) x r :=
  ⟨h.streamer, fun a b c => (h.out a b c).imp_right (TornDown.jobTo k), fun a b => TornDown.jobTo k (h.put a b)⟩

theorem owes_jobTo (hb : s.jobs[j]? = some b) (y : Nat) :
    (s.jobTo j k).jobs.countP (Job.owes y) + (b.owes y).toNat =
      s.jobs.countP (Job.owes y) + (Job.owes y ⟨b.x, b.hard, k⟩).toNat :=
  countP_modify _ _ hb

theorem Kept.moves (hk : Kept s) (hb : s.jobs[j]? = some b)
    (hgone : ∀ r, s.reqs[b.x]? = some r → s.requestMap.lookup r.reqId ≠ some b.x)
    (howes : ∀ y, Job.owes y ⟨b.x, b.hard, k⟩ = b.owes y) : Kept (s.jobTo j k) := by
  refine ⟨hk.map, fun b' hb' => ?_, fun b' hb' y hy => ?_, hk.suits, hk.booked, fun y r hy hft => ?_, fun y r hy =>
    (hk.down y r hy).jobTo⟩
  · rcases jobTo_mem hb' with ⟨b₀, hb₀, rfl⟩ | hb'
    · cases hb.symm.trans hb₀
      obtain ⟨r, hr, hreg, hft, -⟩ := hk.jobs b (List.mem_of_getElem? hb)
      exact ⟨r, hr, hreg, hft, fun _ => hgone r hr⟩
    · exact hk.jobs b' hb'
  · rcases jobTo_mem hb' with ⟨b₀, hb₀, rfl⟩ | hb'
    · cases hb.symm.trans hb₀
      exact hk.owed b (List.mem_of_getElem? hb) y (howes y ▸ hy)
    · exact hk.owed b' hb' y hy
  · have h := owes_jobTo (k := k) hb y
    rw [howes] at h
    have h' := hk.tally y r hy hft
    simp only [St.tokens] at h' ⊢
    have hm : (s.jobTo j k).requestMap = s.requestMap := rfl
    rw [hm]
    omega

/-- `LoadAndDelete` finds the entry of `y`: its token is now the teardown's. -/
theorem Kept.delete (hk : Kept s) (hb : s.jobs[j]? = some b) (hat : b.at_ = .delete)
    (hr : s.reqs[b.x]? = some r) (hm : s.requestMap.lookup r.reqId = some y) :
    Kept { s.jobTo j (.uncount y) with requestMap := s.requestMap.erase r.reqId } := by
  have herase : ∀ (i : Int) (x : Nat), (s.requestMap.erase r.reqId).lookup i = some x →
    s.requestMap.lookup i = some x := by
    intro i x h
    rw [lookup_erase] at h
    split at h
    · cases h
    · exact h
  obtain ⟨ry, hry, hidy, -, hfty⟩ := hk.map r.reqId y hm
  refine ⟨fun i x hx => hk.map i x (herase i x hx), fun b' hb' => ?_, fun b' hb' z hz => ?_, hk.suits, hk.booked,
    fun x r' hx hft => ?_, fun x r' hx => ?_⟩
  · rcases jobTo_mem hb' with ⟨b₀, hb₀, rfl⟩ | hb'
    · cases hb.symm.trans hb₀
      obtain ⟨r', hr', hreg, hft, -⟩ := hk.jobs b (List.mem_of_getElem? hb)
      cases hr.symm.trans hr'
      exact ⟨r, hr, hreg, hft, fun _ => by simp⟩
    · obtain ⟨r', hr', hreg, hft, hd⟩ := hk.jobs b' hb'
      exact ⟨r', hr', hreg, hft, fun h h' => hd h (herase _ _ h')⟩
  · rcases jobTo_mem hb' with ⟨b₀, hb₀, rfl⟩ | hb'
    · simp only [Job.owes, Retiring.uncount.injEq, reduceCtorEq, or_false, decide_eq_true_eq] at hz
      subst hz
      exact ⟨ry, hry, hfty⟩
    · exact hk.owed b' hb' z hz
  · have howes := owes_jobTo (k := .uncount y) hb x
    have h := hk.tally x r' hx hft
    simp only [Job.owes, hat, reduceCtorEq, or_false, decide_false, Bool.toNat_false, Nat.add_zero,
      Retiring.uncount.injEq]
      at howes
    simp only [St.tokens, lookup_erase] at h ⊢
    by_cases hxy : y = x
    · subst hxy
      cases hry.symm.trans hx
      have hm' : s.requestMap.lookup ry.reqId = some y := by rw [hidy, hm]
      simp only [hm', decide_true, Bool.toNat_true] at h
      simp only [if_pos hidy, reduceCtorEq, decide_false, Bool.toNat_false, decide_true, Bool.toNat_true] at howes ⊢
      show 0 + (s.jobTo j (.uncount y)).jobs.countP (Job.owes y) + ry.ends = _
      omega
    · simp only [hxy, decide_false, Bool.toNat_false, Nat.add_zero] at howes
      by_cases hid : r'.reqId = r.reqId
      · have hm' : s.requestMap.lookup r'.reqId = some y := by rw [hid, hm]
        simp only [hm', Option.some.injEq, hxy, decide_false, Bool.toNat_false] at h
        simp only [if_pos hid, reduceCtorEq, decide_false, Bool.toNat_false]
        show 0 + (s.jobTo j (.uncount y)).jobs.countP (Job.owes x) + r'.ends = _
        omega
      · simp only [if_neg hid]
        show _ + (s.jobTo j (.uncount y)).jobs.countP (Job.owes x) + r'.ends = _
        omega
  · have h := (hk.down x r' hx).jobTo (j := j) (k := .uncount y)
    exact ⟨h.streamer, h.out, h.put⟩

/-- RequestEnd of the stream whose entry a teardown deleted: its token is spent. -/
theorem Kept.report (hk : Kept s) (hb : s.jobs[j]? = some b) (hat : b.at_ = .report y)
    (hk' : ∀ z, Job.owes z ⟨b.x, b.hard, k⟩ = false) :
    Kept ((s.jobTo j k).upd y fun r => { r with ends := r.ends + 1 }) := by
  obtain ⟨ry, hry, hfty⟩ := hk.owed b (List.mem_of_getElem? hb) y (by simp [Job.owes, hat])
  have hget : ∀ (z : Nat) (r' : Req), s.reqs[z]? = some r' → ∃ r'',
    (s.reqs.modify y fun r => { r with ends := r.ends + 1 })[z]? =
      some r'' ∧ Same r' r'' := by
    intro z r' hz
    by_cases hyz : y = z
    · subst hyz
      exact ⟨{ r' with ends := r'.ends + 1 }, by simp [hz], rfl, rfl, rfl⟩
    · exact ⟨r', by simp [hyz, hz], rfl, rfl, rfl⟩
  refine ⟨fun i x hx => ?_, fun b' hb' => ?_, fun b' hb' z hz => ?_, fun z r' hz => ?_, fun z r' hz => ?_,
    fun z r' hz hft => ?_,
    fun z r' hz => ?_⟩
  · obtain ⟨r', hr', hid, hreg, hft⟩ := hk.map i x hx
    obtain ⟨r'', hr'', hs⟩ := hget x r' hr'
    exact ⟨r'', hr'', hs.reqId.trans hid, hs.registered.trans hreg, hs.ft ▸ hft⟩
  · have hold : ∃ r, s.reqs[b'.x]? = some r ∧ r.registered = true ∧ r.ft ≠ .singleFunction ∧
        (b'.at_ ≠ .delete → s.requestMap.lookup r.reqId ≠ some b'.x) := by
      rcases jobTo_mem hb' with ⟨b₀, hb₀, rfl⟩ | hb'
      · cases hb.symm.trans hb₀
        obtain ⟨r, hr, hreg, hft, hd⟩ := hk.jobs b (List.mem_of_getElem? hb)
        exact ⟨r, hr, hreg, hft, fun _ => hd (by rw [hat]; simp)⟩
      · exact hk.jobs b' hb'
    obtain ⟨r', hr', hreg, hft, hd⟩ := hold
    obtain ⟨r'', hr'', hs⟩ := hget _ r' hr'
    exact ⟨r'', hr'', hs.registered.trans hreg, hs.ft ▸ hft, fun h => by rw [hs.reqId]; exact hd h⟩
  · rcases jobTo_mem hb' with ⟨b₀, hb₀, rfl⟩ | hb'
    · cases hb.symm.trans hb₀
      rw [hk'] at hz
      cases hz
    · obtain ⟨r', hr', hft⟩ := hk.owed b' hb' z hz
      obtain ⟨r'', hr'', hs⟩ := hget z r' hr'
      exact ⟨r'', hr'', hs.ft ▸ hft⟩
  · rcases modify_get hz with ⟨rfl, r₀, hr₀, rfl⟩ | ⟨-, hz⟩
    · exact hk.suits y r₀ hr₀
    · exact hk.suits z r' hz
  · rcases modify_get hz with ⟨rfl, r₀, hr₀, rfl⟩ | ⟨-, hz⟩
    · have h := hk.booked y r₀ hr₀
      cases hry.symm.trans hr₀
      simp only [Req.Booked, if_neg hfty] at h ⊢
      exact h
    · exact hk.booked z r' hz
  · have howes := owes_jobTo (k := k) hb z
    rw [hk'] at howes
    simp only [Job.owes, hat, reduceCtorEq, false_or, Retiring.report.injEq, Bool.toNat_false, Nat.add_zero] at howes
    simp only [St.tokens]
    rcases modify_get hz with ⟨rfl, r₀, hr₀, rfl⟩ | ⟨hyz, hz⟩
    · have h := hk.tally y r₀ hr₀ hft
      simp only [St.tokens] at h
      simp only [decide_true, Bool.toNat_true] at howes
      show (decide (s.requestMap.lookup r₀.reqId = some y)).toNat + (s.jobTo j k).jobs.countP
        (Job.owes y) + (r₀.ends + 1) =
        r₀.registered.toNat
      omega
    · have h := hk.tally z r' hz hft
      simp only [St.tokens] at h
      simp only [hyz, decide_false, Bool.toNat_false, Nat.add_zero] at howes
      show (decide (s.requestMap.lookup r'.reqId = some z)).toNat + (s.jobTo j k).jobs.countP
        (Job.owes z) + r'.ends = _
      omega
  · rcases modify_get hz with ⟨rfl, r₀, hr₀, rfl⟩ | ⟨-, hz⟩
    · have h := (hk.down y r₀ hr₀).jobTo (j := j) (k := k)
      exact ⟨h.streamer, h.out, h.put⟩
    · have h := (hk.down z r' hz).jobTo (j := j) (k := k)
      exact ⟨h.streamer, h.out, h.put⟩

theorem kept_teardown (hk : Kept s) (h : Does cfg s (.teardown j) t) : Kept t := by
  cases h with
  | delete hb hat hr hm => exact hk.delete hb hat hr hm
  | @deleted _ b r hb hat hr hm =>
    refine hk.moves hb (fun r' hr' => ?_) fun y => ?_
    · cases hr.symm.trans hr'
      rw [hm]
      simp
    · cases b.hard <;> simp [Job.owes, hat]
  | uncount hb hat =>
    refine (hk.moves (k := .report _) hb (fun r hr => ?_) fun y => ?_).of_eq rfl rfl rfl
    · obtain ⟨r', hr', -, -, hd⟩ := hk.jobs _ (List.mem_of_getElem? hb)
      cases hr.symm.trans hr'
      exact hd (by rw [hat]; simp)
    · simp only [Job.owes, hat, reduceCtorEq, or_false, false_or, Retiring.uncount.injEq, Retiring.report.injEq]
  | @report _ y b hb hat =>
    refine hk.report hb hat fun z => ?_
    cases b.hard <;> rfl
  | @closes _ b hb hat =>
    obtain ⟨r, hr, hreg, hft, hd⟩ := hk.jobs b (List.mem_of_getElem? hb)
    have hover : Kept (s.jobTo j .gone) := by
      refine hk.moves hb (fun r' hr' => ?_) fun y => by simp [Job.owes, hat]
      cases hr.symm.trans hr'
      exact hd (by rw [hat]; simp)
    have htorn : (s.jobTo j .gone).TornDown b.x := TornDown.jobTo .gone ⟨b, List.mem_of_getElem? hb, rfl⟩
    have hj : (s.jobTo j .gone).jobs = (s.jobTo j .gone).jobs ++ [] := by simp
    exact hover.turn hr _ rfl rfl hj (fun b h => by cases h) ⟨rfl, rfl, rfl⟩ (fun _ => rfl) (hover.suits b.x r hr)
      (hover.booked b.x r hr) ⟨fun _ => ⟨hreg, hft⟩, fun _ _ _ => .inr htorn, fun _ _ => htorn⟩

/-! ## Every step -/

theorem kept_arrive (hk : Kept s) (i : Int) (ft : FunctionType) :
    Kept { s with reqs := s.reqs ++ [.arrive i ft] } := by
  have hfresh : ∀ (y : Nat) (r : Req), s.reqs[y]? = some r → y ≠ s.reqs.length := by
    intro y r hy
    exact Nat.ne_of_lt (List.getElem?_eq_some_iff.mp hy).1
  refine ⟨fun j x hx => ?_, fun b hb => ?_, fun b hb y hy => ?_, fun x r hx => ?_, fun x r hx => ?_,
    fun x r hx hft => ?_,
    fun x r hx => ?_⟩
  · obtain ⟨r, hr, h⟩ := hk.map j x hx
    exact ⟨r, get_append _ hr, h⟩
  · obtain ⟨r, hr, h⟩ := hk.jobs b hb
    exact ⟨r, get_append _ hr, h⟩
  · obtain ⟨r, hr, h⟩ := hk.owed b hb y hy
    exact ⟨r, get_append _ hr, h⟩
  · rcases append_get hx with hx | ⟨-, rfl⟩
    · exact hk.suits x r hx
    · exact rfl
  · rcases append_get hx with hx | ⟨-, rfl⟩
    · exact hk.booked x r hx
    · cases ft <;> simp [Req.Booked, Req.arrive, Pc.begun, Pc.reported]
  · rcases append_get hx with hx | ⟨rfl, rfl⟩
    · exact hk.tally x r hx hft
    · -- nothing knows the new request yet
      have hz : s.jobs.countP (Job.owes s.reqs.length) = 0 := by
        refine List.countP_eq_zero.mpr fun b hb ho => ?_
        obtain ⟨r, hr, -⟩ := hk.owed b hb _ ho
        exact hfresh _ r hr rfl
      have hn : s.requestMap.lookup i ≠ some s.reqs.length := by
        intro h
        obtain ⟨r, hr, -⟩ := hk.map i _ h
        exact hfresh _ r hr rfl
      simp [St.tokens, Req.arrive, hz, hn]
  · rcases append_get hx with hx | ⟨-, rfl⟩
    · exact ⟨(hk.down x r hx).streamer, (hk.down x r hx).out, (hk.down x r hx).put⟩
    · refine ⟨fun h => ?_, fun _ h => ?_, fun _ h => ?_⟩
      · cases h
      · cases h
      · rcases h with h | h <;> cases h

theorem kept_step (hk : Kept s) (hok : noPanicOverwriteOrPutSweep s e = true) (h : step cfg s e = some t) :
    Kept t := by
  cases step_cases h with
  | arrive _ => exact kept_arrive hk _ _
  | refuseCall hr hp hft | refuseStream hr hp hft | returns _ hr hp hft | ready hr hp hft | dropReject _ hr hp
  | dropReply _ hr hp =>
    have hs := hk.suits _ _ hr
    have hb := hk.booked _ _ hr
    simp only [Req.Suits, hp] at hs
    simp only [Req.Booked, hp, Pc.begun, Pc.reported] at hb
    refine hk.goes hr _ rfl rfl rfl ⟨rfl, rfl, rfl⟩ (fun _ => rfl) ?_ ?_ ?_ (fun _ => id) .inl
    · simp_all [Req.Suits]
    · simp_all [Req.Booked, Pc.begun, Pc.reported]
    · simp_all [Pc.returned]
  | @streams x r hr hp hft =>
    have hft' : r.ft ≠ .singleFunction := by rcases hft with h | h <;> rw [h] <;> decide
    have hreg : r.registered = true := by
      have hs := hk.suits x r hr
      simp only [Req.Suits, hp] at hs
      exact hs.resolve_left hft'
    refine hk.goes hr _ rfl rfl rfl ⟨rfl, rfl, rfl⟩ (fun _ => rfl) trivial ?_ (fun _ _ _ => .inl rfl) (fun _ => id)
      fun _ => .inr ⟨hreg, hft'⟩
    have hb := hk.booked x r hr
    simp only [Req.Booked, hp, if_neg hft'] at hb ⊢
    exact hb
  | @fails x r hr hp hft =>
    have hreg : r.registered = true := by
      have hs := hk.suits x r hr
      simp only [Req.Suits, hp] at hs
      exact hs.resolve_left hft
    refine hk.spawns hr _ rfl rfl rfl hreg hft ⟨rfl, rfl, rfl⟩ rfl ⟨hft, hreg⟩ ?_
    have hb := hk.booked x r hr
    simp only [Req.Booked, hp, if_neg hft] at hb ⊢
    exact hb
  | @finish x r hr hst =>
    obtain ⟨hreg, hft⟩ := (hk.down x r hr).streamer hst
    exact hk.spawns hr _ rfl rfl rfl hreg hft ⟨rfl, rfl, rfl⟩ rfl (hk.suits x r hr) (hk.booked x r hr)
  | @cut i f x r hm hr =>
    obtain ⟨r', hr', -, hreg, hft⟩ := hk.map _ _ hm
    cases hr.symm.trans hr'
    have hid : (s.spawn ⟨x, true, .delete⟩).reqs = s.reqs.modify x id := by simp [St.spawn]
    exact hk.spawns hr id hid rfl rfl hreg hft ⟨rfl, rfl, rfl⟩ rfl (hk.suits x r hr) (hk.booked x r hr)
  | @endInput i x r hm hr hft =>
    obtain ⟨r', hr', -, hreg, hft'⟩ := hk.map _ _ hm
    cases hr.symm.trans hr'
    exact hk.spawns hr _ rfl rfl rfl hreg hft' ⟨rfl, rfl, rfl⟩ rfl (hk.suits x r hr) (hk.booked x r hr)
  | stop _ => exact hk.of_eq rfl rfl rfl
  | @sweep x r hr _ _ =>
    refine hk.goes hr _ rfl rfl rfl ⟨rfl, rfl, rfl⟩ (fun _ => rfl) (hk.suits x r hr) (hk.booked x r hr)
      (fun _ _ h => .inr ⟨h, rfl⟩) (fun hft => ?_) .inl
    simp [noPanicOverwriteOrPutSweep, hr, hft] at hok
  | panicCall hr hp hft | panicStream hr hp hft | panicEarly hr hp => cases hok
  | _ => first | exact kept_run hk hok (step_cases h) | exact kept_teardown hk (step_cases h)

theorem kept (h : (sys cfg).Reach (fun s e => noPanicOverwriteOrPutSweep s e = true) s) : Kept s := by
  refine h.inv (P := Kept) ?_ fun _ _ _ hk hok hs => kept_step hk hok hs
  rintro _ rfl
  exact kept_start

theorem not_overwrites (hok : noPanicOverwriteOrPutSweep s e = true) : overwrites s e = false := by
  cases e with
  | run x => simpa [noPanicOverwriteOrPutSweep] using hok
  | _ => rfl

theorem balanced (h : (sys cfg).Reach (fun s e => noPanicOverwriteOrPutSweep s e = true) s) :
    s.balance = 0 := by
  refine h.inv (P := fun s => s.balance = 0) ?_ fun s e t hs hok ht => ?_
  · rintro _ rfl
    rfl
  · rcases balance_step ht with h | ⟨ho, -⟩
    · rw [h, hs]
    · rw [not_overwrites hok] at ho
      cases ho

/-! ## Settled requests -/

/-- A settled stream went through a teardown, so its entry is gone. -/
theorem Settled.gone (hk : Kept s) (hr : s.reqs[x]? = some r) (hset : Settled s x r) :
    s.requestMap.lookup r.reqId ≠ some x := by
  intro hm
  obtain ⟨r', hr', -, hreg, hft⟩ := hk.map _ _ hm
  cases hr.symm.trans hr'
  have htorn : s.TornDown x := by
    cases hf : r.ft with
    | singleFunction => exact absurd hf hft
    | incomingStream => exact (hk.down x r hr).put hf (hset.down hreg)
    | outgoingStream =>
      exact ((hk.down x r hr).out (.inl hf) hreg (by rw [hset.pc]; rfl)).resolve_left hset.streamer
    | chat => exact ((hk.down x r hr).out (.inr hf) hreg (by rw [hset.pc]; rfl)).resolve_left hset.streamer
  obtain ⟨b, hb, rfl⟩ := htorn
  obtain ⟨r', hr', -, -, hd⟩ := hk.jobs b hb
  cases hr.symm.trans hr'
  have hover := hset.jobs b hb
  simp only [Job.busyWith, Bool.or_eq_false_iff, decide_eq_false_iff_not, and_true, not_not] at hover
  exact hd (by rw [hover.1]; simp) hm

/-- Its token was spent on its RequestEnd. -/
theorem Settled.reported (hk : Kept s) (hr : s.reqs[x]? = some r) (hft : r.ft ≠ .singleFunction)
    (hset : Settled s x r) : r.ends = r.registered.toNat := by
  have h := hk.tally x r hr hft
  have hz : s.jobs.countP (Job.owes x) = 0 := by
    refine List.countP_eq_zero.mpr fun b hb ho => ?_
    have hbusy := hset.jobs b hb
    simp [Job.busyWith, ho] at hbusy
  simpa [St.tokens, hz, hset.gone hk hr] using h

theorem retired_once (h : (sys cfg).Reach (fun s e => noPanicOverwriteOrPutSweep s e = true) s) :
    s.liveStreams + s.counting = size s.requestMap + s.uncounting ∧
    ∀ (x : Nat) (r : Req), s.reqs[x]? = some r → Settled s x r →
      r.ends = r.begins ∧ r.begins ≤ 1 ∧ (r.ft = .singleFunction ∨ r.registered = true → r.begins = 1) ∧
      s.requestMap.lookup r.reqId ≠ some x := by
  have hk := kept h
  refine ⟨?_, fun x r hr hset => ?_⟩
  · have hb := balanced h
    unfold St.balance at hb
    omega
  · have hbook := hk.booked x r hr
    have hgone := hset.gone hk hr
    simp only [Req.Booked, hset.pc, Pc.begun, Pc.reported, Bool.toNat_true] at hbook
    by_cases hft : r.ft = .singleFunction
    · rw [if_pos hft] at hbook
      exact ⟨by omega, by omega, fun _ => hbook.2.1, hgone⟩
    · rw [if_neg hft] at hbook
      have hends := hset.reported hk hr hft
      simp only [reduceCtorEq, decide_false, Bool.or_false] at hbook
      refine ⟨by rw [hends, hbook], by rw [hbook]; exact Bool.toNat_le _, fun hreg => ?_, hgone⟩
      rw [hbook, hreg.resolve_left hft]
      rfl

def unlimited : Config := ⟨0, 0⟩

def opens (reqId : Int) (ft : FunctionType) (x : Nat) : List Ev := .arrive reqId ft :: List.replicate 6 (.run x)

def servedStream : List Ev :=
  opens 7 .outgoingStream 0 ++ ([.handled 0 true, .run 0, .finish 0] : List Ev) ++ (List.replicate 4 (.teardown 0) : List Ev)

theorem retired_once_servedStream :
    ∃ s r, (sys unlimited).Reach (fun s e => noPanicOverwriteOrPutSweep s e = true) s ∧ s.reqs[0]? = some r ∧
    Settled s 0 r ∧ r.begins = 1 ∧ r.ends = 1 ∧ s.requestMap.lookup 7 ≠ some 0 := by
  obtain ⟨s, hr, h0, hbusy⟩ :=
    Sys.reach_of_exec (sys unlimited) (fun s e => noPanicOverwriteOrPutSweep s e = true) start rfl servedStream
    (P := fun s => s.reqs[0]? = some ⟨7, .outgoingStream, .done, .finished, true, false, 1, true, true, 1, 1, 1, []⟩ ∧
      ∀ b ∈ s.jobs, b.busyWith 0 = false) (by decide +kernel)
  have hset : Settled s 0 ⟨7, .outgoingStream, .done, .finished, true, false, 1, true, true, 1, 1, 1, []⟩ :=
    ⟨rfl, by decide, fun _ => .inl rfl, hbusy⟩
  obtain ⟨hends, -, hbegins, hgone⟩ := (retired_once hr).2 0 _ h0 hset
  exact ⟨s, _, hr, h0, hset, hbegins (.inr rfl), hends.trans (hbegins (.inr rfl)), hgone⟩

/-! ## The ways around it -/

def callPanic : List Ev :=
  (.arrive 7 .singleFunction :: List.replicate 4 (.run 0) : List Ev) ++ ([.panics 0, .run 0, .run 0] : List Ev)

def streamPanic : List Ev := opens 7 .outgoingStream 0 ++ ([.panics 0, .run 0, .close, .sweep 0] : List Ev)

def putAtClose : List Ev := opens 7 .incomingStream 0 ++
    ([.handled 0 true, .run 0, .run 0, .close, .sweep 0] : List Ev)

/-- The second request under the id is read before the first is stored. -/
def reusedId : List Ev :=
  ([.arrive 7 .outgoingStream, .arrive 7 .chat] : List Ev) ++ (List.replicate 6 (.run 0) : List Ev) ++
    (List.replicate 6 (.run 1) : List Ev) ++
      ([.handled 0 true, .handled 1 true, .run 0, .run 1, .finish 0] : List Ev) ++
    (List.replicate 4 (.teardown 0) : List Ev) ++ ([.finish 1, .teardown 1, .teardown 1] : List Ev)

/-- A settled request that was never reported ended, after `run`. -/
def Leaks (run : List Ev) (x : Nat) : Prop := ∃ s r, (sys unlimited).Reach Sys.any s ∧
  (sys unlimited).exec Sys.any start run = some s ∧ s.reqs[x]? = some r ∧ Settled s x r ∧ r.begins = 1 ∧ r.ends = 0

theorem leaks_of {run : List Ev} (r : Req)
    (h : ((sys unlimited).exec Sys.any start run).any (fun s =>
      decide (s.reqs[x]? = some r ∧ ∀ b ∈ s.jobs, b.busyWith x = false)) = true)
    (hset : ∀ s : St, (∀ b ∈ s.jobs, b.busyWith x = false) → Settled s x r) (hb : r.begins = 1)
    (he : r.ends = 0) : Leaks run x := by
  obtain ⟨s, hr, hs, h0, hbusy⟩ := Sys.reach_exec (sys unlimited) Sys.any start rfl run h
  exact ⟨s, r, hr, hs, h0, hset s hbusy, hb, he⟩

theorem retire_leaks : Leaks callPanic 0 ∧ Leaks streamPanic 0 ∧ Leaks putAtClose 0 ∧ Leaks reusedId 0 ∧
    ∃ s, (sys unlimited).Reach Sys.any s ∧ s.liveStreams = 1 ∧ size s.requestMap = 0 ∧ s.counting = 0 ∧
      s.uncounting = 0 := by
  refine ⟨?_, ?_, ?_, ?_, ?_⟩
  · exact leaks_of ⟨7, .singleFunction, .done, .unstarted, false, false, 1, true, false, 1, 0, 1,
      []⟩ (by decide +kernel)
      (fun _ hbusy => ⟨rfl, by decide, fun h => (by cases h), hbusy⟩) rfl rfl
  · exact leaks_of ⟨7, .outgoingStream, .done, .unstarted, true, false, 1, true, true, 1, 0, 1, []⟩ (by decide +kernel)
      (fun _ hbusy => ⟨rfl, by decide, fun _ => .inl rfl, hbusy⟩) rfl rfl
  · exact leaks_of ⟨7, .incomingStream, .done, .unstarted, true, false, 1, true, true, 1, 0, 1, [.streamReady]⟩
      (by decide +kernel) (fun _ hbusy => ⟨rfl, by decide, fun _ => .inl rfl, hbusy⟩) rfl rfl
  · exact leaks_of ⟨7, .outgoingStream, .done, .finished, true, false, 1, true, true, 1, 0, 1, []⟩ (by decide +kernel)
      (fun _ hbusy => ⟨rfl, by decide, fun _ => .inl rfl, hbusy⟩) rfl rfl
  · exact Sys.reach_of_exec (sys unlimited) Sys.any start rfl reusedId (by decide +kernel)

end ValueRpc.Ledger
