/-
  ValueRpc.Ledger.Streams — the stream limit of a session, and the counter behind it.

  `newServingRequest` stores a stream and then counts it, `deleteRequest` deletes it and
  then uncounts it, so the counter lags behind the map on both sides. `balance` is what is
  left when the streams caught in between are put back. It grows when a stream is stored
  over another one, and no other step changes it (`balance_step`).

  The limit is checked long before the stream is counted.
  - `stream_limit`: where a stream is let through only while the counter and the streams
    already let through and not yet counted are below the limit (`reserves`), at most
    `maxConcurrentStreams` are registered in every state.
  - `stream_limit_raced`: two stream requests that are checked before either is counted
    both get in, under a limit of one.
-/

import ValueRpc.Ledger.Session

namespace ValueRpc.Ledger

open Function ValueRpc.Lib
open ValueRpc.Serve (FunctionType)

def Req.isCounting (r : Req) : Bool := decide (r.pc = .counting)

def Req.isOpening (r : Req) : Bool :=
  match r.pc with
  | .opening | .counting => true
  | .storing => decide (r.ft ≠ .singleFunction)
  | _ => false

def Job.isUncounting (b : Job) : Bool :=
  match b.at_ with
  | .uncount _ => true
  | _ => false

def St.counting (s : St) : Nat := s.reqs.countP Req.isCounting

def St.opening (s : St) : Nat := s.reqs.countP Req.isOpening

def St.uncounting (s : St) : Nat := s.jobs.countP Job.isUncounting

/-- The counter, less what is registered, with the streams in between put back. -/
def St.balance (s : St) : Int := s.liveStreams + s.counting - (size s.requestMap + s.uncounting)

/-- The next step of `x` stores a stream over another one's entry. -/
def overwrites (s : St) : Ev → Bool
  | .run x =>
    match s.reqs[x]? with
    | some r => decide (r.pc = .storing ∧ r.ft ≠ .singleFunction) && (s.requestMap.lookup r.reqId).isSome
    | none => false
  | _ => false

/-- A stream is let through only while there is room for it and for those let through
    before it. -/
def reserves (cfg : Config) (s : St) : Ev → Bool
  | .run x =>
    match s.reqs[x]? with
    | some r =>
      if r.pc = .checking ∧ r.ft ≠ .singleFunction ∧ cfg.overStreams s.liveStreams = false then
        decide (s.liveStreams + s.opening < cfg.maxConcurrentStreams)
      else true
    | none => true
  | _ => true

variable {cfg : Config} {s t : St} {e : Ev} {x : Nat} {r : Req} {f : Req → Req}

/-! ## The counts across a step -/

theorem counting_upd (hr : s.reqs[x]? = some r) (f : Req → Req) :
    (s.upd x f).counting + r.isCounting.toNat = s.counting + (f r).isCounting.toNat :=
  countP_modify _ f hr

theorem opening_upd (hr : s.reqs[x]? = some r) (f : Req → Req) :
    (s.upd x f).opening + r.isOpening.toNat = s.opening + (f r).isOpening.toNat :=
  countP_modify _ f hr

structure Still (s t : St) : Prop where
  counting : t.counting = s.counting
  opening : t.opening ≤ s.opening
  live : t.liveStreams = s.liveStreams
  map : t.requestMap = s.requestMap
  uncounting : t.uncounting = s.uncounting

theorem Still.turn (hr : s.reqs[x]? = some r) (f : Req → Req) (ht : t.reqs = s.reqs.modify x f)
    (hc : (f r).isCounting = r.isCounting) (ho : (f r).isOpening = true → r.isOpening = true)
    (hl : t.liveStreams = s.liveStreams) (hm : t.requestMap = s.requestMap) (hu : t.uncounting = s.uncounting) :
    Still s t := by
  have h1 := counting_upd hr f
  have h2 := opening_upd hr f
  simp only [St.counting, St.opening, St.upd] at h1 h2
  refine ⟨?_, ?_, hl, hm, hu⟩
  · simp only [St.counting, ht]
    rw [hc] at h1
    omega
  · simp only [St.opening, ht]
    cases hf : (f r).isOpening with
    | false => rw [hf] at h2; simp only [Bool.toNat_false] at h2; omega
    | true => rw [hf, ho hf] at h2; omega

theorem Still.aside (f : Req → Req) (ht : t.reqs = s.reqs.modify x f) (hpc : ∀ r, (f r).pc = r.pc)
    (hft : ∀ r, (f r).ft = r.ft) (hl : t.liveStreams = s.liveStreams) (hm : t.requestMap = s.requestMap)
    (hu : t.uncounting = s.uncounting) : Still s t := by
  refine ⟨?_, Nat.le_of_eq ?_, hl, hm, hu⟩
  · simp only [St.counting, ht]
    exact countP_modify_eq _ f fun r _ => by simp only [Req.isCounting, hpc]
  · simp only [St.opening, ht]
    exact countP_modify_eq _ f fun r _ => by simp only [Req.isOpening, hpc, hft]

theorem uncounting_spawn (x : Nat) (hard : Bool) :
    (s.spawn ⟨x, hard, .delete⟩).uncounting = s.uncounting := by
  simp [St.uncounting, St.spawn, Job.isUncounting]

theorem uncounting_turn {j : Nat} {b : Job} {k : Retiring} (hb : s.jobs[j]? = some b) :
    (s.jobTo j k).uncounting + b.isUncounting.toNat = s.uncounting + (Job.isUncounting ⟨b.x, b.hard, k⟩).toNat :=
  countP_modify _ _ hb

theorem uncounting_jobTo {j : Nat} {b : Job} {k : Retiring} (hb : s.jobs[j]? = some b)
    (hk : b.isUncounting = false) (hk' : Job.isUncounting ⟨b.x, b.hard, k⟩ = false) :
    (s.jobTo j k).uncounting = s.uncounting := by
  have h := uncounting_turn (k := k) hb
  rw [hk, hk'] at h
  omega

/-- What a step is to the stream counters. -/
inductive Shift (cfg : Config) (s : St) : Ev → St → Prop
  | still {e : Ev} {t : St} (h : Still s t) : Shift cfg s e t
  | passes {x : Nat} {r : Req} {t : St} (hr : s.reqs[x]? = some r) (hp : r.pc = .checking)
      (hft : r.ft ≠ .singleFunction)
      (ho : cfg.overStreams s.liveStreams = false) (hopening : t.opening = s.opening + 1)
        (hcounting : t.counting = s.counting)
      (hlive : t.liveStreams = s.liveStreams) (hmap : t.requestMap = s.requestMap)
        (hun : t.uncounting = s.uncounting) :
      Shift cfg s (.run x) t
  | store {x : Nat} {r : Req} {t : St} (hr : s.reqs[x]? = some r) (hp : r.pc = .storing) (hft : r.ft ≠ .singleFunction)
      (hopening : t.opening = s.opening) (hcounting : t.counting = s.counting + 1)
        (hlive : t.liveStreams = s.liveStreams)
      (hmap : t.requestMap = s.requestMap.insert r.reqId x) (hun : t.uncounting = s.uncounting) :
        Shift cfg s (.run x) t
  | count {x : Nat} {t : St} (hopening : t.opening + 1 = s.opening) (hcounting : t.counting + 1 = s.counting)
      (hlive : t.liveStreams = s.liveStreams + 1) (hmap : t.requestMap = s.requestMap)
        (hun : t.uncounting = s.uncounting) :
      Shift cfg s (.run x) t
  | delete {j y : Nat} {i : Int} {t : St} (hm : s.requestMap.lookup i = some y) (hopening : t.opening = s.opening)
      (hcounting : t.counting = s.counting) (hlive : t.liveStreams = s.liveStreams)
        (hmap : t.requestMap = s.requestMap.erase i)
      (hun : t.uncounting = s.uncounting + 1) : Shift cfg s (.teardown j) t
  | uncount {j : Nat} {t : St} (hopening : t.opening = s.opening) (hcounting : t.counting = s.counting)
      (hlive : t.liveStreams = s.liveStreams - 1) (hmap : t.requestMap = s.requestMap)
      (hun : t.uncounting + 1 = s.uncounting) : Shift cfg s (.teardown j) t

theorem shift_cases (h : step cfg s e = some t) : Shift cfg s e t := by
  cases step_cases h with
  | arrive _ =>
    refine .still ⟨?_, Nat.le_of_eq ?_, rfl, rfl, rfl⟩
    · simp [St.counting, Req.arrive, Req.isCounting]
    · simp [St.opening, Req.arrive, Req.isOpening]
  | @passes x r hr hp hft ho =>
    have hc := counting_upd hr fun r => { r with pc := .opening }
    have hop := opening_upd hr fun r => { r with pc := .opening }
    simp [Req.isCounting, hp] at hc
    simp [Req.isOpening, hp] at hop
    exact .passes hr hp hft ho hop hc rfl rfl rfl
  | @store x r hr hp hft =>
    have hc := counting_upd hr fun r => { r with pc := .counting, registered := true }
    have hop := opening_upd hr fun r => { r with pc := .counting, registered := true }
    simp [Req.isCounting, hp] at hc
    simp [Req.isOpening, hp, hft] at hop
    exact .store hr hp hft hop hc rfl rfl rfl
  | @count x r hr hp =>
    have hc := counting_upd hr fun r => { r with pc := .handling }
    have hop := opening_upd hr fun r => { r with pc := .handling }
    simp [Req.isCounting, hp] at hc
    simp [Req.isOpening, hp] at hop
    exact .count hop hc rfl rfl rfl
  | @delete j y b r hb hk _ hm =>
    have hu := uncounting_turn (k := .uncount y) hb
    simp [Job.isUncounting, hk] at hu
    exact .delete hm rfl rfl rfl rfl hu
  | @uncount j y b hb hk =>
    have hu := uncounting_turn (k := .report y) hb
    simp [Job.isUncounting, hk] at hu
    exact .uncount rfl rfl rfl rfl hu
  | reject hr hp _ | admits hr hp _ | rollback hr hp | rejected hr hp | begins hr hp _ | checks hr hp _
  | exhausted hr hp _ _ | closed hr hp _ _ | unregister hr hp | unwind hr hp | ends hr hp | replies hr hp | release hr hp
  | refuseCall hr hp _ | refuseStream hr hp _ | returns _ hr hp _ | ready hr hp _ | streams hr hp _ | panicCall hr hp _
  | panicStream hr hp _ | dropReject _ hr hp | dropReply _ hr hp =>
    exact .still (.turn hr _ rfl (by simp [Req.isCounting, hp]) nofun rfl rfl rfl)
  | checked hr hp hft =>
    exact .still (.turn hr _ rfl (by simp [Req.isCounting, hp])
      (fun h => by simp [Req.isOpening, hft] at h) rfl rfl rfl)
  | opens hr hp =>
    exact .still (.turn hr _ rfl (by simp [Req.isCounting, hp]) (fun _ => by simp [Req.isOpening, hp]) rfl rfl rfl)
  | storeCancel hr hp _ =>
    exact .still (.turn hr _ rfl (by simp [Req.isCounting, hp]) nofun rfl rfl rfl)
  | panicEarly hr hp =>
    refine .still (.turn hr _ rfl ?_ nofun rfl rfl rfl)
    rcases hp with hp | ⟨hp, -⟩ <;> simp [Req.isCounting, hp]
  | fails hr hp _ =>
    exact .still (.turn hr _ rfl (by simp [Req.isCounting, hp]) nofun rfl rfl (uncounting_spawn _ _))
  | finish _ _ | endInput _ _ _ =>
    exact .still (.aside _ rfl (fun _ => rfl) (fun _ => rfl) rfl rfl (uncounting_spawn _ _))
  | cut _ _ => exact .still ⟨rfl, Nat.le_refl _, rfl, rfl, uncounting_spawn _ _⟩
  | @deleted j b r hb hk _ _ =>
    refine .still ⟨rfl, Nat.le_refl _, rfl, rfl, uncounting_jobTo hb (by simp [Job.isUncounting, hk]) ?_⟩
    cases b.hard <;> rfl
  | @report j y b hb hk =>
    refine .still (.aside _ rfl (fun _ => rfl) (fun _ => rfl) rfl rfl
      (uncounting_jobTo hb (by simp [Job.isUncounting, hk]) ?_))
    cases b.hard <;> rfl
  | closes hb hk =>
    exact .still (.aside _ rfl (fun _ => rfl) (fun _ => rfl) rfl rfl
      (uncounting_jobTo hb (by simp [Job.isUncounting, hk]) rfl))
  | stop _ => exact .still ⟨rfl, Nat.le_refl _, rfl, rfl, rfl⟩
  | sweep _ _ _ => exact .still (.aside _ rfl (fun _ => rfl) (fun _ => rfl) rfl rfl rfl)

/-! ## The counter and the map -/

theorem balance_step (h : step cfg s e = some t) :
    t.balance = s.balance ∨ overwrites s e = true ∧ t.balance = s.balance + 1 := by
  unfold St.balance
  cases shift_cases h with
  | still h =>
    rw [h.counting, h.live, h.map, h.uncounting]
    exact .inl rfl
  | passes _ _ _ _ _ hcounting hlive hmap hun =>
    rw [hcounting, hlive, hmap, hun]
    exact .inl rfl
  | @store x r _ hr hp hft _ hcounting hlive hmap hun =>
    rw [hcounting, hlive, hmap, hun]
    cases hm : s.requestMap.lookup r.reqId with
    | none =>
      rw [size_insert x hm]
      exact .inl (by omega)
    | some y =>
      rw [size_insert_over x hm]
      exact .inr ⟨by simp [overwrites, hr, hp, hft, hm], by omega⟩
  | count _ hcounting hlive hmap hun =>
    rw [hlive, hmap, hun]
    exact .inl (by omega)
  | delete hm _ hcounting hlive hmap hun =>
    have := size_erase hm
    rw [hcounting, hlive, hmap, hun]
    exact .inl (by omega)
  | uncount _ hcounting hlive hmap hun =>
    rw [hcounting, hlive, hmap]
    exact .inl (by omega)

theorem balance_nonneg {ok : St → Ev → Prop} (h : (sys cfg).Reach ok s) : 0 ≤ s.balance := by
  refine h.inv (P := fun s => 0 ≤ s.balance) ?_ fun s e t hs _ ht => ?_
  · rintro _ rfl
    exact Int.le_refl 0
  · rcases balance_step ht with h | ⟨-, h⟩ <;> omega

/-! ## The limit -/

theorem room_step (hok : reserves cfg s e = true) (h : step cfg s e = some t)
    (hs : s.liveStreams + s.opening ≤ cfg.maxConcurrentStreams) :
    t.liveStreams + t.opening ≤ cfg.maxConcurrentStreams := by
  cases shift_cases h with
  | still h =>
    have := h.opening
    rw [h.live]
    omega
  | passes hr hp hft ho hopening _ hlive _ _ =>
    simp only [reserves, hr] at hok
    rw [if_pos ⟨hp, hft, ho⟩, decide_eq_true_eq] at hok
    omega
  | store _ _ _ hopening _ hlive _ _ => omega
  | count hopening _ hlive _ _ => omega
  | delete _ hopening _ hlive _ _ => omega
  | uncount hopening _ hlive _ _ => omega

theorem room (hS : 0 < cfg.maxConcurrentStreams) (h : (sys cfg).Reach (fun s e => reserves cfg s e = true) s) :
    s.liveStreams + s.opening ≤ cfg.maxConcurrentStreams := by
  refine h.inv (P := fun s => s.liveStreams + s.opening ≤ cfg.maxConcurrentStreams) ?_
    fun s e t hs hok ht => room_step hok ht hs
  rintro _ rfl
  simp only [start, St.opening, List.countP_nil]
  omega

theorem counting_le_opening (s : St) : s.counting ≤ s.opening := by
  refine List.countP_mono_left fun r _ h => ?_
  simp only [Req.isCounting, decide_eq_true_eq] at h
  simp [Req.isOpening, h]

theorem stream_limit (hS : 0 < cfg.maxConcurrentStreams)
    (h : (sys cfg).Reach (fun s e => reserves cfg s e = true) s) :
    (size s.requestMap : Int) ≤ cfg.maxConcurrentStreams := by
  have hb := balance_nonneg h
  have hr := room hS h
  have hc := counting_le_opening s
  unfold St.balance at hb
  omega

def oneStream : Config := ⟨0, 1⟩

def inTurn : List Ev :=
  [.arrive 7 .outgoingStream, .run 0, .run 0, .run 0, .run 0, .run 0, .run 0, .arrive 8 .chat, .run 1,
    .run 1, .run 1, .run 1]

theorem stream_limit_inTurn : ∃ s, (sys oneStream).Reach (fun s e => reserves oneStream s e = true) s ∧
    0 < oneStream.maxConcurrentStreams ∧ s.requestMap.lookup 7 = some 0 ∧
    s.reqs.map Req.replies = [[], [.streamsExhausted]] ∧ (size s.requestMap : Int) ≤ 1 := by
  obtain ⟨s, hr, hmap, hreplies⟩ :=
    Sys.reach_of_exec (sys oneStream) (fun s e => reserves oneStream s e = true) start rfl inTurn
    (P := fun s => s.requestMap.lookup 7 = some 0 ∧ s.reqs.map Req.replies = [[], [.streamsExhausted]])
      (by decide +kernel)
  exact ⟨s, hr, by decide, hmap, hreplies, stream_limit (by decide) hr⟩

def raced : List Ev :=
  [.arrive 7 .outgoingStream, .arrive 8 .chat, .run 0, .run 1, .run 0, .run 1, .run 0, .run 1, .run 0,
    .run 1, .run 0, .run 1,
   .run 0, .run 1]

theorem stream_limit_raced : ∃ s, (sys oneStream).Reach Sys.any s ∧ (s.reqs.map Req.reqId).Nodup ∧
    0 < oneStream.maxConcurrentStreams ∧ oneStream.maxConcurrentStreams < size s.requestMap ∧ s.liveStreams = 2 :=
  Sys.reach_of_exec (sys oneStream) Sys.any start rfl raced (by decide +kernel)

end ValueRpc.Ledger
