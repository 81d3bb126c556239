/-
  ValueRpc.Route.Routed — frames no record is found for.

  The end that issues an exchange makes its record before it sends the request, so there a
  frame without a record is late. The end that serves a stream makes the record when the
  request has come: the client's read loop does so itself, the server's starts a goroutine
  that will. A frame of the stream that is looked up before finds nothing, and the stream
  runs on without it.

  - `routed`: where the request of a stream is never still on its way, or with the goroutine
    that is to register it, when another frame of the stream finds no record (`inOrder`),
    such a frame's record is gone for good: no table has one in any later state. With
    `no_cross_talk`, which needs no condition.
  - `cancel_before_registration`: a cancel right behind the request of a stream.
-/

import ValueRpc.Route.CrossTalk

namespace ValueRpc.Route

open Function ValueRpc.Lib
open ValueRpc.Core (Kind MessageType)

def Pc.frame : Pc → Option Frame
  | .probe _ f | .new f => some f
  | _ => none

def Frame.opens (f : Frame) (x : Exch) : Bool := f.ex = x && f.mt.kind?.isSome && x.kind ≠ .unary

def Exec.opens (e : Exec) (d : Side) (x : Exch) : Bool :=
    e.ex = x && e.side = d && e.phase = .spawned && x.kind ≠ .unary

/-- The request of a stream is on its way to an end, or not registered there yet. -/
def arriving (s : St) (d : Side) (x : Exch) : Bool :=
  ((List.range s.conns).any fun c => (s.lanes (c, d)).any (·.opens x) || (s.loops (c, d)).frame.any (·.opens x)) ||
    (d = .client && s.outgoingQueue.any (·.opens x)) || s.execs.any (·.opens d x)

/-- Where the records of the streams an end serves are. -/
def Side.serving : Side → Tab
  | .client => .servingMap
  | .server => .requestMap

/-- A frame that finds no stream to serve is not ahead of the stream's request. -/
def inOrder (s : St) (e : Ev) : Bool :=
  bounded s e &&
    match e with
    | .serve c d _ =>
      match s.loops (c, d) with
      | .probe t f => t ≠ d.serving || f.mt.kind?.isSome || (s.maps (t, f.reqId)).isSome || !arriving s d f.ex
      | _ => true
    | _ => true

/-! ## What a step adds -/

variable {s t : St} {d : Side} {e : Ev} {f : Frame} {c : Nat} {x : Exch} {tab : Tab} {d' : Side} {pc : Pc}
  {g : Frame} {accept : Bool}

def OnWay (s : St) (d : Side) (f : Frame) : Prop :=
  (∃ c, f ∈ s.lanes (c, d)) ∨ (∃ c, (s.loops (c, d)).frame = some f) ∨ (d = .client ∧ f ∈ s.outgoingQueue)

theorem onWay_goto (h : OnWay (s.goto c d' pc) d f) :
    OnWay s d f ∨ (d = d' ∧ pc.frame = some f) := by
  rcases h with h | ⟨c', h⟩ | h
  · exact .inl (.inl h)
  · simp only [St.goto, update_apply] at h
    split at h
    · rename_i heq
      cases heq
      exact .inr ⟨rfl, h⟩
    · exact .inl (.inr (.inl ⟨c', h⟩))
  · exact .inl (.inr (.inr h))

theorem onWay_onto (h : OnWay (s.onto c d' g) d f) :
    OnWay s d f ∨ (d = d' ∧ f = g) := by
  unfold St.onto at h
  split at h
  · rcases h with ⟨c', h⟩ | h | h
    · simp only [update_apply] at h
      split at h
      · rename_i heq
        cases heq
        rcases List.mem_append.mp h with h | h
        · exact .inl (.inl ⟨c, h⟩)
        · exact .inr ⟨rfl, List.mem_singleton.mp h⟩
      · exact .inl (.inl ⟨c', h⟩)
    · exact .inl (.inr (.inl h))
    · exact .inl (.inr (.inr h))
  · exact .inl h

theorem onWay_emit {c : Option Nat} (h : OnWay (s.emit d' g c) d f) : OnWay s d f ∨ f = g := by
  cases c with
  | none => exact .inl h
  | some c =>
    cases d' with
    | client => exact (onWay_onto h).imp_right And.right
    | server =>
      rcases h with h | h | ⟨hd, h⟩
      · exact .inl (.inl h)
      · exact .inl (.inr (.inl h))
      · rcases List.mem_append.mp h with h | h
        · exact .inl (.inr (.inr ⟨hd, h⟩))
        · exact .inr (List.mem_singleton.mp h)

/-- A read loop goes on with the frame it has, or with none. -/
theorem dispatch_frame (d : Side) (f : Frame) : (dispatch d f).frame = some f := by
  cases d with
  | server => rfl
  | client =>
    simp only [dispatch]
    split <;> rfl

theorem miss_frame (h : miss f tab = some pc) : pc.frame = some f := by
  cases tab <;> simp only [miss, reduceCtorEq] at h
  · cases h
    rfl
  · split at h <;> cases h <;> rfl
  · split at h <;> cases h <;> rfl

theorem onWay_shorten {c : Nat} {d' : Side} {fs : List Frame} (hfs : ∀ f ∈ fs, f ∈ s.lanes (c, d'))
    {f : Frame} (h : OnWay { s with lanes := update s.lanes (c, d') fs } d f) : OnWay s d f := by
  rcases h with ⟨c', h⟩ | h | h
  · simp only [update_apply] at h
    split at h
    · rename_i heq
      cases heq
      exact .inl ⟨c, hfs f h⟩
    · exact .inl ⟨c', h⟩
  · exact .inr (.inl h)
  · exact .inr (.inr h)

/-- What a step may add. A request that was not on its way is of an exchange whose request
    was not sent before, or of a call; a goroutine that is about to register a request got
    it from a read loop; a record is of a new exchange, or one of those two made it. -/
structure Adds (s t : St) : Prop where
  sent : s.sent ⊆ t.sent
  frames : ∀ d f, OnWay t d f → OnWay s d f ∨ f.mt.kind? = none ∨ f.ex ∉ s.sent ∨ f.ex.kind = .unary
  spawned : ∀ e ∈ t.execs, e.phase = .spawned → e ∈ s.execs ∨ ∃ f, OnWay s e.side f ∧ f.ex = e.ex ∧
    f.mt.kind?.isSome = true
  maps : ∀ tab id x, t.maps (tab, id) = some x → s.maps (tab, id) = some x ∨ x ∉ s.opened ∨
    (∃ e ∈ s.execs, e.phase = .spawned ∧ e.ex = x ∧ tab = servingTable e.kind) ∨
    ∃ f, OnWay s .client f ∧ f.ex = x ∧ f.mt.kind?.isSome = true ∧ tab = .servingMap

theorem Adds.nothing (hsent : t.sent = s.sent) (hway : ∀ d f, OnWay t d f → OnWay s d f)
    (hexecs : t.execs = s.execs) (hmaps : ∀ k x, t.maps k = some x → s.maps k = some x) : Adds s t where
  sent := hsent ▸ List.Subset.refl _
  frames := fun d f h => .inl (hway d f h)
  spawned := fun _ he _ => .inl (hexecs ▸ he)
  maps := fun _ _ x h => .inl (hmaps _ x h)

theorem put_none {id : Int} {k : Tab × Int} (h : (s.put tab id none).maps k = some x) :
    s.maps k = some x := by
  simp only [St.put, update_apply] at h
  split at h
  · cases h
  · exact h

theorem put_some {id : Int} {y : Exch} {k : Tab × Int} (h : (s.put tab id (some y)).maps k = some x) :
    s.maps k = some x ∨ (k = (tab, id) ∧ x = y) := by
  simp only [St.put, update_apply] at h
  split at h
  · rename_i heq
    cases h
    exact .inr ⟨heq, rfl⟩
  · exact .inl h

theorem onto_rest (s : St) (c : Nat) (d : Side) (f : Frame) :
    (s.onto c d f).sent = s.sent ∧ (s.onto c d f).execs = s.execs ∧ (s.onto c d f).maps = s.maps := by
  unfold St.onto
  split <;> exact ⟨rfl, rfl, rfl⟩

theorem emit_rest (s : St) (d : Side) (f : Frame) (c : Option Nat) :
    (s.emit d f c).sent = s.sent ∧ (s.emit d f c).execs = s.execs ∧ (s.emit d f c).maps = s.maps := by
  cases c with
  | none => exact ⟨rfl, rfl, rfl⟩
  | some c =>
    cases d with
    | client => exact onto_rest s c .server f
    | server => exact ⟨rfl, rfl, rfl⟩

/-- A frame that is no stream's request. -/
theorem adds_emit (d : Side) (c : Option Nat) (hf : f.mt.kind? = none) : Adds s (s.emit d f c) := by
  obtain ⟨hsent, hexecs, hmaps⟩ := emit_rest s d f c
  refine { Adds.nothing (s := s) (t := s) rfl (fun _ _ h => h) rfl (fun _ _ h => h) with
    sent := hsent ▸ List.Subset.refl _, frames := fun d' g hg => ?_, spawned := fun e he _ => .inl (hexecs ▸ he),
    maps := fun tab id x h => .inl (hmaps ▸ h) }
  rcases onWay_emit hg with hg | rfl
  · exact .inl hg
  · exact .inr (.inl hf)

theorem adds_request {c : Option Nat} (h : step s (.request x c) = some t) : Adds s t := by
  simp only [step] at h
  split at h
  · rename_i hx
    cases h
    obtain ⟨hsent, hexecs, hmaps⟩ := emit_rest { s with sent := x :: s.sent } x.side ⟨x.kind.request, x.id, x⟩ c
    refine ⟨hsent ▸ List.subset_cons_self x s.sent, fun d g hg => ?_, fun e he _ => .inl (by rwa [hexecs] at he),
      fun tab id y hy => .inl (by rwa [hmaps] at hy)⟩
    rcases onWay_emit hg with hg | rfl
    · exact .inl hg
    · exact .inr (.inr (hx.2.imp_right And.right))
  · cases h

theorem adds_issue (hi : Inv s) {d : Side} {kind : Kind} (h : step s (.issue d kind) = some t) :
    Adds s t := by
  have hnew : (⟨d, s.last d + 1, kind⟩ : Exch) ∉ s.opened :=
    fun hm => absurd (hi.fresh _ hm).2 (Nat.not_succ_le_self _)
  have hadd : Adds s ({ s with last := update s.last d (s.last d + 1), opened := ⟨d, s.last d + 1,
    kind⟩ :: s.opened }.put
      (Exch.table ⟨d, s.last d + 1, kind⟩) (Exch.id ⟨d, s.last d + 1, kind⟩) (some ⟨d, s.last d + 1, kind⟩)) := by
    refine { Adds.nothing (s := s) (t := s) rfl (fun _ _ h => h) rfl (fun _ _ h => h) with
      maps := fun tab id x hx => ?_ }
    rcases put_some hx with hx | ⟨-, rfl⟩
    · exact .inl hx
    · exact .inr (.inl hnew)
  simp only [step, Option.some.injEq] at h
  subst h
  split
  · exact { hadd with }
  · exact hadd

theorem adds_exec {i : Nat} {e : Exec} {p : Phase} (hp : p ≠ .spawned) :
    Adds s { s with execs := s.execs.set i { e with phase := p } } := by
  refine { Adds.nothing (s := s) (t := s) rfl (fun _ _ h => h) rfl (fun _ _ h => h) with
    spawned := fun e' he' hs => ?_ }
  rcases List.mem_or_eq_of_mem_set he' with he' | rfl
  · exact .inl he'
  · exact absurd hs hp

theorem adds_register {i : Nat} (h : step s (.register i) = some t) : Adds s t := by
  simp only [step] at h
  split at h
  · rename_i e he
    split at h
    · rename_i hp
      cases h
      refine { adds_exec (s := s) (i := i) (e := e) (p := .running) (by decide) with maps := fun tab id x hx => ?_ }
      rcases put_some hx with hx | ⟨heq, rfl⟩
      · exact .inl hx
      · exact .inr (.inr (.inl ⟨e, List.mem_of_getElem? he, hp, rfl, congrArg Prod.fst heq⟩))
    · cases h
  · cases h

/-- A record that was found takes the frame; of the tables only its own entry may go. -/
theorem hit_shape (s : St) (c : Nat) (d : Side) (f : Frame) (x : Exch) (tab : Tab) :
    ∃ pc maps calls, s.hit c d f x tab = { s.goto c d pc with maps := maps, calls := calls } ∧ pc.frame = none ∧
      ∀ k y, maps k = some y → s.maps k = some y := by
  cases tab with
  | pendingCalls => exact ⟨_, _, _, rfl, rfl, fun _ _ h => put_none h⟩
  | requestCtxMap =>
    simp only [St.hit]
    split
    · exact ⟨_, _, _, rfl, rfl, fun _ _ h => h⟩
    · exact ⟨_, _, _, rfl, rfl, fun _ _ h => h⟩
  | servingMap => exact ⟨_, _, _, rfl, rfl, fun _ _ h => h⟩
  | pendingStreams => exact ⟨_, _, _, rfl, rfl, fun _ _ h => h⟩
  | requestMap => exact ⟨_, _, _, rfl, rfl, fun _ _ h => h⟩
  | requestCancels => exact ⟨_, _, _, rfl, rfl, fun _ _ h => h⟩

theorem process_shape {d : Side} {ops : List Op} {op : Op} (h : s.process c d x f ops op = some t) :
    ∃ maps ctxs, t = { s.goto c d (.process x f ops) with maps := maps, ctxs := ctxs } ∧
      ∀ k y, maps k = some y → s.maps k = some y := by
  cases op with
  | notifyResult =>
    simp only [St.process] at h
    split at h
    · cases h
      exact ⟨_, _, rfl, fun _ _ h => h⟩
    · split at h <;> cases h
      exact ⟨_, _, rfl, fun _ _ h => h⟩
  | setError => cases h; exact ⟨_, _, rfl, fun _ _ h => h⟩
  | close => cases h; exact ⟨_, _, rfl, fun _ _ h => h⟩
  | delete => cases h; exact ⟨_, _, rfl, fun _ _ h => put_none h⟩

/-- A read loop lets go of its frame. -/
theorem onWay_done (c : Nat) (d' : Side) (pc : Pc) (hpc : pc.frame = none) (h : OnWay (s.goto c d' pc) d f) :
    OnWay s d f :=
  (onWay_goto h).resolve_right (by simp [hpc])

theorem initiates_kind {mt : MessageType} (h : initiates x mt = true) : mt.kind? = none := by
  obtain ⟨side, n, kind⟩ := x
  cases mt <;> first | rfl | (cases side <;> cases kind <;> cases h)

theorem responds_kind {k : Kind} {mt : MessageType} (h : responds k mt = true) : mt.kind? = none := by
  cases mt <;> first | rfl | (cases k <;> cases h)

theorem adds_spawn {d : Side} (hl : s.loops (c, d) = .new f) {kind : Kind} (hk : f.mt.kind? = some kind)
    (p : Phase) : Adds s (s.spawn c d f kind p) := by
  refine { Adds.nothing (s := s) (t := s) rfl (fun _ _ h => h) rfl (fun _ _ h => h) with
    frames := fun _ _ h => .inl (onWay_done c d .idle rfl h), spawned := fun e he _ => ?_ }
  rcases List.mem_append.mp he with he | he
  · exact .inl he
  · cases List.mem_singleton.mp he
    exact .inr ⟨f, .inr (.inl ⟨c, by rw [hl]; rfl⟩), rfl, by rw [hk]; rfl⟩

theorem adds_serveNew {d : Side} (hl : s.loops (c, d) = .new f) (accept : Bool) :
    Adds s (s.serveNew c d f accept) := by
  rcases serveNew_cases s c d f accept with ⟨-, heq⟩ | ⟨kind, phase, hk, hp, heq | ⟨rfl, hne, heq⟩⟩
  · rw [heq]
    exact Adds.nothing rfl (fun _ _ h => onWay_done c _ .idle rfl h) rfl fun _ _ h => h
  · rw [heq]
    exact adds_spawn hl hk phase
  · rw [heq]
    refine { adds_spawn hl hk phase with maps := fun tab id x hx => ?_ }
    rcases put_some hx with hx | ⟨hkey, rfl⟩
    · exact .inl hx
    · exact .inr (.inr (.inr ⟨f, .inr (.inl ⟨c, by rw [hl]; rfl⟩), rfl, by rw [hk]; rfl, congrArg Prod.fst hkey⟩))

theorem adds_serve {d : Side} (h : s.serve c d accept = some t) : Adds s t := by
  have hidle : ∀ d' f, OnWay (s.goto c d .idle) d' f → OnWay s d' f := fun d' f h => onWay_done c d .idle rfl h
  simp only [St.serve] at h
  split at h
  · cases h
  · rename_i tab g hl
    split at h
    · rename_i x _
      cases h
      obtain ⟨pc, maps, calls, heq, hpc, hmaps⟩ := hit_shape s c d g x tab
      rw [heq]
      exact Adds.nothing rfl (fun _ _ h => onWay_done c d pc hpc h) rfl hmaps
    · split at h
      · rename_i pc hm
        cases h
        refine Adds.nothing rfl (fun d' f h => ?_) rfl fun _ _ h => h
        rcases onWay_goto h with hw | ⟨rfl, hw⟩
        · exact hw
        · -- the next table, with the same frame
          rw [miss_frame hm] at hw
          exact .inr (.inl ⟨c, by rw [hl]; exact hw⟩)
      · cases h
        exact Adds.nothing rfl hidle rfl fun _ _ h => h
  · rename_i f hl
    cases h
    exact adds_serveNew hl accept
  · cases h
    exact Adds.nothing rfl hidle rfl fun _ _ h => h
  · obtain ⟨maps, ctxs, rfl, hmaps⟩ := process_shape h
    exact Adds.nothing rfl (fun _ _ h => onWay_done c d _ rfl h) rfl hmaps
  · simp only [St.complete] at h
    split at h
    · cases h
      exact Adds.nothing rfl hidle rfl fun _ _ h => h
    · cases h

theorem adds_write {c : Option Nat} (h : step s (.write c) = some t) : Adds s t := by
  simp only [step] at h
  split at h
  · cases h
  · rename_i g fs hq
    cases h
    have hfs : ∀ d f, OnWay { s with outgoingQueue := fs } d f → OnWay s d f := by
      rintro d f (h | h | ⟨hd, h⟩)
      · exact .inl h
      · exact .inr (.inl h)
      · exact .inr (.inr ⟨hd, by rw [hq]; exact List.mem_cons_of_mem g h⟩)
    cases c with
    | none => exact Adds.nothing rfl hfs rfl fun _ _ h => h
    | some c =>
      obtain ⟨hsent, hexecs, hmaps⟩ := onto_rest { s with outgoingQueue := fs } c .client g
      refine Adds.nothing hsent (fun d f h => ?_) hexecs fun k x h => by rwa [hmaps] at h
      rcases onWay_onto h with h | ⟨rfl, rfl⟩
      · exact hfs d f h
      · exact .inr (.inr ⟨rfl, by rw [hq]; exact List.mem_cons_self⟩)

theorem adds_read {d : Side} (h : step s (.read c d) = some t) : Adds s t := by
  simp only [step] at h
  split at h
  · rename_i g fs hl hg
    cases h
    refine Adds.nothing rfl (fun d' f h => ?_) rfl fun _ _ h => h
    rcases onWay_goto h with hw | ⟨rfl, hw⟩
    · exact onWay_shorten (fun f hf => by rw [hg]; exact List.mem_cons_of_mem g hf) hw
    · rw [dispatch_frame] at hw
      cases hw
      exact .inl ⟨c, by rw [hg]; exact List.mem_cons_self⟩
  · cases h

theorem step_adds (hi : Inv s) (h : step s e = some t) : Adds s t := by
  have hsame : ∀ {u : St}, u.sent = s.sent → u.lanes = s.lanes → u.loops = s.loops →
    u.outgoingQueue = s.outgoingQueue →
      u.execs = s.execs → (∀ k x, u.maps k = some x → s.maps k = some x) → Adds s u := by
    intro u hsent hlanes hloops hqueue hexecs hmaps
    exact Adds.nothing hsent (fun d f hf => by rwa [OnWay, hlanes, hloops, hqueue] at hf) hexecs hmaps
  cases e with
  | connect =>
    cases h
    exact hsame rfl rfl rfl rfl rfl fun _ _ h => h
  | cut c d k =>
    cases h
    exact Adds.nothing rfl (fun d' f hf => onWay_shorten (fun f hf => List.mem_of_mem_take hf) hf) rfl fun _ _ h => h
  | issue d kind => exact adds_issue hi h
  | request x c => exact adds_request h
  | send x mt c =>
    simp only [step] at h
    split at h
    · rename_i hx
      cases h
      exact adds_emit x.side c (initiates_kind hx.2)
    · cases h
  | reply i mt c =>
    simp only [step] at h
    split at h
    · rename_i e' _
      split at h
      · rename_i hm
        cases h
        refine adds_emit e'.side c ?_
        rcases hm with ⟨-, hm⟩ | ⟨-, rfl⟩
        · exact responds_kind hm
        · rfl
      · cases h
    · cases h
  | register i => exact adds_register h
  | refuse i =>
    simp only [step] at h
    split at h
    · split at h
      · cases h
        exact adds_exec (by decide)
      · cases h
    · cases h
  | retire tab x =>
    simp only [step] at h
    split at h
    · cases h
      exact hsame rfl rfl rfl rfl rfl fun _ _ h => put_none h
    · cases h
  | write c => exact adds_write h
  | read c d => exact adds_read h
  | serve c d accept => exact adds_serve h
  | fail n =>
    cases h
    exact hsame rfl rfl rfl rfl rfl fun _ _ h => h
  | close n =>
    cases h
    exact hsame rfl rfl rfl rfl rfl fun _ _ h => h
  | singleResp n r =>
    simp only [step] at h
    split at h
    · obtain ⟨o, -, rfl⟩ := Option.map_eq_some_iff.mp h
      exact hsame rfl rfl rfl rfl rfl fun _ _ h => h
    · cases h
  | select n recv =>
    simp only [step] at h
    split at h
    · split at h
      · obtain ⟨o, -, rfl⟩ := Option.map_eq_some_iff.mp h
        exact hsame rfl rfl rfl rfl rfl fun _ _ h => h
      · cases h
        exact hsame rfl rfl rfl rfl rfl fun _ _ h => h
    · cases h
  | leave n =>
    simp only [step] at h
    split at h
    · cases h
      exact hsame rfl rfl rfl rfl rfl fun _ _ h => put_none h
    · cases h

/-! ## Gone for good -/

/-- An end has no record of an exchange, and gets none. -/
structure Lost (s : St) (d : Side) (x : Exch) : Prop where
  tables : ∀ tab : Tab, tab.side = d → tab ≠ .requestCancels → s.maps (tab, x.id) = none
  frames : ∀ f, OnWay s d f → f.opens x = false
  execs : ∀ e ∈ s.execs, e.opens d x = false

theorem Frame.opens_iff :
    f.opens x = true ↔ f.ex = x ∧ f.mt.kind?.isSome = true ∧ x.kind ≠ .unary := by
  simp [Frame.opens, and_assoc]

theorem Exec.opens_iff {e : Exec} :
    e.opens d x = true ↔ e.ex = x ∧ e.side = d ∧ e.phase = .spawned ∧ x.kind ≠ .unary := by
  simp [Exec.opens, and_assoc]

/-- What a table has under the id of an exchange is its record. -/
theorem Inv.entry (hi : Inv s) {y : Exch} (hx : x ∈ s.opened) (h : s.maps (tab, x.id) = some y) :
    y = x ∧ tab.holds x = true := by
  obtain ⟨hy, hid, hholds⟩ := hi.maps _ _ _ h
  cases hi.id_inj hx hy hid
  exact ⟨rfl, hholds⟩

/-- Nothing a step adds brings it back. -/
theorem Lost.step (hl : Lost s d x) (hi : Inv s) (hx : x ∈ s.sent) (hi' : Inv t) (ha : Adds s t) :
    Lost t d x where
  tables := fun tab htab hne => by
    by_contra hsome
    obtain ⟨y, hy⟩ := Option.ne_none_iff_exists'.mp hsome
    obtain ⟨rfl, hholds⟩ := hi'.entry (hi'.sent x (ha.sent hx)) hy
    rcases ha.maps _ _ _ hy with h | h | ⟨e, he, hp, rfl, rfl⟩ | ⟨f, hf, rfl, hk, rfl⟩
    · rw [hl.tables tab htab hne] at h
      cases h
    · exact h (hi.sent _ hx)
    · have hok := hi.execs e he
      have hkind : e.ex.kind ≠ .unary := by
        intro hu
        rw [hok.kind, hu] at hne
        exact hne rfl
      have hd : e.side = d := by
        rw [hok.spawned hp, ← htab]
        cases e.kind <;> rfl
      have := hl.execs e he
      rw [Exec.opens_iff.mpr ⟨rfl, hd, hp, hkind⟩] at this
      cases this
    · have hkind : f.ex.kind ≠ .unary := by
        simp only [Tab.holds, Bool.and_eq_true, decide_eq_true_eq] at hholds
        exact hholds.2
      rw [← htab] at hl
      have := hl.frames f hf
      rw [Frame.opens_iff.mpr ⟨rfl, hk, hkind⟩] at this
      cases this
  frames := fun f hf => by
    by_contra hne
    obtain ⟨rfl, hk, hkind⟩ := Frame.opens_iff.mp (eq_true_of_ne_false hne)
    rcases ha.frames d f hf with h | h | h | h
    · exact hne (hl.frames f h)
    · rw [h] at hk
      cases hk
    · exact h hx
    · exact hkind h
  execs := fun e he => by
    by_contra hne
    obtain ⟨rfl, rfl, hp, hkind⟩ := Exec.opens_iff.mp (eq_true_of_ne_false hne)
    rcases ha.spawned e he hp with h | ⟨f, hf, hex, hk⟩
    · exact hne (hl.execs e h)
    · have := hl.frames f hf
      rw [Frame.opens_iff.mpr ⟨hex, hk, hkind⟩] at this
      cases this

/-! ## Looking a frame up -/

def home (d : Side) (x : Exch) : Option Tab :=
  if x.side = d then some x.table else if x.kind = .unary then none else some d.serving

theorem home_of_holds (hside : tab.side = d) (hne : tab ≠ .requestCancels) (h : tab.holds x = true) :
    home d x = some tab := by
  obtain ⟨side, n, kind⟩ := x
  subst hside
  cases tab <;> simp only [Tab.holds, Bool.and_eq_true, decide_eq_true_eq] at h
  · simp [home, Tab.side, h, Exch.table]
  · simp [home, Tab.side, h, Side.serving]
  · cases kind <;> simp_all [home, Tab.side, Exch.table]
  · simp [home, Tab.side, h, Exch.table]
  · simp [home, Tab.side, h, Side.serving]
  · exact absurd rfl hne

/-- No connection has a frame or a read loop before it is there. -/
def Quiet (s : St) : Prop := ∀ c d, s.conns ≤ c → s.lanes (c, d) = [] ∧ s.loops (c, d) = .idle

/-- Nothing is on its way, and nothing is about to be registered. -/
theorem not_arriving (hq : Quiet s) (h : arriving s d x = false) :
    (∀ f, OnWay s d f → f.opens x = false) ∧ ∀ e ∈ s.execs, e.opens d x = false := by
  simp only [arriving, Bool.or_eq_false_iff, List.any_eq_false, List.mem_range, Bool.and_eq_false_iff] at h
  obtain ⟨⟨hconn, hqueue⟩, hexecs⟩ := h
  refine ⟨fun f hf => ?_, fun e he => by simpa using hexecs e he⟩
  rcases hf with ⟨c, hf⟩ | ⟨c, hf⟩ | ⟨rfl, hf⟩
  · by_cases hc : c < s.conns
    · have := hconn c hc
      simp only [Bool.or_eq_true, List.any_eq_true, not_or, not_exists, not_and] at this
      simpa using this.1 f hf
    · rw [(hq c d (by omega)).1] at hf
      cases hf
  · by_cases hc : c < s.conns
    · have := hconn c hc
      simp only [Bool.or_eq_true, not_or] at this
      simpa [hf] using this.2
    · rw [(hq c d (by omega)).2] at hf
      cases hf
  · rcases hqueue with hqueue | hqueue
    · simp at hqueue
    · simpa using hqueue f hf

theorem Inv.onWay (hi : Inv s) (h : OnWay s d f) : Legal s.sent d f := by
  rcases h with ⟨c, h⟩ | ⟨c, h⟩ | ⟨rfl, h⟩
  · exact hi.lanes c d f h
  · have hp := hi.loops c d
    cases hpc : s.loops (c, d) with
    | probe tab g =>
      rw [hpc] at hp h
      cases h
      exact hp.1
    | new g =>
      rw [hpc] at hp h
      cases h
      exact hp
    | idle => simp [hpc, Pc.frame] at h
    | process x g ops => simp [hpc, Pc.frame] at h
    | completing x g => simp [hpc, Pc.frame] at h
  · exact hi.queue f h

/-- The table of an exchange has nothing, and the request of a stream is not still coming. -/
theorem lost_of_home (hi : Inv s) (hq : Quiet s) (hx : x ∈ s.sent) (hh : home d x = some tab)
    (hnone : s.maps (tab, x.id) = none) (harr : tab = d.serving → arriving s d x = false) : Lost s d x := by
  have htables : ∀ tab' : Tab, tab'.side = d → tab' ≠ .requestCancels → s.maps (tab', x.id) = none := by
    intro tab' hside hne
    by_contra hsome
    obtain ⟨y, hy⟩ := Option.ne_none_iff_exists'.mp hsome
    obtain ⟨rfl, hholds⟩ := hi.entry (hi.sent x hx) hy
    have := (home_of_holds hside hne hholds).symm.trans hh
    cases this
    exact hsome hnone
  by_cases hd : x.side = d
  · -- issued here: its request goes the other way
    refine ⟨htables, fun f hf => ?_, fun e he => ?_⟩
    · by_contra hne
      obtain ⟨rfl, hk, -⟩ := Frame.opens_iff.mp (eq_true_of_ne_false hne)
      obtain ⟨k, hk⟩ := Option.isSome_iff_exists.mp hk
      exact (legal_request (hi.onWay hf).legal hk).2 hd
    · by_contra hne
      obtain ⟨rfl, rfl, -⟩ := Exec.opens_iff.mp (eq_true_of_ne_false hne)
      exact (hi.execs e he).side hd
  · have htab : tab = d.serving := by
      simp only [home, if_neg hd] at hh
      split at hh
      · cases hh
      · exact (Option.some.inj hh).symm
    obtain ⟨hf, he⟩ := not_arriving hq (harr htab)
    exact ⟨htables, hf, he⟩

/-- An exchange an end keeps no record of: a call it serves. -/
theorem lost_of_unary (hi : Inv s) (hx : x ∈ s.sent) (hh : home d x = none) : Lost s d x := by
  have hu : x.kind = .unary := by
    by_contra hne
    simp only [home, if_neg hne] at hh
    split at hh <;> cases hh
  refine ⟨fun tab hside hne => ?_, fun f _ => by simp [Frame.opens, hu], fun e _ => by simp [Exec.opens, hu]⟩
  by_contra hsome
  obtain ⟨y, hy⟩ := Option.ne_none_iff_exists'.mp hsome
  obtain ⟨rfl, hholds⟩ := hi.entry (hi.sent x hx) hy
  rw [home_of_holds hside hne hholds] at hh
  cases hh

def Side.first : Side → Tab
  | .client => .servingMap
  | .server => .pendingStreams

/-- From the first table a frame goes on to its own. -/
theorem miss_first (hl : legal d f.ex f.mt = true) (hk : f.mt.kind? = none)
    (hh : home d f.ex = some tab) (hne : tab ≠ d.first) : miss f d.first = some (.probe tab f) := by
  obtain ⟨mt, reqId, side, n, kind⟩ := f
  cases d with
  | client =>
    cases side with
    | client =>
      cases hh
      rfl
    | server => cases kind <;> cases hh <;> exact absurd rfl hne
  | server =>
    cases side with
    | client => cases mt <;> cases hk <;> cases kind <;> cases hh <;> first | rfl | cases hl
    | server =>
      cases kind with
      | unary =>
        -- only a response comes for a call
        cases hh
        cases mt <;> cases hk <;> first | rfl | cases hl
      | getStream => cases hh; exact absurd rfl hne
      | putStream => cases hh; exact absurd rfl hne
      | chat => cases hh; exact absurd rfl hne

/-- A frame other than a request found nothing: it is at its first table, it comes to its
    own next, or its exchange has no record here. -/
theorem miss_lost (hi : Inv s) (hq : Quiet s) (hf : Legal s.sent d f) (hk : f.mt.kind? = none)
    (hnone : s.maps (tab, f.reqId) = none) (harr : tab = d.serving → arriving s d f.ex = false)
    (hpc : tab = d.first ∨ home d f.ex = some tab ∨ Lost s d f.ex) :
    (∃ tab', miss f tab = some (.probe tab' f) ∧ home d f.ex = some tab') ∨ Lost s d f.ex := by
  rw [hf.reqId] at hnone
  rcases hpc with rfl | hh | hl
  · cases hh : home d f.ex with
    | none => exact .inr (lost_of_unary hi hf.sent hh)
    | some tab' =>
      by_cases hne : tab' = d.first
      · subst hne
        exact .inr (lost_of_home hi hq hf.sent hh hnone harr)
      · exact .inl ⟨tab', miss_first hf.legal hk hh hne, rfl⟩
  · exact .inr (lost_of_home hi hq hf.sent hh hnone harr)
  · exact .inr hl

/-! ## Every run in order -/

/-- A read loop with a request is before the tables of responses and of cancels; with any
    other frame it is not past the table of a record there may be. -/
def PcLost (s : St) (d : Side) : Pc → Prop
  | .probe tab f =>
    (f.mt.kind?.isSome = true ∧ (tab = .pendingStreams ∨ tab = .requestMap)) ∨
      (f.mt.kind? = none ∧ (tab = d.first ∨ home d f.ex = some tab ∨ Lost s d f.ex))
  | .new f => f.mt.kind?.isSome = true ∨ Lost s d f.ex
  | _ => True

structure Ordered (s : St) : Prop where
  quiet : Quiet s
  loops : ∀ c d, PcLost s d (s.loops (c, d))
  unhandled : ∀ d f, (d, f) ∈ s.unhandled → Legal s.sent d f ∧ Lost s d f.ex

theorem PcLost.step (hp : PcLost s d pc) (hok : PcOk s.sent s.calls c d pc) (hi : Inv s) (hi' : Inv t)
    (ha : Adds s t) : PcLost t d pc := by
  cases pc with
  | probe tab f =>
    refine hp.imp_right fun h => ⟨h.1, h.2.imp_right fun h => h.imp_right fun hl => ?_⟩
    exact hl.step hi hok.1.sent hi' ha
  | new f => exact hp.imp_right fun hl => hl.step hi (Legal.sent hok) hi' ha
  | idle => trivial
  | process x f ops => trivial
  | completing x f => trivial

theorem dispatch_lost (d : Side) (f : Frame) : PcLost s d (dispatch d f) := by
  cases hk : f.mt.kind? with
  | none =>
    cases d with
    | server => exact .inr ⟨hk, .inl rfl⟩
    | client =>
      simp only [dispatch, hk, Option.isSome_none, Bool.false_eq_true, if_false]
      exact .inr ⟨hk, .inl rfl⟩
  | some k =>
    cases d with
    | server => exact .inl ⟨by rw [hk]; rfl, .inl rfl⟩
    | client =>
      simp only [dispatch, hk, Option.isSome_some, if_true]
      exact .inl (by rw [hk]; rfl)

theorem quiet_goto (hq : Quiet s) {d : Side} (hc : c < s.conns) (pc : Pc) : Quiet (s.goto c d pc) := by
  intro c' d' hle
  obtain ⟨h1, h2⟩ := hq c' d' hle
  refine ⟨h1, ?_⟩
  have hle : s.conns ≤ c' := hle
  simp only [St.goto, update_apply]
  rw [if_neg (by rintro ⟨⟩; omega)]
  exact h2

theorem quiet_onto (hq : Quiet s) (c : Nat) (d : Side) (f : Frame) : Quiet (s.onto c d f) := by
  unfold St.onto
  split
  · rename_i hc
    intro c' d' hle
    obtain ⟨h1, h2⟩ := hq c' d' hle
    have hle : s.conns ≤ c' := hle
    refine ⟨?_, h2⟩
    simp only [update_apply]
    rw [if_neg (by rintro ⟨⟩; omega)]
    exact h1
  · exact hq

theorem quiet_emit (hq : Quiet s) (d : Side) (f : Frame) (c : Option Nat) : Quiet (s.emit d f c) := by
  cases c with
  | none => exact hq
  | some c =>
    cases d with
    | client => exact quiet_onto hq c .server f
    | server => exact hq

theorem quiet_shorten (hq : Quiet s) {d : Side} {fs : List Frame} (hfs : s.lanes (c, d) = [] → fs = []) :
    Quiet { s with lanes := update s.lanes (c, d) fs } := by
  intro c' d' hle
  obtain ⟨h1, h2⟩ := hq c' d' hle
  refine ⟨?_, h2⟩
  simp only [update_apply]
  split
  · rename_i heq
    cases heq
    exact hfs h1
  · exact h1

/-- A read loop that has something to do is one of a connection. -/
theorem Quiet.lt (hq : Quiet s) (h : s.loops (c, d) ≠ .idle) : c < s.conns :=
  Nat.lt_of_not_le fun hle => h (hq c d hle).2

theorem quiet_serve (hq : Quiet s) {d : Side} (h : s.serve c d accept = some t) :
    Quiet t := by
  have hgoto : s.loops (c, d) ≠ .idle → ∀ pc, Quiet (s.goto c d pc) := fun hne pc => quiet_goto hq (hq.lt hne) pc
  simp only [St.serve] at h
  split at h
  · cases h
  · rename_i tab f hl
    have hgoto := hgoto (by rw [hl]; intro h; cases h)
    split at h
    · rename_i x _
      cases h
      obtain ⟨pc, maps, calls, heq, -⟩ := hit_shape s c d f x tab
      rw [heq]
      exact hgoto pc
    · split at h <;> cases h <;> exact hgoto _
  · rename_i f hl
    have hgoto := hgoto (by rw [hl]; intro h; cases h)
    cases h
    rcases serveNew_cases s c d f accept with ⟨-, heq⟩ | ⟨kind, phase, -, -, heq | ⟨-, -, heq⟩⟩
    all_goals
      rw [heq]
      exact hgoto .idle
  · rename_i hl
    cases h
    exact hgoto (by rw [hl]; intro h; cases h) _
  · rename_i x f op ops hl
    obtain ⟨maps, ctxs, rfl, -⟩ := process_shape h
    exact hgoto (by rw [hl]; intro h; cases h) _
  · rename_i x f hl
    have hgoto := hgoto (by rw [hl]; intro h; cases h)
    simp only [St.complete] at h
    split at h
    · cases h
      exact hgoto _
    · cases h

/-- The steps that are not a read loop's. -/
theorem step_rest (hq : Quiet s) (h : step s e = some t) (hread : ∀ c d, e ≠ .read c d)
    (hserve : ∀ c d a, e ≠ .serve c d a) : Quiet t ∧ t.loops = s.loops ∧ t.unhandled = s.unhandled := by
  have hemit : ∀ (u : St) d f c, Quiet u → u.loops = s.loops → u.unhandled = s.unhandled →
      Quiet (u.emit d f c) ∧ (u.emit d f c).loops = s.loops ∧ (u.emit d f c).unhandled = s.unhandled := by
    intro u d f c hu hl hn
    refine ⟨quiet_emit hu d f c, ?_⟩
    rw [← hl, ← hn]
    cases c with
    | none => exact ⟨rfl, rfl⟩
    | some c =>
      cases d with
      | client =>
        simp only [St.emit, St.onto]
        split <;> exact ⟨rfl, rfl⟩
      | server => exact ⟨rfl, rfl⟩
  cases e with
  | connect =>
    cases h
    exact ⟨fun c d hle => hq c d (Nat.le_of_succ_le hle), rfl, rfl⟩
  | cut c d k =>
    cases h
    exact ⟨quiet_shorten hq fun h => by rw [h, List.take_nil], rfl, rfl⟩
  | issue d kind =>
    simp only [step, Option.some.injEq] at h
    subst h
    split <;> exact ⟨hq, rfl, rfl⟩
  | request x c =>
    simp only [step] at h
    split at h
    · cases h
      exact hemit { s with sent := x :: s.sent } _ _ _ hq rfl rfl
    · cases h
  | send x mt c =>
    simp only [step] at h
    split at h
    · cases h
      exact hemit s _ _ _ hq rfl rfl
    · cases h
  | reply i mt c =>
    simp only [step] at h
    split at h
    · split at h
      · cases h
        exact hemit s _ _ _ hq rfl rfl
      · cases h
    · cases h
  | register i =>
    simp only [step] at h
    split at h
    · split at h
      · cases h
        exact ⟨hq, rfl, rfl⟩
      · cases h
    · cases h
  | refuse i =>
    simp only [step] at h
    split at h
    · split at h
      · cases h
        exact ⟨hq, rfl, rfl⟩
      · cases h
    · cases h
  | retire tab x =>
    simp only [step] at h
    split at h
    · cases h
      exact ⟨hq, rfl, rfl⟩
    · cases h
  | write c =>
    simp only [step] at h
    split at h
    · cases h
    · rename_i g fs _
      cases h
      cases c with
      | none => exact ⟨hq, rfl, rfl⟩
      | some c =>
        refine ⟨quiet_onto (s := { s with outgoingQueue := fs }) hq c .client g, ?_⟩
        simp only [St.onto]
        split <;> exact ⟨rfl, rfl⟩
  | read c d => exact absurd rfl (hread c d)
  | serve c d accept => exact absurd rfl (hserve c d accept)
  | fail n =>
    cases h
    exact ⟨hq, rfl, rfl⟩
  | close n =>
    cases h
    exact ⟨hq, rfl, rfl⟩
  | singleResp n r =>
    simp only [step] at h
    split at h
    · obtain ⟨o, -, rfl⟩ := Option.map_eq_some_iff.mp h
      exact ⟨hq, rfl, rfl⟩
    · cases h
  | select n recv =>
    simp only [step] at h
    split at h
    · split at h
      · obtain ⟨o, -, rfl⟩ := Option.map_eq_some_iff.mp h
        exact ⟨hq, rfl, rfl⟩
      · cases h
        exact ⟨hq, rfl, rfl⟩
    · cases h
  | leave n =>
    simp only [step] at h
    split at h
    · cases h
      exact ⟨hq, rfl, rfl⟩
    · cases h

theorem Ordered.step (ho : Ordered s) (hi : Inv s) (hi' : Inv t) (ha : Adds s t) (hq : Quiet t)
    (hloops : ∀ c d, t.loops (c, d) = s.loops (c, d) ∨ PcLost t d (t.loops (c, d)))
    (hun : ∀ d f, (d, f) ∈ t.unhandled → (d, f) ∈ s.unhandled ∨ (Legal s.sent d f ∧ Lost s d f.ex)) :
    Ordered t where
  quiet := hq
  loops := fun c d => by
    rcases hloops c d with h | h
    · rw [h]
      exact (ho.loops c d).step (hi.loops c d) hi hi' ha
    · exact h
  unhandled := fun d f h => by
    obtain ⟨hf, hl⟩ := (hun d f h).elim (ho.unhandled d f) id
    exact ⟨hf.mono ha.sent, hl.step hi hf.sent hi' ha⟩

theorem PcLost.of_frame (h : pc.frame = none) : PcLost s d pc := by
  cases pc <;> trivial

theorem PcLost.of_lost (h : pc.frame = some f) (hk : f.mt.kind? = none) (hl : Lost s d f.ex) :
    PcLost s d pc := by
  cases pc with
  | probe tab g => cases h; exact .inr ⟨hk, .inr (.inr hl)⟩
  | new g => cases h; exact .inr hl
  | idle => trivial
  | process x g ops => trivial
  | completing x g => trivial

/-- A request goes on to `requestMap`, and from there to be served. -/
theorem miss_request (hk : f.mt.kind?.isSome = true) (htab : tab = .pendingStreams ∨ tab = .requestMap) :
    ∃ pc, miss f tab = some pc ∧ PcLost s d pc := by
  obtain ⟨mt, reqId, ex⟩ := f
  rcases htab with rfl | rfl
  · refine ⟨.probe .requestMap _, ?_, .inl ⟨hk, .inr rfl⟩⟩
    cases mt <;> first | rfl | cases hk
  · refine ⟨.new _, ?_, .inl hk⟩
    cases mt <;> first | rfl | cases hk

/-- A change of one read loop. -/
theorem loops_goto (c : Nat) (d : Side) (pc : Pc) {P : Side → Pc → Prop} (hp : P d pc) (c' : Nat) (d' : Side) :
    (s.goto c d pc).loops (c', d') = s.loops (c', d') ∨ P d' ((s.goto c d pc).loops (c', d')) := by
  simp only [St.goto, update_apply]
  split
  · rename_i heq
    cases heq
    exact .inr hp
  · exact .inl rfl

/-- The frame a read loop gives up on is added, and nothing else. -/
theorem mem_unhandled (h : (d, g) ∈ s.unhandled ++ [(d', f)]) {P : Side → Frame → Prop} (hp : P d' f) :
    (d, g) ∈ s.unhandled ∨ P d g := by
  rcases List.mem_append.mp h with h | h
  · exact .inl h
  · cases List.mem_singleton.mp h
    exact .inr hp

theorem ordered_serve (ho : Ordered s) (hi : Inv s) (hi' : Inv t) {d : Side}
    (hord : inOrder s (.serve c d accept) = true) (h : s.serve c d accept = some t) : Ordered t := by
  have ha := adds_serve h
  have hq := quiet_serve ho.quiet h
  have hpc := hi.loops c d
  have hlost := ho.loops c d
  simp only [inOrder, Bool.and_eq_true] at hord
  have hord := hord.2
  simp only [St.serve] at h
  split at h
  · cases h
  · rename_i tab f hl
    rw [hl] at hpc hlost hord
    obtain ⟨hf, htab⟩ := hpc
    split at h
    · rename_i x _
      obtain ⟨pc, maps, calls, heq, hnone, -⟩ := hit_shape s c d f x tab
      rw [heq] at h
      cases h
      exact ho.step hi hi' ha hq (loops_goto c d _ (PcLost.of_frame hnone)) fun _ _ h => .inl h
    · rename_i hnone
      simp only [hnone, Option.isSome_none, Bool.or_false, Bool.or_eq_true, Bool.not_eq_true',
        decide_eq_true_eq] at hord
      have hmiss : f.mt.kind? = none →
          (∃ tab', miss f tab = some (.probe tab' f) ∧ home d f.ex = some tab') ∨ Lost s d f.ex := by
        intro hk
        refine miss_lost hi ho.quiet hf hk hnone (fun htab => ?_) ((hlost.resolve_left (by simp [hk])).2)
        simpa [htab, hk] using hord
      split at h
      · rename_i pc hm
        cases h
        refine ho.step hi hi' ha hq (loops_goto c d _ ?_) fun _ _ h => .inl h
        rcases hlost with ⟨hk, htab⟩ | ⟨hk, -⟩
        · obtain ⟨pc', hm', hp⟩ := miss_request (s := s.goto c d pc) (d := d) hk htab
          cases hm.symm.trans hm'
          exact hp
        · rcases hmiss hk with ⟨tab', hm', hh⟩ | hl
          · cases hm.symm.trans hm'
            exact .inr ⟨hk, .inr (.inl hh)⟩
          · exact PcLost.of_lost (miss_frame hm) hk (hl.step hi hf.sent hi' ha)
      · rename_i hm
        cases h
        have hl : Lost s d f.ex := by
          rcases hlost with ⟨hk, htab⟩ | ⟨hk, -⟩
          · obtain ⟨pc', hm', -⟩ := miss_request (s := s) (d := d) hk htab
            cases hm.symm.trans hm'
          · exact (hmiss hk).resolve_left fun hto => by obtain ⟨tab', hm', -⟩ := hto; cases hm.symm.trans hm'
        exact ho.step hi hi' ha hq (loops_goto c d _ trivial) fun _ _ h =>
          mem_unhandled (P := fun d f => Legal s.sent d f ∧ Lost s d f.ex) h ⟨hf, hl⟩
  · rename_i f hl
    rw [hl] at hpc hlost
    cases h
    rcases serveNew_cases s c d f accept with ⟨hk, heq⟩ | ⟨kind, phase, -, -, heq | ⟨-, -, heq⟩⟩
    · rw [heq] at hi' ha hq ⊢
      have hl : Lost s d f.ex := hlost.resolve_left (by simp [hk])
      exact ho.step hi hi' ha hq (loops_goto c d _ trivial) fun _ _ h =>
        mem_unhandled (P := fun d f => Legal s.sent d f ∧ Lost s d f.ex) h ⟨hpc, hl⟩
    · rw [heq] at hi' ha hq ⊢
      exact ho.step hi hi' ha hq (loops_goto c d .idle trivial) fun _ _ h => .inl h
    · rw [heq] at hi' ha hq ⊢
      exact ho.step hi hi' ha hq (loops_goto c d .idle trivial) fun _ _ h => .inl h
  · cases h
    exact ho.step hi hi' ha hq (loops_goto c d _ trivial) fun _ _ h => .inl h
  · obtain ⟨maps, ctxs, rfl, -⟩ := process_shape h
    exact ho.step hi hi' ha hq (loops_goto c d _ trivial) fun _ _ h => .inl h
  · simp only [St.complete] at h
    split at h
    · cases h
      exact ho.step hi hi' ha hq (loops_goto c d _ trivial) fun _ _ h => .inl h
    · cases h

theorem ordered_read (ho : Ordered s) (hi : Inv s) (hi' : Inv t) {d : Side} (h : step s (.read c d) = some t) :
    Ordered t := by
  have ha := adds_read h
  simp only [step] at h
  split at h
  · rename_i f fs _ hf
    cases h
    have hc : c < s.conns := Nat.lt_of_not_le fun hle => by
      rw [(ho.quiet c d hle).1] at hf
      cases hf
    have hq : Quiet { s with lanes := update s.lanes (c, d) fs } := quiet_shorten ho.quiet fun h => by
      rw [hf] at h
      cases h
    exact ho.step hi hi' ha (quiet_goto hq hc _) (loops_goto c d _ (dispatch_lost d f)) fun _ _ h => .inl h
  · cases h

theorem step_ordered (ho : Ordered s) (hi : Inv s) (hi' : Inv t) (hord : inOrder s e = true)
    (h : step s e = some t) : Ordered t := by
  by_cases hread : ∃ c d, e = .read c d
  · obtain ⟨c, d, rfl⟩ := hread
    exact ordered_read ho hi hi' h
  · by_cases hserve : ∃ c d a, e = .serve c d a
    · obtain ⟨c, d, a, rfl⟩ := hserve
      exact ordered_serve ho hi hi' hord h
    · obtain ⟨hq, hloops, hun⟩ := step_rest ho.quiet h (fun c d he => hread ⟨c, d, he⟩) fun c d a he =>
        hserve ⟨c, d, a, he⟩
      exact ho.step hi hi' (step_adds hi h) hq (fun c d => .inl (congrFun hloops _)) fun d f hf => .inl (hun ▸ hf)

theorem ordered_start : Ordered start := ⟨fun _ _ _ => ⟨rfl, rfl⟩, fun _ _ => trivial, nofun⟩

theorem bounded_of_inOrder (h : inOrder s e = true) : bounded s e = true := by
  simp only [inOrder, Bool.and_eq_true] at h
  exact h.1

/-- Over every interleaving of calls and streams of both ends, reconnects included, in which
    no frame finds a stream's table empty ahead of the stream's request: a frame is handled
    by the record of its own exchange, or by none, and then that record is gone and no table
    of that end has one again; with what `NoCrossTalk` says of calls and `pendingCalls`. -/
theorem routed (h : sys.Reach (fun s e => inOrder s e = true) s) :
    NoCrossTalk s ∧ ∀ d f, (d, f) ∈ s.unhandled → ∀ tab : Tab, tab.side = d → tab ≠ .requestCancels →
      s.maps (tab, f.reqId) = none := by
  obtain ⟨hi, ho⟩ := h.inv (P := fun s => Inv s ∧ Ordered s)
    (fun s hs => by cases hs; exact ⟨inv_start, ordered_start⟩)
    fun s e t ⟨hi, ho⟩ hord hs =>
      have hi' := step_inv hi (bounded_of_inOrder hord) hs
      ⟨hi', step_ordered ho hi hi' hord hs⟩
  refine ⟨hi.noCrossTalk, fun d f hf tab hside hne => ?_⟩
  obtain ⟨hlegal, hl⟩ := ho.unhandled d f hf
  rw [hlegal.reqId]
  exact hl.tables tab hside hne

/-- A stream of the client, its cancel read when it is registered, and a second cancel when
    it is gone; a call of the server, answered; and a late answer for a call that gave up. -/
def inOrderRun : List Ev :=
  let x : Exch := ⟨.client, 1, .getStream⟩
  let y : Exch := ⟨.server, 1, .unary⟩
  let z : Exch := ⟨.server, 2, .unary⟩
  [.connect, .issue .client .getStream, .request x (some 0), .read 0 .server, .serve 0 .server true,
    .serve 0 .server true,
    .serve 0 .server true, .register 0, .send x .cancelRequest (some 0), .read 0 .server, .serve 0 .server true,
    .serve 0 .server true, .retire .requestMap x, .send x .cancelRequest (some 0), .read 0 .server,
      .serve 0 .server true,
    .serve 0 .server true, .serve 0 .server true,
    .issue .server .unary, .request y (some 0), .issue .server .unary, .request z (some 0),
      .write (some 0), .write (some 0),
    .read 0 .client, .serve 0 .client true, .read 0 .client, .serve 0 .client true, .select 2 false, .leave 2,
    .reply 1 .functionResponse (some 0), .reply 2 .functionResponse (some 0), .read 0 .server, .serve 0 .server true,
    .serve 0 .server true, .serve 0 .server true, .select 1 true, .leave 1, .read 0 .server, .serve 0 .server true,
    .serve 0 .server true]

theorem routed_inOrderRun :
    ∃ s : St, sys.Reach (fun s e => inOrder s e = true) s ∧ s.handled.length = 2 ∧ s.unhandled.length = 2 ∧
    (s.calls 1).pc = .returned (.result ⟨.server, 1, .unary⟩) ∧ NoCrossTalk s := by
  obtain ⟨s, hr, hh, hu, hret⟩ := Sys.reach_of_exec sys (fun s e => inOrder s e = true) start rfl inOrderRun
    (P := fun s => s.handled.length = 2 ∧ s.unhandled.length = 2 ∧
      (s.calls 1).pc = .returned (.result ⟨.server, 1, .unary⟩))
    (by decide +kernel)
  exact ⟨s, hr, hh, hu, hret, (routed hr).1⟩

/-- The cancel of a stream is looked up before the goroutine of its request has registered
    it: no record handles it, and the record is there afterwards. -/
theorem cancel_before_registration : ∃ s : St, sys.Reach (fun s e => bounded s e = true) s ∧
    (Side.server, (⟨.cancelRequest, 1, ⟨.client, 1, .getStream⟩⟩ : Frame)) ∈ s.unhandled ∧
    s.maps (.requestMap, 1) = some ⟨.client, 1, .getStream⟩ :=
  Sys.reach_of_exec sys (fun s e => bounded s e = true) start rfl
    [.connect, .issue .client .getStream, .request ⟨.client, 1, .getStream⟩ (some 0),
      .send ⟨.client, 1, .getStream⟩ .cancelRequest (some 0), .read 0 .server, .serve 0 .server true,
        .serve 0 .server true,
      .serve 0 .server true, .read 0 .server, .serve 0 .server true, .serve 0 .server true,
        .serve 0 .server true, .register 0]
    (by decide +kernel)

end ValueRpc.Route
