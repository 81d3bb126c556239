/-
  ValueRpc.Route.CrossTalk — frames get to their own records (see `ValueRpc.Route.Session`).
-/

import ValueRpc.Route.Session

namespace ValueRpc.Route

open Function ValueRpc.Lib
open ValueRpc.Core (Kind MessageType)

/-! ## Request ids -/

theorem wrap_of_lt {i : Int} (h : -2 ^ 63 < i) (h' : i < 2 ^ 63) : wrap i = i := by
  unfold wrap
  exact Int.bmod_eq_of_le (by omega) (by omega)

theorem requestId_client {n : Nat} (h : n < 2 ^ 63) :
    requestId .client n = n := wrap_of_lt (by omega) (by omega)

theorem requestId_server {n : Nat} (h : n < 2 ^ 63) : requestId .server n = -n := by
  have hn : wrap n = n := wrap_of_lt (by omega) (by omega)
  simp only [requestId, hn]
  exact wrap_of_lt (by omega) (by omega)

/-- The ends' ids do not meet. -/
theorem requestId_inj {d d' : Side} {n m : Nat} (hn : 1 ≤ n) (hn' : n < 2 ^ 63) (hm : 1 ≤ m)
    (hm' : m < 2 ^ 63) (h : requestId d n = requestId d' m) : d = d' ∧ n = m := by
  cases d <;> cases d' <;> simp only [requestId_client, requestId_server, hn', hm'] at h
  · exact ⟨rfl, by omega⟩
  · omega
  · omega
  · exact ⟨rfl, by omega⟩

/-! ## The invariant -/

def Tab.holds : Tab → Exch → Bool
  | .requestCtxMap, x => x.side = .client
  | .servingMap, x | .pendingStreams, x => x.side = .server && x.kind ≠ .unary
  | .pendingCalls, x => x.side = .server && x.kind = .unary
  | .requestMap, x => x.side = .client && x.kind ≠ .unary
  | .requestCancels, x => x.side = .client && x.kind = .unary

/-- What an end is sent for an exchange. -/
def legal (d : Side) (x : Exch) (mt : MessageType) : Bool :=
  if x.side = d then responds x.kind mt else mt = x.kind.request || initiates x mt

structure Legal (sent : List Exch) (d : Side) (f : Frame) : Prop where
  sent : f.ex ∈ sent
  reqId : f.reqId = f.ex.id
  legal : legal d f.ex f.mt = true

def Outcome.Of (x : Exch) : Outcome → Prop
  | .result y | .error y => y = x
  | .own => True

structure ExecOk (sent : List Exch) (e : Exec) : Prop where
  sent : e.ex ∈ sent
  reqId : e.reqId = e.ex.id
  kind : e.kind = e.ex.kind
  side : e.ex.side ≠ e.side
  spawned : e.phase = .spawned → e.side = .server

structure CtxOk (x : Exch) (t : Ctx) : Prop where
  resultCh : ∀ y, t.resultCh = some y → y = x
  resultErr : ∀ o, t.resultErr = some o → o.Of x
  returned : ∀ o, t.returned = some o → o.Of x

structure CallOk (x : Exch) (t : Call) : Prop where
  resCh : ∀ o, t.resCh = some o → o.Of x ∧ t.slot = .used
  leaving : ∀ o, t.pc = .leaving o → o.Of x
  returned : ∀ o, t.pc = .returned o → o.Of x ∧ t.slot ≠ .inMap
  completions : t.completions = if t.slot = .used then 1 else 0

def PcOk (sent : List Exch) (calls : Nat → Call) (c : Nat) (d : Side) : Pc → Prop
  | .idle => True
  | .probe t f => Legal sent d f ∧ t.side = d
  | .new f => Legal sent d f
  | .process x f _ => x = f.ex ∧ x = ⟨.client, x.n, .unary⟩
  | .completing x f => d = .server ∧ x = f.ex ∧ x = ⟨.server, x.n, .unary⟩ ∧ x ∈ sent ∧ (calls x.n).slot = .held c

structure Inv (s : St) : Prop where
  fresh : ∀ x ∈ s.opened, 1 ≤ x.n ∧ x.n ≤ s.last x.side
  small : ∀ d, s.last d < 2 ^ 63
  unique : ∀ x ∈ s.opened, ∀ y ∈ s.opened, x.side = y.side → x.n = y.n → x = y
  sent : ∀ x ∈ s.sent, x ∈ s.opened
  maps : ∀ t id x, s.maps (t, id) = some x → x ∈ s.opened ∧ id = x.id ∧ t.holds x = true
  lanes : ∀ c d, ∀ f ∈ s.lanes (c, d), Legal s.sent d f
  queue : ∀ f ∈ s.outgoingQueue, Legal s.sent .client f
  loops : ∀ c d, PcOk s.sent s.calls c d (s.loops (c, d))
  execs : ∀ e ∈ s.execs, ExecOk s.sent e
  ctxs : ∀ n, CtxOk ⟨.client, n, .unary⟩ (s.ctxs n)
  calls : ∀ n, CallOk ⟨.server, n, .unary⟩ (s.calls n)
  /-- A call's entry is there while its slot is. -/
  slots : ∀ id x, s.maps (.pendingCalls, id) = some x → (s.calls x.n).slot = .inMap
  handled : ∀ h ∈ s.handled, h.2 = h.1.ex

variable {s t : St} {d : Side} {x : Exch} {f : Frame} {c i : Nat} {sent : List Exch} {mt : MessageType}
  {calls : Nat → Call} {n : Nat}

theorem Inv.id_inj (hi : Inv s) {y : Exch} (hx : x ∈ s.opened) (hy : y ∈ s.opened) (h : x.id = y.id) :
    x = y := by
  obtain ⟨h1, h2⟩ := hi.fresh x hx
  obtain ⟨h3, h4⟩ := hi.fresh y hy
  have hs := hi.small x.side
  have hs' := hi.small y.side
  obtain ⟨hd, hn⟩ := requestId_inj h1 (by omega) h3 (by omega) h
  exact hi.unique x hx y hy hd hn

theorem Legal.mono {sent' : List Exch} (h : Legal sent d f) (hs : sent ⊆ sent') : Legal sent' d f :=
  { h with sent := hs h.sent }

theorem PcOk.mono {sent' : List Exch} {pc : Pc} (h : PcOk sent calls c d pc)
    (hs : sent ⊆ sent') : PcOk sent' calls c d pc := by
  cases pc with
  | idle => trivial
  | probe t f => exact ⟨h.1.mono hs, h.2⟩
  | new f => exact Legal.mono h hs
  | process x f ops => exact h
  | completing x f =>
    obtain ⟨hd, hf, hx, hsent, hslot⟩ := h
    exact ⟨hd, hf, hx, hs hsent, hslot⟩

/-- A request asks for what its exchange is, of the other end. -/
theorem legal_request {k : Kind} (h : legal d x mt = true) (hk : mt.kind? = some k) :
    k = x.kind ∧ x.side ≠ d := by
  obtain ⟨side, n, kind⟩ := x
  cases mt <;> simp only [MessageType.kind?, Option.some.injEq, reduceCtorEq] at hk
  all_goals
    subst hk
    cases side <;> cases d <;> cases kind <;> simp [legal, responds, initiates, Kind.request] at h ⊢

/-! ## Changes that keep it -/

theorem Inv.goto (hi : Inv s) (c : Nat) (d : Side) (pc : Pc) (h : PcOk s.sent s.calls c d pc) :
    Inv (s.goto c d pc) :=
  { hi with
    loops := fun c' d' => by
      simp only [St.goto, update_apply]
      split
      · rename_i heq
        cases heq
        exact h
      · exact hi.loops c' d' }

theorem Inv.delete (hi : Inv s) (t : Tab) (id : Int) : Inv (s.put t id none) :=
  { hi with
    maps := fun t' id' x h => by
      simp only [St.put, update_apply] at h
      split at h
      · cases h
      · exact hi.maps t' id' x h
    slots := fun id' x h => by
      simp only [St.put, update_apply] at h
      split at h
      · cases h
      · exact hi.slots id' x h }

theorem Inv.store (hi : Inv s) {t : Tab} (hx : x ∈ s.opened) (ht : t.holds x = true)
    (hs : t = .pendingCalls → (s.calls x.n).slot = .inMap) : Inv (s.put t x.id (some x)) :=
  { hi with
    maps := fun t' id' y h => by
      simp only [St.put, update_apply] at h
      split at h
      · rename_i heq
        cases heq
        cases h
        exact ⟨hx, rfl, ht⟩
      · exact hi.maps t' id' y h
    slots := fun id' y h => by
      simp only [St.put, update_apply] at h
      split at h
      · rename_i heq
        cases heq
        cases h
        exact hs rfl
      · exact hi.slots id' y h }

theorem Inv.onto (hi : Inv s) (c : Nat) (hf : Legal s.sent d f) : Inv (s.onto c d f) := by
  unfold St.onto
  split
  · exact { hi with
      lanes := fun c' d' g hg => by
        simp only [update_apply] at hg
        split at hg
        · rename_i heq
          cases heq
          rcases List.mem_append.mp hg with hg | hg
          · exact hi.lanes c d g hg
          · cases List.mem_singleton.mp hg
            exact hf
        · exact hi.lanes c' d' g hg }
  · exact hi

def Side.other : Side → Side
  | .client => .server
  | .server => .client

theorem Inv.emit (hi : Inv s) (hf : Legal s.sent d.other f) (c : Option Nat) : Inv (s.emit d f c) := by
  cases c with
  | none => exact hi
  | some c =>
    cases d with
    | client => exact hi.onto c hf
    | server =>
      exact { hi with
        queue := fun g hg => by
          rcases List.mem_append.mp hg with hg | hg
          · exact hi.queue g hg
          · cases List.mem_singleton.mp hg
            exact hf }

theorem Inv.ctx (hi : Inv s) (n : Nat) {t : Ctx} (ht : CtxOk ⟨.client, n, .unary⟩ t) :
    Inv { s with ctxs := update s.ctxs n t } :=
  { hi with
    ctxs := fun m => by
      simp only [update_apply]
      split
      · rename_i heq
        rwa [heq]
      · exact hi.ctxs m }

theorem Inv.pendingCall (hi : Inv s) {id : Int} (h : s.maps (.pendingCalls, id) = some x) :
    x = ⟨.server, x.n, .unary⟩ := by
  obtain ⟨side, n, kind⟩ := x
  have := (hi.maps _ _ _ h).2.2
  simp only [Tab.holds, Bool.and_eq_true, decide_eq_true_eq] at this
  simp [this.1, this.2]

/-- A change of a call, its slot being where the table and the loops have it. -/
theorem Inv.call (hi : Inv s) (n : Nat) {t : Call} (ht : CallOk ⟨.server, n, .unary⟩ t)
    (hloop : ∀ c f, s.loops (c, .server) = .completing ⟨.server, n, .unary⟩ f → t.slot = .held c)
    (hmap : ∀ id, s.maps (.pendingCalls, id) = some ⟨.server, n, .unary⟩ → t.slot = .inMap) :
    Inv { s with calls := update s.calls n t } :=
  { hi with
    calls := fun m => by
      simp only [update_apply]
      split
      · rename_i heq
        rwa [heq]
      · exact hi.calls m
    loops := fun c d => by
      have hl := hi.loops c d
      cases hpc : s.loops (c, d) with
      | idle => trivial
      | probe t f => rwa [hpc] at hl
      | new f => rwa [hpc] at hl
      | process x f ops => rwa [hpc] at hl
      | completing x f =>
        rw [hpc] at hl
        obtain ⟨rfl, hf, hx, hsent, hslot⟩ := hl
        refine ⟨rfl, hf, hx, hsent, ?_⟩
        simp only [update_apply]
        split
        · rename_i heq
          rw [hx, heq] at hpc
          exact hloop c f hpc
        · exact hslot
    slots := fun id x h => by
      simp only [update_apply]
      split
      · rename_i heq
        have hx := hi.pendingCall h
        rw [heq] at hx
        rw [hx] at h
        exact hmap id h
      · exact hi.slots id x h }

/-! ## Every step -/

theorem Exch.table_holds (x : Exch) : x.table.holds x = true := by
  obtain ⟨side, n, kind⟩ := x
  cases side <;> cases kind <;> rfl

theorem Inv.opened (hi : Inv s) (d : Side) (kind : Kind) (hb : s.last d + 1 < 2 ^ 63) :
    Inv { s with last := update s.last d (s.last d + 1), opened := ⟨d, s.last d + 1, kind⟩ :: s.opened } :=
  { hi with
    fresh := fun x hx => by
      rcases List.mem_cons.mp hx with rfl | hx
      · simp
      · obtain ⟨h1, h2⟩ := hi.fresh x hx
        refine ⟨h1, ?_⟩
        simp only [update_apply]
        split
        · rename_i heq
          rw [heq] at h2
          omega
        · exact h2
    small := fun d' => by
      simp only [update_apply]
      split
      · exact hb
      · exact hi.small d'
    unique := fun x hx y hy hd hn => by
      rcases List.mem_cons.mp hx with rfl | hx' <;> rcases List.mem_cons.mp hy with rfl | hy'
      · rfl
      · have := (hi.fresh y hy').2
        simp only at hd hn
        rw [← hd] at this
        omega
      · have := (hi.fresh x hx').2
        simp only at hd hn
        rw [hd] at this
        omega
      · exact hi.unique x hx' y hy' hd hn
    sent := fun x hx => List.mem_cons_of_mem _ (hi.sent x hx)
    maps := fun t id x h => by
      obtain ⟨h1, h2⟩ := hi.maps t id x h
      exact ⟨List.mem_cons_of_mem _ h1, h2⟩ }

theorem Inv.issue (hi : Inv s) (d : Side) (kind : Kind) (hb : s.last d + 1 < 2 ^ 63)
    (h : step s (.issue d kind) = some t) : Inv t := by
  have ho := hi.opened d kind hb
  simp only [step, Option.some.injEq] at h
  subst h
  split
  · rename_i htab
    have hx : (⟨d, s.last d + 1, kind⟩ : Exch) = ⟨.server, s.last d + 1, .unary⟩ := by
      cases d <;> cases kind <;> simp [Exch.table] at htab ⊢
    -- the entry's slot is new, so no read loop has it
    have hc := ho.call (s.last d + 1) (t := ⟨none, .waiting, .inMap, 0⟩) ⟨nofun, nofun, nofun, rfl⟩
      (fun c f hl => by
        have hp := hi.loops c .server
        rw [show s.loops (c, .server) = _ from hl] at hp
        have hn := (hi.fresh _ (hi.sent _ hp.2.2.2.1)).2
        rw [show d = .server from congrArg Exch.side hx] at hn
        exact absurd hn (Nat.not_succ_le_self _))
      (fun _ _ => rfl)
    exact hc.store (x := ⟨d, s.last d + 1, kind⟩) List.mem_cons_self (Exch.table_holds _) (fun _ => by simp)
  · rename_i htab
    exact ho.store List.mem_cons_self (Exch.table_holds _) (fun hp => absurd hp htab)

theorem Inv.sent_cons (hi : Inv s) (hx : x ∈ s.opened) : Inv { s with sent := x :: s.sent } :=
  { hi with
    sent := fun y hy => by
      rcases List.mem_cons.mp hy with rfl | hy
      · exact hx
      · exact hi.sent y hy
    lanes := fun c d f hf => (hi.lanes c d f hf).mono (List.subset_cons_self x s.sent)
    queue := fun f hf => (hi.queue f hf).mono (List.subset_cons_self x s.sent)
    loops := fun c d => (hi.loops c d).mono (List.subset_cons_self x s.sent)
    execs := fun e he => { hi.execs e he with sent := List.mem_cons_of_mem x (hi.execs e he).sent } }

theorem Side.ne_other (d : Side) : d ≠ d.other := by cases d <;> simp [Side.other]

theorem Side.eq_other {d' : Side} (h : d ≠ d') :
    d = d'.other := by cases d <;> cases d' <;> simp [Side.other] at h ⊢

theorem legal_initiates (h : mt = x.kind.request ∨ initiates x mt = true) :
    legal x.side.other x mt = true := by
  simp only [legal, if_neg x.side.ne_other]
  simpa using h

theorem Inv.request (hi : Inv s) {c : Option Nat} (h : step s (.request x c) = some t) : Inv t := by
  simp only [step] at h
  split at h
  · rename_i hx
    cases h
    have hf : Legal (x :: s.sent) x.side.other ⟨x.kind.request, x.id, x⟩ :=
      ⟨List.mem_cons_self, rfl, legal_initiates (.inl rfl)⟩
    exact (hi.sent_cons hx.1).emit hf c
  · cases h

theorem Inv.send (hi : Inv s) {c : Option Nat} (h : step s (.send x mt c) = some t) : Inv t := by
  simp only [step] at h
  split at h
  · rename_i hx
    cases h
    have hf : Legal s.sent x.side.other ⟨mt, x.id, x⟩ := ⟨hx.1, rfl, legal_initiates (.inr hx.2)⟩
    exact hi.emit hf c
  · cases h

theorem ExecOk.legal {e : Exec} (h : ExecOk sent e)
    (hm : (e.phase = .running ∧ responds e.kind mt = true) ∨ (e.phase = .refused ∧ mt = .errorResponse)) :
    Legal sent e.side.other ⟨mt, e.reqId, e.ex⟩ := by
  refine ⟨h.sent, h.reqId, ?_⟩
  have hside : e.ex.side = e.side.other := Side.eq_other h.side
  simp only [Route.legal, hside, if_true, ← h.kind]
  rcases hm with ⟨-, hm⟩ | ⟨-, rfl⟩
  · exact hm
  · cases e.kind <;> rfl

theorem Inv.reply (hi : Inv s) {c : Option Nat} (h : step s (.reply i mt c) = some t) : Inv t := by
  simp only [step] at h
  split at h
  · rename_i e he
    split at h
    · rename_i hm
      cases h
      exact hi.emit ((hi.execs e (List.mem_of_getElem? he)).legal hm) c
    · cases h
  · cases h

/-- A goroutine goes on. -/
theorem Inv.exec (hi : Inv s) {e : Exec} (he : s.execs[i]? = some e) {p : Phase} (hp : p ≠ .spawned) :
    Inv { s with execs := s.execs.set i { e with phase := p } } :=
  { hi with
    execs := fun e' he' => by
      rcases List.mem_or_eq_of_mem_set he' with he' | rfl
      · exact hi.execs e' he'
      · have := hi.execs e (List.mem_of_getElem? he)
        exact ⟨this.sent, this.reqId, this.kind, this.side, fun h => absurd h hp⟩ }

theorem Inv.register (hi : Inv s) (h : step s (.register i) = some t) : Inv t := by
  simp only [step] at h
  split at h
  · rename_i e he
    split at h
    · rename_i hp
      cases h
      have hok := hi.execs e (List.mem_of_getElem? he)
      have hside : e.ex.side = .client := by rw [Side.eq_other hok.side, hok.spawned hp]; rfl
      have hholds : (servingTable e.kind).holds e.ex = true := by
        rw [hok.kind]
        cases hk : e.ex.kind <;> simp [servingTable, Tab.holds, hside, hk]
      have := (hi.exec he (p := .running) nofun).store (hi.sent _ hok.sent) hholds
        (fun h => by cases hk : e.kind <;> simp [servingTable, hk] at h)
      rwa [← hok.reqId] at this
    · cases h
  · cases h

theorem Inv.refuse (hi : Inv s) (h : step s (.refuse i) = some t) : Inv t := by
  simp only [step] at h
  split at h
  · rename_i e he
    split at h
    · cases h
      exact hi.exec he nofun
    · cases h
  · cases h

theorem Inv.write (hi : Inv s) {c : Option Nat} (h : step s (.write c) = some t) : Inv t := by
  simp only [step] at h
  split at h
  · cases h
  · rename_i f fs hq
    cases h
    have hfs : Inv { s with outgoingQueue := fs } :=
      { hi with queue := fun g hg => hi.queue g (by rw [hq]; exact List.mem_cons_of_mem f hg) }
    have hf : Legal s.sent .client f := hi.queue f (by rw [hq]; exact List.mem_cons_self)
    cases c with
    | none => exact hfs
    | some c => exact hfs.onto c hf

/-- A connection toward an end gets shorter. -/
theorem Inv.shorten (hi : Inv s) (c : Nat) (d : Side) {fs : List Frame} (h : ∀ f ∈ fs, f ∈ s.lanes (c, d)) :
    Inv { s with lanes := update s.lanes (c, d) fs } :=
  { hi with
    lanes := fun c' d' f hf => by
      simp only [update_apply] at hf
      split at hf
      · rename_i heq
        cases heq
        exact hi.lanes c d f (h f hf)
      · exact hi.lanes c' d' f hf }

theorem dispatch_ok (h : Legal sent d f) :
    PcOk sent calls c d (dispatch d f) := by
  cases d with
  | server => exact ⟨h, rfl⟩
  | client =>
    simp only [dispatch]
    split
    · exact h
    · exact ⟨h, rfl⟩

theorem Inv.read (hi : Inv s) (h : step s (.read c d) = some t) : Inv t := by
  simp only [step] at h
  split at h
  · rename_i f fs hl hf
    cases h
    have hmem : f ∈ s.lanes (c, d) := by rw [hf]; exact List.mem_cons_self
    exact (hi.shorten c d fun g hg => by rw [hf]; exact List.mem_cons_of_mem f hg).goto c d _
      (dispatch_ok (hi.lanes c d f hmem))
  · cases h

theorem Inv.handled_append (hi : Inv s) (h : x = f.ex) : Inv { s with handled := s.handled ++ [(f, x)] } :=
  { hi with
    handled := fun g hg => by
      rcases List.mem_append.mp hg with hg | hg
      · exact hi.handled g hg
      · cases List.mem_singleton.mp hg
        exact h }

/-- What a table has under a frame's id is the record of the frame's exchange. -/
theorem Inv.hit_own (hi : Inv s) (hf : Legal s.sent d f) {t : Tab}
    (h : s.maps (t, f.reqId) = some x) : x = f.ex := by
  obtain ⟨hx, hid, -⟩ := hi.maps _ _ _ h
  exact hi.id_inj hx (hi.sent _ hf.sent) (hid.symm.trans hf.reqId)

/-- The entry of a call is taken by one read loop. -/
theorem Inv.take (hi : Inv s) (c : Nat) (hf : Legal s.sent .server f)
    (h : s.maps (.pendingCalls, f.reqId) = some x) : Inv (s.hit c .server f x .pendingCalls) := by
  have hx := hi.pendingCall h
  have hid := (hi.maps _ _ _ h).2.1
  have hslot := hi.slots _ _ h
  have hok := hi.calls x.n
  have hcall : CallOk ⟨.server, x.n, .unary⟩ { s.calls x.n with slot := .held c } := by
    refine ⟨fun o ho => ?_, hok.leaving, fun o ho => ⟨(hok.returned o ho).1, nofun⟩, ?_⟩
    · have := (hok.resCh o ho).2
      rw [hslot] at this
      cases this
    · simpa [hslot] using hok.completions
  refine ((hi.delete .pendingCalls f.reqId).call x.n hcall (fun c' f' hl => ?_) fun id hm => ?_).goto c .server _
    ⟨rfl, hi.hit_own hf h, hx, ?_, by simp⟩
  · have := (hi.loops c' .server)
    rw [show s.loops (c', .server) = _ from hl] at this
    have hheld := this.2.2.2.2
    rw [show (s.calls x.n).slot = .inMap from hslot] at hheld
    cases hheld
  · simp only [St.put, update_apply] at hm
    split at hm
    · cases hm
    · rename_i hne
      rw [← hx] at hm
      exact absurd (by rw [(hi.maps _ _ _ hm).2.1, hid]) hne
  · rw [hi.hit_own hf h]
    exact hf.sent

theorem Inv.hit (hi : Inv s) (c : Nat) (hf : Legal s.sent d f) {t : Tab} (ht : t.side = d)
    (h : s.maps (t, f.reqId) = some x) : Inv (s.hit c d f x t) := by
  cases t with
  | pendingCalls =>
    cases ht
    exact hi.take c hf h
  | requestCtxMap =>
    simp only [St.hit]
    split
    · rename_i hk
      have hside := (hi.maps _ _ _ h).2.2
      simp only [Tab.holds, decide_eq_true_eq] at hside
      refine hi.goto c d _ ⟨hi.hit_own hf h, ?_⟩
      obtain ⟨side, n, kind⟩ := x
      cases hk
      cases hside
      rfl
    · exact hi.goto c d _ trivial
  | servingMap => exact hi.goto c d _ trivial
  | pendingStreams => exact hi.goto c d _ trivial
  | requestMap => exact hi.goto c d _ trivial
  | requestCancels => exact hi.goto c d _ trivial

theorem miss_ok (hf : Legal sent d f) {t : Tab} (ht : t.side = d)
    {pc : Pc} (h : miss f t = some pc) : PcOk sent calls c d pc := by
  cases t <;> simp only [miss, reduceCtorEq] at h
  · cases h
    exact ⟨hf, ht⟩
  · split at h <;> cases h <;> exact ⟨hf, ht⟩
  · split at h <;> cases h
    · exact ⟨hf, ht⟩
    · exact hf

def St.spawn (s : St) (c : Nat) (d : Side) (f : Frame) (kind : Kind) (phase : Phase) : St :=
  { s.goto c d .idle with execs := s.execs ++ [⟨d, f.ex, f.reqId, kind, phase⟩] }

/-- What becomes of a frame that is taken for a new request. -/
theorem serveNew_cases (s : St) (c : Nat) (d : Side) (f : Frame) (accept : Bool) :
    (f.mt.kind? = none ∧ s.serveNew c d f accept = { s.goto c d .idle with unhandled := s.unhandled ++ [(d, f)] }) ∨
      ∃ kind phase, f.mt.kind? = some kind ∧ (phase = .spawned → d = .server) ∧
        (s.serveNew c d f accept = s.spawn c d f kind phase ∨
          d = .client ∧ kind ≠ .unary ∧
            s.serveNew c d f accept = (s.spawn c d f kind phase).put .servingMap f.reqId (some f.ex)) := by
  unfold St.serveNew
  split
  · rename_i hk
    exact .inl ⟨hk, rfl⟩
  · rename_i kind hk
    refine .inr ⟨kind, ?_⟩
    split
    · exact ⟨.refused, hk, nofun, .inl rfl⟩
    · cases d with
      | server => exact ⟨.spawned, hk, fun _ => rfl, .inl rfl⟩
      | client =>
        refine ⟨.running, hk, nofun, ?_⟩
        by_cases hne : kind = .unary
        · exact .inl (if_pos hne)
        · exact .inr ⟨rfl, hne, if_neg hne⟩

theorem Inv.spawn (hi : Inv s) (c : Nat) (hf : Legal s.sent d f) {kind : Kind} (hk : f.mt.kind? = some kind)
    {phase : Phase} (hp : phase = .spawned → d = .server) : Inv (s.spawn c d f kind phase) :=
  { hi.goto c d .idle trivial with
    execs := fun e he => by
      rcases List.mem_append.mp he with he | he
      · exact hi.execs e he
      · cases List.mem_singleton.mp he
        obtain ⟨hkind, hside⟩ := legal_request hf.legal hk
        exact ⟨hf.sent, hf.reqId, hkind, hside, hp⟩ }

theorem Inv.serveNew (hi : Inv s) (c : Nat) (hf : Legal s.sent d f) (accept : Bool) :
    Inv (s.serveNew c d f accept) := by
  rcases serveNew_cases s c d f accept with ⟨-, heq⟩ | ⟨kind, phase, hk, hp, heq | ⟨rfl, hne, heq⟩⟩
  · rw [heq]
    exact { hi.goto c d .idle trivial with }
  · rw [heq]
    exact hi.spawn c hf hk hp
  · obtain ⟨hkind, hside⟩ := legal_request hf.legal hk
    have hholds : Tab.servingMap.holds f.ex = true := by
      simp [Tab.holds, Side.eq_other hside, Side.other, ← hkind, hne]
    have := (hi.spawn c hf hk hp).store (hi.sent _ hf.sent) hholds nofun
    rw [← hf.reqId] at this
    rwa [heq]

/-- `processResponse` gives a call what its frame brought. -/
theorem Inv.process (hi : Inv s) {op : Op} {ops : List Op}
    (hl : s.loops (c, d) = .process x f (op :: ops)) (h : s.process c d x f ops op = some t) : Inv t := by
  have hpc := hi.loops c d
  rw [hl] at hpc
  obtain ⟨hxf, hx⟩ := hpc
  have hg : Inv (s.goto c d (.process x f ops)) := hi.goto c d _ ⟨hxf, hx⟩
  have hok := hi.ctxs x.n
  have hf : f.ex = ⟨.client, x.n, .unary⟩ := hxf.symm.trans hx
  cases op with
  | notifyResult =>
    simp only [St.process] at h
    split at h
    · cases h
      exact hg
    · split at h
      · cases h
        exact hg.ctx x.n ⟨fun y hy => by cases hy; exact hf, hok.resultErr, hok.returned⟩
      · cases h
  | setError =>
    cases h
    exact hg.ctx x.n ⟨hok.resultCh, fun o ho => by cases ho; exact hf, hok.returned⟩
  | close =>
    cases h
    exact hg.ctx x.n ⟨hok.resultCh, hok.resultErr, hok.returned⟩
  | delete =>
    cases h
    exact (hi.delete .requestCtxMap x.id).goto c d _ ⟨hxf, hx⟩

/-- A call whose entry was taken is completed by the loop that took it. -/
theorem Inv.complete (hi : Inv s) (hl : s.loops (c, d) = .completing x f)
    (h : s.complete c d x f = some t) : Inv t := by
  have hpc := hi.loops c d
  rw [hl] at hpc
  obtain ⟨rfl, hxf, hx, -, hslot⟩ := hpc
  have hok := hi.calls x.n
  have hf : f.ex = ⟨.server, x.n, .unary⟩ := hxf.symm.trans hx
  simp only [St.complete] at h
  split at h
  · cases h
    refine (hi.goto c .server .idle trivial).call x.n ⟨fun o ho => ?_, hok.leaving,
      fun o ho => ⟨(hok.returned o ho).1, nofun⟩, ?_⟩
      (fun c' f' hl' => ?_) fun id hm => ?_
    · cases ho
      refine ⟨?_, rfl⟩
      split <;> exact hf
    · have := hok.completions
      rw [if_neg (by rw [hslot]; nofun)] at this
      simp [this]
    · simp only [St.goto, update_apply] at hl'
      split at hl'
      · cases hl'
      · rename_i hne
        have hpc := hi.loops c' .server
        rw [hl'] at hpc
        have hheld : (s.calls x.n).slot = .held c' := hpc.2.2.2.2
        rw [hslot] at hheld
        cases hheld
        exact absurd rfl hne
    · have hin : (s.calls x.n).slot = .inMap := hi.slots id ⟨.server, x.n, .unary⟩ hm
      rw [hslot] at hin
      cases hin
  · cases h

theorem Inv.serve (hi : Inv s) {accept : Bool} (h : s.serve c d accept = some t) : Inv t := by
  have hpc := hi.loops c d
  simp only [St.serve] at h
  split at h
  · cases h
  · rename_i tab f hl
    rw [hl] at hpc
    obtain ⟨hf, ht⟩ := hpc
    split at h
    · rename_i x hx
      cases h
      refine { hi.hit c hf ht hx with handled := ?_ }
      exact (hi.handled_append (hi.hit_own hf hx)).handled
    · split at h
      · rename_i pc hm
        cases h
        exact hi.goto c d _ (miss_ok hf ht hm)
      · cases h
        exact { hi.goto c d .idle trivial with }
  · rename_i f hl
    cases h
    rw [hl] at hpc
    exact hi.serveNew c hpc accept
  · cases h
    exact hi.goto c d _ trivial
  · rename_i x f op ops hl
    exact hi.process hl h
  · rename_i x f hl
    exact hi.complete hl h

theorem Inv.singleResp (hi : Inv s) {r : Ret} (h : step s (.singleResp n r) = some t) : Inv t := by
  have hok := hi.ctxs n
  simp only [step] at h
  split at h
  · obtain ⟨o, ho, rfl⟩ := Option.map_eq_some_iff.mp h
    have herr : ((s.ctxs n).resultErr.getD .own).Of ⟨.client, n, .unary⟩ := by
      cases he : (s.ctxs n).resultErr with
      | none => trivial
      | some o => exact hok.resultErr o he
    refine hi.ctx n ⟨nofun, hok.resultErr, fun o' ho' => ?_⟩
    cases ho'
    cases r with
    | recv =>
      obtain ⟨y, hy, rfl⟩ := Option.map_eq_some_iff.mp ho
      exact hok.resultCh y hy
    | closed =>
      simp only [Route.singleResp] at ho
      split at ho
      · cases ho
        exact herr
      · cases ho
    | done =>
      cases ho
      trivial
    | timer =>
      cases ho
      exact herr
  · cases h

/-- A change of a call that leaves its slot where it is. -/
theorem Inv.call_same (hi : Inv s) (n : Nat) {t : Call} (ht : CallOk ⟨.server, n, .unary⟩ t)
    (hs : t.slot = (s.calls n).slot) : Inv { s with calls := update s.calls n t } := by
  refine hi.call n ht (fun c f hl => ?_) fun id hm => ?_
  · have hpc := hi.loops c .server
    rw [hl] at hpc
    exact hs.trans hpc.2.2.2.2
  · exact hs.trans (hi.slots id _ hm)

theorem Inv.select (hi : Inv s) {recv : Bool} (h : step s (.select n recv) = some t) : Inv t := by
  have hok := hi.calls n
  simp only [step] at h
  split at h
  · split at h
    · obtain ⟨o, ho, rfl⟩ := Option.map_eq_some_iff.mp h
      exact hi.call_same n ⟨nofun, fun o' ho' => by cases ho'; exact (hok.resCh o ho).1, nofun, hok.completions⟩ rfl
    · cases h
      exact hi.call_same n ⟨hok.resCh, fun o' ho' => by cases ho'; trivial, nofun, hok.completions⟩ rfl
  · cases h

theorem Inv.leave (hi : Inv s) (h : step s (.leave n) = some t) : Inv t := by
  have hok := hi.calls n
  simp only [step] at h
  split at h
  · rename_i o hpc
    cases h
    refine (hi.delete .pendingCalls (requestId .server n)).call n ⟨fun o' ho' => ?_, nofun, fun o' ho' => ?_, ?_⟩
      (fun c f hl => ?_) fun id hm => ?_
    · obtain ⟨h1, h2⟩ := hok.resCh o' ho'
      exact ⟨h1, by simp [h2]⟩
    · cases ho'
      refine ⟨hok.leaving o hpc, ?_⟩
      dsimp only
      split <;> simp_all
    · have := hok.completions
      dsimp only
      split at this <;> split <;> simp_all
    · have hp := hi.loops c .server
      rw [show s.loops (c, .server) = _ from hl] at hp
      have hheld : (s.calls n).slot = .held c := hp.2.2.2.2
      simp [hheld]
    · simp only [St.put, update_apply] at hm
      split at hm
      · cases hm
      · rename_i hne
        exact absurd (by rw [(hi.maps _ _ _ hm).2.1]; rfl) hne
  · cases h

theorem inv_start : Inv start where
  fresh := by simp [start]
  small := by simp [start]
  unique := by simp [start]
  sent := by simp [start]
  maps := by simp [start]
  lanes := by simp [start]
  queue := by simp [start]
  loops := fun _ _ => trivial
  execs := by simp [start]
  ctxs := fun _ => ⟨nofun, nofun, nofun⟩
  calls := fun _ => ⟨nofun, nofun, nofun, rfl⟩
  slots := by simp [start]
  handled := by simp [start]

theorem step_inv {e : Ev} (hi : Inv s) (hb : bounded s e = true) (h : step s e = some t) : Inv t := by
  cases e with
  | connect =>
    cases h
    exact { hi with }
  | cut c d k =>
    cases h
    exact { hi.shorten c d fun f hf => List.mem_of_mem_take hf with }
  | issue d kind => exact hi.issue d kind (by simpa [bounded] using hb) h
  | request x c => exact hi.request h
  | send x mt c => exact hi.send h
  | reply i mt c => exact hi.reply h
  | register i => exact hi.register h
  | refuse i => exact hi.refuse h
  | retire tab x =>
    simp only [step] at h
    split at h
    · cases h
      exact hi.delete tab x.id
    · cases h
  | write c => exact hi.write h
  | read c d => exact hi.read h
  | serve c d accept => exact hi.serve h
  | fail n =>
    cases h
    exact hi.ctx n { hi.ctxs n with resultErr := fun o ho => by cases ho; trivial }
  | close n =>
    cases h
    exact hi.ctx n { hi.ctxs n with }
  | singleResp n r => exact hi.singleResp h
  | select n recv => exact hi.select h
  | leave n => exact hi.leave h

theorem reach_inv (h : sys.Reach (fun s e => bounded s e = true) s) : Inv s :=
  h.inv (P := Inv) (fun s hs => by cases hs; exact inv_start) fun _ _ _ hi hb hs => step_inv hi hb hs

/-- In every run of fewer than `2 ^ 63` requests of each end: a frame is handled by the
    record of its own exchange, if by any; a call returns what came for it, or an error of
    its own; and the entries of `pendingCalls` are calls that have not returned, completed
    at most once, by a send that does not block. -/
structure NoCrossTalk (s : St) : Prop where
  handled : ∀ f x, (f, x) ∈ s.handled → x = f.ex
  callFunction : ∀ n o, (s.ctxs n).returned = some o → o.Of ⟨.client, n, .unary⟩
  reverseCall : ∀ n o, (s.calls n).pc = .returned o → o.Of ⟨.server, n, .unary⟩
  pendingCalls : ∀ id x, s.maps (.pendingCalls, id) = some x → x.side = .server ∧ x.kind = .unary ∧ id = x.id ∧
    ∀ o, (s.calls x.n).pc ≠ .returned o
  once : ∀ n, (s.calls n).completions ≤ 1
  unblocked : ∀ c x f, s.loops (c, .server) = .completing x f → (s.calls x.n).resCh = none

theorem Inv.noCrossTalk (hi : Inv s) : NoCrossTalk s where
  handled := fun f x h => hi.handled (f, x) h
  callFunction := fun n o h => (hi.ctxs n).returned o h
  reverseCall := fun n o h => ((hi.calls n).returned o h).1
  pendingCalls := fun id x h => by
    have hx := hi.pendingCall h
    refine ⟨by rw [hx], by rw [hx], (hi.maps _ _ _ h).2.1, fun o ho => ?_⟩
    exact ((hi.calls x.n).returned o ho).2 (hi.slots _ _ h)
  once := fun n => by
    rw [(hi.calls n).completions]
    split <;> omega
  unblocked := fun c x f hl => by
    have hpc := hi.loops c .server
    rw [hl] at hpc
    obtain ⟨-, -, -, -, hslot⟩ := hpc
    cases hr : (s.calls x.n).resCh with
    | none => rfl
    | some o =>
      have := ((hi.calls x.n).resCh o hr).2
      rw [hslot] at this
      cases this

/-- Unconditionally, over every interleaving. -/
theorem no_cross_talk (h : sys.Reach (fun s e => bounded s e = true) s) :
    NoCrossTalk s := (reach_inv h).noCrossTalk

end ValueRpc.Route
