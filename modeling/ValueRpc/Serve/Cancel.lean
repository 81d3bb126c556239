/-
  ValueRpc.Serve.Cancel — what a CancelRequest reaches.

  A `Run` adds to the session what a CancelRequest was sent for: the executions of its
  request id that were spawned before it was read and had not finished when it was looked
  up. They are `due` from the moment the read loop is done with it.

  The read loop looks into maps that the executions fill, and the executions of one unary
  request share one entry.

  - `cancel_reaches`: where the lookup of every CancelRequest finds whatever is unfinished
    under its id (`found`), a unary call that is due has its context cancelled, and a stream
    that is due is closed, its context cancelled or about to be by the goroutine closing it.
  - `cancel_lost`: a stream registered after the lookup stays open; and of two executions of
    one unary request, the first to return takes the entry of the other away.
-/

import ValueRpc.Serve.Session

namespace ValueRpc.Serve.Cancel

open Function ValueRpc.Lib

structure Run where
  st : St
  /-- By connection: the executions spawned before its read loop read the frame it is at. -/
  seen : Nat → Nat
  /-- What was unfinished when its CancelRequest was looked up. -/
  pending : Nat → List Nat
  due : List Nat

def begin : Run := ⟨Serve.start, fun _ => 0, fun _ => [], []⟩

/-- The handler returned; for a stream, the stream is over. -/
def finished (e : Exec) : Bool :=
  match e.pc with
  | .refused | .returned | .unregistering | .closing _ | .done => true
  | _ => e.closed || e.ended

/-- Of the first `n` executions, those of a request id that have not finished. -/
def unfinished (s : St) (reqId : Int) (n : Nat) : List Nat :=
  (List.range n).filter fun x =>
    match s.execs[x]? with
    | some e => decide (e.reqId = reqId) && !finished e
    | none => false

/-- The lookup a read loop is about to make for a CancelRequest, and what it will find; a
    request that is not in `requestMap` is looked up again. -/
def lookup (s : St) (c : Nat) : Option (Int × Option Nat) :=
  match s.loops[c]? with
  | some (.find i .cancel) => (s.requestMap i).map fun x => (i, some x)
  | some (.findCancel i) => some (i, s.requestCancels i)
  | _ => none

def Run.unfinished (s : Run) (c : Nat) : List Nat :=
  match lookup s.st c with
  | some (i, _) => Cancel.unfinished s.st i (s.seen c)
  | none => s.pending c

def Run.note (s : Run) (e : Ev) (t : St) : Run :=
  match e with
  | .read c _ _ => { s with st := t, seen := update s.seen c s.st.execs.length, pending := update s.pending c [] }
  | .serve c =>
    { s with
      st := t
      pending := update s.pending c (s.unfinished c)
      due := if t.loops[c]? = some .idle then s.due ++ s.unfinished c else s.due }
  | _ => { s with st := t }

def runs : Sys Run Ev := ⟨fun s => s = begin, fun s e => (Serve.step s.st e).map (s.note e)⟩

/-- The lookup of a CancelRequest finds what is unfinished under its id. -/
def found (s : Run) : Ev → Bool
  | .serve c =>
    match lookup s.st c with
    | some (_, some x) => (s.unfinished c).all (· == x)
    | some (_, none) => (s.unfinished c).isEmpty
    | none => true
  | _ => true

/-! ## The invariant -/

def Reached (s : St) (x : Nat) : Prop :=
  ∃ e, s.execs[x]? = some e ∧ (e.ft = .singleFunction → e.cancelled = true) ∧
    (e.ft ≠ .singleFunction → e.closed = true ∨ e.ended = true)

theorem Reached.grows {s t : St} {x : Nat} (h : Reached s x) (hg : Grows s t) : Reached t x := by
  obtain ⟨e, hx, hu, hs⟩ := h
  obtain ⟨e', hx', hg'⟩ := hg x e hx
  refine ⟨e', hx', fun hft => hg'.cancelled (hu (hg'.ft ▸ hft)), fun hft => ?_⟩
  exact (hs (hg'.ft ▸ hft)).imp hg'.closed hg'.ended

/-- A read loop closes all that was unfinished, and only a CancelRequest is sent for any. -/
def Pending (pending : List Nat) : Loop → Prop
  | .find _ _ | .accept _ _ => pending = []
  | .cancelFunc x => ∀ y ∈ pending, y = x
  | .closing hard _ x _ => (∀ y ∈ pending, y = x) ∧ (hard = false → pending = [])
  | _ => True

structure Inv (s : Run) : Prop where
  sound : Sound s.st
  pending : ∀ (c : Nat) (l : Loop), s.st.loops[c]? = some l → Pending (s.pending c) l
  due : ∀ x ∈ s.due, Reached s.st x

theorem inv_begin : Inv begin where
  sound := sound_start
  pending := fun c l h => by
    cases c with
    | zero => cases h; trivial
    | succ c => cases h
  due := nofun

variable {s : Run} {t : St} {c : Nat} {i : Int} {x : Nat}

/-- A step of the read loop of `c`; `r` is the record after it. -/
theorem Inv.loops (hi : Inv s) {r : Run} (hk : Keeps s.st r.st) (c : Nat)
    (hc : ∀ l, r.st.loops[c]? = some l → Pending (r.pending c) l)
    (hother : ∀ d, d ≠ c → r.st.loops[d]? = s.st.loops[d]? ∧ r.pending d = s.pending d)
    (hdue : ∀ x ∈ r.due, x ∈ s.due ∨ Reached r.st x) : Inv r where
  sound := hk.sound
  pending := fun d l hd => by
    by_cases hdc : d = c
    · subst hdc
      exact hc l hd
    · obtain ⟨hl, hp⟩ := hother d hdc
      rw [hp]
      exact hi.pending d l (hl ▸ hd)
  due := fun x hx => (hdue x hx).elim (fun h => (hi.due x h).grows hk.grows) id

/-- A step that moves no read loop, and may add one. -/
theorem Inv.calm (hi : Inv s) (hk : Keeps s.st t)
    (hl : ∀ (c : Nat) (l : Loop), t.loops[c]? = some l → s.st.loops[c]? = some l ∨ l = .idle) :
    Inv { s with st := t } where
  sound := hk.sound
  pending := fun c l hc => by
    rcases hl c l hc with h | rfl
    · exact hi.pending c l h
    · trivial
  due := fun x hx => (hi.due x hx).grows hk.grows

theorem goto_self {u : St} {l l' : Loop} (h : (u.goto c l').loops[c]? = some l) : l = l' := by
  simp only [St.goto, List.getElem?_set_self'] at h
  obtain ⟨_, -, rfl⟩ := Option.map_eq_some_iff.mp h
  rfl

theorem goto_other (u : St) {d : Nat} (l : Loop) (h : d ≠ c) : (u.goto c l).loops[d]? = u.loops[d]? := by
  simp [St.goto, Ne.symm h]

/-- Where a read loop goes with the frame of a running request. -/
theorem serveRunning_goto (u : St) (c : Nat) (i : Int) (x : Nat) (f : Frame) :
    ∃ v l, serveRunning u c i x f = St.goto v c l ∧ v.loops = u.loops ∧
      (l = .idle ∨ l = .closing true i x .delete ∨ f = .streamEnd ∧ l = .closing false i x .delete) := by
  unfold serveRunning
  split
  · exact ⟨u, _, rfl, rfl, .inr (.inl rfl)⟩
  · refine ⟨u, _, rfl, rfl, ?_⟩
    split
    · exact .inr (.inl rfl)
    · exact .inl rfl
  · split
    · exact ⟨_, _, rfl, rfl, .inr (.inr ⟨rfl, rfl⟩)⟩
    · exact ⟨u, _, rfl, rfl, .inl rfl⟩
  · exact ⟨u, _, rfl, rfl, .inl rfl⟩

theorem Inv.goes (hi : Inv s) {u : St} {l : Loop} (hk : Keeps s.st (u.goto c l)) (hu : u.loops = s.st.loops)
    (hq : Pending (s.unfinished c) l) (hdue : l = .idle → ∀ x ∈ s.unfinished c, Reached (u.goto c l) x) :
    Inv (s.note (.serve c) (u.goto c l)) := by
  refine hi.loops hk c (fun l' hl' => ?_) (fun d hd => ⟨?_, update_of_ne hd ..⟩) fun x hx => ?_
  · rw [goto_self hl', show Run.pending _ = update s.pending c (s.unfinished c) from rfl, update_self]
    exact hq
  · exact (goto_other u l hd).trans (by rw [hu])
  · simp only [Run.note] at hx
    split at hx
    · rename_i hl
      exact (List.mem_append.mp hx).imp_right (hdue (goto_self hl).symm x)
    · exact .inl hx

theorem find_inv (hi : Inv s) {f : Frame} (hl : s.st.loops[c]? = some (.find i f))
    (hok : found s (.serve c) = true) (h : serve s.st c = some t) : Inv (s.note (.serve c) t) := by
  have hk := serve_keeps hi.sound h
  have hnil : s.pending c = [] := hi.pending c _ hl
  have hnone : lookup s.st c = none → s.unfinished c = [] := fun hn => by simp only [Run.unfinished, hn, hnil]
  simp only [serve, hl] at h
  split at h
  · rename_i hf
    cases h
    have hn := hnone (by simp [lookup, hl, hf])
    exact hi.goes hk rfl trivial fun _ x hx => by rw [hn] at hx; cases hx
  · split at h
    · rename_i x hx
      cases h
      obtain ⟨v, l, heq, hv, hlc⟩ := serveRunning_goto s.st c i x f
      rw [heq] at hk ⊢
      by_cases hf : f = .cancel
      · -- the CancelRequest closes what it found
        subst hf
        have hlk : lookup s.st c = some (i, some x) := by simp [lookup, hl, hx]
        have hall : ∀ y ∈ s.unfinished c, y = x := by simpa [found, hlk] using hok
        have hg : serveRunning s.st c i x .cancel = s.st.goto c (.closing true i x .delete) := rfl
        rw [← heq, hg] at hk ⊢
        exact hi.goes hk rfl ⟨hall, by simp⟩ (by simp)
      · have hn := hnone (by simp [lookup, hl, hf])
        refine hi.goes hk hv ?_ fun _ y hy => by rw [hn] at hy; cases hy
        rw [hn]
        rcases hlc with rfl | rfl | ⟨-, rfl⟩
        · trivial
        · exact ⟨by simp, by simp⟩
        · exact ⟨by simp, by simp⟩
    · rename_i hx
      have hn := hnone (by simp only [lookup, hl]; split <;> simp_all)
      split at h <;> cases h
      · exact hi.goes hk rfl trivial (by simp)
      · exact hi.goes hk rfl hn (by simp)
      · exact hi.goes hk rfl trivial fun _ x hx => by rw [hn] at hx; cases hx

theorem findCancel_inv (hi : Inv s) (hl : s.st.loops[c]? = some (.findCancel i))
    (hok : found s (.serve c) = true) (h : serve s.st c = some t) : Inv (s.note (.serve c) t) := by
  have hk := serve_keeps hi.sound h
  have hlk : lookup s.st c = some (i, s.st.requestCancels i) := by simp [lookup, hl]
  simp only [serve, hl] at h
  cases hx : s.st.requestCancels i with
  | some x =>
    simp only [hx] at h
    cases h
    have hall : ∀ y ∈ s.unfinished c, y = x := by simpa [found, hlk, hx] using hok
    exact hi.goes hk rfl hall (by simp)
  | none =>
    simp only [hx] at h
    cases h
    have hnil : s.unfinished c = [] := by simpa [found, hlk, hx] using hok
    exact hi.goes hk rfl trivial fun _ x hx => by rw [hnil] at hx; cases hx

theorem cancelFunc_inv (hi : Inv s) (hl : s.st.loops[c]? = some (.cancelFunc x)) (h : serve s.st c = some t) :
    Inv (s.note (.serve c) t) := by
  have hk := serve_keeps hi.sound h
  have hlk : s.unfinished c = s.pending c := by simp [Run.unfinished, lookup, hl]
  obtain ⟨e, he, hft⟩ := hi.sound.loops c _ hl
  simp only [serve, hl] at h
  cases h
  refine hi.goes hk rfl trivial fun _ y hy => ?_
  rw [hlk] at hy
  rw [hi.pending c _ hl y hy]
  exact ⟨_, upd_self _ he, fun _ => rfl, fun hne => absurd hft hne⟩

theorem closing_inv (hi : Inv s) {hard : Bool} {k : Closing}
    (hl : s.st.loops[c]? = some (.closing hard i x k)) (h : serve s.st c = some t) :
    Inv (s.note (.serve c) t) := by
  have hk := serve_keeps hi.sound h
  have hlk : s.unfinished c = s.pending c := by simp [Run.unfinished, lookup, hl]
  obtain ⟨hall, hsoft⟩ := hi.pending c _ hl
  obtain ⟨e, he, hft, hclosed, -⟩ := hi.sound.loops c _ hl
  simp only [serve, hl] at h
  cases h
  cases hn : k.next hard (s.st.isClosed x) with
  | some k' =>
    simp only [hn, Option.map_some, Option.getD_some] at hk ⊢
    exact hi.goes hk (closes_loops ..) (by rw [hlk]; exact ⟨hall, hsoft⟩) (by simp)
  | none =>
    simp only [hn, Option.map_none, Option.getD_none] at hk ⊢
    refine hi.goes hk (closes_loops ..) trivial fun _ y hy => ?_
    rw [hlk] at hy
    cases hard with
    | false =>
      rw [hsoft rfl] at hy
      cases hy
    | true =>
      -- it is over: this read loop swapped `closed`, or another goroutine had
      have hec : e.closed = true := by
        cases k with
        | delete => cases hn
        | swap => simpa [Closing.next, St.isClosed, he] using hn
        | cancel => exact hclosed rfl rfl
      rw [hall y hy]
      have hreached : Reached s.st x := ⟨e, he, fun h => absurd h hft, fun _ => .inl hec⟩
      exact hreached.grows hk.grows

theorem serve_inv (hi : Inv s) (hok : found s (.serve c) = true) (h : serve s.st c = some t) :
    Inv (s.note (.serve c) t) := by
  cases hl : s.st.loops[c]? with
  | none => simp [serve, hl] at h
  | some l =>
    cases l with
    | idle | returned => simp [serve, hl] at h
    | find i f => exact find_inv hi hl hok h
    | findCancel i => exact findCancel_inv hi hl hok h
    | cancelFunc x => exact cancelFunc_inv hi hl h
    | closing hard i x k => exact closing_inv hi hl h
    | accept i ft =>
      have hk := serve_keeps hi.sound h
      have hnil : s.unfinished c = [] := by
        simp only [Run.unfinished, lookup, hl]
        exact hi.pending c _ hl
      simp only [serve, hl] at h
      cases h
      exact hi.goes (u := { s.st with execs := _ }) hk rfl trivial fun _ x hx => by rw [hnil] at hx; cases hx

theorem step_inv {e : Ev} (hi : Inv s) (hok : found s e = true) (h : Serve.step s.st e = some t) :
    Inv (s.note e t) := by
  have hk := step_keeps hi.sound h
  cases e with
  | serve c => exact serve_inv hi hok h
  | read c i f =>
    simp only [step] at h
    split at h <;> cases h
    refine hi.loops hk c (fun l hl => ?_) (fun d hd => ⟨goto_other _ _ hd, update_of_ne hd ..⟩) fun _ => .inl
    rw [goto_self hl]
    exact update_self ..
  | hangUp c =>
    simp only [step] at h
    split at h <;> cases h
    exact hi.loops hk c (fun l hl => by rw [goto_self hl]; trivial) (fun d hd => ⟨goto_other _ _ hd, rfl⟩)
      fun _ => .inl
  | reject c =>
    simp only [step] at h
    split at h <;> cases h
    exact hi.loops hk c (fun l hl => by rw [goto_self hl]; trivial) (fun d hd => ⟨goto_other _ _ hd, rfl⟩)
      fun _ => .inl
  | attach =>
    cases h
    refine hi.calm hk fun c l hl => ?_
    replace hl : (s.st.loops ++ [.idle])[c]? = some l := hl
    rw [List.getElem?_append] at hl
    split at hl
    · exact .inl hl
    · exact .inr (List.mem_singleton.mp (List.mem_of_getElem? hl))
  | refuse x | run x | handled x ok | finish x | expire x | close =>
    exact hi.calm hk fun c l hl => .inl (by rw [← exec_loops rfl h]; exact hl)

/-! ## What is reached -/

theorem cancel_reaches {s : Run} (hr : runs.Reach (fun s e => found s e = true) s) (hx : x ∈ s.due) :
    ∃ e, s.st.execs[x]? = some e ∧ (e.ft = .singleFunction → e.cancelled = true) ∧
      (e.ft ≠ .singleFunction → (e.closed = true ∨ e.ended = true) ∧ (e.cancelled = true ∨ Closer s.st x)) := by
  have hi : Inv s := hr.inv (P := Inv) (fun s hs => by cases hs; exact inv_begin) fun s e t hi hok h => by
    obtain ⟨u, hu, rfl⟩ := Option.map_eq_some_iff.mp h
    exact step_inv hi hok hu
  obtain ⟨e, he, hu, hs⟩ := hi.due x hx
  exact ⟨e, he, hu, fun hft => ⟨hs hft, (hi.sound.execs x e he).torn (hs hft)⟩⟩

def request (c : Nat) (i : Int) (ft : FunctionType) : List Ev := [.read c i (.request ft), .serve c, .serve c]

def bothCancelled : List Ev :=
  request 0 1 .outgoingStream ++ request 0 2 .singleFunction ++ ([.run 0, .run 0, .run 1, .run 1, .handled 0 true,
    .read 0 1 .cancel, .serve 0, .serve 0, .serve 0, .serve 0, .read 0 2 .cancel, .serve 0, .serve 0,
      .serve 0] : List Ev)

theorem cancel_reaches_both : ∃ s : Run, s.due = [0, 1] ∧
    (∃ e, s.st.execs[0]? = some e ∧ (e.ft = .singleFunction → e.cancelled = true) ∧
      (e.ft ≠ .singleFunction → (e.closed = true ∨ e.ended = true) ∧ (e.cancelled = true ∨ Closer s.st 0))) ∧
    ∃ e, s.st.execs[1]? = some e ∧ (e.ft = .singleFunction → e.cancelled = true) ∧
      (e.ft ≠ .singleFunction → (e.closed = true ∨ e.ended = true) ∧ (e.cancelled = true ∨ Closer s.st 1)) := by
  obtain ⟨s, hr, hdue⟩ := Sys.reach_of_exec runs (fun s e => found s e = true) begin rfl bothCancelled
    (P := fun s => s.due = [0, 1]) (by decide +kernel)
  exact ⟨s, hdue, cancel_reaches hr (by simp [hdue]), cancel_reaches hr (by simp [hdue])⟩

/-- The CancelRequest is looked up before the stream's goroutine registers it. -/
def cancelledBeforeRegistered : List Ev :=
  request 0 1 .outgoingStream ++ ([.read 0 1 .cancel, .serve 0, .serve 0, .run 0, .run 0, .handled 0 true] : List Ev)

/-- A unary call is replayed on a second connection; the first execution returns and takes
    the entry with it, and the CancelRequest finds none. -/
def cancelledAfterReplay : List Ev :=
  request 0 1 .singleFunction ++ ([.run 0, .run 0, .hangUp 0, .attach] : List Ev) ++ request 1 1 .singleFunction ++
    ([.run 1, .run 1, .handled 0 true, .run 0, .run 0, .read 1 1 .cancel, .serve 1, .serve 1] : List Ev)

theorem cancel_lost :
    (∃ s : Run, runs.Reach Sys.any s ∧ s.due = [0] ∧
      s.st.execs[0]? = some ⟨1, .outgoingStream, .streaming, false, false, false⟩) ∧
    ∃ s : Run, runs.Reach Sys.any s ∧ s.due = [1] ∧
      s.st.execs[1]? = some ⟨1, .singleFunction, .handling, false, false, false⟩ :=
  ⟨Sys.reach_of_exec runs Sys.any begin rfl cancelledBeforeRegistered (by decide +kernel),
    Sys.reach_of_exec runs Sys.any begin rfl cancelledAfterReplay (by decide +kernel)⟩

end ValueRpc.Serve.Cancel
