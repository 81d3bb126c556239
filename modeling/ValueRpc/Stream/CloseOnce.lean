/-
  ValueRpc.Stream.CloseOnce — how an initiator's record is closed (`valueclient/request.go`:
  `closeResult`, `Close`, `TryGetClose`, `TryPutClose`; `valueserver/serving_stream.go`, the
  same for `clientStream`).

  Any number of goroutines call the three methods, in any order. A method is a list of
  instructions, each atomic: a store or a load of a flag, the pump's `Stop`, `closeResult`,
  the return. `closeResult` is a `sync.Once`: the first to come runs the body, action by
  action, and the others wait until it is through. The two `Try` methods have one caller each
  in the source, which deletes the record when it gets true; that is their last instruction.

  The result channel of a put-stream or a unary request is closed by the body. That of a
  get-stream or a chat is closed by the pump's goroutine when it returns, which it can do once
  the pump is closed or stopped.

  - `closed_once`: the body runs at most once. When a terminal call returned, `done` and the
    gate are closed, the metrics were told, each once, and the result channel is closed, or its
    pump's goroutine has only to return for it. Of a chat's two halves, whichever order they
    come in, one gets true and deletes the record.
-/

import ValueRpc.Lib.Runs
import ValueRpc.Lib.Tally

namespace ValueRpc.Stream.CloseOnce

open ValueRpc.Lib

inductive StreamKind where
  | unary
  | getStream
  | putStream
  | chat
  deriving DecidableEq, Repr

def StreamKind.pumped : StreamKind → Bool
  | .getStream | .chat => true
  | _ => false

def StreamKind.gated : StreamKind → Bool
  | .putStream | .chat => true
  | _ => false

inductive Act where
  | closeDone
  | closeGate
  | closePump
  | closeResultCh
  | requestEnd
  deriving DecidableEq, Repr

def closeBody (kind : StreamKind) : List Act :=
  .closeDone :: ((if kind.gated then [.closeGate] else []) ++ [if kind.pumped then .closePump else .closeResultCh])

inductive Record where
  /-- The client's; with metrics or without. -/
  | rpcRequestCtx (kind : StreamKind) (metrics : Bool)
  /-- The server's, for a stream it opened. -/
  | clientStream (kind : StreamKind)
  deriving DecidableEq, Repr

def Record.kind : Record → StreamKind
  | .rpcRequestCtx kind _ => kind
  | .clientStream kind => kind

def Record.metrics : Record → Bool
  | .rpcRequestCtx _ metrics => metrics
  | .clientStream _ => false

def Record.closeResult : Record → List Act
  | .rpcRequestCtx kind metrics => closeBody kind ++ if metrics then [.requestEnd] else []
  | .clientStream kind => closeBody kind

inductive Instr where
  | storeGet
  | storePut
  | stopPump
  | closeResult
  /-- `return putClosed.Load()`, `return getClosed.Load()`. -/
  | loadPut
  | loadGet
  | returnTrue
  /-- The caller's: delete the record if it got true. -/
  | delete
  deriving DecidableEq, Repr

inductive Method where
  | close
  | tryGetClose
  | tryPutClose
  deriving DecidableEq, Repr

def Method.code (kind : StreamKind) : Method → List Instr
  | .close => [.storeGet, .storePut] ++ (if kind.pumped then [.stopPump] else []) ++ [.closeResult]
  | .tryGetClose => [.storeGet, .closeResult, if kind = .chat then .loadPut else .returnTrue, .delete]
  | .tryPutClose => if kind = .putStream then [.storePut, .closeResult, .returnTrue,
      .delete] else [.storePut, .loadGet, .delete]

/-- The calls that end a request of the kind. -/
def Method.terminal (kind : StreamKind) : Method → Bool
  | .close | .tryGetClose => true
  | .tryPutClose => decide (kind = .putStream)

structure Goroutine where
  call : Method
  pc : Nat
  result : Option Bool
  deriving DecidableEq, Repr

/-- Its call returned; `Close` has no result. -/
def Goroutine.returned (kind : StreamKind) (g : Goroutine) : Bool :=
  g.result.isSome || decide (g.pc = (g.call.code kind).length)

inductive Once where
  | unstarted
  /-- The goroutine in the body, and the actions it has left. -/
  | running (i : Nat) (rest : List Act)
  | done
  deriving DecidableEq, Repr

structure St where
  getClosed : Bool
  putClosed : Bool
  /-- The pump's `stopCh` is closed, or its input ended. -/
  stopped : Bool
  inputEnd : Bool
  pumpReturned : Bool
  once : Once
  /-- How often the body was started, and the actions taken in it. -/
  bodies : Nat
  acts : List Act
  live : Bool
  goroutines : List Goroutine
  deriving DecidableEq, Repr

def start : St := ⟨false, false, false, false, false, .unstarted, 0, [], true, []⟩

def St.resultClosed (s : St) : Nat := s.acts.count .closeResultCh + s.pumpReturned.toNat

inductive Ev where
  | go (m : Method)
  | run (i : Nat)
  /-- The pump's goroutine closes the result channel and returns. -/
  | pumpReturns
  deriving DecidableEq, Repr

/-- An instruction other than `closeResult`, by a goroutine whose call got this result. -/
def St.perform (s : St) (result : Option Bool) : Instr → St
  | .storeGet => { s with getClosed := true }
  | .storePut => { s with putClosed := true }
  | .stopPump => { s with stopped := true }
  | .delete => { s with live := s.live && decide (result ≠ some true) }
  | _ => s

def St.answer (s : St) (result : Option Bool) : Instr → Option Bool
  | .loadPut => some s.putClosed
  | .loadGet => some s.getClosed
  | .returnTrue => some true
  | _ => result

def St.advance (s : St) (i : Nat) (g : Goroutine) (x : Instr) : St :=
  { s.perform g.result x with
    goroutines := s.goroutines.modify i fun g => { g with pc := g.pc + 1, result := s.answer g.result x } }

def St.act (s : St) (a : Act) : St :=
    { s with acts := s.acts ++ [a], inputEnd := s.inputEnd || decide (a = .closePump) }

def St.doOnce (s : St) (body : List Act) (i : Nat) (g : Goroutine) : Option St :=
  match s.once with
  | .unstarted => some { s with once := .running i body, bodies := s.bodies + 1 }
  | .running j (a :: rest) => if j = i then some { s.act a with once := .running i rest } else none
  | .running j [] => if j = i then some { s.advance i g .closeResult with once := .done } else none
  | .done => some (s.advance i g .closeResult)

def step (r : Record) (s : St) : Ev → Option St
  | .go m => some { s with goroutines := s.goroutines ++ [⟨m, 0, none⟩] }
  | .run i =>
    match s.goroutines[i]? with
    | none => none
    | some g =>
      match (g.call.code r.kind)[g.pc]? with
      | none => none
      | some x => if x = .closeResult then s.doOnce r.closeResult i g else some (s.advance i g x)
  | .pumpReturns =>
    if r.kind.pumped = true ∧ (s.stopped || s.inputEnd) = true ∧
      s.pumpReturned = false then some { s with pumpReturned := true }
    else none

def sys (r : Record) : Sys St Ev := ⟨fun s => s = start, step r⟩

inductive Goes (r : Record) (s : St) : St → Prop
  | go (m : Method) : Goes r s { s with goroutines := s.goroutines ++ [⟨m, 0, none⟩] }
  | enters (i : Nat) : s.once = .unstarted →
      Goes r s { s with once := .running i r.closeResult, bodies := s.bodies + 1 }
  | acts {i : Nat} {a : Act} {rest : List Act} : s.once = .running i (a :: rest) →
      Goes r s { s.act a with once := .running i rest }
  | leaves {i : Nat} {g : Goroutine} : s.once = .running i [] → s.goroutines[i]? = some g →
      (g.call.code r.kind)[g.pc]? = some .closeResult → Goes r s { s.advance i g .closeResult with once := .done }
  | passes {i : Nat} {g : Goroutine} {x : Instr} : s.goroutines[i]? = some g → (g.call.code r.kind)[g.pc]? = some x →
      (x = .closeResult → s.once = .done) → Goes r s (s.advance i g x)
  | pumpReturns : r.kind.pumped = true → s.pumpReturned = false → Goes r s { s with pumpReturned := true }

variable {r : Record} {s t : St} {e : Ev}

theorem goes (h : step r s e = some t) : Goes r s t := by
  cases e with
  | go m => cases h; exact .go m
  | pumpReturns =>
    simp only [step] at h
    split at h
    · rename_i hp
      cases h
      exact .pumpReturns hp.1 hp.2.2
    · cases h
  | run i =>
    simp only [step] at h
    cases hg : s.goroutines[i]? with
    | none => rw [hg] at h; cases h
    | some g =>
      rw [hg] at h
      cases hx : (g.call.code r.kind)[g.pc]? with
      | none => simp only [hx] at h; cases h
      | some x =>
        simp only [hx] at h
        by_cases hc : x = .closeResult
        · subst hc
          rw [if_pos rfl] at h
          unfold St.doOnce at h
          cases ho : s.once with
          | unstarted => rw [ho] at h; cases h; exact .enters i ho
          | done => rw [ho] at h; cases h; exact .passes hg hx fun _ => ho
          | running j rest =>
            rw [ho] at h
            cases rest with
            | nil =>
              simp only at h
              split at h
              · rename_i hj
                cases h
                exact .leaves (hj ▸ ho) hg hx
              · cases h
            | cons a rest =>
              simp only at h
              split at h
              · rename_i hj
                cases h
                exact .acts (hj ▸ ho)
              · cases h
        · rw [if_neg hc] at h
          cases h
          exact .passes hg hx fun h => absurd h hc

/-! ## The body -/

/-- What was done of the body, by where `closeOnce` stands. -/
def Body (r : Record) (s : St) : Prop :=
  match s.once with
  | .unstarted => s.bodies = 0 ∧ s.acts = []
  | .running _ rest => s.bodies = 1 ∧ s.acts ++ rest = r.closeResult
  | .done => s.bodies = 1 ∧ s.acts = r.closeResult

/-- Every action stands in it once. -/
theorem closeResult_nodup (r : Record) : r.closeResult.Nodup := by
  cases r with
  | rpcRequestCtx kind metrics => cases kind <;> cases metrics <;> decide
  | clientStream kind => cases kind <;> decide

/-- With a pump, the body leaves the result channel to it. -/
theorem not_mem_closeResult (h : r.kind.pumped = true) : Act.closeResultCh ∉ r.closeResult := by
  cases r with
  | rpcRequestCtx kind metrics => cases kind <;> cases metrics <;> first | decide | cases h
  | clientStream kind => cases kind <;> first | decide | cases h

theorem Body.acts_prefix (h : Body r s) : s.acts.IsPrefix r.closeResult := by
  unfold Body at h
  split at h
  · rw [h.2]; exact List.nil_prefix
  · exact ⟨_, h.2⟩
  · exact ⟨[], (List.append_nil _).trans h.2⟩

theorem Body.count_le (h : Body r s) (a : Act) : s.acts.count a ≤ 1 :=
  Nat.le_trans (h.acts_prefix.sublist.count_le a) (List.nodup_iff_count_le_one.mp (closeResult_nodup r) a)

theorem Body.bodies_le (h : Body r s) : s.bodies ≤ 1 := by
  unfold Body at h
  split at h <;> omega

/-- A state that agrees on the fields of the body. -/
theorem Body.frame (h : Body r s) (ho : t.once = s.once) (hb : t.bodies = s.bodies) (ha : t.acts = s.acts) :
    Body r t := by
  unfold Body
  rw [ho, hb, ha]
  exact h

theorem Body.closed (h : Body r s) (ho : s.once = .done) : s.bodies = 1 ∧ s.acts = r.closeResult := by
  simpa only [Body, ho] using h

@[simp] theorem perform_once (s : St) (o : Option Bool) (x : Instr) :
    (s.perform o x).once = s.once := by cases x <;> rfl
@[simp] theorem perform_bodies (s : St) (o : Option Bool) (x : Instr) :
    (s.perform o x).bodies = s.bodies := by cases x <;> rfl
@[simp] theorem perform_acts (s : St) (o : Option Bool) (x : Instr) :
    (s.perform o x).acts = s.acts := by cases x <;> rfl
@[simp] theorem perform_inputEnd (s : St) (o : Option Bool) (x : Instr) :
    (s.perform o x).inputEnd = s.inputEnd := by
  cases x <;> rfl
@[simp] theorem perform_pumpReturned (s : St) (o : Option Bool) (x : Instr) :
    (s.perform o x).pumpReturned = s.pumpReturned := by
  cases x <;> rfl

theorem Body.step (h : Body r s) (hg : Goes r s t) : Body r t := by
  cases hg with
  | go m => exact h.frame rfl rfl rfl
  | pumpReturns => exact h.frame rfl rfl rfl
  | enters i ho =>
    simp only [Body, ho] at h ⊢
    exact ⟨by rw [h.1], by rw [h.2, List.nil_append]⟩
  | acts ho =>
    simp only [Body, ho] at h ⊢
    exact ⟨h.1, by rw [← h.2]; simp [St.act]⟩
  | leaves ho _ _ =>
    simp only [Body, ho, List.append_nil] at h ⊢
    simpa only [St.advance, perform_bodies, perform_acts] using h
  | passes _ _ _ => exact h.frame (by simp [St.advance]) (by simp [St.advance]) (by simp [St.advance])

/-! ## The goroutines -/

/-- What holds once an instruction was passed, and from then on. -/
def Effect (s : St) : Instr → Prop
  | .storeGet => s.getClosed = true
  | .storePut => s.putClosed = true
  | .closeResult => s.once = .done
  | _ => True

def Instr.answers : Instr → Bool
  | .loadPut | .loadGet | .returnTrue => true
  | _ => false

structure Runs (r : Record) (s : St) : Prop where
  ran : ∀ (i : Nat) (g : Goroutine) (m : Nat) (x : Instr), s.goroutines[i]? = some g → m < g.pc →
    (g.call.code r.kind)[m]? = some x → Effect s x
  answered : ∀ (i : Nat) (g : Goroutine), s.goroutines[i]? = some g →
    (g.result.isSome = true ↔ ∃ m x, m < g.pc ∧ (g.call.code r.kind)[m]? = some x ∧ x.answers = true)
  /-- Of a chat's two halves the one that loads last sees the other's store. -/
  cross : r.kind = .chat → ∀ (i j : Nat) (g p : Goroutine) (a b : Bool), s.goroutines[i]? = some g →
    s.goroutines[j]? = some p → g.call = .tryGetClose → p.call = .tryPutClose → g.result = some a → p.result = some b →
    a = true ∨ b = true
  deleted : ∀ (i : Nat) (g : Goroutine) (m : Nat), s.goroutines[i]? = some g → m < g.pc →
    (g.call.code r.kind)[m]? = some .delete → g.result = some true → s.live = false

/-- The stores come first. -/
theorem Runs.getStored (h : Runs r s) {i : Nat} {g : Goroutine} (hg : s.goroutines[i]? = some g)
    (hc : g.call = .tryGetClose) (hres : g.result.isSome = true) : s.getClosed = true := by
  obtain ⟨m, x, hm, -, -⟩ := (h.answered i g hg).mp hres
  exact h.ran i g 0 .storeGet hg (by omega) (by rw [hc]; rfl)

theorem Runs.putStored (h : Runs r s) {i : Nat} {g : Goroutine} (hg : s.goroutines[i]? = some g)
    (hc : g.call = .tryPutClose) (hres : g.result.isSome = true) : s.putClosed = true := by
  obtain ⟨m, x, hm, -, -⟩ := (h.answered i g hg).mp hres
  refine h.ran i g 0 .storePut hg (by omega) ?_
  rw [hc]
  cases r.kind <;> rfl

/-- Nothing stands behind the delete. -/
theorem delete_last {kind : StreamKind} {c : Method} {m : Nat} (h : (c.code kind)[m]? = some .delete) :
    m + 1 = (c.code kind).length := by
  have hlt := (List.getElem?_eq_some_iff.mp h).1
  have hlen : (c.code kind).length ≤ 4 := by cases c <;> cases kind <;> decide
  have hm : m < 4 := by omega
  revert h
  cases c <;> cases kind <;> revert m <;> decide

theorem Runs.frame (h : Runs r s) (hg : t.goroutines = s.goroutines) (he : ∀ x, Effect s x → Effect t x)
    (hl : s.live = false → t.live = false) : Runs r t := by
  refine ⟨fun i g m x hi hm hx => ?_, fun i g hi => ?_, fun hk i j g p a b hi hj => ?_, fun i g m hi hm hx hres => ?_⟩
  · rw [hg] at hi
    exact he x (h.ran i g m x hi hm hx)
  · rw [hg] at hi
    exact h.answered i g hi
  · rw [hg] at hi hj
    exact h.cross hk i j g p a b hi hj
  · rw [hg] at hi
    exact hl (h.deleted i g m hi hm hx hres)

theorem Runs.spawn (h : Runs r s) (c : Method) :
    Runs r { s with goroutines := s.goroutines ++ [⟨c, 0, none⟩] } := by
  refine ⟨fun i g m x hi hm hx => ?_, fun i g hi => ?_, fun hk i j g p a b hi hj hg hp ha hb => ?_,
    fun i g m hi hm hx hres => ?_⟩
  · rcases append_get hi with hi | ⟨-, rfl⟩
    · exact h.ran i g m x hi hm hx
    · exact absurd hm (Nat.not_lt_zero m)
  · rcases append_get hi with hi | ⟨-, rfl⟩
    · exact h.answered i g hi
    · refine ⟨nofun, fun ⟨m, _, hm, _⟩ => absurd hm (Nat.not_lt_zero m)⟩
  · rcases append_get hi with hi | ⟨-, rfl⟩
    · rcases append_get hj with hj | ⟨-, rfl⟩
      · exact h.cross hk i j g p a b hi hj hg hp ha hb
      · cases hb
    · cases ha
  · rcases append_get hi with hi | ⟨-, rfl⟩
    · exact h.deleted i g m hi hm hx hres
    · cases hres

/-- Every instruction has its effect and takes none back. -/
theorem effect_perform (o : Option Bool) (x y : Instr) (h : Effect s y) : Effect (s.perform o x) y := by
  cases y with
  | storeGet => cases x <;> first | rfl | exact h
  | storePut => cases x <;> first | rfl | exact h
  | closeResult => exact (perform_once s o x).trans h
  | _ => trivial

theorem effect_self (o : Option Bool) {x : Instr} (h : x = .closeResult → s.once = .done) :
    Effect (s.perform o x) x := by
  cases x with
  | closeResult => exact h rfl
  | storeGet => rfl
  | storePut => rfl
  | _ => trivial

section Advance

variable {i : Nat} {g : Goroutine} {x : Instr} (h : Runs r s) (hg : s.goroutines[i]? = some g)
  (hx : (g.call.code r.kind)[g.pc]? = some x)

include h hg hx

/-- A result is the one the goroutine had, or its instruction gave it. -/
theorem answered_advance (m : Nat) (hm : m = g.pc + 1) : (s.answer g.result x).isSome = true ↔
    ∃ n y, n < m ∧ (g.call.code r.kind)[n]? = some y ∧ y.answers = true := by
  subst hm
  cases ha : x.answers with
  | true =>
    refine ⟨fun _ => ⟨g.pc, x, Nat.lt_succ_self _, hx, ha⟩, fun _ => ?_⟩
    cases x <;> first | rfl | cases ha
  | false =>
    have hkeep : s.answer g.result x = g.result := by cases x <;> first | rfl | cases ha
    rw [hkeep, h.answered i g hg]
    refine ⟨fun ⟨n, y, hn, hy⟩ => ⟨n, y, by omega, hy⟩, fun ⟨n, y, hn, hy, hya⟩ => ⟨n, y, ?_, hy, hya⟩⟩
    -- the instruction it passed is not the one that answers
    have hne : n ≠ g.pc := by
      rintro rfl
      rw [hx] at hy
      cases hy
      rw [ha] at hya
      cases hya
    omega

/-- A chat's get half that loads now finds the put flag set by a put half that has its result. -/
theorem get_answer (hk : r.kind = .chat) (hc : g.call = .tryGetClose) {j : Nat} {p : Goroutine} {a b : Bool}
    (hp : s.goroutines[j]? = some p) (hpc : p.call = .tryPutClose) (hb : p.result = some b)
    (ha : s.answer g.result x = some a) : a = true ∨ b = true := by
  rw [hc, hk] at hx
  have hmem : x ∈ Method.code .chat .tryGetClose := List.mem_of_getElem? hx
  have hput : s.putClosed = true := h.putStored hp hpc (by rw [hb]; rfl)
  cases x with
  | loadPut =>
    cases ha
    exact .inl hput
  | returnTrue => cases ha; exact .inl rfl
  | loadGet => simp [Method.code] at hmem
  | _ => exact h.cross hk i j g p a b hg hp hc hpc ha hb

theorem put_answer (hk : r.kind = .chat) (hc : g.call = .tryPutClose) {j : Nat} {q : Goroutine} {a b : Bool}
    (hq : s.goroutines[j]? = some q) (hqc : q.call = .tryGetClose) (ha : q.result = some a)
    (hb : s.answer g.result x = some b) : a = true ∨ b = true := by
  rw [hc, hk] at hx
  have hmem : x ∈ Method.code .chat .tryPutClose := List.mem_of_getElem? hx
  have hget : s.getClosed = true := h.getStored hq hqc (by rw [ha]; rfl)
  cases x with
  | loadGet =>
    cases hb
    exact .inr hget
  | returnTrue => cases hb; exact .inr rfl
  | loadPut => simp [Method.code] at hmem
  | _ => exact h.cross hk j i q g a b hq hg hqc hc ha hb

theorem Runs.advance (he : ∀ y, Effect s y → Effect t y) (hex : Effect t x)
    (hl : t.live = (s.perform g.result x).live)
    (ht : t.goroutines = s.goroutines.modify i fun g => { g with pc := g.pc + 1, result := s.answer g.result x }) :
    Runs r t := by
  have hlive : s.live = false → t.live = false := by
    intro hs
    rw [hl]
    cases x <;> simp [St.perform, hs]
  refine ⟨fun j q m y hj hm hy => ?_, fun j q hj => ?_, fun hk j l q p a b hj hlp hq hp ha hb => ?_,
    fun j q m hj hm hy hres => ?_⟩
  · rw [ht] at hj
    rcases modify_get hj with ⟨rfl, q, hq, rfl⟩ | ⟨-, hj⟩
    · cases hg.symm.trans hq
      by_cases hmp : m = g.pc
      · subst hmp
        cases hx.symm.trans hy
        exact hex
      · have hm : m < g.pc + 1 := hm
        exact he y (h.ran i g m y hg (by omega) hy)
    · exact he y (h.ran j q m y hj hm hy)
  · rw [ht] at hj
    rcases modify_get hj with ⟨rfl, q, hq, rfl⟩ | ⟨-, hj⟩
    · cases hg.symm.trans hq
      exact answered_advance h hg hx _ rfl
    · exact h.answered j q hj
  · rw [ht] at hj hlp
    rcases modify_get hj with ⟨rfl, q, hq', rfl⟩ | ⟨hij, hj⟩
    · cases hg.symm.trans hq'
      rcases modify_get hlp with ⟨rfl, p, hp', rfl⟩ | ⟨-, hlp⟩
      · cases hg.symm.trans hp'
        have := hq.symm.trans hp
        cases this
      · exact get_answer h hg hx hk hq hlp hp hb ha
    · rcases modify_get hlp with ⟨rfl, p, hp', rfl⟩ | ⟨-, hlp⟩
      · cases hg.symm.trans hp'
        exact put_answer h hg hx hk hp hj hq ha hb
      · exact h.cross hk j l q p a b hj hlp hq hp ha hb
  · rw [ht] at hj
    rcases modify_get hj with ⟨rfl, q, hq, rfl⟩ | ⟨-, hj⟩
    · cases hg.symm.trans hq
      have hlt := (List.getElem?_eq_some_iff.mp hx).1
      have hm : m < g.pc + 1 := hm
      have hlast := delete_last hy
      -- the delete is the instruction it passed now
      have hmp : m = g.pc := by dsimp only at hlast; omega
      subst hmp
      cases hx.symm.trans hy
      have hres : g.result = some true := hres
      rw [hl]
      simp [St.perform, hres]
    · exact hlive (h.deleted j q m hj hm hy hres)

end Advance

theorem Runs.step (h : Runs r s) (hg : Goes r s t) : Runs r t := by
  cases hg with
  | go c => exact h.spawn c
  | pumpReturns _ _ => exact h.frame rfl (fun x hx => by cases x <;> exact hx) id
  | enters i ho =>
    refine h.frame rfl (fun x hx => ?_) id
    cases x with
    | closeResult => exact absurd (ho.symm.trans hx) (by simp)
    | _ => exact hx
  | acts ho =>
    refine h.frame rfl (fun x hx => ?_) id
    cases x with
    | closeResult => exact absurd (ho.symm.trans hx) (by simp)
    | _ => exact hx
  | @leaves i g ho hg hx =>
    refine h.advance hg hx (fun y hy => ?_) rfl rfl rfl
    cases y with
    | closeResult => rfl
    | _ => exact hy
  | @passes i g x hg hx ho =>
    have hkeep : ∀ y, Effect s y → Effect (s.advance i g x) y := by
      intro y hy
      have := effect_perform g.result x y hy
      cases y <;> exact this
    refine h.advance hg hx hkeep ?_ rfl rfl
    have := effect_self g.result ho
    cases x <;> exact this

/-! ## Every run -/

structure Inv (r : Record) (s : St) : Prop where
  body : Body r s
  runs : Runs r s
  pump : s.pumpReturned = true → r.kind.pumped = true
  /-- The body ended the pump's input. -/
  input : .closePump ∈ s.acts → s.inputEnd = true

theorem Goes.input (h : Goes r s t) (hi : .closePump ∈ s.acts → s.inputEnd = true) (hm : .closePump ∈ t.acts) :
    t.inputEnd = true := by
  cases h with
  | @acts i a rest ho =>
    rcases List.mem_append.mp hm with hm | hm
    · simp [St.act, hi hm]
    · simp [St.act, ← List.mem_singleton.mp hm]
  | leaves _ _ _ | passes _ _ _ =>
    simp only [St.advance, perform_acts, perform_inputEnd] at hm ⊢
    exact hi hm
  | _ => exact hi hm

theorem Goes.pumpReturned (h : Goes r s t) : t.pumpReturned = s.pumpReturned ∨ r.kind.pumped = true := by
  cases h with
  | pumpReturns hp _ => exact .inr hp
  | leaves _ _ _ => exact .inl (perform_pumpReturned s _ _)
  | passes _ _ _ => exact .inl (perform_pumpReturned s _ _)
  | _ => exact .inl rfl

theorem inv_step (hi : Inv r s) (h : step r s e = some t) : Inv r t := by
  have hg := goes h
  refine ⟨hi.body.step hg, hi.runs.step hg, fun hp => ?_, hg.input hi.input⟩
  rcases hg.pumpReturned with he | hk
  · exact hi.pump (he.symm.trans hp)
  · exact hk

theorem inv_reach (h : (sys r).Reach Sys.any s) : Inv r s := by
  refine h.inv (P := Inv r) (fun s hs => ?_) fun _ _ _ hi _ hs => inv_step hi hs
  cases hs
  refine ⟨⟨rfl, rfl⟩, ⟨nofun, nofun, nofun,
    nofun⟩, nofun, nofun⟩

/-- The result channel is closed by the body or by the pump, not by both. -/
theorem Inv.resultClosed_le (hi : Inv r s) : s.resultClosed ≤ 1 := by
  unfold St.resultClosed
  cases hp : s.pumpReturned with
  | false => simpa using hi.body.count_le .closeResultCh
  | true =>
    have hnot : Act.closeResultCh ∉ s.acts :=
      fun hm => not_mem_closeResult (hi.pump hp) (hi.body.acts_prefix.subset hm)
    rw [List.count_eq_zero_of_not_mem hnot]
    decide

/-- A terminal call comes to `closeResult` before its return. -/
theorem terminal_code {kind : StreamKind} {c : Method} (h : c.terminal kind = true) :
    ∃ m : Nat, (c.code kind)[m]? = some Instr.closeResult ∧
      ∀ (n : Nat) (x : Instr), (c.code kind)[n]? = some x → x.answers = true → m < n := by
  have hsecond : ∀ l : List Instr, ∀ (n : Nat) (x : Instr), (Instr.storeGet :: .closeResult :: l)[n]? = some x ∨
      (Instr.storePut :: .closeResult :: l)[n]? = some x → x.answers = true → 1 < n := by
    intro l n x hx ha
    have : n ≠ 0 ∧ n ≠ 1 := by
      constructor <;> (rintro rfl; rcases hx with hx | hx <;> cases hx <;> cases ha)
    omega
  cases c with
  | close =>
    refine ⟨(Method.code kind .close).length - 1, by cases kind <;> rfl, fun n x hx ha => ?_⟩
    have hnone : ∀ y ∈ Method.code kind .close, y.answers = false := by cases kind <;> decide
    rw [hnone x (List.mem_of_getElem? hx)] at ha
    cases ha
  | tryGetClose => exact ⟨1, rfl, fun n x hx => hsecond _ n x (.inl hx)⟩
  | tryPutClose =>
    have hk : kind = .putStream := of_decide_eq_true h
    subst hk
    exact ⟨1, rfl, fun n x hx => hsecond _ n x (.inr hx)⟩

theorem Runs.closed (h : Runs r s) {i : Nat} {g : Goroutine} (hg : s.goroutines[i]? = some g)
    (ht : g.call.terminal r.kind = true) (hret : g.returned r.kind = true) : s.once = .done := by
  obtain ⟨m, hm, hbefore⟩ := terminal_code ht
  refine h.ran i g m .closeResult hg ?_ hm
  rcases Bool.or_eq_true_iff.mp hret with hres | hend
  · obtain ⟨n, x, hn, hx, ha⟩ := (h.answered i g hg).mp hres
    have := hbefore n x hx ha
    omega
  · have hend : g.pc = (g.call.code r.kind).length := of_decide_eq_true hend
    have := (List.getElem?_eq_some_iff.mp hm).1
    omega

/-- A `Try` call that is through has its result, and has come to the delete. -/
theorem Runs.through (h : Runs r s) {i : Nat} {g : Goroutine} (hg : s.goroutines[i]? = some g)
    (hc : g.call ≠ .close) (hend : g.pc = (g.call.code r.kind).length) :
    ∃ b, g.result = some b ∧ (b = true → s.live = false) := by
  have hshape : ∃ n x, (g.call.code r.kind)[n]? = some x ∧ x.answers = true ∧
    (g.call.code r.kind)[n + 1]? = some .delete := by
    cases hcall : g.call with
    | close => exact absurd hcall hc
    | tryGetClose => cases r.kind <;> exact ⟨2, _, rfl, rfl, rfl⟩
    | tryPutClose => cases r.kind <;> first | exact ⟨2, _, rfl, rfl, rfl⟩ | exact ⟨1, _, rfl, rfl, rfl⟩
  obtain ⟨n, x, hx, ha, hd⟩ := hshape
  have hn := (List.getElem?_eq_some_iff.mp hx).1
  have hn' := (List.getElem?_eq_some_iff.mp hd).1
  obtain ⟨b, hb⟩ := Option.isSome_iff_exists.mp ((h.answered i g hg).mpr ⟨n, x, by omega, hx, ha⟩)
  exact ⟨b, hb, fun ht => h.deleted i g (n + 1) hg (by omega) hd (ht ▸ hb)⟩

/-- How often each action stands in the body. -/
theorem count_closeResult (r : Record) : r.closeResult.count .closeDone = 1 ∧
    r.closeResult.count .closeGate = r.kind.gated.toNat ∧ r.closeResult.count .closePump = r.kind.pumped.toNat ∧
    r.closeResult.count .closeResultCh = (!r.kind.pumped).toNat ∧
      r.closeResult.count .requestEnd = r.metrics.toNat := by
  cases r with
  | rpcRequestCtx kind metrics => cases kind <;> cases metrics <;> decide
  | clientStream kind => cases kind <;> decide

structure Closed (r : Record) (s : St) : Prop where
  bodies : s.bodies = 1
  done : s.acts.count .closeDone = 1
  gate : s.acts.count .closeGate = r.kind.gated.toNat
  /-- The result channel is closed, or the pump's goroutine closes it by its return. -/
  result : s.resultClosed = 1 ∨
    r.kind.pumped = true ∧ s.resultClosed = 0 ∧ ∃ t, step r s .pumpReturns = some t ∧ t.resultClosed = 1
  requestEnd : s.acts.count .requestEnd = r.metrics.toNat

theorem Inv.closed (hi : Inv r s) (ho : s.once = .done) : Closed r s := by
  obtain ⟨hb, ha⟩ := hi.body.closed ho
  obtain ⟨hdone, hgate, hpump, hres, hend⟩ := count_closeResult r
  refine ⟨hb, ha ▸ hdone, ha ▸ hgate, ?_, ha ▸ hend⟩
  unfold St.resultClosed
  rw [ha, hres]
  cases hk : r.kind.pumped with
  | false =>
    have hno : s.pumpReturned = false := Bool.eq_false_iff.mpr fun h => by rw [hi.pump h] at hk; cases hk
    exact .inl (by simp [hno])
  | true =>
    cases hp : s.pumpReturned with
    | true => exact .inl rfl
    | false =>
      have hin : s.inputEnd = true := by
        refine hi.input (List.count_pos_iff.mp ?_)
        rw [ha, hpump, hk]
        exact Nat.zero_lt_one
      exact .inr ⟨rfl, rfl, { s with pumpReturned := true }, by simp [step, hk, hin, hp], by simp [ha, hres, hk]⟩

theorem closed_once (r : Record) (s : St) (hr : (sys r).Reach Sys.any s) :
    (s.bodies ≤ 1 ∧ s.acts.count .closeDone ≤ 1 ∧ s.resultClosed ≤ 1 ∧ s.acts.count .requestEnd ≤ 1) ∧
    (∀ (i : Nat) (g : Goroutine), s.goroutines[i]? = some g → g.call.terminal r.kind = true →
      g.returned r.kind = true → Closed r s) ∧
    (r.kind = .chat → ∀ (i j : Nat) (g p : Goroutine), s.goroutines[i]? = some g → s.goroutines[j]? = some p →
      g.call = .tryGetClose → p.call = .tryPutClose →
      (∀ a b, g.result = some a → p.result = some b → a = true ∨ b = true) ∧
      (g.pc = (g.call.code r.kind).length → p.pc = (p.call.code r.kind).length → s.live = false)) := by
  have hi := inv_reach hr
  have hb := hi.body
  have hruns := hi.runs
  refine ⟨⟨hb.bodies_le, hb.count_le _, hi.resultClosed_le, hb.count_le _⟩, fun i g hg ht hret => ?_,
    fun hk i j g p hg hp hgc hpc => ⟨fun a b ha hpb => hruns.cross hk i j g p a b hg hp hgc hpc ha hpb,
      fun hge hpe => ?_⟩⟩
  · exact hi.closed (hruns.closed hg ht hret)
  · obtain ⟨a, ha, hda⟩ := hruns.through hg (by rw [hgc]; simp) hge
    obtain ⟨b, hpb, hdb⟩ := hruns.through hp (by rw [hpc]; simp) hpe
    rcases hruns.cross hk i j g p a b hg hp hgc hpc ha hpb with h | h
    · exact hda h
    · exact hdb h

/-- A chat of the client, its two halves ending at once and a hard close between them: the
    put half stores, the get half is in the body when the close comes, the put half loads. -/
def bothHalves : List Ev :=
  [.go .tryGetClose, .go .tryPutClose, .run 1, .run 0, .run 0, .go .close, .run 2, .run 2, .run 0, .run 1,
    .run 0, .run 2,
    .run 0, .run 0, .run 0, .run 2, .run 0, .run 1, .run 0, .pumpReturns]

def putEnds : List Ev := [.go .tryPutClose, .go .close, .run 0, .run 1, .run 1, .run 0, .run 0, .run 0,
    .run 0, .run 0, .run 1, .run 0, .run 0]

theorem closed_once_bothHalves :
    (∃ s, (sys (.rpcRequestCtx .chat true)).Reach Sys.any s ∧
      s.goroutines = [⟨.tryGetClose, 4, some true⟩, ⟨.tryPutClose, 3, some true⟩, ⟨.close, 4, none⟩] ∧
      Closed (.rpcRequestCtx .chat true) s ∧ s.pumpReturned = true ∧ s.resultClosed ≤ 1 ∧ s.live = false) ∧
    ∃ s, (sys (.clientStream .putStream)).Reach Sys.any s ∧
      s.goroutines = [⟨.tryPutClose, 4, some true⟩, ⟨.close, 3, none⟩] ∧ Closed (.clientStream .putStream) s := by
  obtain ⟨s, hr, hg, hp⟩ := (sys (.rpcRequestCtx .chat true)).reach_of_exec Sys.any start rfl bothHalves
    (P := fun s => s.goroutines = [⟨.tryGetClose, 4, some true⟩, ⟨.tryPutClose, 3, some true⟩, ⟨.close, 4, none⟩] ∧
      s.pumpReturned = true) (by decide +kernel)
  obtain ⟨⟨-, -, hres, -⟩, hterm, hchat⟩ := closed_once (.rpcRequestCtx .chat true) s hr
  obtain ⟨-, hlive⟩ := hchat rfl 0 1 ⟨.tryGetClose, 4, some true⟩ ⟨.tryPutClose, 3, some true⟩ (by rw [hg]; rfl)
    (by rw [hg]; rfl) rfl rfl
  obtain ⟨u, hu, hgu⟩ := (sys (.clientStream .putStream)).reach_of_exec Sys.any start rfl putEnds
    (P := fun s => s.goroutines = [⟨.tryPutClose, 4, some true⟩, ⟨.close, 3, none⟩]) (by decide +kernel)
  obtain ⟨-, hterm', -⟩ := closed_once (.clientStream .putStream) u hu
  exact ⟨⟨s, hr, hg, hterm 0 ⟨.tryGetClose, 4, some true⟩ (by rw [hg]; rfl) rfl rfl, hp, hres, hlive rfl rfl⟩,
    u, hu, hgu, hterm' 1 ⟨.close, 3, none⟩ (by rw [hgu]; rfl) rfl rfl⟩

end ValueRpc.Stream.CloseOnce
