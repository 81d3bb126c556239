/-
  ValueRpc.Server.Run — the accept loop of a server, its connection goroutines and `Close`
  (`valueserver/server.go`: `Run`, `Close`, `handleConnection`).

  One `Run` takes a connection at a time from Accept to its goroutine, or drops it: it reads
  the counter against the limit, locks `acceptMu`, looks at `shutdown`, counts, stores,
  adds to the wait group, unlocks, and starts the goroutine. Each of these is a step. The
  goroutine ends in four: `handleConnection` closes the connection, then the deferred
  Delete, count and Done. `Close` closes `shutdown` under `acceptMu`, closes the listener
  and what it finds in `connMap`, and waits for the group; its `closeOnce` makes every call
  return when this one has.

  A connection's stage says where it is, in `Run` or in its goroutine. What a goroutine does
  with its connection is left out: it may end at any time, by an error, a panic or a
  connection that was closed. Accept may succeed or fail at any time, also after the
  listener was closed. That `Close` stops the sessions is left out.

  - `server_drains`: nothing is added to the wait group once `shutdown` is closed; no more
    connections are registered than the limit allows; and when `Run` and `Close` have
    returned, every connection Accept returned is closed and every goroutine has finished.
-/

import ValueRpc.Lib.Runs
import ValueRpc.Lib.Mutex

namespace ValueRpc.Server.Run

open ValueRpc.Lib

structure Config where
  maxConnections : Int

inductive Stage where
  /-- Accept returned it; before the limit, and before `acceptMu.Lock`. -/
  | accepted
  | admitted
  /-- Under `acceptMu`: before the look at `shutdown`, after it, before the Store, before
      `wg.Add`, before the Unlock. -/
  | locked
  | refused
  | vetted
  | counted
  | stored
  | added
  | unlocked
  /-- `Run` is about to close it, and closed it. -/
  | dropping
  | dropped
  /-- In `handleConnection`, then before the Delete, the count and the Done. -/
  | handling
  | deleting
  | uncounting
  | leaving
  | finished
  deriving DecidableEq, Repr

structure Conn where
  stage : Stage
  closed : Bool
  deriving DecidableEq, Repr

inductive Loop where
  | accepting
  | busy (c : Nat)
  | sleeping
  | returned
  deriving DecidableEq, Repr

def Loop.hand : Loop → Option Nat
  | .busy c => some c
  | _ => none

inductive Closer where
  | idle
  | locking
  /-- Under `acceptMu`: before and after `close(shutdown)`. -/
  | locked
  | unlocking
  | listening
  | ranging
  | waiting
  | returned
  deriving DecidableEq, Repr

inductive Who where
  | run
  | close
  deriving DecidableEq, Repr

structure St where
  conns : List Conn
  run : Loop
  close : Closer
  acceptMu : Option Who
  shutdown : Bool
  liveConns : Int
  connMap : List Nat
  wg : Int

def start : St := ⟨[], .accepting, .idle, none, false, 0, [], 0⟩

inductive Ev where
  | accept
  | acceptError
  | wake
  | run
  | exit (c : Nat)
  | defer_ (c : Nat)
  | close
  | closeConn (c : Nat)
  deriving DecidableEq, Repr

namespace St

def goto (s : St) (c : Nat) (stage : Stage) : St :=
    { s with conns := s.conns.modify c fun k => { k with stage := stage } }

def closeAt (s : St) (c : Nat) (stage : Stage) : St := { s with conns := s.conns.modify c fun _ => ⟨stage, true⟩ }

end St

def runStep (cfg : Config) (s : St) (c : Nat) (k : Conn) : Option St :=
  match k.stage with
  | .accepted =>
    some (s.goto c (if 0 < cfg.maxConnections ∧ cfg.maxConnections ≤ s.liveConns then .dropping else .admitted))
  | .admitted => if s.acceptMu = none then some { s.goto c .locked with acceptMu := some .run } else none
  | .locked => some (s.goto c (if s.shutdown then .refused else .vetted))
  | .refused => some { s.goto c .dropping with acceptMu := none }
  | .vetted => some { s.goto c .counted with liveConns := s.liveConns + 1 }
  | .counted => some { s.goto c .stored with connMap := c :: s.connMap }
  | .stored => some { s.goto c .added with wg := s.wg + 1 }
  | .added => some { s.goto c .unlocked with acceptMu := none }
  | .unlocked => some { s.goto c .handling with run := .accepting }
  | .dropping => some { s.closeAt c .dropped with run := .accepting }
  | _ => none

def deferStep (s : St) (c : Nat) (k : Conn) : Option St :=
  match k.stage with
  | .deleting => some { s.goto c .uncounting with connMap := s.connMap.erase c }
  | .uncounting => some { s.goto c .leaving with liveConns := s.liveConns - 1 }
  | .leaving => some { s.goto c .finished with wg := s.wg - 1 }
  | _ => none

def closeStep (s : St) : Option St :=
  match s.close with
  | .idle => some { s with close := .locking }
  | .locking => if s.acceptMu = none then some { s with close := .locked, acceptMu := some .close } else none
  | .locked => some { s with close := .unlocking, shutdown := true }
  | .unlocking => some { s with close := .listening, acceptMu := none }
  | .listening => some { s with close := .ranging }
  | .ranging =>
    if s.connMap.all fun c => s.conns[c]?.all (·.closed) then some { s with close := .waiting } else none
  | .waiting => if s.wg = 0 then some { s with close := .returned } else none
  | .returned => none

def step (cfg : Config) (s : St) : Ev → Option St
  | .accept =>
    if s.run = .accepting then
      some { s with conns := s.conns ++ [⟨.accepted, false⟩], run := .busy s.conns.length }
    else none
  | .acceptError =>
    if s.run = .accepting then some { s with run := if s.shutdown then .returned else .sleeping } else none
  | .wake => if s.run = .sleeping then some { s with run := .accepting } else none
  | .run =>
    match s.run with
    | .busy c => s.conns[c]?.bind (runStep cfg s c)
    | _ => none
  | .exit c =>
    s.conns[c]?.bind fun k => if k.stage = .handling then some (s.closeAt c .deleting) else none
  | .defer_ c => s.conns[c]?.bind (deferStep s c)
  | .close => closeStep s
  | .closeConn c =>
    if s.close = .ranging ∧
      c ∈ s.connMap then some { s with conns := s.conns.modify c fun k => { k with closed := true } }
    else none

def sys (cfg : Config) : Sys St Ev := ⟨fun s => s = start, step cfg⟩

/-! ## What a stage says -/

namespace Stage

def inRun : Stage → Bool
  | .accepted | .admitted | .locked | .refused | .vetted | .counted | .stored | .added | .unlocked | .dropping => true
  | _ => false

def inLock : Stage → Bool
  | .locked | .refused | .vetted | .counted | .stored | .added => true
  | _ => false

/-- Under `acceptMu`, and `shutdown` was seen open. -/
def vouched : Stage → Bool
  | .vetted | .counted | .stored | .added => true
  | _ => false

/-- Below the limit, and not counted yet. -/
def below : Stage → Bool
  | .admitted | .locked | .refused | .vetted => true
  | _ => false

/-- In `liveConns`. -/
def live : Stage → Bool
  | .counted | .stored | .added | .unlocked | .handling | .deleting | .uncounting => true
  | _ => false

/-- In `connMap`. -/
def mapped : Stage → Bool
  | .stored | .added | .unlocked | .handling | .deleting => true
  | _ => false

/-- In the wait group. -/
def waited : Stage → Bool
  | .added | .unlocked | .handling | .deleting | .uncounting | .leaving => true
  | _ => false

/-- `Run` or `handleConnection` closed it. -/
def shut : Stage → Bool
  | .dropped | .deleting | .uncounting | .leaving | .finished => true
  | _ => false

theorem inLock_inRun {g : Stage} (h : g.inLock = true) :
    g.inRun = true := by cases g <;> first | rfl | cases h

theorem vouched_inLock {g : Stage} (h : g.vouched = true) :
    g.inLock = true := by cases g <;> first | rfl | cases h

theorem below_inRun {g : Stage} (h : g.below = true) : g.inRun = true := by cases g <;> first | rfl | cases h

theorem mapped_live {g : Stage} (h : g.mapped = true) : g.live = true := by cases g <;> first | rfl | cases h

theorem gone {g : Stage} (hr : g.inRun = false) (hw : g.waited = false) : g = .dropped ∨ g = .finished := by
  cases g with
  | dropped => exact .inl rfl
  | finished => exact .inr rfl
  | handling | deleting | uncounting | leaving => cases hw
  | _ => cases hr

end Stage

def Closer.past : Closer → Bool
  | .idle | .locking | .locked => false
  | _ => true

def Closer.inLock : Closer → Bool
  | .locked | .unlocking => true
  | _ => false

/-! ## What a step does -/

inductive Goes (cfg : Config) (s : St) (c : Nat) : Stage → Stage → St → Prop
  | limited : Goes cfg s c .accepted .dropping (s.goto c .dropping)
  | within (h : 0 < cfg.maxConnections → s.liveConns < cfg.maxConnections) :
      Goes cfg s c .accepted .admitted (s.goto c .admitted)
  | lock (h : s.acceptMu = none) : Goes cfg s c .admitted .locked { s.goto c .locked with acceptMu := some .run }
  | refuse : Goes cfg s c .locked .refused (s.goto c .refused)
  | vet (h : s.shutdown = false) : Goes cfg s c .locked .vetted (s.goto c .vetted)
  | unlockRefused : Goes cfg s c .refused .dropping { s.goto c .dropping with acceptMu := none }
  | count : Goes cfg s c .vetted .counted { s.goto c .counted with liveConns := s.liveConns + 1 }
  | store : Goes cfg s c .counted .stored { s.goto c .stored with connMap := c :: s.connMap }
  | add : Goes cfg s c .stored .added { s.goto c .added with wg := s.wg + 1 }
  | unlock : Goes cfg s c .added .unlocked { s.goto c .unlocked with acceptMu := none }
  | spawn : Goes cfg s c .unlocked .handling { s.goto c .handling with run := .accepting }
  | drop : Goes cfg s c .dropping .dropped { s.closeAt c .dropped with run := .accepting }
  | exit : Goes cfg s c .handling .deleting (s.closeAt c .deleting)
  | delete : Goes cfg s c .deleting .uncounting { s.goto c .uncounting with connMap := s.connMap.erase c }
  | uncount : Goes cfg s c .uncounting .leaving { s.goto c .leaving with liveConns := s.liveConns - 1 }
  | leave : Goes cfg s c .leaving .finished { s.goto c .finished with wg := s.wg - 1 }

inductive Does (cfg : Config) (s : St) : St → Prop
  | accept (h : s.run = .accepting) :
      Does cfg s { s with conns := s.conns ++ [⟨.accepted, false⟩], run := .busy s.conns.length }
  | idle {l : Loop} (h : s.run.hand = none) (hl : l.hand = none) : Does cfg s { s with run := l }
  | goes {c : Nat} {k : Conn} {g : Stage} {t : St} (hk : s.conns[c]? = some k)
      (h : Goes cfg s c k.stage g t) : Does cfg s t
  | begin (h : s.close = .idle) : Does cfg s { s with close := .locking }
  | lock (h : s.close = .locking) (hn : s.acceptMu = none) :
      Does cfg s { s with close := .locked, acceptMu := some .close }
  | shut (h : s.close = .locked) : Does cfg s { s with close := .unlocking, shutdown := true }
  | unlock (h : s.close = .unlocking) : Does cfg s { s with close := .listening, acceptMu := none }
  | listener (h : s.close = .listening) : Does cfg s { s with close := .ranging }
  | closeConn {c : Nat} (h : s.close = .ranging) :
      Does cfg s { s with conns := s.conns.modify c fun k => { k with closed := true } }
  | ranged (h : s.close = .ranging) : Does cfg s { s with close := .waiting }
  | waited (h : s.close = .waiting) (hw : s.wg = 0) : Does cfg s { s with close := .returned }

variable {cfg : Config} {s t : St} {e : Ev} {c : Nat} {k : Conn}

theorem runStep_cases (h : runStep cfg s c k = some t) : ∃ g, Goes cfg s c k.stage g t := by
  unfold runStep at h
  cases hg : k.stage with
  | accepted =>
    simp only [hg] at h
    cases h
    split
    · exact ⟨_, .limited⟩
    · rename_i hm
      exact ⟨_, .within fun hpos => by omega⟩
  | admitted =>
    simp only [hg] at h
    split at h
    · rename_i hn; cases h; exact ⟨_, .lock hn⟩
    · cases h
  | locked =>
    simp only [hg] at h
    cases h
    cases hs : s.shutdown with
    | true => exact ⟨_, .refuse⟩
    | false => exact ⟨_, .vet hs⟩
  | refused => simp only [hg] at h; cases h; exact ⟨_, .unlockRefused⟩
  | vetted => simp only [hg] at h; cases h; exact ⟨_, .count⟩
  | counted => simp only [hg] at h; cases h; exact ⟨_, .store⟩
  | stored => simp only [hg] at h; cases h; exact ⟨_, .add⟩
  | added => simp only [hg] at h; cases h; exact ⟨_, .unlock⟩
  | unlocked => simp only [hg] at h; cases h; exact ⟨_, .spawn⟩
  | dropping => simp only [hg] at h; cases h; exact ⟨_, .drop⟩
  | _ => simp only [hg] at h; cases h

theorem deferStep_cases (h : deferStep s c k = some t) : ∃ g, Goes cfg s c k.stage g t := by
  unfold deferStep at h
  cases hg : k.stage with
  | deleting => simp only [hg] at h; cases h; exact ⟨_, .delete⟩
  | uncounting => simp only [hg] at h; cases h; exact ⟨_, .uncount⟩
  | leaving => simp only [hg] at h; cases h; exact ⟨_, .leave⟩
  | _ => simp only [hg] at h; cases h

theorem closeStep_cases (h : closeStep s = some t) : Does cfg s t := by
  unfold closeStep at h
  cases hc : s.close with
  | idle => simp only [hc] at h; cases h; exact .begin hc
  | locking =>
    simp only [hc] at h
    split at h
    · rename_i hn; cases h; exact .lock hc hn
    · cases h
  | locked => simp only [hc] at h; cases h; exact .shut hc
  | unlocking => simp only [hc] at h; cases h; exact .unlock hc
  | listening => simp only [hc] at h; cases h; exact .listener hc
  | ranging =>
    simp only [hc] at h
    split at h
    · cases h; exact .ranged hc
    · cases h
  | waiting =>
    simp only [hc] at h
    split at h
    · rename_i hw; cases h; exact .waited hc hw
    · cases h
  | returned => simp only [hc] at h; cases h

theorem step_cases (h : step cfg s e = some t) : Does cfg s t := by
  cases e with
  | accept =>
    simp only [step] at h
    split at h
    · rename_i hr; cases h; exact .accept hr
    · cases h
  | acceptError =>
    simp only [step] at h
    split at h
    · rename_i hr
      cases h
      refine .idle (by rw [hr]; rfl) ?_
      split <;> rfl
    · cases h
  | wake =>
    simp only [step] at h
    split at h
    · rename_i hr; cases h; exact .idle (by rw [hr]; rfl) rfl
    · cases h
  | run =>
    simp only [step] at h
    split at h
    · obtain ⟨k, hk, h⟩ := Option.bind_eq_some_iff.mp h
      obtain ⟨g, hg⟩ := runStep_cases h
      exact .goes hk hg
    · cases h
  | exit c =>
    obtain ⟨k, hk, h⟩ := Option.bind_eq_some_iff.mp h
    split at h
    · rename_i hg
      cases h
      refine .goes (g := .deleting) hk ?_
      rw [hg]
      exact .exit
    · cases h
  | defer_ c =>
    obtain ⟨k, hk, h⟩ := Option.bind_eq_some_iff.mp h
    obtain ⟨g, hg⟩ : ∃ g, Goes cfg s c k.stage g t := deferStep_cases h
    exact .goes hk hg
  | close => exact closeStep_cases h
  | closeConn c =>
    simp only [step] at h
    split at h
    · rename_i hr; cases h; exact .closeConn hr.1
    · cases h

/-! ## What a connection that moves on changes -/

section Goes

variable {g g' : Stage} (h : Goes cfg s c g g' t)

include h

theorem Goes.conns : ∃ f : Conn → Conn, t.conns = s.conns.modify c f ∧ (∀ k, (f k).stage = g') ∧
    ∀ k, g'.shut = true → (f k).closed = true ∨ g.shut = true ∧ (f k).closed = k.closed := by
  cases h <;> exact ⟨_, rfl, fun _ => rfl, by simp [Stage.shut]⟩

theorem Goes.close : t.close = s.close ∧ t.shutdown = s.shutdown := by
  cases h <;> exact ⟨rfl, rfl⟩

theorem Goes.live : t.liveConns + g.live.toNat = s.liveConns + g'.live.toNat := by
  cases h <;> simp [Stage.live, St.goto, St.closeAt]

theorem Goes.wg : t.wg + g.waited.toNat = s.wg + g'.waited.toNat := by
  cases h <;> simp [Stage.waited, St.goto, St.closeAt]

theorem Goes.map : t.connMap = s.connMap ∧ g'.mapped = g.mapped ∨
    t.connMap = c :: s.connMap ∧ g.mapped = false ∧ g'.mapped = true ∨
    t.connMap = s.connMap.erase c ∧ g.mapped = true ∧ g'.mapped = false := by
  cases h <;> simp [Stage.mapped, St.goto, St.closeAt]

theorem Goes.hand :
    g'.inRun = g.inRun ∧ t.run = s.run ∨ g.inRun = true ∧ g'.inRun = false ∧ t.run.hand = none := by
  cases h <;> simp [Stage.inRun, Loop.hand, St.goto, St.closeAt]

theorem Goes.locks : g'.inLock = g.inLock ∧ t.acceptMu = s.acceptMu ∨
    g.inLock = false ∧ s.acceptMu = none ∧ t.acceptMu = some .run ∨ g.inLock = true ∧ g'.inLock = false ∧
      t.acceptMu = none := by
  cases h with
  | lock hn => exact .inr (.inl ⟨rfl, hn, rfl⟩)
  | _ => simp [Stage.inLock, St.goto, St.closeAt]

theorem Goes.vouched (hv : g'.vouched = true) : g.vouched = true ∨ s.shutdown = false := by
  cases h with
  | vet hs => exact .inr hs
  | _ => first | exact .inl rfl | cases hv

theorem Goes.added (hw : g'.waited = true) : g.waited = true ∨ g.vouched = true := by
  cases h <;> first | exact .inl rfl | exact .inr rfl | cases hw

theorem Goes.below (hb : g'.below = true) :
    g.below = true ∨ (0 < cfg.maxConnections → s.liveConns < cfg.maxConnections) := by
  cases h with
  | within hm => exact .inr hm
  | _ => first | exact .inl rfl | cases hb

theorem Goes.counted (hl : g'.live = true) : g.live = true ∨ g.below = true ∧ g'.below = false := by
  cases h <;> first | exact .inl rfl | exact .inr ⟨rfl, rfl⟩ | cases hl

end Goes

/-! ## The invariant -/

structure Inv (cfg : Config) (s : St) : Prop where
  hand : Held (fun k : Conn => k.stage.inRun) s.conns s.run.hand
  lockRun : ∀ (c : Nat) (k : Conn), s.conns[c]? = some k → k.stage.inLock = true → s.acceptMu = some .run
  lockClose : s.close.inLock = true → s.acceptMu = some .close
  vouched : ∀ (c : Nat) (k : Conn), s.conns[c]? = some k → k.stage.vouched = true → s.shutdown = false
  past : s.close.past = true → s.shutdown = true
  live : s.liveConns = s.conns.countP (·.stage.live)
  wg : s.wg = s.conns.countP (·.stage.waited)
  nodup : s.connMap.Nodup
  mem : ∀ c, c ∈ s.connMap ↔ ∃ k, s.conns[c]? = some k ∧ k.stage.mapped = true
  size : s.connMap.length = s.conns.countP (·.stage.mapped)
  below : ∀ (c : Nat) (k : Conn), s.conns[c]? = some k → k.stage.below = true →
    0 < cfg.maxConnections → s.liveConns < cfg.maxConnections
  limit : 0 < cfg.maxConnections → s.liveConns ≤ cfg.maxConnections
  shut : ∀ (c : Nat) (k : Conn), s.conns[c]? = some k → k.stage.shut = true → k.closed = true
  drained : s.close = .returned → s.wg = 0

theorem inv_start : Inv cfg start := by
  refine ⟨Held.nil, ?_, ?_, ?_, ?_, rfl, rfl, List.nodup_nil, ?_, rfl, ?_, ?_, ?_, ?_⟩
  · intro c k hk
    simp [start] at hk
  · intro h
    cases h
  · intro c k hk
    simp [start] at hk
  · intro h
    cases h
  · simp [start]
  · intro c k hk
    simp [start] at hk
  · intro h
    exact Int.le_of_lt h
  · intro c k hk
    simp [start] at hk
  · intro h
    cases h

section Moves

variable {g : Stage} (hi : Inv cfg s) (hk : s.conns[c]? = some k) (h : Goes cfg s c k.stage g t)

include hk h

theorem goes_get {d : Nat} {l : Conn} (hd : t.conns[d]? = some l) : c = d ∧ l.stage = g ∧
    (g.shut = true → l.closed = true ∨ k.stage.shut = true ∧ l.closed = k.closed) ∨ c ≠ d ∧ s.conns[d]? = some l := by
  obtain ⟨f, hf, hstage, hclosed⟩ := h.conns
  rw [hf] at hd
  rcases modify_get hd with ⟨rfl, k', hk', rfl⟩ | ⟨hcd, hd⟩
  · cases hk.symm.trans hk'
    exact .inl ⟨rfl, hstage k, hclosed k⟩
  · exact .inr ⟨hcd, hd⟩

include hi

theorem goes_hand : Held (fun k : Conn => k.stage.inRun) t.conns t.run.hand := by
  obtain ⟨f, hf, hstage, -⟩ := h.conns
  rw [hf]
  rcases h.hand with ⟨hin, hrun⟩ | ⟨hin, hout, hrun⟩
  · rw [hrun]
    refine hi.hand.keep hk fun hfk => ?_
    rw [hstage, hin] at hfk
    exact hfk
  · rw [hrun]
    refine hi.hand.leave hk hin ?_
    rw [hstage]
    exact hout

/-- Where `c` leaves the lock, `Run` has nothing else. -/
theorem goes_lock :
    (∀ (d : Nat) (l : Conn), t.conns[d]? = some l → l.stage.inLock = true → t.acceptMu = some .run) ∧
    (t.close.inLock = true → t.acceptMu = some .close) := by
  refine ⟨fun d l hd hin => ?_, fun hcl => ?_⟩
  · rcases h.locks with ⟨hsame, hmu⟩ | ⟨-, -, hmu⟩ | ⟨hg, hg', -⟩
    · rw [hmu]
      rcases goes_get hk h hd with ⟨-, hst, -⟩ | ⟨-, hd⟩
      · rw [hst, hsame] at hin
        exact hi.lockRun c k hk hin
      · exact hi.lockRun d l hd hin
    · exact hmu
    · rcases goes_get hk h hd with ⟨-, hst, -⟩ | ⟨hcd, hd⟩
      · rw [hst, hg'] at hin
        cases hin
      · exact absurd (hi.hand.unique hk (Stage.inLock_inRun hg) hd (Stage.inLock_inRun hin)) hcd
  · rw [h.close.1] at hcl
    have hmu := hi.lockClose hcl
    rcases h.locks with ⟨-, hmu'⟩ | ⟨-, hn, -⟩ | ⟨hg, -, -⟩
    · exact hmu'.trans hmu
    · rw [hn] at hmu
      cases hmu
    · rw [hi.lockRun c k hk hg] at hmu
      cases hmu

theorem goes_counts :
    t.liveConns = t.conns.countP (·.stage.live) ∧ t.wg = t.conns.countP (·.stage.waited) := by
  obtain ⟨f, hf, hstage, -⟩ := h.conns
  have hlive := countP_modify (fun k : Conn => k.stage.live) f hk
  have hwait := countP_modify (fun k : Conn => k.stage.waited) f hk
  rw [hstage] at hlive hwait
  have h1 := h.live
  have h2 := h.wg
  have h3 := hi.live
  have h4 := hi.wg
  rw [hf]
  exact ⟨by omega, by omega⟩

theorem goes_map :
    t.connMap.Nodup ∧ ∀ d, d ∈ t.connMap ↔ ∃ l, t.conns[d]? = some l ∧ l.stage.mapped = true := by
  obtain ⟨f, hf, hstage, -⟩ := h.conns
  have hself : t.conns[c]? = some (f k) := by simp [hf, hk]
  have hother : ∀ d, c ≠ d → t.conns[d]? = s.conns[d]? := fun d hd => by simp [hf, hd]
  have hc : c ∈ s.connMap ↔ k.stage.mapped = true := by
    rw [hi.mem c]
    exact ⟨fun ⟨k', hk', hm⟩ => by cases hk.symm.trans hk'; exact hm, fun hm => ⟨k, hk, hm⟩⟩
  have hcases : ∀ d, (∃ l, t.conns[d]? = some l ∧ l.stage.mapped = true) ↔
    if c = d then g.mapped = true else d ∈ s.connMap := by
    intro d
    by_cases hcd : c = d
    · subst hcd
      simp [hself, hstage]
    · simp only [if_neg hcd, hother d hcd]
      exact (hi.mem d).symm
  rcases h.map with ⟨hmap, hm⟩ | ⟨hmap, hm, hm'⟩ | ⟨hmap, hm, hm'⟩
  · rw [hmap]
    refine ⟨hi.nodup, fun d => ?_⟩
    rw [hcases d]
    by_cases hcd : c = d
    · subst hcd
      rw [if_pos rfl, hm]
      exact hc
    · rw [if_neg hcd]
  · rw [hmap]
    refine ⟨List.nodup_cons.mpr ⟨fun hmem => ?_, hi.nodup⟩, fun d => ?_⟩
    · rw [hc.mp hmem] at hm
      cases hm
    · rw [hcases d, List.mem_cons]
      by_cases hcd : c = d
      · simp [hcd, hm']
      · simp [hcd, Ne.symm hcd]
  · rw [hmap]
    refine ⟨hi.nodup.erase c, fun d => ?_⟩
    rw [hcases d, hi.nodup.mem_erase_iff]
    by_cases hcd : c = d
    · simp [hcd, hm']
    · simp [hcd, Ne.symm hcd]

theorem goes_size : t.connMap.length = t.conns.countP (·.stage.mapped) := by
  obtain ⟨f, hf, hstage, -⟩ := h.conns
  have hcount := countP_modify (fun k : Conn => k.stage.mapped) f hk
  rw [hstage] at hcount
  have hsize := hi.size
  rw [hf]
  rcases h.map with ⟨hmap, hm⟩ | ⟨hmap, hm, hm'⟩ | ⟨hmap, hm, hm'⟩
  · rw [hm] at hcount
    rw [hmap]
    omega
  · rw [hm, hm'] at hcount
    simp only [Bool.toNat_false, Bool.toNat_true] at hcount
    rw [hmap, List.length_cons]
    omega
  · have hc : c ∈ s.connMap := (hi.mem c).mpr ⟨k, hk, hm⟩
    have hpos := List.length_pos_of_mem hc
    rw [hm, hm'] at hcount
    simp only [Bool.toNat_false, Bool.toNat_true] at hcount
    rw [hmap, List.length_erase_of_mem hc]
    omega

/-- The counter goes up only for a connection that was seen to be below the limit. -/
theorem goes_limit :
    (∀ (d : Nat) (l : Conn), t.conns[d]? = some l → l.stage.below = true → 0 < cfg.maxConnections →
    t.liveConns < cfg.maxConnections) ∧ (0 < cfg.maxConnections → t.liveConns ≤ cfg.maxConnections) := by
  have hlive := h.live
  have hup : t.liveConns ≤ s.liveConns ∨ k.stage.below = true ∧ g.below = false ∧ t.liveConns ≤ s.liveConns + 1 := by
    cases hg : g.live with
    | false =>
      rw [hg] at hlive
      exact .inl (by simp only [Bool.toNat_false] at hlive; omega)
    | true =>
      rw [hg] at hlive
      rcases h.counted hg with hk' | ⟨hb, hb'⟩
      · rw [hk'] at hlive
        exact .inl (by omega)
      · exact .inr ⟨hb, hb', by simp only [Bool.toNat_true] at hlive; omega⟩
  refine ⟨fun d l hd hbel hpos => ?_, fun hpos => ?_⟩
  · have hlt : s.liveConns < cfg.maxConnections ∧ t.liveConns ≤ s.liveConns := by
      rcases goes_get hk h hd with ⟨-, hst, -⟩ | ⟨hcd, hd⟩
      · rw [hst] at hbel
        refine ⟨?_, hup.resolve_right fun hu => ?_⟩
        · exact (h.below hbel).elim (fun hb => hi.below c k hk hb hpos) fun hm => hm hpos
        · rw [hu.2.1] at hbel
          cases hbel
      · refine ⟨hi.below d l hd hbel hpos, hup.resolve_right fun hu => ?_⟩
        exact hcd (hi.hand.unique hk (Stage.below_inRun hu.1) hd (Stage.below_inRun hbel))
    omega
  · have hle := hi.limit hpos
    rcases hup with hu | ⟨hb, -, hu⟩
    · omega
    · have := hi.below c k hk hb hpos
      omega

/-- Nothing is added after `Close` returned: only what saw `shutdown` open is added. -/
theorem goes_drained (hc : t.close = .returned) : t.wg = 0 := by
  rw [h.close.1] at hc
  have hzero := hi.drained hc
  have hnot : k.stage.waited = false := by
    cases hw : k.stage.waited with
    | false => rfl
    | true =>
      have hpos := countP_pos_of_get (p := fun k : Conn => k.stage.waited) hk hw
      have := hi.wg
      omega
  have hnot' : g.waited = false := by
    cases hw : g.waited with
    | false => rfl
    | true =>
      rcases h.added hw with h' | h'
      · rw [hnot] at h'
        cases h'
      · have := hi.vouched c k hk h'
        rw [hi.past (by rw [hc]; rfl)] at this
        cases this
  have hwg := h.wg
  rw [hnot, hnot'] at hwg
  simp only [Bool.toNat_false] at hwg
  omega

theorem Inv.goes : Inv cfg t := by
  obtain ⟨hlock, hlock'⟩ := goes_lock hi hk h
  obtain ⟨hlive, hwg⟩ := goes_counts hi hk h
  obtain ⟨hnodup, hmem⟩ := goes_map hi hk h
  obtain ⟨hbelow, hlimit⟩ := goes_limit hi hk h
  refine ⟨goes_hand hi hk h, hlock, hlock', fun d l hd hv => ?_, fun hp => ?_, hlive, hwg, hnodup, hmem,
    goes_size hi hk h, hbelow,
    hlimit, fun d l hd hs => ?_, goes_drained hi hk h⟩
  · rw [h.close.2]
    rcases goes_get hk h hd with ⟨-, hst, -⟩ | ⟨-, hd⟩
    · rw [hst] at hv
      exact (h.vouched hv).elim (hi.vouched c k hk) id
    · exact hi.vouched d l hd hv
  · rw [h.close.1] at hp
    rw [h.close.2]
    exact hi.past hp
  · rcases goes_get hk h hd with ⟨-, hst, hcl⟩ | ⟨-, hd⟩
    · rw [hst] at hs
      rcases hcl hs with hcl | ⟨hs', hcl⟩
      · exact hcl
      · exact hcl.trans (hi.shut c k hk hs')
    · exact hi.shut d l hd hs

end Moves

theorem inv_accept (hi : Inv cfg s) (hr : s.run = .accepting) :
    Inv cfg { s with conns := s.conns ++ [⟨.accepted, false⟩], run := .busy s.conns.length } := by
  have hnone : ∀ (d : Nat) (l : Conn), s.conns[d]? = some l → l.stage.inRun = false := by
    intro d l hd
    cases hin : l.stage.inRun with
    | false => rfl
    | true =>
      have := hi.hand d l hd hin
      rw [hr] at this
      cases this
  refine ⟨fun d l hd hin => ?_, fun d l hd hin => ?_, hi.lockClose, fun d l hd hv => ?_, hi.past, ?_, ?_,
    hi.nodup, fun d => ?_,
    ?_, fun d l hd hb => ?_, hi.limit, fun d l hd hs => ?_, hi.drained⟩
  · rcases append_get hd with hd | ⟨rfl, -⟩
    · exact absurd hin (by simp [hnone d l hd])
    · rfl
  · rcases append_get hd with hd | ⟨-, rfl⟩
    · exact hi.lockRun d l hd hin
    · cases hin
  · rcases append_get hd with hd | ⟨-, rfl⟩
    · exact hi.vouched d l hd hv
    · cases hv
  · simpa [List.countP_append, Stage.live] using hi.live
  · simpa [List.countP_append, Stage.waited] using hi.wg
  · rw [hi.mem d]
    refine ⟨fun ⟨l, hl, hm⟩ => ⟨l, get_append _ hl, hm⟩, fun ⟨l, hl, hm⟩ => ?_⟩
    rcases append_get hl with hl | ⟨-, rfl⟩
    · exact ⟨l, hl, hm⟩
    · cases hm
  · simpa [List.countP_append, Stage.mapped] using hi.size
  · rcases append_get hd with hd | ⟨-, rfl⟩
    · exact hi.below d l hd hb
    · cases hb
  · rcases append_get hd with hd | ⟨-, rfl⟩
    · exact hi.shut d l hd hs
    · cases hs

theorem inv_closeConn (hi : Inv cfg s) :
    Inv cfg { s with conns := s.conns.modify c fun k => { k with closed := true } } := by
  have hget : ∀ {d : Nat} {l : Conn}, (s.conns.modify c fun k => { k with closed := true })[d]? = some l →
      ∃ l', s.conns[d]? = some l' ∧ l.stage = l'.stage ∧ (l.closed = true ∨ l.closed = l'.closed) := by
    intro d l hd
    rcases modify_get hd with ⟨rfl, k, hk, rfl⟩ | ⟨-, hd⟩
    · exact ⟨k, hk, rfl, .inl rfl⟩
    · exact ⟨l, hd, rfl, .inr rfl⟩
  have hcount : ∀ p : Conn → Bool, (∀ k, p { k with closed := true } = p k) →
      (s.conns.modify c fun k => { k with closed := true }).countP p = s.conns.countP p :=
    fun p hp => countP_modify_eq p _ fun k _ => hp k
  refine ⟨fun d l hd hin => ?_, fun d l hd hin => ?_, hi.lockClose, fun d l hd hv => ?_, hi.past, ?_, ?_,
    hi.nodup, fun d => ?_,
    ?_, fun d l hd hb => ?_, hi.limit, fun d l hd hs => ?_, hi.drained⟩
  · obtain ⟨l', hl', hst, -⟩ := hget hd
    have hin' : l.stage.inRun = true := hin
    rw [hst] at hin'
    exact hi.hand d l' hl' hin'
  · obtain ⟨l', hl', hst, -⟩ := hget hd
    exact hi.lockRun d l' hl' (hst ▸ hin)
  · obtain ⟨l', hl', hst, -⟩ := hget hd
    exact hi.vouched d l' hl' (hst ▸ hv)
  · exact hi.live.trans (by rw [hcount _ fun _ => rfl])
  · exact hi.wg.trans (by rw [hcount _ fun _ => rfl])
  · rw [hi.mem d]
    refine ⟨fun ⟨l, hl, hm⟩ => ?_, fun ⟨l, hl, hm⟩ => ?_⟩
    · by_cases hcd : c = d
      · exact ⟨{ l with closed := true }, by simp [hcd, hl], hm⟩
      · exact ⟨l, by simp [hcd, hl], hm⟩
    · obtain ⟨l', hl', hst, -⟩ := hget hl
      exact ⟨l', hl', hst ▸ hm⟩
  · exact hi.size.trans (by rw [hcount _ fun _ => rfl])
  · obtain ⟨l', hl', hst, -⟩ := hget hd
    exact hi.below d l' hl' (hst ▸ hb)
  · obtain ⟨l', hl', hst, hcl⟩ := hget hd
    rcases hcl with hcl | hcl
    · exact hcl
    · exact hcl.trans (hi.shut d l' hl' (hst ▸ hs))

theorem Inv.closer (hi : Inv cfg s) {cl : Closer} {mu : Option Who} {sd : Bool}
    (hrun : ∀ (c : Nat) (k : Conn), s.conns[c]? = some k → k.stage.inLock = true → mu = some .run)
    (hclose : cl.inLock = true → mu = some .close)
    (hv : ∀ (c : Nat) (k : Conn), s.conns[c]? = some k → k.stage.vouched = true → sd = false)
    (hpast : cl.past = true → sd = true) (hd : cl = .returned → s.wg = 0) :
    Inv cfg { s with close := cl, acceptMu := mu, shutdown := sd } :=
  ⟨hi.hand, hrun, hclose, hv, hpast, hi.live, hi.wg, hi.nodup, hi.mem, hi.size, hi.below, hi.limit, hi.shut, hd⟩

theorem inv_step (hi : Inv cfg s) (h : step cfg s e = some t) : Inv cfg t := by
  cases step_cases h with
  | accept hr => exact inv_accept hi hr
  | idle hr hl =>
    have hhand := hi.hand
    rw [hr, ← hl] at hhand
    exact ⟨hhand, hi.lockRun, hi.lockClose, hi.vouched, hi.past, hi.live, hi.wg, hi.nodup, hi.mem, hi.size,
      hi.below, hi.limit, hi.shut,
      hi.drained⟩
  | goes hk hg => exact hi.goes hk hg
  | begin hc => exact hi.closer hi.lockRun nofun hi.vouched nofun nofun
  | lock hc hn =>
    refine hi.closer (fun c k hk hin => ?_) (fun _ => rfl) hi.vouched nofun nofun
    rw [hi.lockRun c k hk hin] at hn
    cases hn
  | shut hc =>
    -- `Close` has the lock, so no connection is past the look at `shutdown` in it
    have hmu := hi.lockClose (by rw [hc]; rfl)
    refine hi.closer hi.lockRun (fun _ => hmu) (fun c k hk hv => ?_) (fun _ => rfl) nofun
    rw [hi.lockRun c k hk (Stage.vouched_inLock hv)] at hmu
    cases hmu
  | unlock hc =>
    have hmu := hi.lockClose (by rw [hc]; rfl)
    refine hi.closer (fun c k hk hin => ?_) nofun hi.vouched (fun _ => hi.past (by rw [hc]; rfl))
      nofun
    rw [hi.lockRun c k hk hin] at hmu
    cases hmu
  | listener hc | ranged hc =>
    exact hi.closer hi.lockRun nofun hi.vouched (fun _ => hi.past (by rw [hc]; rfl)) nofun
  | closeConn => exact inv_closeConn hi
  | waited hc hw =>
    exact hi.closer hi.lockRun nofun hi.vouched (fun _ => hi.past (by rw [hc]; rfl)) fun _ => hw

theorem inv_reach (h : (sys cfg).Reach Sys.any s) : Inv cfg s := by
  refine Sys.Reach.inv (P := Inv cfg) ?_ ?_ h
  · rintro _ rfl
    exact inv_start
  · intro s e t hi _ hst
    exact inv_step hi hst

/-! ## Shutdown -/

/-- A step that adds to the wait group is one of a connection that saw `shutdown` open. -/
theorem add_before_shutdown (hi : Inv cfg s) (h : step cfg s e = some t) (hw : s.wg < t.wg) :
    s.shutdown = false := by
  cases step_cases h with
  | @goes c k g t hk hg =>
    have hwg := hg.wg
    cases hg' : g.waited with
    | false =>
      rw [hg'] at hwg
      simp only [Bool.toNat_false] at hwg
      omega
    | true =>
      rcases hg.added hg' with h' | h'
      · rw [hg', h'] at hwg
        omega
      · exact hi.vouched c k hk h'
  | _ => exact absurd hw (by simp)

theorem registered_le (hi : Inv cfg s) : (s.connMap.length : Int) ≤ s.liveConns := by
  have hle : s.conns.countP (·.stage.mapped) ≤ s.conns.countP (·.stage.live) :=
    List.countP_mono_left fun k _ hm => Stage.mapped_live hm
  have h1 := hi.size
  have h2 := hi.live
  omega

/-- With `Run` gone and the wait group empty, a connection is dropped or its goroutine is done. -/
theorem gone_of_returned (hi : Inv cfg s) (hrun : s.run = .returned) (hclose : s.close = .returned)
    (hk : s.conns[c]? = some k) : k.stage = .dropped ∨ k.stage = .finished := by
  have hrun' : k.stage.inRun = false := by
    cases hin : k.stage.inRun with
    | false => rfl
    | true =>
      have := hi.hand c k hk hin
      rw [hrun] at this
      cases this
  have hwait : k.stage.waited = false := by
    cases hw : k.stage.waited with
    | false => rfl
    | true =>
      have hpos := countP_pos_of_get (p := fun k : Conn => k.stage.waited) hk hw
      have hzero := hi.drained hclose
      have hwg := hi.wg
      omega
  exact Stage.gone hrun' hwait

theorem server_drains (h : (sys cfg).Reach Sys.any s) :
    (∀ e t, step cfg s e = some t → s.wg < t.wg → s.shutdown = false ∧ s.close ≠ .waiting) ∧
    (0 < cfg.maxConnections → (s.connMap.length : Int) ≤ cfg.maxConnections) ∧
    (s.run = .returned → s.close = .returned →
      ∀ k ∈ s.conns, k.closed = true ∧ (k.stage = .dropped ∨ k.stage = .finished)) := by
  have hi := inv_reach h
  refine ⟨fun e t hst hw => ?_, fun hpos => ?_, fun hrun hclose k hk => ?_⟩
  · have hopen := add_before_shutdown hi hst hw
    refine ⟨hopen, fun hwaiting => ?_⟩
    have hshut := hi.past (by rw [hwaiting]; rfl)
    rw [hopen] at hshut
    cases hshut
  · have hreg := registered_le hi
    have hlim := hi.limit hpos
    omega
  · obtain ⟨c, hc⟩ := List.mem_iff_getElem?.mp hk
    have hgone := gone_of_returned hi hrun hclose hc
    refine ⟨hi.shut c k hc ?_, hgone⟩
    rcases hgone with hg | hg <;> rw [hg] <;> rfl

/-- One connection served, one over the limit of one, and one that Accept returned while
    `Close` had already closed `shutdown`. -/
def drainRun : List Ev :=
  ([.accept, .run, .run, .run, .run, .run, .run, .run, .run] : List Ev) ++
    ([.accept, .run, .run] : List Ev) ++
    ([.close, .close, .close, .close, .close, .closeConn 0, .exit 0, .defer_ 0, .defer_ 0] : List Ev) ++
    ([.accept, .run, .close, .run, .run, .run, .run, .acceptError, .defer_ 0, .close] : List Ev)

theorem server_drains_oneOfEach : ∃ s, (sys ⟨1⟩).Reach Sys.any s ∧ s.run = .returned ∧ s.close = .returned ∧
    s.conns.length = 3 ∧ ∀ k ∈ s.conns, k.closed = true ∧ (k.stage = .dropped ∨ k.stage = .finished) := by
  obtain ⟨s, hr, hrun, hclose, hlen⟩ := Sys.reach_of_exec (sys ⟨1⟩) Sys.any start rfl drainRun
    (P := fun s => s.run = .returned ∧ s.close = .returned ∧ s.conns.length = 3) (by decide +kernel)
  exact ⟨s, hr, hrun, hclose, hlen, (server_drains hr).2.2 hrun hclose⟩

end ValueRpc.Server.Run
