/-
  ValueRpc.Session.FirstFrame — the first frame on a connection, with the session's sender
  beside the handshake (`valueserver/server.go`: `handshake`; `valueserver/serving_client.go`:
  `replaceConn`, `sender`, `send`; `valueclient/connection.go`: `newConn`).

  `Session.Handshake` has the handshakes. Here each session also has its outgoing queue and
  its one sender, which lives as long as the session: it takes a message, loads `activeConn`,
  and writes, in three steps. A connection is what was written on it, in order. Its client is
  in `newConn`, where it reads one frame, gives it to the response handler and returns the
  connection; only a handshake response marks the session established there.

  A message is queued by a handler of the session or what a handler started, so after the
  session's first request. The queue has no bound here, and a queued message is any that is
  not a handshake response. That the session ends is left out. Every transport is an ordered
  channel for one connection; on QUIC the server has no stream for a queued frame before the
  client opens one, and the write fails.

  - `handshake_first`: if the sender does not come to a resumed connection that has no
    response yet, the first frame on every connection is its handshake response, and a
    connection `newConn` returned has read it from a server that serves the connection. On a
    new session this needs no condition.
  - `backlog_first`: as it is, a resumption stores its connection before it writes, and the
    sender, with a message left from before, writes first; `newConn` returns all the same.
-/

import ValueRpc.Session.Handshake

namespace ValueRpc.Session.FirstFrame

open Function ValueRpc.Core ValueRpc.Lib
open ValueRpc.Session.Handshake (Pc Request)

def handshakeResponse : Int := 1

/-- `value.Double`; an infinity or NaN has no integer part, and no dialect has one. -/
def ofDouble (x : Double) : Number :=
  ⟨match x with
    | .fin q => q.num.tdiv q.den
    | _ => 0, x⟩

/-- `NewHandshakeResponse("")`; the request id, which is not read, is left out. -/
def newHandshakeResponse (d : Dialect) : Msg := fun field =>
  if field = d.messageTypeField then .number ⟨handshakeResponse, .fin 1⟩
  else if field = d.versionField then .number (ofDouble d.version)
  else if field = d.magicField then .string d.magic
  else .absent

/-- What the response handler looks for: it then stores `established`. -/
def establishes (d : Dialect) (m : Msg) : Bool :=
  (getNumberField m d.messageTypeField).any fun mt => mt.long = handshakeResponse

inductive Sender
  | idle
  /-- Before `activeConn.Load`. -/
  | holding (m : Msg)
  /-- Before `WriteMessage`. -/
  | loaded (m : Msg) (conn : Nat)

inductive Dial
  | reading
  | failed
  /-- It read this frame and returned the connection. -/
  | returned (first : Msg)

def Dial.first : Dial → Option Msg
  | .returned m => some m
  | _ => none

structure St where
  hs : Handshake.St
  outgoingQueue : Int → List Msg
  sender : Int → Sender
  /-- The frames written on a connection, by the server. -/
  wire : Nat → List Msg
  newConn : Nat → Dial

def start : St := ⟨Handshake.start, fun _ => [], fun _ => .idle, fun _ => [], fun _ => .reading⟩

inductive Ev
  | handshake (e : Handshake.Ev)
  | enqueue (id : Int) (m : Msg)
  | receive (id : Int)
  | load (id : Int)
  | send (id : Int) (written : Bool)
  /-- The client reads the first frame of its connection, or fails to. -/
  | clientReads (h : Nat)
  | clientFails (h : Nat)

def answered : Handshake.Ev → Option Nat
  | .write h true => some h
  | _ => none

variable (hash : Link → Link) (d : Dialect) {k : Nat} {r : Request} {id : Int}

def St.write (s : St) (h : Nat) (m : Msg) : St := { s with wire := update s.wire h (s.wire h ++ [m]) }

def step (s : St) : Ev → Option St
  | .handshake e =>
    match Handshake.step hash d s.hs e with
    | none => none
    | some hs =>
      match answered e with
      | some h => some ({ s with hs }.write h (newHandshakeResponse d))
      | none => some { s with hs }
  | .enqueue id m =>
    if s.hs.handled.any (fun x => x.1 = id) ∧ establishes d m = false then
      some { s with outgoingQueue := update s.outgoingQueue id (s.outgoingQueue id ++ [m]) }
    else none
  | .receive id =>
    match s.sender id, s.outgoingQueue id with
    | .idle, m :: rest => some { s with
        outgoingQueue := update s.outgoingQueue id rest, sender := update s.sender id (.holding m) }
    | _, _ => none
  | .load id =>
    match s.sender id, s.hs.server.clientMap id with
    | .holding m, some cli => some { s with sender := update s.sender id (.loaded m cli.activeConn) }
    | _, _ => none
  | .send id written =>
    match s.sender id with
    | .loaded m conn =>
      if written then
        if s.hs.server.closed conn then none else some ({ s with sender := update s.sender id .idle }.write conn m)
      else some { s with sender := update s.sender id .idle }
    | _ => none
  | .clientReads h =>
    match s.newConn h, s.wire h with
    | .reading, m :: _ => some { s with newConn := update s.newConn h (.returned m) }
    | _, _ => none
  | .clientFails h =>
    match s.newConn h with
    | .reading => some { s with newConn := update s.newConn h .failed }
    | _ => none

def sys : Sys St Ev := ⟨fun s => s = start, step hash d⟩

/-- A session has the connection, which was resumed, and no response was written. -/
def late : Pc → Bool
  | .respond _ true | .unanswered _ => true
  | _ => false

/-- The sender does not come to a connection that is late with its response. -/
def inTime (s : St) : Ev → Prop
  | .load id => (s.hs.server.clientMap id).all (fun cli => !late (s.hs.pc cli.activeConn)) = true
  | _ => True

instance (s : St) : (e : Ev) → Decidable (inTime s e)
  | .load id => inferInstanceAs
      (Decidable ((s.hs.server.clientMap id).all (fun cli => !late (s.hs.pc cli.activeConn)) = true))
  | .handshake _ | .enqueue _ _ | .receive _ | .send _ _ | .clientReads _ | .clientFails _ => .isTrue trivial

/-! ## What a handshake's step changes -/

def stored : Pc → Bool
  | .respond _ _ | .serving _ _ | .unanswered _ => true
  | _ => false

def answering : Pc → Option Request
  | .respond r _ | .serving r _ => some r
  | _ => none

def serving : Pc → Bool
  | .serving _ _ => true
  | _ => false

def activeConn (s : Handshake.St) (id : Int) : Option Nat := (s.server.clientMap id).map ServingClient.activeConn

variable {hash d} {s t : St} {a b : Handshake.St} {e : Ev} {h : Nat}

/-- One step of a handshake, by the connections' places, the sessions' connections and the
    requests; the index is the connection answered. -/
inductive Turn (a b : Handshake.St) : Option Nat → Prop
  /-- It goes on before a session has its connection, or its response fails. -/
  | goes {h : Nat} {pc : Pc} (hpc : b.pc = update a.pc h pc) (hact : activeConn b = activeConn a)
      (hh : b.handled = a.handled)
      (hold : stored (a.pc h) = false ∧ stored pc = false ∨
        ∃ r resumed, a.pc h = .respond r resumed ∧ pc = .unanswered r) :
      Turn a b none
  /-- A session gets its connection. -/
  | stores {h : Nat} {r : Request} {resumed : Bool} (hpc : b.pc = update a.pc h (.respond r resumed))
      (hact : activeConn b = update (activeConn a) r.clientId (some h)) (hh : b.handled = a.handled)
      (hold : stored (a.pc h) = false) (hnew : resumed = false → activeConn a r.clientId = none) : Turn a b none
  | answers {h : Nat} {r : Request} {resumed : Bool} (hp : a.pc h = .respond r resumed)
      (hpc : b.pc = update a.pc h (.serving r resumed)) (hact : activeConn b = activeConn a)
        (hh : b.handled = a.handled) :
      Turn a b (some h)
  | serves {h : Nat} {r : Request} {resumed : Bool} {p : Option Bytes} (hp : a.pc h = .serving r resumed)
      (hpc : b.pc = a.pc)
      (hact : activeConn b = activeConn a) (hh : b.handled = a.handled ++ [(r.clientId, p)]) : Turn a b none
  | hangsUp (hpc : b.pc = a.pc) (hact : activeConn b = activeConn a) (hh : b.handled = a.handled) : Turn a b none

theorem activeConn_put (s : Handshake.St) (id : Int) (cli : ServingClient) :
    activeConn (s.put id cli) = update (activeConn s) id (some cli.activeConn) := by
  funext k
  by_cases hk : k = id
  · subst hk
    simp [activeConn, Handshake.St.put]
  · simp [activeConn, Handshake.St.put, update_of_ne hk]

theorem advance_turn (hs : Handshake.advance hash a h = some b) : Turn a b none := by
  simp only [Handshake.advance] at hs
  split at hs
  · rename_i r hp
    split at hs <;> cases hs <;> exact .goes rfl rfl rfl (.inl ⟨by rw [hp]; rfl, rfl⟩)
  · rename_i r hp
    split at hs
    · cases hs
      exact .goes rfl rfl rfl (.inl ⟨by rw [hp]; rfl, rfl⟩)
    · rename_i hn
      cases hs
      exact .stores rfl (activeConn_put a ..) rfl (by rw [hp]; rfl) fun _ => by rw [activeConn, hn]; rfl
  · rename_i r hp
    cases hs
    exact .goes rfl rfl rfl (.inl ⟨by rw [hp]; rfl, rfl⟩)
  · rename_i r hp
    split at hs
    · cases hs
    · split at hs <;> cases hs <;> exact .goes rfl rfl rfl (.inl ⟨by rw [hp]; rfl, rfl⟩)
  · rename_i r hp
    split at hs
    · cases hs
    · rename_i cli hc
      split at hs
      · cases hs
        exact .goes rfl rfl rfl (.inl ⟨by rw [hp]; rfl, rfl⟩)
      · rename_i cli' ha
        cases hs
        refine .goes rfl ?_ rfl (.inl ⟨by rw [hp]; rfl, rfl⟩)
        -- the link is written, the connection stays
        have hput := activeConn_put a r.clientId cli'
        rw [(Handshake.authorizeResume_keeps ha).2] at hput
        refine hput.trans (update_eq_self_iff.mpr ?_)
        rw [activeConn, hc]
        rfl
  · rename_i r hp
    split at hs <;> cases hs
    exact .goes rfl rfl rfl (.inl ⟨by rw [hp]; rfl, rfl⟩)
  · rename_i r old hp
    cases hs
    exact .goes rfl rfl rfl (.inl ⟨by rw [hp]; rfl, rfl⟩)
  · rename_i r hp
    split at hs
    · cases hs
    · cases hs
      exact .stores rfl (activeConn_put a ..) rfl (by rw [hp]; rfl) fun hr => by cases hr
  all_goals cases hs

theorem handshake_turn {e : Handshake.Ev} (hs : Handshake.step hash d a e = some b) :
    Turn a b (answered e) := by
  cases e with
  | read h authn msg =>
    simp only [Handshake.step] at hs
    split at hs
    · rename_i hp
      split at hs <;> cases hs <;> exact .goes rfl rfl rfl (.inl ⟨by rw [hp]; rfl, rfl⟩)
    · cases hs
  | go h => exact advance_turn hs
  | write h written =>
    simp only [Handshake.step] at hs
    split at hs
    · rename_i r resumed hp
      cases written with
      | true =>
        simp only [if_true] at hs
        split at hs <;> cases hs
        exact .answers hp rfl rfl rfl
      | false =>
        cases hs
        exact .goes rfl rfl rfl (.inr ⟨r, resumed, hp, rfl⟩)
    · cases hs
  | serve h =>
    simp only [Handshake.step] at hs
    split at hs
    · rename_i r resumed hp
      split at hs <;> cases hs
      exact .serves hp rfl rfl rfl
    · cases hs
  | hangUp h => cases hs; exact .hangsUp rfl rfl rfl

theorem stored_of_serving {pc : Pc} (h : serving pc = true) : stored pc = true := by
  cases pc with
  | serving _ _ => rfl
  | _ => cases h

theorem stored_of_answering {pc : Pc} (h : answering pc = some r) : stored pc = true := by
  cases pc with
  | respond _ _ | serving _ _ => rfl
  | _ => cases h

section Turn

variable {w : Option Nat} (ht : Turn a b w)

include ht

/-- A connection that a session has got is not given back. -/
theorem Turn.keeps_stored (hk : stored (a.pc k) = true) : stored (b.pc k) = true := by
  cases ht with
  | @goes h pc hpc _ _ hold =>
    rw [hpc]
    by_cases hkh : k = h
    · subst hkh
      rcases hold with ⟨hnot, -⟩ | ⟨r, resumed, -, rfl⟩
      · rw [hk] at hnot
        cases hnot
      · rw [update_self]
        rfl
    · rw [update_of_ne hkh]
      exact hk
  | @stores h _ _ hpc _ _ _ _ | @answers h _ _ _ hpc _ _ =>
    rw [hpc]
    by_cases hkh : k = h
    · rw [hkh, update_self]
      rfl
    · rw [update_of_ne hkh]
      exact hk
  | serves _ hpc _ _ | hangsUp hpc _ _ =>
    rw [hpc]
    exact hk

theorem Turn.keeps_serving {resumed : Bool} (hk : a.pc k = .serving r resumed) :
    b.pc k = .serving r resumed := by
  cases ht with
  | @goes h pc hpc _ _ hold =>
    have hkh : k ≠ h := by
      rintro rfl
      rcases hold with ⟨hnot, -⟩ | ⟨r, resumed, hp, -⟩
      · rw [hk] at hnot
        cases hnot
      · rw [hk] at hp
        cases hp
    rw [hpc, update_of_ne hkh]
    exact hk
  | @stores h _ _ hpc _ _ hold _ =>
    have hkh : k ≠ h := by
      rintro rfl
      rw [hk] at hold
      cases hold
    rw [hpc, update_of_ne hkh]
    exact hk
  | @answers h _ _ hp hpc _ _ =>
    have hkh : k ≠ h := by
      rintro rfl
      rw [hk] at hp
      cases hp
    rw [hpc, update_of_ne hkh]
    exact hk
  | serves _ hpc _ _ | hangsUp hpc _ _ =>
    rw [hpc]
    exact hk

theorem Turn.stays_served (hk : serving (a.pc k) = true) : serving (b.pc k) = true := by
  cases hp : a.pc k with
  | serving r resumed =>
    rw [ht.keeps_serving hp]
    rfl
  | _ =>
    rw [hp] at hk
    cases hk

/-- Only the connection answered comes to be served. -/
theorem Turn.eq_of_served (hk : serving (a.pc k) = false) (hk' : serving (b.pc k) = true) : w = some k := by
  cases ht with
  | @goes h pc hpc _ _ hold =>
    rw [hpc] at hk'
    by_cases hkh : k = h
    · subst hkh
      rw [update_self] at hk'
      rcases hold with ⟨-, hnot⟩ | ⟨r, resumed, -, rfl⟩
      · rw [stored_of_serving hk'] at hnot
        cases hnot
      · cases hk'
    · rw [update_of_ne hkh, hk] at hk'
      cases hk'
  | @stores h _ _ hpc _ _ _ _ =>
    rw [hpc] at hk'
    by_cases hkh : k = h
    · rw [hkh, update_self] at hk'
      cases hk'
    · rw [update_of_ne hkh, hk] at hk'
      cases hk'
  | @answers h _ _ _ hpc _ _ =>
    rw [hpc] at hk'
    by_cases hkh : k = h
    · rw [hkh]
    · rw [update_of_ne hkh, hk] at hk'
      cases hk'
  | serves _ hpc _ _ | hangsUp hpc _ _ =>
    rw [hpc, hk] at hk'
    cases hk'

theorem Turn.keeps_handled {x : Int × Option Bytes} (hx : x ∈ a.handled) : x ∈ b.handled := by
  cases ht with
  | goes _ _ hh _ | stores _ _ hh _ _ | answers _ _ _ hh | hangsUp _ _ hh => rwa [hh]
  | serves _ _ _ hh =>
    rw [hh]
    exact List.mem_append_left _ hx

end Turn

theorem Turn.served (ht : Turn a b (some h)) : serving (a.pc h) = false ∧ serving (b.pc h) = true := by
  cases ht with
  | answers hp hpc _ _ =>
    rw [hp, hpc, update_self]
    exact ⟨rfl, rfl⟩

/-! ## Who has a session's connection -/

structure Base (a : Handshake.St) : Prop where
  hs : Handshake.Inv a
  conn : ∀ id c, activeConn a id = some c → stored (a.pc c) = true
  /-- While a new session's creator has no response yet, no other connection has got it. -/
  fresh : ∀ id c r, activeConn a id = some c → a.pc c = .respond r false →
    ∀ h r', answering (a.pc h) = some r' → r'.clientId = id → h = c
  handled : ∀ x ∈ a.handled, ∃ h r resumed, a.pc h = .serving r resumed ∧ r.clientId = x.1

theorem base_start : Base Handshake.start where
  hs := Handshake.inv_start
  conn := nofun
  fresh := nofun
  handled := fun _ hx => absurd hx List.not_mem_nil

/-- A session has a connection while one is answering for it. -/
theorem Base.bound (hb : Base a) (hk : answering (a.pc k) = some r) : activeConn a r.clientId ≠ none := by
  have hbound : (a.pc k).bound = some r := by
    cases hp : a.pc k with
    | respond r' resumed => rw [hp] at hk; exact hk
    | serving r' resumed => rw [hp] at hk; exact hk
    | _ => rw [hp] at hk; cases hk
  have hcreated := hb.hs.bound k r hbound
  intro hnone
  rw [activeConn, Option.map_eq_none_iff] at hnone
  rw [hb.hs.mapped, hnone] at hcreated
  cases hcreated

section Kept

variable {w : Option Nat} (hb : Base a) (ht : Turn a b w)

include hb ht

theorem Base.turn_conn {c : Nat} (hc : activeConn b id = some c) : stored (b.pc c) = true := by
  have hkeep : activeConn b = activeConn a → stored (b.pc c) = true := by
    intro hact
    rw [hact] at hc
    exact ht.keeps_stored (hb.conn id c hc)
  cases ht with
  | goes _ hact _ _ | answers _ _ hact _ | serves _ _ hact _ | hangsUp _ hact _ => exact hkeep hact
  | @stores h r resumed hpc hact hh hold hnew =>
    rw [hact] at hc
    by_cases hid : id = r.clientId
    · rw [hid, update_self] at hc
      cases hc
      rw [hpc, update_self]
      rfl
    · rw [update_of_ne hid] at hc
      exact Turn.keeps_stored (.stores hpc hact hh hold hnew) (hb.conn id c hc)

theorem Base.turn_fresh {c : Nat} {r' : Request} (hc : activeConn b id = some c)
    (hp : b.pc c = .respond r false) (hk : answering (b.pc k) = some r') (hid : r'.clientId = id) :
    k = c := by
  cases ht with
  | @goes h pc hpc hact _ hold =>
    have hpc' : answering pc = none := by
      cases ha : answering pc with
      | none => rfl
      | some r'' =>
        rcases hold with ⟨-, hnot⟩ | ⟨r₀, resumed, -, hun⟩
        · rw [stored_of_answering ha] at hnot
          cases hnot
        · rw [hun] at ha
          cases ha
    have hch : c ≠ h := by
      rintro rfl
      rw [hpc, update_self] at hp
      rw [hp] at hpc'
      cases hpc'
    have hkh : k ≠ h := by
      rintro rfl
      rw [hpc, update_self, hpc'] at hk
      cases hk
    rw [hact] at hc
    rw [hpc, update_of_ne hch] at hp
    rw [hpc, update_of_ne hkh] at hk
    exact hb.fresh id c r hc hp k r' hk hid
  | @stores h r₀ resumed hpc hact _ hold hnew =>
    rw [hact] at hc
    by_cases hr : id = r₀.clientId
    · -- the session has `h` now; where it is new, nothing answered for it before
      rw [hr, update_self] at hc
      cases hc
      rw [hpc, update_self] at hp
      cases hp
      by_contra hkh
      rw [hpc, update_of_ne hkh] at hk
      exact hb.bound hk (by rw [hid, hr]; exact hnew rfl)
    · rw [update_of_ne hr] at hc
      have hch : c ≠ h := by
        rintro rfl
        rw [hb.conn id c hc] at hold
        cases hold
      have hkh : k ≠ h := by
        rintro rfl
        rw [hpc, update_self] at hk
        cases hk
        exact hr hid.symm
      rw [hpc, update_of_ne hch] at hp
      rw [hpc, update_of_ne hkh] at hk
      exact hb.fresh id c r hc hp k r' hk hid
  | @answers h r₀ resumed hp₀ hpc hact _ =>
    have hch : c ≠ h := by
      rintro rfl
      rw [hpc, update_self] at hp
      cases hp
    rw [hact] at hc
    rw [hpc, update_of_ne hch] at hp
    refine hb.fresh id c r hc hp k r' ?_ hid
    by_cases hkh : k = h
    · rw [hkh, hpc, update_self] at hk
      rw [hkh, hp₀]
      exact hk
    · rw [hpc, update_of_ne hkh] at hk
      exact hk
  | serves _ hpc hact _ | hangsUp hpc hact _ =>
    rw [hact] at hc
    rw [hpc] at hp hk
    exact hb.fresh id c r hc hp k r' hk hid

theorem Base.turn_handled {x : Int × Option Bytes} (hx : x ∈ b.handled) :
    ∃ h r resumed, b.pc h = .serving r resumed ∧ r.clientId = x.1 := by
  have hkeep : x ∈ a.handled → ∃ h r resumed, b.pc h = .serving r resumed ∧ r.clientId = x.1 := by
    intro hx
    obtain ⟨h, r, resumed, hp, hid⟩ := hb.handled x hx
    exact ⟨h, r, resumed, ht.keeps_serving hp, hid⟩
  cases ht with
  | goes _ _ hh _ | stores _ _ hh _ _ | answers _ _ _ hh | hangsUp _ _ hh =>
    rw [hh] at hx
    exact hkeep hx
  | @serves h r resumed p hp hpc _ hh =>
    rw [hh] at hx
    rcases List.mem_append.mp hx with hx | hx
    · exact hkeep hx
    · rw [List.mem_singleton.mp hx]
      exact ⟨h, r, resumed, by rw [hpc]; exact hp, rfl⟩

end Kept

theorem Base.step (hb : Base a) {e : Handshake.Ev} (hs : Handshake.step hash d a e = some b) : Base b where
  hs := Handshake.inv_does hb.hs (Handshake.step_does hs)
  conn := fun _ _ hc => hb.turn_conn (handshake_turn hs) hc
  fresh := fun _ _ _ hc hp _ _ hk hid => hb.turn_fresh (handshake_turn hs) hc hp hk hid
  handled := fun _ hx => hb.turn_handled (handshake_turn hs) hx

/-! ## The first frame -/

structure Inv (d : Dialect) (s : St) : Prop where
  base : Base s.hs
  /-- A message is there only after a request of the session. -/
  queued : ∀ id, s.outgoingQueue id ≠ [] → ∃ x ∈ s.hs.handled, x.1 = id
  held : ∀ id m, s.sender id = .holding m → ∃ x ∈ s.hs.handled, x.1 = id
  loaded : ∀ id m c, s.sender id = .loaded m c → serving (s.hs.pc c) = true
  /-- The response is written as the connection comes to be served, and before all else. -/
  silent : ∀ h, serving (s.hs.pc h) = false → s.wire h = []
  first : ∀ h, serving (s.hs.pc h) = true → (s.wire h).head? = some (newHandshakeResponse d)
  read : ∀ h m, s.newConn h = .returned m → (s.wire h).head? = some m

theorem inv_start : Inv d start where
  base := base_start
  queued := fun _ hq => absurd rfl hq
  held := nofun
  loaded := nofun
  silent := fun _ _ => rfl
  first := nofun
  read := nofun

theorem write_wire_self (s : St) (h : Nat) (m : Msg) :
    (s.write h m).wire h = s.wire h ++ [m] := update_self ..

theorem write_wire_of_ne (s : St) (hk : k ≠ h) (m : Msg) :
    (s.write h m).wire k = s.wire k := update_of_ne hk ..

/-- A frame more does not change which was the first. -/
theorem head?_write {m m' : Msg} (hk : (s.wire k).head? = some m) :
    ((s.write h m').wire k).head? = some m := by
  by_cases hkh : k = h
  · rw [hkh] at hk ⊢
    rw [write_wire_self, List.head?_append, hk]
    rfl
  · rw [write_wire_of_ne s hkh]
    exact hk

theorem inv_handshake (hi : Inv d s) {e : Handshake.Ev} (hs : Handshake.step hash d s.hs e = some b)
    (ha : answered e = none) : Inv d { s with hs := b } := by
  have ht := handshake_turn hs
  rw [ha] at ht
  refine ⟨hi.base.step hs, fun id hq => ?_, fun id m hm => ?_, fun id m c hl => ?_, fun k hk => ?_,
    fun k hk => ?_, hi.read⟩
  · obtain ⟨x, hx, hid⟩ := hi.queued id hq
    exact ⟨x, ht.keeps_handled hx, hid⟩
  · obtain ⟨x, hx, hid⟩ := hi.held id m hm
    exact ⟨x, ht.keeps_handled hx, hid⟩
  · exact ht.stays_served (hi.loaded id m c hl)
  · refine hi.silent k (Bool.eq_false_iff.mpr fun hk' => ?_)
    rw [ht.stays_served hk'] at hk
    cases hk
  · cases hk' : serving (s.hs.pc k) with
    | true => exact hi.first k hk'
    | false =>
      have := ht.eq_of_served hk' hk
      cases this

/-- The connection answered had nothing written on it: it was not served. -/
theorem inv_answer (hi : Inv d s) {e : Handshake.Ev} (hs : Handshake.step hash d s.hs e = some b)
    (ha : answered e = some h) : Inv d ({ s with hs := b }.write h (newHandshakeResponse d)) := by
  have ht := handshake_turn hs
  rw [ha] at ht
  have hempty : s.wire h = [] := hi.silent h ht.served.1
  refine ⟨hi.base.step hs, fun id hq => ?_, fun id m hm => ?_, fun id m c hl => ?_, fun k hk => ?_, fun k hk => ?_,
    fun k m hr => head?_write (hi.read k m hr)⟩
  · obtain ⟨x, hx, hid⟩ := hi.queued id hq
    exact ⟨x, ht.keeps_handled hx, hid⟩
  · obtain ⟨x, hx, hid⟩ := hi.held id m hm
    exact ⟨x, ht.keeps_handled hx, hid⟩
  · exact ht.stays_served (hi.loaded id m c hl)
  · have hnot : serving (b.pc k) = false := hk
    have hkh : k ≠ h := by
      rintro rfl
      rw [ht.served.2] at hnot
      cases hnot
    rw [write_wire_of_ne _ hkh]
    refine hi.silent k (Bool.eq_false_iff.mpr fun hk' => ?_)
    rw [ht.stays_served hk'] at hnot
    cases hnot
  · by_cases hkh : k = h
    · rw [hkh, write_wire_self]
      show (s.wire h ++ [newHandshakeResponse d]).head? = _
      rw [hempty]
      rfl
    · cases hk' : serving (s.hs.pc k) with
      | true => exact head?_write (hi.first k hk')
      | false => exact absurd (Option.some.inj (ht.eq_of_served hk' hk)).symm hkh

/-- What the sender is given to write on is served: a connection that is not late with its
    response is a new session's, and then there is no message yet. -/
theorem Inv.served_of_held (hi : Inv d s) {m : Msg} {cli : ServingClient} (hm : s.sender id = .holding m)
    (hc : s.hs.server.clientMap id = some cli) (hin : late (s.hs.pc cli.activeConn) = false) :
    serving (s.hs.pc cli.activeConn) = true := by
  have hact : activeConn s.hs id = some cli.activeConn := by rw [activeConn, hc]; rfl
  have hstored := hi.base.conn id cli.activeConn hact
  cases hp : s.hs.pc cli.activeConn with
  | serving r resumed => rfl
  | respond r resumed =>
    cases resumed with
    | true =>
      rw [hp] at hin
      cases hin
    | false =>
      obtain ⟨x, hx, hid⟩ := hi.held id m hm
      obtain ⟨k, r', resumed, hk, hid'⟩ := hi.base.handled x hx
      have hkc := hi.base.fresh id cli.activeConn r hact hp k r' (by rw [hk]; rfl) (hid'.trans hid)
      rw [hkc, hp] at hk
      cases hk
  | unanswered r =>
    rw [hp] at hin
    cases hin
  | _ =>
    rw [hp] at hstored
    cases hstored

theorem Inv.sender (hi : Inv d s) {q : List Msg} {x : Sender} (hq : q ≠ [] → ∃ x ∈ s.hs.handled, x.1 = id)
    (hheld : ∀ m, x = .holding m → ∃ x ∈ s.hs.handled, x.1 = id)
    (hloaded : ∀ m c, x = .loaded m c → serving (s.hs.pc c) = true) :
    Inv d { s with outgoingQueue := update s.outgoingQueue id q, sender := update s.sender id x } := by
  refine ⟨hi.base, fun k hk => ?_, fun k m hk => ?_, fun k m c hk => ?_, hi.silent, hi.first, hi.read⟩
  · by_cases hkid : k = id
    · subst hkid
      exact hq (by simpa using hk)
    · exact hi.queued k (by simpa [hkid] using hk)
  · by_cases hkid : k = id
    · subst hkid
      exact hheld m (by simpa using hk)
    · exact hi.held k m (by simpa [hkid] using hk)
  · by_cases hkid : k = id
    · subst hkid
      exact hloaded m c (by simpa using hk)
    · exact hi.loaded k m c (by simpa [hkid] using hk)

theorem Inv.write (hi : Inv d s) (hh : serving (s.hs.pc h) = true) (m : Msg) : Inv d (s.write h m) := by
  refine ⟨hi.base, hi.queued, hi.held, hi.loaded, fun k hk => ?_, fun k hk => head?_write (hi.first k hk),
    fun k m hr => head?_write (hi.read k m hr)⟩
  have hnot : serving (s.hs.pc k) = false := hk
  have hkh : k ≠ h := by
    rintro rfl
    rw [hh] at hnot
    cases hnot
  rw [write_wire_of_ne s hkh]
  exact hi.silent k hnot

theorem inv_step (hi : Inv d s) (hin : inTime s e) (hs : step hash d s e = some t) : Inv d t := by
  cases e with
  | handshake e =>
    simp only [step] at hs
    split at hs
    · cases hs
    · rename_i b hb
      split at hs
      · rename_i h ha
        cases hs
        exact inv_answer hi hb ha
      · rename_i ha
        cases hs
        exact inv_handshake hi hb ha
  | enqueue id m =>
    simp only [step] at hs
    split at hs
    · rename_i hq
      cases hs
      have hex : ∃ x ∈ s.hs.handled, x.1 = id := by simpa using hq.1
      have hsender := hi.sender (q := s.outgoingQueue id ++ [m]) (x := s.sender id) (fun _ => hex)
        (fun m hm => hi.held id m hm) (fun m c hl => hi.loaded id m c hl)
      rwa [update_eq_self] at hsender
    · cases hs
  | receive id =>
    simp only [step] at hs
    split at hs
    · rename_i m rest hx hq
      cases hs
      have hex := hi.queued id (by rw [hq]; exact List.cons_ne_nil m rest)
      exact hi.sender (fun _ => hex) (fun _ _ => hex) nofun
    · cases hs
  | load id =>
    simp only [step] at hs
    split at hs
    · rename_i m cli hm hc
      cases hs
      have hlate : late (s.hs.pc cli.activeConn) = false := by
        have hin' : (s.hs.server.clientMap id).all (fun cli => !late (s.hs.pc cli.activeConn)) = true := hin
        rw [hc] at hin'
        simpa using hin'
      have hserved := hi.served_of_held hm hc hlate
      have hsender := hi.sender (q := s.outgoingQueue id) (x := .loaded m cli.activeConn) (hi.queued id)
        nofun (fun _ _ hl => (by cases hl; exact hserved))
      rwa [update_eq_self] at hsender
    · cases hs
  | send id written =>
    simp only [step] at hs
    split at hs
    · rename_i m c hl
      have hidle : Inv d { s with sender := update s.sender id .idle } := by
        have hsender := hi.sender (q := s.outgoingQueue id) (x := .idle) (hi.queued id)
          nofun nofun
        rwa [update_eq_self] at hsender
      split at hs
      · split at hs
        · cases hs
        · cases hs
          exact hidle.write (hi.loaded id m c hl) m
      · cases hs
        exact hidle
    · cases hs
  | clientReads h =>
    simp only [step] at hs
    split at hs
    · rename_i m rest hr hw
      cases hs
      refine { hi with read := fun k m' hk => ?_ }
      by_cases hkh : k = h
      · subst hkh
        simp only [update_self] at hk
        cases hk
        rw [hw]
        rfl
      · simp only [update_of_ne hkh] at hk
        exact hi.read k m' hk
    · cases hs
  | clientFails h =>
    simp only [step] at hs
    split at hs
    · cases hs
      refine { hi with read := fun k m' hk => ?_ }
      by_cases hkh : k = h
      · subst hkh
        simp only [update_self] at hk
        cases hk
      · simp only [update_of_ne hkh] at hk
        exact hi.read k m' hk
    · cases hs

theorem inv_reach (hr : (sys hash d).Reach inTime s) : Inv d s := by
  refine Sys.Reach.inv (P := Inv d) ?_ ?_ hr
  · rintro _ rfl
    exact inv_start
  · intro s e t hi hin hst
    exact inv_step hi hin hst

theorem establishes_response (d : Dialect) : establishes d (newHandshakeResponse d) = true := by
  simp [establishes, getNumberField, newHandshakeResponse]

theorem handshake_first (hr : (sys hash d).Reach inTime s) :
    (∀ h m, (s.wire h).head? = some m → m = newHandshakeResponse d) ∧
    ∀ h m, s.newConn h = .returned m →
      (s.wire h).head? = some m ∧ establishes d m = true ∧ ∃ r resumed, s.hs.pc h = .serving r resumed := by
  have hi := inv_reach hr
  have hfirst : ∀ h m, (s.wire h).head? = some m → serving (s.hs.pc h) = true ∧ m = newHandshakeResponse d := by
    intro h m hm
    cases hp : serving (s.hs.pc h) with
    | false =>
      rw [hi.silent h hp] at hm
      cases hm
    | true =>
      rw [hi.first h hp] at hm
      exact ⟨rfl, (Option.some.inj hm).symm⟩
  refine ⟨fun h m hm => (hfirst h m hm).2, fun h m hn => ?_⟩
  have hm := hi.read h m hn
  obtain ⟨hp, rfl⟩ := hfirst h m hm
  refine ⟨hm, establishes_response d, ?_⟩
  cases hpc : s.hs.pc h with
  | serving r resumed => exact ⟨r, resumed, rfl⟩
  | _ =>
    rw [hpc] at hp
    cases hp

def functionResult (requestId : Int) : Msg := fun field =>
  if field = "t" then .number ⟨3, .fin 3⟩
  else if field = "rid" then .number ⟨requestId, .fin requestId⟩
  else .absent

/-- Client 7 creates its session and makes a request, whose response is queued when its
    connection is gone; then it resumes, up to `replaceConn`. -/
def resumption : List Ev :=
  ([.handshake (.read 0 Handshake.byName (.ok (Handshake.message 7 (numbered 3).encode [1]))),
    .handshake (.go 0), .handshake (.go 0),
    .handshake (.write 0 true), .clientReads 0, .handshake (.serve 0), .handshake (.hangUp 0),
      .enqueue 7 (functionResult 1),
    .handshake (.read 1 Handshake.byName (.ok (Handshake.message 7 (numbered 2).encode [1])))] : List Ev) ++
    (List.replicate 6 (.handshake (.go 1)) : List Ev)

def answersFirst : List Ev :=
  resumption ++ ([.receive 7, .handshake (.write 1 true), .load 7, .send 7 true, .clientReads 1] : List Ev)

theorem handshake_first_answersFirst : ∃ s, (sys tick newDialect).Reach inTime s ∧ (s.wire 1).length = 2 ∧
    (∀ m, (s.wire 1).head? = some m → m = newHandshakeResponse newDialect) ∧
    ∃ m, s.newConn 1 = .returned m ∧ establishes newDialect m = true := by
  obtain ⟨s, hr, hlen, hret⟩ := Sys.reach_of_exec (sys tick newDialect) inTime start rfl answersFirst
    (P := fun s => (s.wire 1).length = 2 ∧ (s.newConn 1).first.isSome = true) (by decide +kernel)
  obtain ⟨hfirst, hread⟩ := handshake_first hr
  cases hm : s.newConn 1 with
  | returned m => exact ⟨s, hr, hlen, hfirst 1, m, hm, (hread 1 m hm).2.1⟩
  | reading | failed =>
    rw [hm] at hret
    cases hret

def senderFirst : List Ev := resumption ++ ([.receive 7, .load 7, .send 7 true, .clientReads 1] : List Ev)

theorem backlog_first : ∃ s r m, (sys tick newDialect).Reach Sys.any s ∧ s.hs.pc 1 = .respond r true ∧
    s.wire 1 = [m] ∧ s.newConn 1 = .returned m ∧ establishes newDialect m = false := by
  obtain ⟨s, hr, hs, hpc⟩ := Sys.reach_exec (sys tick newDialect) Sys.any start rfl senderFirst
    (P := fun s => s.hs.pc 1 = .respond ⟨7, (numbered 2).encode, [1]⟩ true) (by decide +kernel)
  have hwire : ((sys tick newDialect).exec Sys.any start senderFirst).map (fun s => (s.wire 1, s.newConn 1)) =
      some ([functionResult 1], .returned (functionResult 1)) := rfl
  rw [hs, Option.map_some, Option.some.injEq, Prod.mk.injEq] at hwire
  exact ⟨s, _, functionResult 1, hr, hpc, hwire.1, hwire.2, by decide +kernel⟩

end ValueRpc.Session.FirstFrame
