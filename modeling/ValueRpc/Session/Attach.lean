/-
  ValueRpc.Session.Attach — which connection a session is on
  (`valueserver/server.go`: `createOrUpdateServingClient`; `valueserver/serving_client.go`:
  `NewServingClient`, `Close`, `replaceConn`).

  The steps are those of `Session.Handshake`; a `Run` also keeps what became of each
  connection: which hung up, and which another handshake's `replaceConn` closed or stored
  over. `apart` keeps the handshakes for one client id out of each other's way: none loses
  the race for a new id, and none enters `replaceConn` while another is in it.

  - `one_live_connection`: then one handshake creates the session, a connection it was
    returned for is the session's, and open unless it hung up, until a later handshake
    replaces it; and no two open connections are attached to one session.
  - `attached_closed_and_two_open`: the loser of the race closes its own connection with
    the session it made, and then attaches it; and of two handshakes in `replaceConn` that
    loaded, and closed, the same old connection, the one that stored first stays open.
-/

import ValueRpc.Session.Handshake

namespace ValueRpc.Session.Handshake.Attach

open Function ValueRpc.Core ValueRpc.Lib

structure Run where
  st : St
  /-- By client id: the last handshake to enter `replaceConn`, until it leaves. -/
  replacing : Int → Option Nat
  /-- Closed or stored over by a `replaceConn`. -/
  replaced : Nat → Bool
  hungUp : Nat → Bool
  /-- Who stored a session, by client id. -/
  creators : List (Int × Nat)

def begin : Run := ⟨Handshake.start, fun _ => none, fun _ => false, fun _ => false, []⟩

def Run.note (s : Run) (e : Ev) (t : St) : Run :=
  match e with
  | .hangUp h => { s with st := t, hungUp := update s.hungUp h true }
  | .go h =>
    match s.st.pc h with
    | .loadOrStore r =>
      match s.st.server.clientMap r.clientId with
      | none => { s with st := t, creators := s.creators ++ [(r.clientId, h)] }
      | some _ => { s with st := t }
    | .loadConn r => { s with st := t, replacing := update s.replacing r.clientId (some h) }
    | .closeConn _ old => { s with st := t, replaced := update s.replaced old true }
    | .storeConn r =>
      match s.st.server.clientMap r.clientId with
      | none => { s with st := t }
      | some existing =>
        { s with st := t, replaced := update s.replaced existing.activeConn true,
                 replacing := update s.replacing r.clientId none }
    | _ => { s with st := t }
  | _ => { s with st := t }

def next (hash : Link → Link) (d : Dialect) (s : Run) (e : Ev) : Option Run :=
  (Handshake.step hash d s.st e).map (s.note e)

def runs (hash : Link → Link) (d : Dialect) : Sys Run Ev := ⟨fun s => s = begin, next hash d⟩

/-- No handshake finds its slot taken, and none enters `replaceConn` while another for the
    same client id is in it. -/
def apart (s : Run) : Ev → Bool
  | .go h =>
    match s.st.pc h with
    | .loadOrStore r => (s.st.server.clientMap r.clientId).isNone
    | .loadConn r => (s.replacing r.clientId).isNone
    | _ => true
  | _ => true

/-- `createOrUpdateServingClient` returned a session for the connection. -/
def attached : Pc → Option Request
  | .respond r _ | .serving r _ | .unanswered r => some r
  | _ => none

/-! ## What a step can do -/

def plain : Pc → Bool
  | .closeOwn _ | .closeConn _ _ | .storeConn _ | .respond _ _ | .serving _ _ | .unanswered _ => false
  | _ => true

variable {hash : Link → Link} {d : Dialect} {s t : Run} {e : Ev} {h : Nat} {r : Request}

/-- The steps that keep the handshakes apart, by their effect. -/
inductive Moves (s : Run) : Run → Prop
  | goes (h : Nat) {pc : Pc} : plain pc = true → Moves s { s with st := s.st.goto h pc }
  | creates (h : Nat) {r : Request} : s.st.server.clientMap r.clientId = none →
      Moves s { s with
        st := { (s.st.put r.clientId ⟨r.clientId, r.token, r.principal, h⟩).goto h (.respond r false) with
          created := update s.st.created r.clientId (some r.principal) }
        creators := s.creators ++ [(r.clientId, h)] }
  | authorizes (h : Nat) {r : Request} {cli cli' : ServingClient} : s.st.server.clientMap r.clientId = some cli →
      cli'.activeConn = cli.activeConn → Moves s { s with st := (s.st.put r.clientId cli').goto h (.loadConn r) }
  | enters (h : Nat) {r : Request} {cli : ServingClient} : s.st.server.clientMap r.clientId = some cli →
      s.replacing r.clientId = none →
      Moves s { s with
        st := s.st.goto h (.closeConn r cli.activeConn)
        replacing := update s.replacing r.clientId (some h) }
  | closes {h old : Nat} {r : Request} : s.st.pc h = .closeConn r old →
      Moves s { s with st := (s.st.close old).goto h (.storeConn r), replaced := update s.replaced old true }
  | stores {h : Nat} {r : Request} {cli : ServingClient} : s.st.pc h = .storeConn r →
      s.st.server.clientMap r.clientId = some cli →
      Moves s { s with
        st := (s.st.put r.clientId { cli with activeConn := h }).goto h (.respond r true)
        replaced := update s.replaced cli.activeConn true
        replacing := update s.replacing r.clientId none }
  | answers {h : Nat} {r : Request} {pc : Pc} : attached (s.st.pc h) = some r → attached pc = some r →
      Moves s { s with st := s.st.goto h pc }
  | handles (x : List (Int × Option Bytes)) : Moves s { s with st := { s.st with handled := x } }
  | hangsUp (h : Nat) : Moves s { s with st := s.st.close h, hungUp := update s.hungUp h true }

theorem go_moves {u : St} (hn : ∀ r, s.st.pc h ≠ .closeOwn r) (hok : apart s (.go h) = true)
    (hs : advance hash s.st h = some u) : Moves s (s.note (.go h) u) := by
  simp only [apart] at hok
  simp only [advance] at hs
  simp only [Run.note]
  cases hp : s.st.pc h with
  | closeOwn r => exact absurd hp (hn r)
  | load r =>
    simp only [hp] at hs ⊢
    split at hs <;> cases hs <;> exact .goes h rfl
  | loadOrStore r =>
    simp only [hp] at hs hok ⊢
    have hnone := Option.isNone_iff_eq_none.mp hok
    simp only [hnone] at hs ⊢
    cases hs
    exact .creates h hnone
  | resume r =>
    simp only [hp] at hs ⊢
    split at hs
    · cases hs
    · split at hs <;> cases hs <;> exact .goes h rfl
  | authorize r =>
    simp only [hp] at hs ⊢
    split at hs
    · cases hs
    · rename_i cli hc
      split at hs
      · cases hs
        exact .goes h rfl
      · rename_i cli' ha
        cases hs
        exact .authorizes h hc (authorizeResume_keeps ha).2
  | loadConn r =>
    simp only [hp] at hs hok ⊢
    split at hs
    · cases hs
    · rename_i cli hc
      cases hs
      exact .enters h hc (Option.isNone_iff_eq_none.mp hok)
  | closeConn r old =>
    simp only [hp] at hs ⊢
    cases hs
    exact .closes hp
  | storeConn r =>
    simp only [hp] at hs ⊢
    cases hc : s.st.server.clientMap r.clientId with
    | none =>
      simp only [hc] at hs
      cases hs
    | some cli =>
      simp only [hc] at hs ⊢
      cases hs
      exact .stores hp hc
  | fresh | respond _ _ | serving _ _ | rejected _ | unanswered _ => simp only [hp] at hs; cases hs

theorem next_moves (hn : ∀ h r, s.st.pc h ≠ .closeOwn r) (hok : apart s e = true)
    (hs : next hash d s e = some t) : Moves s t := by
  obtain ⟨u, hu, rfl⟩ := Option.map_eq_some_iff.mp hs
  cases e with
  | go h => exact go_moves (hn h) hok hu
  | read h authn msg =>
    simp only [step] at hu
    split at hu
    · split at hu <;> cases hu <;> exact .goes h rfl
    · cases hu
  | write h written =>
    simp only [step] at hu
    split at hu
    · rename_i r resumed hp
      have ha : attached (s.st.pc h) = some r := by rw [hp]; rfl
      split at hu
      · split at hu
        · cases hu
        · cases hu
          exact .answers ha rfl
      · cases hu
        exact .answers ha rfl
    · cases hu
  | serve h =>
    simp only [step] at hu
    split at hu
    · split at hu <;> cases hu
      exact .handles _
    · cases hu
  | hangUp h =>
    cases hu
    exact .hangsUp h

/-! ## One connection at a time -/

/-- An attached connection is the session's, or was replaced, and then closed. -/
def Current (s : Run) (h : Nat) (r : Request) : Prop :=
  (∃ cli, s.st.server.clientMap r.clientId = some cli ∧ cli.activeConn = h) ∨
    (s.st.server.closed h = true ∧ s.replaced h = true)

def Ok (s : Run) (h : Nat) : Pc → Prop
  | .closeOwn _ => False
  | .closeConn r old => s.replacing r.clientId = some h ∧
      ∃ cli, s.st.server.clientMap r.clientId = some cli ∧ cli.activeConn = old
  | .storeConn r => s.replacing r.clientId = some h ∧
      ∃ cli, s.st.server.clientMap r.clientId = some cli ∧ s.st.server.closed cli.activeConn = true ∧
        s.replaced cli.activeConn = true
  | .respond r _ | .serving r _ | .unanswered r => Current s h r
  | _ => True

structure Inv (s : Run) : Prop where
  pcs : ∀ h, Ok s h (s.st.pc h)
  closed : ∀ c, s.st.server.closed c = true → s.hungUp c = true ∨ s.replaced c = true
  stored : ∀ x ∈ s.creators, (s.st.server.clientMap x.1).isSome = true
  once : (s.creators.map Prod.fst).Nodup

theorem inv_begin : Inv begin where
  pcs := fun _ => trivial
  closed := nofun
  stored := fun _ hx => absurd hx List.not_mem_nil
  once := .nil

theorem ok_of_plain {pc : Pc} (hp : plain pc = true) : Ok s h pc := by
  cases pc with
  | closeOwn _ | closeConn _ _ | storeConn _ | respond _ _ | serving _ _ | unanswered _ => cases hp
  | _ => trivial

theorem ok_attached {pc : Pc} (ha : attached pc = some r) : Ok s h pc ↔ Current s h r := by
  cases pc <;> cases ha <;> exact Iff.rfl

/-- Sessions stay on their connections, closed connections closed, and handshakes in
    `replaceConn`. -/
structure Keeps (s t : Run) : Prop where
  conn : ∀ id cli, s.st.server.clientMap id = some cli →
    ∃ cli', t.st.server.clientMap id = some cli' ∧ cli'.activeConn = cli.activeConn
  replacing : ∀ id k, s.replacing id = some k → t.replacing id = some k
  closed : ∀ c, s.st.server.closed c = true → t.st.server.closed c = true
  replaced : ∀ c, s.replaced c = true → t.replaced c = true

theorem Keeps.current {k : Nat} (hk : Keeps s t) (hc : Current s k r) : Current t k r := by
  rcases hc with ⟨cli, hm, ha⟩ | ⟨hcl, hr⟩
  · obtain ⟨cli', hm', ha'⟩ := hk.conn _ _ hm
    exact .inl ⟨cli', hm', ha'.trans ha⟩
  · exact .inr ⟨hk.closed _ hcl, hk.replaced _ hr⟩

theorem Keeps.ok {k : Nat} {pc : Pc} (hk : Keeps s t) (ho : Ok s k pc) : Ok t k pc := by
  cases pc with
  | closeConn r old =>
    obtain ⟨hr, cli, hm, ha⟩ := ho
    obtain ⟨cli', hm', ha'⟩ := hk.conn _ _ hm
    exact ⟨hk.replacing _ _ hr, cli', hm', ha'.trans ha⟩
  | storeConn r =>
    obtain ⟨hr, cli, hm, hc, hp⟩ := ho
    obtain ⟨cli', hm', ha'⟩ := hk.conn _ _ hm
    exact ⟨hk.replacing _ _ hr, cli', hm', ha' ▸ hk.closed _ hc, ha' ▸ hk.replaced _ hp⟩
  | respond r _ | serving r _ | unanswered r => exact hk.current ho
  | closeOwn _ => exact ho
  | _ => trivial

theorem Keeps.goto (s : Run) (h : Nat) (pc : Pc) : Keeps s { s with st := s.st.goto h pc } :=
  ⟨fun _ cli hm => ⟨cli, hm, rfl⟩, fun _ _ hr => hr, fun _ hc => hc, fun _ hr => hr⟩

theorem Inv.goto (hi : Inv s) (h : Nat) (pc : Pc) (hk : Keeps s t) (hpc : t.st.pc = update s.st.pc h pc)
    (ho : Ok t h pc) : ∀ k, Ok t k (t.st.pc k) := by
  intro k
  rw [hpc]
  by_cases hkh : k = h
  · rw [hkh, update_self]
    exact ho
  · rw [update_of_ne hkh]
    exact hk.ok (hi.pcs k)

theorem update_true {f : Nat → Bool} {c : Nat} (c' : Nat) (h : f c' = true) : update f c true c' = true := by
  by_cases hc : c' = c
  · rw [hc, update_self]
  · rwa [update_of_ne hc]

theorem Inv.created (hi : Inv s) (hn : s.st.server.clientMap r.clientId = none) :
    Inv { s with
      st := { (s.st.put r.clientId ⟨r.clientId, r.token, r.principal, h⟩).goto h (.respond r false) with
        created := update s.st.created r.clientId (some r.principal) }
      creators := s.creators ++ [(r.clientId, h)] } := by
  have hother : ∀ {id : Int} {cli : ServingClient}, s.st.server.clientMap id = some cli → id ≠ r.clientId := by
    intro id cli hm heq
    rw [heq, hn] at hm
    cases hm
  refine ⟨hi.goto h (.respond r false) ⟨fun id cli hm => ⟨cli, ?_, rfl⟩, fun _ _ hr => hr,
    fun _ hc => hc, fun _ hr => hr⟩ rfl (.inl ⟨_, update_self .., rfl⟩), hi.closed, fun x hx => ?_, ?_⟩
  · exact (update_of_ne (hother hm) _ _).trans hm
  · show (update s.st.server.clientMap r.clientId _ x.1).isSome = true
    rcases List.mem_append.mp hx with hx | hx
    · obtain ⟨cli, hm⟩ := Option.isSome_iff_exists.mp (hi.stored x hx)
      rw [update_of_ne (hother hm), hm]
      rfl
    · rw [List.mem_singleton.mp hx, update_self]
      rfl
  · have hfresh : r.clientId ∉ s.creators.map Prod.fst := by
      intro hm
      obtain ⟨x, hx, heq⟩ := List.mem_map.mp hm
      have := hi.stored x hx
      rw [heq, hn] at this
      cases this
    rw [List.map_append]
    exact List.nodup_append.mpr ⟨hi.once, List.nodup_singleton _, fun a ha b hb heq => by
      rw [heq, List.mem_singleton.mp hb] at ha
      exact hfresh ha⟩

/-- `replaceConn` stores the new connection: the old one is closed by then. -/
theorem Inv.stored_conn {cli : ServingClient} (hi : Inv s) (hp : s.st.pc h = .storeConn r)
    (hc : s.st.server.clientMap r.clientId = some cli) :
    Inv { s with
      st := (s.st.put r.clientId { cli with activeConn := h }).goto h (.respond r true)
      replaced := update s.replaced cli.activeConn true
      replacing := update s.replacing r.clientId none } := by
  have hown := hi.pcs h
  rw [hp] at hown
  obtain ⟨hlock, old, hold, hclosed, hreplaced⟩ := hown
  obtain rfl : cli = old := Option.some.inj (hc.symm.trans hold)
  -- no other handshake for the id is in `replaceConn`
  have halone : ∀ {k : Nat} {id : Int}, k ≠ h → s.replacing id = some k → id ≠ r.clientId := by
    intro k id hk hr heq
    rw [heq, hlock] at hr
    exact hk (Option.some.inj hr).symm
  have hcur : ∀ {k : Nat} {r' : Request}, Current s k r' → Current
      { s with
        st := (s.st.put r.clientId { cli with activeConn := h }).goto h (.respond r true)
        replaced := update s.replaced cli.activeConn true
        replacing := update s.replacing r.clientId none } k r' := by
    rintro k r' (⟨cli', hm, ha⟩ | ⟨hcl, hr⟩)
    · by_cases hid : r'.clientId = r.clientId
      · rw [hid, hc] at hm
        cases hm
        exact .inr ⟨ha ▸ hclosed, by rw [← ha]; exact update_self ..⟩
      · exact .inl ⟨cli', (update_of_ne hid _ _).trans hm, ha⟩
    · exact .inr ⟨hcl, update_true _ hr⟩
  refine ⟨fun k => ?_, fun c hcl => (hi.closed c hcl).imp_right (update_true c), fun x hx => ?_, hi.once⟩
  · show Ok _ k (update s.st.pc h (.respond r true) k)
    by_cases hk : k = h
    · rw [hk, update_self]
      exact .inl ⟨_, update_self .., rfl⟩
    · rw [update_of_ne hk]
      have hok := hi.pcs k
      revert hok
      cases s.st.pc k with
      | closeConn r' o =>
        rintro ⟨hr, cli', hm, ha⟩
        have hid := halone hk hr
        exact ⟨(update_of_ne hid _ _).trans hr, cli', (update_of_ne hid _ _).trans hm, ha⟩
      | storeConn r' =>
        rintro ⟨hr, cli', hm, hcl, hre⟩
        have hid := halone hk hr
        exact ⟨(update_of_ne hid _ _).trans hr, cli', (update_of_ne hid _ _).trans hm, hcl, update_true _ hre⟩
      | respond r' _ | serving r' _ | unanswered r' => exact hcur
      | closeOwn _ => exact id
      | _ => exact fun _ => trivial
  · show (update s.st.server.clientMap r.clientId _ x.1).isSome = true
    by_cases hid : x.1 = r.clientId
    · rw [hid, update_self]
      rfl
    · rw [update_of_ne hid]
      exact hi.stored x hx

theorem inv_moves (hi : Inv s) (hm : Moves s t) : Inv t := by
  cases hm with
  | goes h hp => exact ⟨hi.goto h _ (.goto s h _) rfl (ok_of_plain hp), hi.closed, hi.stored, hi.once⟩
  | creates h hn => exact hi.created hn
  | @authorizes h r cli cli' hc ha =>
    refine ⟨hi.goto h (.loadConn r) ⟨fun id c hm => ?_, fun _ _ hr => hr, fun _ hc => hc,
      fun _ hr => hr⟩ rfl trivial, hi.closed, fun x hx => ?_, hi.once⟩
    · by_cases hid : id = r.clientId
      · rw [hid, hc] at hm
        cases hm
        exact ⟨cli', by rw [hid]; exact update_self .., ha⟩
      · exact ⟨c, (update_of_ne hid _ _).trans hm, rfl⟩
    · show (update s.st.server.clientMap r.clientId _ x.1).isSome = true
      by_cases hid : x.1 = r.clientId
      · rw [hid, update_self]
        rfl
      · rw [update_of_ne hid]
        exact hi.stored x hx
  | @enters h r cli hc hfree =>
    refine ⟨hi.goto h (.closeConn r cli.activeConn) ⟨fun _ c hm => ⟨c, hm, rfl⟩, fun id k hr => ?_,
      fun _ hc => hc, fun _ hr => hr⟩ rfl ⟨update_self .., cli, hc, rfl⟩, hi.closed, hi.stored, hi.once⟩
    have hid : id ≠ r.clientId := fun heq => by rw [heq, hfree] at hr; cases hr
    exact (update_of_ne hid _ _).trans hr
  | @closes h old r hp =>
    have hown := hi.pcs h
    rw [hp] at hown
    obtain ⟨hr, cli, hc, ha⟩ := hown
    refine ⟨hi.goto h (.storeConn r) ⟨fun _ c hm => ⟨c, hm, rfl⟩, fun _ _ hr => hr,
      fun c => update_true c, fun c => update_true c⟩ rfl ⟨hr, cli, hc, ?_, ?_⟩, fun c hcl => ?_, hi.stored, hi.once⟩
    · rw [ha]
      exact update_self ..
    · rw [ha]
      exact update_self ..
    · by_cases hco : c = old
      · exact .inr (by rw [hco]; exact update_self ..)
      · exact (hi.closed c ((update_of_ne hco _ _).symm.trans hcl)).imp_right (update_true c)
  | stores hp hc => exact hi.stored_conn hp hc
  | @answers h r pc ha ha' =>
    refine ⟨hi.goto h _ (.goto s h _) rfl ?_, hi.closed, hi.stored, hi.once⟩
    exact (ok_attached ha').mpr ((ok_attached ha).mp (hi.pcs h))
  | handles _ => exact { hi with }
  | hangsUp h =>
    refine ⟨fun k => ?_, fun c hcl => ?_, hi.stored, hi.once⟩
    · have hk : Keeps s { s with st := s.st.close h, hungUp := update s.hungUp h true } :=
        ⟨fun _ c hm => ⟨c, hm, rfl⟩, fun _ _ hr => hr, fun c => update_true c, fun _ hr => hr⟩
      exact hk.ok (hi.pcs k)
    · by_cases hch : c = h
      · exact .inl (by rw [hch]; exact update_self ..)
      · exact (hi.closed c ((update_of_ne hch _ _).symm.trans hcl)).imp_left (update_true c)

theorem reach_inv (hr : (runs hash d).Reach (fun s e => apart s e = true) s) : Inv s := by
  refine Sys.Reach.inv (P := Inv) (fun s hs => ?_) (fun s e t hi hok hs => ?_) hr
  · cases hs
    exact inv_begin
  · refine inv_moves hi (next_moves (fun h r hp => ?_) hok hs)
    have := hi.pcs h
    rw [hp] at this
    exact this

theorem one_live_connection (hash : Link → Link) (d : Dialect) {s : Run}
    (hr : (runs hash d).Reach (fun s e => apart s e = true) s) :
    (s.creators.map Prod.fst).Nodup ∧
    (∀ h r, attached (s.st.pc h) = some r → s.replaced h = true ∨
      (∃ cli, s.st.server.clientMap r.clientId = some cli ∧ cli.activeConn = h) ∧
        (s.st.server.closed h = true → s.hungUp h = true)) ∧
    ∀ h k r r', attached (s.st.pc h) = some r → attached (s.st.pc k) = some r' → r.clientId = r'.clientId →
      s.st.server.closed h = false → s.st.server.closed k = false → h = k := by
  have hi := reach_inv hr
  have hcur : ∀ h r, attached (s.st.pc h) = some r → Current s h r := fun h r ha => (ok_attached ha).mp (hi.pcs h)
  refine ⟨hi.once, fun h r ha => ?_, fun h k r r' ha ha' hid hh hk => ?_⟩
  · rcases hcur h r ha with hactive | ⟨-, hrep⟩
    · cases hrep : s.replaced h with
      | true => exact .inl rfl
      | false =>
        refine .inr ⟨hactive, fun hcl => ?_⟩
        rcases hi.closed h hcl with hup | hre
        · exact hup
        · rw [hrep] at hre
          cases hre
    · exact .inl hrep
  · -- an open one is the session's
    rcases hcur h r ha with ⟨cli, hm, rfl⟩ | ⟨hcl, -⟩
    · rcases hcur k r' ha' with ⟨cli', hm', rfl⟩ | ⟨hcl, -⟩
      · rw [hid, hm'] at hm
        cases hm
        rfl
      · rw [hk] at hcl
        cases hcl
    · rw [hh] at hcl
      cases hcl

def connects (h : Nat) : List Ev := [.read h byName (.ok (message 7 (numbered 3).encode [1])), .go h, .go h]

def inTurn : List Ev :=
  connects 0 ++ ([.write 0 true, .read 1 byName (.ok (message 7 (numbered 2).encode [1])),
    .go 1, .go 1, .go 1, .go 1, .go 1, .go 1, .write 1 true] : List Ev)

theorem one_live_connection_in_turn : ∃ s : Run, s.st.server.closed 0 = true ∧ s.st.server.closed 1 = false ∧
    (∃ cli, s.st.server.clientMap 7 = some cli ∧ cli.activeConn = 1) := by
  obtain ⟨s, hr, hserving, hrep, h0, h1⟩ :=
    Sys.reach_of_exec (runs tick newDialect) (fun s e => apart s e = true) begin rfl inTurn
    (P := fun s => attached (s.st.pc 1) = some ⟨7, (numbered 2).encode, [1]⟩ ∧ s.replaced 1 = false ∧
      s.st.server.closed 0 = true ∧ s.st.server.closed 1 = false) (by decide +kernel)
  rcases (one_live_connection tick newDialect hr).2.1 1 _ hserving with hrep' | ⟨hactive, -⟩
  · rw [hrep] at hrep'
    cases hrep'
  · exact ⟨s, h0, h1, hactive⟩

/-- Two first connects at once: both find no session, 0 takes the slot, 1 closes the one it
    made and resumes with the same anchor. -/
def raceForSlot : List Ev :=
  [.read 0 byName (.ok (message 7 (numbered 3).encode [1])), .read 1 byName (.ok (message 7 (numbered 3).encode [1])),
    .go 0, .go 1, .go 0, .go 1, .go 1, .go 1, .go 1, .go 1, .go 1, .go 1]

/-- Two resumes at once, with successive links: both load connection 0 before either stores. -/
def raceToReplace : List Ev :=
  connects 0 ++ ([.write 0 true, .read 1 byName (.ok (message 7 (numbered 2).encode [1])),
    .read 2 byName (.ok (message 7 (numbered 1).encode [1])), .go 1, .go 1, .go 1, .go 2, .go 2, .go 2,
    .go 1, .go 2, .go 1, .go 2, .go 1, .go 2] : List Ev)

theorem attached_closed_and_two_open :
    (∃ s : Run, (runs tick newDialect).Reach Sys.any s ∧
      s.st.pc 1 = .respond ⟨7, (numbered 3).encode, [1]⟩ true ∧
      s.st.server.clientMap 7 = some ⟨7, (numbered 3).encode, [1], 1⟩ ∧
      s.st.server.closed 1 = true ∧ s.hungUp 1 = false ∧ s.replaced 1 = false) ∧
    ∃ s : Run, (runs tick newDialect).Reach Sys.any s ∧
      s.st.pc 1 = .respond ⟨7, (numbered 2).encode, [1]⟩ true ∧
      s.st.pc 2 = .respond ⟨7, (numbered 1).encode, [1]⟩ true ∧
      s.st.server.closed 1 = false ∧ s.st.server.closed 2 = false :=
  ⟨Sys.reach_of_exec (runs tick newDialect) Sys.any begin rfl raceForSlot (by decide +kernel),
    Sys.reach_of_exec (runs tick newDialect) Sys.any begin rfl raceToReplace (by decide +kernel)⟩

end ValueRpc.Session.Handshake.Attach
