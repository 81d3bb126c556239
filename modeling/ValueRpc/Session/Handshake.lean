/-
  ValueRpc.Session.Handshake — handshakes running at once on one server
  (`valueserver/server.go`: `handshake`, `createOrUpdateServingClient`;
  `valueserver/serving_client.go`: `authorizeResume`, `Close`, `replaceConn`).

  Each connection has a goroutine of its own, so a handshake is named by its connection.
  Up to the client id it only reads its message and asks the authenticator (`validate`);
  from then on every access to the sessions is a step of its own: `Load`, `LoadOrStore`,
  the principal check, `authorizeResume` under the session's lock, and the three of
  `replaceConn`. A handshake that loses the race for a new id closes the session it made,
  and with it its own connection, and goes on to resume the winner's.

  A session stays in the map and its principal is set once, so an `existing` session is
  the one the map holds. The map's loser is no session of the server.

  - `Does`: every step by its effect, over `step_does`.
  - `handshake_alone`: without others in between, a handshake is `Session.Server`'s function.
  - `rejected_noop_and_principal_bound`: a rejected handshake changed no session and no
    connection but its own; a resumed session is its principal's, and handlers see the
    principal it was created with.
-/

import ValueRpc.Core.Message
import ValueRpc.Session.Server

namespace ValueRpc.Session.Handshake

open Function ValueRpc.Core ValueRpc.Lib

/-- The errors `handshake` returns before it writes its response. -/
inductive Err
  | read (err : String)
  | emptyMessageType
  | wrongMessageType
  | unsupportedVersion
  | authenticationFailed (err : String)
  | noClientId
  | mismatch (m : Mismatch)
  deriving DecidableEq

/-- Their texts; `detail` is `reqDetail(req)`. -/
def Err.text (detail : String) : Err → String
  | read err => err
  | emptyMessageType => s!"on handshake, empty message type{detail}"
  | wrongMessageType => s!"on handshake, wrong message type{detail}"
  | unsupportedVersion => s!"on handshake, unsupported client version{detail}"
  | authenticationFailed err => s!"on handshake, authentication failed: {err}"
  | noClientId => s!"on handshake, no client id{detail}"
  | mismatch m => m.text

structure Request where
  clientId : Int
  token : Bytes
  principal : Bytes
  deriving DecidableEq

/-- `getAuthenticator()` on one connection: `none` when there is none. -/
abbrev Authenticator := Option (Field → Except String Bytes)

/-- The principal of a credential; empty without an authenticator. -/
def authenticate (authn : Authenticator) (credential : Field) : Except String Bytes :=
  match authn with
  | none => .ok []
  | some authn => authn credential

def validate (d : Dialect) (authn : Authenticator) (read : Except String Msg) : Except Err Request :=
  match read with
  | .error err => .error (.read err)
  | .ok req =>
    match getNumberField req d.messageTypeField with
    | none => .error .emptyMessageType
    | some mt =>
      if mt.long ≠ handshakeRequest then .error .wrongMessageType
      else if !d.validMagicAndVersion req then .error .unsupportedVersion
      else
        match authenticate authn (req d.authField) with
        | .error err => .error (.authenticationFailed err)
        | .ok principal =>
          match getNumberField req d.clientIdField with
          | none => .error .noClientId
          | some cid => .ok ⟨cid.long, (getStringField req d.sessionTokenField).getD [], principal⟩

inductive Pc
  | fresh
  /-- Before `clientMap.Load`. -/
  | load (r : Request)
  /-- `NewServingClient` made a session; before `clientMap.LoadOrStore`. -/
  | loadOrStore (r : Request)
  /-- The slot was taken; before `client.Close()`. -/
  | closeOwn (r : Request)
  /-- In `resume`, before the principal check. -/
  | resume (r : Request)
  | authorize (r : Request)
  /-- `replaceConn`: before it loads the old connection, closes it, stores its own. -/
  | loadConn (r : Request)
  | closeConn (r : Request) (old : Nat)
  | storeConn (r : Request)
  /-- Before the response is written; `resumed` unless it created the session. -/
  | respond (r : Request) (resumed : Bool)
  | serving (r : Request) (resumed : Bool)
  /-- `handshake` returned an error and wrote no response. -/
  | rejected (err : Err)
  | unanswered (r : Request)
  deriving DecidableEq

structure St where
  server : Server
  pc : Nat → Pc
  /-- Ghost: the principal each session was created with. -/
  created : Int → Option Bytes
  /-- Ghost: handler runs, as session and the principal on the handler's context. -/
  handled : List (Int × Option Bytes)

def start : St := ⟨.fresh, fun _ => .fresh, fun _ => none, []⟩

inductive Ev
  /-- The handshake's message is read and its credential checked. -/
  | read (h : Nat) (authn : Authenticator) (msg : Except String Msg)
  | go (h : Nat)
  | write (h : Nat) (written : Bool)
  | serve (h : Nat)
  | hangUp (h : Nat)

def Ev.conn : Ev → Nat
  | read h _ _ | go h | write h _ | serve h | hangUp h => h

/-- The principal a handler of the session finds on its context: none if empty. -/
def onContext (principal : Bytes) : Option Bytes := if principal = [] then none else some principal

namespace St

def goto (s : St) (h : Nat) (pc : Pc) : St := { s with pc := update s.pc h pc }

def put (s : St) (clientId : Int) (cli : ServingClient) : St :=
  { s with server := { s.server with clientMap := update s.server.clientMap clientId (some cli) } }

def close (s : St) (conn : Nat) : St :=
  { s with server := { s.server with closed := update s.server.closed conn true } }

end St

def advance (hash : Link → Link) (s : St) (h : Nat) : Option St :=
  match s.pc h with
  | .load r =>
    match s.server.clientMap r.clientId with
    | some _ => some (s.goto h (.resume r))
    | none => some (s.goto h (.loadOrStore r))
  | .loadOrStore r =>
    match s.server.clientMap r.clientId with
    | some _ => some (s.goto h (.closeOwn r))
    | none =>
      some { (s.put r.clientId ⟨r.clientId, r.token, r.principal, h⟩).goto h (.respond r false) with
        created := update s.created r.clientId (some r.principal) }
  | .closeOwn r => some ((s.close h).goto h (.resume r))
  | .resume r =>
    match s.server.clientMap r.clientId with
    | none => none
    | some existing =>
      if existing.principal ≠ r.principal then some (s.goto h (.rejected (.mismatch (.principal r.clientId))))
      else some (s.goto h (.authorize r))
  | .authorize r =>
    match s.server.clientMap r.clientId with
    | none => none
    | some existing =>
      match existing.authorizeResume hash r.token with
      | .error m => some (s.goto h (.rejected (.mismatch m)))
      | .ok cli => some ((s.put r.clientId cli).goto h (.loadConn r))
  | .loadConn r =>
    match s.server.clientMap r.clientId with
    | none => none
    | some existing => some (s.goto h (.closeConn r existing.activeConn))
  | .closeConn r old => some ((s.close old).goto h (.storeConn r))
  | .storeConn r =>
    match s.server.clientMap r.clientId with
    | none => none
    | some existing => some ((s.put r.clientId { existing with activeConn := h }).goto h (.respond r true))
  | .fresh | .respond _ _ | .serving _ _ | .rejected _ | .unanswered _ => none

def step (hash : Link → Link) (d : Dialect) (s : St) : Ev → Option St
  | .read h authn msg =>
    match s.pc h with
    | .fresh =>
      match validate d authn msg with
      | .error err => some (s.goto h (.rejected err))
      | .ok r => some (s.goto h (.load r))
    | _ => none
  | .go h => advance hash s h
  | .write h written =>
    match s.pc h with
    | .respond r resumed =>
      if written then
        if s.server.closed h then none else some (s.goto h (.serving r resumed))
      else some (s.goto h (.unanswered r))
    | _ => none
  | .serve h =>
    match s.pc h with
    | .serving r _ =>
      match s.server.clientMap r.clientId with
      | none => none
      | some cli => some { s with handled := s.handled ++ [(r.clientId, onContext cli.principal)] }
    | _ => none
  | .hangUp h => some (s.close h)

def sys (hash : Link → Link) (d : Dialect) : Sys St Ev := ⟨fun s => s = start, step hash d⟩

/-! ## What a step can do -/

/-- The principal was checked against the session's, or the session made with it. -/
def Pc.bound : Pc → Option Request
  | authorize r | loadConn r | closeConn r _ | storeConn r | respond r _ | serving r _ => some r
  | _ => none

/-- A session was created or its link accepted: no way back to a rejection. -/
def Pc.committed : Pc → Bool
  | loadConn _ | closeConn _ _ | storeConn _ | respond _ _ | serving _ _ | unanswered _ => true
  | _ => false

variable {hash : Link → Link} {d : Dialect} {s t : St} {h : Nat} {e : Ev}

inductive Does (hash : Link → Link) (s : St) (h : Nat) : St → Prop
  /-- It goes on before any effect, its principal unchecked. -/
  | unbound (pc : Pc) : pc.bound = none → (s.pc h).committed = false → Does hash s h (s.goto h pc)
  | closesOwn (r : Request) : (s.pc h).committed = false → Does hash s h ((s.close h).goto h (.resume r))
  | creates (r : Request) : s.server.clientMap r.clientId = none →
      Does hash s h { (s.put r.clientId ⟨r.clientId, r.token, r.principal, h⟩).goto h (.respond r false) with
        created := update s.created r.clientId (some r.principal) }
  | checks {r : Request} {cli : ServingClient} : s.server.clientMap r.clientId = some cli →
      cli.principal = r.principal →
      (s.pc h).committed = false → Does hash s h (s.goto h (.authorize r))
  | authorizes {r : Request} {cli cli' : ServingClient} : (s.pc h).bound = some r →
      s.server.clientMap r.clientId = some cli → cli.authorizeResume hash r.token = .ok cli' →
      Does hash s h ((s.put r.clientId cli').goto h (.loadConn r))
  | goes {pc : Pc} : pc.committed = true → (s.pc h).committed = true → pc.bound = none ∨ pc.bound = (s.pc h).bound →
      Does hash s h (s.goto h pc)
  | closes {r : Request} (old : Nat) : (s.pc h).bound = some r → Does hash s h ((s.close old).goto h (.storeConn r))
  | stores {r : Request} {cli : ServingClient} : (s.pc h).bound = some r → s.server.clientMap r.clientId = some cli →
      Does hash s h ((s.put r.clientId { cli with activeConn := h }).goto h (.respond r true))
  | handles {r : Request} {cli : ServingClient} : (s.pc h).bound = some r → s.server.clientMap r.clientId = some cli →
      Does hash s h { s with handled := s.handled ++ [(r.clientId, onContext cli.principal)] }
  | hangsUp : Does hash s h (s.close h)

theorem advance_does (hs : advance hash s h = some t) : Does hash s h t := by
  simp only [advance] at hs
  split at hs
  · rename_i r hp
    split at hs <;> cases hs <;> exact .unbound _ rfl (by rw [hp]; rfl)
  · rename_i r hp
    split at hs
    · cases hs
      exact .unbound _ rfl (by rw [hp]; rfl)
    · rename_i hn
      cases hs
      exact .creates r hn
  · rename_i r hp
    cases hs
    exact .closesOwn r (by rw [hp]; rfl)
  · rename_i r hp
    split at hs
    · cases hs
    · rename_i cli hc
      split at hs
      · cases hs
        exact .unbound _ rfl (by rw [hp]; rfl)
      · rename_i hprin
        cases hs
        exact .checks hc (not_not.mp hprin) (by rw [hp]; rfl)
  · rename_i r hp
    split at hs
    · cases hs
    · rename_i cli hc
      split at hs
      · cases hs
        exact .unbound _ rfl (by rw [hp]; rfl)
      · rename_i cli' ha
        cases hs
        exact .authorizes (by rw [hp]; rfl) hc ha
  · rename_i r hp
    split at hs <;> cases hs
    exact .goes rfl (by rw [hp]; rfl) (.inr (by rw [hp]; rfl))
  · rename_i r old hp
    cases hs
    exact .closes old (by rw [hp]; rfl)
  · rename_i r hp
    split at hs
    · cases hs
    · rename_i cli hc
      cases hs
      exact .stores (by rw [hp]; rfl) hc
  all_goals cases hs

theorem step_does (hs : step hash d s e = some t) : Does hash s e.conn t := by
  cases e with
  | read h authn msg =>
    simp only [step] at hs
    split at hs
    · rename_i hp
      split at hs <;> cases hs <;> exact .unbound _ rfl (by rw [Ev.conn, hp]; rfl)
    · cases hs
  | go h => exact advance_does hs
  | write h written =>
    simp only [step] at hs
    split at hs
    · rename_i r resumed hp
      split at hs
      · split at hs
        · cases hs
        · cases hs
          exact .goes rfl (by rw [Ev.conn, hp]; rfl) (.inr (by rw [Ev.conn, hp]; rfl))
      · cases hs
        exact .goes rfl (by rw [Ev.conn, hp]; rfl) (.inl rfl)
    · cases hs
  | serve h =>
    simp only [step] at hs
    split at hs
    · rename_i r resumed hp
      split at hs
      · cases hs
      · rename_i cli hc
        cases hs
        exact .handles (by rw [Ev.conn, hp]; rfl) hc
    · cases hs
  | hangUp h => cases hs; exact .hangsUp

theorem goto_self (s : St) (h : Nat) (pc : Pc) : (s.goto h pc).pc h = pc := update_self ..

theorem Does.frame (hd : Does hash s h t) {k : Nat} (hk : k ≠ h) : t.pc k = s.pc k := by
  cases hd with
  | handles _ _ | hangsUp => rfl
  | _ => exact update_of_ne hk _ _

/-- A step that leaves its handshake free to be rejected changed nothing but, perhaps, its
    own connection. -/
theorem Does.committed_or_noop (hd : Does hash s h t) (hc : (t.pc h).committed = false) :
    t.server.clientMap = s.server.clientMap ∧ ∀ c, c ≠ h → t.server.closed c = s.server.closed c := by
  cases hd with
  | unbound _ _ _ | checks _ _ _ | handles _ _ => exact ⟨rfl, fun _ _ => rfl⟩
  | closesOwn _ _ | hangsUp => exact ⟨rfl, fun c hne => update_of_ne hne _ _⟩
  | goes _ _ _ => exact ⟨rfl, fun _ _ => rfl⟩
  | creates _ _ | authorizes _ _ _ | closes _ _ | stores _ _ =>
    -- these commit
    have hpc := (congrArg Pc.committed (goto_self _ h _)).symm.trans hc
    cases hpc

theorem Does.committed (hd : Does hash s h t) {k : Nat} (hc : (s.pc k).committed = true) :
    (t.pc k).committed = true := by
  by_cases hk : k = h
  · subst hk
    cases hd with
    | handles _ _ | hangsUp => exact hc
    | unbound _ _ hn | closesOwn _ hn | checks _ _ hn => rw [hc] at hn; cases hn
    | goes hg _ _ => exact (congrArg Pc.committed (goto_self s k _)).trans hg
    | creates _ _ | authorizes _ _ _ | closes _ _ | stores _ _ => exact congrArg Pc.committed (goto_self _ k _)
  · rw [hd.frame hk]
    exact hc

theorem steps_committed {ok : St → Ev → Prop} (hs : (sys hash d).Steps ok s t) {k : Nat}
    (hc : (s.pc k).committed = true) : (t.pc k).committed = true :=
  Sys.Steps.keep (P := fun s => (s.pc k).committed = true) (fun _ _ _ h _ hs => (step_does hs).committed h) hs hc

/-! ## A handshake alone -/

/-- `authorizeResume` writes nothing but the token. -/
theorem authorizeResume_keeps {cli cli' : ServingClient} {p : Bytes}
    (h : cli.authorizeResume hash p = .ok cli') :
    cli'.principal = cli.principal ∧ cli'.activeConn = cli.activeConn := by
  obtain ⟨-, -, -, -, ⟨-, -, -, -, rfl⟩ | ⟨-, rfl⟩⟩ := ServingClient.authorizeResume_ok h <;> exact ⟨rfl, rfl⟩

def returned (r : Request) : Except Mismatch ServingClient → Pc → Prop
  | .ok _, pc => ∃ resumed, pc = .respond r resumed
  | .error m, pc => pc = .rejected (.mismatch m)

theorem Steps.go {s₀ : St} (hs : (sys hash d).Steps Sys.any s₀ s) (ha : advance hash s h = some t) :
    (sys hash d).Steps Sys.any s₀ t := .tail (e := .go h) hs trivial ha

/-- Its steps from the principal check on, with no other handshake in between. -/
theorem resume_alone (hash : Link → Link) (d : Dialect) {r : Request} {existing : ServingClient}
    (hp : s.pc h = .resume r) (hc : s.server.clientMap r.clientId = some existing) :
    ∃ t, (sys hash d).Steps Sys.any s t ∧
      t.server = (s.server.resume hash r.clientId r.token r.principal h existing).2 ∧
      returned r (s.server.resume hash r.clientId r.token r.principal h existing).1 (t.pc h) := by
  by_cases hprin : existing.principal = r.principal
  · let s1 := s.goto h (.authorize r)
    have h1 : advance hash s h = some s1 := by simp [advance, hp, hc, hprin, s1]
    have hp1 : s1.pc h = .authorize r := goto_self ..
    have hc1 : s1.server.clientMap r.clientId = some existing := hc
    cases ha : existing.authorizeResume hash r.token with
    | error m =>
      let s2 := s1.goto h (.rejected (.mismatch m))
      have h2 : advance hash s1 h = some s2 := by simp only [advance, hp1, hc1, ha, s2]
      refine ⟨s2, Steps.go (Steps.go .refl h1) h2, ?_, ?_⟩
      · simp only [Server.resume, hprin, ne_eq, not_true_eq_false, if_false, ha]
        rfl
      · simp only [Server.resume, hprin, ne_eq, not_true_eq_false, if_false, ha]
        exact goto_self ..
    | ok cli =>
      let s2 := (s1.put r.clientId cli).goto h (.loadConn r)
      have h2 : advance hash s1 h = some s2 := by simp only [advance, hp1, hc1, ha, s2]
      have hp2 : s2.pc h = .loadConn r := goto_self ..
      have hc2 : s2.server.clientMap r.clientId = some cli := update_self ..
      let s3 := s2.goto h (.closeConn r cli.activeConn)
      have h3 : advance hash s2 h = some s3 := by simp only [advance, hp2, hc2, s3]
      have hp3 : s3.pc h = .closeConn r cli.activeConn := goto_self ..
      let s4 := (s3.close cli.activeConn).goto h (.storeConn r)
      have h4 : advance hash s3 h = some s4 := by simp only [advance, hp3, s4]
      have hp4 : s4.pc h = .storeConn r := goto_self ..
      have hc4 : s4.server.clientMap r.clientId = some cli := hc2
      let s5 := (s4.put r.clientId { cli with activeConn := h }).goto h (.respond r true)
      have h5 : advance hash s4 h = some s5 := by simp only [advance, hp4, hc4, s5]
      refine ⟨s5, Steps.go (Steps.go (Steps.go (Steps.go (Steps.go .refl h1) h2) h3) h4) h5, ?_, ?_⟩
      · -- the token and the connection are written to one session
        simp only [Server.resume, hprin, ne_eq, not_true_eq_false, if_false, ha]
        show Server.mk (update (update s.server.clientMap r.clientId (some cli)) r.clientId _) _ = _
        rw [update_idem, ← (authorizeResume_keeps ha).2]
        rfl
      · simp only [Server.resume, hprin, ne_eq, not_true_eq_false, if_false, ha]
        exact ⟨true, goto_self ..⟩
  · let s1 := s.goto h (.rejected (.mismatch (.principal r.clientId)))
    have h1 : advance hash s h = some s1 := by simp [advance, hp, hc, hprin, s1]
    refine ⟨s1, Steps.go .refl h1, ?_, ?_⟩
    · simp only [Server.resume, ne_eq, hprin, not_false_eq_true, if_true]
      rfl
    · simp only [Server.resume, ne_eq, hprin, not_false_eq_true, if_true]
      exact goto_self ..

/-- Its steps from `Load` on are `createOrUpdateServingClient`. -/
theorem handshake_alone {r : Request} (hp : s.pc h = .load r) :
    ∃ t, (sys hash d).Steps Sys.any s t ∧
      t.server = (s.server.createOrUpdateServingClient hash r.clientId r.token r.principal h).2 ∧
      returned r (s.server.createOrUpdateServingClient hash r.clientId r.token r.principal h).1 (t.pc h) := by
  cases hc : s.server.clientMap r.clientId with
  | none =>
    let s1 := s.goto h (.loadOrStore r)
    have h1 : advance hash s h = some s1 := by simp only [advance, hp, hc, s1]
    have hp1 : s1.pc h = .loadOrStore r := goto_self ..
    have hc1 : s1.server.clientMap r.clientId = none := hc
    have h2 : advance hash s1 h = some
        { (s1.put r.clientId ⟨r.clientId, r.token, r.principal, h⟩).goto h (.respond r false)
          with created := update s1.created r.clientId (some r.principal) } := by simp only [advance, hp1, hc1]
    rw [Server.create_ok hc]
    exact ⟨_, Steps.go (Steps.go .refl h1) h2, rfl, false, goto_self _ h _⟩
  | some existing =>
    let s1 := s.goto h (.resume r)
    have h1 : advance hash s h = some s1 := by simp only [advance, hp, hc, s1]
    obtain ⟨t, hs, hsv, hpc⟩ := resume_alone hash d (goto_self s h (.resume r)) hc
    have hseq : s.server.createOrUpdateServingClient hash r.clientId r.token r.principal h =
        s.server.resume hash r.clientId r.token r.principal h existing := by
      simp only [Server.createOrUpdateServingClient, hc]
    rw [hseq]
    exact ⟨t, (Steps.go .refl h1).trans hs, hsv, hpc⟩

/-! ## Sessions keep their principal -/

structure Inv (s : St) : Prop where
  mapped : ∀ id, s.created id = (s.server.clientMap id).map ServingClient.principal
  bound : ∀ h r, (s.pc h).bound = some r → s.created r.clientId = some r.principal
  handled : ∀ x ∈ s.handled, ∃ p, s.created x.1 = some p ∧ x.2 = onContext p

theorem inv_start : Inv start where
  mapped := fun _ => rfl
  bound := nofun
  handled := fun _ hx => absurd hx List.not_mem_nil

/-- Writing a session's fields keeps `mapped`, if its principal stays. -/
theorem Inv.mapped_put {id : Int} {cli cli' : ServingClient} (hi : Inv s)
    (hc : s.server.clientMap id = some cli) (hp : cli'.principal = cli.principal) (id' : Int) :
    s.created id' = (update s.server.clientMap id (some cli') id').map ServingClient.principal := by
  by_cases heq : id' = id
  · rw [heq, update_self, hi.mapped, hc, Option.map_some, Option.map_some, hp]
  · rw [update_of_ne heq, hi.mapped]

/-- A handshake that goes on to a bound state keeps its request. -/
theorem Inv.bound_goto {pc : Pc} (hi : Inv s)
    (hb : ∀ r, pc.bound = some r → s.created r.clientId = some r.principal) :
    ∀ k r, (update s.pc h pc k).bound = some r → s.created r.clientId = some r.principal := by
  intro k r hk
  by_cases heq : k = h
  · rw [heq, update_self] at hk
    exact hb r hk
  · rw [update_of_ne heq] at hk
    exact hi.bound k r hk

theorem inv_does (hi : Inv s) (hd : Does hash s h t) : Inv t := by
  cases hd with
  | unbound pc hn _ => exact { hi with bound := hi.bound_goto fun r hr => by rw [hn] at hr; cases hr }
  | closesOwn r _ => exact { hi with bound := hi.bound_goto fun r' hr => by cases hr }
  | creates r hn =>
    -- the id had no session, so nothing was bound to it and nothing handled for it
    have hnone : s.created r.clientId = none := by rw [hi.mapped, hn]; rfl
    have hkeep : ∀ id p, s.created id = some p → update s.created r.clientId (some r.principal) id = some p := by
      intro id p hp
      have hne : id ≠ r.clientId := fun heq => by rw [heq, hnone] at hp; cases hp
      rwa [update_of_ne hne]
    refine ⟨fun id => ?_, fun k r' hk => ?_, fun x hx => ?_⟩
    · show update s.created r.clientId (some r.principal) id = (update s.server.clientMap r.clientId _ id).map _
      by_cases heq : id = r.clientId
      · rw [heq, update_self, update_self]
        rfl
      · rw [update_of_ne heq, update_of_ne heq, hi.mapped]
    · have hk : (update s.pc h (.respond r false) k).bound = some r' := hk
      by_cases heq : k = h
      · rw [heq, update_self] at hk
        cases hk
        exact update_self ..
      · rw [update_of_ne heq] at hk
        exact hkeep _ _ (hi.bound k r' hk)
    · obtain ⟨p, hp, hx⟩ := hi.handled x hx
      exact ⟨p, hkeep _ _ hp, hx⟩
  | @checks r cli hc hp _ =>
    refine { hi with bound := hi.bound_goto fun r' hr => ?_ }
    cases hr
    rw [hi.mapped, hc, Option.map_some, hp]
  | @authorizes r cli cli' hb hc ha =>
    exact { hi with
      mapped := hi.mapped_put hc (authorizeResume_keeps ha).1
      bound := hi.bound_goto fun r' hr => by cases hr; exact hi.bound h r hb }
  | @goes pc _ _ hsame =>
    refine { hi with bound := hi.bound_goto fun r hr => ?_ }
    rcases hsame with hn | hsame
    · rw [hn] at hr; cases hr
    · exact hi.bound h r (hsame ▸ hr)
  | @closes r old hb =>
    exact { hi with bound := hi.bound_goto fun r' hr => by cases hr; exact hi.bound h r hb }
  | @stores r cli hb hc =>
    exact { hi with
      mapped := hi.mapped_put hc rfl
      bound := hi.bound_goto fun r' hr => by cases hr; exact hi.bound h r hb }
  | @handles r cli hb hc =>
    refine { hi with handled := fun x hx => ?_ }
    rcases List.mem_append.mp hx with hx | hx
    · exact hi.handled x hx
    · rw [List.mem_singleton.mp hx]
      exact ⟨cli.principal, by rw [hi.mapped, hc]; rfl, rfl⟩
  | hangsUp => exact { hi with }

theorem reach_inv {ok : St → Ev → Prop} (hr : (sys hash d).Reach ok s) : Inv s := by
  refine Sys.Reach.inv (P := Inv) (fun s hs => ?_) (fun s e t hi _ hs => inv_does hi (step_does hs)) hr
  cases hs
  exact inv_start

theorem rejected_noop_and_principal_bound (hash : Link → Link) (d : Dialect) {s : St}
    (hr : (sys hash d).Reach Sys.any s) :
    (∀ e t u err, step hash d s e = some t → (sys hash d).Steps Sys.any t u → u.pc e.conn = .rejected err →
      t.server.clientMap = s.server.clientMap ∧ ∀ c, c ≠ e.conn → t.server.closed c = s.server.closed c) ∧
    (∀ h r, s.pc h = .serving r true → s.created r.clientId = some r.principal ∧
      ∃ cli, s.server.clientMap r.clientId = some cli ∧ cli.principal = r.principal) ∧
    ∀ x ∈ s.handled, ∃ p, s.created x.1 = some p ∧ x.2 = onContext p := by
  have hi := reach_inv hr
  refine ⟨fun e t u err hs hrun hrej => ?_, fun h r hp => ?_, hi.handled⟩
  · refine (step_does hs).committed_or_noop ?_
    rw [Bool.eq_false_iff]
    intro hc
    have hu := steps_committed hrun hc
    rw [hrej] at hu
    cases hu
  · have hcreated : s.created r.clientId = some r.principal := hi.bound h r (by rw [hp]; rfl)
    refine ⟨hcreated, ?_⟩
    rw [hi.mapped] at hcreated
    exact Option.map_eq_some_iff.mp hcreated

def message (clientId : Int) (token credential : Bytes) : Msg := fun field =>
  if field = "m" then .string newDialect.magic
  else if field = "v" then .number ⟨1, .fin 1⟩
  else if field = "t" then .number ⟨handshakeRequest, .fin 0⟩
  else if field = "cid" then .number ⟨clientId, .fin clientId⟩
  else if field = "tok" then .string token
  else if field = "auth" then .string credential
  else .absent

def byName : Authenticator := some fun credential =>
  match credential with
  | .string name => .ok name
  | _ => .error "no credential"

/-- Principal 1 creates session 7 and runs a handler; principal 2 presents its next link. -/
def probe : List Ev :=
  [.read 0 byName (.ok (message 7 (numbered 3).encode [1])), .go 0, .go 0, .write 0 true, .serve 0,
    .read 1 byName (.ok (message 7 (numbered 2).encode [2])), .go 1]

theorem rejected_noop_probe :
    ∃ s t, (sys tick newDialect).Reach Sys.any s ∧ step tick newDialect s (.go 1) = some t ∧
    t.pc 1 = .rejected (.mismatch (.principal 7)) ∧ t.server.clientMap = s.server.clientMap ∧
    s.handled = [(7, some [1])] := by
  obtain ⟨s, hr, hgo, hhandled⟩ := Sys.reach_of_exec (sys tick newDialect) Sys.any start rfl probe
    (P := fun s => (step tick newDialect s (.go 1)).map (fun t => t.pc 1) =
      some (.rejected (.mismatch (.principal 7))) ∧ s.handled = [(7, some [1])]) (by decide +kernel)
  obtain ⟨t, hs, hrej⟩ := Option.map_eq_some_iff.mp hgo
  exact ⟨s, t, hr, hs, hrej,
    ((rejected_noop_and_principal_bound tick newDialect hr).1 _ _ _ _ hs .refl hrej).1, hhandled⟩

end ValueRpc.Session.Handshake
