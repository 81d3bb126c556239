/-
  ValueRpc.Session.Server — the sessions a server holds, and a handshake that runs alone
  (`valueserver/server.go`: `createOrUpdateServingClient` and its `resume` closure;
  `valueserver/serving_client.go`: `NewServingClient`, `replaceConn`).

  Sessions are kept by client id and never removed while the server lives. `resume`
  checks the principal, then the link, and only then moves the session to the new
  connection, closing the old one. `Session.Handshake` takes these steps one by one,
  with other handshakes in between; here they are one function, for one client at a time.
-/

import ValueRpc.Session.Resume

namespace ValueRpc.Session

open Function ValueRpc.Core

structure Server where
  clientMap : Int → Option ServingClient
  /-- The connections `Close` was called on. -/
  closed : Nat → Bool

namespace Server

def fresh : Server := ⟨fun _ => none, fun _ => false⟩

variable (hash : Link → Link) {conn : Nat} {cli : ServingClient} {sv' : Server}

def resume (sv : Server) (clientId : Int) (token principal : Bytes) (conn : Nat) (existing : ServingClient) :
    Except Mismatch ServingClient × Server :=
  if existing.principal ≠ principal then (.error (.principal clientId), sv)
  else
    match existing.authorizeResume hash token with
    | .error e => (.error e, sv)
    | .ok cli =>
      -- `replaceConn`
      let cli := { cli with activeConn := conn }
      (.ok cli, ⟨update sv.clientMap clientId (some cli), update sv.closed existing.activeConn true⟩)

/-- `createOrUpdateServingClient`, with no other handshake in between: its `LoadOrStore`
    then always stores. -/
def createOrUpdateServingClient (sv : Server) (clientId : Int) (token principal : Bytes) (conn : Nat) :
    Except Mismatch ServingClient × Server :=
  match sv.clientMap clientId with
  | some existing => sv.resume hash clientId token principal conn existing
  | none =>
    let client : ServingClient := ⟨clientId, token, principal, conn⟩
    (.ok client, { sv with clientMap := update sv.clientMap clientId (some client) })

variable {hash} {sv : Server} {clientId : Int} {token principal : Bytes}

/-- A first connect is accepted, whatever its token. -/
theorem create_ok (h : sv.clientMap clientId = none) :
    sv.createOrUpdateServingClient hash clientId token principal conn =
      (.ok ⟨clientId, token, principal, conn⟩,
        { sv with clientMap := update sv.clientMap clientId (some ⟨clientId, token, principal, conn⟩) }) := by
  simp only [createOrUpdateServingClient, h]

/-- The session's own principal resumes it with an accepted link. -/
theorem resume_ok {existing : ServingClient} (conn : Nat) (h : sv.clientMap clientId = some existing)
    (ha : existing.authorizeResume hash token = .ok cli) :
    sv.createOrUpdateServingClient hash clientId token existing.principal conn =
      (.ok { cli with activeConn := conn },
        ⟨update sv.clientMap clientId (some { cli with activeConn := conn }),
          update sv.closed existing.activeConn true⟩) := by
  simp only [createOrUpdateServingClient, h, resume, ne_eq, not_true_eq_false, if_false, ha]

theorem resume_rejected {existing : ServingClient} {e : Mismatch} (conn : Nat)
    (h : sv.clientMap clientId = some existing) (ha : existing.authorizeResume hash token = .error e) :
    sv.createOrUpdateServingClient hash clientId token existing.principal conn = (.error e, sv) := by
  simp only [createOrUpdateServingClient, h, resume, ne_eq, not_true_eq_false, if_false, ha]

/-- A rejected handshake changes nothing. -/
theorem rejected_unchanged {e : Mismatch}
    (h : sv.createOrUpdateServingClient hash clientId token principal conn = (.error e, sv')) : sv' = sv := by
  simp only [createOrUpdateServingClient, resume] at h
  split at h
  · split at h
    · cases h
      rfl
    · split at h
      · cases h
        rfl
      · cases h
  · cases h

/-- The session an accepted handshake leaves is its own principal's, on its connection,
    and holds its token or the link it decodes to. -/
theorem accepted_session
    (h : sv.createOrUpdateServingClient hash clientId token principal conn = (.ok cli, sv')) :
    sv'.clientMap clientId = some cli ∧ cli.principal = principal ∧ cli.activeConn = conn ∧
      ((∀ existing, sv.clientMap clientId = some existing → existing.clientId = clientId) → cli.clientId = clientId) ∧
      (cli.resumeToken = token ∨ ∃ existing l, sv.clientMap clientId = some existing ∧
        cli.resumeToken = existing.resumeToken ∧ decodeLink existing.resumeToken = some l ∧
          decodeLink token = some l) := by
  simp only [createOrUpdateServingClient, resume] at h
  split at h
  · rename_i existing hex
    split at h
    · cases h
    · rename_i hprin
      have hprin : existing.principal = principal := not_not.mp hprin
      split at h
      · cases h
      · rename_i c hc
        cases h
        obtain ⟨l, cur, hl, hcur, ⟨-, -, -, -, rfl⟩ | ⟨rfl, rfl⟩⟩ := ServingClient.authorizeResume_ok hc
        · exact ⟨update_self .., hprin, rfl, fun hid => hid existing hex, .inl rfl⟩
        · exact ⟨update_self .., hprin, rfl, fun hid => hid c hex, .inr ⟨c, l, hex, rfl, hcur, hl⟩⟩
  · cases h
    exact ⟨update_self .., rfl, rfl, fun _ => rfl, .inl rfl⟩

/-- So where all tokens are what links encode to, it holds its token. -/
theorem accepted_token {b : Link}
    (h : sv.createOrUpdateServingClient hash clientId token principal conn = (.ok cli, sv'))
    (hb : token = b.encode)
    (hex : ∀ existing, sv.clientMap clientId = some existing → ∃ a : Link, existing.resumeToken = a.encode) :
    cli.resumeToken = token := by
  obtain ⟨-, -, -, -, hsame | ⟨existing, l, hmap, hkept, hl, hl'⟩⟩ := accepted_session h
  · exact hsame
  · obtain ⟨a, ha⟩ := hex existing hmap
    rw [ha, decodeLink_encode] at hl
    rw [hb, decodeLink_encode] at hl'
    rw [hkept, ha, hb, Option.some.inj hl, Option.some.inj hl']

end Server

end ValueRpc.Session
