/-
  ValueRpc.Session.Connect — concurrent connectors of one established client
  (`valueclient/client.go`: `ConnectContext`, `handshakeToken`, `Reconnect`;
  `valueclient/sync_conn.go`: `connect`, `reset`; `valueclient/connection.go`: `newConn`).

  `ConnectContext` is called by `Reconnect`, by each turn of `retryReconnect` and by any
  request that finds no connection. A call that sees no connection draws its token under
  `resumeMu`, and then takes `connecting`: two critical sections. Under `connecting` it
  looks for a connection again, dials, writes its handshake and waits for the response.
  So a link is drawn before it is known whether a handshake will be written: when a
  connection was installed meanwhile, or the dial fails, the link is used up unsent.

  Calls do not differ, so the connectors that only looked are counted, those that drew are
  the list `waiting`, in the order drawn, and at most one holds the lock. Go hands a mutex
  to its waiters in no promised order: `lock i` takes any of them. Each handshake has a
  connection of its own, so the server may read them in any order, and also after the
  connector gave up.
-/

import ValueRpc.Session.SelfHeal

namespace ValueRpc.Session.Connect

open Function ValueRpc.Core ValueRpc.Lib

structure Drawn where
  token : Bytes
  /-- Ghost: its index in the chain. -/
  index : Nat
  deriving DecidableEq

inductive Holder
  /-- Before the second look for a connection. -/
  | locked (x : Drawn)
  | dialing (x : Drawn)
  /-- Its handshake is written on `conn`. -/
  | awaiting (x : Drawn) (conn : Nat)
  deriving DecidableEq

structure St where
  client : RpcClient
  /-- Ghost: the links the chain still has. -/
  left : Nat
  /-- Connectors that saw no connection and have not drawn yet. -/
  looked : Nat
  /-- Connectors that drew and wait for `connecting`, in the order drawn. -/
  waiting : List Drawn
  holder : Option Holder
  conn : Option Nat
  conns : Nat
  /-- Handshakes written and not yet read, oldest first, with their connections. -/
  wire : List (Nat × Drawn)
  responses : List Nat
  server : Server
  /-- Ghost: the indices of the handshakes written, oldest first. -/
  written : List Nat
  /-- Ghost: the index of the last link accepted. -/
  accepted : Nat

variable (cfg : Cfg)

/-- The first handshake, with the anchor, is answered and its connection installed. -/
def start : St where
  client := ⟨some (.new cfg.hash cfg.seed cfg.n), true⟩
  left := cfg.len
  looked := 0
  waiting := []
  holder := none
  conn := some 0
  conns := 1
  wire := []
  responses := []
  server := ⟨update (fun _ => none) cfg.clientId (some ⟨cfg.clientId, cfg.link cfg.len, cfg.principal, 0⟩),
    fun _ => false⟩
  written := []
  accepted := cfg.len

inductive Ev
  | call
  | draw
  /-- The `i`-th waiting connector is given `connecting`. -/
  | lock (i : Nat)
  | look
  | dialFails
  | dial
  /-- The server reads the `i`-th handshake on the wire. -/
  | read (i : Nat)
  | lose (i : Nat)
  | respond
  | giveUp
  | reset
  deriving DecidableEq

def verdict (s : St) (conn : Nat) (x : Drawn) : Except Mismatch ServingClient × Server :=
  s.server.createOrUpdateServingClient cfg.hash cfg.clientId x.token cfg.principal conn

def step (s : St) : Ev → Option St
  | .call => if s.conn.isSome then some s else some { s with looked := s.looked + 1 }
  | .draw =>
    if s.looked = 0 then none
    else
      match s.client.handshakeToken cfg.hash cfg.seed cfg.n with
      | (.error _, client) => some { s with client, looked := s.looked - 1 }
      | (.ok token, client) =>
        some { s with client, looked := s.looked - 1, left := s.left - 1, waiting := s.waiting ++ [⟨token,
          s.left - 1⟩] }
  | .lock i =>
    match s.holder, s.waiting[i]? with
    | none, some x => some { s with holder := some (.locked x), waiting := s.waiting.eraseIdx i }
    | _, _ => none
  | .look =>
    match s.holder with
    | some (.locked x) => if s.conn.isSome then some { s with holder := none } else some { s with
        holder := some (.dialing x) }
    | _ => none
  | .dialFails =>
    match s.holder with
    | some (.dialing _) => some { s with holder := none }
    | _ => none
  | .dial =>
    match s.holder with
    | some (.dialing x) =>
      some { s with holder := some (.awaiting x s.conns), conns := s.conns + 1, wire := s.wire ++ [(s.conns, x)],
                    written := s.written ++ [x.index] }
    | _ => none
  | .read i =>
    match s.wire[i]? with
    | none => none
    | some (conn, x) =>
      match verdict cfg s conn x with
      | (.error _, server) => some { s with wire := s.wire.eraseIdx i, server }
      | (.ok _, server) =>
        some { s with wire := s.wire.eraseIdx i, server, responses := conn :: s.responses, accepted := x.index }
  | .lose i => if i < s.wire.length then some { s with wire := s.wire.eraseIdx i } else none
  | .respond =>
    match s.holder with
    | some (.awaiting _ conn) =>
      if conn ∈ s.responses then
        some { s with holder := none, conn := some conn, client := { s.client with established := true } }
      else none
    | _ => none
  | .giveUp =>
    match s.holder with
    | some (.awaiting _ _) => some { s with holder := none }
    | _ => none
  | .reset => some { s with conn := none }

def sys : Sys St Ev := ⟨fun s => s = start cfg, step cfg⟩

/-- `connecting` is given to the connector that drew first. -/
def locksInOrder : Ev → Prop
  | .lock i => i = 0
  | _ => True

/-- And the server reads the handshakes in the order written. -/
def inOrder : Ev → Prop
  | .lock i => i = 0
  | .read i => i = 0
  | _ => True

instance : (e : Ev) → Decidable (locksInOrder e)
  | .lock i => inferInstanceAs (Decidable (i = 0))
  | .call | .draw | .look | .dialFails | .dial | .read _ | .lose _ | .respond | .giveUp | .reset => .isTrue trivial

instance : (e : Ev) → Decidable (inOrder e)
  | .lock i | .read i => inferInstanceAs (Decidable (i = 0))
  | .call | .draw | .look | .dialFails | .dial | .lose _ | .respond | .giveUp | .reset => .isTrue trivial

theorem locksInOrder_of_inOrder {e : Ev} (h : inOrder e) : locksInOrder e := by
  cases e with
  | lock _ => exact h
  | _ => trivial

end ValueRpc.Session.Connect
