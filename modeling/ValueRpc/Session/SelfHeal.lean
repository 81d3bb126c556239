/-
  ValueRpc.Session.SelfHeal — a client's reconnects against one server, with handshakes
  lost (`valueclient/client.go`: `handshakeToken`; `valueserver/server.go`:
  `createOrUpdateServingClient`).

  The client presents the anchor until a handshake is answered, then a fresh link each
  time. A handshake in flight may be lost; those that reach the server do so in the order
  drawn. An answer may be lost too, and the server may restart and forget its sessions.
  `pos` is the number of links drawn when a handshake was made, its own included: 0 for
  the anchor, so the link at `pos` is `pos` hashes behind the anchor.

  - `self_healing`: with at most `DefaultResyncWindow - 1` consecutive links lost, whatever
    reaches the server is accepted, as the client's principal, and the steps reported are
    the links drawn since the last one accepted; a link further behind is rejected and the
    server stays as it is.
-/

import ValueRpc.Session.Server

namespace ValueRpc.Session

open Function ValueRpc.Core ValueRpc.Lib

structure RpcClient where
  resumeChain : Option HashChain
  established : Bool

def chainExhausted : String := "session resumption chain exhausted; close this client and reconnect as a new one"

/-- `handshakeToken`; `seed` is what `NewHashChain(n)` would draw. -/
def RpcClient.handshakeToken (hash : Link → Link) (seed : Link) (n : Int) (c : RpcClient) :
    Except String Bytes × RpcClient :=
  let chain := c.resumeChain.getD (.new hash seed n)
  if !c.established then (.ok chain.anchor, { c with resumeChain := some chain })
  else
    let (tok, chain) := chain.nextLink
    (if tok = [] then .error chainExhausted else .ok tok, { c with resumeChain := some chain })

namespace RpcClient

variable {hash : Link → Link} {seed : Link} {n : Int} {c : RpcClient} {i : Nat}

/-- The client's chain, made or still to be made, has `i` links to reveal. -/
def Has (hash : Link → Link) (seed : Link) (n : Int) (i : Nat) (c : RpcClient) : Prop :=
  (c.resumeChain.getD (.new hash seed n)).Of hash seed (HashChain.chainLen n) i

theorem has_start (established : Bool) : Has hash seed n (HashChain.chainLen n) ⟨none, established⟩ :=
  HashChain.new_of hash seed n

/-- Before the first answer: the anchor, and no link is used. -/
theorem handshakeToken_anchor (he : c.established = false) (hc : c.Has hash seed n i) :
    ∃ c', c.handshakeToken hash seed n = (.ok (hash^[HashChain.chainLen n] seed).encode, c') ∧
      c'.established = false ∧ c'.Has hash seed n i := by
  refine ⟨{ c with resumeChain := some (c.resumeChain.getD (.new hash seed n)) }, ?_, he, hc⟩
  simp only [handshakeToken, he, Bool.not_false, if_true, hc.anchor_eq]

/-- After it: the next link, and the chain moves on. -/
theorem handshakeToken_next (he : c.established = true) (hc : c.Has hash seed n (i + 1)) :
    ∃ c', c.handshakeToken hash seed n = (.ok (hash^[i] seed).encode, c') ∧
      c'.established = true ∧ c'.Has hash seed n i := by
  refine ⟨{ c with resumeChain := some (c.resumeChain.getD (.new hash seed n)).nextLink.2 }, ?_, he, hc.nextLink_of⟩
  simp only [handshakeToken, he, Bool.not_true, Bool.false_eq_true, if_false, hc.nextLink_succ,
    Link.encode_ne_nil]

theorem handshakeToken_exhausted (he : c.established = true) (hc : c.Has hash seed n 0) :
    ∃ c', c.handshakeToken hash seed n = (.error chainExhausted, c') ∧
      c'.established = true ∧ c'.Has hash seed n 0 := by
  refine ⟨{ c with resumeChain := some (c.resumeChain.getD (.new hash seed n)) }, ?_, he, hc⟩
  simp only [handshakeToken, he, Bool.not_true, Bool.false_eq_true, if_false, hc.nextLink_exhausted, if_true]

end RpcClient

structure Cfg where
  hash : Link → Link
  seed : Link
  n : Int
  clientId : Int
  principal : Bytes

def Cfg.len (cfg : Cfg) : Nat := HashChain.chainLen cfg.n

def Cfg.link (cfg : Cfg) (i : Nat) : Bytes := (cfg.hash^[i] cfg.seed).encode

namespace SelfHeal

structure Sent where
  token : Bytes
  /-- Ghost: the links drawn when it was made. -/
  pos : Nat
  deriving DecidableEq

structure St where
  client : RpcClient
  /-- Ghost: the links drawn. -/
  drawn : Nat
  net : List Sent
  server : Server
  conns : Nat
  answers : Nat
  /-- Ghost: the position of the last link accepted. -/
  accepted : Nat
  /-- Ghost: the position of the last link that reached the server. -/
  reached : Nat

def start : St := ⟨⟨none, false⟩, 0, [], .fresh, 0, 0, 0, 0⟩

inductive Ev
  | send
  | lose (i : Nat)
  | deliver
  | answer
  | loseAnswer
  | restart

variable (cfg : Cfg)

def verdict (s : St) (x : Sent) : Except Mismatch ServingClient × Server :=
  s.server.createOrUpdateServingClient cfg.hash cfg.clientId x.token cfg.principal s.conns

def step (s : St) : Ev → Option St
  | .send =>
    match s.client.handshakeToken cfg.hash cfg.seed cfg.n with
    | (.error _, client) => some { s with client }
    | (.ok token, client) =>
      let drawn := if s.client.established then s.drawn + 1 else s.drawn
      some { s with client, drawn, net := s.net ++ [⟨token, drawn⟩] }
  | .lose i => if i < s.net.length then some { s with net := s.net.eraseIdx i } else none
  | .deliver =>
    match s.net with
    | [] => none
    | x :: net =>
      let s' := { s with net, conns := s.conns + 1, reached := x.pos }
      match verdict cfg s x with
      | (.error _, server) => some { s' with server }
      | (.ok _, server) => some { s' with server, answers := s.answers + 1, accepted := x.pos }
  | .answer =>
    if 0 < s.answers then
      some { s with answers := s.answers - 1, client := { s.client with established := true } }
    else none
  | .loseAnswer => if 0 < s.answers then some { s with answers := s.answers - 1 } else none
  | .restart => some { s with server := .fresh }

def sys : Sys St Ev := ⟨fun s => s = start, step cfg⟩

/-- Fewer than `DefaultResyncWindow` consecutive links are lost: what reaches the server
    next is at most the window after what reached it before. -/
def lossBounded (s : St) : Ev → Prop
  | .deliver => ∀ x ∈ s.net.head?, x.pos ≤ s.reached + defaultResyncWindow.toNat
  | _ => True

instance (s : St) : (e : Ev) → Decidable (lossBounded s e)
  | .deliver => inferInstanceAs (Decidable (∀ x ∈ s.net.head?, x.pos ≤ s.reached + defaultResyncWindow.toNat))
  | .send | .lose _ | .answer | .loseAnswer | .restart => .isTrue trivial

/-! ## The invariant -/

variable {cfg}

/-- Position `a` is presented before `b`: the anchor any number of times, a link once. -/
def Before (a b : Nat) : Prop := a < b ∨ (a = 0 ∧ b = 0)

structure Inv (cfg : Cfg) (s : St) : Prop where
  chain : s.client.Has cfg.hash cfg.seed cfg.n (cfg.len - s.drawn)
  drawnLe : s.drawn ≤ cfg.len
  /-- Links are drawn only once a handshake was answered. -/
  anchored : s.client.established = false → s.drawn = 0
  acceptedLe : s.accepted ≤ s.drawn
  net : ∀ x ∈ s.net, x.pos ≤ s.drawn ∧ x.token = cfg.link (cfg.len - x.pos) ∧ Before s.accepted x.pos
  order : s.net.Pairwise fun x y => Before x.pos y.pos
  session : ∀ cli, s.server.clientMap cfg.clientId = some cli →
    cli.clientId = cfg.clientId ∧ cli.principal = cfg.principal ∧ cli.resumeToken = cfg.link (cfg.len - s.accepted)

theorem inv_start : Inv cfg start where
  chain := RpcClient.has_start false
  drawnLe := Nat.zero_le _
  anchored := fun _ => rfl
  acceptedLe := le_rfl
  net := fun _ hx => absurd hx List.not_mem_nil
  order := .nil
  session := nofun

/-- Accepted: no session is held, or the gap is within the window. -/
theorem Inv.accepts {s : St} {x : Sent} (h : Inv cfg s) (hx : x ∈ s.net)
    (hw : s.server.clientMap cfg.clientId = none ∨ x.pos ≤ s.accepted + defaultResyncWindow.toNat) :
    ∃ server, verdict cfg s x = (.ok ⟨cfg.clientId, x.token, cfg.principal, s.conns⟩, server) := by
  obtain ⟨hle, htok, hbefore⟩ := h.net x hx
  cases hs : s.server.clientMap cfg.clientId with
  | none => exact ⟨_, Server.create_ok hs⟩
  | some cli =>
    obtain ⟨hid, hprin, hlast⟩ := h.session cli hs
    have hgap : x.pos ≤ s.accepted + defaultResyncWindow.toNat := hw.resolve_left (by simp [hs])
    have hauth : cli.authorizeResume cfg.hash x.token = .ok { cli with resumeToken := x.token } := by
      have hacc : s.accepted ≤ x.pos := by rcases hbefore with hlt | ⟨ha, -⟩ <;> omega
      exact ServingClient.authorizeResume_chain hlast htok (by omega) (by have := h.drawnLe; omega)
    have hres := Server.resume_ok s.conns hs hauth
    rw [hprin, hid] at hres
    exact ⟨_, hres⟩

/-- Rejected: a session is held and the gap is beyond the window. -/
theorem Inv.rejects {s : St} {x : Sent} (h : Inv cfg s) (hx : x ∈ s.net)
    (hnc : cfg.hash^[cfg.len] cfg.seed ∉ periodicPts cfg.hash) {cli : ServingClient}
    (hs : s.server.clientMap cfg.clientId = some cli) (hw : s.accepted + defaultResyncWindow.toNat < x.pos) :
    verdict cfg s x = (.error (.token cfg.clientId), s.server) := by
  obtain ⟨hle, htok, -⟩ := h.net x hx
  obtain ⟨hid, hprin, hlast⟩ := h.session cli hs
  have := h.drawnLe
  have hauth : cli.authorizeResume cfg.hash x.token = .error (.token cli.clientId) :=
    ServingClient.authorizeResume_gap hnc (Nat.sub_le ..) hlast htok (by omega)
  have hres := Server.resume_rejected s.conns hs hauth
  rw [hprin, hid] at hres
  exact hres

theorem inv_send {s t : St} (h : Inv cfg s) (hs : step cfg s .send = some t) : Inv cfg t := by
  have hlen := h.drawnLe
  cases he : s.client.established with
  | false =>
    obtain ⟨c, hc, hce, hhas⟩ := RpcClient.handshakeToken_anchor he h.chain
    simp only [step, hc, he, Bool.false_eq_true, if_false, Option.some.injEq] at hs
    subst hs
    have hz : s.drawn = 0 := h.anchored he
    have hacc : s.accepted = 0 := by have := h.acceptedLe; omega
    have hpos : ∀ x ∈ s.net, x.pos = 0 := fun x hx => by have := (h.net x hx).1; omega
    refine { h with chain := hhas, anchored := fun _ => hz, net := ?_, order := ?_ }
    · intro x hx
      rcases List.mem_append.mp hx with hx | hx
      · exact h.net x hx
      · rw [List.mem_singleton.mp hx, hz]
        exact ⟨le_rfl, rfl, .inr ⟨hacc, rfl⟩⟩
    · refine List.pairwise_append.mpr ⟨h.order, List.pairwise_singleton _ _, fun x hx y hy => ?_⟩
      rw [List.mem_singleton.mp hy]
      exact .inr ⟨hpos x hx, hz⟩
  | true =>
    by_cases hleft : s.drawn = cfg.len
    · have hchain : s.client.Has cfg.hash cfg.seed cfg.n 0 := by have := h.chain; rwa [hleft, Nat.sub_self] at this
      obtain ⟨c, hc, hce, hhas⟩ := RpcClient.handshakeToken_exhausted he hchain
      simp only [step, hc, Option.some.injEq] at hs
      subst hs
      refine { h with chain := ?_, anchored := fun hf => ?_ }
      · rwa [hleft, Nat.sub_self]
      · rw [hce] at hf; cases hf
    · obtain ⟨i, hi⟩ : ∃ i, cfg.len - s.drawn = i + 1 := ⟨cfg.len - s.drawn - 1, by omega⟩
      have hchain : s.client.Has cfg.hash cfg.seed cfg.n (i + 1) := hi ▸ h.chain
      obtain ⟨c, hc, hce, hhas⟩ := RpcClient.handshakeToken_next he hchain
      simp only [step, hc, he, if_true, Option.some.injEq] at hs
      subst hs
      have hlast : cfg.len - (s.drawn + 1) = i := by omega
      have hacc := h.acceptedLe
      refine { h with chain := ?_, drawnLe := ?_, anchored := fun hf => ?_, acceptedLe := ?_, net := ?_, order := ?_ }
      · rwa [hlast]
      · show s.drawn + 1 ≤ cfg.len
        omega
      · rw [hce] at hf; cases hf
      · show s.accepted ≤ s.drawn + 1
        omega
      · intro x hx
        rcases List.mem_append.mp hx with hx | hx
        · obtain ⟨hle, htok, hb⟩ := h.net x hx
          exact ⟨Nat.le_succ_of_le hle, htok, hb⟩
        · rw [List.mem_singleton.mp hx]
          exact ⟨le_rfl, by rw [Cfg.link, hlast], .inl (Nat.lt_succ_of_le hacc)⟩
      · refine List.pairwise_append.mpr ⟨h.order, List.pairwise_singleton _ _, fun x hx y hy => ?_⟩
        rw [List.mem_singleton.mp hy]
        exact .inl (Nat.lt_succ_of_le (h.net x hx).1)

theorem inv_deliver {s t : St} (h : Inv cfg s) (hs : step cfg s .deliver = some t) : Inv cfg t := by
  cases hnet : s.net with
  | nil => simp only [step, hnet] at hs; cases hs
  | cons x net =>
    simp only [step, hnet] at hs
    have horder := h.order
    rw [hnet] at horder
    obtain ⟨hle, htok, hbefore⟩ := h.net x (by rw [hnet]; exact List.mem_cons_self)
    have hrest : ∀ y ∈ net, y ∈ s.net := fun y hy => by rw [hnet]; exact List.mem_cons_of_mem x hy
    cases hv : verdict cfg s x with
    | mk r server =>
      rw [hv] at hs
      cases r with
      | error e =>
        cases hs
        obtain rfl : server = s.server := Server.rejected_unchanged hv
        exact { h with net := fun y hy => h.net y (hrest y hy), order := horder.of_cons }
      | ok cli =>
        cases hs
        obtain ⟨hmap, hprin, -, hid, -⟩ := Server.accepted_session hv
        refine { h with acceptedLe := hle, net := ?_, order := horder.of_cons, session := ?_ }
        · intro y hy
          obtain ⟨hyl, hyt, -⟩ := h.net y (hrest y hy)
          exact ⟨hyl, hyt, List.rel_of_pairwise_cons horder hy⟩
        · intro cli' hcli
          obtain rfl : cli = cli' := by
            have : server.clientMap cfg.clientId = some cli' := hcli
            rw [hmap] at this
            exact Option.some.inj this
          refine ⟨?_, hprin, ?_⟩
          · exact hid fun existing hex => (h.session existing hex).1
          · have hkept := Server.accepted_token hv htok fun existing hex => ⟨_, (h.session existing hex).2.2⟩
            exact hkept.trans htok

theorem inv_step {s t : St} {e : Ev} (h : Inv cfg s) (hs : step cfg s e = some t) : Inv cfg t := by
  cases e with
  | send => exact inv_send h hs
  | lose i =>
    simp only [step] at hs
    split at hs
    · cases hs
      have hsub := List.eraseIdx_sublist s.net i
      exact { h with net := fun x hx => h.net x (hsub.mem hx), order := h.order.sublist hsub }
    · cases hs
  | deliver => exact inv_deliver h hs
  | answer =>
    simp only [step] at hs
    split at hs
    · cases hs
      exact { h with anchored := fun hf => by cases hf }
    · cases hs
  | loseAnswer =>
    simp only [step] at hs
    split at hs
    · cases hs
      exact { h with }
    · cases hs
  | restart =>
    cases hs
    exact { h with session := fun cli hc => by cases hc }

theorem reach_inv {ok : St → Ev → Prop} {s : St} (h : (sys cfg).Reach ok s) : Inv cfg s := by
  refine Sys.Reach.inv (P := Inv cfg) (fun s hs => ?_) (fun s e t hi _ hs => inv_step hi hs) h
  cases hs
  exact inv_start

/-- While losses stay within the window, the last link to reach the server is the last
    one accepted. -/
theorem reached_accepted {s : St} (h : (sys cfg).Reach lossBounded s) : s.accepted = s.reached := by
  refine (Sys.Reach.inv (P := fun s => Inv cfg s ∧ s.accepted = s.reached) (fun s hs => ?_)
    (fun s e t hi ho hs => ⟨inv_step hi.1 hs, ?_⟩) h).2
  · cases hs
    exact ⟨inv_start, rfl⟩
  · obtain ⟨hi, heq⟩ := hi
    simp only [sys] at hs
    cases e with
    | send =>
      simp only [step] at hs
      split at hs <;> cases hs <;> exact heq
    | deliver =>
      cases hnet : s.net with
      | nil => simp only [step, hnet] at hs; cases hs
      | cons x net =>
        have hbound : x.pos ≤ s.reached + defaultResyncWindow.toNat := ho x (by rw [hnet]; rfl)
        obtain ⟨server, hv⟩ := hi.accepts (x := x) (by rw [hnet]; exact List.mem_cons_self) (.inr (heq ▸ hbound))
        simp only [step, hnet, hv] at hs
        cases hs
        rfl
    | restart => cases hs; exact heq
    | lose _ | answer | loseAnswer =>
      simp only [step] at hs
      split at hs
      · cases hs
        exact heq
      · cases hs

theorem self_healing (cfg : Cfg) {s : St} {x : Sent} (hx : s.net.head? = some x) :
    ((sys cfg).Reach lossBounded s → x.pos ≤ s.reached + defaultResyncWindow.toNat →
      (∃ server, verdict cfg s x = (.ok ⟨cfg.clientId, x.token, cfg.principal, s.conns⟩, server) ∧
        server.clientMap cfg.clientId = some ⟨cfg.clientId, x.token, cfg.principal, s.conns⟩) ∧
      ∀ cli, s.server.clientMap cfg.clientId = some cli → 0 < x.pos →
        ∃ k, verifyHashStep cfg.hash x.token cli.resumeToken defaultResyncWindow = some k ∧
          (cfg.hash^[cfg.len] cfg.seed ∉ periodicPts cfg.hash → k = x.pos - s.accepted)) ∧
    ((sys cfg).Reach Sys.any s → cfg.hash^[cfg.len] cfg.seed ∉ periodicPts cfg.hash →
      ∀ cli, s.server.clientMap cfg.clientId = some cli → s.accepted + defaultResyncWindow.toNat < x.pos →
        verdict cfg s x = (.error (.token cfg.clientId), s.server)) := by
  have hmem : x ∈ s.net := List.mem_of_head? hx
  constructor
  · intro hr hbound
    have hi := reach_inv hr
    rw [← reached_accepted hr] at hbound
    constructor
    · obtain ⟨server, hv⟩ := hi.accepts hmem (.inr hbound)
      exact ⟨server, hv, (Server.accepted_session hv).1⟩
    · intro cli hcli hpos
      obtain ⟨hle, htok, hbefore⟩ := hi.net x hmem
      have hlt : s.accepted < x.pos := by rcases hbefore with hlt | ⟨-, hz⟩ <;> omega
      have hlen := hi.drawnLe
      obtain ⟨-, -, hlast⟩ := hi.session cli hcli
      rw [htok, hlast]
      have hfound : (verifyHashStep cfg.hash (cfg.link (cfg.len - x.pos)) (cfg.link (cfg.len - s.accepted))
          defaultResyncWindow).isSome = true := by
        rw [Cfg.link, Cfg.link, verifyHashStep_encode]
        refine Orbit.search_isSome.mpr ⟨x.pos - s.accepted, by omega, by omega, ?_⟩
        rw [← iterate_add_apply]
        congr 1
        omega
      obtain ⟨k, hk⟩ := Option.isSome_iff_exists.mp hfound
      refine ⟨k, hk, fun hnc => ?_⟩
      obtain ⟨hdist, -, -⟩ := (ServingClient.verifyHashStep_chain hnc (Nat.sub_le ..)).mp hk
      omega
  · intro hr hnc cli hcli hbound
    exact (reach_inv hr).rejects hmem hnc hcli hbound

def short : Cfg := ⟨tick, numbered 0, 3, 7, []⟩

/-- The anchor is answered, the first link is lost, the second is on its way. -/
def oneLost : List Ev := [.send, .deliver, .answer, .send, .send, .lose 0]

theorem self_healing_one_lost : ∃ s x, (sys short).Reach lossBounded s ∧ s.net.head? = some x ∧ x.pos = 2 ∧
    ∃ cli, s.server.clientMap 7 = some cli ∧
      verifyHashStep tick x.token cli.resumeToken defaultResyncWindow = some 2 := by
  obtain ⟨s, hr, hhead, hcli, hreached, hacc⟩ := Sys.reach_of_exec (sys short) lossBounded start rfl oneLost
    (P := fun s => s.net.head? = some ⟨(numbered 1).encode, 2⟩ ∧
      s.server.clientMap 7 = some ⟨7, (numbered 3).encode, [], 0⟩ ∧ 2 ≤ s.reached + defaultResyncWindow.toNat ∧
      2 - s.accepted = 2) (by decide +kernel)
  refine ⟨s, ⟨(numbered 1).encode, 2⟩, hr, hhead, rfl, ⟨7, (numbered 3).encode, [], 0⟩, hcli, ?_⟩
  have hnc : short.hash^[short.len] short.seed ∉ periodicPts short.hash := by
    have hanchor : short.hash^[short.len] short.seed = numbered 3 := by decide +kernel
    rw [hanchor]
    exact tick_notPeriodic (by decide)
  obtain ⟨k, hk, heq⟩ := ((self_healing short (x := ⟨(numbered 1).encode, 2⟩) hhead).1 hr hreached).2
    ⟨7, (numbered 3).encode, [], 0⟩ hcli (by decide)
  have h2 : k = 2 := (heq hnc).trans hacc
  rw [h2] at hk
  exact hk

end SelfHeal

end ValueRpc.Session
