/-
  ValueRpc.Session.ConnectProofs — what the connectors' links do to the session.

  `Books` holds in every run: every link drawn is drawn once, and the session holds the
  last link accepted. `Line` holds while `connecting` is given in the order drawn: written,
  held and waiting links then stand in one line, in chain order.

  - `accepted_iff_unsent_counted`: a handshake that reaches the server is accepted exactly
    when its link is behind the stored one and the links drawn in between, those never
    sent as much as those sent and lost, are fewer than the window.
  - `session_lost_to_failed_dials`: so 1024 failed dials cost the session.
  - `written_in_chain_order`: locked in the order drawn, handshakes are written in chain
    order, and none is rejected because a later link was accepted.
  - `written_out_of_order`: otherwise one is.
-/

import Mathlib.Data.Finset.Card
import Mathlib.Data.List.Perm.Basic
import Mathlib.Order.Interval.Finset.Nat
import ValueRpc.Session.Connect

namespace ValueRpc.Session.Connect

open Function ValueRpc.Core ValueRpc.Lib

variable {cfg : Cfg} {s t : St} {i : Nat} {x : Drawn} {e : Ev} {conn : Nat}

/-! ## What a step can do -/

structure Chained (cfg : Cfg) (s : St) : Prop where
  established : s.client.established = true
  chain : s.client.Has cfg.hash cfg.seed cfg.n s.left

inductive Moves (cfg : Cfg) (s : St) : Ev → St → Prop
  | quiet {e : Ev} (looked : Nat) (conn : Option Nat) : Moves cfg s e { s with looked, conn }
  | exhausted (client : RpcClient) (looked : Nat) : client.established = true →
      client.Has cfg.hash cfg.seed cfg.n s.left → Moves cfg s .draw { s with client, looked }
  | drew (client : RpcClient) (looked i : Nat) : s.left = i + 1 → client.established = true →
      client.Has cfg.hash cfg.seed cfg.n i →
      Moves cfg s .draw { s with client, looked, left := i, waiting := s.waiting ++ [⟨cfg.link i, i⟩] }
  | locked {i : Nat} {x : Drawn} : s.holder = none → s.waiting[i]? = some x →
      Moves cfg s (.lock i) { s with holder := some (.locked x), waiting := s.waiting.eraseIdx i }
  | dialing {x : Drawn} : s.holder = some (.locked x) → Moves cfg s .look { s with holder := some (.dialing x) }
  | released {e : Ev} {h : Holder} (conn : Option Nat) : s.holder = some h →
      Moves cfg s e { s with holder := none, conn }
  | wrote {x : Drawn} : s.holder = some (.dialing x) →
      Moves cfg s .dial { s with holder := some (.awaiting x s.conns), conns := s.conns + 1,
                                 wire := s.wire ++ [(s.conns, x)], written := s.written ++ [x.index] }
  | gone {e : Ev} {i : Nat} : (∀ j, e = .read j → j = i) → Moves cfg s e { s with wire := s.wire.eraseIdx i }
  | accepted {i conn : Nat} {x : Drawn} {cli : ServingClient} {server : Server} (responses : List Nat) :
      s.wire[i]? = some (conn, x) → verdict cfg s conn x = (.ok cli, server) →
      Moves cfg s (.read i) { s with wire := s.wire.eraseIdx i, server, responses, accepted := x.index }

theorem moves_draw (hc : Chained cfg s) (hs : step cfg s .draw = some t) : Moves cfg s .draw t := by
  simp only [step] at hs
  split at hs
  · cases hs
  · cases hl : s.left with
    | zero =>
      have hchain := hc.chain
      rw [hl] at hchain
      obtain ⟨c, hct, hce, hhas⟩ := RpcClient.handshakeToken_exhausted hc.established hchain
      rw [hct] at hs
      cases hs
      exact .exhausted c _ hce (hl ▸ hhas)
    | succ i =>
      have hchain := hc.chain
      rw [hl] at hchain
      obtain ⟨c, hct, hce, hhas⟩ := RpcClient.handshakeToken_next hc.established hchain
      rw [hct, hl] at hs
      cases hs
      exact .drew c _ i hl hce hhas

theorem moves_read (hs : step cfg s (.read i) = some t) : Moves cfg s (.read i) t := by
  simp only [step] at hs
  split at hs
  · cases hs
  · rename_i conn x hx
    split at hs
    · rename_i e server hv
      obtain rfl : server = s.server := Server.rejected_unchanged hv
      cases hs
      exact .gone fun j hj => by cases hj; rfl
    · rename_i cli server hv
      cases hs
      exact .accepted _ hx hv

theorem step_moves (hc : Chained cfg s) (hs : step cfg s e = some t) : Moves cfg s e t := by
  cases e with
  | draw => exact moves_draw hc hs
  | read i => exact moves_read hs
  | call =>
    simp only [step] at hs
    split at hs <;> cases hs
    · exact .quiet s.looked s.conn
    · exact .quiet _ s.conn
  | lock i =>
    simp only [step] at hs
    split at hs
    · rename_i x hh hx
      cases hs
      exact .locked hh hx
    · cases hs
  | look =>
    simp only [step] at hs
    split at hs
    · rename_i x hh
      split at hs <;> cases hs
      · exact .released s.conn hh
      · exact .dialing hh
    · cases hs
  | dialFails =>
    simp only [step] at hs
    split at hs <;> cases hs
    rename_i hh
    exact .released s.conn hh
  | dial =>
    simp only [step] at hs
    split at hs <;> cases hs
    rename_i x hh
    exact .wrote hh
  | lose i =>
    simp only [step] at hs
    split at hs <;> cases hs
    exact .gone nofun
  | respond =>
    simp only [step] at hs
    split at hs
    · rename_i x conn hh
      split at hs <;> cases hs
      have hsame : { s.client with established := true } = s.client := by rw [← hc.established]
      rw [hsame]
      exact .released (some conn) hh
    · cases hs
  | giveUp =>
    simp only [step] at hs
    split at hs <;> cases hs
    rename_i hh
    exact .released s.conn hh
  | reset => cases hs; exact .quiet s.looked none

/-! ## Books: every link is drawn once -/

def Holder.unwritten : Holder → List Drawn
  | locked x | dialing x => [x]
  | awaiting _ _ => []

def held (s : St) : List Drawn := (s.holder.map Holder.unwritten).getD []

/-- The links drawn that may still reach the server. -/
def live (s : St) : List Drawn := s.waiting ++ held s ++ s.wire.map Prod.snd

structure Books (cfg : Cfg) (s : St) : Prop extends Chained cfg s where
  drawn : ∀ x ∈ live s, x.token = cfg.link x.index ∧ s.left ≤ x.index ∧ x.index < cfg.len
  once : ((live s).map Drawn.index).Nodup
  stored : s.accepted ∉ (live s).map Drawn.index
  leftLe : s.left ≤ s.accepted
  acceptedLe : s.accepted ≤ cfg.len
  session : ∃ cli, s.server.clientMap cfg.clientId = some cli ∧ cli.clientId = cfg.clientId ∧
    cli.principal = cfg.principal ∧ cli.resumeToken = cfg.link s.accepted

/-- What `Books` says about the live links holds for fewer. -/
theorem Books.fewer {l : List Drawn} (h : Books cfg s) (hl : l.Subperm (live s)) :
    (∀ x ∈ l, x.token = cfg.link x.index ∧ s.left ≤ x.index ∧ x.index < cfg.len) ∧
      (l.map Drawn.index).Nodup ∧ s.accepted ∉ l.map Drawn.index := by
  obtain ⟨m, hperm, hm⟩ := hl
  have hperm' := hperm.map Drawn.index
  have hm' := hm.map Drawn.index
  exact ⟨fun x hx => h.drawn x (hm.subset (hperm.mem_iff.mpr hx)), hperm'.nodup_iff.mp (hm'.nodup h.once),
    fun hx => h.stored (hm'.subset (hperm'.mem_iff.mpr hx))⟩

theorem perm_cons_eraseIdx {α : Type} {l : List α} {x : α} (h : l[i]? = some x) :
    l.Perm (x :: l.eraseIdx i) := by
  obtain ⟨hi, rfl⟩ := List.getElem?_eq_some_iff.mp h
  exact (List.getElem_cons_eraseIdx_perm hi).symm

theorem books_start : Books cfg (start cfg) where
  established := rfl
  chain := HashChain.new_of cfg.hash cfg.seed cfg.n
  drawn := fun _ hx => absurd hx List.not_mem_nil
  once := .nil
  stored := List.not_mem_nil
  leftLe := le_rfl
  acceptedLe := le_rfl
  session := ⟨⟨cfg.clientId, cfg.link cfg.len, cfg.principal, 0⟩, by simp [start], rfl, rfl, rfl⟩

theorem Books.drew {client : RpcClient} {looked : Nat} (h : Books cfg s) (hl : s.left = i + 1)
    (he : client.established = true) (hhas : client.Has cfg.hash cfg.seed cfg.n i) :
    Books cfg { s with client, looked, left := i, waiting := s.waiting ++ [⟨cfg.link i, i⟩] } := by
  have hle := h.leftLe
  have hlen := h.acceptedLe
  let x : Drawn := ⟨cfg.link i, i⟩
  have hperm : (s.waiting ++ [x] ++ held s ++ s.wire.map Prod.snd).Perm (x :: live s) := by
    simp only [live, List.append_assoc]
    exact List.perm_middle
  have hfresh : ∀ j ∈ (live s).map Drawn.index, i < j := by
    intro j hj
    obtain ⟨x, hx, rfl⟩ := List.mem_map.mp hj
    have := (h.drawn x hx).2.1
    omega
  refine { h with established := he, chain := hhas, drawn := ?_, once := ?_, stored := ?_, leftLe := ?_ }
  · intro x hx
    rcases List.mem_cons.mp (hperm.mem_iff.mp hx) with rfl | hx
    · exact ⟨rfl, le_rfl, by show i < cfg.len; omega⟩
    · obtain ⟨htok, hge, hlt⟩ := h.drawn x hx
      exact ⟨htok, by show i ≤ x.index; omega, hlt⟩
  · refine (hperm.map Drawn.index).nodup_iff.mpr (List.nodup_cons.mpr ⟨fun hi => ?_, h.once⟩)
    exact absurd (hfresh i hi) (Nat.lt_irrefl i)
  · intro hx
    rcases List.mem_cons.mp ((hperm.map Drawn.index).mem_iff.mp hx) with heq | hx
    · have : s.accepted = i := heq
      omega
    · exact h.stored hx
  · show i ≤ s.accepted
    omega

theorem Books.accepted {cli : ServingClient} {server : Server} {responses : List Nat}
    (h : Books cfg s) (hx : s.wire[i]? = some (conn, x)) (hv : verdict cfg s conn x = (.ok cli, server)) :
    Books cfg { s with wire := s.wire.eraseIdx i, server, responses, accepted := x.index } := by
  obtain ⟨old, hold, hid, hprin, htok⟩ := h.session
  -- the rest of the live links, with `x` taken out
  have hperm : (live s).Perm (x :: (s.waiting ++ held s ++ (s.wire.eraseIdx i).map Prod.snd)) :=
    (((perm_cons_eraseIdx hx).map Prod.snd).append_left _).trans List.perm_middle
  have hsub : (s.waiting ++ held s ++ (s.wire.eraseIdx i).map Prod.snd).Subperm (live s) :=
    hperm.symm.subperm_left.mp .cons_self
  obtain ⟨hdrawn, honce, -⟩ := h.fewer hsub
  obtain ⟨hxt, hxl, hxlen⟩ := h.drawn x (hperm.mem_iff.mpr List.mem_cons_self)
  have hnew : x.index ∉ (s.waiting ++ held s ++ (s.wire.eraseIdx i).map Prod.snd).map Drawn.index :=
    (List.nodup_cons.mp ((hperm.map Drawn.index).nodup_iff.mp h.once)).1
  obtain ⟨hmap, hcp, -, hcid, -⟩ := Server.accepted_session hv
  have hcid : cli.clientId = cfg.clientId := hcid fun existing hex => by
    rw [hold] at hex
    cases hex
    exact hid
  have hctok : cli.resumeToken = x.token := Server.accepted_token hv hxt fun existing hex => by
    rw [hold] at hex
    cases hex
    exact ⟨_, htok⟩
  exact { h with
    drawn := hdrawn, once := honce, stored := hnew, leftLe := hxl, acceptedLe := hxlen.le
    session := ⟨cli, hmap, hcid, hcp, hctok.trans hxt⟩ }

theorem books_move (h : Books cfg s) (hm : Moves cfg s e t) : Books cfg t := by
  cases hm with
  | quiet _ _ => exact { h with }
  | exhausted client _ he hhas => exact { h with established := he, chain := hhas }
  | drew client _ i hl he hhas => exact h.drew hl he hhas
  | @locked i x hh hx =>
    have hperm : (s.waiting.eraseIdx i ++ [x] ++ s.wire.map Prod.snd).Perm (live s) := by
      have hnone : held s = [] := by rw [held, hh]; rfl
      rw [live, hnone, List.append_nil]
      exact (List.perm_append_singleton x _ |>.trans (perm_cons_eraseIdx hx).symm).append_right _
    obtain ⟨hd, ho, hst⟩ := h.fewer hperm.subperm
    exact { h with drawn := hd, once := ho, stored := hst }
  | @dialing x hh =>
    have hsame : s.waiting ++ [x] ++ s.wire.map Prod.snd = live s := by
      have hx : held s = [x] := by rw [held, hh]; rfl
      rw [live, hx]
    obtain ⟨hd, ho, hst⟩ := h.fewer (l := s.waiting ++ [x] ++ s.wire.map Prod.snd) (hsame ▸ .refl _)
    exact { h with drawn := hd, once := ho, stored := hst }
  | @released _ k _ hh =>
    have hsub : (s.waiting ++ [] ++ s.wire.map Prod.snd).Sublist (live s) :=
      ((List.Sublist.refl _).append (List.nil_sublist _)).append (List.Sublist.refl _)
    obtain ⟨hd, ho, hst⟩ := h.fewer hsub.subperm
    exact { h with drawn := hd, once := ho, stored := hst }
  | @wrote x hh =>
    have hperm : (s.waiting ++ [] ++ (s.wire ++ [(s.conns, x)]).map Prod.snd).Perm (live s) := by
      have hx : held s = [x] := by rw [held, hh]; rfl
      rw [live, hx, List.map_append, List.append_nil, List.append_assoc]
      exact List.perm_append_comm.append_left _
    obtain ⟨hd, ho, hst⟩ := h.fewer hperm.subperm
    exact { h with drawn := hd, once := ho, stored := hst }
  | @gone _ i _ =>
    have hsub : (s.waiting ++ held s ++ (s.wire.eraseIdx i).map Prod.snd).Sublist (live s) :=
      (List.Sublist.refl _).append ((List.eraseIdx_sublist s.wire i).map _)
    obtain ⟨hd, ho, hst⟩ := h.fewer hsub.subperm
    exact { h with drawn := hd, once := ho, stored := hst }
  | accepted _ hx hv => exact h.accepted hx hv

theorem reach_books {ok : St → Ev → Prop} (h : (sys cfg).Reach ok s) : Books cfg s := by
  refine Sys.Reach.inv (P := Books cfg) (fun s hs => ?_) (fun s e t hb _ hs => ?_) h
  · cases hs
    exact books_start
  · exact books_move hb (step_moves hb.toChained hs)

/-! ## Links that are never sent -/

/-- Links between `i` and the stored one whose handshake was written. -/
def lost (s : St) (i : Nat) : Nat := ((Finset.Ioo i s.accepted).filter (· ∈ s.written)).card

/-- Links between `i` and the stored one that no handshake carried: the dial failed, or a
    connection was there already. -/
def unsent (s : St) (i : Nat) : Nat := ((Finset.Ioo i s.accepted).filter (· ∉ s.written)).card

theorem lost_add_unsent (s : St) (i : Nat) : lost s i + unsent s i = s.accepted - i - 1 := by
  rw [lost, unsent, Finset.card_filter_add_card_filter_not, Nat.card_Ioo]

/-- The link at `i` is behind the stored one, by at most the window. -/
theorem Books.accepts (h : Books cfg s) (conn : Nat) (hx : x ∈ live s) (hlt : x.index < s.accepted)
    (hw : s.accepted ≤ x.index + defaultResyncWindow.toNat) : ∃ cli, (verdict cfg s conn x).1 = .ok cli := by
  obtain ⟨old, hold, -, hprin, htok⟩ := h.session
  have hauth : old.authorizeResume cfg.hash x.token = .ok { old with resumeToken := x.token } :=
    ServingClient.authorizeResume_chain htok (h.drawn x hx).1 hlt.le hw
  have hres := Server.resume_ok conn hold hauth
  rw [hprin] at hres
  exact ⟨_, congrArg Prod.fst hres⟩

/-- Otherwise it is rejected: it is another link than the stored one. -/
theorem Books.rejects (h : Books cfg s) (conn : Nat) (hx : x ∈ live s)
    (hnc : cfg.hash^[cfg.len] cfg.seed ∉ periodicPts cfg.hash)
    (hw : s.accepted < x.index ∨ x.index + defaultResyncWindow.toNat < s.accepted) :
    (verdict cfg s conn x).1 = .error (.token cfg.clientId) := by
  obtain ⟨old, hold, hid, hprin, htok⟩ := h.session
  obtain ⟨hxt, -, hxlen⟩ := h.drawn x hx
  have hauth : old.authorizeResume cfg.hash x.token = .error (.token old.clientId) := by
    rcases hw with hahead | hgap
    · have hlead : Orbit.Leads cfg.hash (cfg.hash^[s.accepted] cfg.seed) (cfg.hash^[cfg.len] cfg.seed) :=
        ⟨cfg.len - s.accepted, by rw [← iterate_add_apply, Nat.sub_add_cancel h.acceptedLe]⟩
      refine ServingClient.authorizeResume_ahead (k := x.index - s.accepted)
        (by rw [htok, Cfg.link, decodeLink_encode])
        (hlead.notPeriodic hnc) (by omega) ?_
      rw [hxt, Cfg.link, decodeLink_encode, ← iterate_add_apply, Nat.sub_add_cancel hahead.le]
    · exact ServingClient.authorizeResume_gap hnc h.acceptedLe htok hxt hgap
  have hres := Server.resume_rejected conn hold hauth
  rw [hprin, hid] at hres
  exact congrArg Prod.fst hres

theorem accepted_iff_unsent_counted (cfg : Cfg) (hnc : cfg.hash^[cfg.len] cfg.seed ∉ periodicPts cfg.hash)
    (hr : (sys cfg).Reach Sys.any s) (hx : (conn, x) ∈ s.wire) :
    (∃ cli, (verdict cfg s conn x).1 = .ok cli) ↔
      x.index < s.accepted ∧ lost s x.index + unsent s x.index < defaultResyncWindow.toNat := by
  have hb := reach_books hr
  have hlive : x ∈ live s := List.mem_append_right _ (List.mem_map_of_mem hx)
  have hne : s.accepted ≠ x.index := fun heq => hb.stored (heq ▸ List.mem_map_of_mem hlive)
  rw [lost_add_unsent]
  constructor
  · rintro ⟨cli, hok⟩
    by_contra hnot
    have hrej := hb.rejects conn hlive hnc (by omega)
    rw [hrej] at hok
    cases hok
  · rintro ⟨hlt, hgap⟩
    exact hb.accepts conn hlive hlt (by omega)

def dialFailedOnce : List Ev :=
  [.reset, .call, .draw, .lock 0, .look, .dialFails, .call, .draw, .lock 0, .look, .dial]

theorem accepted_after_failed_dial : ∃ s, (sys SelfHeal.short).Reach Sys.any s ∧
    s.wire = [(1, ⟨(numbered 1).encode, 1⟩)] ∧ unsent s 1 = 1 ∧
    ∃ cli, (verdict SelfHeal.short s 1 ⟨(numbered 1).encode, 1⟩).1 = .ok cli := by
  obtain ⟨s, hr, hwire, hunsent, hgap⟩ :=
    Sys.reach_of_exec (sys SelfHeal.short) Sys.any (start SelfHeal.short) rfl dialFailedOnce
    (P := fun s => s.wire = [(1, ⟨(numbered 1).encode, 1⟩)] ∧ unsent s 1 = 1 ∧ 1 < s.accepted ∧
      lost s 1 + unsent s 1 < defaultResyncWindow.toNat) (by decide +kernel)
  have hnc : SelfHeal.short.hash^[SelfHeal.short.len] SelfHeal.short.seed ∉ periodicPts SelfHeal.short.hash := by
    have hanchor : SelfHeal.short.hash^[SelfHeal.short.len] SelfHeal.short.seed = numbered 3 := by decide +kernel
    rw [hanchor]
    exact tick_notPeriodic (by decide)
  exact ⟨s, hr, hwire, hunsent, (accepted_iff_unsent_counted SelfHeal.short hnc hr
    (x := ⟨(numbered 1).encode, 1⟩) (by simp [hwire])).mpr hgap⟩

/-- No connector is under way and no connection is installed. -/
structure Idle (s : St) : Prop where
  looked : s.looked = 0
  waiting : s.waiting = []
  holder : s.holder = none
  conn : s.conn = none
  wire : s.wire = []

/-- A connector on its own gets to its dial, one link drawn. -/
theorem reach_dialing (hr : (sys cfg).Reach Sys.any s) (hi : Idle s) (hl : s.left = i + 1) :
    ∃ client, (sys cfg).Reach Sys.any { s with client, left := i, holder := some (.dialing ⟨cfg.link i, i⟩) } := by
  have hb := reach_books hr
  have hchain := hb.chain
  rw [hl] at hchain
  obtain ⟨client, hct, -, -⟩ := RpcClient.handshakeToken_next hb.established hchain
  refine ⟨client, ?_⟩
  have hlooked : (sys cfg).Reach Sys.any { s with looked := 1 } :=
    hr.step (e := .call) trivial (by simp [sys, step, hi.conn, hi.looked])
  have hdrawn : (sys cfg).Reach Sys.any { s with client, left := i, waiting := [⟨cfg.link i, i⟩] } := by
    refine hlooked.step (e := .draw) trivial ?_
    simp [sys, step, hct, hl, hi.waiting, hi.looked, Cfg.link]
  have hlocked : (sys cfg).Reach Sys.any { s with client, left := i, holder := some (.locked ⟨cfg.link i, i⟩) } := by
    refine hdrawn.step (e := .lock 0) trivial ?_
    simp [sys, step, hi.holder, hi.waiting]
  refine hlocked.step (e := .look) trivial ?_
  simp [sys, step, hi.conn]

/-- Any number of dials may fail, up to the chain's length; each costs a link. -/
theorem reach_failed_dials (cfg : Cfg) (k : Nat) (hk : k ≤ cfg.len) :
    ∃ s, (sys cfg).Reach Sys.any s ∧ Idle s ∧
    s.left = cfg.len - k ∧ s.written = [] ∧ s.accepted = cfg.len := by
  induction k with
  | zero =>
    have hr : (sys cfg).Reach Sys.any { start cfg with conn := none } :=
      Sys.Reach.step (e := .reset) (Sys.Reach.init rfl) trivial rfl
    exact ⟨_, hr, ⟨rfl, rfl, rfl, rfl, rfl⟩, rfl, rfl, rfl⟩
  | succ k ih =>
    obtain ⟨s, hr, hi, hl, hw, ha⟩ := ih (by omega)
    obtain ⟨client, hd⟩ := reach_dialing hr hi (i := cfg.len - (k + 1)) (by omega)
    have hfailed : (sys cfg).Reach Sys.any { s with client, left := cfg.len - (k + 1), holder := none } :=
      hd.step (e := .dialFails) trivial rfl
    exact ⟨_, hfailed, ⟨hi.looked, hi.waiting, rfl, hi.conn, hi.wire⟩, rfl, hw, ha⟩

def standard : Cfg := ⟨tick, numbered 0, defaultHashChainLen, 7, []⟩

/-- 1024 dials fail; the next handshake is the first and only one ever written, reaches
    the server that holds the session, and is rejected. -/
theorem session_lost_to_failed_dials : ∃ s conn x, (sys standard).Reach Sys.any s ∧ (conn, x) ∈ s.wire ∧
    s.written = [x.index] ∧ (s.server.clientMap standard.clientId).isSome = true ∧
    (verdict standard s conn x).1 = .error (.token standard.clientId) := by
  have hlen : standard.len = 10000 := rfl
  obtain ⟨s, hr, hi, hl, hw, ha⟩ := reach_failed_dials standard 1024 (by rw [hlen]; decide)
  obtain ⟨client, hd⟩ := reach_dialing hr hi (i := 8975) (by rw [hl, hlen])
  have hwrote := hd.step (e := .dial) trivial rfl
  have hb := reach_books hwrote
  obtain ⟨cli, hcli, -⟩ := hb.session
  have hnc : standard.hash^[standard.len] standard.seed ∉ periodicPts standard.hash := by
    have hanchor : tick^[10000] (numbered 0) = numbered 10000 := tick_iterate_numbered (by decide)
    show tick^[10000] (numbered 0) ∉ periodicPts tick
    rw [hanchor]
    refine tick_notPeriodic ?_
    rw [number_numbered (by decide)]
    decide
  refine ⟨_, s.conns, ⟨standard.link 8975, 8975⟩, hwrote, ?_, ?_, by rw [hcli]; rfl, ?_⟩
  · simp
  · simp [hw]
  · refine hb.rejects s.conns ?_ hnc (.inr ?_)
    · simp [live]
    · show 8975 + 1024 < s.accepted
      rw [ha, hlen]
      decide

/-! ## Locked in the order drawn -/

/-- Written, held and waiting links, in that order. -/
def line (s : St) : List Nat := s.written ++ (held s ++ s.waiting).map Drawn.index

structure Line (cfg : Cfg) (s : St) : Prop where
  order : (line s).Pairwise (· > ·)
  bounds : ∀ i ∈ line s, s.left ≤ i ∧ i < cfg.len
  wire : ∀ y ∈ s.wire, y.2.index ∈ s.written
  accepted : s.accepted = cfg.len ∨ s.accepted ∈ s.written
  awaited : ∀ x conn, s.holder = some (.awaiting x conn) → s.written.getLast? = some x.index

theorem line_start : Line cfg (start cfg) where
  order := .nil
  bounds := fun _ hi => absurd hi List.not_mem_nil
  wire := fun _ hy => absurd hy List.not_mem_nil
  accepted := .inl rfl
  awaited := nofun

theorem Line.drew {client : RpcClient} {looked : Nat} (h : Line cfg s) (hb : Books cfg s)
    (hl : s.left = i + 1) :
    Line cfg { s with client, looked, left := i, waiting := s.waiting ++ [⟨cfg.link i, i⟩] } := by
  let x : Drawn := ⟨cfg.link i, i⟩
  have hnew : line s ++ [i] = s.written ++ (held s ++ (s.waiting ++ [x])).map Drawn.index := by simp [line, x]
  have hlow : ∀ j ∈ line s, i < j := fun j hj => by have := (h.bounds j hj).1; omega
  have hi : i < cfg.len := by
    have := hb.leftLe
    have := hb.acceptedLe
    omega
  have horder : (line s ++ [i]).Pairwise (· > ·) := by
    refine List.pairwise_append.mpr ⟨h.order, List.pairwise_singleton _ _, fun j hj k hk => ?_⟩
    rw [List.mem_singleton.mp hk]
    exact hlow j hj
  refine { h with order := ?_, bounds := fun j hj => ?_ }
  · rw [hnew] at horder
    exact horder
  · have hj : j ∈ line s ++ [i] := hnew ▸ hj
    rcases List.mem_append.mp hj with hj | hj
    · exact ⟨(hlow j hj).le, (h.bounds j hj).2⟩
    · rw [List.mem_singleton.mp hj]
      exact ⟨le_rfl, hi⟩

theorem line_move (h : Line cfg s) (hb : Books cfg s) (ho : locksInOrder e) (hm : Moves cfg s e t) :
    Line cfg t := by
  cases hm with
  | quiet _ _ => exact { h with }
  | exhausted _ _ _ _ => exact { h with }
  | drew _ _ i hl _ _ => exact h.drew hb hl
  | @locked i x hh hx =>
    obtain rfl : i = 0 := ho
    have hsame : s.written ++ ([x] ++ s.waiting.eraseIdx 0).map Drawn.index = line s := by
      have hnone : held s = [] := by rw [held, hh]; rfl
      cases hw : s.waiting with
      | nil => rw [hw] at hx; cases hx
      | cons y rest =>
        rw [hw] at hx
        cases hx
        simp [line, hnone, hw]
    have horder := h.order
    rw [← hsame] at horder
    exact { h with
      order := horder
      bounds := fun j hj => h.bounds j (hsame ▸ hj)
      awaited := fun x conn hh => by cases hh }
  | @dialing x hh =>
    have hsame : s.written ++ ([x] ++ s.waiting).map Drawn.index = line s := by
      have hx : held s = [x] := by rw [held, hh]; rfl
      rw [line, hx]
    have horder := h.order
    rw [← hsame] at horder
    exact { h with
      order := horder
      bounds := fun j hj => h.bounds j (hsame ▸ hj)
      awaited := fun x conn hh => by cases hh }
  | @released _ k _ hh =>
    have hsub : (s.written ++ ([] ++ s.waiting).map Drawn.index).Sublist (line s) :=
      (List.Sublist.refl _).append (((List.nil_sublist _).append (List.Sublist.refl _)).map _)
    exact { h with
      order := h.order.sublist hsub, bounds := fun j hj => h.bounds j (hsub.subset hj)
      awaited := fun x conn hh => by cases hh }
  | @wrote x hh =>
    have hsame : s.written ++ [x.index] ++ ([] ++ s.waiting).map Drawn.index = line s := by
      have hx : held s = [x] := by rw [held, hh]; rfl
      simp [line, hx]
    have horder := h.order
    rw [← hsame] at horder
    refine ⟨horder, fun j hj => h.bounds j (hsame ▸ hj), ?_, ?_, ?_⟩
    · intro y hy
      rcases List.mem_append.mp hy with hy | hy
      · exact List.mem_append_left _ (h.wire y hy)
      · rw [List.mem_singleton.mp hy]
        exact List.mem_append_right _ (List.mem_singleton.mpr rfl)
    · exact h.accepted.imp_right (List.mem_append_left _)
    · intro y conn hy
      cases hy
      exact List.getLast?_concat
  | @gone _ i _ => exact { h with wire := fun y hy => h.wire y ((List.eraseIdx_sublist s.wire i).subset hy) }
  | @accepted i conn x cli server _ hx _ =>
    exact { h with
      wire := fun y hy => h.wire y ((List.eraseIdx_sublist s.wire i).subset hy)
      accepted := .inr (h.wire (conn, x) (List.mem_of_getElem? hx)) }

theorem reach_line (h : (sys cfg).Reach (fun _ => locksInOrder) s) : Line cfg s := by
  refine (Sys.Reach.inv (P := fun s => Books cfg s ∧ Line cfg s) (fun s hs => ?_) (fun s e t hi ho hs => ?_) h).2
  · cases hs
    exact ⟨books_start, line_start⟩
  · have hm := step_moves hi.1.toChained hs
    exact ⟨books_move hi.1 hm, line_move hi.2 hi.1 ho hm⟩

/-- A live link below every other one written is behind the stored one. -/
theorem Line.behind (h : Line cfg s) (hb : Books cfg s) (hx : x ∈ live s)
    (hlow : ∀ j ∈ s.written, j ≠ x.index → x.index < j) : x.index < s.accepted := by
  rcases h.accepted with heq | hmem
  · rw [heq]
    exact (hb.drawn x hx).2.2
  · exact hlow _ hmem fun heq => hb.stored (heq ▸ List.mem_map_of_mem hx)

/-- The handshake a connector waits for is the last one written. -/
theorem Line.awaited_lowest (h : Line cfg s)
    (hh : s.holder = some (.awaiting x conn)) : ∀ j ∈ s.written, j ≠ x.index → x.index < j := by
  intro j hj hne
  have horder : s.written.Pairwise (· > ·) := (List.pairwise_append.mp h.order).1
  obtain ⟨earlier, hlast⟩ := List.getLast?_eq_some_iff.mp (h.awaited x conn hh)
  rw [hlast] at horder hj
  rcases List.mem_append.mp hj with hj | hj
  · exact (List.pairwise_append.mp horder).2.2 j hj x.index (List.mem_singleton.mpr rfl)
  · exact absurd (List.mem_singleton.mp hj) hne

/-- Read in the order written: what is on the wire is behind the stored link, in order. -/
structure Queue (s : St) : Prop where
  order : (s.wire.map fun y => y.2.index).Pairwise (· > ·)
  behind : ∀ y ∈ s.wire, y.2.index < s.accepted

theorem queue_move (h : Queue s) (hb : Books cfg s) (hl : Line cfg s) (ho : inOrder e)
    (hm : Moves cfg s e t) : Queue t := by
  cases hm with
  | quiet _ _ | exhausted _ _ _ _ | drew _ _ _ _ _ _ | locked _ _ | dialing _ | released _ _ =>
    exact ⟨h.order, h.behind⟩
  | @wrote x hh =>
    have hheld : held s = [x] := by rw [held, hh]; rfl
    have hlow : ∀ j ∈ s.written, x.index < j := fun j hj =>
      (List.pairwise_append.mp hl.order).2.2 j hj x.index (by simp [hheld])
    have hx : x.index < s.accepted := hl.behind hb (by simp [live, hheld]) fun j hj _ => hlow j hj
    constructor
    · rw [List.map_append]
      refine List.pairwise_append.mpr ⟨h.order, List.pairwise_singleton _ _, fun j hj k hk => ?_⟩
      obtain ⟨y, hy, rfl⟩ := List.mem_map.mp hj
      rw [List.mem_singleton.mp hk]
      exact hlow _ (hl.wire y hy)
    · intro y hy
      rcases List.mem_append.mp hy with hy | hy
      · exact h.behind y hy
      · rw [List.mem_singleton.mp hy]
        exact hx
  | @gone _ i _ =>
    have hsub := List.eraseIdx_sublist s.wire i
    exact ⟨h.order.sublist (hsub.map _), fun y hy => h.behind y (hsub.subset hy)⟩
  | @accepted i conn x cli server _ hx _ =>
    obtain rfl : i = 0 := ho
    have horder := h.order
    cases hw : s.wire with
    | nil => rw [hw] at hx; cases hx
    | cons y rest =>
      rw [hw] at hx horder
      cases hx
      obtain ⟨hhead, hrest⟩ := List.pairwise_cons.mp horder
      exact ⟨hrest, fun z hz => hhead _ (List.mem_map_of_mem hz)⟩

theorem reach_queue (h : (sys cfg).Reach (fun _ => inOrder) s) : Queue s := by
  refine (Sys.Reach.inv (P := fun s => Books cfg s ∧ Line cfg s ∧ Queue s) (fun s hs => ?_)
    (fun s e t hi ho hs => ?_) h).2.2
  · cases hs
    exact ⟨books_start, line_start, .nil, fun _ hy => absurd hy List.not_mem_nil⟩
  · obtain ⟨hb, hl, hq⟩ := hi
    have hm := step_moves hb.toChained hs
    exact ⟨books_move hb hm, line_move hl hb (locksInOrder_of_inOrder ho) hm, queue_move hq hb hl ho hm⟩

/-- With `connecting` given in the order drawn, handshakes are written in chain order, and
    one whose connector still waits is never rejected because a later link was accepted:
    the stored link is an earlier one, and within the window it is accepted. With the
    server reading in the order written, so it is for every handshake. -/
theorem written_in_chain_order (cfg : Cfg) :
    ((sys cfg).Reach (fun _ => locksInOrder) s → s.written.Pairwise (· > ·) ∧
      ∀ x conn, s.holder = some (.awaiting x conn) → (conn, x) ∈ s.wire → x.index < s.accepted ∧
        (s.accepted ≤ x.index + defaultResyncWindow.toNat → ∃ cli, (verdict cfg s conn x).1 = .ok cli)) ∧
    ((sys cfg).Reach (fun _ => inOrder) s →
      ∀ x conn, (conn, x) ∈ s.wire → x.index < s.accepted ∧
        (s.accepted ≤ x.index + defaultResyncWindow.toNat → ∃ cli, (verdict cfg s conn x).1 = .ok cli)) := by
  have hlive : ∀ {x : Drawn} {conn : Nat}, (conn, x) ∈ s.wire → x ∈ live s :=
    fun hx => List.mem_append_right _ (List.mem_map_of_mem hx)
  constructor
  · intro hr
    have hb := reach_books hr
    have hl := reach_line hr
    refine ⟨(List.pairwise_append.mp hl.order).1, fun x conn hh hx => ?_⟩
    have hlt := hl.behind hb (hlive hx) (hl.awaited_lowest hh)
    exact ⟨hlt, hb.accepts conn (hlive hx) hlt⟩
  · intro hr x conn hx
    have hlt := (reach_queue hr).behind (conn, x) hx
    exact ⟨hlt, (reach_books hr).accepts conn (hlive hx) hlt⟩

def twoConnectors (first second : Nat) : List Ev :=
  [.reset, .call, .call, .draw, .draw, .lock first, .look, .dial, .read 0, .giveUp, .lock second, .look, .dial]

theorem written_in_chain_order_two : ∃ s, s.written = [2, 1] ∧ s.accepted = 2 ∧
    ∃ cli, (verdict SelfHeal.short s 2 ⟨(numbered 1).encode, 1⟩).1 = .ok cli := by
  obtain ⟨s, hr, hwritten, hacc, hwire, hgap⟩ :=
    Sys.reach_of_exec (sys SelfHeal.short) (fun _ => inOrder) (start SelfHeal.short)
    rfl (twoConnectors 0 0) (P := fun s => s.written = [2, 1] ∧ s.accepted = 2 ∧
      (2, ⟨(numbered 1).encode, 1⟩) ∈ s.wire ∧
      s.accepted ≤ 1 + defaultResyncWindow.toNat) (by decide +kernel)
  exact ⟨s, hwritten, hacc, ((written_in_chain_order SelfHeal.short).2 hr ⟨(numbered 1).encode, 1⟩ 2 hwire).2 hgap⟩

/-- The connector that drew second is locked first: its link is accepted, and then the
    link drawn first is written and rejected. -/
theorem written_out_of_order :
    ∃ s, (sys SelfHeal.short).Reach Sys.any s ∧ s.written = [1, 2] ∧ s.accepted = 1 ∧
    s.wire = [(2, ⟨(numbered 2).encode, 2⟩)] ∧
    (verdict SelfHeal.short s 2 ⟨(numbered 2).encode, 2⟩).1 = .error (.token 7) := by
  refine Sys.reach_of_exec (sys SelfHeal.short) Sys.any (start SelfHeal.short) rfl (twoConnectors 1 0) ?_
  decide +kernel

end ValueRpc.Session.Connect
