/-
  ValueRpc.Session.Resume — one session's stored link against whatever is presented to it
  (`valueserver/serving_client.go`: `NewServingClient`, `authorizeResume`; the `resume`
  closure of `valueserver/server.go`, `createOrUpdateServingClient`).

  A session holds the last link it accepted, as the string that was presented; a first
  connect records its token unchecked, so the anchor may be malformed. `authorizeResume`
  accepts a link that hashes forward to the stored one within the window, and stores it;
  or one that decodes to the stored link, and stores nothing. It runs under the session's
  lock, so a session sees its presentations one after another. Anyone may present
  anything: an event is any string.

  - `authorizeResume_ok`: what an accepted presentation is.
  - `chain_never_moves_back`: every value ever stored hashes forward to every value stored
    before it, and whatever is ahead of the stored value on its orbit is rejected.
  - `link_stored_once`: no link is stored twice, and a link accepted before is accepted
    again only while it is the stored one, without effect, and never once another is stored.
  - `current_link_replayed`: so the stored link can be presented again, by anyone.
-/

import ValueRpc.Core.HashChain
import ValueRpc.Lib.Runs

namespace ValueRpc.Session

open Function ValueRpc.Core ValueRpc.Lib

/-- What a handshake reads and writes of a `servingClient`. -/
structure ServingClient where
  clientId : Int
  resumeToken : Bytes
  principal : Bytes
  activeConn : Nat
  deriving DecidableEq

inductive Mismatch
  | principal (clientId : Int)
  | token (clientId : Int)
  deriving DecidableEq

def Mismatch.text : Mismatch → String
  | principal clientId => s!"handshake rejected: principal mismatch for client {clientId}"
  | token clientId => s!"handshake rejected: resumption token mismatch for client {clientId}"

namespace ServingClient

variable (hash : Link → Link)

/-- `authorizeResume`: the session it leaves, or its error. -/
def authorizeResume (t : ServingClient) (presented : Bytes) : Except Mismatch ServingClient :=
  if (verifyHashStep hash presented t.resumeToken defaultResyncWindow).isSome then
    .ok { t with resumeToken := presented }
  else if sameToken presented t.resumeToken then .ok t
  else .error (.token t.clientId)

variable {hash} {t u : ServingClient} {p : Bytes}

/-- An accepted presentation decodes, as the stored value does, and either hashes forward
    to it, within the window, or is it. -/
theorem authorizeResume_ok (h : t.authorizeResume hash p = .ok u) :
    ∃ l cur, decodeLink p = some l ∧ decodeLink t.resumeToken = some cur ∧
      ((∃ k, 1 ≤ k ∧ k ≤ defaultResyncWindow.toNat ∧ hash^[k] l = cur ∧ u = { t with resumeToken := p }) ∨
        (l = cur ∧ u = t)) := by
  simp only [authorizeResume] at h
  split at h
  · rename_i hv
    obtain ⟨k, hk⟩ := Option.isSome_iff_exists.mp hv
    obtain ⟨l, cur, hl, hc, hs⟩ := verifyHashStep_some.mp hk
    obtain ⟨h1, hw, hit, -⟩ := Orbit.search_eq_some.mp hs
    cases h
    exact ⟨l, cur, hl, hc, .inl ⟨k, h1, hw, hit, rfl⟩⟩
  · split at h
    · rename_i hs
      obtain ⟨l, hl, hc⟩ := sameToken_iff.mp hs
      cases h
      exact ⟨l, l, hl, hc, .inr ⟨rfl, rfl⟩⟩
    · cases h

theorem authorizeResume_error {e : Mismatch} (h : t.authorizeResume hash p = .error e) :
    e = .token t.clientId := by
  simp only [authorizeResume] at h
  split at h
  · cases h
  · split at h
    · cases h
    · cases h
      rfl

/-- A link some steps ahead of the stored one is rejected, where the stored one is on no
    cycle. -/
theorem authorizeResume_ahead {cur : Link} {k : Nat} (hcur : decodeLink t.resumeToken = some cur)
    (hnc : cur ∉ periodicPts hash) (hk : 0 < k) (hp : decodeLink p = some (hash^[k] cur)) :
    t.authorizeResume hash p = .error (.token t.clientId) := by
  cases hr : t.authorizeResume hash p with
  | error e => rw [authorizeResume_error hr]
  | ok u =>
    obtain ⟨l, cur', hl, hc, hcase⟩ := authorizeResume_ok hr
    obtain rfl : cur = cur' := by rw [hcur] at hc; exact Option.some.inj hc
    obtain rfl : hash^[k] cur = l := by rw [hp] at hl; exact Option.some.inj hl
    rcases hcase with ⟨j, -, -, hit, -⟩ | ⟨heq, -⟩
    · rw [← iterate_add_apply] at hit
      exact absurd hit (Orbit.iterate_ne hnc (by omega))
    · exact absurd heq (Orbit.iterate_ne hnc hk)

/-! ### Links of one chain -/

section Chain

variable {seed : Link} {i m : Nat}

/-- A link up to a window behind the stored one is accepted and stored; so is the stored
    one. -/
theorem authorizeResume_chain (ht : t.resumeToken = (hash^[m] seed).encode) (hp : p = (hash^[i] seed).encode)
    (him : i ≤ m) (hw : m ≤ i + defaultResyncWindow.toNat) :
    t.authorizeResume hash p = .ok { t with resumeToken := p } := by
  subst hp
  simp only [authorizeResume, ht, verifyHashStep_encode]
  rcases Nat.eq_or_lt_of_le him with rfl | hlt
  · have hsame : sameToken (hash^[i] seed).encode (hash^[i] seed).encode = true :=
      sameToken_iff.mpr ⟨_, decodeLink_encode _, decodeLink_encode _⟩
    rw [hsame, ← ht]
    split <;> rfl
  · have hfound : (Orbit.search hash (hash^[m] seed) defaultResyncWindow.toNat 1 (hash^[i] seed)).isSome = true := by
      refine Orbit.search_isSome.mpr ⟨m - i, by omega, by omega, ?_⟩
      rw [← iterate_add_apply, Nat.sub_add_cancel him]
    rw [if_pos hfound]

/-- The steps reported are the distance, where the anchor is on no cycle. -/
theorem verifyHashStep_chain {n k : Nat} (hnc : hash^[n] seed ∉ periodicPts hash) (hm : m ≤ n) :
    verifyHashStep hash (hash^[i] seed).encode (hash^[m] seed).encode defaultResyncWindow = some k ↔
      m = i + k ∧ 1 ≤ k ∧ k ≤ defaultResyncWindow.toNat := by
  rw [verifyHashStep_encode]
  exact Orbit.search_iterate hnc hm

/-- A link more than a window behind the stored one is rejected. -/
theorem authorizeResume_gap {n : Nat} (hnc : hash^[n] seed ∉ periodicPts hash) (hm : m ≤ n)
    (ht : t.resumeToken = (hash^[m] seed).encode) (hp : p = (hash^[i] seed).encode)
    (hw : i + defaultResyncWindow.toNat < m) : t.authorizeResume hash p = .error (.token t.clientId) := by
  have hmiss : verifyHashStep hash p t.resumeToken defaultResyncWindow = none := by
    rw [hp, ht, Option.eq_none_iff_forall_ne_some]
    intro k hk
    obtain ⟨rfl, -, hle⟩ := (verifyHashStep_chain hnc hm).mp hk
    omega
  have hdiff : sameToken p t.resumeToken = false := by
    rw [Bool.eq_false_iff, Ne, sameToken_iff, hp, ht]
    rintro ⟨l, hi, hm'⟩
    rw [decodeLink_encode] at hi hm'
    have heq : i = m := Orbit.iterate_inj hnc (by omega) hm ((Option.some.inj hi).trans (Option.some.inj hm').symm)
    omega
  simp [authorizeResume, hmiss, hdiff]

end Chain

end ServingClient

/-! ## Runs of presentations -/

structure St where
  client : ServingClient
  /-- Ghost: the values stored in `resumeToken`, the anchor first. -/
  stored : List Bytes
  /-- Ghost: the values `authorizeResume` accepted, in order. -/
  accepted : List Bytes

def start (client : ServingClient) : St := ⟨client, [client.resumeToken], []⟩

variable (hash : Link → Link)

def present (s : St) (p : Bytes) : St :=
  match s.client.authorizeResume hash p with
  | .error _ => s
  | .ok client =>
    { client
      stored :=
        if (verifyHashStep hash p s.client.resumeToken defaultResyncWindow).isSome then s.stored ++ [p] else s.stored
      accepted := s.accepted ++ [p] }

def sys (client : ServingClient) : Sys St Bytes := ⟨fun s => s = start client, fun s p => some (present hash s p)⟩

variable {hash}

inductive Presents (hash : Link → Link) (s : St) (p : Bytes) : St → Prop
  | rejected : s.client.authorizeResume hash p = .error (.token s.client.clientId) → Presents hash s p s
  | advanced {l cur : Link} {k : Nat} : decodeLink p = some l → decodeLink s.client.resumeToken = some cur →
      0 < k → hash^[k] l = cur →
      Presents hash s p ⟨{ s.client with resumeToken := p }, s.stored ++ [p], s.accepted ++ [p]⟩
  | repeated {l : Link} : decodeLink p = some l → decodeLink s.client.resumeToken = some l →
      Presents hash s p { s with accepted := s.accepted ++ [p] }

theorem present_cases (s : St) (p : Bytes) : Presents hash s p (present hash s p) := by
  simp only [present, ServingClient.authorizeResume]
  split
  · rename_i h
    split at h
    · cases h
    · split at h
      · cases h
      · rename_i hv hs
        refine .rejected ?_
        simp only [ServingClient.authorizeResume, hv, hs]
        rfl
  · rename_i u h
    split at h
    · rename_i hv
      obtain ⟨k, hk⟩ := Option.isSome_iff_exists.mp hv
      obtain ⟨l, cur, hl, hc, hs⟩ := verifyHashStep_some.mp hk
      obtain ⟨h1, -, hit, -⟩ := Orbit.search_eq_some.mp hs
      cases h
      rw [if_pos hv]
      exact .advanced hl hc h1 hit
    · split at h
      · rename_i hv hs
        obtain ⟨l, hl, hc⟩ := sameToken_iff.mp hs
        cases h
        rw [if_neg hv]
        exact .repeated hl hc
      · cases h

/-! ## The chain never moves back -/

/-- `later` hashes forward to `earlier`, in zero or more steps. -/
def Forward (hash : Link → Link) (later earlier : Bytes) : Prop :=
  later = earlier ∨ ∃ l e, decodeLink later = some l ∧ decodeLink earlier = some e ∧ Orbit.Leads hash l e

theorem Forward.refl (p : Bytes) : Forward hash p p := .inl rfl

theorem Forward.trans {a b c : Bytes} (h : Forward hash a b) (h' : Forward hash b c) : Forward hash a c := by
  rcases h with rfl | ⟨la, lb, ha, hb, hab⟩
  · exact h'
  · rcases h' with rfl | ⟨lb', lc, hb', hc, hbc⟩
    · exact .inr ⟨la, lb, ha, hb, hab⟩
    · obtain rfl : lb = lb' := by rw [hb] at hb'; exact Option.some.inj hb'
      exact .inr ⟨la, lc, ha, hc, hab.trans hbc⟩

/-- On links, the order of strings is that of the orbit. -/
theorem Forward.leads {a b : Bytes} {la lb : Link} (h : Forward hash a b) (ha : decodeLink a = some la)
    (hb : decodeLink b = some lb) : Orbit.Leads hash la lb := by
  rcases h with rfl | ⟨x, y, hx, hy, hxy⟩
  · rw [ha] at hb
    cases hb
    exact .refl la
  · rw [ha] at hx
    rw [hb] at hy
    cases hx
    cases hy
    exact hxy

structure Inv (hash : Link → Link) (client : ServingClient) (s : St) : Prop where
  anchor : s.stored.head? = some client.resumeToken
  last : s.stored.getLast? = some s.client.resumeToken
  order : s.stored.Pairwise fun earlier later => Forward hash later earlier
  /-- The stored value hashes forward to all there ever were. -/
  reaches : ∀ q ∈ s.stored, Forward hash s.client.resumeToken q
  accepted : ∀ q ∈ s.accepted, ∃ r ∈ s.stored, ∃ l, decodeLink r = some l ∧ decodeLink q = some l

theorem inv_start (client : ServingClient) : Inv hash client (start client) where
  anchor := rfl
  last := rfl
  order := List.pairwise_singleton _ _
  reaches := fun q hq => by
    rw [List.mem_singleton.mp hq]
    exact .refl _
  accepted := fun q hq => absurd hq List.not_mem_nil

theorem inv_present {client : ServingClient} {s t : St} {p : Bytes} (h : Inv hash client s)
    (hp : Presents hash s p t) : Inv hash client t := by
  cases hp with
  | rejected _ => exact h
  | @advanced l cur k hl hc hk hit =>
    -- the new value hashes forward to the stored one, so to everything before it
    have hnew : Forward hash p s.client.resumeToken := .inr ⟨l, cur, hl, hc, k, hit⟩
    have hall : ∀ q ∈ s.stored ++ [p], Forward hash p q := by
      intro q hq
      rcases List.mem_append.mp hq with hq | hq
      · exact hnew.trans (h.reaches q hq)
      · rw [List.mem_singleton.mp hq]
        exact .refl p
    refine ⟨?_, List.getLast?_concat, ?_, hall, ?_⟩
    · rw [List.head?_append, h.anchor]
      rfl
    · refine List.pairwise_append.mpr ⟨h.order, List.pairwise_singleton _ _, fun q hq r hr => ?_⟩
      rw [List.mem_singleton.mp hr]
      exact hall q (List.mem_append_left _ hq)
    · intro q hq
      rcases List.mem_append.mp hq with hq | hq
      · obtain ⟨r, hr, hl⟩ := h.accepted q hq
        exact ⟨r, List.mem_append_left _ hr, hl⟩
      · rw [List.mem_singleton.mp hq]
        exact ⟨p, List.mem_append_right _ (List.mem_singleton.mpr rfl), l, hl, hl⟩
  | @repeated l hl hc =>
    refine { h with accepted := fun q hq => ?_ }
    rcases List.mem_append.mp hq with hq | hq
    · exact h.accepted q hq
    · rw [List.mem_singleton.mp hq]
      exact ⟨s.client.resumeToken, List.mem_of_getLast? h.last, l, hc, hl⟩

theorem reach_inv {client : ServingClient} {s : St} (h : (sys hash client).Reach Sys.any s) :
    Inv hash client s := by
  refine Sys.Reach.inv (P := Inv hash client) (fun s hs => ?_) (fun s p t hi _ hs => ?_) h
  · cases hs
    exact inv_start client
  · cases hs
    exact inv_present hi (present_cases s p)

theorem chain_never_moves_back (hash : Link → Link) (client : ServingClient) {s : St}
    (hr : (sys hash client).Reach Sys.any s) :
    s.stored.head? = some client.resumeToken ∧ s.stored.getLast? = some s.client.resumeToken ∧
      s.stored.Pairwise (fun earlier later => Forward hash later earlier) ∧
      (∀ q ∈ s.stored, Forward hash s.client.resumeToken q) ∧
      ∀ cur, decodeLink s.client.resumeToken = some cur → cur ∉ periodicPts hash →
        ∀ k p, 0 < k → decodeLink p = some (hash^[k] cur) →
          s.client.authorizeResume hash p = .error (.token s.client.clientId) ∧ present hash s p = s := by
  have hi := reach_inv hr
  refine ⟨hi.anchor, hi.last, hi.order, hi.reaches, fun cur hcur hnc k p hk hp => ?_⟩
  have hrej := ServingClient.authorizeResume_ahead hcur hnc hk hp
  refine ⟨hrej, ?_⟩
  simp only [present, hrej]

def anchored : ServingClient := ⟨7, (numbered 3).encode, [], 0⟩

/-- Link 1 is accepted over the lost link 2; link 2, skipped, and the anchor are then
    ahead of it. -/
theorem skipped_link_rejected :
    (present tick (start anchored) (numbered 1).encode).stored = [(numbered 3).encode, (numbered 1).encode] ∧
      ∀ p, decodeLink p = some (numbered 2) →
        present tick (present tick (start anchored) (numbered 1).encode) p =
          present tick (start anchored) (numbered 1).encode := by
  have hs : (present tick (start anchored) (numbered 1).encode).stored =
      [(numbered 3).encode, (numbered 1).encode] := by decide +kernel
  have ht : (present tick (start anchored) (numbered 1).encode).client.resumeToken = (numbered 1).encode := by
    decide +kernel
  refine ⟨hs, fun p hp => ?_⟩
  have hr : (sys tick anchored).Reach Sys.any (present tick (start anchored) (numbered 1).encode) :=
    Sys.Reach.step (e := (numbered 1).encode) (Sys.Reach.init rfl) trivial rfl
  obtain ⟨-, -, -, -, hrej⟩ := chain_never_moves_back tick anchored hr
  refine (hrej (numbered 1) (by rw [ht, decodeLink_encode]) (tick_notPeriodic (by decide)) 1 p (by decide) ?_).2
  rw [hp, iterate_one, tick_numbered (by decide)]

/-! ## One-time links -/

/-- What presenting links once means, in a state of a run. -/
structure OneTime (hash : Link → Link) (client : ServingClient) (s : St) : Prop where
  /-- No link is stored twice; the anchor never again. -/
  storedOnce : (s.stored.map decodeLink).Nodup
  /-- What is accepted is a link never stored nor accepted before, and is stored; or it
      is the stored link, and the session stays as it is. -/
  accepts : ∀ p t, s.client.authorizeResume hash p = .ok t →
    ((∀ q ∈ s.stored ++ s.accepted, decodeLink q ≠ decodeLink p) ∧ t = { s.client with resumeToken := p }) ∨
      (decodeLink p = decodeLink s.client.resumeToken ∧ t = s.client)
  /-- Once another link is stored, nothing stored or accepted before is ever accepted again. -/
  superseded : ∀ q ∈ s.stored ++ s.accepted, decodeLink q ≠ decodeLink s.client.resumeToken →
    ∀ u, (sys hash client).Steps Sys.any s u → ∀ p, decodeLink p = decodeLink q →
      u.client.authorizeResume hash p = .error (.token u.client.clientId)

/-- No stored link is on a cycle when the anchor is on none. -/
theorem Inv.notPeriodic {client : ServingClient} {s : St} (h : Inv hash client s)
    (hnc : ∀ a, decodeLink client.resumeToken = some a → a ∉ periodicPts hash) {q : Bytes} {l : Link}
    (hq : q ∈ s.stored) (hl : decodeLink q = some l) : l ∉ periodicPts hash := by
  have hanchor : Forward hash q client.resumeToken := by
    cases hs : s.stored with
    | nil => rw [hs] at hq; cases hq
    | cons a rest =>
      have ha : a = client.resumeToken := by have := h.anchor; rw [hs] at this; exact Option.some.inj this
      have horder := h.order
      rw [hs] at horder hq
      rcases List.mem_cons.mp hq with rfl | hq
      · rw [ha]; exact .refl _
      · rw [← ha]; exact List.rel_of_pairwise_cons horder hq
  rcases hanchor with rfl | ⟨x, a, hx, ha, hlead⟩
  · exact hnc l hl
  · rw [hl] at hx
    cases hx
    exact hlead.notPeriodic (hnc a ha)

/-- A link that hashes forward to the stored one, in one step or more, was never stored. -/
theorem Inv.fresh {client : ServingClient} {s : St} (h : Inv hash client s)
    (hnc : ∀ a, decodeLink client.resumeToken = some a → a ∉ periodicPts hash) {l cur : Link} {k : Nat}
    (hc : decodeLink s.client.resumeToken = some cur) (hk : 0 < k) (hit : hash^[k] l = cur) :
    ∀ q ∈ s.stored, decodeLink q ≠ some l := by
  intro q hq hl
  obtain ⟨j, hj⟩ := (h.reaches q hq).leads hc hl
  refine Orbit.iterate_ne (h.notPeriodic hnc hq hl) (k := j + k) (by omega) ?_
  rw [iterate_add_apply, hit, hj]

theorem storedOnce_present {client : ServingClient} {s t : St} {p : Bytes} (h : Inv hash client s)
    (hnc : ∀ a, decodeLink client.resumeToken = some a → a ∉ periodicPts hash)
    (hd : (s.stored.map decodeLink).Nodup) (hp : Presents hash s p t) : (t.stored.map decodeLink).Nodup := by
  cases hp with
  | rejected _ => exact hd
  | @advanced l cur k hl hc hk hit =>
    have hnew := h.fresh hnc hc hk hit
    rw [List.map_append, List.nodup_append]
    refine ⟨hd, List.nodup_singleton _, ?_⟩
    rintro x hx y hy rfl
    obtain ⟨q, hq, hqx⟩ := List.mem_map.mp hx
    have hy : x = decodeLink p := List.mem_singleton.mp hy
    exact hnew q hq (by rw [hqx, hy, hl])
  | repeated _ _ => exact hd

/-- Nor was it accepted: what is accepted is a stored link. -/
theorem Inv.unseen {client : ServingClient} {s : St} (h : Inv hash client s)
    (hnc : ∀ a, decodeLink client.resumeToken = some a → a ∉ periodicPts hash) {l cur : Link} {k : Nat}
    (hc : decodeLink s.client.resumeToken = some cur) (hk : 0 < k) (hit : hash^[k] l = cur) :
    ∀ q ∈ s.stored ++ s.accepted, decodeLink q ≠ some l := by
  intro q hq
  have hnew := h.fresh hnc hc hk hit
  rcases List.mem_append.mp hq with hq | hq
  · exact hnew q hq
  · obtain ⟨r, hr, x, hrx, hqx⟩ := h.accepted q hq
    rw [hqx, ← hrx]
    exact hnew r hr

theorem Inv.accepts {client : ServingClient} {s : St} (h : Inv hash client s)
    (hnc : ∀ a, decodeLink client.resumeToken = some a → a ∉ periodicPts hash) {p : Bytes} {t : ServingClient}
    (ht : s.client.authorizeResume hash p = .ok t) :
    ((∀ q ∈ s.stored ++ s.accepted, decodeLink q ≠ decodeLink p) ∧ t = { s.client with resumeToken := p }) ∨
      (decodeLink p = decodeLink s.client.resumeToken ∧ t = s.client) := by
  obtain ⟨l, cur, hl, hc, ⟨k, hk, -, hit, rfl⟩ | ⟨rfl, rfl⟩⟩ := ServingClient.authorizeResume_ok ht
  · exact .inl ⟨hl ▸ h.unseen hnc hc hk hit, rfl⟩
  · exact .inr ⟨hl.trans hc.symm, rfl⟩

/-- A link that is not the stored one any more is not stored later. -/
theorem Inv.superseded {client : ServingClient} {s u : St} (h : Inv hash client s)
    (hnc : ∀ a, decodeLink client.resumeToken = some a → a ∉ periodicPts hash) {q : Bytes}
    (hq : q ∈ s.stored ++ s.accepted) (hne : decodeLink q ≠ decodeLink s.client.resumeToken)
    (hu : (sys hash client).Steps Sys.any s u) :
    Inv hash client u ∧ q ∈ u.stored ++ u.accepted ∧ decodeLink q ≠ decodeLink u.client.resumeToken := by
  refine hu.keep (P := fun u => Inv hash client u ∧ q ∈ u.stored ++ u.accepted ∧
    decodeLink q ≠ decodeLink u.client.resumeToken)
    (fun s p t ⟨hi, hq, hne⟩ _ hs => ?_) ⟨h, hq, hne⟩
  cases hs
  have hp : Presents hash s p (present hash s p) := present_cases s p
  refine ⟨inv_present hi hp, ?_⟩
  generalize present hash s p = t at hp
  cases hp with
  | rejected _ => exact ⟨hq, hne⟩
  | advanced hl hc hk hit =>
    refine ⟨?_, by rw [hl]; exact hi.unseen hnc hc hk hit q hq⟩
    rcases List.mem_append.mp hq with hq | hq
    · exact List.mem_append_left _ (List.mem_append_left _ hq)
    · exact List.mem_append_right _ (List.mem_append_left _ hq)
  | repeated _ _ =>
    refine ⟨?_, hne⟩
    rcases List.mem_append.mp hq with hq | hq
    · exact List.mem_append_left _ hq
    · exact List.mem_append_right _ (List.mem_append_left _ hq)

theorem link_stored_once (hash : Link → Link) (client : ServingClient)
    (hnc : ∀ a, decodeLink client.resumeToken = some a → a ∉ periodicPts hash) {s : St}
    (hr : (sys hash client).Reach Sys.any s) : OneTime hash client s := by
  have hi := reach_inv hr
  refine ⟨?_, fun p t ht => hi.accepts hnc ht, fun q hq hne u hu p hp => ?_⟩
  · refine (Sys.Reach.inv (P := fun s => Inv hash client s ∧ (s.stored.map decodeLink).Nodup)
      (fun s hs => ?_) (fun s p t h _ hs => ?_) hr).2
    · cases hs
      exact ⟨inv_start client, List.nodup_singleton _⟩
    · cases hs
      exact ⟨inv_present h.1 (present_cases s p), storedOnce_present h.1 hnc h.2 (present_cases s p)⟩
  · obtain ⟨hiu, hqu, hneu⟩ := hi.superseded hnc hq hne hu
    cases ht : u.client.authorizeResume hash p with
    | error e => rw [ServingClient.authorizeResume_error ht]
    | ok t =>
      rcases hiu.accepts hnc ht with ⟨hnew, -⟩ | ⟨hsame, -⟩
      · exact absurd hp.symm (hnew q hqu)
      · exact absurd (hp.symm.trans hsame) hneu

/-- After link 2 and then link 1, link 2 is never accepted again. -/
theorem link_stored_once_twice :
    ∃ s, OneTime tick anchored s ∧ s.stored = [(numbered 3).encode, (numbered 2).encode, (numbered 1).encode] ∧
      ∀ u, (sys tick anchored).Steps Sys.any s u →
        u.client.authorizeResume tick (numbered 2).encode = .error (.token u.client.clientId) := by
  have hr : (sys tick anchored).Reach Sys.any
      (present tick (present tick (start anchored) (numbered 2).encode) (numbered 1).encode) :=
    Sys.Reach.step (e := (numbered 1).encode)
      (Sys.Reach.step (e := (numbered 2).encode) (Sys.Reach.init rfl) trivial rfl) trivial rfl
  have hone : OneTime tick anchored _ := link_stored_once tick anchored (fun a ha => by
    rw [anchored, decodeLink_encode] at ha
    cases ha
    exact tick_notPeriodic (by decide)) hr
  have hstored : (present tick (present tick (start anchored) (numbered 2).encode) (numbered 1).encode).stored =
      [(numbered 3).encode, (numbered 2).encode, (numbered 1).encode] := by decide +kernel
  refine ⟨_, hone, hstored, fun u hu => ?_⟩
  refine hone.superseded (numbered 2).encode ?_ (by decide +kernel) u hu _ rfl
  rw [hstored]
  exact List.mem_append_left _ (.tail _ (.head _))

/-- Link 2, seen on the wire, is presented again before the next reconnect: it is accepted
    a second time. -/
theorem current_link_replayed :
    (∀ a, decodeLink anchored.resumeToken = some a → a ∉ periodicPts tick) ∧
      ¬ ∀ s, (sys tick anchored).Reach Sys.any s → ∀ l, decodeLink anchored.resumeToken ≠ some l →
        (s.accepted.map decodeLink).count (some l) ≤ 1 := by
  constructor
  · intro a ha
    rw [anchored, decodeLink_encode] at ha
    cases ha
    exact tick_notPeriodic (by decide)
  · intro h
    have hr : (sys tick anchored).Reach Sys.any
        (present tick (present tick (start anchored) (numbered 2).encode) (numbered 2).encode) :=
      Sys.Reach.step (e := (numbered 2).encode)
        (Sys.Reach.step (e := (numbered 2).encode) (Sys.Reach.init rfl) trivial rfl) trivial rfl
    have htwice : (present tick (present tick (start anchored) (numbered 2).encode) (numbered 2).encode).accepted =
        [(numbered 2).encode, (numbered 2).encode] := by decide +kernel
    have hle := h _ hr (numbered 2) (by decide +kernel)
    rw [htwice] at hle
    simp at hle

end ValueRpc.Session
