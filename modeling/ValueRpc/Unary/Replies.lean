/-
  ValueRpc.Unary.Replies — what a caller gets is what its handler did (see
  `ValueRpc.Unary.Session`).

  At any time a call is at one stage: its request is on the way, a goroutine of its peer
  serves it, its response is on the way, or its record has got the reply; or a frame or the
  handler was lost. A step takes one call from a stage to another and leaves what the others
  have in `work` as it is (`Inv.touch`).

  - `reply_explained`: in every run of calls in both directions, a reply that a caller
    returned with is either the refusal its request deserves, and then no handler ran for it,
    or what the one run of the handler under its name, on its arguments and with its metadata,
    ended with.
  - `quiet_answered`: where no frame and no handler was lost and nothing is left to do, every
    call has its reply.
-/

import ValueRpc.Lib.Keyed
import ValueRpc.Route.CrossTalk
import ValueRpc.Unary.Frames

namespace ValueRpc.Unary

open Function ValueRpc.Core ValueRpc.Core.Envelope ValueRpc.Core.Verify ValueRpc.Lib
open ValueRpc.Route (Side requestId)

variable {c : Cfg} {s s' : St} {σ τ : Side} {i j : Nat}

/-! ## What a reply tells -/

def Refused (c : Cfg) (σ : Side) (r : Request) (e : RpcError) : Prop :=
  admits c (other σ) r.name r.args.wire = .error e ∨ (σ = .client ∧ 0 < c.maxConcurrentRequests ∧ e = busy c)

/-- The reply to a request, and the runs of handlers for it. -/
def Explained (c : Cfg) (σ : Side) (r : Request) (reply : Reply) (ran : List Run) : Prop :=
  (∃ e, Refused c σ r e ∧ reply = .error e ∧ ran = []) ∨
  ∃ fn out sent, admits c (other σ) r.name r.args.wire = .ok fn ∧
    ran = [⟨other σ, r.name, ctxOf c σ r, r.args.wire, out⟩] ∧
    replyTo c (other σ) r.name fn out = some sent ∧ reply = received sent

theorem Explained.length {r : Request} {reply : Reply} {ran : List Run} (h : Explained c σ r reply ran) :
    ran.length ≤ 1 := by
  obtain ⟨e, -, -, rfl⟩ | ⟨fn, out, sent, -, rfl, -, -⟩ := h
  · exact Nat.zero_le _
  · exact Nat.le_refl _

/-! ## Stages -/

inductive Stage where
  | requested
  | spawned
  | handling (fn : Fn)
  | answered (sent : Except RpcError Val) (ran : List Run)
  | delivered (reply : Reply) (ran : List Run)
  | lost (ran : List Run)

def Stage.work (c : Cfg) (σ : Side) (i : Nat) (r : Request) : Stage → List Work
  | requested => [sends (other σ) (request c σ (requestId σ (i + 1)) r)]
  | spawned => [.spawned (Val.wireEntries (request c σ (requestId σ (i + 1)) r))]
  | handling fn => [.handling (other σ) (handlingOf c σ (requestId σ (i + 1)) r fn)]
  | answered sent _ => [sends σ (respond c (num (requestId σ (i + 1))) sent)]
  | delivered _ _ | lost _ => []

def Stage.ran : Stage → List Run
  | requested | spawned | handling _ => []
  | answered _ ran | delivered _ ran | lost ran => ran

def Stage.Good (c : Cfg) (σ : Side) (r : Request) : Stage → Prop
  | requested => True
  | spawned => σ = .client
  | handling fn => admits c (other σ) r.name r.args.wire = .ok fn
  | answered sent ran => Explained c σ r (received sent) ran
  | delivered reply ran => Explained c σ r reply ran
  | lost ran => ran.length ≤ 1

def Stage.isLost : Stage → Bool
  | lost _ => true
  | _ => false

def Stage.isDelivered : Stage → Bool
  | delivered _ _ => true
  | _ => false

def Status.Open : Status → Prop
  | waiting got => got = none
  | returned _ => False
  | gaveUp _ => True

/-- The reply a record got, or its call returned with, is the one delivered. -/
def Stage.Fits : Stage → Status → Prop
  | delivered reply _, .waiting got => got = some reply
  | delivered reply _, .returned r => r = reply
  | delivered _ _, .gaveUp _ => True
  | _, status => status.Open

theorem Stage.fits_iff {g : Stage} (hg : g.isDelivered = false) (status : Status) :
    g.Fits status ↔ status.Open := by
  cases g with
  | delivered reply ran => cases hg
  | _ => exact Iff.rfl

def entry (s : St) (σ : Side) (i : Nat) : Option Nat := s.pending (σ, requestId σ (i + 1))

structure Stands (c : Cfg) (s : St) (σ : Side) (i : Nat) (call : Call) (g : Stage) : Prop where
  good : g.Good c σ call.req
  fits : g.Fits call.status
  work : row (σ, i) s.work = g.work c σ i call.req
  ran : row (σ, i) s.runs = g.ran
  lost : g.isLost = true → 0 < s.losses
  record : entry s σ i = none ∨ entry s σ i = some i
  waits : call.status = .waiting none → entry s σ i = some i

structure Inv (c : Cfg) (s : St) : Prop where
  born : ∀ σ i call, (s.calls σ)[i]? = some call → ∃ g, Stands c s σ i call g
  unborn : ∀ σ i, (s.calls σ).length ≤ i → row (σ, i) s.work = [] ∧ row (σ, i) s.runs = []
  bound : ∀ σ, (s.calls σ).length < 2 ^ 63

theorem Inv.lt (h : Inv c s) (hi : i < (s.calls σ).length) : i < 2 ^ 63 - 1 := by
  have := h.bound σ
  omega

/-! ## One call at a time -/

section touch

variable {call : Call} {g n : Stage}

variable (call) in
/-- A step that takes one call to another stage keeps the invariant. -/
theorem Inv.touch (h : Inv c s)
    (hcalls : ∀ τ j, (s'.calls τ)[j]? = if τ = σ ∧ j = i then some call else (s.calls τ)[j]?)
    (hwork : ∀ k, row k s'.work = if k = (σ, i) then g.work c σ i call.req else row k s.work)
    (hruns : ∀ k, row k s'.runs = if k = (σ, i) then g.ran else row k s.runs)
    (hentry : ∀ τ j, ¬ (τ = σ ∧ j = i) → j < 2 ^ 63 - 1 → entry s' τ j = entry s τ j)
    (good : g.Good c σ call.req) (fits : g.Fits call.status) (lost : g.isLost = true → 0 < s'.losses)
    (record : entry s' σ i = none ∨ entry s' σ i = some i)
    (waits : call.status = .waiting none → entry s' σ i = some i) (hl : s.losses ≤ s'.losses)
    (hb : ∀ τ, (s'.calls τ).length < 2 ^ 63) : Inv c s' := by
  have hne : ∀ {τ j}, ¬ (τ = σ ∧ j = i) → (τ, j) ≠ (σ, i) := fun he hk => he (by cases hk; exact ⟨rfl, rfl⟩)
  refine ⟨fun τ j call' hc => ?_, fun τ j hj => ?_, hb⟩
  · rw [hcalls τ j] at hc
    by_cases he : τ = σ ∧ j = i
    · obtain ⟨rfl, rfl⟩ := he
      rw [if_pos ⟨rfl, rfl⟩] at hc
      cases hc
      exact ⟨g, good, fits, by rw [hwork, if_pos rfl], by rw [hruns, if_pos rfl], lost, record, waits⟩
    · rw [if_neg he] at hc
      obtain ⟨g', hg⟩ := h.born τ j call' hc
      have hj := h.lt (List.getElem?_eq_some_iff.mp hc).1
      refine ⟨g', hg.good, hg.fits, ?_, ?_, fun hlost => ?_, ?_, ?_⟩
      · rw [hwork, if_neg (hne he), hg.work]
      · rw [hruns, if_neg (hne he), hg.ran]
      · have := hg.lost hlost
        omega
      · rw [hentry τ j he hj]
        exact hg.record
      · rw [hentry τ j he hj]
        exact hg.waits
  · have hn : (s'.calls τ)[j]? = none := List.getElem?_eq_none hj
    rw [hcalls τ j] at hn
    by_cases he : τ = σ ∧ j = i
    · rw [if_pos he] at hn
      cases hn
    · rw [if_neg he] at hn
      rw [hwork, hruns, if_neg (hne he), if_neg (hne he)]
      exact h.unborn τ j (List.getElem?_eq_none_iff.mp hn)

theorem Inv.move (h : Inv c s) (hb : (s.calls σ)[i]? = some call) (hs : Stands c s σ i call g)
    (hcalls : s'.calls = s.calls) (hpend : s'.pending = s.pending)
    (hwork : ∀ k, row k s'.work = if k = (σ, i) then n.work c σ i call.req else row k s.work)
    (hruns : ∀ k, row k s'.runs = if k = (σ, i) then n.ran else row k s.runs) (hd : g.isDelivered = false)
    (hn : n.isDelivered = false) (hg : n.Good c σ call.req) (hl : s'.losses = s.losses + n.isLost.toNat) :
    Inv c s' := by
  have hentry : ∀ τ j, entry s' τ j = entry s τ j := fun τ j => by simp only [entry, hpend]
  have hfits : n.Fits call.status := (Stage.fits_iff hn _).mpr ((Stage.fits_iff hd _).mp hs.fits)
  refine h.touch call (fun τ j => ?_) hwork hruns (fun τ j _ _ => hentry τ j) hg hfits (fun hlost => ?_)
    (by rw [hentry]; exact hs.record) (by rw [hentry]; exact hs.waits) (by omega) (by rw [hcalls]; exact h.bound)
  · rw [hcalls]
    split
    · rename_i he
      rw [he.1, he.2, hb]
    · rfl
  · rw [hl, hlost]
    exact Nat.succ_pos _

/-- What is in `work` for a call is all it has there. -/
theorem Inv.at {x : Work} (h : Inv c s) (hw : s.work[j]? = some ((σ, i), x)) :
    ∃ call g, (s.calls σ)[i]? = some call ∧ Stands c s σ i call g ∧ g.work c σ i call.req = [x] ∧
      g.isDelivered = false := by
  have hx : x ∈ row (σ, i) s.work := mem_row.mpr (List.mem_of_getElem? hw)
  cases hc : (s.calls σ)[i]? with
  | none =>
    rw [(h.unborn σ i (List.getElem?_eq_none_iff.mp hc)).1] at hx
    cases hx
  | some call =>
    obtain ⟨g, hg⟩ := h.born σ i call hc
    rw [hg.work] at hx
    cases g with
    | delivered reply ran => cases hx
    | lost ran => cases hx
    | _ => exact ⟨call, _, rfl, hg, by rw [List.mem_singleton.mp hx]; rfl, rfl⟩

section place

variable {x y : Work} (h : Inv c s) (hw : s.work[j]? = some ((σ, i), x)) (hb : (s.calls σ)[i]? = some call)
  (hs : Stands c s σ i call g) (hx : g.work c σ i call.req = [x]) (hd : g.isDelivered = false)
include h hw hb hs hx hd

theorem Inv.put (hn : n.isDelivered = false) (hl : n.isLost = false) (hg : n.Good c σ call.req)
    (hy : n.work c σ i call.req = [y]) {r : List (Key × Run)}
    (hr : ∀ k, row k r = if k = (σ, i) then n.ran else row k s.runs) :
    Inv c { s.put j (σ, i) y with runs := r } := by
  refine h.move hb hs rfl rfl (fun k => ?_) hr hd hn hg (by rw [hl]; rfl)
  rw [hy]
  exact row_set hw (hs.work.trans hx) y k

theorem Inv.gone {ran : List Run} (hr : ran.length ≤ 1) {r : List (Key × Run)}
    (hr' : ∀ k, row k r = if k = (σ, i) then ran else row k s.runs) :
    Inv c ({ s with runs := r }.drop j).lost :=
  h.move (n := .lost ran) hb hs rfl rfl (row_eraseIdx hw (hs.work.trans hx)) hr' hd rfl hr rfl

end place

end touch

/-! ## The steps -/

/-- No stage depends on which goroutines have ended. -/
theorem Inv.leaving (h : Inv c s) (n : Nat) : Inv c { s with leaving := n } := by
  refine ⟨fun σ i call hc => ?_, h.unborn, h.bound⟩
  obtain ⟨g, hg⟩ := h.born σ i call hc
  exact ⟨g, hg.good, hg.fits, hg.work, hg.ran, hg.lost, hg.record, hg.waits⟩

theorem Inv.leave (h : Inv c s) (σ : Side) : Inv c (s.leave σ) := by
  cases σ with
  | client => exact h
  | server => exact h.leaving _

@[simp] theorem other_other (σ : Side) : other (other σ) = σ := by cases σ <;> rfl

theorem id_ne (hi : i < 2 ^ 63 - 1) (hj : j < 2 ^ 63 - 1) (h : ¬ (τ = σ ∧ j = i)) :
    (τ, requestId τ (j + 1)) ≠ (σ, requestId σ (i + 1)) := by
  intro he
  obtain ⟨rfl, hji⟩ := Route.requestId_inj (by omega) (by omega) (by omega) (by omega) (Prod.mk.inj he).2
  exact h ⟨rfl, by omega⟩

theorem entry_forget (s : St) (σ : Side) (i : Nat) :
    entry (s.forget σ (requestId σ (i + 1))) σ i = none := update_self ..

theorem inv_call (h : Inv c s) (req : Request) (hb : ((s.calls σ).length + 1 : Nat) < 2 ^ 63)
    (hs : step c s (.call σ req) = some s') : Inv c s' := by
  cases hs
  generalize hi : (s.calls σ).length = i at hb ⊢
  obtain ⟨hw, hr⟩ := h.unborn σ i (by omega)
  have hself : entry (s.addCall σ i req) σ i = some i := update_self ..
  refine h.touch ⟨req, .waiting none⟩ (σ := σ) (i := i) (g := .requested) (fun τ j => ?_) (fun k => ?_) (fun k => ?_)
    (fun τ j hne hj => update_of_ne (id_ne (by omega) hj hne) _ _) trivial rfl nofun (.inr hself) (fun _ => hself)
    (Nat.le_refl _) fun τ => ?_
  · by_cases hτ : τ = σ
    · subst hτ
      simp only [St.add, St.addCall, update_self, true_and]
      grind
    · simp [St.add, St.addCall, hτ]
  · show row k (s.work ++ _) = _
    rw [row_concat]
    split
    · rename_i hk
      rw [hk, hw]
      rfl
    · rfl
  · show row k s.runs = _
    split
    · rename_i hk
      rw [hk, hr]
      rfl
    · rfl
  · by_cases hτ : τ = σ
    · subst hτ
      simp only [St.add, St.addCall, update_self, List.length_append, List.length_singleton]
      omega
    · simpa [St.add, St.addCall, hτ] using h.bound τ

theorem calls_modifyCall {call : Call} (hb : (s.calls σ)[i]? = some call) (f : Call → Call) (τ : Side)
    (j : Nat) :
    ((s.modifyCall σ i f).calls τ)[j]? = if τ = σ ∧ j = i then some (f call) else (s.calls τ)[j]? := by
  by_cases hτ : τ = σ
  · subst hτ
    by_cases hj : j = i
    · subst hj
      simp [St.modifyCall, hb]
    · simp [St.modifyCall, hj, Ne.symm hj]
  · simp [St.modifyCall, hτ]

theorem Inv.bound_modifyCall (h : Inv c s) (f : Call → Call) (τ : Side) :
    ((s.modifyCall σ i f).calls τ).length < 2 ^ 63 := by
  have hb := h.bound τ
  by_cases hτ : τ = σ
  · subst hτ
    simpa [St.modifyCall] using hb
  · simpa [St.modifyCall, hτ] using hb

/-- What a call had in `work` it has, and so its runs. -/
theorem Stands.rows {call : Call} {g : Stage} (hs : Stands c s σ i call g) (k : Key) :
    (row k s.work = if k = (σ, i) then g.work c σ i call.req else row k s.work) ∧
    row k s.runs = if k = (σ, i) then g.ran else row k s.runs := by
  by_cases hk : k = (σ, i)
  · subst hk
    exact ⟨by rw [if_pos rfl, hs.work], by rw [if_pos rfl, hs.ran]⟩
  · exact ⟨(if_neg hk).symm, (if_neg hk).symm⟩

/-- A reply is delivered: the record goes, and a call that waits has it. -/
theorem Inv.delivered {call : Call} {sent : Except RpcError Val} {ran : List Run} {x : Work} (h : Inv c s)
    (hw : s.work[j]? = some ((σ, i), x)) (hb : (s.calls σ)[i]? = some call)
    (hs : Stands c s σ i call (.answered sent ran)) (hx : (Stage.answered sent ran).work c σ i call.req = [x]) :
    Inv c ((s.drop j).complete σ (requestId σ (i + 1)) (received sent)) := by
  have hi := h.lt (List.getElem?_eq_some_iff.mp hb).1
  have hopen : call.status.Open := hs.fits
  have hwork : ∀ k, row k (s.drop j).work = if k = (σ, i) then [] else row k s.work :=
    row_eraseIdx hw (hs.work.trans hx)
  obtain ⟨req, status⟩ := call
  unfold St.complete
  obtain hn | hsome := hs.record
  · -- nobody waits any more
    rw [show (s.drop j).pending (σ, requestId σ (i + 1)) = none from hn]
    show Inv c (s.drop j)
    obtain ⟨err, rfl⟩ : ∃ err, status = .gaveUp err := by
      cases status with
      | waiting got =>
        cases hopen
        have := hs.waits rfl
        rw [hn] at this
        cases this
      | returned r => exact hopen.elim
      | gaveUp err => exact ⟨err, rfl⟩
    refine h.touch _ (g := .delivered (received sent) ran) (fun τ j => ?_) hwork (fun k => (hs.rows k).2)
      (fun _ _ _ _ => rfl) hs.good trivial
      nofun (.inl hn) nofun (Nat.le_refl _) h.bound
    split
    · rename_i he
      rw [he.1, he.2]
      exact hb
    · rfl
  · rw [show (s.drop j).pending (σ, requestId σ (i + 1)) = some i from hsome]
    refine h.touch (Call.got (received sent) ⟨req, status⟩) (g := .delivered (received sent) ran)
      (calls_modifyCall (s := (s.drop j).forget σ _) hb _) ?_ (fun k => (hs.rows k).2)
      (fun τ j hne hj => update_of_ne (id_ne hi hj hne) _ _) ?_ ?_ nofun (.inl (entry_forget ..)) ?_
        (Nat.le_refl _) (h.bound_modifyCall _)
    · exact hwork
    · cases status <;> exact hs.good
    · cases status with
      | returned r => exact hopen.elim
      | _ => simp [Call.got, Stage.Fits]
    · cases status with
      | returned r => exact hopen.elim
      | _ => simp [Call.got]

/-- A frame of a call gets to its peer, or a frame of its peer to it. -/
theorem inv_recv (hd : c.d.Distinct) (h : Inv c s) (hs : step c s (.recv j) = some s') : Inv c s' := by
  simp only [step] at hs
  split at hs
  · rename_i k ρ m hw
    cases hs
    obtain ⟨σ, i⟩ := k
    obtain ⟨call, g, hb, hst, hx, hdel⟩ := h.at hw
    have hruns := fun k => (hst.rows k).2
    cases g with
    | requested =>
      cases hx
      rw [reads_request hd]
      cases σ with
      | client =>
        simp only
        split
        · rename_i hbusy
          exact h.put (n := .answered (.error (busy c)) []) hw hb hst rfl rfl rfl rfl
            (.inl ⟨busy c, .inr ⟨rfl, hbusy.1, rfl⟩, rfl, rfl⟩) rfl hruns
        · exact h.put (n := .spawned) hw hb hst rfl rfl rfl rfl rfl rfl hruns
      | server =>
        simp only
        cases ha : admits c .client call.req.name call.req.args.wire with
        | error e =>
          exact h.put (n := .answered (.error e) []) hw hb hst rfl rfl rfl rfl (.inl ⟨e, .inl ha, rfl, rfl⟩) rfl hruns
        | ok fn => exact h.put (n := .handling fn) hw hb hst rfl rfl rfl rfl ha rfl hruns
    | answered sent ran =>
      cases hx
      rw [reads_respond hd]
      exact h.delivered hw hb hst rfl
    | _ => cases hx
  · cases hs

theorem inv_serve (hd : c.d.Distinct) (h : Inv c s) (hs : step c s (.serve j) = some s') : Inv c s' := by
  simp only [step] at hs
  split at hs
  · rename_i k req hw
    obtain ⟨σ, i⟩ := k
    obtain ⟨call, g, hb, hst, hx, -⟩ := h.at hw
    have hruns := fun k => (hst.rows k).2
    cases g with
    | spawned =>
      cases hx
      have hσ : σ = .client := hst.good
      subst hσ
      rw [doServe_request hd] at hs
      cases ha : admits c .server call.req.name call.req.args.wire with
      | error e =>
        rw [ha] at hs
        cases hs
        exact (h.put (n := .answered (.error e) []) hw hb hst rfl rfl rfl rfl
          (.inl ⟨e, .inl ha, rfl, rfl⟩) rfl hruns).leave _
      | ok fn =>
        rw [ha] at hs
        cases hs
        exact h.put (n := .handling fn) hw hb hst rfl rfl rfl rfl ha rfl hruns
    | _ => cases hx
  · cases hs

theorem inv_finish {out : Out} (h : Inv c s) (hs : step c s (.finish j out) = some s') : Inv c s' := by
  simp only [step] at hs
  split at hs
  · rename_i k ρ hd hw
    obtain ⟨σ, i⟩ := k
    obtain ⟨call, g, hb, hst, hx, -⟩ := h.at hw
    cases g with
    | handling fn =>
      cases hx
      have hruns : ∀ r k, row k (s.runs ++ [((σ, i), r)]) = if k = (σ, i) then [r] else row k s.runs := fun r k => by
        rw [row_concat]
        split
        · rename_i hk
          rw [hk, hst.ran]
          rfl
        · rfl
      split at hs
      · rename_i sent hsent
        cases hs
        rw [other_other]
        have hgood : (Stage.answered sent [_]).Good c σ call.req := .inr ⟨fn, out, sent, hst.good, rfl, hsent, rfl⟩
        exact (h.put hw hb hst rfl rfl rfl rfl hgood rfl (hruns _)).leave _
      · split at hs
        · cases hs
        · cases hs
          exact h.gone hw hb hst rfl rfl (Nat.le_refl _) (hruns _)
    | _ => cases hx
  · cases hs

theorem inv_lose (h : Inv c s) (hs : step c s (.lose j) = some s') : Inv c s' := by
  simp only [step] at hs
  split at hs
  · rename_i k ρ m hw
    cases hs
    obtain ⟨σ, i⟩ := k
    obtain ⟨call, g, hb, hst, hx, hdel⟩ := h.at hw
    have hran : g.ran.length ≤ 1 := by
      cases g with
      | answered sent ran => exact Explained.length hst.good
      | delivered reply ran => cases hdel
      | lost ran => exact hst.good
      | _ => exact Nat.zero_le _
    exact h.gone hw hb hst hx hdel hran fun k => (hst.rows k).2
  · cases hs

theorem inv_take (h : Inv c s) (hs : step c s (.take σ i) = some s') : Inv c s' := by
  simp only [step] at hs
  split at hs
  · rename_i req r hb
    cases hs
    obtain ⟨g, hg⟩ := h.born σ i _ hb
    have hfits := hg.fits
    cases g with
    | delivered reply ran =>
      cases hfits
      exact h.touch _ (calls_modifyCall hb _) (fun k => (hg.rows k).1) (fun k => (hg.rows k).2)
        (fun _ _ _ _ => rfl) hg.good rfl hg.lost
        hg.record nofun (Nat.le_refl _) (h.bound_modifyCall _)
    | _ => cases hfits
  · cases hs

/-- What a caller gives up with, if it was not the error of its record. -/
theorem fits_gaveUp {g : Stage} {got : Option Reply} (hf : g.Fits (.waiting got)) (err : GaveUp) :
    g.Fits (if err = .timeout then timedOut got else .gaveUp err) := by
  split
  · cases g with
    | delivered reply ran =>
      cases hf
      cases reply with
      | ok v => trivial
      | error e => rfl
    | _ =>
      cases hf
      trivial
  · cases g <;> trivial

theorem ne_gaveUp (got : Option Reply) (err : GaveUp) :
    (if err = .timeout then timedOut got else .gaveUp err) ≠ .waiting none := by
  split
  · unfold timedOut
    split <;> simp
  · simp

theorem inv_giveUp {err : GaveUp} (h : Inv c s) (hs : step c s (.giveUp σ i err) = some s') : Inv c s' := by
  simp only [step] at hs
  split at hs
  · rename_i req got hb
    split at hs
    · have hi := h.lt (List.getElem?_eq_some_iff.mp hb).1
      obtain ⟨g, hg⟩ := h.born σ i _ hb
      have hfits := fits_gaveUp hg.fits err
      have hne := ne_gaveUp got err
      generalize (if err = .timeout then timedOut got else .gaveUp err) = status at hs hfits hne
      cases σ with
      | client =>
        cases hs
        exact h.touch _ (calls_modifyCall hb _) (fun k => (hg.rows k).1) (fun k => (hg.rows k).2)
          (fun _ _ _ _ => rfl) hg.good hfits hg.lost
          hg.record (fun hw => absurd hw hne) (Nat.le_refl _) (h.bound_modifyCall _)
      | server =>
        cases hs
        exact h.touch _ (calls_modifyCall hb _) (fun k => (hg.rows k).1) (fun k => (hg.rows k).2)
          (fun τ j hn hj => update_of_ne (id_ne hi hj hn) _ _) hg.good hfits hg.lost
            (.inl (entry_forget ..)) (fun hw => absurd hw hne)
          (Nat.le_refl _) (h.bound_modifyCall _)
    · cases hs
  · cases hs

theorem inv_start : Inv c start :=
  ⟨fun σ i call hc => (by simp [start] at hc), fun σ i _ => ⟨rfl, rfl⟩, fun σ => by simp [start]⟩

theorem inv_reach (hd : c.d.Distinct) (h : (sys c).Reach ok s) : Inv c s := by
  refine h.inv (fun s hs => ?_) fun s e s' hi ho hs => ?_
  · cases hs
    exact inv_start
  · cases e with
    | call σ req => exact inv_call hi req ho hs
    | recv j => exact inv_recv hd hi hs
    | serve j => exact inv_serve hd hi hs
    | finish j out => exact inv_finish hi hs
    | ends =>
      simp only [sys, step] at hs
      split at hs
      · cases hs
      · cases hs
        exact hi.leaving _
    | take σ i => exact inv_take hi hs
    | giveUp σ i err => exact inv_giveUp hi hs
    | lose j => exact inv_lose hi hs

/-! ## The results -/

/-- A reply that was returned was delivered. -/
theorem Inv.explained (h : Inv c s) {call : Call} (hc : (s.calls σ)[i]? = some call) {r : Reply}
    (hr : call.status = .returned r) : Explained c σ call.req r (row (σ, i) s.runs) := by
  obtain ⟨g, hg⟩ := h.born σ i call hc
  have hfits := hg.fits
  rw [hr] at hfits
  rw [hg.ran]
  cases g with
  | delivered reply ran =>
    cases hfits
    exact hg.good
  | _ => exact hfits.elim

theorem reply_explained (hd : c.d.Distinct) (h : (sys c).Reach ok s) {call : Call}
    (hc : (s.calls σ)[i]? = some call) :
    (row (σ, i) s.runs).length + (row (σ, i) s.work).countP (Work.serves (other σ)) ≤ 1 ∧
    ∀ r, call.status = .returned r → Explained c σ call.req r (row (σ, i) s.runs) := by
  have hi := inv_reach hd h
  refine ⟨?_, fun r hr => hi.explained hc hr⟩
  obtain ⟨g, hg⟩ := hi.born σ i call hc
  have hgood := hg.good
  rw [hg.ran, hg.work]
  cases g with
  | answered sent ran => exact Explained.length hgood
  | delivered reply ran => exact Explained.length hgood
  | lost ran => exact hgood
  | requested => exact Nat.zero_le _
  | spawned => exact (Nat.zero_add _).trans_le List.countP_le_length
  | handling fn => exact (Nat.zero_add _).trans_le List.countP_le_length

/-- A server with one function and a client that calls it, with metadata, and is asked back. -/
def greeter : Cfg where
  d := newDialect
  functions
    | .server, name => if name = str "greet" then some ⟨.unary, .any, .any⟩ else none
    | .client, _ => none
  principal := str "me"
  metadataExtractor := none
  maxConcurrentRequests := 1
  valDetail _ := []

def greeted : List Ev :=
  [.call .client ⟨str "greet", .nil, [("trace", str "7")], 100⟩, .call .server ⟨str "who", .nil, [], 0⟩,
    .recv 1, .recv 0, .serve 0,
    .finish 0 (.returns (long 5)), .recv 1, .recv 0, .take .client 0, .take .server 0]

def returnedLong : Option Call → Option Int
  | some ⟨_, .returned (.ok (.number n))⟩ => some n.long
  | _ => none

theorem returnedLong_some {o : Option Call} {n : Int} (h : returnedLong o = some n) :
    ∃ call x, o = some call ∧ call.status = .returned (.ok (.number x)) ∧ x.long = n := by
  unfold returnedLong at h
  split at h
  · rename_i req x
    cases h
    exact ⟨_, x, rfl, rfl, rfl⟩
  · cases h

theorem reply_explained_greeted :
    ∃ s call x, (sys greeter).Reach ok s ∧ (s.calls .client)[0]? = some call ∧ x.long = 5 ∧
    Explained greeter .client call.req (.ok (.number x)) (row (.client, 0) s.runs) := by
  obtain ⟨s, hr, h⟩ :=
    (sys greeter).reach_of_exec ok start rfl greeted (P := fun s => returnedLong (s.calls .client)[0]? = some 5)
    (by decide +kernel)
  obtain ⟨call, x, hc, hst, hx⟩ := returnedLong_some h
  exact ⟨s, call, x, hr, hc, hx, (reply_explained newDialect_distinct hr hc).2 _ hst⟩

/-- A call has its reply, or was given up. -/
def Answered (c : Cfg) (s : St) (σ : Side) (i : Nat) (call : Call) : Prop :=
  (∃ r, (call.status = .waiting (some r) ∨ call.status = .returned r) ∧ Explained c σ call.req r (row (σ, i) s.runs)) ∨
  ∃ err, call.status = .gaveUp err

/-- Where nothing was lost and nothing is left to do, a call that was not given up has its reply. -/
theorem quiet_answered (hd : c.d.Distinct) (h : (sys c).Reach ok s) (hl : s.losses = 0) (hq : s.work = [])
    {call : Call} (hc : (s.calls σ)[i]? = some call) : Answered c s σ i call := by
  obtain ⟨g, hg⟩ := (inv_reach hd h).born σ i call hc
  have hwork := hg.work
  rw [hq] at hwork
  unfold Answered
  rw [hg.ran]
  cases g with
  | delivered reply ran =>
    obtain ⟨req, status⟩ := call
    have hfits := hg.fits
    cases status with
    | waiting got =>
      cases hfits
      exact .inl ⟨reply, .inl rfl, hg.good⟩
    | returned r =>
      cases hfits
      exact .inl ⟨_, .inr rfl, hg.good⟩
    | gaveUp err => exact .inr ⟨err, rfl⟩
  | lost ran =>
    have := hg.lost rfl
    omega
  | _ => cases hwork

theorem quiet_answered_greeted :
    ∃ s call, (sys greeter).Reach ok s ∧ (s.calls .client)[0]? = some call ∧ call.status ≠ .waiting none ∧
    Answered greeter s .client 0 call := by
  obtain ⟨s, hr, h1, hl, hq⟩ := (sys greeter).reach_of_exec ok start rfl greeted
    (P := fun s => returnedLong (s.calls .client)[0]? = some 5 ∧ s.losses = 0 ∧ s.work.isEmpty = true)
      (by decide +kernel)
  obtain ⟨call, x, hc, hst, -⟩ := returnedLong_some h1
  exact ⟨s, call, hr, hc, by rw [hst]; exact Status.noConfusion,
    quiet_answered newDialect_distinct hr hl (List.isEmpty_iff.mp hq) hc⟩

end ValueRpc.Unary
