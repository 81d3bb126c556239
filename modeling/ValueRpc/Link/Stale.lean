/-
  ValueRpc.Link.Stale — when a server is done with a request, so is the client.

  The client closes a request in several places that leave it in `requestCtxMap`: behind a
  timeout, and in `watchContext`. It relies on a last frame of the server to delete it, and
  so does a consumer to see its stream end. Where the steps are `noPanicOrCancelRace`, that frame is
  owed until it comes: by the request on its way, by the handler, by the streamer, or under
  way itself (`Comes`); a put-stream, which gets none, is served until the client has
  settled the record.

  - `no_stale_records`: in every state in which the server has no handler, no streamer and
    no serving request for an id and no frame carries it, the client has no closed record
    under it, and no consumer waits on its stream.
  - `stale_records`: a handler that panics, a put-stream that is cancelled before it is
    accepted, and a CancelRequest that finds the streamer in `Acquire`.
-/

import ValueRpc.Link.Request

namespace ValueRpc.Link.Request

open ValueRpc.Lib
open ValueRpc.Core (Kind)

variable {kind : Kind} {cl cl' : Client} {sv sv' : Server} {s t : St} {ws : List ToServer}
  {fs : List ToClient} {heard : Bool} {f : ToClient} {e : ServerEv}

/-! ## The client -/

inductive Client.Acts (kind : Kind) (cl : Client) : Client → List ToServer → Prop
  | issue (h : cl.caller = .fresh) :
      Acts kind cl { cl with caller := .sending, ctx := { cl.ctx with inMap := true } } []
  | send (h : cl.caller = .sending) : Acts kind cl { cl with caller := .waiting } [.request]
  | ack (h : cl.caller = .waiting) (ha : cl.ctx.acked = true) : Acts kind cl (cl.establish kind) []
  | refused (h : cl.caller = .waiting) (hd : cl.ctx.done = true)
      (ha : cl.ctx.acked = false ∨ cl.ctx.getClosed = true ∧ cl.ctx.putClosed = true) :
      Acts kind cl { cl with caller := .returned, ctx := cl.ctx.close } []
  | timeout (h : cl.caller = .waiting) : Acts kind cl { cl with caller := .leaving } [.cancel]
  | abort (h : cl.caller = .leaving) : Acts kind cl { cl with caller := .returned, ctx := cl.ctx.close } []
  | watchCancel (h : cl.watch = .watching) : Acts kind cl { cl with watch := .cancelled } [.cancel]
  | watchClose (h : cl.watch = .cancelled) : Acts kind cl { cl with watch := .ended, ctx := cl.ctx.close } []
  | watchDone (h : cl.watch = .watching) : Acts kind cl { cl with watch := .ended } []
  | cancel (h : cl.caller ≠ .fresh) (h' : cl.caller ≠ .sending) : Acts kind cl cl [.cancel]
  | grant (h : cl.caller = .established) : Acts kind cl cl [.credit]
  | out {pc : Out} {ws : List ToServer} (h : cl.out ≠ .off) (hws : ws = [] ∨ ws = [.value] ∨ ws = [.fin]) :
      Acts kind cl { cl with out := pc } ws
  | outLeave (h : cl.out ≠ .off) :
      Acts kind cl { cl with out := .ended, ctx := Ctx.deleteIf (cl.ctx.tryPutClose kind) } []

theorem Client.act_cases {e : ClientEv} (h : cl.act kind e = some (cl', ws)) : cl.Acts kind cl' ws := by
  cases e with
  | issue =>
    simp only [act] at h
    split at h <;> cases h
    exact .issue ‹_›
  | send =>
    simp only [act] at h
    split at h <;> cases h
    exact .send ‹_›
  | ack =>
    simp only [act] at h
    split at h <;> cases h
    rename_i hg
    exact .ack hg.1 hg.2
  | refused =>
    simp only [act] at h
    split at h <;> cases h
    rename_i hg
    exact .refused hg.1 hg.2.1 hg.2.2
  | timeout =>
    simp only [act] at h
    split at h <;> cases h
    exact .timeout ‹_›
  | abort =>
    simp only [act] at h
    split at h <;> cases h
    exact .abort ‹_›
  | watchCancel =>
    simp only [act] at h
    split at h <;> cases h
    exact .watchCancel ‹_›
  | watchClose =>
    simp only [act] at h
    split at h <;> cases h
    exact .watchClose ‹_›
  | watchDone =>
    simp only [act] at h
    split at h <;> cases h
    rename_i hg
    exact .watchDone hg.1
  | cancel =>
    simp only [act] at h
    split at h <;> cases h
    rename_i hg
    exact .cancel hg.1 hg.2
  | grant =>
    simp only [act] at h
    split at h <;> cases h
    rename_i hg
    exact .grant hg.1
  | outCheck =>
    simp only [act] at h
    split at h <;> cases h
    rename_i hg
    exact .out (by rw [hg]; decide) (.inl rfl)
  | outRecv =>
    simp only [act] at h
    split at h <;> cases h
    rename_i hg
    exact .out (by rw [hg]; decide) (.inl rfl)
  | outClosed =>
    simp only [act] at h
    split at h <;> cases h
    rename_i hg
    exact .out (by rw [hg]; decide) (.inr (.inr rfl))
  | outAcquire =>
    simp only [act] at h
    split at h <;> cases h
    rename_i hg
    exact .out (by rw [hg]; decide) (.inl rfl)
  | outSend =>
    simp only [act] at h
    split at h <;> cases h
    rename_i hg
    exact .out (by rw [hg]; decide) (.inr (.inl rfl))
  | outLeave =>
    simp only [act] at h
    split at h <;> cases h
    rename_i hg
    exact .outLeave (by rw [hg]; decide)

def Caller.unsent : Caller → Bool
  | .fresh | .sending => true
  | _ => false

def Caller.early : Caller → Bool
  | .fresh | .sending | .waiting => true
  | _ => false

structure Client.Inv (kind : Kind) (cl : Client) : Prop where
  unsent : cl.caller.unsent = true → cl.ctx.done = false ∧ cl.heard = false
  early : cl.caller.early = true → Settled kind cl ∧ cl.watch = .off ∧ cl.out = .off
  got : cl.ctx.getClosed = true → cl.ctx.done = true
  removed : cl.caller ≠ .fresh → cl.ctx.inMap = false → cl.ctx.done = true
  /-- The ack comes before the StreamEnd, and is not lost with the record in the map. -/
  waited : cl.caller = .waiting → cl.heard = true ∨ cl.ctx.done = true → cl.ctx.acked = true ∨ cl.ctx.inMap = false
  established : cl.caller = .established → cl.ctx.acked = true
  out : cl.out ≠ .off → cl.caller = .established

theorem Client.Inv.isClosed_done (hi : cl.Inv kind) (h : cl.ctx.isClosed kind = true) :
    cl.ctx.done = true := by
  unfold Ctx.isClosed at h
  split at h
  · exact hi.got (Bool.and_eq_true_iff.mp h).1
  · exact h

theorem Client.Inv.not_closed (hi : cl.Inv kind) (h : cl.ctx.done = false) :
    cl.ctx.isClosed kind = false := by
  cases hc : cl.ctx.isClosed kind with
  | false => rfl
  | true =>
    rw [hi.isClosed_done hc] at h
    cases h

/-- A goroutine that announced its `Close` settles the record only by its deletion. -/
theorem Settled.deleted (h : Settled kind cl) (hc : cl.closing = true) : cl.ctx.inMap = false := by
  rcases h with h | ⟨-, h⟩
  · exact h
  · rw [hc] at h
    cases h

@[simp] theorem deleteIf_done (p : Ctx × Bool) :
    (Ctx.deleteIf p).done = p.1.done := by unfold Ctx.deleteIf; split <;> rfl
@[simp] theorem deleteIf_acked (p : Ctx × Bool) :
    (Ctx.deleteIf p).acked = p.1.acked := by unfold Ctx.deleteIf; split <;> rfl
@[simp] theorem deleteIf_getClosed (p : Ctx × Bool) :
    (Ctx.deleteIf p).getClosed = p.1.getClosed := by unfold Ctx.deleteIf; split <;> rfl
@[simp] theorem deleteIf_putClosed (p : Ctx × Bool) :
    (Ctx.deleteIf p).putClosed = p.1.putClosed := by unfold Ctx.deleteIf; split <;> rfl
@[simp] theorem deleteIf_inMap (p : Ctx × Bool) : (Ctx.deleteIf p).inMap = (p.1.inMap && !p.2) := by
  unfold Ctx.deleteIf
  split <;> simp [Ctx.delete, *]

@[simp] theorem tryPutClose_getClosed (kind : Kind) (r : Ctx) :
    (r.tryPutClose kind).1.getClosed = r.getClosed := by
  unfold Ctx.tryPutClose
  split <;> rfl

@[simp] theorem tryPutClose_acked (kind : Kind) (r : Ctx) : (r.tryPutClose kind).1.acked = r.acked := by
  unfold Ctx.tryPutClose
  split <;> rfl

theorem tryPutClose_done (kind : Kind) (r : Ctx) (h : r.done = true) :
    (r.tryPutClose kind).1.done = true := by
  unfold Ctx.tryPutClose
  split
  · rfl
  · exact h

/-- The client's steps keep the record settled, or announce that they do not. -/
theorem Client.Acts.settled (hi : cl.Inv kind) (h : cl.Acts kind cl' ws) (hs : Settled kind cl) :
    Settled kind cl' ∨ ToServer.cancel ∈ ws := by
  cases h with
  | issue h =>
    obtain ⟨-, hw, -⟩ := hi.early (by rw [h]; rfl)
    obtain ⟨hd, -⟩ := hi.unsent (by rw [h]; rfl)
    refine .inl (.inr ⟨hi.not_closed hd, ?_⟩)
    simp [closing, hw]
  | send h =>
    obtain ⟨hs, hw, -⟩ := hi.early (by rw [h]; rfl)
    exact .inl (hs.imp_right fun h => ⟨h.1, by simp [closing, hw]⟩)
  | ack h ha =>
    obtain ⟨hs, hw, -⟩ := hi.early (by rw [h]; rfl)
    refine .inl (hs.imp ?_ fun h => ⟨?_, ?_⟩)
    · cases kind <;> exact id
    · cases kind <;> exact h.1
    · cases kind <;> simp [closing, establish, hw]
  | refused h hd ha =>
    -- either the ack never came, which leaves an ErrorResponse, or the record was closed
    have hmap : cl.ctx.inMap = false := by
      rcases ha with ha | ⟨hg, hp⟩
      · exact (hi.waited h (.inr hd)).resolve_left (by rw [ha]; decide)
      · refine hs.resolve_right fun hopen => ?_
        have := hopen.1
        simp [Ctx.isClosed, hg, hp, hd] at this
    exact .inl (.inl hmap)
  | timeout h => exact .inr (List.mem_singleton.mpr rfl)
  | abort h => exact .inl (.inl (hs.deleted (by simp [closing, h])))
  | watchCancel h => exact .inr (List.mem_singleton.mpr rfl)
  | watchClose h => exact .inl (.inl (hs.deleted (by simp [closing, h])))
  | watchDone h => exact .inl (hs.imp_right fun hc => ⟨hc.1, by simpa [closing, h] using hc.2⟩)
  | cancel h h' => exact .inl hs
  | grant h => exact .inl hs
  | out h hws => exact .inl hs
  | outLeave h =>
    refine .inl ?_
    rcases hs with hs | ⟨hopen, hc⟩
    · refine .inl ?_
      rw [deleteIf_inMap]
      unfold Ctx.tryPutClose
      split <;> simp [hs]
    · unfold Ctx.isClosed at hopen
      by_cases hput : kind = .putStream
      · exact .inl (by simp [Ctx.tryPutClose, hput])
      · cases hg : cl.ctx.getClosed with
        | true => exact .inl (by simp [Ctx.tryPutClose, hput, hg])
        | false =>
          refine .inr ⟨?_, hc⟩
          unfold Ctx.isClosed
          split
          · simp [hg]
          · rename_i hk
            rw [if_neg hk] at hopen
            simpa [Ctx.tryPutClose, hput] using hopen

/-- A record that `streamOut` deletes is closed. -/
theorem tryPutClose_deleted {kind : Kind} {r : Ctx} (hr : r.inMap = false → r.done = true)
    (hg : r.getClosed = true → r.done = true) (h : (Ctx.deleteIf (r.tryPutClose kind)).inMap = false) :
    (r.tryPutClose kind).1.done = true := by
  rw [deleteIf_inMap] at h
  unfold Ctx.tryPutClose at h ⊢
  split
  · rfl
  · rename_i hk
    simp only [hk, if_false] at h
    cases hgc : r.getClosed with
    | true => exact hg hgc
    | false => exact hr (by simpa [hgc] using h)

structure Client.Moves (cl cl' : Client) (ws : List ToServer) : Prop where
  done : cl.ctx.done = true → cl'.ctx.done = true
  heard : cl'.heard = cl.heard
  acked : cl'.ctx.acked = cl.ctx.acked
  sends : cl.caller.unsent = true → cl'.caller = .sending ∧ ws = [] ∨ cl.caller = .sending ∧
    cl'.caller = .waiting ∧ ws = [.request]
  sent : cl.caller.unsent = false → cl'.caller.unsent = false ∧ ToServer.request ∉ ws
  fin : ToServer.fin ∈ ws → cl'.caller = .established
  established : cl.caller = .established → cl'.caller = .established
  establishes : cl'.caller = .established → cl.caller = .established ∨ cl.caller = .waiting

theorem Client.Acts.moves (hi : cl.Inv kind) (h : cl.Acts kind cl' ws) : cl.Moves cl' ws := by
  have hout : cl.out ≠ .off → cl.caller = .established := hi.out
  have hwatch : cl.watch ≠ .off → cl.caller.unsent = false := fun hw => by
    cases hc : cl.caller.unsent with
    | false => rfl
    | true => exact absurd (hi.early (by cases h : cl.caller <;> simp_all [Caller.unsent, Caller.early])).2.1 hw
  cases h with
  | issue h =>
    exact ⟨id, rfl, rfl, fun _ => .inl ⟨rfl, rfl⟩, by simp [h, Caller.unsent], by simp, by simp [h], by simp⟩
  | send h =>
    exact ⟨id, rfl, rfl, fun _ => .inr ⟨h, rfl, rfl⟩, by simp [h, Caller.unsent], by simp, by simp [h], by simp⟩
  | ack h ha =>
    cases kind <;> exact ⟨id, rfl, rfl, by simp [h, Caller.unsent], fun _ => ⟨rfl, by simp⟩, by simp,
      by simp [h], fun _ => .inr h⟩
  | refused h hd ha =>
    exact ⟨fun _ => rfl, rfl, rfl, by simp [h, Caller.unsent], fun _ => ⟨rfl, by simp⟩, by simp, by simp [h], by simp⟩
  | timeout h =>
    exact ⟨id, rfl, rfl, by simp [h, Caller.unsent], fun _ => ⟨rfl, by simp⟩, by simp, by simp [h], by simp⟩
  | abort h =>
    exact ⟨fun _ => rfl, rfl, rfl, by simp [h, Caller.unsent], fun _ => ⟨rfl, by simp⟩, by simp, by simp [h], by simp⟩
  | watchCancel h =>
    have hu := hwatch (by rw [h]; decide)
    exact ⟨id, rfl, rfl, by simp [hu], fun _ => ⟨hu, by simp⟩, by simp, id, .inl⟩
  | watchClose h =>
    have hu := hwatch (by rw [h]; decide)
    exact ⟨fun _ => rfl, rfl, rfl, by simp [hu], fun _ => ⟨hu, by simp⟩, by simp, id, .inl⟩
  | watchDone h =>
    have hu := hwatch (by rw [h]; decide)
    exact ⟨id, rfl, rfl, by simp [hu], fun _ => ⟨hu, by simp⟩, by simp, id, .inl⟩
  | cancel h h' =>
    have hu : cl.caller.unsent = false := by cases hc : cl.caller <;> simp_all [Caller.unsent]
    exact ⟨id, rfl, rfl, by simp [hu], fun _ => ⟨hu, by simp⟩, by simp, id, .inl⟩
  | grant h => exact ⟨id, rfl, rfl, by simp [h, Caller.unsent], fun hu => ⟨hu, by simp⟩, by simp, id, .inl⟩
  | out h hws =>
    have he := hout h
    exact ⟨id, rfl, rfl, by simp [he, Caller.unsent],
      fun hu => ⟨hu, by rcases hws with rfl | rfl | rfl <;> simp⟩, fun _ => he, id, .inl⟩
  | outLeave h =>
    have he := hout h
    exact ⟨fun hd => by simpa using tryPutClose_done kind _ hd, rfl, by simp, by simp [he, Caller.unsent],
      fun hu => ⟨hu, by simp⟩,
      by simp, id, .inl⟩

theorem Client.Acts.inv (hi : cl.Inv kind) (h : cl.Acts kind cl' ws) : cl'.Inv kind := by
  have hset := h.settled hi
  cases h with
  | issue h =>
    obtain ⟨hs, hw, ho⟩ := hi.early (by rw [h]; rfl)
    exact ⟨fun _ => hi.unsent (by rw [h]; rfl), fun _ => ⟨(hset hs).resolve_right (by simp), hw, ho⟩,
      hi.got, by simp, by simp, by simp,
      fun hne => absurd ho hne⟩
  | send h =>
    obtain ⟨hs, hw, ho⟩ := hi.early (by rw [h]; rfl)
    obtain ⟨hd, hh⟩ := hi.unsent (by rw [h]; rfl)
    exact ⟨by simp [Caller.unsent], fun _ => ⟨(hset hs).resolve_right (by simp), hw, ho⟩, hi.got,
      fun _ => hi.removed (by simp [h]),
      by simp [hd, hh], by simp, fun hne => absurd ho hne⟩
  | ack h ha =>
    obtain ⟨-, -, ho⟩ := hi.early (by rw [h]; rfl)
    have hr := hi.removed (by simp [h])
    cases kind with
    | unary =>
      exact ⟨by simp [establish, Caller.unsent], by simp [establish, Caller.early], hi.got, fun _ => hr,
        by simp [establish],
        by simp [establish], fun hne => absurd ho hne⟩
    | getStream =>
      exact ⟨by simp [establish, Caller.unsent], by simp [establish, Caller.early], hi.got, fun _ => hr,
        by simp [establish],
        fun _ => ha, fun _ => rfl⟩
    | putStream =>
      exact ⟨by simp [establish, Caller.unsent], by simp [establish, Caller.early], hi.got, fun _ => hr,
        by simp [establish],
        fun _ => ha, fun _ => rfl⟩
    | chat =>
      exact ⟨by simp [establish, Caller.unsent], by simp [establish, Caller.early], hi.got, fun _ => hr,
        by simp [establish],
        fun _ => ha, fun _ => rfl⟩
  | refused h hd ha =>
    obtain ⟨-, -, ho⟩ := hi.early (by rw [h]; rfl)
    exact ⟨by simp [Caller.unsent], by simp [Caller.early], fun _ => rfl, fun _ _ => rfl, by simp, by simp,
      fun hne => absurd ho hne⟩
  | timeout h =>
    obtain ⟨-, -, ho⟩ := hi.early (by rw [h]; rfl)
    exact ⟨by simp [Caller.unsent], by simp [Caller.early], hi.got, fun _ => hi.removed (by simp [h]),
      by simp, by simp,
      fun hne => absurd ho hne⟩
  | abort h =>
    exact ⟨by simp [Caller.unsent], by simp [Caller.early], fun _ => rfl, fun _ _ => rfl, by simp, by simp,
      fun hne => absurd (hi.out hne) (by simp [h])⟩
  | watchCancel h =>
    exact ⟨hi.unsent, fun he => absurd (hi.early he).2.1 (by simp [h]), hi.got, hi.removed, hi.waited,
      hi.established, hi.out⟩
  | watchClose h =>
    have hearly : cl.caller.early ≠ true := fun he => absurd (hi.early he).2.1 (by simp [h])
    exact ⟨fun hu => absurd (by cases hc : cl.caller <;> simp_all [Caller.unsent, Caller.early]) hearly,
      fun he => absurd he hearly,
      fun _ => rfl, fun _ _ => rfl, fun hc => absurd (by simp_all [Caller.early]) hearly, hi.established, hi.out⟩
  | watchDone h =>
    exact ⟨hi.unsent, fun he => absurd (hi.early he).2.1 (by simp [h]), hi.got, hi.removed, hi.waited,
      hi.established, hi.out⟩
  | cancel h h' => exact hi
  | grant h => exact hi
  | out h hws =>
    have he := hi.out h
    exact ⟨hi.unsent, fun hearly => absurd (hi.early hearly).2.2 h, hi.got, hi.removed, hi.waited,
      hi.established, fun _ => he⟩
  | outLeave h =>
    have he := hi.out h
    refine ⟨by simp [he, Caller.unsent], by simp [he, Caller.early], fun hg => ?_, fun hne hm => ?_,
      by simp [he], fun _ => ?_, fun _ => he⟩
    · rw [deleteIf_getClosed, tryPutClose_getClosed] at hg
      rw [deleteIf_done]
      exact tryPutClose_done kind _ (hi.got hg)
    · rw [deleteIf_done]
      exact tryPutClose_deleted (hi.removed hne) hi.got hm
    · rw [deleteIf_acked, tryPutClose_acked]
      exact hi.established he

theorem Client.Inv.update {r : Ctx} {heard : Bool} (hi : cl.Inv kind) (hu : cl.caller.unsent = false)
    (hset : Settled kind cl → Settled kind { cl with ctx := r, heard := heard })
    (hgot : r.getClosed = true → r.done = true) (hrem : r.inMap = false → r.done = true)
    (hwait : cl.caller = .waiting → heard = true ∨ r.done = true → r.acked = true ∨ r.inMap = false)
    (hack : cl.ctx.acked = true → r.acked = true) : Inv kind { cl with ctx := r, heard := heard } where
  unsent := fun h => absurd (h.symm.trans hu) (by decide)
  early := fun h => ⟨hset (hi.early h).1, (hi.early h).2⟩
  got := hgot
  removed := fun _ => hrem
  waited := hwait
  established := fun h => hack (hi.established h)
  out := hi.out

theorem tryGetClose_settled (cl : Client) (hc : kind = .chat → cl.closing = false) (heard : Bool) :
    Settled kind { cl with ctx := Ctx.deleteIf (cl.ctx.tryGetClose kind), heard := heard } := by
  by_cases hk : kind = .chat
  · cases hp : cl.ctx.putClosed with
    | true => exact .inl (by simp [Ctx.tryGetClose, hk, hp])
    | false => exact .inr ⟨by simp [Ctx.isClosed, Ctx.tryGetClose, hk, hp], hc hk⟩
  · exact .inl (by simp [Ctx.tryGetClose, hk])

theorem processResponse_value (r : Ctx) :
    processResponse kind r .value = if r.done && !r.cancelOnce then ({ r with cancelOnce := true },
      [.cancel]) else (r, []) := rfl

theorem processResponse_ready (r : Ctx) : processResponse kind r .ready = (r.notifyResult, []) := rfl

theorem Client.recv_done (h : cl.ctx.done = true) : (cl.recv kind f).1.ctx.done = true := by
  unfold recv
  split
  · cases f with
    | result => rfl
    | error => rfl
    | ready => exact h
    | value =>
      rw [processResponse_value]
      split <;> exact h
    | fin => exact (deleteIf_done _).trans (by simp [Ctx.tryGetClose])
    | credit => exact h
  · exact h

/-- The response loop sends nothing but CancelRequest. -/
theorem Client.recv_sends (kind : Kind) (cl : Client) (f : ToClient) :
    ∀ w ∈ (cl.recv kind f).2, w = ToServer.cancel := by
  unfold recv
  split
  · cases f with
    | value =>
      rw [processResponse_value]
      split <;> simp
    | _ => exact nofun
  · simp

@[simp] theorem Client.recv_caller (cl : Client) (f : ToClient) : (cl.recv kind f).1.caller = cl.caller := by
  unfold recv
  split <;> rfl

@[simp] theorem Client.recv_heard (cl : Client) (f : ToClient) :
    (cl.recv kind f).1.heard = (cl.heard || f == .ready) := by
  unfold recv
  split <;> rfl

/-- A frame leaves a settled record settled, and a last one leaves it closed. -/
theorem Client.recv_spec (hi : cl.Inv kind) (hu : cl.caller.unsent = false)
    (hfin : f = .fin → cl.heard = true) (hc : kind = .chat → f = .fin → cl.closing = false) :
    (cl.recv kind f).1.Inv kind ∧ (Settled kind cl → Settled kind (cl.recv kind f).1) ∧
      (f.last = true → Settled kind (cl.recv kind f).1 ∧ (cl.recv kind f).1.ctx.done = true) := by
  have hrem := hi.removed fun h => by simp [h, Caller.unsent] at hu
  unfold Client.recv
  cases hm : cl.ctx.inMap with
  | false =>
    have hset : Settled kind { cl with heard := cl.heard || f == .ready } := .inl hm
    exact ⟨hi.update hu (fun _ => hset) hi.got hrem (fun _ _ => .inr hm) id, fun _ => hset, fun _ => ⟨hset, hrem hm⟩⟩
  | true =>
    have hwait : cl.caller = .waiting → cl.heard = true ∨ cl.ctx.done = true → cl.ctx.acked = true := fun h h' =>
      (hi.waited h h').resolve_right (by rw [hm]; decide)
    have hw : cl.caller = .waiting → (cl.heard || false) = true ∨ cl.ctx.done = true →
      cl.ctx.acked = true ∨ cl.ctx.inMap = false :=
      fun h h' => .inl (hwait h (by rwa [Bool.or_false] at h'))
    simp only [if_true]
    cases f with
    | result =>
      have hset : Settled kind { cl with
        ctx := cl.ctx.notifyResult.close.delete, heard := cl.heard || false } := .inl rfl
      refine ⟨hi.update hu (fun _ => hset) (fun _ => rfl) (fun _ => rfl) (fun _ _ => .inr rfl) fun h => ?_,
        fun _ => hset, fun _ => ⟨hset, rfl⟩⟩
      show (cl.ctx.acked || !cl.ctx.done) = true
      rw [h, Bool.true_or]
    | error =>
      have hset : Settled kind { cl with ctx := cl.ctx.close.delete, heard := cl.heard || false } := .inl rfl
      exact ⟨hi.update hu (fun _ => hset) (fun _ => rfl) (fun _ => rfl) (fun _ _ => .inr rfl) id,
        fun _ => hset, fun _ => ⟨hset, rfl⟩⟩
    | ready =>
      refine ⟨hi.update hu id hi.got hrem (fun h _ => .inl ?_) fun h =>
        (by simp [processResponse_ready, Ctx.notifyResult, h]), id,
        by simp [ToClient.last]⟩
      cases hd : cl.ctx.done with
      | true => simp [processResponse_ready, Ctx.notifyResult, hwait h (.inr hd)]
      | false => simp [processResponse_ready, Ctx.notifyResult, hd]
    | value =>
      rw [processResponse_value]
      split
      · exact ⟨hi.update hu id hi.got hrem hw id, id, by simp [ToClient.last]⟩
      · exact ⟨hi.update hu id hi.got hrem hw id, id, by simp [ToClient.last]⟩
    | fin =>
      have hdone : (Ctx.deleteIf (cl.ctx.tryGetClose kind)).done = true := by simp [Ctx.tryGetClose]
      have hack : (Ctx.deleteIf (cl.ctx.tryGetClose kind)).acked = cl.ctx.acked := by simp [Ctx.tryGetClose]
      have hset := tryGetClose_settled cl (fun hk => hc hk rfl) (cl.heard || false)
      exact ⟨hi.update hu (fun _ => hset) (fun _ => hdone) (fun _ => hdone)
        (fun h _ => .inl (hack.trans (hwait h (.inl (hfin rfl)))))
        fun h => hack.trans h, fun _ => hset, fun _ => ⟨hset, hdone⟩⟩
    | credit =>
      exact ⟨hi.update hu id hi.got hrem hw id, id, by simp [ToClient.last]⟩

/-! ## The server -/

/-- A last frame is to come from the handler or from the streamer, unless the gate is closed
    on it. -/
def Server.Owes (sv : Server) : Prop :=
  sv.handler ≠ .idle ∨ sv.streamer.alive = true ∧ (sv.streamer = .hold → sv.closed = false)

def Streamer.past : Streamer → Bool
  | .off | .ready => false
  | _ => true

structure Server.Moves (kind : Kind) (e : ServerEv) (sv sv' : Server) (fs : List ToClient) : Prop where
  owes : sv.Owes → sv'.Owes ∨ fs.any ToClient.last = true ∨ kind = .putStream ∧ e = .returns true
  serving : sv.streamer = .off → sv.serving = true → sv'.serving = true ∨ fs.any ToClient.last = true
  served : sv'.serving = true → sv.serving = true ∨ sv.handler = .spawned
  off : kind = .putStream → sv.streamer = .off → sv'.streamer = .off
  past : sv'.streamer.past = true → sv.streamer.past = true ∨ ToClient.ready ∈ fs
  fin : ToClient.fin ∈ fs → sv.streamer.past = true
  touched : sv.handler ≠ .idle ∨ sv.streamer ≠ .off ∨ sv.registered = true
  spawned : sv'.handler = .spawned → sv.handler = .spawned ∧ (sv.streamer ≠ .off ∨ sv.registered = true)

theorem Server.returns_moves (kind : Kind) (ok : Bool) (h : sv.handler = .running) :
    Moves kind (.returns ok) sv (sv.returns kind ok).1 (sv.returns kind ok).2 := by
  have ht : sv.handler ≠ .idle ∨ sv.streamer ≠ .off ∨ sv.registered = true := .inl (by simp [h])
  cases ok with
  | true =>
    cases kind with
    | unary =>
      exact ⟨fun _ => .inr (.inl rfl), fun _ hs => .inl hs, .inl, by simp, .inl, by simp [returns], ht,
        by simp [returns]⟩
    | putStream =>
      exact ⟨fun _ => .inr (.inr ⟨rfl, rfl⟩), fun _ hs => .inl hs, .inl, fun _ => id, .inl,
        by simp [returns], ht, by simp [returns]⟩
    | _ =>
      -- the two that start a streamer
      exact ⟨fun _ => .inl (.inr ⟨rfl, by simp [returns]⟩), fun _ hs => .inl hs, .inl, by simp,
        by simp [returns, Streamer.past],
        by simp [returns], ht, by simp [returns]⟩
  | false =>
    cases kind with
    | unary =>
      exact ⟨fun _ => .inr (.inl rfl), fun _ hs => .inl hs, .inl, by simp, .inl, by simp [returns], ht,
        by simp [returns]⟩
    | _ =>
      -- every stream is closed with its error
      exact ⟨fun _ => .inr (.inl rfl), fun _ _ => .inr rfl, by simp [returns, closeRequest],
        by simp [returns, closeRequest], .inl,
        by simp [returns], ht, by simp [returns, closeRequest]⟩

theorem Server.Moves.stream {pc : Streamer} {serving closed : Bool} (h : sv.streamer ≠ .off)
    (howes : sv.streamer.alive = true → (sv.streamer = .hold → sv.closed = false) →
      (pc.alive = true ∧ (pc = .hold → closed = false)) ∨ fs.any ToClient.last = true)
    (hserved : serving = true → sv.serving = true) (hpast : pc.past = true → sv.streamer.past = true ∨
      ToClient.ready ∈ fs)
    (hfin : ToClient.fin ∈ fs → sv.streamer.past = true) :
    Moves kind e sv { sv with streamer := pc, serving := serving, closed := closed } fs where
  owes := fun ho => by
    rcases ho with ho | ⟨ha, hh⟩
    · exact .inl (.inl ho)
    · exact (howes ha hh).imp .inr .inl
  serving := fun hoff => absurd hoff h
  served := fun hs => .inl (hserved hs)
  off := fun _ hoff => absurd hoff h
  past := hpast
  fin := hfin
  touched := .inr (.inl h)
  spawned := fun hs => ⟨hs, .inl h⟩

theorem Server.act_moves (hp : e ≠ .panics) (h : sv.act kind e = some (sv', fs)) :
    Moves kind e sv sv' fs := by
  cases e with
  | register =>
    simp only [act] at h
    split at h <;> cases h
    rename_i hsp
    have ht : sv.handler ≠ .idle ∨ sv.streamer ≠ .off ∨ sv.registered = true := .inl (by simp [hsp])
    split
    · exact ⟨fun _ => .inl (.inl (by simp)), fun _ hs => .inl hs, .inl, fun _ => id, .inl, by simp, ht, by simp⟩
    · exact ⟨fun _ => .inl (.inl (by simp)), fun _ _ => .inl rfl, fun _ => .inr hsp, fun _ => id, .inl,
        by simp, ht, by simp⟩
  | reject =>
    simp only [act] at h
    split at h <;> cases h
    rename_i hsp
    exact ⟨fun _ => .inr (.inl rfl), fun _ hs => .inl hs, .inl, fun _ => id, .inl, by simp,
      .inl (by simp [hsp]), by simp⟩
  | returns ok =>
    simp only [act] at h
    split at h
    · obtain ⟨rfl, rfl⟩ := Prod.ext_iff.mp (Option.some.inj h)
      exact returns_moves kind ok ‹_›
    · cases h
  | panics => exact absurd rfl hp
  | grant =>
    simp only [act] at h
    split at h <;> cases h
    rename_i hg
    exact ⟨.inl, fun _ hs => .inl hs, .inl, fun _ => id, .inl, by simp, .inr (.inr hg.1), fun hs => ⟨hs, .inr hg.1⟩⟩
  | streamRecv =>
    simp only [act] at h
    split at h <;> cases h
    rename_i hpc
    refine .stream (by simp [hpc]) (fun _ _ => .inl ?_) id (fun _ => .inl (by rw [hpc]; rfl)) (by simp)
    cases hc : sv.closed <;> simp [Streamer.alive]
  | streamClosed =>
    simp only [act] at h
    split at h <;> cases h
    rename_i hpc
    exact .stream (by simp [hpc]) (fun _ _ => .inl ⟨rfl, by simp⟩) id (fun _ => .inl (by rw [hpc]; rfl)) (by simp)
  | streamDone =>
    simp only [act] at h
    split at h <;> cases h
    rename_i hpc
    exact .stream (by simp [hpc.1]) (fun _ _ => .inl ⟨rfl, by simp⟩) id (fun _ => .inl (by rw [hpc.1]; rfl)) (by simp)
  | stream =>
    simp only [act, Server.stream] at h
    cases hpc : sv.streamer with
    | off => simp [hpc] at h
    | recv => simp [hpc] at h
    | ended => simp [hpc] at h
    | ready =>
      simp only [hpc] at h
      cases h
      exact .stream (by simp [hpc]) (fun _ _ => .inl ⟨rfl, by simp⟩) id (fun _ => .inr (by simp)) (by simp)
    | hold =>
      simp only [hpc] at h
      split at h <;> cases h
      · rename_i hc
        exact .stream (by simp [hpc]) (fun _ hh => absurd (hh hpc) (by simp [hc])) nofun
          (fun _ => .inl (by rw [hpc]; rfl)) (by simp)
      · exact .stream (by simp [hpc]) (fun _ _ => .inl ⟨rfl, by simp⟩) id (fun _ => .inl (by rw [hpc]; rfl)) (by simp)
    | send =>
      simp only [hpc] at h
      cases h
      exact .stream (by simp [hpc]) (fun _ _ => .inl ⟨rfl, by simp⟩) id (fun _ => .inl (by rw [hpc]; rfl)) (by simp)
    | ends =>
      simp only [hpc] at h
      cases h
      exact .stream (by simp [hpc]) (fun _ _ => .inr rfl) id (fun _ => .inl (by rw [hpc]; rfl)) fun _ =>
        by rw [hpc]; rfl
    | retire =>
      simp only [hpc] at h
      cases h
      exact .stream (by simp [hpc]) (fun ha _ => by simp [hpc, Streamer.alive] at ha) nofun
        (fun _ => .inl (by rw [hpc]; rfl)) (by simp)

/-- The read loop on a frame other than the request. -/
structure Server.Reads (kind : Kind) (f : ToServer) (sv sv' : Server) (fs : List ToClient) : Prop where
  owes : (f = .cancel → sv.streamer ≠ .hold) → sv.Owes → sv'.Owes ∨ fs.any ToClient.last = true
  serving : sv.serving = true → sv'.serving = true ∨ fs.any ToClient.last = true ∨ f = .cancel ∨
    kind = .putStream ∧ f = .fin
  served : sv'.serving = true → sv.serving = true ∧ f ≠ .cancel
  streamer : sv'.streamer = sv.streamer
  handler : sv'.handler = sv.handler
  registered : sv'.registered = sv.registered
  fin : ToClient.fin ∉ fs
  unserved : sv.serving = false → sv' = sv ∧ fs = []

theorem Server.recv_reads (kind : Kind) (sv : Server) {f : ToServer} (hf : f ≠ .request) (exceeds : Bool) :
    Reads kind f sv (sv.recv kind exceeds f).1 (sv.recv kind exceeds f).2 := by
  have hsame : ∀ {f : ToServer}, (sv.serving = true → f ≠ .cancel) → Reads kind f sv sv [] := fun hne =>
    ⟨fun _ => .inl, .inl, fun hs => ⟨hs, hne hs⟩, rfl, rfl, rfl, by simp, fun _ => ⟨rfl, rfl⟩⟩
  cases f with
  | request => exact absurd rfl hf
  | cancel =>
    simp only [recv]
    split
    · rename_i hs
      exact ⟨fun hne ho => .inl (ho.imp_right fun h => ⟨h.1, fun hh => absurd hh (hne rfl)⟩),
        fun _ => .inr (.inr (.inl rfl)),
        by simp [closeRequest], rfl, rfl, rfl, by simp, by simp [hs]⟩
    · exact hsame (by simp [*])
  | value =>
    simp only [recv]
    split
    · rename_i hs
      simp only [Bool.and_eq_true] at hs
      exact ⟨fun _ _ => .inr rfl, fun _ => .inr (.inl rfl), by simp [closeRequest], rfl, rfl, rfl, by simp,
        by simp [hs.1.1]⟩
    · exact hsame (by simp)
  | fin =>
    simp only [recv]
    split
    · rename_i hs
      simp only [Bool.and_eq_true, beq_iff_eq] at hs
      exact ⟨fun _ => .inl, fun _ => .inr (.inr (.inr ⟨hs.2, rfl⟩)), by simp, rfl, rfl, rfl, by simp, by simp [hs.1]⟩
    · exact hsame (by simp)
  | credit => exact hsame (by simp)

/-! ## The order of the frames -/

def Ordered (heard : Bool) : List ToClient → Prop
  | [] => True
  | .ready :: _ => True
  | .fin :: fs => heard = true ∧ Ordered heard fs
  | _ :: fs => Ordered heard fs

theorem ordered_heard (fs : List ToClient) : Ordered true fs := by
  induction fs with
  | nil => trivial
  | cons f fs ih =>
    cases f with
    | ready => trivial
    | fin => exact ⟨rfl, ih⟩
    | _ => exact ih

theorem Ordered.tail (h : Ordered heard (f :: fs)) :
    Ordered (heard || f == .ready) fs := by
  cases f with
  | ready =>
    rw [beq_self_eq_true, Bool.or_true]
    exact ordered_heard fs
  | fin =>
    rw [h.1]
    exact ordered_heard fs
  | _ => cases heard <;> exact h

theorem ordered_of_no_fin (h : ToClient.fin ∉ fs) : Ordered heard fs := by
  induction fs with
  | nil => trivial
  | cons f fs ih =>
    rw [List.mem_cons, not_or] at h
    cases f with
    | ready => trivial
    | fin => exact absurd rfl h.1
    | _ => exact ih h.2

theorem Ordered.append {l : List ToClient} (h : Ordered heard l)
    (hfin : ToClient.fin ∈ fs → heard = true ∨ ToClient.ready ∈ l) : Ordered heard (l ++ fs) := by
  induction l with
  | nil =>
    by_cases hm : ToClient.fin ∈ fs
    · rw [(hfin hm).resolve_right (by simp)]
      exact ordered_heard _
    · exact ordered_of_no_fin hm
  | cons f l ih =>
    cases f with
    | ready => trivial
    | fin => exact ⟨h.1, ih h.2 fun _ => .inl h.1⟩
    | _ => exact ih h fun hm => (hfin hm).imp_right fun hr => by simpa using hr

/-! ## The invariant -/

/-- A last frame is owed, or under way. -/
def Comes (s : St) : Prop := ToServer.request ∈ s.c2s ∨ s.sv.Owes ∨ s.s2c.any ToClient.last = true

/-- The record is settled, or a CancelRequest is under way. -/
def Announced (kind : Kind) (s : St) : Prop := Settled kind s.cl ∨ ToServer.cancel ∈ s.c2s

structure Untouched (s : St) : Prop where
  s2c : s.s2c = []
  heard : s.cl.heard = false
  acked : s.cl.ctx.acked = false
  registered : s.sv.registered = false
  serving : s.sv.serving = false
  streamer : s.sv.streamer = .off

structure Inv (kind : Kind) (s : St) : Prop where
  client : s.cl.Inv kind
  /-- Who owes the client something, by where the request is. -/
  main : s.cl.caller.unsent = true ∨ Comes s ∨ (kind = .putStream ∧ s.sv.serving = true) ∨
    (kind = .putStream ∨ s.cl.ctx.done = true) ∧ Announced kind s
  put : kind = .putStream → s.cl.caller = .established → s.sv.serving = true → Announced kind s
  unsent : s.cl.caller.unsent = true → s.c2s = [] ∧ s.sv.handler = .idle
  once : ToServer.request ∈ s.c2s → s.sv.handler = .idle ∧ ∃ rest, s.c2s = .request :: rest ∧ ToServer.request ∉ rest
  untouched : s.cl.caller.unsent = true ∨ ToServer.request ∈ s.c2s ∨ s.sv.handler = .spawned → Untouched s
  fin : ToServer.fin ∈ s.c2s → s.cl.caller = .established
  off : kind = .putStream → s.sv.streamer = .off
  past : s.sv.streamer.past = true → s.cl.heard = true ∨ ToClient.ready ∈ s.s2c
  ordered : Ordered s.cl.heard s.s2c

theorem inv_start (kind : Kind) : Inv kind start where
  client := ⟨fun _ => ⟨rfl, rfl⟩, fun _ => ⟨.inl rfl, rfl, rfl⟩, by simp [start], by simp [start],
    by simp [start], by simp [start],
    by simp [start]⟩
  main := .inl rfl
  put := nofun
  unsent := fun _ => ⟨rfl, rfl⟩
  once := nofun
  untouched := fun _ => ⟨rfl, rfl, rfl, rfl, rfl, rfl⟩
  fin := nofun
  off := fun _ => rfl
  past := nofun
  ordered := trivial

theorem inv_client (hi : Inv kind s) (h : s.cl.Acts kind cl' ws) :
    Inv kind { s with cl := cl', c2s := s.c2s ++ ws } := by
  have hm := h.moves hi.client
  have hann : Announced kind s → Announced kind { s with cl := cl', c2s := s.c2s ++ ws } := by
    rintro (hs | hc)
    · exact (h.settled hi.client hs).imp_right (List.mem_append_right _)
    · exact .inr (List.mem_append_left _ hc)
  have hunsent : cl'.caller.unsent = true → s.cl.caller.unsent = true := fun hu => by
    cases hc : s.cl.caller.unsent with
    | true => rfl
    | false =>
      rw [(hm.sent hc).1] at hu
      cases hu
  have hreq : ToServer.request ∈ s.c2s ++ ws → ToServer.request ∈ s.c2s ∧ ToServer.request ∉ ws ∨
      s.cl.caller.unsent = true ∧ ws = [.request] := fun hr => by
    cases hc : s.cl.caller.unsent with
    | false =>
      have hn := (hm.sent hc).2
      exact .inl ⟨(List.mem_append.mp hr).resolve_right hn, hn⟩
    | true =>
      rw [(hi.unsent hc).1, List.nil_append] at hr
      rcases hm.sends hc with ⟨-, rfl⟩ | ⟨-, -, hws⟩
      · cases hr
      · exact .inr ⟨rfl, hws⟩
  refine ⟨h.inv hi.client, ?_, ?_, ?_, ?_, ?_, ?_, hi.off, ?_, ?_⟩
  · rcases hi.main with hu | hc | hp | ⟨hd, ha⟩
    · rcases hm.sends hu with ⟨hs, -⟩ | ⟨-, -, hws⟩
      · exact .inl (by simp [hs, Caller.unsent])
      · exact .inr (.inl (.inl (by simp [hws])))
    · exact .inr (.inl (hc.imp_left (List.mem_append_left _)))
    · exact .inr (.inr (.inl hp))
    · exact .inr (.inr (.inr ⟨hd.imp_right hm.done, hann ha⟩))
  · intro hk he hs
    rcases hm.establishes he with he | hw
    · exact hann (hi.put hk he hs)
    · exact hann (.inl (hi.client.early (by rw [hw]; rfl)).1)
  · intro hu
    obtain ⟨hc, hh⟩ := hi.unsent (hunsent hu)
    rcases hm.sends (hunsent hu) with ⟨-, rfl⟩ | ⟨-, hw, -⟩
    · exact ⟨by rw [hc]; rfl, hh⟩
    · rw [hw] at hu
      cases hu
  · intro hr
    rcases hreq hr with ⟨hr, hn⟩ | ⟨hu, rfl⟩
    · obtain ⟨hh, rest, hc, hrest⟩ := hi.once hr
      exact ⟨hh, rest ++ ws, by rw [hc]; rfl, fun h => (List.mem_append.mp h).elim hrest hn⟩
    · obtain ⟨hc, hh⟩ := hi.unsent hu
      exact ⟨hh, [], by rw [hc]; rfl, by simp⟩
  · intro hu
    have hun : Untouched s := by
      rcases hu with hu | hr | hsp
      · exact hi.untouched (.inl (hunsent hu))
      · rcases hreq hr with ⟨hr, -⟩ | ⟨hu, -⟩
        · exact hi.untouched (.inr (.inl hr))
        · exact hi.untouched (.inl hu)
      · exact hi.untouched (.inr (.inr hsp))
    exact ⟨hun.s2c, hm.heard.trans hun.heard, hm.acked.trans hun.acked, hun.registered, hun.serving, hun.streamer⟩
  · intro hf
    rcases List.mem_append.mp hf with hf | hf
    · exact hm.established (hi.fin hf)
    · exact hm.fin hf
  · rw [hm.heard]
    exact hi.past
  · rw [hm.heard]
    exact hi.ordered

theorem inv_server (hi : Inv kind s) (ho : noPanicOrCancelRace kind s (.server e))
    (h : Server.Moves kind e s.sv sv' fs) : Inv kind { s with sv := sv', s2c := s.s2c ++ fs } := by
  have hlast : fs.any ToClient.last = true → (s.s2c ++ fs).any ToClient.last = true := fun h => by simp [h]
  -- a goroutine of the server runs, so it has begun on the request
  have hbegun : ¬ (s.cl.caller.unsent = true ∨ ToServer.request ∈ s.c2s) := fun hu => by
    have hun := hi.untouched (hu.imp_right .inl)
    have hh : s.sv.handler = .idle := hu.elim (fun hu => (hi.unsent hu).2) fun hr => (hi.once hr).1
    rcases h.touched with h | h | h
    · exact h hh
    · exact h hun.streamer
    · rw [hun.registered] at h
      cases h
  refine ⟨hi.client, ?_, ?_, fun hu => absurd (.inl hu) hbegun, fun hr => absurd (.inr hr) hbegun, ?_,
    hi.fin, fun hk => h.off hk (hi.off hk),
    ?_, hi.ordered.append fun hf => hi.past (h.fin hf)⟩
  · rcases hi.main with hu | (hr | ho' | hl) | ⟨hk, hs⟩ | hd
    · exact .inl hu
    · exact .inr (.inl (.inl hr))
    · rcases h.owes ho' with ho' | hl | ⟨hk, rfl⟩
      · exact .inr (.inl (.inr (.inl ho')))
      · exact .inr (.inl (.inr (.inr (hlast hl))))
      · -- a put-stream was accepted
        rcases ho hk with hs | ha
        · rcases h.serving (hi.off hk) hs with hs | hl
          · exact .inr (.inr (.inl ⟨hk, hs⟩))
          · exact .inr (.inl (.inr (.inr (hlast hl))))
        · exact .inr (.inr (.inr ⟨.inl hk, ha⟩))
    · exact .inr (.inl (.inr (.inr (by simp [hl]))))
    · rcases h.serving (hi.off hk) hs with hs | hl
      · exact .inr (.inr (.inl ⟨hk, hs⟩))
      · exact .inr (.inl (.inr (.inr (hlast hl))))
    · exact .inr (.inr (.inr hd))
  · intro hk he hs
    rcases h.served hs with hs | hsp
    · exact hi.put hk he hs
    · have := (hi.untouched (.inr (.inr hsp))).acked
      rw [hi.client.established he] at this
      cases this
  · intro hu
    rcases hu with hu | hr | hsp
    · exact absurd (.inl hu) hbegun
    · exact absurd (.inr hr) hbegun
    · obtain ⟨hsp, hrun⟩ := h.spawned hsp
      have hun := hi.untouched (.inr (.inr hsp))
      rw [hun.registered] at hrun
      exact absurd hun.streamer (hrun.resolve_right (by decide))
  · intro hp
    rcases h.past hp with hp | hr
    · exact (hi.past hp).imp_right (List.mem_append_left _)
    · exact .inr (List.mem_append_right _ hr)

theorem inv_clientRead {rest : List ToClient} (hi : Inv kind s) (ho : noPanicOrCancelRace kind s .clientRead)
    (hf : s.s2c = f :: rest) :
    Inv kind { s with cl := (s.cl.recv kind f).1, c2s := s.c2s ++ (s.cl.recv kind f).2, s2c := rest } := by
  have hbegun : ¬ (s.cl.caller.unsent = true ∨ ToServer.request ∈ s.c2s ∨ s.sv.handler = .spawned) := fun hu => by
    have := (hi.untouched hu).s2c
    rw [hf] at this
    cases this
  have hord := hi.ordered
  rw [hf] at hord
  have hu : s.cl.caller.unsent = false := Bool.eq_false_iff.mpr fun hu => hbegun (.inl hu)
  obtain ⟨hinv, hset, hlast⟩ :=
    Client.recv_spec hi.client hu (f := f) (fun h => (h ▸ hord : Ordered _ (.fin :: rest)).1) fun hk h =>
    ho hk (by rw [hf, h]; rfl)
  have hws := Client.recv_sends kind s.cl f
  have hann : Announced kind s →
    Announced kind { s with cl := (s.cl.recv kind f).1, c2s := s.c2s ++ (s.cl.recv kind f).2, s2c := rest } :=
    fun ha => ha.imp hset (List.mem_append_left _)
  have hnew : ∀ w, w ≠ ToServer.cancel → w ∈ s.c2s ++ (s.cl.recv kind f).2 → w ∈ s.c2s := fun w hw hm =>
    (List.mem_append.mp hm).resolve_right fun hm => hw (hws w hm)
  refine ⟨hinv, ?_, ?_, fun h => ?_, fun h => absurd (.inr (.inl (hnew _ (by decide) h))) hbegun,
    fun h => ?_, fun h => ?_, hi.off, ?_, ?_⟩
  · rcases hi.main with h | (hr | howes | hl) | hp | ⟨hd, ha⟩
    · rw [hu] at h
      cases h
    · exact .inr (.inl (.inl (List.mem_append_left _ hr)))
    · exact .inr (.inl (.inr (.inl howes)))
    · rw [hf, List.any_cons, Bool.or_eq_true] at hl
      rcases hl with hl | hl
      · obtain ⟨hs, hd⟩ := hlast hl
        exact .inr (.inr (.inr ⟨.inr hd, .inl hs⟩))
      · exact .inr (.inl (.inr (.inr hl)))
    · exact .inr (.inr (.inl hp))
    · exact .inr (.inr (.inr ⟨hd.imp_right Client.recv_done, hann ha⟩))
  · intro hk he hs
    rw [Client.recv_caller] at he
    exact hann (hi.put hk he hs)
  · rw [Client.recv_caller, hu] at h
    cases h
  · rw [Client.recv_caller] at h
    exact absurd (h.imp_right (Or.imp_left (hnew _ (by decide)))) hbegun
  · rw [Client.recv_caller]
    exact hi.fin (hnew _ (by decide) h)
  · intro hp
    rw [Client.recv_heard]
    have := hi.past hp
    rw [hf, List.mem_cons] at this
    rcases this with hh | rfl | hr
    · exact .inl (by rw [hh]; rfl)
    · exact .inl (by simp)
    · exact .inr hr
  · rw [Client.recv_heard]
    exact hord.tail

theorem inv_readRequest {rest : List ToServer} (exceeds : Bool) (hi : Inv kind s)
    (hf : s.c2s = .request :: rest) :
    Inv kind { s with
      sv := (s.sv.recv kind exceeds .request).1
      s2c := s.s2c ++ (s.sv.recv kind exceeds .request).2
      c2s := rest } := by
  have hr : ToServer.request ∈ s.c2s := by simp [hf]
  have hun := hi.untouched (.inr (.inl hr))
  obtain ⟨hh, rest', hc, hrest⟩ := hi.once hr
  have hrest : ToServer.request ∉ rest := by
    rw [hf] at hc
    cases hc
    exact hrest
  have hu : s.cl.caller.unsent ≠ true := fun hu => by
    have := (hi.unsent hu).1
    rw [hf] at this
    cases this
  simp only [Server.recv]
  split
  · refine ⟨hi.client, .inr (.inl (.inr (.inr (by simp [ToClient.last])))), fun _ _ hs => ?_, fun h => absurd h hu,
      fun h => absurd h hrest, fun h => ?_,
      fun h => hi.fin (by rw [hf]; exact List.mem_cons_of_mem _ h), hi.off, fun hp => ?_, hi.ordered.append (by simp)⟩
    · rw [hun.serving] at hs
      cases hs
    · rcases h with h | h | h
      · exact absurd h hu
      · exact absurd h hrest
      · rw [hh] at h
        cases h
    · rw [hun.streamer] at hp
      cases hp
  · refine ⟨hi.client, .inr (.inl (.inr (.inl (.inl (by simp))))), fun _ _ hs => ?_, fun h => absurd h hu,
      fun h => absurd h hrest, fun _ => ?_,
      fun h => hi.fin (by rw [hf]; exact List.mem_cons_of_mem _ h), hi.off, fun hp => ?_, hi.ordered.append (by simp)⟩
    · rw [hun.serving] at hs
      cases hs
    · exact ⟨by rw [hun.s2c]; rfl, hun.heard, hun.acked, hun.registered, hun.serving, hun.streamer⟩
    · rw [hun.streamer] at hp
      cases hp

theorem inv_readOther {f : ToServer} {rest : List ToServer} (exceeds : Bool) (hi : Inv kind s)
    (ho : noPanicOrCancelRace kind s (.serverRead exceeds)) (hf : s.c2s = f :: rest) (hne : f ≠ .request) :
    Inv kind { s with sv := (s.sv.recv kind exceeds f).1, s2c := s.s2c ++ (s.sv.recv kind exceeds f).2, c2s := rest } := by
  have hr := Server.recv_reads kind s.sv hne exceeds
  generalize (s.sv.recv kind exceeds f).1 = sv' at hr
  generalize (s.sv.recv kind exceeds f).2 = fs at hr
  have hu : s.cl.caller.unsent ≠ true := fun hu => by
    have := (hi.unsent hu).1
    rw [hf] at this
    cases this
  have hreq : ToServer.request ∉ rest := fun h => by
    obtain ⟨-, rest', hc, -⟩ := hi.once (by rw [hf]; exact List.mem_cons_of_mem _ h)
    rw [hf] at hc
    cases hc
    exact hne rfl
  have hlast : fs.any ToClient.last = true → (s.s2c ++ fs).any ToClient.last = true := fun h => by simp [h]
  have hmem : ∀ {w : ToServer}, w ∈ s.c2s → f = w ∨ w ∈ rest := fun h => by
    rw [hf, List.mem_cons] at h
    exact h.imp_left Eq.symm
  have hcond : f = .cancel → s.sv.streamer ≠ .hold ∧ (Answering s ∨ Settled kind s.cl ∨ ToServer.cancel ∈ rest) := by
    rintro rfl
    simpa only [noPanicOrCancelRace, hf] using ho
  -- a CancelRequest that was counted on
  have hcancel : f = .cancel → Comes { s with sv := sv', s2c := s.s2c ++ fs, c2s := rest } ∨
      Announced kind { s with sv := sv', s2c := s.s2c ++ fs, c2s := rest } := fun hc => by
    obtain ⟨hhold, ha | ha⟩ := hcond hc
    · refine .inl (.inr (ha.elim (fun h => .inl (.inl (by rw [hr.handler]; exact h))) fun h =>
        h.elim (fun h => .inl (.inr ?_)) fun h => .inr (by simp [h])))
      exact ⟨by rw [hr.streamer]; exact h, fun hh => absurd (hr.streamer ▸ hh) hhold⟩
    · exact .inr ha
  have hann : Announced kind s → Comes { s with sv := sv', s2c := s.s2c ++ fs, c2s := rest } ∨
      Announced kind { s with sv := sv', s2c := s.s2c ++ fs, c2s := rest } := by
    rintro (hs | hc)
    · exact .inr (.inl hs)
    · exact (hmem hc).elim hcancel fun h => .inr (.inr h)
  refine ⟨hi.client, ?_, ?_, fun h => absurd h hu, fun h => absurd h hreq, ?_,
    fun h => hi.fin (by rw [hf]; exact List.mem_cons_of_mem _ h),
    fun hk => hr.streamer.trans (hi.off hk), fun hp => ?_, hi.ordered.append fun h => absurd h hr.fin⟩
  · rcases hi.main with h | (hq | howes | hl) | ⟨hk, hs⟩ | ⟨hd, ha⟩
    · exact absurd h hu
    · exact absurd ((hmem hq).resolve_left hne) hreq
    · exact .inr (.inl (.inr ((hr.owes (fun h => (hcond h).1) howes).imp_right hlast)))
    · exact .inr (.inl (.inr (.inr (by simp [hl]))))
    · rcases hr.serving hs with hs | hl | hc | ⟨-, hfin⟩
      · exact .inr (.inr (.inl ⟨hk, hs⟩))
      · exact .inr (.inl (.inr (.inr (hlast hl))))
      · exact .inr ((hcancel hc).imp_right fun h => .inr ⟨.inl hk, h⟩)
      · have ha := hi.put hk (hi.fin (by rw [hf, hfin]; exact List.mem_cons_self ..)) hs
        exact .inr ((hann ha).imp_right fun h => .inr ⟨.inl hk, h⟩)
    · exact .inr ((hann ha).imp_right fun h => .inr ⟨hd, h⟩)
  · intro hk he hs
    obtain ⟨hs, hnc⟩ := hr.served hs
    exact (hi.put hk he hs).imp_right fun hc => (hmem hc).resolve_left hnc
  · intro h
    have hsp : s.sv.handler = .spawned := by
      rcases h with h | h | h
      · exact absurd h hu
      · exact absurd h hreq
      · exact hr.handler ▸ h
    have hun := hi.untouched (.inr (.inr hsp))
    obtain ⟨rfl, rfl⟩ := hr.unserved hun.serving
    exact ⟨by rw [hun.s2c]; rfl, hun.heard, hun.acked, hun.registered, hun.serving, hun.streamer⟩
  · have hp : sv'.streamer.past = true := hp
    rw [hr.streamer] at hp
    exact (hi.past hp).imp_right (List.mem_append_left _)

theorem inv_step {e : Ev} (hi : Inv kind s) (ho : noPanicOrCancelRace kind s e) (h : step kind s e = some t) :
    Inv kind t := by
  cases e with
  | client e =>
    obtain ⟨⟨cl', ws⟩, hact, rfl⟩ := Option.map_eq_some_iff.mp h
    exact inv_client hi (Client.act_cases hact)
  | server e =>
    obtain ⟨⟨sv', fs⟩, hact, rfl⟩ := Option.map_eq_some_iff.mp h
    refine inv_server hi ho (Server.act_moves ?_ hact)
    rintro rfl
    exact ho
  | clientRead =>
    simp only [step] at h
    cases hf : s.s2c with
    | nil => simp [hf] at h
    | cons f rest =>
      simp only [hf] at h
      cases h
      exact inv_clientRead hi ho hf
  | serverRead exceeds =>
    simp only [step] at h
    cases hf : s.c2s with
    | nil => simp [hf] at h
    | cons f rest =>
      simp only [hf] at h
      cases h
      by_cases hne : f = .request
      · subst hne
        exact inv_readRequest exceeds hi hf
      · exact inv_readOther exceeds hi ho hf hne

theorem inv_reach (h : (sys kind).Reach (noPanicOrCancelRace kind) s) : Inv kind s := by
  refine h.inv (P := Inv kind) (fun s hs => ?_) fun _ _ _ hi ho hs => inv_step hi ho hs
  cases hs
  exact inv_start kind

/-! ## The result -/

/-- A server that is done with an id leaves neither a closed record nor a waiting consumer. -/
theorem Inv.quiet (hi : Inv kind s) (hq : Quiet s) : ¬ Stale kind s ∧ ¬ Waits kind s := by
  obtain ⟨hh, hst, hsv, hc, hs⟩ := hq
  have hcome : ¬ Comes s := by
    rintro (hr | (howes | ⟨ha, -⟩) | hl)
    · rw [hc] at hr
      cases hr
    · exact howes hh
    · rcases hst with h | h <;> rw [h] at ha <;> cases ha
    · rw [hs] at hl
      cases hl
  have hopen : Settled kind s.cl → ¬ Stale kind s := by
    rintro (hm | ⟨hcl, -⟩) ⟨hm', hcl'⟩
    · rw [hm] at hm'
      cases hm'
    · rw [hcl] at hcl'
      cases hcl'
  rcases hi.main with hu | h | ⟨-, h⟩ | ⟨hd, ha⟩
  · refine ⟨hopen (hi.client.early ?_).1, fun hw => ?_⟩
    · cases hcaller : s.cl.caller <;> rw [hcaller] at hu <;> first | rfl | cases hu
    · rw [hw.1] at hu
      cases hu
  · exact absurd h hcome
  · rw [hsv] at h
    cases h
  · have hset : Settled kind s.cl := ha.resolve_right (by rw [hc]; simp)
    refine ⟨hopen hset, fun ⟨_, hk, hnd⟩ => ?_⟩
    rcases hd with rfl | hd
    · simp at hk
    · rw [hd] at hnd
      cases hnd

theorem no_stale_records (kinds : Int → Kind) (s : Int → St)
    (hr : (session kinds).Reach (fun s e => noPanicOrCancelRace (kinds e.1) (s e.1) e.2) s) (id : Int)
    (hq : Quiet (s id)) : ¬ Stale (kinds id) (s id) ∧ ¬ Waits (kinds id) (s id) :=
  (inv_reach (Sys.Reach.each (fun id => noPanicOrCancelRace (kinds id)) hr id)).quiet hq

def three (id : Int) : Kind := if id = 1 then .unary else if id = 2 then .getStream else .putStream

def of (id : Int) (run : List Ev) : List (Int × Ev) := run.map fun e => (id, e)

def timedOut : List Ev :=
  [.client .issue, .client .send, .client .timeout, .serverRead false, .server .register, .client .abort,
    .serverRead false,
    .server (.returns false), .clientRead]

def contextCancelled : List Ev :=
  [.client .issue, .client .send, .serverRead false, .server .register, .server (.returns true),
    .server .stream, .clientRead, .client .ack,
    .server .streamRecv, .server .stream, .server .stream, .client .watchCancel, .client .watchClose,
      .serverRead false, .clientRead,
    .server .streamDone, .server .stream, .server .stream, .serverRead false, .clientRead]

theorem no_stale_records_cancelled :
    ∃ s : Int → St, (session three).Reach (fun s e => noPanicOrCancelRace (three e.1) (s e.1) e.2) s ∧
    Quiet (s 1) ∧ Quiet (s 2) ∧ (s 2).cl.watch = .ended ∧ ¬ Stale .unary (s 1) ∧ ¬ Stale .getStream (s 2) ∧
      ¬ Waits .getStream (s 2) := by
  obtain ⟨s, hr, h1, h2, hw⟩ :=
    (session three).reach_of_exec (fun s e => noPanicOrCancelRace (three e.1) (s e.1) e.2) (fun _ => start)
      (fun _ => rfl)
    (of 1 timedOut ++ of 2 contextCancelled) (P := fun s => Quiet (s 1) ∧ Quiet (s 2) ∧
      (s 2).cl.watch = .ended) (by decide +kernel)
  have hcall := no_stale_records three s hr 1 h1
  have hstream := no_stale_records three s hr 2 h2
  exact ⟨s, hr, h1, h2, hw, hcall.1, hstream.1, hstream.2⟩

def panicked : List Ev :=
  [.client .issue, .client .send, .serverRead false, .server .register, .server .panics, .client .timeout,
    .client .abort, .serverRead false]

/-- An explicit CancelRequest finds the streamer waiting for credit. -/
def heldValue : List Ev :=
  [.client .issue, .client .send, .serverRead false, .server .register, .server (.returns true),
    .server .stream, .clientRead, .client .ack,
    .server .streamRecv, .client .cancel, .serverRead false, .server .stream]

def acceptedLate : List Ev :=
  [.client .issue, .client .send, .serverRead false, .server .register, .client .timeout, .client .abort,
    .serverRead false,
    .server (.returns true), .clientRead]

theorem stale_records : ∃ s : Int → St, (session three).Reach Sys.any s ∧ (Quiet (s 1) ∧ Stale .unary (s 1)) ∧
    (Quiet (s 2) ∧ Waits .getStream (s 2)) ∧ Quiet (s 3) ∧ Stale .putStream (s 3) :=
  (session three).reach_of_exec Sys.any (fun _ => start) (fun _ => rfl) (of 1 panicked ++ of 2 heldValue ++
    of 3 acceptedLate)
    (P := fun s => (Quiet (s 1) ∧ Stale .unary (s 1)) ∧ (Quiet (s 2) ∧ Waits .getStream (s 2)) ∧
      Quiet (s 3) ∧ Stale .putStream (s 3))
    (by decide +kernel)

end ValueRpc.Link.Request
