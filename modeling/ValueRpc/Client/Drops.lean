/-
  ValueRpc.Client.Drops — whether a dropped connection is noticed.

  The response loop of a connection that read an error calls `BadConnection`, and that
  calls `Reconnect`. When the flag is free, this `Reconnect` stores nil over the connection,
  if it is installed by then. When the flag is taken, it returns at once and leaves the
  connection to the `Reconnect` that runs, which does nothing about it when its own Store of
  nil is behind it.

  - `drop_noticed`: where a response loop comes to the swap only after its connection was
    installed, and finds the flag taken only when its connection is not installed any more
    or a `Reconnect` that began after the error has yet to store nil (`heeds`), a dead
    connection does not stay installed.
  - `drop_unnoticed`: otherwise it does: the new connection breaks while the `Reconnect` that
    made it is at its replay; and a connection that breaks before it is installed.
-/

import ValueRpc.Client.Conns

namespace ValueRpc.Client.Conns

open ValueRpc.Lib

def Pc.early : Pc → Bool
  | .load | .store _ => true
  | _ => false

def St.stored (s : St) (c : Nat) : Bool := s.conns[c]?.any (·.stored)

/-- A `Reconnect` that began after the response loop of `c` read its error runs, and has
    yet to store nil. -/
def St.resetting (s : St) (c : Nat) : Bool := s.knows.contains c && (s.reconnecting.bind s.callAt).any Pc.early

/-- A response loop that comes to the swap. -/
def heeds (s : St) : Ev → Bool
  | .run i =>
    match s.calls[i]? with
    | some ⟨.responseLoop c, _, .cas⟩ =>
      s.stored c && (s.reconnecting.isNone || s.installed != some c || s.resetting c)
    | _ => true
  | _ => true

/-- Nobody needs to do anything about `c` any more, or somebody is about to. -/
def St.Off (s : St) (c : Nat) : Prop := s.shuttingDown = true ∨ s.stored c = true ∧
    (s.installed ≠ some c ∨ s.resetting c = true)

def Call.Reports (s : St) (x : Call) (c : Nat) : Prop :=
  x.pc = .shutdown ∨ x.pc = .cas ∨ x.pc.early = true ∧ s.stored c = true ∨ s.Off c

def Heeded (s : St) : Prop :=
  ∀ (i : Nat) (x : Call) (c : Nat), s.calls[i]? = some x → x.who = .responseLoop c → x.Reports s c

variable {p : Policy} {s t : St} {e : Ev} {i c : Nat} {x : Call}

/-! ## What stays -/

theorem stored_iff : s.stored c = true ↔ ∃ k, s.conns[c]? = some k ∧ k.stored = true := by
  cases h : s.conns[c]? <;> simp [St.stored, h]

theorem stored_of_stays (h : Stays s t) (hs : s.stored c = true) : t.stored c = true := by
  obtain ⟨k, hk, hst⟩ := stored_iff.mp hs
  obtain ⟨k', hk', hst'⟩ := h c k hk
  exact stored_iff.mpr ⟨k', hk', hst'.trans hst⟩

theorem stored_step (h : step p s e = some t) (hs : s.stored c = true) : t.stored c = true := by
  cases step_cases h with
  | readError | ended | report | close | accepted | refused => exact stored_of_stays (stays_modify rfl fun _ => rfl) hs
  | dial => exact stored_of_stays (fun c k hk => ⟨k, get_append _ hk, rfl⟩) hs
  | @install i c' x hx hp =>
    obtain ⟨k, hk, hst⟩ := stored_iff.mp hs
    by_cases hc : c' = c
    · subst hc
      simp [St.stored, St.setConn, St.goto, hk]
    · simp [St.stored, St.setConn, St.goto, hc, hk, hst]
  | _ => exact hs

theorem shuttingDown_step (h : step p s e = some t) (hs : s.shuttingDown = true) : t.shuttingDown = true := by
  cases step_cases h with
  | flag => rfl
  | _ => exact hs

theorem resetting_iff : s.resetting c = true ↔
    c ∈ s.knows ∧ ∃ j, s.reconnecting = some j ∧ ∃ y, s.calls[j]? = some y ∧ y.pc.early = true := by
  cases hr : s.reconnecting with
  | none => simp [St.resetting, hr]
  | some j => cases hy : s.calls[j]? <;> simp [St.resetting, hr, St.callAt, hy]

theorem resetting_of (hk : t.knows = s.knows) (hr : t.reconnecting = s.reconnecting)
    (hearly : ∀ (j : Nat) (y : Call), s.calls[j]? = some y → y.pc.early = true →
      ∃ y', t.calls[j]? = some y' ∧ y'.pc.early = true)
    (h : s.resetting c = true) : t.resetting c = true := by
  obtain ⟨hknow, j, hj, y, hy, he⟩ := resetting_iff.mp h
  obtain ⟨y', hy', he'⟩ := hearly j y hy he
  exact resetting_iff.mpr ⟨hk ▸ hknow, j, hr.trans hj, y', hy', he'⟩

theorem early_modify {f : Call → Call} (hx : s.calls[i]? = some x) (ht : t.calls = s.calls.modify i f)
    (hf : x.pc.early = true → (f x).pc.early = true) (j : Nat) (y : Call) (hy : s.calls[j]? = some y)
    (he : y.pc.early = true) : ∃ y', t.calls[j]? = some y' ∧ y'.pc.early = true := by
  by_cases hij : i = j
  · subst hij
    cases hx.symm.trans hy
    exact ⟨f x, by simp [ht, hx], hf he⟩
  · exact ⟨y, by simp [ht, hij, hy], he⟩

theorem Turn.early {x x' : Call} (h : Turn s x x') (he : x.pc.early = true) : x'.pc.early = true := by
  cases h with
  | load hp => rfl
  | back ok hp => rcases hp with hp | hp <;> simp [hp, Pc.early] at he
  | giveUp hp => rcases hp with hp | hp <;> simp [hp, Pc.early] at he
  | shutdown hp | pass hp | closeNone hp | dispose m hp | look hp | token hp | found hp | missing hp
  | dialFails hp | replay hp | replayed hp | backoff hp | retry hp => simp [hp, Pc.early] at he

theorem not_resetting (hb : Base s) (hx : s.calls[i]? = some x) (hf : x.flagged = true)
    (hp : x.pc.early = false) : s.resetting c = false := by
  have hr := hb.flag i x hx hf
  simp [St.resetting, hr, St.callAt, hx, hp]

/-- A connection that is off stays off: it cannot be installed again. -/
theorem off_step (hb : Base s) (h : step p s e = some t) (ho : s.Off c) : t.Off c := by
  rcases ho with hs | ⟨hst, ho⟩
  · exact .inl (shuttingDown_step h hs)
  have hst' := stored_step h hst
  cases step_cases h with
  | enter hx =>
    exact .inr ⟨hst', ho.imp_right (resetting_of (s := s) rfl rfl fun j y hy he => ⟨y, get_append _ hy, he⟩)⟩
  | readError | ended => exact .inr ⟨hst', ho⟩
  | report =>
    exact .inr ⟨hst', ho.imp_right (resetting_of (s := s) rfl rfl fun j y hy he => ⟨y, get_append _ hy, he⟩)⟩
  | turn hx hf => exact .inr ⟨hst', ho.imp_right (resetting_of (s := s) rfl rfl (early_modify hx rfl hf.early))⟩
  | flag => exact .inl rfl
  | cas hx hp hn =>
    refine .inr ⟨hst', .inl (ho.resolve_right ?_)⟩
    simp [St.resetting, hn]
  | store => exact .inr ⟨hst', .inl (by simp)⟩
  | skip hx hp | close hx hp | lock hx hp | dial hx hp | accepted hx hp | refused hx hp | unlock hx hp =>
    exact .inr ⟨hst', ho.imp_right
      (resetting_of (s := s) rfl rfl (early_modify hx rfl fun he => by simp [hp, Pc.early] at he))⟩
  | @install i c' x hx hp =>
    refine .inr ⟨hst', .inl fun heq => ?_⟩
    have hc : c' = c := Option.some.inj heq
    obtain ⟨k, hk, hns⟩ := hb.making i x c' hx (by rw [hp]; rfl)
    rw [hc] at hk
    simp [St.stored, hk, hns] at hst
  | clear hx hp =>
    have hfits := hb.fits _ _ hx
    simp only [Call.Fits, hp] at hfits
    have hnot := not_resetting (c := c) hb hx (by simp [Call.flagged, Pc.outside, hp, hfits]) (by rw [hp]; rfl)
    refine .inr ⟨hst', .inl (ho.resolve_right ?_)⟩
    rw [hnot]
    simp

/-! ## The report -/

theorem Call.Reports.step (hb : Base s) (h : step p s e = some t) (hr : x.Reports s c) : x.Reports t c := by
  rcases hr with hp | hp | ⟨hp, hst⟩ | ho
  · exact .inl hp
  · exact .inr (.inl hp)
  · exact .inr (.inr (.inl ⟨hp, stored_step h hst⟩))
  · exact .inr (.inr (.inr (off_step hb h ho)))

theorem Call.Reports.off (hr : x.Reports s c) (h1 : x.pc ≠ .shutdown) (h2 : x.pc ≠ .cas)
    (h3 : x.pc.early = false) : s.Off c := by
  rcases hr with hp | hp | ⟨hp, -⟩ | ho
  · exact absurd hp h1
  · exact absurd hp h2
  · rw [h3] at hp
    cases hp
  · exact ho

theorem Heeded.moves (hb : Base s) (hh : Heeded s) (h : step p s e = some t) {f : Call → Call}
    (hx : s.calls[i]? = some x) (hcalls : t.calls = s.calls.modify i f)
    (hself : ∀ c, (f x).who = .responseLoop c → (f x).Reports t c) : Heeded t := by
  intro j y c hy hw
  rw [hcalls] at hy
  rcases modify_get hy with ⟨rfl, x', hx', rfl⟩ | ⟨-, hy⟩
  · cases hx.symm.trans hx'
    exact hself c hw
  · exact (hh j y c hy hw).step hb h

theorem Turn.who {x x' : Call} (h : Turn s x x') : x'.who = x.who := by cases h <;> rfl

theorem Turn.reports {x x' : Call} (h : Turn s x x') (hr : x.Reports s c) : x'.Reports s c := by
  cases h with
  | shutdown hp hs => exact .inr (.inr (.inr (.inl hs)))
  | pass hp hs => exact .inr (.inl rfl)
  | load hp =>
    rcases hr with h | h | ⟨-, hst⟩ | ho
    · simp [hp] at h
    · simp [hp] at h
    · exact .inr (.inr (.inl ⟨rfl, hst⟩))
    · exact .inr (.inr (.inr ho))
  | back ok hp | giveUp hp =>
    refine .inr (.inr (.inr (hr.off ?_ ?_ ?_))) <;> rcases hp with hp | hp <;> simp [hp, Pc.early]
  | closeNone hp | dispose m hp | look hp | token hp | found hp | missing hp | dialFails hp | replay hp | replayed hp
  | backoff hp | retry hp =>
    exact .inr (.inr (.inr (hr.off (by simp [hp]) (by simp [hp]) (by simp [hp, Pc.early]))))

theorem heeds_cas (hd : heeds s (.run i) = true) (hx : s.calls[i]? = some x) (hw : x.who = .responseLoop c)
    (hp : x.pc = .cas) : s.stored c = true ∧ (s.reconnecting ≠ none → s.Off c) := by
  obtain ⟨who, task, pc⟩ := x
  cases hw
  cases hp
  simp only [heeds, hx, Bool.and_eq_true, Bool.or_eq_true, Option.isNone_iff_eq_none, bne_iff_ne] at hd
  obtain ⟨hst, hd⟩ := hd
  refine ⟨hst, fun hn => .inr ⟨hst, ?_⟩⟩
  rcases hd with (hd | hd) | hd
  · exact absurd hd hn
  · exact .inl hd
  · exact .inr hd

theorem heeded_step (hb : Base s) (hh : Heeded s) (hd : heeds s e = true) (h : step p s e = some t) :
    Heeded t := by
  have hst := h
  cases step_cases h with
  | @enter _ x hx =>
    intro j y c hy hw
    rcases append_get hy with hy | ⟨-, rfl⟩
    · exact (hh j y c hy hw).step hb hst
    · cases hx with
      | responseLoop => exact .inl rfl
      | _ => cases hw
  | readError | ended => exact fun j y c hy hw => (hh j y c hy hw).step hb hst
  | report =>
    intro j y c hy hw
    rcases append_get hy with hy | ⟨-, rfl⟩
    · exact (hh j y c hy hw).step hb hst
    · exact .inl rfl
  | @turn _ i x f hx hf =>
    refine hh.moves hb hst hx rfl fun c hw => ?_
    rw [hf.who] at hw
    exact Call.Reports.step hb hst (hf.reports (hh i x c hx hw))
  | @skip i j x hx hp hj =>
    refine hh.moves hb hst hx rfl fun c hw => ?_
    exact .inr (.inr (.inr (off_step hb hst ((heeds_cas hd hx hw hp).2 (by simp [hj])))))
  | @cas i x hx hp hn =>
    refine hh.moves hb hst hx rfl fun c hw => ?_
    exact .inr (.inr (.inl ⟨rfl, stored_step hst (heeds_cas hd hx hw hp).1⟩))
  | @store i x c' hx hp =>
    refine hh.moves hb hst hx rfl fun c hw => ?_
    rcases hh i x c hx hw with h | h | ⟨-, hs⟩ | ho
    · simp [hp] at h
    · simp [hp] at h
    · exact .inr (.inr (.inr (.inr ⟨stored_step hst hs, .inl (by simp)⟩)))
    · exact .inr (.inr (.inr (off_step hb hst ho)))
  | flag hx hp | close hx hp | lock hx hp | dial hx hp | accepted hx hp | refused hx hp | install hx hp | unlock hx hp
  | clear hx hp =>
    refine hh.moves hb hst hx rfl fun c hw => .inr (.inr (.inr (off_step hb hst ?_)))
    exact (hh _ _ c hx hw).off (by simp [hp]) (by simp [hp]) (by simp [hp, Pc.early])

theorem drop_noticed (h : (sys p).Reach (fun s e => heeds s e = true) s) (hopen : s.shuttingDown = false)
    {i c : Nat} {x : Call} {ok : Bool} (hx : s.calls[i]? = some x) (hw : x.who = .responseLoop c)
    (hdone : x.pc = .done ok) : s.installed ≠ some c ∨ s.resetting c = true := by
  have hinv : Base s ∧ Heeded s := by
    refine Sys.Reach.inv (P := fun s => Base s ∧ Heeded s) ?_ ?_ h
    · rintro _ rfl
      refine ⟨base_start, fun i x c hx => ?_⟩
      simp [start] at hx
    · intro s e t hi hd hst
      exact ⟨base_step hi.1 hst, heeded_step hi.1 hi.2 hd hst⟩
  rcases (hinv.2 i x c hx hw).off (by simp [hdone]) (by simp [hdone]) (by simp [hdone, Pc.early]) with hs | ⟨-, ho⟩
  · rw [hopen] at hs
    cases hs
  · exact ho

def drops (c : Nat) : List Ev := [.readError c, .check c]

def resets (i : Nat) : List Ev := (List.replicate 5 (.run i) : List Ev) ++ ([.dispose i 0] : List Ev)

def returns (i : Nat) : List Ev := [.run i, .run i]

def droppedOnce : List Ev := ([.connect] : List Ev) ++ makes 0 ++ installs 0 ++ drops 0 ++ resets 1 ++
    makes 1 ++ installs 1

theorem drop_noticed_once : ∃ s x, (sys ⟨0⟩).Reach (fun s e => heeds s e = true) s ∧ s.shuttingDown = false ∧
    s.calls[1]? = some x ∧ x.who = .responseLoop 0 ∧ x.pc = .done true ∧ s.installed = some 1 ∧
    (s.installed ≠ some 0 ∨ s.resetting 0 = true) := by
  obtain ⟨s, hr, hopen, h1, hinst⟩ := Sys.reach_of_exec (sys ⟨0⟩) (fun s e => heeds s e = true) start rfl
    (droppedOnce ++ returns 1) (P := fun s => s.shuttingDown = false ∧
      s.calls[1]? = some ⟨.responseLoop 0, .reconnect 0, .done true⟩ ∧ s.installed = some 1) (by decide +kernel)
  exact ⟨s, _, hr, hopen, h1, rfl, rfl, hinst, drop_noticed hr hopen h1 rfl rfl⟩

/-! ## The ways around it -/

/-- The new connection breaks while the `Reconnect` that made it still has the flag. -/
def brokenAtReplay : List Ev := droppedOnce ++ drops 1 ++ ([.run 2, .run 2] : List Ev) ++ returns 1

/-- The connection breaks between the start of its response loop and the Store. -/
def brokenAtStore : List Ev :=
  ([.connect] : List Ev) ++ makes 0 ++ drops 0 ++ resets 1 ++ ([.run 1, .token 1 true] : List Ev) ++ installs 0 ++
  ([.run 1, .run 1, .run 1] : List Ev) ++ returns 1

/-- After `run` connection `c` is installed and dead, its `BadConnection` returned, and no
    call is under way or failed. -/
def Unnoticed (run : List Ev) (c i : Nat) : Prop :=
  ∃ s k x, (sys ⟨0⟩).Reach Sys.any s ∧ (sys ⟨0⟩).exec Sys.any start run = some s ∧ s.shuttingDown = false ∧
    s.installed = some c ∧
    s.conns[c]? = some k ∧ k.loop = .reported ∧ s.calls[i]? = some x ∧ x.who = .responseLoop c ∧
    s.reconnecting = none ∧ ∀ y ∈ s.calls, y.pc = .done true

theorem unnoticed_of {run : List Ev} {c i : Nat} (h : ((sys ⟨0⟩).exec Sys.any start run).any (fun s =>
    decide (s.shuttingDown = false ∧ s.installed = some c ∧ s.conns[c]? = some ⟨true, true, false, .reported⟩ ∧
      s.calls[i]? = some ⟨.responseLoop c, .reconnect 0, .done true⟩ ∧ s.reconnecting = none ∧
      ∀ y ∈ s.calls, y.pc = .done true)) = true) : Unnoticed run c i := by
  obtain ⟨s, hr, hs, hopen, hinst, hk, hx, hflag, hdone⟩ := Sys.reach_exec (sys ⟨0⟩) Sys.any start rfl run h
  exact ⟨s, _, _, hr, hs, hopen, hinst, hk, rfl, hx, rfl, hflag, hdone⟩

theorem drop_unnoticed : Unnoticed brokenAtReplay 1 2 ∧ Unnoticed brokenAtStore 0 1 :=
  ⟨unnoticed_of (by decide +kernel), unnoticed_of (by decide +kernel)⟩

end ValueRpc.Client.Conns
