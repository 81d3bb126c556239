/-
  ValueRpc.Client.Ownership — who has a connection that is open.

  A connection `newConn` returned is in the hand of the call that made it, until that
  stores it; then it is installed, until a `reset` stores nil over it; then it is in the
  hand of that `reset`, which closes it. That is so as long as a `reset` stores nil over
  what it loaded. It loads and stores under no lock, and a connection that is installed in
  between is lost: nobody has it, and it stays open.

  - `connections_owned`: where each Store of nil finds nothing or what its `reset` loaded,
    and nothing is installed any more once `shuttingDown` is set (`owns`), every connection
    is installed, closed or in the hand of a call; at most one that is in nobody's hand is
    open; and after a `Close` returned none is installed.
  - `connection_leaks`: otherwise not: a `Close` and a `Reconnect` that load nil before a
    connection is stored, and a connection that is stored after `Close` returned.
-/

import ValueRpc.Client.Conns

namespace ValueRpc.Client.Conns

open ValueRpc.Lib

/-- The call is about to store connection `c`, or to close it. -/
def Pc.holds (c : Nat) : Pc → Bool
  | .install d => d == c
  | .close (some d) => d == c
  | _ => false

def owns (s : St) : Ev → Bool
  | .run i =>
    match s.callAt i with
    | some (.store c) => s.installed == none || s.installed == c
    | some (.install _) => !s.shuttingDown
    | _ => true
  | _ => true

def St.Owned (s : St) (c : Nat) (k : Conn) : Prop :=
  s.installed = some c ∨ k.closed = true ∨ ∃ (i : Nat) (x : Call), s.calls[i]? = some x ∧ x.pc.holds c = true

def Call.Closes (s : St) (x : Call) : Prop :=
  match x.pc with
  | .flag => True
  | .load | .store _ => s.shuttingDown = true
  | .close _ | .done _ => s.shuttingDown = true ∧ s.installed = none
  | _ => False

structure Owns (s : St) : Prop where
  owned : ∀ (c : Nat) (k : Conn), s.conns[c]? = some k → k.returned = true → s.Owned c k
  closes : ∀ (i : Nat) (x : Call), s.calls[i]? = some x → x.task = .close → x.Closes s

variable {p : Policy} {s t : St} {e : Ev} {i c : Nat} {x : Call} {f : Call → Call}

/-! ## Close -/

/-- The client stays shut down, and then stays without a connection. -/
structure Shuts (s t : St) : Prop where
  flag : s.shuttingDown = true → t.shuttingDown = true
  none : s.shuttingDown = true → s.installed = none → t.installed = none

theorem Shuts.of_eq (h1 : t.shuttingDown = s.shuttingDown) (h2 : t.installed = s.installed) : Shuts s t :=
  ⟨fun h => h1.trans h, fun _ h => h2.trans h⟩

theorem Call.Closes.mono (h : x.Closes s) (hs : Shuts s t) : x.Closes t := by
  unfold Call.Closes at h ⊢
  split
  · trivial
  · rename_i hp
    simp only [hp] at h
    exact hs.flag h
  · rename_i hp
    simp only [hp] at h
    exact hs.flag h
  · rename_i hp
    simp only [hp] at h
    exact ⟨hs.flag h.1, hs.none h.1 h.2⟩
  · rename_i hp
    simp only [hp] at h
    exact ⟨hs.flag h.1, hs.none h.1 h.2⟩
  · simp_all

theorem Turn.closes {x x' : Call} (h : Turn s x x') (ht : x'.task = .close)
    (hc : x.task = .close → x.Closes s) : x'.Closes s := by
  cases h with
  | dispose m hp | retry hp => cases ht
  | load hp =>
    have := hc ht
    simpa only [Call.Closes, hp] using this
  | closeNone hp =>
    have := hc ht
    have htask : x.task = .close := ht
    simpa only [Call.Closes, hp, htask, if_true] using this
  | back ok hp | giveUp hp =>
    have := hc ht
    rcases hp with hp | hp <;> simp [Call.Closes, hp] at this
  | shutdown hp | pass hp | look hp | token hp | found hp | missing hp | dialFails hp | replay hp | replayed hp
  | backoff hp =>
    have := hc ht
    simp [Call.Closes, hp] at this

theorem Turn.not_holds {x x' : Call} (h : Turn s x x') : x.pc.holds c = false := by
  cases h with
  | back ok hp | giveUp hp => rcases hp with hp | hp <;> rw [hp] <;> rfl
  | dispose m hp | retry hp | load hp | closeNone hp | shutdown hp | pass hp | look hp | token hp | found hp | missing hp
  | dialFails hp | replay hp | replayed hp | backoff hp => rw [hp]; rfl

/-! ## One call moves on -/

theorem St.Owned.moves {k k' : Conn} (ho : s.Owned c k) (hx : s.calls[i]? = some x)
    (hcalls : t.calls = s.calls.modify i f) (hh : x.pc.holds c = false ∨ (f x).pc.holds c = true)
    (hinst : t.installed = s.installed) (hclosed : k.closed = true → k'.closed = true) : t.Owned c k' := by
  rcases ho with hi | hc | ⟨j, y, hy, hold⟩
  · exact .inl (hinst.trans hi)
  · exact .inr (.inl (hclosed hc))
  · by_cases hij : i = j
    · subst hij
      cases hx.symm.trans hy
      rcases hh with hh | hh
      · rw [hh] at hold
        cases hold
      · exact .inr (.inr ⟨i, f x, by simp [hcalls, hx], hh⟩)
    · exact .inr (.inr ⟨j, y, by simp [hcalls, hij, hy], hold⟩)

theorem closes_moves (ho : Owns s) (hx : s.calls[i]? = some x)
    (hcalls : t.calls = s.calls.modify i f) (hs : Shuts s t) (hself : (f x).task = .close → (f x).Closes t)
    (j : Nat) (y : Call) (hy : t.calls[j]? = some y) (ht : y.task = .close) : y.Closes t := by
  rw [hcalls] at hy
  rcases modify_get hy with ⟨rfl, x', hx', rfl⟩ | ⟨-, hy⟩
  · cases hx.symm.trans hx'
    exact hself ht
  · exact (ho.closes j y hy ht).mono hs

/-- The connections that were returned are those of before, and closed ones stay closed. -/
def Same (s t : St) : Prop := ∀ (c : Nat) (k' : Conn), t.conns[c]? = some k' → k'.returned = true →
  ∃ k, s.conns[c]? = some k ∧ k.returned = true ∧ (k.closed = true → k'.closed = true)

theorem Same.of_eq (h : t.conns = s.conns) : Same s t := fun c k hk hr => ⟨k, by rw [← h, hk], hr, id⟩

theorem same_modify {f : Conn → Conn} (ht : t.conns = s.conns.modify c f)
    (hr : ∀ k, (f k).returned = k.returned) (hc : ∀ k, k.closed = true → (f k).closed = true) : Same s t := by
  intro d k' hk' hret
  rw [ht] at hk'
  rcases modify_get hk' with ⟨rfl, k, hk, rfl⟩ | ⟨-, hk⟩
  · exact ⟨k, hk, (hr k).symm.trans hret, hc k⟩
  · exact ⟨k', hk, hret, id⟩

theorem Owns.enter (ho : Owns s) {l : List Call} (hcalls : t.calls = s.calls ++ l) (hl : ∀ x ∈ l, Fresh x)
    (hconns : Same s t) (hinst : t.installed = s.installed) (hs : t.shuttingDown = s.shuttingDown) :
    Owns t := by
  refine ⟨fun c k' hk' hr => ?_, fun j y hy ht => ?_⟩
  · obtain ⟨k, hk, hr, hc⟩ := hconns c k' hk' hr
    rcases ho.owned c k hk hr with hi | hclosed | ⟨j, y, hy, hold⟩
    · exact .inl (hinst.trans hi)
    · exact .inr (.inl (hc hclosed))
    · refine .inr (.inr ⟨j, y, ?_, hold⟩)
      rw [hcalls, List.getElem?_append_left (List.getElem?_eq_some_iff.mp hy).1, hy]
  · rw [hcalls] at hy
    by_cases hj : j < s.calls.length
    · rw [List.getElem?_append_left hj] at hy
      exact (ho.closes j y hy ht).mono (.of_eq hs hinst)
    · rw [List.getElem?_append_right (by omega)] at hy
      cases hl y (List.mem_of_getElem? hy) with
      | close => trivial
      | _ => cases ht

theorem Owns.moves (ho : Owns s) (hx : s.calls[i]? = some x)
    (hcalls : t.calls = s.calls.modify i f) (hconns : Same s t) (hh : ∀ c, x.pc.holds c = false)
    (hinst : t.installed = s.installed) (hs : s.shuttingDown = true → t.shuttingDown = true)
    (hself : (f x).task = .close → (f x).Closes t) : Owns t := by
  refine ⟨fun c k' hk' hr => ?_, closes_moves ho hx hcalls ⟨hs, fun _ h => hinst.trans h⟩ hself⟩
  obtain ⟨k, hk, hr, hc⟩ := hconns c k' hk' hr
  exact (ho.owned c k hk hr).moves hx hcalls (.inl (hh c)) hinst hc

theorem Owns.elsewhere (ho : Owns s) (hx : s.calls[i]? = some x) (ht : x.task = .close) (hp : ¬ x.Closes s) :
    False :=
  hp (ho.closes i x hx ht)

/-- The Store of nil: what was installed is what the `reset` loaded, and now in its hand. -/
theorem Owns.store (ho : Owns s) {d : Option Nat} (hx : s.calls[i]? = some x) (hp : x.pc = .store d)
    (hown : s.installed = none ∨ s.installed = d) : Owns { s.goto i (.close d) with installed := none } := by
  refine ⟨fun c k hk hr => ?_, closes_moves ho hx rfl ⟨id, fun _ _ => rfl⟩ fun ht => ?_⟩
  · rcases ho.owned c k hk hr with hi | hclosed | ⟨j, y, hy, hold⟩
    · refine .inr (.inr ⟨i, { x with pc := .close d }, by simp [St.goto, hx], ?_⟩)
      rcases hown with h | h
      · rw [h] at hi
        cases hi
      · rw [← h, hi]
        simp [Pc.holds]
    · exact .inr (.inl hclosed)
    · refine .inr (.inr ⟨j, y, ?_, hold⟩)
      have hij : i ≠ j := by
        rintro rfl
        cases hx.symm.trans hy
        rw [hp] at hold
        cases hold
      simp [St.goto, hij, hy]
  · have := ho.closes i x hx ht
    simp only [Call.Closes, hp] at this
    exact ⟨this, rfl⟩

theorem Owns.close (ho : Owns s) {d : Nat} (hx : s.calls[i]? = some x) (hp : x.pc = .close (some d)) :
    Owns ((s.setConn d fun k => { k with closed := true }).goto i
      (if x.task = .close then .done true else .dispose)) := by
  refine ⟨fun c k' hk' hr => ?_, closes_moves ho hx rfl (.of_eq rfl rfl) fun ht => ?_⟩
  · rcases modify_get hk' with ⟨rfl, k, hk, rfl⟩ | ⟨hdc, hk⟩
    · exact .inr (.inl rfl)
    · have hnot : x.pc.holds c = false := by simp [hp, Pc.holds, hdc]
      exact (ho.owned c k' hk hr).moves hx rfl (.inl hnot) rfl id
  · have htask : x.task = .close := ht
    have := ho.closes i x hx htask
    simp only [Call.Closes, hp] at this
    simp only [Call.Closes, htask, if_true]
    exact this

/-- `newConn` returns: the connection is in the hand of its call. -/
theorem Owns.accepted (ho : Owns s) (hx : s.calls[i]? = some x) (hp : x.pc = .handshake c) :
    Owns ((s.setConn c fun k => { k with returned := true, loop := .reading }).goto i (.install c)) := by
  refine ⟨fun d k' hk' hr => ?_, closes_moves ho hx rfl (.of_eq rfl rfl) fun ht => ?_⟩
  · rcases modify_get hk' with ⟨rfl, k, hk, rfl⟩ | ⟨-, hk⟩
    · exact .inr (.inr ⟨i, { x with pc := .install c }, by simp [St.setConn, St.goto, hx], by simp [Pc.holds]⟩)
    · exact (ho.owned d k' hk hr).moves hx rfl (.inl (by rw [hp]; rfl)) rfl id
  · exact (ho.elsewhere hx ht (by simp [Call.Closes, hp])).elim

theorem Owns.install (hb : Base s) (ho : Owns s) (hx : s.calls[i]? = some x) (hp : x.pc = .install c)
    (hup : s.shuttingDown = false) :
    Owns { (s.setConn c fun k => { k with stored := true }).goto i (.unlock true) with installed := some c } := by
  have hnone : s.installed = none := hb.dialing i x hx (by rw [hp]; rfl)
  have hsame : Same s (s.setConn c fun k => { k with stored := true }) := same_modify rfl (fun _ => rfl) fun _ => id
  refine ⟨fun d k' hk' hr => ?_, closes_moves ho hx rfl ⟨id, fun h => ?_⟩ fun ht => ?_⟩
  · obtain ⟨k, hk, hr, hc⟩ := hsame d k' hk' hr
    rcases ho.owned d k hk hr with hi | hclosed | ⟨j, y, hy, hold⟩
    · rw [hnone] at hi
      cases hi
    · exact .inr (.inl (hc hclosed))
    · by_cases hij : i = j
      · subst hij
        cases hx.symm.trans hy
        simp only [hp, Pc.holds, beq_iff_eq] at hold
        exact .inl (by rw [hold])
      · exact .inr (.inr ⟨j, y, by simp [St.setConn, St.goto, hij, hy], hold⟩)
  · rw [hup] at h
    cases h
  · exact (ho.elsewhere hx ht (by simp [Call.Closes, hp])).elim

theorem owns_step (hb : Base s) (ho : Owns s) (hd : owns s e = true) (h : step p s e = some t) : Owns t := by
  cases step_cases h with
  | @enter _ x hx =>
    refine ho.enter rfl (fun y hy => ?_) (.of_eq rfl) rfl rfl
    rw [List.mem_singleton.mp hy]
    exact hx
  | readError | ended =>
    exact ho.enter (List.append_nil _).symm nofun (same_modify rfl (fun _ => rfl) fun _ => id) rfl rfl
  | report =>
    refine ho.enter rfl (fun y hy => ?_) (same_modify rfl (fun _ => rfl) fun _ => id) rfl rfl
    rw [List.mem_singleton.mp hy]
    exact .responseLoop _
  | @turn _ i x f hx hf =>
    exact ho.moves hx rfl (.of_eq rfl) (fun c => hf.not_holds) rfl id fun ht =>
      (hf.closes ht (ho.closes i x hx)).mono (.of_eq rfl rfl)
  | flag hx hp => exact ho.moves hx rfl (.of_eq rfl) (fun c => by rw [hp]; rfl) rfl (fun _ => rfl) fun _ => rfl
  | cas hx hp | skip hx hp | lock hx hp | unlock hx hp | clear hx hp =>
    exact ho.moves hx rfl (.of_eq rfl) (fun c => by rw [hp]; rfl) rfl id fun ht =>
      (ho.elsewhere hx ht (by simp [Call.Closes, hp])).elim
  | store hx hp =>
    refine ho.store hx hp ?_
    simpa [owns, St.callAt, hx, hp] using hd
  | close hx hp => exact ho.close hx hp
  | dial hx hp =>
    refine ho.moves hx rfl (fun c k' hk' hr => ?_) (fun c => by rw [hp]; rfl) rfl id fun ht =>
      (ho.elsewhere hx ht (by simp [Call.Closes, hp])).elim
    rcases append_get hk' with hk | ⟨-, rfl⟩
    · exact ⟨k', hk, hr, id⟩
    · cases hr
  | accepted hx hp => exact ho.accepted hx hp
  | refused hx hp =>
    exact ho.moves hx rfl (same_modify rfl (fun _ => rfl) fun _ _ => rfl) (fun c => by rw [hp]; rfl) rfl id fun ht =>
      (ho.elsewhere hx ht (by simp [Call.Closes, hp])).elim
  | install hx hp =>
    refine ho.install hb hx hp ?_
    simpa [owns, St.callAt, hx, hp] using hd

theorem owns_start : Owns start := by
  refine ⟨fun c k hk => ?_, fun i x hx => ?_⟩
  · simp [start] at hk
  · simp [start] at hx

def St.Free (s : St) (c : Nat) : Prop := ∀ (i : Nat) (x : Call), s.calls[i]? = some x → x.pc.holds c = false

theorem connections_owned (h : (sys p).Reach (fun s e => owns s e = true) s) :
    (∀ (c : Nat) (k : Conn), s.conns[c]? = some k → k.returned = true → s.Free c → s.installed = some c ∨
      k.closed = true) ∧
    (∀ (c d : Nat) (k l : Conn), s.conns[c]? = some k → s.conns[d]? = some l → k.returned = true → l.returned = true →
      s.Free c → s.Free d → k.closed = false → l.closed = false → c = d) ∧
    ∀ (i : Nat) (x : Call) (ok : Bool), s.calls[i]? = some x → x.task = .close → x.pc = .done ok →
      s.installed = none := by
  have hinv : Base s ∧ Owns s := by
    refine Sys.Reach.inv (P := fun s => Base s ∧ Owns s) ?_ ?_ h
    · rintro _ rfl
      exact ⟨base_start, owns_start⟩
    · intro s e t hi hd hst
      exact ⟨base_step hi.1 hst, owns_step hi.1 hi.2 hd hst⟩
  have howned : ∀ (c : Nat) (k : Conn), s.conns[c]? = some k → k.returned = true → s.Free c →
      s.installed = some c ∨ k.closed = true := by
    intro c k hk hr hfree
    rcases hinv.2.owned c k hk hr with hi | hc | ⟨i, x, hx, hold⟩
    · exact .inl hi
    · exact .inr hc
    · rw [hfree i x hx] at hold
      cases hold
  refine ⟨howned, fun c d k l hk hl hkr hlr hc hd hko hlo => ?_, fun i x ok hx ht hp => ?_⟩
  · have h1 := (howned c k hk hkr hc).resolve_right (by rw [hko]; simp)
    have h2 := (howned d l hl hlr hd).resolve_right (by rw [hlo]; simp)
    rw [h1] at h2
    exact Option.some.inj h2
  · have := hinv.2.closes i x hx ht
    simp only [Call.Closes, hp] at this
    exact this.2

def replacedAndClosed : List Ev :=
  ([.connect] : List Ev) ++ makes 0 ++ installs 0 ++ ([.reconnect] : List Ev) ++
    (List.replicate 4 (.run 1) : List Ev) ++
    ([.dispose 1 0] : List Ev) ++ makes 1 ++ installs 1 ++ ([.run 1, .run 1, .close] : List Ev) ++
    (List.replicate 4 (.run 2) : List Ev)

theorem connections_owned_replacedAndClosed : ∃ s k l, (sys ⟨0⟩).Reach (fun s e => owns s e = true) s ∧
    s.conns[0]? = some k ∧ s.conns[1]? = some l ∧ k.returned = true ∧ l.returned = true ∧ k.closed = true ∧
      l.closed = true ∧
    s.installed = none := by
  obtain ⟨s, hr, h0, h1, h2⟩ := Sys.reach_of_exec (sys ⟨0⟩) (fun s e => owns s e = true) start rfl replacedAndClosed
    (P := fun s => s.conns[0]? = some ⟨true, true, true, .reading⟩ ∧ s.conns[1]? = some ⟨true, true, true, .reading⟩ ∧
      s.calls[2]? = some ⟨.caller, .close, .done true⟩) (by decide +kernel)
  exact ⟨s, _, _, hr, h0, h1, rfl, rfl, rfl, rfl, (connections_owned hr).2.2 2 _ true h2 rfl rfl⟩

/-! ## The ways around it -/

/-- `Close` loads nil; then the connection is stored; then `Close` stores nil over it. -/
def storedInClose : List Ev :=
  ([.connect] : List Ev) ++ makes 0 ++ ([.close, .run 1, .run 1] : List Ev) ++ installs 0 ++
    ([.run 1, .run 1] : List Ev)

/-- The same with a `Reconnect`, which goes on to make a second connection. -/
def storedInReset : List Ev :=
  ([.connect] : List Ev) ++ makes 0 ++ ([.reconnect, .run 1, .run 1] : List Ev) ++ installs 0 ++
    ([.run 1, .run 1, .dispose 1 0] : List Ev) ++ makes 1 ++ installs 1 ++ ([.run 1, .run 1] : List Ev)

def storedAfterClose : List Ev :=
  ([.connect] : List Ev) ++ makes 0 ++ ([.close] : List Ev) ++ (List.replicate 4 (.run 1) : List Ev) ++ installs 0

/-- After `run` no call is under way and connection 0 is returned and open. -/
def LeftOpen (run : List Ev) (installed : Option Nat) : Prop :=
  ∃ s k, (sys ⟨0⟩).Reach Sys.any s ∧ (sys ⟨0⟩).exec Sys.any start run = some s ∧ (∀ x ∈ s.calls, x.pc = .done true) ∧
    s.conns[0]? = some k ∧ k.returned = true ∧ k.closed = false ∧ s.installed = installed

theorem leftOpen_of {run : List Ev} {installed : Option Nat}
    (h : ((sys ⟨0⟩).exec Sys.any start run).any (fun s =>
      decide ((∀ x ∈ s.calls, x.pc = .done true) ∧ s.conns[0]? = some ⟨true, true, false, .reading⟩ ∧
        s.installed = installed)) = true) : LeftOpen run installed := by
  obtain ⟨s, hr, hs, hdone, h0, hinst⟩ := Sys.reach_exec (sys ⟨0⟩) Sys.any start rfl run h
  exact ⟨s, _, hr, hs, hdone, h0, rfl, rfl, hinst⟩

theorem connection_leaks :
    LeftOpen storedInClose none ∧ LeftOpen storedInReset (some 1) ∧ LeftOpen storedAfterClose (some 0) :=
  ⟨leftOpen_of (by decide +kernel), leftOpen_of (by decide +kernel), leftOpen_of (by decide +kernel)⟩

end ValueRpc.Client.Conns
