/-
  ValueRpc.Core.CreditRun — a `CreditGate` in use (`valuerpc/credit.go`): any number of
  goroutines in `Acquire`, and grants and closes from others.

  `Acquire` holds the lock except in `cond.Wait`, so it is one step from its call to its
  return or to `Wait`, and one more each time it is woken. `Grant` and `Close` wake all who
  wait. A grant's number comes from the wire and is any int64.

  `granted` and `acquired` are records of the run: the sum of the positive grants, and how
  many times `Acquire` returned true.

  - `never_overdrawn`: in every run, no more was acquired than granted.
  - `credit_kept`: where no grant takes the credit to 2^63 (`fits`), nobody waits while the
    gate is open and credit is left, no grant lowers the credit, and after a close `Acquire`
    returns false.
  - `grant_wraps`: as it is, a grant on top of a large one makes the credit negative, and the
    sender waits with all of it unspent.
-/

import ValueRpc.Core.Credit
import ValueRpc.Lib.Runs

namespace ValueRpc.Core.CreditRun

open ValueRpc.Lib

inductive Acquirer where
  /-- In `cond.Wait`. -/
  | waiting
  /-- Woken, and without the lock yet. -/
  | woken
  | returned (acquired : Bool)
  deriving DecidableEq, Repr

def Acquirer.wake : Acquirer → Acquirer
  | waiting => woken
  | a => a

structure St where
  gate : CreditGate
  acquirers : List Acquirer
  granted : Int
  acquired : Nat
  deriving DecidableEq, Repr

def start : St := ⟨.new, [], 0, 0⟩

inductive Ev where
  | acquire
  /-- One that was woken gets the lock. -/
  | resume (i : Nat)
  | grant (n : Int64)
  | close
  deriving DecidableEq, Repr

/-- `Acquire` with the lock, at its call or back from `Wait`. -/
def St.enter (s : St) : Acquirer × St :=
  match s.gate.acquire with
  | none => (.waiting, s)
  | some (acquired, gate) => (.returned acquired, { s with gate, acquired := s.acquired + acquired.toNat })

def step (s : St) : Ev → Option St
  | .acquire => some { s.enter.2 with acquirers := s.acquirers ++ [s.enter.1] }
  | .resume i =>
    match s.acquirers[i]? with
    | some .woken => some { s.enter.2 with acquirers := s.acquirers.set i s.enter.1 }
    | _ => none
  | .grant n =>
    if n.toInt ≤ 0 then some s
    else
      some { s with
        gate := s.gate.grant n.toInt, acquirers := s.acquirers.map Acquirer.wake, granted := s.granted + n.toInt }
  | .close => some { s with gate := s.gate.close, acquirers := s.acquirers.map Acquirer.wake }

def sys : Sys St Ev := ⟨fun s => s = start, step⟩

/-- The grant's sum is an int64. -/
def fits (s : St) : Ev → Prop
  | .grant n => s.gate.credit + n.toInt < 2 ^ 63
  | _ => True

instance (s : St) : (e : Ev) → Decidable (fits s e)
  | .grant _ => inferInstanceAs (Decidable (_ < _))
  | .acquire => .isTrue trivial
  | .resume _ => .isTrue trivial
  | .close => .isTrue trivial

inductive Enters (s : St) : Acquirer → St → Prop
  | waits : s.gate.credit ≤ 0 → s.gate.closed = false → Enters s .waiting s
  | refused : s.gate.closed = true → Enters s (.returned false) s
  | taken : 0 < s.gate.credit → s.gate.closed = false →
      Enters s (.returned true) { s with
        gate := { s.gate with credit := s.gate.credit - 1 }, acquired := s.acquired + 1 }

inductive Moves (s : St) : Ev → St → Prop
  | acquire {a : Acquirer} {t : St} : Enters s a t → Moves s .acquire { t with acquirers := s.acquirers ++ [a] }
  | resume {i : Nat} {a : Acquirer} {t : St} : Enters s a t →
      Moves s (.resume i) { t with acquirers := s.acquirers.set i a }
  | ignored {n : Int64} : n.toInt ≤ 0 → Moves s (.grant n) s
  | grant {n : Int64} : 0 < n.toInt → Moves s (.grant n) { s with
      gate := s.gate.grant n.toInt, acquirers := s.acquirers.map Acquirer.wake, granted := s.granted + n.toInt }
  | close : Moves s .close { s with gate := s.gate.close, acquirers := s.acquirers.map Acquirer.wake }

variable {s t : St} {e : Ev} {a : Acquirer}

theorem enters (s : St) : Enters s s.enter.1 s.enter.2 := by
  obtain ⟨⟨credit, closed⟩, acquirers, granted, acquired⟩ := s
  simp only [St.enter, CreditGate.acquire]
  cases closed with
  | true =>
    simp only [Bool.true_eq_false, and_false, if_false, if_true]
    exact .refused rfl
  | false =>
    by_cases hc : credit ≤ 0
    · simp only [hc, and_self, if_true]
      exact .waits hc rfl
    · simp only [hc, false_and, if_false, Bool.false_eq_true, Bool.toNat_true]
      exact .taken (Int.not_le.mp hc) rfl

theorem moves (h : step s e = some t) : Moves s e t := by
  cases e with
  | acquire =>
    cases h
    exact .acquire (enters s)
  | resume i =>
    simp only [step] at h
    split at h
    · cases h
      exact .resume (enters s)
    · cases h
  | grant n =>
    simp only [step] at h
    by_cases hn : n.toInt ≤ 0
    · rw [if_pos hn] at h
      cases h
      exact .ignored hn
    · rw [if_neg hn] at h
      cases h
      exact .grant (by omega)
  | close =>
    cases h
    exact .close

theorem wake_ne_waiting (acquirers : List Acquirer) : .waiting ∉ acquirers.map Acquirer.wake := by
  intro h
  obtain ⟨a, -, ha⟩ := List.mem_map.mp h
  cases a <;> cases ha

/-! ## Every run -/

/-- Who waits found no credit in an open gate, and nothing has changed since. -/
def Blocked (s : St) : Prop := .waiting ∈ s.acquirers → s.gate.credit ≤ 0 ∧ s.gate.closed = false

theorem Blocked.enters {l : List Acquirer} (hb : Blocked s) (he : Enters s a t)
    (hl : ∀ x ∈ l, x ∈ s.acquirers ∨ x = a) : Blocked { t with acquirers := l } := by
  intro hw
  dsimp only at hw ⊢
  cases he with
  | waits hc ho => exact ⟨hc, ho⟩
  | refused hc =>
    rcases hl _ hw with hw | hw
    · exact hb hw
    · cases hw
  | taken hc _ =>
    rcases hl _ hw with hw | hw
    · have := (hb hw).1
      omega
    · cases hw

theorem blocked_step (hb : Blocked s) (h : step s e = some t) : Blocked t := by
  cases moves h with
  | acquire he => exact hb.enters he fun x hx => (List.mem_append.mp hx).imp_right List.mem_singleton.mp
  | resume he => exact hb.enters he fun x hx => List.mem_or_eq_of_mem_set hx
  | ignored _ => exact hb
  | grant _ => exact fun hw => absurd hw (wake_ne_waiting _)
  | close => exact fun hw => absurd hw (wake_ne_waiting _)

theorem blocked_reach {ok : St → Ev → Prop} (h : sys.Reach ok s) : Blocked s := by
  refine h.inv (P := Blocked) (fun s hs => ?_) fun _ _ _ hb _ hs => blocked_step hb hs
  cases hs
  intro hw
  cases hw

theorem wrap64_le {x : Int} (h : -2 ^ 63 ≤ x) : wrap64 x ≤ x := by
  by_cases hneg : x < 0
  · rw [wrap64_eq h (by omega)]
  · unfold wrap64
    rw [Int.bmod_def]
    split <;> omega

theorem le_wrap64 (x : Int) : -2 ^ 63 ≤ wrap64 x := by
  unfold wrap64
  have := Int.le_bmod (x := x) (m := 2 ^ 64) (by omega)
  omega

/-- The credit is an int64 and at most what was granted and not acquired. -/
structure Covered (s : St) : Prop where
  int64 : -2 ^ 63 ≤ s.gate.credit
  credit : s.gate.credit ≤ s.granted - s.acquired
  acquired : (s.acquired : Int) ≤ s.granted

theorem Covered.enters (l : List Acquirer) (hc : Covered s) (he : Enters s a t) :
    Covered { t with acquirers := l } := by
  obtain ⟨h0, h1, h2⟩ := hc
  cases he with
  | waits _ _ => exact ⟨h0, h1, h2⟩
  | refused _ => exact ⟨h0, h1, h2⟩
  | taken _ _ =>
    refine ⟨?_, ?_, ?_⟩
    all_goals
      dsimp only
      omega

theorem covered_step (hc : Covered s) (h : step s e = some t) : Covered t := by
  cases moves h with
  | acquire he => exact hc.enters _ he
  | resume he => exact hc.enters _ he
  | ignored _ => exact hc
  | @grant n hn =>
    obtain ⟨h0, h1, h2⟩ := hc
    have hcr : (s.gate.grant n.toInt).credit = wrap64 (s.gate.credit + n.toInt) := by
      rw [CreditGate.grant, if_neg (by omega)]
    have hle : wrap64 (s.gate.credit + n.toInt) ≤ s.gate.credit + n.toInt := wrap64_le (by omega)
    refine ⟨?_, ?_, ?_⟩
    · dsimp only
      rw [hcr]
      exact le_wrap64 _
    · dsimp only
      rw [hcr]
      omega
    · dsimp only
      omega
  | close => exact ⟨hc.int64, hc.credit, hc.acquired⟩

/-- Whatever is granted, no more is acquired. -/
theorem never_overdrawn {ok : St → Ev → Prop} (h : sys.Reach ok s) : (s.acquired : Int) ≤ s.granted := by
  have hc : Covered s := by
    refine h.inv (P := Covered) (fun s hs => ?_) fun _ _ _ hc _ hs => covered_step hc hs
    cases hs
    exact ⟨by decide, by decide, by decide⟩
  exact hc.acquired

/-! ## Closed for good -/

theorem enter_closed (h : s.gate.closed = true) : s.enter = (.returned false, s) := by
  simp [St.enter, CreditGate.acquire, h]

theorem Enters.eq_of_closed (he : Enters s a t) (hc : s.gate.closed = true) : t = s := by
  cases he with
  | waits _ _ => rfl
  | refused _ => rfl
  | taken _ ho =>
    rw [hc] at ho
    cases ho

theorem closed_step (hc : s.gate.closed = true) (h : step s e = some t) :
    t.gate.closed = true ∧ t.acquired = s.acquired := by
  cases moves h with
  | acquire he =>
    cases he.eq_of_closed hc
    exact ⟨hc, rfl⟩
  | resume he =>
    cases he.eq_of_closed hc
    exact ⟨hc, rfl⟩
  | ignored _ => exact ⟨hc, rfl⟩
  | grant _ => exact ⟨by rw [CreditGate.grant_closed, hc], rfl⟩
  | close => exact ⟨rfl, rfl⟩

/-! ## Grants that fit -/

/-- The credit is exactly what was granted and not acquired. -/
structure Inv (s : St) : Prop where
  credit : s.gate.credit = s.granted - s.acquired
  nonneg : 0 ≤ s.gate.credit

theorem Inv.enters (l : List Acquirer) (hi : Inv s) (he : Enters s a t) : Inv { t with acquirers := l } := by
  obtain ⟨h1, h2⟩ := hi
  cases he with
  | waits _ _ => exact ⟨h1, h2⟩
  | refused _ => exact ⟨h1, h2⟩
  | taken hpos _ =>
    constructor
    all_goals
      dsimp only
      omega

theorem grant_fits (hi : Inv s) {n : Int64} (hn : 0 < n.toInt) (hf : fits s (.grant n)) :
    (s.gate.grant n.toInt).credit = s.gate.credit + n.toInt := by
  have hmax : max n.toInt 0 = n.toInt := by omega
  rw [CreditGate.grant_credit hi.nonneg (by rw [hmax]; exact hf), hmax]

theorem inv_step (hi : Inv s) (hf : fits s e) (h : step s e = some t) : Inv t := by
  cases moves h with
  | acquire he => exact hi.enters _ he
  | resume he => exact hi.enters _ he
  | ignored _ => exact hi
  | @grant n hn =>
    have hcr := grant_fits hi hn hf
    obtain ⟨h1, h2⟩ := hi
    constructor
    all_goals
      dsimp only
      omega
  | close => exact ⟨hi.credit, hi.nonneg⟩

theorem inv_reach (h : sys.Reach fits s) : Inv s := by
  refine h.inv (P := Inv) (fun s hs => ?_) fun _ _ _ hi hf hs => inv_step hi hf hs
  cases hs
  exact ⟨by decide, by decide⟩

/-- After a close nobody waits and `Acquire` returns false. -/
theorem closed_for_good (hr : sys.Reach fits s) (hc : s.gate.closed = true) {u : St} (hu : sys.Steps fits s u) :
    .waiting ∉ u.acquirers ∧ u.enter = (.returned false, u) ∧ u.acquired = s.acquired := by
  have hu' : u.gate.closed = true ∧ u.acquired = s.acquired := by
    refine hu.keep (P := fun u => u.gate.closed = true ∧ u.acquired = s.acquired) (fun v e w hv _ h => ?_) ⟨hc, rfl⟩
    obtain ⟨h1, h2⟩ := closed_step hv.1 h
    exact ⟨h1, h2.trans hv.2⟩
  refine ⟨fun hw => ?_, enter_closed hu'.1, hu'.2⟩
  have := (blocked_reach (hr.steps hu) hw).2
  rw [hu'.1] at this
  cases this

theorem credit_kept (s : St) (hr : sys.Reach fits s) :
    (s.acquired : Int) ≤ s.granted ∧
    (s.gate.closed = false → .waiting ∈ s.acquirers → s.granted = s.acquired) ∧
    (∀ n t, fits s (.grant n) → step s (.grant n) = some t → s.gate.credit ≤ t.gate.credit) ∧
    (∀ t u, step s .close = some t → sys.Steps fits t u →
      .waiting ∉ u.acquirers ∧ u.enter = (.returned false, u) ∧ u.acquired = s.acquired) := by
  have hi := inv_reach hr
  refine ⟨never_overdrawn hr, fun _ hw => ?_, fun n t hf h => ?_, fun t u h hu => ?_⟩
  · have hb := (blocked_reach hr hw).1
    obtain ⟨h1, h2⟩ := hi
    omega
  · cases moves h with
    | ignored _ => exact Int.le_refl _
    | grant hn =>
      have := grant_fits hi hn hf
      dsimp only
      omega
  · have hrt : sys.Reach fits t := hr.step (e := .close) trivial h
    cases moves h with
    | close => exact closed_for_good hrt rfl hu

/-- Two senders on a gate: one waits, a grant of one wakes it, a second waits until the close. -/
def contended : List Ev := [.acquire, .grant (-3), .grant 1, .resume 0, .acquire]

theorem credit_kept_contended :
    ∃ s t u, sys.Reach fits s ∧ s.acquirers = [.returned true, .waiting] ∧ s.granted = s.acquired ∧
    step s .close = some t ∧ sys.exec fits t [.resume 1, .grant 5] = some u ∧
    u.acquirers = [.returned true, .returned false] ∧ u.enter = (.returned false, u) ∧ u.acquired = s.acquired := by
  obtain ⟨s, hr, hw, ho, ht⟩ := sys.reach_of_exec fits start rfl contended
    (P := fun s => s.acquirers = [.returned true, .waiting] ∧ s.gate.closed = false ∧
      (step s .close).any (fun t => (sys.exec fits t [.resume 1, .grant 5]).any fun u =>
        decide (u.acquirers = [.returned true, .returned false])) = true) (by decide +kernel)
  obtain ⟨t, ht, hu⟩ := (Option.any_eq_true _ _).mp ht
  obtain ⟨u, hu, hl⟩ := (Option.any_eq_true _ _).mp hu
  obtain ⟨-, hblocked, -, hclosed⟩ := credit_kept s hr
  obtain ⟨-, henter, hacq⟩ := hclosed t u ht (Sys.steps_exec _ hu)
  exact ⟨s, t, u, hr, hw, hblocked ho (by rw [hw]; decide), ht, hu, of_decide_eq_true hl, henter, hacq⟩

def flooded : List Ev := [.grant 9223372036854775807, .grant 1, .acquire]

theorem grant_wraps :
    ∃ s, sys.Reach Sys.any s ∧ s.gate.closed = false ∧ s.acquirers = [.waiting] ∧ s.acquired = 0 ∧
    s.granted = 2 ^ 63 ∧ s.gate.credit = -2 ^ 63 :=
  sys.reach_of_exec Sys.any start rfl flooded (by decide +kernel)

end ValueRpc.Core.CreditRun
