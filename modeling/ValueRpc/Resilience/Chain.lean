/-
  ValueRpc.Resilience.Chain — calls through chains of interceptors, all at once (see
  `ValueRpc.Resilience.Policies`).

  What a step of a call can do is said once (`Goes`): it goes on to what an interceptor wraps,
  with or without a slot or an attempt, it gets the network's answer, it returns from an
  interceptor, or it goes round in a Retry. A slot is in use while a call is in its bulkhead,
  and what is left of a call is what its Retries may still try (`Thread.load`).

  - `slots_bounded`: a bulkhead has at most its slots in use, and at least one for every call
    at the network inside of it; when all calls have returned, none is.
  - `invocations_bounded`: a call asks the network no more often than its Retries allow
    together.
  - `calls_return`: where all chains have their bulkheads in one order, all calls return,
    whatever they do next; `installed_twice` is a chain where they do not.
-/

import Mathlib.Algebra.Order.BigOperators.Group.List
import Mathlib.Algebra.Order.Group.Nat
import Mathlib.Data.List.MinMax
import ValueRpc.Lib.Keyed
import ValueRpc.Resilience.Policies

namespace ValueRpc.Resilience.Chain

open Function ValueRpc.Core ValueRpc.Lib
open ValueRpc.Resilience.Retry (RetryConfig)

variable {V : Type} {c : Instances} {u u' : Shared} {t t' : Thread V} {a : Act V} {rank : Nat → Nat}

/-! ## What a call does -/

def Policy.slot : Policy V → Option Nat
  | .bulkhead sem => some sem
  | _ => none

def Policy.attempts : Policy V → Nat
  | .retry cfg => cfg.maxAttempts.toNat
  | _ => 1

def Frame.slot : Frame V → Option Nat
  | .bulkhead sem => some sem
  | _ => none

def Frame.plain : Frame V → Bool
  | .bulkhead _ => false
  | .retry _ _ _ _ => false
  | _ => true

inductive Goes (c : Instances) (u : Shared) (t : Thread V) : Act V → Shared → Thread V → Prop
  | passes {p chain ctx ctx' ok u'} {f : Option (Frame V)} :
      t.mode = .calls (p :: chain) ctx → p.slot = none → p.attempts = 1 → (∀ x ∈ f, x.plain = true) →
        u'.used = u.used →
      Goes c u t (.enter ok) u' { t with stack := f.toList ++ t.stack, mode := .calls chain ctx' }
  | takes {sem chain ctx ok} : t.mode = .calls (.bulkhead sem :: chain) ctx → u.used sem < c.slots sem →
      Goes c u t (.enter ok) (u.setUsed sem (u.used sem + 1)) { t with
        stack := .bulkhead sem :: t.stack, mode := .calls chain ctx }
  | tries {cfg chain ctx ok} : t.mode = .calls (.retry cfg :: chain) ctx →
      Goes c u t (.enter ok) u { t with stack := .retry cfg chain ctx 1 :: t.stack, mode := .calls chain ctx }
  | refused {p chain ctx ok u' o} : t.mode = .calls (p :: chain) ctx → p.attempts = 1 → u'.used = u.used →
      Goes c u t (.enter ok) u' { t with mode := .returns o }
  | answered {ctx o} : t.mode = .calls [] ctx →
      Goes c u t (.answer o) u { t with mode := .returns o, invoked := t.invoked + 1 }
  | leaves {o o' f stack u'} : t.mode = .returns o → t.stack = f :: stack → f.slot = none → u'.used = u.used →
      Goes c u t .leave u' { t with stack := stack, mode := .returns o' }
  | releases {o sem stack} : t.mode = .returns o → t.stack = .bulkhead sem :: stack → 0 < u.used sem →
      Goes c u t .leave (u.setUsed sem (u.used sem - 1)) { t with stack := stack, mode := .returns o }
  | fails {o cfg chain ctx attempt stack} : t.mode = .returns o → t.stack = .retry cfg chain ctx attempt :: stack →
      attempt < cfg.maxAttempts →
        Goes c u t .leave u { t with stack := stack, mode := .sleeps cfg chain ctx attempt o }
  | again {o cfg chain ctx attempt} : t.mode = .sleeps cfg chain ctx attempt o →
      Goes c u t (.wake false) u { t with
        stack := .retry cfg chain ctx (attempt + 1) :: t.stack, mode := .calls chain ctx }
  | ends {o cfg chain ctx attempt} : t.mode = .sleeps cfg chain ctx attempt o →
      Goes c u t (.wake true) u { t with mode := .returns o }

theorem goes_enter {chain : List (Policy V)} {ctx : Nat} {ok : Bool} {p : Policy V} {f : Option (Frame V)}
    {mode : Mode V} (hm : t.mode = .calls (p :: chain) ctx)
    (h : enter c u t.method chain ctx ok p = some (u', f, mode)) :
    Goes c u t (.enter ok) u' { t with stack := f.toList ++ t.stack, mode := mode } := by
  cases p with
  | timeout d =>
    cases h
    exact .passes hm rfl rfl (by simp [Frame.plain]) rfl
  | fallback fn =>
    cases h
    exact .passes hm rfl rfl (by simp [Frame.plain]) rfl
  | bulkhead sem =>
    simp only [enter] at h
    split at h
    · split at h
      · rename_i hlt
        cases h
        exact .takes hm hlt
      · cases h
    · split at h
      · cases h
        exact .refused hm rfl rfl
      · cases h
  | rateLimit =>
    simp only [enter] at h
    split at h
    · cases h
      exact .passes hm rfl rfl (by simp) rfl
    · cases h
      exact .refused hm rfl rfl
  | retry cfg =>
    cases h
    exact .tries hm
  | circuitBreaker breaker isFailure =>
    simp only [enter] at h
    split at h
    · cases h
      exact .passes hm rfl rfl (by simp [Frame.plain]) rfl
    · cases h
      exact .refused hm rfl rfl

theorem goes_leave {o : Outcome V} {f : Frame V} {stack : List (Frame V)} {mode : Mode V}
    (hm : t.mode = .returns o) (hs : t.stack = f :: stack)
    (h : leave c u t.method t.req o f = some (u', mode)) :
    Goes c u t .leave u' { t with stack := stack, mode := mode } := by
  cases f with
  | timeout ctx =>
    cases h
    exact .leaves hm hs rfl rfl
  | fallback fn ctx =>
    simp only [leave] at h
    split at h <;>
    · cases h
      exact .leaves hm hs rfl rfl
  | bulkhead sem =>
    simp only [leave, Option.ite_none_right_eq_some] at h
    obtain ⟨hlt, h⟩ := h
    cases h
    exact .releases hm hs hlt
  | retry cfg chain ctx attempt =>
    simp only [leave] at h
    split at h
    · cases h
      exact .leaves hm hs rfl rfl
    · split at h
      · cases h
        exact .leaves hm hs rfl rfl
      · rename_i hmax
        cases h
        exact .fails hm hs (by omega)
  | circuitBreaker breaker isFailure =>
    cases h
    exact .leaves hm hs rfl rfl

theorem goes (h : t.go c u a = some (u', t')) : Goes c u t a u' t' := by
  cases a with
  | enter ok =>
    simp only [Thread.go] at h
    split at h
    · rename_i p chain ctx hm
      obtain ⟨⟨u₁, f, mode⟩, he, hx⟩ := Option.map_eq_some_iff.mp h
      cases hx
      exact goes_enter hm he
    · cases h
  | answer o =>
    simp only [Thread.go] at h
    split at h
    · rename_i ctx hm
      cases h
      exact .answered hm
    · cases h
  | leave =>
    simp only [Thread.go] at h
    split at h
    · rename_i o f stack hm hs
      obtain ⟨⟨u₁, mode⟩, he, hx⟩ := Option.map_eq_some_iff.mp h
      cases hx
      exact goes_leave hm hs he
    · cases h
  | wake ended =>
    simp only [Thread.go] at h
    split at h
    · rename_i cfg chain ctx attempt o hm
      cases ended with
      | true =>
        simp only [if_true, Option.ite_none_right_eq_some] at h
        cases h.2
        exact .ends hm
      | false =>
        cases h
        exact .again hm
    · cases h

/-! ## What a call has, and what is left of it -/

def bulkheads (chain : List (Policy V)) : List Nat := chain.filterMap Policy.slot

def slots : List (Frame V) → List Nat
  | [] => []
  | f :: stack => slots stack ++ f.slot.toList

def Thread.held (sem : Nat) (t : Thread V) : Nat := (slots t.stack).count sem

def cost (k : Nat) : List (Policy V) → Nat
  | [] => 1
  | p :: chain => p.attempts * (cost k chain + 3 * k)

def rest (k : Nat) (cfg : RetryConfig Failure) (chain : List (Policy V)) (attempt : Nat) : Nat :=
  (cfg.maxAttempts - attempt).toNat * (cost k chain + 3 * k)

def Frame.load (k : Nat) : Frame V → Nat
  | .retry cfg chain _ attempt => rest k cfg chain attempt + k
  | _ => k

def Mode.load (k : Nat) : Mode V → Nat
  | .calls chain _ => cost k chain
  | .sleeps cfg chain _ attempt _ => rest k cfg chain attempt
  | .returns _ => 0

def Thread.load (k : Nat) (t : Thread V) : Nat := (t.stack.map (Frame.load k)).sum + t.mode.load k

/-- With the slots `held`, and those of the chain, a call has all of its bulkheads. -/
def Frame.Fits (all held : List Nat) : Frame V → Prop
  | .retry _ chain _ _ => held ++ bulkheads chain = all
  | _ => True

def Placed (all : List Nat) : List (Frame V) → Prop
  | [] => True
  | f :: stack => f.Fits all (slots stack) ∧ Placed all stack

def Mode.Fits (all held : List Nat) : Mode V → Prop
  | .calls chain _ => held ++ bulkheads chain = all
  | .sleeps cfg chain _ attempt _ => held ++ bulkheads chain = all ∧ attempt < cfg.maxAttempts
  | .returns _ => True

structure Thread.Ok (t : Thread V) : Prop where
  mode : t.mode.Fits (bulkheads t.chain) (slots t.stack)
  stack : Placed (bulkheads t.chain) t.stack
  budget : t.invoked + t.load 0 ≤ cost 0 t.chain

section Plain

variable {k : Nat} {all : List Nat} {f : Option (Frame V)} (hf : ∀ x ∈ f, x.plain = true) (stack : List (Frame V))
include hf

theorem slots_plain : slots (f.toList ++ stack) = slots stack := by
  rcases f with - | f
  · rfl
  · have := hf f rfl
    cases f <;> first | exact List.append_nil _ | cases this

theorem placed_plain (h : Placed all stack) : Placed all (f.toList ++ stack) := by
  rcases f with - | f
  · exact h
  · have := hf f rfl
    cases f <;> first | exact ⟨trivial, h⟩ | cases this

theorem load_plain : ((f.toList ++ stack).map (Frame.load k)).sum ≤ k + (stack.map (Frame.load k)).sum := by
  rcases f with - | f
  · exact Nat.le_add_left _ _
  · have := hf f rfl
    cases f <;> first | exact Nat.le_refl _ | cases this

end Plain

theorem rest_eq (k : Nat) {cfg : RetryConfig Failure} (chain : List (Policy V)) {attempt : Nat}
    (h : attempt < cfg.maxAttempts) :
    rest k cfg chain attempt = rest k cfg chain (attempt + 1) + (cost k chain + 3 * k) := by
  unfold rest
  rw [← Nat.succ_mul]
  congr 1
  omega

theorem bulkheads_cons {p : Policy V} (hp : p.slot = none) (chain : List (Policy V)) :
    bulkheads (p :: chain) = bulkheads chain :=
  List.filterMap_cons_none hp

theorem used_setUsed (u : Shared) (sem' n sem : Nat) :
    (u.setUsed sem' n).used sem = if sem = sem' then n else u.used sem :=
  update_apply ..

theorem count_bulkhead (stack : List (Frame V)) (sem' sem : Nat) :
    (slots (.bulkhead sem' :: stack)).count sem = (slots stack).count sem + if sem = sem' then 1 else 0 := by
  simp only [slots, Frame.slot, Option.toList_some, List.count_append, List.count_singleton, beq_iff_eq,
    @eq_comm _ sem' sem]

/-- A slot comes into use as its bulkhead is entered, and out of it as that is left. -/
theorem Goes.held (h : Goes c u t a u' t') (sem : Nat) :
    u'.used sem + t.held sem = u.used sem + t'.held sem := by
  unfold Thread.held
  cases h with
  | passes hm hs ha hf hu => rw [slots_plain hf, hu]
  | takes hm hlt =>
    rw [used_setUsed, count_bulkhead]
    split
    · subst_vars
      omega
    · omega
  | tries hm => simp [slots, Frame.slot]
  | refused hm ha hu => rw [hu]
  | answered hm => rfl
  | leaves hm hs hf hu => simp [hs, slots, hf, hu]
  | releases hm hs hlt =>
    simp only [used_setUsed, hs, count_bulkhead]
    split
    · subst_vars
      omega
    · omega
  | fails hm hs hlt => simp [hs, slots, Frame.slot]
  | again hm => simp [slots, Frame.slot]
  | ends hm => rfl

theorem Goes.used_le (h : Goes c u t a u' t') (hu : ∀ sem, u.used sem ≤ c.slots sem) (sem : Nat) :
    u'.used sem ≤ c.slots sem := by
  have hs := hu sem
  cases h with
  | takes hm hlt =>
    rw [used_setUsed]
    split
    · subst_vars
      exact hlt
    · exact hs
  | releases hm hst hlt =>
    rw [used_setUsed]
    split
    · subst_vars
      omega
    · exact hs
  | passes _ _ _ _ he => rwa [he]
  | refused _ _ he => rwa [he]
  | leaves _ _ _ he => rwa [he]
  | _ => exact hs

theorem Goes.fits (h : Goes c u t a u' t') (hm : t.mode.Fits (bulkheads t.chain) (slots t.stack))
    (hs : Placed (bulkheads t.chain) t.stack) :
    t'.chain = t.chain ∧ t'.mode.Fits (bulkheads t.chain) (slots t'.stack) ∧ Placed (bulkheads t.chain) t'.stack := by
  cases h with
  | passes he hp ha hf hu =>
    rw [he] at hm
    refine ⟨rfl, ?_, placed_plain hf _ hs⟩
    rw [slots_plain hf]
    exact (congrArg (_ ++ ·) (bulkheads_cons hp _).symm).trans hm
  | takes he hlt =>
    rw [he] at hm
    exact ⟨rfl, (List.append_assoc _ [_] _).trans hm, trivial, hs⟩
  | tries he =>
    rw [he] at hm
    exact ⟨rfl, (congrArg (· ++ _) (List.append_nil _)).trans hm, hm, hs⟩
  | refused he ha hu => exact ⟨rfl, trivial, hs⟩
  | answered he => exact ⟨rfl, trivial, hs⟩
  | leaves he hst hf hu =>
    rw [hst] at hs
    exact ⟨rfl, trivial, hs.2⟩
  | releases he hst hlt =>
    rw [hst] at hs
    exact ⟨rfl, trivial, hs.2⟩
  | fails he hst hlt =>
    rw [hst] at hs
    exact ⟨rfl, ⟨hs.1, hlt⟩, hs.2⟩
  | again he =>
    rw [he] at hm
    exact ⟨rfl, (congrArg (· ++ _) (List.append_nil _)).trans hm.1, hm.1, hs⟩
  | ends he => exact ⟨rfl, trivial, hs⟩

def Act.invokes : Act V → Nat
  | .answer _ => 1
  | _ => 0

theorem Goes.load (h : Goes c u t a u' t') (hm : t.mode.Fits (bulkheads t.chain) (slots t.stack)) (k : Nat) :
    t'.invoked = t.invoked + a.invokes ∧ t'.load k + k + a.invokes ≤ t.load k + k * a.invokes := by
  unfold Thread.load
  cases h with
  | passes he hp ha hf hu =>
    have := load_plain (k := k) hf t.stack
    simp only [he, Mode.load, cost, ha, Act.invokes]
    omega
  | takes he hlt =>
    simp only [he, Mode.load, cost, Policy.attempts, Act.invokes, List.map_cons, List.sum_cons, Frame.load]
    omega
  | tries he =>
    rename_i cfg chain ctx ok
    have h0 : cost k (.retry cfg :: chain) = rest k cfg chain 0 := by simp [cost, rest, Policy.attempts]
    have h1 : rest k cfg chain 0 = rest k cfg chain 1 + _ := rest_eq k chain (by have := cfg.maxAttempts_pos; omega)
    simp only [he, Mode.load, h0, h1, Act.invokes, List.map_cons, List.sum_cons, Frame.load]
    omega
  | refused he ha hu =>
    simp only [he, Mode.load, cost, ha, Act.invokes]
    omega
  | answered he =>
    refine ⟨rfl, ?_⟩
    simp only [he, Mode.load, cost, Act.invokes]
    omega
  | leaves he hst hf hu =>
    rename_i o o' f stack
    have : k ≤ f.load k := by
      cases f with
      | retry cfg chain ctx attempt => exact Nat.le_add_left _ _
      | _ => exact Nat.le_refl _
    simp only [he, hst, Mode.load, Act.invokes, List.map_cons, List.sum_cons]
    omega
  | releases he hst hlt =>
    simp only [he, hst, Mode.load, Act.invokes, List.map_cons, List.sum_cons, Frame.load]
    omega
  | fails he hst hlt =>
    simp only [he, hst, Mode.load, Act.invokes, List.map_cons, List.sum_cons, Frame.load]
    omega
  | again he =>
    rename_i o cfg chain ctx attempt
    rw [he] at hm
    have := rest_eq k chain hm.2
    simp only [he, Mode.load, Act.invokes, List.map_cons, List.sum_cons, Frame.load]
    omega
  | ends he =>
    rename_i o cfg chain ctx attempt
    rw [he] at hm
    have := rest_eq k chain hm.2
    simp only [he, Mode.load, Act.invokes]
    omega

theorem Goes.ok (h : Goes c u t a u' t') (ht : t.Ok) : t'.Ok := by
  obtain ⟨hc, hm, hs⟩ := h.fits ht.mode ht.stack
  obtain ⟨hi, hl⟩ := h.load ht.mode 0
  have hb := ht.budget
  refine ⟨by rwa [hc], by rwa [hc], ?_⟩
  rw [hc]
  omega

/-! ## All calls -/

variable {s s' : St V} {now : Int} {i : Nat}

structure Inv (c : Instances) (s : St V) : Prop where
  used : ∀ sem, s.shared.used sem = (s.threads.map (Thread.held sem)).sum
  le : ∀ sem, s.shared.used sem ≤ c.slots sem
  ok : ∀ t ∈ s.threads, t.Ok

theorem step_go (h : step c s (.go i a) = some s') :
    ∃ t u' t', s.threads[i]? = some t ∧ Goes c s.shared t a u' t' ∧ s' = ⟨u', s.threads.set i t'⟩ := by
  simp only [step] at h
  split at h
  · cases h
  · rename_i t ht
    obtain ⟨⟨u', t'⟩, hg, hs⟩ := Option.map_eq_some_iff.mp h
    exact ⟨t, u', t', ht, goes hg, hs.symm⟩

theorem inv_step {e : Ev V} (h : Inv c s) (hs : step c s e = some s') : Inv c s' := by
  cases e with
  | call chain method req =>
    cases hs
    refine ⟨fun sem => ?_, h.le, fun t ht => ?_⟩
    · simpa [callFunction, Shared.addCtx, Thread.held, slots] using h.used sem
    · rcases List.mem_append.mp ht with ht | ht
      · exact h.ok t ht
      · cases List.mem_singleton.mp ht
        exact ⟨rfl, trivial, by simp [Thread.load, Mode.load]⟩
  | go i a =>
    obtain ⟨t, u', t', ht, hg, rfl⟩ := step_go hs
    refine ⟨fun sem => ?_, hg.used_le h.le, fun x hx => ?_⟩
    · have h1 := hg.held sem
      have h2 := sum_set (Thread.held sem) ht t'
      have h3 := h.used sem
      simp only
      omega
    · rcases List.mem_or_eq_of_mem_set hx with hx | rfl
      · exact h.ok x hx
      · exact hg.ok (h.ok t (List.mem_of_getElem? ht))
  | tick d =>
    cases hs
    exact ⟨h.used, h.le, h.ok⟩
  | done ctx err =>
    cases hs
    exact ⟨h.used, h.le, h.ok⟩

theorem inv_reach {ok : St V → Ev V → Prop} (h : (sys c now).Reach ok s) : Inv c s := by
  refine h.inv (P := Inv c) (fun s hs => ?_) fun s e s' hi _ hs => inv_step hi hs
  cases hs
  exact ⟨fun _ => rfl, fun _ => Nat.zero_le _, nofun⟩

def Thread.invoking (t : Thread V) : Bool :=
  match t.mode with
  | .calls [] _ => true
  | _ => false

def Thread.done (t : Thread V) : Bool :=
  match t.mode, t.stack with
  | .returns _, [] => true
  | _, _ => false

/-- At the network a call is in all of its bulkheads. -/
theorem Thread.Ok.invoking (h : t.Ok) (hi : t.invoking = true) {sem : Nat} (hs : sem ∈ bulkheads t.chain) :
    0 < t.held sem := by
  have hm := h.mode
  unfold Thread.invoking at hi
  split at hi
  · rename_i ctx he
    rw [he] at hm
    replace hm : slots t.stack ++ [] = bulkheads t.chain := hm
    rw [List.append_nil] at hm
    exact List.count_pos_iff.mpr (hm ▸ hs)
  · cases hi

theorem held_done (h : t.done = true) (sem : Nat) : t.held sem = 0 := by
  unfold Thread.done at h
  split at h
  · rename_i o hm hs
    simp [Thread.held, hs, slots]
  · cases h

theorem slots_bounded (h : (sys c now).Reach Sys.any s) :
    (∀ sem, s.shared.used sem ≤ c.slots sem ∧
      s.threads.countP (fun t => t.invoking && decide (sem ∈ bulkheads t.chain)) ≤ s.shared.used sem) ∧
    ((∀ t ∈ s.threads, t.done = true) → ∀ sem, s.shared.used sem = 0) := by
  have hi := inv_reach h
  refine ⟨fun sem => ⟨hi.le sem, ?_⟩, fun hd sem => ?_⟩
  · rw [hi.used sem]
    refine countP_le_sum fun t ht hp => ?_
    simp only [Bool.and_eq_true, decide_eq_true_eq] at hp
    exact (hi.ok t ht).invoking hp.1 hp.2
  · refine Nat.eq_zero_of_not_pos fun hpos => ?_
    rw [hi.used sem] at hpos
    obtain ⟨t, ht, hh⟩ := exists_of_sum_pos hpos
    rw [held_done (hd t ht)] at hh
    exact absurd hh (Nat.lt_irrefl 0)

def plain : Instances := ⟨fun _ => 1, fun _ => .default⟩

def twoCalls : List (Ev Unit) := [.call [.bulkhead 0] "f" (), .call [.bulkhead 0] "f" (), .go 1 (.enter true)]

theorem slots_bounded_two : ∃ s : St Unit, (sys plain 0).Reach Sys.any s ∧ s.threads.length = 2 ∧
    s.threads.countP (fun t => t.invoking && decide (0 ∈ bulkheads t.chain)) = 1 ∧
      s.shared.used 0 ≤ plain.slots 0 := by
  obtain ⟨s, hr, h1, h2⟩ := (sys (V := Unit) plain 0).reach_of_exec Sys.any (start 0) rfl twoCalls
    (P := fun s => s.threads.length = 2 ∧ s.threads.countP (fun t => t.invoking && decide (0 ∈ bulkheads t.chain)) = 1)
    (by decide +kernel)
  exact ⟨s, hr, h1, h2, ((slots_bounded hr).1 0).1⟩

/-! ## Invocations -/

theorem cost_zero (chain : List (Policy V)) : cost 0 chain = (chain.map Policy.attempts).prod := by
  induction chain with
  | nil => rfl
  | cons p chain ih => simp [cost, ih]

/-- In every run, a call asks the network no more often than its Retries allow together. -/
theorem invocations_bounded (h : (sys c now).Reach Sys.any s) (ht : t ∈ s.threads) :
    t.invoked + t.invoking.toNat ≤ (t.chain.map Policy.attempts).prod := by
  have hb := ((inv_reach h).ok t ht).budget
  have hl : t.invoking.toNat ≤ t.load 0 := by
    unfold Thread.invoking
    split
    · rename_i ctx he
      simp [Thread.load, he, Mode.load, cost]
    · exact Nat.zero_le _
  rw [← cost_zero]
  omega

def refused : Outcome Unit := ⟨none, some (.other "refused")⟩

def twice : RetryConfig Failure := ((RetryConfig.default fun _ _ => true).withMaxAttempts 2).withJitter false

def fourTimes : List (Ev Unit) :=
  [.call [.retry twice, .retry twice] "f" (), .go 0 (.enter true), .go 0 (.enter true),
    .go 0 (.answer refused), .go 0 .leave,
    .go 0 (.wake false), .go 0 (.answer refused), .go 0 .leave, .go 0 .leave, .go 0 (.wake false), .go 0 (.enter true),
    .go 0 (.answer refused), .go 0 .leave, .go 0 (.wake false)]

theorem invocations_bounded_four :
    ∃ s : St Unit, (sys plain 0).Reach Sys.any s ∧ ∃ t ∈ s.threads, t.invoked = 3 ∧ t.invoking = true ∧
    t.invoked + t.invoking.toNat ≤ (t.chain.map Policy.attempts).prod := by
  obtain ⟨s, hr, t, ht, h1, h2⟩ := (sys (V := Unit) plain 0).reach_of_exec Sys.any (start 0) rfl fourTimes
    (P := fun s => ∃ t ∈ s.threads, t.invoked = 3 ∧ t.invoking = true) (by decide +kernel)
  exact ⟨s, hr, t, ht, h1, h2, invocations_bounded hr ht⟩

/-! ## Every call returns -/

/-- All chains have their bulkheads in one order. -/
def InOrder (rank : Nat → Nat) (s : St V) : Prop := ∀ t ∈ s.threads,
    (bulkheads t.chain).Pairwise fun a b => rank a < rank b

def going (_ : St V) : Ev V → Prop
  | .go _ _ => True
  | _ => False

theorem InOrder.go (h : InOrder rank s) (ht : s.threads[i]? = some t) (hg : Goes c u t a u' t') :
    InOrder rank ⟨u', s.threads.set i t'⟩ := by
  intro x hx
  rcases List.mem_or_eq_of_mem_set hx with hx | rfl
  · exact h x hx
  · have hc : x.chain = t.chain := by cases hg <;> rfl
    rw [hc]
    exact h t (List.mem_of_getElem? ht)

def Thread.wants (t : Thread V) : Option Nat :=
  match t.mode with
  | .calls (.bulkhead sem :: _) _ => some sem
  | _ => none

theorem wants_done (h : t.done = true) : t.wants = none := by
  unfold Thread.done at h
  split at h
  · rename_i o hm hs
    simp [Thread.wants, hm]
  · cases h

theorem Instances.slots_pos (c : Instances) (sem : Nat) : 0 < c.slots sem := by
  unfold Instances.slots
  split <;> omega

/-- A call that cannot go on has returned, or waits for a slot of a full bulkhead. -/
theorem stuck (hu : ∀ sem ∈ slots t.stack, 0 < u.used sem) (h : ∀ a, t.go c u a = none) :
    t.done = true ∨ ∃ sem, t.wants = some sem ∧ c.slots sem ≤ u.used sem := by
  obtain ⟨chain₀, method, req, stack, mode, invoked⟩ := t
  cases mode with
  | calls chain ctx =>
    cases chain with
    | nil => cases h (.answer ⟨none, none⟩)
    | cons p chain =>
      have he := h (.enter true)
      cases p with
      | bulkhead sem =>
        refine .inr ⟨sem, rfl, Nat.le_of_not_lt fun hlt => ?_⟩
        simp [Thread.go, enter, hlt] at he
      | circuitBreaker breaker isFailure =>
        simp only [Thread.go, enter] at he
        split at he <;> cases he
      | _ => cases he
  | sleeps cfg chain ctx attempt o => cases h (.wake false)
  | returns o =>
    cases stack with
    | nil => exact .inl rfl
    | cons f stack =>
      have he := h .leave
      cases f with
      | bulkhead sem =>
        have : 0 < u.used sem := hu sem (by simp [slots, Frame.slot])
        simp [Thread.go, leave, this] at he
      | fallback fn ctx =>
        simp only [Thread.go, leave] at he
        split at he <;> cases he
      | retry cfg chain ctx attempt =>
        simp only [Thread.go, leave] at he
        split at he
        · cases he
        · split at he <;> cases he
      | _ => cases he

/-- What a call waits for comes after what it has. -/
theorem wants_above (h : t.Ok) (ho : (bulkheads t.chain).Pairwise fun a b => rank a < rank b) {sem held : Nat}
    (hw : t.wants = some sem) (hh : 0 < t.held held) : rank held < rank sem := by
  have hm := h.mode
  unfold Thread.wants at hw
  split at hw
  · rename_i sem' chain ctx he
    cases hw
    rw [he] at hm
    replace hm : slots t.stack ++ sem :: bulkheads chain = bulkheads t.chain := hm
    rw [← hm] at ho
    exact (List.pairwise_append.mp ho).2.2 held (List.count_pos_iff.mp hh) sem (.head _)
  · cases hw

/-- Of calls that wait for each other's slots, the one that waits for the last of them would be
    in none that is waited for. So where nothing goes on, all have returned. -/
theorem all_done (hi : Inv c s) (ho : InOrder rank s) (hs : ∀ i a, step c s (.go i a) = none) :
    ∀ t ∈ s.threads, t.done = true := by
  have hstuck : ∀ t ∈ s.threads, t.done = true ∨ ∃ sem, t.wants = some sem ∧ c.slots sem ≤ s.shared.used sem := by
    intro t ht
    refine stuck (fun sem hm => ?_) fun a => ?_
    · rw [hi.used sem]
      exact (List.count_pos_iff.mpr hm).trans_le
        (List.single_le_sum (fun _ _ => Nat.zero_le _) _ (List.mem_map_of_mem ht))
    · obtain ⟨i, hti⟩ := List.mem_iff_getElem?.mp ht
      have := hs i a
      simp only [step, hti, Option.map_eq_none_iff] at this
      exact this
  have hnone : s.threads.filter (fun t => t.wants.isSome) = [] := by
    by_contra hne
    obtain ⟨t, htop⟩ := Option.ne_none_iff_exists'.mp
      (mt (List.argmax_eq_none (f := fun t : Thread V => t.wants.elim 0 rank)).mp hne)
    obtain ⟨ht, hsome⟩ := List.mem_filter.mp (List.argmax_mem htop)
    obtain ⟨sem, hw⟩ := Option.isSome_iff_exists.mp hsome
    -- the bulkhead it waits for is full, so another call is in it
    have hpos : 0 < s.shared.used sem := by
      rcases hstuck t ht with hd | ⟨sem', hw', hle⟩
      · rw [wants_done hd] at hw
        cases hw
      · rw [hw] at hw'
        cases hw'
        exact (c.slots_pos sem).trans_le hle
    rw [hi.used sem] at hpos
    obtain ⟨t₂, ht₂, hh⟩ := exists_of_sum_pos hpos
    -- which does not go on either, and so waits for a later one
    rcases hstuck t₂ ht₂ with hd | ⟨sem₂, hw₂, -⟩
    · rw [held_done hd] at hh
      exact Nat.lt_irrefl 0 hh
    · have hlt := wants_above (hi.ok t₂ ht₂) (ho t₂ ht₂) hw₂ hh
      have hle := List.le_of_mem_argmax (List.mem_filter.mpr ⟨ht₂, by rw [hw₂]; rfl⟩) htop
      simp only [hw, hw₂, Option.elim_some] at hle
      omega
  intro t ht
  rcases hstuck t ht with hd | ⟨sem, hw, -⟩
  · exact hd
  · have hmem : t ∈ s.threads.filter (fun t => t.wants.isSome) := List.mem_filter.mpr ⟨ht, by rw [hw]; rfl⟩
    rw [hnone] at hmem
    cases hmem

theorem calls_return (h : (sys c now).Reach Sys.any s) (ho : InOrder rank s) :
    (sys c now).Inevitable going (fun s => ∀ t ∈ s.threads, t.done = true) s := by
  refine Sys.inevitable_of_measure (I := fun s => Inv c s ∧ InOrder rank s)
    (fun s => (s.threads.map (Thread.load 1)).sum)
    (fun s e s' hi hg hs => ?_) (fun s hi hs => all_done hi.1 hi.2 fun i a => hs (.go i a) trivial) ⟨inv_reach h, ho⟩
  cases e with
  | go i a =>
    have hi' := inv_step (e := .go i a) hi.1 hs
    obtain ⟨t, u', t', ht, hg, rfl⟩ := step_go hs
    refine ⟨⟨hi', hi.2.go ht hg⟩, ?_⟩
    have hl := (hg.load (hi.1.ok t (List.mem_of_getElem? ht)).mode 1).2
    have hsum := sum_set (Thread.load 1) ht t'
    simp only
    omega
  | _ => cases hg

theorem calls_return_two : ∃ s : St Unit, (∃ t ∈ s.threads, t.done = false) ∧
    (sys plain 0).Inevitable going (fun s => ∀ t ∈ s.threads, t.done = true) s := by
  obtain ⟨s, hr, ht, ho⟩ := (sys (V := Unit) plain 0).reach_of_exec Sys.any (start 0) rfl twoCalls
    (P := fun s => (∃ t ∈ s.threads, t.done = false) ∧ ∀ t ∈ s.threads,
      (bulkheads t.chain).Pairwise fun a b => id a < id b)
    (by decide +kernel)
  exact ⟨s, ht, calls_return hr ho⟩

/-- It waits for the first bulkhead with the first context. -/
def Thread.waits (t : Thread V) : Bool :=
  match t.mode with
  | .calls (.bulkhead 0 :: _) 0 => true
  | _ => false

/-- A bulkhead of one slot, installed twice: the call has the slot and waits for it, and until
    its context ends nothing goes on. -/
theorem installed_twice : ∃ s : St Unit, (sys plain 0).Reach Sys.any s ∧ (∃ t ∈ s.threads, t.done = false) ∧
    ∀ i a, step plain s (.go i a) = none := by
  obtain ⟨s, hr, hd, hw, hu, hc⟩ := (sys (V := Unit) plain 0).reach_of_exec Sys.any (start 0) rfl
    [.call [.bulkhead 0, .bulkhead 0] "f" (), .go 0 (.enter true)]
    (P := fun s => (∃ t ∈ s.threads, t.done = false) ∧ (∀ t ∈ s.threads, t.waits = true) ∧
      s.shared.used 0 = 1 ∧ s.shared.ctxErr 0 = none)
    (by decide +kernel)
  refine ⟨s, hr, hd, fun i a => ?_⟩
  cases ht : s.threads[i]? with
  | none => simp [step, ht]
  | some t =>
    have hm := hw t (List.mem_of_getElem? ht)
    unfold Thread.waits at hm
    split at hm
    · rename_i chain he
      cases a with
      | enter ok => cases ok <;> simp [step, ht, Thread.go, he, enter, hu, hc, plain, Instances.slots]
      | _ => simp [step, ht, Thread.go, he]
    · cases hm

end ValueRpc.Resilience.Chain
