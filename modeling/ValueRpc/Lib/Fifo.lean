/-
  ValueRpc.Lib.Fifo — a bounded first-in first-out queue and the worker that empties it.

  The input is offered values until it ends: by `close`, or by an offer the queue has no room
  for, which is refused and ends it. The worker takes the first value, hands it on, and is
  told of the hand-over (`hook`) before it takes the next. It returns when the input has ended
  and nothing is pending, or at once after a `stop`, and closes its output as it does.

  `Inv` is what holds in every run: nothing is lost, doubled or reordered on the way, and
  what was handed on is all of it when the worker returned with nothing left.
-/

import ValueRpc.Lib.Runs

namespace ValueRpc.Lib

inductive Worker (α : Type) where
  | idle
  | holding (v : α)
  | handed
  | returned
  deriving DecidableEq, Repr

def Worker.hand {α : Type} : Worker α → List α
  | .holding v => [v]
  | _ => []

def Worker.isHanded {α : Type} : Worker α → Bool
  | .handed => true
  | _ => false

def Worker.isReturned {α : Type} : Worker α → Bool
  | .returned => true
  | _ => false

structure Fifo (α : Type) where
  pending : List α
  ended : Bool
  stopped : Bool
  worker : Worker α
  /-- The values offered and accepted, and those handed on, in order. -/
  accepted : List α
  sent : List α
  hooks : Nat
  closes : Nat
  /-- The worker returned with the input at its end and nothing pending. -/
  drained : Bool
  deriving DecidableEq, Repr

namespace Fifo

variable {α : Type}

inductive Ev (α : Type) where
  | offer (v : α)
  | close
  | stop
  | take
  | send
  | hook
  | abandon
  | finish
  deriving DecidableEq, Repr

def empty : Fifo α := ⟨[], false, false, .idle, [], [], 0, 0, false⟩

def accepts (bound : Nat) (s : Fifo α) : Bool := !s.ended && !s.stopped && decide (s.pending.length < bound)

def step (bound : Nat) (s : Fifo α) : Ev α → Option (Fifo α)
  | .offer v =>
    if s.accepts bound then some { s with pending := s.pending ++ [v], accepted := s.accepted ++ [v] }
    else some { s with ended := s.ended || !s.stopped }
  | .close => some { s with ended := true }
  | .stop => some { s with stopped := true }
  | .take =>
    match s.worker, s.stopped, s.pending with
    | .idle, false, v :: rest => some { s with pending := rest, worker := .holding v }
    | _, _, _ => none
  | .send =>
    match s.worker with
    | .holding v => some { s with worker := .handed, sent := s.sent ++ [v] }
    | _ => none
  | .hook =>
    match s.worker with
    | .handed => some { s with worker := .idle, hooks := s.hooks + 1 }
    | _ => none
  | .abandon =>
    match s.worker, s.stopped with
    | .idle, true | .holding _, true => some { s with worker := .returned, closes := s.closes + 1 }
    | _, _ => none
  | .finish =>
    match s.worker, s.stopped, s.ended, s.pending with
    | .idle, false, true, [] => some { s with worker := .returned, closes := s.closes + 1, drained := true }
    | _, _, _, _ => none

def sys (bound : Nat) : Sys (Fifo α) (Ev α) := ⟨fun s => s = empty, step bound⟩

structure Inv (bound : Nat) (s : Fifo α) : Prop where
  bounded : s.pending.length ≤ bound
  /-- Until the worker returns, what was accepted is handed on, in its hand or pending. -/
  order : s.worker.isReturned = false → s.sent ++ s.worker.hand ++ s.pending = s.accepted
  sentPrefix : s.sent.IsPrefix s.accepted
  hooks : s.hooks + s.worker.isHanded.toNat = s.sent.length
  closes : s.closes = s.worker.isReturned.toNat
  /-- It returns because the input ended or it was stopped; nothing is accepted after that. -/
  returned : s.worker.isReturned = true → s.stopped = true ∨ s.ended = true ∧ s.drained = true
  drained : s.drained = true → s.ended = true ∧ s.worker.isReturned = true ∧ s.sent = s.accepted

variable {bound : Nat} {s t : Fifo α} {e : Ev α}

theorem inv_empty (bound : Nat) : Inv bound (empty : Fifo α) where
  bounded := Nat.zero_le _
  order := fun _ => rfl
  sentPrefix := List.prefix_rfl
  hooks := rfl
  closes := rfl
  returned := nofun
  drained := nofun

theorem Inv.undrained (hi : Inv bound s) (hw : s.worker.isReturned = false) : s.drained ≠ true := by
  intro hd
  rw [(hi.drained hd).2.1] at hw
  cases hw

theorem Inv.offer (hi : Inv bound s) (v : α) (ha : s.accepts bound = true) :
    Inv bound { s with pending := s.pending ++ [v], accepted := s.accepted ++ [v] } := by
  simp only [accepts, Bool.and_eq_true, Bool.not_eq_true', decide_eq_true_eq] at ha
  obtain ⟨⟨he, hs⟩, hl⟩ := ha
  have hr : s.worker.isReturned = false := by
    cases hw : s.worker.isReturned with
    | false => rfl
    | true =>
      rcases hi.returned hw with h | ⟨h, -⟩
      · rw [hs] at h; cases h
      · rw [he] at h; cases h
  refine ⟨?_, fun h => ?_, ?_, hi.hooks, hi.closes, hi.returned, fun hd => ?_⟩
  · simp only [List.length_append, List.length_singleton]
    omega
  · rw [← List.append_assoc, hi.order h]
  · exact hi.sentPrefix.trans (List.prefix_append _ _)
  · exact absurd hd (hi.undrained hr)

theorem inv_step (hi : Inv bound s) (h : step bound s e = some t) : Inv bound t := by
  cases e with
  | offer v =>
    simp only [step] at h
    split at h
    · rename_i ha
      cases h
      exact hi.offer v ha
    · cases h
      refine ⟨hi.bounded, hi.order, hi.sentPrefix, hi.hooks, hi.closes, fun hr => ?_, fun hd => ?_⟩
      · rcases hi.returned hr with h | ⟨he, hd⟩
        · exact .inl h
        · exact .inr ⟨by simp [he], hd⟩
      · obtain ⟨he, hr, hs⟩ := hi.drained hd
        exact ⟨by simp [he], hr, hs⟩
  | close =>
    cases h
    refine ⟨hi.bounded, hi.order, hi.sentPrefix, hi.hooks, hi.closes, fun hr => ?_, fun hd => ?_⟩
    · exact (hi.returned hr).imp id fun h => ⟨rfl, h.2⟩
    · exact ⟨rfl, (hi.drained hd).2⟩
  | stop =>
    cases h
    exact ⟨hi.bounded, hi.order, hi.sentPrefix, hi.hooks, hi.closes, fun _ => .inl rfl, hi.drained⟩
  | take =>
    simp only [step] at h
    split at h
    · rename_i v rest hw hs hp
      cases h
      have ho := hi.order (by rw [hw]; rfl)
      have hb := hi.bounded
      have hh := hi.hooks
      have hc := hi.closes
      rw [hw] at ho hh hc
      rw [hp] at ho hb
      refine ⟨?_, fun _ => ?_, hi.sentPrefix, hh, hc, nofun, fun hd => ?_⟩
      · simp only [List.length_cons] at hb
        dsimp only
        omega
      · rw [← ho]
        simp [Worker.hand]
      · exact absurd hd (hi.undrained (by rw [hw]; rfl))
    · cases h
  | send =>
    simp only [step] at h
    split at h
    · rename_i v hw
      cases h
      have ho := hi.order (by rw [hw]; rfl)
      have hh := hi.hooks
      have hc := hi.closes
      rw [hw] at ho hh hc
      refine ⟨hi.bounded, fun _ => ?_, ?_, ?_, hc, nofun, fun hd => ?_⟩
      · rw [← ho]
        simp [Worker.hand]
      · rw [← ho]
        exact List.prefix_append _ _
      · simp only [Worker.isHanded, Bool.toNat_false, Bool.toNat_true, List.length_append,
          List.length_singleton] at hh ⊢
        omega
      · exact absurd hd (hi.undrained (by rw [hw]; rfl))
    · cases h
  | hook =>
    simp only [step] at h
    split at h
    · rename_i hw
      cases h
      have ho := hi.order (by rw [hw]; rfl)
      have hh := hi.hooks
      have hc := hi.closes
      rw [hw] at ho hh hc
      refine ⟨hi.bounded, fun _ => ho, hi.sentPrefix, hh, hc, nofun, fun hd => ?_⟩
      exact absurd hd (hi.undrained (by rw [hw]; rfl))
    · cases h
  | abandon =>
    have hback : ∀ w : Worker α, s.worker = w → w.isReturned = false → w.isHanded = false → s.stopped = true →
        Inv bound { s with worker := .returned, closes := s.closes + 1 } := by
      intro w hw hr hnh hs
      have hh := hi.hooks
      have hc := hi.closes
      rw [hw, hnh] at hh
      rw [hw, hr] at hc
      refine ⟨hi.bounded, nofun, hi.sentPrefix, hh, by rw [hc]; rfl, fun _ => .inl hs, fun hd => ?_⟩
      exact absurd hd (hi.undrained (by rw [hw, hr]))
    simp only [step] at h
    split at h
    · rename_i hw hs
      cases h
      exact hback _ hw rfl rfl hs
    · rename_i v hw hs
      cases h
      exact hback _ hw rfl rfl hs
    · cases h
  | finish =>
    simp only [step] at h
    split at h
    · rename_i hw hs he hp
      cases h
      have ho := hi.order (by rw [hw]; rfl)
      have hh := hi.hooks
      have hc := hi.closes
      rw [hw] at ho hh hc
      rw [hp] at ho
      have hall : s.sent = s.accepted := by simpa [Worker.hand] using ho
      exact ⟨hi.bounded, nofun, hi.sentPrefix, hh, by rw [hc]; rfl, fun _ => .inr ⟨he, rfl⟩,
        fun _ => ⟨he, rfl, hall⟩⟩
    · cases h

theorem step_shut (h : step bound s e = some t) (hs : s.ended = true ∨ s.stopped = true) :
    t.ended = true ∨ t.stopped = true := by
  cases e with
  | offer v =>
    simp only [step] at h
    split at h
    · cases h; exact hs
    · cases h
      exact hs.imp_left fun he => by simp [he]
  | close => cases h; exact .inl rfl
  | stop => cases h; exact .inr rfl
  | _ =>
    simp only [step] at h
    split at h <;> first | (cases h; exact hs) | cases h

theorem inv_reach (h : (sys bound).Reach Sys.any s) : Inv bound s := by
  refine h.inv (P := Inv bound) (fun s hs => ?_) fun _ _ _ hi _ hs => inv_step hi hs
  cases hs
  exact inv_empty bound

end Fifo

end ValueRpc.Lib
