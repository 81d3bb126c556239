/-
  ValueRpc.Stream.Inbound — the server's side of a put-stream or of a chat's input:
  the `servingRequest`'s pump goroutine and the handler that reads `inC`.

  `act` is one step of either. What the handler read or can read, what the goroutine
  holds and what the pump has queued are one list, and while the pump is not stopped no
  step changes it (`act_kept`). Each queued or held value, each delivery counted since
  the last grant and the grant being sent stand for one credit of the client's
  (`act_owed`). `graceful` records that the goroutine returned because the input ended and
  not because it was stopped: `inC` is closed by the graceful end of the input.
-/

import ValueRpc.Stream.Endpoint

namespace ValueRpc.Stream

open ValueRpc.Core

variable {α : Type}

structure Inbound (α : Type) where
  rx : Receiver α
  got : List (Value α)
  graceful : Bool
  deriving DecidableEq, Repr

/-- The handler's reads from `inC` and the steps of `run`. -/
inductive Act where
  | turn
  | putOut
  | handoff
  | abandon
  | hook
  | grant
  | read
  deriving DecidableEq, Repr

namespace Inbound

def act (i : Inbound α) : Act → Option (Inbound α × List Back)
  | .turn =>
    match i.rx.turn with
    | some r =>
      match r.pc with
      | .finished => some ({ i with rx := r, graceful := i.graceful || !i.rx.pump.stopped }, [])
      | _ => some ({ i with rx := r }, [])
    | none => none
  | .putOut => if i.rx.out.length < i.rx.outCap then i.rx.putOut.map fun r => ({ i with rx := r }, []) else none
  | .handoff =>
    match i.rx.pc, i.rx.out with
    | .holding v, [] => some ({ i with rx := { i.rx with pc := .delivered v }, got := i.got ++ [v] }, [])
    | _, _ => none
  | .abandon => i.rx.abandon.map fun r => ({ i with rx := r }, [])
  | .hook =>
    match i.rx.pc with
    | .delivered _ => some ({ i with rx := i.rx.grantInbound }, [])
    | _ => none
  | .grant =>
    match i.rx.pc with
    | .granting n => some ({ i with rx := { i.rx with pc := .waiting } }, [.credit n])
    | _ => none
  | .read =>
    match i.rx.out with
    | v :: rest => some ({ i with rx := { i.rx with out := rest }, got := i.got ++ [v] }, [])
    | [] => none

def handed (i : Inbound α) : List (Value α) := i.got ++ i.rx.out

def stream (i : Inbound α) : List (Value α) := i.handed ++ runItems i.rx.pc ++ i.rx.pump.pending

/-- The credit the goroutine's place stands for. -/
def claim : RunPc α → Int
  | .holding _ => 1
  | .delivered _ => 1
  | .granting n => n
  | _ => 0

/-- The client's credit on this side. -/
def owed (i : Inbound α) : Int := i.rx.pump.pending.length + claim i.rx.pc + i.rx.delivered

variable {i j : Inbound α} {bs : List Back} {a : Act}

structure Counts (i : Inbound α) : Prop where
  delivered : 0 ≤ i.rx.delivered
  granting : ∀ n, i.rx.pc = .granting n → 0 ≤ n

theorem Counts.claim_nonneg (h : i.Counts) : 0 ≤ claim i.rx.pc := by
  unfold claim
  split
  · decide
  · decide
  · exact h.granting _ ‹_›
  · decide

/-- What a step leaves alone, and what it does to the stream and the credit. -/
structure ActOk (i j : Inbound α) (bs : List Back) : Prop where
  window : j.rx.creditWindow = i.rx.creditWindow
  record : j.rx.live = i.rx.live ∧ j.rx.ended = i.rx.ended ∧ j.rx.chat = i.rx.chat
  pump : j.rx.pump.inputEnd = i.rx.pump.inputEnd ∧ j.rx.pump.stopped = i.rx.pump.stopped ∧
    j.rx.pump.overflow = i.rx.pump.overflow ∧ j.rx.pump.maxPending = i.rx.pump.maxPending
  counts : j.Counts
  owed : j.owed + (bs.map Back.amount).sum ≤ i.owed
  credits : ∀ b ∈ bs, ∃ n, b = .credit n
  stream : i.rx.pump.stopped = false → j.stream = i.stream
  graceful : j.graceful = true → i.graceful = true ∨
    i.rx.pump.stopped = false ∧ i.rx.pump.inputEnd = true ∧ j.rx.pc = .finished ∧ j.handed = i.stream
  finished : i.rx.pc = .finished → j.rx.pc = .finished ∧ j.handed = i.handed

/-- The part of `ActOk` that holds whatever the counts are: an initiator's count starts below
    zero. -/
structure ActKept (i j : Inbound α) : Prop where
  window : j.rx.creditWindow = i.rx.creditWindow
  record : j.rx.live = i.rx.live ∧ j.rx.ended = i.rx.ended ∧ j.rx.chat = i.rx.chat
  pump : j.rx.pump.inputEnd = i.rx.pump.inputEnd ∧ j.rx.pump.stopped = i.rx.pump.stopped ∧
    j.rx.pump.overflow = i.rx.pump.overflow ∧ j.rx.pump.maxPending = i.rx.pump.maxPending
  stream : i.rx.pump.stopped = false → j.stream = i.stream
  /-- A stopped pump gives its goroutine nothing more. -/
  front : i.rx.pump.stopped = true → (j.handed ++ runItems j.rx.pc).IsPrefix (i.handed ++ runItems i.rx.pc)
  graceful : j.graceful = true → i.graceful = true ∨
    i.rx.pump.stopped = false ∧ i.rx.pump.inputEnd = true ∧ j.rx.pc = .finished ∧ j.handed = i.stream
  finished : i.rx.pc = .finished → j.rx.pc = .finished ∧ j.handed = i.handed

theorem turn_kept (h : i.act .turn = some (j, bs)) : ActKept i j := by
  simp only [act, Receiver.turn] at h
  split at h
  case h_2 => cases h
  case h_1 r hr =>
  split at hr
  case h_2 => cases hr
  case h_1 hp =>
  have hf : i.rx.pc ≠ .finished := by rw [hp]; simp
  split at hr
  · -- stopped: return without draining
    rename_i hs
    cases hr; cases h
    refine ⟨rfl, ⟨rfl, rfl, rfl⟩, ⟨rfl, rfl, rfl, rfl⟩, ?_, ?_, ?_, fun h => absurd h hf⟩
    · intro hn; rw [hs] at hn; cases hn
    · intro _; simp [handed, runItems, hp]
    · simp [hs]
  · rename_i hs
    have hs : i.rx.pump.stopped = false := Bool.eq_false_iff.mpr hs
    have hns : i.rx.pump.stopped ≠ true := by simp [hs]
    split at hr
    · rename_i v p ht
      obtain ⟨hpend, he, ho, hst, hm⟩ := StreamPump.take_some ht
      cases hr; cases h
      refine ⟨rfl, ⟨rfl, rfl, rfl⟩, ⟨he, hst, ho, hm⟩, ?_, fun h => absurd h hns, .inl, fun h => absurd h hf⟩
      intro _; simp [stream, handed, runItems, hp, hpend]
    · rename_i ht
      split at hr
      · rename_i he
        cases hr; cases h
        refine ⟨rfl, ⟨rfl, rfl, rfl⟩, ⟨rfl, rfl, rfl, rfl⟩, ?_, fun h => absurd h hns, ?_, fun h => absurd h hf⟩
        · intro _; simp [stream, handed, runItems, hp]
        · intro _
          exact .inr ⟨hs, he, rfl, by simp [stream, handed, runItems, hp, StreamPump.take_none ht]⟩
      · cases hr

theorem act_kept (h : i.act a = some (j, bs)) : ActKept i j := by
  cases a with
  | turn => exact turn_kept h
  | putOut =>
    simp only [act, Receiver.putOut] at h
    split at h
    · split at h
      · rename_i v hp
        cases h
        refine ⟨rfl, ⟨rfl, rfl, rfl⟩, ⟨rfl, rfl, rfl, rfl⟩, ?_, ?_, .inl, ?_⟩
        · intro _; simp [stream, handed, runItems, hp]
        · intro _; simp [handed, runItems, hp]
        · intro hf; rw [hp] at hf; cases hf
      · cases h
    · cases h
  | handoff =>
    simp only [act] at h
    split at h
    · rename_i v hp ho
      cases h
      refine ⟨rfl, ⟨rfl, rfl, rfl⟩, ⟨rfl, rfl, rfl, rfl⟩, ?_, ?_, .inl, ?_⟩
      · intro _; simp [stream, handed, runItems, hp, ho]
      · intro _; simp [handed, runItems, hp, ho]
      · intro hf; rw [hp] at hf; cases hf
    · cases h
  | abandon =>
    simp only [act, Receiver.abandon] at h
    split at h
    · rename_i v hp
      split at h
      · rename_i hs
        cases h
        refine ⟨rfl, ⟨rfl, rfl, rfl⟩, ⟨rfl, rfl, rfl, rfl⟩, ?_, ?_, .inl, ?_⟩
        · intro hn; rw [hs] at hn; cases hn
        · intro _; simp [handed, runItems, hp]
        · intro hf; rw [hp] at hf; cases hf
      · cases h
    · cases h
  | hook =>
    simp only [act] at h
    split at h
    · rename_i v hp
      cases h
      have hf : i.rx.pc ≠ .finished := by rw [hp]; simp
      simp only [Receiver.grantInbound, Receiver.grantDelivered]
      split <;>
        refine ⟨rfl, ⟨rfl, rfl, rfl⟩, ⟨rfl, rfl, rfl, rfl⟩, ?_, ?_, .inl, fun h => absurd h hf⟩ <;>
        intro _ <;> simp [stream, handed, runItems, hp]
    · cases h
  | grant =>
    simp only [act] at h
    split at h
    · rename_i n hp
      cases h
      refine ⟨rfl, ⟨rfl, rfl, rfl⟩, ⟨rfl, rfl, rfl, rfl⟩, ?_, ?_, .inl, ?_⟩
      · intro _; simp [stream, handed, runItems, hp]
      · intro _; simp [handed, runItems, hp]
      · intro hf; rw [hp] at hf; cases hf
    · cases h
  | read =>
    simp only [act] at h
    split at h
    · rename_i v rest ho
      cases h
      refine ⟨rfl, ⟨rfl, rfl, rfl⟩, ⟨rfl, rfl, rfl, rfl⟩, ?_, ?_, .inl, ?_⟩
      · intro _; simp [stream, handed, ho]
      · intro _; simp [handed, ho]
      · intro hf; exact ⟨hf, by simp [handed, ho]⟩
    · cases h

/-- The goroutine sends nothing but StreamCredit. -/
theorem act_credits (h : i.act a = some (j, bs)) :
    ∀ b ∈ bs, ∃ n, b = .credit n := by
  cases a with
  | turn =>
    simp only [act] at h
    split at h
    · split at h <;> (cases h; simp)
    · cases h
  | putOut =>
    simp only [act] at h
    split at h
    · obtain ⟨r, -, hr⟩ := Option.map_eq_some_iff.mp h
      cases hr
      simp
    · cases h
  | handoff =>
    simp only [act] at h
    split at h
    · cases h; simp
    · cases h
  | abandon =>
    obtain ⟨r, -, hr⟩ := Option.map_eq_some_iff.mp h
    cases hr
    simp
  | hook =>
    simp only [act] at h
    split at h
    · cases h; simp
    · cases h
  | grant =>
    simp only [act] at h
    split at h
    · cases h; simp
    · cases h
  | read =>
    simp only [act] at h
    split at h
    · cases h; simp
    · cases h

/-- The counts stay counts, and no credit is made. -/
theorem act_owed (hc : i.Counts) (h : i.act a = some (j, bs)) :
    j.Counts ∧ j.owed + (bs.map Back.amount).sum ≤ i.owed := by
  have hd := hc.delivered
  cases a with
  | turn =>
    simp only [act, Receiver.turn] at h
    split at h
    case h_2 => cases h
    case h_1 r hr =>
    split at hr
    case h_2 => cases hr
    case h_1 hp =>
    split at hr
    · cases hr; cases h
      exact ⟨⟨hd, by simp⟩, by simp [owed, claim, hp]⟩
    · split at hr
      · rename_i v p ht
        have hpend := (StreamPump.take_some ht).1
        cases hr; cases h
        refine ⟨⟨hd, by simp⟩, ?_⟩
        simp only [owed, claim, hp, hpend, List.length_cons, List.map_nil, List.sum_nil]; omega
      · split at hr
        · cases hr; cases h
          exact ⟨⟨hd, by simp⟩, by simp [owed, claim, hp]⟩
        · cases hr
  | putOut =>
    simp only [act, Receiver.putOut] at h
    split at h
    · split at h
      · rename_i v hp
        cases h
        exact ⟨⟨hd, by simp⟩, by simp [owed, claim, hp]⟩
      · cases h
    · cases h
  | handoff =>
    simp only [act] at h
    split at h
    · rename_i v hp ho
      cases h
      exact ⟨⟨hd, by simp⟩, by simp [owed, claim, hp]⟩
    · cases h
  | abandon =>
    simp only [act, Receiver.abandon] at h
    split at h
    · rename_i v hp
      split at h
      · cases h
        refine ⟨⟨hd, by simp⟩, ?_⟩
        simp only [owed, claim, hp, List.map_nil, List.sum_nil]; omega
      · cases h
    · cases h
  | hook =>
    simp only [act] at h
    split at h
    · rename_i v hp
      cases h
      simp only [Receiver.grantInbound, Receiver.grantDelivered]
      split
      · refine ⟨⟨Int.le_refl _, ?_⟩, ?_⟩
        · intro n hn; cases hn; omega
        · simp only [owed, claim, hp, List.map_nil, List.sum_nil]; omega
      · refine ⟨⟨by dsimp only; omega, by simp⟩, ?_⟩
        simp only [owed, claim, hp, List.map_nil, List.sum_nil]; omega
    · cases h
  | grant =>
    simp only [act] at h
    split at h
    · rename_i n hp
      cases h
      have hn := hc.granting n hp
      refine ⟨⟨hd, by simp⟩, ?_⟩
      simp only [owed, claim, hp, Back.amount, List.map_cons, List.map_nil, List.sum_cons, List.sum_nil]; omega
    · cases h
  | read =>
    simp only [act] at h
    split at h
    · cases h
      exact ⟨⟨hd, hc.granting⟩, by simp [owed]⟩
    · cases h

theorem act_ok (hc : i.Counts) (h : i.act a = some (j, bs)) :
    ActOk i j bs := by
  have hk := act_kept h
  obtain ⟨hcounts, howed⟩ := act_owed hc h
  exact ⟨hk.window, hk.record, hk.pump, hcounts, howed, act_credits h, hk.stream, hk.graceful, hk.finished⟩

/-- It takes from the queue and leaves the record's `cancelOnce`. -/
theorem act_rx (h : i.act a = some (j, bs)) :
    j.rx.cancelOnce = i.rx.cancelOnce ∧ j.rx.pump.pending.length ≤ i.rx.pump.pending.length := by
  cases a with
  | turn =>
    simp only [act] at h
    split at h
    case h_2 => cases h
    case h_1 r hr =>
    have hj : j.rx = r := by split at h <;> (cases h; rfl)
    simp only [Receiver.turn] at hr
    split at hr
    · split at hr
      · cases hr; rw [hj]; exact ⟨rfl, Nat.le_refl _⟩
      · split at hr
        · rename_i v p ht
          cases hr
          rw [hj, (StreamPump.take_some ht).1]
          exact ⟨rfl, Nat.le_succ _⟩
        · split at hr
          · cases hr; rw [hj]; exact ⟨rfl, Nat.le_refl _⟩
          · cases hr
    · cases hr
  | hook =>
    simp only [act] at h
    split at h
    · cases h
      simp only [Receiver.grantInbound, Receiver.grantDelivered]
      split <;> exact ⟨rfl, Nat.le_refl _⟩
    · cases h
  | putOut =>
    simp only [act, Receiver.putOut] at h
    repeat' split at h
    all_goals first | (cases h; exact ⟨rfl, Nat.le_refl _⟩) | cases h
  | abandon =>
    simp only [act, Receiver.abandon] at h
    repeat' split at h
    all_goals first | (cases h; exact ⟨rfl, Nat.le_refl _⟩) | cases h
  | handoff =>
    simp only [act] at h
    split at h
    · cases h; exact ⟨rfl, Nat.le_refl _⟩
    · cases h
  | grant =>
    simp only [act] at h
    split at h
    · cases h; exact ⟨rfl, Nat.le_refl _⟩
    · cases h
  | read =>
    simp only [act] at h
    split at h
    · cases h; exact ⟨rfl, Nat.le_refl _⟩
    · cases h

/-! ### Draining -/

def work (i : Inbound α) : Nat :=
  6 * i.rx.pump.pending.length + i.rx.out.length +
    match i.rx.pc with
    | .holding _ => 5
    | .delivered _ => 3
    | .granting _ => 1
    | _ => 0

/-- While something is under way, the handler or the goroutine has a step that brings it on. -/
theorem act_progress (hs : i.rx.pump.stopped = false) (hf : i.rx.pc = .finished → i.rx.pump.pending = [])
    (hne : i.stream ≠ i.got) : ∃ a j bs, i.act a = some (j, bs) ∧ j.work < i.work := by
  cases ho : i.rx.out with
  | cons v rest =>
    exact ⟨.read, { i with rx := { i.rx with out := rest }, got := i.got ++ [v] }, [],
      by simp only [act, ho], by simp [work, ho]⟩
  | nil =>
    cases hp : i.rx.pc with
    | holding v =>
      exact ⟨.handoff, { i with rx := { i.rx with pc := .delivered v }, got := i.got ++ [v] }, [],
        by simp only [act, hp, ho],
        by simp [work, hp]⟩
    | delivered v =>
      refine ⟨.hook, { i with rx := i.rx.grantInbound }, [], by simp only [act, hp], ?_⟩
      simp only [work, Receiver.grantInbound, Receiver.grantDelivered, hp]
      split <;> simp
    | granting n =>
      exact ⟨.grant, { i with rx := { i.rx with pc := .waiting } }, [.credit n], by simp only [act, hp],
        by simp [work, hp]⟩
    | waiting =>
      cases ht : i.rx.pump.take with
      | none => exact absurd (by simp [stream, handed, ho, hp, runItems, StreamPump.take_none ht]) hne
      | some r =>
        obtain ⟨v, p⟩ := r
        have hpend := (StreamPump.take_some ht).1
        refine ⟨.turn, { i with rx := { i.rx with pump := p, pc := .holding v } }, [],
          by simp [act, Receiver.turn, hp, hs, ht], ?_⟩
        simp only [work, hp, hpend, List.length_cons]
        omega
    | finished => exact absurd (by simp [stream, handed, ho, hp, runItems, hf hp]) hne

/-- A pump that is not stopped finishes at the end of its input, with everything handed on. -/
theorem act_finished (hs : i.rx.pump.stopped = false)
    (h : i.act a = some (j, bs)) (hf : j.rx.pc = .finished) :
    i.rx.pc = .finished ∨ i.rx.pump.inputEnd = true ∧ j.handed = i.stream := by
  cases a with
  | turn =>
    simp only [act, Receiver.turn] at h
    split at h
    case h_2 => cases h
    case h_1 r hr =>
    split at hr
    case h_2 => cases hr
    case h_1 hp =>
    rw [hs, if_neg (by simp)] at hr
    split at hr
    · cases hr; cases h; cases hf
    · rename_i ht
      split at hr
      · rename_i he
        cases hr; cases h
        exact .inr ⟨he, by simp [stream, handed, runItems, hp, StreamPump.take_none ht]⟩
      · cases hr
  | putOut =>
    simp only [act, Receiver.putOut] at h
    split at h
    · split at h
      · cases h; cases hf
      · cases h
    · cases h
  | handoff =>
    simp only [act] at h
    split at h
    · cases h; cases hf
    · cases h
  | abandon =>
    simp only [act, Receiver.abandon, hs] at h
    split at h <;> simp at h
  | hook =>
    simp only [act] at h
    split at h
    · cases h
      simp only [Receiver.grantInbound, Receiver.grantDelivered] at hf
      split at hf <;> cases hf
    · cases h
  | grant =>
    simp only [act] at h
    split at h
    · cases h; cases hf
    · cases h
  | read =>
    simp only [act] at h
    split at h
    · cases h; exact .inl hf
    · cases h

end Inbound

end ValueRpc.Stream
