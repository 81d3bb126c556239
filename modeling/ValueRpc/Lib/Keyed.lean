/-
  ValueRpc.Lib.Keyed — lists that change at one place, summed up (`sum_set`), and those of keyed
  items, seen key by key.

  What is there under a key (`row`) changes only when the list changes at that key. Where each
  key has at most one item, `row_set` and `row_eraseIdx` say how; where a key is a FIFO channel,
  `row_concat` is a message put in, `row_take` one taken out (`takeFrom`), and `row_cut` the
  channel dropped.
-/

import Mathlib.Algebra.Order.Ring.Int
import Mathlib.Tactic.Common

namespace ValueRpc.Lib

theorem split_at {α : Type} {l : List α} {i : Nat} {a : α} (h : l[i]? = some a) : ∃ l₁ l₂, l = l₁ ++ a :: l₂ ∧
    l.eraseIdx i = l₁ ++ l₂ ∧ ∀ x, l.set i x = l₁ ++ x :: l₂ := by
  obtain ⟨hi, he⟩ := List.getElem?_eq_some_iff.mp h
  refine ⟨l.take i, l.drop (i + 1), ?_, List.eraseIdx_eq_take_drop_succ l i,
    fun x => List.set_eq_take_append_cons_drop.trans (if_pos hi)⟩
  rw [← he, ← List.drop_eq_getElem_cons hi, List.take_append_drop]

theorem sum_set {α : Type} {l : List α} {i : Nat} {a : α} (f : α → Nat) (h : l[i]? = some a) (b : α) :
    ((l.set i b).map f).sum + f a = (l.map f).sum + f b := by
  obtain ⟨l₁, l₂, hl, -, hs⟩ := split_at h
  rw [hs, hl]
  simp only [List.map_append, List.map_cons, List.sum_append, List.sum_cons]
  omega

theorem exists_of_sum_pos {α : Type} {l : List α} {f : α → Nat} (h : 0 < (l.map f).sum) :
    ∃ a ∈ l, 0 < f a := by
  induction l with
  | nil => cases h
  | cons a l ih =>
    by_cases ha : 0 < f a
    · exact ⟨a, .head _, ha⟩
    · obtain ⟨b, hb, hf⟩ := ih (by simp only [List.map_cons, List.sum_cons] at h; omega)
      exact ⟨b, .tail _ hb, hf⟩

theorem countP_le_sum {α : Type} {l : List α} {p : α → Bool} {f : α → Nat} (h : ∀ a ∈ l, p a = true → 0 < f a) :
    l.countP p ≤ (l.map f).sum := by
  induction l with
  | nil => exact Nat.le_refl _
  | cons a l ih =>
    have ih := ih fun b hb => h b (.tail _ hb)
    have ha := h a (.head _)
    rw [List.countP_cons, List.map_cons, List.sum_cons]
    split
    · have := ha ‹_›
      omega
    · omega

variable {κ β : Type} [DecidableEq κ] {l : List (κ × β)} {i : Nat} {j k : κ} {b b' : β}

/-- The items under a key, in order. -/
def row (k : κ) (l : List (κ × β)) : List β := (l.filter fun x => x.1 == k).map (·.2)

@[simp] theorem row_append (l₁ l₂ : List (κ × β)) : row k (l₁ ++ l₂) = row k l₁ ++ row k l₂ := by
  simp [row]

@[simp] theorem row_cons : row k ((j, b) :: l) = if k = j then b :: row k l else row k l := by
  by_cases h : k = j
  · simp [row, h]
  · simp [row, h, Ne.symm h]

/-- At its end, the list grows for one key. -/
theorem row_concat : row k (l ++ [(j, b)]) = if k = j then row k l ++ [b] else row k l := by
  rw [row_append, row_cons]
  split <;> simp [row]

theorem mem_row : b ∈ row k l ↔ (k, b) ∈ l := by
  simp only [row, List.mem_map, List.mem_filter, beq_iff_eq, Prod.exists]
  constructor
  · rintro ⟨k', b', ⟨h, rfl⟩, rfl⟩
    exact h
  · intro h
    exact ⟨k, b, ⟨h, rfl⟩, rfl⟩

/-- Around the only item of its key there is none. -/
theorem row_around {l₁ l₂ : List (κ × β)} (h : row k (l₁ ++ (k, b) :: l₂) = [b']) :
    row k l₁ = [] ∧ row k l₂ = [] := by
  rw [row_append, row_cons, if_pos rfl] at h
  have hlen := congrArg List.length h
  simp only [List.length_append, List.length_cons, List.length_nil] at hlen
  exact ⟨List.length_eq_zero_iff.mp (by omega), List.length_eq_zero_iff.mp (by omega)⟩

/-- The only item of its key goes. -/
theorem row_eraseIdx (h : l[i]? = some (j, b)) (hr : row j l = [b']) (k : κ) :
    row k (l.eraseIdx i) = if k = j then [] else row k l := by
  obtain ⟨l₁, l₂, hl, he, -⟩ := split_at h
  rw [hl] at hr
  obtain ⟨h₁, h₂⟩ := row_around hr
  rw [he, hl]
  by_cases hk : k = j
  · subst hk
    simp [h₁, h₂]
  · simp [hk]

/-- The only item of its key changes. -/
theorem row_set (h : l[i]? = some (j, b)) (hr : row j l = [b']) (b'' : β) (k : κ) :
    row k (l.set i (j, b'')) = if k = j then [b''] else row k l := by
  obtain ⟨l₁, l₂, hl, -, hs⟩ := split_at h
  rw [hl] at hr
  obtain ⟨h₁, h₂⟩ := row_around hr
  rw [hs, hl]
  by_cases hk : k = j
  · subst hk
    simp [h₁, h₂]
  · simp [hk]

/-! ## Channels -/

/-- The first item under a key, and what is left. -/
def takeFrom (k : κ) : List (κ × β) → Option (β × List (κ × β))
  | [] => none
  | (j, b) :: rest => if j = k then some (b, rest) else (takeFrom k rest).map fun r => (r.1, (j, b) :: r.2)

theorem row_cut (k j : κ) (l : List (κ × β)) :
    row k (l.filter fun x => x.1 ≠ j) = if k = j then [] else row k l := by
  induction l with
  | nil => simp [row]
  | cons x l ih =>
    obtain ⟨i, b⟩ := x
    by_cases hi : i = j
    · subst hi
      rw [List.filter_cons_of_neg (by simp), ih, row_cons]
      by_cases hk : k = i <;> simp [hk]
    · rw [List.filter_cons_of_pos (by simpa using hi), row_cons, row_cons, ih]
      by_cases hk : k = j
      · rw [if_neg (by rw [hk]; exact Ne.symm hi), if_pos hk, if_pos hk]
      · rw [if_neg hk, if_neg hk]

section take

variable {rest : List (κ × β)} (h : takeFrom k l = some (b, rest))
include h

theorem takeFrom_spec : ∃ l₁ l₂, l = l₁ ++ (k, b) :: l₂ ∧ rest = l₁ ++ l₂ ∧ ∀ x ∈ l₁, x.1 ≠ k := by
  induction l generalizing rest with
  | nil => cases h
  | cons x l ih =>
    obtain ⟨j, b'⟩ := x
    simp only [takeFrom] at h
    split at h
    · rename_i hj
      cases h
      exact ⟨[], l, by simp [hj], rfl, by simp⟩
    · rename_i hj
      obtain ⟨⟨m₁, r⟩, hr, heq⟩ := Option.map_eq_some_iff.mp h
      cases heq
      obtain ⟨l₁, l₂, rfl, rfl, hl⟩ := ih hr
      exact ⟨(j, b') :: l₁, l₂, rfl, rfl, by simpa [hj] using hl⟩

theorem row_take : row k l = b :: row k rest ∧ ∀ j, j ≠ k → row j l = row j rest := by
  obtain ⟨l₁, l₂, rfl, rfl, hl⟩ := takeFrom_spec h
  have hnil : row k l₁ = [] := by
    rw [row, List.filter_eq_nil_iff.mpr fun x hx => by simp [hl x hx]]
    rfl
  refine ⟨by simp [hnil], fun j hj => ?_⟩
  simp [hj]

theorem mem_of_take : (k, b) ∈ l ∧ ∀ x ∈ rest, x ∈ l := by
  obtain ⟨l₁, l₂, rfl, rfl, -⟩ := takeFrom_spec h
  refine ⟨by simp, fun x hx => ?_⟩
  simp only [List.mem_append, List.mem_cons] at hx ⊢
  tauto

theorem countP_take (p : β → Bool) :
    l.countP (fun x => p x.2) = rest.countP (fun x => p x.2) + (p b).toNat := by
  obtain ⟨l₁, l₂, rfl, rfl, -⟩ := takeFrom_spec h
  simp only [List.countP_append, List.countP_cons]
  cases p b
  · simp
  · simp; omega

end take

end ValueRpc.Lib
