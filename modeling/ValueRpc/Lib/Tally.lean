/-
  ValueRpc.Lib.Tally — lists and maps where one place changes at a time.

  What is at a place after one element was replaced or added, how many elements have a
  property then, how many of the last ones in a row have it, and how large a map is when one
  key is stored or deleted. The counts are additive, for omega.
-/

import Mathlib.Data.List.AList
import Mathlib.Data.List.Induction

namespace ValueRpc.Lib

theorem modify_get {α : Type} {l : List α} {f : α → α} {i j : Nat} {b : α} (h : (l.modify i f)[j]? = some b) :
    (i = j ∧ ∃ a, l[i]? = some a ∧ b = f a) ∨ i ≠ j ∧ l[j]? = some b := by
  rw [List.getElem?_modify] at h
  by_cases hij : i = j
  · subst hij
    obtain ⟨a, ha, rfl⟩ := Option.map_eq_some_iff.mp h
    exact .inl ⟨rfl, a, ha, by simp⟩
  · simp only [if_neg hij, Option.map_eq_map, Option.map_id_fun', id_eq] at h
    exact .inr ⟨hij, h⟩

theorem append_get {α : Type} {l : List α} {a b : α} {i : Nat} (h : (l ++ [a])[i]? = some b) :
    l[i]? = some b ∨ i = l.length ∧ b = a := by
  by_cases hi : i < l.length
  · rw [List.getElem?_append_left hi] at h
    exact .inl h
  · rw [List.getElem?_append_right (by omega), List.getElem?_singleton] at h
    split at h
    · cases h
      exact .inr ⟨by omega, rfl⟩
    · cases h

theorem get_append {α : Type} {l : List α} {a : α} {i : Nat} (b : α) (h : l[i]? = some a) :
    (l ++ [b])[i]? = some a := by
  rw [List.getElem?_append_left (List.getElem?_eq_some_iff.mp h).1, h]

theorem countP_modify {α : Type} {l : List α} {i : Nat} {a : α} (p : α → Bool) (f : α → α)
    (h : l[i]? = some a) : (l.modify i f).countP p + (p a).toNat = l.countP p + (p (f a)).toNat := by
  induction l generalizing i with
  | nil => cases h
  | cons b l ih =>
    cases i with
    | zero =>
      cases h
      simp only [List.modify_zero_cons, List.countP_cons]
      cases p a <;> cases p (f a) <;> simp
    | succ i =>
      have := ih h
      simp only [List.modify_succ_cons, List.countP_cons]
      omega

/-- Where the property does not see the change. -/
theorem countP_modify_eq {α : Type} {l : List α} {i : Nat} (p : α → Bool) (f : α → α)
    (h : ∀ a, l[i]? = some a → p (f a) = p a) : (l.modify i f).countP p = l.countP p := by
  cases hi : l[i]? with
  | none => rw [List.modify_eq_self (List.getElem?_eq_none_iff.mp hi)]
  | some a =>
    have := countP_modify p f hi
    rw [h a hi] at this
    omega

theorem countP_pos_of_get {α : Type} {l : List α} {i : Nat} {a : α} {p : α → Bool} (h : l[i]? = some a)
    (ha : p a = true) : 0 < l.countP p :=
  List.countP_pos_iff.mpr ⟨a, List.mem_of_getElem? h, ha⟩

section Streak

variable {α : Type} {p : α → Bool}

/-- How many elements at the end, in a row, have the property. -/
def streak (p : α → Bool) (l : List α) : Nat := (l.reverse.takeWhile p).length

theorem streak_append (l : List α) (a : α) : streak p (l ++ [a]) = if p a then streak p l + 1 else 0 := by
  simp only [streak, List.reverse_append, List.reverse_cons, List.reverse_nil, List.nil_append, List.singleton_append,
    List.takeWhile_cons]
  split <;> rfl

/-- The last `n` elements are there and all have the property. -/
theorem le_streak {l : List α} {n : Nat} :
    n ≤ streak p l ↔ n ≤ l.length ∧ ∀ a ∈ l.drop (l.length - n), p a = true := by
  induction l using List.reverseRecOn generalizing n with
  | nil => simp [streak]
  | append_singleton l a ih =>
    rw [streak_append]
    cases n with
    | zero => simp
    | succ n =>
      have hlen : (l ++ [a]).length - (n + 1) = l.length - n := by
        rw [List.length_append, List.length_singleton]
        omega
      rw [hlen, List.drop_append_of_le_length (by omega)]
      by_cases ha : p a = true
      · simp only [ha, if_true, Nat.add_le_add_iff_right, ih, List.length_append, List.length_singleton,
          List.mem_append,
          List.mem_singleton]
        refine and_congr_right fun _ => ⟨fun h b hb => ?_, fun h b hb => h b (.inl hb)⟩
        rcases hb with hb | rfl
        · exact h b hb
        · exact ha
      · simp only [if_neg ha]
        exact ⟨fun h => absurd h (Nat.not_succ_le_zero n), fun h => absurd (h.2 a (by simp)) ha⟩

end Streak

section Maps

variable {α β : Type} [DecidableEq α]

def size (m : AList fun _ : α => β) : Nat := m.keys.length

theorem size_insert {m : AList fun _ : α => β} {k : α} (v : β) (h : m.lookup k = none) :
    size (m.insert k v) = size m + 1 := by
  have hk : k ∉ m.keys := fun hk => AList.lookup_eq_none.mp h hk
  simp only [size, AList.keys_insert, List.length_cons, List.erase_of_not_mem hk]

theorem size_insert_over {m : AList fun _ : α => β} {k : α} {v : β} (w : β) (h : m.lookup k = some v) :
    size (m.insert k w) = size m := by
  have hk : k ∈ m.keys := AList.lookup_isSome.mp (by rw [h]; rfl)
  have hpos : 0 < m.keys.length := List.length_pos_of_mem hk
  simp only [size, AList.keys_insert, List.length_cons, List.length_erase_of_mem hk]
  omega

theorem size_erase {m : AList fun _ : α => β} {k : α} {v : β} (h : m.lookup k = some v) :
    size (m.erase k) + 1 = size m := by
  have hk : k ∈ m.keys := AList.lookup_isSome.mp (by rw [h]; rfl)
  have hpos : 0 < m.keys.length := List.length_pos_of_mem hk
  simp only [size, AList.keys_erase, List.length_erase_of_mem hk]
  omega

theorem lookup_insert (m : AList fun _ : α => β) (k j : α) (v : β) :
    (m.insert k v).lookup j = if j = k then some v else m.lookup j := by
  by_cases h : j = k
  · subst h
    rw [if_pos rfl, AList.lookup_insert]
  · rw [if_neg h, AList.lookup_insert_ne h]

theorem lookup_erase (m : AList fun _ : α => β) (k j : α) :
    (m.erase k).lookup j = if j = k then none else m.lookup j := by
  by_cases h : j = k
  · subst h
    rw [if_pos rfl, AList.lookup_erase]
  · rw [if_neg h, AList.lookup_erase_ne h]

end Maps

end ValueRpc.Lib
