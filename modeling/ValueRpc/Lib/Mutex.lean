/-
  ValueRpc.Lib.Mutex — a section that one thread is in at a time.

  The threads are a list, `p` says of a thread that it is in the section, and `o` is the
  place of the thread that owns it. A thread that is in the section owns it (`Held`), so no
  two are. `enter` and `leave` are what a lock and an unlock do to that, or a flag that is
  swapped in and cleared again; `keep` is every other step of a thread, `spawn` a new one.
-/

import ValueRpc.Lib.Tally

namespace ValueRpc.Lib

variable {α : Type} {p : α → Bool} {l : List α} {o : Option Nat} {f : α → α} {i j : Nat} {a b : α}

/-- A thread that is in the section owns it. -/
def Held (p : α → Bool) (l : List α) (o : Option Nat) : Prop := ∀ (i : Nat) (a : α),
    l[i]? = some a → p a = true → o = some i

namespace Held

theorem nil : Held p [] o := by
  intro i a h
  simp at h

theorem unique (h : Held p l o) (hi : l[i]? = some a) (ha : p a = true) (hj : l[j]? = some b)
    (hb : p b = true) : i = j := by
  have h1 := h i a hi ha
  have h2 := h j b hj hb
  rw [h1] at h2
  exact Option.some.inj h2

theorem spawn (h : Held p l o) (ha : p a = false) : Held p (l ++ [a]) o := by
  intro j b hj hb
  rcases append_get hj with hj | ⟨-, rfl⟩
  · exact h j b hj hb
  · rw [ha] at hb
    cases hb

theorem keep (h : Held p l o) (hi : l[i]? = some a) (hf : p (f a) = true → p a = true) :
    Held p (l.modify i f) o := by
  intro j b hj hb
  rcases modify_get hj with ⟨rfl, a', ha', rfl⟩ | ⟨-, hj⟩
  · cases hi.symm.trans ha'
    exact h i a hi (hf hb)
  · exact h j b hj hb

theorem enter (h : Held p l none) : Held p (l.modify i f) (some i) := by
  intro j b hj hb
  rcases modify_get hj with ⟨rfl, -⟩ | ⟨-, hj⟩
  · rfl
  · cases h j b hj hb

theorem leave (h : Held p l o) (hi : l[i]? = some a) (ha : p a = true) (hf : p (f a) = false) :
    Held p (l.modify i f) none := by
  intro j b hj hb
  rcases modify_get hj with ⟨rfl, a', ha', rfl⟩ | ⟨hij, hj⟩
  · cases hi.symm.trans ha'
    rw [hf] at hb
    cases hb
  · exact absurd (h.unique hi ha hj hb) hij

end Held

end ValueRpc.Lib
