/-
  ValueRpc.Lib.ByteStream — reading a stream that arrives in pieces.

  A `Source` is what is left of a stream and how its next reads are cut: a read returns at
  least one element, unless the stream is at its end, and at most what it was asked for. A
  `Buffered` reader keeps what a read brought too much; a read as large as its buffer goes
  past it. `readFull` reads until it has what it wants or the stream ends.

  - `readFull_eq`: whatever the cuts and the buffer, a full read takes what it wants from the
    front of what is unread.
  - `ofBigEndian_bigEndian`: a number in `w` bytes is read back modulo 256 ^ w.
  - `copyAt`: overwriting a part of a buffer; `copyAt_header_body` says that what the buffer
    held before does not show.
-/

import Mathlib.Algebra.Order.Ring.Nat
import Mathlib.Tactic.Common

namespace ValueRpc.Lib

variable {β : Type}

/-! ## Reading -/

structure Source (β : Type) where
  rest : List β
  /-- How many elements the next reads return. -/
  cuts : List Nat

def Source.read (s : Source β) (want : Nat) : List β × Source β :=
  let n := min want (max 1 (s.cuts.head?.getD want))
  (s.rest.take n, ⟨s.rest.drop n, s.cuts.tail⟩)

structure Buffered (β : Type) where
  buf : List β
  src : Source β

namespace Buffered

def stream (r : Buffered β) : List β := r.buf ++ r.src.rest

def read (size : Nat) (r : Buffered β) (want : Nat) : List β × Buffered β :=
  match r.buf with
  | [] =>
    if size ≤ want then
      let d := r.src.read want
      (d.1, ⟨[], d.2⟩)
    else
      let d := r.src.read size
      (d.1.take want, ⟨d.1.drop want, d.2⟩)
  | b :: bs => ((b :: bs).take want, ⟨(b :: bs).drop want, r.src⟩)

def readOn (size : Nat) : Nat → Nat → Buffered β → List β × Buffered β
  | 0, _, r => ([], r)
  | fuel + 1, want, r =>
    if want = 0 then ([], r)
    else
      let d := r.read size want
      match d.1 with
      | [] => ([], d.2)
      | b :: bs =>
        let more := readOn size fuel (want - (b :: bs).length) d.2
        ((b :: bs) ++ more.1, more.2)

/-- A read returns an element at least, so it takes as many as are wanted. -/
def readFull (size : Nat) (r : Buffered β) (want : Nat) : List β × Buffered β := readOn size want want r

/-- One read takes something from the front, unless nothing is left. -/
theorem read_spec (size : Nat) (r : Buffered β) (want : Nat) (hw : 0 < want) :
    (r.read size want).1 ++ (r.read size want).2.stream = r.stream ∧ (r.read size want).1.length ≤ want ∧
      ((r.read size want).1 = [] → r.stream = []) := by
  have hsrc : ∀ k, 0 < k → (r.src.read k).1 = [] → r.src.rest = [] := by
    intro k hk h
    rcases List.take_eq_nil_iff.mp h with h | h
    · omega
    · exact h
  unfold read
  cases hb : r.buf with
  | nil =>
    dsimp only
    split
    · refine ⟨by simp [stream, hb, Source.read], ?_, fun h => by simp [stream, hb, hsrc want hw h]⟩
      simp only [Source.read, List.length_take]
      omega
    · rename_i hs
      refine ⟨?_, by simp only [List.length_take]; omega, fun h => ?_⟩
      · simp only [stream, hb, Source.read, List.nil_append]
        rw [← List.append_assoc, List.take_append_drop, List.take_append_drop]
      have hnil : (r.src.read size).1 = [] := (List.take_eq_nil_iff.mp h).resolve_left (by omega)
      simp [stream, hb, hsrc size (by omega) hnil]
  | cons b bs =>
    refine ⟨by simp only [stream, hb]; rw [← List.append_assoc, List.take_append_drop],
      by simp only [List.length_take]; omega,
      fun h => ?_⟩
    rcases List.take_eq_nil_iff.mp h with h | h
    · omega
    · cases h

theorem readOn_eq (size : Nat) (fuel : Nat) : ∀ {want : Nat} (r : Buffered β), want ≤ fuel →
    (readOn size fuel want r).1 = r.stream.take want ∧ (readOn size fuel want r).2.stream = r.stream.drop want := by
  induction fuel with
  | zero =>
    intro want r h
    have : want = 0 := by omega
    simp [readOn, this]
  | succ fuel ih =>
    intro want r h
    simp only [readOn]
    split
    · rename_i hw
      simp [hw]
    · rename_i hw
      obtain ⟨happ, hlen, hnil⟩ := r.read_spec size want (by omega)
      split
      · rename_i hd
        have hs := hnil hd
        rw [hd, List.nil_append] at happ
        simp [happ, hs]
      · rename_i b bs hd
        rw [hd] at happ hlen
        have hlt : want - (b :: bs).length ≤ fuel := by simp only [List.length_cons]; omega
        obtain ⟨h1, h2⟩ := ih (r.read size want).2 hlt
        dsimp only
        rw [h1, h2, ← happ, List.take_append, List.drop_append, List.take_of_length_le hlen,
          List.drop_of_length_le hlen]
        exact ⟨rfl, rfl⟩

theorem readFull_eq (size : Nat) (r : Buffered β) (want : Nat) :
    (r.readFull size want).1 = r.stream.take want ∧ (r.readFull size want).2.stream = r.stream.drop want :=
  readOn_eq size want r (Nat.le_refl want)

end Buffered

/-! ## Numbers -/

/-- `n` in `w` bytes, the most significant first. -/
def bigEndian : Nat → Nat → List UInt8
  | 0, _ => []
  | w + 1, n => bigEndian w (n / 256) ++ [UInt8.ofNat n]

def ofBigEndian (bs : List UInt8) : Nat := bs.foldl (fun n b => n * 256 + b.toNat) 0

@[simp] theorem length_bigEndian (w n : Nat) : (bigEndian w n).length = w := by
  induction w generalizing n with
  | zero => rfl
  | succ w ih => simp [bigEndian, ih]

theorem ofBigEndian_bigEndian (w n : Nat) : ofBigEndian (bigEndian w n) = n % 256 ^ w := by
  induction w generalizing n with
  | zero => simp [bigEndian, ofBigEndian, Nat.mod_one]
  | succ w ih =>
    have hb : ofBigEndian (bigEndian w (n / 256) ++ [UInt8.ofNat n]) =
        ofBigEndian (bigEndian w (n / 256)) * 256 + (UInt8.ofNat n).toNat := by
      simp [ofBigEndian, List.foldl_append]
    have hm : n % 256 ^ (w + 1) = n % 256 + 256 * (n / 256 % 256 ^ w) := by rw [Nat.pow_succ', Nat.mod_mul]
    rw [bigEndian, hb, ih, UInt8.toNat_ofNat', hm]
    omega

/-! ## Buffers -/

/-- Copy `src` into `dst` from position `i` on, as far as it fits. -/
def copyAt (dst : List β) (i : Nat) (src : List β) : List β :=
  dst.take i ++ src.take (dst.length - i) ++ dst.drop (i + src.length)

/-- A buffer filled with a header and a body shows nothing of what it held. -/
theorem copyAt_header_body (buf header body : List β) (h : buf.length = header.length + body.length) :
    copyAt (copyAt buf 0 header) header.length body = header ++ body := by
  have h1 : copyAt buf 0 header = header ++ buf.drop header.length := by
    simp only [copyAt, List.take_zero, List.nil_append, Nat.sub_zero, Nat.zero_add]
    rw [List.take_of_length_le (by omega)]
  rw [h1]
  simp only [copyAt, List.length_append, List.length_drop, List.take_left, List.drop_append]
  rw [List.take_of_length_le (by omega), List.drop_of_length_le (by omega), List.drop_of_length_le (by simp; omega)]
  simp

end ValueRpc.Lib
