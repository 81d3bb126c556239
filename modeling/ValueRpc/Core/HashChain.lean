/-
  ValueRpc.Core.HashChain — the reverse hash chain of session resumption
  (`valuerpc/hashchain.go`: `NewHashChain`, `Anchor`, `Next`, `Remaining`,
  `VerifyHashStep`, `SameToken`, `decodeLink`).

  A link is 32 bytes; on the wire it is 64 hex digits, in either case. A string is its
  bytes. `sha256.Sum256` on a link is the parameter `hash`. A chain's links are the orbit
  of its seed: `links[i]` is `i` hashes from the seed, the last is the anchor.

  - `decodeLink_encode`: a link read back from its wire form.
  - `verifyHashStep_some`, `sameToken_iff`: the two tests, in terms of decoded links.
  - `anchor_eq`, `nextLink_succ`: what the client reveals, as iterates of the seed.
-/

import Mathlib.Data.List.Iterate
import ValueRpc.Lib.Orbit

namespace ValueRpc.Core

open Function ValueRpc.Lib

abbrev Bytes := List UInt8

def defaultHashChainLen : Int := 10000

def defaultResyncWindow : Int := 1024

def hashChainLinkBytes : Nat := 32

structure Link where
  bytes : Bytes
  size : bytes.length = hashChainLinkBytes
  deriving DecidableEq

/-! ## Hex -/

def hexDigit (n : Nat) : UInt8 := if n < 10 then UInt8.ofNat (48 + n) else UInt8.ofNat (87 + n)

/-- `hex`'s value of a digit: `0-9`, `a-f` or `A-F`. -/
def fromHexChar (c : UInt8) : Option Nat :=
  let c := c.toNat
  if 48 ≤ c ∧ c ≤ 57 then some (c - 48)
  else if 97 ≤ c ∧ c ≤ 102 then some (c - 87)
  else if 65 ≤ c ∧ c ≤ 70 then some (c - 55)
  else none

def hexEncode : Bytes → Bytes
  | [] => []
  | b :: bs => hexDigit (b.toNat / 16) :: hexDigit (b.toNat % 16) :: hexEncode bs

def hexDecode : Bytes → Option Bytes
  | [] => some []
  | a :: b :: rest => do
    let hi ← fromHexChar a
    let lo ← fromHexChar b
    let bytes ← hexDecode rest
    return UInt8.ofNat (16 * hi + lo) :: bytes
  | [_] => none

theorem fromHexChar_hexDigit {n : Nat} (h : n < 16) : fromHexChar (hexDigit n) = some n := by
  have all : ∀ n : Fin 16, fromHexChar (hexDigit n) = some n.val := by decide
  exact all ⟨n, h⟩

theorem hexDecode_hexEncode (bs : Bytes) : hexDecode (hexEncode bs) = some bs := by
  induction bs with
  | nil => rfl
  | cons b bs ih =>
    have hb : b.toNat < 256 := b.toNat_lt
    have hi : fromHexChar (hexDigit (b.toNat / 16)) = some (b.toNat / 16) := fromHexChar_hexDigit (by omega)
    have lo : fromHexChar (hexDigit (b.toNat % 16)) = some (b.toNat % 16) := fromHexChar_hexDigit (by omega)
    have join : UInt8.ofNat (16 * (b.toNat / 16) + b.toNat % 16) = b := by
      rw [Nat.div_add_mod]
      exact UInt8.ofNat_toNat
    simp only [hexEncode, hexDecode, hi, lo, ih, Option.bind_eq_bind, Option.bind_some, join]
    rfl

theorem length_hexEncode (bs : Bytes) : (hexEncode bs).length = 2 * bs.length := by
  induction bs with
  | nil => rfl
  | cons b bs ih =>
    simp only [hexEncode, List.length_cons, ih]
    omega

theorem length_hexDecode {s bs : Bytes} (h : hexDecode s = some bs) : s.length = 2 * bs.length := by
  fun_induction hexDecode s generalizing bs with
  | case1 => cases h; rfl
  | case2 a b rest ih =>
    obtain ⟨hi, -, h⟩ := Option.bind_eq_some_iff.mp h
    obtain ⟨lo, -, h⟩ := Option.bind_eq_some_iff.mp h
    obtain ⟨tail, ht, h⟩ := Option.bind_eq_some_iff.mp h
    cases h
    simp only [List.length_cons, ih ht]
    omega
  | case3 => cases h

/-! ## Links on the wire -/

def Link.encode (l : Link) : Bytes := hexEncode l.bytes

/-- `decodeLink`: the length of an encoded link, and all hex digits. -/
def decodeLink (s : Bytes) : Option Link :=
  if hl : s.length = 2 * hashChainLinkBytes then
    match h : hexDecode s with
    | some bytes => some ⟨bytes, by have := length_hexDecode h; omega⟩
    | none => none
  else none

@[simp] theorem decodeLink_encode (l : Link) : decodeLink l.encode = some l := by
  have hlen : l.encode.length = 2 * hashChainLinkBytes := by rw [Link.encode, length_hexEncode, l.size]
  have hdec : hexDecode l.encode = some l.bytes := hexDecode_hexEncode l.bytes
  simp only [decodeLink, hlen, ↓reduceDIte]
  split
  · rename_i bytes h
    rw [hdec] at h
    cases h
    rfl
  · rename_i h
    rw [hdec] at h
    cases h

theorem Link.encode_ne_nil (l : Link) : l.encode ≠ [] := by
  intro h
  have hlen : l.encode.length = 2 * hashChainLinkBytes := by rw [Link.encode, length_hexEncode, l.size]
  rw [h] at hlen
  cases hlen

/-! ## The two tests -/

section Tests

variable (hash : Link → Link)

/-- `VerifyHashStep`: the steps consumed, or `none` for `(0, false)`. -/
def verifyHashStep (presented lastVerified : Bytes) (window : Int) : Option Nat :=
  match decodeLink presented with
  | none => none
  | some cur =>
    match decodeLink lastVerified with
    | none => none
    | some target =>
      let window := if window ≤ 0 then defaultResyncWindow else window
      Orbit.search hash target window.toNat 1 cur

def sameToken (a b : Bytes) : Bool :=
  match decodeLink a with
  | none => false
  | some da =>
    match decodeLink b with
    | none => false
    | some db => da == db

variable {hash}

theorem verifyHashStep_some {p last : Bytes} {k : Nat} :
    verifyHashStep hash p last defaultResyncWindow = some k ↔ ∃ cur target, decodeLink p = some cur ∧
      decodeLink last = some target ∧ Orbit.search hash target defaultResyncWindow.toNat 1 cur = some k := by
  cases hp : decodeLink p with
  | none => simp [verifyHashStep, hp]
  | some cur =>
    cases ht : decodeLink last with
    | none => simp [verifyHashStep, hp, ht]
    | some target => simp [verifyHashStep, hp, ht, defaultResyncWindow]

theorem verifyHashStep_encode (a b : Link) : verifyHashStep hash a.encode b.encode defaultResyncWindow =
    Orbit.search hash b defaultResyncWindow.toNat 1 a := by
  simp [verifyHashStep, defaultResyncWindow]

theorem sameToken_iff {a b : Bytes} :
    sameToken a b = true ↔ ∃ l, decodeLink a = some l ∧ decodeLink b = some l := by
  cases ha : decodeLink a with
  | none => simp [sameToken, ha]
  | some da =>
    cases hb : decodeLink b with
    | none => simp [sameToken, ha, hb]
    | some db =>
      simp only [sameToken, ha, hb, beq_iff_eq, Option.some.injEq, exists_eq_left']
      exact eq_comm

end Tests

/-! ## The client's chain -/

/-- `HashChain`: `links[0]` is the seed, the last link the anchor. -/
structure HashChain where
  links : List Link
  /-- Index of the next pre-image to reveal; -1 once exhausted. -/
  next : Int
  nonempty : links ≠ []
  bounded : next < links.length

namespace HashChain

/-- The links `NewHashChain(n)` makes: `n <= 0` uses the default. -/
def chainLen (n : Int) : Nat := (if n ≤ 0 then defaultHashChainLen else n).toNat

def new (hash : Link → Link) (seed : Link) (n : Int) : HashChain :=
  ⟨List.iterate hash seed (chainLen n + 1), chainLen n - 1, by simp, by rw [List.length_iterate]; omega⟩

def anchor (c : HashChain) : Bytes := (c.links.getLast c.nonempty).encode

/-- `Next`: the token and the chain moved on; the empty string once exhausted. -/
def nextLink (c : HashChain) : Bytes × HashChain :=
  if h : c.next < 0 then ([], c)
  else
    have hb : c.next.toNat < c.links.length := by have := c.bounded; omega
    ((c.links.get ⟨c.next.toNat, hb⟩).encode, ⟨c.links, c.next - 1, c.nonempty, by have := c.bounded; omega⟩)

def remaining (c : HashChain) : Int := c.next + 1

/-- The chain of `n` links from `seed`, with `i` of them still to reveal. -/
structure Of (hash : Link → Link) (seed : Link) (n i : Nat) (c : HashChain) : Prop where
  links : c.links = List.iterate hash seed (n + 1)
  next : c.next = (i : Int) - 1

variable {hash : Link → Link} {seed : Link} {n i : Nat} {c : HashChain}

theorem new_of (hash : Link → Link) (seed : Link) (n : Int) :
    (new hash seed n).Of hash seed (chainLen n) (chainLen n) := ⟨rfl, rfl⟩

theorem Of.anchor_eq (h : c.Of hash seed n i) : c.anchor = (hash^[n] seed).encode := by
  have hl : c.links.getLast c.nonempty = hash^[n] seed := by
    simp only [List.getLast_eq_getElem, h.links, List.length_iterate, Nat.add_sub_cancel, List.getElem_iterate]
  rw [anchor, hl]

theorem Of.nextLink_succ (h : c.Of hash seed n (i + 1)) : c.nextLink.1 = (hash^[i] seed).encode := by
  have hn : c.next = i := by rw [h.next]; omega
  have hpos : ¬ c.next < 0 := by omega
  rw [nextLink, dif_neg hpos]
  simp only [List.get_eq_getElem, h.links, hn, Int.toNat_natCast, List.getElem_iterate]

theorem Of.nextLink_of (h : c.Of hash seed n (i + 1)) : c.nextLink.2.Of hash seed n i := by
  have hn : c.next = i := by rw [h.next]; omega
  have hpos : ¬ c.next < 0 := by omega
  rw [nextLink, dif_neg hpos]
  exact ⟨h.links, by simp only [hn]⟩

theorem Of.nextLink_exhausted (h : c.Of hash seed n 0) : c.nextLink = ([], c) := by
  have hneg : c.next < 0 := by rw [h.next]; omega
  rw [nextLink, dif_pos hneg]

theorem Of.remaining_eq (h : c.Of hash seed n i) : c.remaining = i := by
  rw [remaining, h.next]
  omega

end HashChain

/-! ## A hash for concrete runs -/

def Link.number (l : Link) : Nat :=
  match l.bytes with
  | a :: b :: _ => a.toNat + 256 * b.toNat
  | _ => 0

def numbered (n : Nat) : Link := ⟨UInt8.ofNat n :: UInt8.ofNat (n / 256) :: List.replicate 30 0, rfl⟩

/-- Counts up, and stays at the largest number. -/
def tick (l : Link) : Link := if l.number < 65535 then numbered (l.number + 1) else l

theorem number_numbered {n : Nat} (h : n < 65536) : (numbered n).number = n := by
  simp only [Link.number, numbered, UInt8.toNat_ofNat']
  omega

theorem tick_numbered {n : Nat} (h : n < 65535) : tick (numbered n) = numbered (n + 1) := by
  have hn : (numbered n).number = n := number_numbered (by omega)
  simp only [tick, hn, h, if_true]

theorem tick_iterate_numbered {k n : Nat} (h : n + k < 65536) : tick^[k] (numbered n) = numbered (n + k) := by
  induction k generalizing n with
  | zero => rfl
  | succ k ih =>
    rw [iterate_succ_apply, tick_numbered (by omega), ih (by omega)]
    congr 1
    omega

theorem number_le_tick (l : Link) : l.number ≤ (tick l).number := by
  simp only [tick]
  split
  · rename_i h
    rw [number_numbered (by omega)]
    omega
  · exact le_rfl

theorem number_le_iterate (k : Nat) (l : Link) : l.number ≤ (tick^[k] l).number := by
  induction k generalizing l with
  | zero => exact le_rfl
  | succ k ih => exact (number_le_tick l).trans (ih (tick l))

theorem tick_notPeriodic {l : Link} (h : l.number < 65535) : l ∉ periodicPts tick := by
  rintro ⟨k, hk, hp⟩
  obtain ⟨j, rfl⟩ := Nat.exists_eq_add_of_le' hk
  have hstep : (tick l).number = l.number + 1 := by
    simp only [tick, h, if_true]
    exact number_numbered (by omega)
  have hback : (tick^[j] (tick l)).number = l.number := congrArg Link.number hp
  have := number_le_iterate j (tick l)
  omega

end ValueRpc.Core
