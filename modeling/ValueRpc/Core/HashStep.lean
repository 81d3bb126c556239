/-
  ValueRpc.Core.HashStep — `VerifyHashStep` as it runs (`valuerpc/hashchain.go`).

  Its loop counts the steps in an int, here of 64 bits, and `step++` wraps. So it is run for a
  number of turns, and what it returns is what it returns after some number of them
  (`Returns`). Where it stops within the window the loop is the bounded search of
  `verifyHashStep` (`returns_iff`).

  - `hashStep_exact`: it returns the least number of hashes, from 1 to the window, that takes
    the presented link to the last one, or that there is none or a string is no link, depends
    on the decoded links only, and is the distance of links of one chain (`Exact`), exactly
    when the window is below the largest int or the last link is met (`Stops`).
  - `largest_window_runs_on`: with the largest int as the window `step <= window` is always
    true, and a link that leads nowhere is hashed for good.
-/

import ValueRpc.Core.Credit
import ValueRpc.Core.HashChain

namespace ValueRpc.Core.HashStep

open Function ValueRpc.Lib

/-! ## The loop -/

section Loop

variable (hash : Link → Link) {r : Int × Bool} {turns : Nat}

/-- `for step := 1; step <= window; step++`, for a number of turns. -/
def loop (target : Link) (window : Int) : (turns : Nat) → (step : Int) → (h : Link) → Option (Int × Bool)
  | 0, _, _ => none
  | turns + 1, step, h =>
    if step ≤ window then
      if hash h = target then some (step, true) else loop target window turns (wrap64 (step + 1)) (hash h)
    else some (0, false)

def windowOf (window : Int64) : Int := if window.toInt ≤ 0 then defaultResyncWindow else window.toInt

def run (presented lastVerified : Bytes) (window : Int64) (turns : Nat) : Option (Int × Bool) :=
  match decodeLink presented with
  | none => some (0, false)
  | some cur =>
    match decodeLink lastVerified with
    | none => some (0, false)
    | some target => loop hash target (windowOf window) turns 1 cur

/-- `VerifyHashStep(presented, lastVerified, window)` returns `r`. -/
def Returns (presented lastVerified : Bytes) (window : Int64) (r : Int × Bool) : Prop :=
  ∃ turns, run hash presented lastVerified window turns = some r

def verdict : Option Nat → Int × Bool
  | some k => (k, true)
  | none => (0, false)

variable {hash} {target : Link} {window : Int}

theorem loop_more {step : Int} {h : Link} (hr : loop hash target window turns step h = some r)
    (more : Nat) : loop hash target window (turns + more) step h = some r := by
  induction turns generalizing step h with
  | zero => cases hr
  | succ turns ih =>
    rw [Nat.succ_add]
    simp only [loop] at hr ⊢
    split
    · rename_i hle
      rw [if_pos hle] at hr
      split
      · rename_i hit
        rwa [if_pos hit] at hr
      · rename_i hmiss
        rw [if_neg hmiss] at hr
        exact ih hr
    · rename_i hle
      rwa [if_neg hle] at hr

/-- With the steps that are left, and one turn to see that none is. The largest int cannot be
    stepped past, so there a hit has to come first. -/
theorem loop_search (hlt : window < 2 ^ 63) (n k : Nat) (hk : (k : Int) + n = window + 1) (h : Link)
    (hstop : window < 2 ^ 63 - 1 ∨ (Orbit.search hash target n k h).isSome = true) :
    loop hash target window (n + 1) k h = some (verdict (Orbit.search hash target n k h)) := by
  induction n generalizing k h with
  | zero =>
    rw [loop, if_neg (by omega)]
    rfl
  | succ n ih =>
    rw [Orbit.search] at hstop ⊢
    rw [loop, if_pos (by omega)]
    split
    · rfl
    · rename_i hmiss
      rw [if_neg hmiss] at hstop
      have hnext : (k : Int) + 1 < 2 ^ 63 := by
        rcases hstop with hw | hsome
        · omega
        · cases n with
          | zero => cases hsome
          | succ n => omega
      have hwrap : wrap64 ((k : Int) + 1) = ((k + 1 : Nat) : Int) := wrap64_eq (by omega) (by omega)
      rw [hwrap]
      exact ih (k + 1) (by omega) (hash h) hstop

theorem windowOf_pos (window : Int64) : 0 < windowOf window := by
  unfold windowOf
  split
  · decide
  · omega

theorem windowOf_lt (window : Int64) : windowOf window < 2 ^ 63 := by
  have := window.toInt_lt
  unfold windowOf
  split
  · decide
  · omega

theorem windowOf_small {window : Int64} (hw : window.toInt < 2 ^ 63 - 1) : windowOf window < 2 ^ 63 - 1 := by
  unfold windowOf
  split
  · decide
  · exact hw

/-- The window is below the largest int, or two links are given and the last one is met within it. -/
def Stops (hash : Link → Link) (presented lastVerified : Bytes) (window : Int64) : Prop :=
  window.toInt < 2 ^ 63 - 1 ∨ ∀ cur target, decodeLink presented = some cur → decodeLink lastVerified = some target →
    ∃ n : Nat, 1 ≤ n ∧ (n : Int) ≤ windowOf window ∧ hash^[n] cur = target

theorem run_enough {presented lastVerified : Bytes} {window : Int64}
    (hs : Stops hash presented lastVerified window) :
    run hash presented lastVerified window ((windowOf window).toNat + 1) =
      some (verdict (verifyHashStep hash presented lastVerified window.toInt)) := by
  have hpos := windowOf_pos window
  unfold run verifyHashStep
  cases hp : decodeLink presented with
  | none => rfl
  | some cur =>
    cases hl : decodeLink lastVerified with
    | none => rfl
    | some target =>
      refine loop_search (windowOf_lt window) (windowOf window).toNat 1 (by omega) cur ?_
      refine hs.imp windowOf_small fun hmet => Orbit.search_isSome.mpr ?_
      obtain ⟨n, h1, hle, hit⟩ := hmet cur target hp hl
      exact ⟨n, h1, by omega, hit⟩

theorem run_more {presented lastVerified : Bytes} {window : Int64}
    (hr : run hash presented lastVerified window turns = some r) (more : Nat) :
    run hash presented lastVerified window (turns + more) = some r := by
  unfold run at hr ⊢
  cases hp : decodeLink presented with
  | none => rwa [hp] at hr
  | some cur =>
    rw [hp] at hr
    cases hl : decodeLink lastVerified with
    | none => rwa [hl] at hr
    | some target =>
      rw [hl] at hr
      exact loop_more hr more

/-- Where it stops, it returns what the bounded search finds. -/
theorem returns_iff {presented lastVerified : Bytes} {window : Int64}
    (hs : Stops hash presented lastVerified window) :
    Returns hash presented lastVerified window r ↔
      r = verdict (verifyHashStep hash presented lastVerified window.toInt) := by
  have henough := run_enough hs
  constructor
  · rintro ⟨turns, hr⟩
    have h1 := run_more hr ((windowOf window).toNat + 1)
    have h2 := run_more henough turns
    rw [Nat.add_comm] at h2
    exact Option.some.inj (h1.symm.trans h2)
  · rintro rfl
    exact ⟨_, henough⟩

/-- With the largest int as the window the counter never passes it: the loop only ends at a hit. -/
theorem loop_largest {step : Int} {h : Link} (hs : step < 2 ^ 63)
    (hr : loop hash target (2 ^ 63 - 1) turns step h = some r) :
    r.2 = true ∧ ∃ k : Nat, hash^[k + 1] h = target := by
  induction turns generalizing step h with
  | zero => cases hr
  | succ turns ih =>
    rw [loop, if_pos (by omega)] at hr
    split at hr
    · rename_i hit
      cases hr
      exact ⟨rfl, 0, hit⟩
    · have hbound := Int.bmod_lt (x := step + 1) (m := 2 ^ 64) (by omega)
      obtain ⟨htrue, k, hk⟩ := ih (by unfold wrap64; omega) hr
      exact ⟨htrue, k + 1, hk⟩

end Loop

/-! ## What is a link -/

def isHexDigit (c : UInt8) : Bool :=
  decide (48 ≤ c.toNat ∧ c.toNat ≤ 57 ∨ 97 ≤ c.toNat ∧ c.toNat ≤ 102 ∨ 65 ≤ c.toNat ∧ c.toNat ≤ 70)

def IsLink (s : Bytes) : Prop := s.length = 64 ∧ ∀ c ∈ s, isHexDigit c = true

theorem fromHexChar_isSome (c : UInt8) : (fromHexChar c).isSome = isHexDigit c := by
  unfold fromHexChar isHexDigit
  dsimp only
  split
  · simp_all
  · split
    · simp_all
    · split <;> simp_all

theorem hexDecode_cons_isSome (a b : UInt8) (rest : Bytes) :
    (hexDecode (a :: b :: rest)).isSome = (isHexDigit a && (isHexDigit b && (hexDecode rest).isSome)) := by
  rw [← fromHexChar_isSome, ← fromHexChar_isSome, hexDecode]
  cases fromHexChar a with
  | none => rfl
  | some hi =>
    cases fromHexChar b with
    | none => rfl
    | some lo =>
      cases hexDecode rest with
      | none => rfl
      | some bytes => rfl

theorem hexDecode_isSome (s : Bytes) :
    (hexDecode s).isSome = true ↔ s.length % 2 = 0 ∧ ∀ c ∈ s, isHexDigit c = true := by
  induction s using hexDecode.induct with
  | case1 => simp [hexDecode]
  | case2 a b rest ih =>
    have hlen : (a :: b :: rest).length % 2 = 0 ↔ rest.length % 2 = 0 := by
      rw [List.length_cons, List.length_cons]
      omega
    rw [hexDecode_cons_isSome, Bool.and_eq_true_iff, Bool.and_eq_true_iff, ih, hlen, List.forall_mem_cons,
      List.forall_mem_cons]
    constructor
    · rintro ⟨ha, hb, hr, hc⟩
      exact ⟨hr, ha, hb, hc⟩
    · rintro ⟨hr, ha, hb, hc⟩
      exact ⟨ha, hb, hr, hc⟩
  | case3 => simp [hexDecode]

theorem decodeLink_isSome (s : Bytes) : (decodeLink s).isSome = true ↔ IsLink s := by
  unfold decodeLink IsLink
  by_cases hl : s.length = 2 * hashChainLinkBytes
  · have h64 : s.length = 64 := hl
    have hdec := hexDecode_isSome s
    rw [dif_pos hl]
    constructor
    · intro h
      refine ⟨h64, (hdec.mp ?_).2⟩
      split at h
      · rename_i hx
        rw [hx]
        rfl
      · cases h
    · rintro ⟨-, hc⟩
      have hsome := hdec.mpr ⟨by omega, hc⟩
      split
      · rfl
      · rename_i hx
        rw [hx] at hsome
        cases hsome
  · rw [dif_neg hl]
    exact ⟨nofun, fun h => absurd h.1 hl⟩

def upperHex (c : UInt8) : UInt8 := if 97 ≤ c.toNat ∧ c.toNat ≤ 102 then UInt8.ofNat (c.toNat - 32) else c

theorem fromHexChar_upperHex (c : UInt8) : fromHexChar (upperHex c) = fromHexChar c := by
  have all : ∀ n : Fin 256, fromHexChar (upperHex (UInt8.ofNat n)) = fromHexChar (UInt8.ofNat n) := by decide +kernel
  have hc : UInt8.ofNat c.toNat = c := UInt8.ofNat_toNat
  rw [← hc]
  exact all ⟨c.toNat, c.toNat_lt⟩

theorem hexDecode_upperHex (s : Bytes) : hexDecode (s.map upperHex) = hexDecode s := by
  fun_induction hexDecode s with
  | case1 => rfl
  | case2 a b rest ih =>
    simp only [List.map_cons, hexDecode, fromHexChar_upperHex, ih]
  | case3 => rfl

/-- Upper case digits are decoded like lower case ones. -/
theorem decodeLink_upperHex (s : Bytes) : decodeLink (s.map upperHex) = decodeLink s := by
  have hdec := hexDecode_upperHex s
  unfold decodeLink
  by_cases hl : s.length = 2 * hashChainLinkBytes
  · rw [dif_pos hl, dif_pos (by rw [List.length_map, hl])]
    split
    · rename_i bytes hb
      rw [hdec] at hb
      split
      · rename_i bytes' hb'
        cases hb.symm.trans hb'
        rfl
      · rename_i hb'
        cases hb.symm.trans hb'
    · rename_i hb
      rw [hdec] at hb
      split
      · rename_i bytes' hb'
        cases hb.symm.trans hb'
      · rfl
  · rw [dif_neg hl, dif_neg (by rwa [List.length_map])]

/-! ## Exactness -/

/-- The least number of hashes, 1 to the window, that takes `cur` to `target`. -/
structure FirstHit (hash : Link → Link) (cur target : Link) (window : Int) (k : Nat) : Prop where
  pos : 1 ≤ k
  within : (k : Int) ≤ window
  hit : hash^[k] cur = target
  first : ∀ i, 1 ≤ i → i < k → hash^[i] cur ≠ target

section Exact

variable {hash : Link → Link} {presented lastVerified : Bytes} {window : Int64}

theorem verifyHashStep_eq_some {k : Nat} : verifyHashStep hash presented lastVerified window.toInt = some k ↔
    ∃ cur target, decodeLink presented = some cur ∧ decodeLink lastVerified = some target ∧
      FirstHit hash cur target (windowOf window) k := by
  have hpos := windowOf_pos window
  unfold verifyHashStep
  cases hp : decodeLink presented with
  | none => simp
  | some cur =>
    cases hl : decodeLink lastVerified with
    | none => simp
    | some target =>
      show Orbit.search hash target (windowOf window).toNat 1 cur = some k ↔ _
      rw [Orbit.search_eq_some]
      constructor
      · rintro ⟨h1, hw, hit, hfirst⟩
        exact ⟨cur, target, rfl, rfl, h1, by omega, hit, hfirst⟩
      · rintro ⟨_, _, ⟨⟩, ⟨⟩, h1, hw, hit, hfirst⟩
        exact ⟨h1, by omega, hit, hfirst⟩

theorem returns_true (hs : Stops hash presented lastVerified window) {k : Int} :
    Returns hash presented lastVerified window (k, true) ↔
    ∃ n : Nat, k = n ∧ verifyHashStep hash presented lastVerified window.toInt = some n := by
  rw [returns_iff hs]
  cases verifyHashStep hash presented lastVerified window.toInt with
  | none => simp [verdict]
  | some n => simp [verdict]

theorem returns_false (hs : Stops hash presented lastVerified window) {k : Int} :
    Returns hash presented lastVerified window (k, false) ↔
    k = 0 ∧ verifyHashStep hash presented lastVerified window.toInt = none := by
  rw [returns_iff hs]
  cases verifyHashStep hash presented lastVerified window.toInt with
  | none => simp [verdict]
  | some n => simp [verdict]

theorem verifyHashStep_eq_none : verifyHashStep hash presented lastVerified window.toInt = none ↔
    ¬ IsLink presented ∨ ¬ IsLink lastVerified ∨ ∀ cur target, decodeLink presented = some cur →
      decodeLink lastVerified = some target →
      ∀ k : Nat, 1 ≤ k → (k : Int) ≤ windowOf window → hash^[k] cur ≠ target := by
  have hpos := windowOf_pos window
  rw [← decodeLink_isSome, ← decodeLink_isSome]
  unfold verifyHashStep
  cases hp : decodeLink presented with
  | none => simp
  | some cur =>
    cases hl : decodeLink lastVerified with
    | none => simp
    | some target =>
      show Orbit.search hash target (windowOf window).toNat 1 cur = none ↔ _
      rw [← Option.not_isSome_iff_eq_none, Orbit.search_isSome]
      simp only [Option.isSome_some, not_true_eq_false, false_or, Option.some.injEq]
      constructor
      · rintro hno _ _ rfl rfl k h1 hle heq
        exact hno ⟨k, h1, by omega, heq⟩
      · rintro hall ⟨k, h1, hle, heq⟩
        exact hall cur target rfl rfl k h1 (by omega) heq

/-- Two links of a chain none of whose links is on a cycle. -/
theorem verifyHashStep_links {seed : Link} {m i : Nat} {c : HashChain} (hc : c.Of hash seed m i)
    (hnc : ∀ l ∈ c.links, l ∉ periodicPts hash) {a b : Nat} {la lb : Link} (ha : c.links[a]? = some la)
    (hb : c.links[b]? = some lb) {n : Nat} :
    verifyHashStep hash la.encode lb.encode window.toInt = some n ↔ b = a + n ∧ 1 ≤ n ∧
      (n : Int) ≤ windowOf window := by
  have hpos := windowOf_pos window
  have link : ∀ {j : Nat} {l : Link}, c.links[j]? = some l → j ≤ m ∧ l = hash^[j] seed := by
    intro j l hj
    rw [hc.links, List.getElem?_eq_some_iff] at hj
    obtain ⟨hlt, rfl⟩ := hj
    rw [List.length_iterate] at hlt
    exact ⟨by omega, List.getElem_iterate ..⟩
  obtain ⟨-, rfl⟩ := link ha
  obtain ⟨hbm, rfl⟩ := link hb
  -- the anchor is one of the links
  have hanchor : hash^[m] seed ∉ periodicPts hash := by
    refine hnc _ ?_
    rw [hc.links]
    exact List.mem_iterate.mpr ⟨m, by omega, rfl⟩
  have hsearch : verifyHashStep hash (hash^[a] seed).encode (hash^[b] seed).encode window.toInt =
      Orbit.search hash (hash^[b] seed) (windowOf window).toNat 1 (hash^[a] seed) := by
    simp only [verifyHashStep, decodeLink_encode, windowOf]
  rw [hsearch, Orbit.search_iterate hanchor hbm]
  constructor
  · rintro ⟨h1, h2, h3⟩
    exact ⟨h1, h2, by omega⟩
  · rintro ⟨h1, h2, h3⟩
    exact ⟨h1, h2, by omega⟩

end Exact

/-- What `VerifyHashStep` is to return for two strings and a window. -/
structure Exact (hash : Link → Link) (presented lastVerified : Bytes) (window : Int64) : Prop where
  found : ∀ k, Returns hash presented lastVerified window (k, true) ↔ ∃ cur target, ∃ n : Nat, k = n ∧
    decodeLink presented = some cur ∧ decodeLink lastVerified = some target ∧
      FirstHit hash cur target (windowOf window) n
  missed : ∀ k, Returns hash presented lastVerified window (k, false) ↔ k = 0 ∧
    (¬ IsLink presented ∨ ¬ IsLink lastVerified ∨
      ∀ cur target, decodeLink presented = some cur → decodeLink lastVerified = some target →
        ∀ n : Nat, 1 ≤ n → (n : Int) ≤ windowOf window → hash^[n] cur ≠ target)
  decoded : ∀ p last, decodeLink p = decodeLink presented → decodeLink last = decodeLink lastVerified →
    ∀ r, Returns hash p last window r ↔ Returns hash presented lastVerified window r
  cased : ∀ p last, p.map upperHex = presented.map upperHex → last.map upperHex = lastVerified.map upperHex →
    ∀ r, Returns hash p last window r ↔ Returns hash presented lastVerified window r
  chained : ∀ (seed : Link) (m i : Nat) (c : HashChain), c.Of hash seed m i → (∀ l ∈ c.links, l ∉ periodicPts hash) →
    ∀ (a b : Nat) (la lb : Link), c.links[a]? = some la → c.links[b]? = some lb → presented = la.encode →
      lastVerified = lb.encode →
      ∀ k, Returns hash presented lastVerified window (k, true) ↔ k = (b : Int) - a ∧ 1 ≤ k ∧ k ≤ windowOf window

section Stopping

variable {hash : Link → Link} {presented lastVerified : Bytes} {window : Int64}

theorem returns_decoded {p last : Bytes} (hp : decodeLink p = decodeLink presented)
    (hl : decodeLink last = decodeLink lastVerified) (r : Int × Bool) :
    Returns hash p last window r ↔ Returns hash presented lastVerified window r := by
  simp only [Returns, run, hp, hl]

theorem decodeLink_cased {p q : Bytes} (h : p.map upperHex = q.map upperHex) :
    decodeLink p = decodeLink q := by
  rw [← decodeLink_upperHex p, h, decodeLink_upperHex]

theorem Stops.exact (hs : Stops hash presented lastVerified window) :
    Exact hash presented lastVerified window where
  found k := by
    rw [returns_true hs]
    constructor
    · rintro ⟨n, hk, hn⟩
      obtain ⟨cur, target, hp, hl, hhit⟩ := verifyHashStep_eq_some.mp hn
      exact ⟨cur, target, n, hk, hp, hl, hhit⟩
    · rintro ⟨cur, target, n, hk, hp, hl, hhit⟩
      exact ⟨n, hk, verifyHashStep_eq_some.mpr ⟨cur, target, hp, hl, hhit⟩⟩
  missed k := by rw [returns_false hs, verifyHashStep_eq_none]
  decoded p last hp hl := returns_decoded hp hl
  cased p last hp hl := returns_decoded (decodeLink_cased hp) (decodeLink_cased hl)
  chained seed m i c hc hnc a b la lb ha hb hp hl k := by
    subst hp hl
    rw [returns_true hs]
    constructor
    · rintro ⟨n, rfl, hn⟩
      obtain ⟨hb', h1, hle⟩ := (verifyHashStep_links hc hnc ha hb).mp hn
      exact ⟨by omega, by omega, hle⟩
    · rintro ⟨hk, h1, hle⟩
      exact ⟨k.toNat, by omega, (verifyHashStep_links hc hnc ha hb).mpr ⟨by omega, by omega, by omega⟩⟩

/-- With the largest window a link that is not met is never reported as missed. -/
theorem Exact.stops (he : Exact hash presented lastVerified window) :
    Stops hash presented lastVerified window := by
  by_cases hw : window.toInt < 2 ^ 63 - 1
  · exact .inl hw
  · refine .inr fun cur target hp hl => ?_
    have hmax : windowOf window = 2 ^ 63 - 1 := by
      have := window.toInt_lt
      unfold windowOf
      rw [if_neg (by omega)]
      omega
    by_contra hno
    have hnone : ∀ cur' target', decodeLink presented = some cur' → decodeLink lastVerified = some target' →
        ∀ n : Nat, 1 ≤ n → (n : Int) ≤ windowOf window → hash^[n] cur' ≠ target' := by
      intro cur' target' hp' hl' n h1 hle hit
      cases hp.symm.trans hp'
      cases hl.symm.trans hl'
      exact hno ⟨n, h1, hle, hit⟩
    obtain ⟨turns, hr⟩ := (he.missed 0).mpr ⟨rfl, .inr (.inr hnone)⟩
    simp only [run, hp, hl, hmax] at hr
    obtain ⟨htrue, -⟩ := loop_largest (by decide) hr
    cases htrue

end Stopping

theorem hashStep_exact (hash : Link → Link) (presented lastVerified : Bytes) (window : Int64) :
    Exact hash presented lastVerified window ↔ Stops hash presented lastVerified window :=
  ⟨Exact.stops, Stops.exact⟩

def counted : HashChain := .new tick (numbered 0) 5

theorem counted_notPeriodic (l : Link) (h : l ∈ counted.links) : l ∉ periodicPts tick := by
  obtain ⟨j, hj, rfl⟩ := List.mem_iterate.mp h
  have hj : j < 6 := hj
  rw [tick_iterate_numbered (by omega)]
  refine tick_notPeriodic ?_
  rw [number_numbered (by omega)]
  omega

theorem hashStep_exact_counted :
    Stops tick (numbered 1).encode (numbered 3).encode 3 ∧ counted.links[1]? = some (numbered 1) ∧
    counted.links[3]? = some (numbered 3) ∧ Returns tick (numbered 1).encode (numbered 3).encode 3 (2, true) := by
  have hs : Stops tick (numbered 1).encode (numbered 3).encode 3 := .inl (by decide)
  have h1 : counted.links[1]? = some (numbered 1) := by decide +kernel
  have h3 : counted.links[3]? = some (numbered 3) := by decide +kernel
  have hlinks := ((hashStep_exact tick (numbered 1).encode (numbered 3).encode 3).mpr hs).chained
  refine ⟨hs, h1, h3, (hlinks _ _ _ counted
    (HashChain.new_of tick (numbered 0) 5) counted_notPeriodic 1 3 _ _ h1 h3 rfl rfl 2).mpr ?_⟩
  decide

theorem largest_window_runs_on :
    ¬ ∃ r, Returns tick (numbered 1).encode (numbered 0).encode 9223372036854775807 r := by
  rintro ⟨r, turns, hr⟩
  have hwindow : windowOf 9223372036854775807 = 2 ^ 63 - 1 := by decide
  simp only [run, decodeLink_encode, hwindow] at hr
  obtain ⟨-, k, hk⟩ := loop_largest (by decide) hr
  have hle := number_le_iterate (k + 1) (numbered 1)
  rw [hk, number_numbered (by omega), number_numbered (by omega)] at hle
  omega

end ValueRpc.Core.HashStep
