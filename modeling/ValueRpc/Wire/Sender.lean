/-
  ValueRpc.Wire.Sender — the server's sender on a connection whose writes may fail
  (`valueserver/serving_client.go`: `sender`).

  A write that fails may have written any part of its frame; the sender logs the error and
  goes on with the next message on the same connection, which is still open. The frames have
  no marker to find the next one by.

  - `unmixed_iff`: what the peer decodes is a subsequence of what was sent, and no call of
    its read loop takes bytes of two frames, exactly when nothing is written after a torn
    frame, unless the peer gives up before it comes to the torn part (`clean`).
  - `torn_then_forged`: the tail of a torn frame is filled with the next one.
-/

import ValueRpc.Wire.Codec

namespace ValueRpc.Wire

open ValueRpc.Core ValueRpc.Lib

variable {μ : Type}

/-- A message of the queue, and how much of its frame the connection takes. -/
structure Send (μ : Type) where
  msg : μ
  taken : Nat

def newWriter : Writer := ⟨false, []⟩

def sender (P : Packing μ) : Writer → List (Send μ) → List Bytes
  | _, [] => []
  | w, x :: xs =>
    match writeMessage P w x.msg with
    | .error _ => [] :: sender P w xs
    | .ok (w', frame) => frame.take x.taken :: sender P w' xs

variable {x : Send μ} {xs : List (Send μ)} {i : Nat}

def piece (P : Packing μ) (x : Send μ) : Bytes :=
  match P.pack x.msg with
  | .error _ => []
  | .ok p => (frame p).take x.taken

theorem sender_eq (P : Packing μ) {w : Writer} (hw : w.shutdown = false) (xs : List (Send μ)) :
    sender P w xs = xs.map (piece P) := by
  induction xs generalizing w with
  | nil => rfl
  | cons x xs ih =>
    cases hp : P.pack x.msg with
    | error e =>
      have hm : writeMessage P w x.msg = .error ("msgpack pack, " ++ e) := by simp [writeMessage, hw, hp]
      simp [sender, hm, piece, hp, ih hw]
    | ok p =>
      have hm : writeMessage P w x.msg = .ok (doWriteFrame w p) := by simp [writeMessage, hw, hp]
      simp [sender, hm, piece, hp, doWriteFrame_frame, ih ((doWriteFrame_shutdown w p).trans hw)]

/-- For each byte written, the number of the message it is of. -/
def tags : Nat → List Bytes → List Nat
  | _, [] => []
  | i, b :: bs => List.replicate b.length i ++ tags (i + 1) bs

def cut {β : Type} : List Nat → List β → List (List β)
  | [], _ => []
  | n :: ns, l => l.take n :: cut ns (l.drop n)

def decoded (rs : List (Except ReadErr μ × Nat)) : List μ := rs.filterMap fun r => r.1.toOption

/-- Each call took bytes of one frame only. -/
def Unmixed (rs : List (Except ReadErr μ × Nat)) (ts : List Nat) : Prop :=
  ∀ taken ∈ cut (rs.map Prod.snd) ts, ∀ a ∈ taken, ∀ b ∈ taken, a = b

def oversized (P : Packing μ) (maxFrameSize : Int) (m : μ) : Bool := 0 < maxFrameSize && maxFrameSize < P.size m

/-- Nothing is written after a torn frame, unless the peer gives up at the length of a frame
    before. -/
def clean (P : Packing μ) (maxFrameSize : Int) : List (Send μ) → Bool
  | [] => true
  | x :: xs =>
    let k := (piece P x).length
    if k = 0 then clean P maxFrameSize xs
    else if 4 ≤ k ∧ oversized P maxFrameSize x.msg then true
    else if k < 4 + P.size x.msg then xs.all fun y => (piece P y).isEmpty
    else clean P maxFrameSize xs

variable {P : Packing μ} {maxFrameSize : Int}

/-! ## Tags -/

@[simp] theorem length_tags (i : Nat) (bs : List Bytes) : (tags i bs).length = bs.flatten.length := by
  induction bs generalizing i with
  | nil => rfl
  | cons b bs ih => simp [tags, ih]

theorem le_tags {i t : Nat} {bs : List Bytes} (h : t ∈ tags i bs) : i ≤ t := by
  induction bs generalizing i with
  | nil => cases h
  | cons b bs ih =>
    rcases List.mem_append.mp h with h | h
    · exact Nat.le_of_eq (List.eq_of_mem_replicate h).symm
    · exact Nat.le_of_succ_le (ih h)

/-! ## One message -/

/-- What a call does once it has a length. -/
theorem readStream_length {bs : Bytes} {n : Nat} (h4 : 4 ≤ bs.length) (hn : ofBigEndian (bs.take 4) = n) :
    readStream P maxFrameSize bs =
      if 0 < maxFrameSize ∧ maxFrameSize < n then (.error (tooLarge n maxFrameSize), 4)
      else if bs.length < 4 + n then (.error (short (bs.drop 4)), bs.length)
      else (unpackMap P ((bs.drop 4).take n), 4 + n) := by
  unfold readStream
  rw [if_neg (by omega)]
  simp only [hn]

theorem piece_pos (h : (piece P x).length ≠ 0) :
    P.pack x.msg = .ok (P.payload x.msg) ∧ piece P x = (frame (P.payload x.msg)).take x.taken ∧
      (piece P x).length ≤ 4 + P.size x.msg := by
  unfold piece at h ⊢
  cases hp : P.pack x.msg with
  | error e => simp [hp] at h
  | ok p =>
    have hpay : P.payload x.msg = p := by simp [Packing.payload, hp]
    simp only [hpay, Packing.size, List.length_take, length_frame]
    exact ⟨trivial, trivial, by omega⟩

theorem piece_whole (h : (piece P x).length ≠ 0) (hk : ¬(piece P x).length < 4 + P.size x.msg) :
    piece P x = frame (P.payload x.msg) := by
  obtain ⟨-, heq, -⟩ := piece_pos h
  have hlen : (frame (P.payload x.msg)).length = 4 + P.size x.msg := length_frame _
  rw [heq, List.length_take] at hk
  rw [heq, List.take_of_length_le (by omega)]

theorem piece_length (hsize : P.size x.msg < 2 ^ 32) (hk : 4 ≤ (piece P x).length) (rest : Bytes) :
    ofBigEndian ((piece P x ++ rest).take 4) = P.size x.msg := by
  obtain ⟨-, heq, -⟩ := piece_pos (P := P) (x := x) (by omega)
  rw [List.take_append_of_le_length hk]
  rw [heq, List.length_take] at hk
  rw [heq, List.take_take, Nat.min_eq_left (by omega)]
  have := readStream_header (p := P.payload x.msg) hsize []
  rwa [List.append_nil] at this

theorem not_over {m : μ} (h : ¬oversized P maxFrameSize m = true) :
    ¬(0 < maxFrameSize ∧ maxFrameSize < (P.size m : Int)) := by
  simpa [oversized] using h

/-- A call on a torn frame takes all there is of it, and more where there is more. -/
theorem readStream_torn (hsize : P.size x.msg < 2 ^ 32) (hk : (piece P x).length < 4 + P.size x.msg)
    (hover : ¬(4 ≤ (piece P x).length ∧ oversized P maxFrameSize x.msg = true)) {rest : Bytes}
    (hrest : rest ≠ []) : (piece P x).length < (readStream P maxFrameSize (piece P x ++ rest)).2 := by
  have hpos := List.length_pos_iff.mpr hrest
  have hlen : (piece P x ++ rest).length = (piece P x).length + rest.length := List.length_append
  by_cases h4 : (piece P x ++ rest).length < 4
  · rw [readStream_few h4, hlen]
    omega
  · rw [readStream_length (by omega) rfl]
    by_cases hk4 : 4 ≤ (piece P x).length
    · rw [piece_length hsize hk4, if_neg (not_over fun h => hover ⟨hk4, h⟩)]
      split
      · dsimp only; omega
      · exact hk
    · -- the length itself is mixed: whatever it is, all four bytes are taken
      split
      · dsimp only; omega
      · split
        · dsimp only; omega
        · dsimp only; omega

/-! ## The whole queue -/

theorem unmixed_cons {r : Except ReadErr μ × Nat} {rs : List (Except ReadErr μ × Nat)} {ts : List Nat} :
    Unmixed (r :: rs) ts ↔ (∀ a ∈ ts.take r.2, ∀ b ∈ ts.take r.2, a = b) ∧ Unmixed rs (ts.drop r.2) := by
  simp [Unmixed, cut]

theorem unmixed_one {i k used : Nat} (h : used ≤ k) (ts : List Nat) :
    ∀ a ∈ (List.replicate k i ++ ts).take used, ∀ b ∈ (List.replicate k i ++ ts).take used, a = b := by
  rw [List.take_append_of_le_length (by simpa using h)]
  intro a ha b hb
  rw [List.eq_of_mem_replicate (List.mem_of_mem_take ha), List.eq_of_mem_replicate (List.mem_of_mem_take hb)]

def Reads (P : Packing μ) (maxFrameSize : Int) (i : Nat) (xs : List (Send μ)) : Prop :=
  ∀ calls, (decoded (readsOf P maxFrameSize calls (xs.map (piece P)).flatten)).Sublist (xs.map Send.msg) ∧
    Unmixed (readsOf P maxFrameSize calls (xs.map (piece P)).flatten) (tags i (xs.map (piece P)))

theorem readsOf_error {bs : Bytes} {e : ReadErr} {used : Nat}
    (h : readStream P maxFrameSize bs = (.error e, used)) (calls : Nat) :
    readsOf P maxFrameSize (calls + 1) bs = [(.error e, used)] := by
  simp [readsOf, h]

/-- An error that takes bytes of one message only. -/
theorem reads_error {e : ReadErr} {used : Nat}
    (h : readStream P maxFrameSize ((x :: xs).map (piece P)).flatten = (.error e, used))
    (hle : used ≤ (piece P x).length) : Reads P maxFrameSize i (x :: xs) := by
  rintro (_ | calls)
  · exact ⟨List.nil_sublist _, nofun⟩
  · rw [readsOf_error h]
    exact ⟨List.nil_sublist _, unmixed_cons.mpr ⟨unmixed_one hle _, nofun⟩⟩

theorem reads_none (hx : piece P x = []) (h : Reads P maxFrameSize (i + 1) xs) :
    Reads P maxFrameSize i (x :: xs) := by
  intro calls
  have := h calls
  simp only [List.map_cons, hx, List.flatten_cons, List.nil_append, tags, List.length_nil, List.replicate_zero]
  exact ⟨this.1.cons _, this.2⟩

/-- Only a torn frame is left: there is too little of it. -/
theorem reads_torn (hsize : P.size x.msg < 2 ^ 32) (hk : (piece P x).length < 4 + P.size x.msg)
    (hover : ¬(4 ≤ (piece P x).length ∧ oversized P maxFrameSize x.msg = true))
    (hxs : ∀ y ∈ xs, piece P y = []) : Reads P maxFrameSize i (x :: xs) := by
  have hwire : ((x :: xs).map (piece P)).flatten = piece P x := by
    have hnil : (xs.map (piece P)).flatten = [] := by simpa using hxs
    simp [hnil]
  by_cases h4 : (piece P x).length < 4
  · exact reads_error (by rw [hwire, readStream_few h4]) (Nat.le_refl _)
  · have hlen := piece_length hsize (Nat.not_lt.mp h4) []
    rw [List.append_nil] at hlen
    have hmax := not_over fun h => hover ⟨Nat.not_lt.mp h4, h⟩
    exact reads_error (by rw [hwire, readStream_length (Nat.not_lt.mp h4) hlen, if_neg hmax, if_pos hk])
      (Nat.le_refl _)

/-- A whole frame is read back. -/
theorem readsOf_whole (hP : P.Lawful) (hmap : P.isMap x.msg = true) (hsize : P.size x.msg < 2 ^ 32)
    (h0 : (piece P x).length ≠ 0) (hk : ¬(piece P x).length < 4 + P.size x.msg)
    (hover : ¬oversized P maxFrameSize x.msg = true) (calls : Nat) (rest : Bytes) :
    readsOf P maxFrameSize (calls + 1) (piece P x ++ rest) =
      (.ok x.msg, (piece P x).length) :: readsOf P maxFrameSize calls rest := by
  have hfits : P.Fits x.msg := ⟨hmap, (piece_pos h0).1, hsize⟩
  have hmax : maxFrameSize ≤ 0 ∨ ((P.payload x.msg).length : Int) ≤ maxFrameSize := by
    have := not_over hover
    unfold Packing.size at this
    omega
  have hdrop : (frame (P.payload x.msg) ++ rest).drop (4 + (P.payload x.msg).length) = rest :=
    List.drop_left' (length_frame _)
  rw [piece_whole h0 hk]
  simp only [readsOf, readStream_frame hfits.size hmax, hfits.unpackMap hP, hdrop, length_frame]

theorem reads_of_clean (hP : P.Lawful) (hmaps : ∀ x ∈ xs, P.isMap x.msg = true)
    (hsize : ∀ x ∈ xs, P.size x.msg < 2 ^ 32) (i : Nat) (h : clean P maxFrameSize xs = true) :
    Reads P maxFrameSize i xs := by
  induction xs generalizing i with
  | nil =>
    rintro (_ | calls)
    · exact ⟨List.nil_sublist _, nofun⟩
    · rw [readsOf_error (readStream_few (by simp))]
      exact ⟨List.nil_sublist _, unmixed_cons.mpr ⟨by simp [tags], nofun⟩⟩
  | cons x xs ih =>
    have hsx := hsize x List.mem_cons_self
    have ih := fun i => ih (fun y hy => hmaps y (List.mem_cons_of_mem x hy))
      (fun y hy => hsize y (List.mem_cons_of_mem x hy)) i
    simp only [clean] at h
    split at h
    · rename_i h0
      exact reads_none (List.eq_nil_of_length_eq_zero h0) (ih (i + 1) h)
    · rename_i h0
      split at h
      · -- the peer gives up at the length
        rename_i hov
        have hmax : 0 < maxFrameSize ∧ maxFrameSize < (P.size x.msg : Int) := by simpa [oversized] using hov.2
        have hlen : 4 ≤ ((x :: xs).map (piece P)).flatten.length := by
          simp only [List.map_cons, List.flatten_cons, List.length_append]
          omega
        have hn : ofBigEndian (((x :: xs).map (piece P)).flatten.take 4) = P.size x.msg := piece_length hsx hov.1 _
        exact reads_error (by rw [readStream_length hlen hn, if_pos hmax]) hov.1
      · rename_i hov
        split at h
        · rename_i hk
          exact reads_torn hsx hk hov (by simpa using h)
        · rename_i hk
          have hover : ¬oversized P maxFrameSize x.msg = true := fun ho => hov ⟨by omega, ho⟩
          rintro (_ | calls)
          · exact ⟨List.nil_sublist _, nofun⟩
          · obtain ⟨hsub, hun⟩ := ih (i + 1) h calls
            simp only [List.map_cons, List.flatten_cons, tags]
            rw [readsOf_whole hP (hmaps x List.mem_cons_self) hsx h0 hk hover]
            refine ⟨hsub.cons_cons _, unmixed_cons.mpr ⟨unmixed_one (Nat.le_refl _) _, ?_⟩⟩
            rw [List.drop_left' (List.length_replicate ..)]
            exact hun

/-- Bytes of the next message behind a torn frame: the call on it takes of both. -/
theorem torn_mixed (hsize : P.size x.msg < 2 ^ 32) (h0 : (piece P x).length ≠ 0)
    (hk : (piece P x).length < 4 + P.size x.msg)
    (hover : ¬(4 ≤ (piece P x).length ∧ oversized P maxFrameSize x.msg = true))
    (hrest : (xs.map (piece P)).flatten ≠ []) :
    ¬Unmixed (readsOf P maxFrameSize 1 ((x :: xs).map (piece P)).flatten) (tags i ((x :: xs).map (piece P))) := by
  intro hun
  have hlt : (piece P x).length < (readStream P maxFrameSize (piece P x ++ (xs.map (piece P)).flatten)).2 :=
    readStream_torn hsize hk hover hrest
  have hone : ∃ r, readsOf P maxFrameSize 1 ((x :: xs).map (piece P)).flatten =
      [(r, (readStream P maxFrameSize (piece P x ++ (xs.map (piece P)).flatten)).2)] := by
    simp only [readsOf, List.map_cons, List.flatten_cons]
    split
    · exact ⟨_, rfl⟩
    · exact ⟨_, rfl⟩
  obtain ⟨r, hone⟩ := hone
  generalize (readStream P maxFrameSize (piece P x ++ (xs.map (piece P)).flatten)).2 = used at hlt hone
  rw [hone] at hun
  have hmix := (unmixed_cons.mp hun).1
  simp only [List.map_cons, tags, List.take_append, List.length_replicate] at hmix
  -- a byte of this message, and the first behind it
  obtain ⟨t, ts, hts⟩ : ∃ t ts, tags (i + 1) (xs.map (piece P)) = t :: ts := by
    refine List.exists_cons_of_ne_nil fun hnil => ?_
    have hl := length_tags (i + 1) (xs.map (piece P))
    rw [hnil] at hl
    exact hrest (List.eq_nil_of_length_eq_zero hl.symm)
  have hmem : t ∈ tags (i + 1) (xs.map (piece P)) := by
    rw [hts]
    exact List.mem_cons_self
  have ht := le_tags hmem
  have hi : i ∈ (List.replicate (piece P x).length i).take used := by
    rw [List.take_replicate, List.mem_replicate]
    exact ⟨by omega, rfl⟩
  have htm : t ∈ (tags (i + 1) (xs.map (piece P))).take (used - (piece P x).length) := by
    obtain ⟨d, hd⟩ : ∃ d, used - (piece P x).length = d + 1 := ⟨used - (piece P x).length - 1, by omega⟩
    rw [hts, hd, List.take_succ_cons]
    exact List.mem_cons_self
  have := hmix i (List.mem_append_left _ hi) t (List.mem_append_right _ htm)
  omega

theorem clean_of_unmixed (hP : P.Lawful) (hmaps : ∀ x ∈ xs, P.isMap x.msg = true)
    (hsize : ∀ x ∈ xs, P.size x.msg < 2 ^ 32) (i : Nat)
    (h : ∀ calls, Unmixed (readsOf P maxFrameSize calls (xs.map (piece P)).flatten) (tags i (xs.map (piece P)))) :
    clean P maxFrameSize xs = true := by
  induction xs generalizing i with
  | nil => rfl
  | cons x xs ih =>
    have hsx := hsize x List.mem_cons_self
    have ih := ih (fun y hy => hmaps y (List.mem_cons_of_mem x hy))
      (fun y hy => hsize y (List.mem_cons_of_mem x hy)) (i + 1)
    simp only [clean]
    split
    · rename_i h0
      have hnil := List.eq_nil_of_length_eq_zero h0
      refine ih fun calls => ?_
      simpa [hnil, tags] using h calls
    · rename_i h0
      split
      · rfl
      · rename_i hov
        split
        · rename_i hk
          by_contra hall
          refine torn_mixed hsx h0 hk hov (fun hnil => hall ?_) (h 1)
          simpa using hnil
        · rename_i hk
          have hover : ¬oversized P maxFrameSize x.msg = true := fun ho => hov ⟨by omega, ho⟩
          refine ih fun calls => ?_
          have hun := h (calls + 1)
          simp only [List.map_cons, List.flatten_cons, tags] at hun
          rw [readsOf_whole hP (hmaps x List.mem_cons_self) hsx h0 hk hover] at hun
          have hrest := (unmixed_cons.mp hun).2
          rwa [List.drop_left' (List.length_replicate ..)] at hrest

theorem unmixed_iff (P : Packing μ) (hP : P.Lawful) (maxFrameSize : Int) (xs : List (Send μ))
    (hmaps : ∀ x ∈ xs, P.isMap x.msg = true) (hsize : ∀ x ∈ xs, P.size x.msg < 2 ^ 32) (cuts : List Nat) :
    (∀ calls,
      (decoded (reads P maxFrameSize calls (connect (sender P newWriter xs).flatten cuts))).Sublist (xs.map Send.msg) ∧
      Unmixed (reads P maxFrameSize calls (connect (sender P newWriter xs).flatten cuts))
        (tags 0 (sender P newWriter xs))) ↔
    clean P maxFrameSize xs = true := by
  have hstream : (connect (xs.map (piece P)).flatten cuts).stream = (xs.map (piece P)).flatten := rfl
  simp only [reads_eq, sender_eq P (w := newWriter) rfl, hstream]
  constructor
  · intro h
    exact clean_of_unmixed hP hmaps hsize 0 fun calls => (h calls).2
  · intro h
    exact reads_of_clean hP hmaps hsize 0 h

/-- A write that wrote nothing, a whole frame, a torn one, and a write that wrote nothing. -/
theorem unmixed_iff_last_torn :
    (decoded (reads fixmap 7 5 (connect (sender fixmap newWriter
      [⟨[(122, 7)], 0⟩, ⟨[(97, 1)], 8⟩, ⟨[(97, 1), (98, 2)], 9⟩, ⟨[], 0⟩]).flatten [3, 1]))).Sublist
        [[(122, 7)], [(97, 1)], [(97, 1), (98, 2)], []] :=
  ((unmixed_iff fixmap fixmap_lawful 7 [⟨[(122, 7)], 0⟩, ⟨[(97, 1)], 8⟩, ⟨[(97, 1), (98, 2)], 9⟩, ⟨[], 0⟩]
    (by decide) (by decide) [3, 1]).mpr (by decide) 5).1

/-- The maps {"a": 1, "b": 2} and {"c": 3}; the first write stops one byte short, the second
    is whole: the peer decodes {"a": 1, "b": 0}, which was never sent, of bytes of both. -/
theorem torn_then_forged :
    decoded (reads fixmap 0 1
      (connect (sender fixmap newWriter [⟨[(97, 1), (98, 2)], 10⟩, ⟨[(99, 3)], 8⟩]).flatten [])) =
        [[(97, 1), (98, 0)]] ∧
      ¬[[(97, 1), (98, 0)]].Sublist [([(97, 1), (98, 2)] : List (UInt8 × UInt8)), [(99, 3)]] ∧
      clean fixmap 0 [⟨[(97, 1), (98, 2)], 10⟩, ⟨[(99, 3)], 8⟩] = false := by
  rw [reads_eq, sender_eq fixmap (w := newWriter) rfl]
  decide

end ValueRpc.Wire
