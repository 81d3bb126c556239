/-
  ValueRpc.Wire.Codec — the frames of a connection (`valuerpc/rpc.go`: `ReadMessage`,
  `WriteMessage`, `doWriteFrame`): a 4-byte big-endian length, then that many bytes of
  MessagePack. MessagePack is a parameter.

  The writer puts a frame into a buffer it keeps, or, when the frame is larger than that,
  into one of its own. The reader asks a buffered reader for the length and for the payload;
  the connection may cut the stream anywhere. io.ReadFull answers EOF when it got nothing
  and ErrUnexpectedEOF when it got too little, so a stream cut right behind a length is at
  EOF.

  `readMessage_eq`: what a call returns and how much it takes depends on the unread bytes
  only. `round_trip`: the messages written come back, in order, up to the first that is too
  large or not complete, and then an error.
-/

import ValueRpc.Core.HashChain
import ValueRpc.Lib.ByteStream

namespace ValueRpc.Wire

open ValueRpc.Core ValueRpc.Lib

variable {μ : Type}

/-- `value.Pack`, `value.Unpack`, and whether a value's kind is MAP. -/
structure Packing (μ : Type) where
  pack : μ → Except String Bytes
  unpack : Bytes → Except String μ
  isMap : μ → Bool

/-- A map is unpacked as it was packed. -/
def Packing.Lawful (P : Packing μ) : Prop := ∀ m p, P.isMap m = true → P.pack m = .ok p → P.unpack p = .ok m

def reusableWriteBufCap : Nat := 64 * 1024

def bufSize : Nat := 4096

/-! ## Writing -/

structure Writer where
  shutdown : Bool
  writeBuf : Bytes

/-- `doWriteFrame`: the writer after it, and what it writes. -/
def doWriteFrame (w : Writer) (payload : Bytes) : Writer × Bytes :=
  let need := 4 + payload.length
  let fill := fun frame : Bytes => copyAt (copyAt frame 0 (bigEndian 4 payload.length)) 4 payload
  if need ≤ reusableWriteBufCap then
    let writeBuf := if w.writeBuf.length < need then List.replicate reusableWriteBufCap 0 else w.writeBuf
    let frame := fill (writeBuf.take need)
    ({ w with writeBuf := frame ++ writeBuf.drop need }, frame)
  else (w, fill (List.replicate need 0))

def writeMessage (P : Packing μ) (w : Writer) (msg : μ) : Except String (Writer × Bytes) :=
  if w.shutdown then .error "client closed"
  else
    match P.pack msg with
    | .error e => .error ("msgpack pack, " ++ e)
    | .ok payload => .ok (doWriteFrame w payload)

def writeAll (P : Packing μ) (w : Writer) : List μ → Except String (Writer × Bytes)
  | [] => .ok (w, [])
  | m :: ms =>
    match writeMessage P w m with
    | .error e => .error e
    | .ok (w', frame) =>
      match writeAll P w' ms with
      | .error e => .error e
      | .ok (w'', bytes) => .ok (w'', frame ++ bytes)

/-! ## Reading -/

inductive ReadErr where
  | eof
  | unexpectedEOF
  | other (text : String)
  deriving DecidableEq, Repr

def short (got : Bytes) : ReadErr := if got.isEmpty then .eof else .unexpectedEOF

def tooLarge (n : Nat) (maxFrameSize : Int) : ReadErr :=
  .other ("frame too large: " ++ toString n ++ " bytes (max " ++ toString maxFrameSize ++ ")")

def unpackMap (P : Packing μ) (payload : Bytes) : Except ReadErr μ :=
  match P.unpack payload with
  | .error e => .error (.other ("msgpack unpack, " ++ e))
  | .ok msg => if P.isMap msg then .ok msg else .error (.other "expected msgpack map")

def readMessage (P : Packing μ) (maxFrameSize : Int) (r : Buffered UInt8) : Except ReadErr μ × Buffered UInt8 :=
  let lenBuf := r.readFull bufSize 4
  if lenBuf.1.length < 4 then (.error (short lenBuf.1), lenBuf.2)
  else
    let n := ofBigEndian lenBuf.1
    if 0 < maxFrameSize ∧ maxFrameSize < n then (.error (tooLarge n maxFrameSize), lenBuf.2)
    else
      let payload := lenBuf.2.readFull bufSize n
      if payload.1.length < n then (.error (short payload.1), payload.2)
      else (unpackMap P payload.1, payload.2)

/-- What the calls of a read loop return, up to the first error, and how many bytes each
    takes. -/
def reads (P : Packing μ) (maxFrameSize : Int) : Nat → Buffered UInt8 → List (Except ReadErr μ × Nat)
  | 0, _ => []
  | calls + 1, r =>
    let d := readMessage P maxFrameSize r
    let used := r.stream.length - d.2.stream.length
    match d.1 with
    | .error e => [(.error e, used)]
    | .ok msg => (.ok msg, used) :: reads P maxFrameSize calls d.2

/-! ## The bytes alone -/

/-- A call on the unread bytes: what it returns and how many it takes. -/
def readStream (P : Packing μ) (maxFrameSize : Int) (bs : Bytes) : Except ReadErr μ × Nat :=
  if bs.length < 4 then (.error (short bs), bs.length)
  else
    let n := ofBigEndian (bs.take 4)
    if 0 < maxFrameSize ∧ maxFrameSize < n then (.error (tooLarge n maxFrameSize), 4)
    else if bs.length < 4 + n then (.error (short (bs.drop 4)), bs.length)
    else (unpackMap P ((bs.drop 4).take n), 4 + n)

def readsOf (P : Packing μ) (maxFrameSize : Int) : Nat → Bytes → List (Except ReadErr μ × Nat)
  | 0, _ => []
  | calls + 1, bs =>
    let d := readStream P maxFrameSize bs
    match d.1 with
    | .error e => [(.error e, d.2)]
    | .ok msg => (.ok msg, d.2) :: readsOf P maxFrameSize calls (bs.drop d.2)

variable {P : Packing μ} {maxFrameSize : Int}

theorem readStream_le (P : Packing μ) (maxFrameSize : Int) (bs : Bytes) :
    (readStream P maxFrameSize bs).2 ≤ bs.length := by
  unfold readStream
  split
  · exact Nat.le_refl _
  · dsimp only
    split
    · dsimp only; omega
    · split
      · exact Nat.le_refl _
      · dsimp only; omega

/-- The cuts and the buffer do not show. -/
theorem readMessage_eq (P : Packing μ) (maxFrameSize : Int) (r : Buffered UInt8) :
    (readMessage P maxFrameSize r).1 = (readStream P maxFrameSize r.stream).1 ∧
      (readMessage P maxFrameSize r).2.stream = r.stream.drop (readStream P maxFrameSize r.stream).2 := by
  obtain ⟨hlen, hrest⟩ := r.readFull_eq bufSize 4
  unfold readMessage readStream
  simp only [hlen, List.length_take]
  by_cases h4 : r.stream.length < 4
  · rw [if_pos (by omega), if_pos h4]
    rw [List.take_of_length_le (by omega)]
    exact ⟨rfl, by rw [hrest, List.drop_of_length_le (by omega), List.drop_of_length_le (by omega)]⟩
  · rw [if_neg (by omega), if_neg h4]
    by_cases hmax : 0 < maxFrameSize ∧ maxFrameSize < (ofBigEndian (r.stream.take 4) : Int)
    · rw [if_pos hmax, if_pos hmax]
      exact ⟨rfl, hrest⟩
    · rw [if_neg hmax, if_neg hmax]
      obtain ⟨hpay, hrest'⟩ := (r.readFull bufSize 4).2.readFull_eq bufSize (ofBigEndian (r.stream.take 4))
      rw [hrest] at hpay hrest'
      simp only [hpay, List.length_take, List.length_drop]
      by_cases hn : r.stream.length < 4 + ofBigEndian (r.stream.take 4)
      · rw [if_pos (by omega), if_pos hn]
        rw [List.take_of_length_le (by rw [List.length_drop]; omega)]
        exact ⟨rfl, by rw [hrest', List.drop_drop, List.drop_of_length_le (by omega), List.drop_of_length_le (by omega)]⟩
      · rw [if_neg (by omega), if_neg hn]
        exact ⟨rfl, by rw [hrest', List.drop_drop]⟩

theorem reads_eq (P : Packing μ) (maxFrameSize : Int) (calls : Nat) (r : Buffered UInt8) :
    reads P maxFrameSize calls r = readsOf P maxFrameSize calls r.stream := by
  induction calls generalizing r with
  | zero => rfl
  | succ calls ih =>
    obtain ⟨hres, hrest⟩ := readMessage_eq P maxFrameSize r
    have hle := readStream_le P maxFrameSize r.stream
    have hused : r.stream.length - (r.stream.drop (readStream P maxFrameSize r.stream).2).length =
        (readStream P maxFrameSize r.stream).2 := by
      rw [List.length_drop]
      omega
    simp only [reads, readsOf, hres, ih, hrest, hused]

/-! ## Frames -/

def frame (payload : Bytes) : Bytes := bigEndian 4 payload.length ++ payload

@[simp] theorem length_frame (payload : Bytes) :
    (frame payload).length = 4 + payload.length := by simp [frame]

/-- What the buffer held does not show. -/
theorem doWriteFrame_frame (w : Writer) (payload : Bytes) : (doWriteFrame w payload).2 = frame payload := by
  have hfill : ∀ buf : Bytes, buf.length = 4 + payload.length →
      copyAt (copyAt buf 0 (bigEndian 4 payload.length)) 4 payload = frame payload := by
    intro buf hbuf
    have := copyAt_header_body buf (bigEndian 4 payload.length) payload (by simpa using hbuf)
    rwa [length_bigEndian] at this
  unfold doWriteFrame
  dsimp only
  split
  · rename_i hneed
    refine hfill _ ?_
    rw [List.length_take]
    split
    · rw [List.length_replicate]; omega
    · omega
  · exact hfill _ (List.length_replicate ..)

theorem doWriteFrame_shutdown (w : Writer) (payload : Bytes) :
    (doWriteFrame w payload).1.shutdown = w.shutdown := by
  unfold doWriteFrame
  dsimp only
  split <;> rfl

def Packing.payload (P : Packing μ) (m : μ) : Bytes :=
  match P.pack m with
  | .ok p => p
  | .error _ => []

def Packing.size (P : Packing μ) (m : μ) : Nat := (P.payload m).length

theorem writeMessage_ok {w : Writer} {m : μ} {d : Writer × Bytes} (h : writeMessage P w m = .ok d) :
    P.pack m = .ok (P.payload m) ∧ d.2 = frame (P.payload m) := by
  unfold writeMessage at h
  split at h
  · cases h
  · cases hp : P.pack m with
    | error e => simp only [hp] at h; cases h
    | ok p =>
      simp only [hp] at h
      cases h
      exact ⟨by simp [Packing.payload, hp], by simp [Packing.payload, hp, doWriteFrame_frame]⟩

def wire (P : Packing μ) (ms : List μ) : Bytes := (ms.map fun m => frame (P.payload m)).flatten

theorem writeAll_ok {w w' : Writer} {ms : List μ} {bytes : Bytes} (h : writeAll P w ms = .ok (w', bytes)) :
    (∀ m ∈ ms, P.pack m = .ok (P.payload m)) ∧ bytes = wire P ms := by
  induction ms generalizing w bytes with
  | nil => cases h; simp [wire]
  | cons m ms ih =>
    simp only [writeAll] at h
    split at h
    · cases h
    · rename_i w₁ f hm
      obtain ⟨hp, hf⟩ := writeMessage_ok hm
      split at h
      · cases h
      · rename_i w₂ bs hms
        cases h
        obtain ⟨hps, rfl⟩ := ih hms
        exact ⟨by simpa [hp] using hps, by simp [wire, show f = _ from hf]⟩

/-- A writer that is not shut down writes whatever can be packed. -/
theorem writeAll_wire {w : Writer} (hw : w.shutdown = false) (ms : List μ)
    (h : ∀ m ∈ ms, P.pack m = .ok (P.payload m)) : ∃ w', writeAll P w ms = .ok (w', wire P ms) := by
  induction ms generalizing w with
  | nil => exact ⟨w, rfl⟩
  | cons m ms ih =>
    have hm := h m List.mem_cons_self
    obtain ⟨w', hw'⟩ := ih (w := (doWriteFrame w (P.payload m)).1) ((doWriteFrame_shutdown ..).trans hw)
      fun m' h' => h m' (List.mem_cons_of_mem m h')
    have hone : writeMessage P w m = .ok ((doWriteFrame w (P.payload m)).1, frame (P.payload m)) := by
      simp [writeMessage, hw, hm, ← doWriteFrame_frame w]
    exact ⟨w', by simp [writeAll, hone, hw', wire]⟩

/-! ## A frame that is read back -/

theorem take_frame (p rest : Bytes) : (frame p ++ rest).take 4 = bigEndian 4 p.length := by
  simp [frame, List.append_assoc]

theorem readStream_header {p : Bytes} (hp : p.length < 2 ^ 32) (rest : Bytes) :
    ofBigEndian ((frame p ++ rest).take 4) = p.length := by
  rw [take_frame, ofBigEndian_bigEndian]
  exact Nat.mod_eq_of_lt (by simpa using hp)

theorem readStream_frame {p rest : Bytes} (hp : p.length < 2 ^ 32)
    (hmax : maxFrameSize ≤ 0 ∨ (p.length : Int) ≤ maxFrameSize) :
    readStream P maxFrameSize (frame p ++ rest) = (unpackMap P p, 4 + p.length) := by
  unfold readStream
  rw [if_neg (by simp; omega)]
  simp only [readStream_header hp]
  rw [if_neg (by omega), if_neg (by simp)]
  have hdrop : (frame p ++ rest).drop 4 = p ++ rest := by simp [frame, List.append_assoc]
  rw [hdrop, List.take_left]

/-- Too large: only the length is taken. -/
theorem readStream_large {p rest : Bytes} (hp : p.length < 2 ^ 32) (h0 : 0 < maxFrameSize)
    (hmax : maxFrameSize < p.length) {k : Nat} (hk : 4 ≤ k) :
    readStream P maxFrameSize ((frame p ++ rest).take k) = (.error (tooLarge p.length maxFrameSize), 4) := by
  unfold readStream
  have hlen : 4 ≤ ((frame p ++ rest).take k).length := by simp; omega
  rw [if_neg (by omega)]
  have htake : ((frame p ++ rest).take k).take 4 = (frame p ++ rest).take 4 := by rw [List.take_take]; congr 1; omega
  simp only [htake, readStream_header hp]
  rw [if_pos ⟨h0, hmax⟩]

theorem short_ne (bs : Bytes) : short bs = .eof ∨ short bs = .unexpectedEOF := by
  unfold short
  split
  · exact .inl rfl
  · exact .inr rfl

/-- Not even a length. -/
theorem readStream_few {bs : Bytes} (h : bs.length < 4) :
    readStream P maxFrameSize bs = (.error (short bs), bs.length) := by
  unfold readStream
  rw [if_pos h]

/-- Not complete: what there is is taken. -/
theorem readStream_short {p : Bytes} (rest : Bytes) (hp : p.length < 2 ^ 32)
    (hmax : maxFrameSize ≤ 0 ∨ (p.length : Int) ≤ maxFrameSize) {k : Nat} (hk : k < 4 + p.length) :
    ∃ e, readStream P maxFrameSize ((frame p ++ rest).take k) = (.error e, k) ∧ (e = .eof ∨ e = .unexpectedEOF) := by
  have hlen : ((frame p ++ rest).take k).length = k := by simp; omega
  by_cases h4 : k < 4
  · exact ⟨_, by rw [readStream_few (by omega), hlen], short_ne _⟩
  · have htake : ((frame p ++ rest).take k).take 4 = (frame p ++ rest).take 4 := by rw [List.take_take]; congr 1; omega
    refine ⟨short (((frame p ++ rest).take k).drop 4), ?_, short_ne _⟩
    unfold readStream
    simp only [hlen, htake, readStream_header hp]
    rw [if_neg h4, if_neg (by omega), if_pos hk]

/-! ## The round trip -/

/-- The messages whose frames are complete in the first `k` bytes, up to the first that is
    too large. -/
def delivered (P : Packing μ) (maxFrameSize : Int) : Nat → List μ → List μ
  | _, [] => []
  | k, m :: ms =>
    if P.size m ≤ maxFrameSize ∧ 4 + P.size m ≤ k then m :: delivered P maxFrameSize (k - (4 + P.size m)) ms else []

/-- A message `WriteMessage` writes, and a length can hold its size. -/
structure Packing.Fits (P : Packing μ) (m : μ) : Prop where
  isMap : P.isMap m = true
  pack : P.pack m = .ok (P.payload m)
  size : P.size m < 2 ^ 32

theorem Packing.Fits.unpackMap {m : μ} (h : P.Fits m) (hP : P.Lawful) :
    unpackMap P (P.payload m) = .ok m := by
  simp [Wire.unpackMap, hP m _ h.isMap h.pack, h.isMap]

theorem readsOf_wire (hP : P.Lawful) (h0 : 1 ≤ maxFrameSize) {ms : List μ} (hms : ∀ m ∈ ms, P.Fits m)
    (k calls : Nat) (hc : ms.length < calls) :
    ∃ e used, readsOf P maxFrameSize calls ((wire P ms).take k) =
        ((delivered P maxFrameSize k ms).map fun m => (.ok m, 4 + P.size m)) ++ [(.error e, used)] ∧
      (∀ m, ms[(delivered P maxFrameSize k ms).length]? = some m → maxFrameSize < P.size m →
        (wire P (delivered P maxFrameSize k ms)).length + 4 ≤ k → e = tooLarge (P.size m) maxFrameSize ∧ used = 4) ∧
      ((∀ m, ms[(delivered P maxFrameSize k ms).length]? = some m → P.size m ≤ maxFrameSize ∨
        k < (wire P (delivered P maxFrameSize k ms)).length + 4) → e = .eof ∨ e = .unexpectedEOF) := by
  induction ms generalizing k calls with
  | nil =>
    obtain ⟨calls, rfl⟩ : ∃ n, calls = n + 1 := ⟨calls - 1, by simp at hc; omega⟩
    exact ⟨.eof, 0, by simp [readsOf, wire, readStream_few, short, delivered], by simp, fun _ => .inl rfl⟩
  | cons m ms ih =>
    obtain ⟨calls, rfl⟩ : ∃ n, calls = n + 1 := ⟨calls - 1, by simp at hc; omega⟩
    have hm := hms m List.mem_cons_self
    have hsize : (P.payload m).length < 2 ^ 32 := hm.size
    have hwire : wire P (m :: ms) = frame (P.payload m) ++ wire P ms := by simp [wire]
    have hlen : (frame (P.payload m)).length = 4 + P.size m := length_frame _
    rw [hwire]
    by_cases hbig : P.size m ≤ maxFrameSize
    · by_cases hk : 4 + P.size m ≤ k
      · -- complete: read back, and on with the rest
        have hd : delivered P maxFrameSize k (m :: ms) = m :: delivered P maxFrameSize (k - (4 + P.size m)) ms := by
          simp [delivered, hbig, hk]
        have hcut : (frame (P.payload m) ++ wire P ms).take k =
            frame (P.payload m) ++ (wire P ms).take (k - (4 + P.size m)) := by
          rw [List.take_append, hlen, List.take_of_length_le (by omega)]
        obtain ⟨e, used, hread, hlarge, hshort⟩ := ih (fun m' h => hms m' (List.mem_cons_of_mem m h))
          (k - (4 + P.size m)) calls (by simp at hc; omega)
        have hwd : (wire P (delivered P maxFrameSize k (m :: ms))).length =
            4 + P.size m + (wire P (delivered P maxFrameSize (k - (4 + P.size m)) ms)).length := by
          rw [hd]
          simp [wire, Packing.size]
        refine ⟨e, used, ?_, fun m' h' hb' hk' => ?_, fun h => hshort fun m' h' => ?_⟩
        · have hdrop : (frame (P.payload m) ++ (wire P ms).take (k - (4 + P.size m))).drop (4 + (P.payload m).length) =
              (wire P ms).take (k - (4 + P.size m)) := List.drop_left' (length_frame _)
          simp only [readsOf, hcut, readStream_frame hsize (.inr hbig), hm.unpackMap hP, hdrop, hread, hd]
          rfl
        · rw [hd, List.length_cons, List.getElem?_cons_succ] at h'
          exact hlarge m' h' hb' (by rw [hwd] at hk'; omega)
        · rw [hd, List.length_cons] at h
          refine (h m' (by rw [List.getElem?_cons_succ]; exact h')).imp_right fun hlt => ?_
          rw [← hd, hwd] at hlt
          omega
      · have hd : delivered P maxFrameSize k (m :: ms) = [] := by simp [delivered, hk]
        obtain ⟨e, he, herr⟩ := readStream_short (P := P) (wire P ms) hsize (.inr hbig) (k := k)
          (by rw [← Packing.size]; omega)
        refine ⟨e, k, by simp [readsOf, he, hd], fun m' h' hb' => ?_, fun _ => herr⟩
        rw [hd] at h'
        cases h'
        omega
    · have hd : delivered P maxFrameSize k (m :: ms) = [] := by simp [delivered, hbig]
      by_cases hk : 4 ≤ k
      · refine ⟨tooLarge (P.size m) maxFrameSize, 4, ?_, fun m' h' _ _ => ?_, fun h => ?_⟩
        · simp only [readsOf, readStream_large hsize (by omega) (Int.not_le.mp hbig) hk, hd]
          rfl
        · rw [hd] at h'
          cases h'
          exact ⟨rfl, rfl⟩
        · rw [hd] at h
          rcases h m rfl with h | h
          · exact absurd h hbig
          · simp [wire] at h
            omega
      · have hlt : ((frame (P.payload m) ++ wire P ms).take k).length < 4 := by simp; omega
        refine ⟨_, _, by simp [readsOf, readStream_few hlt, hd]; exact ⟨rfl, rfl⟩, fun m' h' _ hk' => ?_,
          fun _ => short_ne _⟩
        rw [hd] at hk'
        simp [wire] at hk'
        omega

/-- A connection with nothing read yet, its stream cut into reads as `cuts` says. -/
def connect (bytes : Bytes) (cuts : List Nat) : Buffered UInt8 := ⟨[], ⟨bytes, cuts⟩⟩

/-- Messages written by any writer, their bytes cut off after any `k` of them and into reads
    in any way: the calls of the read loop return the messages whose frames are complete, in
    order and each from its own bytes, up to the first that is too large, and then an error.
    For a message that is too large it says so, and only the length is taken. -/
theorem round_trip (P : Packing μ) (hP : P.Lawful) (maxFrameSize : Int) (h0 : 1 ≤ maxFrameSize)
    {w w' : Writer} {ms : List μ} {bytes : Bytes} (hmaps : ∀ m ∈ ms, P.isMap m = true)
    (hsize : ∀ m ∈ ms, P.size m < 2 ^ 32) (hw : writeAll P w ms = .ok (w', bytes)) (k : Nat) (cuts : List Nat)
    (calls : Nat) (hc : ms.length < calls) :
    ∃ e used, reads P maxFrameSize calls (connect (bytes.take k) cuts) =
        ((delivered P maxFrameSize k ms).map fun m => (.ok m, 4 + P.size m)) ++ [(.error e, used)] ∧
      (∀ m, ms[(delivered P maxFrameSize k ms).length]? = some m → maxFrameSize < P.size m →
        (wire P (delivered P maxFrameSize k ms)).length + 4 ≤ k → e = tooLarge (P.size m) maxFrameSize ∧ used = 4) ∧
      ((∀ m, ms[(delivered P maxFrameSize k ms).length]? = some m → P.size m ≤ maxFrameSize ∨
        k < (wire P (delivered P maxFrameSize k ms)).length + 4) → e = .eof ∨ e = .unexpectedEOF) := by
  obtain ⟨hpack, rfl⟩ := writeAll_ok hw
  have hstream : (connect ((wire P ms).take k) cuts).stream = (wire P ms).take k := rfl
  have := readsOf_wire hP h0 (fun m hm => ⟨hmaps m hm, hpack m hm, hsize m hm⟩) k calls hc
  rw [← hstream, ← reads_eq] at this
  exact this

/-- The entries of a map with keys of one byte and values below 128. -/
def packEntries : List (UInt8 × UInt8) → Bytes
  | [] => []
  | (key, val) :: m => 0xa1 :: key :: val :: packEntries m

def unpackEntries : Nat → Bytes → Except String (List (UInt8 × UInt8))
  | 0, [] => .ok []
  | n + 1, str :: key :: val :: bs =>
    if str = 0xa1 ∧ val < 0x80 then (unpackEntries n bs).map ((key, val) :: ·) else .error "unsupported"
  | _, _ => .error "EOF"

/-- MessagePack on the maps of at most 15 such entries: a fixmap of fixstr keys and positive
    fixint values. -/
def fixmap : Packing (List (UInt8 × UInt8)) where
  pack m :=
    if m.length < 16 ∧ m.all (·.2 < 0x80) then .ok (UInt8.ofNat (0x80 + m.length) :: packEntries m)
    else .error "unsupported"
  unpack
    | [] => .error "EOF"
    | head :: bs => if 0x80 ≤ head ∧ head < 0x90 then unpackEntries (head.toNat - 0x80) bs else .error "unsupported"
  isMap _ := true

theorem unpackEntries_packEntries {m : List (UInt8 × UInt8)} (hm : m.all (·.2 < 0x80)) :
    unpackEntries m.length (packEntries m) = .ok m := by
  induction m with
  | nil => rfl
  | cons e m ih =>
    rw [List.all_cons, Bool.and_eq_true, decide_eq_true_eq] at hm
    rw [packEntries, List.length_cons, unpackEntries, if_pos ⟨rfl, hm.1⟩, ih hm.2]
    rfl

theorem fixmap_lawful : fixmap.Lawful := by
  intro m p _ h
  simp only [fixmap] at h ⊢
  split at h
  · rename_i hm
    rw [← Except.ok.inj h]
    have hhead : (UInt8.ofNat (0x80 + m.length)).toNat = 0x80 + m.length := UInt8.toNat_ofNat_of_lt' (by
      have : UInt8.size = 256 := rfl
      omega)
    have hfix : 0x80 ≤ UInt8.ofNat (0x80 + m.length) ∧ UInt8.ofNat (0x80 + m.length) < 0x90 := by
      simp only [UInt8.le_iff_toNat_le, UInt8.lt_iff_toNat_lt, hhead]
      exact ⟨Nat.le_add_right .., Nat.add_lt_add_left hm.1 0x80⟩
    refine (if_pos hfix).trans ?_
    rw [hhead, Nat.add_sub_cancel_left]
    exact unpackEntries_packEntries hm.2
  · cases h

/-- Three maps, the second longer than the third, one byte missing, the stream read two
    bytes at a time: two come back, then an error. -/
theorem round_trip_cut : ∃ e used,
    reads fixmap 7 4 (connect ((wire fixmap [[(97, 1)], [(97, 1), (98, 2)], [(99, 3)]]).take 26)
      (List.replicate 14 2)) =
      [(.ok [(97, 1)], 8), (.ok [(97, 1), (98, 2)], 11)] ++ [(.error e, used)] ∧ (e = .eof ∨ e = .unexpectedEOF) := by
  obtain ⟨w', hw⟩ := writeAll_wire (P := fixmap) (w := ⟨false, []⟩) rfl [[(97, 1)], [(97, 1), (98, 2)],
    [(99, 3)]] (by decide)
  obtain ⟨e, used, hread, -, hshort⟩ := round_trip fixmap fixmap_lawful 7 (by decide)
    (fun _ _ => rfl) (by decide) hw 26 (List.replicate 14 2) 4 (by decide)
  exact ⟨e, used, hread, hshort (by decide)⟩

end ValueRpc.Wire
