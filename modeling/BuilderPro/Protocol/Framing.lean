import Mathlib.Tactic.NormNum
import BuilderPro.Lib.StreamReader

/-!
# Framing

`framing.rs`: a frame is a `u32` little-endian length and a CBOR body.  The decoder buffers what a
socket delivers and drains the frames that are complete.  A drain that meets a bad frame answers
with the error alone, so the frames completed by the same push before it are never handed out
(`receive_items_iff`); a stream is decoded the same for every chunking exactly when it has no bad
frame, or nothing before it (`chunkingIndependent_iff`).
-/

namespace BuilderPro

open StreamReader

/-- What `ciborium` does with the values of a type. -/
structure Codec (α : Type*) where
  intoWriter : α → Except String (List UInt8)
  fromReader : List UInt8 → Except String α

/-- Every value written is read back. -/
def Codec.RoundTrips {α : Type*} (c : Codec α) : Prop :=
  ∀ v body, c.intoWriter v = .ok body → c.fromReader body = .ok v

def maxFrameLen : ℕ := 16 * 1024 * 1024

inductive FrameError
  /-- The declared length exceeds `maxFrameLen`. -/
  | oversized (len : ℕ)
  | decode (message : String)
  | encode (message : String)
  deriving DecidableEq, Repr

def u32ToLeBytes (n : ℕ) : List UInt8 :=
  [UInt8.ofNat n, UInt8.ofNat (n / 256), UInt8.ofNat (n / 65536), UInt8.ofNat (n / 16777216)]

def u32FromLeBytes (bytes : List UInt8) : ℕ :=
  bytes.foldr (fun b n => b.toNat + 256 * n) 0

section

variable {α : Type*} (c : Codec α)

def encodeCborFrame (v : α) : Except FrameError (List UInt8) :=
  match c.intoWriter v with
  | .error e => .error (.encode e)
  | .ok body =>
    if body.length > maxFrameLen then .error (.oversized (body.length % UInt32.size))
    else .ok (u32ToLeBytes body.length ++ body)

/-- The bytes of a list of messages sent one after another. -/
def encodeAll : List α → Except FrameError (List UInt8)
  | [] => .ok []
  | v :: vs => do
    let frame ← encodeCborFrame c v
    let frames ← encodeAll vs
    return frame ++ frames

/-- `CborFrameDecoder`: the bytes not drained yet. -/
structure FrameDecoder where
  buf : List UInt8
  deriving DecidableEq, Repr

def FrameDecoder.new : FrameDecoder := ⟨[]⟩

def FrameDecoder.push (d : FrameDecoder) (chunk : List UInt8) : FrameDecoder := ⟨d.buf ++ chunk⟩

/-- The loop of `decode`: the frames from `offset` on, and where they end. -/
def decodeLoop (buf : List UInt8) (items : List α) (offset : ℕ) :
    Except FrameError (List α × ℕ) :=
  if buf.length - offset < 4 then .ok (items, offset)
  else
    let len := u32FromLeBytes ((buf.drop offset).take 4)
    if len > maxFrameLen then .error (.oversized len)
    else if buf.length - offset - 4 < len then .ok (items, offset)
    else
      match c.fromReader ((buf.drop (offset + 4)).take len) with
      | .error e => .error (.decode e)
      | .ok item => decodeLoop buf (items ++ [item]) (offset + 4 + len)
termination_by buf.length - offset

/-- `decode`: an error consumes nothing. -/
def FrameDecoder.decode (d : FrameDecoder) : Except FrameError (List α × FrameDecoder) :=
  match decodeLoop c d.buf [] 0 with
  | .error e => .error e
  | .ok (items, offset) => .ok (items, ⟨d.buf.drop offset⟩)

/-- What a connection's reader has handed out, its decoder, and the error that ended it. -/
structure Received (α : Type*) where
  items : List α
  decoder : FrameDecoder
  error : Option FrameError

/-- A connection's reader: `push` and `decode` for every chunk, until the first error. -/
def receive (d : FrameDecoder) : List (List UInt8) → Received α
  | [] => ⟨[], d, none⟩
  | chunk :: chunks =>
    match (d.push chunk).decode c with
    | .error e => ⟨[], d.push chunk, some e⟩
    | .ok (items, d') =>
      let r := receive d' chunks
      ⟨items ++ r.items, r.decoder, r.error⟩

/-! ### Frames one at a time -/

/-- The frame at the front of a stream. -/
def nextFrame (bs : List UInt8) : Next FrameError α UInt8 :=
  if bs.length < 4 then .more
  else
    let len := u32FromLeBytes (bs.take 4)
    if len > maxFrameLen then .bad (.oversized len)
    else if bs.length - 4 < len then .more
    else
      match c.fromReader ((bs.drop 4).take len) with
      | .error e => .bad (.decode e)
      | .ok item => .item item (bs.drop (4 + len))

variable {c}

theorem nextFrame_item {bs rest : List UInt8} {v : α} (h : nextFrame c bs = .item v rest) :
    ∃ len, 4 + len ≤ bs.length ∧ len = u32FromLeBytes (bs.take 4) ∧ len ≤ maxFrameLen
      ∧ c.fromReader ((bs.drop 4).take len) = .ok v ∧ rest = bs.drop (4 + len) := by
  unfold nextFrame at h
  split_ifs at h with h4
  simp only [gt_iff_lt] at h
  split_ifs at h with hmax hlen
  split at h
  · cases h
  · rename_i item hitem
    cases h
    exact ⟨_, by omega, rfl, by omega, hitem, rfl⟩

theorem nextFrame_of_frame {bs : List UInt8} {v : α} {len : ℕ} (hlen : 4 + len ≤ bs.length)
    (hl : len = u32FromLeBytes (bs.take 4)) (hmax : len ≤ maxFrameLen)
    (hv : c.fromReader ((bs.drop 4).take len) = .ok v) :
    nextFrame c bs = .item v (bs.drop (4 + len)) := by
  unfold nextFrame
  rw [if_neg (by omega)]
  simp only [← hl]
  rw [if_neg (by omega), if_neg (by omega), hv]

theorem take_four_append {bs : List UInt8} (cs : List UInt8) (h : 4 ≤ bs.length) :
    (bs ++ cs).take 4 = bs.take 4 :=
  List.take_append_of_le_length h

theorem body_append {bs cs : List UInt8} {len : ℕ} (h : 4 + len ≤ bs.length) :
    ((bs ++ cs).drop 4).take len = (bs.drop 4).take len := by
  rw [List.drop_append_of_le_length (by omega), List.take_append_of_le_length (by simp; omega)]

theorem nextFrame_append_item {bs rest : List UInt8} {v : α} (cs : List UInt8)
    (h : nextFrame c bs = .item v rest) : nextFrame c (bs ++ cs) = .item v (rest ++ cs) := by
  obtain ⟨len, hlen, hl, hmax, hv, rfl⟩ := nextFrame_item h
  have hsize : 4 + len ≤ (bs ++ cs).length := by simp; omega
  rw [nextFrame_of_frame (v := v) hsize
    (by rw [take_four_append cs (by omega)]; exact hl) hmax (by rw [body_append hlen]; exact hv),
    List.drop_append_of_le_length hlen]

theorem nextFrame_append_bad {bs : List UInt8} {e : FrameError} (cs : List UInt8)
    (h : nextFrame c bs = .bad e) : nextFrame c (bs ++ cs) = .bad e := by
  unfold nextFrame at h ⊢
  split_ifs at h with h4
  rw [if_neg (by simp; omega)]
  simp only [gt_iff_lt, take_four_append cs (by omega : 4 ≤ bs.length)] at h ⊢
  split_ifs at h with hmax hlen
  · rw [if_pos hmax]
    exact h
  · rw [if_neg hmax, if_neg (by simp; omega), body_append (by omega)]
    split at h
    · exact h
    · cases h

/-- A frame is complete without what follows it. -/
theorem nextFrame_exact {bs rest : List UInt8} {v : α} (h : nextFrame c bs = .item v rest) :
    ∃ u, bs = u ++ rest ∧ nextFrame c u = .item v [] := by
  obtain ⟨len, hlen, hl, hmax, hv, rfl⟩ := nextFrame_item h
  have hsize : (bs.take (4 + len)).length = 4 + len := by simp; omega
  refine ⟨bs.take (4 + len), (List.take_append_drop _ _).symm, ?_⟩
  rw [nextFrame_of_frame (v := v) hsize.ge ?_ hmax ?_,
    List.drop_eq_nil_of_le (by omega)]
  · rw [List.take_take, min_eq_left (by omega)]
    exact hl
  · rw [List.drop_take, List.take_take, min_eq_left (by omega)]
    exact hv

variable (c)

/-- The frames of a stream, as a reader of units. -/
def frameReader : Reader FrameError α UInt8 where
  next := nextFrame c
  next_nil := rfl
  item_exact := nextFrame_exact
  item_append := nextFrame_append_item
  bad_append := nextFrame_append_bad

/-- The messages of a stream up to its first bad frame, and the bytes after them. -/
def framesOf (bs : List UInt8) : Reading FrameError α UInt8 := (frameReader c).read bs

/-! ### The decoder drains the frames of a stream -/

variable {c}

theorem decodeLoop_more {buf : List UInt8} {items : List α} {offset : ℕ}
    (h : nextFrame c (buf.drop offset) = .more) :
    decodeLoop c buf items offset = .ok (items, offset) := by
  unfold nextFrame at h
  rw [List.length_drop] at h
  rw [decodeLoop]
  split_ifs at h ⊢ with h4
  · rfl
  · simp only [gt_iff_lt] at h ⊢
    split_ifs at h ⊢ with hmax hlen
    · rfl
    · split at h <;> cases h

theorem decodeLoop_bad {buf : List UInt8} {items : List α} {offset : ℕ} {e : FrameError}
    (h : nextFrame c (buf.drop offset) = .bad e) : decodeLoop c buf items offset = .error e := by
  unfold nextFrame at h
  rw [List.length_drop] at h
  rw [decodeLoop]
  split_ifs at h ⊢ with h4
  simp only [gt_iff_lt, List.drop_drop] at h ⊢
  split_ifs at h ⊢ with hmax hlen
  · cases h
    rfl
  · split at h
    · rename_i e' he
      cases h
      simp
    · cases h

theorem decodeLoop_item {buf rest : List UInt8} (items : List α) {offset : ℕ} {v : α}
    (h : nextFrame c (buf.drop offset) = .item v rest) :
    ∃ offset', rest = buf.drop offset' ∧
      decodeLoop c buf items offset = decodeLoop c buf (items ++ [v]) offset' := by
  obtain ⟨len, hlen, hl, hmax, hv, rfl⟩ := nextFrame_item h
  rw [List.length_drop] at hlen
  rw [List.drop_drop] at hv ⊢
  refine ⟨_, rfl, ?_⟩
  rw [decodeLoop, if_neg (by omega)]
  simp only [← hl, gt_iff_lt]
  rw [if_neg (by omega), if_neg (by omega), hv]
  simp only [Nat.add_assoc]

/-- The loop drains the frames from `offset` on, and fails where the stream is bad. -/
theorem decodeLoop_eq (buf bs : List UInt8) (items : List α) (offset : ℕ)
    (h : bs = buf.drop offset) :
    (∀ e, (framesOf c bs).error = some e → decodeLoop c buf items offset = .error e) ∧
      ((framesOf c bs).error = none → ∃ offset',
        decodeLoop c buf items offset = .ok (items ++ (framesOf c bs).items, offset')
          ∧ buf.drop offset' = (framesOf c bs).rest) := by
  unfold framesOf
  induction bs using Reader.read.induct (frameReader c) generalizing items offset with
  | case1 bs hn =>
    rw [Reader.read_more hn]
    refine ⟨fun e he => absurd he (by simp), fun _ => ⟨offset, ?_, h.symm⟩⟩
    simp [decodeLoop_more (c := c) (h ▸ hn)]
  | case2 bs e hn =>
    rw [Reader.read_bad hn]
    refine ⟨fun e' he => ?_, fun he => absurd he (by simp)⟩
    obtain rfl : e = e' := by simpa using he
    exact decodeLoop_bad (h ▸ hn)
  | case3 bs v rest hn _ ih =>
    rw [Reader.read_item hn]
    subst h
    obtain ⟨offset', hrest, hloop⟩ := decodeLoop_item items hn
    obtain ⟨hbad, hok⟩ := ih (items ++ [v]) offset' hrest
    rw [hloop]
    refine ⟨hbad, fun he => ?_⟩
    obtain ⟨o, ho, hdrop⟩ := hok he
    exact ⟨o, by rw [ho]; simp, hdrop⟩

theorem decode_of_none {d : FrameDecoder} (h : (framesOf c d.buf).error = none) :
    d.decode c = .ok ((framesOf c d.buf).items, ⟨(framesOf c d.buf).rest⟩) := by
  obtain ⟨offset, hloop, hrest⟩ := (decodeLoop_eq d.buf d.buf [] 0 rfl).2 h
  simp [FrameDecoder.decode, hloop, hrest]

theorem decode_of_some {d : FrameDecoder} {e : FrameError}
    (h : (framesOf c d.buf).error = some e) : d.decode c = .error e := by
  simp [FrameDecoder.decode, (decodeLoop_eq d.buf d.buf [] 0 rfl).1 e h]

/-- A connection's reader is a receiver fed the frames of the stream. -/
theorem receive_eq_feed (d : FrameDecoder) (chunks : List (List UInt8)) :
    receive c d chunks =
      ⟨((frameReader c).feed d.buf chunks).items, ⟨((frameReader c).feed d.buf chunks).rest⟩,
        ((frameReader c).feed d.buf chunks).error⟩ := by
  induction chunks generalizing d with
  | nil => rfl
  | cons chunk chunks ih =>
    rcases he : (framesOf c (d.push chunk).buf).error with _ | e
    · have hfeed : ((frameReader c).read (d.buf ++ chunk)).error = none := he
      simp only [receive, decode_of_none he, ih, Reader.feed, hfeed]
      rfl
    · have hfeed : ((frameReader c).read (d.buf ++ chunk)).error = some e := he
      simp only [receive, decode_of_some he, Reader.feed, hfeed]
      rfl

/-- **What a chunking hands out.**  All the messages before the first bad frame, exactly when no
chunk that brings the stream to a bad frame completes a message. -/
theorem receive_items_iff (chunks : List (List UInt8)) :
    (receive c .new chunks).items = (framesOf c chunks.flatten).items
      ↔ (frameReader c).Clean chunks := by
  rw [receive_eq_feed]
  exact Reader.feed_items_iff_clean chunks

/-! ### What was sent -/

theorem u32FromLeBytes_toLeBytes {n : ℕ} (h : n < UInt32.size) :
    u32FromLeBytes (u32ToLeBytes n) = n := by
  simp only [UInt32.size] at h
  simp [u32FromLeBytes, u32ToLeBytes]
  omega

theorem nextFrame_encoded (hc : c.RoundTrips) {v : α} {frame : List UInt8} (bs : List UInt8)
    (h : encodeCborFrame c v = .ok frame) : nextFrame c (frame ++ bs) = .item v bs := by
  unfold encodeCborFrame at h
  split at h
  · cases h
  · rename_i body hbody
    split_ifs at h with hmax
    obtain rfl : u32ToLeBytes body.length ++ body = frame := by simpa using h
    have hfour : (u32ToLeBytes body.length).length = 4 := rfl
    have hlen : u32FromLeBytes (u32ToLeBytes body.length) = body.length :=
      u32FromLeBytes_toLeBytes (by simp only [maxFrameLen, UInt32.size] at hmax ⊢; omega)
    have hdrop : (u32ToLeBytes body.length ++ body ++ bs).drop 4 = body ++ bs := by
      rw [List.append_assoc, List.drop_left' hfour]
    have hsize : 4 + body.length ≤ (u32ToLeBytes body.length ++ body ++ bs).length := by
      simp [hfour]
    rw [nextFrame_of_frame (v := v) hsize, ← List.drop_drop, hdrop, List.drop_left]
    · rw [List.append_assoc, List.take_left' hfour, hlen]
    · omega
    · rw [hdrop, List.take_left]
      exact hc v body hbody

theorem framesOf_encoded (hc : c.RoundTrips) {ms : List α} {frames : List UInt8}
    (tail : List UInt8) (h : encodeAll c ms = .ok frames) :
    framesOf c (frames ++ tail) =
      ⟨ms ++ (framesOf c tail).items, (framesOf c tail).rest, (framesOf c tail).error⟩ := by
  induction ms generalizing frames with
  | nil =>
    obtain rfl : [] = frames := by simpa [encodeAll, pure, Except.pure] using h
    rfl
  | cons v vs ih =>
    simp only [encodeAll] at h
    rcases hv : encodeCborFrame c v with e | frame
    · simp [hv, bind, Except.bind] at h
    · rcases hvs : encodeAll c vs with e | frames'
      · simp [hv, hvs, bind, Except.bind] at h
      · obtain rfl : frame ++ frames' = frames := by
          simpa [hv, hvs, bind, Except.bind, pure, Except.pure] using h
        rw [List.append_assoc, framesOf, Reader.read_item (nextFrame_encoded hc _ hv)]
        have := ih hvs
        rw [framesOf] at this
        rw [this]
        rfl

variable (c) in
/-- What is handed out of `ms` sent as `frames` and followed by `tail` does not depend on how the
stream is cut: it begins with `ms`, and the bytes after the last complete frame of a tail with no
bad frame stay buffered. -/
structure ChunkingIndependent (ms : List α) (frames tail : List UInt8) : Prop where
  same : ∀ ps qs : List (List UInt8), ps.flatten = frames ++ tail → qs.flatten = frames ++ tail →
    (receive c .new ps).items = (receive c .new qs).items
  begins : ∀ ps : List (List UInt8), ps.flatten = frames ++ tail →
    ms <+: (receive c .new ps).items
  buffered : ∀ ps : List (List UInt8), ps.flatten = frames ++ tail →
    (framesOf c tail).error = none →
      (receive c .new ps).decoder.buf = (framesOf c tail).rest ∧ (receive c .new ps).error = none

theorem receive_of_none {ps : List (List UInt8)} (h : (framesOf c ps.flatten).error = none) :
    receive c .new ps = ⟨(framesOf c ps.flatten).items, ⟨(framesOf c ps.flatten).rest⟩, none⟩ := by
  have hnil : (frameReader c).next [] = .more := rfl
  obtain ⟨hitems, herror⟩ := Reader.feed_items ps hnil
  have hlost := Reader.lost_of_none ps hnil h
  have hrest := Reader.feed_rest ps hnil h
  rw [hlost, List.append_nil] at hitems
  rw [receive_eq_feed]
  simp only [FrameDecoder.new, hitems, hrest, herror, List.nil_append]
  exact congrArg _ h

/-- **Decoding and chunking.**  A chunking hands out every message before the first bad frame
exactly when no chunk that brings the stream to it completes a message; and all chunkings agree
exactly when the tail has no bad frame, or the stream no message before it. -/
theorem decoded_iff_chunking (hc : c.RoundTrips) {ms : List α} {frames : List UInt8}
    (h : encodeAll c ms = .ok frames) (tail : List UInt8) :
    (∀ ps : List (List UInt8), ps.flatten = frames ++ tail →
        ((receive c .new ps).items = ms ++ (framesOf c tail).items
          ↔ (frameReader c).Clean ps))
      ∧ (ChunkingIndependent c ms frames tail
          ↔ (framesOf c tail).error = none ∨ ms = [] ∧ (framesOf c tail).items = []) := by
  have hread := framesOf_encoded hc tail h
  refine ⟨fun ps hps => ?_, ?_⟩
  · rw [← receive_items_iff, hps, hread]
  have hsame := Reader.feed_same_iff (R := frameReader c) (frames ++ tail)
  have hframes : (frameReader c).read (frames ++ tail) = _ := hread
  simp only [hframes, List.append_eq_nil_iff] at hsame
  constructor
  · intro hind
    refine hsame.1 fun ps qs hps hqs => ?_
    have := hind.same ps qs hps hqs
    rwa [receive_eq_feed, receive_eq_feed] at this
  · intro hcond
    refine ⟨fun ps qs hps hqs => ?_, fun ps hps => ?_, fun ps hps hnone => ?_⟩
    · rw [receive_eq_feed, receive_eq_feed]
      exact hsame.2 hcond ps qs hps hqs
    · rcases hcond with hnone | ⟨rfl, -⟩
      · rw [receive_of_none (by rw [hps, hread]; exact hnone), hps, hread]
        exact List.prefix_append _ _
      · exact List.nil_prefix
    · rw [receive_of_none (by rw [hps, hread]; exact hnone), hps, hread]
      exact ⟨rfl, rfl⟩

/-- CBOR of an unsigned byte. -/
def cborU8 : Codec UInt8 where
  intoWriter v := .ok (if v < 24 then [v] else [24, v])
  fromReader
    | [] => .error "unexpected end of file"
    | b :: bs =>
      if b < 24 then .ok b
      else
        match b == 24, bs with
        | true, v :: _ => .ok v
        | true, [] => .error "unexpected end of file"
        | false, _ => .error "invalid type"

theorem cborU8_roundTrips : cborU8.RoundTrips := by
  intro v body h
  simp only [cborU8, Except.ok.injEq] at h ⊢
  subst h
  split_ifs with hv <;> simp [hv]

/-- A message and the length of an oversized frame: together they hand out nothing, apart the
message. -/
theorem chunking_of_oversized_tail :
    encodeAll cborU8 [7] = .ok [1, 0, 0, 0, 7]
      ∧ (receive cborU8 .new [[1, 0, 0, 0, 7, 255, 255, 255, 255]]).items = []
      ∧ (receive cborU8 .new [[1, 0, 0, 0, 7], [255, 255, 255, 255]]).items = [7]
      ∧ ¬ ChunkingIndependent cborU8 [7] [1, 0, 0, 0, 7] [255, 255, 255, 255] := by
  have hone : (receive cborU8 .new [[1, 0, 0, 0, 7, 255, 255, 255, 255]]).items = [] := by
    simp [receive, FrameDecoder.decode, FrameDecoder.push, FrameDecoder.new, decodeLoop,
      u32FromLeBytes, maxFrameLen, cborU8]
  have htwo : (receive cborU8 .new [[1, 0, 0, 0, 7], [255, 255, 255, 255]]).items = [7] := by
    simp [receive, FrameDecoder.decode, FrameDecoder.push, FrameDecoder.new, decodeLoop,
      u32FromLeBytes, maxFrameLen, cborU8]
  refine ⟨rfl, hone, htwo, fun h => ?_⟩
  have := h.same [[1, 0, 0, 0, 7, 255, 255, 255, 255]] [[1, 0, 0, 0, 7], [255, 255, 255, 255]]
    rfl rfl
  rw [hone, htwo] at this
  cases this

theorem decoded_iff_chunking_oversized :
    (∀ ps : List (List UInt8), ps.flatten = [1, 0, 0, 0, 7] ++ [255, 255, 255, 255] →
        ((receive cborU8 .new ps).items = [7] ++ (framesOf cborU8 [255, 255, 255, 255]).items
          ↔ (frameReader cborU8).Clean ps))
      ∧ (ChunkingIndependent cborU8 [7] [1, 0, 0, 0, 7] [255, 255, 255, 255]
          ↔ (framesOf cborU8 [255, 255, 255, 255]).error = none
            ∨ [(7 : UInt8)] = [] ∧ (framesOf cborU8 [255, 255, 255, 255]).items = []) :=
  decoded_iff_chunking cborU8_roundTrips rfl [255, 255, 255, 255]

end

end BuilderPro
