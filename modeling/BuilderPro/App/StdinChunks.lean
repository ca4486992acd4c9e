import BuilderPro.Lib.Blocks
import BuilderPro.Lib.Cbor
import BuilderPro.Lib.Runs
import BuilderPro.Lib.Slots
import BuilderPro.Protocol.Framing

/-!
# The chunks of a write

`write_stdin` splits its data into chunks of a mebibyte, none of them empty and at least one, which
make up the data again (`flatten_buildWriteStdinChunks`); a request with a chunk fits in a frame
(`encode_chunk`).
-/

namespace BuilderPro

def writeStdinChunk : ℕ := 1024 * 1024

/-- `slice::chunks`. -/
def chunksOf {α : Type*} (n : ℕ) (l : List α) : List (List α) :=
  if _h : n = 0 ∨ l = [] then [] else l.take n :: chunksOf n (l.drop n)
termination_by l.length
decreasing_by
  have hpos : 0 < l.length := List.length_pos_iff.2 (by tauto)
  simp only [List.length_drop]
  omega

theorem flatten_chunksOf {α : Type*} {n : ℕ} (hn : 0 < n) (l : List α) :
    (chunksOf n l).flatten = l := by
  induction l using chunksOf.induct n with
  | case1 l h =>
    rw [chunksOf, dif_pos h]
    obtain rfl : l = [] := h.resolve_left (by omega)
    rfl
  | case2 l h ih =>
    rw [chunksOf, dif_neg h, List.flatten_cons, ih, List.take_append_drop]

theorem length_of_mem_chunksOf {α : Type*} {n : ℕ} {l c : List α} (hc : c ∈ chunksOf n l) :
    c.length ≤ n := by
  induction l using chunksOf.induct n with
  | case1 l h =>
    rw [chunksOf, dif_pos h] at hc
    cases hc
  | case2 l h ih =>
    rw [chunksOf, dif_neg h] at hc
    rcases List.mem_cons.1 hc with rfl | hc
    · exact List.length_take_le _ _
    · exact ih hc

theorem chunksOf_replicate_succ {α : Type*} {n : ℕ} (hn : 0 < n) (a : α) :
    chunksOf n (List.replicate (n + 1) a) = [List.replicate n a, [a]] := by
  have hone : n + 1 - n = 1 := by omega
  rw [chunksOf, dif_neg (by simp; omega), List.take_replicate, List.drop_replicate, hone,
    Nat.min_eq_left (Nat.le_succ n), chunksOf, dif_neg (by simp; omega),
    List.take_of_length_le (by simp; omega), List.drop_of_length_le (by simp; omega), chunksOf,
    dif_pos (.inr rfl)]
  rfl

/-- The payloads of `build_write_stdin_chunks`, of the bytes of the data. -/
def buildWriteStdinChunks (bytes : List UInt8) : List (List UInt8) :=
  if bytes.length ≤ writeStdinChunk then [bytes] else chunksOf writeStdinChunk bytes

theorem flatten_buildWriteStdinChunks (bytes : List UInt8) :
    (buildWriteStdinChunks bytes).flatten = bytes := by
  unfold buildWriteStdinChunks
  split_ifs
  · simp
  · exact flatten_chunksOf (by decide) bytes

theorem length_of_mem_buildWriteStdinChunks {bytes c : List UInt8}
    (hc : c ∈ buildWriteStdinChunks bytes) : c.length ≤ writeStdinChunk := by
  unfold buildWriteStdinChunks at hc
  split_ifs at hc with h
  · obtain rfl := List.mem_singleton.1 hc
    exact h
  · exact length_of_mem_chunksOf hc

theorem buildWriteStdinChunks_ne_nil (bytes : List UInt8) : buildWriteStdinChunks bytes ≠ [] := by
  unfold buildWriteStdinChunks
  split_ifs with h
  · simp
  · intro hnil
    have hflat := flatten_chunksOf (n := writeStdinChunk) (by decide) bytes
    rw [hnil] at hflat
    simp [← hflat] at h

theorem buildWriteStdinChunks_replicate (a : UInt8) :
    buildWriteStdinChunks (List.replicate (writeStdinChunk + 1) a)
      = [List.replicate writeStdinChunk a, [a]] := by
  rw [buildWriteStdinChunks, if_neg (by rw [List.length_replicate]; omega)]
  exact chunksOf_replicate_succ (by decide) a

/-- `Frame::Request { id, req: Request::WriteStdin { session_id, bytes } }`. -/
structure WriteStdinRequest where
  id : ℕ
  sessionId : String
  bytes : List UInt8
  deriving DecidableEq

/-- The request as `serde` describes it: enum variants are maps from their names, and the bytes are
an array of integers. -/
def WriteStdinRequest.toCbor (r : WriteStdinRequest) : List UInt8 :=
  Cbor.map [(Cbor.text "Request", Cbor.map [
    (Cbor.text "id", Cbor.uint r.id),
    (Cbor.text "req", Cbor.map [(Cbor.text "WriteStdin", Cbor.map [
      (Cbor.text "session_id", Cbor.text r.sessionId),
      (Cbor.text "bytes", Cbor.array (r.bytes.map fun b => Cbor.uint b.toNat))])])])]

/-- The codec of the requests, whatever reads them. -/
def writeStdinCodec (fromReader : List UInt8 → Except String WriteStdinRequest) :
    Codec WriteStdinRequest :=
  ⟨fun r => .ok r.toCbor, fromReader⟩

/-- The longest session id for which a chunk is certain to fit a frame; the daemon's have 36
bytes. -/
def sessionIdMax : ℕ := maxFrameLen - 2 * writeStdinChunk - 128

theorem length_toCbor_le (r : WriteStdinRequest) :
    r.toCbor.length ≤ 128 + r.sessionId.utf8ByteSize + 2 * r.bytes.length := by
  have hid : (Cbor.uint r.id).length ≤ 9 := Cbor.length_head_le 0 r.id
  have hsession := Cbor.length_text r.sessionId
  have hhead := Cbor.length_head_le 3 r.sessionId.utf8ByteSize
  have hbytes := Cbor.length_array_bytes_le r.bytes
  have hrequest : (Cbor.text "Request").length = 8 := by decide +kernel
  have hname : (Cbor.text "id").length = 3 := by decide +kernel
  have hreq : (Cbor.text "req").length = 4 := by decide +kernel
  have hwrite : (Cbor.text "WriteStdin").length = 11 := by decide +kernel
  have hkey : (Cbor.text "session_id").length = 11 := by decide +kernel
  have hbyteskey : (Cbor.text "bytes").length = 6 := by decide +kernel
  have hone : (Cbor.head 5 1).length = 1 := Cbor.length_head_of_lt_24 (by omega)
  have htwo : (Cbor.head 5 2).length = 1 := Cbor.length_head_of_lt_24 (by omega)
  simp only [WriteStdinRequest.toCbor, Cbor.map, List.length_append, List.length_cons,
    List.length_nil, List.flatMap_cons, List.flatMap_nil, List.append_nil]
  simp only [Nat.zero_add, Nat.reduceAdd, hone, htwo, hrequest, hname, hreq, hwrite, hkey,
    hbyteskey, hsession]
  omega

/-- A chunk fits a frame. -/
theorem encode_chunk (fromReader : List UInt8 → Except String WriteStdinRequest)
    {r : WriteStdinRequest} (hsession : r.sessionId.utf8ByteSize ≤ sessionIdMax)
    (hbytes : r.bytes.length ≤ writeStdinChunk) :
    ∃ frame, encodeCborFrame (writeStdinCodec fromReader) r = .ok frame
      ∧ frame.length ≤ 4 + maxFrameLen := by
  have hlength : r.toCbor.length ≤ maxFrameLen := by
    have hle := length_toCbor_le r
    have hmax : 2 * writeStdinChunk + 128 ≤ maxFrameLen := by decide
    unfold sessionIdMax at hsession
    omega
  refine ⟨u32ToLeBytes r.toCbor.length ++ r.toCbor, ?_, ?_⟩
  · simp only [encodeCborFrame, writeStdinCodec]
    rw [if_neg (by omega)]
  · rw [List.length_append, show (u32ToLeBytes r.toCbor.length).length = 4 from rfl]
    omega

end BuilderPro
