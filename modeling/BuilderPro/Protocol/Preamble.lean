import BuilderPro.Lib.Utf8
import BuilderPro.Protocol.Framing

/-!
# The preamble

`preamble.rs`: the first bytes of a connection, before any frame.  All integers are little-endian,
and the length of a build string is sent in 16 bits (`sentLen`): past them the encoders send the
length cut down in front of the whole string, and what is decoded is not what was encoded.
-/

namespace BuilderPro

def u16ToLeBytes (n : UInt16) : List UInt8 := [UInt8.ofNat n.toNat, UInt8.ofNat (n.toNat / 256)]

def u16FromLeBytes (bytes : List UInt8) : UInt16 :=
  UInt16.ofNat (bytes.foldr (fun b n => b.toNat + 256 * n) 0)

def preambleMagic : ℕ := 0x42504141

def maxPreambleBuildLen : ℕ := 256

structure ClientPreamble where
  min : UInt16
  max : UInt16
  build : String
  deriving DecidableEq, Repr

inductive DaemonReply
  | accepted (chosen : UInt16) (build : String)
  | incompatible (min max : UInt16)
  deriving DecidableEq, Repr

inductive PreambleError
  | badMagic
  | buildTooLong
  | shortRead
  | malformed
  deriving DecidableEq, Repr

def PreambleError.display : PreambleError → String
  | .badMagic => "preamble magic mismatch"
  | .buildTooLong => "preamble build string exceeds 256 bytes"
  | .shortRead => "preamble buffer too short"
  | .malformed => "preamble malformed"

def headerLen : ℕ := 4 + 2 + 2 + 2

def replyAcceptedHeaderLen : ℕ := 4 + 1 + 2 + 2

def replyIncompatibleLen : ℕ := 4 + 1 + 2 + 2

/-- `build_bytes.len() as u16`. -/
def lenAsU16 (build : String) : UInt16 := UInt16.ofNat (Utf8.bytes build).length

def encodeClientPreamble (p : ClientPreamble) : List UInt8 :=
  u32ToLeBytes preambleMagic ++ u16ToLeBytes p.min ++ u16ToLeBytes p.max
    ++ u16ToLeBytes (lenAsU16 p.build) ++ Utf8.bytes p.build

def decodeClientPreamble (bytes : List UInt8) : Except PreambleError ClientPreamble :=
  if bytes.length < headerLen then .error .shortRead
  else if u32FromLeBytes (bytes.take 4) ≠ preambleMagic then .error .badMagic
  else
    let min := u16FromLeBytes ((bytes.drop 4).take 2)
    let max := u16FromLeBytes ((bytes.drop 6).take 2)
    let buildLen := (u16FromLeBytes ((bytes.drop 8).take 2)).toNat
    if buildLen > maxPreambleBuildLen then .error .buildTooLong
    else if bytes.length < headerLen + buildLen then .error .shortRead
    else
      match Utf8.decode ((bytes.drop headerLen).take buildLen) with
      | none => .error .malformed
      | some build => .ok ⟨min, max, build⟩

def encodeDaemonReply : DaemonReply → List UInt8
  | .accepted chosen build =>
    u32ToLeBytes preambleMagic ++ [1] ++ u16ToLeBytes chosen
      ++ u16ToLeBytes (lenAsU16 build) ++ Utf8.bytes build
  | .incompatible min max =>
    u32ToLeBytes preambleMagic ++ [0] ++ u16ToLeBytes min ++ u16ToLeBytes max

def decodeDaemonReply (bytes : List UInt8) : Except PreambleError DaemonReply :=
  if bytes.length < 4 + 1 then .error .shortRead
  else if u32FromLeBytes (bytes.take 4) ≠ preambleMagic then .error .badMagic
  else
    match (bytes.drop 4).head? with
    | some 1 =>
      if bytes.length < replyAcceptedHeaderLen then .error .shortRead
      else
        let chosen := u16FromLeBytes ((bytes.drop 5).take 2)
        let buildLen := (u16FromLeBytes ((bytes.drop 7).take 2)).toNat
        if buildLen > maxPreambleBuildLen then .error .buildTooLong
        else if bytes.length < replyAcceptedHeaderLen + buildLen then .error .shortRead
        else
          match Utf8.decode ((bytes.drop replyAcceptedHeaderLen).take buildLen) with
          | none => .error .malformed
          | some build => .ok (.accepted chosen build)
    | some 0 =>
      if bytes.length < replyIncompatibleLen then .error .shortRead
      else
        let min := u16FromLeBytes ((bytes.drop 5).take 2)
        let max := u16FromLeBytes ((bytes.drop 7).take 2)
        .ok (.incompatible min max)
    | _ => .error .malformed

/-- The version both sides can speak; the caller fills in the build string. -/
def negotiate (clientMin clientMax daemonMin daemonMax : UInt16) : DaemonReply :=
  let chosen := min clientMax daemonMax
  let floor := max clientMin daemonMin
  if floor ≤ chosen then .accepted chosen ""
  else .incompatible daemonMin daemonMax

/-! ## Integers in bytes -/

@[simp] theorem u16FromLeBytes_toLeBytes (n : UInt16) : u16FromLeBytes (u16ToLeBytes n) = n := by
  have hn := n.toNat_lt
  apply UInt16.toNat_inj.1
  simp [u16FromLeBytes, u16ToLeBytes]
  omega

theorem u16ToLeBytes_fromLeBytes (a b : UInt8) : u16ToLeBytes (u16FromLeBytes [a, b]) = [a, b] := by
  have ha := a.toNat_lt
  have hb := b.toNat_lt
  simp only [u16ToLeBytes, u16FromLeBytes, List.foldr, List.cons.injEq, and_true,
    ← UInt8.toNat_inj, UInt8.toNat_ofNat', UInt16.toNat_ofNat']
  omega

theorem u32ToLeBytes_fromLeBytes (a b c d : UInt8) :
    u32ToLeBytes (u32FromLeBytes [a, b, c, d]) = [a, b, c, d] := by
  have ha := a.toNat_lt
  have hb := b.toNat_lt
  have hc := c.toNat_lt
  have hd := d.toNat_lt
  simp only [u32ToLeBytes, u32FromLeBytes, List.foldr, List.cons.injEq, and_true,
    ← UInt8.toNat_inj, UInt8.toNat_ofNat']
  omega

/-! ## The length that is sent -/

/-- What the 16 bits of the length say. -/
def sentLen (build : String) : ℕ := (Utf8.bytes build).length % 65536

/-- The bytes that a reader takes for the build string. -/
def sentBuild (build : String) : List UInt8 := (Utf8.bytes build).take (sentLen build)

variable {build : String}

theorem toNat_lenAsU16 : (lenAsU16 build).toNat = sentLen build := UInt16.toNat_ofNat'

theorem sentLen_le (build : String) : sentLen build ≤ (Utf8.bytes build).length := Nat.mod_le _ _

@[simp] theorem length_sentBuild : (sentBuild build).length = sentLen build :=
  List.length_take_of_le (sentLen_le build)

/-- Below 65536 bytes the length is the string's own. -/
theorem sentBuild_of_lt (h : (Utf8.bytes build).length < 65536) :
    sentBuild build = Utf8.bytes build := by
  rw [sentBuild, sentLen, Nat.mod_eq_of_lt h, List.take_length]

/-- What is sent reads as the string itself only if none of it is cut off. -/
theorem decode_sentBuild : Utf8.decode (sentBuild build) = some build ↔
    (Utf8.bytes build).length < 65536 := by
  rw [Utf8.decode_eq_some]
  constructor
  · intro h
    have hlen := congrArg List.length h
    rw [length_sentBuild, sentLen] at hlen
    omega
  · intro h
    rw [sentBuild_of_lt h]

/-! ## Headers -/

def clientHeader (min max len : UInt16) : List UInt8 :=
  u32ToLeBytes preambleMagic ++ u16ToLeBytes min ++ u16ToLeBytes max ++ u16ToLeBytes len

/-- The header of a reply whose `result` byte is this. -/
def replyHeader (result : UInt8) (a b : UInt16) : List UInt8 :=
  u32ToLeBytes preambleMagic ++ [result] ++ u16ToLeBytes a ++ u16ToLeBytes b

variable {min max len chosen : UInt16} {body bytes : List UInt8}

theorem encodeClientPreamble_eq (p : ClientPreamble) : encodeClientPreamble p
    = clientHeader p.min p.max (lenAsU16 p.build) ++ Utf8.bytes p.build := rfl

theorem encodeDaemonReply_accepted : encodeDaemonReply (.accepted chosen build)
    = replyHeader 1 chosen (lenAsU16 build) ++ Utf8.bytes build := rfl

theorem magic_fromLeBytes : u32FromLeBytes (u32ToLeBytes preambleMagic) = preambleMagic := by
  decide

theorem decode_clientHeader : decodeClientPreamble (clientHeader min max len ++ body)
    = if len.toNat > maxPreambleBuildLen then .error .buildTooLong
      else if body.length < len.toNat then .error .shortRead
      else
        match Utf8.decode (body.take len.toNat) with
        | none => .error .malformed
        | some build => .ok ⟨min, max, build⟩ := by
  have hmagic : (clientHeader min max len ++ body).take 4 = u32ToLeBytes preambleMagic := rfl
  have hmin : ((clientHeader min max len ++ body).drop 4).take 2 = u16ToLeBytes min := rfl
  have hmax : ((clientHeader min max len ++ body).drop 6).take 2 = u16ToLeBytes max := rfl
  have hlen : ((clientHeader min max len ++ body).drop 8).take 2 = u16ToLeBytes len := rfl
  have hbody : (clientHeader min max len ++ body).drop headerLen = body := rfl
  have hsize : (clientHeader min max len ++ body).length = headerLen + body.length := by
    rw [List.length_append]
    rfl
  rw [decodeClientPreamble, hsize, if_neg (by omega), hmagic, magic_fromLeBytes, if_neg (by simp)]
  simp only [hmin, hmax, hlen, hbody, u16FromLeBytes_toLeBytes, Nat.add_lt_add_iff_left]

theorem decode_replyAccepted : decodeDaemonReply (replyHeader 1 chosen len ++ body)
    = if len.toNat > maxPreambleBuildLen then .error .buildTooLong
      else if body.length < len.toNat then .error .shortRead
      else
        match Utf8.decode (body.take len.toNat) with
        | none => .error .malformed
        | some build => .ok (.accepted chosen build) := by
  have hmagic : (replyHeader 1 chosen len ++ body).take 4 = u32ToLeBytes preambleMagic := rfl
  have hresult : ((replyHeader 1 chosen len ++ body).drop 4).head? = some 1 := rfl
  have hchosen : ((replyHeader 1 chosen len ++ body).drop 5).take 2 = u16ToLeBytes chosen := rfl
  have hlen : ((replyHeader 1 chosen len ++ body).drop 7).take 2 = u16ToLeBytes len := rfl
  have hbody : (replyHeader 1 chosen len ++ body).drop replyAcceptedHeaderLen = body := rfl
  have hsize : (replyHeader 1 chosen len ++ body).length
      = replyAcceptedHeaderLen + body.length := by
    rw [List.length_append]
    rfl
  have hfive : ¬ replyAcceptedHeaderLen + body.length < 4 + 1 := by
    rw [replyAcceptedHeaderLen]
    omega
  rw [decodeDaemonReply, hsize, if_neg hfive, hmagic, magic_fromLeBytes, if_neg (by simp)]
  simp only [hresult]
  rw [if_neg (by omega)]
  simp only [hchosen, hlen, hbody, u16FromLeBytes_toLeBytes, Nat.add_lt_add_iff_left]

theorem decode_replyIncompatible :
    decodeDaemonReply (replyHeader 0 min max ++ body) = .ok (.incompatible min max) := by
  have hmagic : (replyHeader 0 min max ++ body).take 4 = u32ToLeBytes preambleMagic := rfl
  have hresult : ((replyHeader 0 min max ++ body).drop 4).head? = some 0 := rfl
  have hmin : ((replyHeader 0 min max ++ body).drop 5).take 2 = u16ToLeBytes min := rfl
  have hmax : ((replyHeader 0 min max ++ body).drop 7).take 2 = u16ToLeBytes max := rfl
  have hsize : (replyHeader 0 min max ++ body).length = replyIncompatibleLen + body.length := by
    rw [List.length_append]
    rfl
  have hfive : ¬ replyIncompatibleLen + body.length < 4 + 1 := by
    rw [replyIncompatibleLen]
    omega
  rw [decodeDaemonReply, hsize, if_neg hfive, hmagic, magic_fromLeBytes, if_neg (by simp)]
  simp only [hresult]
  rw [if_neg (by omega)]
  simp only [hmin, hmax, u16FromLeBytes_toLeBytes]

/-! ## What is decoded was encoded -/

/-- Bytes that begin as a client's preamble do. -/
theorem exists_clientHeader (hlen : headerLen ≤ bytes.length)
    (hmagic : u32FromLeBytes (bytes.take 4) = preambleMagic) :
    ∃ min max len body, bytes = clientHeader min max len ++ body := by
  rcases bytes with _ | ⟨a, _ | ⟨b, _ | ⟨c, _ | ⟨d, _ | ⟨e, _ | ⟨f, _ | ⟨g, _ | ⟨h, _ | ⟨i, _ |
    ⟨j, body⟩⟩⟩⟩⟩⟩⟩⟩⟩⟩
  iterate 10 simp [headerLen] at hlen
  have hm := u32ToLeBytes_fromLeBytes a b c d
  have hmagic : u32FromLeBytes [a, b, c, d] = preambleMagic := hmagic
  refine ⟨u16FromLeBytes [e, f], u16FromLeBytes [g, h], u16FromLeBytes [i, j], body, ?_⟩
  rw [clientHeader, u16ToLeBytes_fromLeBytes, u16ToLeBytes_fromLeBytes, u16ToLeBytes_fromLeBytes,
    ← hmagic, hm]
  rfl

theorem exists_replyHeader (hlen : replyAcceptedHeaderLen ≤ bytes.length)
    (hmagic : u32FromLeBytes (bytes.take 4) = preambleMagic) {r : UInt8}
    (hresult : (bytes.drop 4).head? = some r) :
    ∃ a b body, bytes = replyHeader r a b ++ body := by
  rcases bytes with _ | ⟨a, _ | ⟨b, _ | ⟨c, _ | ⟨d, _ | ⟨e, _ | ⟨f, _ | ⟨g, _ | ⟨h, _ | ⟨i,
    body⟩⟩⟩⟩⟩⟩⟩⟩⟩
  iterate 9 simp [replyAcceptedHeaderLen] at hlen
  obtain rfl : e = r := Option.some.inj hresult
  have hm := u32ToLeBytes_fromLeBytes a b c d
  have hmagic : u32FromLeBytes [a, b, c, d] = preambleMagic := hmagic
  refine ⟨u16FromLeBytes [f, g], u16FromLeBytes [h, i], body, ?_⟩
  rw [replyHeader, u16ToLeBytes_fromLeBytes, u16ToLeBytes_fromLeBytes, ← hmagic, hm]
  rfl

/-- A build string that was read has the length that was sent. -/
theorem lenAsU16_of_decode (hbody : len.toNat ≤ body.length)
    (h : Utf8.decode (body.take len.toNat) = some build) :
    lenAsU16 build = len ∧ Utf8.bytes build = body.take len.toNat := by
  have hbytes := Utf8.decode_eq_some.1 h
  refine ⟨?_, hbytes⟩
  rw [lenAsU16, hbytes, List.length_take_of_le hbody, UInt16.ofNat_toNat]

theorem encode_of_decodeClientPreamble {p : ClientPreamble}
    (h : decodeClientPreamble bytes = .ok p) : encodeClientPreamble p <+: bytes := by
  have h' := h
  rw [decodeClientPreamble] at h'
  split_ifs at h' with hlen hmagic
  obtain ⟨min, max, len, body, rfl⟩ := exists_clientHeader (Nat.le_of_not_lt hlen)
    (not_not.1 hmagic)
  rw [decode_clientHeader] at h
  split_ifs at h with hmax hshort
  split at h
  · cases h
  · rename_i build hbuild
    cases h
    obtain ⟨heq, hbytes⟩ := lenAsU16_of_decode (Nat.le_of_not_lt hshort) hbuild
    rw [encodeClientPreamble_eq, heq, hbytes]
    exact List.prefix_append_right_inj _ |>.2 (List.take_prefix _ _)

theorem encode_of_decodeDaemonReply {r : DaemonReply} (h : decodeDaemonReply bytes = .ok r) :
    encodeDaemonReply r <+: bytes := by
  have h' := h
  rw [decodeDaemonReply] at h'
  by_cases hfive : bytes.length < 4 + 1
  · rw [if_pos hfive] at h'
    cases h'
  by_cases hmagic : u32FromLeBytes (bytes.take 4) = preambleMagic
  swap
  · rw [if_neg hfive, if_pos hmagic] at h'
    cases h'
  rw [if_neg hfive, if_neg (not_not.2 hmagic)] at h'
  split at h'
  · rename_i hresult
    split_ifs at h' with hlen
    obtain ⟨chosen, len, body, rfl⟩ := exists_replyHeader (Nat.le_of_not_lt hlen) hmagic hresult
    rw [decode_replyAccepted] at h
    split_ifs at h with hmax hshort
    split at h
    · cases h
    · rename_i build hbuild
      cases h
      obtain ⟨heq, hbytes⟩ := lenAsU16_of_decode (Nat.le_of_not_lt hshort) hbuild
      rw [encodeDaemonReply_accepted, heq, hbytes]
      exact List.prefix_append_right_inj _ |>.2 (List.take_prefix _ _)
  · rename_i hresult
    split_ifs at h' with hlen
    obtain ⟨min, max, body, rfl⟩ := exists_replyHeader (Nat.le_of_not_lt hlen) hmagic hresult
    rw [decode_replyIncompatible] at h
    cases h
    exact List.prefix_append _ _
  · cases h'

end BuilderPro
