import BuilderPro.Protocol.Preamble

/-!
# The handshake

`handshake.rs` and `socket_client.rs`: the client writes its preamble, the daemon answers it, and
each reads the other's header and then as many bytes as the header says.  The two agree unless a
build string is too long for what is sent of it to be read back (`agrees_iff`).
-/

namespace BuilderPro

inductive ReadError
  | unexpectedEof
  | invalidData (message : String)
  deriving DecidableEq, Repr

/-- `to_io`. -/
def toIo (e : PreambleError) : ReadError := .invalidData e.display

/-- `read_exact`: the bytes, and what is left of the stream. -/
def readExact (n : ℕ) (stream : List UInt8) : Except ReadError (List UInt8 × List UInt8) :=
  if stream.length < n then .error .unexpectedEof else .ok (stream.take n, stream.drop n)

/-- The bytes of a build string of this length. -/
def readBuild (buildLen : ℕ) (stream : List UInt8) : Except ReadError (List UInt8 × List UInt8) :=
  if buildLen > 0 then readExact buildLen stream else .ok ([], stream)

def clientPreambleHeaderLen : ℕ := 4 + 2 + 2 + 2

def readClientPreamble (stream : List UInt8) : Except ReadError (ClientPreamble × List UInt8) := do
  let (header, stream) ← readExact clientPreambleHeaderLen stream
  let buildLen := (u16FromLeBytes ((header.drop 8).take 2)).toNat
  if buildLen > maxPreambleBuildLen then
    .error (.invalidData "preamble build string exceeds MAX_PREAMBLE_BUILD_LEN")
  else
    let (build, stream) ← readBuild buildLen stream
    let client ← (decodeClientPreamble (header ++ build)).mapError toIo
    return (client, stream)

/-- What the daemon is told, with what is left of its stream, and what it writes. -/
def serverHandshake (stream : List UInt8) (min max : UInt16) (build : String) :
    Except ReadError (Option UInt16 × List UInt8) × List UInt8 :=
  match readClientPreamble stream with
  | .error e => (.error e, [])
  | .ok (client, rest) =>
    match negotiate client.min client.max min max with
    | .accepted chosen _ =>
      (.ok (some chosen, rest), encodeDaemonReply (.accepted chosen build))
    | reply => (.ok (none, rest), encodeDaemonReply reply)

def readDaemonReply (stream : List UInt8) : Except ReadError (DaemonReply × List UInt8) := do
  let (header, stream) ← readExact (4 + 1 + 2 + 2) stream
  if (header.drop 4).head? = some 1 then
    let buildLen := (u16FromLeBytes ((header.drop 7).take 2)).toNat
    if buildLen > maxPreambleBuildLen then
      .error (.invalidData "daemon reply build string exceeds MAX_PREAMBLE_BUILD_LEN")
    else
      let (build, stream) ← readBuild buildLen stream
      let reply ← (decodeDaemonReply (header ++ build)).mapError toIo
      return (reply, stream)
  else
    let reply ← (decodeDaemonReply header).mapError toIo
    return (reply, stream)

/-- How a handshake fails on a connection that was made. -/
inductive HandshakeError
  | transientHandshake
  | incompatible (min max : UInt16)
  deriving DecidableEq, Repr

/-- `connect_and_handshake` past its write: the stream that is left to its frame reader. -/
def connectAndHandshake (stream : List UInt8) : Except HandshakeError (List UInt8) :=
  match readDaemonReply stream with
  | .error _ => .error .transientHandshake
  | .ok (.accepted _ _, rest) => .ok rest
  | .ok (.incompatible min max, _) => .error (.incompatible min max)

/-- Two peers, with the bytes each sends right behind the handshake. -/
structure Peers where
  client : ClientPreamble
  daemon : ClientPreamble
  clientFrames : List UInt8
  daemonFrames : List UInt8

namespace Peers

variable (h : Peers)

/-- What the daemon reads. -/
def toDaemon : List UInt8 := encodeClientPreamble h.client ++ h.clientFrames

/-- What the daemon is told, and what it writes. -/
def server : Except ReadError (Option UInt16 × List UInt8) × List UInt8 :=
  serverHandshake h.toDaemon h.daemon.min h.daemon.max h.daemon.build

/-- What the client reads: a daemon that has not accepted closes the connection. -/
def toClient : List UInt8 :=
  match h.server.1 with
  | .ok (some _, _) => h.server.2 ++ h.daemonFrames
  | _ => h.server.2

/-- A version both sides speak. -/
def Common (v : UInt16) : Prop :=
  (h.client.min ≤ v ∧ v ≤ h.client.max) ∧ h.daemon.min ≤ v ∧ v ≤ h.daemon.max

/-- How a handshake may end. -/
inductive Agrees : Prop
  | accepted (v : UInt16) (common : h.Common v) (greatest : ∀ u, h.Common u → u ≤ v)
    (preamble : readClientPreamble h.toDaemon = .ok (h.client, h.clientFrames))
    (server : h.server.1 = .ok (some v, h.clientFrames))
    (reply : readDaemonReply h.toClient = .ok (.accepted v h.daemon.build, h.daemonFrames))
    (client : connectAndHandshake h.toClient = .ok h.daemonFrames)
  | incompatible (common : ∀ v, ¬ h.Common v)
    (preamble : readClientPreamble h.toDaemon = .ok (h.client, h.clientFrames))
    (server : h.server.1 = .ok (none, h.clientFrames))
    (client : connectAndHandshake h.toClient
      = .error (.incompatible h.daemon.min h.daemon.max))
  | failed (e : ReadError) (server : h.server.1 = .error e)
    (client : connectAndHandshake h.toClient = .error .transientHandshake)

end Peers

/-! ## The two readers -/

theorem readExact_append {n : ℕ} {l r : List UInt8} (h : l.length = n) :
    readExact n (l ++ r) = .ok (l, r) := by
  rw [readExact, if_neg (by rw [List.length_append]; omega), List.take_left' h, List.drop_left' h]

theorem readBuild_eq {n : ℕ} {stream : List UInt8} (h : n ≤ stream.length) :
    readBuild n stream = .ok (stream.take n, stream.drop n) := by
  rw [readBuild]
  split_ifs with hn
  · rw [readExact, if_neg (Nat.not_lt.2 h)]
  · obtain rfl : n = 0 := by omega
    rfl

variable {min max chosen : UInt16} {build : String} {rest : List UInt8}

/-- What is read of a build string, with what is left behind it. -/
theorem sentBuild_append (build : String) (rest : List UInt8) :
    (Utf8.bytes build ++ rest).take (sentLen build) = sentBuild build ∧
      (Utf8.bytes build ++ rest).drop (sentLen build)
        = (Utf8.bytes build).drop (sentLen build) ++ rest :=
  ⟨List.take_append_of_le_length (sentLen_le build),
    List.drop_append_of_le_length (sentLen_le build)⟩

theorem decode_sent {α : Type} (f : String → α) :
    (if (lenAsU16 build).toNat > maxPreambleBuildLen then .error .buildTooLong
      else if (sentBuild build).length < (lenAsU16 build).toNat then .error .shortRead
      else
        match Utf8.decode ((sentBuild build).take (lenAsU16 build).toNat) with
        | none => .error .malformed
        | some b => .ok (f b) : Except PreambleError α)
      = if sentLen build > maxPreambleBuildLen then .error .buildTooLong
        else
          match Utf8.decode (sentBuild build) with
          | none => .error .malformed
          | some b => .ok (f b) := by
  have hlen : (sentBuild build).length = sentLen build := length_sentBuild
  rw [toNat_lenAsU16, if_neg (Nat.not_lt.2 (Nat.le_of_eq hlen.symm)),
    List.take_of_length_le (Nat.le_of_eq hlen)]

theorem readClientPreamble_encode (p : ClientPreamble) (rest : List UInt8) :
    readClientPreamble (encodeClientPreamble p ++ rest)
      = if sentLen p.build > maxPreambleBuildLen then
          .error (.invalidData "preamble build string exceeds MAX_PREAMBLE_BUILD_LEN")
        else
          match Utf8.decode (sentBuild p.build) with
          | none => .error (toIo .malformed)
          | some build =>
            .ok (⟨p.min, p.max, build⟩, (Utf8.bytes p.build).drop (sentLen p.build) ++ rest) := by
  obtain ⟨htake, hdrop⟩ := sentBuild_append p.build rest
  have hsize : sentLen p.build ≤ (Utf8.bytes p.build ++ rest).length := by
    have := sentLen_le p.build
    rw [List.length_append]
    omega
  have hread : readExact clientPreambleHeaderLen (encodeClientPreamble p ++ rest)
      = .ok (clientHeader p.min p.max (lenAsU16 p.build), Utf8.bytes p.build ++ rest) := by
    rw [encodeClientPreamble_eq, List.append_assoc]
    exact readExact_append rfl
  have hlen : u16FromLeBytes (((clientHeader p.min p.max (lenAsU16 p.build)).drop 8).take 2)
      = lenAsU16 p.build := u16FromLeBytes_toLeBytes _
  have hdecode := (@decode_clientHeader p.min p.max (lenAsU16 p.build) (sentBuild p.build)).trans
    (decode_sent (ClientPreamble.mk p.min p.max))
  simp only [readClientPreamble, hread, hlen, toNat_lenAsU16, bind, Except.bind,
    readBuild_eq hsize, htake, hdrop, hdecode]
  split_ifs with hmax
  · rfl
  · rcases Utf8.decode (sentBuild p.build) with _ | b <;> rfl

theorem readDaemonReply_accepted (chosen : UInt16) (build : String) (rest : List UInt8) :
    readDaemonReply (encodeDaemonReply (.accepted chosen build) ++ rest)
      = if sentLen build > maxPreambleBuildLen then
          .error (.invalidData "daemon reply build string exceeds MAX_PREAMBLE_BUILD_LEN")
        else
          match Utf8.decode (sentBuild build) with
          | none => .error (toIo .malformed)
          | some b =>
            .ok (.accepted chosen b, (Utf8.bytes build).drop (sentLen build) ++ rest) := by
  obtain ⟨htake, hdrop⟩ := sentBuild_append build rest
  have hsize : sentLen build ≤ (Utf8.bytes build ++ rest).length := by
    have := sentLen_le build
    rw [List.length_append]
    omega
  have hread : readExact (4 + 1 + 2 + 2) (encodeDaemonReply (.accepted chosen build) ++ rest)
      = .ok (replyHeader 1 chosen (lenAsU16 build), Utf8.bytes build ++ rest) := by
    rw [encodeDaemonReply_accepted, List.append_assoc]
    exact readExact_append rfl
  have hresult : ((replyHeader 1 chosen (lenAsU16 build)).drop 4).head? = some 1 := rfl
  have hlen : u16FromLeBytes (((replyHeader 1 chosen (lenAsU16 build)).drop 7).take 2)
      = lenAsU16 build := u16FromLeBytes_toLeBytes _
  have hdecode := (@decode_replyAccepted (lenAsU16 build) chosen (sentBuild build)).trans
    (decode_sent (DaemonReply.accepted chosen))
  simp only [readDaemonReply, hread, hresult, hlen, toNat_lenAsU16, bind, Except.bind,
    readBuild_eq hsize, htake, hdrop, hdecode, if_true]
  split_ifs with hmax
  · rfl
  · rcases Utf8.decode (sentBuild build) with _ | b <;> rfl

theorem readDaemonReply_incompatible (min max : UInt16) (rest : List UInt8) :
    readDaemonReply (encodeDaemonReply (.incompatible min max) ++ rest)
      = .ok (.incompatible min max, rest) := by
  have hread : readExact (4 + 1 + 2 + 2) (encodeDaemonReply (.incompatible min max) ++ rest)
      = .ok (replyHeader 0 min max, rest) := readExact_append rfl
  have hresult : ((replyHeader 0 min max).drop 4).head? = some 0 := rfl
  have hdecode := @decode_replyIncompatible min max []
  rw [List.append_nil] at hdecode
  simp only [readDaemonReply, hread, hresult, hdecode, bind, Except.bind]
  rfl

theorem readDaemonReply_nil : readDaemonReply [] = .error .unexpectedEof := rfl

/-! ## Agreement -/

namespace Peers

variable {h : Peers} {v : UInt16}

theorem max_le_iff_u16 (a b c : UInt16) : Max.max a b ≤ c ↔ a ≤ c ∧ b ≤ c := by
  show (if a ≤ b then b else a) ≤ c ↔ _
  simp only [UInt16.le_iff_toNat_le]
  split_ifs <;> omega

theorem common_iff : h.Common v ↔ Max.max h.client.min h.daemon.min ≤ v ∧
    v ≤ Min.min h.client.max h.daemon.max := by
  rw [max_le_iff_u16, Std.le_min_iff, Common]
  tauto

/-- The ranges meet exactly when the greatest version they may share is in both. -/
theorem negotiate_accepted (hv : h.Common v) :
    ∃ w, h.Common w ∧ (∀ u, h.Common u → u ≤ w) ∧
      negotiate h.client.min h.client.max h.daemon.min h.daemon.max = .accepted w "" := by
  obtain ⟨hmin, hmax⟩ := common_iff.1 hv
  have hle := UInt16.le_trans hmin hmax
  refine ⟨Min.min h.client.max h.daemon.max, common_iff.2 ⟨hle, UInt16.le_refl _⟩,
    fun u hu => (common_iff.1 hu).2, ?_⟩
  rw [negotiate]
  exact if_pos hle

theorem negotiate_incompatible (hno : ∀ v, ¬ h.Common v) :
    negotiate h.client.min h.client.max h.daemon.min h.daemon.max
      = .incompatible h.daemon.min h.daemon.max := by
  rw [negotiate]
  exact if_neg fun hle => hno _ (common_iff.2 ⟨hle, UInt16.le_refl _⟩)

/-- What is sent of the client's build string is too long for a preamble, or is not UTF-8. -/
def Refused (h : Peers) : Prop :=
  sentLen h.client.build > maxPreambleBuildLen ∨ Utf8.decode (sentBuild h.client.build) = none

/-- The strings that are read back are those of at most 256 bytes. -/
theorem sent_iff {build : String} :
    ¬ sentLen build > maxPreambleBuildLen ∧ Utf8.decode (sentBuild build) = some build ↔
      (Utf8.bytes build).length ≤ maxPreambleBuildLen := by
  rw [decode_sentBuild, sentLen, maxPreambleBuildLen]
  omega

theorem drop_sentLen {build : String} (hlen : (Utf8.bytes build).length ≤ maxPreambleBuildLen)
    (rest : List UInt8) : (Utf8.bytes build).drop (sentLen build) ++ rest = rest := by
  have hlt : (Utf8.bytes build).length < 65536 := by
    rw [maxPreambleBuildLen] at hlen
    omega
  rw [sentLen, Nat.mod_eq_of_lt hlt, List.drop_length, List.nil_append]

theorem preamble_iff : readClientPreamble h.toDaemon = .ok (h.client, h.clientFrames) ↔
    (Utf8.bytes h.client.build).length ≤ maxPreambleBuildLen := by
  rw [toDaemon, readClientPreamble_encode]
  constructor
  · intro heq
    refine sent_iff.1 ?_
    split_ifs at heq with hmax
    split at heq
    · cases heq
    · rename_i b hb
      rw [Except.ok.injEq, Prod.mk.injEq] at heq
      rw [← heq.1] at hb hmax ⊢
      exact ⟨hmax, hb⟩
  · intro hlen
    obtain ⟨hmax, hb⟩ := sent_iff.2 hlen
    rw [if_neg hmax, hb]
    simp only [drop_sentLen hlen]

theorem reply_iff {build : String} {rest : List UInt8} :
    readDaemonReply (encodeDaemonReply (.accepted v build) ++ rest)
        = .ok (.accepted v build, rest) ↔
      (Utf8.bytes build).length ≤ maxPreambleBuildLen := by
  rw [readDaemonReply_accepted]
  constructor
  · intro heq
    refine sent_iff.1 ?_
    split_ifs at heq with hmax
    split at heq
    · cases heq
    · rename_i b hb
      rw [Except.ok.injEq, Prod.mk.injEq, DaemonReply.accepted.injEq] at heq
      rw [heq.1.2] at hb
      exact ⟨hmax, hb⟩
  · intro hlen
    obtain ⟨hmax, hb⟩ := sent_iff.2 hlen
    rw [if_neg hmax, hb]
    simp only [drop_sentLen hlen]

theorem server_of_error {e : ReadError} (he : readClientPreamble h.toDaemon = .error e) :
    h.server = (.error e, []) := by rw [server, serverHandshake, he]

theorem server_of_ok {client : ClientPreamble} {rest : List UInt8}
    (hok : readClientPreamble h.toDaemon = .ok (client, rest)) :
    ∃ chosen, h.server.1 = .ok (chosen, rest) := by
  rw [server, serverHandshake, hok]
  simp only
  rcases negotiate client.min client.max h.daemon.min h.daemon.max with ⟨v, b⟩ | ⟨lo, hi⟩
  · exact ⟨some v, rfl⟩
  · exact ⟨none, rfl⟩

theorem refused_iff : h.Refused ↔ ∃ e, readClientPreamble h.toDaemon = .error e := by
  rw [toDaemon, readClientPreamble_encode, Refused]
  by_cases hmax : sentLen h.client.build > maxPreambleBuildLen
  · simp [hmax]
  · rw [if_neg hmax]
    rcases hdecode : Utf8.decode (sentBuild h.client.build) with _ | b
    · simp
    · simp [hmax]

theorem server_error_iff : (∃ e, h.server.1 = .error e) ↔ h.Refused := by
  rw [refused_iff]
  constructor
  · rintro ⟨e, he⟩
    rcases hread : readClientPreamble h.toDaemon with e' | ⟨client, rest⟩
    · exact ⟨e', rfl⟩
    · obtain ⟨chosen, hok⟩ := server_of_ok hread
      rw [hok] at he
      cases he
  · rintro ⟨e, he⟩
    exact ⟨e, by rw [server_of_error he]⟩

/-- A daemon that refuses the preamble closes the connection, and the client finds it closed. -/
theorem failed_of_refused (hr : h.Refused) : h.Agrees := by
  obtain ⟨e, he⟩ := refused_iff.1 hr
  have hserver := server_of_error he
  refine .failed e (by rw [hserver]) ?_
  rw [toClient, hserver, connectAndHandshake, readDaemonReply_nil]

section Read

variable (hlen : (Utf8.bytes h.client.build).length ≤ maxPreambleBuildLen)
include hlen

theorem server_accepted (hv : h.Common v) : ∃ w, h.Common w ∧ (∀ u, h.Common u → u ≤ w) ∧
    h.server = (.ok (some w, h.clientFrames), encodeDaemonReply (.accepted w h.daemon.build)) := by
  obtain ⟨w, hw, hgreatest, hnegotiate⟩ := negotiate_accepted hv
  refine ⟨w, hw, hgreatest, ?_⟩
  rw [server, serverHandshake, preamble_iff.2 hlen]
  simp only [hnegotiate]

theorem server_incompatible (hno : ∀ v, ¬ h.Common v) :
    h.server = (.ok (none, h.clientFrames),
      encodeDaemonReply (.incompatible h.daemon.min h.daemon.max)) := by
  rw [server, serverHandshake, preamble_iff.2 hlen]
  simp only [negotiate_incompatible hno]

end Read

/-- The two agree, and read what the other wrote, unless a build string is cut: exactly when the
client's is one the daemon reads back and so is the daemon's, if it is sent, or when the daemon
refuses what it reads. -/
theorem agrees_iff (h : Peers) : h.Agrees ↔ h.Refused ∨
    (Utf8.bytes h.client.build).length ≤ maxPreambleBuildLen ∧
      ((∃ v, h.Common v) → (Utf8.bytes h.daemon.build).length ≤ maxPreambleBuildLen) := by
  constructor
  · intro hagrees
    cases hagrees with
    | accepted v common greatest preamble server reply client =>
      refine .inr ⟨preamble_iff.1 preamble, fun _ => ?_⟩
      obtain ⟨w, hw, -, hserver⟩ := server_accepted (preamble_iff.1 preamble) common
      rw [hserver] at server
      obtain rfl : w = v := by simpa using server
      rw [toClient, hserver] at reply
      exact reply_iff.1 reply
    | incompatible common preamble server client =>
      exact .inr ⟨preamble_iff.1 preamble, fun ⟨v, hv⟩ => absurd hv (common v)⟩
    | failed e server client => exact .inl (server_error_iff.1 ⟨e, server⟩)
  · rintro (hr | ⟨hlen, hdaemon⟩)
    · exact failed_of_refused hr
    · by_cases hcommon : ∃ v, h.Common v
      · obtain ⟨v, hv⟩ := hcommon
        obtain ⟨w, hw, hgreatest, hserver⟩ := server_accepted hlen hv
        have hreply := (@reply_iff w h.daemon.build h.daemonFrames).2 (hdaemon ⟨v, hv⟩)
        have htoClient : h.toClient
            = encodeDaemonReply (.accepted w h.daemon.build) ++ h.daemonFrames := by
          rw [toClient, hserver]
        refine .accepted w hw hgreatest (preamble_iff.2 hlen) (by rw [hserver]) ?_ ?_
        · rw [htoClient, hreply]
        · rw [htoClient, connectAndHandshake, hreply]
      · have hno : ∀ v, ¬ h.Common v := fun v hv => hcommon ⟨v, hv⟩
        have hserver := server_incompatible hlen hno
        have hreply := readDaemonReply_incompatible h.daemon.min h.daemon.max []
        rw [List.append_nil] at hreply
        refine .incompatible hno (preamble_iff.2 hlen) (by rw [hserver]) ?_
        rw [toClient, hserver, connectAndHandshake, hreply]

/-- What a decoder accepts begins with the encoding of what it reads; and the two peers end as a
handshake may exactly when no build string that is read is longer than a preamble takes. -/
theorem handshake_exact (h : Peers) :
    (∀ bytes p, decodeClientPreamble bytes = .ok p → encodeClientPreamble p <+: bytes) ∧
    (∀ bytes r, decodeDaemonReply bytes = .ok r → encodeDaemonReply r <+: bytes) ∧
    (h.Agrees ↔ h.Refused ∨
      (Utf8.bytes h.client.build).length ≤ maxPreambleBuildLen ∧
        ((∃ v, h.Common v) → (Utf8.bytes h.daemon.build).length ≤ maxPreambleBuildLen)) :=
  ⟨fun _ _ => encode_of_decodeClientPreamble, fun _ _ => encode_of_decodeDaemonReply, agrees_iff h⟩

/-- Peers that speak version 3, a client with this build string. -/
def withBuild (build : String) : Peers := ⟨⟨3, 3, build⟩, ⟨3, 3, "0.9.0"⟩, [], []⟩

/-- Of a build string of 65536 bytes the length that is sent is 0. -/
theorem misread_of_length {build : String} (hlength : (Utf8.bytes build).length = 65536) :
    ¬ (withBuild build).Agrees ∧
      readClientPreamble (withBuild build).toDaemon = .ok (⟨3, 3, ""⟩, Utf8.bytes build) := by
  have hsent : sentLen build = 0 := by rw [sentLen, hlength]
  have hdecode : Utf8.decode (sentBuild build) = some "" := by
    rw [sentBuild, hsent, List.take_zero, Utf8.decode_eq_some, Utf8.bytes_eq]
    rfl
  constructor
  · rw [agrees_iff, Refused]
    simp [withBuild, hsent, hdecode, hlength, maxPreambleBuildLen]
  · rw [toDaemon, readClientPreamble_encode]
    simp [withBuild, hsent, hdecode]

/-- The daemon reads an empty build string and is left with all of it in front of the frames. -/
theorem longBuild_misread :
    ¬ (withBuild (String.ofList (List.replicate 65536 'a'))).Agrees ∧
      readClientPreamble (withBuild (String.ofList (List.replicate 65536 'a'))).toDaemon
        = .ok (⟨3, 3, ""⟩, Utf8.bytes (String.ofList (List.replicate 65536 'a'))) :=
  misread_of_length (Utf8.length_bytes_replicate (by decide) 65536)

end Peers

end BuilderPro
