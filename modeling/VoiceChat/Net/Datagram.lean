import VoiceChat.KeyExchange
import VoiceChat.Latency
import VoiceChat.Net

/-!
# What a datagram is

The header and the payloads of JOIN, PING and KEY_EXCHANGE have a fixed width. Their
decoders look at that many bytes and at nothing behind them: they accept what begins with
an encoding, whatever follows, and refuse only what is too short (`Reads`). A datagram is a
header and a ciphertext, and the two can be told apart again; so a received packet and its
datagram determine each other (`datagrams_read`).
-/

set_option autoImplicit false

namespace VoiceChat

/-- The decoder reads an encoding off the front, and refuses what is too short for one. -/
def Reads {α : Type} (encode : α → Bytes) (decode : Bytes → Except Error α) (width : ℕ) : Prop :=
  ∀ data, (∀ a, decode data = .ok a ↔ ∃ rest, data = encode a ++ rest) ∧
    ((∃ e, decode data = .error e) ↔ data.length < width)

/-- A decoder that inverts the encoder reads it, when every string that is long enough begins
with an encoding. -/
theorem Reads.of_inverse {α : Type} {encode : α → Bytes} {decode : Bytes → Except Error α}
    {width : ℕ} (wide : ∀ a, (encode a).length = width)
    (inverts : ∀ a rest, decode (encode a ++ rest) = .ok a)
    (covers : ∀ data, width ≤ data.length → ∃ a rest, data = encode a ++ rest)
    (refuses : ∀ data, data.length < width → ∃ e, decode data = .error e) :
    Reads encode decode width := by
  intro data
  by_cases long : width ≤ data.length
  · obtain ⟨a, rest, rfl⟩ := covers data long
    refine ⟨fun a' => ⟨fun decoded => ?_, ?_⟩, ⟨?_, fun short => ?_⟩⟩
    · rw [inverts] at decoded
      cases decoded
      exact ⟨rest, rfl⟩
    · rintro ⟨rest', same⟩
      rw [same, inverts]
    · rintro ⟨e, refused⟩
      rw [inverts] at refused
      cases refused
    · exact absurd long (Nat.not_le.mpr short)
  · have short := Nat.lt_of_not_le long
    obtain ⟨e, refused⟩ := refuses data short
    refine ⟨fun a => ⟨fun decoded => ?_, ?_⟩, ⟨fun _ => short, fun _ => ⟨e, refused⟩⟩⟩
    · rw [refused] at decoded
      cases decoded
    · rintro ⟨rest, rfl⟩
      rw [List.length_append, wide] at long
      exact absurd (Nat.le_add_right width rest.length) long

/-- A header is read off the front. -/
theorem PacketHeader.reads :
    Reads (fun header => header.toBytes.toList) PacketHeader.fromBytes headerLen := by
  have bytes : ∀ header : PacketHeader, header.toBytes.toList =
      [header.pktType, header.peerId] ++ (be16 header.seqNum).toList ++
        (be32 header.counter).toList := fun _ => rfl
  refine Reads.of_inverse (fun _ => Vector.length_toList) ?_ ?_ ?_
  · intro header rest
    have inverted := PacketHeader.fromBytes_toBytes header
    obtain ⟨s0, s1, seq⟩ := vector_two (be16 header.seqNum)
    obtain ⟨c0, c1, c2, c3, ctr⟩ := vector_four (be32 header.counter)
    rw [bytes, seq, ctr] at inverted ⊢
    exact inverted
  · intro data long
    match data, long with
    | pktType :: peerId :: s0 :: s1 :: c0 :: c1 :: c2 :: c3 :: rest, _ =>
      refine ⟨⟨pktType, peerId, ofBe16 (twoBytes s0 s1), ofBe32 (fourBytes c0 c1 c2 c3)⟩, rest, ?_⟩
      rw [bytes, be16_ofBe16, be32_ofBe32]
      rfl
  · intro data short
    unfold PacketHeader.fromBytes
    split
    · simp only [headerLen, List.length_cons] at short
      omega
    · exact ⟨_, rfl⟩

/-- A JOIN payload is read off the front. -/
theorem JoinPayload.reads : Reads JoinPayload.toBytes JoinPayload.fromBytes 2 := by
  refine Reads.of_inverse (fun _ => Vector.length_toList) ?_ ?_ ?_
  · intro payload rest
    have inverted := JoinPayload.fromBytes_toBytes payload
    obtain ⟨p0, p1, port⟩ := vector_two (be16 payload.listenPort)
    rw [JoinPayload.toBytes, port] at inverted ⊢
    exact inverted
  · intro data long
    match data, long with
    | p0 :: p1 :: rest, _ =>
      refine ⟨⟨ofBe16 (twoBytes p0 p1)⟩, rest, ?_⟩
      rw [JoinPayload.toBytes, be16_ofBe16]
      rfl
  · intro data short
    unfold JoinPayload.fromBytes
    split
    · simp only [List.length_cons] at short
      omega
    · exact ⟨_, rfl⟩

/-- A PING or PONG payload is read off the front. -/
theorem PingPayload.reads : Reads PingPayload.toBytes PingPayload.fromBytes 4 := by
  refine Reads.of_inverse (fun _ => Vector.length_toList) ?_ ?_ ?_
  · intro payload rest
    obtain ⟨p0, p1, p2, p3, pingId⟩ := vector_four (be32 payload.pingId)
    have number := ofBe32_be32 payload.pingId
    rw [pingId] at number
    rw [PingPayload.toBytes, pingId]
    change Except.ok (PingPayload.mk (ofBe32 (fourBytes p0 p1 p2 p3))) = _
    rw [number]
  · intro data long
    match data, long with
    | p0 :: p1 :: p2 :: p3 :: rest, _ =>
      refine ⟨⟨ofBe32 (fourBytes p0 p1 p2 p3)⟩, rest, ?_⟩
      rw [PingPayload.toBytes, be32_ofBe32]
      rfl
  · intro data short
    unfold PingPayload.fromBytes
    split
    · simp only [List.length_cons] at short
      omega
    · exact ⟨_, rfl⟩

/-- A KEY_EXCHANGE payload is read off the front. -/
theorem KeyExchangePayload.reads :
    Reads KeyExchangePayload.toBytes KeyExchangePayload.fromBytes 32 := by
  refine Reads.of_inverse (fun _ => Vector.length_toList) ?_ ?_ ?_
  · intro payload rest
    rw [KeyExchangePayload.fromBytes, KeyExchangePayload.toBytes, splitVector_append]
  · intro data long
    cases split : splitVector 32 data with
    | none => exact absurd long (Nat.not_le.mpr (splitVector_eq_none.mp split))
    | some parts => exact ⟨⟨parts.1⟩, parts.2, splitVector_eq_some.mp split⟩
  · intro data short
    rw [KeyExchangePayload.fromBytes, splitVector_eq_none.mpr short]
    exact ⟨_, rfl⟩

/-- A datagram is a packet exactly when it is its header and its ciphertext. -/
theorem Packet.parse_eq_ok {data : Bytes} {packet : Packet} :
    Packet.parse data = .ok packet ↔ packet.headerBytes = packet.header.toBytes ∧
      data = buildWirePacket packet.headerBytes packet.ciphertext := by
  constructor
  · intro parsed
    unfold Packet.parse parseWirePacket at parsed
    cases split : splitVector headerLen data with
    | none =>
      rw [split] at parsed
      cases parsed
    | some parts =>
      obtain ⟨headerBytes, ciphertext⟩ := parts
      rw [split] at parsed
      dsimp only at parsed
      cases read : PacketHeader.fromBytes headerBytes.toList with
      | error e =>
        rw [read] at parsed
        cases parsed
      | ok header =>
        rw [read] at parsed
        cases parsed
        refine ⟨?_, splitVector_eq_some.mp split⟩
        obtain ⟨rest, bytes⟩ := ((PacketHeader.reads headerBytes.toList).1 header).mp read
        change headerBytes.toList = header.toBytes.toList ++ rest at bytes
        have lengths : 8 = 8 + rest.length := by
          have same := congrArg List.length bytes
          rwa [List.length_append, Vector.length_toList, Vector.length_toList] at same
        obtain rfl : rest = [] := List.eq_nil_of_length_eq_zero (by omega)
        rw [List.append_nil] at bytes
        exact Vector.toList_inj.mp bytes
  · rintro ⟨same, rfl⟩
    rw [same, Packet.parse_buildWirePacket, ← same]

/-- A datagram is refused exactly when it is too short for a header; that the header itself
is too short is never the reason. -/
theorem Packet.parse_eq_error {data : Bytes} {e : Error} :
    Packet.parse data = .error e ↔ data.length < headerLen ∧ e = .packetTooShort data.length := by
  unfold Packet.parse parseWirePacket
  cases split : splitVector headerLen data with
  | none =>
    have short := splitVector_eq_none.mp split
    dsimp only
    exact ⟨fun same => ⟨short, (Except.error.inj same).symm⟩, fun both => by rw [both.2]⟩
  | some parts =>
    have long := congrArg List.length (splitVector_eq_some.mp split)
    rw [List.length_append, Vector.length_toList] at long
    have read : ∀ e, PacketHeader.fromBytes parts.1.toList ≠ .error e := by
      intro e refused
      have short := (PacketHeader.reads parts.1.toList).2.mp ⟨e, refused⟩
      rw [Vector.length_toList] at short
      exact Nat.lt_irrefl _ short
    dsimp only
    cases header : PacketHeader.fromBytes parts.1.toList with
    | error e => exact absurd header (read e)
    | ok header => exact ⟨nofun, fun both => absurd both.1 (by omega)⟩

/-- **What is received is what was built.** A datagram gives a packet exactly when it is the
one that is built from the header and the ciphertext of that packet; it is refused exactly
when it is shorter than a header, with its length as the reason. The decoders of the header
and of the payloads of fixed width accept exactly what begins with an encoding, and refuse
only what is too short. -/
theorem datagrams_read :
    (∀ data packet, Packet.parse data = .ok packet ↔
      packet.headerBytes = packet.header.toBytes ∧
        data = buildWirePacket packet.headerBytes packet.ciphertext) ∧
    (∀ data e, Packet.parse data = .error e ↔
      data.length < headerLen ∧ e = .packetTooShort data.length) ∧
    Reads (fun header => header.toBytes.toList) PacketHeader.fromBytes headerLen ∧
    Reads JoinPayload.toBytes JoinPayload.fromBytes 2 ∧
    Reads PingPayload.toBytes PingPayload.fromBytes 4 ∧
    Reads KeyExchangePayload.toBytes KeyExchangePayload.fromBytes 32 :=
  ⟨fun _ _ => Packet.parse_eq_ok, fun _ _ => Packet.parse_eq_error, PacketHeader.reads,
    JoinPayload.reads, PingPayload.reads, KeyExchangePayload.reads⟩

end VoiceChat
