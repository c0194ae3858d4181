import VoiceChat.Error
import VoiceChat.Library.Bytes

/-!
# Packets on the wire

The eight-byte header, the framing of a datagram as header and ciphertext, and
the payloads of JOIN and PEER_LIST packets, each with its encoder and decoder.

The decoders invert the encoders: of the header (`PacketHeader.fromBytes_toBytes`),
of the framing (`parseWirePacket_buildWirePacket`) and of the peer list
(`PeerListPayload.fromBytes_toBytes`), which forgets the flow info and the scope
of IPv6 addresses.
-/

set_option autoImplicit false

namespace VoiceChat

/-! ## Addresses -/

abbrev SessionId := Vector UInt8 8

inductive IpAddr where
  | v4 (octets : Vector UInt8 4)
  | v6 (octets : Vector UInt8 16)
  deriving DecidableEq

def IpAddr.isUnspecified : IpAddr → Bool
  | .v4 octets => octets == Vector.replicate 4 0
  | .v6 octets => octets == Vector.replicate 16 0

inductive SocketAddr where
  | v4 (ip : Vector UInt8 4) (port : UInt16)
  | v6 (ip : Vector UInt8 16) (port : UInt16) (flowinfo scopeId : UInt32)
  deriving DecidableEq

namespace SocketAddr

def new : IpAddr → UInt16 → SocketAddr
  | .v4 octets, port => .v4 octets port
  | .v6 octets, port => .v6 octets port 0 0

def ip : SocketAddr → IpAddr
  | .v4 ip _ => .v4 ip
  | .v6 ip _ _ _ => .v6 ip

def port : SocketAddr → UInt16
  | .v4 _ port => port
  | .v6 _ port _ _ => port

/-- What a peer list keeps of an address. -/
def listed (addr : SocketAddr) : SocketAddr := new addr.ip addr.port

end SocketAddr

/-! ## The header -/

def pktAudio : UInt8 := 0x01
def pktJoin : UInt8 := 0x02
def pktHello : UInt8 := 0x03
def pktPeerList : UInt8 := 0x04
def pktKeepalive : UInt8 := 0x05
def pktHelloAck : UInt8 := 0x06
def pktPing : UInt8 := 0x07
def pktPong : UInt8 := 0x08
def pktKeyExchange : UInt8 := 0x09

abbrev headerLen : Nat := 8
/-- Well under the MTU. -/
def maxPacketLen : Nat := 1200

/-- The packet header. The counter is the sender's nonce counter, so that the
receiver can rebuild the nonce; it is authenticated with the rest of the
header. -/
structure PacketHeader where
  pktType : UInt8
  peerId : UInt8
  seqNum : UInt16
  counter : UInt32
  deriving DecidableEq

namespace PacketHeader

def toBytes (header : PacketHeader) : Vector UInt8 8 :=
  (#v[header.pktType, header.peerId] ++ be16 header.seqNum ++ be32 header.counter :
    Vector UInt8 (2 + 2 + 4))

def fromBytes : Bytes → Except Error PacketHeader
  | pktType :: peerId :: s0 :: s1 :: c0 :: c1 :: c2 :: c3 :: _ =>
      .ok {
        pktType := pktType
        peerId := peerId
        seqNum := ofBe16 (twoBytes s0 s1)
        counter := ofBe32 (fourBytes c0 c1 c2 c3) }
  | buf => .error (.headerTooShort buf.length)

theorem toBytes_inj {first second : PacketHeader} :
    first.toBytes = second.toBytes ↔ first = second := by
  constructor
  · intro same
    obtain ⟨start, counter⟩ := Vector.append_inj same
    obtain ⟨front, seqNum⟩ := Vector.append_inj start
    have front' : [first.pktType, first.peerId] = [second.pktType, second.peerId] :=
      congrArg Vector.toList front
    cases first
    cases second
    simp_all [be16_inj, be32_inj]
  · intro same
    rw [same]

/-- **The header survives the wire.** -/
theorem fromBytes_toBytes (header : PacketHeader) :
    fromBytes header.toBytes.toList = .ok header := by
  obtain ⟨s0, s1, seq⟩ := vector_two (be16 header.seqNum)
  obtain ⟨c0, c1, c2, c3, ctr⟩ := vector_four (be32 header.counter)
  have bytes : header.toBytes.toList =
      [header.pktType, header.peerId, s0, s1, c0, c1, c2, c3] := by
    rw [toBytes, seq, ctr]
    rfl
  rw [bytes, fromBytes, ← seq, ← ctr, ofBe16_be16, ofBe32_be32]

end PacketHeader

/-! ## Framing -/

/-- Header in cleartext, then the encrypted payload with its tag. -/
def buildWirePacket (header : Vector UInt8 8) (encryptedPayload : Bytes) : Bytes :=
  header.toList ++ encryptedPayload

def parseWirePacket (data : Bytes) : Except Error (Vector UInt8 8 × Bytes) :=
  match splitVector headerLen data with
  | some split => .ok split
  | none => .error (.packetTooShort data.length)

@[simp] theorem parseWirePacket_buildWirePacket (header : Vector UInt8 8)
    (encryptedPayload : Bytes) :
    parseWirePacket (buildWirePacket header encryptedPayload) = .ok (header, encryptedPayload) := by
  rw [parseWirePacket, buildWirePacket, splitVector_append]

/-- A received packet: the header as sent and as parsed, and the ciphertext. -/
structure Packet where
  header : PacketHeader
  headerBytes : Vector UInt8 8
  ciphertext : Bytes
  deriving DecidableEq

def Packet.parse (data : Bytes) : Except Error Packet :=
  match parseWirePacket data with
  | .error e => .error e
  | .ok (headerBytes, ciphertext) =>
    match PacketHeader.fromBytes headerBytes.toList with
    | .error e => .error e
    | .ok header => .ok ⟨header, headerBytes, ciphertext⟩

@[simp] theorem Packet.parse_buildWirePacket (header : PacketHeader) (encryptedPayload : Bytes) :
    Packet.parse (buildWirePacket header.toBytes encryptedPayload) =
      .ok ⟨header, header.toBytes, encryptedPayload⟩ := by
  simp only [Packet.parse, parseWirePacket_buildWirePacket, PacketHeader.fromBytes_toBytes]

/-! ## JOIN -/

structure JoinPayload where
  listenPort : UInt16
  deriving DecidableEq

namespace JoinPayload

def toBytes (payload : JoinPayload) : Bytes := (be16 payload.listenPort).toList

def fromBytes : Bytes → Except Error JoinPayload
  | p0 :: p1 :: _ => .ok ⟨ofBe16 (twoBytes p0 p1)⟩
  | _ => .error .joinTooShort

theorem fromBytes_toBytes (payload : JoinPayload) : fromBytes payload.toBytes = .ok payload := by
  obtain ⟨p0, p1, port⟩ := vector_two (be16 payload.listenPort)
  have bytes : payload.toBytes = [p0, p1] := congrArg Vector.toList port
  rw [bytes, fromBytes, ← port, ofBe16_be16]

end JoinPayload

/-! ## PEER_LIST -/

/-- Session id, then every peer's id and address. -/
structure PeerListPayload where
  sessionId : SessionId
  peers : List (UInt8 × SocketAddr)
  deriving DecidableEq

namespace PeerListPayload

def entryBytes : UInt8 × SocketAddr → Bytes
  | (id, .v4 ip port) => id :: 4 :: (ip.toList ++ (be16 port).toList)
  | (id, .v6 ip port _ _) => id :: 6 :: (ip.toList ++ (be16 port).toList)

def toBytes (payload : PeerListPayload) : Bytes :=
  payload.sessionId.toList ++ UInt8.ofNat payload.peers.length :: payload.peers.flatMap entryBytes

/-- Read an address of `n` bytes and its port. -/
def readAddr (n : Nat) (data : Bytes) : Option (Vector UInt8 n × UInt16 × Bytes) :=
  match splitVector n data with
  | none => none
  | some (ip, rest) =>
    match splitVector 2 rest with
    | none => none
    | some (port, rest) => some (ip, ofBe16 port, rest)

/-- The entry loop, on what is left of the payload. -/
def readEntries : Nat → Bytes → Except Error (List (UInt8 × SocketAddr))
  | 0, _ => .ok []
  | _ + 1, [] => .error .peerListTruncated
  | _ + 1, [_] =>
      -- the marker is read without a bounds check of its own
      .error .indexOutOfBounds
  | count + 1, id :: ipVer :: rest =>
      if ipVer = 4 then
        match readAddr 4 rest with
        | none => .error .peerListTruncatedV4
        | some (ip, port, rest) =>
          (readEntries count rest).map ((id, .v4 ip port) :: ·)
      else if ipVer = 6 then
        match readAddr 16 rest with
        | none => .error .peerListTruncatedV6
        | some (ip, port, rest) =>
          (readEntries count rest).map ((id, .v6 ip port 0 0) :: ·)
      else
        .error (.unknownIpVersion ipVer)

def fromBytes (data : Bytes) : Except Error PeerListPayload :=
  match splitVector 8 data with
  | none => .error .peerListTooShort
  | some (_, []) => .error .peerListTooShort
  | some (sessionId, count :: rest) =>
      (readEntries count.toNat rest).map fun peers => ⟨sessionId, peers⟩

theorem readAddr_append {n : Nat} (ip : Vector UInt8 n) (port : UInt16) (rest : Bytes) :
    readAddr n (ip.toList ++ (be16 port).toList ++ rest) = some (ip, port, rest) := by
  rw [readAddr, List.append_assoc, splitVector_append]
  simp

/-- Encoded entries are read back, and the loop goes on with what follows them. -/
theorem readEntries_append (peers : List (UInt8 × SocketAddr)) (count : ℕ) (rest : Bytes) :
    readEntries (peers.length + count) (peers.flatMap entryBytes ++ rest) =
      (readEntries count rest).map (peers.map (fun entry => (entry.1, entry.2.listed)) ++ ·) := by
  induction peers with
  | nil =>
      rw [List.length_nil, Nat.zero_add, List.flatMap_nil, List.nil_append]
      cases readEntries count rest with
      | error e => rfl
      | ok others => rfl
  | cons entry peers ih =>
      obtain ⟨id, addr⟩ := entry
      have next : ((id, addr) :: peers).length + count = peers.length + count + 1 := by
        rw [List.length_cons]
        omega
      cases addr with
      | v4 ip port =>
          rw [next, List.flatMap_cons, entryBytes, List.append_assoc, List.cons_append,
            List.cons_append, readEntries, if_pos rfl, readAddr_append]
          simp only [ih]
          cases readEntries count rest with
          | error e => rfl
          | ok others => rfl
      | v6 ip port flowinfo scopeId =>
          rw [next, List.flatMap_cons, entryBytes, List.append_assoc, List.cons_append,
            List.cons_append, readEntries, if_neg (by decide), if_pos rfl, readAddr_append]
          simp only [ih]
          cases readEntries count rest with
          | error e => rfl
          | ok others => rfl

/-- What a peer list keeps of its payload. -/
def listed (payload : PeerListPayload) : PeerListPayload :=
  { payload with peers := payload.peers.map fun entry => (entry.1, entry.2.listed) }

/-- An encoded peer list is read back, whatever follows it. -/
theorem fromBytes_toBytes_append (payload : PeerListPayload) (short : payload.peers.length ≤ 255)
    (rest : Bytes) : fromBytes (payload.toBytes ++ rest) = .ok payload.listed := by
  have count : (UInt8.ofNat payload.peers.length).toNat = payload.peers.length :=
    UInt8.toNat_ofNat_of_lt' (Nat.lt_succ_of_le short)
  have entries := readEntries_append payload.peers 0 rest
  rw [Nat.add_zero, readEntries, Except.map, List.append_nil] at entries
  rw [fromBytes, toBytes, List.append_assoc, splitVector_append]
  simp only [List.cons_append, count, entries]
  rfl

/-- **The peer list survives the wire**, up to the flow info and the scope of IPv6
addresses. -/
theorem fromBytes_toBytes (payload : PeerListPayload) (short : payload.peers.length ≤ 255) :
    fromBytes payload.toBytes =
      .ok { payload with peers := payload.peers.map fun entry => (entry.1, entry.2.listed) } := by
  have whole := fromBytes_toBytes_append payload short []
  rwa [List.append_nil] at whole

end PeerListPayload

end VoiceChat
