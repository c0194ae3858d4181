import VoiceChat.Library.Network
import VoiceChat.Session.Growth

/-!
# Two nodes of a session

Two nodes that know each other and are connected, each taking its own steps; what
either has sent stays on record, and a network that loses, duplicates, delays and
reorders may hand the other anything on it, at any time.

As long as no peer list gives one of them another identity, and each KEY_EXCHANGE
that opens in the name of one was sent by it, whatever key a node has for the
other is the one key of the pair (`Introduction.party_step`).
-/

set_option autoImplicit false

namespace VoiceChat

/-- The two nodes. -/
inductive Side where
  | a
  | b
  deriving DecidableEq

namespace Side

def other : Side → Side
  | .a => .b
  | .b => .a

@[simp] theorem other_other (p : Side) : p.other.other = p := by
  cases p with
  | a => rfl
  | b => rfl

end Side

/-- The states of two nodes and what each has sent. -/
abbrev Pair (D : Type) := Network Side (Node D) Emission

/-- Two running sessions. -/
def pairMachine {D : Type} (prim : Primitives D) :
    Machine (Pair D) (Side × Env D × Node.Event) (Side × Emission) :=
  Network.machine (nodeMachine prim)

/-- How far a node is with a peer: the state, whether the keys were sent and
received, and the context. -/
def RemotePeer.progress {D : Type} (peer : RemotePeer D) :
    PeerState × Bool × Bool × Option CryptoContext :=
  (peer.state, peer.kxSent, peer.kxReceived, peer.peerCrypto)

/-- Two nodes of one session that have met: each has the other in its table,
connected, and no key has been exchanged. -/
structure Introduction (D : Type) where
  node : Side → Node D
  distinct : (node .a).peerMgr.localId ≠ (node .b).peerMgr.localId
  key_eq : (node .b).key = (node .a).key
  sessionId_eq : (node .b).peerMgr.sessionId = (node .a).peerMgr.sessionId
  ctxKey : ∀ p, (node p).cryptoCtx.key = (node p).key
  ctxSessionId : ∀ p, (node p).cryptoCtx.sessionId = (node p).peerMgr.sessionId
  entry : ∀ p, ((node p).getPeer (node p.other).peerMgr.localId).map RemotePeer.progress =
    some (.connected, false, false, none)

namespace Introduction

variable {D : Type} (prim : Primitives D) (pair : Introduction D)

def id (p : Side) : UInt8 := (pair.node p).peerMgr.localId

def sessionId : SessionId := (pair.node .a).peerMgr.sessionId

/-- The pre-shared key. -/
def key : Key := (pair.node .a).key

def keyExchange (p : Side) : KeyExchange := (pair.node p).keyExchange

/-- Where the two start. -/
def start : Pair D := Network.start pair.node

/-- The key of the pair, as the first node derives it. -/
def pairKey : Except Error Key :=
  (pair.keyExchange .a).derivePeerKey prim ((pair.keyExchange .b).publicKeyBytes prim)
    pair.sessionId (pair.id .a) (pair.id .b)

/-- Either node derives the key of the pair. -/
theorem derivePeerKey_eq {prim : Primitives D} (commutes : KeyExchange.Commutes prim) (p : Side) :
    (pair.keyExchange p).derivePeerKey prim ((pair.keyExchange p.other).publicKeyBytes prim)
      pair.sessionId (pair.id p) (pair.id p.other) = pair.pairKey prim := by
  cases p with
  | a => rfl
  | b => exact KeyExchange.derivePeerKey_comm commutes _ _ _ _ _

/-! ## What the network and the group are trusted with -/

/-- A KEY_EXCHANGE that opens in the name of the other node was sent by it. -/
def Authentic (net : Pair D) (input : Side × Env D × Node.Event) : Prop :=
  ∀ data srcAddr packet derivedKey, input.2.2 = .recv data srcAddr →
    Packet.parse data = .ok packet → packet.header.pktType = pktKeyExchange →
    packet.header.peerId = pair.id input.1.other →
    (net.node input.1).openKeyExchange prim packet = .ok derivedKey →
    ∃ e ∈ net.sent input.1.other, data = e.wire

/-- A peer list that opens gives the node the id and the session it has. -/
def IdentityKept (net : Pair D) (input : Side × Env D × Node.Event) : Prop :=
  ∀ data srcAddr, input.2.2 = .recv data srcAddr → ∀ myId sessionId,
    (net.node input.1).adopts prim data = some (myId, sessionId) →
      myId = pair.id input.1 ∧ sessionId = pair.sessionId

/-! ## The invariant of one node -/

/-- There is no key for this peer yet, or it is the key of the pair. -/
def Agreed (peer : RemotePeer D) : Prop :=
  Node.secret peer = (false, none) ∨ ∃ derivedKey, pair.pairKey prim = .ok derivedKey ∧
    Node.secret peer = (true, some (derivedKey, pair.sessionId))

/-- What holds of each node and of what it has sent. -/
structure Party (p : Side) (node : Node D) (sent : List Emission) : Prop where
  localId : node.peerMgr.localId = pair.id p
  sessionId : node.peerMgr.sessionId = pair.sessionId
  key : node.key = pair.key
  keyExchange : node.keyExchange = pair.keyExchange p
  ctxKey : node.cryptoCtx.key = pair.key
  ctxSessionId : node.cryptoCtx.sessionId = pair.sessionId
  entry : ∃ peer, node.getPeer (pair.id p.other) = some peer ∧ pair.Agreed prim peer
  sealedWith : ∀ e ∈ sent, ∃ ctx, e.SealedWith prim.aead ctx
  keyExchanges : ∀ e ∈ sent, e.header.pktType = pktKeyExchange →
    e.SealedWith prim.aead (CryptoContext.new pair.key pair.sessionId) ∧
      e.header = ⟨pktKeyExchange, pair.id p, 0, 0⟩ ∧
      e.plaintext = KeyExchangePayload.toBytes ⟨(pair.keyExchange p).publicKeyBytes prim⟩

variable {prim pair}

/-- A context that a node has for the other is one to try, with the key of the
pair. -/
theorem Agreed.of_isSome {peer : RemotePeer D} (agreed : pair.Agreed prim peer)
    (keyed : peer.peerCrypto.isSome) : ∃ ctx, peer.recvContext = some ctx ∧
      pair.pairKey prim = .ok ctx.key ∧ ctx.sessionId = pair.sessionId := by
  obtain ⟨ctx, crypto⟩ := Option.isSome_iff_exists.mp keyed
  rcases agreed with none | ⟨derivedKey, derived, looks⟩
  · rw [Node.secret, crypto] at none
    cases (Prod.mk.inj none).2
  · rw [Node.secret, crypto] at looks
    obtain ⟨received, context⟩ := Prod.mk.inj looks
    obtain ⟨key, sessionId⟩ := Prod.mk.inj (Option.some.inj context)
    refine ⟨ctx, ?_, derived.trans (congrArg Except.ok key.symm), sessionId⟩
    rw [RemotePeer.recvContext, received, crypto]
    rfl

/-- Whatever context a node has for the other has the key of the pair. -/
theorem Agreed.context {peer : RemotePeer D} (agreed : pair.Agreed prim peer)
    {ctx : CryptoContext} (crypto : peer.peerCrypto = some ctx) :
    pair.pairKey prim = .ok ctx.key ∧ ctx.sessionId = pair.sessionId := by
  obtain ⟨ctx', context, keyed⟩ := agreed.of_isSome (Option.isSome_of_eq_some crypto)
  unfold RemotePeer.recvContext at context
  split_ifs at context
  cases crypto.symm.trans context
  exact keyed

/-- Both nodes start so. -/
theorem party_start (p : Side) : pair.Party prim p (pair.node p) [] where
  localId := rfl
  sessionId := by
    cases p with
    | a => rfl
    | b => exact pair.sessionId_eq
  key := by
    cases p with
    | a => rfl
    | b => exact pair.key_eq
  keyExchange := rfl
  ctxKey := by
    cases p with
    | a => exact pair.ctxKey .a
    | b => exact (pair.ctxKey .b).trans pair.key_eq
  ctxSessionId := by
    cases p with
    | a => exact pair.ctxSessionId .a
    | b => exact (pair.ctxSessionId .b).trans pair.sessionId_eq
  entry := by
    obtain ⟨peer, known, met⟩ := Option.map_eq_some_iff.mp (pair.entry p)
    obtain ⟨_, _, received, none⟩ := by
      simpa only [RemotePeer.progress, Prod.mk.injEq] using met
    refine ⟨peer, known, Or.inl ?_⟩
    rw [Node.secret, received, none, Option.map_none]
  sealedWith _ member := absurd member List.not_mem_nil
  keyExchanges _ member := absurd member List.not_mem_nil

/-- A node keeps its identity. -/
theorem Party.identity_step {p : Side} {node : Node D} {sent : List Emission}
    {event : Node.Event} (party : pair.Party prim p node sent) (env : Env D)
    (kept : ∀ data srcAddr, event = .recv data srcAddr → ∀ myId sessionId,
      node.adopts prim data = some (myId, sessionId) →
        myId = pair.id p ∧ sessionId = pair.sessionId) :
    (node.step prim env event).1.peerMgr.localId = pair.id p ∧
      (node.step prim env event).1.peerMgr.sessionId = pair.sessionId ∧
      (node.step prim env event).1.key = pair.key ∧
      (node.step prim env event).1.keyExchange = pair.keyExchange p ∧
      (node.step prim env event).1.cryptoCtx.key = pair.key ∧
      (node.step prim env event).1.cryptoCtx.sessionId = pair.sessionId := by
  cases Node.step_identified prim node env event with
  | kept _ keeps =>
      exact ⟨keeps.localId.trans party.localId, keeps.sessionId.trans party.sessionId,
        keeps.key.trans party.key, keeps.keyExchange.trans party.keyExchange,
        keeps.ctxKey.trans party.ctxKey, keeps.ctxSessionId.trans party.ctxSessionId⟩
  | adopted received listed localId session _ key keyExchange ctx =>
      obtain ⟨rfl, rfl⟩ := kept _ _ received _ _ listed
      rw [ctx]
      exact ⟨localId, session, key.trans party.key, keyExchange.trans party.keyExchange,
        party.key, rfl⟩

/-- **The key that a KEY_EXCHANGE gives is the key of the pair.** -/
theorem Party.openKeyExchange {p : Side} {node node' : Node D} {sent sent' : List Emission}
    (party : pair.Party prim p node sent) (partner : pair.Party prim p.other node' sent')
    (correct : prim.aead.Correct) (commutes : KeyExchange.Commutes prim) {e : Emission}
    (member : e ∈ sent') {packet : Packet} (parsed : Packet.parse e.wire = .ok packet)
    (type : packet.header.pktType = pktKeyExchange) {derivedKey : Key}
    (opened : node.openKeyExchange prim packet = .ok derivedKey) :
    pair.pairKey prim = .ok derivedKey := by
  obtain ⟨_, framed⟩ := partner.sealedWith e member
  have header : packet.header = e.header := framed.header_of_parse parsed
  obtain ⟨sealedWith, spelled, plaintext⟩ :=
    partner.keyExchanges e member (by rw [← header, type])
  obtain ⟨packet', parsed', _, opens⟩ := sealedWith.opens (node.pskCtx pair.sessionId)
    correct party.key rfl
  rw [parsed] at parsed'
  cases parsed'
  rw [Node.openKeyExchange, party.sessionId, opens, plaintext] at opened
  dsimp only at opened
  rw [KeyExchangePayload.fromBytes_toBytes] at opened
  dsimp only at opened
  rw [party.keyExchange, party.localId, header, spelled] at opened
  rw [← opened]
  exact (pair.derivePeerKey_eq commutes p).symm

/-- **What one step preserves.** -/
theorem party_step (correct : prim.aead.Correct) (commutes : KeyExchange.Commutes prim)
    {net : Pair D} {input : Side × Env D × Node.Event}
    (parties : ∀ q, pair.Party prim q (net.node q) (net.sent q))
    (authentic : pair.Authentic prim net input) (kept : pair.IdentityKept prim net input)
    (q : Side) : pair.Party prim q (((pairMachine prim).step net input).1.node q)
      (((pairMachine prim).step net input).1.sent q) := by
  obtain ⟨p, env, event⟩ := input
  refine Network.forall_step (nodeMachine prim) (Q := pair.Party prim) parties ?_ q
  have party := parties p
  change pair.Party prim p (Node.step prim (net.node p) env event).1
    (net.sent p ++ (Node.step prim (net.node p) env event).2)
  obtain ⟨localId, sessionId, key, keyExchange, ctxKey, ctxSessionId⟩ :=
    party.identity_step env kept
  refine ⟨localId, sessionId, key, keyExchange, ctxKey, ctxSessionId, ?_, ?_, ?_⟩
  · obtain ⟨peer, known, agreed⟩ := party.entry
    obtain ⟨peer', known', same | ⟨data, srcAddr, packet, derivedKey, received, parsed, type,
      name, opened, looks⟩⟩ := Node.step_secret prim (net.node p) env event known
    · refine ⟨peer', known', ?_⟩
      rwa [Agreed, same]
    · obtain ⟨e, member, rfl⟩ :=
        authentic data srcAddr packet derivedKey received parsed type name opened
      refine ⟨peer', known', Or.inr ⟨derivedKey, ?_, ?_⟩⟩
      · exact party.openKeyExchange (parties p.other) correct commutes member parsed type opened
      · rw [looks, party.sessionId]
  · intro e member
    rcases List.mem_append.mp member with old | new
    · exact party.sealedWith e old
    · exact (Node.emits_of_step new).sealedWith
  · intro e member type
    rcases List.mem_append.mp member with old | new
    · exact party.keyExchanges e old type
    · obtain ⟨sealedWith, header, plaintext⟩ := (Node.emits_of_step new).of_keyExchange type
      refine ⟨sealedWith.congr party.key.symm party.sessionId.symm, ?_, ?_⟩
      · rw [header, party.localId]
      · rw [plaintext, party.keyExchange]

end Introduction

/-! ## A pair to compute with -/

namespace Sample

/-- The host after the HELLO of the joiner. -/
def greetedHost : Outcome Unit :=
  hostOfOne.node.handleIncoming Primitives.transparent (env 0 0) (wires greeting.out) (addr 1)

/-- The joiner after the HELLO_ACK of the host. -/
def guest : Outcome Unit :=
  greeting.node.handleIncoming Primitives.transparent (env 1 0) (wires greetedHost.out) (addr 0)

/-- A host and a joiner that have shaken hands. -/
def pair : Introduction Unit where
  node
    | .a => greetedHost.node
    | .b => guest.node
  distinct := by decide +kernel
  key_eq := by decide +kernel
  sessionId_eq := by decide +kernel
  ctxKey
    | .a => by decide +kernel
    | .b => by decide +kernel
  ctxSessionId
    | .a => by decide +kernel
    | .b => by decide +kernel
  entry
    | .a => by decide +kernel
    | .b => by decide +kernel

/-- The KEY_EXCHANGE of either. -/
def exchange (p : Side) : Bytes :=
  wires (Node.sendKeyExchange Primitives.transparent (pair.node p) (pair.id p.other) (addr 0)).2

/-- Neither the network nor the group is needed to be trusted with a step that
receives nothing. -/
theorem honest_of_timer (net : Pair Unit) (p : Side) (now : Env Unit) {event : Node.Event}
    (timer : ∀ data srcAddr, event ≠ .recv data srcAddr) :
    pair.Authentic Primitives.transparent net (p, now, event) ∧
      pair.IdentityKept Primitives.transparent net (p, now, event) :=
  ⟨fun data srcAddr _ _ received => absurd received (timer data srcAddr),
    fun data srcAddr received => absurd received (timer data srcAddr)⟩

/-- A datagram on record that is no peer list can be received. -/
theorem honest_of_sent (net : Pair Unit) (p : Side) (now : Env Unit) (srcAddr : SocketAddr)
    {data : Bytes} (sent : ∃ e ∈ net.sent p.other, data = e.wire)
    (unlisted : (net.node p).adopts Primitives.transparent data = none) :
    pair.Authentic Primitives.transparent net (p, now, .recv data srcAddr) ∧
      pair.IdentityKept Primitives.transparent net (p, now, .recv data srcAddr) := by
  refine ⟨?_, ?_⟩
  · intro data' srcAddr' packet derivedKey received _ _ _ _
    cases received
    exact sent
  · intro data' srcAddr' received myId sessionId adopted
    cases received
    rw [unlisted] at adopted
    cases adopted

end Sample

end VoiceChat
