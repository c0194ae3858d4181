import VoiceChat.Pair

/-!
# Any number of nodes of a session

Nodes of one session with different ids, each taking its own steps; what any of
them has sent stays on record, and a network that loses, duplicates, delays and
reorders may hand anyone anything on it, at any time.

As long as every KEY_EXCHANGE that opens was sent by one of them, and no peer list
gives one another identity, the key that a node has for another is derived from
the inputs of the two (`Member.step`). The two derive from the same inputs, so they
have the same key, and no other pair and no other session has these inputs
(`keys_agree`).
-/

set_option autoImplicit false

namespace VoiceChat

/-- Nodes of one session, before any key is exchanged. -/
structure Group (P D : Type) where
  node : P → Node D
  key : Key
  sessionId : SessionId
  distinct : ∀ p q, (node p).peerMgr.localId = (node q).peerMgr.localId → p = q
  key_eq : ∀ p, (node p).key = key
  sessionId_eq : ∀ p, (node p).peerMgr.sessionId = sessionId
  unkeyed : ∀ p id peer, (node p).getPeer id = some peer → peer.peerCrypto = none

namespace Group

variable {P D : Type} (prim : Primitives D) (group : Group P D)

def id (p : P) : UInt8 := (group.node p).peerMgr.localId

def keyExchange (p : P) : KeyExchange := (group.node p).keyExchange

/-- Where the nodes start. -/
def start : Network P (Node D) Emission := Network.start group.node

/-- What a node derives its key for another from. -/
def inputs (p q : P) : Bytes × Bytes × Bytes :=
  (group.keyExchange p).hkdfInputs prim ((group.keyExchange q).publicKeyBytes prim)
    group.sessionId (group.id p) (group.id q)

/-! ## What the network and the group are trusted with -/

/-- A KEY_EXCHANGE that opens was sent by one of the nodes. -/
def Authentic (net : Network P (Node D) Emission) (input : P × Env D × Node.Event) : Prop :=
  ∀ data srcAddr packet derivedKey, input.2.2 = .recv data srcAddr →
    Packet.parse data = .ok packet → packet.header.pktType = pktKeyExchange →
    (net.node input.1).openKeyExchange prim packet = .ok derivedKey →
    ∃ q, ∃ e ∈ net.sent q, data = e.wire

/-- A peer list that opens gives the node the id and the session it has. -/
def IdentityKept (net : Network P (Node D) Emission) (input : P × Env D × Node.Event) : Prop :=
  ∀ data srcAddr, input.2.2 = .recv data srcAddr → ∀ myId sessionId,
    (net.node input.1).adopts prim data = some (myId, sessionId) →
      myId = group.id input.1 ∧ sessionId = group.sessionId

/-! ## The invariant of one node -/

/-- The context that a node has for another. -/
def ctxFor (net : Network P (Node D) Emission) (p q : P) : Option CryptoContext :=
  ((net.node p).getPeer (group.id q)).bind RemotePeer.peerCrypto

/-- The key of the peer, if it has one, is derived from the inputs of the two. -/
def Derived (p q : P) (peer : RemotePeer D) : Prop :=
  ∀ ctx, peer.peerCrypto = some ctx →
    (group.keyExchange p).derivePeerKey prim ((group.keyExchange q).publicKeyBytes prim)
      group.sessionId (group.id p) (group.id q) = .ok ctx.key

/-- What holds of each node and of what it has sent. -/
structure Member (p : P) (node : Node D) (sent : List Emission) : Prop where
  localId : node.peerMgr.localId = group.id p
  sessionId : node.peerMgr.sessionId = group.sessionId
  key : node.key = group.key
  keyExchange : node.keyExchange = group.keyExchange p
  entries : ∀ q peer, node.getPeer (group.id q) = some peer → group.Derived prim p q peer
  sealedWith : ∀ e ∈ sent, ∃ ctx, e.SealedWith prim.aead ctx
  keyExchanges : ∀ e ∈ sent, e.header.pktType = pktKeyExchange →
    e.SealedWith prim.aead (CryptoContext.new group.key group.sessionId) ∧
      e.header = ⟨pktKeyExchange, group.id p, 0, 0⟩ ∧
      e.plaintext = KeyExchangePayload.toBytes ⟨(group.keyExchange p).publicKeyBytes prim⟩

variable {prim group}

theorem member_start (p : P) : group.Member prim p (group.node p) [] where
  localId := rfl
  sessionId := group.sessionId_eq p
  key := group.key_eq p
  keyExchange := rfl
  entries _ peer known ctx keyed := by
    rw [group.unkeyed p _ peer known] at keyed
    cases keyed
  sealedWith _ member := absurd member List.not_mem_nil
  keyExchanges _ member := absurd member List.not_mem_nil

/-- **The key that a KEY_EXCHANGE gives** is derived from the inputs of its receiver
and its sender. -/
theorem Member.openKeyExchange {p r : P} {node node' : Node D} {sent sent' : List Emission}
    (member : group.Member prim p node sent) (sender : group.Member prim r node' sent')
    (correct : prim.aead.Correct) {e : Emission} (inside : e ∈ sent') {packet : Packet}
    (parsed : Packet.parse e.wire = .ok packet)
    (type : packet.header.pktType = pktKeyExchange) {derivedKey : Key}
    (opened : node.openKeyExchange prim packet = .ok derivedKey) :
    packet.header.peerId = group.id r ∧ (group.keyExchange p).derivePeerKey prim
      ((group.keyExchange r).publicKeyBytes prim) group.sessionId (group.id p) (group.id r) =
        .ok derivedKey := by
  obtain ⟨_, framed⟩ := sender.sealedWith e inside
  have header : packet.header = e.header := framed.header_of_parse parsed
  obtain ⟨sealedWith, spelled, plaintext⟩ :=
    sender.keyExchanges e inside (by rw [← header, type])
  have named : packet.header.peerId = group.id r := by rw [header, spelled]
  obtain ⟨packet', parsed', _, opens⟩ := sealedWith.opens (node.pskCtx group.sessionId)
    correct member.key rfl
  rw [parsed] at parsed'
  cases parsed'
  rw [Node.openKeyExchange, member.sessionId, opens, plaintext] at opened
  dsimp only at opened
  rw [KeyExchangePayload.fromBytes_toBytes] at opened
  dsimp only at opened
  rw [member.keyExchange, member.localId, named] at opened
  exact ⟨named, opened⟩

/-- What a node has for another, it has derived from the inputs of the two. -/
theorem Member.key_eq {p q : P} {net : Network P (Node D) Emission}
    (member : group.Member prim p (net.node p) (net.sent p)) {ctx : CryptoContext}
    (keyed : group.ctxFor net p q = some ctx) :
    ctx.key = prim.hkdf (group.inputs prim p q).1 (group.inputs prim p q).2.1
      (group.inputs prim p q).2.2 := by
  obtain ⟨peer, known, stored⟩ := Option.bind_eq_some_iff.mp keyed
  exact KeyExchange.derivePeerKey_eq_ok (member.entries q peer known ctx stored)

/-- Nobody is needed to be trusted with a step that receives nothing. -/
theorem trusted_of_timer (net : Network P (Node D) Emission) (p : P) (env : Env D)
    {event : Node.Event} (timer : ∀ data srcAddr, event ≠ .recv data srcAddr) :
    Authentic prim net (p, env, event) ∧ group.IdentityKept prim net (p, env, event) :=
  ⟨fun data srcAddr _ _ received => absurd received (timer data srcAddr),
    fun data srcAddr received => absurd received (timer data srcAddr)⟩

/-- A datagram on record that is no peer list can be received. -/
theorem trusted_of_sent (net : Network P (Node D) Emission) (p : P) (env : Env D)
    (srcAddr : SocketAddr) {data : Bytes} (sent : ∃ q, ∃ e ∈ net.sent q, data = e.wire)
    (unlisted : (net.node p).adopts prim data = none) :
    Authentic prim net (p, env, .recv data srcAddr) ∧
      group.IdentityKept prim net (p, env, .recv data srcAddr) := by
  refine ⟨?_, ?_⟩
  · intro data' srcAddr' packet derivedKey received _ _ _
    cases received
    exact sent
  · intro data' srcAddr' received myId sessionId adopted
    cases received
    rw [unlisted] at adopted
    cases adopted

variable [DecidableEq P]

/-- **What one step preserves.** -/
theorem member_step (correct : prim.aead.Correct) {net : Network P (Node D) Emission}
    {input : P × Env D × Node.Event}
    (members : ∀ q, group.Member prim q (net.node q) (net.sent q))
    (authentic : Authentic prim net input) (kept : group.IdentityKept prim net input) (q : P) :
    group.Member prim q (((Network.machine (nodeMachine prim)).step net input).1.node q)
      (((Network.machine (nodeMachine prim)).step net input).1.sent q) := by
  obtain ⟨p, env, event⟩ := input
  refine Network.forall_step (nodeMachine prim) (Q := group.Member prim) members ?_ q
  have member := members p
  change group.Member prim p (Node.step prim (net.node p) env event).1
    (net.sent p ++ (Node.step prim (net.node p) env event).2)
  have repeated : ∀ data srcAddr, event = .recv data srcAddr → ∀ myId sessionId,
      (net.node p).adopts prim data = some (myId, sessionId) →
        myId = (net.node p).peerMgr.localId ∧ sessionId = (net.node p).peerMgr.sessionId := by
    intro data srcAddr received myId sessionId adopted
    rw [member.localId, member.sessionId]
    exact kept data srcAddr received myId sessionId adopted
  obtain ⟨localId, sessionId, _, key, keyExchange⟩ := Node.step_repeats env repeated
  refine ⟨localId.trans member.localId, sessionId.trans member.sessionId, key.trans member.key,
    keyExchange.trans member.keyExchange, ?_, ?_, ?_⟩
  · intro r peer' known' ctx keyed
    cases known : (net.node p).getPeer (group.id r) with
    | none =>
      have fresh := Node.step_secret_of_unknown prim (net.node p) env event known known'
      rw [Option.map_eq_none_iff.mp (Prod.mk.inj fresh).2] at keyed
      cases keyed
    | some peer =>
      obtain ⟨peer'', known'', same | ⟨data, srcAddr, packet, derivedKey, received, parsed, type,
        name, opened, looks⟩⟩ := Node.step_secret prim (net.node p) env event known
      · cases known''.symm.trans known'
        obtain ⟨before, stored, sameKey⟩ := Node.key_of_secret same keyed
        rw [← sameKey]
        exact member.entries r peer known before stored
      · cases known''.symm.trans known'
        obtain ⟨s, e, inside, rfl⟩ :=
          authentic data srcAddr packet derivedKey received parsed type opened
        obtain ⟨named, derived⟩ := member.openKeyExchange (members s) correct inside parsed type
          opened
        obtain rfl : r = s := group.distinct r s (name.symm.trans named)
        have key := (Prod.mk.inj looks).2
        rw [keyed, Option.map_some, Option.some_inj] at key
        rw [(Prod.mk.inj key).1]
        exact derived
  · intro e inside
    rcases List.mem_append.mp inside with old | new
    · exact member.sealedWith e old
    · exact (Node.emits_of_step new).sealedWith
  · intro e inside type
    rcases List.mem_append.mp inside with old | new
    · exact member.keyExchanges e old type
    · obtain ⟨sealedWith, header, plaintext⟩ := (Node.emits_of_step new).of_keyExchange type
      refine ⟨sealedWith.congr member.key.symm member.sessionId.symm, ?_, ?_⟩
      · rw [header, member.localId]
      · rw [plaintext, member.keyExchange]

/-- **Per-peer keys agree and are apart.** In every run of any number of nodes over an
honest network in which all keep their identity, two that have a key for each
other have derived it from the same salt, shared secret and info string, so it is
the same key; and no two pairs of ids have the same info string, and no two
sessions the same salt. -/
theorem keys_agree (group : Group P D) (correct : prim.aead.Correct)
    (commutes : KeyExchange.Commutes prim) :
    (∀ inputs, (Network.machine (nodeMachine prim)).Along
        (fun net input => Authentic prim net input ∧ group.IdentityKept prim net input)
        group.start inputs →
      ∀ p q ctxP ctxQ,
        group.ctxFor ((Network.machine (nodeMachine prim)).run group.start inputs) p q = some ctxP →
        group.ctxFor ((Network.machine (nodeMachine prim)).run group.start inputs) q p = some ctxQ →
          group.inputs prim p q = group.inputs prim q p ∧
            ctxP.key = prim.hkdf (group.inputs prim p q).1 (group.inputs prim p q).2.1
              (group.inputs prim p q).2.2 ∧
            ctxQ.key = prim.hkdf (group.inputs prim q p).1 (group.inputs prim q p).2.1
              (group.inputs prim q p).2.2 ∧
            ctxP.key = ctxQ.key) ∧
      ∀ (kx kx' : KeyExchange) (theirs theirs' : Key) (session session' : SessionId)
        (a b c d : UInt8),
        (s(a, b) ≠ s(c, d) → (kx.hkdfInputs prim theirs session a b).2.2 ≠
          (kx'.hkdfInputs prim theirs' session' c d).2.2) ∧
        (session ≠ session' → (kx.hkdfInputs prim theirs session a b).1 ≠
          (kx'.hkdfInputs prim theirs' session' c d).1) := by
  constructor
  · intro inputs delivered p q ctxP ctxQ keyedP keyedQ
    have members := Machine.invariant (M := Network.machine (nodeMachine prim))
      (fun net => ∀ r, group.Member prim r (net.node r) (net.sent r))
      (fun _ _ members trusted => member_step correct members trusted.1 trusted.2)
      (fun r => member_start r) delivered
    have same : group.inputs prim p q = group.inputs prim q p :=
      KeyExchange.hkdfInputs_comm commutes _ _ _ _ _
    have keyP := (members p).key_eq keyedP
    have keyQ := (members q).key_eq keyedQ
    refine ⟨same, keyP, keyQ, ?_⟩
    rw [keyP, keyQ, same]
  · intro kx kx' theirs theirs' session session' a b c d
    exact ⟨fun apart same => apart (KeyExchange.info_inj.mp same),
      fun apart same => apart (Vector.toList_inj.mp same)⟩

end Group

/-! ## A group to compute with -/

namespace Sample

theorem pair_key (p : Side) : (pair.node p).key = psk := by
  cases p with
  | a => decide +kernel
  | b => decide +kernel

theorem pair_sessionId (p : Side) : (pair.node p).peerMgr.sessionId = session := by
  cases p with
  | a => decide +kernel
  | b => decide +kernel

theorem pair_unkeyed (p : Side) : ∀ k ∈ (pair.node p).peerMgr.peers.keys,
    ((pair.node p).getPeer k).bind RemotePeer.peerCrypto = none := by
  cases p with
  | a => decide +kernel
  | b => decide +kernel

/-- A host and a joiner that have shaken hands, as a group. -/
def group : Group Side Unit where
  node := pair.node
  key := psk
  sessionId := session
  distinct
    | .a, .a => fun _ => rfl
    | .a, .b => fun same => absurd same pair.distinct
    | .b, .a => fun same => absurd same.symm pair.distinct
    | .b, .b => fun _ => rfl
  key_eq := pair_key
  sessionId_eq := pair_sessionId
  unkeyed p id peer known := by
    have none := pair_unkeyed p id (AList.mem_keys.mp (HashMap.mem_iff_lookup.mpr ⟨peer, known⟩))
    rwa [known, Option.bind_some] at none

end Sample

namespace Group

/-- Either node gets the key of the other, the first of them twice. -/
def exchanged : List (Side × Env Unit × Node.Event) :=
  [(.a, Sample.env 0 1, .ping), (.b, Sample.env 1 2, .recv (Sample.exchange .a) (Sample.addr 0)),
    (.a, Sample.env 0 3, .recv (Sample.exchange .b) (Sample.addr 1)),
    (.a, Sample.env 0 4, .recv (Sample.exchange .b) (Sample.addr 1))]

/-- The two then have the same key. -/
theorem exchanged_keys_agree : ∃ ctxA ctxB : CryptoContext,
    Sample.group.ctxFor ((Network.machine (nodeMachine Primitives.transparent)).run
      Sample.group.start exchanged) .a .b = some ctxA ∧
    Sample.group.ctxFor ((Network.machine (nodeMachine Primitives.transparent)).run
      Sample.group.start exchanged) .b .a = some ctxB ∧ ctxA.key = ctxB.key := by
  have keyedA : (Sample.group.ctxFor ((Network.machine (nodeMachine Primitives.transparent)).run
      Sample.group.start exchanged) .a .b).isSome := by decide +kernel
  have keyedB : (Sample.group.ctxFor ((Network.machine (nodeMachine Primitives.transparent)).run
      Sample.group.start exchanged) .b .a).isSome := by decide +kernel
  obtain ⟨ctxA, forB⟩ := Option.isSome_iff_exists.mp keyedA
  obtain ⟨ctxB, forA⟩ := Option.isSome_iff_exists.mp keyedB
  have delivered : (Network.machine (nodeMachine Primitives.transparent)).Along
      (fun net input => Authentic Primitives.transparent net input ∧
        Sample.group.IdentityKept Primitives.transparent net input)
      Sample.group.start exchanged := by
    refine ⟨?_, ?_, ?_, ?_, trivial⟩
    · exact trusted_of_timer _ _ _ fun _ _ => nofun
    · exact trusted_of_sent _ _ _ _ ⟨.a, by decide +kernel⟩ (by decide +kernel)
    · exact trusted_of_sent _ _ _ _ ⟨.b, by decide +kernel⟩ (by decide +kernel)
    · exact trusted_of_sent _ _ _ _ ⟨.b, by decide +kernel⟩ (by decide +kernel)
  obtain ⟨_, _, _, same⟩ := (keys_agree Sample.group Aead.transparent_correct
    Primitives.transparent_commutes).1 exchanged delivered .a .b ctxA ctxB forB forA
  exact ⟨ctxA, ctxB, forB, forA, same⟩

end Group

end VoiceChat
