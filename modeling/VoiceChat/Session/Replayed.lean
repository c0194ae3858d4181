import VoiceChat.Session.Once

/-!
# What a replay leaves behind

A replayed audio packet is refused by the filter of the peer it names, and the filter
is left as it was. The peer was touched before the filter was asked, though: the one
trace of a replay is a renewed `lastSeen` (`handleAudio_replayed`), so it leaves none
exactly when the peer was seen at this very instant (`replay_traceless_iff`).
-/

set_option autoImplicit false

namespace VoiceChat

/-- A counter that is not fresh leaves the filters as they are. -/
theorem RemotePeer.checkReplay_of_stale {D : Type} {peer : RemotePeer D} {usedPeerCtx : Bool}
    {counter : UInt32} (stale : (peer.checkReplay usedPeerCtx counter).1 = false) :
    (peer.checkReplay usedPeerCtx counter).2 = peer := by
  change ((peer.filterFor usedPeerCtx).checkAndAccept counter).1 = false at stale
  rcases ReplayFilter.checkAndAccept_cases (peer.filterFor usedPeerCtx) counter with
    ⟨_, refused⟩ | ⟨_, _, accepted, _⟩
  · rw [checkReplay, refused]
    cases usedPeerCtx with
    | true => rfl
    | false => rfl
  · rw [accepted] at stale
    cases stale

namespace Node

variable {D : Type} {prim : Primitives D}

/-- A packet that `acceptAudio` reports as a replay only touches the peer. -/
theorem acceptAudio_replayed {peer : RemotePeer D} {now : Instant} {header : PacketHeader}
    {plaintext : Bytes} {usedPeerCtx : Bool} {id : UInt8}
    (replay : (acceptAudio prim peer now header plaintext usedPeerCtx).2 =
      .error (.replayDetected id)) :
    (acceptAudio prim peer now header plaintext usedPeerCtx).1 = peer.touch now := by
  unfold acceptAudio at replay ⊢
  rcases checked : (peer.touch now).checkReplay usedPeerCtx header.counter with ⟨fresh, after⟩
  rw [checked] at replay
  dsimp only at replay ⊢
  cases fresh with
  | true =>
      rw [if_pos rfl, bufferFrame] at replay
      dsimp only at replay
      split at replay
      · cases replay
      · cases replay
  | false =>
      have stale : ((peer.touch now).checkReplay usedPeerCtx header.counter).1 = false := by
        rw [checked]
      rw [if_neg Bool.false_ne_true, ← RemotePeer.checkReplay_of_stale stale, checked]

/-- A packet that does not open is refused by the cipher. -/
theorem opens_eq_error {ctx : CryptoContext} {packet : Packet} {e : Error}
    (refused : opens prim ctx packet = .error e) : e = .decryptFailed := by
  unfold opens CryptoContext.decrypt at refused
  split at refused
  · cases refused
  · cases refused
    rfl

theorem openAudio_eq_error {node : Node D} {packet : Packet} {e : Error}
    (refused : openAudio prim node packet = .error e) : e = .decryptFailed := by
  have shared : (opens prim node.cryptoCtx packet).map (·, false) = .error e →
      e = .decryptFailed := by
    intro mapped
    cases heard : opens prim node.cryptoCtx packet with
    | error e' =>
        rw [heard] at mapped
        cases mapped
        exact opens_eq_error heard
    | ok plaintext =>
        rw [heard] at mapped
        cases mapped
  unfold openAudio at refused
  split at refused
  · split at refused
    · cases refused
    · exact shared refused
  · exact shared refused

/-- **What a replay does**: it touches the peer that the packet names, and nothing
else. -/
theorem handleAudio_replayed {node : Node D} {env : Env D} {packet : Packet} {id : UInt8}
    (replay : (handleAudio prim node env packet).result = .error (.replayDetected id)) :
    (∃ peer, node.getPeer packet.header.peerId = some peer) ∧
      (handleAudio prim node env packet).node =
        node.modifyPeer packet.header.peerId (·.touch env.now) := by
  unfold handleAudio at replay ⊢
  cases opened : openAudio prim node packet with
  | error e =>
      rw [opened, openAudio_eq_error opened] at replay
      cases replay
  | ok read =>
      obtain ⟨plaintext, usedPeerCtx⟩ := read
      rw [opened] at replay
      dsimp only at replay ⊢
      cases known : node.getPeer packet.header.peerId with
      | none =>
          rw [known] at replay
          cases replay
      | some peer =>
          rw [known] at replay
          have touched := acceptAudio_replayed replay
          refine ⟨⟨peer, rfl⟩, ?_⟩
          dsimp only
          rw [touched]
          refine congrArg (fun peers => { node with peerMgr := { node.peerMgr with peers := peers } })
            (HashMap.modify_congr fun peer' known' => ?_)
          cases known.symm.trans known'
          rfl

/-- **When a replay leaves no trace.** An audio datagram that is reported as a replay
leaves the node exactly as it was if and only if the peer it names was seen at this very
instant. -/
theorem replay_traceless_iff (node : Node D) (env : Env D) (data : Bytes) (srcAddr : SocketAddr)
    {packet : Packet} (parsed : Packet.parse data = .ok packet)
    (type : packet.header.pktType = pktAudio) {id : UInt8}
    (replay : (handleIncoming prim node env data srcAddr).result = .error (.replayDetected id)) :
    (handleIncoming prim node env data srcAddr).node = node ↔
      ∀ peer, node.getPeer packet.header.peerId = some peer → peer.lastSeen = env.now := by
  rw [handleIncoming_eq prim parsed, handlePacket_audio prim type] at replay ⊢
  rw [(handleAudio_replayed replay).2]
  exact modifyPeer_touch_eq_self_iff node packet.header.peerId env.now

end Node

namespace Sample

/-- The host has let a peer in and heard one of its frames. -/
def hostOfOneHeard : Node Unit :=
  (nodeMachine Primitives.transparent).run host
    [(env 0 0, .recv join (addr 1)), (env 0 1, .recv audio (addr 1))]

end Sample

namespace Node

/-- A replay within the same instant leaves no trace. -/
theorem replay_traceless_at_once :
    (handleIncoming Primitives.transparent Sample.hostOfOneHeard (Sample.env 0 1) Sample.audio
      (Sample.addr 1)).node = Sample.hostOfOneHeard :=
  (replay_traceless_iff Sample.hostOfOneHeard (Sample.env 0 1) Sample.audio (Sample.addr 1)
    (show Packet.parse Sample.audio = .ok ⟨⟨pktAudio, 1, 0, 0⟩,
      PacketHeader.toBytes ⟨pktAudio, 1, 0, 0⟩, Sample.audio.drop 8⟩ by decide +kernel) rfl
    (show (handleIncoming Primitives.transparent Sample.hostOfOneHeard (Sample.env 0 1)
      Sample.audio (Sample.addr 1)).result = .error (.replayDetected 1) by decide +kernel)).mpr
    fun peer known => by
      have seen : (Sample.hostOfOneHeard.getPeer 1).map RemotePeer.lastSeen = some 1 := by
        decide +kernel
      have known' : Sample.hostOfOneHeard.getPeer 1 = some peer := known
      rw [known'] at seen
      exact Option.some.inj seen

/-- **A replayed frame renews the peer.** Eleven seconds after the peer was heard last, a
recorded frame of it is reported as a replay and touches it. -/
theorem replay_renews_peer :
    ¬ ∀ (inputs : List (Env Unit × Event)) (env : Env Unit) (data : Bytes) (srcAddr : SocketAddr)
      (packet : Packet) (id : UInt8), Packet.parse data = .ok packet →
      packet.header.pktType = pktAudio →
      let node := (nodeMachine Primitives.transparent).run Sample.host inputs
      (handleIncoming Primitives.transparent node env data srcAddr).result =
          .error (.replayDetected id) →
        (handleIncoming Primitives.transparent node env data srcAddr).node = node := by
  intro claim
  have same := claim [(Sample.env 0 0, .recv Sample.join (Sample.addr 1)),
    (Sample.env 0 1, .recv Sample.audio (Sample.addr 1))] (Sample.env 0 11000000001) Sample.audio
    (Sample.addr 1) ⟨⟨pktAudio, 1, 0, 0⟩, PacketHeader.toBytes ⟨pktAudio, 1, 0, 0⟩,
      Sample.audio.drop 8⟩ 1 (by decide +kernel) rfl (by decide +kernel)
  have seen := congrArg (fun node => (node.getPeer 1).map RemotePeer.lastSeen) same
  exact absurd seen (by decide +kernel)

end Node

end VoiceChat
