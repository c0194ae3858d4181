import VoiceChat.Session.Coherence
import VoiceChat.Session.Stream

/-!
# Audio is heard once

A datagram of audio goes through one of two replay filters, by the key that opens
it, and no filter is ever replaced: contexts come and go with key exchanges and
peer lists, but an entry of the table keeps its filters through all of them. As a
datagram opens under one key only, every copy of it meets the same filter, which
has seen its counter after the first; so it is pushed into a jitter buffer at most
once, however often and whenever it comes (`pushed_at_most_once`).
-/

set_option autoImplicit false

namespace VoiceChat

namespace Node

variable {D : Type} {prim : Primitives D}

/-! ## What is pushed -/

/-- The samples that an audio packet puts into the jitter buffer of its sender. -/
def pushed (prim : Primitives D) (node : Node D) (packet : Packet) : Option Pcm :=
  match openAudio prim node packet with
  | .error _ => none
  | .ok (plaintext, usedPeerCtx) =>
    match node.getPeer packet.header.peerId with
    | none => none
    | some peer =>
      if ((peer.filterFor usedPeerCtx).checkAndAccept packet.header.counter).1 then
        (prim.decode peer.decoder plaintext).2
      else none

/-- The step receives the datagram as audio and pushes it into a jitter buffer. -/
def Pushes (prim : Primitives D) (data : Bytes) (node : Node D) (input : Env D × Event) : Prop :=
  ∃ srcAddr packet, input.2 = .recv data srcAddr ∧ Packet.parse data = .ok packet ∧
    packet.header.pktType = pktAudio ∧ (pushed prim node packet).isSome

instance Pushes.decidable (data : Bytes) (node : Node D) (input : Env D × Event) :
    Decidable (Pushes prim data node input) :=
  match received : input.2, parsed : Packet.parse data with
  | .recv data' srcAddr, .ok packet =>
      decidable_of_iff (data' = data ∧ packet.header.pktType = pktAudio ∧
        (pushed prim node packet).isSome) (by
          constructor
          · rintro ⟨rfl, type, some⟩
            exact ⟨srcAddr, packet, received, parsed, type, some⟩
          · rintro ⟨_, packet', received', parsed', type, some⟩
            cases received.symm.trans received'
            cases parsed.symm.trans parsed'
            exact ⟨rfl, type, some⟩)
  | .recv _ _, .error _ => .isFalse (by
      rintro ⟨_, _, _, parsed', _⟩
      cases parsed.symm.trans parsed')
  | .frame _, _ | .playout, _ | .keepalive, _ | .ping, _ | .adapt _, _ => .isFalse (by
      rintro ⟨_, _, received', _⟩
      cases received.symm.trans received')

theorem acceptAudio_jitterBuffer (prim : Primitives D) (peer : RemotePeer D) (now : Instant)
    (header : PacketHeader) (plaintext : Bytes) (usedPeerCtx : Bool) :
    (acceptAudio prim peer now header plaintext usedPeerCtx).1.jitterBuffer =
      match (if ((peer.filterFor usedPeerCtx).checkAndAccept header.counter).1 then
        (prim.decode peer.decoder plaintext).2 else none) with
      | some pcm => peer.jitterBuffer.push header.seqNum pcm
      | none => peer.jitterBuffer := by
  have fresh : ((peer.touch now).checkReplay usedPeerCtx header.counter).1 =
      ((peer.filterFor usedPeerCtx).checkAndAccept header.counter).1 := by
    cases usedPeerCtx with
    | false => rfl
    | true => rfl
  obtain ⟨replayFilter, peerReplayFilter, checked⟩ :=
    checkReplay_fields (peer.touch now) usedPeerCtx header.counter
  unfold acceptAudio
  dsimp only
  rw [fresh, checked]
  split_ifs with accepted
  · unfold bufferFrame
    dsimp only [RemotePeer.touch]
    cases (prim.decode peer.decoder plaintext).2 with
    | none => rfl
    | some pcm => rfl
  · rfl

/-- **It is pushed into the jitter buffer** of its sender, and into no other. -/
theorem handleAudio_jitterBuffer (node : Node D) (env : Env D) (packet : Packet) (id : UInt8) :
    ((handleAudio prim node env packet).node.getPeer id).map RemotePeer.jitterBuffer =
      (node.getPeer id).map fun peer =>
        match pushed prim node packet with
        | some pcm =>
            if id = packet.header.peerId then peer.jitterBuffer.push packet.header.seqNum pcm
            else peer.jitterBuffer
        | none => peer.jitterBuffer := by
  cases opened : openAudio prim node packet with
  | error e =>
    rw [handleAudio, pushed, opened]
    rfl
  | ok heard =>
    obtain ⟨plaintext, usedPeerCtx⟩ := heard
    cases sender : node.getPeer packet.header.peerId with
    | none =>
      rw [handleAudio, pushed, opened]
      dsimp only
      rw [sender]
      rfl
    | some speaker =>
      rw [handleAudio_getPeer opened env sender, pushed, opened]
      dsimp only
      rw [sender]
      by_cases named : id = packet.header.peerId
      · subst named
        rw [if_pos rfl, sender, Option.map_some, Option.map_some,
          acceptAudio_jitterBuffer prim speaker env.now packet.header plaintext usedPeerCtx]
        simp only [if_true]
      · rw [if_neg named]
        refine Option.map_congr fun peer _ => ?_
        simp only [if_neg named]
        split
        · rfl
        · rfl

/-! ## The key that opens it -/

/-- No context of a peer has the pre-shared key, and the session context has it. -/
structure Guarded (node : Node D) : Prop where
  coherent : node.Coherent
  peers : ∀ id peer ctx, node.getPeer id = some peer → peer.peerCrypto = some ctx →
    ctx.key ≠ node.key

/-- A KEY_EXCHANGE that opens derives another key than the pre-shared one. -/
def DerivesOther (prim : Primitives D) (node : Node D) (input : Env D × Event) : Prop :=
  ∀ data srcAddr packet derivedKey, input.2 = .recv data srcAddr →
    Packet.parse data = .ok packet → packet.header.pktType = pktKeyExchange →
    openKeyExchange prim node packet = .ok derivedKey → derivedKey ≠ node.key

namespace Guarded

/-- The filter that audio goes through tells whether the pre-shared key opened it. -/
theorem openAudio {node : Node D} (guarded : node.Guarded) {packet : Packet} {plaintext : Bytes}
    {usedPeerCtx : Bool} (opened : Node.openAudio prim node packet = .ok (plaintext, usedPeerCtx)) :
    ∃ ctx, opens prim ctx packet = .ok plaintext ∧ (usedPeerCtx = true ↔ ctx.key ≠ node.key) := by
  obtain ⟨ctx, success, ⟨rfl, peer, known, keyed⟩ | ⟨rfl, rfl⟩⟩ := openAudio_eq_ok opened
  · exact ⟨ctx, success, iff_of_true rfl (guarded.peers _ peer ctx known keyed)⟩
  · exact ⟨node.cryptoCtx, success, iff_of_false Bool.false_ne_true
      fun other => other guarded.coherent.ctxKey⟩

/-- Every step keeps the keys apart. -/
theorem step {node : Node D} (guarded : node.Guarded) (env : Env D) {event : Event}
    (other : DerivesOther prim node (env, event)) :
    (Node.step prim node env event).1.Guarded := by
  refine ⟨step_coherent prim guarded.coherent env event, ?_⟩
  intro id peer' ctx known' keyed
  rw [step_key]
  cases known : node.getPeer id with
  | none =>
    have fresh := step_secret_of_unknown prim node env event known known'
    rw [Option.map_eq_none_iff.mp (Prod.mk.inj fresh).2] at keyed
    cases keyed
  | some peer =>
    obtain ⟨peer'', known'', same | ⟨data, srcAddr, packet, derivedKey, received, parsed, type,
      _, opened, looks⟩⟩ := step_secret prim node env event known
    · cases known''.symm.trans known'
      obtain ⟨before, stored, sameKey⟩ := key_of_secret same keyed
      rw [← sameKey]
      exact guarded.peers id peer before known stored
    · cases known''.symm.trans known'
      have key := (Prod.mk.inj looks).2
      rw [keyed, Option.map_some, Option.some_inj] at key
      rw [(Prod.mk.inj key).1]
      exact other data srcAddr packet derivedKey received parsed type opened

theorem of_starts {node : Node D} (starts : node.Starts) : node.Guarded := by
  refine ⟨starts.coherent, fun id peer ctx known => ?_⟩
  cases starts with
  | host key sessionId keyExchange => cases known
  | joiner key keyExchange => cases known

end Guarded

/-! ## The filter that has seen it -/

/-- The sender of audio that opened, after the step. -/
theorem step_heard {node : Node D} (env : Env D) {data : Bytes} (srcAddr : SocketAddr)
    {packet : Packet} {plaintext : Bytes} {usedPeerCtx : Bool} {peer : RemotePeer D}
    (parsed : Packet.parse data = .ok packet) (type : packet.header.pktType = pktAudio)
    (opened : openAudio prim node packet = .ok (plaintext, usedPeerCtx))
    (known : node.getPeer packet.header.peerId = some peer) :
    (step prim node env (.recv data srcAddr)).1.getPeer packet.header.peerId =
      some (acceptAudio prim peer env.now packet.header plaintext usedPeerCtx).1 := by
  change (handleIncoming prim node env data srcAddr).node.getPeer _ = _
  rw [handleIncoming_eq prim parsed, handlePacket_audio prim type,
    handleAudio_getPeer opened env known, if_pos rfl]

/-- What a filter of a peer has seen, it has seen after every step. -/
theorem step_seen (prim : Primitives D) (node : Node D) (env : Env D) (event : Event) {id : UInt8}
    {peer : RemotePeer D} (known : node.getPeer id = some peer) {used : Bool} {counter : UInt32}
    (seen : (peer.filterFor used).Seen counter) :
    ∃ peer', (step prim node env event).1.getPeer id = some peer' ∧
      (peer'.filterFor used).Seen counter := by
  by_cases heard : ∃ data srcAddr packet opened, event = .recv data srcAddr ∧
      Packet.parse data = .ok packet ∧ packet.header.pktType = pktAudio ∧
      packet.header.peerId = id ∧ openAudio prim node packet = .ok opened
  · obtain ⟨data, srcAddr, packet, ⟨plaintext, usedPeerCtx⟩, rfl, parsed, type, rfl, opened⟩ := heard
    refine ⟨_, step_heard env srcAddr parsed type opened known, ?_⟩
    rw [acceptAudio_filterFor]
    split_ifs with same
    · rw [← same]
      exact ReplayFilter.Seen.checkAndAccept (Or.inl seen)
    · exact seen
  · obtain ⟨peer', known', same⟩ := step_filters prim node env event known
      fun data srcAddr packet received parsed type named opened success =>
        heard ⟨data, srcAddr, packet, opened, received, parsed, type, named, success⟩
    refine ⟨peer', known', ?_⟩
    rw [filterFor_of_filters same]
    exact seen

/-- The packet was opened, and the filter that goes with its key has seen its
counter. -/
def Spent (prim : Primitives D) (packet : Packet) (node : Node D) : Prop :=
  ∃ peer used ctx plaintext, node.getPeer packet.header.peerId = some peer ∧
    (peer.filterFor used).Seen packet.header.counter ∧ opens prim ctx packet = .ok plaintext ∧
    (used = true ↔ ctx.key ≠ node.key)

/-- Two contexts that open a packet have the same key. -/
theorem key_of_opens (oneKey : prim.aead.OneKey) {packet : Packet} {ctx ctx' : CryptoContext}
    {plaintext plaintext' : Bytes} (first : opens prim ctx packet = .ok plaintext)
    (second : opens prim ctx' packet = .ok plaintext') : ctx.key = ctx'.key := by
  have decrypted : ∀ {ctx : CryptoContext} {plaintext : Bytes},
      opens prim ctx packet = .ok plaintext →
      prim.aead.decrypt ctx.key (buildNonce ctx.sessionId packet.header.peerId .send
        packet.header.seqNum packet.header.counter) packet.headerBytes.toList packet.ciphertext =
          some plaintext := by
    intro ctx plaintext opened
    unfold opens CryptoContext.decrypt at opened
    split at opened
    · rename_i success
      cases opened
      exact success
    · cases opened
  exact oneKey _ _ _ _ _ _ _ _ (decrypted first) (decrypted second)

/-- A packet that is pushed is spent then. -/
theorem spent_of_pushed {node : Node D} (guarded : node.Guarded) {env : Env D} {data : Bytes}
    {srcAddr : SocketAddr} {packet : Packet} (parsed : Packet.parse data = .ok packet)
    (type : packet.header.pktType = pktAudio) (push : (pushed prim node packet).isSome) :
    Spent prim packet (step prim node env (.recv data srcAddr)).1 := by
  unfold pushed at push
  split at push
  · cases push
  · rename_i plaintext usedPeerCtx opened
    split at push
    · cases push
    · rename_i peer known
      obtain ⟨ctx, success, flag⟩ := guarded.openAudio opened
      refine ⟨_, usedPeerCtx, ctx, plaintext, step_heard env srcAddr parsed type opened known, ?_,
        success, ?_⟩
      · rw [acceptAudio_filterFor, if_pos rfl]
        exact ReplayFilter.Seen.checkAndAccept (Or.inr rfl)
      · rw [step_key]
        exact flag

/-- A packet that is spent is not pushed again, and stays spent. -/
theorem Spent.step {node : Node D} {packet : Packet} (spent : Spent prim packet node)
    (guarded : node.Guarded) (oneKey : prim.aead.OneKey) (env : Env D) (event : Event) :
    pushed prim node packet = none ∧ Spent prim packet (Node.step prim node env event).1 := by
  obtain ⟨peer, used, ctx, plaintext, known, seen, success, flag⟩ := spent
  constructor
  · unfold pushed
    split
    · rfl
    · rename_i plaintext' usedPeerCtx opened
      rw [known]
      dsimp only
      obtain ⟨ctx', success', flag'⟩ := guarded.openAudio opened
      have sameKey := key_of_opens oneKey success success'
      have sameFilter : usedPeerCtx = used := Bool.eq_iff_iff.mpr
        (flag'.trans (by rw [flag, sameKey]))
      rw [sameFilter, if_neg (fun fresh => (ReplayFilter.checkAndAccept_fst _ _).mp fresh seen)]
  · obtain ⟨peer', known', seen'⟩ := step_seen prim node env event known seen
    refine ⟨peer', used, ctx, plaintext, known', seen', success, ?_⟩
    rw [step_key]
    exact flag

/-! ## Every run -/

/-- **Audio is pushed at most once.** In every run of a node, whatever it receives and
in whatever order, a datagram of audio is pushed into a jitter buffer at most once,
however often it comes. -/
theorem pushed_at_most_once {node : Node D} (starts : node.Starts) (oneKey : prim.aead.OneKey)
    (inputs : List (Env D × Event))
    (apart : (nodeMachine prim).Along (DerivesOther prim) node inputs) (data : Bytes) :
    (nodeMachine prim).count (Pushes prim data) node inputs ≤ 1 := by
  refine Machine.count_le_one Guarded
    (fun node => ∀ packet, Packet.parse data = .ok packet → Spent prim packet node) ?_ ?_ ?_
    (Guarded.of_starts starts) apart
  · intro node input guarded other
    exact guarded.step input.1 other
  · rintro node ⟨env, event⟩ guarded ⟨srcAddr, packet, rfl, parsed, type, push⟩ packet' parsed'
    cases parsed.symm.trans parsed'
    exact spent_of_pushed guarded parsed type push
  · rintro node ⟨env, event⟩ guarded spent _
    refine ⟨?_, fun packet parsed => ((spent packet parsed).step guarded oneKey env event).2⟩
    rintro ⟨srcAddr, packet, _, parsed, _, push⟩
    rw [((spent packet parsed).step guarded oneKey env event).1] at push
    cases push

/-- A packet of another type derives no key. -/
theorem derivesOther_of_type {node : Node D} {env : Env D} {data : Bytes} {srcAddr : SocketAddr}
    {packet : Packet} (parsed : Packet.parse data = .ok packet)
    (other : packet.header.pktType ≠ pktKeyExchange) :
    DerivesOther prim node (env, .recv data srcAddr) := by
  intro data' srcAddr' packet' derivedKey received parsed' type _
  cases received
  cases parsed.symm.trans parsed'
  exact absurd type other

end Node

namespace Sample

/-- A frame of the peer with id 1, sealed with the session context. -/
def audio : Bytes :=
  wires (Node.sealCounted Primitives.transparent
    { host with peerMgr := host.peerMgr.setIdentity 1 session } pktAudio [1, 2] 0 (addr 0)).2

/-- The KEY_EXCHANGE of the peer with id 1. -/
def exchangeOfOne : Bytes :=
  wires (Node.sendKeyExchange Primitives.transparent greeting.node 0 (addr 0)).2

/-- The host lets a peer in and hears one of its frames four times, twice before it gets the
KEY_EXCHANGE of the peer and twice after that. -/
def acrossKeys : List (Env Unit × Node.Event) :=
  [(env 0 0, .recv join (addr 1)), (env 0 1, .recv audio (addr 1)),
    (env 0 2, .recv audio (addr 2)), (env 0 3, .recv exchangeOfOne (addr 1)),
    (env 0 4, .recv audio (addr 1)), (env 0 5, .recv exchangeOfOne (addr 1)),
    (env 0 6, .recv audio (addr 1))]

/-- The host lets a peer in and hears one of its frames three times. -/
def replayed : List (Env Unit × Node.Event) :=
  [(env 0 0, .recv join (addr 1)), (env 0 1, .recv audio (addr 1)),
    (env 0 2, .recv audio (addr 1)), (env 0 3, .recv audio (addr 2))]

end Sample

namespace Node

/-- Of four copies, before and after the keys are exchanged, one is pushed. -/
theorem pushed_once_across_keys :
    (nodeMachine Primitives.transparent).count (Pushes Primitives.transparent Sample.audio)
      Sample.host Sample.acrossKeys = 1 := by
  have heard : 0 < (nodeMachine Primitives.transparent).count
      (Pushes Primitives.transparent Sample.audio) Sample.host Sample.acrossKeys := by
    decide +kernel
  have audio : ∃ packet, Packet.parse Sample.audio = .ok packet ∧
      packet.header.pktType ≠ pktKeyExchange := ⟨_, rfl, by decide⟩
  have join : ∃ packet, Packet.parse Sample.join = .ok packet ∧
      packet.header.pktType ≠ pktKeyExchange := ⟨_, rfl, by decide⟩
  obtain ⟨_, audio, type⟩ := audio
  obtain ⟨_, join, type'⟩ := join
  have derives : ∀ {node : Node Unit} {now : Env Unit} {srcAddr : SocketAddr},
      node.key = Sample.psk →
      (Packet.parse Sample.exchangeOfOne).toOption.bind (fun packet =>
        (openKeyExchange Primitives.transparent node packet).toOption) =
          some (Vector.replicate 32 6) →
      DerivesOther Primitives.transparent node (now, .recv Sample.exchangeOfOne srcAddr) := by
    rintro node now srcAddr key value _ _ packet derivedKey ⟨⟩ parsed _ opened
    rw [parsed] at value
    change (openKeyExchange Primitives.transparent node packet).toOption = _ at value
    rw [opened] at value
    rw [Option.some.inj value, key]
    decide
  have once : (nodeMachine Primitives.transparent).count
      (Pushes Primitives.transparent Sample.audio) Sample.host Sample.acrossKeys ≤ 1 :=
    pushed_at_most_once (.host ..) Aead.transparent_oneKey Sample.acrossKeys
      ⟨derivesOther_of_type join type', derivesOther_of_type audio type,
        derivesOther_of_type audio type, derives (by decide +kernel) (by decide +kernel),
        derivesOther_of_type audio type, derives (by decide +kernel) (by decide +kernel),
        derivesOther_of_type audio type, trivial⟩ Sample.audio
  exact Nat.le_antisymm once heard

end Node

end VoiceChat
