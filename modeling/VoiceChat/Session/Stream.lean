import VoiceChat.Session.Numbering

/-!
# The audio for one peer

A frame tick sends to every connected peer; `audioFor` is what it sends to a given
one. These packets take their counters from the session context or from the
context of the peer, in order (`Streams`).
-/

set_option autoImplicit false

namespace VoiceChat

namespace Node

variable {D : Type} {prim : Primitives D}

/-- How many counters were drawn from the context of a peer. -/
def peerCounter (peer : RemotePeer D) : ℕ :=
  (peer.peerCrypto.map fun ctx => ctx.sendCounter.toNat).getD 0

/-- The counter that the next audio for a peer takes. -/
def counterOf (node : Node D) (id : UInt8) : KeyScope → ℕ
  | .psk => node.cryptoCtx.sendCounter.toNat
  | .peer => ((node.getPeer id).map peerCounter).getD 0

/-- A context for the audio to a peer. -/
def AudioContext (node : Node D) (id : UInt8) (ctx : CryptoContext) : KeyScope → Prop
  | .psk => ctx = node.cryptoCtx
  | .peer => ∃ peer, node.getPeer id = some peer ∧ peer.peerCrypto = some ctx

/-- What a frame tick sends to one peer. -/
def audioFor (prim : Primitives D) (node : Node D) (env : Env D) (opus : Bytes) (id : UInt8) :
    List Emission :=
  ((eachPeer (sendFrameTo prim opus)).observe fun node target =>
    if target.1 = id then (sendFrameTo prim opus node target).2 else []).outputs node
    (node.peerMgr.connectedPeers env.order)

/-- What part of a frame tick sends to one peer: audio in the order of its
counters, which were drawn in between. -/
structure Streams (prim : Primitives D) (id : UInt8) (node node' : Node D)
    (out : List Emission) : Prop where
  frame : Frame secret node node'
  advances : ∀ scope, node.counterOf id scope ≤ node'.counterOf id scope
  header : ∀ e ∈ out, e.header.pktType = pktAudio ∧ e.header.peerId = node.peerMgr.localId
  sealedWith : ∀ e ∈ out, ∃ ctx, node.AudioContext id ctx e.scope ∧ e.SealedWith prim.aead ctx
  above : ∀ e ∈ out, node.counterOf id e.scope ≤ e.header.counter.toNat
  below : ∀ e ∈ out, e.header.counter.toNat < node'.counterOf id e.scope
  ordered : out.Pairwise fun first second => first.scope = second.scope →
    first.header.counter.toNat < second.header.counter.toNat

/-- A context after a step that keeps the secrets was there before, up to its
counter. -/
theorem AudioContext.of_frame {node node' : Node D} (frame : Frame secret node node')
    {id : UInt8} {ctx' : CryptoContext} {scope : KeyScope}
    (context : node'.AudioContext id ctx' scope) :
    ∃ ctx, node.AudioContext id ctx scope ∧ ctx.key = ctx'.key ∧ ctx.sessionId = ctx'.sessionId := by
  cases scope with
  | psk =>
      obtain rfl := context
      exact ⟨node.cryptoCtx, rfl, frame.ctxKey.symm, frame.ctxSessionId.symm⟩
  | peer =>
      obtain ⟨peer', known', crypto'⟩ := context
      obtain ⟨peer, known, same⟩ := frame.getPeer_back known'
      rw [secret, secret, crypto', Prod.mk.injEq, Option.map_some, eq_comm (a := some _),
        Option.map_eq_some_iff] at same
      obtain ⟨_, ctx, crypto, looks⟩ := same
      obtain ⟨key, sessionId⟩ := Prod.mk.inj looks
      exact ⟨ctx, ⟨peer, known, crypto⟩, key, sessionId⟩

namespace Streams

/-- Nothing is sent. -/
theorem silent (prim : Primitives D) {id : UInt8} {node node' : Node D}
    (frame : Frame secret node node')
    (advances : ∀ scope, node.counterOf id scope ≤ node'.counterOf id scope) :
    Streams prim id node node' [] where
  frame := frame
  advances := advances
  header _ member := absurd member List.not_mem_nil
  sealedWith _ member := absurd member List.not_mem_nil
  above _ member := absurd member List.not_mem_nil
  below _ member := absurd member List.not_mem_nil
  ordered := List.Pairwise.nil

theorem trans {id : UInt8} {first second third : Node D} {out out' : List Emission}
    (one : Streams prim id first second out) (two : Streams prim id second third out') :
    Streams prim id first third (out ++ out') where
  frame := one.frame.trans two.frame
  advances scope := (one.advances scope).trans (two.advances scope)
  header e member := by
    rcases List.mem_append.mp member with early | late
    · exact one.header e early
    · obtain ⟨type, peerId⟩ := two.header e late
      exact ⟨type, peerId.trans one.frame.localId⟩
  sealedWith e member := by
    rcases List.mem_append.mp member with early | late
    · exact one.sealedWith e early
    · obtain ⟨ctx', context', sealedWith⟩ := two.sealedWith e late
      obtain ⟨ctx, context, key, sessionId⟩ := context'.of_frame one.frame
      exact ⟨ctx, context, sealedWith.congr key sessionId⟩
  above e member := by
    rcases List.mem_append.mp member with early | late
    · exact one.above e early
    · exact (one.advances e.scope).trans (two.above e late)
  below e member := by
    rcases List.mem_append.mp member with early | late
    · exact Nat.lt_of_lt_of_le (one.below e early) (two.advances e.scope)
    · exact two.below e late
  ordered := by
    refine List.pairwise_append.mpr ⟨one.ordered, two.ordered, ?_⟩
    intro e early e' late same
    have between := two.above e' late
    rw [← same] at between
    exact Nat.lt_of_lt_of_le (one.below e early) between

/-- One packet. -/
theorem single {id : UInt8} {node node' : Node D} {e : Emission} (frame : Frame secret node node')
    (advances : ∀ scope, node.counterOf id scope ≤ node'.counterOf id scope)
    (type : e.header.pktType = pktAudio) (peerId : e.header.peerId = node.peerMgr.localId)
    (sealedWith : ∃ ctx, node.AudioContext id ctx e.scope ∧ e.SealedWith prim.aead ctx)
    (counter : e.header.counter.toNat = node.counterOf id e.scope)
    (moved : node'.counterOf id e.scope = e.header.counter.toNat + 1) :
    Streams prim id node node' [e] where
  frame := frame
  advances := advances
  header e' member := List.mem_singleton.mp member ▸ ⟨type, peerId⟩
  sealedWith e' member := List.mem_singleton.mp member ▸ sealedWith
  above e' member := List.mem_singleton.mp member ▸ counter.ge
  below e' member := by
    rw [List.mem_singleton.mp member, moved]
    exact Nat.lt_succ_self _
  ordered := List.pairwise_singleton _ _

end Streams

theorem counterOf_peer {node : Node D} {id : UInt8} {peer : RemotePeer D}
    (known : node.getPeer id = some peer) : node.counterOf id .peer = peerCounter peer := by
  rw [counterOf, known]
  rfl

/-- Which counter audio under the key of a peer takes. -/
theorem sendFrameTo_peerCounter (prim : Primitives D) (opus : Bytes) (node : Node D)
    (target : UInt8 × SocketAddr) (id : UInt8) :
    node.counterOf id .peer ≤ (sendFrameTo prim opus node target).1.counterOf id .peer ∧
      ∀ e ∈ (sendFrameTo prim opus node target).2, e.scope = .peer → target.1 = id →
        e.header.counter.toNat = node.counterOf id .peer ∧
          (sendFrameTo prim opus node target).1.counterOf id .peer =
            e.header.counter.toNat + 1 := by
  by_cases same : target.1 = id
  · subst same
    cases known : node.getPeer target.1 with
    | none =>
      have idle : sendFrameTo prim opus node target = (node, []) := by rw [sendFrameTo, known]
      rw [idle]
      exact ⟨Nat.le_refl _, fun e member => absurd member List.not_mem_nil⟩
    | some peer =>
      obtain ⟨peer', known', _, _, _, numbers⟩ := sendFrameTo_numbering prim opus node known
      rw [counterOf_peer known, counterOf_peer known']
      cases numbers with
      | session incomplete crypto scope =>
        have kept : peerCounter peer' = peerCounter peer := by rw [peerCounter, crypto, peerCounter]
        refine ⟨kept.ge, fun e member own => ?_⟩
        rw [scope e member] at own
        cases own
      | exhausted complete last crypto silent =>
        have kept : peerCounter peer' = peerCounter peer := by rw [peerCounter, crypto, peerCounter]
        rw [silent]
        exact ⟨kept.ge, fun e member => absurd member List.not_mem_nil⟩
      | @drawn ctx ctx' complete draw crypto sent =>
        -- the counter of the target moves on by one
        obtain ⟨_, _, _, moved⟩ := CryptoContext.nextCounter_eq_ok draw
        have before : peerCounter peer = ctx.sendCounter.toNat := by
          rw [peerCounter, (sendContext_eq_some complete).2.2]
          rfl
        have after : peerCounter peer' = ctx.sendCounter.toNat + 1 := by
          rw [peerCounter, crypto]
          exact moved
        rw [before, after]
        refine ⟨Nat.le_succ _, fun e member _ _ => ?_⟩
        rcases sent with none | ⟨e', one, _, _, header⟩
        · rw [none] at member
          cases member
        · rw [one] at member
          have counter : e.header.counter = ctx.sendCounter := by
            rw [List.mem_singleton.mp member, header]
          rw [counter]
          exact ⟨rfl, rfl⟩
  · have kept : (sendFrameTo prim opus node target).1.counterOf id .peer =
        node.counterOf id .peer := by
      rw [counterOf, sendFrameTo_getPeer_of_ne prim opus node (Ne.symm same), counterOf]
    exact ⟨kept.ge, fun e _ _ here => absurd here same⟩

/-- **One peer's share of a frame.** -/
theorem sendFrameTo_streams (prim : Primitives D) (opus : Bytes) (node : Node D)
    (target : UInt8 × SocketAddr) (id : UInt8) :
    Streams prim id node (sendFrameTo prim opus node target).1
      (if target.1 = id then (sendFrameTo prim opus node target).2 else []) := by
  have frame : Frame secret node (sendFrameTo prim opus node target).1 :=
    sendFrameTo_frame opus node target (fun _ _ => rfl) fun peer ctx counter keyed => by
      rw [secret, secret, keyed]
      rfl
  obtain ⟨later, drawn⟩ := sendFrameTo_peerCounter prim opus node target id
  have advances : ∀ scope, node.counterOf id scope ≤
      (sendFrameTo prim opus node target).1.counterOf id scope := by
    intro scope
    cases scope with
    | psk => exact frame.counter
    | peer => exact later
  split_ifs with same
  · rcases sendFrameTo_cases prim opus node target with none |
      ⟨e, peer, one, known, _, _, ⟨ctx, complete, scope, sealedWith, header⟩ |
        ⟨_, scope, sealedWith, header, moved⟩⟩
    · rw [none]
      exact Streams.silent prim frame advances
    · obtain ⟨counter, moved⟩ := drawn e (one ▸ List.mem_singleton_self e) scope same
      rw [one]
      exact Streams.single frame advances (by rw [header]) (by rw [header])
        ⟨ctx, scope ▸ ⟨peer, same ▸ known, (sendContext_eq_some complete).2.2⟩, sealedWith⟩
        (by rw [scope, counter]) (by rw [scope, moved])
    · have counter : e.header.counter = node.cryptoCtx.sendCounter :=
        congrArg PacketHeader.counter header
      rw [one]
      exact Streams.single frame advances (by rw [header]) (by rw [header])
        ⟨node.cryptoCtx, scope ▸ rfl, sealedWith⟩ (by rw [scope, counter]; rfl)
        (by rw [scope, counter]; exact moved)
  · exact Streams.silent prim frame advances

/-- **The audio for one peer streams.** -/
theorem audioFor_streams (prim : Primitives D) (node : Node D) (env : Env D) (opus : Bytes)
    (id : UInt8) : Streams prim id node (step prim node env (.frame opus)).1
      (audioFor prim node env opus id) := by
  have := Machine.invariant_outputs
    (M := (eachPeer (sendFrameTo prim opus)).observe fun node target =>
      if target.1 = id then (sendFrameTo prim opus node target).2 else [])
    (Streams prim id node)
    (fun node' out target streams _ => streams.trans (sendFrameTo_streams prim opus node' target id))
    (Streams.silent prim (Frame.refl secret node) fun _ => Nat.le_refl _)
    (Machine.along_true _ node (node.peerMgr.connectedPeers env.order))
  rwa [Machine.run_observe, List.nil_append] at this

theorem settled_peerCounter : Settled (peerCounter : RemotePeer D → ℕ) 0 where
  new _ _ _ _ := rfl
  addr _ _ := rfl
  state _ _ _ := rfl
  buffers _ _ _ := rfl
  latency _ _ _ := rfl
  sendSeq _ _ := rfl
  kxSent _ _ := rfl

/-- **Only a key exchange in its name sets the counter of a known peer back.** -/
theorem step_peerCounter (prim : Primitives D) (node : Node D) (env : Env D) (event : Event)
    {id : UInt8} {peer : RemotePeer D} (known : node.getPeer id = some peer)
    (unopened : ∀ data srcAddr packet, event = .recv data srcAddr →
      Packet.parse data = .ok packet → packet.header.pktType = pktKeyExchange →
      packet.header.peerId = id → ∀ derivedKey,
        openKeyExchange prim node packet ≠ .ok derivedKey) :
    node.counterOf id .peer ≤ (step prim node env event).1.counterOf id .peer := by
  by_cases sends : SendsFrame event
  · obtain ⟨opus, rfl⟩ := sends
    exact (audioFor_streams prim node env opus id).advances .peer
  by_cases received : Receives pktKeyExchange event
  · obtain ⟨data, srcAddr, packet, rfl, parsed, type⟩ := received
    change _ ≤ (handleIncoming prim node env data srcAddr).node.counterOf id .peer
    rw [handleIncoming_eq prim parsed, handlePacket_keyExchange prim type]
    cases opened : openKeyExchange prim node packet with
    | error e =>
        rw [handleKeyExchange, opened]
        exact Nat.le_refl _
    | ok derivedKey =>
        have other : id ≠ packet.header.peerId := fun same =>
          unopened data srcAddr packet rfl parsed type same.symm derivedKey opened
        have same := handleKeyExchange_getPeer opened srcAddr id
        rw [known, Option.map_some, if_neg other, Option.map_eq_some_iff] at same
        obtain ⟨peer', known', looks⟩ := same
        rw [counterOf_peer known, counterOf_peer known', peerCounter, peerCounter,
          (Prod.mk.inj looks).2]
  · have grows := step_grows settled_peerCounter prim node env event (fun _ _ _ _ => rfl)
      (fun keyExchange => absurd keyExchange received) (fun frame => absurd frame sends)
    obtain ⟨peer', known', same⟩ := grows.getPeer known
    rw [counterOf_peer known, counterOf_peer known', same]

/-! ## The filters that hear it -/

/-- The replay filters of a peer. -/
def filters (peer : RemotePeer D) : ReplayFilter × ReplayFilter :=
  (peer.replayFilter, peer.peerReplayFilter)

theorem settled_filters :
    Settled (filters : RemotePeer D → _) (ReplayFilter.new, ReplayFilter.new) where
  new _ _ _ _ := rfl
  addr _ _ := rfl
  state _ _ _ := rfl
  buffers _ _ _ := rfl
  latency _ _ _ := rfl
  sendSeq _ _ := rfl
  kxSent _ _ := rfl

theorem filterFor_of_filters {peer peer' : RemotePeer D} (same : filters peer' = filters peer)
    (usedPeerCtx : Bool) : peer'.filterFor usedPeerCtx = peer.filterFor usedPeerCtx := by
  obtain ⟨shared, own⟩ := Prod.mk.inj same
  cases usedPeerCtx with
  | false => exact shared
  | true => exact own

/-- Audio that was opened goes through one of the filters, and leaves the other
alone. -/
theorem acceptAudio_filterFor (prim : Primitives D) (peer : RemotePeer D) (now : Instant)
    (header : PacketHeader) (plaintext : Bytes) (usedPeerCtx other : Bool) :
    (acceptAudio prim peer now header plaintext usedPeerCtx).1.filterFor other =
      if other = usedPeerCtx then
        ((peer.filterFor usedPeerCtx).checkAndAccept header.counter).2
      else peer.filterFor other := by
  have buffered : ∀ checked : RemotePeer D,
      (bufferFrame prim checked header.seqNum plaintext).1.filterFor other =
        checked.filterFor other := by
    intro checked
    obtain ⟨decoder, jitterBuffer, fields⟩ :=
      bufferFrame_fields prim checked header.seqNum plaintext
    rw [fields]
    rfl
  have checked : ((peer.touch now).checkReplay usedPeerCtx header.counter).2.filterFor other =
      if other = usedPeerCtx then
        ((peer.filterFor usedPeerCtx).checkAndAccept header.counter).2
      else peer.filterFor other := by
    cases usedPeerCtx with
    | false =>
        cases other with
        | false => rfl
        | true => rfl
    | true =>
        cases other with
        | false => rfl
        | true => rfl
  rw [← checked]
  unfold acceptAudio
  dsimp only
  split
  · exact buffered _
  · rfl

/-- Audio that opens in the name of a known peer. -/
theorem handleAudio_getPeer {node : Node D} {packet : Packet} {plaintext : Bytes}
    {usedPeerCtx : Bool} (opened : openAudio prim node packet = .ok (plaintext, usedPeerCtx))
    (env : Env D) {peer : RemotePeer D} (known : node.getPeer packet.header.peerId = some peer)
    (id : UInt8) :
    (handleAudio prim node env packet).node.getPeer id =
      if id = packet.header.peerId then
        some (acceptAudio prim peer env.now packet.header plaintext usedPeerCtx).1
      else node.getPeer id := by
  unfold handleAudio
  rw [opened]
  dsimp only
  rw [known]
  dsimp only
  rw [getPeer_modifyPeer]
  split_ifs with same
  · rw [same, known]
    rfl
  · rfl

/-- **Only audio in its name moves the filters of a known peer.** -/
theorem step_filters (prim : Primitives D) (node : Node D) (env : Env D) (event : Event)
    {id : UInt8} {peer : RemotePeer D} (known : node.getPeer id = some peer)
    (unheard : ∀ data srcAddr packet, event = .recv data srcAddr →
      Packet.parse data = .ok packet → packet.header.pktType = pktAudio →
      packet.header.peerId = id → ∀ opened, openAudio prim node packet ≠ .ok opened) :
    ∃ peer', (step prim node env event).1.getPeer id = some peer' ∧
      filters peer' = filters peer := by
  by_cases received : Receives pktAudio event
  · obtain ⟨data, srcAddr, packet, rfl, parsed, type⟩ := received
    refine ⟨peer, ?_, rfl⟩
    change (handleIncoming prim node env data srcAddr).node.getPeer id = some peer
    rw [handleIncoming_eq prim parsed, handlePacket_audio prim type]
    cases opened : openAudio prim node packet with
    | error e =>
        rw [handleAudio, opened]
        exact known
    | ok heard =>
        obtain ⟨plaintext, usedPeerCtx⟩ := heard
        have other : id ≠ packet.header.peerId := fun same =>
          unheard data srcAddr packet rfl parsed type same.symm _ opened
        cases sender : node.getPeer packet.header.peerId with
        | none =>
            rw [handleAudio, opened]
            dsimp only
            rw [sender]
            exact known
        | some speaker =>
            rw [handleAudio_getPeer opened env sender, if_neg other]
            exact known
  · have grows := step_grows settled_filters prim node env event
      (fun audio => absurd audio received) (fun _ _ _ _ => rfl) (fun _ _ _ _ _ => rfl)
    exact grows.getPeer known

end Node

end VoiceChat
