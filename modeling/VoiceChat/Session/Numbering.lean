import VoiceChat.Session.Growth

/-!
# The numbers of the audio for a peer

Audio for a peer takes its sequence number from the entry of the peer, and under a
per-peer key its counter from the context of the peer. In a frame both move on by one
(`sendFrameTo_numbering`), so that their difference stays for as long as the context
does. No other step touches the sequence number, and only a KEY_EXCHANGE replaces the
context, by one whose counter is zero (`step_renumbers`).
-/

set_option autoImplicit false

namespace VoiceChat

namespace Node

variable {D : Type} {prim : Primitives D}

/-- What the numbers of the audio for a peer come from. -/
def numbering (peer : RemotePeer D) : UInt16 × Bool × Bool × Option CryptoContext :=
  (peer.sendSeq, peer.kxSent, peer.kxReceived, peer.peerCrypto)

theorem steady_numbering : Steady (numbering : RemotePeer D → _) (0, false, false, none) where
  new _ _ _ _ := rfl
  addr _ _ := rfl
  state _ _ _ := rfl
  buffers _ _ _ := rfl
  latency _ _ _ := rfl

/-! ## Steps that send no frame -/

/-- What a step that sends no frame does to an entry: the sequence number stays, what
was sent stays sent, and the context stays or is new. -/
structure Renumbered (peer peer' : RemotePeer D) : Prop where
  sendSeq : peer'.sendSeq = peer.sendSeq
  kxSent : peer.kxSent = true → peer'.kxSent = true
  context : peer'.kxReceived = peer.kxReceived ∧ peer'.peerCrypto = peer.peerCrypto ∨
    ∃ ctx, peer'.peerCrypto = some ctx ∧ ctx.sendCounter = 0

/-- Every entry is at most renumbered. -/
def Renumbers (node node' : Node D) : Prop :=
  ∀ id peer, node.getPeer id = some peer →
    ∃ peer', node'.getPeer id = some peer' ∧ Renumbered peer peer'

theorem Renumbered.of_numbering {peer peer' : RemotePeer D}
    (same : numbering peer' = numbering peer) : Renumbered peer peer' := by
  obtain ⟨sendSeq, same⟩ := Prod.mk.inj same
  obtain ⟨kxSent, same⟩ := Prod.mk.inj same
  exact ⟨sendSeq, fun sent => kxSent.trans sent, Or.inl (Prod.mk.inj same)⟩

theorem Renumbered.trans {first second third : RemotePeer D} (one : Renumbered first second)
    (two : Renumbered second third) : Renumbered first third where
  sendSeq := two.sendSeq.trans one.sendSeq
  kxSent sent := two.kxSent (one.kxSent sent)
  context := by
    rcases two.context with ⟨received, crypto⟩ | new
    · rw [received, crypto]
      exact one.context
    · exact Or.inr new

namespace Renumbers

theorem of_grows {fresh : UInt16 × Bool × Bool × Option CryptoContext} {node node' : Node D}
    (grows : Grows numbering fresh node node') : Renumbers node node' := by
  intro id peer known
  obtain ⟨peer', known', same⟩ := grows.getPeer known
  exact ⟨peer', known', .of_numbering same⟩

theorem of_frame {node node' : Node D} (frame : Frame numbering node node') :
    Renumbers node node' := by
  intro id peer known
  obtain ⟨peer', known', same⟩ := frame.getPeer known
  exact ⟨peer', known', .of_numbering same⟩

theorem refl (node : Node D) : Renumbers node node := of_frame (Frame.refl numbering node)

theorem trans {first second third : Node D} (one : Renumbers first second)
    (two : Renumbers second third) : Renumbers first third := by
  intro id peer known
  obtain ⟨peer', known', renumbered⟩ := one id peer known
  obtain ⟨peer'', known'', renumbered'⟩ := two id peer' known'
  exact ⟨peer'', known'', renumbered.trans renumbered'⟩

theorem of_modifyPeer (node : Node D) (id : UInt8) {f : RemotePeer D → RemotePeer D}
    (renumbered : ∀ peer, Renumbered peer (f peer)) : Renumbers node (node.modifyPeer id f) := by
  intro k peer known
  rw [getPeer_modifyPeer]
  split_ifs
  · rw [known]
    exact ⟨f peer, rfl, renumbered peer⟩
  · exact ⟨peer, known, .of_numbering rfl⟩

end Renumbers

theorem sendKeyExchange_renumbers (node : Node D) (id : UInt8) (dst : SocketAddr) :
    Renumbers node (sendKeyExchange prim node id dst).1 := by
  unfold sendKeyExchange
  split
  · exact .refl node
  · split_ifs
    · exact .refl node
    · dsimp only
      split
      · exact .refl node
      · exact .of_modifyPeer node id fun peer => ⟨rfl, fun _ => rfl, Or.inl ⟨rfl, rfl⟩⟩

theorem handleKeyExchange_renumbers (node : Node D) (srcAddr : SocketAddr) (packet : Packet) :
    Renumbers node (handleKeyExchange prim node srcAddr packet).node := by
  unfold handleKeyExchange
  split
  · exact .refl node
  · refine Renumbers.trans ?_ (sendKeyExchange_renumbers _ _ _)
    exact .of_modifyPeer node _ fun peer => ⟨rfl, id, Or.inr ⟨_, rfl, rfl⟩⟩

theorem ping_renumbers (node : Node D) (env : Env D) :
    Renumbers node (ping prim node env).1 := by
  have pinged : Frame numbering node
      ((eachPeer (sendPingTo prim env)).run node (node.peerMgr.connectedPeers env.order)) :=
    eachPeer_frame (fun node target => sendPingTo_frame env node target fun _ _ => rfl) node _
  refine (Renumbers.of_frame pinged).trans ?_
  exact Machine.invariant
    (M := eachPeer fun node target => sendKeyExchange prim node target.1 target.2) (Renumbers _)
    (fun node target renumbers _ =>
      renumbers.trans (sendKeyExchange_renumbers node target.1 target.2))
    (.refl _) (Machine.along_true _ _ _)

theorem handlePacket_renumbers (node : Node D) (env : Env D) (srcAddr : SocketAddr)
    (packet : Packet) : Renumbers node (handlePacket prim node env srcAddr packet).node := by
  cases handlePacket_handled prim node env srcAddr packet with
  | audio _ same => exact same ▸ .of_frame (handleAudio_frame node env packet fun _ _ _ _ _ => rfl)
  | join _ same =>
      exact same ▸ .of_grows (steady_numbering.grows_handleJoin prim node env srcAddr packet)
  | peerList _ same =>
      exact same ▸ .of_grows (steady_numbering.grows_handlePeerList prim node env srcAddr packet)
  | hello _ same =>
      exact same ▸ .of_grows (steady_numbering.grows_handleHello prim node env srcAddr packet)
  | helloAck _ same => exact same ▸ .of_frame (handleHelloAck_frame node env packet fun _ => rfl)
  | keepalive _ same => exact same ▸ .of_frame (touchAddr_frame node srcAddr env.now fun _ => rfl)
  | ping _ same =>
      exact same ▸ .of_frame (handlePing_frame node env srcAddr packet fun _ => rfl)
  | pong _ same => exact same ▸ .of_frame (handlePong_frame node env packet fun _ _ => rfl)
  | keyExchange _ same => exact same ▸ handleKeyExchange_renumbers node srcAddr packet
  | unknown _ same => exact same ▸ .refl node

/-- **No step but a frame moves the numbers on.** -/
theorem step_renumbers (prim : Primitives D) (node : Node D) (env : Env D) {event : Event}
    (quiet : ¬ SendsFrame event) : Renumbers node (step prim node env event).1 := by
  cases event with
  | recv data srcAddr =>
      change Renumbers node (handleIncoming prim node env data srcAddr).node
      unfold handleIncoming
      split
      · exact .refl node
      · exact handlePacket_renumbers node env srcAddr _
  | frame opus => exact absurd ⟨opus, rfl⟩ quiet
  | playout => exact .of_frame (playout_frame node fun _ _ _ => rfl)
  | keepalive => exact .of_frame (keepalive_frame node env fun _ _ => rfl)
  | ping => exact ping_renumbers node env
  | adapt elapsedSecs => exact .of_frame (adapt_frame node elapsedSecs fun _ _ => rfl)

/-! ## Frames -/

/-- A frame for another peer leaves the entry alone. -/
theorem sendFrameTo_getPeer_of_ne (prim : Primitives D) (opus : Bytes) (node : Node D)
    {target : UInt8 × SocketAddr} {id : UInt8} (other : id ≠ target.1) :
    (sendFrameTo prim opus node target).1.getPeer id = node.getPeer id := by
  unfold sendFrameTo
  split
  · rfl
  · dsimp only
    split
    · split
      · rw [getPeer_modifyPeer, if_neg other]
      · split
        · rw [getPeer_modifyPeer, if_neg other, getPeer_modifyPeer, if_neg other]
        · rw [getPeer_modifyPeer, if_neg other, getPeer_modifyPeer, if_neg other]
    · unfold sealCounted
      split
      · rw [getPeer_modifyPeer, if_neg other]
      · dsimp only
        split
        · exact (getPeer_modifyPeer ..).trans (if_neg other)
        · exact (getPeer_modifyPeer ..).trans (if_neg other)

/-- What a frame for a peer does to its entry, and what it sends: under the session
context, under the context of the peer, or nothing when that has no counters left. -/
inductive Numbers (prim : Primitives D) (localId : UInt8) (peer peer' : RemotePeer D)
    (out : List Emission) : Prop where
  | session (incomplete : peer.sendContext = none) (crypto : peer'.peerCrypto = peer.peerCrypto)
      (scope : ∀ e ∈ out, e.scope = .psk)
  | exhausted {ctx : CryptoContext} (complete : peer.sendContext = some ctx)
      (last : ctx.sendCounter = 0xFFFFFFFF) (crypto : peer'.peerCrypto = peer.peerCrypto)
      (silent : out = [])
  | drawn {ctx ctx' : CryptoContext} (complete : peer.sendContext = some ctx)
      (draw : ctx.nextCounter = .ok (ctx.sendCounter, ctx')) (crypto : peer'.peerCrypto = some ctx')
      (sent : out = [] ∨ ∃ e, out = [e] ∧ e.scope = .peer ∧ e.SealedWith prim.aead ctx ∧
        e.header = ⟨pktAudio, localId, peer.sendSeq, ctx.sendCounter⟩)

/-- **The numbers of a frame.** -/
theorem sendFrameTo_numbering (prim : Primitives D) (opus : Bytes) (node : Node D)
    {target : UInt8 × SocketAddr} {peer : RemotePeer D}
    (known : node.getPeer target.1 = some peer) :
    ∃ peer', (sendFrameTo prim opus node target).1.getPeer target.1 = some peer' ∧
      peer'.sendSeq = peer.sendSeq + 1 ∧ peer'.kxSent = peer.kxSent ∧
      peer'.kxReceived = peer.kxReceived ∧
      Numbers prim node.peerMgr.localId peer peer' (sendFrameTo prim opus node target).2 := by
  have sequenced : (node.modifyPeer target.1 fun _ => peer.nextSeq.2).getPeer target.1 =
      some peer.nextSeq.2 := by
    rw [getPeer_modifyPeer, if_pos rfl, known]
    rfl
  unfold sendFrameTo
  rw [known]
  dsimp only
  cases complete : peer.sendContext with
  | none =>
    rw [show peer.nextSeq.2.sendContext = none from complete]
    dsimp only
    have counted : Frame numbering (node.modifyPeer target.1 fun _ => peer.nextSeq.2)
        (sealCounted prim (node.modifyPeer target.1 fun _ => peer.nextSeq.2) pktAudio opus
          peer.nextSeq.1 target.2).1 := sealCounted_frame _ _ _ _ _ _
    obtain ⟨peer', known', same⟩ := counted.getPeer sequenced
    obtain ⟨sendSeq, same⟩ := Prod.mk.inj same
    obtain ⟨kxSent, same⟩ := Prod.mk.inj same
    obtain ⟨kxReceived, crypto⟩ := Prod.mk.inj same
    refine ⟨peer', known', sendSeq, kxSent, kxReceived, .session complete crypto ?_⟩
    intro e member
    rcases sealCounted_cases prim (node.modifyPeer target.1 fun _ => peer.nextSeq.2) pktAudio
      opus peer.nextSeq.1 target.2 with none | ⟨e', one, _, psk, _⟩
    · rw [none] at member
      cases member
    · rw [one] at member
      rw [List.mem_singleton.mp member, psk]
  | some ctx =>
    rw [show peer.nextSeq.2.sendContext = some ctx from complete]
    dsimp only
    cases draw : ctx.nextCounter with
    | error e =>
      have last : ctx.sendCounter = 0xFFFFFFFF := by
        unfold CryptoContext.nextCounter at draw
        split_ifs at draw with last
        exact last
      exact ⟨_, sequenced, rfl, rfl, rfl, .exhausted complete last rfl rfl⟩
    | ok drawn =>
      obtain ⟨counter, ctx'⟩ := drawn
      obtain ⟨rfl, key, sessionId, _⟩ := CryptoContext.nextCounter_eq_ok draw
      have advanced : ((node.modifyPeer target.1 fun _ => peer.nextSeq.2).modifyPeer target.1
          fun peer => { peer with peerCrypto := some ctx' }).getPeer target.1 =
          some { peer.nextSeq.2 with peerCrypto := some ctx' } := by
        rw [getPeer_modifyPeer, if_pos rfl, sequenced]
        rfl
      dsimp only
      split
      · exact ⟨_, advanced, rfl, rfl, rfl, .drawn complete draw rfl (Or.inl rfl)⟩
      · rename_i packet sealed
        obtain ⟨sealedWith, scope, header, _⟩ := sealPacket_eq_ok sealed
        refine ⟨_, advanced, rfl, rfl, rfl, .drawn complete draw rfl (Or.inr ⟨packet, rfl, ?_⟩)⟩
        exact ⟨scope, sealedWith.congr key.symm sessionId.symm, header⟩

end Node

end VoiceChat
