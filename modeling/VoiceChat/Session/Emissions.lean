import VoiceChat.Session.Identity

/-!
# What a step sends

Every packet that a step encrypts is of one of six kinds (`Emits`): the answers
of the handshake, the key exchange, what is numbered by the session context, and
audio under a per-peer key. The kinds say under which context the packet was
sealed and what its header is.

The packets that the session context numbers are in the order of their counters,
which lie between the counter before the step and the one after it
(`Counts`).
-/

set_option autoImplicit false

namespace VoiceChat

/-- The types of packets that the session context numbers. -/
def countedTypes : List UInt8 := [pktAudio, pktKeepalive, pktPing, pktPong]

/-- The packet is numbered by the session context. -/
def Emission.Counted (e : Emission) : Prop := e.scope = .psk ∧ e.header.pktType ∈ countedTypes

namespace Node

variable {D : Type} {prim : Primitives D}

/-! ## Single packets -/

theorem sealCounted_cases (prim : Primitives D) (node : Node D) (pktType : UInt8)
    (payload : Bytes) (seqNum : UInt16) (dst : SocketAddr) :
    (sealCounted prim node pktType payload seqNum dst).2 = [] ∨
      ∃ e, (sealCounted prim node pktType payload seqNum dst).2 = [e] ∧
        e.SealedWith prim.aead node.cryptoCtx ∧ e.scope = .psk ∧
        e.header = ⟨pktType, node.peerMgr.localId, seqNum, node.cryptoCtx.sendCounter⟩ ∧
        e.plaintext = payload ∧ e.dst = dst ∧
        (sealCounted prim node pktType payload seqNum dst).1.cryptoCtx.sendCounter.toNat =
          node.cryptoCtx.sendCounter.toNat + 1 := by
  unfold sealCounted
  split
  · exact Or.inl rfl
  · rename_i counter ctx draw
    obtain ⟨rfl, key, sessionId, moved⟩ := CryptoContext.nextCounter_eq_ok draw
    dsimp only
    split
    · exact Or.inl rfl
    · rename_i packet sealed
      obtain ⟨sealedWith, scope, header, plaintext, addressed, _⟩ := sealPacket_eq_ok sealed
      exact Or.inr ⟨packet, rfl, sealedWith.congr key.symm sessionId.symm, scope, header,
        plaintext, addressed, moved⟩

theorem sendKeyExchange_cases (prim : Primitives D) (node : Node D) (id : UInt8)
    (dst : SocketAddr) :
    (sendKeyExchange prim node id dst).1 = node ∧ (sendKeyExchange prim node id dst).2 = [] ∨
      ∃ e peer, sendKeyExchange prim node id dst =
          (node.modifyPeer id fun peer => { peer with kxSent := true }, [e]) ∧
        node.getPeer id = some peer ∧ peer.kxSent = false ∧
        e.SealedWith prim.aead (node.pskCtx node.peerMgr.sessionId) ∧ e.scope = .psk ∧
        e.header = ⟨pktKeyExchange, node.peerMgr.localId, 0, 0⟩ ∧
        e.plaintext = KeyExchangePayload.toBytes ⟨node.keyExchange.publicKeyBytes prim⟩ ∧
        e.dst = dst := by
  unfold sendKeyExchange
  split
  · exact Or.inl ⟨rfl, rfl⟩
  · rename_i peer known
    split_ifs with sent
    · exact Or.inl ⟨rfl, rfl⟩
    · dsimp only
      split
      · exact Or.inl ⟨rfl, rfl⟩
      · rename_i packet sealed
        obtain ⟨sealedWith, scope, header, plaintext, addressed, _⟩ := sealPacket_eq_ok sealed
        exact Or.inr ⟨packet, peer, rfl, known, Bool.eq_false_iff.mpr sent, sealedWith, scope,
          header, plaintext, addressed⟩

/-- Every packet of a greeting is a HELLO in the new session. -/
theorem mem_greetPeers_out {key : Key} {env : Env D} {sessionId : SessionId}
    {myId sender : UInt8} {srcAddr : SocketAddr} {peers : List (UInt8 × SocketAddr)}
    {peerMgr : PeerManager D} {out : List Emission} {e : Emission}
    (member : e ∈ (greetPeers prim key env sessionId myId sender srcAddr peers peerMgr out).2.1) :
    e ∈ out ∨ e.SealedWith prim.aead (CryptoContext.new key sessionId) ∧ e.scope = .psk ∧
      e.header = ⟨pktHello, myId, 0, 0⟩ ∧ e.plaintext = [] := by
  refine (mem_greetPeers member).imp_right ?_
  rintro ⟨id, addr, _, _, sendOk, sealed⟩
  obtain ⟨sealedWith, scope, header, plaintext, _⟩ := sealPacket_eq_ok sealed
  exact ⟨sealedWith, scope, header, plaintext⟩

/-- What sending one frame to one peer puts out. -/
theorem sendFrameTo_cases (prim : Primitives D) (opus : Bytes) (node : Node D)
    (target : UInt8 × SocketAddr) :
    (sendFrameTo prim opus node target).2 = [] ∨
      ∃ e peer, (sendFrameTo prim opus node target).2 = [e] ∧
        node.getPeer target.1 = some peer ∧ e.plaintext = opus ∧ e.dst = target.2 ∧
        ((∃ ctx, peer.sendContext = some ctx ∧ e.scope = .peer ∧ e.SealedWith prim.aead ctx ∧
            e.header = ⟨pktAudio, node.peerMgr.localId, peer.sendSeq, ctx.sendCounter⟩) ∨
          peer.sendContext = none ∧ e.scope = .psk ∧ e.SealedWith prim.aead node.cryptoCtx ∧
            e.header =
              ⟨pktAudio, node.peerMgr.localId, peer.sendSeq, node.cryptoCtx.sendCounter⟩ ∧
            (sendFrameTo prim opus node target).1.cryptoCtx.sendCounter.toNat =
              node.cryptoCtx.sendCounter.toNat + 1) := by
  unfold sendFrameTo
  split
  · exact Or.inl rfl
  · rename_i peer known
    dsimp only
    have context : peer.nextSeq.2.sendContext = peer.sendContext := rfl
    split
    · rename_i peerCtx complete
      split
      · exact Or.inl rfl
      · rename_i counter ctx draw
        obtain ⟨rfl, key, sessionId, _⟩ := CryptoContext.nextCounter_eq_ok draw
        split
        · exact Or.inl rfl
        · rename_i packet sealed
          obtain ⟨sealedWith, scope, header, plaintext, addressed, _⟩ := sealPacket_eq_ok sealed
          exact Or.inr ⟨packet, peer, rfl, known, plaintext, addressed, Or.inl ⟨peerCtx,
            context.symm.trans complete, scope, sealedWith.congr key.symm sessionId.symm,
            header⟩⟩
    · rename_i incomplete
      rcases sealCounted_cases prim (node.modifyPeer target.1 fun _ => peer.nextSeq.2) pktAudio
          opus peer.nextSeq.1 target.2 with none | ⟨e, one, sealedWith, scope, header, plaintext,
            addressed, moved⟩
      · exact Or.inl none
      · exact Or.inr ⟨e, peer, one, known, plaintext, addressed, Or.inr
          ⟨context.symm.trans incomplete, scope, sealedWith, header, moved⟩⟩

/-! ## The counters of the session context -/

/-- What part of a step draws from the session context: the counted packets are
sealed with it, in the order of their counters, which were drawn in between. -/
structure Counts (prim : Primitives D) (node node' : Node D) (out : List Emission) : Prop where
  keeps : Keeps node node'
  sealedWith : ∀ e ∈ out, e.Counted → e.SealedWith prim.aead node.cryptoCtx
  above : ∀ e ∈ out, e.Counted →
    node.cryptoCtx.sendCounter.toNat ≤ e.header.counter.toNat
  below : ∀ e ∈ out, e.Counted →
    e.header.counter.toNat < node'.cryptoCtx.sendCounter.toNat
  ordered : out.Pairwise fun first second => first.Counted → second.Counted →
    first.header.counter.toNat < second.header.counter.toNat

namespace Counts

/-- A step that sends nothing the session context numbers. -/
theorem of_keeps (prim : Primitives D) {node node' : Node D} (keeps : Keeps node node')
    {out : List Emission}
    (others : ∀ e ∈ out, ¬ e.Counted) : Counts prim node node' out where
  keeps := keeps
  sealedWith e member counted := absurd counted (others e member)
  above e member counted := absurd counted (others e member)
  below e member counted := absurd counted (others e member)
  ordered := List.pairwise_of_forall_mem_list fun e member _ _ counted =>
    absurd counted (others e member)

theorem single {node node' : Node D} (keeps : Keeps node node') {e : Emission}
    (sealedWith : e.SealedWith prim.aead node.cryptoCtx)
    (counter : e.header.counter = node.cryptoCtx.sendCounter)
    (moved : node'.cryptoCtx.sendCounter.toNat = node.cryptoCtx.sendCounter.toNat + 1) :
    Counts prim node node' [e] where
  keeps := keeps
  sealedWith e' member _ := List.mem_singleton.mp member ▸ sealedWith
  above e' member _ := by
    rw [List.mem_singleton.mp member, counter]
  below e' member _ := by
    rw [List.mem_singleton.mp member, counter, moved]
    exact Nat.lt_succ_self _
  ordered := List.pairwise_singleton _ _

theorem trans {first second third : Node D} {out out' : List Emission}
    (one : Counts prim first second out) (two : Counts prim second third out') :
    Counts prim first third (out ++ out') where
  keeps := one.keeps.trans two.keeps
  sealedWith e member counted := by
    rcases List.mem_append.mp member with early | late
    · exact one.sealedWith e early counted
    · exact (two.sealedWith e late counted).congr one.keeps.ctxKey.symm
        one.keeps.ctxSessionId.symm
  above e member counted := by
    rcases List.mem_append.mp member with early | late
    · exact one.above e early counted
    · exact one.keeps.counter.trans (two.above e late counted)
  below e member counted := by
    rcases List.mem_append.mp member with early | late
    · exact Nat.lt_of_lt_of_le (one.below e early counted) two.keeps.counter
    · exact two.below e late counted
  ordered := by
    refine List.pairwise_append.mpr ⟨one.ordered, two.ordered, ?_⟩
    intro e early e' late counted counted'
    exact Nat.lt_of_lt_of_le (one.below e early counted) (two.above e' late counted')

/-- A walk over the peers counts if each body does. -/
theorem eachPeer {body : Node D → UInt8 × SocketAddr → Node D × List Emission}
    (counts : ∀ node target, Counts prim node (body node target).1 (body node target).2)
    (node : Node D) (targets : List (UInt8 × SocketAddr)) :
    Counts prim node ((Node.eachPeer body).run node targets)
      ((Node.eachPeer body).outputs node targets) := by
  have := Machine.invariant_outputs (M := Node.eachPeer body) (Counts prim node)
    (fun node' out target counted _ => counted.trans (counts node' target))
    (of_keeps prim (Keeps.refl node) fun _ member => absurd member List.not_mem_nil)
    (Machine.along_true (Node.eachPeer body) node targets)
  rwa [List.nil_append] at this

end Counts

theorem not_counted_of_header {e : Emission} {pktType peerId : UInt8} {seqNum : UInt16}
    {counter : UInt32} (header : e.header = ⟨pktType, peerId, seqNum, counter⟩)
    (other : pktType ∉ countedTypes) : ¬ e.Counted := by
  rintro ⟨_, type⟩
  rw [header] at type
  exact other type

theorem sealCounted_counts (prim : Primitives D) (node : Node D) (pktType : UInt8)
    (payload : Bytes) (seqNum : UInt16) (dst : SocketAddr) :
    Counts prim node (sealCounted prim node pktType payload seqNum dst).1
      (sealCounted prim node pktType payload seqNum dst).2 := by
  have frame : Frame place node (sealCounted prim node pktType payload seqNum dst).1 :=
    sealCounted_frame place node pktType payload seqNum dst
  rcases sealCounted_cases prim node pktType payload seqNum dst with
    none | ⟨e, one, sealedWith, _, header, _, _, moved⟩
  · rw [none]
    exact Counts.of_keeps prim frame.toKeeps fun _ member => absurd member List.not_mem_nil
  · rw [one]
    exact Counts.single frame.toKeeps sealedWith (congrArg PacketHeader.counter header) moved

theorem sendFrameTo_counts (prim : Primitives D) (opus : Bytes) (node : Node D)
    (target : UInt8 × SocketAddr) :
    Counts prim node (sendFrameTo prim opus node target).1
      (sendFrameTo prim opus node target).2 := by
  have frame : Frame place node (sendFrameTo prim opus node target).1 :=
    sendFrameTo_frame opus node target (fun _ _ => rfl) fun _ _ _ _ => rfl
  rcases sendFrameTo_cases prim opus node target with
    none | ⟨e, peer, one, _, _, _, ⟨_, _, scope, _⟩ | ⟨_, _, sealedWith, header, moved⟩⟩
  · rw [none]
    exact Counts.of_keeps prim frame.toKeeps fun _ member => absurd member List.not_mem_nil
  · rw [one]
    refine Counts.of_keeps prim frame.toKeeps fun e' member counted => ?_
    rw [List.mem_singleton.mp member, Emission.Counted, scope] at counted
    cases counted.1
  · rw [one]
    exact Counts.single frame.toKeeps sealedWith (congrArg PacketHeader.counter header) moved

theorem sendPingTo_counts (prim : Primitives D) (env : Env D) (node : Node D)
    (target : UInt8 × SocketAddr) :
    Counts prim node (sendPingTo prim env node target).1 (sendPingTo prim env node target).2 := by
  unfold sendPingTo
  split
  · exact Counts.of_keeps prim (Keeps.refl node) fun _ member => absurd member List.not_mem_nil
  · rename_i peer known
    have recorded : Frame place node (node.modifyPeer target.1 fun peer' =>
        { peer' with latencyTracker := (peer.latencyTracker.pingSent env.pingOrder env.now).2 }) :=
      Frame.modifyPeer node target.1 fun _ _ => rfl
    have silent := Counts.of_keeps prim recorded.toKeeps
      fun (e : Emission) (member : e ∈ []) => absurd member List.not_mem_nil
    exact silent.trans (sealCounted_counts prim _ _ _ _ _)

theorem sendKeyExchange_counts (prim : Primitives D) (node : Node D) (id : UInt8)
    (dst : SocketAddr) :
    Counts prim node (sendKeyExchange prim node id dst).1 (sendKeyExchange prim node id dst).2 := by
  have frame : Frame place node (sendKeyExchange prim node id dst).1 :=
    sendKeyExchange_frame node id dst fun _ => rfl
  refine Counts.of_keeps prim frame.toKeeps fun e member => ?_
  rcases sendKeyExchange_cases prim node id dst with
    ⟨_, none⟩ | ⟨e', _, one, _, _, _, _, header, _⟩
  · rw [none] at member
    cases member
  · rw [one] at member
    rw [List.mem_singleton.mp member]
    exact not_counted_of_header header (by decide)

/-! ## Everything a step sends -/

/-- The step has a key exchange to send: to the sender of one, or at the ping tick
to a connected peer. -/
def OwesKeyExchange (prim : Primitives D) (node : Node D) : Event → Prop
  | .recv data _ => ∃ packet derivedKey peer, Packet.parse data = .ok packet ∧
      packet.header.pktType = pktKeyExchange ∧ openKeyExchange prim node packet = .ok derivedKey ∧
      node.getPeer packet.header.peerId = some peer ∧ peer.kxSent = false
  | .ping => ∃ k peer target, node.getPeer k = some peer ∧ peer.state = .connected ∧
      node.getPeer peer.id = some target ∧ target.kxSent = false
  | _ => False

/-- The step has a packet to send that the session context numbers. -/
def Draws (prim : Primitives D) (node : Node D) (env : Env D) : Event → Prop
  | .recv data _ => ∃ packet ping, Packet.parse data = .ok packet ∧
      packet.header.pktType = pktPing ∧ openPing prim node packet = .ok ping
  | .frame _ => ∃ target ∈ node.peerMgr.connectedPeers env.order, ∃ peer,
      node.getPeer target.1 = some peer ∧ peer.sendContext = none
  | .keepalive | .ping => node.peerMgr.connectedPeers env.order ≠ []
  | _ => False

/-- **The packets that a step sends.** -/
inductive Emits (prim : Primitives D) (node : Node D) (env : Env D) : Event → Emission → Prop where
  | peerList {data : Bytes} {srcAddr : SocketAddr} {packet : Packet} {e : Emission}
      (parsed : Packet.parse data = .ok packet) (type : packet.header.pktType = pktJoin)
      (answer : e ∈ (handleJoin prim node env srcAddr packet).out) :
      Emits prim node env (.recv data srcAddr) e
  | hello {data : Bytes} {srcAddr : SocketAddr} {myId : UInt8} {sessionId : SessionId}
      {e : Emission} (adopted : node.adopts prim data = some (myId, sessionId))
      (sealedWith : e.SealedWith prim.aead (node.pskCtx sessionId)) (scope : e.scope = .psk)
      (header : e.header = ⟨pktHello, myId, 0, 0⟩) (plaintext : e.plaintext = []) :
      Emits prim node env (.recv data srcAddr) e
  | helloAck {data : Bytes} {srcAddr : SocketAddr} {packet : Packet} {hello : Bytes}
      {peerMgr : PeerManager D} {e : Emission} (parsed : Packet.parse data = .ok packet)
      (type : packet.header.pktType = pktHello)
      (opened : opens prim (node.pskCtx node.peerMgr.sessionId) packet = .ok hello)
      (greeting : node.greeted env srcAddr packet.header.peerId = .ok peerMgr)
      (sealedWith : e.SealedWith prim.aead (node.pskCtx node.peerMgr.sessionId))
      (scope : e.scope = .psk) (header : e.header = ⟨pktHelloAck, node.peerMgr.localId, 0, 0⟩)
      (plaintext : e.plaintext = []) (dst : e.dst = srcAddr) :
      Emits prim node env (.recv data srcAddr) e
  | keyExchange {event : Event} {e : Emission} (owed : node.OwesKeyExchange prim event)
      (sealedWith : e.SealedWith prim.aead (node.pskCtx node.peerMgr.sessionId))
      (scope : e.scope = .psk)
      (header : e.header = ⟨pktKeyExchange, node.peerMgr.localId, 0, 0⟩)
      (plaintext : e.plaintext =
        KeyExchangePayload.toBytes ⟨node.keyExchange.publicKeyBytes prim⟩) :
      Emits prim node env event e
  | counted {event : Event} {e : Emission} (draws : node.Draws prim env event)
      (sealedWith : e.SealedWith prim.aead node.cryptoCtx) (scope : e.scope = .psk)
      (type : e.header.pktType ∈ countedTypes) (peerId : e.header.peerId = node.peerMgr.localId) :
      Emits prim node env event e
  | peerAudio {opus : Bytes} {id : UInt8} {peer : RemotePeer D} {ctx : CryptoContext}
      {e : Emission} (known : node.getPeer id = some peer)
      (complete : peer.sendContext = some ctx) (sealedWith : e.SealedWith prim.aead ctx)
      (scope : e.scope = .peer) (type : e.header.pktType = pktAudio)
      (peerId : e.header.peerId = node.peerMgr.localId) :
      Emits prim node env (.frame opus) e

/-- What matters of a peer for the choice of a key. -/
def keying (peer : RemotePeer D) : Bool × Bool × Option (Key × SessionId) :=
  (peer.kxSent, peer.kxReceived, peer.peerCrypto.map fun ctx => (ctx.key, ctx.sessionId))

theorem sendContext_of_keying {peer peer' : RemotePeer D} (same : keying peer' = keying peer) :
    peer'.sendContext.map (fun ctx => (ctx.key, ctx.sessionId)) =
      peer.sendContext.map (fun ctx => (ctx.key, ctx.sessionId)) := by
  obtain ⟨sent, received, crypto⟩ := by simpa only [keying, Prod.mk.injEq] using same
  unfold RemotePeer.sendContext
  rw [sent, received]
  split_ifs
  · exact crypto
  · rfl

/-- A step that draws seals with the session context it started with. -/
theorem emits_of_sealCounted {node node' : Node D} (keeps : Keeps node node') {env : Env D}
    {event : Event} (draws : node.Draws prim env event) {pktType : UInt8} {payload : Bytes}
    {seqNum : UInt16} {dst : SocketAddr} {e : Emission} (numbered : pktType ∈ countedTypes)
    (member : e ∈ (sealCounted prim node' pktType payload seqNum dst).2) :
    Emits prim node env event e := by
  rcases sealCounted_cases prim node' pktType payload seqNum dst with
    none | ⟨e', one, sealedWith, scope, header, _⟩
  · rw [none] at member
    cases member
  · rw [one] at member
    obtain rfl := List.mem_singleton.mp member
    refine .counted draws (sealedWith.congr keeps.ctxKey.symm keeps.ctxSessionId.symm) scope ?_ ?_
    · rw [header]
      exact numbered
    · rw [header]
      exact keeps.localId

theorem emits_of_sendKeyExchange {node node' : Node D} (keeps : Keeps node node') {env : Env D}
    {event : Event} {id : UInt8} {dst : SocketAddr} {e : Emission}
    (owed : ∀ peer, node'.getPeer id = some peer → peer.kxSent = false →
      node.OwesKeyExchange prim event)
    (member : e ∈ (sendKeyExchange prim node' id dst).2) : Emits prim node env event e := by
  rcases sendKeyExchange_cases prim node' id dst with
    ⟨_, none⟩ | ⟨e', peer, one, known, unsent, sealedWith, scope, header, plaintext, _⟩
  · rw [none] at member
    cases member
  · rw [one] at member
    obtain rfl := List.mem_singleton.mp member
    refine .keyExchange (owed peer known unsent)
      (sealedWith.congr keeps.key.symm keeps.sessionId.symm) scope ?_ ?_
    · rw [header, keeps.localId]
    · rw [plaintext, keeps.keyExchange]

theorem emits_of_sendFrame {node : Node D} {env : Env D} {opus : Bytes} {e : Emission}
    (member : e ∈ (sendFrame prim node env opus).2) : Emits prim node env (.frame opus) e := by
  obtain ⟨node', target, frame, inside, out⟩ := Machine.mem_outputs (Frame keying node)
    (fun node' target frame => frame.trans (sendFrameTo_frame opus node' target (fun _ _ => rfl)
      fun peer ctx counter keyed => by
        rw [keying, keying, keyed]
        rfl)) (Frame.refl keying node) member
  change e ∈ (sendFrameTo prim opus node' target).2 at out
  rcases sendFrameTo_cases prim opus node' target with none |
    ⟨e', peer', one, known', _, _, ⟨ctx', complete', scope, sealedWith, header⟩ |
      ⟨incomplete', scope, sealedWith, header, _⟩⟩
  · rw [none] at out
    cases out
  · rw [one] at out
    obtain rfl := List.mem_singleton.mp out
    obtain ⟨peer, known, same⟩ := frame.getPeer_back known'
    have context := sendContext_of_keying same
    rw [complete', Option.map_some, eq_comm, Option.map_eq_some_iff] at context
    obtain ⟨ctx, complete, alike⟩ := context
    obtain ⟨key, sessionId⟩ := Prod.mk.injEq .. ▸ alike
    refine .peerAudio known complete (sealedWith.congr key sessionId) scope ?_ ?_
    · rw [header]
    · rw [header]
      exact frame.localId
  · rw [one] at out
    obtain rfl := List.mem_singleton.mp out
    obtain ⟨peer, known, same⟩ := frame.getPeer_back known'
    have context := sendContext_of_keying same
    rw [incomplete', Option.map_none, eq_comm, Option.map_eq_none_iff] at context
    refine .counted ⟨target, inside, peer, known, context⟩
      (sealedWith.congr frame.ctxKey.symm frame.ctxSessionId.symm) scope ?_ ?_
    · rw [header]
      exact List.mem_cons_self
    · rw [header]
      exact frame.localId

theorem emits_of_keepalive {node : Node D} {env : Env D} {e : Emission}
    (member : e ∈ (keepalive prim node env).2) : Emits prim node env .keepalive e := by
  obtain ⟨node', target, keeps, inside, out⟩ := Machine.mem_outputs (Keeps node)
    (fun node' target keeps => keeps.trans
      (sealCounted_counts prim node' pktKeepalive [] 0 target.2).keeps) (Keeps.refl node) member
  refine emits_of_sealCounted keeps ?_ (by decide) out
  exact List.ne_nil_of_mem inside

/-- What matters of a peer for sending it a key exchange. -/
def owing (peer : RemotePeer D) : UInt8 × PeerState × Bool := (peer.id, peer.state, peer.kxSent)

theorem emits_of_sendPingTo {node node' : Node D} (keeps : Keeps node node') {env : Env D}
    {target : UInt8 × SocketAddr} (inside : target ∈ node.peerMgr.connectedPeers env.order)
    {e : Emission} (member : e ∈ (sendPingTo prim env node' target).2) :
    Emits prim node env .ping e := by
  unfold sendPingTo at member
  split at member
  · cases member
  · refine emits_of_sealCounted (keeps.trans (keeps_modifyPeer node' target.1 _)) ?_ ?_ member
    · exact List.ne_nil_of_mem inside
    · decide

theorem emits_of_ping {node : Node D} {env : Env D} {e : Emission}
    (member : e ∈ (ping prim node env).2) : Emits prim node env .ping e := by
  have pinging : ∀ (node' : Node D) target, Frame owing node node' →
      Frame owing node (sendPingTo prim env node' target).1 :=
    fun node' target frame => frame.trans (sendPingTo_frame env node' target fun _ _ => rfl)
  rcases List.mem_append.mp member with early | late
  · obtain ⟨node', target, frame, inside, out⟩ := Machine.mem_outputs (Frame owing node) pinging
      (Frame.refl owing node) early
    exact emits_of_sendPingTo frame.toKeeps inside out
  · have pinged := Machine.invariant (M := eachPeer (sendPingTo prim env)) (Frame owing node)
      (fun node' target frame _ => pinging node' target frame) (Frame.refl owing node)
      (Machine.along_true _ _ (node.peerMgr.connectedPeers env.order))
    -- the peers that are still unsent in the second walk were unsent before it
    obtain ⟨node', target, ⟨keeps, unsent⟩, inside, out⟩ := Machine.mem_outputs
      (fun node' => Keeps node node' ∧ ∀ id peer', node'.getPeer id = some peer' →
        peer'.kxSent = false → ∃ peer, node.getPeer id = some peer ∧ peer.kxSent = false)
      (by
        rintro node' target ⟨keeps, unsent⟩
        refine ⟨keeps.trans (sendKeyExchange_counts prim node' target.1 target.2).keeps, ?_⟩
        intro id peer' known
        rcases sendKeyExchange_cases prim node' target.1 target.2 with
          ⟨same, _⟩ | ⟨_, _, same, _⟩
        · change ((sendKeyExchange prim node' target.1 target.2).1.getPeer id) = _ at known
          rw [same] at known
          exact unsent id peer' known
        · change ((sendKeyExchange prim node' target.1 target.2).1.getPeer id) = _ at known
          rw [same, getPeer_modifyPeer] at known
          split_ifs at known
          · obtain ⟨peer, _, rfl⟩ := Option.map_eq_some_iff.mp known
            intro sent
            cases sent
          · exact unsent id peer' known)
      ⟨pinged.toKeeps, fun id peer' known sent => by
        obtain ⟨peer, known', same⟩ := pinged.getPeer_back known
        exact ⟨peer, known', (congrArg (fun p => p.2.2) same).symm.trans sent⟩⟩ late
    refine emits_of_sendKeyExchange keeps (fun peer' known' sent' => ?_) out
    obtain ⟨target', known, sent⟩ := unsent target.1 peer' known' sent'
    obtain ⟨k, peer, known'', connected, rfl⟩ := PeerManager.mem_connectedPeers.mp inside
    obtain ⟨peer'', there, same⟩ := pinged.getPeer_back known''
    have id : peer.id = peer''.id := congrArg Prod.fst same
    have state : peer.state = peer''.state := congrArg (fun p => p.2.1) same
    exact ⟨k, peer'', target', there, state.symm.trans connected, id ▸ known, sent⟩

theorem emits_of_recv {node : Node D} {env : Env D} {data : Bytes} {srcAddr : SocketAddr}
    {e : Emission} (member : e ∈ (handleIncoming prim node env data srcAddr).out) :
    Emits prim node env (.recv data srcAddr) e := by
  unfold handleIncoming at member
  split at member
  · cases member
  · rename_i packet parsed
    cases handlePacket_handled prim node env srcAddr packet with
    | audio _ same =>
        rw [same, handleAudio] at member
        split at member
        · cases member
        · split at member
          · cases member
          · cases member
    | join type same => exact .peerList parsed type (same ▸ member)
    | peerList type same =>
        rw [same] at member
        rcases handlePeerList_cases prim node env srcAddr packet with
          ⟨e, refused⟩ | ⟨myId, list, opened, greeted⟩
        · rw [refused] at member
          cases member
        · rw [greeted] at member
          have adopted : node.adopts prim data = some (myId, list.sessionId) := by
            rw [adopts, parsed]
            dsimp only
            rw [if_pos type, opened]
          rcases mem_greetPeers_out member with old | ⟨sealedWith, scope, header, plaintext⟩
          · cases old
          · exact .hello adopted sealedWith scope header plaintext
    | hello type same =>
        rw [same] at member
        rcases handleHello_cases prim node env srcAddr packet with
          ⟨_, refused⟩ | ⟨_, peerMgr, opened, greeting, answered⟩
        · rw [refused] at member
          cases member
        · rw [answered] at member
          obtain ⟨sealedWith, scope, header, plaintext, dst⟩ := mem_sendSealed_out member
          have kept : peerMgr.localId = node.peerMgr.localId ∧
              peerMgr.sessionId = node.peerMgr.sessionId := by
            rcases greeted_eq_ok greeting with ⟨_, _, rfl⟩ | ⟨_, added⟩
            · exact ⟨rfl, rfl⟩
            · obtain ⟨localId, sessionId, _⟩ := PeerManager.addPeer_eq_ok added
              exact ⟨localId, sessionId⟩
          refine .helloAck parsed type opened greeting (sealedWith.congr rfl kept.2.symm) scope ?_
            plaintext dst
          rw [header, kept.1]
    | helloAck _ same =>
        rw [same, handleHelloAck] at member
        split at member
        · cases member
        · cases member
    | keepalive _ same =>
        rw [same] at member
        cases member
    | ping type same =>
        rw [same, handlePing] at member
        split at member
        · cases member
        · rename_i request opened
          split at member
          · cases member
          · have draws : node.Draws prim env (.recv data srcAddr) :=
              ⟨packet, request, parsed, type, opened⟩
            exact emits_of_sealCounted (Keeps.refl node) draws (by decide) member
    | pong _ same =>
        rw [same, handlePong] at member
        split at member
        · cases member
        · cases member
    | keyExchange type same =>
        rw [same, handleKeyExchange] at member
        split at member
        · cases member
        · rename_i derivedKey opened
          refine emits_of_sendKeyExchange (keeps_modifyPeer node packet.header.peerId _)
            (fun peer' known' sent' => ?_) member
          rw [getPeer_modifyPeer, if_pos rfl] at known'
          obtain ⟨peer, known, rfl⟩ := Option.map_eq_some_iff.mp known'
          exact ⟨packet, derivedKey, peer, parsed, type, opened, known, sent'⟩
    | unknown _ same =>
        rw [same] at member
        cases member

/-- **Everything a step sends is of one of these kinds.** -/
theorem emits_of_step {node : Node D} {env : Env D} {event : Event} {e : Emission}
    (member : e ∈ (step prim node env event).2) : Emits prim node env event e := by
  cases event with
  | recv data srcAddr => exact emits_of_recv member
  | frame opus => exact emits_of_sendFrame member
  | playout => cases member
  | keepalive => exact emits_of_keepalive member
  | ping => exact emits_of_ping member
  | adapt elapsedSecs => cases member

/-- A packet that the session context numbers comes from a step that draws. -/
theorem Emits.of_counted {node : Node D} {env : Env D} {event : Event} {e : Emission}
    (emits : Emits prim node env event e) (counted : e.Counted) :
    node.Draws prim env event ∧ e.SealedWith prim.aead node.cryptoCtx := by
  cases emits with
  | peerList parsed join answer =>
      obtain ⟨_, header, _⟩ := mem_handleJoin_out answer
      exact absurd counted (not_counted_of_header header (by decide))
  | hello adopted sealedWith scope header plaintext =>
      exact absurd counted (not_counted_of_header header (by decide))
  | helloAck parsed hello opened greeting sealedWith scope header plaintext dst =>
      exact absurd counted (not_counted_of_header header (by decide))
  | keyExchange owed sealedWith scope header plaintext =>
      exact absurd counted (not_counted_of_header header (by decide))
  | counted draws sealedWith => exact ⟨draws, sealedWith⟩
  | peerAudio known complete sealedWith scope =>
      rw [Emission.Counted, scope] at counted
      cases counted.1

/-- Whatever is sent is sealed. -/
theorem Emits.sealedWith {node : Node D} {env : Env D} {event : Event} {e : Emission}
    (emits : Emits prim node env event e) : ∃ ctx, e.SealedWith prim.aead ctx := by
  cases emits with
  | peerList parsed join answer =>
      obtain ⟨sealedWith, _⟩ := mem_handleJoin_out answer
      exact ⟨_, sealedWith⟩
  | hello adopted sealedWith => exact ⟨_, sealedWith⟩
  | helloAck parsed hello opened greeting sealedWith => exact ⟨_, sealedWith⟩
  | keyExchange owed sealedWith => exact ⟨_, sealedWith⟩
  | counted draws sealedWith => exact ⟨_, sealedWith⟩
  | peerAudio known complete sealedWith => exact ⟨_, sealedWith⟩

/-- **The type of a packet tells what it answers.** -/
theorem Emits.by_type {node : Node D} {env : Env D} {event : Event} {e : Emission}
    (emits : Emits prim node env event e) :
    (e.header.pktType = pktPeerList ∧
      ∃ data srcAddr packet, event = .recv data srcAddr ∧ Packet.parse data = .ok packet ∧
        packet.header.pktType = pktJoin ∧ e ∈ (handleJoin prim node env srcAddr packet).out) ∨
    (e.header.pktType = pktHello ∧
      ∃ data srcAddr myId sessionId, event = .recv data srcAddr ∧
        node.adopts prim data = some (myId, sessionId) ∧ e.header.peerId = myId) ∨
    (e.header.pktType = pktHelloAck ∧
      ∃ data srcAddr packet plaintext, event = .recv data srcAddr ∧
        Packet.parse data = .ok packet ∧ packet.header.pktType = pktHello ∧
        opens prim (node.pskCtx node.peerMgr.sessionId) packet = .ok plaintext ∧
        e.header.peerId = node.peerMgr.localId ∧ e.dst = srcAddr) ∨
    (e.header.pktType = pktKeyExchange ∧
      e.SealedWith prim.aead (node.pskCtx node.peerMgr.sessionId) ∧
      e.header = ⟨pktKeyExchange, node.peerMgr.localId, 0, 0⟩ ∧
      e.plaintext = KeyExchangePayload.toBytes ⟨node.keyExchange.publicKeyBytes prim⟩) ∨
    e.header.pktType ∈ countedTypes := by
  cases emits with
  | peerList parsed join answer =>
      obtain ⟨_, header, _⟩ := mem_handleJoin_out answer
      exact Or.inl ⟨congrArg PacketHeader.pktType header, _, _, _, rfl, parsed, join, answer⟩
  | hello adopted sealedWith scope header plaintext =>
      refine Or.inr (Or.inl ⟨congrArg PacketHeader.pktType header, ?_⟩)
      exact ⟨_, _, _, _, rfl, adopted, congrArg PacketHeader.peerId header⟩
  | helloAck parsed hello opened greeting sealedWith scope header plaintext dst =>
      refine Or.inr (Or.inr (Or.inl ⟨congrArg PacketHeader.pktType header, ?_⟩))
      exact ⟨_, _, _, _, rfl, parsed, hello, opened, congrArg PacketHeader.peerId header, dst⟩
  | keyExchange owed sealedWith scope header plaintext =>
      refine Or.inr (Or.inr (Or.inr (Or.inl ⟨congrArg PacketHeader.pktType header, ?_⟩)))
      exact ⟨sealedWith, header, plaintext⟩
  | counted draws sealedWith scope numbered =>
      exact Or.inr (Or.inr (Or.inr (Or.inr numbered)))
  | peerAudio known complete sealedWith scope audio =>
      refine Or.inr (Or.inr (Or.inr (Or.inr ?_)))
      rw [audio]
      decide

/-- A KEY_EXCHANGE carries the sender's public key, sealed for its session. -/
theorem Emits.of_keyExchange {node : Node D} {env : Env D} {event : Event} {e : Emission}
    (emits : Emits prim node env event e) (type : e.header.pktType = pktKeyExchange) :
    e.SealedWith prim.aead (node.pskCtx node.peerMgr.sessionId) ∧
      e.header = ⟨pktKeyExchange, node.peerMgr.localId, 0, 0⟩ ∧
      e.plaintext = KeyExchangePayload.toBytes ⟨node.keyExchange.publicKeyBytes prim⟩ := by
  rcases emits.by_type with ⟨other, _⟩ | ⟨other, _⟩ | ⟨other, _⟩ | ⟨_, offer⟩ | other
  case inr.inr.inr.inl => exact offer
  all_goals
    rw [type] at other
    exact absurd other (by decide)

/-- No event of a session sends a JOIN. -/
theorem Emits.not_join {node : Node D} {env : Env D} {event : Event} {e : Emission}
    (emits : Emits prim node env event e) : e.header.pktType ≠ pktJoin := by
  intro type
  rcases emits.by_type with ⟨other, _⟩ | ⟨other, _⟩ | ⟨other, _⟩ | ⟨other, _⟩ | other
  all_goals
    rw [type] at other
    exact absurd other (by decide)

/-- A PEER_LIST answers a JOIN. -/
theorem Emits.of_peerList {node : Node D} {env : Env D} {event : Event} {e : Emission}
    (emits : Emits prim node env event e) (type : e.header.pktType = pktPeerList) :
    ∃ data srcAddr packet, event = .recv data srcAddr ∧ Packet.parse data = .ok packet ∧
      packet.header.pktType = pktJoin ∧ e ∈ (handleJoin prim node env srcAddr packet).out := by
  rcases emits.by_type with ⟨_, answer⟩ | ⟨other, _⟩ | ⟨other, _⟩ | ⟨other, _⟩ | other
  · exact answer
  all_goals
    rw [type] at other
    exact absurd other (by decide)

/-- A HELLO follows a peer list, under the id that the list gives. -/
theorem Emits.of_hello {node : Node D} {env : Env D} {event : Event} {e : Emission}
    (emits : Emits prim node env event e) (type : e.header.pktType = pktHello) :
    ∃ data srcAddr myId sessionId, event = .recv data srcAddr ∧
      node.adopts prim data = some (myId, sessionId) ∧ e.header.peerId = myId := by
  rcases emits.by_type with ⟨other, _⟩ | ⟨_, greeting⟩ | ⟨other, _⟩ | ⟨other, _⟩ | other
  case inr.inl => exact greeting
  all_goals
    rw [type] at other
    exact absurd other (by decide)

/-- A HELLO_ACK answers a HELLO, at the address that it came from. -/
theorem Emits.of_helloAck {node : Node D} {env : Env D} {event : Event} {e : Emission}
    (emits : Emits prim node env event e) (type : e.header.pktType = pktHelloAck) :
    ∃ data srcAddr packet plaintext, event = .recv data srcAddr ∧
      Packet.parse data = .ok packet ∧ packet.header.pktType = pktHello ∧
      opens prim (node.pskCtx node.peerMgr.sessionId) packet = .ok plaintext ∧
      e.header.peerId = node.peerMgr.localId ∧ e.dst = srcAddr := by
  rcases emits.by_type with ⟨other, _⟩ | ⟨other, _⟩ | ⟨_, ack⟩ | ⟨other, _⟩ | other
  case inr.inr.inl => exact ack
  all_goals
    rw [type] at other
    exact absurd other (by decide)

/-- A received datagram draws at most for the answer to a ping. -/
theorem handleIncoming_counts {node : Node D} (env : Env D) {data : Bytes}
    (srcAddr : SocketAddr) (other : node.adopts prim data = none) :
    Counts prim node (handleIncoming prim node env data srcAddr).node
      (handleIncoming prim node env data srcAddr).out := by
  have keeps := handleIncoming_keeps env srcAddr other
  by_cases pinged : ∃ packet, Packet.parse data = .ok packet ∧ packet.header.pktType = pktPing
  · obtain ⟨packet, parsed, ping⟩ := pinged
    rw [handleIncoming_eq prim parsed, handlePacket_ping prim ping]
    unfold handlePing
    split
    · exact Counts.of_keeps prim (Keeps.refl node) fun _ member => absurd member List.not_mem_nil
    · split
      · exact Counts.of_keeps prim (Keeps.refl node)
          fun _ member => absurd member List.not_mem_nil
      · rename_i request _ _ _ _
        have touched : Frame place (sealCounted prim node pktPong request.toBytes 0 srcAddr).1
            ((sealCounted prim node pktPong request.toBytes 0 srcAddr).1.touchAddr srcAddr
              env.now) := touchAddr_frame _ srcAddr env.now fun _ => rfl
        have silent := Counts.of_keeps prim touched.toKeeps
          fun (e : Emission) (member : e ∈ []) => absurd member List.not_mem_nil
        have both := (sealCounted_counts prim node pktPong request.toBytes 0 srcAddr).trans silent
        rwa [List.append_nil] at both
  · refine Counts.of_keeps prim keeps fun e member counted => ?_
    obtain ⟨⟨packet, _, parsed, ping, _⟩, _⟩ := (emits_of_recv member).of_counted counted
    exact pinged ⟨packet, parsed, ping⟩

/-- **A step that adopts no identity counts.** -/
theorem step_counts {node : Node D} (env : Env D) {event : Event}
    (other : ∀ data srcAddr, event = .recv data srcAddr → node.adopts prim data = none) :
    Counts prim node (step prim node env event).1 (step prim node env event).2 := by
  cases event with
  | recv data srcAddr => exact handleIncoming_counts env srcAddr (other data srcAddr rfl)
  | frame opus => exact Counts.eachPeer (sendFrameTo_counts prim opus) node _
  | playout =>
      exact Counts.of_keeps prim (step_keeps env other) fun _ member =>
        absurd member List.not_mem_nil
  | keepalive =>
      have sent := Counts.eachPeer
        (fun node target => sealCounted_counts prim node pktKeepalive [] 0 target.2) node
        (node.peerMgr.connectedPeers env.order)
      exact { sent with keeps := step_keeps env other }
  | ping =>
      exact (Counts.eachPeer (sendPingTo_counts prim env) node _).trans
        (Counts.eachPeer (fun node target => sendKeyExchange_counts prim node target.1 target.2)
          _ _)
  | adapt elapsedSecs =>
      exact Counts.of_keeps prim (step_keeps env other) fun _ member =>
        absurd member List.not_mem_nil

end Node

end VoiceChat
