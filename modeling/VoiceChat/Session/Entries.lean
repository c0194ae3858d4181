import VoiceChat.Session.Growth

/-!
# What becomes of a part of an entry

Most of what a session keeps of a peer is a machine of its own: a jitter buffer, a
latency tracker. The session feeds it with some of what happens and leaves it alone
otherwise (`Fed`). Then what it is at the end of a run, and what it has put out, is what
the machine alone makes of everything it was fed with (`Fed.run`).
-/

set_option autoImplicit false

namespace VoiceChat

namespace Node

universe u v

variable {D : Type} {prim : Primitives D} {α : Type} {ι : Type u} {ο : Type v}

/-- A part of the entry of a peer goes through what a step feeds it with, and that of a
new peer starts. -/
def Feeds (view : RemotePeer D → α) (M : Machine α ι ο) (fresh : α) (id : UInt8) (fed : List ι)
    (node node' : Node D) : Prop :=
  (node'.getPeer id).map view = (node.getPeer id).map (fun peer => M.run (view peer) fed) ∨
    node.getPeer id = none ∧ (node'.getPeer id).map view = some fresh

/-- A step that lets the table grow feeds nothing. -/
theorem Feeds.of_grows {view : RemotePeer D → α} {M : Machine α ι ο} {fresh : α} {id : UInt8}
    {node node' : Node D} (grows : Grows view fresh node node') :
    Feeds view M fresh id [] node node' := grows id

/-- A packet lets the table grow, in a view that ignores what packets of its type are
there to change. -/
theorem Placeless.grows_handlePacket {view : RemotePeer D → α} {fresh : α}
    (placeless : Placeless view fresh) (node : Node D) (env : Env D) (srcAddr : SocketAddr)
    (packet : Packet)
    (audio : packet.header.pktType = pktAudio →
      ∀ (peer : RemotePeer D) replayFilter peerReplayFilter decoder jitterBuffer,
        view { peer with
          lastSeen := env.now
          replayFilter := replayFilter
          peerReplayFilter := peerReplayFilter
          decoder := decoder
          jitterBuffer := jitterBuffer } = view peer)
    (pong : packet.header.pktType = pktPong → ∀ (peer : RemotePeer D) latencyTracker,
      view { peer with lastSeen := env.now, latencyTracker := latencyTracker } = view peer)
    (keyExchange : packet.header.pktType = pktKeyExchange →
      ∀ (peer : RemotePeer D) peerCrypto kxReceived kxSent,
        view { peer with peerCrypto := peerCrypto, kxReceived := kxReceived, kxSent := kxSent } =
          view peer) : Grows view fresh node (handlePacket prim node env srcAddr packet).node := by
  have touched : ∀ peer : RemotePeer D, view (peer.touch env.now) = view peer :=
    fun peer => placeless.state peer peer.state env.now
  cases handlePacket_handled prim node env srcAddr packet with
  | audio type same => exact same ▸ Grows.of_frame (handleAudio_frame node env packet (audio type))
  | join _ same => exact same ▸ placeless.grows_handleJoin prim node env srcAddr packet
  | peerList _ same => exact same ▸ placeless.grows_handlePeerList prim node env srcAddr packet
  | hello _ same => exact same ▸ placeless.grows_handleHello prim node env srcAddr packet
  | helloAck _ same =>
      exact same ▸ Grows.of_frame
        (handleHelloAck_frame node env packet fun peer => placeless.state peer _ _)
  | keepalive _ same => exact same ▸ Grows.of_frame (touchAddr_frame node srcAddr env.now touched)
  | ping _ same => exact same ▸ Grows.of_frame (handlePing_frame node env srcAddr packet touched)
  | pong type same => exact same ▸ Grows.of_frame (handlePong_frame node env packet (pong type))
  | keyExchange type same =>
      exact same ▸ Grows.of_frame (handleKeyExchange_frame node srcAddr packet (keyExchange type))
  | unknown _ same => exact same ▸ Grows.refl node

/-- The session feeds a machine that is a part of the entry of a peer, and shows what it
puts out, in every state with an invariant. -/
structure Fed (prim : Primitives D) (Inv : Node D → Prop) (view : RemotePeer D → α)
    (M : Machine α ι ο) (fresh : α) (id : UInt8) (feed : Node D → Env D × Event → List ι)
    (shown : Node D → Env D × Event → List ο) : Prop where
  kept : ∀ {node : Node D}, Inv node → ∀ input : Env D × Event,
    Inv (Node.step prim node input.1 input.2).1
  step : ∀ {node : Node D}, Inv node → ∀ input,
    Feeds view M fresh id (feed node input) node (Node.step prim node input.1 input.2).1
  known : ∀ {node : Node D} {peer}, node.getPeer id = some peer → ∀ input,
    shown node input = M.outputs (view peer) (feed node input)
  unknown : ∀ {node : Node D}, node.getPeer id = none → ∀ input,
    feed node input = [] ∧ shown node input = []

namespace Fed

variable {Inv : Node D → Prop} {view : RemotePeer D → α} {M : Machine α ι ο} {fresh : α}
  {id : UInt8} {feed : Node D → Env D × Event → List ι}
  {shown : Node D → Env D × Event → List ο}

/-- From a known peer on, the machine runs. -/
theorem run_of_known (fed : Fed prim Inv view M fresh id feed shown) {node : Node D}
    (holds : Inv node) {peer : RemotePeer D} (known : node.getPeer id = some peer)
    (inputs : List (Env D × Event)) :
    (((nodeMachine prim).run node inputs).getPeer id).map view =
        some (M.run (view peer) (((nodeMachine prim).observe feed).outputs node inputs)) ∧
      ((nodeMachine prim).observe shown).outputs node inputs =
        M.outputs (view peer) (((nodeMachine prim).observe feed).outputs node inputs) := by
  induction inputs generalizing node peer with
  | nil => exact ⟨congrArg (Option.map _) known, rfl⟩
  | cons input rest ih =>
    rcases fed.step holds input with entry | ⟨unknown, _⟩
    · rw [known, Option.map_some, Option.map_eq_some_iff] at entry
      obtain ⟨peer', known', after⟩ := entry
      obtain ⟨run, outputs⟩ := ih (fed.kept holds input) known'
      rw [after] at run outputs
      rw [Machine.outputs_cons, Machine.outputs_cons, Machine.run_append, Machine.outputs_append]
      exact ⟨run, congrArg₂ (· ++ ·) (fed.known known input) outputs⟩
    · cases known.symm.trans unknown

/-- **From an unknown peer on**, the machine starts when the peer enters. -/
theorem run (fed : Fed prim Inv view M fresh id feed shown) {node : Node D} (holds : Inv node)
    (unknown : node.getPeer id = none) (inputs : List (Env D × Event)) :
    (∀ peer, ((nodeMachine prim).run node inputs).getPeer id = some peer →
        view peer = M.run fresh (((nodeMachine prim).observe feed).outputs node inputs)) ∧
      ((nodeMachine prim).observe shown).outputs node inputs =
        M.outputs fresh (((nodeMachine prim).observe feed).outputs node inputs) := by
  induction inputs generalizing node with
  | nil =>
    refine ⟨fun peer known => ?_, rfl⟩
    cases unknown.symm.trans known
  | cons input rest ih =>
    obtain ⟨idle, silent⟩ := fed.unknown unknown input
    have idle' : (((nodeMachine prim).observe feed).step node input).2 = [] := idle
    have silent' : (((nodeMachine prim).observe shown).step node input).2 = [] := silent
    rw [Machine.outputs_cons, Machine.outputs_cons, idle', silent', List.nil_append,
      List.nil_append]
    cases known : (Node.step prim node input.1 input.2).1.getPeer id with
    | none => exact ih (fed.kept holds input) known
    | some peer =>
      obtain ⟨run, outputs⟩ := fed.run_of_known (fed.kept holds input) known rest
      have new : view peer = fresh := by
        rcases fed.step holds input with entry | ⟨_, new⟩
        · rw [known, unknown] at entry
          cases entry
        · rw [known] at new
          exact Option.some.inj new
      rw [new] at run outputs
      refine ⟨fun peer' known' => ?_, outputs⟩
      have known'' : ((nodeMachine prim).run (Node.step prim node input.1 input.2).1 rest).getPeer
        id = some peer' := known'
      rw [known''] at run
      exact Option.some.inj run

end Fed

end Node

end VoiceChat
