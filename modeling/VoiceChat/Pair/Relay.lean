import VoiceChat.Pair.Replay
import VoiceChat.Session.Buffers
import VoiceChat.Session.Targets
import VoiceChat.Session.Transmission

/-!
# What is said is heard

One node speaks to another over a network that loses packets and keeps the others in
order. As long as neither sets up a context anew and both use the same one for the
audio of the first (`Tuned`), whatever else the two do in the meantime, every packet
that arrives is opened, passes the replay filter, and the frame that was spoken in it is
decoded and pushed into the jitter buffer under its own sequence number (`hear_run`).

The sequence numbers count the frames (`Node.allSpoken_counted`). So what is pushed are
frames that the speaker has encoded, each under its place in the speech, and none is
lost but on the network or in the decoder (`RunState.speech_heard`).
-/

set_option autoImplicit false

namespace VoiceChat

/-- What the audio of one node for another is sealed with. -/
structure Tuning where
  scope : KeyScope
  key : Key
  sessionId : SessionId

/-- Two scopes are the same when they agree on whether they are that of the session. -/
theorem KeyScope.eq_of_psk {scope scope' : KeyScope} (same : scope = .psk ↔ scope' = .psk) :
    scope = scope' := by
  cases scope with
  | psk => exact (same.mp rfl).symm
  | peer =>
    cases scope' with
    | psk => exact same.mpr rfl
    | peer => rfl

/-- The frame that an operation pushes, with its sequence number. -/
def JitterOp.push? {Pcm : Type} : JitterOp Pcm → Option (UInt16 × Pcm)
  | .push seqNum pcm => some (seqNum, pcm)
  | _ => none

/-- The context of a tuning, apart from its counter. -/
def Tuning.ctx (tuning : Tuning) : CryptoContext := CryptoContext.new tuning.key tuning.sessionId

namespace Node

variable {D : Type} {prim : Primitives D} {tuning : Tuning}

/-- The audio of a peer goes with the context of the tuning: no key of the peer was
received and the session context is that of the tuning, or the key was received and is
that of the tuning. -/
def Tuned (tuning : Tuning) (id : UInt8) (node : Node D) : Prop :=
  ∃ peer, node.getPeer id = some peer ∧
    match tuning.scope with
    | .psk => peer.kxReceived = false ∧ node.cryptoCtx.key = tuning.key ∧
        node.cryptoCtx.sessionId = tuning.sessionId
    | .peer => secret peer = (true, some (tuning.key, tuning.sessionId))

/-- A tuned node that has sent its own key, where the tuning is to a key of the pair. -/
def Speaks (tuning : Tuning) (id : UInt8) (node : Node D) : Prop :=
  Tuned tuning id node ∧
    (tuning.scope = .peer → ∀ peer, node.getPeer id = some peer → peer.kxSent = true)

/-- The step receives neither a peer list that opens nor a key for the peer. -/
def Undisturbed (prim : Primitives D) (id : UInt8) (node : Node D) (input : Env D × Event) :
    Prop :=
  ∀ data srcAddr, input.2 = .recv data srcAddr → node.adopts prim data = none ∧
    ∀ packet, Packet.parse data = .ok packet → packet.header.pktType = pktKeyExchange →
      packet.header.peerId = id → ∀ derivedKey, openKeyExchange prim node packet ≠ .ok derivedKey

/-- The step opens no audio in the name of the peer. -/
def Unspoken (prim : Primitives D) (id : UInt8) (node : Node D) (input : Env D × Event) : Prop :=
  ∀ data srcAddr packet, input.2 = .recv data srcAddr → Packet.parse data = .ok packet →
    packet.header.pktType = pktAudio → packet.header.peerId = id →
      ∀ opened, openAudio prim node packet ≠ .ok opened

/-! ## The tuning stays -/

/-- Nothing but a peer list or a key of the peer changes the tuning. -/
theorem Tuned.step {id : UInt8} {node : Node D} (tuned : Tuned tuning id node)
    {input : Env D × Event} (undisturbed : Undisturbed prim id node input) :
    Tuned tuning id (step prim node input.1 input.2).1 := by
  obtain ⟨peer, known, tuning'⟩ := tuned
  have keeps : Keeps node (Node.step prim node input.1 input.2).1 :=
    step_keeps input.1 fun data srcAddr received => (undisturbed data srcAddr received).1
  obtain ⟨peer', known', same | ⟨data, srcAddr, packet, derivedKey, received, parsed, type, named,
    opened, _⟩⟩ := step_secret prim node input.1 input.2 known
  · refine ⟨peer', known', ?_⟩
    cases scope : tuning.scope with
    | psk =>
      rw [scope] at tuning'
      obtain ⟨received, key, sessionId⟩ := tuning'
      exact ⟨(congrArg Prod.fst same).trans received, keeps.ctxKey.trans key,
        keeps.ctxSessionId.trans sessionId⟩
    | peer =>
      rw [scope] at tuning'
      exact same.trans tuning'
  · exact absurd opened ((undisturbed data srcAddr received).2 packet parsed type named derivedKey)

/-- Audio is neither a peer list nor a key. -/
theorem undisturbed_of_audio {id : UInt8} (node : Node D) (env : Env D) {data : Bytes}
    (srcAddr : SocketAddr) {packet : Packet} (parsed : Packet.parse data = .ok packet)
    (type : packet.header.pktType = pktAudio) :
    Undisturbed prim id node (env, .recv data srcAddr) := by
  rintro _ _ ⟨⟩
  refine ⟨adopts_of_type parsed fun list => ?_, fun packet' parsed' type' => ?_⟩
  · exact absurd (type.symm.trans list) (by decide)
  · cases parsed.symm.trans parsed'
    exact absurd (type.symm.trans type') (by decide)

/-- What was sent stays sent. -/
theorem kxSent_step {id : UInt8} {node : Node D} {peer peer' : RemotePeer D}
    (known : node.getPeer id = some peer) (sent : peer.kxSent = true) {input : Env D × Event}
    (known' : (step prim node input.1 input.2).1.getPeer id = some peer') :
    peer'.kxSent = true := by
  by_cases frame : SendsFrame input.2
  · obtain ⟨opus, event⟩ := frame
    rw [event] at known'
    have framed : Frame RemotePeer.kxSent node (step prim node input.1 (.frame opus)).1 :=
      sendFrame_frame node input.1 opus (fun _ _ => rfl) fun _ _ _ _ => rfl
    obtain ⟨peer'', known'', same⟩ := framed.getPeer known
    cases known'.symm.trans known''
    exact same.trans sent
  · obtain ⟨peer'', known'', renumbered⟩ := step_renumbers prim node input.1 frame id peer known
    cases known'.symm.trans known''
    exact renumbered.kxSent sent

theorem Speaks.step {id : UInt8} {node : Node D} (speaks : Speaks tuning id node)
    {input : Env D × Event} (undisturbed : Undisturbed prim id node input) :
    Speaks tuning id (step prim node input.1 input.2).1 := by
  refine ⟨speaks.1.step undisturbed, fun scope peer' known' => ?_⟩
  obtain ⟨peer, known, _⟩ := speaks.1
  exact kxSent_step known (speaks.2 scope peer known) known'

/-! ## The speaker -/

/-- A node that speaks uses the context of its tuning. -/
theorem Speaks.sendContext {id : UInt8} {node : Node D} (speaks : Speaks tuning id node)
    {peer : RemotePeer D} (known : node.getPeer id = some peer) :
    peer.sendContext = none ↔ tuning.scope = .psk := by
  obtain ⟨⟨peer', known', tuned⟩, sent⟩ := speaks
  cases known.symm.trans known'
  unfold RemotePeer.sendContext
  cases scope : tuning.scope with
  | psk =>
    rw [scope] at tuned
    rw [tuned.1, Bool.and_false]
    exact iff_of_true rfl rfl
  | peer =>
    rw [scope] at tuned
    obtain ⟨received, keyed⟩ := Prod.mk.inj tuned
    obtain ⟨ctx, crypto, _⟩ := Option.map_eq_some_iff.mp keyed
    rw [sent scope peer known, received, crypto]
    exact iff_of_false nofun nofun

/-- A context for audio is that of the tuning. -/
theorem Tuned.audioContext {id : UInt8} {node : Node D} (tuned : Tuned tuning id node)
    {ctx : CryptoContext} (context : node.AudioContext id ctx tuning.scope) :
    tuning.ctx.key = ctx.key ∧ tuning.ctx.sessionId = ctx.sessionId := by
  obtain ⟨peer, known, tuning'⟩ := tuned
  cases scope : tuning.scope with
  | psk =>
    rw [scope] at tuning' context
    obtain rfl := context
    exact ⟨tuning'.2.1.symm, tuning'.2.2.symm⟩
  | peer =>
    rw [scope] at tuning' context
    obtain ⟨peer', known', crypto⟩ := context
    cases known.symm.trans known'
    rw [secret, crypto] at tuning'
    obtain ⟨key, sessionId⟩ := Prod.mk.inj (Option.some.inj (Prod.mk.inj tuning').2)
    exact ⟨key.symm, sessionId.symm⟩

/-- Packets of a speech: audio in the name of the speaker, sealed with the tuning, with
ascending counters that are not used up before. -/
structure Speech (prim : Primitives D) (tuning : Tuning) (speaker : UInt8) (used : ℕ)
    (packets : List Emission) : Prop where
  header : ∀ e ∈ packets, e.header.pktType = pktAudio ∧ e.header.peerId = speaker
  sealedWith : ∀ e ∈ packets, e.SealedWith prim.aead tuning.ctx
  above : ∀ e ∈ packets, used ≤ e.header.counter.toNat
  ordered : packets.Pairwise fun first second =>
    first.header.counter.toNat < second.header.counter.toNat

namespace Speech

theorem nil (prim : Primitives D) (tuning : Tuning) (speaker : UInt8) (used : ℕ) :
    Speech prim tuning speaker used [] where
  header _ member := absurd member List.not_mem_nil
  sealedWith _ member := absurd member List.not_mem_nil
  above _ member := absurd member List.not_mem_nil
  ordered := List.Pairwise.nil

/-- Some packets of a speech may be lost. -/
theorem sublist {speaker : UInt8} {used : ℕ} {packets part : List Emission}
    (speech : Speech prim tuning speaker used packets) (inside : part.Sublist packets) :
    Speech prim tuning speaker used part where
  header e member := speech.header e (inside.subset member)
  sealedWith e member := speech.sealedWith e (inside.subset member)
  above e member := speech.above e (inside.subset member)
  ordered := speech.ordered.sublist inside

/-- A speech goes on with counters that are not used up. -/
theorem append {speaker : UInt8} {used used' : ℕ} {packets later : List Emission}
    (speech : Speech prim tuning speaker used packets) (forward : used ≤ used')
    (below : ∀ e ∈ packets, e.header.counter.toNat < used')
    (rest : Speech prim tuning speaker used' later) :
    Speech prim tuning speaker used (packets ++ later) where
  header e member := (List.mem_append.mp member).elim (speech.header e) (rest.header e)
  sealedWith e member :=
    (List.mem_append.mp member).elim (speech.sealedWith e) (rest.sealedWith e)
  above e member :=
    (List.mem_append.mp member).elim (speech.above e) fun late => forward.trans (rest.above e late)
  ordered := by
    refine List.pairwise_append.mpr ⟨speech.ordered, rest.ordered, ?_⟩
    exact fun e early e' late => (below e early).trans_le (rest.above e' late)

/-- After the first packet of a speech, its counter is used up. -/
theorem tail {speaker : UInt8} {used : ℕ} {e : Emission} {packets : List Emission}
    (speech : Speech prim tuning speaker used (e :: packets)) :
    Speech prim tuning speaker (e.header.counter.toNat + 1) packets where
  header e' member := speech.header e' (List.mem_cons_of_mem e member)
  sealedWith e' member := speech.sealedWith e' (List.mem_cons_of_mem e member)
  above _ member := List.rel_of_pairwise_cons speech.ordered member
  ordered := speech.ordered.of_cons

end Speech

/-- The counters of the tuning move on. -/
theorem counterOf_step {id : UInt8} {node : Node D} (known : node.Knows id)
    {input : Env D × Event} (undisturbed : Undisturbed prim id node input) (scope : KeyScope) :
    node.counterOf id scope ≤ (step prim node input.1 input.2).1.counterOf id scope := by
  cases scope with
  | psk =>
    have keeps : Keeps node (Node.step prim node input.1 input.2).1 :=
      step_keeps input.1 fun data srcAddr received => (undisturbed data srcAddr received).1
    exact keeps.counter
  | peer =>
    obtain ⟨peer, known⟩ := known
    refine step_peerCounter prim node input.1 input.2 known ?_
    exact fun data srcAddr packet received => (undisturbed data srcAddr received).2 packet

/-- **One step of a speaker** says a part of a speech. -/
theorem Speaks.spoken {id : UInt8} {node : Node D} (speaks : Speaks tuning id node)
    (keyed : node.Keyed) (input : Env D × Event) :
    let packets := (Node.spoken prim id node input.1 input.2).flatMap Prod.snd
    Speech prim tuning node.peerMgr.localId (node.counterOf id tuning.scope) packets ∧
      ∀ e ∈ packets, e.header.counter.toNat <
        (Node.step prim node input.1 input.2).1.counterOf id tuning.scope := by
  intro packets
  obtain ⟨peer, known, _⟩ := speaks.1
  by_cases silent : Node.spoken prim id node input.1 input.2 = []
  · have none : packets = [] := by
      change (Node.spoken prim id node input.1 input.2).flatMap Prod.snd = []
      rw [silent]
      rfl
    rw [none]
    exact ⟨.nil .., fun e member => absurd member List.not_mem_nil⟩
  · obtain ⟨opus, event, connected, spoke⟩ := of_spoken known silent
    have said : packets = audioFor prim node input.1 opus id := by
      change (Node.spoken prim id node input.1 input.2).flatMap Prod.snd = _
      rw [spoke, List.flatMap_cons, List.flatMap_nil, List.append_nil]
    have streams := audioFor_streams prim node input.1 opus id
    have scope : ∀ e ∈ audioFor prim node input.1 opus id, e.scope = tuning.scope := by
      intro e member
      rcases (audioFor_of_connected prim keyed input.1 opus known connected).1 with
        none | ⟨e', one, _, _, _, _, session⟩
      · rw [none] at member
        cases member
      · rw [one] at member
        rw [List.mem_singleton.mp member]
        exact KeyScope.eq_of_psk (session.trans (speaks.sendContext known))
    rw [said, event]
    refine ⟨⟨streams.header, fun e member => ?_, fun e member => ?_, ?_⟩, fun e member => ?_⟩
    · obtain ⟨ctx, context, sealedWith⟩ := streams.sealedWith e member
      rw [scope e member] at context
      obtain ⟨key, sessionId⟩ := speaks.1.audioContext context
      exact sealedWith.congr key sessionId
    · exact scope e member ▸ streams.above e member
    · refine streams.ordered.imp_of_mem fun first second ascending => ascending ?_
      exact (scope _ first).trans (scope _ second).symm
    · exact scope e member ▸ streams.below e member

/-- **A run of a speaker** says a speech. -/
theorem Speaks.allSpoken {id : UInt8} (inputs : List (Env D × Event)) {node : Node D}
    (speaks : Speaks tuning id node) (keyed : node.Keyed)
    (undisturbed : (nodeMachine prim).Along (Undisturbed prim id) node inputs) :
    Speech prim tuning node.peerMgr.localId (node.counterOf id tuning.scope)
      ((Node.allSpoken prim id node inputs).flatMap Prod.snd) := by
  induction inputs generalizing node with
  | nil => exact .nil ..
  | cons input rest ih =>
    obtain ⟨peer, known, _⟩ := speaks.1
    have keeps : Keeps node (Node.step prim node input.1 input.2).1 :=
      step_keeps input.1 fun data srcAddr received => (undisturbed.1 data srcAddr received).1
    obtain ⟨speech, below⟩ := speaks.spoken keyed input
    have later := ih (speaks.step undisturbed.1) (keyed.step input.1 input.2) undisturbed.2
    have speaker : (Node.step prim node input.1 input.2).1.peerMgr.localId =
      node.peerMgr.localId := keeps.localId
    rw [speaker] at later
    rw [allSpoken_cons, List.flatMap_append]
    exact speech.append (counterOf_step ⟨peer, known⟩ undisturbed.1 tuning.scope) below later

/-! ## The listener -/

/-- What happens to a listener. -/
inductive Arrival (D : Type) where
  /-- A packet of the speech arrives. -/
  | speech (env : Env D) (srcAddr : SocketAddr) (e : Emission)
  /-- Anything else. -/
  | other (env : Env D) (event : Event)

namespace Arrival

def input : Arrival D → Env D × Event
  | .speech env srcAddr e => (env, .recv e.wire srcAddr)
  | .other env event => (env, event)

/-- The packet of the speech that arrives. -/
def packet? : Arrival D → Option Emission
  | .speech _ _ e => some e
  | .other _ _ => none

end Arrival

/-- A listener as a machine. -/
def listening (prim : Primitives D) : Machine (Node D) (Arrival D) Emission where
  step node arrival := Node.step prim node arrival.input.1 arrival.input.2

/-- What is not of the speech neither changes the tuning nor is other audio in the name
of the speaker. -/
def Aside (prim : Primitives D) (speaker : UInt8) (node : Node D) : Arrival D → Prop
  | .speech _ _ _ => True
  | .other env event =>
      Undisturbed prim speaker node (env, event) ∧ Unspoken prim speaker node (env, event)

/-- Numbered frames as they are heard: each is decoded, by the decoder as it is at that
time, and pushed under its number, unless it cannot be decoded. -/
inductive Decoded (prim : Primitives D) : List (UInt16 × Bytes) → List (UInt16 × Pcm) → Prop
  | nil : Decoded prim [] []
  | pushed (decoder : D) {seqNum : UInt16} {opus : Bytes} {pcm : Pcm}
      {frames : List (UInt16 × Bytes)} {pushes : List (UInt16 × Pcm)}
      (decodes : (prim.decode decoder opus).2 = some pcm) (rest : Decoded prim frames pushes) :
      Decoded prim ((seqNum, opus) :: frames) ((seqNum, pcm) :: pushes)
  | lost (decoder : D) {seqNum : UInt16} {opus : Bytes} {frames : List (UInt16 × Bytes)}
      {pushes : List (UInt16 × Pcm)} (fails : (prim.decode decoder opus).2 = none)
      (rest : Decoded prim frames pushes) : Decoded prim ((seqNum, opus) :: frames) pushes

/-- A tuned listener opens a packet of the speech with the context of the tuning. -/
theorem Tuned.openAudio {speaker : UInt8} {node : Node D} (tuned : Tuned tuning speaker node)
    (correct : prim.aead.Correct) {e : Emission} (sealedWith : e.SealedWith prim.aead tuning.ctx)
    (name : e.header.peerId = speaker) :
    ∃ packet, Packet.parse e.wire = .ok packet ∧ packet.header = e.header ∧
      Node.openAudio prim node packet = .ok (e.plaintext, tuning.scope.isPeer) := by
  obtain ⟨peer, known, tuning'⟩ := tuned
  cases scope : tuning.scope with
  | psk =>
    rw [scope] at tuning'
    obtain ⟨keyless, key, sessionId⟩ := tuning'
    obtain ⟨packet, parsed, header, opened⟩ :=
      sealedWith.opens node.cryptoCtx correct key sessionId
    refine ⟨packet, parsed, header, ?_⟩
    have context : (node.getPeer packet.header.peerId).bind RemotePeer.recvContext = none := by
      rw [header, name, known, Option.bind_some, RemotePeer.recvContext, keyless]
      rfl
    rw [Node.openAudio, context, opened]
    rfl
  | peer =>
    rw [scope] at tuning'
    obtain ⟨received, keyed⟩ := Prod.mk.inj tuning'
    obtain ⟨ctx, crypto, same⟩ := Option.map_eq_some_iff.mp keyed
    obtain ⟨key, sessionId⟩ := Prod.mk.inj same
    obtain ⟨packet, parsed, header, opened⟩ := sealedWith.opens ctx correct key sessionId
    refine ⟨packet, parsed, header, ?_⟩
    have context : (node.getPeer packet.header.peerId).bind RemotePeer.recvContext = some ctx := by
      rw [header, name, known, Option.bind_some, RemotePeer.recvContext, received, crypto]
      rfl
    rw [Node.openAudio, context]
    dsimp only
    rw [opened]
    rfl

/-- The filter of the listener has accepted nothing from a counter on. -/
def Awaits (scope : KeyScope) (speaker : UInt8) (used : ℕ) (node : Node D) : Prop :=
  ∀ peer, node.getPeer speaker = some peer → (peer.filterFor scope.isPeer).Below used

/-- **A packet of the speech is pushed**, and the listener awaits the next ones. -/
theorem hear_speech {speaker : UInt8} {node : Node D} {used : ℕ}
    (tuned : Tuned tuning speaker node) (awaits : Awaits tuning.scope speaker used node)
    (correct : prim.aead.Correct) {e : Emission} {packets : List Emission}
    (speech : Speech prim tuning speaker used (e :: packets)) (env : Env D)
    (srcAddr : SocketAddr) :
    Tuned tuning speaker (Node.step prim node env (.recv e.wire srcAddr)).1 ∧
      Awaits tuning.scope speaker (e.header.counter.toNat + 1)
        (Node.step prim node env (.recv e.wire srcAddr)).1 ∧
      ∃ decoder, bufferOps prim node speaker (.recv e.wire srcAddr) =
        ((prim.decode decoder e.plaintext).2.map (JitterOp.push e.header.seqNum)).toList := by
  have first : e ∈ e :: packets := List.mem_cons_self
  obtain ⟨type, name⟩ := speech.header e first
  obtain ⟨packet, parsed, header, opened⟩ :=
    tuned.openAudio correct (speech.sealedWith e first) name
  rw [← header] at type name
  refine ⟨?_, ?_, ?_⟩
  · exact tuned.step (undisturbed_of_audio node env srcAddr parsed type)
  all_goals
    obtain ⟨peer, known, _⟩ := tuned
    rw [← name] at known
    have below := (awaits peer (name ▸ known)).mono (speech.above e first)
    rw [← header] at below
    obtain ⟨fresh, passed⟩ := ReplayFilter.checkAndAccept_of_below below
  · intro peer' known'
    rw [← name, step_heard env srcAddr parsed type opened known] at known'
    cases known'
    rw [acceptAudio_filterFor, if_pos rfl, ← header]
    exact passed
  · refine ⟨peer.decoder, ?_⟩
    have heard : Node.pushed prim node packet = (prim.decode peer.decoder e.plaintext).2 := by
      rw [Node.pushed, opened]
      dsimp only
      rw [known]
      exact if_pos fresh
    rw [bufferOps, parsed]
    dsimp only
    rw [if_pos ⟨type, name⟩, heard, header]

/-- **Anything else** pushes nothing in the name of the speaker, and the listener awaits
what it did. -/
theorem hear_aside {speaker : UInt8} {node : Node D} {used : ℕ}
    (tuned : Tuned tuning speaker node) (awaits : Awaits tuning.scope speaker used node)
    {env : Env D} {event : Event} (undisturbed : Undisturbed prim speaker node (env, event))
    (unspoken : Unspoken prim speaker node (env, event)) :
    Tuned tuning speaker (Node.step prim node env event).1 ∧
      Awaits tuning.scope speaker used (Node.step prim node env event).1 ∧
      (bufferOps prim node speaker event).filterMap JitterOp.push? = [] := by
  refine ⟨tuned.step undisturbed, ?_, ?_⟩
  · obtain ⟨peer, known, _⟩ := tuned
    obtain ⟨peer', known', same⟩ := step_filters prim node env event known unspoken
    intro peer'' known''
    cases known'.symm.trans known''
    rw [filterFor_of_filters same]
    exact awaits peer known
  · refine List.filterMap_eq_nil_iff.mpr fun op member => ?_
    cases op with
    | push seqNum pcm =>
      obtain ⟨data, srcAddr, packet, received, parsed, type, name, _, pushes⟩ :=
        (of_mem_bufferOps member).2 seqNum pcm rfl
      obtain ⟨opus, peerKeyed, _, opened, _⟩ := pushed_eq_some pushes
      exact absurd opened (unspoken data srcAddr packet received parsed type name _)
    | pop | adapt _ | reset => rfl

theorem aside_speech (prim : Primitives D) (speaker : UInt8) (node : Node D)
    (packets : List Emission) (env : Env D) (srcAddr : SocketAddr) :
    (listening prim).Along (Aside prim speaker) node
      (packets.map fun e => .speech env srcAddr e) := by
  refine Machine.along_of_forall fun _ arrival member => ?_
  obtain ⟨e, _, rfl⟩ := List.mem_map.mp member
  trivial

theorem filterMap_packet?_speech (packets : List Emission) (env : Env D) (srcAddr : SocketAddr) :
    (packets.map fun e => Arrival.speech env srcAddr e).filterMap Arrival.packet? = packets := by
  rw [List.filterMap_map]
  exact List.filterMap_some

/-- **A listener hears what arrives of a speech.** -/
theorem hear_run {speaker : UInt8} (correct : prim.aead.Correct) (arrivals : List (Arrival D))
    {node : Node D} {used : ℕ} (tuned : Tuned tuning speaker node)
    (awaits : Awaits tuning.scope speaker used node)
    (aside : (listening prim).Along (Aside prim speaker) node arrivals)
    (speech : Speech prim tuning speaker used (arrivals.filterMap Arrival.packet?)) :
    Decoded prim ((arrivals.filterMap Arrival.packet?).map frameOf)
      ((allBufferOps prim speaker node (arrivals.map Arrival.input)).filterMap
        JitterOp.push?) := by
  induction arrivals generalizing node used with
  | nil => exact .nil
  | cons arrival rest ih =>
    rw [List.map_cons, allBufferOps_cons, List.filterMap_append]
    cases arrival with
    | speech env srcAddr e =>
      rw [List.filterMap_cons_some (rfl : Arrival.packet? (.speech env srcAddr e) = some e)]
        at speech ⊢
      obtain ⟨tuned, awaits, decoder, pushes⟩ := hear_speech tuned awaits correct speech env srcAddr
      have later := ih tuned awaits aside.2 speech.tail
      change Decoded prim _ ((bufferOps prim node speaker (.recv e.wire srcAddr)).filterMap _ ++ _)
      rw [pushes]
      cases decodes : (prim.decode decoder e.plaintext).2 with
      | none => exact .lost decoder decodes later
      | some pcm => exact .pushed decoder decodes later
    | other env event =>
      rw [List.filterMap_cons_none (rfl : Arrival.packet? (.other env event) = none)] at speech ⊢
      obtain ⟨undisturbed, unspoken⟩ := aside.1
      obtain ⟨tuned, awaits, quiet⟩ := hear_aside tuned awaits undisturbed unspoken
      change Decoded prim _ ((bufferOps prim node speaker event).filterMap _ ++ _)
      rw [quiet, List.nil_append]
      exact ih tuned awaits aside.2 speech

end Node

/-- The frame that an event is. -/
def Node.Event.frame? : Node.Event → Option Bytes
  | .frame opus => some opus
  | _ => none

namespace Node

variable {D : Type} {prim : Primitives D}

/-- While a peer is connected, every frame is said to it. -/
theorem allSpoken_of_connected {id : UInt8} {inputs : List (Env D × Event)} {node : Node D}
    (connected : (nodeMachine prim).Along (fun node _ => node.Connected id) node inputs) :
    (allSpoken prim id node inputs).map Prod.fst =
      inputs.filterMap fun input => input.2.frame? := by
  induction inputs generalizing node with
  | nil => rfl
  | cons input rest ih =>
    obtain ⟨env, event⟩ := input
    have later := ih connected.2
    rw [allSpoken_cons, List.map_append]
    refine (congrArg (_ ++ ·) later).trans ?_
    cases event with
    | frame opus =>
      rw [spoken, if_pos connected.1]
      rfl
    | recv _ _ | playout | keepalive | ping | adapt _ => rfl

end Node

namespace RunState

variable {σ E D : Type} {prim : Primitives D} {audio : AudioLibrary σ E} {tuning : Tuning}

/-- The frames of a run are those that its capture encodes. -/
theorem frames_of_events (s : RunState σ E D) (turns : List (Turn D)) :
    (s.events audio turns).filterMap (fun input => input.2.frame?) =
      (Capture.machine audio).outputs s.capture (turns.map Turn.heard) := by
  rw [← (encoded_eq audio s.capture turns).2, events, iterations]
  generalize s.timers = timers
  generalize (encoded audio).outputs s.capture turns = iterations
  induction iterations generalizing timers with
  | nil => rfl
  | cons iteration rest ih =>
    rw [Machine.outputs_cons, List.filterMap_append, ih, List.flatMap_cons]
    refine congrArg (· ++ _) ?_
    change ((iteration.arrived ++ (timers.due iteration.env.now).1).map
      fun event => (iteration.env, event)).filterMap (fun input => input.2.frame?) = _
    rw [List.filterMap_map, List.filterMap_append]
    have arrived : iteration.arrived.filterMap Node.Event.frame? = iteration.frames := by
      rw [Iteration.arrived, List.filterMap_append, List.filterMap_map]
      cases iteration.received with
      | none => exact List.filterMap_some
      | some datagram => exact List.filterMap_some
    have timed : (timers.due iteration.env.now).1.filterMap Node.Event.frame? = [] := by
      refine List.filterMap_eq_nil_iff.mpr fun event member => ?_
      cases event with
      | frame opus => exact absurd member (Timers.frame_not_mem_due timers _ opus)
      | recv _ _ | playout | keepalive | ping | adapt _ => rfl
    exact (congrArg₂ (· ++ ·) arrived timed).trans (List.append_nil _)

theorem start_node (node : Node D) (noiseSuppression : Bool) (vadConfig : VadConfig)
    (mode : InputMode) (encoder : E) (now : Instant) :
    (RunState.start audio node noiseSuppression vadConfig mode encoder now).node = node := rfl

/-- **What is said is heard.** A session captures and speaks to a peer that stays connected,
a network loses some of the packets and keeps the others in order, and neither side sets up
a context anew, whatever else they do: then what the peer pushes into its jitter buffer
are the frames that the session has encoded, some of them missing, each decoded and under
the number of its place among them, and nothing else. -/
theorem speech_heard (correct : prim.aead.Correct) {s : RunState σ E D}
    (reached : s.node.Reached prim) {id : UInt8} {peer : RemotePeer D}
    (known : s.node.getPeer id = some peer) (speaks : s.node.Speaks tuning id)
    {turns : List (Turn D)}
    (connected : (nodeMachine prim).Along (fun node _ => node.Connected id) s.node
      (s.events audio turns))
    (undisturbed : (nodeMachine prim).Along (Node.Undisturbed prim id) s.node
      (s.events audio turns))
    {listener : Node D} (tuned : listener.Tuned tuning s.node.peerMgr.localId)
    (awaits : listener.Awaits tuning.scope s.node.peerMgr.localId
      (s.node.counterOf id tuning.scope))
    {arrivals : List (Node.Arrival D)}
    (aside : (Node.listening prim).Along (Node.Aside prim s.node.peerMgr.localId) listener arrivals)
    (inOrder : (arrivals.filterMap Node.Arrival.packet?).Sublist
      ((Node.allSpoken prim id s.node (s.events audio turns)).flatMap Prod.snd)) :
    ∃ heard, heard.Sublist (Node.numbered peer.sendSeq
        ((Capture.machine audio).outputs s.capture (turns.map Turn.heard))) ∧
      Node.Decoded prim heard ((Node.allBufferOps prim s.node.peerMgr.localId listener
        (arrivals.map Node.Arrival.input)).filterMap JitterOp.push?) := by
  have keyed := reached.keyed
  have speech := (speaks.allSpoken (s.events audio turns) keyed undisturbed).sublist inOrder
  refine ⟨_, ?_, Node.hear_run correct arrivals tuned awaits aside speech⟩
  rw [← frames_of_events, ← Node.allSpoken_of_connected connected]
  exact (inOrder.map _).trans (Node.allSpoken_counted (s.events audio turns) keyed known).numbered

end RunState

namespace Sample

/-- A turn in which a frame of silence is read, without noise suppression. -/
def quietTurn (now : Instant) : Turn Unit :=
  ⟨⟨env 0 now, ⟨false, false, none⟩, none, true⟩, List.replicate frameSamples 0⟩

/-- A session of the host, which has shaken hands with a joiner. -/
def hostSession : RunState Unit Unit Unit :=
  RunState.start AudioLibrary.transparent greetedHost.node false VadConfig.default .alwaysOn () 0

theorem hostSession_node : hostSession.node = greetedHost.node := by
  rw [hostSession, RunState.start_node]

-- what the session says is for the kernel to compute
attribute [irreducible] hostSession

/-- The session of the host has the key that it started with, as has the joiner. -/
def tuning : Tuning := ⟨.psk, psk, session⟩

/-- The packets of two frames. -/
@[irreducible] def said : List Emission :=
  (Node.allSpoken Primitives.transparent 1 hostSession.node
    (hostSession.events AudioLibrary.transparent [quietTurn 1, quietTurn 2])).flatMap Prod.snd

/-- The first of them is lost. -/
def heard : List (Node.Arrival Unit) := said.tail.map fun e => .speech (env 1 3) (addr 0) e

theorem hostSession_reached : hostSession.node.Reached Primitives.transparent := by
  rw [hostSession_node]
  exact hostOfOne_reached.recv (env 0 0) (wires greeting.out) (addr 1)

theorem hostSession_peer : ∃ peer, hostSession.node.getPeer 1 = some peer ∧ peer.sendSeq = 0 :=
  Option.map_eq_some_iff.mp (by decide +kernel)

theorem hostSession_speaks : hostSession.node.Speaks tuning 1 := by
  have keyless : (hostSession.node.getPeer 1).map RemotePeer.kxReceived = some false := by
    decide +kernel
  obtain ⟨peer, known, keyless⟩ := Option.map_eq_some_iff.mp keyless
  exact ⟨⟨peer, known, keyless, by decide +kernel, by decide +kernel⟩, nofun⟩

theorem guest_tuned : guest.node.Tuned tuning hostSession.node.peerMgr.localId := by
  have keyless : (guest.node.getPeer hostSession.node.peerMgr.localId).map
      RemotePeer.kxReceived = some false := by
    decide +kernel
  obtain ⟨peer, known, keyless⟩ := Option.map_eq_some_iff.mp keyless
  exact ⟨peer, known, keyless, by decide +kernel, by decide +kernel⟩

/-- In two turns the session does nothing but speak. -/
theorem hostSession_undisturbed : (nodeMachine Primitives.transparent).Along
    (Node.Undisturbed Primitives.transparent 1) hostSession.node
    (hostSession.events AudioLibrary.transparent [quietTurn 1, quietTurn 2]) := by
  have frames : ∀ input ∈ hostSession.events AudioLibrary.transparent [quietTurn 1, quietTurn 2],
      input.2.frame?.isSome := by
    decide +kernel
  refine Machine.along_of_forall fun node input member data srcAddr received => ?_
  have frame := frames input member
  rw [received] at frame
  cases frame

end Sample

namespace RunState

/-- Of two frames, the second is heard. -/
theorem second_frame_heard :
    ∃ heard, heard.Sublist (Node.numbered 0
        ((Capture.machine AudioLibrary.transparent).outputs Sample.hostSession.capture
          ([Sample.quietTurn 1, Sample.quietTurn 2].map Turn.heard))) ∧
      Node.Decoded Primitives.transparent heard ((Node.allBufferOps Primitives.transparent
        Sample.hostSession.node.peerMgr.localId Sample.guest.node
        (Sample.heard.map Node.Arrival.input)).filterMap JitterOp.push?) := by
  obtain ⟨peer, known, unsaid⟩ := Sample.hostSession_peer
  have unheard : (Sample.guest.node.getPeer Sample.hostSession.node.peerMgr.localId).map
      RemotePeer.replayFilter = some ReplayFilter.new := by
    decide +kernel
  obtain ⟨peer', known', unheard⟩ := Option.map_eq_some_iff.mp unheard
  have awaits : Sample.guest.node.Awaits .psk Sample.hostSession.node.peerMgr.localId
      (Sample.hostSession.node.counterOf 1 .psk) := by
    intro peer'' known''
    cases known'.symm.trans known''
    exact Or.inl unheard
  have inOrder : (Sample.heard.filterMap Node.Arrival.packet?).Sublist
      ((Node.allSpoken Primitives.transparent 1 Sample.hostSession.node
        (Sample.hostSession.events AudioLibrary.transparent
          [Sample.quietTurn 1, Sample.quietTurn 2])).flatMap Prod.snd) := by
    rw [Sample.heard, Node.filterMap_packet?_speech]
    decide +kernel
  rw [← unsaid]
  exact speech_heard Aead.transparent_correct Sample.hostSession_reached known
    Sample.hostSession_speaks (by decide +kernel) Sample.hostSession_undisturbed
    Sample.guest_tuned awaits (Node.aside_speech Primitives.transparent _ Sample.guest.node
      Sample.said.tail (Sample.env 1 3) (Sample.addr 0)) inOrder

end RunState

end VoiceChat
