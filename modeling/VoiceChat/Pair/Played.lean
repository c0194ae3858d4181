import VoiceChat.Jitter.InOrder
import VoiceChat.Pair.Relay

/-!
# What is played was said

A network may lose the packets of a speech, delay them, swap them and deliver them again
and again. As long as only the packets of the speaker open in its name (`Genuine`), and none
comes so late or so early that its sequence number is mistaken (`InTime`), what the playout of
a listener takes from the jitter buffer of the speaker are frames that the speaker has encoded,
in the order in which they were encoded and each at most once (`RunState.speech_played`). The
speech starts wherever the buffer is empty, and may be of any length.

Sequence numbers have sixteen bits, so of a speech of at most 32767 frames, which is more than
a minute, no packet can come at a wrong time (`RunState.short_speech_played`).
-/

set_option autoImplicit false

namespace VoiceChat

/-- The samples are made of the frame by some state of the decoder. -/
def Primitives.Decodes {D : Type} (prim : Primitives D) (opus : Bytes) (pcm : Pcm) : Prop :=
  ∃ decoder, (prim.decode decoder opus).2 = some pcm

namespace Node

variable {D : Type} {prim : Primitives D}

/-! ## What is pushed -/

/-- A listener that is told with every event the place in the speech of the packet that
arrives. It puts out what happens to the jitter buffer of the speaker. -/
def hearing (prim : Primitives D) (speaker : UInt8) :
    Machine (Node D) ((Env D × Event) × ℕ) (JitterOp Pcm × ℕ) :=
  ((nodeMachine prim).observe fun node input => bufferOps prim node speaker input.2).labelled ℕ

/-- The audio that opens in the name of a speaker is a packet of the speech, with the frame at
the place told. -/
def Genuine (prim : Primitives D) (speaker : UInt8) (speech : List (Bytes × List Emission))
    (node : Node D) (input : (Env D × Event) × ℕ) : Prop :=
  ∀ data srcAddr packet opus peerKeyed, input.1.2 = .recv data srcAddr →
    Packet.parse data = .ok packet → packet.header.pktType = pktAudio →
    packet.header.peerId = speaker → openAudio prim node packet = .ok (opus, peerKeyed) →
      ∃ said, speech[input.2]? = some said ∧
        ∃ e ∈ said.2, e.header = packet.header ∧ e.plaintext = opus

/-- Every packet of the speech that is pushed comes in time. -/
def InTime (prim : Primitives D) (speaker : UInt8) (node : Node D)
    (inputs : List ((Env D × Event) × ℕ)) : Prop :=
  (Track.machine Pcm).Along Track.InTime (Track.start (node.bufferOf speaker))
    ((hearing prim speaker).outputs node inputs)

/-- What an event does to the buffer carries the frame at the place told. -/
theorem carries_of_genuine {speaker : UInt8} {first : UInt16}
    {speech : List (Bytes × List Emission)} (counted : Counted first speech) {node : Node D}
    {input : (Env D × Event) × ℕ} (genuine : Genuine prim speaker speech node input)
    {op : JitterOp Pcm} (member : op ∈ bufferOps prim node speaker input.1.2) :
    Track.Carries first (speech.map Prod.fst) prim.Decodes (op, input.2) := by
  obtain ⟨lasting, received⟩ := of_mem_bufferOps member
  have pushes : ∀ seqNum pcm, op = .push seqNum pcm → At first input.2 seqNum ∧
      ∃ opus, (speech.map Prod.fst)[input.2]? = some opus ∧ prim.Decodes opus pcm := by
    intro seqNum pcm push
    obtain ⟨data, srcAddr, packet, event, parsed, type, name, rfl, pushes⟩ :=
      received seqNum pcm push
    obtain ⟨opus, peerKeyed, peer, opened, _, decodes⟩ := pushed_eq_some pushes
    obtain ⟨said, there, e, carried, header, rfl⟩ :=
      genuine data srcAddr packet opus peerKeyed event parsed type name opened
    obtain ⟨number, plaintext⟩ := Prod.mk.inj (counted.frameOf_eq there carried)
    rw [header] at number
    refine ⟨number ▸ At.ofNat first input.2, e.plaintext, ?_, peer.decoder, decodes⟩
    rw [List.getElem?_map, there, Option.map_some, plaintext]
  refine ⟨?_, fun seqNum pcm push => (pushes seqNum pcm push).2⟩
  cases op with
  | push seqNum pcm => exact (pushes seqNum pcm rfl).1
  | pop | adapt _ => trivial
  | reset => cases lasting

/-- So does what a run does to it. -/
theorem carries_of_genuine_run {speaker : UInt8} {first : UInt16}
    {speech : List (Bytes × List Emission)} (counted : Counted first speech) {node : Node D}
    {inputs : List ((Env D × Event) × ℕ)}
    (genuine : (hearing prim speaker).Along (Genuine prim speaker speech) node inputs) :
    ∀ input ∈ (hearing prim speaker).outputs node inputs,
      Track.Carries first (speech.map Prod.fst) prim.Decodes input := by
  have start : ∀ input ∈ ([] : List (JitterOp Pcm × ℕ)),
      Track.Carries first (speech.map Prod.fst) prim.Decodes input := List.forall_mem_nil _
  refine Machine.invariant_outputs (M := hearing prim speaker)
    (fun _ out => ∀ input ∈ out, Track.Carries first (speech.map Prod.fst) prim.Decodes input)
    (fun node out input held genuine operation member => ?_) start genuine
  rcases List.mem_append.mp member with before | now
  · exact held operation before
  · obtain ⟨op, inside, rfl⟩ := List.mem_map.mp now
    exact carries_of_genuine counted genuine inside

/-! ## What is taken -/

/-- **Frames of a speech come out in order**, when only its packets open, and in time. -/
theorem taken_in_order {speaker : UInt8} {first : UInt16}
    {speech : List (Bytes × List Emission)} (counted : Counted first speech) {node : Node D}
    (empty : (node.bufferOf speaker).frames = []) {inputs : List ((Env D × Event) × ℕ)}
    (genuine : (hearing prim speaker).Along (Genuine prim speaker speech) node inputs)
    (inTime : InTime prim speaker node inputs) :
    ∃ heard : List Bytes, heard.Sublist (speech.map Prod.fst) ∧
      List.Forall₂ prim.Decodes heard
        (allTaken prim speaker node (inputs.map Prod.fst)).reduceOption := by
  have operations : ((hearing prim speaker).outputs node inputs).map Prod.fst =
      allBufferOps prim speaker node (inputs.map Prod.fst) := Machine.outputs_labelled _ node inputs
  rw [allTaken_eq, ← operations]
  exact Track.popped_in_order empty (carries_of_genuine_run counted genuine) inTime

/-- Of a short speech, every packet comes in time. -/
theorem inTime_of_short {speaker : UInt8} {first : UInt16}
    {speech : List (Bytes × List Emission)} (counted : Counted first speech)
    (short : speech.length ≤ 32767) {node : Node D}
    (empty : (node.bufferOf speaker).frames = []) {inputs : List ((Env D × Event) × ℕ)}
    (genuine : (hearing prim speaker).Along (Genuine prim speaker speech) node inputs) :
    InTime prim speaker node inputs :=
  Track.inTime_of_carries ((List.length_map _).trans_le short) empty
    (carries_of_genuine_run counted genuine)

/-- A frame is said only when it is encoded. -/
theorem allSpoken_sublist (prim : Primitives D) (id : UInt8) (inputs : List (Env D × Event))
    (node : Node D) : ((allSpoken prim id node inputs).map Prod.fst).Sublist
      (inputs.filterMap fun input => input.2.frame?) := by
  induction inputs generalizing node with
  | nil => exact .refl _
  | cons input rest ih =>
    obtain ⟨env, event⟩ := input
    rw [allSpoken_cons, List.map_append]
    cases event with
    | frame opus =>
      rw [spoken]
      split_ifs
      · exact (ih _).cons_cons opus
      · exact (ih _).cons opus
    | recv _ _ | playout | keepalive | ping | adapt _ => exact ih _

/-- The step delivers one of the packets, or something else that neither changes the tuning
nor is audio in the name of the speaker. -/
def Conveys (prim : Primitives D) (speaker : UInt8) (packets : List Emission) (node : Node D)
    (input : Env D × Event) : Prop :=
  (∃ e ∈ packets, ∃ srcAddr, input.2 = .recv e.wire srcAddr) ∨
    Undisturbed prim speaker node input ∧ Unspoken prim speaker node input

/-- Between tuned nodes, a network that adds no audio of its own is genuine. -/
theorem genuine_of_conveys {tuning : Tuning} (correct : prim.aead.Correct) {speaker : UInt8}
    {speech : List (Bytes × List Emission)}
    (header : ∀ e ∈ speech.flatMap Prod.snd,
      e.header.pktType = pktAudio ∧ e.header.peerId = speaker)
    (sealedWith : ∀ e ∈ speech.flatMap Prod.snd, e.SealedWith prim.aead tuning.ctx)
    {node : Node D} (tuned : Tuned tuning speaker node) {inputs : List (Env D × Event)}
    (conveys : (nodeMachine prim).Along (Conveys prim speaker (speech.flatMap Prod.snd)) node
      inputs) :
    (nodeMachine prim).Along
      (fun node input => ∃ place, Genuine prim speaker speech node (input, place)) node inputs := by
  induction inputs generalizing node with
  | nil => trivial
  | cons input rest ih =>
    obtain ⟨env, event⟩ := input
    rcases conveys.1 with ⟨e, inside, srcAddr, received⟩ | ⟨undisturbed, unspoken⟩
    · obtain rfl : event = .recv e.wire srcAddr := received
      obtain ⟨type, name⟩ := header e inside
      obtain ⟨packet, parsed, same, opened⟩ := tuned.openAudio correct (sealedWith e inside) name
      obtain ⟨said, member, carried⟩ := List.mem_flatMap.mp inside
      obtain ⟨place, there⟩ := List.mem_iff_getElem?.mp member
      rw [← same] at type
      refine ⟨⟨place, ?_⟩,
        ih (tuned.step (undisturbed_of_audio node env srcAddr parsed type)) conveys.2⟩
      rintro _ _ packet' opus peerKeyed ⟨⟩ parsed' _ _ opened'
      cases parsed.symm.trans parsed'
      cases opened.symm.trans opened'
      exact ⟨said, there, e, carried, same.symm, rfl⟩
    · refine ⟨⟨0, ?_⟩, ih (tuned.step undisturbed) conveys.2⟩
      intro data srcAddr packet opus peerKeyed received parsed type name opened
      exact absurd opened (unspoken data srcAddr packet received parsed type name _)

end Node

namespace RunState

variable {σ E D : Type} {prim : Primitives D} {audio : AudioLibrary σ E}

/-- **What is played was said.** A session speaks to a peer that it knows. A network may do to
the packets what it likes, and another session, with nothing buffered of the speaker, may
receive whatever else, as long as only those packets open as audio of the speaker, and come in
time. Then what that session takes for playout are frames that the first has encoded, decoded,
in the order of their encoding and each at most once. -/
theorem speech_played {s : RunState σ E D} (reached : s.node.Reached prim) {id : UInt8}
    {peer : RemotePeer D} (known : s.node.getPeer id = some peer) (turns : List (Turn D))
    {speaker : UInt8} {listener : RunState σ E D} {turns' : List (Turn D)}
    (empty : (listener.node.bufferOf speaker).frames = [])
    {inputs : List ((Env D × Node.Event) × ℕ)}
    (told : inputs.map Prod.fst = listener.events audio turns')
    (genuine : (Node.hearing prim speaker).Along
      (Node.Genuine prim speaker (Node.allSpoken prim id s.node (s.events audio turns)))
      listener.node inputs)
    (inTime : Node.InTime prim speaker listener.node inputs) :
    ∃ heard : List Bytes,
      heard.Sublist ((Capture.machine audio).outputs s.capture (turns.map Turn.heard)) ∧
      List.Forall₂ prim.Decodes heard
        (Node.allTaken prim speaker listener.node (listener.events audio turns')).reduceOption := by
  have counted : Node.Counted peer.sendSeq (Node.allSpoken prim id s.node (s.events audio turns)) :=
    Node.allSpoken_counted (s.events audio turns) reached.keyed known
  obtain ⟨heard, inside, matched⟩ := Node.taken_in_order counted empty genuine inTime
  rw [told] at matched
  refine ⟨heard, inside.trans ?_, matched⟩
  rw [← frames_of_events]
  exact Node.allSpoken_sublist prim id (s.events audio turns) s.node

/-- A short speech is played in order, whenever its packets come. -/
theorem short_speech_played {s : RunState σ E D} (reached : s.node.Reached prim) {id : UInt8}
    {peer : RemotePeer D} (known : s.node.getPeer id = some peer) (turns : List (Turn D))
    (short : (Node.allSpoken prim id s.node (s.events audio turns)).length ≤ 32767)
    {speaker : UInt8} {listener : RunState σ E D} {turns' : List (Turn D)}
    (empty : (listener.node.bufferOf speaker).frames = [])
    (genuine : (nodeMachine prim).Along (fun node input => ∃ place, Node.Genuine prim speaker
        (Node.allSpoken prim id s.node (s.events audio turns)) node (input, place))
      listener.node (listener.events audio turns')) :
    ∃ heard : List Bytes,
      heard.Sublist ((Capture.machine audio).outputs s.capture (turns.map Turn.heard)) ∧
      List.Forall₂ prim.Decodes heard
        (Node.allTaken prim speaker listener.node (listener.events audio turns')).reduceOption := by
  obtain ⟨inputs, told, genuine⟩ := Machine.exists_labelled
    (((nodeMachine prim).along_observe
      (fun node input => Node.bufferOps prim node speaker input.2) _ _ _).mpr genuine)
  refine speech_played reached known turns empty told genuine ?_
  exact Node.inTime_of_short (Node.allSpoken_counted _ reached.keyed known) short empty genuine

end RunState

namespace Sample

/-- A turn in which the joiner receives a packet of the host. -/
def delivery (e : Emission) : Turn Unit :=
  ⟨⟨env 1 3, ⟨true, false, none⟩, some (e.wire, addr 0), true⟩, []⟩

/-- The joiner listens to the host. -/
def listener : RunState Unit Unit Unit :=
  RunState.start AudioLibrary.transparent guest.node false VadConfig.default .alwaysOn () 0

/-- Both frames arrive twice, the second before the first; then two are played. -/
def echoed : List (Turn Unit) :=
  (said.reverse ++ said).map delivery ++ [turn 20000000, turn 40000000]

end Sample

namespace RunState

/-- Two frames that arrive twice and swapped are played in order. -/
theorem echo_played_in_order :
    let taken := (Node.allTaken Primitives.transparent Sample.hostSession.node.peerMgr.localId
      Sample.listener.node
      (Sample.listener.events AudioLibrary.transparent Sample.echoed)).reduceOption
    taken.length = 2 ∧ ∃ heard : List Bytes,
      heard.Sublist ((Capture.machine AudioLibrary.transparent).outputs Sample.hostSession.capture
        ([Sample.quietTurn 1, Sample.quietTurn 2].map Turn.heard)) ∧
      List.Forall₂ Primitives.transparent.Decodes heard taken := by
  obtain ⟨peer, known, _⟩ := Sample.hostSession_peer
  have speech : Node.Speech Primitives.transparent Sample.tuning _ _
      ((Node.allSpoken Primitives.transparent 1 Sample.hostSession.node
        (Sample.hostSession.events AudioLibrary.transparent
          [Sample.quietTurn 1, Sample.quietTurn 2])).flatMap Prod.snd) :=
    Sample.hostSession_speaks.allSpoken _ Sample.hostSession_reached.keyed
      Sample.hostSession_undisturbed
  have same : Sample.listener.node = Sample.guest.node := start_node ..
  refine ⟨by decide +kernel, short_speech_played Sample.hostSession_reached known
    [Sample.quietTurn 1, Sample.quietTurn 2] (by decide +kernel) (by decide +kernel) ?_⟩
  · rw [same]
    refine Node.genuine_of_conveys Aead.transparent_correct speech.header speech.sealedWith
      Sample.guest_tuned (Machine.along_of_forall fun node input member => ?_)
    have delivered : ∀ input ∈ Sample.listener.events AudioLibrary.transparent Sample.echoed,
        (∃ e ∈ Sample.said, input.2 = .recv e.wire (Sample.addr 0)) ∨ input.2 = .playout := by
      decide +kernel
    rcases delivered input member with ⟨e, inside, received⟩ | tick
    · rw [Sample.said] at inside
      exact Or.inl ⟨e, inside, Sample.addr 0, received⟩
    · refine Or.inr ⟨fun data srcAddr received => ?_, fun data srcAddr packet received => ?_⟩
      · cases tick.symm.trans received
      · cases tick.symm.trans received

end RunState

end VoiceChat
